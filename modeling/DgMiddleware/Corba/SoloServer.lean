import DgMiddleware.Corba.Lookup
import DgMiddleware.Corba.Publication

/-! A server process that no other comes in between. Its calls to the naming service are a
run of the publication protocol, and what the two sides see of the service agrees. -/
namespace DgMiddleware.Corba.Publication
open Library

/-- The contexts in the root and their objects are the same. Contexts are known by their
name on one side, and by their identity on the other. -/
structure Represents (ns : NamingService) (naming : Naming CosName ObjectId) : Prop where
  contexts : ∀ name, name ∈ ns.contexts ↔ ∃ c, naming.entries Naming.root name = some (.context c)
  unbound : ∀ name, name ∉ ns.contexts → ∀ k, ns.bindings name k = none
  bindings : ∀ name c, naming.entries Naming.root name = some (.context c) →
    ∀ k, naming.entries c k = (ns.bindings name k).map .object
  distinct : ∀ name name' c, naming.entries Naming.root name = some (.context c) →
    naming.entries Naming.root name' = some (.context c) → name = name'
  proper : ∀ name, naming.entries Naming.root name ≠ some (.context Naming.root)

section Represents
variable {ns : NamingService} {naming : Naming CosName ObjectId} {name : CosName} {c : Nat}

theorem Represents.newContext (h : Represents ns naming) (hnew : naming.entries Naming.root name = none) :
    Represents (ns.withContext name) (naming.newContext Naming.root name naming.root_made) := by
  have hno : name ∉ ns.contexts := fun hmem => by
    obtain ⟨c, hc⟩ := (h.contexts name).mp hmem
    rw [hnew] at hc
    cases hc
  have hroot : naming.made ≠ Naming.root := Nat.ne_of_gt naming.root_made
  have hfresh : ∀ k, naming.entries Naming.root k ≠ some (.context naming.made) := fun k hk =>
    Nat.lt_irrefl _ (naming.inside _ _ _ hk)
  rw [NamingService.withContext, if_neg hno]
  refine ⟨fun k => ?_, fun k hk => ?_, fun k c hk l => ?_, fun k l c hk hl => ?_, fun k hk => ?_⟩
  · rw [Naming.newContext_entries, List.mem_append, List.mem_singleton, h.contexts k]
    by_cases hkn : k = name
    · simp [hkn]
    · simp [hkn]
  · exact h.unbound k fun hmem => hk (List.mem_append_left _ hmem)
  · rw [Naming.newContext_entries] at hk ⊢
    by_cases hkn : k = name
    · obtain rfl : naming.made = c := by simpa [hkn] using hk
      rw [if_neg fun hc => hroot hc.1, hkn, h.unbound name hno]
      exact naming.unmade _ l (Nat.le_refl _)
    · rw [if_neg fun hc => hkn hc.2] at hk
      have hc : c ≠ Naming.root := fun hc => h.proper k (hc ▸ hk)
      rw [if_neg fun hd => hc hd.1]
      exact h.bindings k c hk l
  · rw [Naming.newContext_entries] at hk hl
    by_cases hkn : k = name <;> by_cases hln : l = name
    · rw [hkn, hln]
    · obtain rfl : naming.made = c := by simpa [hkn] using hk
      rw [if_neg fun hc => hln hc.2] at hl
      exact absurd hl (hfresh l)
    · obtain rfl : naming.made = c := by simpa [hln] using hl
      rw [if_neg fun hc => hkn hc.2] at hk
      exact absurd hk (hfresh k)
    · rw [if_neg fun hc => hkn hc.2] at hk
      rw [if_neg fun hc => hln hc.2] at hl
      exact h.distinct k l c hk hl
  · rw [Naming.newContext_entries] at hk
    split at hk
    · exact hroot (Binding.context.inj (Option.some.inj hk))
    · exact h.proper k hk

theorem Represents.setObject (h : Represents ns naming) (hc : c < naming.made)
    (hctx : naming.entries Naming.root name = some (.context c)) (k : CosName) (obj : ObjectId) :
    Represents (ns.rebind name k obj) (naming.put c k (.object obj) hc nofun) := by
  have hroot : Naming.root ≠ c := fun hr => h.proper name (hr ▸ hctx)
  have hkept : ∀ l, (naming.put c k (.object obj) hc nofun).entries Naming.root l =
      naming.entries Naming.root l := by
    intro l
    rw [Naming.put_entries, if_neg fun hd => hroot hd.1]
  refine ⟨fun l => ?_, fun l hl m => ?_, fun l d hl m => ?_, fun l m d hl hm => ?_, fun l hl => ?_⟩
  · rw [hkept]
    exact h.contexts l
  · have hne : l ≠ name := fun hln => hl ((h.contexts l).mpr ⟨c, hln ▸ hctx⟩)
    simp only [NamingService.rebind, hne, false_and, if_false]
    exact h.unbound l hl m
  · rw [hkept] at hl
    rw [Naming.put_entries]
    by_cases hln : l = name
    · subst hln
      obtain rfl : c = d := by simpa using hctx.symm.trans hl
      by_cases hm : m = k
      · simp [NamingService.rebind, hm]
      · simp [NamingService.rebind, hm, h.bindings l c hl m]
    · have hd : d ≠ c := fun hd => hln (h.distinct l name c (hd ▸ hl) hctx)
      simp [NamingService.rebind, hln, hd, h.bindings l d hl m]
  · rw [hkept] at hl hm
    exact h.distinct l m d hl hm
  · rw [hkept] at hl
    exact h.proper l hl

end Represents

/-- The name and the reference that a call of `bind` or `rebind` publishes. -/
def publications (x : System ObjectId × Event ObjectId) : List (String × ObjectId) :=
  if x.1.returns x.2 then ((x.1.caller x.2).map fun reg => (reg.idlStrName, reg.idlObj)).toList else []

section Solo
variable {s : System ObjectId} {ns : NamingService} {i c : Nat}

/-- `createContext` alone: both calls return, with the context bound under `sot`. -/
theorem serve_solo (hs : Sound s) (hrep : Represents ns s.naming) (hphase : s.servers i = .binding) :
    ∃ trace t c, Run Steps s trace t ∧ trace.flatMap publications = [] ∧
      t.servers = Function.update s.servers i (.serving c) ∧ t.registrations = s.registrations ∧
      Represents (ns.withContext sotContext) t.naming := by
  have hstep : Steps s (.bindNewContext i) (s.bindNewContext i) := if_pos hphase
  have hfirst : Run Steps s ([] ++ [(s, .bindNewContext i)]) (s.bindNewContext i) := Run.start.next hstep
  cases hsot : s.naming.entries Naming.root sotContext with
  | none =>
    have hresult : s.bindNewContext i = { s.withServer i (.serving s.naming.made) with
        naming := s.naming.newContext Naming.root sotContext s.naming.root_made } := by
      simp only [System.bindNewContext, Naming.bindNewContext_new s.naming.root_made hsot]
    rw [hresult] at hfirst
    exact ⟨_, _, s.naming.made, hfirst, rfl, rfl, rfl, hrep.newContext hsot⟩
  | some b =>
    obtain ⟨c, rfl⟩ := hs.initial.context b hsot
    have hmem : sotContext ∈ ns.contexts := (hrep.contexts sotContext).mpr ⟨c, hsot⟩
    have htaken : s.bindNewContext i = s.withServer i .resolving := by
      rw [System.bindNewContext, Naming.bindNewContext_taken s.naming.root_made hsot]
    rw [htaken] at hfirst
    have hsecond : Steps (s.withServer i .resolving) (.resolveContext i)
        ((s.withServer i .resolving).withServer i (.serving c)) := by
      have hresolve : s.naming.resolve Naming.root [sotContext] = .ok (.context c) := Naming.resolve_single hsot
      simp [Steps, System.step, System.resolveContext, hresolve, System.withServer]
    refine ⟨_, _, c, hfirst.next hsecond, rfl, by simp [System.withServer], rfl, ?_⟩
    rw [NamingService.withContext, if_pos hmem]
    exact hrep

/-- One more `addIdl`, as far as the given stage. -/
private def begun (s : System ObjectId) (c : Nat) (n : String) (obj : ObjectId) (stage : Stage) : System ObjectId :=
  { s with registrations := s.registrations ++ [⟨c, n, obj, stage⟩] }

private theorem withStage_begun (s : System ObjectId) (c : Nat) (n : String) (obj : ObjectId) (stage stage' : Stage) :
    (begun s c n obj stage).withStage s.registrations.length stage' = begun s c n obj stage' := by
  have hlast : s.registrations.length < (begun s c n obj stage).registrations.length := by simp [begun]
  rw [System.withStage, List.modify_eq_take_cons_drop hlast]
  simp [begun]

/-- `bindIdl` alone: the name ends up with the reference, bound or bound again. -/
theorem register_solo (hs : Sound s) (hrep : Represents ns s.naming) (hphase : s.servers i = .serving c)
    (n : String) (obj : ObjectId) :
    ∃ trace t, Run Steps s trace t ∧ trace.flatMap publications = [(n, obj)] ∧ t.servers = s.servers ∧
      t.registrations = s.registrations ++ [⟨c, n, obj, .bound⟩] ∧
      Represents (ns.rebind sotContext (servantName n) obj) t.naming := by
  have hsot : s.naming.entries Naming.root sotContext = some (.context c) := by
    have hserves := hs.servers i
    rwa [hphase] at hserves
  have hmade : c < s.naming.made := s.naming.inside _ _ _ hsot
  have hset := hrep.setObject hmade hsot (servantName n) obj
  have hbegin : Steps s (.addIdl i n obj) (begun s c n obj .binding) := by simp [Steps, System.step, hphase, begun]
  have hfirst := Run.start.next hbegin
  have hcaller : (begun s c n obj .binding).caller (.bind s.registrations.length) = some ⟨c, n, obj, .binding⟩ := by
    simp [System.caller, begun]
  have hbind : Steps (begun s c n obj .binding) (.bind s.registrations.length)
      ((begun s c n obj .binding).bind s.registrations.length ⟨c, n, obj, .binding⟩) := by
    simp [Steps, System.step, hcaller]
  cases hentry : s.naming.entries c (servantName n) with
  | none =>
    have hok : (begun s c n obj .binding).naming.bind c (servantName n) obj =
        .ok (s.naming.put c (servantName n) (.object obj) hmade nofun) := Naming.bind_new hmade hentry obj
    have hresult : (begun s c n obj .binding).bind s.registrations.length ⟨c, n, obj, .binding⟩ =
        { begun s c n obj .bound with naming := s.naming.put c (servantName n) (.object obj) hmade nofun } := by
      simp only [System.bind, hok, withStage_begun]
    rw [hresult] at hbind
    refine ⟨_, _, hfirst.next hbind, ?_, rfl, rfl, hset⟩
    simp [publications, System.returns, hcaller, hok, Except.isOk, Except.toBool]
  | some b =>
    have htaken : (begun s c n obj .binding).naming.bind c (servantName n) obj = .error .alreadyBound :=
      Naming.bind_taken hmade hentry obj
    have hresult : (begun s c n obj .binding).bind s.registrations.length ⟨c, n, obj, .binding⟩ =
        begun s c n obj .rebinding := by
      simp only [System.bind, htaken, withStage_begun]
    rw [hresult] at hbind
    have hcaller' : (begun s c n obj .rebinding).caller (.rebind s.registrations.length) =
        some ⟨c, n, obj, .rebinding⟩ := by
      simp [System.caller, begun]
    have hok : (begun s c n obj .rebinding).naming.rebind c (servantName n) obj =
        .ok (s.naming.put c (servantName n) (.object obj) hmade nofun) :=
      Naming.rebind_object hmade (fun d => hs.initial.objects c n d hsot) obj
    have hrebind : Steps (begun s c n obj .rebinding) (.rebind s.registrations.length)
        { begun s c n obj .bound with naming := s.naming.put c (servantName n) (.object obj) hmade nofun } := by
      simp [Steps, System.step, hcaller', System.rebind, hok, withStage_begun]
    refine ⟨_, _, (hfirst.next hbind).next hrebind, ?_, rfl, rfl, hset⟩
    simp [publications, System.returns, hcaller, htaken, hcaller', hok, Except.isOk, Except.toBool]

end Solo

section Opening
variable {faults : Faults} {serverName : String} {ns : NamingService}

/-- The server has no context and the service is as it was, or it holds the context of its
name and the service binds it. -/
def Opening (serverName : String) (ns : NamingService) (p : CorbaProcess) : Prop :=
  ∃ g, p.genericServer = some g ∧ g.serverName = serverName ∧
    ((g.hppContext = none ∧ p.naming = ns) ∨
      (g.hppContext = some (contextName serverName) ∧ p.naming = ns.withContext (contextName serverName)))

/-- While a member runs, its object does not change under it. -/
private def Inside (g : CorbaServerGeneric) (serverName : String) (ns : NamingService) (p : CorbaProcess) : Prop :=
  p.genericServer = some g ∧ Opening serverName ns p

private theorem member_opening : Triple (Opening serverName ns) member (fun g => Inside g serverName ns)
    (Opening serverName ns) := by
  rintro p ⟨g, hg, hopening⟩
  rw [member_some hg]
  exact ⟨hg, g, hg, hopening⟩

private theorem assign_opening {g g' : CorbaServerGeneric} (hname : g'.serverName = g.serverName)
    (hcontext : g'.hppContext = g.hppContext) :
    Triple (Inside g serverName ns) (assign g') (fun _ => Opening serverName ns) (Opening serverName ns) := by
  rintro p ⟨hg, g₀, hg₀, hopening⟩
  obtain rfl := Option.some.inj (hg.symm.trans hg₀)
  exact ⟨g', rfl, by rw [hname, hcontext]; exact hopening⟩

/-- A body that changes nothing. -/
private theorem same_opening {β : Type} {g : CorbaServerGeneric} {body : Body β}
    (h : ∀ p, (∃ b, body p = .ret b p) ∨ ∃ x, body p = .raise x p) :
    Triple (Inside g serverName ns) body (fun _ => Inside g serverName ns) (Opening serverName ns) :=
  (Triple.keeps_of_same h).relax fun _ hp => hp.2

private theorem call_opening {g : CorbaServerGeneric} (c : Call) :
    Triple (Inside g serverName ns) (faults.call c) (fun _ => Inside g serverName ns) (Opening serverName ns) := by
  apply same_opening
  intro p
  cases hc : faults.raises c with
  | none => exact .inl ⟨(), call_ok hc p⟩
  | some e => exact .inr ⟨e, call_raise hc p⟩

private theorem through_opening {g : CorbaServerGeneric} (set : Bool) :
    Triple (Inside g serverName ns) (through set) (fun _ => Inside g serverName ns) (Opening serverName ns) := by
  apply same_opening
  intro p
  cases set
  · exact .inr ⟨_, through_false p⟩
  · exact .inl ⟨(), through_true p⟩

private theorem inUse_opening {g : CorbaServerGeneric} :
    Triple (Inside g serverName ns) inUse (fun _ => Inside g serverName ns) (Opening serverName ns) := by
  apply same_opening
  intro p
  by_cases hrun : p.orb = .running
  · exact .inl ⟨(), inUse_running hrun⟩
  · exact .inr ⟨_, inUse_stopped hrun⟩

private theorem initOrb_opening : Keeps (Opening serverName ns) (initOrb faults) := by
  refine Triple.bind member_opening fun server => Triple.bind (call_opening .orbInit) fun _ => ?_
  refine Triple.ite (fun _ => Triple.raise _ fun _ hp => hp.2) fun _ => ?_
  refine Triple.bind (Q := fun _ => Inside server serverName ns) ?_ fun _ => assign_opening rfl rfl
  exact Triple.get_bind fun p hp => Triple.set _ fun _ _ => hp

private theorem createThreadPolicy_opening : Keeps (Opening serverName ns) (createThreadPolicy faults) := by
  refine Triple.bind member_opening fun server => Triple.bind (through_opening _) fun _ => ?_
  refine Triple.bind inUse_opening fun _ => Triple.bind (call_opening .rootPOA) fun _ => ?_
  exact assign_opening rfl rfl

private theorem withContext_twice (ns : NamingService) (name : CosName) :
    (ns.withContext name).withContext name = ns.withContext name := by
  by_cases hmem : name ∈ ns.contexts
  · simp [NamingService.withContext, hmem]
  · simp [NamingService.withContext, hmem]

/-- What the service binds and what the object holds change together. -/
private theorem openContext_opening (server : CorbaServerGeneric) :
    Triple (Inside server serverName ns)
      (openContext faults (contextName serverName) >>= fun context =>
        assign { server with hppContext := some context })
      (fun _ => Opening serverName ns) (Opening serverName ns) := by
  intro p hp
  have hopening := hp.2
  by_cases hopens : faults.OpensContext p.naming (contextName serverName)
  · obtain ⟨hserver, g, hg, hname, hcontext⟩ := hp
    obtain rfl := Option.some.inj (hg.symm.trans hserver)
    rw [Method.bind_apply, openContext_ok hopens]
    refine ⟨_, rfl, hname, .inr ⟨rfl, ?_⟩⟩
    rcases hcontext with ⟨-, hsame⟩ | ⟨-, hsame⟩
    · simp [hsame]
    · simp [hsame, withContext_twice]
  · obtain ⟨x, hx⟩ := openContext_fails hopens
    rw [Method.bind_apply, hx]
    exact hopening

private theorem createContext_opening : Keeps (Opening serverName ns) (createContext faults serverName) := by
  refine Triple.bind member_opening fun server => Triple.bind (through_opening _) fun _ => ?_
  refine Triple.bind inUse_opening fun _ => Triple.bind (call_opening .nameService) fun _ => ?_
  exact Triple.ite (fun _ => Triple.raise _ fun _ hp => hp.2) fun _ => openContext_opening server

private theorem activateContext_opening : Keeps (Opening serverName ns) (activateContext faults) := by
  refine Triple.bind member_opening fun server => Triple.bind (through_opening _) fun _ => ?_
  refine Triple.bind (call_opening .activateManager) fun _ => ?_
  exact Triple.get_bind fun p hp => Triple.set _ fun _ _ => hp.2

/-- However an initialisation ends that found no server. -/
theorem init_opening {c : String} {p q : CorbaProcess} (hserver : p.genericServer = none)
    (h : Ends (initCorbaServer faults c) p q) : Opening (decideContext c) p.naming q := by
  have hinit : Keeps (Opening (decideContext c) p.naming) (init faults) := by
    refine Triple.bind initOrb_opening fun _ => Triple.bind createThreadPolicy_opening fun _ => ?_
    refine Triple.bind (Q := fun server q => server.serverName = decideContext c ∧
      Opening (decideContext c) p.naming q) ?_ fun server => Triple.known fun hname => ?_
    · rintro q ⟨g, hg, hopening⟩
      rw [member_some hg]
      exact ⟨hopening.1, g, hg, hopening⟩
    · rw [hname]
      exact Triple.bind createContext_opening fun _ => activateContext_opening
  have hthread : Keeps (Opening (decideContext c) p.naming) (newThread faults) := by
    refine Triple.bind (Q := fun _ => Opening (decideContext c) p.naming) (Triple.keeps_of_same fun q => ?_) fun _ =>
      Triple.get_bind fun q hq => Triple.set _ fun _ _ => hq
    cases hc : faults.raises .newThread with
    | none => exact .inl ⟨(), call_ok hc q⟩
    | some e => exact .inr ⟨e, call_raise hc q⟩
  have hstart : Opening (decideContext c) p.naming
      { p with genericServer := some (.new (decideContext c)) } := ⟨_, rfl, rfl, .inl ⟨rfl, rfl⟩⟩
  have hall := Triple.bind hinit (fun _ => hthread) _ hstart
  have hbody : initCorbaServer faults c p = (init faults >>= fun _ => newThread faults)
      { p with genericServer := some (.new (decideContext c)) } := by
    simp [initCorbaServer, hserver]
  rw [← hbody] at hall
  rcases h with h | ⟨x, h⟩
  · rwa [h] at hall
  · rwa [h] at hall

end Opening

section Refinement
variable {faults : Faults} {p q : CorbaProcess} {s : System ObjectId} {e : Corba.Event}

/-- The service is the same, the context that the server holds is the one that a server of
the protocol serves, and no registration is under way. -/
structure Matches (p : CorbaProcess) (s : System ObjectId) : Prop where
  sound : Sound s
  represents : Represents p.naming s.naming
  server : ∀ g context, p.genericServer = some g → g.hppContext = some context →
    context = sotContext ∧ ∃ i c, s.servers i = .serving c
  free : ∃ m, ∀ i, m ≤ i → s.servers i = .binding
  bound : ∀ reg ∈ s.registrations, reg.stage = .bound

/-- The process does something that the service takes no part in. -/
private theorem Matches.silent (hs : Matches p s) (hnaming : q.naming = p.naming)
    (hserver : ∀ g context, q.genericServer = some g → g.hppContext = some context →
      ∃ g', p.genericServer = some g' ∧ g'.hppContext = some context) : Matches q s where
  sound := hs.sound
  represents := hnaming ▸ hs.represents
  server g context hg hcontext := by
    obtain ⟨g', hg', hcontext'⟩ := hserver g context hg hcontext
    exact hs.server g' context hg' hcontext'
  free := hs.free
  bound := hs.bound

private theorem matches_init (hs : Matches p s) {c : String}
    (hsot : p.genericServer = none → decideContext c = "sot") (h : Ends (initCorbaServer faults c) p q) :
    ∃ trace t, Run Steps s trace t ∧ trace.flatMap publications = [] ∧ Matches q t := by
  cases hserver : p.genericServer with
  | some g =>
    obtain rfl := h.of_ret (initCorbaServer_again hserver)
    exact ⟨[], s, .start, rfl, hs⟩
  | none =>
    obtain ⟨g, hg, -, ⟨hnone, hnaming⟩ | ⟨hcontext, hnaming⟩⟩ := init_opening hserver h
    · refine ⟨[], s, .start, rfl, hs.silent hnaming fun g' context hg' hcontext => ?_⟩
      obtain rfl := Option.some.inj (hg.symm.trans hg')
      rw [hnone] at hcontext
      cases hcontext
    · rw [hsot hserver] at hcontext hnaming
      obtain ⟨m, hm⟩ := hs.free
      obtain ⟨trace, t, c', hrun, hsilent, hservers, hregs, hrep⟩ :=
        serve_solo hs.sound hs.represents (hm m (Nat.le_refl m))
      refine ⟨trace, t, hrun, hsilent, ?_, hnaming ▸ hrep, ?_, ⟨m + 1, fun i hi => ?_⟩, hregs ▸ hs.bound⟩
      · exact (hrun.always Sound hs.sound fun _ _ _ hs hstep => sound_step hs hstep).2
      · intro g' context hg' hcontext'
        obtain rfl := Option.some.inj (hg.symm.trans hg')
        obtain rfl := Option.some.inj (hcontext.symm.trans hcontext')
        exact ⟨rfl, m, c', by simp [hservers]⟩
      · have hne : i ≠ m := by omega
        rw [hservers, Function.update_of_ne hne]
        exact hm i (by omega)

/-- A registration that returns is matched by one of the protocol, one that throws by none. -/
private theorem matches_add (hs : Matches p s) {entity : Entity}
    (h : Ends (addIdl faults entity entity.name) p q) :
    ∃ trace t, Run Steps s trace t ∧ trace.flatMap publications =
        (match addIdl faults entity entity.name p with
          | .ret _ _ => [(entity.name, nextId p entity.id)]
          | _ => []) ∧ Matches q t := by
  obtain ⟨g, hg, -⟩ := h.added
  rcases addIdl_cases hg faults entity entity.name with
    ⟨-, x, hx⟩ | ⟨-, -, x, hx⟩ | ⟨-, -, context, hcontext, -, hret⟩
  · obtain rfl := h.of_raise hx
    exact ⟨[], s, .start, by simp [hx], hs⟩
  · obtain rfl := h.of_raise hx
    refine ⟨[], s, .start, by simp [hx], hs.silent rfl fun g' context hg' hcontext => ?_⟩
    obtain rfl := Option.some.inj hg'
    exact ⟨g, hg, hcontext⟩
  · obtain rfl := h.of_ret hret
    obtain ⟨rfl, i, c, hphase⟩ := hs.server g context hg hcontext
    obtain ⟨trace, t, hrun, hshown, hservers, hregs, hrep⟩ :=
      register_solo hs.sound hs.represents hphase entity.name (nextId p entity.id)
    refine ⟨trace, t, hrun, by rw [hshown, hret], ?_, hrep, ?_, hservers ▸ hs.free, fun reg hmem => ?_⟩
    · exact (hrun.always Sound hs.sound fun _ _ _ hs hstep => sound_step hs hstep).2
    · intro g' context hg' hcontext'
      obtain rfl := Option.some.inj hg'
      exact ⟨Option.some.inj (hcontext'.symm.trans hcontext), i, c, by rw [hservers, hphase]⟩
    · rw [hregs] at hmem
      rcases List.mem_append.mp hmem with hmem | hmem
      · exact hs.bound reg hmem
      · rw [List.mem_singleton.mp hmem]

/-- The name and the reference of a registration that returned. -/
def registrations (x : CorbaProcess × Corba.Event) : List (String × ObjectId) :=
  ((registration x.1 x.2).map fun (_, entity, id) => (entity.name, id)).toList

/-- A server is only made for the context that clients ask in. -/
def ForClients (p : CorbaProcess) (e : Corba.Event) : Prop :=
  p.genericServer = none → ∀ c ∈ asksFor p e.op, decideContext c = "sot"

instance (p : CorbaProcess) (e : Corba.Event) : Decidable (ForClients p e) := by
  unfold ForClients
  infer_instance

private theorem registrations_eq {id : Nat} {command : Command} {result : Except CorbaException Unit}
    {entity : Entity} {g : CorbaServerGeneric} {u : CorbaProcess}
    (hfind : p.entities.find? (·.id = id) = some entity)
    (hcommand : commandLine faults entity command p = addIdl faults entity entity.name u)
    (hg : u.genericServer = some g) (hcontext : registrationContext p command = g.hppContext)
    (hnext : nextId u entity.id = nextId p entity.id)
    (h : Corba.Steps p ⟨faults, .command id command, result⟩ q) :
    registrations (p, ⟨faults, .command id command, result⟩) =
      match addIdl faults entity entity.name u with
      | .ret _ _ => [(entity.name, nextId u entity.id)]
      | _ => [] := by
  have hperform : Corba.perform faults (.command id command) p = addIdl faults entity entity.name u :=
    (withEntity_some (commandLine faults · command) hfind).trans hcommand
  rcases addIdl_cases hg faults entity entity.name with
    ⟨-, x, hx⟩ | ⟨-, -, x, hx⟩ | ⟨-, -, context, hctx, -, hret⟩
  · obtain ⟨rfl, -⟩ := h.of_raise (hperform.trans hx)
    rw [hx]
    rfl
  · obtain ⟨rfl, -⟩ := h.of_raise (hperform.trans hx)
    rw [hx]
    rfl
  · obtain ⟨rfl, -⟩ := h.of_ret (hperform.trans hret)
    simp [registrations, registration, hfind, hcontext, hctx, hret, hnext]

private theorem matches_close (hs : Matches p s) (h : Ends (closeCorbaServer faults) p q) : Matches q s := by
  rcases h.close_cases with ⟨-, rfl⟩ | ⟨g, hg, ⟨objects, -, rfl | rfl⟩ | ⟨-, rfl⟩⟩
  · exact hs
  · exact hs.silent rfl fun g' context hg' hcontext => ⟨g', hg', hcontext⟩
  · refine hs.silent rfl fun g' context hg' hcontext => ⟨g, hg, ?_⟩
    obtain rfl := Option.some.inj hg'
    exact hcontext
  · exact hs.silent rfl fun g' context hg' _ => by cases hg'

theorem matches_step (hs : Matches p s) (hsot : ForClients p e) (h : Corba.Steps p e q) :
    ∃ trace t, Run Steps s trace t ∧ trace.flatMap publications = registrations (p, e) ∧ Matches q t := by
  obtain ⟨faults, op, result⟩ := e
  have heffect := h.effect
  cases heffect with
  | initialised hinit => exact matches_init hs (fun hnone => hsot hnone _ rfl) hinit
  | closed hclose => exact ⟨[], s, .start, rfl, matches_close hs hclose⟩
  | nameTaken | notFound | requested => exact ⟨[], s, .start, rfl, hs⟩
  | created | destroyed =>
    exact ⟨[], s, .start, rfl, hs.silent rfl fun g context hg hcontext => ⟨g, hg, hcontext⟩⟩
  | noEntity hfind =>
    refine ⟨[], s, .start, ?_, hs⟩
    cases result <;> simp [registrations, registration, hfind]
  | @initCorba id entity cmdArgs _ hfind hinit =>
    obtain ⟨trace, t, hrun, hshown, ht⟩ :=
      matches_init hs (fun hnone => hsot hnone _ (by simp [asksFor, hfind])) hinit
    refine ⟨trace, t, hrun, hshown.trans ?_, ht⟩
    cases result <;> simp [registrations, registration, hfind, registrationContext]
  | @initFails id entity cmdArgs x _ hfind hinit =>
    have hraise : Corba.perform faults (.command id (.initAndStart cmdArgs)) p = .raise x q := by
      refine (withEntity_some (commandLine faults · (.initAndStart cmdArgs)) hfind).trans ?_
      simp [commandLine, hinit]
    obtain ⟨rfl, -⟩ := h.of_raise hraise
    exact matches_init hs (fun hnone => hsot hnone _ (by simp [asksFor, hfind])) (.inr ⟨x, hinit⟩)
  | start hfind hadd =>
    obtain ⟨g, hg, -⟩ := hadd.added
    have hcontext : registrationContext p .start = g.hppContext := by simp [registrationContext, hg]
    rw [registrations_eq hfind rfl hg hcontext rfl h]
    exact matches_add hs hadd
  | @initAndStart id entity cmdArgs u _ hfind hinit hadd =>
    obtain ⟨g, hg, -⟩ := hadd.added
    have hcommand : commandLine faults entity (.initAndStart cmdArgs) p = addIdl faults entity entity.name u := by
      simp [commandLine, hinit, registerCorbaServant]
    have hnext : nextId u entity.id = nextId p entity.id := by
      rw [nextId, (init_naming (.inl hinit)).2, nextId]
    rw [registrations_eq hfind hcommand hg (context_after hinit hg) hnext h]
    obtain ⟨before, t, hfirst, hsilent, ht⟩ :=
      matches_init hs (fun hnone => hsot hnone _ (by simp [asksFor, hfind])) (.inl hinit)
    obtain ⟨after, t', hsecond, hshown, ht'⟩ := matches_add ht hadd
    exact ⟨before ++ after, t', hfirst.append hsecond, by simp [List.flatMap_append, hsilent, hshown], ht'⟩

/-- Every run of a process, whatever fails in it, is matched by a run of the publication
protocol that publishes the same references under the same names in the same order; and
the service then answers a client for each name as the process left it. -/
theorem process_refines {ns : NamingService} {naming : Naming CosName ObjectId}
    {trace : List (CorbaProcess × Corba.Event)} (hinit : Initial naming) (hrep : Represents ns naming)
    (h : Run Corba.Steps (.fresh ns) trace p) (hsot : ∀ x ∈ trace, ForClients x.1 x.2) :
    ∃ trace' s, Run Steps (.start naming) trace' s ∧
      trace'.flatMap publications = trace.flatMap registrations ∧
      ∀ n, s.naming.lookup (clientName n "servant") =
        (p.naming.bindings sotContext (servantName n)).map .object := by
  have hstart : Matches (.fresh ns) (.start naming) := by
    refine ⟨⟨hinit, fun _ => trivial, ?_⟩, hrep, ?_, ⟨0, fun _ _ => rfl⟩, ?_⟩
    · exact fun reg hreg => absurd hreg List.not_mem_nil
    · intro g context hg
      cases hg
    · exact fun reg hreg => absurd hreg List.not_mem_nil
  obtain ⟨trace', s, hrun, hshown, hs⟩ := h.simulates_runs Matches ForClients registrations publications hstart
    (fun _ _ _ _ hs hc hstep => matches_step hs hc hstep) hsot
  refine ⟨trace', s, hrun, hshown, fun n => ?_⟩
  cases hentry : s.naming.entries Naming.root sotContext with
  | none =>
    have hno : sotContext ∉ p.naming.contexts := fun hmem => by
      obtain ⟨c, hc⟩ := (hs.represents.contexts sotContext).mp hmem
      rw [hentry] at hc
      cases hc
    rw [lookup_unbound hentry, hs.represents.unbound sotContext hno]
    rfl
  | some b =>
    obtain ⟨c, rfl⟩ := hs.sound.initial.context b hentry
    rw [lookup_servant hentry, hs.represents.bindings sotContext c hentry]

end Refinement

theorem process_refines_replaced : ∃ (trace' : List (System ObjectId × Event ObjectId)) (s : System ObjectId),
    Run Steps (.start Naming.empty) trace' s ∧
      trace'.flatMap publications = [("a", ⟨0, 0⟩), ("b", ⟨1, 1⟩), ("a", ⟨2, 2⟩)] := by
  have hempty : Represents emptyNaming Naming.empty := by
    constructor <;> simp [emptyNaming, Naming.empty]
  have hrun := run_execute (.fresh emptyNaming) replaced
  have hsot : ∀ x ∈ (execute (.fresh emptyNaming) replaced).1, ForClients x.1 x.2 := by decide +kernel
  have hregistered : (execute (.fresh emptyNaming) replaced).1.flatMap registrations =
      [("a", ⟨0, 0⟩), ("b", ⟨1, 1⟩), ("a", ⟨2, 2⟩)] := by decide +kernel
  obtain ⟨trace', s, hmatch, hshown, -⟩ := process_refines initial_empty hempty hrun hsot
  exact ⟨trace', s, hmatch, hshown.trans hregistered⟩

end DgMiddleware.Corba.Publication
