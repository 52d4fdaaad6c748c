import DgMiddleware.Server.Notification

/-! What the loop of `notifyClients` guarantees while the list changes: which requests it
tolerates, that it comes to its end, and whom it has called by then. -/
namespace DgMiddleware.Server.Notification
open Library
variable {α : Type}

/-- The iterator, where the next step of the loop uses it. -/
def Phase.used : Phase → Option Node
  | .check iter => iter
  | .read iter | .advance iter => some iter
  | _ => none

def IteratorLive (l : Loop α) : Prop :=
  ∀ iter ∈ l.phase.used, iter.erased = false ∧ iter.name ∈ l.server.callbackList

/-- No entry is erased whose iterator is used next, and no call returns whose entry was
erased in the meantime. -/
def Keeps (l : Loop α) : Event → Prop
  | .unregisterClient clientName => ∀ iter ∈ l.phase.used, iter.name ≠ clientName
  | .proceed => ∀ iter, l.phase = .reply iter → iter.erased = false
  | .raised | .registerClient .. => True

instance (l : Loop α) (e : Event) : Decidable (Keeps l e) :=
  match e with
  | .unregisterClient clientName => inferInstanceAs (Decidable (∀ iter ∈ l.phase.used, iter.name ≠ clientName))
  | .proceed =>
    decidable_of_iff (∀ iter ∈ (match l.phase with | .reply iter => some iter | _ => none), iter.erased = false)
      (by cases h : l.phase <;> simp [Keeps, h])
  | .raised | .registerClient .. => isTrue trivial

/-- The client was in the list under the name all the time. -/
def RegisteredThroughout (trace : List (Loop α × Event)) (l : Loop α) (name : String) (client : NotifyCallback) :
    Prop :=
  (∀ x ∈ trace, x.1.server.callbackList[name]? = some client) ∧ l.server.callbackList[name]? = some client

def Event.ofLoop : Event → Bool
  | .proceed | .raised => true
  | .registerClient .. | .unregisterClient _ => false

def Event.registers : Event → Bool
  | .registerClient .. => true
  | .proceed | .raised | .unregisterClient _ => false

/-- The loop tolerates the requests served during a run: its iterator is live whenever it
is used, the loop is never stuck and comes to its end unless clients keep registering, and
if it returns then every client that stayed registered was called once. -/
structure Tolerates (trace : List (Loop α × Event)) (l : Loop α) : Prop where
  live : (∀ x ∈ trace, IteratorLive x.1) ∧ IteratorLive l
  proceeds : l.phase = .returned ∨ l.phase = .threw ∨ ∃ l', Steps l .proceed l'
  ends : ∀ trace' l', Run Steps l trace' l' → (∀ x ∈ trace', x.2.registers = false) →
    trace'.countP (·.2.ofLoop) ≤ 5 * l.server.callbackList.size + 6
  once : l.phase = .returned → ∀ name client, RegisteredThroughout trace l name client →
    l.notified.count (name, client) = 1

section Live
variable {l l' : Loop α} {e : Event}

/-- The iterator, as long as the loop holds it. -/
def Phase.held : Phase → Option Node
  | .check iter => iter
  | .read iter | .call iter _ | .reply iter | .advance iter => some iter
  | _ => none

theorem used_erase (p : Phase) (clientName : String) :
    (p.erase clientName).used = p.used.map (·.erase clientName) := by
  cases p <;> rfl

theorem held_erase (p : Phase) (clientName : String) :
    (p.erase clientName).held = p.held.map (·.erase clientName) := by
  cases p <;> rfl

theorem used_held {p : Phase} {iter : Node} (h : iter ∈ p.used) : iter ∈ p.held := by
  cases p <;> first | exact h | cases h

/-- No iterator that the next step uses is that of an erased entry. -/
def Unerased (l : Loop α) : Prop := ∀ iter ∈ l.phase.used, iter.erased = false

/-- The entry of an iterator is in the list until it is erased. -/
def Tracked (l : Loop α) : Prop :=
  ∀ iter ∈ l.phase.held, iter.erased = false → iter.name ∈ l.server.callbackList

private theorem entryAfter_unerased {server : ServerCommand α} {cursor : WithBot String} {iter : Node}
    (h : iter ∈ entryAfter server cursor) : iter.erased = false ∧ iter.name ∈ server.callbackList := by
  obtain ⟨name, hname, rfl⟩ := Option.map_eq_some_iff.mp h
  exact ⟨rfl, Std.ExtTreeMap.mem_keys.mp (nextKey_mem hname)⟩

private theorem tracked_step (hl : Tracked l) (h : Steps l e l') : Tracked l' := by
  have heffect := h.effect
  cases heffect with
  | begin | advance => exact fun iter hiter _ => (entryAfter_unerased hiter).2
  | through | raised => exact fun iter hiter => nomatch hiter
  | enter hphase | read hphase | call hphase | reply hphase =>
    refine fun iter hiter => hl iter ?_
    rw [hphase]
    exact hiter
  | registered =>
    intro iter hiter hlive
    exact Std.ExtTreeMap.mem_insert.mpr (.inr (hl iter hiter hlive))
  | @unregistered clientName =>
    intro iter hiter hlive
    rw [held_erase] at hiter
    obtain ⟨old, hold, rfl⟩ := Option.map_eq_some_iff.mp hiter
    unfold Node.erase at hlive ⊢
    by_cases hname : old.name = clientName
    · simp [hname] at hlive
    · simp only [hname, if_false] at hlive ⊢
      refine Std.ExtTreeMap.mem_erase.mpr ⟨?_, hl old hold hlive⟩
      simpa [Std.LawfulEqCmp.compare_eq_iff_eq] using fun heq => hname heq.symm

/-- A step keeps the iterators usable exactly when it does not erase the entry of one. -/
private theorem unerased_step (hl : Unerased l) (h : Steps l e l') : Unerased l' ↔ Keeps l e := by
  have heffect := h.effect
  cases heffect with
  | begin hphase | advance hphase =>
    refine iff_of_true (fun iter hiter => (entryAfter_unerased hiter).1) fun iter hreply => ?_
    rw [hphase] at hreply
    cases hreply
  | through hphase | read hphase | call hphase =>
    refine iff_of_true (fun iter hiter => ?_) fun iter hreply => ?_
    · cases hiter
    · rw [hphase] at hreply
      cases hreply
  | enter hphase hlive =>
    refine iff_of_true (fun iter hiter => ?_) fun iter hreply => ?_
    · cases hiter
      exact hlive
    · rw [hphase] at hreply
      cases hreply
  | @reply iter hphase =>
    simp only [Unerased, Phase.used, Option.mem_def, Option.some.injEq, forall_eq', Keeps, hphase, Phase.reply.injEq]
  | raised =>
    refine iff_of_true (fun iter hiter => ?_) trivial
    cases hiter
  | registered => exact iff_of_true hl trivial
  | @unregistered clientName =>
    unfold Unerased
    simp only [used_erase, Option.mem_map, Keeps]
    constructor
    · intro h iter hiter heq
      have := h _ ⟨iter, hiter, rfl⟩
      simp [Node.erase, heq] at this
    · rintro h _ ⟨iter, hiter, rfl⟩
      simpa [Node.erase, h iter hiter] using hl iter hiter

theorem start_holds_none (server : ServerCommand α) : (Loop.start server).phase.held = none := rfl

private theorem tracked_start (server : ServerCommand α) : Tracked (.start server) := by
  simp [Tracked, start_holds_none]

private theorem unerased_start (server : ServerCommand α) : Unerased (.start server) := by
  simp [Unerased, Loop.start, Phase.used]

private theorem tracked_run {server : ServerCommand α} {trace : List (Loop α × Event)}
    (h : Run Steps (.start server) trace l) : (∀ x ∈ trace, Tracked x.1) ∧ Tracked l :=
  h.always Tracked (tracked_start server) fun _ _ _ hl hs => tracked_step hl hs

private theorem iteratorLive_iff (hl : Tracked l) : IteratorLive l ↔ Unerased l :=
  ⟨fun h iter hiter => (h iter hiter).1,
    fun h iter hiter => ⟨h iter hiter, hl iter (used_held hiter) (h iter hiter)⟩⟩

private theorem proceeds_of_unerased (ht : Tracked l) (hl : Unerased l) :
    l.phase = .returned ∨ l.phase = .threw ∨ ∃ l', Steps l .proceed l' := by
  obtain ⟨server, phase, notified⟩ := l
  cases phase with
  | returned => exact .inl rfl
  | threw => exact .inr (.inl rfl)
  | begin => exact .inr (.inr ⟨_, rfl⟩)
  | call iter listen => exact .inr (.inr ⟨_, rfl⟩)
  | reply iter => exact .inr (.inr ⟨_, rfl⟩)
  | check iter =>
    cases iter with
    | none => exact .inr (.inr ⟨_, rfl⟩)
    | some iter =>
      have hlive : iter.erased = false := hl iter rfl
      exact .inr (.inr ⟨_, by simp [Steps, Loop.step, Loop.proceed, hlive]; rfl⟩)
  | read iter =>
    have hlive : iter.erased = false := hl iter rfl
    obtain ⟨listen, hlisten⟩ := Option.isSome_iff_exists.mp
      (Std.ExtTreeMap.mem_iff_isSome_getElem?.mp (ht iter rfl hlive))
    exact .inr (.inr ⟨_, by simp [Steps, Loop.step, Loop.proceed, hlive, hlisten]; rfl⟩)
  | advance iter =>
    have hlive : iter.erased = false := hl iter rfl
    exact .inr (.inr ⟨_, by simp [Steps, Loop.step, Loop.proceed, hlive]; rfl⟩)

end Live

section Ends
variable {l l' : Loop α} {e : Event} {trace : List (Loop α × Event)}

/-- The entries that the loop has still to visit from an entry on. -/
def Loop.ahead (l : Loop α) (cursor : WithBot String) : Nat :=
  (keysAbove l.server.callbackList.keys cursor).length

/-- How many steps are left in a phase, when so many entries are ahead of each. -/
def Phase.weight (ahead : WithBot String → Nat) : Phase → Nat
  | .begin => 5 * ahead ⊥ + 2
  | .check none => 1
  | .check (some iter) => 5 * ahead iter.name + 6
  | .read iter => 5 * ahead iter.name + 5
  | .call iter _ => 5 * ahead iter.name + 4
  | .reply iter => 5 * ahead iter.name + 3
  | .advance iter => 5 * ahead iter.name + 2
  | .returned | .threw => 0

def Loop.remaining (l : Loop α) : Nat := l.phase.weight l.ahead

theorem erase_name (iter : Node) (clientName : String) : (iter.erase clientName).name = iter.name := by
  unfold Node.erase
  split <;> rfl

private theorem weight_erase (p : Phase) (clientName : String) (ahead : WithBot String → Nat) :
    (p.erase clientName).weight ahead = p.weight ahead := by
  cases p with
  | check iter => cases iter <;> simp [Phase.erase, Phase.weight, erase_name]
  | _ => simp [Phase.erase, Phase.weight, erase_name]

private theorem weight_mono {ahead ahead' : WithBot String → Nat} (h : ∀ cursor, ahead' cursor ≤ ahead cursor)
    (p : Phase) : p.weight ahead' ≤ p.weight ahead := by
  have hmul : ∀ cursor, 5 * ahead' cursor ≤ 5 * ahead cursor := fun cursor => Nat.mul_le_mul_left 5 (h cursor)
  cases p with
  | check iter => cases iter <;> simp [Phase.weight, hmul]
  | _ => simp [Phase.weight, hmul]

private theorem remaining_le (l : Loop α) : l.remaining ≤ 5 * l.server.callbackList.size + 6 := by
  have hsize : ∀ cursor, l.ahead cursor ≤ l.server.callbackList.size := by
    intro cursor
    rw [← Std.ExtTreeMap.length_keys]
    exact List.length_filter_le _ _
  refine (weight_mono hsize l.phase).trans ?_
  cases l.phase with
  | check iter => cases iter <;> simp [Phase.weight]
  | _ => simp [Phase.weight]

private theorem weight_entryAfter (l : Loop α) (cursor : WithBot String) :
    (Phase.check (entryAfter l.server cursor)).weight l.ahead < 5 * l.ahead cursor + 2 := by
  unfold entryAfter
  cases hnext : nextKey l.server.callbackList.keys cursor with
  | none =>
    simp only [Phase.weight, Option.map_none]
    omega
  | some name =>
    have hless : l.ahead name < l.ahead cursor := keysAbove_nextKey hnext
    simp only [Phase.weight, Option.map_some]
    omega

/-- A step of the loop brings it nearer to its end, and an erasure takes it no farther. -/
private theorem remaining_step (h : Steps l e l') (hno : e.registers = false) :
    l'.remaining + (if e.ofLoop then 1 else 0) ≤ l.remaining := by
  have heffect := h.effect
  unfold Loop.remaining
  cases heffect with
  | begin hphase =>
    rw [hphase]
    exact weight_entryAfter l ⊥
  | @advance iter hphase =>
    rw [hphase]
    exact weight_entryAfter l iter.name
  | through hphase | enter hphase | read hphase | call hphase | reply hphase | raised hphase =>
    rw [hphase]
    simp [Phase.weight, Event.ofLoop, Loop.ahead]
  | registered => cases hno
  | unregistered =>
    rw [weight_erase]
    refine weight_mono (fun cursor => ?_) l.phase
    exact keysAbove_length_le Std.ExtTreeMap.nodup_keys fun _ hx => mem_of_mem_erase hx

private theorem ofLoop_le (h : Run Steps l trace l') (hno : ∀ x ∈ trace, x.2.registers = false) :
    l'.remaining + trace.countP (·.2.ofLoop) ≤ l.remaining := by
  induction h with
  | start => simp
  | next _ hs ih =>
    have hold := ih fun x hx => hno x (List.mem_append_left _ hx)
    have hstep := remaining_step hs (hno _ (List.mem_append_right _ (List.mem_singleton_self _)))
    rw [List.countP_append, List.countP_singleton]
    simp only at hstep ⊢
    omega

end Ends

section Once
variable {l l' : Loop α} {e : Event} {trace : List (Loop α × Event)} {name : String} {client : NotifyCallback}

/-- The loop has called, or left behind, an entry of the name. -/
def Phase.passed : Phase → String → Prop
  | .begin, _ => False
  | .check none, _ => True
  | .check (some iter), name | .read iter, name | .call iter _, name => name < iter.name
  | .reply iter, name | .advance iter, name => name ≤ iter.name
  | .returned, _ | .threw, _ => True

/-- What the calls made so far have to do with the names the loop has passed. -/
structure Calls (trace : List (Loop α × Event)) (l : Loop α) : Prop where
  ordered : (l.notified.map Prod.fst).Pairwise (· < ·)
  passed : ∀ call ∈ l.notified, l.phase.passed call.1
  complete : l.phase ≠ .threw → ∀ name client, RegisteredThroughout trace l name client →
    l.phase.passed name → (name, client) ∈ l.notified
  current : ∀ iter listen, l.phase = .call iter listen →
    ∀ client, RegisteredThroughout trace l iter.name client → listen = client

theorem passed_erase (p : Phase) (clientName name : String) :
    (p.erase clientName).passed name = p.passed name := by
  cases p with
  | check iter => cases iter <;> simp [Phase.erase, Phase.passed, erase_name]
  | _ => simp [Phase.erase, Phase.passed, erase_name]

/-- Moving on passes the names up to the iterator, and no other that is in the list. -/
private theorem passed_entryAfter {server : ServerCommand α} {cursor : WithBot String}
    (hname : server.callbackList[name]? = some client) :
    (Phase.check (entryAfter server cursor)).passed name ↔ (name : WithBot String) ≤ cursor := by
  unfold entryAfter
  have hmem := mem_keys_of_lookup hname
  cases hnext : nextKey server.callbackList.keys cursor with
  | none => exact iff_of_true trivial (nextKey_none hnext name hmem)
  | some next =>
    simp only [Option.map_some, Phase.passed]
    constructor
    · intro hlt
      by_contra hpast
      exact absurd (nextKey_le (keys_sorted _) hnext name hmem (not_le.mp hpast)) (not_le.mpr hlt)
    · intro hle
      exact WithBot.coe_lt_coe.mp (hle.trans_lt (cursor_lt_nextKey hnext))

private theorem passed_entryAfter_of_le {server : ServerCommand α} {cursor : WithBot String}
    (hle : (name : WithBot String) ≤ cursor) : (Phase.check (entryAfter server cursor)).passed name := by
  unfold entryAfter
  cases hnext : nextKey server.callbackList.keys cursor with
  | none => trivial
  | some next => exact WithBot.coe_lt_coe.mp (hle.trans_lt (cursor_lt_nextKey hnext))

theorem RegisteredThroughout.before (h : RegisteredThroughout (trace ++ [(l, e)]) l' name client) :
    RegisteredThroughout trace l name client :=
  ⟨fun x hx => h.1 x (List.mem_append_left _ hx), h.1 (l, e) (by simp)⟩

private theorem calls_step (hc : Calls trace l) (h : Steps l e l') : Calls (trace ++ [(l, e)]) l' := by
  obtain ⟨hordered, hpassed, hcomplete, hcurrent⟩ := hc
  have heffect := h.effect
  cases heffect with
  | begin hphase =>
    rw [hphase] at hpassed
    have hnil : l.notified = [] := List.eq_nil_iff_forall_not_mem.mpr fun call hcall => hpassed call hcall
    refine ⟨hordered, fun call hcall => (hpassed call hcall).elim, fun _ name client hreg hp => ?_, nofun⟩
    exact absurd ((passed_entryAfter hreg.2).mp hp) (by simp)
  | through hphase | enter hphase | reply hphase =>
    rw [hphase] at hpassed hcomplete
    exact ⟨hordered, hpassed, fun _ name client hreg hp => hcomplete nofun name client hreg.before hp, nofun⟩
  | read hphase hlive hlisten =>
    rw [hphase] at hpassed hcomplete
    refine ⟨hordered, hpassed, fun _ name client hreg hp => hcomplete nofun name client hreg.before hp, ?_⟩
    rintro _ _ ⟨⟩ client hreg
    exact Option.some.inj (hlisten.symm.trans hreg.2)
  | @call iter listen hphase =>
    rw [hphase] at hpassed hcomplete
    refine ⟨?_, ?_, fun _ name client hreg hp => ?_, nofun⟩
    · rw [List.map_append, List.pairwise_append]
      refine ⟨hordered, List.pairwise_singleton _ _, fun name hname last hlast => ?_⟩
      obtain ⟨call, hcall, rfl⟩ := List.mem_map.mp hname
      obtain rfl := List.mem_singleton.mp hlast
      exact hpassed call hcall
    · intro call hcall
      rcases List.mem_append.mp hcall with hcall | hcall
      · exact le_of_lt (hpassed call hcall)
      · obtain rfl := List.mem_singleton.mp hcall
        exact le_refl iter.name
    · rcases lt_or_eq_of_le hp with hlt | rfl
      · exact List.mem_append_left _ (hcomplete nofun name client hreg.before hlt)
      · rw [hcurrent iter listen hphase client hreg.before]
        exact List.mem_append_right _ (List.mem_singleton_self _)
  | @advance iter hphase =>
    rw [hphase] at hpassed hcomplete
    refine ⟨hordered, fun call hcall => ?_, fun _ name client hreg hp => ?_, nofun⟩
    · exact passed_entryAfter_of_le (WithBot.coe_le_coe.mpr (hpassed call hcall))
    · refine hcomplete nofun name client hreg.before ?_
      exact WithBot.coe_le_coe.mp ((passed_entryAfter hreg.2).mp hp)
  | raised hphase => exact ⟨hordered, fun _ _ => trivial, fun hno => absurd rfl hno, nofun⟩
  | registered =>
    exact ⟨hordered, hpassed, fun hno name client hreg hp => hcomplete hno name client hreg.before hp,
      fun iter listen hphase client hreg => hcurrent iter listen hphase client hreg.before⟩
  | @unregistered clientName =>
    refine ⟨hordered, ?_, fun hno name client hreg hp => ?_, ?_⟩
    · simpa only [passed_erase] using hpassed
    · rw [passed_erase] at hp
      refine hcomplete (fun hthrew => hno ?_) name client hreg.before hp
      simp [hthrew, Phase.erase]
    · intro iter listen hphase client hreg
      cases hold : l.phase <;> simp only [hold, Phase.erase] at hphase <;> cases hphase
      rename_i old
      rw [erase_name] at hreg
      exact hcurrent old listen hold client hreg.before

private theorem calls_start (server : ServerCommand α) : Calls [] (.start server) where
  ordered := List.Pairwise.nil
  passed := by simp [Loop.start]
  complete := by simp [Loop.start, Phase.passed]
  current := by simp [Loop.start]

theorem calls_run {server : ServerCommand α} (h : Run Steps (.start server) trace l) : Calls trace l :=
  h.history Calls (calls_start server) fun _ _ _ _ _ hc hstep => calls_step hc hstep

/-- A loop that returned has called every client that stayed registered once. -/
theorem notified_once {server : ServerCommand α} (h : Run Steps (.start server) trace l)
    (hreturned : l.phase = .returned) (hreg : RegisteredThroughout trace l name client) :
    l.notified.count (name, client) = 1 := by
  obtain ⟨hordered, -, hcomplete, -⟩ := calls_run h
  have hmem : (name, client) ∈ l.notified := by
    refine hcomplete ?_ name client hreg ?_ <;> simp [hreturned, Phase.passed]
  have hnodup : l.notified.Nodup := List.Nodup.of_map Prod.fst (hordered.imp fun hlt => ne_of_lt hlt)
  exact List.count_eq_one_of_mem hnodup hmem

end Once

/-- A run of the loop with the requests served meanwhile goes well exactly when no entry
is erased whose iterator is used next, and no call returns whose entry was erased. -/
theorem tolerates_iff {server : ServerCommand α} {trace : List (Loop α × Event)} {l : Loop α}
    (h : Run Steps (.start server) trace l) : Tolerates trace l ↔ ∀ x ∈ trace, Keeps x.1 x.2 := by
  obtain ⟨hvisited, htracked⟩ := tracked_run h
  have hlive : ((∀ x ∈ trace, IteratorLive x.1) ∧ IteratorLive l) ↔
      (∀ x ∈ trace, Unerased x.1) ∧ Unerased l :=
    and_congr (forall₂_congr fun x hx => iteratorLive_iff (hvisited x hx)) (iteratorLive_iff htracked)
  rw [← h.forall_states_iff Unerased Keeps (unerased_start server) fun _ _ _ hi hs => unerased_step hi hs]
  constructor
  · intro ht
    exact hlive.mp ht.live
  · intro hunerased
    refine ⟨hlive.mpr hunerased, proceeds_of_unerased htracked hunerased.2, ?_, fun hreturned name client hreg =>
      notified_once h hreturned hreg⟩
    intro trace' l' h' hno
    have hbound := ofLoop_le h' hno
    have hsize := remaining_le l
    omega

section Uninterrupted
variable {server : ServerCommand α} {l l' : Loop α} {trace : List (Loop α × Event)}

/-- No request was served since the loop began. -/
structure Alone (server : ServerCommand α) (l : Loop α) : Prop where
  unchanged : l.server = server
  live : ∀ iter ∈ l.phase.held, iter.erased = false ∧ iter.name ∈ server.callbackList
  phase : l.phase ≠ .threw

private theorem alone_start (server : ServerCommand α) : Alone server (.start server) :=
  ⟨rfl, by simp [start_holds_none], by simp [Loop.start]⟩

private theorem alone_step (hl : Alone server l) (h : Steps l .proceed l') : Alone server l' := by
  obtain ⟨rfl, hlive, hphase⟩ := hl
  have heffect := h.effect
  cases heffect with
  | begin | advance => exact ⟨rfl, fun iter hiter => entryAfter_unerased hiter, by simp⟩
  | through => exact ⟨rfl, by simp [Phase.held], by simp⟩
  | enter hphase | read hphase | call hphase | reply hphase =>
    refine ⟨rfl, fun iter hiter => hlive iter ?_, by simp⟩
    rw [hphase]
    exact hiter

private theorem alone_proceeds (hl : Alone server l) : l.phase = .returned ∨ ∃ l', Steps l .proceed l' := by
  have htracked : Tracked l := fun iter hiter _ => hl.unchanged.symm ▸ (hl.live iter hiter).2
  rcases proceeds_of_unerased htracked fun iter hiter => (hl.live iter (used_held hiter)).1 with h | h | h
  · exact .inl h
  · exact absurd h hl.phase
  · exact .inr h

/-- A loop that nothing interferes with comes to its end. -/
private theorem alone_returns (h : Run Steps (.start server) trace l) (hproceed : ∀ x ∈ trace, x.2 = .proceed)
    (hl : Alone server l) : ∃ trace' l', Run Steps (.start server) trace' l' ∧
      (∀ x ∈ trace', x.2 = .proceed) ∧ Alone server l' ∧ l'.phase = .returned := by
  induction hn : l.remaining using Nat.strong_induction_on generalizing trace l with
  | h n ih =>
    rcases alone_proceeds hl with hreturned | ⟨l', hstep⟩
    · exact ⟨trace, l, h, hproceed, hl, hreturned⟩
    · have hless : l'.remaining < n := hn ▸ remaining_step hstep rfl
      refine ih _ hless (h.next hstep) (fun x hx => ?_) (alone_step hl hstep) rfl
      rcases List.mem_append.mp hx with hx | hx
      · exact hproceed x hx
      · rw [List.mem_singleton.mp hx]

/-- The loop of `notifyClients` with no request served during it calls every client of
the list once. -/
theorem notified_alone {name : String} {client : NotifyCallback}
    (hlisted : server.callbackList[name]? = some client) : ∃ trace l, Run Steps (.start server) trace l ∧
      (∀ x ∈ trace, x.2 = .proceed) ∧ l.phase = .returned ∧ l.notified.count (name, client) = 1 := by
  have hstart : Run Steps (Loop.start server) [] (.start server) := .start
  obtain ⟨trace, l, hrun, hproceed, hl, hreturned⟩ := alone_returns hstart (by simp) (alone_start server)
  have hkeep : ∀ (s : Loop α) (e : Event) (t : Loop α), Alone server s → e = .proceed → Steps s e t →
      Alone server t := fun _ _ _ hi he hs => alone_step hi (he ▸ hs)
  have hvisited := (hrun.throughout (Alone server) (fun _ e => e = .proceed) (alone_start server) hkeep hproceed).1
  refine ⟨trace, l, hrun, hproceed, hreturned, notified_once hrun hreturned ⟨fun x hx => ?_, ?_⟩⟩
  · rw [(hvisited x hx).unchanged, hlisted]
  · rw [hl.unchanged, hlisted]

end Uninterrupted

/-- A server on which two clients have registered. -/
def twoClients : ServerCommand Unit :=
  { ServerCommand.construct shortName "coshell" with
    callbackList := ((∅ : Std.ExtTreeMap String NotifyCallback).insert "a" ⟨0⟩).insert "b" ⟨1⟩ }

/-- While the first client is called the second leaves and a third comes. -/
def others : List Event :=
  [.proceed, .proceed, .proceed, .proceed, .unregisterClient "b", .registerClient ⟨2⟩ "c", .proceed, .proceed]

theorem tolerates_others : Tolerates (follow Loop.step (.start twoClients) others).1
    (follow Loop.step (.start twoClients) others).2 :=
  (tolerates_iff (run_follow Loop.step (.start twoClients) others)).mpr (by decide +kernel)

/-- The client that is called leaves before it answers: the loop advances the iterator to
the entry that is gone. -/
theorem erased_iterator_advanced : ∃ (trace : List (Loop Unit × Event)) (l : Loop Unit),
    Run Steps (.start twoClients) trace l ∧ l.phase = .advance ⟨"a", true⟩ ∧
      l.server.callbackList["a"]? = none ∧ l.proceed = none ∧ ¬Tolerates trace l := by
  have hrun := run_follow Loop.step (.start twoClients)
    [.proceed, .proceed, .proceed, .proceed, .unregisterClient "a", .proceed]
  generalize hresult : follow Loop.step (.start twoClients) _ = result at hrun
  have hphase : result.2.phase = .advance ⟨"a", true⟩ := by
    rw [← hresult]
    decide +kernel
  refine ⟨result.1, result.2, hrun, hphase, ?_, ?_, fun ht => ?_⟩
  · rw [← hresult]
    decide +kernel
  · simp [Loop.proceed, hphase]
  · have hlive := ht.live.2 ⟨"a", true⟩ (by simp [hphase, Phase.used])
    simp at hlive

end DgMiddleware.Server.Notification
