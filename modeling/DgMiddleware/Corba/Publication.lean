import DgMiddleware.Library.Naming
import DgMiddleware.Library.Run
import DgMiddleware.Corba.GenericServer

/-! Server processes that publish servants in one naming service, and clients that look
them up there. What a process does between two calls to the service is not seen by others,
and the calls of all of them come in any order. -/
namespace DgMiddleware.Corba.Publication
open Library
variable {ρ : Type}

/-- How far `createContext` is; the server then holds the context. -/
inductive ServerPhase where
  | binding
  | resolving
  | serving (hppContext : Nat)
  | failed
  deriving DecidableEq, Repr

inductive Stage where
  | binding
  | rebinding
  | bound
  | failed
  deriving DecidableEq, Repr

/-- One `addIdl`, in the context of its server. -/
structure Registration (ρ : Type) where
  hppContext : Nat
  idlStrName : String
  idlObj : ρ
  stage : Stage

/-- A client keeps the name that it asked for first, to ask for it again. -/
structure System (ρ : Type) where
  naming : Naming CosName ρ
  servers : Nat → ServerPhase
  registrations : List (Registration ρ)
  clients : Nat → Option (List CosName)

inductive Event (ρ : Type) where
  | bindNewContext (server : Nat)
  | resolveContext (server : Nat)
  | addIdl (server : Nat) (idlStrName : String) (idlObj : ρ)
  | bind (registration : Nat)
  | rebind (registration : Nat)
  | connectToServant (client : Nat) (serverName : String) (serverKind : String)
  | reconnectToServant (client : Nat)

def sotContext : CosName := contextName "sot"

/-- The name as the client spells it. -/
def clientName (serverName serverKind : String) : List CosName := [⟨"sot", "context"⟩, ⟨serverName, serverKind⟩]

def System.start (naming : Naming CosName ρ) : System ρ := ⟨naming, fun _ => .binding, [], fun _ => none⟩

def System.withServer (s : System ρ) (i : Nat) (p : ServerPhase) : System ρ :=
  { s with servers := Function.update s.servers i p }

def System.withStage (s : System ρ) (r : Nat) (stage : Stage) : System ρ :=
  { s with registrations := s.registrations.modify r fun reg => { reg with stage := stage } }

def System.bindNewContext (s : System ρ) (i : Nat) : System ρ :=
  match s.naming.bindNewContext Naming.root sotContext with
  | .ok (hppContext, naming) => { s.withServer i (.serving hppContext) with naming := naming }
  | .error .alreadyBound => s.withServer i .resolving
  | .error _ => s.withServer i .failed

/-- What is not a context is narrowed to nil. -/
def System.resolveContext (s : System ρ) (i : Nat) : System ρ :=
  match s.naming.resolve Naming.root [sotContext] with
  | .ok (.context hppContext) => s.withServer i (.serving hppContext)
  | .ok (.object _) | .error _ => s.withServer i .failed

def System.bind (s : System ρ) (r : Nat) (reg : Registration ρ) : System ρ :=
  match s.naming.bind reg.hppContext (servantName reg.idlStrName) reg.idlObj with
  | .ok naming => { s.withStage r .bound with naming := naming }
  | .error .alreadyBound => s.withStage r .rebinding
  | .error _ => s.withStage r .failed

def System.rebind (s : System ρ) (r : Nat) (reg : Registration ρ) : System ρ :=
  match s.naming.rebind reg.hppContext (servantName reg.idlStrName) reg.idlObj with
  | .ok naming => { s.withStage r .bound with naming := naming }
  | .error _ => s.withStage r .failed

/-- The registration whose next call an event is. -/
def System.caller (s : System ρ) : Event ρ → Option (Registration ρ)
  | .bind r => s.registrations[r]?.filter (·.stage = .binding)
  | .rebind r => s.registrations[r]?.filter (·.stage = .rebinding)
  | _ => none

def System.step (s : System ρ) (e : Event ρ) : Option (System ρ) :=
  match e with
  | .bindNewContext i => if s.servers i = .binding then some (s.bindNewContext i) else none
  | .resolveContext i => if s.servers i = .resolving then some (s.resolveContext i) else none
  | .addIdl i idlStrName idlObj =>
    match s.servers i with
    | .serving hppContext =>
      some { s with registrations := s.registrations ++ [⟨hppContext, idlStrName, idlObj, .binding⟩] }
    | _ => none
  | .bind r => (s.caller (.bind r)).map (s.bind r)
  | .rebind r => (s.caller (.rebind r)).map (s.rebind r)
  | .connectToServant c serverName serverKind =>
    some { s with clients := Function.update s.clients c (some (clientName serverName serverKind)) }
  | .reconnectToServant _ => some s

def Steps (s : System ρ) (e : Event ρ) (t : System ρ) : Prop := s.step e = some t

/-- The reference a client is given; whatever the service throws is caught, and it is nil. -/
def System.obtained (s : System ρ) : Event ρ → Option (Binding ρ)
  | .connectToServant _ serverName serverKind => s.naming.lookup (clientName serverName serverKind)
  | .reconnectToServant c => (s.clients c).bind s.naming.lookup
  | _ => none

/-- Whether a call of `bind` or `rebind` returns. -/
def System.returns (s : System ρ) (e : Event ρ) : Bool :=
  match e, s.caller e with
  | .bind _, some reg => (s.naming.bind reg.hppContext (servantName reg.idlStrName) reg.idlObj).isOk
  | .rebind _, some reg => (s.naming.rebind reg.hppContext (servantName reg.idlStrName) reg.idlObj).isOk
  | _, _ => false

/-- The reference that an event calls `bind` or `rebind` with, for one name. -/
def called (n : String) (x : System ρ × Event ρ) : Option ρ :=
  ((x.1.caller x.2).filter (·.idlStrName = n)).map (·.idlObj)

def published (n : String) (x : System ρ × Event ρ) : Option ρ := if x.1.returns x.2 then called n x else none

/-- What the clients find at the start, as earlier servers left it. -/
def earlier (naming : Naming CosName ρ) (n : String) : Option ρ :=
  match naming.lookup (clientName n "servant") with
  | some (.object ref) => some ref
  | _ => none

def lastCall (naming : Naming CosName ρ) (n : String) (trace : List (System ρ × Event ρ)) : Option ρ :=
  (trace.filterMap (called n)).getLast?.or (earlier naming n)

def System.InProgress (s : System ρ) (n : String) : Prop :=
  ∃ reg ∈ s.registrations, reg.idlStrName = n ∧ (reg.stage = .binding ∨ reg.stage = .rebinding)

/-- What a client asked for when it connected last, and what a lookup asks for. -/
def Event.connects (c : Nat) : Event ρ → Option (String × String)
  | .connectToServant d serverName serverKind => if d = c then some (serverName, serverKind) else none
  | _ => none

def connected (c : Nat) (trace : List (System ρ × Event ρ)) : Option (String × String) :=
  (trace.filterMap fun x => x.2.connects c).getLast?

def asked (trace : List (System ρ × Event ρ)) : Event ρ → Option (String × String)
  | .connectToServant _ serverName serverKind => some (serverName, serverKind)
  | .reconnectToServant c => connected c trace
  | _ => none

/-- At the start `sot` is a context or not bound at all, and holds no contexts among the
servants. -/
structure Initial (naming : Naming CosName ρ) : Prop where
  context : ∀ b, naming.entries Naming.root sotContext = some b → ∃ c, b = .context c
  objects : ∀ c n d, naming.entries Naming.root sotContext = some (.context c) →
    naming.entries c (servantName n) ≠ some (.context d)

/-- No server fails, and all that have a context have the same one. -/
structure ServersAgree (s : System ρ) : Prop where
  created : ∀ i, s.servers i ≠ .failed
  added : ∀ reg ∈ s.registrations, reg.stage ≠ .failed
  same : ∀ i j c d, s.servers i = .serving c → s.servers j = .serving d → c = d

/-- An answer for `n` was published by a registration of `n`, and is what the last call for
`n` was made with unless one is still to be made. -/
structure Answers (naming : Naming CosName ρ) (trace : List (System ρ × Event ρ)) (s : System ρ) (n : String)
    (answer : Option (Binding ρ)) : Prop where
  genuine : ∀ b, answer = some b →
    ∃ ref, b = .object ref ∧ (ref ∈ trace.filterMap (published n) ∨ earlier naming n = some ref)
  settled : ¬s.InProgress n → answer = (lastCall naming n trace).map .object

section Publication
variable {s t : System ρ} {e : Event ρ} {trace : List (System ρ × Event ρ)} {n : String} {r : Nat}
  {reg : Registration ρ} {naming : Naming CosName ρ}

/-- Where a server or a registration stands, the context that was bound in the root is
the one it uses. -/
def System.Serves (s : System ρ) : ServerPhase → Prop
  | .binding => True
  | .resolving => ∃ c, s.naming.entries Naming.root sotContext = some (.context c)
  | .serving c => s.naming.entries Naming.root sotContext = some (.context c)
  | .failed => False

structure Sound (s : System ρ) : Prop where
  initial : Initial s.naming
  servers : ∀ i, s.Serves (s.servers i)
  registrations : ∀ reg ∈ s.registrations,
    reg.stage ≠ .failed ∧ s.naming.entries Naming.root sotContext = some (.context reg.hppContext)

/-- All that a step can do while the servers are sound, by what it does to the service. -/
inductive Effect (s : System ρ) : Event ρ → System ρ → Prop
  | created {i c : Nat} {naming : Naming CosName ρ} (hnew : s.naming.entries Naming.root sotContext = none)
      (hempty : ∀ k, s.naming.entries c k = none) (hroot : c ≠ Naming.root)
      (hentries : ∀ d k, naming.entries d k =
        if d = Naming.root ∧ k = sotContext then some (.context c) else s.naming.entries d k) :
      Effect s (.bindNewContext i) { s.withServer i (.serving c) with naming := naming }
  | existing {i c : Nat} (hold : s.naming.entries Naming.root sotContext = some (.context c)) :
      Effect s (.bindNewContext i) (s.withServer i .resolving)
  | resolved {i c : Nat} (hold : s.naming.entries Naming.root sotContext = some (.context c)) :
      Effect s (.resolveContext i) (s.withServer i (.serving c))
  | begun {i c : Nat} {idlStrName : String} {idlObj : ρ}
      (hold : s.naming.entries Naming.root sotContext = some (.context c)) :
      Effect s (.addIdl i idlStrName idlObj)
        { s with registrations := s.registrations ++ [⟨c, idlStrName, idlObj, .binding⟩] }
  | taken {r : Nat} {reg : Registration ρ} (hcaller : s.caller (.bind r) = some reg) :
      Effect s (.bind r) (s.withStage r .rebinding)
  | published {e : Event ρ} {r : Nat} {reg : Registration ρ} {naming : Naming CosName ρ}
      (hreg : s.registrations[r]? = some reg) (hcaller : s.caller e = some reg) (hreturns : s.returns e = true)
      (hentries : ∀ d k, naming.entries d k =
        if d = reg.hppContext ∧ k = servantName reg.idlStrName then some (.object reg.idlObj)
        else s.naming.entries d k) :
      Effect s e { s.withStage r .bound with naming := naming }
  | connected {c : Nat} {serverName serverKind : String} : Effect s (.connectToServant c serverName serverKind)
      { s with clients := Function.update s.clients c (some (clientName serverName serverKind)) }
  | reconnected {c : Nat} : Effect s (.reconnectToServant c) s

theorem caller_bind (h : s.caller (.bind r) = some reg) : s.registrations[r]? = some reg ∧ reg.stage = .binding := by
  simpa [System.caller] using h

theorem caller_rebind (h : s.caller (.rebind r) = some reg) :
    s.registrations[r]? = some reg ∧ reg.stage = .rebinding := by
  simpa [System.caller] using h

private theorem Sound.made (hs : Sound s) (hreg : s.registrations[r]? = some reg) :
    reg.hppContext < s.naming.made :=
  s.naming.inside _ _ _ (hs.registrations reg (List.mem_of_getElem? hreg)).2

private theorem bindNewContext_effect (hs : Sound s) (i : Nat) :
    Effect s (.bindNewContext i) (s.bindNewContext i) := by
  unfold System.bindNewContext
  cases hentry : s.naming.entries Naming.root sotContext with
  | none =>
    rw [Naming.bindNewContext_new s.naming.root_made hentry]
    exact .created hentry (fun k => s.naming.unmade _ k (Nat.le_refl _)) (Nat.ne_of_gt s.naming.root_made)
      (Naming.newContext_entries _)
  | some b =>
    obtain ⟨c, rfl⟩ := hs.initial.context b hentry
    rw [Naming.bindNewContext_taken s.naming.root_made hentry]
    exact .existing hentry

private theorem bind_effect (hs : Sound s) (h : s.caller (.bind r) = some reg) :
    Effect s (.bind r) (s.bind r reg) := by
  have hreg := (caller_bind h).1
  unfold System.bind
  cases hentry : s.naming.entries reg.hppContext (servantName reg.idlStrName) with
  | none =>
    have hok := Naming.bind_new (hs.made hreg) hentry reg.idlObj
    rw [hok]
    exact .published hreg h (by simp [System.returns, h, hok, Except.isOk, Except.toBool])
      (Naming.put_entries _ _)
  | some b =>
    rw [Naming.bind_taken (hs.made hreg) hentry]
    exact .taken h

private theorem rebind_effect (hs : Sound s) (h : s.caller (.rebind r) = some reg) :
    Effect s (.rebind r) (s.rebind r reg) := by
  have hreg := (caller_rebind h).1
  have hsot := (hs.registrations reg (List.mem_of_getElem? hreg)).2
  have hok := Naming.rebind_object (hs.made hreg) (fun d => hs.initial.objects _ reg.idlStrName d hsot) reg.idlObj
  unfold System.rebind
  rw [hok]
  exact .published hreg h (by simp [System.returns, h, hok, Except.isOk, Except.toBool]) (Naming.put_entries _ _)

theorem Sound.effect (hs : Sound s) (h : Steps s e t) : Effect s e t := by
  unfold Steps System.step at h
  cases e with
  | bindNewContext i =>
    obtain ⟨-, heq⟩ := Option.ite_none_right_eq_some.mp h
    exact Option.some.inj heq ▸ bindNewContext_effect hs i
  | resolveContext i =>
    obtain ⟨hphase, heq⟩ := Option.ite_none_right_eq_some.mp h
    obtain ⟨c, hold⟩ : ∃ c, s.naming.entries Naming.root sotContext = some (.context c) := by
      simpa only [System.Serves, hphase] using hs.servers i
    rw [System.resolveContext, Naming.resolve_single hold] at heq
    exact Option.some.inj heq ▸ .resolved hold
  | addIdl i idlStrName idlObj =>
    have hserves := hs.servers i
    cases hphase : s.servers i with
    | serving c =>
      rw [hphase] at hserves
      simp only [hphase] at h
      exact Option.some.inj h ▸ .begun hserves
    | binding | resolving | failed => simp [hphase] at h
  | bind r =>
    obtain ⟨reg, hcaller, rfl⟩ := Option.map_eq_some_iff.mp h
    exact bind_effect hs hcaller
  | rebind r =>
    obtain ⟨reg, hcaller, rfl⟩ := Option.map_eq_some_iff.mp h
    exact rebind_effect hs hcaller
  | connectToServant c serverName serverKind => exact Option.some.inj h ▸ .connected
  | reconnectToServant c => exact Option.some.inj h ▸ .reconnected

theorem caller_cases (h : s.caller e = some reg) :
    (∃ r, e = .bind r ∧ s.registrations[r]? = some reg) ∨ ∃ r, e = .rebind r ∧ s.registrations[r]? = some reg := by
  cases e with
  | bind r => exact .inl ⟨r, rfl, (caller_bind h).1⟩
  | rebind r => exact .inr ⟨r, rfl, (caller_rebind h).1⟩
  | bindNewContext | resolveContext | addIdl | connectToServant | reconnectToServant => cases h

/-- The other registrations stay as they are. -/
theorem mem_withStage (hreg : s.registrations[r]? = some reg) {stage : Stage} {x : Registration ρ}
    (hx : x ∈ (s.withStage r stage).registrations) : x = { reg with stage := stage } ∨ x ∈ s.registrations := by
  obtain ⟨j, hj⟩ := List.mem_iff_getElem?.mp hx
  rw [System.withStage, List.getElem?_modify] at hj
  by_cases hr : r = j
  · subst hr
    simp only [hreg, if_true, Option.map_eq_map, Option.map_some, Option.some.injEq] at hj
    exact .inl hj.symm
  · simp only [hr, if_false, Option.map_eq_map, Option.map_id_fun', id_eq] at hj
    exact .inr (List.mem_of_getElem? hj)

private theorem mem_withStage_of_ne (hreg : s.registrations[r]? = some reg) {x : Registration ρ}
    (hx : x ∈ s.registrations) (hne : x.idlStrName ≠ reg.idlStrName) (stage : Stage) :
    x ∈ (s.withStage r stage).registrations := by
  obtain ⟨j, hj⟩ := List.mem_iff_getElem?.mp hx
  refine List.mem_iff_getElem?.mpr ⟨j, ?_⟩
  have hr : r ≠ j := by
    rintro rfl
    rw [hreg] at hj
    exact hne (congrArg Registration.idlStrName (Option.some.inj hj)).symm
  rw [System.withStage, List.getElem?_modify]
  simp [hr, hj]

theorem servantName_ne (idlStrName : String) : sotContext ≠ servantName idlStrName := by
  simp [sotContext, contextName, servantName]

theorem servantName_inj {m n : String} : servantName m = servantName n ↔ m = n := by
  simp [servantName]

private theorem serves_update {servers : Nat → ServerPhase} {i : Nat} {p : ServerPhase} {P : ServerPhase → Prop}
    (h : ∀ j, P (servers j)) (hp : P p) (j : Nat) : P (Function.update servers i p j) := by
  by_cases hj : j = i
  · subst hj
    simpa using hp
  · simpa [hj] using h j

private theorem serves_congr {p : ServerPhase}
    (h : t.naming.entries Naming.root sotContext = s.naming.entries Naming.root sotContext) (hp : s.Serves p) :
    t.Serves p := by
  cases p with
  | binding => trivial
  | resolving | serving => simpa only [System.Serves, h] using hp
  | failed => exact hp

theorem sound_step (hs : Sound s) (h : Steps s e t) : Sound t := by
  cases hs.effect h with
  | @created i c naming hnew hempty hroot hentries =>
    have hsot : naming.entries Naming.root sotContext = some (.context c) := by simp [hentries]
    refine ⟨⟨fun b hb => ⟨c, ?_⟩, fun d n d' hd hn => ?_⟩, ?_, fun x hx => ?_⟩
    · exact Option.some.inj (hb.symm.trans hsot)
    · obtain rfl : c = d := by simpa using hsot.symm.trans hd
      rw [hentries, if_neg fun hc => hroot hc.1, hempty] at hn
      cases hn
    · refine serves_update (fun j => ?_) hsot
      have hserves := hs.servers j
      cases hphase : s.servers j with
      | binding => trivial
      | resolving => exact ⟨c, hsot⟩
      | serving d => simp [System.Serves, hphase, hnew] at hserves
      | failed => simp [System.Serves, hphase] at hserves
    · have hused := (hs.registrations x hx).2
      rw [hnew] at hused
      cases hused
  | @existing i c hold => exact ⟨hs.initial, serves_update hs.servers ⟨c, hold⟩, hs.registrations⟩
  | resolved hold => exact ⟨hs.initial, serves_update hs.servers hold, hs.registrations⟩
  | begun hold =>
    refine ⟨hs.initial, hs.servers, fun x hx => ?_⟩
    rcases List.mem_append.mp hx with hx | hx
    · exact hs.registrations x hx
    · rw [List.mem_singleton.mp hx]
      exact ⟨nofun, hold⟩
  | taken hcaller =>
    refine ⟨hs.initial, hs.servers, fun x hx => ?_⟩
    have hreg := (caller_bind hcaller).1
    rcases mem_withStage hreg hx with rfl | hx
    · exact ⟨nofun, (hs.registrations _ (List.mem_of_getElem? hreg)).2⟩
    · exact hs.registrations x hx
  | @published _ r reg naming hreg hcaller _ hentries =>
    have hsot : naming.entries Naming.root sotContext = s.naming.entries Naming.root sotContext := by
      rw [hentries, if_neg fun hk => servantName_ne _ hk.2]
    refine ⟨⟨fun b hb => hs.initial.context b (hsot ▸ hb), fun c n d hc hn => ?_⟩, fun i => ?_, fun x hx => ?_⟩
    · rw [hsot] at hc
      rw [hentries] at hn
      split at hn
      · cases hn
      · exact hs.initial.objects c n d hc hn
    · exact serves_congr hsot (hs.servers i)
    · rw [hsot]
      rcases mem_withStage hreg hx with rfl | hx
      · exact ⟨nofun, (hs.registrations _ (List.mem_of_getElem? hreg)).2⟩
      · exact hs.registrations x hx
  | connected => exact ⟨hs.initial, hs.servers, hs.registrations⟩
  | reconnected => exact hs

theorem sound_run (hinit : Initial naming) (h : Run Steps (.start naming) trace s) : Sound s := by
  have hstart : Sound (System.start naming) := ⟨hinit, fun _ => trivial, fun _ hreg => absurd hreg List.not_mem_nil⟩
  exact (h.always Sound hstart fun _ _ _ hs hstep => sound_step hs hstep).2

/-- What a run leaves is a start for another one. -/
theorem initial_run (hinit : Initial naming) (h : Run Steps (.start naming) trace s) : Initial s.naming :=
  (sound_run hinit h).initial

theorem Sound.serversAgree (hs : Sound s) : ServersAgree s where
  created i hi := by
    have hserves := hs.servers i
    rw [hi] at hserves
    exact hserves
  added reg hreg := (hs.registrations reg hreg).1
  same i j c d hi hj := by
    have hc := hs.servers i
    have hd := hs.servers j
    rw [hi] at hc
    rw [hj] at hd
    simpa using hc.symm.trans hd

/-- What the service and the clients say about the past. -/
structure Recorded (naming : Naming CosName ρ) (trace : List (System ρ × Event ρ)) (s : System ρ) : Prop where
  answers : ∀ n, Answers naming trace s n (s.naming.lookup (clientName n "servant"))
  clients : ∀ c, s.clients c = (connected c trace).map fun asked => clientName asked.1 asked.2

theorem lookup_servant {c : Nat} (h : naming.entries Naming.root sotContext = some (.context c)) (n : String) :
    naming.lookup (clientName n "servant") = naming.entries c (servantName n) :=
  Naming.lookup_pair h (servantName n)

theorem lookup_unbound (h : naming.entries Naming.root sotContext = none) (n : String) :
    naming.lookup (clientName n "servant") = none :=
  Naming.lookup_pair_none h (servantName n)

theorem called_eq (h : s.caller e = some reg) (n : String) :
    called n (s, e) = if reg.idlStrName = n then some reg.idlObj else none := by
  rw [called, h, Option.filter_some]
  split <;> simp_all

private theorem called_none (h : s.caller e = none) (n : String) : called n (s, e) = none := by
  simp [called, h]

/-- What was published or bound earlier still is after one more event. -/
private theorem Answers.genuine_snoc {answer : Option (Binding ρ)} (h : Answers naming trace s n answer)
    (x : System ρ × Event ρ) (b : Binding ρ) (hb : answer = some b) :
    ∃ ref, b = .object ref ∧ (ref ∈ (trace ++ [x]).filterMap (published n) ∨ earlier naming n = some ref) := by
  obtain ⟨ref, rfl, href⟩ := h.genuine b hb
  refine ⟨ref, rfl, href.imp_left fun hmem => ?_⟩
  rw [List.filterMap_append]
  exact List.mem_append_left _ hmem

/-- A step that makes no call for a name keeps the answer for it. -/
private theorem Answers.kept {answer : Option (Binding ρ)} (h : Answers naming trace s n answer)
    (hcalled : called n (s, e) = none) (hprogress : s.InProgress n → t.InProgress n) :
    Answers naming (trace ++ [(s, e)]) t n answer where
  genuine := h.genuine_snoc (s, e)
  settled hno := by
    rw [h.settled (mt hprogress hno), lastCall, lastCall, List.filterMap_append,
      List.filterMap_cons_none hcalled, List.filterMap_nil, List.append_nil]

private theorem connected_snoc (c : Nat) :
    connected c (trace ++ [(s, e)]) = (e.connects c).or (connected c trace) := by
  rw [connected, List.filterMap_append]
  cases h : e.connects c with
  | none => simp [h, connected]
  | some asked => simp [h]

/-- Only connecting changes the name that a client keeps. -/
private theorem clients_step (h : Effect s e t) (c : Nat) :
    t.clients c = ((e.connects c).map fun asked => clientName asked.1 asked.2).or (s.clients c) := by
  cases h with
  | created | existing | resolved | begun | taken | reconnected => rfl
  | published _ hcaller => rcases caller_cases hcaller with ⟨r, rfl, -⟩ | ⟨r, rfl, -⟩ <;> rfl
  | @connected d serverName serverKind =>
    by_cases hd : d = c
    · simp [Event.connects, hd]
    · simp [Event.connects, hd, Ne.symm hd]

private theorem inProgress_withStage (hreg : s.registrations[r]? = some reg) (hne : reg.idlStrName ≠ n)
    {stage : Stage} (h : s.InProgress n) : (s.withStage r stage).InProgress n := by
  obtain ⟨x, hx, rfl, hstage⟩ := h
  exact ⟨x, mem_withStage_of_ne hreg hx hne.symm stage, rfl, hstage⟩

private theorem answers_taken (hs : Recorded naming trace s) (hcaller : s.caller (.bind r) = some reg) (n : String) :
    Answers naming (trace ++ [(s, .bind r)]) (s.withStage r .rebinding) n
      (s.naming.lookup (clientName n "servant")) := by
  have hreg := (caller_bind hcaller).1
  by_cases hn : reg.idlStrName = n
  · refine ⟨(hs.answers n).genuine_snoc _, fun hno => absurd ?_ hno⟩
    refine ⟨{ reg with stage := .rebinding }, List.mem_iff_getElem?.mpr ⟨r, ?_⟩, hn, .inr rfl⟩
    rw [System.withStage, List.getElem?_modify, hreg]
    simp
  · exact (hs.answers n).kept (by rw [called_eq hcaller, if_neg hn]) (inProgress_withStage hreg hn)

private theorem answers_published {naming' : Naming CosName ρ} (hsound : Sound s) (hs : Recorded naming trace s)
    (hreg : s.registrations[r]? = some reg) (hcaller : s.caller e = some reg) (hreturns : s.returns e = true)
    (hentries : ∀ d k, naming'.entries d k =
      if d = reg.hppContext ∧ k = servantName reg.idlStrName then some (.object reg.idlObj)
      else s.naming.entries d k) (n : String) :
    Answers naming (trace ++ [(s, e)]) { s.withStage r .bound with naming := naming' } n
      (naming'.lookup (clientName n "servant")) := by
  have hsot := (hsound.registrations reg (List.mem_of_getElem? hreg)).2
  have hsot' : naming'.entries Naming.root sotContext = some (.context reg.hppContext) := by
    rw [hentries, if_neg fun hk => servantName_ne _ hk.2, hsot]
  have hlookup := lookup_servant hsot' n
  by_cases hn : reg.idlStrName = n
  · have hcalled : called n (s, e) = some reg.idlObj := by rw [called_eq hcaller, if_pos hn]
    have hpublished : published n (s, e) = some reg.idlObj := by rw [published, if_pos hreturns, hcalled]
    have hfound : naming'.lookup (clientName n "servant") = some (.object reg.idlObj) := by
      rw [hlookup, hentries, if_pos ⟨rfl, congrArg servantName hn.symm⟩]
    rw [hfound]
    refine ⟨fun b hb => ⟨reg.idlObj, (Option.some.inj hb).symm, .inl ?_⟩, fun _ => ?_⟩
    · rw [List.filterMap_append, List.filterMap_cons_some hpublished]
      simp
    · rw [lastCall, List.filterMap_append, List.filterMap_cons_some hcalled]
      simp
  · have hsame : naming'.lookup (clientName n "servant") = s.naming.lookup (clientName n "servant") := by
      rw [hlookup, lookup_servant hsot, hentries, if_neg fun hk => hn (servantName_inj.mp hk.2).symm]
    rw [hsame]
    exact (hs.answers n).kept (by rw [called_eq hcaller, if_neg hn]) (inProgress_withStage hreg hn)

private theorem answers_step (hsound : Sound s) (hs : Recorded naming trace s) (h : Steps s e t) (n : String) :
    Answers naming (trace ++ [(s, e)]) t n (t.naming.lookup (clientName n "servant")) := by
  cases hsound.effect h with
  | @created i c naming' hnew hempty hroot hentries =>
    have hsot : naming'.entries Naming.root sotContext = some (.context c) := by simp [hentries]
    have hsame : naming'.lookup (clientName n "servant") = s.naming.lookup (clientName n "servant") := by
      rw [lookup_unbound hnew, lookup_servant hsot, hentries, if_neg fun hc => hroot hc.1, hempty]
    simp only [hsame]
    exact (hs.answers n).kept (called_none rfl n) id
  | existing | resolved | connected | reconnected => exact (hs.answers n).kept (called_none rfl n) id
  | begun =>
    refine (hs.answers n).kept (called_none rfl n) ?_
    rintro ⟨x, hx, hprogress⟩
    exact ⟨x, List.mem_append_left _ hx, hprogress⟩
  | taken hcaller => exact answers_taken hs hcaller n
  | published hreg hcaller hreturns hentries =>
    exact answers_published hsound hs hreg hcaller hreturns hentries n

theorem recorded_step (hsound : Sound s) (hs : Recorded naming trace s) (h : Steps s e t) :
    Recorded naming (trace ++ [(s, e)]) t where
  answers := answers_step hsound hs h
  clients c := by
    rw [clients_step (hsound.effect h), hs.clients, connected_snoc]
    cases e.connects c <;> rfl

private theorem recorded_start (hinit : Initial naming) : Recorded naming [] (.start naming) where
  answers n := by
    have hobject : ∀ d, naming.lookup (clientName n "servant") ≠ some (.context d) := by
      intro d
      cases hsot : naming.entries Naming.root sotContext with
      | none => rw [lookup_unbound hsot]; exact nofun
      | some b =>
        obtain ⟨c, rfl⟩ := hinit.context b hsot
        rw [lookup_servant hsot]
        exact hinit.objects c n d hsot
    have hanswer : naming.lookup (clientName n "servant") = (earlier naming n).map .object := by
      unfold earlier
      cases hfound : naming.lookup (clientName n "servant") with
      | none => rfl
      | some b =>
        cases b with
        | object ref => rfl
        | context d => exact absurd hfound (hobject d)
    refine ⟨fun b hb => ?_, fun _ => hanswer⟩
    obtain ⟨ref, href, rfl⟩ := Option.map_eq_some_iff.mp (hanswer.symm.trans hb)
    exact ⟨ref, rfl, .inr href⟩
  clients _ := rfl

theorem recorded_run (hinit : Initial naming) (h : Run Steps (.start naming) trace s) : Recorded naming trace s :=
  h.history (Recorded naming) (recorded_start hinit) fun _ _ _ _ hrun hs hstep =>
    recorded_step (sound_run hinit hrun) hs hstep

/-- A lookup asks the service for just the name that it is asked. -/
theorem obtained_eq (hs : Recorded naming trace s) {serverName serverKind : String}
    (h : asked trace e = some (serverName, serverKind)) :
    s.obtained e = s.naming.lookup (clientName serverName serverKind) := by
  cases e with
  | connectToServant c =>
    obtain ⟨rfl, rfl⟩ := Prod.mk.inj (Option.some.inj h)
    rfl
  | reconnectToServant c =>
    rw [System.obtained, hs.clients, show connected c trace = some _ from h]
    rfl
  | bindNewContext | resolveContext | addIdl | bind | rebind => cases h

/-- In every run, whatever the order of the calls: no server fails and all share one
context, and a client that asks for `n` is given what a registration of `n` has published,
which is that of the last call for `n` once none is in progress. -/
theorem publication_agrees (hinit : Initial naming) (h : Run Steps (.start naming) trace s) :
    ServersAgree s ∧ ∀ before x after, trace = before ++ x :: after → ServersAgree x.1 ∧
      ∀ n, asked before x.2 = some (n, "servant") → Answers naming before x.1 n (x.1.obtained x.2) := by
  refine ⟨(sound_run hinit h).serversAgree, ?_⟩
  rintro before x after rfl
  have hbefore := h.split.1
  refine ⟨(sound_run hinit hbefore).serversAgree, fun n hasked => ?_⟩
  have hrecorded := recorded_run hinit hbefore
  rw [obtained_eq hrecorded hasked]
  exact hrecorded.answers n

end Publication

/-- Two servers start and publish a servant of the same name, each step of the one between
two of the other, and a client asks twice. -/
def race : List (Event Nat) :=
  [.bindNewContext 0, .bindNewContext 1, .resolveContext 1, .addIdl 0 "robot" 10, .addIdl 1 "robot" 11, .bind 1,
    .bind 0, .connectToServant 0 "robot" "servant", .rebind 0, .reconnectToServant 0]

theorem initial_empty : Initial (Naming.empty : Naming CosName ρ) := ⟨nofun, nofun⟩

theorem publication_agrees_race :
    ServersAgree (follow System.step (.start Naming.empty) race).2 ∧
      ∀ before x after, (follow System.step (.start Naming.empty) race).1 = before ++ x :: after →
        ServersAgree x.1 ∧ ∀ n, asked before x.2 = some (n, "servant") →
          Answers Naming.empty before x.1 n (x.1.obtained x.2) :=
  publication_agrees initial_empty (run_follow System.step (.start Naming.empty) race)

example : (follow System.step (.start Naming.empty) race).1.filterMap (fun x => x.1.obtained x.2) =
    [.object 11, .object 10] := by decide +kernel

end DgMiddleware.Corba.Publication
