import DgMiddleware.Corba.Publication

/-! How many calls a publication takes. Whatever the others do in between, a server has its
context, and a servant is published, after two calls to the naming service at most. -/
namespace DgMiddleware.Corba.Publication
open Library
variable {ρ : Type}

/-- The server that a call comes from, and the registration. -/
def Event.server : Event ρ → Option Nat
  | .bindNewContext i | .resolveContext i => some i
  | _ => none

def Event.registration : Event ρ → Option Nat
  | .bind r | .rebind r => some r
  | _ => none

/-- The calls that are left to make. -/
def ServerPhase.left : ServerPhase → Nat
  | .binding => 2
  | .resolving => 1
  | .serving _ | .failed => 0

def Stage.left : Stage → Nat
  | .binding => 2
  | .rebinding => 1
  | .bound | .failed => 0

def System.left (s : System ρ) (r : Nat) : Nat := (s.registrations[r]?.map (·.stage.left)).getD 2

/-- A party makes two calls at most; until it has succeeded it has made fewer, and its
next call waits for nobody. -/
structure Finishes (own : Event ρ → Prop) [DecidablePred own] (done : Prop) (trace : List (System ρ × Event ρ))
    (s : System ρ) : Prop where
  bounded : trace.countP (own ·.2) ≤ 2
  proceeds : done ∨ trace.countP (own ·.2) < 2 ∧ ∃ e t, own e ∧ Steps s e t

structure WaitFree (trace : List (System ρ × Event ρ)) (s : System ρ) : Prop where
  servers : ∀ i, Finishes (·.server = some i) (∃ c, s.servers i = .serving c) trace s
  registrations : ∀ r reg, s.registrations[r]? = some reg →
    Finishes (·.registration = some r) (reg.stage = .bound) trace s

section WaitFree
variable {s t : System ρ} {e : Event ρ} {trace : List (System ρ × Event ρ)} {naming : Naming CosName ρ} {i r : Nat}

/-- Whatever the service answers, a call moves its server on, and nothing else but the
entries of the service. -/
private theorem bindNewContext_moves (s : System ρ) (i : Nat) :
    ∃ p naming, p.left < 2 ∧ s.bindNewContext i = { s.withServer i p with naming := naming } := by
  unfold System.bindNewContext
  split
  · exact ⟨_, _, by simp [ServerPhase.left], rfl⟩
  · exact ⟨.resolving, s.naming, by simp [ServerPhase.left], rfl⟩
  · exact ⟨.failed, s.naming, by simp [ServerPhase.left], rfl⟩

private theorem resolveContext_moves (s : System ρ) (i : Nat) :
    ∃ p, p.left = 0 ∧ s.resolveContext i = s.withServer i p := by
  unfold System.resolveContext
  split <;> exact ⟨_, rfl, rfl⟩

private theorem bind_moves (s : System ρ) (r : Nat) (reg : Registration ρ) :
    ∃ stage naming, stage.left < 2 ∧ s.bind r reg = { s.withStage r stage with naming := naming } := by
  unfold System.bind
  split
  · exact ⟨.bound, _, by simp [Stage.left], rfl⟩
  · exact ⟨.rebinding, s.naming, by simp [Stage.left], rfl⟩
  · exact ⟨.failed, s.naming, by simp [Stage.left], rfl⟩

private theorem rebind_moves (s : System ρ) (r : Nat) (reg : Registration ρ) :
    ∃ stage naming, stage.left = 0 ∧ s.rebind r reg = { s.withStage r stage with naming := naming } := by
  unfold System.rebind
  split
  · exact ⟨.bound, _, rfl, rfl⟩
  · exact ⟨.failed, s.naming, rfl, rfl⟩

private theorem left_withServer {j : Nat} {p : ServerPhase} (hlower : p.left < (s.servers j).left)
    (naming : Naming CosName ρ) (i : Nat) : (if some j = some i then 1 else 0) +
      (({ s.withServer j p with naming := naming } : System ρ).servers i).left ≤ (s.servers i).left := by
  unfold System.withServer
  by_cases hi : i = j
  · subst hi
    simp only [if_true, Function.update_self]
    omega
  · simp [hi, Ne.symm hi]

private theorem left_withStage {q : Nat} {reg : Registration ρ} {stage : Stage}
    (hreg : s.registrations[q]? = some reg) (hlower : stage.left < reg.stage.left) (naming : Naming CosName ρ)
    (r : Nat) : (if some q = some r then 1 else 0) +
      ({ s.withStage q stage with naming := naming } : System ρ).left r ≤ s.left r := by
  unfold System.left System.withStage
  simp only [List.getElem?_modify]
  by_cases hq : q = r
  · subst hq
    simp only [hreg, if_true, Option.map_eq_map, Option.map_some, Option.getD_some]
    omega
  · simp [hq]

private theorem left_new {reg : Registration ρ} (hstage : reg.stage = .binding) (r : Nat) :
    ({ s with registrations := s.registrations ++ [reg] } : System ρ).left r = s.left r := by
  unfold System.left
  rw [List.getElem?_append]
  split
  · rfl
  · rename_i hout
    rw [List.getElem?_eq_none (Nat.le_of_not_lt hout)]
    cases hnew : [reg][r - s.registrations.length]? with
    | none => rfl
    | some new =>
      obtain rfl := List.mem_singleton.mp (List.mem_of_getElem? hnew)
      simp [hstage, Stage.left]

/-- A call of a server, and of a registration, leaves it fewer to make, and the calls of
the others leave it as many. -/
theorem step_left (h : Steps s e t) :
    (∀ i, (if e.server = some i then 1 else 0) + (t.servers i).left ≤ (s.servers i).left) ∧
      ∀ r, (if e.registration = some r then 1 else 0) + t.left r ≤ s.left r := by
  unfold Steps System.step at h
  cases e with
  | bindNewContext j =>
    obtain ⟨hphase, heq⟩ := Option.ite_none_right_eq_some.mp h
    obtain ⟨p, naming, hleft, hmove⟩ := bindNewContext_moves s j
    obtain rfl := hmove.symm.trans (Option.some.inj heq)
    refine ⟨left_withServer (by rwa [hphase]) naming, fun r => ?_⟩
    simp [Event.registration, System.left, System.withServer]
  | resolveContext j =>
    obtain ⟨hphase, heq⟩ := Option.ite_none_right_eq_some.mp h
    obtain ⟨p, hleft, hmove⟩ := resolveContext_moves s j
    obtain rfl := hmove.symm.trans (Option.some.inj heq)
    refine ⟨left_withServer (s := s) ?_ s.naming, fun r => by
      simp [Event.registration, System.left, System.withServer]⟩
    rw [hphase, hleft]
    exact Nat.one_pos
  | addIdl j idlStrName idlObj =>
    cases hphase : s.servers j with
    | serving c =>
      simp only [hphase] at h
      obtain rfl := Option.some.inj h
      exact ⟨fun i => by simp [Event.server], fun r => by simp [Event.registration, left_new]⟩
    | binding | resolving | failed => simp [hphase] at h
  | bind q =>
    obtain ⟨reg, hcaller, rfl⟩ := Option.map_eq_some_iff.mp h
    obtain ⟨hreg, hstage⟩ := caller_bind hcaller
    obtain ⟨stage, naming, hleft, hmove⟩ := bind_moves s q reg
    rw [hmove]
    exact ⟨fun i => by simp [Event.server, System.withStage], left_withStage hreg (by rwa [hstage]) naming⟩
  | rebind q =>
    obtain ⟨reg, hcaller, rfl⟩ := Option.map_eq_some_iff.mp h
    obtain ⟨hreg, hstage⟩ := caller_rebind hcaller
    obtain ⟨stage, naming, hleft, hmove⟩ := rebind_moves s q reg
    rw [hmove]
    refine ⟨fun i => by simp [Event.server, System.withStage], left_withStage hreg ?_ naming⟩
    rw [hstage, hleft]
    exact Nat.one_pos
  | connectToServant c serverName serverKind =>
    obtain rfl := Option.some.inj h
    exact ⟨fun i => by simp [Event.server], fun r => by simp [Event.registration, System.left]⟩
  | reconnectToServant c =>
    obtain rfl := Option.some.inj h
    exact ⟨fun i => by simp [Event.server], fun r => by simp [Event.registration]⟩

/-- The calls made and the calls left are two at most. -/
theorem server_calls (h : Run Steps (.start naming) trace s) (i : Nat) :
    trace.countP (·.2.server = some i) + (s.servers i).left ≤ 2 := by
  refine h.countP_add_le (fun _ => True) (fun x => x.2.server = some i) (fun s => (s.servers i).left) trivial
    (fun _ _ _ _ _ => trivial) fun s e t _ hstep => ?_
  simpa using (step_left hstep).1 i

theorem registration_calls (h : Run Steps (.start naming) trace s) (r : Nat) :
    trace.countP (·.2.registration = some r) + s.left r ≤ 2 := by
  refine h.countP_add_le (fun _ => True) (fun x => x.2.registration = some r) (·.left r) trivial
    (fun _ _ _ _ _ => trivial) fun s e t _ hstep => ?_
  simpa using (step_left hstep).2 r

/-- In every run, and whatever the others do: a server makes two calls at most and then
has its context, a registration makes two at most and is then published, and until then
the next call of either is possible at any time. -/
theorem publication_waitFree (hinit : Initial naming) (h : Run Steps (.start naming) trace s) : WaitFree trace s where
  servers i := by
    have hcalls := server_calls h i
    have hserves := (sound_run hinit h).servers i
    refine ⟨by omega, ?_⟩
    cases hphase : s.servers i with
    | binding =>
      rw [hphase] at hcalls
      exact .inr ⟨by simp only [ServerPhase.left] at hcalls; omega, .bindNewContext i, _, rfl, if_pos hphase⟩
    | resolving =>
      rw [hphase] at hcalls
      exact .inr ⟨by simp only [ServerPhase.left] at hcalls; omega, .resolveContext i, _, rfl, if_pos hphase⟩
    | serving c => exact .inl ⟨c, rfl⟩
    | failed =>
      rw [hphase] at hserves
      exact hserves.elim
  registrations r reg hreg := by
    have hcalls := registration_calls h r
    have hsound := ((sound_run hinit h).registrations reg (List.mem_of_getElem? hreg)).1
    have hleft : s.left r = reg.stage.left := by simp [System.left, hreg]
    refine ⟨by omega, ?_⟩
    rw [hleft] at hcalls
    cases hstage : reg.stage with
    | binding =>
      rw [hstage] at hcalls
      refine .inr ⟨by simp only [Stage.left] at hcalls; omega, .bind r, s.bind r reg, rfl, ?_⟩
      simp [Steps, System.step, System.caller, hreg, hstage]
    | rebinding =>
      rw [hstage] at hcalls
      refine .inr ⟨by simp only [Stage.left] at hcalls; omega, .rebind r, s.rebind r reg, rfl, ?_⟩
      simp [Steps, System.step, System.caller, hreg, hstage]
    | bound => exact .inl rfl
    | failed => exact absurd hstage hsound

theorem publication_waitFree_race : WaitFree (follow System.step (.start Naming.empty) race).1
    (follow System.step (.start Naming.empty) race).2 :=
  publication_waitFree initial_empty (run_follow System.step (.start Naming.empty) race)

end WaitFree
end DgMiddleware.Corba.Publication
