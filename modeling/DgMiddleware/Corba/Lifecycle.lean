import DgMiddleware.Corba.Activation
import DgMiddleware.Corba.Initialisation

/-! The server of the process over whole runs: whether a server that is there is
complete, and whether one can be had again after it was closed. -/
namespace DgMiddleware.Corba
open Library

/-- A complete server, with its thread started in a running ORB. -/
structure Running (s : CorbaProcess) : Prop where
  server : ∃ g, s.genericServer = some g ∧ g.orb = true ∧ g.poa = true ∧ g.hppContext ≠ none
  thread : s.serverThread = some .started
  orb : s.orb = .running
  manager : s.poa.managerActive = true

/-- The globals point to a complete server, or both are NULL. -/
def Whole (s : CorbaProcess) : Prop := Running s ∨ (s.genericServer = none ∧ s.serverThread = none)

/-- No half-initialised server: an initialisation that returns means a running server,
it returns when nothing fails, and the server can be closed. -/
structure NoHalfServer (s : CorbaProcess) : Prop where
  whole : Whole s
  returned : ∀ faults c t, initCorbaServer faults c s = .ret () t → Running t
  retried : s.orb ≠ .shutDown → ∀ c, ∃ t, initCorbaServer noFaults c s = .ret () t
  closes : ∀ faults, closeCorbaServer faults s ≠ .undefined

/-- The context that an operation calls `initCorbaServer` with. -/
def asksFor (s : CorbaProcess) : Op → Option String
  | .initCorbaServer inContextName => some inContextName
  | .command id (.initCorba cmdArgs) | .command id (.initAndStart cmdArgs) =>
    (s.entities.find? (·.id = id)).map fun _ => contextArg cmdArgs
  | _ => none

/-- The event initialises no server, or completely. -/
def InitCompletes (s : CorbaProcess) (e : Event) : Prop :=
  s.genericServer = none → ∀ c ∈ asksFor s e.op, e.faults.Completes s (decideContext c)

instance (s : CorbaProcess) (e : Event) : Decidable (InitCompletes s e) := by
  unfold InitCompletes
  infer_instance

theorem completes_noFaults {s : CorbaProcess} (h : s.orb ≠ .shutDown) (serverName : String) :
    noFaults.Completes s serverName := by
  refine ⟨⟨h, rfl, rfl, rfl, rfl, rfl, rfl, ?_⟩, rfl, rfl⟩
  by_cases hold : contextName serverName ∈ s.naming.contexts
  · exact .inr ⟨hold, by simp [noFaults], rfl, rfl⟩
  · exact .inl ⟨rfl, hold⟩

section Whole
variable {s t : CorbaProcess} {faults : Faults}

theorem running_served (s : CorbaProcess) (serverName : String) : Running (served s serverName) :=
  ⟨⟨_, rfl, rfl, rfl, by simp⟩, rfl, rfl, rfl⟩

theorem Running.not_missing (h : Running s) : s.genericServer ≠ none := by
  obtain ⟨g, hg, -⟩ := h.server
  simp [hg]

/-- What keeps the globals and the ORB keeps a running server. -/
private theorem Running.kept {g g' : CorbaServerGeneric} (h : Running s) (hg : s.genericServer = some g)
    (hserver : t.genericServer = some g') (hsame : g'.orb = g.orb ∧ g'.poa = g.poa ∧ g'.hppContext = g.hppContext)
    (hthread : t.serverThread = s.serverThread) (horb : t.orb = s.orb)
    (hmanager : t.poa.managerActive = s.poa.managerActive) : Running t := by
  obtain ⟨⟨g₀, hg₀, h₁, h₂, h₃⟩, h₄, h₅, h₆⟩ := h
  obtain rfl := Option.some.inj (hg.symm.trans hg₀)
  obtain ⟨e₁, e₂, e₃⟩ := hsame
  exact ⟨⟨g', hserver, e₁ ▸ h₁, e₂ ▸ h₂, e₃ ▸ h₃⟩, hthread ▸ h₄, horb ▸ h₅, hmanager ▸ h₆⟩

/-- A close leaves a running server or none. -/
private theorem Running.close (h : Running s) (faults : Faults) :
    (∃ u x, Running u ∧ closeCorbaServer faults s = .raise x u) ∨
      closeCorbaServer faults s = .ret () (closed s) := by
  obtain ⟨g, hg, -⟩ := h.server
  rcases closeCorbaServer_cases hg faults with ⟨objects, x, u, -, hx, rfl | rfl⟩ | ⟨-, -, ⟨hno, -⟩ | ⟨-, hret⟩⟩
  · have hkept : Running (s.withObjects objects) := h.kept hg hg ⟨rfl, rfl, rfl⟩ rfl rfl rfl
    exact .inl ⟨_, x, hkept, hx⟩
  · have hkept : Running (emptied s g objects) := h.kept hg rfl ⟨rfl, rfl, rfl⟩ rfl rfl rfl
    exact .inl ⟨_, x, hkept, hx⟩
  · simp [h.thread] at hno
  · exact .inr hret

/-- A server whose initialisation was given up is not a complete one. -/
private theorem failed_not_whole (serverName : String) (h : s.serverThread = none)
    (ht : t = opened s serverName ∨ t = (opened s serverName).withManager ∨ CutShort s t) : ¬Whole t := by
  have hthread : t.serverThread = none := by
    rcases ht with rfl | rfl | hcut
    · exact h
    · exact h
    · rw [hcut.thread, h]
  have hserver : t.genericServer ≠ none := by
    rcases ht with rfl | rfl | hcut
    · simp [opened]
    · simp [opened, CorbaProcess.withManager]
    · obtain ⟨g, hg, -⟩ := hcut.server
      simp [hg]
  rintro (hrun | ⟨hnone, -⟩)
  · simp [hrun.thread] at hthread
  · exact hserver hnone

/-- An initialisation from NULL ends complete, or with a state that is not whole. -/
private theorem init_whole (faults : Faults) (h : s.genericServer = none ∧ s.serverThread = none) (c : String) :
    (faults.Completes s (decideContext c) ∧ initCorbaServer faults c s = .ret () (served s (decideContext c))) ∨
    (¬faults.Completes s (decideContext c) ∧ ∃ x u, initCorbaServer faults c s = .raise x u ∧ ¬Whole u) := by
  rcases initCorbaServer_cases faults h.1 (rfl : decideContext c = _) with
    ⟨hc, hret⟩ | ⟨-, hno, x, u, hx, hu⟩ | ⟨hno, x, u, hx, hcut⟩
  · exact .inl ⟨hc, hret⟩
  · refine .inr ⟨hno, x, u, hx, failed_not_whole (decideContext c) h.2 ?_⟩
    exact hu.elim .inl fun hu => .inr (.inl hu)
  · exact .inr ⟨fun hc => hno hc.opens, x, u, hx,
      failed_not_whole (decideContext c) h.2 (.inr (.inr hcut))⟩

theorem noHalfServer_iff : NoHalfServer s ↔ Whole s := by
  refine ⟨NoHalfServer.whole, fun h => ⟨h, fun faults c t hret => ?_, fun horb c => ?_, fun faults => ?_⟩⟩
  · rcases h with hrun | hnone
    · obtain ⟨g, hg, -⟩ := hrun.server
      rw [initCorbaServer_again hg] at hret
      cases hret
      exact hrun
    · rcases init_whole faults hnone c with ⟨-, hok⟩ | ⟨-, x, u, hx, -⟩
      · rw [hok] at hret
        cases hret
        exact running_served s _
      · rw [hx] at hret
        cases hret
  · rcases h with hrun | hnone
    · obtain ⟨g, hg, -⟩ := hrun.server
      exact ⟨s, initCorbaServer_again hg⟩
    · rcases init_whole noFaults hnone c with ⟨-, hok⟩ | ⟨hno, -⟩
      · exact ⟨_, hok⟩
      · exact absurd (completes_noFaults horb _) hno
  · rcases h with hrun | hnone
    · rcases hrun.close faults with ⟨u, x, -, hx⟩ | hret
      · simp [hx]
      · simp [hret]
    · simp [closeCorbaServer_again hnone.1]

private theorem init_ends (faults : Faults) (hs : Whole s) {c : String} (h : Ends (initCorbaServer faults c) s t) :
    Whole t ↔ (s.genericServer = none → faults.Completes s (decideContext c)) := by
  rcases hs with hrun | hnone
  · obtain ⟨g, hg, -⟩ := hrun.server
    obtain rfl := h.of_ret (initCorbaServer_again hg)
    exact iff_of_true (.inl hrun) fun hbad => absurd hbad hrun.not_missing
  · rcases init_whole faults hnone c with ⟨hc, hok⟩ | ⟨hno, x, u, hx, hu⟩
    · obtain rfl := h.of_ret hok
      exact iff_of_true (.inl (running_served s _)) fun _ => hc
    · obtain rfl := h.of_raise hx
      exact iff_of_false hu fun hall => hno (hall hnone.1)

private theorem add_ends (hs : Whole s) {e : Entity} {name : String} (h : Ends (addIdl faults e name) s t) :
    Whole t := by
  obtain ⟨g, hg, hend⟩ := h.added
  rcases hs with hrun | ⟨hnone, -⟩
  · have hactive : Running (activated s g e.id) := hrun.kept hg rfl ⟨rfl, rfl, rfl⟩ rfl rfl rfl
    rcases hend with rfl | rfl | ⟨context, rfl⟩
    · exact .inl hrun
    · exact .inl hactive
    · exact .inl (hactive.kept rfl rfl ⟨rfl, rfl, rfl⟩ rfl rfl rfl)
  · simp [hnone] at hg

private theorem close_ends (hs : Whole s) (h : Ends (closeCorbaServer faults) s t) : Whole t := by
  rcases hs with hrun | hnone
  · rcases hrun.close faults with ⟨u, x, hu, hx⟩ | hret
    · exact .inl (h.of_raise hx ▸ hu)
    · exact .inr (h.of_ret hret ▸ ⟨rfl, rfl⟩)
  · exact .inr (h.of_ret (closeCorbaServer_again hnone.1) ▸ hnone)

/-- What keeps the globals, the ORB and the POA keeps the process whole. -/
private theorem Whole.kept (hs : Whole s) (hserver : t.genericServer = s.genericServer)
    (hthread : t.serverThread = s.serverThread) (horb : t.orb = s.orb) (hpoa : t.poa = s.poa) : Whole t := by
  rcases hs with ⟨h₁, h₂, h₃, h₄⟩ | ⟨h₁, h₂⟩
  · exact .inl ⟨hserver ▸ h₁, hthread ▸ h₂, horb ▸ h₃, hpoa ▸ h₄⟩
  · exact .inr ⟨hserver ▸ h₁, hthread ▸ h₂⟩

/-- One operation keeps the process whole exactly when it initialises completely. -/
theorem whole_step {e : Event} (hs : Whole s) (h : Steps s e t) : Whole t ↔ InitCompletes s e := by
  obtain ⟨faults, op, result⟩ := e
  have heffect := h.effect
  unfold InitCompletes
  cases heffect with
  | initialised h => simpa [asksFor] using init_ends _ hs h
  | initCorba hfind hinit => simpa [asksFor, hfind] using init_ends _ hs hinit
  | initFails hfind hinit => simpa [asksFor, hfind] using init_ends _ hs (.inr ⟨_, hinit⟩)
  | @initAndStart _ _ cmdArgs u t hfind hinit hadd =>
    have hiff := init_ends faults hs (.inl hinit)
    by_cases hu : Whole u
    · exact iff_of_true (add_ends hu hadd) (by simpa [asksFor, hfind] using hiff.mp hu)
    · refine absurd ?_ hu
      rcases hs with hrun | hnone
      · obtain ⟨g, hg, -⟩ := hrun.server
        exact .inl ((Ends.of_ret (.inl hinit) (initCorbaServer_again hg)).symm ▸ hrun)
      · exact .inl ((noHalfServer_iff.mpr (.inr hnone)).returned _ _ _ hinit)
  | start hfind hadd => exact iff_of_true (add_ends hs hadd) (by simp [asksFor])
  | closed h => exact iff_of_true (close_ends hs h) (by simp [asksFor])
  | nameTaken | notFound | requested => exact iff_of_true hs (by simp [asksFor])
  | noEntity hfind =>
    rename_i command
    exact iff_of_true hs (by cases command <;> simp [asksFor, hfind])
  | created | destroyed => exact iff_of_true (hs.kept rfl rfl rfl rfl) (by simp [asksFor])

/-- In a run no state has a half-initialised server exactly when every initialisation
from NULL goes through all its stages and starts the thread. -/
theorem noHalfServer_run_iff {naming : NamingService} {trace : List (CorbaProcess × Event)}
    (h : Run Steps (.fresh naming) trace s) :
    ((∀ x ∈ trace, NoHalfServer x.1) ∧ NoHalfServer s) ↔ ∀ x ∈ trace, InitCompletes x.1 x.2 := by
  simp only [noHalfServer_iff]
  exact h.forall_states_iff Whole InitCompletes (.inr ⟨rfl, rfl⟩) fun _ _ _ hs hstep => whole_step hs hstep

end Whole

section Restart

/-- What a call has to leave for the server to be had again: after an initialisation a
running server that takes any servant, after a close no ORB that was shut down. -/
def Usable (s : CorbaProcess) : Op → Prop
  | .initCorbaServer _ => Running s ∧ ∀ e : Entity, (∀ id ∈ s.poa.activeObjects, id.servant ≠ e.id) →
      ∃ t, activateIdl noFaults e s = .ret () t
  | .closeCorbaServer => s.orb ≠ .shutDown
  | _ => True

/-- Every call returns, and leaves what it has to. -/
def Restarts : List Op → CorbaProcess → Prop
  | [], _ => True
  | op :: rest, s => ∃ t, perform noFaults op s = .ret () t ∧ Usable t op ∧ Restarts rest t

/-- Initialisations, with any contexts, and closes in turn. -/
def alternating (contexts : Nat → String) (n : Nat) : List Op :=
  (List.range n).map fun i => if i % 2 = 0 then .initCorbaServer (contexts i) else .closeCorbaServer

private theorem usable_served (s : CorbaProcess) (c serverName : String) :
    Usable (served s serverName) (.initCorbaServer c) := by
  refine ⟨running_served s serverName, fun e hnew => ?_⟩
  have hactive : noFaults.Activates (served s serverName) true e.id := ⟨rfl, rfl, rfl, hnew⟩
  exact ⟨_, activateIdl_ok (s := served s serverName) rfl hactive⟩

private theorem init_fresh (naming : NamingService) (c : String) :
    perform noFaults (.initCorbaServer c) (.fresh naming) =
      .ret () (served (.fresh naming) (decideContext c)) := by
  have horb : (CorbaProcess.fresh naming).orb ≠ .shutDown := by simp [CorbaProcess.fresh]
  rcases init_whole (s := .fresh naming) noFaults ⟨rfl, rfl⟩ c with ⟨-, hok⟩ | ⟨hno, -⟩
  · exact hok
  · exact absurd (completes_noFaults horb _) hno

/-- A server that was closed leaves its ORB shut down. -/
private theorem not_restarts_closed {g : CorbaServerGeneric} {s : CorbaProcess} (h : s.genericServer = some g)
    (rest : List Op) : ¬Restarts (.closeCorbaServer :: rest) s := by
  rintro ⟨t, hret, husable, -⟩
  rcases closeCorbaServer_cases h noFaults with ⟨_, x, u, -, hx, -⟩ | ⟨-, -, ⟨-, hno⟩ | ⟨-, hok⟩⟩
  · rw [perform, hx] at hret
    cases hret
  · rw [perform, hno] at hret
    cases hret
  · rw [perform, hok] at hret
    cases hret
    exact husable rfl

/-- Of the alternating sequences only those go through that never close the server. -/
theorem restarts_iff (naming : NamingService) (contexts : Nat → String) (n : Nat) :
    Restarts (alternating contexts n) (.fresh naming) ↔ n ≤ 1 := by
  match n with
  | 0 => exact iff_of_true trivial (by omega)
  | 1 => exact iff_of_true ⟨_, init_fresh naming _, usable_served _ _ _, trivial⟩ (by omega)
  | n + 2 =>
    refine iff_of_false ?_ (by omega)
    obtain ⟨rest, hrest⟩ : ∃ rest, alternating contexts (n + 2) =
        .initCorbaServer (contexts 0) :: .closeCorbaServer :: rest := by
      refine ⟨(List.range n).map fun i =>
        if (i + 1 + 1) % 2 = 0 then .initCorbaServer (contexts (i + 1 + 1)) else .closeCorbaServer, ?_⟩
      simp [alternating, List.range_succ_eq_map, Function.comp_def]
    rw [hrest]
    rintro ⟨t, hret, -, hclose⟩
    rw [init_fresh] at hret
    cases hret
    exact not_restarts_closed rfl _ hclose

end Restart

def emptyNaming : NamingService := ⟨[], fun _ _ => none⟩

/-- Only the named call throws. -/
def failing (c : Call) : Faults := ⟨fun c' => if c' = c then some .systemException else none, fun _ => false⟩

/-- A server is made, asked for again and closed. -/
def openedAndClosed : List (Faults × Op) :=
  [(noFaults, .initCorbaServer "robot"), (failing .nameService, .initCorbaServer ""), (noFaults, .closeCorbaServer)]

theorem noHalfServer_openedAndClosed : NoHalfServer (execute (.fresh emptyNaming) openedAndClosed).2 :=
  ((noHalfServer_run_iff (run_execute (.fresh emptyNaming) openedAndClosed)).mpr (by decide +kernel)).2

/-- The second initialisation gets the ORB that the close has shut down. -/
theorem second_init_fails : ∃ t u v : CorbaProcess,
    perform noFaults (.initCorbaServer "") (.fresh emptyNaming) = .ret () t ∧
      perform noFaults .closeCorbaServer t = .ret () u ∧ u.orb = .shutDown ∧
      perform noFaults (.initCorbaServer "") u = .raise .badInvOrder v :=
  ⟨_, _, _, rfl, rfl, rfl, rfl⟩

/-- The naming service cannot be reached: the globals disagree, a second call returns
without a running server, and a close waits for a thread at NULL. -/
theorem half_server : ∃ (trace : List (CorbaProcess × Event)) (s : CorbaProcess),
    Run Steps (.fresh emptyNaming) trace s ∧ (∀ x ∈ trace, x.2.op = .initCorbaServer "") ∧
      s.genericServer ≠ none ∧ s.serverThread = none ∧ ¬NoHalfServer s ∧
      (∃ t, initCorbaServer noFaults "" s = .ret () t ∧ ¬Running t) ∧
      closeCorbaServer noFaults s = .undefined := by
  have hserver : (execute (.fresh emptyNaming) [(failing .nameService, .initCorbaServer "")]).2.genericServer =
      some ⟨"sot", true, true, none, []⟩ := by decide +kernel
  have hthread : (execute (.fresh emptyNaming) [(failing .nameService, .initCorbaServer "")]).2.serverThread =
      none := by decide +kernel
  have hno : ¬Running (execute (.fresh emptyNaming) [(failing .nameService, .initCorbaServer "")]).2 := by
    intro hrun
    simp [hrun.thread] at hthread
  refine ⟨_, _, run_execute _ [(failing .nameService, .initCorbaServer "")], by decide +kernel, by simp [hserver],
    hthread, ?_, ⟨_, initCorbaServer_again hserver, hno⟩, rfl⟩
  rw [noHalfServer_iff]
  rintro (hrun | ⟨hnone, -⟩)
  · exact hno hrun
  · simp [hserver] at hnone

end DgMiddleware.Corba
