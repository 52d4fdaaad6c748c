import DgMiddleware.Coshell.Submission

/-! The destructor on the way of an exception. It calls the server once more, and what
that call throws ends the program before a handler of `main` is reached. -/
namespace DgMiddleware.Coshell
open Library Server
variable {α : Type}

/-- An exception has left `run`. -/
def Raised (trace : List (System α × Event)) : Prop := ∃ x ∈ trace, x.1.phase = .closing true

/-- The program is not aborted, and an exception that has left `run` is with a handler,
or the destructor has yet to make its call. -/
def Reported (trace : List (System α × Event)) (s : System α) : Prop :=
  s.phase ≠ .terminated ∧ (Raised trace → s.phase = .closing true ∨ s.phase = .handled)

/-- During unwinding the call of the destructor reaches a live server and returns. -/
def Unregisters (s : System α) : Event → Prop
  | .unregister fate => s.phase = .closing true → s.Live ∧ fate = .delivered
  | _ => True

instance (s : System α) (e : Event) : Decidable (Unregisters s e) :=
  match e with
  | .unregister fate => inferInstanceAs (Decidable (s.phase = .closing true → s.Live ∧ fate = .delivered))
  | .register _ | .line _ | .endOfInput | .submit _ | .reconnect _ | .reconnectRaises | .resubmit _ | .crash |
    .restart => .isTrue trivial

section Unwinding
variable {env : Environment α} {s t : System α} {e : Event} {trace : List (System α × Event)}

theorem close_phase (s : System α) (unwinding : Bool) (fate : Fate) : (s.close unwinding fate).phase =
    if s.Live ∧ fate = .delivered then if unwinding then .handled else .exited
    else if unwinding then .terminated else .handled := by
  unfold System.close
  rcases call_cases s fate (·.serve (unregisterClient CLIENT_NAME)) with
    ⟨hlive, rfl, hcall⟩ | ⟨-, rfl, hcall⟩ | ⟨hno, hcall⟩
  · simp [hcall, hlive]
  · simp [hcall]
  · rw [if_neg hno, hcall]
    rfl

@[simp] theorem raised_snoc : Raised (trace ++ [(s, e)]) ↔ Raised trace ∨ s.phase = .closing true := by
  simp [Raised, or_and_right, exists_or]

/-- During unwinding nothing else is done than the call of the destructor. -/
private theorem step_unwinding (hphase : s.phase = .closing true) (h : Steps env s e t) :
    (∃ fate, e = .unregister fate ∧ t = s.close true fate) ∨
      ((∀ fate, e ≠ .unregister fate) ∧ t.phase = .closing true) := by
  cases e with
  | unregister fate =>
    refine .inl ⟨fate, rfl, ?_⟩
    simp only [Steps, System.step, hphase] at h
    exact (Option.some.inj h).symm
  | crash | restart => exact .inr ⟨by simp, Option.some.inj h ▸ hphase⟩
  | register | line | endOfInput | submit | reconnect | reconnectRaises | resubmit =>
    simp [Steps, System.step, hphase] at h

private theorem step_handled (hphase : s.phase = .handled) (h : Steps env s e t) : t.phase = .handled := by
  cases e with
  | crash | restart => exact Option.some.inj h ▸ hphase
  | register | line | endOfInput | submit | reconnect | reconnectRaises | resubmit | unregister =>
    simp [Steps, System.step, hphase] at h

/-- Nothing but the destructor aborts the program. -/
private theorem step_terminated (hs : s.phase ≠ .terminated) (hunwinding : s.phase ≠ .closing true)
    (h : Steps env s e t) : t.phase ≠ .terminated := by
  cases h.effect with
  | @closed unwinding fate _ _ hphase =>
    cases unwinding with
    | true => exact absurd hphase hunwinding
    | false =>
      simp only [Steps, System.step, hphase] at h
      rw [← Option.some.inj h, close_phase]
      split <;> simp
  | crashed | restarted | skipped => exact hs
  | registered | notRegistered | entered | exit | endOfInput | answered | lost | unanswered | reconnected |
    notReconnected | answeredAgain | lostAgain | unansweredAgain => simp

private theorem unregisters_of_phase (h : s.phase ≠ .closing true) (e : Event) : Unregisters s e := by
  cases e with
  | unregister fate => exact fun hphase => absurd hphase h
  | register | line | endOfInput | submit | reconnect | reconnectRaises | resubmit | crash | restart => trivial

/-- A step keeps the exception from being lost exactly when it is not the call of the
destructor that fails. -/
private theorem reported_step (hs : Reported trace s) (h : Steps env s e t) :
    Reported (trace ++ [(s, e)]) t ↔ Unregisters s e := by
  unfold Reported
  rw [raised_snoc]
  by_cases hphase : s.phase = .closing true
  · simp only [hphase, or_true, forall_const]
    rcases step_unwinding hphase h with ⟨fate, rfl, rfl⟩ | ⟨hother, hstays⟩
    · have hcond : Unregisters s (.unregister fate) ↔ s.Live ∧ fate = .delivered := forall_prop_of_true hphase
      rw [close_phase, hcond]
      by_cases hreached : s.Live ∧ fate = .delivered
      · simp [hreached]
      · simp [hreached]
    · refine iff_of_true (by simp [hstays]) ?_
      cases e with
      | unregister fate => exact absurd rfl (hother fate)
      | register | line | endOfInput | submit | reconnect | reconnectRaises | resubmit | crash | restart =>
        trivial
  · refine iff_of_true ⟨step_terminated hs.1 hphase h, ?_⟩ (unregisters_of_phase hphase e)
    rintro (hraised | hunwinding)
    · exact .inr (step_handled ((hs.2 hraised).resolve_left hphase) h)
    · exact absurd hunwinding hphase

/-- In a run no exception that leaves `run` is lost to a second one, exactly when every
call of the destructor during unwinding reaches a live server and returns. -/
theorem reported_run_iff {server : ServerCommand α} (h : Run (Steps env) (.start server) trace s) :
    ((∀ before x after, trace = before ++ x :: after → Reported before x.1) ∧ Reported trace s) ↔
      ∀ x ∈ trace, Unregisters x.1 x.2 := by
  have hstart : Reported [] (System.start server) := ⟨nofun, fun ⟨_, hx, _⟩ => absurd hx List.not_mem_nil⟩
  rw [h.forall_histories_iff Reported (fun _ s e => Unregisters s e) hstart
    fun _ _ _ _ _ hs hstep => reported_step hs hstep]
  constructor
  · intro hall x hx
    obtain ⟨before, after, rfl⟩ := List.append_of_mem hx
    exact hall before x after rfl
  · rintro hall before x after rfl
    exact hall x (by simp)

end Unwinding

/-- Both requests of a line fail, and the destructor finds the server alive. -/
def twiceLost : List Event :=
  [.register .delivered, .line "help", .submit .requestLost, .reconnect (some 0), .resubmit .replyLost,
    .unregister .delivered]

theorem reported_twiceLost : Reported (follow (System.step quiet) (.start newServer) twiceLost).1
    (follow (System.step quiet) (.start newServer) twiceLost).2 :=
  ((reported_run_iff (run_follow (System.step quiet) (.start newServer) twiceLost)).mpr (by decide +kernel)).2

/-- The server dies. The name it is bound to leads nowhere, and the two exceptions meet. -/
theorem aborted_on_lost_server : ∃ (trace : List (System Unit × Event)) (s : System Unit),
    Run (Steps quiet) (.start newServer) trace s ∧ trace.map Prod.snd = [.register .delivered, .line "help", .crash,
      .submit .delivered, .reconnect (some 0), .resubmit .delivered, .unregister .delivered] ∧
      Raised trace ∧ s.phase = .terminated ∧ ¬Reported trace s := by
  have hrun := run_follow (System.step quiet) (.start newServer) [.register .delivered, .line "help", .crash,
    .submit .delivered, .reconnect (some 0), .resubmit .delivered, .unregister .delivered]
  refine ⟨_, _, hrun, by decide +kernel, ?_, by decide +kernel, fun hr => absurd ?_ hr.1⟩
  · unfold Raised
    decide +kernel
  · decide +kernel

end DgMiddleware.Coshell
