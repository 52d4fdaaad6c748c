import DgMiddleware.Coshell.Submission

/-! Whether a connected client is registered. It registers once, before the loop, while
the handler inside the loop may go on with another start of the server. -/
namespace DgMiddleware.Coshell
open Library Server
variable {α : Type}

/-- About to read a line, with a reference to a live server that has answered the last
command, the client is registered there. -/
def Connected (env : Environment α) (s : System α) : Prop :=
  s.phase = .prompt → s.Live → s.answered = s.serverPtr →
    s.remote.server.callbackList[CLIENT_NAME]? = some env.client

/-- A resubmission that is answered is answered by the start of the server that the
client registered with. -/
def AnsweredAtHome (s : System α) (e : Event) : Prop :=
  e = .resubmit .delivered → s.Live → s.serverPtr = s.registeredWith

instance (s : System α) (e : Event) : Decidable (AnsweredAtHome s e) := by
  unfold AnsweredAtHome
  infer_instance

/-- The commands of the interpreter leave the callback list alone. -/
def RegistersNobody (shell : Interpreter (ServerCommand α)) : Prop :=
  ∀ cmd is s, (shell cmd is s).state.callbackList = s.callbackList

/-- In the loop the client is registered with one start of the server, and no other. -/
def RegisteredAtHome (env : Environment α) (s : System α) : Phase → Prop
  | .prompt | .submitting .. | .rebinding .. | .resubmitting .. => ∃ home, s.registeredWith = some home ∧
      home ≤ s.remote.incarnation ∧ s.remote.server.callbackList[CLIENT_NAME]? =
        if home = s.remote.incarnation then some env.client else none
  | _ => True

/-- What the loop sends a new line to is what the client registered with. -/
def Bound (s : System α) : Prop :=
  match s.phase with
  | .prompt | .submitting .. => s.serverPtr = s.registeredWith
  | _ => True

section Registration
variable {env : Environment α} {s t : System α} {e : Event} {trace : List (System α × Event)}

private theorem register_callbackList (env : Environment α) (remote : Remote α) :
    (remote.serve (registerClient env.client CLIENT_NAME)).server.callbackList[CLIENT_NAME]? = some env.client ∧
      (remote.serve (registerClient env.client CLIENT_NAME)).incarnation = remote.incarnation := by
  simp [Remote.serve, registerClient]

private theorem execute_callbackList (hshell : RegistersNobody env.shell) (line : Nat) (attempt : Attempt)
    (buffer : String) (remote : Remote α) :
    (remote.execute env line attempt buffer).server.callbackList = remote.server.callbackList ∧
      (remote.execute env line attempt buffer).incarnation = remote.incarnation ∧
      (remote.execute env line attempt buffer).alive = remote.alive := by
  have hret := runAndRead_ret env.shell env.describe buffer remote.server
  simp [Remote.execute, Remote.serve, hret, readResult, hshell _ _ _]

/-- What keeps the start of the server and its list keeps the registration. -/
private theorem RegisteredAtHome.kept {p : Phase} (hs : RegisteredAtHome env s p)
    (hwith : t.registeredWith = s.registeredWith) (hstart : t.remote.incarnation = s.remote.incarnation)
    (hlist : t.remote.server.callbackList = s.remote.server.callbackList) : RegisteredAtHome env t p := by
  cases p <;> first | trivial | simpa only [RegisteredAtHome, hwith, hstart, hlist] using hs

/-- A start of the server after that one has nobody registered. -/
private theorem RegisteredAtHome.restart {p : Phase} (hs : RegisteredAtHome env s p) :
    RegisteredAtHome env { s with remote := s.remote.restart env } p := by
  have hempty : (s.remote.restart env).server.callbackList[CLIENT_NAME]? = none := by
    simp [Remote.restart, ServerCommand.construct]
  have hnext : (s.remote.restart env).incarnation = s.remote.incarnation + 1 := rfl
  cases p <;> first
    | trivial
    | (obtain ⟨home, hwith, hle, -⟩ := hs
       refine ⟨home, hwith, by simp only [hnext]; omega, ?_⟩
       rw [if_neg (by simp only [hnext]; omega), hempty])

private theorem registeredAtHome_step (hshell : RegistersNobody env.shell) (hs : RegisteredAtHome env s s.phase)
    (h : Steps env s e t) : RegisteredAtHome env t t.phase := by
  have heffect := h.effect
  cases heffect with
  | registered hphase hlive =>
    obtain ⟨hlist, hstart⟩ := register_callbackList env s.remote
    exact ⟨s.remote.incarnation, hlive.1, hstart.ge, by rw [if_pos hstart.symm, hlist]⟩
  | notRegistered | exit | endOfInput | notReconnected | lostAgain | unansweredAgain => trivial
  | skipped => exact hs.kept rfl rfl rfl
  | entered hphase | lost hphase | reconnected hphase =>
    rw [hphase] at hs
    exact RegisteredAtHome.kept (p := .prompt) hs rfl rfl rfl
  | answered hphase | unanswered hphase | answeredAgain hphase =>
    rw [hphase] at hs
    obtain ⟨hlist, hstart, -⟩ := execute_callbackList hshell _ _ _ s.remote
    exact RegisteredAtHome.kept (p := .prompt) hs rfl hstart hlist
  | closed _ hp => rcases hp with rfl | rfl | rfl <;> trivial
  | crashed => exact hs.kept rfl rfl rfl
  | restarted => exact hs.restart

/-- A step leaves the loop bound to the server it registered with exactly when no other
one answers a resubmission. -/
private theorem bound_step (hs : Bound s) (h : Steps env s e t) : Bound t ↔ AnsweredAtHome s e := by
  have heffect := h.effect
  unfold AnsweredAtHome
  cases heffect with
  | registered => exact iff_of_true rfl (by simp)
  | notRegistered | exit | endOfInput | notReconnected | unansweredAgain | lost | unanswered | reconnected =>
    exact iff_of_true trivial (by simp)
  | skipped => exact iff_of_true hs (by simp)
  | entered hphase =>
    refine iff_of_true ?_ (by simp)
    simpa only [Bound, hphase] using hs
  | answered hphase =>
    refine iff_of_true ?_ (by simp)
    simpa only [Bound, hphase] using hs
  | answeredAgain hphase hlive => simp [Bound, hlive]
  | lostAgain _ hno => exact iff_of_true trivial fun he hlive => absurd ⟨hlive, by simpa using he⟩ hno
  | closed _ hp => exact iff_of_true (by rcases hp with rfl | rfl | rfl <;> trivial) (by simp)
  | crashed => exact iff_of_true hs (by simp)
  | restarted => exact iff_of_true hs (by simp)

private theorem connected_of_bound (hs : RegisteredAtHome env s s.phase) (hbound : Bound s) : Connected env s := by
  intro hphase hlive _
  rw [hphase] at hs
  obtain ⟨home, hwith, -, hlookup⟩ := hs
  have hptr : s.serverPtr = s.registeredWith := by simpa only [Bound, hphase] using hbound
  have hhome : home = s.remote.incarnation := by
    rw [hwith, hlive.1] at hptr
    exact (Option.some.inj hptr).symm
  rw [hlookup, if_pos hhome]

/-- The answer of another start of the server is noticed at once. -/
private theorem answeredAtHome_of_connected (hshell : RegistersNobody env.shell)
    (hs : RegisteredAtHome env s s.phase) (h : Steps env s e t) (ht : Connected env t) : AnsweredAtHome s e := by
  rintro rfl hlive
  cases h.effect with
  | lostAgain _ hno => exact absurd ⟨hlive, rfl⟩ hno
  | @answeredAgain line buffer hphase =>
    rw [hphase] at hs
    obtain ⟨home, hwith, -, hlookup⟩ := hs
    obtain ⟨hlist, hstart, halive⟩ := execute_callbackList hshell line .again buffer s.remote
    have hanswer := ht rfl ⟨hlive.1.trans (congrArg some hstart.symm), halive.trans hlive.2⟩ rfl
    rw [hlist, hlookup] at hanswer
    by_cases hhome : home = s.remote.incarnation
    · rw [hlive.1, hwith, hhome]
    · simp [hhome] at hanswer

/-- In a run the client is registered whenever it is connected, exactly when no start of
the server but the one it registered with ever answers a resubmission. -/
theorem connected_run_iff (hshell : RegistersNobody env.shell) {server : ServerCommand α}
    (h : Run (Steps env) (.start server) trace s) :
    ((∀ x ∈ trace, Connected env x.1) ∧ Connected env s) ↔ ∀ x ∈ trace, AnsweredAtHome x.1 x.2 := by
  have hstart : RegisteredAtHome env (.start server) .registering := trivial
  obtain ⟨hvisited, hlast⟩ := h.always (fun s => RegisteredAtHome env s s.phase) hstart
    fun _ _ _ hs hstep => registeredAtHome_step hshell hs hstep
  constructor
  · rintro ⟨hall, hend⟩ x hx
    obtain ⟨t, hstep, rfl | ⟨y, hy, rfl⟩⟩ := h.successor hx
    · exact answeredAtHome_of_connected hshell (hvisited x hx) hstep hend
    · exact answeredAtHome_of_connected hshell (hvisited x hx) hstep (hall y hy)
  · intro hhome
    have hfree : Bound (System.start server) := trivial
    obtain ⟨hbound, hboundLast⟩ :=
      (h.forall_states_iff Bound AnsweredAtHome hfree fun _ _ _ hs hstep => bound_step hs hstep).mpr hhome
    exact ⟨fun x hx => connected_of_bound (hvisited x hx) (hbound x hx), connected_of_bound hlast hboundLast⟩

end Registration

/-- The first request is lost, and the same server answers the second. -/
theorem connected_requestLost :
    Connected quiet (follow (System.step quiet) (.start newServer) requestLost).2 :=
  ((connected_run_iff (fun _ _ _ => rfl)
    (run_follow (System.step quiet) (.start newServer) requestLost)).mpr (by decide +kernel)).2

/-- A server started anew answers the resubmission, and does not know the client. -/
theorem unregistered_after_restart : ∃ (trace : List (System Unit × Event)) (s : System Unit),
    Run (Steps quiet) (.start newServer) trace s ∧ s.phase = .prompt ∧ s.Live ∧ s.answered = s.serverPtr ∧
      s.remote.server.callbackList[CLIENT_NAME]? = none ∧ ¬Connected quiet s := by
  have hrun := run_follow (System.step quiet) (.start newServer) [.register .delivered, .crash, .restart,
    .line "help", .submit .delivered, .reconnect (some 1), .resubmit .delivered]
  generalize hresult : follow (System.step quiet) (.start newServer) _ = result at hrun
  have hprompt : result.2.phase = .prompt ∧ result.2.Live ∧ result.2.answered = result.2.serverPtr ∧
      result.2.remote.server.callbackList[CLIENT_NAME]? = none := by
    rw [← hresult]
    decide +kernel
  obtain ⟨hphase, hlive, hanswered, hnone⟩ := hprompt
  refine ⟨result.1, result.2, hrun, hphase, hlive, hanswered, hnone, fun hconnected => ?_⟩
  simp [hconnected hphase hlive hanswered] at hnone

end DgMiddleware.Coshell
