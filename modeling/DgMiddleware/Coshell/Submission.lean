import DgMiddleware.Coshell.Client

/-! How often a typed line is executed. The handler submits a line again after any
exception, whether or not the server has received it the first time. -/
namespace DgMiddleware.Coshell
open Library Server
variable {α : Type}

/-- How often a line was executed, by any start of the server. -/
def System.executions (s : System α) (line : Nat) : Nat := s.remote.executed.countP (·.1 = line)

/-- The first submission of the line was executed, and its reply lost. -/
def ReplyLost (trace : List (System α × Event)) (line : Nat) : Prop :=
  ∃ x ∈ trace, (∃ buffer, x.1.phase = .submitting line buffer) ∧ x.1.Live ∧ x.2 = .submit .replyLost

/-- What has become of the line of the current turn. -/
def Pending (trace : List (System α × Event)) (s : System α) : Phase → Prop
  | .submitting line _ => line < s.linesRead ∧ ∀ attempt, (line, attempt) ∉ s.remote.executed
  | .rebinding line _ | .resubmitting line _ => line < s.linesRead ∧ (line, .again) ∉ s.remote.executed ∧
      ((line, .first) ∈ s.remote.executed → ReplyLost trace line)
  | _ => True

structure Submissions (trace : List (System α × Event)) (s : System α) : Prop where
  once : s.remote.executed.Nodup
  numbered : ∀ x ∈ s.remote.executed, x.1 < s.linesRead
  pending : Pending trace s s.phase
  again : ∀ line, (line, .first) ∈ s.remote.executed → (line, .again) ∈ s.remote.executed → ReplyLost trace line

section Submission
variable {env : Environment α} {s t : System α} {e : Event} {trace : List (System α × Event)} {line : Nat}

theorem execute_executed (remote : Remote α) (attempt : Attempt) (buffer : String) :
    (remote.execute env line attempt buffer).executed = remote.executed ++ [(line, attempt)] := rfl

private theorem ReplyLost.later (h : ReplyLost trace line) : ReplyLost (trace ++ [(s, e)]) line := by
  obtain ⟨x, hx, hlost⟩ := h
  exact ⟨x, List.mem_append_left _ hx, hlost⟩

private theorem Submissions.submitting {buffer : String} (hs : Submissions trace s)
    (hphase : s.phase = .submitting line buffer) :
    line < s.linesRead ∧ ∀ attempt, (line, attempt) ∉ s.remote.executed := by
  simpa only [hphase, Pending] using hs.pending

private theorem Submissions.resubmitting {buffer : String} (hs : Submissions trace s)
    (hphase : s.phase = .resubmitting line buffer) : line < s.linesRead ∧ (line, .again) ∉ s.remote.executed ∧
      ((line, .first) ∈ s.remote.executed → ReplyLost trace line) := by
  simpa only [hphase, Pending] using hs.pending

/-- A step that executes nothing keeps the record, if it keeps what is said of its turn. -/
private theorem Submissions.idle (hs : Submissions trace s) (hexecuted : t.remote.executed = s.remote.executed)
    (hread : s.linesRead ≤ t.linesRead) (hpending : Pending (trace ++ [(s, e)]) t t.phase) :
    Submissions (trace ++ [(s, e)]) t where
  once := hexecuted ▸ hs.once
  numbered x hx := (hs.numbered x (hexecuted ▸ hx)).trans_le hread
  pending := hpending
  again line hfirst hagain := (hs.again line (hexecuted ▸ hfirst) (hexecuted ▸ hagain)).later

private theorem Pending.later {p : Phase} (h : Pending trace s p) (hexecuted : t.remote.executed = s.remote.executed)
    (hread : t.linesRead = s.linesRead) : Pending (trace ++ [(s, e)]) t p := by
  cases p with
  | submitting line buffer => simpa only [Pending, hexecuted, hread] using h
  | rebinding line buffer | resubmitting line buffer =>
    obtain ⟨hline, hagain, hfirst⟩ := h
    exact ⟨hread ▸ hline, hexecuted ▸ hagain, fun hmem => (hfirst (hexecuted ▸ hmem)).later⟩
  | _ => trivial

/-- An execution that is the first of its kind, and the second of its line only if the
reply to the other was lost. -/
private theorem Submissions.execute {attempt : Attempt} {buffer : String} {p : Phase} {ans : Option Nat}
    (hs : Submissions trace s) (hline : line < s.linesRead) (hnew : (line, attempt) ∉ s.remote.executed)
    (hother : ∀ a ≠ attempt, (line, a) ∈ s.remote.executed → ReplyLost trace line)
    (hpending : Pending (trace ++ [(s, e)])
      { s with phase := p, answered := ans, remote := s.remote.execute env line attempt buffer } p) :
    Submissions (trace ++ [(s, e)])
      { s with phase := p, answered := ans, remote := s.remote.execute env line attempt buffer } := by
  refine ⟨?_, fun x hx => ?_, hpending, fun other hfirst hagain => ?_⟩
  · simp only [execute_executed, ← List.concat_eq_append]
    exact (List.nodup_concat _ _).mpr ⟨hnew, hs.once⟩
  · rcases List.mem_append.mp hx with hx | hx
    · exact hs.numbered x hx
    · rw [List.mem_singleton.mp hx]
      exact hline
  · by_cases heq : other = line
    · subst heq
      cases attempt with
      | first => exact (hother .again (by simp) (by simpa [execute_executed] using hagain)).later
      | again => exact (hother .first (by simp) (by simpa [execute_executed] using hfirst)).later
    · have hold : ∀ a, (other, a) ∈ s.remote.executed ++ [(line, attempt)] → (other, a) ∈ s.remote.executed := by
        intro a ha
        simpa [heq] using ha
      exact (hs.again other (hold _ hfirst) (hold _ hagain)).later

theorem submissions_step (hs : Submissions trace s) (h : Steps env s e t) : Submissions (trace ++ [(s, e)]) t := by
  have heffect := h.effect
  cases heffect with
  | registered => exact hs.idle (serve_executed _ _) le_rfl trivial
  | notRegistered _ hexecuted => exact hs.idle hexecuted le_rfl trivial
  | skipped hphase => exact hs.idle rfl (Nat.le_succ _) (by rw [hphase]; trivial)
  | entered =>
    refine hs.idle rfl (Nat.le_succ _) ⟨Nat.lt_succ_self _, fun attempt hmem => ?_⟩
    exact absurd (hs.numbered _ hmem) (lt_irrefl _)
  | exit => exact hs.idle rfl (Nat.le_succ _) trivial
  | endOfInput => exact hs.idle rfl le_rfl trivial
  | answered hphase =>
    obtain ⟨hline, hnew⟩ := hs.submitting hphase
    exact hs.execute hline (hnew _) (fun a _ hmem => absurd hmem (hnew a)) trivial
  | @lost line buffer _ hphase =>
    obtain ⟨hline, hnew⟩ := hs.submitting hphase
    exact hs.idle rfl le_rfl ⟨hline, hnew .again, fun hmem => absurd hmem (hnew .first)⟩
  | @unanswered line buffer hphase hlive =>
    obtain ⟨hline, hnew⟩ := hs.submitting hphase
    refine hs.execute hline (hnew _) (fun a _ hmem => absurd hmem (hnew a)) ⟨hline, ?_, fun _ => ?_⟩
    · simpa [execute_executed] using hnew .again
    · exact ⟨(s, .submit .replyLost), by simp, ⟨buffer, hphase⟩, hlive, rfl⟩
  | @reconnected line buffer _ hphase =>
    have hpending : Pending trace s (.resubmitting line buffer) := by
      simpa only [hphase, Pending] using hs.pending
    exact hs.idle rfl le_rfl (hpending.later rfl rfl)
  | notReconnected => exact hs.idle rfl le_rfl trivial
  | answeredAgain hphase | unansweredAgain hphase =>
    obtain ⟨hline, hnew, hlost⟩ := hs.resubmitting hphase
    refine hs.execute hline hnew (fun a ha hmem => ?_) trivial
    cases a with
    | first => exact hlost hmem
    | again => exact absurd rfl ha
  | lostAgain => exact hs.idle rfl le_rfl trivial
  | closed _ hp hexecuted => exact hs.idle hexecuted le_rfl (by rcases hp with rfl | rfl | rfl <;> trivial)
  | crashed => exact hs.idle rfl le_rfl (hs.pending.later rfl rfl)
  | restarted => exact hs.idle rfl le_rfl (hs.pending.later rfl rfl)

private theorem submissions_start (server : ServerCommand α) : Submissions [] (.start server) where
  once := List.nodup_nil
  numbered := by simp [System.start]
  pending := trivial
  again := by simp [System.start]

theorem submissions_run {server : ServerCommand α} (h : Run (Steps env) (.start server) trace s) :
    Submissions trace s :=
  h.history Submissions (submissions_start server) fun _ _ _ _ _ hs hstep => submissions_step hs hstep

theorem executions_eq (s : System α) (line : Nat) : s.executions line =
    s.remote.executed.count (line, .first) + s.remote.executed.count (line, .again) := by
  unfold System.executions
  induction s.remote.executed with
  | nil => rfl
  | cons x xs ih =>
    obtain ⟨n, attempt⟩ := x
    rw [List.countP_cons, List.count_cons, List.count_cons, ih]
    by_cases heq : n = line <;> cases attempt <;> simp [heq]
    all_goals omega

/-- Each of its two submissions executes a line at most once; so it is executed at most
twice, and at most once unless the reply to the first submission was lost. -/
theorem executed_at_most_twice {server : ServerCommand α} (h : Run (Steps env) (.start server) trace s)
    (line : Nat) : (∀ attempt, s.remote.executed.count (line, attempt) ≤ 1) ∧ s.executions line ≤ 2 ∧
      (¬ReplyLost trace line → s.executions line ≤ 1) := by
  have hs := submissions_run h
  have honce : ∀ attempt, s.remote.executed.count (line, attempt) ≤ 1 :=
    fun attempt => List.nodup_iff_count_le_one.mp hs.once _
  have hfirst := honce .first
  have hagain := honce .again
  refine ⟨honce, ?_, fun hno => ?_⟩
  · rw [executions_eq]
    omega
  · rw [executions_eq]
    by_contra hmany
    refine hno (hs.again line ?_ ?_) <;> refine List.count_pos_iff.mp ?_ <;> omega

end Submission

/-- An interpreter that does nothing. -/
def quiet : Environment Unit := ⟨⟨0⟩, "sot", shortName, fun _ _ s => ⟨"", none, s⟩, fun _ => ""⟩

def newServer : ServerCommand Unit := ServerCommand.construct shortName "sot"

/-- The request of the first line is lost, the line submitted again and answered. -/
def requestLost : List Event :=
  [.register .delivered, .line "help", .submit .requestLost, .reconnect (some 0), .resubmit .delivered]

theorem executed_requestLost :
    (follow (System.step quiet) (.start newServer) requestLost).2.executions 0 ≤ 2 :=
  (executed_at_most_twice (run_follow (System.step quiet) (.start newServer) requestLost) 0).2.1

/-- The reply to the first line is lost, and the line executed again. -/
theorem line_executed_twice : ∃ (trace : List (System Unit × Event)) (s : System Unit),
    Run (Steps quiet) (.start newServer) trace s ∧ s.phase = .prompt ∧ s.linesRead = 1 ∧ s.executions 0 = 2 :=
  ⟨_, _, run_follow (System.step quiet) (.start newServer) [.register .delivered, .line "start",
    .submit .replyLost, .reconnect (some 0), .resubmit .delivered], by decide +kernel⟩

end DgMiddleware.Coshell
