import DgMiddleware.Coshell.Submission

/-! The transcript of a coshell session. A line may be executed twice, but its answer is
printed once, and both follow the order in which the lines were typed. -/
namespace DgMiddleware.Coshell
open Library Server
variable {α : Type}

/-- The characters that the server answers a line with. -/
def Environment.output (env : Environment α) (buffer : String) (server : ServerCommand α) : List Char :=
  match runAndRead env.shell env.describe buffer server with
  | .ret (some output) _ => output
  | _ => []

/-- The line, and its number, that a turn of the loop submits. -/
def submitted (x : System α × Event) : Option (Nat × String) :=
  match x.2 with
  | .line buffer =>
    if x.1.phase = .prompt ∧ buffer ≠ "" ∧ buffer ≠ "exit" ∧ x.1.serverPtr ≠ none then some (x.1.linesRead, buffer)
    else none
  | _ => none

/-- The line whose answer is printed, and the answer. -/
def printed (env : Environment α) (x : System α × Event) : Option ((Nat × String) × List Char) :=
  if x.1.Live then
    match x.1.phase, x.2 with
    | .submitting line buffer, .submit .delivered | .resubmitting line buffer, .resubmit .delivered =>
      some ((line, buffer), env.output buffer x.1.remote.server)
    | _, _ => none
  else none

/-- The lines that a phase may leave without an answer. -/
def Phase.Leaves (unanswered : List (Nat × String)) : Phase → Prop
  | .registering | .prompt | .closing false | .exited => unanswered = []
  | .submitting line buffer | .rebinding line buffer | .resubmitting line buffer => unanswered = [(line, buffer)]
  | .closing true | .handled | .terminated => unanswered.length ≤ 1

/-- One execution comes before another: that of an earlier line, or of the same line
submitted again. -/
def Earlier (x y : Nat × Attempt) : Prop := x.1 < y.1 ∨ x.1 = y.1 ∧ x.2 = .first ∧ y.2 = .again

/-- The lines are submitted, executed and answered in the order in which they were typed,
each is answered once, and only the last one may stay without an answer: while its turn
lasts, or when an exception has ended the loop. -/
structure Transcript (env : Environment α) (trace : List (System α × Event)) (s : System α) : Prop where
  typed : (trace.filterMap submitted).Pairwise (·.1 < ·.1)
  answered : ∃ unanswered, s.phase.Leaves unanswered ∧
    trace.filterMap submitted = (trace.filterMap (printed env)).map Prod.fst ++ unanswered
  executed : s.remote.executed.Pairwise Earlier
  genuine : ∀ x ∈ s.remote.executed, ∃ line ∈ trace.filterMap submitted, line.1 = x.1
  shown : ∀ x ∈ trace.filterMap (printed env), ∃ attempt, (x.1.1, attempt) ∈ s.remote.executed

section Turns
variable {env : Environment α} {s t : System α} {e : Event} {trace : List (System α × Event)} {line : Nat}
  {buffer : String} {attempt : Attempt}

/-- The line of the turn that lasts. -/
def Phase.current : Phase → Option (Nat × String)
  | .submitting line buffer | .rebinding line buffer | .resubmitting line buffer => some (line, buffer)
  | _ => none

/-- What the server is asked to execute. -/
def Phase.asks : Phase → Option ((Nat × String) × Attempt)
  | .submitting line buffer => some ((line, buffer), .first)
  | .resubmitting line buffer => some ((line, buffer), .again)
  | _ => none

/-- All that a step does to the transcript. -/
inductive Turn (env : Environment α) (s : System α) (e : Event) (t : System α) : Prop
  | begins {buffer : String} (hphase : s.phase = .prompt)
      (hsubmitted : submitted (s, e) = some (s.linesRead, buffer)) (hprinted : printed env (s, e) = none)
      (hcurrent : t.phase = .submitting s.linesRead buffer) (hread : t.linesRead = s.linesRead + 1)
      (hexecuted : t.remote.executed = s.remote.executed)
  | answers {line : Nat} {buffer : String} {attempt : Attempt} {output : List Char}
      (hasks : s.phase.asks = some ((line, buffer), attempt)) (hsubmitted : submitted (s, e) = none)
      (hprinted : printed env (s, e) = some ((line, buffer), output)) (hphase : t.phase = .prompt)
      (hread : t.linesRead = s.linesRead) (hexecuted : t.remote.executed = s.remote.executed ++ [(line, attempt)])
  | vain {line : Nat} {buffer : String} {attempt : Attempt} (hasks : s.phase.asks = some ((line, buffer), attempt))
      (hsubmitted : submitted (s, e) = none) (hprinted : printed env (s, e) = none)
      (hphase : t.phase = .rebinding line buffer ∨ t.phase = .closing true) (hread : t.linesRead = s.linesRead)
      (hexecuted : t.remote.executed = s.remote.executed ++ [(line, attempt)])
  | idle (hsubmitted : submitted (s, e) = none) (hprinted : printed env (s, e) = none)
      (hphase : ∀ unanswered, s.phase.Leaves unanswered → t.phase.Leaves unanswered)
      (hcurrent : ∀ x ∈ t.phase.current, x ∈ s.phase.current ∧ t.linesRead = s.linesRead)
      (hread : s.linesRead ≤ t.linesRead) (hexecuted : t.remote.executed = s.remote.executed)

private theorem printed_prompt (hphase : s.phase = .prompt) (e : Event) : printed env (s, e) = none := by
  simp [printed, hphase]

private theorem readLine_turn (hphase : s.phase = .prompt) (buffer : String) :
    Turn env s (.line buffer) (s.readLine buffer) := by
  have hprinted : printed env (s, .line buffer) = none := printed_prompt hphase _
  unfold System.readLine
  split_ifs with hempty hexit hnil
  · refine .idle (by simp [submitted, hempty]) hprinted (fun _ h => h) ?_ (Nat.le_succ _) rfl
    simp [hphase, Phase.current]
  · refine .idle (by simp [submitted, hexit]) hprinted (fun _ h => ?_) ?_ (Nat.le_succ _) rfl
    · rwa [hphase] at h
    · simp [Phase.current]
  · refine .idle (by simp [submitted, hnil]) hprinted (fun _ h => h) ?_ (Nat.le_succ _) rfl
    simp [hphase, Phase.current]
  · exact .begins hphase (by simp [submitted, hphase, hempty, hexit, hnil]) hprinted rfl rfl rfl

private theorem close_turn {unwinding : Bool} {fate : Fate} (hphase : s.phase = .closing unwinding) :
    Turn env s (.unregister fate) (s.close unwinding fate) := by
  have hprinted : printed env (s, .unregister fate) = none := by simp [printed, hphase]
  unfold System.close
  rcases call_cases s fate (·.serve (unregisterClient CLIENT_NAME)) with
    ⟨-, -, hcall⟩ | ⟨-, -, hcall⟩ | ⟨-, hcall⟩
  all_goals
    simp only [hcall]
    refine .idle rfl hprinted (fun unanswered h => ?_) ?_ le_rfl (by simp)
    · rw [hphase] at h
      cases unwinding <;> simp_all [Phase.Leaves]
    · cases unwinding <;> simp [Phase.current]

private theorem line_turn (hphase : s.phase = .prompt) (h : Steps env s (.line buffer) t) :
    Turn env s (.line buffer) t := by
  simp only [Steps, System.step, hphase] at h
  exact Option.some.inj h ▸ readLine_turn hphase buffer

private theorem unregister_turn {unwinding : Bool} {fate : Fate} (hphase : s.phase = .closing unwinding)
    (h : Steps env s (.unregister fate) t) : Turn env s (.unregister fate) t := by
  simp only [Steps, System.step, hphase] at h
  exact Option.some.inj h ▸ close_turn hphase

/-- A submission that leads to the handler was not answered. -/
private theorem lost_printed {fate : Fate} (hphase : s.phase = .submitting line buffer)
    (h : Steps env s (.submit fate) { s with phase := .rebinding line buffer }) :
    printed env (s, .submit fate) = none := by
  by_cases hlive : s.Live
  · cases fate with
    | delivered => simp [Steps, System.step, hphase, System.submit, System.call, hlive] at h
    | requestLost | replyLost => simp [printed, hphase]
  · simp [printed, hlive]

theorem Steps.turn (h : Steps env s e t) : Turn env s e t := by
  have heffect := h.effect
  cases heffect with
  | @registered hphase =>
    refine .idle rfl (by simp [printed, hphase]) (fun _ hl => ?_) (by simp [Phase.current]) le_rfl ?_
    · rwa [hphase] at hl
    · exact serve_executed _ _
  | @notRegistered fate remote hphase hexecuted =>
    refine .idle rfl (by simp [printed, hphase]) (fun _ hl => ?_) (by simp [Phase.current]) le_rfl hexecuted
    rw [hphase] at hl
    obtain rfl : _ = [] := hl
    exact Nat.zero_le 1
  | @skipped buffer hphase | @entered buffer hphase | @exit buffer hphase =>
    exact line_turn hphase h
  | endOfInput hphase =>
    refine .idle rfl (printed_prompt hphase _) (fun _ hl => ?_) (by simp [Phase.current]) le_rfl rfl
    rwa [hphase] at hl
  | answered hphase hlive =>
    exact .answers (by rw [hphase]; rfl) rfl (by simp [printed, hphase, hlive]; rfl) rfl rfl (execute_executed _ _ _)
  | lost hphase =>
    refine .idle rfl (lost_printed hphase h) (fun _ hl => ?_) (fun x hx => ⟨?_, rfl⟩) le_rfl rfl
    · rwa [hphase] at hl
    · rwa [hphase]
  | unanswered hphase hlive =>
    exact .vain (by rw [hphase]; rfl) rfl (by simp [printed, hphase]) (.inl rfl) rfl (execute_executed _ _ _)
  | reconnected hphase =>
    refine .idle rfl (by simp [printed, hphase]) (fun _ hl => ?_) (fun x hx => ⟨?_, rfl⟩) le_rfl rfl
    · rwa [hphase] at hl
    · rwa [hphase]
  | notReconnected hphase =>
    refine .idle rfl (by simp [printed, hphase]) (fun _ hl => ?_) (by simp [Phase.current]) le_rfl rfl
    rw [hphase] at hl
    obtain rfl : _ = [_] := hl
    exact le_rfl
  | answeredAgain hphase hlive =>
    exact .answers (by rw [hphase]; rfl) rfl (by simp [printed, hphase, hlive]; rfl) rfl rfl (execute_executed _ _ _)
  | @lostAgain line buffer fate hphase hno =>
    refine .idle rfl ?_ (fun _ hl => ?_) (by simp [Phase.current]) le_rfl rfl
    · by_cases hlive : s.Live
      · have hfate : fate ≠ .delivered := fun heq => hno ⟨hlive, heq⟩
        cases fate <;> simp_all [printed]
      · simp [printed, hlive]
    · rw [hphase] at hl
      obtain rfl : _ = [_] := hl
      exact le_rfl
  | unansweredAgain hphase hlive =>
    exact .vain (by rw [hphase]; rfl) rfl (by simp [printed, hphase]) (.inr rfl) rfl (execute_executed _ _ _)
  | @closed unwinding fate phase remote hphase =>
    exact unregister_turn hphase h
  | crashed | restarted => exact .idle rfl (by simp [printed]) (fun _ hl => hl) (fun x hx => ⟨hx, rfl⟩) le_rfl rfl

/-- The lines are numbered as they are read, and the turn is that of the last one. -/
structure Numbered (trace : List (System α × Event)) (s : System α) : Prop where
  typed : (trace.filterMap submitted).Pairwise (·.1 < ·.1)
  read : ∀ x ∈ trace.filterMap submitted, x.1 < s.linesRead
  current : ∀ x ∈ s.phase.current, s.linesRead = x.1 + 1

private theorem current_of_asks {p : Phase} (h : p.asks = some ((line, buffer), attempt)) :
    p.current = some (line, buffer) ∧ ∀ unanswered, p.Leaves unanswered ↔ unanswered = [(line, buffer)] := by
  cases p <;> simp_all [Phase.asks, Phase.current, Phase.Leaves]

private theorem Numbered.kept (hn : Numbered trace s) (hsubmitted : submitted (s, e) = none)
    (hread : s.linesRead ≤ t.linesRead) (hcurrent : ∀ x ∈ t.phase.current, x ∈ s.phase.current ∧
      t.linesRead = s.linesRead) : Numbered (trace ++ [(s, e)]) t := by
  have hsame : (trace ++ [(s, e)]).filterMap submitted = trace.filterMap submitted := by
    simp [List.filterMap_append, hsubmitted]
  refine ⟨hsame ▸ hn.typed, fun x hx => (hn.read x (hsame ▸ hx)).trans_le hread, fun x hx => ?_⟩
  obtain ⟨hold, heq⟩ := hcurrent x hx
  exact heq.trans (hn.current x hold)

theorem numbered_step (hn : Numbered trace s) (h : Steps env s e t) : Numbered (trace ++ [(s, e)]) t := by
  cases h.turn with
  | @begins buffer hphase hsubmitted hprinted hcurrent hread =>
    have hnew : (trace ++ [(s, e)]).filterMap submitted = trace.filterMap submitted ++ [(s.linesRead, buffer)] := by
      simp [List.filterMap_append, hsubmitted]
    refine ⟨?_, fun x hx => ?_, fun x hx => ?_⟩
    · rw [hnew, List.pairwise_append]
      refine ⟨hn.typed, List.pairwise_singleton _ _, fun x hx y hy => ?_⟩
      rw [List.mem_singleton.mp hy]
      exact hn.read x hx
    · rw [hnew] at hx
      rcases List.mem_append.mp hx with hx | hx
      · exact hread ▸ (hn.read x hx).trans (Nat.lt_succ_self _)
      · rw [List.mem_singleton.mp hx, hread]
        exact Nat.lt_succ_self _
    · rw [hcurrent] at hx
      obtain rfl := Option.some.inj hx
      exact hread
  | answers hasks hsubmitted hprinted hphase hread =>
    exact hn.kept hsubmitted hread.ge (by simp [hphase, Phase.current])
  | vain hasks hsubmitted hprinted hphase hread =>
    refine hn.kept hsubmitted hread.ge fun x hx => ⟨?_, hread⟩
    rcases hphase with hphase | hphase
    · rw [hphase] at hx
      rw [(current_of_asks hasks).1]
      exact hx
    · rw [hphase] at hx
      cases hx
  | idle hsubmitted hprinted hphase hcurrent hread => exact hn.kept hsubmitted hread hcurrent

/-- The lines that are not answered are what the phase leaves. -/
def Answered (env : Environment α) (trace : List (System α × Event)) (s : System α) : Prop :=
  ∃ unanswered, s.phase.Leaves unanswered ∧
    trace.filterMap submitted = (trace.filterMap (printed env)).map Prod.fst ++ unanswered

theorem answered_step (ha : Answered env trace s) (h : Steps env s e t) : Answered env (trace ++ [(s, e)]) t := by
  obtain ⟨unanswered, hleaves, heq⟩ := ha
  unfold Answered
  rw [List.filterMap_append, List.filterMap_append]
  cases h.turn with
  | @begins buffer hphase hsubmitted hprinted hcurrent =>
    rw [hphase] at hleaves
    obtain rfl : unanswered = [] := hleaves
    refine ⟨[(s.linesRead, buffer)], by rw [hcurrent]; rfl, ?_⟩
    simp [heq, hsubmitted, hprinted]
  | @answers line buffer _ output hasks hsubmitted hprinted hphase =>
    obtain rfl := ((current_of_asks hasks).2 unanswered).mp hleaves
    refine ⟨[], by rw [hphase]; rfl, ?_⟩
    simp [heq, hsubmitted, hprinted]
  | @vain line buffer _ hasks hsubmitted hprinted hphase =>
    obtain rfl := ((current_of_asks hasks).2 unanswered).mp hleaves
    refine ⟨[(line, buffer)], ?_, by simp [heq, hsubmitted, hprinted]⟩
    rcases hphase with hphase | hphase
    · rw [hphase]
      rfl
    · rw [hphase]
      exact le_rfl
  | idle hsubmitted hprinted hphase =>
    exact ⟨unanswered, hphase unanswered hleaves, by simp [heq, hsubmitted, hprinted]⟩

/-- What is executed, and what is printed of it. -/
structure Executions (env : Environment α) (trace : List (System α × Event)) (s : System α) : Prop where
  executed : s.remote.executed.Pairwise Earlier
  genuine : ∀ x ∈ s.remote.executed, ∃ line ∈ trace.filterMap submitted, line.1 = x.1
  shown : ∀ x ∈ trace.filterMap (printed env), ∃ attempt, (x.1.1, attempt) ∈ s.remote.executed

/-- The server is asked for a line only after all it has executed before. -/
private theorem earlier_of_asks (hs : Submissions trace s) (hn : Numbered trace s)
    (hasks : s.phase.asks = some ((line, buffer), attempt)) : ∀ x ∈ s.remote.executed, Earlier x (line, attempt) := by
  rintro ⟨n, a⟩ hx
  have hread : s.linesRead = line + 1 := hn.current (line, buffer) (current_of_asks hasks).1
  have hlt : n < s.linesRead := hs.numbered _ hx
  have hle : n ≤ line := by omega
  rcases lt_or_eq_of_le hle with hlt | rfl
  · exact .inl hlt
  · have hpending := hs.pending
    cases hphase : s.phase <;> simp only [hphase, Phase.asks] at hasks <;> cases hasks
    · rw [hphase] at hpending
      exact absurd hx (hpending.2 a)
    · rw [hphase] at hpending
      cases a with
      | first => exact .inr ⟨rfl, rfl, rfl⟩
      | again => exact absurd hx hpending.2.1

private theorem executions_add (hs : Submissions trace s) (hn : Numbered trace s) (ha : Answered env trace s)
    (he : Executions env trace s) (hasks : s.phase.asks = some ((line, buffer), attempt))
    (hexecuted : t.remote.executed = s.remote.executed ++ [(line, attempt)])
    (hprinted : ∀ x ∈ printed env (s, e), x.1 = (line, buffer)) : Executions env (trace ++ [(s, e)]) t := by
  refine ⟨?_, fun x hx => ?_, fun x hx => ?_⟩
  · rw [hexecuted, List.pairwise_append]
    refine ⟨he.executed, List.pairwise_singleton _ _, fun x hx y hy => ?_⟩
    rw [List.mem_singleton.mp hy]
    exact earlier_of_asks hs hn hasks x hx
  · rw [List.filterMap_append]
    rw [hexecuted] at hx
    rcases List.mem_append.mp hx with hx | hx
    · obtain ⟨y, hy, heq⟩ := he.genuine x hx
      exact ⟨y, List.mem_append_left _ hy, heq⟩
    · obtain ⟨unanswered, hleaves, heq⟩ := ha
      obtain rfl := ((current_of_asks hasks).2 unanswered).mp hleaves
      refine ⟨(line, buffer), List.mem_append_left _ (by simp [heq]), ?_⟩
      rw [List.mem_singleton.mp hx]
  · rw [hexecuted]
    rw [List.filterMap_append] at hx
    rcases List.mem_append.mp hx with hx | hx
    · obtain ⟨a, hold⟩ := he.shown x hx
      exact ⟨a, List.mem_append_left _ hold⟩
    · refine ⟨attempt, List.mem_append_right _ ?_⟩
      have hx : x ∈ printed env (s, e) := by simpa using hx
      rw [hprinted x hx]
      exact List.mem_singleton_self _

theorem executions_step (hs : Submissions trace s) (hn : Numbered trace s) (ha : Answered env trace s)
    (he : Executions env trace s) (h : Steps env s e t) : Executions env (trace ++ [(s, e)]) t := by
  have hkept : t.remote.executed = s.remote.executed → printed env (s, e) = none →
      Executions env (trace ++ [(s, e)]) t := by
    intro hexecuted hprinted
    refine ⟨hexecuted ▸ he.executed, fun x hx => ?_, fun x hx => ?_⟩
    · obtain ⟨y, hy, heq⟩ := he.genuine x (hexecuted ▸ hx)
      exact ⟨y, by rw [List.filterMap_append]; exact List.mem_append_left _ hy, heq⟩
    · rw [List.filterMap_append, List.filterMap_cons_none hprinted, List.filterMap_nil, List.append_nil] at hx
      exact hexecuted ▸ he.shown x hx
  cases h.turn with
  | begins hphase hsubmitted hprinted hcurrent hread hexecuted => exact hkept hexecuted hprinted
  | answers hasks hsubmitted hprinted hphase hread hexecuted =>
    exact executions_add hs hn ha he hasks hexecuted (by simp [hprinted])
  | vain hasks hsubmitted hprinted hphase hread hexecuted =>
    exact executions_add hs hn ha he hasks hexecuted (by simp [hprinted])
  | idle hsubmitted hprinted hphase hcurrent hread hexecuted => exact hkept hexecuted hprinted

/-- In every run, whatever messages are lost and however often the server dies: the
answers are printed once each, for the lines as they were typed, and only the line of a
turn that has not come to its end may be without one. -/
theorem transcript_run {server : ServerCommand α} (h : Run (Steps env) (.start server) trace s) :
    Transcript env trace s := by
  have hstart : Numbered [] (System.start server) ∧ Answered env [] (System.start server) ∧
      Executions env [] (System.start server) := by
    refine ⟨⟨List.Pairwise.nil, ?_, ?_⟩, ⟨[], rfl, rfl⟩, List.Pairwise.nil, ?_, ?_⟩ <;>
      simp [System.start, Phase.current]
  obtain ⟨hn, ha, he⟩ := h.history (fun trace s => Numbered trace s ∧ Answered env trace s ∧ Executions env trace s)
    hstart fun trace s e t hrun hi hstep => ⟨numbered_step hi.1 hstep, answered_step hi.2.1 hstep,
      executions_step (submissions_run hrun) hi.1 hi.2.1 hi.2.2 hstep⟩
  exact ⟨hn.typed, ha, he.executed, he.genuine, he.shown⟩

end Turns

/-- An interpreter that answers with the name of the command, and keeps nothing. -/
def echo : Environment Unit := ⟨⟨0⟩, "sot", shortName, fun cmd _ s => ⟨cmd, none, s⟩, fun _ => ""⟩

/-- The reply to the second line is lost, and the server is started again before the third. -/
def session : List Event :=
  [.register .delivered, .line "help", .submit .delivered, .line "", .line "ping", .submit .replyLost,
    .reconnect (some 0), .resubmit .delivered, .crash, .restart, .line "clients", .submit .delivered,
    .reconnect (some 1), .resubmit .delivered, .endOfInput]

theorem transcript_session :
    (follow (System.step echo) (.start newServer) session).1.filterMap (printed echo) =
      [((0, "help"), "help".toList), ((2, "ping"), "ping".toList), ((3, "clients"), "clients".toList)] ∧
    (follow (System.step echo) (.start newServer) session).2.remote.executed =
      [(0, .first), (2, .first), (2, .again), (3, .again)] ∧
    Transcript echo (follow (System.step echo) (.start newServer) session).1
      (follow (System.step echo) (.start newServer) session).2 :=
  ⟨by decide +kernel, by decide +kernel, transcript_run (run_follow (System.step echo) (.start newServer) session)⟩

end DgMiddleware.Coshell
