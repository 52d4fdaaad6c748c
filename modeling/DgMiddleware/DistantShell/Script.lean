import DgMiddleware.Server.Commands

/-! The loop of the distant shell, which submits the lines appended to a file to the
interpreter. Nothing in it catches what a command throws. The lines are taken to leave
the stream of the shell alone: none of them is its own `open`, which replaces it. -/
namespace DgMiddleware.DistantShell
open Library Server
variable {σ : Type}

/-- The lines that the stream of the file has queued, the calls to `shell.cmd` so far,
and the state the interpreter works on. -/
structure Shell (σ : Type) where
  queue : List String
  submitted : List (String × InputStream)
  graph : σ

abbrev Body (σ β : Type) : Type := Method Exception (Shell σ) β

def Shell.start (graph : σ) : Shell σ := ⟨[], [], graph⟩

/-- `filein.loop()` queues the lines appended since its last call, if there are any. -/
def fileinLoop (appended : List String) : Body σ Bool := do
  let s ← .get
  .set { s with queue := s.queue ++ appended }
  return !appended.isEmpty

/-- The name of the command, and the stream that its arguments are left in. -/
def readCommand (line : String) : String × InputStream := (InputStream.ofString line).extractWord ""

def submit (shell : Interpreter σ) (line : String) : Body σ Unit := do
  let (cmdLine, iss) := readCommand line
  let s ← .get
  let result := shell cmdLine iss s.graph
  .set { s with submitted := s.submitted ++ [(cmdLine, iss)], graph := result.state }
  match result.raised with
  | none => return
  | some e => .raise e

/-- The inner loop, over the lines that are ready; `next` takes a line off the queue
before its command is executed. -/
def drain (shell : Interpreter σ) : List String → Body σ Unit
  | [] => return
  | line :: rest => do
    let s ← .get
    .set { s with queue := rest }
    submit shell line
    drain shell rest

def poll (shell : Interpreter σ) (appended : List String) : Body σ Unit := do
  if ← fileinLoop appended then
    let s ← .get
    drain shell s.queue
  else return

/-- The turns of the loop before it is asked to end, each with the lines appended since
the turn before. -/
def loop (shell : Interpreter σ) : List (List String) → Body σ Unit
  | [] => return
  | appended :: polls => do
    poll shell appended
    loop shell polls

/-- The same lines sent to the remote shell, one after another. -/
def remoteShell (shell : Interpreter σ) (describe : Exception → String) : List String → Method Exception σ Unit
  | [] => return
  | line :: rest => do
    let _ ← runAndRead shell describe line
    remoteShell shell describe rest

section Script
variable (shell : Interpreter σ)

def execute (line : String) (graph : σ) : CmdResult σ := shell (readCommand line).1 (readCommand line).2 graph

/-- What the lines make of the graph when each of them is executed. -/
def graphAfter (lines : List String) (graph : σ) : σ := lines.foldl (fun g line => (execute shell line g).state) graph

/-- None of the lines throws, executed in order. -/
def Quiet : List String → σ → Prop
  | [], _ => True
  | line :: rest, graph => (execute shell line graph).raised = none ∧ Quiet rest (execute shell line graph).state

def Shell.after (s : Shell σ) (lines : List String) : Shell σ :=
  { s with submitted := s.submitted ++ lines.map readCommand, graph := graphAfter shell lines s.graph }

/-- Every line is submitted once, in order, and the graph is what the remote shell would
have made of it. -/
def ExecutesAll (polls : List (List String)) (graph : σ) : Prop :=
  ∃ t, (loop shell polls (.start graph) = .ret () t ∨ ∃ e, loop shell polls (.start graph) = .raise e t) ∧
    t.submitted = polls.flatten.map readCommand ∧
    ∀ describe, remoteShell shell describe polls.flatten graph = .ret () t.graph

variable {shell} {s : Shell σ} {graph : σ} {line : String} {lines : List String}

@[simp] theorem graphAfter_append {others : List String} : graphAfter shell (lines ++ others) graph =
    graphAfter shell others (graphAfter shell lines graph) := List.foldl_append

@[simp] theorem after_graph : (s.after shell lines).graph = graphAfter shell lines s.graph := rfl

theorem after_append (s : Shell σ) (lines others : List String) :
    s.after shell (lines ++ others) = (s.after shell lines).after shell others := by
  simp [Shell.after]

theorem after_cons (s : Shell σ) (line : String) (lines : List String) :
    s.after shell (line :: lines) = (s.after shell [line]).after shell lines := after_append s [line] lines

theorem after_nil : s.after shell [] = s := by
  simp [Shell.after, graphAfter]

theorem quiet_append {others : List String} : Quiet shell (lines ++ others) graph ↔
    Quiet shell lines graph ∧ Quiet shell others (graphAfter shell lines graph) := by
  induction lines generalizing graph with
  | nil => simp [Quiet, graphAfter]
  | cons line rest ih => simp [Quiet, ih, and_assoc, graphAfter]

theorem submit_apply (shell : Interpreter σ) (s : Shell σ) (line : String) : submit shell line s =
    match (execute shell line s.graph).raised with
    | none => .ret () (s.after shell [line])
    | some e => .raise e (s.after shell [line]) := by
  simp only [submit, Method.bind_apply, Method.get_apply, Outcome.bind_ret, Method.set_apply, execute]
  cases (shell (readCommand line).1 (readCommand line).2 s.graph).raised <;> rfl

theorem remoteShell_ret (describe : Exception → String) :
    remoteShell shell describe lines graph = .ret () (graphAfter shell lines graph) := by
  induction lines generalizing graph with
  | nil => rfl
  | cons line rest ih =>
    have hret := runAndRead_ret shell describe line graph
    simp only [remoteShell, Method.bind_apply, hret, Outcome.bind_ret, ih]
    rfl

/-- The lines that are ready are all executed, or up to the first that throws. -/
private theorem drain_cases (shell : Interpreter σ) (s : Shell σ) (lines : List String) (hqueue : s.queue = lines) :
    (Quiet shell lines s.graph ∧ drain shell lines s = .ret () { s.after shell lines with queue := [] }) ∨
    ∃ before line after e, lines = before ++ line :: after ∧ Quiet shell before s.graph ∧
      (execute shell line (graphAfter shell before s.graph)).raised = some e ∧
      drain shell lines s = .raise e { s.after shell (before ++ [line]) with queue := after } := by
  induction lines generalizing s with
  | nil =>
    have hsame : ({ s with queue := [] } : Shell σ) = s := by rw [← hqueue]
    refine .inl ⟨trivial, ?_⟩
    rw [after_nil, hsame]
    rfl
  | cons line rest ih =>
    have hsubmit := submit_apply shell { s with queue := rest } line
    cases hraised : (execute shell line s.graph).raised with
    | some e =>
      refine .inr ⟨[], line, rest, e, rfl, trivial, hraised, ?_⟩
      simp only [drain, Method.bind_apply, Method.get_apply, Outcome.bind_ret, Method.set_apply, hsubmit, hraised]
      rfl
    | none =>
      have hnext : drain shell (line :: rest) s = drain shell rest ({ s with queue := rest }.after shell [line]) := by
        simp only [drain, Method.bind_apply, Method.get_apply, Outcome.bind_ret, Method.set_apply, hsubmit, hraised]
      rcases ih ({ s with queue := rest }.after shell [line]) rfl with
        ⟨hquiet, hret⟩ | ⟨before, line', after, e, rfl, hquiet, hbad, hraise⟩
      · refine .inl ⟨⟨hraised, hquiet⟩, ?_⟩
        rw [hnext, hret, after_cons s line rest]
        rfl
      · refine .inr ⟨line :: before, line', after, e, rfl, ⟨hraised, hquiet⟩, hbad, ?_⟩
        rw [hnext, hraise, List.cons_append, after_cons s line (before ++ [line'])]
        rfl

/-- The lines of all polls are executed, or up to the first that throws. -/
private theorem loop_cases (shell : Interpreter σ) (s : Shell σ) (polls : List (List String))
    (hqueue : s.queue = []) :
    (Quiet shell polls.flatten s.graph ∧ loop shell polls s = .ret () (s.after shell polls.flatten)) ∨
    ∃ before line after e queue, polls.flatten = before ++ line :: after ∧ Quiet shell before s.graph ∧
      (execute shell line (graphAfter shell before s.graph)).raised = some e ∧
      loop shell polls s = .raise e { s.after shell (before ++ [line]) with queue := queue } := by
  induction polls generalizing s with
  | nil => exact .inl ⟨trivial, by rw [List.flatten_nil, after_nil]; rfl⟩
  | cons appended polls ih =>
    cases happended : appended with
    | nil =>
      have hidle : loop shell ([] :: polls) s = loop shell polls s := by
        simp [loop, poll, fileinLoop]
      rw [hidle]
      exact ih s hqueue
    | cons line rest =>
      rw [← happended]
      have hpoll : loop shell (appended :: polls) s =
          (drain shell appended { s with queue := appended }).bind fun _ t => loop shell polls t := by
        simp [loop, poll, fileinLoop, hqueue, happended]
      rcases drain_cases shell { s with queue := appended } appended rfl with
        ⟨hquiet, hret⟩ | ⟨before, bad, after, e, hsplit, hquiet, hbad, hraise⟩
      · have hnext : loop shell (appended :: polls) s = loop shell polls (s.after shell appended) := by
          rw [hpoll, hret, Outcome.bind_ret, ← hqueue]
          rfl
        rw [hnext, List.flatten_cons, after_append s]
        rcases ih (s.after shell appended) hqueue with
          ⟨hrest, hret⟩ | ⟨before, bad, after, e, queue, hsplit, hbefore, hbad, hraise⟩
        · exact .inl ⟨quiet_append.mpr ⟨hquiet, hrest⟩, hret⟩
        · refine .inr ⟨appended ++ before, bad, after, e, queue, by simp [hsplit], quiet_append.mpr ⟨hquiet, hbefore⟩,
            by rw [graphAfter_append]; exact hbad, ?_⟩
          rw [hraise, List.append_assoc, after_append s appended]
      · refine .inr ⟨before, bad, after ++ polls.flatten, e, after, by simp [hsplit], hquiet, hbad, ?_⟩
        rw [hpoll, hraise]
        rfl

/-- The loop executes a script, over any number of polls, as the remote shell would,
exactly when no line of it but possibly the last throws. -/
theorem executesAll_iff (shell : Interpreter σ) (polls : List (List String)) (graph : σ) :
    ExecutesAll shell polls graph ↔ Quiet shell polls.flatten.dropLast graph := by
  rcases loop_cases shell (.start graph) polls rfl with
    ⟨hquiet, hret⟩ | ⟨before, line, after, e, queue, hsplit, hquiet, hbad, hraise⟩
  · refine iff_of_true ⟨_, .inl hret, rfl, fun describe => remoteShell_ret describe⟩ ?_
    obtain hnil | ⟨lines, last, hlines⟩ := List.eq_nil_or_concat polls.flatten
    · rw [hnil]
      trivial
    · rw [hlines, List.concat_eq_append] at hquiet ⊢
      rw [List.dropLast_concat]
      exact (quiet_append.mp hquiet).1
  · cases after with
    | nil =>
      refine iff_of_true ⟨_, .inr ⟨e, hraise⟩, by rw [hsplit]; rfl, fun describe => ?_⟩ ?_
      · rw [hsplit]
        exact remoteShell_ret describe
      · rwa [hsplit, List.dropLast_concat]
    | cons next rest =>
      refine iff_of_false ?_ ?_
      · rintro ⟨t, ht | ⟨e', ht⟩, hsubmitted, -⟩
        · rw [hraise] at ht
          cases ht
        · rw [hraise] at ht
          cases ht
          have hlength := congrArg List.length hsubmitted
          simp [Shell.after, Shell.start, hsplit] at hlength
      · intro hall
        have hkept : polls.flatten.dropLast = before ++ line :: (next :: rest).dropLast := by
          rw [hsplit, List.dropLast_append_of_ne_nil (by simp)]
          rfl
        rw [hkept] at hall
        have hline : (execute shell line (graphAfter shell before graph)).raised = none := (quiet_append.mp hall).2.1
        rw [Shell.start] at hbad
        simp [hbad] at hline

end Script

/-- An interpreter of one command, which keeps what it was told to print. -/
def printing : Interpreter (List String) := fun cmd is printed =>
  if cmd = "print" then ⟨"", none, printed ++ [(is.extractWord "").1]⟩ else ⟨"", some .exceptionFactory, printed⟩

/-- After the line that throws nothing is submitted any more. -/
theorem script_stops : loop printing [["print a", "pirnt b", "print c"], ["print d"]] (.start []) =
      .raise .exceptionFactory ⟨["print c"], [readCommand "print a", readCommand "pirnt b"], ["a"]⟩ ∧
    remoteShell printing (fun _ => "") ["print a", "pirnt b", "print c", "print d"] [] = .ret () ["a", "c", "d"] ∧
    ¬ExecutesAll printing [["print a", "pirnt b", "print c"], ["print d"]] [] := by
  have hloop : loop printing [["print a", "pirnt b", "print c"], ["print d"]] (.start []) =
      .raise .exceptionFactory ⟨["print c"], [readCommand "print a", readCommand "pirnt b"], ["a"]⟩ := by rfl
  refine ⟨hloop, by rfl, ?_⟩
  rintro ⟨t, ht | ⟨e, ht⟩, hsubmitted, -⟩
  · rw [hloop] at ht
    cases ht
  · rw [hloop] at ht
    cases ht
    have hlength := congrArg List.length hsubmitted
    simp at hlength

end DgMiddleware.DistantShell
