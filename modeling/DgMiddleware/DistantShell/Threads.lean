import DgMiddleware.Library.Run

/-! The threads of a distant shell. One flag tells all of them to end, and nothing takes
it back. The lines that a turn polls are taken not to throw, so that a loop ends by the
flag only. -/
namespace DgMiddleware.DistantShell.Threads
open Library

def LATENCY_DEFAULT : Nat := 10

/-- A loop in a thread of its own, with the latency it was given. -/
structure Thread where
  lat : Nat
  running : Bool
  deriving DecidableEq, Repr

/-- The shell of an entity, the threads that `start` has created so far, and the files
that their loops have polled. `threadLoop` points to the last thread. -/
structure DShell where
  filein : String
  endLoop : Bool
  latency : Nat
  threadLoop : Option Nat
  threads : List Thread
  polled : List String
  deriving DecidableEq, Repr

/-- The commands of the entity, and a turn of a loop: it looks at the flag, and polls. -/
inductive Event where
  | openFile (filename : String)
  | start
  | stop
  | latency (l : Nat)
  | turn (thread : Nat)
  deriving DecidableEq, Repr

def DShell.construct : DShell := ⟨"", false, LATENCY_DEFAULT, none, [], []⟩

def DShell.inputFile (s : DShell) (filename : String) : DShell := { s with filein := filename }

def DShell.loopInThread (s : DShell) : DShell :=
  { s with threadLoop := some s.threads.length, threads := s.threads ++ [⟨s.latency, true⟩] }

def DShell.terminate (s : DShell) : DShell := { s with endLoop := true }

def DShell.setLatency (s : DShell) (l : Nat) : DShell := { s with latency := l }

def DShell.turn (s : DShell) (i : Nat) : DShell :=
  if s.endLoop then { s with threads := s.threads.modify i fun thread => { thread with running := false } }
  else { s with polled := s.polled ++ [s.filein] }

def DShell.Runs (s : DShell) (i : Nat) : Prop := ∃ thread, s.threads[i]? = some thread ∧ thread.running = true

instance (s : DShell) (i : Nat) : Decidable (s.Runs i) :=
  decidable_of_iff (∃ thread ∈ s.threads[i]?, thread.running = true) (by simp [DShell.Runs])

def DShell.step (s : DShell) : Event → Option DShell
  | .openFile filename => some (s.inputFile filename)
  | .start => some s.loopInThread
  | .stop => some s.terminate
  | .latency l => some (s.setLatency l)
  | .turn i => if s.Runs i then some (s.turn i) else none

def Steps (s : DShell) (e : Event) (t : DShell) : Prop := s.step e = some t

/-- What the event asks of the loops: to run, or to end. -/
def Event.asks : Event → Option Bool
  | .start => some true
  | .stop => some false
  | .openFile _ | .latency _ | .turn _ => none

/-- Whether the last of all starts and stops was a start. -/
def started (trace : List (DShell × Event)) : Option Bool := trace.foldl (fun last x => x.2.asks.or last) none

def DShell.running (s : DShell) : Nat := s.threads.countP (·.running)

/-- After a start a loop polls the opened file, after a stop every loop ends with its next
turn, and at no time there is more than one. -/
structure Repeats (trace : List (DShell × Event)) (s : DShell) : Prop where
  single : s.running ≤ 1
  polls : started trace = some true →
    ∃ i t, Steps s (.turn i) t ∧ t.Runs i ∧ t.polled = s.polled ++ [s.filein]
  ends : started trace = some false → ∀ i t, Steps s (.turn i) t → ¬t.Runs i

def Asked (trace : List (DShell × Event)) (e : Event) : Prop := ∃ x ∈ trace, x.2 = e

/-- A start is the first of all starts, and comes before any stop. -/
def FirstStart (trace : List (DShell × Event)) (e : Event) : Prop :=
  e = .start → ¬Asked trace .start ∧ ¬Asked trace .stop

section Threads
variable {s t : DShell} {e : Event} {trace : List (DShell × Event)} {i : Nat}

theorem started_concat : started (trace ++ [(s, e)]) = e.asks.or (started trace) := by
  simp [started]

theorem asked_concat {e' : Event} : Asked (trace ++ [(s, e)]) e' ↔ Asked trace e' ∨ e = e' := by
  simp [Asked, or_and_right, exists_or]

theorem exists_runs_iff : (∃ i, s.Runs i) ↔ 0 < s.running := by
  rw [DShell.running, List.countP_pos_iff]
  constructor
  · rintro ⟨i, thread, hget, hruns⟩
    exact ⟨thread, List.mem_of_getElem? hget, hruns⟩
  · rintro ⟨thread, hmem, hruns⟩
    obtain ⟨i, hget⟩ := List.mem_iff_getElem?.mp hmem
    exact ⟨i, thread, hget, hruns⟩

theorem step_turn_iff : Steps s (.turn i) t ↔ s.Runs i ∧ t = s.turn i := by
  simp [Steps, DShell.step, eq_comm]

theorem turn_polls (h : s.endLoop = false) (i : Nat) : s.turn i = { s with polled := s.polled ++ [s.filein] } := by
  simp [DShell.turn, h]

/-- A loop that sees the flag ends. -/
theorem turn_ends (h : s.endLoop = true) (i : Nat) : ¬(s.turn i).Runs i := by
  rintro ⟨thread, hget, hruns⟩
  simp only [DShell.turn, h, if_true, List.getElem?_modify_eq, Option.map_eq_map, Option.map_eq_some_iff] at hget
  obtain ⟨old, -, rfl⟩ := hget
  cases hruns

/-- Some loop polls exactly when one runs and the flag is not set. -/
theorem polls_iff : (∃ i t, Steps s (.turn i) t ∧ t.Runs i ∧ t.polled = s.polled ++ [s.filein]) ↔
    s.endLoop = false ∧ 0 < s.running := by
  rw [← exists_runs_iff]
  constructor
  · rintro ⟨i, t, hstep, hruns, -⟩
    obtain ⟨hbefore, rfl⟩ := step_turn_iff.mp hstep
    refine ⟨?_, i, hbefore⟩
    by_contra hflag
    exact turn_ends (by simpa using hflag) i hruns
  · rintro ⟨hflag, i, hruns⟩
    exact ⟨i, s.turn i, step_turn_iff.mpr ⟨hruns, rfl⟩, by rwa [turn_polls hflag], by rw [turn_polls hflag]⟩

/-- Every loop ends with its next turn exactly when the flag is set, or none runs. -/
theorem ends_iff : (∀ i t, Steps s (.turn i) t → ¬t.Runs i) ↔ s.endLoop = true ∨ s.running = 0 := by
  constructor
  · intro hends
    by_contra hno
    simp only [not_or, Bool.not_eq_true] at hno
    obtain ⟨i, hruns⟩ := exists_runs_iff.mpr (Nat.pos_of_ne_zero hno.2)
    refine hends i _ (step_turn_iff.mpr ⟨hruns, rfl⟩) ?_
    rwa [turn_polls hno.1]
  · rintro (hflag | hidle) i t hstep
    · obtain ⟨-, rfl⟩ := step_turn_iff.mp hstep
      exact turn_ends hflag i
    · have hpos := exists_runs_iff.mp ⟨i, (step_turn_iff.mp hstep).1⟩
      omega

theorem repeats_iff : Repeats trace s ↔ s.running ≤ 1 ∧
    (started trace = some true → s.endLoop = false ∧ 0 < s.running) ∧
    (started trace = some false → s.endLoop = true ∨ s.running = 0) := by
  constructor
  · rintro ⟨hsingle, hpolls, hends⟩
    exact ⟨hsingle, fun hs => polls_iff.mp (hpolls hs), fun hs => ends_iff.mp (hends hs)⟩
  · rintro ⟨hsingle, hpolls, hends⟩
    exact ⟨hsingle, fun hs => polls_iff.mpr (hpolls hs), fun hs => ends_iff.mpr (hends hs)⟩

/-- What the flag and the threads say about the past. -/
structure Recorded (trace : List (DShell × Event)) (s : DShell) : Prop where
  flag : s.endLoop = true ↔ Asked trace .stop
  alive : s.endLoop = false → ∀ thread ∈ s.threads, thread.running = true
  unstarted : s.threads = [] ↔ ¬Asked trace .start

/-- A step that asks nothing keeps the record, if it keeps the flag and the threads. -/
private theorem Recorded.kept (hs : Recorded trace s) (hasks : e.asks = none) (hflag : t.endLoop = s.endLoop)
    (hthreads : t.threads = s.threads) : Recorded (trace ++ [(s, e)]) t := by
  have hother : e ≠ .start ∧ e ≠ .stop := by
    constructor <;> (rintro rfl; cases hasks)
  refine ⟨?_, hflag ▸ hthreads ▸ hs.alive, ?_⟩
  · rw [hflag, hs.flag, asked_concat]
    simp [hother.2]
  · rw [hthreads, hs.unstarted, asked_concat]
    simp [hother.1]

private theorem recorded_step (hs : Recorded trace s) (h : Steps s e t) : Recorded (trace ++ [(s, e)]) t := by
  cases e with
  | openFile filename => exact Option.some.inj h ▸ hs.kept rfl rfl rfl
  | latency l => exact Option.some.inj h ▸ hs.kept rfl rfl rfl
  | start =>
    obtain rfl := Option.some.inj h
    refine ⟨?_, fun hclear thread hmem => ?_, ?_⟩
    · rw [asked_concat]
      exact hs.flag.trans (by simp)
    · rcases List.mem_append.mp hmem with hmem | hmem
      · exact hs.alive hclear thread hmem
      · rw [List.mem_singleton.mp hmem]
    · simp [asked_concat, DShell.loopInThread]
  | stop =>
    obtain rfl := Option.some.inj h
    refine ⟨by simp [asked_concat, DShell.terminate], nofun, ?_⟩
    rw [asked_concat]
    exact hs.unstarted.trans (by simp)
  | turn i =>
    obtain ⟨-, rfl⟩ := step_turn_iff.mp h
    cases hflag : s.endLoop with
    | false =>
      rw [turn_polls hflag]
      exact hs.kept rfl rfl rfl
    | true =>
      have hturn : (s.turn i).endLoop = true ∧ ((s.turn i).threads = [] ↔ s.threads = []) := by
        simp [DShell.turn, hflag]
      refine ⟨?_, fun hclear => ?_, ?_⟩
      · rw [hturn.1, asked_concat, ← hs.flag, hflag]
        simp
      · rw [hturn.1] at hclear
        cases hclear
      · rw [hturn.2, hs.unstarted, asked_concat]
        simp

/-- A start is the first one exactly when it finds no thread and the flag not set. -/
private theorem firstStart_iff (hs : Recorded trace s) :
    FirstStart trace .start ↔ s.running = 0 ∧ s.endLoop = false := by
  have hflag : s.endLoop = false ↔ ¬Asked trace .stop := by rw [← hs.flag, Bool.not_eq_true]
  rw [hflag]
  simp only [FirstStart, forall_const, ← hs.unstarted]
  refine and_congr_left fun hno => ?_
  rw [DShell.running, List.countP_eq_zero]
  constructor
  · intro hnil
    simp [hnil]
  · intro hidle
    refine List.eq_nil_iff_forall_not_mem.mpr fun thread hmem => hidle thread hmem ?_
    exact hs.alive (hflag.mpr hno) thread hmem

/-- To end a thread starts no other. -/
private theorem countP_modify_le (threads : List Thread) (i : Nat) :
    (threads.modify i fun thread => { thread with running := false }).countP (·.running) ≤
      threads.countP (·.running) := by
  induction threads generalizing i with
  | nil => simp
  | cons thread rest ih =>
    cases i with
    | zero =>
      rw [List.modify_zero_cons, List.countP_cons, List.countP_cons]
      simp
    | succ i =>
      rw [List.modify_succ_cons, List.countP_cons, List.countP_cons]
      have := ih i
      omega

private theorem running_turn_le (s : DShell) (i : Nat) : (s.turn i).running ≤ s.running := by
  unfold DShell.turn
  split
  · exact countP_modify_le s.threads i
  · exact Nat.le_refl _

/-- A step keeps the shell in order exactly when it is not a second start, or a start
after a stop. -/
private theorem repeats_step (hrec : Recorded trace s) (hr : Repeats trace s) (h : Steps s e t) :
    Repeats (trace ++ [(s, e)]) t ↔ FirstStart trace e := by
  rw [repeats_iff, started_concat]
  obtain ⟨hsingle, hpolls, hends⟩ := repeats_iff.mp hr
  cases e with
  | openFile | latency =>
    obtain rfl := Option.some.inj h
    exact iff_of_true ⟨hsingle, hpolls, hends⟩ nofun
  | start =>
    obtain rfl := Option.some.inj h
    have hrunning : s.loopInThread.running = s.running + 1 := by
      simp [DShell.running, DShell.loopInThread]
    have hflag : s.loopInThread.endLoop = s.endLoop := rfl
    rw [firstStart_iff hrec, hrunning, hflag]
    simp [Event.asks]
  | stop =>
    obtain rfl := Option.some.inj h
    exact iff_of_true ⟨hsingle, by simp [Event.asks], fun _ => .inl rfl⟩ nofun
  | turn i =>
    obtain ⟨-, rfl⟩ := step_turn_iff.mp h
    refine iff_of_true ?_ nofun
    cases hflag : s.endLoop with
    | false =>
      rw [turn_polls hflag]
      exact ⟨hsingle, hpolls, hends⟩
    | true =>
      refine ⟨Nat.le_trans (running_turn_le s i) hsingle, fun hs => ?_, fun _ => .inl ?_⟩
      · have hclear := (hpolls hs).1
        rw [hflag] at hclear
        cases hclear
      · simp [DShell.turn, hflag]

/-- At any time after a start a loop polls, after a stop all loops end, and no two loops
run, exactly when the only start comes before all stops. -/
theorem repeats_run_iff (h : Run Steps .construct trace s) :
    ((∀ before x after, trace = before ++ x :: after → Repeats before x.1) ∧ Repeats trace s) ↔
      ∀ before x after, trace = before ++ x :: after → FirstStart before x.2 := by
  have hfirst : Recorded [] .construct := ⟨by simp [Asked, DShell.construct], by simp [DShell.construct],
    by simp [Asked, DShell.construct]⟩
  have hnothing : Repeats [] .construct := repeats_iff.mpr ⟨by decide, by simp [started], by simp [started]⟩
  refine h.forall_histories_iff Repeats (fun trace _ e => FirstStart trace e) hnothing
    fun trace s e t hrun hr hstep => repeats_step ?_ hr hstep
  exact hrun.history Recorded hfirst fun _ _ _ _ _ hs hstep => recorded_step hs hstep

end Threads

/-- A shell that is opened, started and stopped, and stopped once more. -/
def onceStarted : List Event :=
  [.openFile "script", .latency 5, .start, .turn 0, .stop, .turn 0, .stop]

instance (trace : List (DShell × Event)) (e : Event) : Decidable (FirstStart trace e) := by
  unfold FirstStart Asked
  infer_instance

theorem repeats_onceStarted : Repeats (follow DShell.step .construct onceStarted).1
    (follow DShell.step .construct onceStarted).2 := by
  refine ((repeats_run_iff (run_follow DShell.step .construct onceStarted)).mpr ?_).2
  rw [forall_splits_iff (P := fun before x => FirstStart before x.2)]
  decide +kernel

/-- The loop that is started after a stop ends at its first look at the flag. And two
starts make two loops. -/
theorem start_repeated :
    (∃ trace s, Run Steps .construct trace s ∧
      trace.map Prod.snd = [.openFile "script", .start, .stop, .turn 0, .start, .turn 1] ∧
      s.running = 0 ∧ s.polled = [] ∧ ¬Repeats trace s) ∧
    ∃ trace s, Run Steps .construct trace s ∧ trace.map Prod.snd = [.start, .start] ∧ s.running = 2 ∧
      ¬Repeats trace s := by
  have hstopped := run_follow DShell.step .construct [.openFile "script", .start, .stop, .turn 0, .start, .turn 1]
  have htwice := run_follow DShell.step .construct [.start, .start]
  refine ⟨⟨_, _, hstopped, by decide +kernel, by decide +kernel, by decide +kernel, fun hr => ?_⟩,
    _, _, htwice, by decide +kernel, by decide +kernel, fun hr => ?_⟩
  · have hpolls := (polls_iff.mp (hr.polls (by decide +kernel))).1
    revert hpolls
    decide +kernel
  · have hsingle := hr.single
    revert hsingle
    decide +kernel

end DgMiddleware.DistantShell.Threads
