import DgMiddleware.DistantShell.Threads

/-! The end of a distant shell. The destructor sets the flag and joins the one thread
that `threadLoop` points to, whatever `start` has made of it. -/
namespace DgMiddleware.DistantShell.Destruction
open Library Threads

/-- The constructors, by the arguments that each of them takes; the streams for the
output of the commands play no part here. None of them sets `threadLoop`. -/
inductive Constructor where
  | shellFn
  | filenameShellOs (filename : String)
  | filenameShellFn (filename : String)
  deriving DecidableEq, Repr

def Constructor.run : Constructor → DShell
  | .shellFn => .construct
  | .filenameShellOs filename => { DShell.construct with filein := filename }
  | .filenameShellFn filename => { DShell.construct with filein := filename }

/-- The destructor waits for a thread in between. What is read through a pointer that is
not set, or from the object once it is gone, is undefined. -/
inductive Phase where
  | constructed
  | joining (thread : Nat)
  | destroyed
  | undefined
  deriving DecidableEq, Repr

/-- A shell and the threads that were joined. -/
structure Lifetime where
  shell : DShell
  phase : Phase
  joined : List Nat
  deriving DecidableEq, Repr

/-- A command or the turn of a loop, and the two halves of the destructor. -/
inductive Event where
  | shell (e : Threads.Event)
  | destroy
  | join
  deriving DecidableEq, Repr

def Lifetime.construct (c : Constructor) : Lifetime := ⟨c.run, .constructed, []⟩

/-- The commands end with the object. The loops do not. -/
def Lifetime.admits (s : Lifetime) : Threads.Event → Prop
  | .turn _ => s.phase ≠ .undefined
  | .openFile _ | .start | .stop | .latency _ => s.phase = .constructed

instance (s : Lifetime) (e : Threads.Event) : Decidable (s.admits e) :=
  match e with
  | .turn _ => inferInstanceAs (Decidable (s.phase ≠ .undefined))
  | .openFile _ | .start | .stop | .latency _ => inferInstanceAs (Decidable (s.phase = .constructed))

/-- A loop that turns on a destroyed object reads the flag of no object. -/
def Lifetime.move (s : Lifetime) (shell : DShell) : Lifetime :=
  if s.phase = .destroyed then { s with phase := .undefined } else { s with shell := shell }

/-- `~DistantShell` up to the call of `join`. -/
def Lifetime.destroy (s : Lifetime) : Lifetime where
  shell := s.shell.terminate
  phase := match s.shell.threadLoop with
    | some i => .joining i
    | none => .undefined
  joined := s.joined

/-- The call of `join` returns once the thread has ended. -/
def Lifetime.join (s : Lifetime) (i : Nat) : Lifetime := { s with phase := .destroyed, joined := s.joined ++ [i] }

def Lifetime.step (s : Lifetime) : Event → Option Lifetime
  | .shell e => if s.admits e then (s.shell.step e).map s.move else none
  | .destroy => if s.phase = .constructed then some s.destroy else none
  | .join =>
    match s.phase with
    | .joining i => if s.shell.Runs i then none else some (s.join i)
    | _ => none

def Steps (s : Lifetime) (e : Event) (t : Lifetime) : Prop := s.step e = some t

/-- The number of threads that were created. -/
def starts (trace : List (Lifetime × Event)) : Nat := trace.countP fun x => x.2 = .shell .start

/-- Nothing undefined is done, and once the destructor has returned, every thread was joined
exactly once and none runs. -/
structure JoinsStarted (trace : List (Lifetime × Event)) (s : Lifetime) : Prop where
  defined : s.phase ≠ .undefined
  once : s.phase = .destroyed → ∀ i < starts trace, s.joined.count i = 1
  started : ∀ i ∈ s.joined, i < starts trace
  ended : s.phase = .destroyed → ∀ i, ¬s.shell.Runs i

/-- The destructor begins after some start, and its `join` returns after only one. -/
def StartedOnce (trace : List (Lifetime × Event)) : Event → Prop
  | .shell _ => True
  | .destroy => 0 < starts trace
  | .join => starts trace = 1

instance (trace : List (Lifetime × Event)) (e : Event) : Decidable (StartedOnce trace e) :=
  match e with
  | .shell _ => .isTrue trivial
  | .destroy => inferInstanceAs (Decidable (0 < starts trace))
  | .join => inferInstanceAs (Decidable (starts trace = 1))

section Destruction
variable {s t : Lifetime} {e : Event} {trace : List (Lifetime × Event)} {c : Constructor}

@[simp] theorem starts_snoc : starts (trace ++ [(s, e)]) = starts trace + if e = .shell .start then 1 else 0 := by
  simp [starts, List.countP_append, List.countP_cons]

private theorem starts_other (h : e ≠ .shell .start) : starts (trace ++ [(s, e)]) = starts trace := by
  rw [starts_snoc, if_neg h, Nat.add_zero]

/-- What a command or a turn does to the threads. -/
private theorem shell_threads {shell shell' : DShell} {e : Threads.Event} (h : shell.step e = some shell') :
    shell'.threads.length = shell.threads.length + (if e = .start then 1 else 0) ∧
      shell'.threadLoop = if e = .start then some shell.threads.length else shell.threadLoop := by
  cases e with
  | openFile | latency | stop => exact Option.some.inj h ▸ ⟨rfl, rfl⟩
  | start =>
    obtain rfl := Option.some.inj h
    simp [DShell.loopInThread]
  | turn i =>
    obtain ⟨-, rfl⟩ := step_turn_iff.mp h
    unfold DShell.turn
    split <;> simp

/-- The threads of a shell are numbered by the starts, and `threadLoop` points to the
last one. -/
structure Tracked (trace : List (Lifetime × Event)) (s : Lifetime) : Prop where
  created : s.shell.threads.length = starts trace
  handle : s.shell.threadLoop = if starts trace = 0 then none else some (starts trace - 1)
  unjoined : s.phase = .constructed → s.joined = []
  joining : ∀ i, s.phase = .joining i → s.shell.threadLoop = some i ∧ s.joined = [] ∧ s.shell.endLoop = true

theorem step_shell {e : Threads.Event} (h : Steps s (.shell e) t) :
    s.admits e ∧ ∃ shell, Threads.Steps s.shell e shell ∧ t = s.move shell := by
  simp only [Steps, Lifetime.step] at h
  split at h
  next hadmits =>
    obtain ⟨shell, hshell, rfl⟩ := Option.map_eq_some_iff.mp h
    exact ⟨hadmits, shell, hshell, rfl⟩
  next => cases h

theorem step_destroy (h : Steps s .destroy t) : s.phase = .constructed ∧ t = s.destroy := by
  simp only [Steps, Lifetime.step] at h
  split at h
  next hphase => exact ⟨hphase, (Option.some.inj h).symm⟩
  next => cases h

theorem step_join (h : Steps s .join t) : ∃ i, s.phase = .joining i ∧ ¬s.shell.Runs i ∧ t = s.join i := by
  simp only [Steps, Lifetime.step] at h
  split at h
  next i hphase =>
    split at h
    next => cases h
    next hended => exact ⟨i, hphase, hended, (Option.some.inj h).symm⟩
  next => cases h

private theorem tracked_start (c : Constructor) : Tracked [] (.construct c) where
  created := by cases c <;> rfl
  handle := by cases c <;> rfl
  unjoined _ := rfl
  joining := nofun

/-- While a thread is joined, all that happens to the shell is a turn of a loop. -/
private theorem admits_joining {e : Threads.Event} {i : Nat} (hphase : s.phase = .joining i) (h : s.admits e) :
    ∃ j, e = .turn j := by
  cases e with
  | turn j => exact ⟨j, rfl⟩
  | openFile | start | stop | latency =>
    rw [Lifetime.admits, hphase] at h
    cases h

private theorem tracked_step (hs : Tracked trace s) (h : Steps s e t) : Tracked (trace ++ [(s, e)]) t := by
  cases e with
  | shell e =>
    obtain ⟨hadmits, shell, hstep, rfl⟩ := step_shell h
    obtain ⟨hlength, hhandle⟩ := shell_threads hstep
    unfold Lifetime.move
    split
    next hphase =>
      have hturn : e ≠ .start := by
        rintro rfl
        rw [Lifetime.admits, hphase] at hadmits
        cases hadmits
      exact ⟨by simp [hturn, hs.created], by simp [hturn, hs.handle], by simp, by simp⟩
    next =>
      refine ⟨by simp [hlength, hs.created], ?_, hs.unjoined, fun i hphase => ?_⟩
      · rw [hhandle, starts_snoc]
        by_cases hstart : e = .start
        · simp [hstart, hs.created]
        · simp [hstart, hs.handle]
      · obtain ⟨j, rfl⟩ := admits_joining hphase hadmits
        obtain ⟨hloop, hjoined, hflag⟩ := hs.joining i hphase
        obtain ⟨-, rfl⟩ := step_turn_iff.mp hstep
        refine ⟨by simpa using hhandle.trans hloop, hjoined, ?_⟩
        simp [DShell.turn, hflag]
  | destroy =>
    obtain ⟨hphase, rfl⟩ := step_destroy h
    have hkept : starts (trace ++ [(s, .destroy)]) = starts trace := starts_other (by simp)
    refine ⟨hs.created.trans hkept.symm, ?_, fun hc => ?_, fun i hi => ?_⟩
    · rw [hkept]
      exact hs.handle
    · simp only [Lifetime.destroy] at hc
      split at hc <;> cases hc
    · simp only [Lifetime.destroy] at hi
      split at hi
      next j hloop =>
        cases hi
        exact ⟨hloop, hs.unjoined hphase, rfl⟩
      next => cases hi
  | join =>
    obtain ⟨i, hphase, hended, rfl⟩ := step_join h
    have hkept : starts (trace ++ [(s, .join)]) = starts trace := starts_other (by simp)
    refine ⟨hs.created.trans hkept.symm, ?_, by simp [Lifetime.join], by simp [Lifetime.join]⟩
    rw [hkept]
    exact hs.handle

/-- A step keeps to the started threads exactly when it is not the destructor that finds
none, or more than one. -/
private theorem joinsStarted_step (htr : Tracked trace s) (hs : JoinsStarted trace s) (h : Steps s e t) :
    JoinsStarted (trace ++ [(s, e)]) t ↔ StartedOnce trace e := by
  cases e with
  | shell e =>
    obtain ⟨hadmits, shell, hstep, rfl⟩ := step_shell h
    refine iff_of_true ?_ trivial
    have hphase : s.phase ≠ .destroyed := by
      intro hphase
      cases e with
      | turn i => exact hs.ended hphase i (step_turn_iff.mp hstep).1
      | openFile | start | stop | latency =>
        rw [Lifetime.admits, hphase] at hadmits
        cases hadmits
    rw [Lifetime.move, if_neg hphase]
    refine ⟨hs.defined, fun hd => absurd hd hphase, fun i hi => ?_, fun hd => absurd hd hphase⟩
    have := hs.started i hi
    rw [starts_snoc]
    omega
  | destroy =>
    obtain ⟨hphase, rfl⟩ := step_destroy h
    rw [StartedOnce]
    by_cases hnone : starts trace = 0
    · have hunset : s.destroy.phase = .undefined := by simp [Lifetime.destroy, htr.handle, hnone]
      exact iff_of_false (fun hj => hj.defined hunset) (by omega)
    · have hjoining : s.destroy.phase = .joining (starts trace - 1) := by
        simp [Lifetime.destroy, htr.handle, hnone]
      refine iff_of_true ⟨by simp [hjoining], by simp [hjoining], ?_, by simp [hjoining]⟩ (by omega)
      have hkept : starts (trace ++ [(s, .destroy)]) = starts trace := starts_other (by simp)
      rw [hkept]
      exact hs.started
  | join =>
    obtain ⟨i, hphase, hended, rfl⟩ := step_join h
    obtain ⟨hloop, hjoined, -⟩ := htr.joining i hphase
    rw [htr.handle] at hloop
    split at hloop
    next => cases hloop
    next hsome =>
      obtain rfl := Option.some.inj hloop
      rw [StartedOnce]
      constructor
      · intro hj
        have hfirst := hj.once rfl 0 (by simp; omega)
        rw [Lifetime.join, hjoined, List.nil_append, List.count_singleton] at hfirst
        split at hfirst
        next heq =>
          have := beq_iff_eq.mp heq
          omega
        next => cases hfirst
      · intro hone
        rw [hone] at hended
        refine ⟨nofun, fun _ i hi => ?_, ?_, fun _ i => ?_⟩
        · obtain rfl : i = 0 := by
            simp [hone] at hi
            exact hi
          simp [Lifetime.join, hjoined, hone]
        · simp [Lifetime.join, hjoined, hone]
        · rintro ⟨thread, hget, hruns⟩
          have hlt := (List.getElem?_eq_some_iff.mp hget).1
          obtain rfl : i = 0 := by
            have : i < s.shell.threads.length := hlt
            rw [htr.created, hone] at this
            omega
          exact hended ⟨thread, hget, hruns⟩

theorem tracked_run (h : Run Steps (.construct c) trace s) : Tracked trace s :=
  h.history Tracked (tracked_start c) fun _ _ _ _ _ hs hstep => tracked_step hs hstep

/-- The destructor does not wait for ever: the thread it joins ends with its next turn. -/
theorem destructor_returns {i : Nat} (h : Run Steps (.construct c) trace s) (hphase : s.phase = .joining i) :
    ∃ trace' t, Run Steps (.construct c) trace' t ∧ t.phase = .destroyed ∧ t.joined = [i] := by
  obtain ⟨-, hjoined, hflag⟩ := (tracked_run h).joining i hphase
  have hjoin : ∀ {u : Lifetime}, u.phase = .joining i → ¬u.shell.Runs i → Steps u .join (u.join i) := by
    intro u hu hended
    simp [Steps, Lifetime.step, hu, hended]
  by_cases hruns : s.shell.Runs i
  · have hturn : Steps s (.shell (.turn i)) (s.move (s.shell.turn i)) := by
      simp [Steps, Lifetime.step, Lifetime.admits, DShell.step, hphase, hruns]
    have hmove : s.move (s.shell.turn i) = { s with shell := s.shell.turn i } := by simp [Lifetime.move, hphase]
    rw [hmove] at hturn
    exact ⟨_, _, (h.next hturn).next (hjoin hphase (turn_ends hflag i)), rfl, by simp [Lifetime.join, hjoined]⟩
  · exact ⟨_, _, h.next (hjoin hphase hruns), rfl, by simp [Lifetime.join, hjoined]⟩

/-- In a run of any constructor, all that was started is joined, and only that, exactly when
the destructor finds a single start behind it. -/
theorem joinsStarted_run_iff (h : Run Steps (.construct c) trace s) :
    ((∀ before x after, trace = before ++ x :: after → JoinsStarted before x.1) ∧ JoinsStarted trace s) ↔
      ∀ before x after, trace = before ++ x :: after → StartedOnce before x.2 := by
  have hfirst : JoinsStarted [] (.construct c) := ⟨nofun, nofun, nofun, nofun⟩
  refine h.forall_histories_iff JoinsStarted (fun trace _ e => StartedOnce trace e) hfirst
    fun trace s e t hrun hs hstep => joinsStarted_step ?_ hs hstep
  exact tracked_run hrun

end Destruction

/-- A shell that is started and stopped, and destroyed while its loop has yet to see the flag. -/
def stoppedOnce : List Event :=
  [.shell (.openFile "script"), .shell .start, .shell (.turn 0), .shell .stop, .destroy, .shell (.turn 0), .join]

theorem joinsStarted_stoppedOnce : JoinsStarted (follow Lifetime.step (.construct .shellFn) stoppedOnce).1
    (follow Lifetime.step (.construct .shellFn) stoppedOnce).2 := by
  refine ((joinsStarted_run_iff (run_follow Lifetime.step (.construct .shellFn) stoppedOnce)).mpr ?_).2
  rw [forall_splits_iff (P := fun before x => StartedOnce before x.2)]
  decide +kernel

/-- A shell that was never started, and one that was started twice. -/
theorem threads_mismatched :
    (∃ trace s, Run Steps (.construct .shellFn) trace s ∧ trace.map Prod.snd = [.destroy] ∧
      s.phase = .undefined ∧ ¬JoinsStarted trace s) ∧
    ∃ trace s, Run Steps (.construct .shellFn) trace s ∧
      trace.map Prod.snd = [.shell .start, .shell .start, .destroy, .shell (.turn 1), .join] ∧
      s.phase = .destroyed ∧ s.joined = [1] ∧ s.shell.Runs 0 ∧ ¬JoinsStarted trace s := by
  have hnever := run_follow Lifetime.step (.construct .shellFn) [.destroy]
  have htwice := run_follow Lifetime.step (.construct .shellFn)
    [.shell .start, .shell .start, .destroy, .shell (.turn 1), .join]
  refine ⟨⟨_, _, hnever, by decide +kernel, by decide +kernel, fun hj => hj.defined (by decide +kernel)⟩,
    _, _, htwice, by decide +kernel, by decide +kernel, by decide +kernel, by decide +kernel, fun hj => ?_⟩
  exact hj.ended (by decide +kernel) 0 (by decide +kernel)
end DgMiddleware.DistantShell.Destruction
