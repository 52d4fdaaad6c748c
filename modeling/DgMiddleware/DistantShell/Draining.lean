import DgMiddleware.DistantShell.Script
import DgMiddleware.Library.Run

/-! The loop of the distant shell step by step, while other threads go on. It looks at the
flag only between two polls, so that what a poll has read is submitted to the end. No
command of any thread opens another file for the shell meanwhile. -/
namespace DgMiddleware.DistantShell.Draining
open Library Server
variable {γ : Type}

/-- What the commands of all threads work on: the flag of the shell, and the graph. -/
structure Shared (γ : Type) where
  endLoop : Bool
  graph : γ

/-- The interpreter. Some command may set the flag, and none takes it back. -/
structure Commands (γ : Type) where
  cmd : Interpreter (Shared γ)
  keeps : ∀ cmdLine iss s, s.endLoop = true → (cmd cmdLine iss s).state.endLoop = true

inductive Phase where
  | checking
  | polling
  | draining
  | sleeping
  | ended
  | threw (e : Exception)
  deriving DecidableEq, Repr

structure Loop (γ : Type) where
  shell : Shell (Shared γ)
  phase : Phase

/-- A step of the loop, or what others have made of the flag and the graph meanwhile. -/
inductive Event (γ : Type) where
  | check
  | poll (appended : List String)
  | next
  | sleep
  | elsewhere (shared : Shared γ)

def Loop.start (shared : Shared γ) : Loop γ := ⟨.start shared, .checking⟩

def Loop.poll (l : Loop γ) (appended : List String) : Option (Loop γ) :=
  match fileinLoop appended l.shell with
  | .ret true shell => some ⟨shell, .draining⟩
  | .ret false shell => some ⟨shell, .sleeping⟩
  | _ => none

def Loop.next (commands : Commands γ) (l : Loop γ) : Option (Loop γ) :=
  match l.shell.queue with
  | [] => some { l with phase := .sleeping }
  | line :: rest =>
    match submit commands.cmd line { l.shell with queue := rest } with
    | .ret _ shell => some { l with shell := shell }
    | .raise e shell => some ⟨shell, .threw e⟩
    | .undefined => none

def Loop.step (commands : Commands γ) (l : Loop γ) : Event γ → Option (Loop γ)
  | .check =>
    if l.phase = .checking then some { l with phase := if l.shell.graph.endLoop then .ended else .polling } else none
  | .poll appended => if l.phase = .polling then l.poll appended else none
  | .next => if l.phase = .draining then l.next commands else none
  | .sleep => if l.phase = .sleeping then some { l with phase := .checking } else none
  | .elsewhere shared =>
    if l.shell.graph.endLoop = true → shared.endLoop = true then
      some { l with shell := { l.shell with graph := shared } }
    else none

def Steps (commands : Commands γ) (l : Loop γ) (e : Event γ) (l' : Loop γ) : Prop := l.step commands e = some l'

/-- The lines that a step reads from the file. -/
def appended (x : Loop γ × Event γ) : Option (List String) :=
  match x.2 with
  | .poll lines => some lines
  | _ => none

def read (trace : List (Loop γ × Event γ)) : List String := (trace.filterMap appended).flatten

/-- A poll that was made although the flag was set. -/
def late (x : Loop γ × Event γ) : Bool := x.1.shell.graph.endLoop && (appended x).isSome

/-- No line that was read is lost, repeated or moved; a loop that ended has submitted all
of them, and has polled once at most since it was asked to end; and one that threw did so
in the line submitted last. -/
structure Drained (commands : Commands γ) (trace : List (Loop γ × Event γ)) (l : Loop γ) : Prop where
  conserved : l.shell.submitted ++ l.shell.queue.map readCommand = (read trace).map readCommand
  ended : l.phase = .ended → l.shell.queue = [] ∧ l.shell.graph.endLoop = true
  stopped : trace.countP late ≤ 1
  threw : ∀ e, l.phase = .threw e → ∃ last ∈ l.shell.submitted.getLast?, ∃ shared,
    (commands.cmd last.1 last.2 shared).raised = some e

section Steps
variable {commands : Commands γ} {l l' : Loop γ} {e : Event γ} {trace : List (Loop γ × Event γ)}

/-- All that a step can do. -/
inductive Effect (commands : Commands γ) (l : Loop γ) : Event γ → Loop γ → Prop
  | ends (h : l.phase = .checking) (hflag : l.shell.graph.endLoop = true) :
      Effect commands l .check { l with phase := .ended }
  | goesOn (h : l.phase = .checking) (hflag : l.shell.graph.endLoop = false) :
      Effect commands l .check { l with phase := .polling }
  | reads {lines : List String} (h : l.phase = .polling) (hlines : lines ≠ []) : Effect commands l (.poll lines)
      ⟨{ l.shell with queue := l.shell.queue ++ lines }, .draining⟩
  | idle (h : l.phase = .polling) : Effect commands l (.poll []) { l with phase := .sleeping }
  | drained (h : l.phase = .draining) (hqueue : l.shell.queue = []) :
      Effect commands l .next { l with phase := .sleeping }
  | submits {line : String} {rest : List String} (h : l.phase = .draining) (hqueue : l.shell.queue = line :: rest)
      (hraised : (execute commands.cmd line l.shell.graph).raised = none) :
      Effect commands l .next { l with shell := { l.shell.after commands.cmd [line] with queue := rest } }
  | throws {line : String} {rest : List String} {x : Exception} (h : l.phase = .draining)
      (hqueue : l.shell.queue = line :: rest) (hraised : (execute commands.cmd line l.shell.graph).raised = some x) :
      Effect commands l .next ⟨{ l.shell.after commands.cmd [line] with queue := rest }, .threw x⟩
  | wakes (h : l.phase = .sleeping) : Effect commands l .sleep { l with phase := .checking }
  | elsewhere {shared : Shared γ} (hkeeps : l.shell.graph.endLoop = true → shared.endLoop = true) :
      Effect commands l (.elsewhere shared) { l with shell := { l.shell with graph := shared } }

private theorem poll_effect (h : l.phase = .polling) (lines : List String) (hpoll : l.poll lines = some l') :
    Effect commands l (.poll lines) l' := by
  obtain ⟨shell, phase⟩ := l
  cases lines with
  | nil =>
    have hsame : l' = ⟨shell, .sleeping⟩ := by simpa [Loop.poll, fileinLoop, eq_comm] using hpoll
    exact hsame ▸ .idle h
  | cons line lines =>
    have hread : l' = ⟨{ shell with queue := shell.queue ++ line :: lines }, .draining⟩ := by
      simpa [Loop.poll, fileinLoop, eq_comm] using hpoll
    exact hread ▸ .reads h (List.cons_ne_nil _ _)

private theorem next_effect (h : l.phase = .draining) (hnext : l.next commands = some l') :
    Effect commands l .next l' := by
  unfold Loop.next at hnext
  cases hqueue : l.shell.queue with
  | nil =>
    simp only [hqueue] at hnext
    exact Option.some.inj hnext ▸ .drained h hqueue
  | cons line rest =>
    simp only [hqueue, submit_apply] at hnext
    cases hraised : (execute commands.cmd line l.shell.graph).raised with
    | none =>
      simp only [hraised] at hnext
      exact Option.some.inj hnext ▸ .submits h hqueue hraised
    | some x =>
      simp only [hraised] at hnext
      exact Option.some.inj hnext ▸ .throws h hqueue hraised

theorem Steps.effect (h : Steps commands l e l') : Effect commands l e l' := by
  unfold Steps Loop.step at h
  cases e with
  | check =>
    obtain ⟨hphase, h⟩ := Option.ite_none_right_eq_some.mp h
    cases hflag : l.shell.graph.endLoop with
    | true =>
      rw [hflag] at h
      exact Option.some.inj h ▸ .ends hphase hflag
    | false =>
      rw [hflag] at h
      exact Option.some.inj h ▸ .goesOn hphase hflag
  | poll lines =>
    obtain ⟨hphase, h⟩ := Option.ite_none_right_eq_some.mp h
    exact poll_effect hphase lines h
  | next =>
    obtain ⟨hphase, h⟩ := Option.ite_none_right_eq_some.mp h
    exact next_effect hphase h
  | sleep =>
    obtain ⟨hphase, h⟩ := Option.ite_none_right_eq_some.mp h
    exact Option.some.inj h ▸ .wakes hphase
  | elsewhere shared =>
    obtain ⟨hkeeps, h⟩ := Option.ite_none_right_eq_some.mp h
    exact Option.some.inj h ▸ .elsewhere hkeeps

/-- No line stays queued outside a drain, unless a line of it threw. -/
structure Conserved (trace : List (Loop γ × Event γ)) (l : Loop γ) : Prop where
  lines : l.shell.submitted ++ l.shell.queue.map readCommand = (read trace).map readCommand
  queue : l.phase ≠ .draining → (∀ e, l.phase ≠ .threw e) → l.shell.queue = []

private theorem read_snoc : read (trace ++ [(l, e)]) = read trace ++ (appended (l, e)).getD [] := by
  cases h : appended (l, e) <;> simp [read, List.filterMap_append, h]

private theorem read_other (h : appended (l, e) = none) : read (trace ++ [(l, e)]) = read trace := by
  simp [read_snoc, h]

theorem conserved_step (hc : Conserved trace l) (h : Steps commands l e l') : Conserved (trace ++ [(l, e)]) l' := by
  have heffect := h.effect
  cases heffect with
  | ends hphase | goesOn hphase =>
    refine ⟨by rw [read_other rfl]; exact hc.lines, fun _ _ => hc.queue ?_ ?_⟩ <;> simp [hphase]
  | @reads lines hphase =>
    refine ⟨?_, fun hno => absurd rfl hno⟩
    have hread : (read (trace ++ [(l, .poll lines)])).map readCommand =
        (read trace).map readCommand ++ lines.map readCommand := by
      rw [read_snoc, List.map_append]
      rfl
    rw [hread, ← hc.lines]
    simp
  | idle hphase =>
    refine ⟨?_, fun _ _ => hc.queue (by simp [hphase]) (by simp [hphase])⟩
    rw [read_snoc]
    simpa [appended] using hc.lines
  | drained hphase hqueue => exact ⟨by rw [read_other rfl]; exact hc.lines, fun _ _ => hqueue⟩
  | submits hphase hqueue | throws hphase hqueue =>
    refine ⟨?_, fun hdraining hthrew => ?_⟩
    · rw [read_other rfl, ← hc.lines, hqueue]
      simp [Shell.after]
    · first | exact absurd hphase hdraining | exact absurd rfl (hthrew _)
  | wakes hphase =>
    exact ⟨by rw [read_other rfl]; exact hc.lines, fun _ _ => hc.queue (by simp [hphase]) (by simp [hphase])⟩
  | elsewhere => exact ⟨by rw [read_other rfl]; exact hc.lines, hc.queue⟩

/-- What the flag has to do with the polls: one may still be due, once. -/
structure Asked (trace : List (Loop γ × Event γ)) (l : Loop γ) : Prop where
  none : l.shell.graph.endLoop = false → trace.countP late = 0
  one : trace.countP late + (if l.phase = .polling then 1 else 0) ≤ 1
  ended : l.phase = .ended → l.shell.graph.endLoop = true

private theorem late_snoc : (trace ++ [(l, e)]).countP late = trace.countP late + (late (l, e)).toNat := by
  rw [List.countP_append, List.countP_singleton]
  cases late (l, e) <;> rfl

/-- A command that finds the flag set leaves it set. -/
private theorem clear_before {line : String} {shared : Shared γ}
    (h : (execute commands.cmd line shared).state.endLoop = false) : shared.endLoop = false := by
  by_contra hset
  have hkept := commands.keeps (readCommand line).1 (readCommand line).2 shared (by simpa using hset)
  rw [execute, hkept] at h
  cases h

/-- A step that is no poll makes none late. -/
private theorem Asked.kept (ha : Asked trace l) (hother : appended (l, e) = .none)
    (hflag : l'.shell.graph.endLoop = false → l.shell.graph.endLoop = false)
    (hpolling : l'.phase = .polling → l.phase = .polling ∨ l.shell.graph.endLoop = false)
    (hended : l'.phase = .ended → l'.shell.graph.endLoop = true) : Asked (trace ++ [(l, e)]) l' := by
  have hsame : (trace ++ [(l, e)]).countP late = trace.countP late := by
    rw [late_snoc]
    simp [late, hother]
  refine ⟨fun hclear => by rw [hsame, ha.none (hflag hclear)], ?_, hended⟩
  rw [hsame]
  have hone := ha.one
  split
  · rename_i hphase
    rcases hpolling hphase with hphase | hclear
    · simpa [hphase] using hone
    · simp [ha.none hclear]
  · omega

private theorem Asked.polled (ha : Asked trace l) {lines : List String} (hphase : l.phase = .polling)
    (hflag : l'.shell.graph.endLoop = l.shell.graph.endLoop) (hnext : l'.phase = .draining ∨ l'.phase = .sleeping) :
    Asked (trace ++ [(l, .poll lines)]) l' := by
  have hone := ha.one
  rw [if_pos hphase] at hone
  refine ⟨fun hclear => ?_, ?_, fun hended => ?_⟩
  · rw [hflag] at hclear
    rw [late_snoc, ha.none hclear]
    simp [late, hclear]
  · have hnot : l'.phase ≠ .polling := by rcases hnext with h | h <;> simp [h]
    have hle := Bool.toNat_le (late (l, Event.poll lines))
    rw [late_snoc, if_neg hnot]
    omega
  · rcases hnext with h | h <;> rw [h] at hended <;> cases hended

theorem asked_step (ha : Asked trace l) (h : Steps commands l e l') : Asked (trace ++ [(l, e)]) l' := by
  have heffect := h.effect
  cases heffect with
  | ends hphase hflag => exact ha.kept rfl id (by simp) fun _ => hflag
  | goesOn hphase hflag => exact ha.kept rfl id (fun _ => .inr hflag) (by simp)
  | reads hphase => exact ha.polled hphase rfl (.inl rfl)
  | idle hphase => exact ha.polled hphase rfl (.inr rfl)
  | drained hphase => exact ha.kept rfl id (by simp) (by simp)
  | @submits line _ hphase =>
    exact ha.kept rfl clear_before (fun hpolling => .inl hpolling) (by simp [hphase])
  | throws hphase => exact ha.kept rfl clear_before (by simp) (by simp)
  | wakes hphase => exact ha.kept rfl id (by simp) (by simp)
  | elsewhere hkeeps =>
    refine ha.kept rfl (fun hclear => ?_) (fun hpolling => .inl hpolling) (fun hended => ?_)
    · by_contra hset
      have hkept := hkeeps (by simpa using hset)
      rw [hclear] at hkept
      cases hkept
    · exact hkeeps (ha.ended hended)

/-- A loop that threw was submitting the line it submitted last. -/
def Threw (commands : Commands γ) (l : Loop γ) : Prop :=
  ∀ e, l.phase = .threw e → ∃ last ∈ l.shell.submitted.getLast?, ∃ shared,
    (commands.cmd last.1 last.2 shared).raised = some e

private theorem threw_step (ht : Threw commands l) (h : Steps commands l e l') : Threw commands l' := by
  have heffect := h.effect
  cases heffect with
  | ends | goesOn | reads | idle | drained | wakes => intro x hthrew; cases hthrew
  | submits hphase => intro x hthrew; rw [hphase] at hthrew; cases hthrew
  | @throws line rest x hphase hqueue hraised =>
    rintro _ ⟨⟩
    exact ⟨readCommand line, by simp [Shell.after], l.shell.graph, hraised⟩
  | elsewhere => exact ht

/-- Whatever other threads do between its steps, and whenever they ask it to end, the loop
submits every line that it reads, in order, before it ends. -/
theorem drained_run {shared : Shared γ} (h : Run (Steps commands) (.start shared) trace l) :
    Drained commands trace l := by
  have hstart : Conserved [] (Loop.start shared) ∧ Asked [] (Loop.start shared) ∧
      Threw commands (Loop.start shared) := by
    refine ⟨⟨rfl, fun _ _ => rfl⟩, ⟨fun _ => rfl, ?_, ?_⟩, ?_⟩ <;> simp [Loop.start, Threw]
  obtain ⟨hc, ha, ht⟩ := h.history (fun trace l => Conserved trace l ∧ Asked trace l ∧ Threw commands l) hstart
    fun trace l e l' _ hi hstep => ⟨conserved_step hi.1 hstep, asked_step hi.2.1 hstep, threw_step hi.2.2 hstep⟩
  refine ⟨hc.lines, fun hended => ⟨hc.queue ?_ ?_, ha.ended hended⟩, ?_, ht⟩
  · simp [hended]
  · simp [hended]
  · have hone := ha.one
    omega

end Steps

section Alone
variable {commands : Commands γ} {l l' : Loop γ} {e : Event γ} {trace : List (Loop γ × Event γ)}

def Event.ofLoop : Event γ → Bool
  | .elsewhere _ => false
  | .check | .poll _ | .next | .sleep => true

/-- What is left of the loop, between two of its steps. -/
def Loop.rest (commands : Commands γ) (l : Loop γ) : Outcome Exception (Shell (Shared γ)) Unit :=
  match l.phase with
  | .draining => drain commands.cmd l.shell.queue l.shell
  | .threw e => .raise e l.shell
  | .checking | .polling | .sleeping | .ended => .ret () l.shell

private theorem bind_unit {σ : Type} (o : Outcome Exception σ Unit) : (o.bind fun _ t => .ret () t) = o := by
  cases o <;> rfl

theorem loop_snoc {σ : Type} (shell : Interpreter σ) (polls : List (List String)) (lines : List String)
    (s : Shell σ) : DistantShell.loop shell (polls ++ [lines]) s =
      (DistantShell.loop shell polls s).bind fun _ t => DistantShell.poll shell lines t := by
  induction polls generalizing s with
  | nil => exact bind_unit (DistantShell.poll shell lines s)
  | cons first polls ih =>
    simp only [List.cons_append, DistantShell.loop, Method.bind_apply]
    cases DistantShell.poll shell first s with
    | ret a t => exact ih t
    | raise e t => rfl
    | undefined => rfl

theorem drain_cons {σ : Type} (shell : Interpreter σ) (line : String) (rest : List String) (s : Shell σ) :
    drain shell (line :: rest) s =
      match (execute shell line s.graph).raised with
      | none => drain shell rest { s.after shell [line] with queue := rest }
      | some e => .raise e { s.after shell [line] with queue := rest } := by
  simp only [drain, Method.bind_apply, Method.get_apply, Outcome.bind_ret, Method.set_apply, submit_apply]
  cases (execute shell line s.graph).raised <;> rfl

/-- A poll adds what it submits to the rest of the loop; the other steps are taken from it. -/
private theorem rest_step (hown : e.ofLoop = true) (h : Steps commands l e l') :
    l'.rest commands = (l.rest commands).bind fun _ t =>
      match appended (l, e) with
      | some lines => DistantShell.poll commands.cmd lines t
      | none => .ret () t := by
  have heffect := h.effect
  cases heffect with
  | ends hphase | goesOn hphase | wakes hphase => simp [Loop.rest, hphase, appended]
  | idle hphase => simp [Loop.rest, hphase, appended, DistantShell.poll, fileinLoop]
  | reads hphase hlines => simp [Loop.rest, hphase, appended, DistantShell.poll, fileinLoop, hlines]
  | drained hphase hqueue => simp [Loop.rest, hphase, appended, hqueue, drain]
  | submits hphase hqueue hraised =>
    refine Eq.trans ?_ (bind_unit _).symm
    simp only [Loop.rest, hphase, hqueue, drain_cons, hraised]
  | throws hphase hqueue hraised =>
    refine Eq.trans ?_ (bind_unit _).symm
    simp only [Loop.rest, hphase, hqueue, drain_cons, hraised]
  | elsewhere => cases hown

/-- While nothing else works on the graph, the steps of the loop make up the loop over the
polls of the run: what is left to do of it is what the loop ends in. -/
theorem loop_refined {shared : Shared γ} (h : Run (Steps commands) (.start shared) trace l)
    (halone : ∀ x ∈ trace, x.2.ofLoop = true) :
    DistantShell.loop commands.cmd (trace.filterMap appended) (.start shared) = l.rest commands := by
  induction h with
  | start => rfl
  | @next trace l l' e hrun hstep ih =>
    have hbefore := ih fun x hx => halone x (List.mem_append_left _ hx)
    have hnext := rest_step (halone (l, e) (by simp)) hstep
    rw [hnext, ← hbefore, List.filterMap_append]
    cases hpoll : appended (l, e) with
    | none => simp [hpoll, bind_unit]
    | some lines => simp [hpoll, loop_snoc]

end Alone

/-- The commands of a script that stops its own shell: it prints, or it sets the flag. -/
def stopping : Commands (List String) where
  cmd cmdLine iss s :=
    if cmdLine = "shell.stop" then ⟨"", none, { s with endLoop := true }⟩
    else if cmdLine = "print" then ⟨"", none, { s with graph := s.graph ++ [(iss.extractWord "").1] }⟩
    else ⟨"", some .exceptionFactory, s⟩
  keeps := by
    intro cmdLine iss s hset
    split_ifs <;> first | rfl | exact hset

/-- The flag is set by the first line of a poll, and the other lines are submitted. -/
def stoppedByScript : List (Event (List String)) :=
  [.check, .poll ["print a"], .next, .next, .sleep, .check, .poll ["shell.stop", "print b", "print c"], .next, .next,
    .next, .next, .sleep, .check, .poll ["print d"]]

/-- Another thread sets the flag after the loop has looked at it. -/
def stoppedElsewhere : List (Event (List String)) :=
  [.check, .elsewhere ⟨true, []⟩, .poll ["print a", "print b"], .next, .next, .next, .sleep, .check]

theorem drained_elsewhere :
    (follow (Loop.step stopping) (.start ⟨false, []⟩) stoppedElsewhere).2.phase = .ended ∧
      Drained stopping (follow (Loop.step stopping) (.start ⟨false, []⟩) stoppedElsewhere).1
        (follow (Loop.step stopping) (.start ⟨false, []⟩) stoppedElsewhere).2 :=
  ⟨by decide +kernel, drained_run (run_follow (Loop.step stopping) (.start ⟨false, []⟩) stoppedElsewhere)⟩

theorem loop_refined_script :
    (follow (Loop.step stopping) (.start ⟨false, []⟩) stoppedByScript).2.phase = .ended ∧
      (follow (Loop.step stopping) (.start ⟨false, []⟩) stoppedByScript).2.shell.graph.graph = ["a", "b", "c"] ∧
      DistantShell.loop stopping.cmd
        ((follow (Loop.step stopping) (.start ⟨false, []⟩) stoppedByScript).1.filterMap appended)
        (.start ⟨false, []⟩) = (follow (Loop.step stopping) (.start ⟨false, []⟩) stoppedByScript).2.rest stopping :=
  ⟨by decide +kernel, by decide +kernel,
    loop_refined (run_follow (Loop.step stopping) (.start ⟨false, []⟩) stoppedByScript) (by decide +kernel)⟩

end DgMiddleware.DistantShell.Draining
