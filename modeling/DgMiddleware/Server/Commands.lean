import DgMiddleware.Library.Container
import DgMiddleware.Library.InputStream
import DgMiddleware.Server.State

/-! The operations that hand a text to the graph: command lines for the interpreter,
with and without its output, and the current value of a signal found by name. -/
namespace DgMiddleware.Server
open Library
variable {σ α : Type}

/-- What a command of the interpreter leaves: what it wrote, what it threw, and the
state it changed. -/
structure CmdResult (σ : Type) where
  output : String
  raised : Option Exception
  state : σ

/-- `g_shell.cmd`, by the command name and the stream of its arguments. -/
abbrev Interpreter (σ : Type) : Type := String → InputStream → σ → CmdResult σ

/-- A signal of the pool: one of vectors, with what its `accessCopy` does, or another. -/
inductive PoolSignal (α : Type) where
  | vector (accessCopy : Except Exception (List α))
  | other
  deriving Repr

/-- `g_pool.getSignal` reads the signal's name from a stream. -/
abbrev Pool (σ α : Type) : Type := InputStream → σ → Except Exception (PoolSignal α)

/-- Both handlers only log. -/
def run (shell : Interpreter σ) (cmdCorba : String) : Method Exception σ Unit := do
  let s ← .get
  let result := shell cmdCorba (.ofString "") s
  .set result.state
  match result.raised with
  | none => return
  | some _ => return

/-- The text in the output stream once the handlers have added to it; `describe` is
what an ExceptionAbstract prints as. It is taken to have less than 2^32 characters, as
the length of a reply has 32 bits. -/
def CmdResult.text (result : CmdResult σ) (describe : Exception → String) : String :=
  match result.raised with
  | none => result.output
  | some e =>
    if e.isExceptionAbstract then result.output ++ "Catch exeption: " ++ describe e ++ "\n"
    else result.output ++ "Catch unknown exception.\n"

def runAndRead (shell : Interpreter σ) (describe : Exception → String) (cmdCorba : String) :
    Method Exception σ (Option (List Char)) := do
  let (cmd, iss) := (InputStream.ofString cmdCorba).extractWord ""
  let s ← .get
  let result := shell cmd iss s
  .set result.state
  let res := result.text describe
  let resCorba ← .ofOption (copyInto res.toList (List.replicate res.toList.length '\x00'))
  return some resCorba

def dynamicCast : PoolSignal α → Except Exception (Except Exception (List α))
  | .vector accessCopy => .ok accessCopy
  | .other => .error .badCast

/-- The body of the `try` block: look up, cast, and copy. -/
def vectorOf (pool : Pool σ α) (sigName : InputStream) (s : σ) : Except Exception (List α) := do
  let sigA ← pool sigName s
  let signal ← dynamicCast sigA
  signal

/-- Every handler logs, and leaves the out parameter as it was. -/
def readVector [Zero α] (pool : Pool σ α) (signalNameCorba : String) :
    Method Exception σ (Option (List α)) := do
  let s ← .get
  match vectorOf pool (.ofString signalNameCorba) s with
  | .ok data =>
    let resCorba ← .ofOption (copyInto data (List.replicate data.length 0))
    return some resCorba
  | .error _ => return none

section Alike
variable {shell : Interpreter σ} {text : String} {s : σ}

theorem run_ret : run shell text s = .ret () (shell text (.ofString "") s).state := by
  unfold run
  simp only [Method.bind_apply, Method.get_apply, Outcome.bind_ret, Method.set_apply]
  cases (shell text (.ofString "") s).raised <;> rfl

/-- What the interpreter makes of the words that `runAndRead` gives it. -/
def readResult (shell : Interpreter σ) (text : String) (s : σ) : CmdResult σ :=
  shell ((InputStream.ofString text).extractWord "").1 ((InputStream.ofString text).extractWord "").2 s

theorem runAndRead_ret (shell : Interpreter σ) (describe : Exception → String) (text : String) (s : σ) :
    runAndRead shell describe text s =
      .ret (some ((readResult shell text s).text describe).toList) (readResult shell text s).state := by
  simp [runAndRead, readResult, copyInto_eq]

/-- Both entry points return and leave the same state, one of them with the output and
what the handlers add to it. -/
def RunsAlike (shell : Interpreter σ) (text : String) (s : σ) : Prop :=
  ∃ t, run shell text s = .ret () t ∧ ∀ describe : Exception → String,
    runAndRead shell describe text s = .ret (some ((readResult shell text s).text describe).toList) t

theorem runsAlike_iff :
    RunsAlike shell text s ↔ (shell text (.ofString "") s).state = (readResult shell text s).state := by
  constructor
  · rintro ⟨t, hrun, hread⟩
    have hread := hread fun _ => ""
    rw [run_ret] at hrun
    rw [runAndRead_ret] at hread
    injection hrun with _ hrun
    injection hread with _ hread
    rw [hrun, hread]
  · intro h
    exact ⟨_, run_ret, fun describe => h ▸ runAndRead_ret shell describe text s⟩

end Alike

/-- The interpreter sees no more of a stream than the text still to be read. -/
def ReadsText (shell : Interpreter σ) : Prop :=
  ∀ cmd (is is' : InputStream), is.rest = is'.rest → shell cmd is = shell cmd is'

private theorem runsAlike_text {text : String} (h : ∀ c ∈ text.toList, isspace c = false)
    (shell : Interpreter σ) (hshell : ReadsText shell) (s : σ) : RunsAlike shell text s := by
  obtain ⟨hword, hrest, -⟩ := InputStream.extractWord_of_no_space text h
  rw [runsAlike_iff, readResult, hword, hshell text (.ofString "") _ hrest.symm]

/-- An interpreter that keeps the last command name and whether its stream was at the end. -/
def recording : Interpreter (String × Bool) := fun cmd is _ => ⟨"", none, cmd, is.eofbit⟩

private theorem no_space_of_word {text : String} (h : ((InputStream.ofString text).extractWord "").1 = text) :
    ∀ c ∈ text.toList, isspace c = false := by
  rw [← h]
  exact InputStream.extractWord_no_space _

private theorem recording_differs (text : String) (s : String × Bool) : ¬RunsAlike recording text s := by
  rw [runsAlike_iff]
  intro h
  have hword := congrArg Prod.fst h
  have heof := congrArg Prod.snd h
  have hbit := (InputStream.extractWord_of_no_space text (no_space_of_word hword.symm)).2.2
  simp only [recording, readResult] at heof
  rw [hbit] at heof
  cases heof

/-- For the interpreters that see only the text of their arguments, the entry points
agree exactly on the lines without white space; on no line do they agree for all. -/
theorem runsAlike_text_iff (text : String) :
    ((∀ (σ : Type) (shell : Interpreter σ) (s : σ), ReadsText shell → RunsAlike shell text s) ↔
      ∀ c ∈ text.toList, isspace c = false) ∧
    ¬∀ (σ : Type) (shell : Interpreter σ) (s : σ), RunsAlike shell text s := by
  refine ⟨⟨fun h => ?_, fun h σ shell s hshell => runsAlike_text h shell hshell s⟩, fun h =>
    recording_differs text ("", false) (h _ recording _)⟩
  have hword := runsAlike_iff.mp (h String (fun cmd _ _ => ⟨"", none, cmd⟩) "" fun _ _ _ _ => rfl)
  exact no_space_of_word hword.symm

/-- A command with an argument reaches the interpreter under two different names. -/
theorem run_not_alike : ∃ (shell : Interpreter String) (s : String),
    ReadsText shell ∧ ¬RunsAlike shell "coshell.buffer comstate 30" s := by
  refine ⟨fun cmd _ _ => ⟨"", none, cmd⟩, "", fun _ _ _ _ => rfl, ?_⟩
  rw [runsAlike_iff]
  decide +kernel

end DgMiddleware.Server
