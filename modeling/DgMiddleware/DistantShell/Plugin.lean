import DgMiddleware.DistantShell.Threads
import DgMiddleware.Server.Commands

/-! The commands of the distant shell as texts, and the sleep that each loop makes of the
latency it was started with. -/
namespace DgMiddleware.DistantShell.Plugin
open Library Server Threads

/-- What `Entity::commandLine` writes or throws; it knows nothing of the shell. -/
abbrev EntityCommands : Type := String → InputStream → String × Option Exception

def help : String := "distant shell: \n  - open <file>\n  - start\n  - stop\n  - latency <uint>\n"

def openArg (cmdArgs : InputStream) : String := (cmdArgs.extractWord "").1

/-- The variable is not set before it is read into. -/
def latencyArg (cmdArgs : InputStream) (uninitialised : UInt32) : UInt32 :=
  (cmdArgs.extractUnsigned uninitialised).1

def commandLine (entity : EntityCommands) (cmdLine : String) (cmdArgs : InputStream) (uninitialised : UInt32)
    (s : DShell) : CmdResult DShell :=
  if cmdLine = "help" then ⟨help, none, s⟩
  else if cmdLine = "open" then ⟨"", none, s.inputFile (openArg cmdArgs)⟩
  else if cmdLine = "start" then ⟨"", none, s.loopInThread⟩
  else if cmdLine = "stop" then ⟨"", none, s.terminate⟩
  else if cmdLine = "latency" then ⟨"", none, s.setLatency (latencyArg cmdArgs uninitialised).toNat⟩
  else
    let (output, raised) := entity cmdLine cmdArgs
    ⟨output, raised, s⟩

/-- A command, or the turn of a loop. -/
inductive Event where
  | command (cmdLine : String) (cmdArgs : InputStream) (uninitialised : UInt32)
  | turn (thread : Nat)
  deriving DecidableEq, Repr

def step (entity : EntityCommands) (s : DShell) : Event → Option DShell
  | .command cmdLine cmdArgs uninitialised => some (commandLine entity cmdLine cmdArgs uninitialised s).state
  | .turn i => s.step (.turn i)

def Steps (entity : EntityCommands) (s : DShell) (e : Event) (t : DShell) : Prop := step entity s e = some t

def Event.starts : Event → Bool
  | .command cmdLine _ _ => cmdLine = "start"
  | .turn _ => false

section Plugin
variable {entity : EntityCommands} {s t : DShell} {e : Event} {trace : List (DShell × Event)}

end Plugin

end DgMiddleware.DistantShell.Plugin
