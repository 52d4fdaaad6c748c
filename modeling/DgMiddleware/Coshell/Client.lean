import DgMiddleware.Library.Run
import DgMiddleware.Server.Notification

/-! The coshell client and the server it talks to. Every message may be lost, which the
client sees as an exception, and the server may die and be started again. -/
namespace DgMiddleware.Coshell
open Library Server

def CLIENT_NAME : String := "coshell"

/-- What the two programs are given: the listener of the client, and the names and the
interpreter of the server. -/
structure Environment (α : Type) where
  client : NotifyCallback
  serverName : String
  localName : String → String
  shell : Interpreter (ServerCommand α)
  describe : Exception → String

inductive Fate where
  | requestLost
  | replyLost
  | delivered
  deriving DecidableEq, Repr

/-- Which of the two calls to `runAndRead` of a turn. -/
inductive Attempt where
  | first
  | again
  deriving DecidableEq, Repr

/-- The server as it was started last, and the lines that any start of it has executed. -/
structure Remote (α : Type) where
  incarnation : Nat
  alive : Bool
  server : ServerCommand α
  executed : List (Nat × Attempt)

/-- Where `run` and the destructor after it stand. A turn carries the number of its line. -/
inductive Phase where
  | registering
  | prompt
  | submitting (line : Nat) (buffer : String)
  | rebinding (line : Nat) (buffer : String)
  | resubmitting (line : Nat) (buffer : String)
  | closing (unwinding : Bool)
  | exited
  | handled
  | terminated
  deriving DecidableEq, Repr

/-- A reference to the server names the start of it that it was made by. -/
structure System (α : Type) where
  phase : Phase
  serverPtr : Option Nat
  linesRead : Nat
  registeredWith : Option Nat
  answered : Option Nat
  remote : Remote α

inductive Event where
  | register (fate : Fate)
  | line (buffer : String)
  | endOfInput
  | submit (fate : Fate)
  | reconnect (ref : Option Nat)
  | reconnectRaises
  | resubmit (fate : Fate)
  | unregister (fate : Fate)
  | crash
  | restart
  deriving DecidableEq, Repr

section Client
variable {α : Type}

/-- The connection was made; the server may have served others before. -/
def System.start (server : ServerCommand α) : System α where
  phase := .registering
  serverPtr := some 0
  linesRead := 0
  registeredWith := none
  answered := none
  remote := ⟨0, true, server, []⟩

/-- The reference leads to a server that runs. -/
def System.Live (s : System α) : Prop := s.serverPtr = some s.remote.incarnation ∧ s.remote.alive = true

instance (s : System α) : Decidable s.Live := by
  unfold System.Live
  infer_instance

/-- A remote call: whether it returned, and the server after it. -/
def System.call (s : System α) (fate : Fate) (body : Remote α → Remote α) : Bool × Remote α :=
  if s.Live then
    match fate with
    | .requestLost => (false, s.remote)
    | .replyLost => (false, body s.remote)
    | .delivered => (true, body s.remote)
  else (false, s.remote)

/-- The server after one of its operations; none of those called here throws. -/
def Remote.serve {β : Type} (body : Body α β) (remote : Remote α) : Remote α :=
  match body remote.server with
  | .ret _ server => { remote with server := server }
  | _ => remote

def Remote.execute (env : Environment α) (line : Nat) (attempt : Attempt) (buffer : String) (remote : Remote α) :
    Remote α :=
  { remote.serve (runAndRead env.shell env.describe buffer) with executed := remote.executed ++ [(line, attempt)] }

def System.register (env : Environment α) (s : System α) (fate : Fate) : System α :=
  let (returned, remote) := s.call fate (·.serve (registerClient env.client CLIENT_NAME))
  if returned then { s with phase := .prompt, registeredWith := s.serverPtr, remote := remote }
  else { s with phase := .closing true, remote := remote }

/-- What the loop does with the next line. -/
def System.readLine (s : System α) (buffer : String) : System α :=
  let next := { s with linesRead := s.linesRead + 1 }
  if buffer = "" then next
  else if buffer = "exit" then { next with phase := .closing false }
  else if s.serverPtr = none then next
  else { next with phase := .submitting s.linesRead buffer }

/-- Either call to `runAndRead`, and where its exception leads. -/
def System.submit (env : Environment α) (s : System α) (line : Nat) (attempt : Attempt) (buffer : String)
    (handler : Phase) (fate : Fate) : System α :=
  let (returned, remote) := s.call fate (·.execute env line attempt buffer)
  if returned then { s with phase := .prompt, answered := s.serverPtr, remote := remote }
  else { s with phase := handler, remote := remote }

/-- The destructor. What it throws on the way of another exception ends the program. -/
def System.close (s : System α) (unwinding : Bool) (fate : Fate) : System α :=
  let (returned, remote) := s.call fate (·.serve (unregisterClient CLIENT_NAME))
  if returned then { s with phase := if unwinding then .handled else .exited, remote := remote }
  else { s with phase := if unwinding then .terminated else .handled, remote := remote }

def Remote.restart (env : Environment α) (remote : Remote α) : Remote α where
  incarnation := remote.incarnation + 1
  alive := true
  server := ServerCommand.construct env.localName env.serverName
  executed := remote.executed

def System.step (env : Environment α) (s : System α) : Event → Option (System α)
  | .register fate =>
    match s.phase with
    | .registering => some (s.register env fate)
    | _ => none
  | .line buffer =>
    match s.phase with
    | .prompt => some (s.readLine buffer)
    | _ => none
  | .endOfInput =>
    match s.phase with
    | .prompt => some { s with phase := .closing false }
    | _ => none
  | .submit fate =>
    match s.phase with
    | .submitting line buffer => some (s.submit env line .first buffer (.rebinding line buffer) fate)
    | _ => none
  | .reconnect ref =>
    match s.phase with
    | .rebinding line buffer =>
      if ∀ i ∈ ref, i ≤ s.remote.incarnation then
        some { s with phase := .resubmitting line buffer, serverPtr := ref }
      else none
    | _ => none
  | .reconnectRaises =>
    match s.phase with
    | .rebinding _ _ => some { s with phase := .closing true }
    | _ => none
  | .resubmit fate =>
    -- what is thrown here leaves the handler, and with it the loop
    match s.phase with
    | .resubmitting line buffer => some (s.submit env line .again buffer (.closing true) fate)
    | _ => none
  | .unregister fate =>
    match s.phase with
    | .closing unwinding => some (s.close unwinding fate)
    | _ => none
  | .crash => some { s with remote := { s.remote with alive := false } }
  | .restart => some { s with remote := s.remote.restart env }

def Steps (env : Environment α) (s : System α) (e : Event) (t : System α) : Prop := s.step env e = some t

/-- All that a step can do, one case for each outcome of it. -/
inductive Effect (env : Environment α) (s : System α) : Event → System α → Prop
  | registered (h : s.phase = .registering) (hlive : s.Live) : Effect env s (.register .delivered)
      { s with
        phase := .prompt
        registeredWith := s.serverPtr
        remote := s.remote.serve (registerClient env.client CLIENT_NAME) }
  | notRegistered {fate : Fate} {remote : Remote α} (h : s.phase = .registering)
      (hexecuted : remote.executed = s.remote.executed) :
      Effect env s (.register fate) { s with phase := .closing true, remote := remote }
  | skipped {buffer : String} (h : s.phase = .prompt) :
      Effect env s (.line buffer) { s with linesRead := s.linesRead + 1 }
  | entered {buffer : String} (h : s.phase = .prompt) : Effect env s (.line buffer)
      { s with phase := .submitting s.linesRead buffer, linesRead := s.linesRead + 1 }
  | exit {buffer : String} (h : s.phase = .prompt) :
      Effect env s (.line buffer) { s with phase := .closing false, linesRead := s.linesRead + 1 }
  | endOfInput (h : s.phase = .prompt) : Effect env s .endOfInput { s with phase := .closing false }
  | answered {line : Nat} {buffer : String} (h : s.phase = .submitting line buffer) (hlive : s.Live) :
      Effect env s (.submit .delivered)
        { s with phase := .prompt, answered := s.serverPtr, remote := s.remote.execute env line .first buffer }
  | lost {line : Nat} {buffer : String} {fate : Fate} (h : s.phase = .submitting line buffer) :
      Effect env s (.submit fate) { s with phase := .rebinding line buffer }
  | unanswered {line : Nat} {buffer : String} (h : s.phase = .submitting line buffer) (hlive : s.Live) :
      Effect env s (.submit .replyLost)
        { s with phase := .rebinding line buffer, remote := s.remote.execute env line .first buffer }
  | reconnected {line : Nat} {buffer : String} {ref : Option Nat} (h : s.phase = .rebinding line buffer)
      (href : ∀ i ∈ ref, i ≤ s.remote.incarnation) :
      Effect env s (.reconnect ref) { s with phase := .resubmitting line buffer, serverPtr := ref }
  | notReconnected {line : Nat} {buffer : String} (h : s.phase = .rebinding line buffer) :
      Effect env s .reconnectRaises { s with phase := .closing true }
  | answeredAgain {line : Nat} {buffer : String} (h : s.phase = .resubmitting line buffer) (hlive : s.Live) :
      Effect env s (.resubmit .delivered)
        { s with phase := .prompt, answered := s.serverPtr, remote := s.remote.execute env line .again buffer }
  | lostAgain {line : Nat} {buffer : String} {fate : Fate} (h : s.phase = .resubmitting line buffer)
      (hno : ¬(s.Live ∧ fate = .delivered)) : Effect env s (.resubmit fate) { s with phase := .closing true }
  | unansweredAgain {line : Nat} {buffer : String} (h : s.phase = .resubmitting line buffer) (hlive : s.Live) :
      Effect env s (.resubmit .replyLost)
        { s with phase := .closing true, remote := s.remote.execute env line .again buffer }
  | closed {unwinding : Bool} {fate : Fate} {phase : Phase} {remote : Remote α} (h : s.phase = .closing unwinding)
      (hphase : phase = .exited ∨ phase = .handled ∨ phase = .terminated)
      (hexecuted : remote.executed = s.remote.executed) :
      Effect env s (.unregister fate) { s with phase := phase, remote := remote }
  | crashed : Effect env s .crash { s with remote := { s.remote with alive := false } }
  | restarted : Effect env s .restart { s with remote := s.remote.restart env }

variable {env : Environment α} {s t : System α} {e : Event}

theorem call_cases (s : System α) (fate : Fate) (body : Remote α → Remote α) :
    (s.Live ∧ fate = .delivered ∧ s.call fate body = (true, body s.remote)) ∨
    (s.Live ∧ fate = .replyLost ∧ s.call fate body = (false, body s.remote)) ∨
    (¬(s.Live ∧ fate = .delivered) ∧ s.call fate body = (false, s.remote)) := by
  unfold System.call
  by_cases hlive : s.Live
  · cases fate <;> simp [hlive]
  · simp [hlive]

@[simp] theorem serve_executed {β : Type} (body : Body α β) (remote : Remote α) :
    (remote.serve body).executed = remote.executed := by
  unfold Remote.serve
  split <;> rfl

/-- Whether a call went through, was executed in vain, or never was. -/
private theorem submit_cases (env : Environment α) (s : System α) (line : Nat) (attempt : Attempt) (buffer : String)
    (handler : Phase) (fate : Fate) :
    (s.Live ∧ fate = .delivered ∧ s.submit env line attempt buffer handler fate =
      { s with phase := .prompt, answered := s.serverPtr, remote := s.remote.execute env line attempt buffer }) ∨
    (s.Live ∧ fate = .replyLost ∧ s.submit env line attempt buffer handler fate =
      { s with phase := handler, remote := s.remote.execute env line attempt buffer }) ∨
    (¬(s.Live ∧ fate = .delivered) ∧
      s.submit env line attempt buffer handler fate = { s with phase := handler }) := by
  rcases call_cases s fate (·.execute env line attempt buffer) with
    ⟨hlive, hfate, hcall⟩ | ⟨hlive, hfate, hcall⟩ | ⟨hno, hcall⟩
  · exact .inl ⟨hlive, hfate, by simp [System.submit, hcall]⟩
  · exact .inr (.inl ⟨hlive, hfate, by simp [System.submit, hcall]⟩)
  · exact .inr (.inr ⟨hno, by simp [System.submit, hcall]⟩)

private theorem register_effect {fate : Fate} (hphase : s.phase = .registering) :
    Effect env s (.register fate) (s.register env fate) := by
  unfold System.register
  rcases call_cases s fate (·.serve (registerClient env.client CLIENT_NAME)) with
    ⟨hlive, rfl, hcall⟩ | ⟨-, rfl, hcall⟩ | ⟨-, hcall⟩
  · simpa only [hcall, if_true] using .registered hphase hlive
  · simpa only [hcall, Bool.false_eq_true, if_false] using .notRegistered hphase (serve_executed _ _)
  · simpa only [hcall, Bool.false_eq_true, if_false] using .notRegistered hphase rfl

private theorem readLine_effect (hphase : s.phase = .prompt) (buffer : String) :
    Effect env s (.line buffer) (s.readLine buffer) := by
  unfold System.readLine
  split
  · exact .skipped hphase
  split
  · exact .exit hphase
  split
  · exact .skipped hphase
  · exact .entered hphase

private theorem close_effect {unwinding : Bool} {fate : Fate} (hphase : s.phase = .closing unwinding) :
    Effect env s (.unregister fate) (s.close unwinding fate) := by
  unfold System.close
  rcases call_cases s fate (·.serve (unregisterClient CLIENT_NAME)) with
    ⟨-, -, hcall⟩ | ⟨-, -, hcall⟩ | ⟨-, hcall⟩
  · simp only [hcall, if_true]
    exact .closed hphase (by cases unwinding <;> simp) (serve_executed _ _)
  · simp only [hcall, Bool.false_eq_true, if_false]
    exact .closed hphase (by cases unwinding <;> simp) (serve_executed _ _)
  · simp only [hcall, Bool.false_eq_true, if_false]
    exact .closed hphase (by cases unwinding <;> simp) rfl

theorem Steps.effect (h : Steps env s e t) : Effect env s e t := by
  unfold Steps at h
  cases e with
  | crash => exact Option.some.inj h ▸ .crashed
  | restart => exact Option.some.inj h ▸ .restarted
  | register fate =>
    simp only [System.step] at h
    split at h
    next hphase => exact Option.some.inj h ▸ register_effect hphase
    next => cases h
  | line buffer =>
    simp only [System.step] at h
    split at h
    next hphase => exact Option.some.inj h ▸ readLine_effect hphase buffer
    next => cases h
  | endOfInput =>
    simp only [System.step] at h
    split at h
    next hphase => exact Option.some.inj h ▸ .endOfInput hphase
    next => cases h
  | submit fate =>
    simp only [System.step] at h
    split at h
    next line buffer hphase =>
      obtain rfl := Option.some.inj h
      rcases submit_cases env s line .first buffer (.rebinding line buffer) fate with
        ⟨hlive, rfl, heq⟩ | ⟨hlive, rfl, heq⟩ | ⟨-, heq⟩
      · exact heq ▸ .answered hphase hlive
      · exact heq ▸ .unanswered hphase hlive
      · exact heq ▸ .lost hphase
    next => cases h
  | reconnect ref =>
    simp only [System.step] at h
    split at h
    next line buffer hphase =>
      split at h
      next href => exact Option.some.inj h ▸ .reconnected hphase href
      next => cases h
    next => cases h
  | reconnectRaises =>
    simp only [System.step] at h
    split at h
    next hphase => exact Option.some.inj h ▸ .notReconnected hphase
    next => cases h
  | resubmit fate =>
    simp only [System.step] at h
    split at h
    next line buffer hphase =>
      obtain rfl := Option.some.inj h
      rcases submit_cases env s line .again buffer (.closing true) fate with
        ⟨hlive, rfl, heq⟩ | ⟨hlive, rfl, heq⟩ | ⟨hno, heq⟩
      · exact heq ▸ .answeredAgain hphase hlive
      · exact heq ▸ .unansweredAgain hphase hlive
      · exact heq ▸ .lostAgain hphase hno
    next => cases h
  | unregister fate =>
    simp only [System.step] at h
    split at h
    next hphase => exact Option.some.inj h ▸ close_effect hphase
    next => cases h

end Client
end DgMiddleware.Coshell
