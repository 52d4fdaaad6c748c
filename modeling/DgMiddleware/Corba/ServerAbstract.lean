import DgMiddleware.Corba.GenericServer
import DgMiddleware.Library.InputStream
import DgMiddleware.Library.Run
import Mathlib.Data.List.Induction

/-! ServerAbstract and the commands of its entities, with the operations that a process
can be asked for in any order. -/
namespace DgMiddleware.Corba
open Library

def DEFAULT_CONTEXT_NAME : String := "sot"

/-- The context that a server is created with. -/
def decideContext (inContextName : String) : String :=
  if 0 < inContextName.length then inContextName else DEFAULT_CONTEXT_NAME

def CorbaServerGeneric.new (contextName : String) : CorbaServerGeneric := ⟨contextName, false, false, none, []⟩

/-- Run the server in a new thread. -/
def newThread (faults : Faults) : Body Unit := do
  faults.call .newThread
  let s ← .get
  .set { s with serverThread := some .started }

def initCorbaServer (faults : Faults) (inContextName : String) : Body Unit := do
  let s ← .get
  match s.genericServer with
  | some _ => return
  | none =>
    assign (.new (decideContext inContextName))
    init faults
    newThread faults

/-- The thread that is waited for is past `run`, whose ORB was shut down; to wait for a
thread at NULL is undefined. -/
def joinServerThread : Body Unit := do
  let s ← .get
  let _ ← .ofOption s.serverThread

def closeCorbaServer (faults : Faults) : Body Unit := do
  let s ← .get
  match s.genericServer with
  | none => return
  | some _ =>
    stop faults
    joinServerThread
    let s ← .get
    .set { s with genericServer := none, serverThread := none }

def registerCorbaServant (faults : Faults) (idl : Entity) : Body Unit := addIdl faults idl idl.name

/-- The context that `initCorba` and `initAndStart` read from their arguments. -/
def contextArg (cmdArgs : String) : String :=
  let (corbaContext, is) := (InputStream.ofString cmdArgs).extractWord ""
  if is.ws.good then corbaContext else ""

inductive Command where
  | initCorba (cmdArgs : String)
  | start
  | initAndStart (cmdArgs : String)
  deriving DecidableEq, Repr

def commandLine (faults : Faults) (entity : Entity) : Command → Body Unit
  | .initCorba cmdArgs => initCorbaServer faults (contextArg cmdArgs)
  | .start => registerCorbaServant faults entity
  | .initAndStart cmdArgs => do
    initCorbaServer faults (contextArg cmdArgs)
    registerCorbaServant faults entity

/-- The pool's answer to an entity that it does not hold. -/
def withEntity (id : Nat) (body : Entity → Body Unit) : Body Unit := do
  let s ← .get
  match s.entities.find? (·.id = id) with
  | some entity => body entity
  | none => .raise .exceptionFactory

inductive Op where
  | initCorbaServer (inContextName : String)
  | closeCorbaServer
  | create (name : String)
  | destroy (id : Nat)
  | command (id : Nat) (command : Command)
  | request (object : ObjectId)
  deriving DecidableEq, Repr

def create (name : String) : Body Unit := do
  let s ← .get
  if ∃ entity ∈ s.entities, entity.name = name then .raise .exceptionFactory
  else .set { s with entities := s.entities ++ [⟨s.nextEntity, name⟩], nextEntity := s.nextEntity + 1 }

/-- The destructor of the entity does nothing besides. -/
def destroy (entity : Entity) : Body Unit := do
  let s ← .get
  .set { s with entities := s.entities.filter (·.id ≠ entity.id) }

/-- A client's request for an object: the POA answers for objects that are not active,
and calls into the servant of one that is. -/
def request (object : ObjectId) : Body Unit := do
  let s ← .get
  if s.orb = .running ∧ s.poa.managerActive ∧ object ∈ s.poa.activeObjects then
    let _ ← .ofOption (s.entities.find? (·.id = object.servant))
  else .raise .systemException

def perform (faults : Faults) : Op → Body Unit
  | .initCorbaServer inContextName => initCorbaServer faults inContextName
  | .closeCorbaServer => closeCorbaServer faults
  | .create name => create name
  | .destroy id => withEntity id destroy
  | .command id command => withEntity id fun entity => commandLine faults entity command
  | .request object => request object

structure Event where
  faults : Faults
  op : Op
  result : Except CorbaException Unit

/-- An event takes the process from one state to the next, also when it throws. -/
def Steps (s : CorbaProcess) (e : Event) (t : CorbaProcess) : Prop :=
  perform e.faults e.op s =
    match e.result with
    | .ok _ => .ret () t
    | .error x => .raise x t

/-- Ask for operations in order, with the event each of them makes; one whose behaviour
is undefined makes none. -/
def execute (init : CorbaProcess) (requests : List (Faults × Op)) : List (CorbaProcess × Event) × CorbaProcess :=
  requests.foldl (fun (trace, s) (faults, op) =>
    match perform faults op s with
    | .ret _ t => (trace ++ [(s, ⟨faults, op, .ok ()⟩)], t)
    | .raise x t => (trace ++ [(s, ⟨faults, op, .error x⟩)], t)
    | .undefined => (trace, s)) ([], init)

theorem run_execute (init : CorbaProcess) (requests : List (Faults × Op)) :
    Run Steps init (execute init requests).1 (execute init requests).2 := by
  induction requests using List.reverseRecOn with
  | nil => exact .start
  | append_singleton requests request ih =>
    simp only [execute, List.foldl_append, List.foldl_cons, List.foldl_nil] at ih ⊢
    split
    · rename_i he
      exact ih.next he
    · rename_i he
      exact ih.next he
    · exact ih

/-- A body ends in the state, by a return or by an exception. -/
def Ends (body : Body Unit) (s t : CorbaProcess) : Prop := body s = .ret () t ∨ ∃ x, body s = .raise x t

/-- All that an operation can do, one case for each way through it. -/
inductive Effect (faults : Faults) (s : CorbaProcess) : Op → CorbaProcess → Prop
  | initialised {c : String} {t : CorbaProcess} (h : Ends (initCorbaServer faults c) s t) :
      Effect faults s (.initCorbaServer c) t
  | closed {t : CorbaProcess} (h : Ends (closeCorbaServer faults) s t) : Effect faults s .closeCorbaServer t
  | nameTaken {name : String} : Effect faults s (.create name) s
  | created {name : String} : Effect faults s (.create name)
      { s with entities := s.entities ++ [⟨s.nextEntity, name⟩], nextEntity := s.nextEntity + 1 }
  | notFound {id : Nat} (h : s.entities.find? (·.id = id) = none) : Effect faults s (.destroy id) s
  | destroyed {id : Nat} {entity : Entity} (h : s.entities.find? (·.id = id) = some entity) :
      Effect faults s (.destroy id) { s with entities := s.entities.filter (·.id ≠ entity.id) }
  | noEntity {id : Nat} {command : Command} (h : s.entities.find? (·.id = id) = none) :
      Effect faults s (.command id command) s
  | initCorba {id : Nat} {entity : Entity} {cmdArgs : String} {t : CorbaProcess}
      (h : s.entities.find? (·.id = id) = some entity)
      (hinit : Ends (initCorbaServer faults (contextArg cmdArgs)) s t) :
      Effect faults s (.command id (.initCorba cmdArgs)) t
  | start {id : Nat} {entity : Entity} {t : CorbaProcess} (h : s.entities.find? (·.id = id) = some entity)
      (hadd : Ends (addIdl faults entity entity.name) s t) : Effect faults s (.command id .start) t
  | initFails {id : Nat} {entity : Entity} {cmdArgs : String} {x : CorbaException} {t : CorbaProcess}
      (h : s.entities.find? (·.id = id) = some entity)
      (hinit : initCorbaServer faults (contextArg cmdArgs) s = .raise x t) :
      Effect faults s (.command id (.initAndStart cmdArgs)) t
  | initAndStart {id : Nat} {entity : Entity} {cmdArgs : String} {t u : CorbaProcess}
      (h : s.entities.find? (·.id = id) = some entity)
      (hinit : initCorbaServer faults (contextArg cmdArgs) s = .ret () t)
      (hadd : Ends (addIdl faults entity entity.name) t u) :
      Effect faults s (.command id (.initAndStart cmdArgs)) u
  | requested {object : ObjectId} : Effect faults s (.request object) s

section Inversion
variable {faults : Faults} {s t : CorbaProcess} {id : Nat} {entity : Entity}

theorem withEntity_some (body : Entity → Body Unit) (h : s.entities.find? (·.id = id) = some entity) :
    withEntity id body s = body entity s := by
  simp [withEntity, h]

theorem withEntity_none (body : Entity → Body Unit) (h : s.entities.find? (·.id = id) = none) :
    withEntity id body s = .raise .exceptionFactory s := by
  simp [withEntity, h]

theorem Ends.of_ret {body : Body Unit} {u : CorbaProcess} (h : Ends body s t) (hret : body s = .ret () u) :
    t = u := by
  rcases h with h | ⟨x, h⟩ <;> rw [hret] at h <;> cases h
  rfl

theorem Ends.of_raise {body : Body Unit} {u : CorbaProcess} {x : CorbaException} (h : Ends body s t)
    (hraise : body s = .raise x u) : t = u := by
  rcases h with h | ⟨x, h⟩ <;> rw [hraise] at h <;> cases h
  rfl

theorem Ends.defined {body : Body Unit} (h : Ends body s t) : body s ≠ .undefined := by
  rcases h with h | ⟨x, h⟩ <;> simp [h]

theorem Steps.ends {e : Event} (h : Steps s e t) : Ends (perform e.faults e.op) s t := by
  unfold Steps at h
  cases hres : e.result with
  | ok => exact .inl (by simpa [hres] using h)
  | error x => exact .inr ⟨x, by simpa [hres] using h⟩

private theorem ends_command {command : Command} (h : s.entities.find? (·.id = id) = some entity)
    (hc : Ends (commandLine faults entity command) s t) : Effect faults s (.command id command) t := by
  cases command with
  | initCorba cmdArgs => exact .initCorba h hc
  | start => exact .start h hc
  | initAndStart cmdArgs =>
    cases hinit : initCorbaServer faults (contextArg cmdArgs) s with
    | ret a u => exact .initAndStart h hinit (by simpa [Ends, commandLine, hinit, registerCorbaServant] using hc)
    | raise x u =>
      obtain rfl := hc.of_raise (x := x) (u := u) (by simp [commandLine, hinit])
      exact .initFails h hinit
    | undefined => exact absurd (by simp [commandLine, hinit]) hc.defined

theorem Ends.effect {op : Op} (h : Ends (perform faults op) s t) : Effect faults s op t := by
  cases op with
  | initCorbaServer c => exact .initialised h
  | closeCorbaServer => exact .closed h
  | create name =>
    by_cases htaken : ∃ entity ∈ s.entities, entity.name = name
    · obtain rfl := h.of_raise (x := .exceptionFactory) (u := s) (by simp [perform, create, htaken])
      exact .nameTaken
    · obtain rfl := h.of_ret (by simp [perform, create, htaken]; rfl)
      exact .created
  | destroy id =>
    cases hfind : s.entities.find? (·.id = id) with
    | none =>
      obtain rfl := h.of_raise (withEntity_none destroy hfind)
      exact .notFound hfind
    | some entity =>
      obtain rfl := h.of_ret (withEntity_some destroy hfind)
      exact .destroyed hfind
  | command id command =>
    cases hfind : s.entities.find? (·.id = id) with
    | none =>
      obtain rfl := h.of_raise (withEntity_none (commandLine faults · command) hfind)
      exact .noEntity hfind
    | some entity =>
      have hc : perform faults (.command id command) s = commandLine faults entity command s :=
        withEntity_some (commandLine faults · command) hfind
      exact ends_command hfind (by simpa [Ends, hc] using h)
  | request object =>
    by_cases hup : s.orb = .running ∧ s.poa.managerActive = true ∧ object ∈ s.poa.activeObjects
    · cases hfind : s.entities.find? (·.id = object.servant) with
      | none => exact absurd (by simp [perform, request, hup, hfind]) h.defined
      | some entity =>
        obtain rfl := h.of_ret (u := s) (by simp [perform, request, hup, hfind])
        exact .requested
    · obtain rfl := h.of_raise (x := .systemException) (u := s) (by simp [perform, request, hup])
      exact .requested

theorem Steps.effect {e : Event} (h : Steps s e t) : Effect e.faults s e.op t := h.ends.effect

end Inversion
end DgMiddleware.Corba
