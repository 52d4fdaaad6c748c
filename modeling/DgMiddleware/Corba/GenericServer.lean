import DgMiddleware.Corba.Process

/-! CorbaServerGeneric: the four stages of its initialisation, its end, and what it does
for a servant. A member runs on the object that the global points to. -/
namespace DgMiddleware.Corba
open Library

/-- The object behind `genericServer`; to call a member through NULL is undefined. -/
def member : Body CorbaServerGeneric := do
  let s ← .get
  .ofOption s.genericServer

def assign (server : CorbaServerGeneric) : Body Unit := do
  let s ← .get
  .set { s with genericServer := some server }

theorem member_some {s : CorbaProcess} {g : CorbaServerGeneric} (h : s.genericServer = some g) :
    member s = .ret g s := by
  simp [member, h]

theorem member_none {s : CorbaProcess} (h : s.genericServer = none) : member s = .undefined := by
  simp [member, h]

@[simp] theorem assign_apply (g : CorbaServerGeneric) (s : CorbaProcess) :
    assign g s = .ret () { s with genericServer := some g } := rfl

/-- The handler of every stage prints a message and throws again. -/
def initOrb (faults : Faults) : Body Unit := do
  let server ← member
  faults.call .orbInit
  if faults.nil .orbInit then .raise .todo
  else
    orbInit
    assign { server with orb := true }

/-- A nil POA is not noticed here. -/
def createThreadPolicy (faults : Faults) : Body Unit := do
  let server ← member
  through server.orb
  inUse
  faults.call .rootPOA
  assign { server with poa := !faults.nil .rootPOA }

def contextName (contextStrName : String) : CosName := ⟨contextStrName, "context"⟩

/-- A context that is bound already is looked up instead. -/
def openContext (faults : Faults) (name : CosName) : Body CosName :=
  Method.tryCatch (do
    faults.call .bindNewContext
    bindNewContext name) fun e => do
      if e = .alreadyBound then
        faults.call .resolveContext
        let context ← resolveContext name
        if faults.nil .resolveContext then .raise .todo else return context
      else .raise e

def createContext (faults : Faults) (contextStrName : String) : Body Unit := do
  let server ← member
  through server.orb
  inUse
  faults.call .nameService
  if faults.nil .nameService then .raise .todo
  else
    let context ← openContext faults (contextName contextStrName)
    assign { server with hppContext := some context }

def activateContext (faults : Faults) : Body Unit := do
  let server ← member
  through server.poa
  faults.call .activateManager
  let s ← .get
  .set { s with poa := { s.poa with managerActive := true } }

def init (faults : Faults) : Body Unit := do
  initOrb faults
  createThreadPolicy faults
  let server ← member
  createContext faults server.serverName
  activateContext faults

/-- One turn of the loop of `stop`. -/
def deactivate (faults : Faults) (ref : ObjectId) : Body Unit := do
  let server ← member
  through server.poa
  faults.call (.deactivateObject ref)
  deactivateObject ref

def deactivateAll (faults : Faults) : List ObjectId → Body Unit
  | [] => return
  | ref :: rest => do
    deactivate faults ref
    deactivateAll faults rest

def stop (faults : Faults) : Body Unit := do
  let server ← member
  deactivateAll faults server.idlList
  assign { server with idlList := [] }
  through server.orb
  faults.call .shutdown
  inUse
  orbShutdown

def activateIdl (faults : Faults) (idlRef : Entity) : Body Unit := do
  let server ← member
  through server.poa
  faults.call .activateObject
  inUse
  let id ← activateObject idlRef.id
  assign { server with idlList := server.idlList ++ [id] }

def servantName (idlStrName : String) : CosName := ⟨idlStrName, "servant"⟩

/-- What follows `_this()`: a name that is bound already is bound again. -/
def bindObject (faults : Faults) (idlName : CosName) (idlObj : ObjectId) : Body Unit := do
  let server ← member
  match server.hppContext with
  | none => .raise .systemException
  | some context =>
    Method.tryCatch (do
      faults.call .bind
      bindName context idlName idlObj) fun e => do
        if e = .alreadyBound then
          faults.call .rebind
          rebindName context idlName idlObj
        else .raise e

def bindIdl (faults : Faults) (idlRef : Entity) (idlStrName : String) : Body Unit := do
  faults.call .this
  let idlObj ← referenceTo idlRef.id
  bindObject faults (servantName idlStrName) idlObj

def addIdl (faults : Faults) (idlRef : Entity) (idlStrName : String) : Body Unit := do
  activateIdl faults idlRef
  bindIdl faults idlRef idlStrName

end DgMiddleware.Corba
