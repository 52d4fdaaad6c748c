import DgMiddleware.Library.Method
import Mathlib.Data.List.Basic
import Mathlib.Tactic.Common

/-! The process around the CORBA servers: its ORB with the root POA, the naming service,
and the two globals of ServerAbstract. Each call into them may fail. -/
namespace DgMiddleware.Corba
open Library

/-- What is thrown here, as far as a handler or a caller tells it apart. -/
inductive CorbaException where
  | systemException
  | badInvOrder
  | servantAlreadyActive
  | objectNotActive
  | alreadyBound
  | notFound
  | todo
  | threadResourceError
  | exceptionFactory
  deriving DecidableEq, Repr

/-- A name component of the naming service. -/
structure CosName where
  id : String
  kind : String
  deriving DecidableEq, Repr

/-- An id the POA gave out, and the servant it was made for. -/
structure ObjectId where
  serial : Nat
  servant : Nat
  deriving DecidableEq, Repr

/-- A call that can fail where the state alone would let it succeed. -/
inductive Call where
  | orbInit
  | rootPOA
  | nameService
  | bindNewContext
  | resolveContext
  | activateManager
  | newThread
  | deactivateObject (ref : ObjectId)
  | shutdown
  | activateObject
  | this
  | bind
  | rebind
  deriving DecidableEq, Repr

/-- What the calls of one operation throw, and which of the references asked for are
nil. A call that throws has no effect. -/
structure Faults where
  raises : Call → Option CorbaException
  nil : Call → Bool

def noFaults : Faults := ⟨fun _ => none, fun _ => false⟩

/-- The one ORB of the process. A destroyed ORB is absent: the next `ORB_init` makes a
new one. -/
inductive OrbState where
  | absent
  | running
  | shutDown
  deriving DecidableEq, Repr

/-- The root POA; servants are known by the entity they are. -/
structure Poa where
  managerActive : Bool
  activeObjects : List ObjectId
  nextSerial : Nat
  deriving DecidableEq, Repr

/-- Contexts bound in the root context, and what is bound in each of them. -/
structure NamingService where
  contexts : List CosName
  bindings : CosName → CosName → Option ObjectId

/-- `orb` and `poa` say whether the reference is set: there is one ORB with one root
POA to refer to. -/
structure CorbaServerGeneric where
  serverName : String
  orb : Bool
  poa : Bool
  hppContext : Option CosName
  idlList : List ObjectId
  deriving DecidableEq, Repr

/-- A thread inside `CorbaServerGeneric::run`. -/
inductive ServerThread where
  | started
  deriving DecidableEq, Repr

/-- A ServerCommand entity of the pool. -/
structure Entity where
  id : Nat
  name : String
  deriving DecidableEq, Repr

structure CorbaProcess where
  orb : OrbState
  poa : Poa
  naming : NamingService
  genericServer : Option CorbaServerGeneric
  serverThread : Option ServerThread
  entities : List Entity
  nextEntity : Nat

/-- Before any call; the naming service may know names from earlier processes. -/
def CorbaProcess.fresh (naming : NamingService) : CorbaProcess where
  orb := .absent
  poa := ⟨false, [], 0⟩
  naming := naming
  genericServer := none
  serverThread := none
  entities := []
  nextEntity := 0

abbrev Body (β : Type) : Type := Method CorbaException CorbaProcess β

def Faults.call (faults : Faults) (c : Call) : Body Unit :=
  match faults.raises c with
  | some e => .raise e
  | none => return

theorem call_ok {faults : Faults} {c : Call} (h : faults.raises c = none) (s : CorbaProcess) :
    faults.call c s = .ret () s := by
  simp [Faults.call, h]

theorem call_raise {faults : Faults} {c : Call} {e : CorbaException} (h : faults.raises c = some e)
    (s : CorbaProcess) : faults.call c s = .raise e s := by
  simp [Faults.call, h]

/-- A call through a nil reference is refused by the ORB's stubs. -/
def through (set : Bool) : Body Unit := if set then return else .raise .systemException

@[simp] theorem through_true (s : CorbaProcess) : through true s = .ret () s := rfl
@[simp] theorem through_false (s : CorbaProcess) : through false s = .raise .systemException s := rfl

/-- An ORB that was shut down refuses all further use. -/
def inUse : Body Unit := do
  let s ← .get
  if s.orb = .running then return else .raise .badInvOrder

theorem inUse_running {s : CorbaProcess} (h : s.orb = .running) : inUse s = .ret () s := by
  simp [inUse, h]

theorem inUse_stopped {s : CorbaProcess} (h : s.orb ≠ .running) : inUse s = .raise .badInvOrder s := by
  simp [inUse, h]

/-- `CORBA::ORB_init` hands back the ORB there is, whatever state it is in. -/
def orbInit : Body Unit := do
  let s ← .get
  .set { s with orb := if s.orb = .absent then .running else s.orb }

/-- `ORB::shutdown` destroys the object adapters with the objects active in them. -/
def orbShutdown : Body Unit := do
  let s ← .get
  .set { s with orb := .shutDown, poa := { s.poa with managerActive := false, activeObjects := [] } }

/-- `POA::activate_object` under a policy of one id for each servant. -/
def activateObject (servant : Nat) : Body ObjectId := do
  let s ← .get
  if ∃ id ∈ s.poa.activeObjects, id.servant = servant then .raise .servantAlreadyActive
  else
    let id : ObjectId := ⟨s.poa.nextSerial, servant⟩
    .set { s with poa := { s.poa with
      activeObjects := s.poa.activeObjects ++ [id], nextSerial := s.poa.nextSerial + 1 } }
    return id

def deactivateObject (ref : ObjectId) : Body Unit := do
  let s ← .get
  if ref ∈ s.poa.activeObjects then
    .set { s with poa := { s.poa with activeObjects := s.poa.activeObjects.erase ref } }
  else .raise .objectNotActive

/-- `_this()` of a servant: the reference of its active object; a servant that has none
is activated for it. -/
def referenceTo (servant : Nat) : Body ObjectId := do
  let s ← .get
  match s.poa.activeObjects.find? (·.servant = servant) with
  | some id => return id
  | none => activateObject servant

/-- `bind_new_context` on the root context. -/
def bindNewContext (name : CosName) : Body CosName := do
  let s ← .get
  if name ∈ s.naming.contexts then .raise .alreadyBound
  else
    .set { s with naming := { s.naming with contexts := s.naming.contexts ++ [name] } }
    return name

def resolveContext (name : CosName) : Body CosName := do
  let s ← .get
  if name ∈ s.naming.contexts then return name else .raise .notFound

def NamingService.rebind (naming : NamingService) (context name : CosName) (obj : ObjectId) :
    NamingService :=
  { naming with bindings := fun c n => if c = context ∧ n = name then some obj else naming.bindings c n }

@[simp] theorem rebind_lookup (naming : NamingService) (context name : CosName) (obj : ObjectId) :
    (naming.rebind context name obj).bindings context name = some obj := by
  simp [NamingService.rebind]

def bindName (context name : CosName) (obj : ObjectId) : Body Unit := do
  let s ← .get
  if (s.naming.bindings context name).isSome then .raise .alreadyBound
  else .set { s with naming := s.naming.rebind context name obj }

def rebindName (context name : CosName) (obj : ObjectId) : Body Unit := do
  let s ← .get
  .set { s with naming := s.naming.rebind context name obj }

end DgMiddleware.Corba
