import DgMiddleware.Library.Method
import DgMiddleware.Server.DataStack
import Mathlib.Data.String.Basic

/-! The ServerCommand entity: its two vectors of signals, the sample buffers of the
inputs, the map from names to ranks, and the signals its entity has registered. -/
namespace DgMiddleware.Server
open Library

/-- Everything a body may throw, as far as a handler tells exceptions apart. -/
inductive Exception where
  | systemException
  | exceptionFactory
  | exceptionSignal
  | exceptionAbstract
  | badCast
  | unknown
  deriving DecidableEq, Repr

/-- Whether `catch( ExceptionAbstract& e )` takes it. -/
def Exception.isExceptionAbstract : Exception → Bool
  | .exceptionFactory | .exceptionSignal | .exceptionAbstract => true
  | .systemException | .badCast | .unknown => false

/-- An input signal, and through its pointer the copy of the signal plugged into it.
A signal that is not plugged, or whose source cannot be read, has no copy. -/
structure SignalPtr (α : Type) where
  name : String
  ptr : Option (List α)
  deriving DecidableEq, Repr

def SignalPtr.accessCopy {α : Type} (signal : SignalPtr α) : Except Exception (List α) :=
  match signal.ptr with
  | none => .error .exceptionSignal
  | some data => .ok data

structure SignalTimeDependent (α : Type) where
  name : String
  value : List α
  deriving DecidableEq, Repr

/-- What an entry of the entity's signal map points to. -/
inductive SignalRef where
  | jointPositionSIN
  | oneInternalStepS
  | synchroSOUT
  | vectorSOUT (rank : Nat)
  | vectorSIN (rank : Nat)
  deriving DecidableEq, Repr

/-- A client's callback object, known by its reference. -/
structure NotifyCallback where
  reference : Nat
  deriving DecidableEq, Repr

structure ServerCommand (α : Type) where
  vectorSOUT : List (SignalTimeDependent α)
  vectorSIN : List (SignalPtr α)
  vectorSINStored : List (DataStack α)
  vectorName2Rank : Std.ExtTreeMap String Nat
  callbackList : Std.ExtTreeMap String NotifyCallback
  signalMap : Std.ExtTreeMap String SignalRef

abbrev Body (α β : Type) : Type := Method Exception (ServerCommand α) β

variable {α β : Type}

/-- The local name that is taken where a run is given: what follows the last colon. -/
def shortName (name : String) : String := String.ofList (name.toList.reverse.takeWhile (· ≠ ':')).reverse

namespace ServerCommand

/-- The constructor registers the three signals every server has. Under which local
name a signal is registered is decided by the library of the entities. -/
def construct (localName : String → String) (name : String) : ServerCommand α where
  vectorSOUT := []
  vectorSIN := []
  vectorSINStored := []
  vectorName2Rank := ∅
  callbackList := ∅
  signalMap := (((∅ : Std.ExtTreeMap String SignalRef).insert
    (localName ("sotPatternGenerator(" ++ name ++ ")::input(vector)::position")) .jointPositionSIN).insert
    (localName ("ServerCommand(" ++ name ++ ")::output(int)::onestepinternal")) .oneInternalStepS).insert
    (localName ("ServerCommand(" ++ name ++ ")::output(int)::synchro")) .synchroSOUT

def inputNames (s : ServerCommand α) : List String := s.vectorSIN.map (·.name)
def outputNames (s : ServerCommand α) : List String := s.vectorSOUT.map (·.name)

/-- The copy a reader of the input signal at a rank obtains, if it obtains one. -/
def copyAt (s : ServerCommand α) (rank : Nat) : Option (List α) := s.vectorSIN[rank]?.bind (·.ptr)

end ServerCommand

theorem lookup_insert {β : Type} (m : Std.ExtTreeMap String β) (k a : String) (v : β) :
    (m.insert k v)[a]? = if k = a then some v else m[a]? := by
  rw [Std.ExtTreeMap.getElem?_insert]
  simp [Std.LawfulEqCmp.compare_eq_iff_eq]

/-- The subscript operator of a vector: outside the vector it is undefined. -/
def element (xs : List β) (i : Nat) : Body α β := .ofOption xs[i]?

theorem element_some {xs : List β} {i : Nat} {x : β} (h : xs[i]? = some x) (s : ServerCommand α) :
    (element xs i : Body α β) s = .ret x s := by
  simp [element, h]

theorem element_none {xs : List β} {i : Nat} (h : xs[i]? = none) (s : ServerCommand α) :
    (element xs i : Body α β) s = .undefined := by
  simp [element, h]

/-- Subscripting with a signed rank: a negative one is outside too. -/
def elementAt (xs : List β) (i : Int) : Body α β := if i < 0 then .ofOption none else element xs i.toNat

theorem elementAt_some {xs : List β} {i : Int} {x : β} (h0 : 0 ≤ i) (h : xs[i.toNat]? = some x)
    (s : ServerCommand α) : (elementAt xs i : Body α β) s = .ret x s := by
  rw [elementAt, if_neg (Int.not_lt.mpr h0), element_some h]

theorem elementAt_none {xs : List β} {i : Int} (h : i < 0 ∨ (xs.length : Int) ≤ i) (s : ServerCommand α) :
    (elementAt xs i : Body α β) s = .undefined := by
  unfold elementAt
  split
  · rfl
  · exact element_none (List.getElem?_eq_none (by omega)) s

def accessCopy (signal : SignalPtr α) : Body α (List α) := .ofExcept signal.accessCopy

theorem accessCopy_some {signal : SignalPtr α} {data : List α} (h : signal.ptr = some data)
    (s : ServerCommand α) : accessCopy signal s = .ret data s := by
  simp [accessCopy, SignalPtr.accessCopy, h]

theorem accessCopy_none {signal : SignalPtr α} (h : signal.ptr = none) (s : ServerCommand α) :
    accessCopy signal s = .raise .exceptionSignal s := by
  simp [accessCopy, SignalPtr.accessCopy, h]

end DgMiddleware.Server
