import DgMiddleware.Library.Cursor
import DgMiddleware.Library.Run
import DgMiddleware.Server.Requests

/-! The loop of `notifyClients`, which holds an iterator of the callback list while the
requests of clients are served: between its steps and during the calls it makes. The loop
does not duplicate the reference that it reads from an entry. That reference is taken to
stay valid when the entry is replaced or erased before the call. -/
namespace DgMiddleware.Server.Notification
open Library

/-- What an iterator that is not at the end designates: the entry it was set to, or the
place where that entry was until it was erased. -/
structure Node where
  name : String
  erased : Bool
  deriving DecidableEq, Repr

/-- The steps of the loop; `none` is the end of the list. -/
inductive Phase where
  | begin
  | check (iter : Option Node)
  | read (iter : Node)
  | call (iter : Node) (listen : NotifyCallback)
  | reply (iter : Node)
  | advance (iter : Node)
  | returned
  | threw
  deriving DecidableEq, Repr

/-- The server with its loop, and the calls to `notifyClient` made so far. -/
structure Loop (α : Type) where
  server : ServerCommand α
  phase : Phase
  notified : List (String × NotifyCallback)

/-- A step of the loop, a call that throws, or a request that is served meanwhile. -/
inductive Event where
  | proceed
  | raised
  | registerClient (client : NotifyCallback) (clientName : String)
  | unregisterClient (clientName : String)
  deriving DecidableEq, Repr

variable {α : Type}

def Loop.start (server : ServerCommand α) : Loop α := ⟨server, .begin, []⟩

/-- The iterator to the first entry past a name. -/
def entryAfter (server : ServerCommand α) (cursor : WithBot String) : Option Node :=
  (nextKey server.callbackList.keys cursor).map fun name => ⟨name, false⟩

/-- To use an iterator whose entry was erased is undefined: there is no such step. -/
def Loop.proceed (l : Loop α) : Option (Loop α) :=
  match l.phase with
  | .begin => some { l with phase := .check (entryAfter l.server ⊥) }
  | .check none => some { l with phase := .returned }
  | .check (some iter) => if iter.erased then none else some { l with phase := .read iter }
  | .read iter =>
    if iter.erased then none
    else l.server.callbackList[iter.name]?.map fun listen => { l with phase := .call iter listen }
  | .call iter listen =>
    some { l with phase := .reply iter, notified := l.notified ++ [(iter.name, listen)] }
  | .reply iter => some { l with phase := .advance iter }
  | .advance iter =>
    if iter.erased then none else some { l with phase := .check (entryAfter l.server iter.name) }
  | .returned | .threw => none

/-- Erasing an entry invalidates the iterators to it, and only those. -/
def Node.erase (iter : Node) (clientName : String) : Node :=
  if iter.name = clientName then { iter with erased := true } else iter

def Phase.erase (clientName : String) : Phase → Phase
  | .check iter => .check (iter.map (·.erase clientName))
  | .read iter => .read (iter.erase clientName)
  | .call iter listen => .call (iter.erase clientName) listen
  | .reply iter => .reply (iter.erase clientName)
  | .advance iter => .advance (iter.erase clientName)
  | .begin => .begin
  | .returned => .returned
  | .threw => .threw

/-- The server after a request, if it returned. -/
def served (body : Body α Unit) (server : ServerCommand α) : Option (ServerCommand α) :=
  match body server with
  | .ret _ server' => some server'
  | _ => none

def Loop.step (l : Loop α) : Event → Option (Loop α)
  | .proceed => l.proceed
  | .raised =>
    match l.phase with
    | .reply _ => some { l with phase := .threw }
    | _ => none
  | .registerClient client clientName =>
    (served (Server.registerClient client clientName) l.server).map fun server => { l with server := server }
  | .unregisterClient clientName =>
    (served (Server.unregisterClient clientName) l.server).map fun server =>
      { l with server := server, phase := l.phase.erase clientName }

def Steps (l : Loop α) (e : Event) (l' : Loop α) : Prop := l.step e = some l'

section Keys
variable {β : Type} {m : Std.ExtTreeMap String β} {k : String} {v : β} {clientName : String}

theorem keys_sorted (m : Std.ExtTreeMap String β) : m.keys.Pairwise (· < ·) :=
  m.ordered_keys.imp fun h => compareOfLessAndEq_eq_lt.mp h

theorem mem_keys_of_lookup (h : m[k]? = some v) : k ∈ m.keys :=
  Std.ExtTreeMap.mem_keys.mpr (Std.ExtTreeMap.mem_iff_isSome_getElem?.mpr (by simp [h]))

theorem mem_of_mem_erase (h : k ∈ (m.erase clientName).keys) : k ∈ m.keys := by
  rw [Std.ExtTreeMap.mem_keys, Std.ExtTreeMap.mem_erase] at h
  exact Std.ExtTreeMap.mem_keys.mpr h.2

end Keys

/-- All that a step can do, one case for each. -/
inductive Effect (l : Loop α) : Event → Loop α → Prop
  | begin (h : l.phase = .begin) : Effect l .proceed { l with phase := .check (entryAfter l.server ⊥) }
  | through (h : l.phase = .check none) : Effect l .proceed { l with phase := .returned }
  | enter {iter : Node} (h : l.phase = .check (some iter)) (hlive : iter.erased = false) :
      Effect l .proceed { l with phase := .read iter }
  | read {iter : Node} {listen : NotifyCallback} (h : l.phase = .read iter) (hlive : iter.erased = false)
      (hlisten : l.server.callbackList[iter.name]? = some listen) :
      Effect l .proceed { l with phase := .call iter listen }
  | call {iter : Node} {listen : NotifyCallback} (h : l.phase = .call iter listen) :
      Effect l .proceed { l with phase := .reply iter, notified := l.notified ++ [(iter.name, listen)] }
  | reply {iter : Node} (h : l.phase = .reply iter) : Effect l .proceed { l with phase := .advance iter }
  | advance {iter : Node} (h : l.phase = .advance iter) (hlive : iter.erased = false) :
      Effect l .proceed { l with phase := .check (entryAfter l.server iter.name) }
  | raised {iter : Node} (h : l.phase = .reply iter) : Effect l .raised { l with phase := .threw }
  | registered {client : NotifyCallback} {clientName : String} : Effect l (.registerClient client clientName)
      { l with server := { l.server with callbackList := l.server.callbackList.insert clientName client } }
  | unregistered {clientName : String} : Effect l (.unregisterClient clientName)
      { l with
        server := { l.server with callbackList := l.server.callbackList.erase clientName }
        phase := l.phase.erase clientName }

section Step
variable {l l' : Loop α} {e : Event}

theorem Steps.effect (h : Steps l e l') : Effect l e l' := by
  obtain ⟨server, phase, notified⟩ := l
  unfold Steps Loop.step at h
  cases e with
  | proceed =>
    unfold Loop.proceed at h
    cases phase with
    | begin => exact Option.some.inj h ▸ .begin rfl
    | check iter =>
      cases iter with
      | none => exact Option.some.inj h ▸ .through rfl
      | some iter =>
        cases hlive : iter.erased <;> simp [hlive] at h
        exact h ▸ .enter rfl hlive
    | read iter =>
      cases hlive : iter.erased <;> simp [hlive] at h
      obtain ⟨listen, hlisten, h⟩ := h
      exact h ▸ .read rfl hlive hlisten
    | call iter listen => exact Option.some.inj h ▸ .call rfl
    | reply iter => exact Option.some.inj h ▸ .reply rfl
    | advance iter =>
      cases hlive : iter.erased <;> simp [hlive] at h
      exact h ▸ .advance rfl hlive
    | returned => cases h
    | threw => cases h
  | raised =>
    cases phase <;> cases h
    exact .raised rfl
  | registerClient client clientName => exact Option.some.inj h ▸ .registered
  | unregisterClient clientName => exact Option.some.inj h ▸ .unregistered

end Step

end DgMiddleware.Server.Notification
