import Mathlib.Tactic.Common

/-! Method bodies over an object's state. An exception keeps the state it was
thrown in; an access outside a container leaves no outcome to reason about. -/
namespace DgMiddleware.Library

/-- How a body ends: it returns, it throws in the state reached so far, or its
behaviour is undefined. -/
inductive Outcome (ε σ α : Type) where
  | ret (value : α) (state : σ)
  | raise (error : ε) (state : σ)
  | undefined
  deriving DecidableEq, Repr

namespace Outcome
variable {ε σ τ α β : Type}

def bind (o : Outcome ε σ α) (f : α → σ → Outcome ε σ β) : Outcome ε σ β :=
  match o with
  | .ret a s => f a s
  | .raise e s => .raise e s
  | .undefined => .undefined

@[simp] theorem bind_ret (a : α) (s : σ) (f : α → σ → Outcome ε σ β) :
    (ret a s : Outcome ε σ α).bind f = f a s := rfl
@[simp] theorem bind_raise (e : ε) (s : σ) (f : α → σ → Outcome ε σ β) :
    (raise e s : Outcome ε σ α).bind f = .raise e s := rfl
@[simp] theorem bind_undefined (f : α → σ → Outcome ε σ β) :
    (undefined : Outcome ε σ α).bind f = .undefined := rfl

/-- The same ending seen from an enclosing object. -/
def mapState (o : Outcome ε σ α) (put : σ → τ) : Outcome ε τ α :=
  match o with
  | .ret a s => .ret a (put s)
  | .raise e s => .raise e (put s)
  | .undefined => .undefined

end Outcome

/-- A body takes the object's state and ends in one of the three ways. -/
def Method (ε σ α : Type) : Type := σ → Outcome ε σ α

namespace Method
variable {ε σ τ α β : Type}

instance : Monad (Method ε σ) where
  pure a := fun s => .ret a s
  bind m f := fun s => (m s).bind f

def get : Method ε σ σ := fun s => .ret s s
def set (s : σ) : Method ε σ Unit := fun _ => .ret () s
def raise (e : ε) : Method ε σ α := fun s => .raise e s

/-- A local computation that may leave its containers. -/
def ofOption (o : Option α) : Method ε σ α := fun s =>
  match o with
  | some a => .ret a s
  | none => .undefined

def ofExcept (x : Except ε α) : Method ε σ α := fun s =>
  match x with
  | .ok a => .ret a s
  | .error e => .raise e s

/-- The handler continues in the state the exception was thrown in. -/
def tryCatch (m : Method ε σ α) (handler : ε → Method ε σ α) : Method ε σ α := fun s =>
  match m s with
  | .ret a t => .ret a t
  | .raise e t => handler e t
  | .undefined => .undefined

/-- Run a body on one member of a larger object. -/
def focus (member : τ → σ) (put : σ → τ → τ) (m : Method ε σ α) : Method ε τ α :=
  fun t => (m (member t)).mapState fun s => put s t

@[simp] theorem pure_apply (a : α) (s : σ) : (pure a : Method ε σ α) s = .ret a s := rfl
@[simp] theorem bind_apply (m : Method ε σ α) (f : α → Method ε σ β) (s : σ) :
    (m >>= f) s = (m s).bind fun a t => f a t := rfl
@[simp] theorem get_apply (s : σ) : (get : Method ε σ σ) s = .ret s s := rfl
@[simp] theorem set_apply (s t : σ) : (set t : Method ε σ Unit) s = .ret () t := rfl
@[simp] theorem raise_apply (e : ε) (s : σ) : (raise e : Method ε σ α) s = .raise e s := rfl
@[simp] theorem ofOption_some (a : α) (s : σ) :
    (ofOption (some a) : Method ε σ α) s = .ret a s := rfl
@[simp] theorem ofOption_none (s : σ) : (ofOption none : Method ε σ α) s = .undefined := rfl
@[simp] theorem ofExcept_ok (a : α) (s : σ) :
    (ofExcept (.ok a) : Method ε σ α) s = .ret a s := rfl
@[simp] theorem ofExcept_error (e : ε) (s : σ) :
    (ofExcept (.error e) : Method ε σ α) s = .raise e s := rfl
@[simp] theorem ite_apply (c : Prop) [Decidable c] (m n : Method ε σ α) (s : σ) :
    (if c then m else n) s = if c then m s else n s := by
  split <;> rfl

end Method

/-- The loop for (i = 0; i < n; i++), its variables carried as an accumulator. -/
def forUpTo {m : Type → Type} [Monad m] {β : Type} : Nat → (Nat → β → m β) → β → m β
  | 0, _, init => pure init
  | n + 1, body, init => do
    let b ← forUpTo n body init
    body n b

section Loops
variable {ε σ β : Type}

@[simp] theorem forUpTo_zero {m : Type → Type} [Monad m] (body : Nat → β → m β) (init : β) :
    forUpTo 0 body init = pure init := rfl

/-- A loop that stays inside its containers passes through the listed states. -/
theorem forUpTo_some (body : Nat → β → Option β) (at' : Nat → β) (n : Nat)
    (step : ∀ i < n, body i (at' i) = some (at' (i + 1))) :
    forUpTo n body (at' 0) = some (at' n) := by
  induction n with
  | zero => rfl
  | succ n ih =>
    rw [forUpTo, ih fun i hi => step i (by omega)]
    exact step n (by omega)

/-- What every iteration preserves holds after a loop that stays inside. -/
theorem forUpTo_invariant (I : Nat → β → Prop) (body : Nat → β → Option β) (n : Nat) (init b : β)
    (start : I 0 init) (step : ∀ i < n, ∀ x y, I i x → body i x = some y → I (i + 1) y)
    (h : forUpTo n body init = some b) : I n b := by
  induction n generalizing b with
  | zero => cases h; exact start
  | succ n ih =>
    obtain ⟨x, hx, hb⟩ := Option.bind_eq_some_iff.mp h
    exact step n (by omega) x b (ih x (fun i hi => step i (by omega)) hx) hb

/-- A loop whose iterations all return passes through the listed accumulators and
object states. -/
theorem forUpTo_ret (body : Nat → β → Method ε σ β) (acc : Nat → β) (at' : Nat → σ) (n : Nat)
    (step : ∀ i < n, body i (acc i) (at' i) = .ret (acc (i + 1)) (at' (i + 1))) :
    forUpTo n body (acc 0) (at' 0) = .ret (acc n) (at' n) := by
  induction n with
  | zero => rfl
  | succ n ih =>
    rw [forUpTo, Method.bind_apply, ih fun i hi => step i (by omega)]
    exact step n (by omega)

/-- The first iteration that does not return ends the loop with its own outcome. -/
theorem forUpTo_stop (body : Nat → β → Method ε σ β) (init : β) (s : σ) (o : Outcome ε σ β)
    (stop : ∀ f : β → σ → Outcome ε σ β, o.bind f = o) (k n : Nat) (hk : k < n)
    (first : forUpTo (k + 1) body init s = o) : forUpTo n body init s = o := by
  induction n with
  | zero => omega
  | succ n ih =>
    rcases Nat.lt_or_eq_of_le (Nat.le_of_lt_succ hk) with h | rfl
    · rw [forUpTo, Method.bind_apply, ih h]
      exact stop _
    · exact first

end Loops
end DgMiddleware.Library
