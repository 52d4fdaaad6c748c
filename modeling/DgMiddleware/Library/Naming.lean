import Mathlib.Logic.Function.Basic
import Mathlib.Tactic.Common

/-! A naming service: contexts that bind names to objects or to further contexts. Every
operation is one atomic step. -/
namespace DgMiddleware.Library

inductive Binding (ρ : Type) where
  | object (ref : ρ)
  | context (id : Nat)
  deriving DecidableEq, Repr

inductive NamingError where
  | alreadyBound
  | notFound
  | invalidName
  | objectNotExist
  deriving DecidableEq, Repr

/-- The first context that there is. -/
def Naming.root : Nat := 0

/-- The contexts below `made` exist. No other is bound anywhere, or binds anything. -/
structure Naming (κ ρ : Type) where
  entries : Nat → κ → Option (Binding ρ)
  made : Nat
  root_made : Naming.root < made
  unmade : ∀ c k, made ≤ c → entries c k = none
  inside : ∀ c k d, entries c k = some (.context d) → d < made

namespace Naming
variable {κ ρ : Type}

/-- Nothing but an empty root context. -/
def empty : Naming κ ρ := ⟨fun _ _ => none, 1, Nat.one_pos, fun _ _ _ => rfl, nofun⟩

/-- One more context, which is bound nowhere yet. -/
def grow (s : Naming κ ρ) : Naming κ ρ where
  entries := s.entries
  made := s.made + 1
  root_made := Nat.succ_pos _
  unmade c k hc := s.unmade c k (by omega)
  inside c k d h := Nat.lt_succ_of_lt (s.inside c k d h)

section Operations
variable [DecidableEq κ] {s : Naming κ ρ} {c : Nat} {k : κ} {b : Binding ρ}

private theorem update_entries (entries : Nat → κ → Option (Binding ρ)) (c : Nat) (k : κ) (b : Binding ρ) (d : Nat)
    (l : κ) : Function.update entries c (Function.update (entries c) k (some b)) d l =
      if d = c ∧ l = k then some b else entries d l := by
  by_cases hd : d = c
  · subst hd
    by_cases hl : l = k
    · simp [hl]
    · simp [hl]
  · simp [hd]

/-- The entry of one name in one context replaced. -/
def put (s : Naming κ ρ) (c : Nat) (k : κ) (b : Binding ρ) (hc : c < s.made)
    (hb : ∀ d, b = .context d → d < s.made) : Naming κ ρ where
  entries := Function.update s.entries c (Function.update (s.entries c) k (some b))
  made := s.made
  root_made := s.root_made
  unmade d l hd := by
    rw [update_entries, if_neg (by omega)]
    exact s.unmade d l hd
  inside d l e h := by
    rw [update_entries] at h
    split at h
    · exact hb e (Option.some.inj h)
    · exact s.inside d l e h

theorem put_entries (hc : c < s.made) (hb : ∀ d, b = .context d → d < s.made) (d : Nat) (l : κ) :
    (s.put c k b hc hb).entries d l = if d = c ∧ l = k then some b else s.entries d l :=
  update_entries s.entries c k b d l

def bind (s : Naming κ ρ) (c : Nat) (k : κ) (ref : ρ) : Except NamingError (Naming κ ρ) :=
  if hc : c < s.made then
    match s.entries c k with
    | some _ => .error .alreadyBound
    | none => .ok (s.put c k (.object ref) hc nofun)
  else .error .objectNotExist

/-- An object is replaced by another one, but a context is not. -/
def rebind (s : Naming κ ρ) (c : Nat) (k : κ) (ref : ρ) : Except NamingError (Naming κ ρ) :=
  if hc : c < s.made then
    match s.entries c k with
    | some (.context _) => .error .notFound
    | some (.object _) | none => .ok (s.put c k (.object ref) hc nofun)
  else .error .objectNotExist

/-- One name bound to a context that is made for it. -/
def newContext (s : Naming κ ρ) (c : Nat) (k : κ) (hc : c < s.made) : Naming κ ρ :=
  s.grow.put c k (.context s.made) (Nat.lt_succ_of_lt hc) fun _ h => Binding.context.inj h ▸ Nat.lt_succ_self _

theorem newContext_entries (hc : c < s.made) (d : Nat) (l : κ) :
    (s.newContext c k hc).entries d l = if d = c ∧ l = k then some (.context s.made) else s.entries d l :=
  put_entries _ _ d l

def bindNewContext (s : Naming κ ρ) (c : Nat) (k : κ) : Except NamingError (Nat × Naming κ ρ) :=
  if hc : c < s.made then
    match s.entries c k with
    | some _ => .error .alreadyBound
    | none => .ok (s.made, s.newContext c k hc)
  else .error .objectNotExist

omit [DecidableEq κ] in
/-- A name of several components leads through contexts. -/
def resolve (s : Naming κ ρ) (c : Nat) : List κ → Except NamingError (Binding ρ)
  | [] => .error .invalidName
  | [k] =>
    match s.entries c k with
    | some b => .ok b
    | none => .error .notFound
  | k :: rest =>
    match s.entries c k with
    | some (.context d) => s.resolve d rest
    | some (.object _) | none => .error .notFound

theorem bind_new (hc : c < s.made) (h : s.entries c k = none) (ref : ρ) :
    s.bind c k ref = .ok (s.put c k (.object ref) hc nofun) := by
  simp [bind, hc, h]

theorem bind_taken (hc : c < s.made) (h : s.entries c k = some b) (ref : ρ) :
    s.bind c k ref = .error .alreadyBound := by
  simp [bind, hc, h]

theorem rebind_object (hc : c < s.made) (h : ∀ d, s.entries c k ≠ some (.context d)) (ref : ρ) :
    s.rebind c k ref = .ok (s.put c k (.object ref) hc nofun) := by
  rw [rebind, dif_pos hc]
  split
  next d hd => exact absurd hd (h d)
  next => rfl
  next => rfl

theorem bindNewContext_new (hc : c < s.made) (h : s.entries c k = none) :
    s.bindNewContext c k = .ok (s.made, s.newContext c k hc) := by
  simp [bindNewContext, hc, h]

theorem bindNewContext_taken (hc : c < s.made) (h : s.entries c k = some b) :
    s.bindNewContext c k = .error .alreadyBound := by
  simp [bindNewContext, hc, h]

omit [DecidableEq κ] in
theorem resolve_single (h : s.entries c k = some b) : s.resolve c [k] = .ok b := by
  simp [resolve, h]

end Operations

/-- What a name leads to, if anything. -/
def lookup (s : Naming κ ρ) (path : List κ) : Option (Binding ρ) := (s.resolve root path).toOption

section Lookup
variable {s : Naming κ ρ} {k : κ} {c : Nat}

theorem lookup_pair (h : s.entries root k = some (.context c)) (l : κ) : s.lookup [k, l] = s.entries c l := by
  cases hentry : s.entries c l <;> simp [lookup, resolve, h, hentry, Except.toOption]

theorem lookup_pair_none (h : s.entries root k = none) (l : κ) : s.lookup [k, l] = none := by
  simp [lookup, resolve, h, Except.toOption]

end Lookup
end Naming
end DgMiddleware.Library
