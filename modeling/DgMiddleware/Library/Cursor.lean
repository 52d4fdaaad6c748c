import Mathlib.Data.List.Basic
import Mathlib.Data.List.Sublists
import Mathlib.Order.WithBot
import Mathlib.Tactic.Common

/-! A cursor that moves through sorted keys which may change between its moves. It is a
key itself, or before all keys, so that a move depends on the keys there are now. -/
namespace DgMiddleware.Library
variable {κ : Type} [LinearOrder κ]

/-- The first key past the cursor. -/
def nextKey (keys : List κ) (cursor : WithBot κ) : Option κ := keys.find? fun k => cursor < (k : WithBot κ)

/-- The keys the cursor has still to visit. -/
def keysAbove (keys : List κ) (cursor : WithBot κ) : List κ := keys.filter fun k => cursor < (k : WithBot κ)

section Cursor
variable {keys keys' : List κ} {cursor : WithBot κ} {k : κ}

theorem nextKey_mem (h : nextKey keys cursor = some k) : k ∈ keys := List.mem_of_find?_eq_some h

theorem cursor_lt_nextKey (h : nextKey keys cursor = some k) : cursor < k := by
  simpa using List.find?_some h

theorem nextKey_none (h : nextKey keys cursor = none) : ∀ x ∈ keys, ↑x ≤ cursor := by
  simpa [nextKey] using h

/-- No key is passed over. -/
theorem nextKey_le (hsorted : keys.Pairwise (· < ·)) (h : nextKey keys cursor = some k) :
    ∀ x ∈ keys, cursor < x → k ≤ x := by
  obtain ⟨-, before, after, rfl, hbefore⟩ := List.find?_eq_some_iff_append.mp h
  intro x hx hlt
  rcases List.mem_append.mp hx with hx | hx
  · exact absurd hlt (by simpa using hbefore x hx)
  · rcases List.mem_cons.mp hx with rfl | hx
    · exact le_rfl
    · exact le_of_lt ((List.pairwise_cons.mp (List.pairwise_append.mp hsorted).2.1).1 x hx)

theorem nextKey_bot (keys : List κ) : nextKey keys ⊥ = keys.head? := by
  cases keys with
  | nil => rfl
  | cons k keys => simp [nextKey]

/-- While the keys stay as they are, a move goes from one to the next. -/
theorem nextKey_append {before after : List κ} (hsorted : (before ++ k :: after).Pairwise (· < ·)) :
    nextKey (before ++ k :: after) k = after.head? := by
  obtain ⟨-, hrest, hbefore⟩ := List.pairwise_append.mp hsorted
  have hnone : before.find? (fun x : κ => (k : WithBot κ) < (x : WithBot κ)) = none := by
    rw [List.find?_eq_none]
    intro x hx
    have hle : x ≤ k := le_of_lt (hbefore x hx k (by simp))
    simpa [WithBot.coe_lt_coe] using hle
  rw [nextKey, List.find?_append, hnone, Option.none_or, List.find?_cons_of_neg (by simp)]
  cases after with
  | nil => rfl
  | cons x after =>
    have hlt : k < x := (List.pairwise_cons.mp hrest).1 x (by simp)
    simp [hlt]

/-- A move leaves fewer keys to visit. -/
theorem keysAbove_nextKey (h : nextKey keys cursor = some k) :
    (keysAbove keys k).length < (keysAbove keys cursor).length := by
  have hlt := cursor_lt_nextKey h
  have hsub : keysAbove keys k = (keysAbove keys cursor).filter fun x => k < x := by
    rw [keysAbove, keysAbove, List.filter_filter]
    refine List.filter_congr fun x _ => ?_
    have himp : k < x → cursor < (x : WithBot κ) := fun hx => hlt.trans (WithBot.coe_lt_coe.mpr hx)
    simpa [WithBot.coe_lt_coe] using himp
  rw [hsub]
  refine List.length_filter_lt_length_iff_exists.mpr ⟨k, ?_, by simp⟩
  simpa [keysAbove] using ⟨nextKey_mem h, hlt⟩

/-- Taking keys away leaves no more to visit. -/
theorem keysAbove_length_le (hnodup : keys'.Nodup) (h : ∀ x ∈ keys', x ∈ keys) :
    (keysAbove keys' cursor).length ≤ (keysAbove keys cursor).length := by
  refine ((hnodup.filter _).subperm fun x hx => ?_).length_le
  obtain ⟨hx, hlt⟩ := List.mem_filter.mp hx
  exact List.mem_filter.mpr ⟨h x hx, hlt⟩

end Cursor
end DgMiddleware.Library
