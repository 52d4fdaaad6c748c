import Mathlib.Data.List.Sort
import Mathlib.Order.Basic
import Mathlib.Tactic.Common

/-! Lists whose elements increase strictly by a key: what sorting gives back, where an
element lies, and which windows over such a list leave nothing out. -/
namespace DgMiddleware.Library
variable {β κ : Type} [LinearOrder κ] {key : β → κ} {xs ys : List β}

def Increasing (key : β → κ) (xs : List β) : Prop := xs.Pairwise fun a b => key a < key b

instance (key : β → κ) (xs : List β) : Decidable (Increasing key xs) :=
  inferInstanceAs (Decidable (xs.Pairwise fun a b => key a < key b))

def sortBy (key : β → κ) (xs : List β) : List β := xs.mergeSort fun a b => decide (key a ≤ key b)

namespace Increasing

theorem drop (h : Increasing key xs) (k : Nat) : Increasing key (xs.drop k) := List.Pairwise.drop h

theorem key_lt (h : Increasing key xs) {i j : Nat} (hij : i < j) {x y : β} (hx : xs[i]? = some x)
    (hy : xs[j]? = some y) : key x < key y := by
  obtain ⟨hi, rfl⟩ := List.getElem?_eq_some_iff.mp hx
  obtain ⟨hj, rfl⟩ := List.getElem?_eq_some_iff.mp hy
  exact List.pairwise_iff_getElem.mp h i j hi hj hij

theorem eq_of_key (h : Increasing key xs) {x y : β} (hx : x ∈ xs) (hy : y ∈ xs) (hkey : key x = key y) : x = y := by
  obtain ⟨i, hi⟩ := List.getElem?_of_mem hx
  obtain ⟨j, hj⟩ := List.getElem?_of_mem hy
  rcases Nat.lt_trichotomy i j with hlt | rfl | hlt
  · exact absurd hkey (ne_of_lt (h.key_lt hlt hi hj))
  · exact Option.some.inj (hi.symm.trans hj)
  · exact absurd hkey (ne_of_gt (h.key_lt hlt hj hi))

/-- Sorting brings an increasing list back, whatever its elements were rearranged to. -/
theorem sortBy_eq (h : Increasing key xs) (hperm : ys.Perm xs) : sortBy key ys = xs := by
  have hsorted : (sortBy key ys).Pairwise fun a b => key a ≤ key b := by
    have hpairs : (sortBy key ys).Pairwise fun a b => decide (key a ≤ key b) = true :=
      List.pairwise_mergeSort (by simpa using fun a b c hab hbc => le_trans hab hbc)
        (by simpa using fun a b => le_total (key a) (key b)) ys
    simpa using hpairs
  have hsame : (sortBy key ys).Perm xs := (List.mergeSort_perm ys _).trans hperm
  refine hsame.eq_of_pairwise (fun a b ha hb hab hba => ?_) hsorted (h.imp le_of_lt)
  exact h.eq_of_key (hsame.mem_iff.mp ha) hb (le_antisymm hab hba)

/-- An element lies in a window exactly when its position does. -/
theorem mem_window_iff (h : Increasing key xs) {k : Nat} {x : β} (hx : xs[k]? = some x) (m n : Nat) :
    x ∈ (xs.take n).drop m ↔ m ≤ k ∧ k < n := by
  constructor
  · intro hmem
    obtain ⟨j, hj⟩ := List.getElem?_of_mem hmem
    rw [List.getElem?_drop] at hj
    have hlt : m + j < n := by
      by_contra hout
      rw [List.getElem?_take_eq_none (by omega)] at hj
      cases hj
    rw [List.getElem?_take_of_lt hlt] at hj
    rcases Nat.lt_trichotomy k (m + j) with hkj | rfl | hkj
    · exact absurd rfl (ne_of_lt (h.key_lt hkj hx hj))
    · exact ⟨Nat.le_add_right m j, hlt⟩
    · exact absurd rfl (ne_of_gt (h.key_lt hkj hj hx))
  · rintro ⟨hle, hlt⟩
    refine List.mem_of_getElem? (i := k - m) ?_
    rwa [List.getElem?_drop, Nat.add_sub_cancel' hle, List.getElem?_take_of_lt hlt]

end Increasing

/-- Windows that each cover the `N` positions before their end cover everything before
the last of them exactly when no end lies more than `N` behind the one before it. -/
theorem windows_cover {N a : Nat} {ends : List Nat} (h : (a :: ends).Pairwise (· ≤ ·)) :
    (∀ k, a ≤ k → (∃ n ∈ ends, k < n) → ∃ n ∈ ends, k < n ∧ n ≤ k + N) ↔
      (a :: ends).IsChain fun m n => n ≤ m + N := by
  induction ends generalizing a with
  | nil => simp
  | cons b ends ih =>
    obtain ⟨hhead, htail⟩ := List.pairwise_cons.mp h
    have hbehind := (List.pairwise_cons.mp htail).1
    rw [List.isChain_cons_cons, ← ih htail]
    constructor
    · intro hcover
      refine ⟨?_, fun k hk ⟨n, hn, hlt⟩ => ?_⟩
      · rcases Nat.eq_or_lt_of_le (hhead b (by simp)) with rfl | hlt
        · exact Nat.le_add_right _ N
        · obtain ⟨n, hn, -, hle⟩ := hcover a (Nat.le_refl a) ⟨b, by simp, hlt⟩
          rcases List.mem_cons.mp hn with rfl | hn
          · exact hle
          · exact Nat.le_trans (hbehind n hn) hle
      · obtain ⟨m, hm, hkm, hle⟩ := hcover k (Nat.le_trans (hhead b (by simp)) hk) ⟨n, by simp [hn], hlt⟩
        rcases List.mem_cons.mp hm with rfl | hm
        · omega
        · exact ⟨m, hm, hkm, hle⟩
    · rintro ⟨hfirst, hrest⟩ k hk ⟨n, hn, hlt⟩
      rcases Nat.lt_or_ge k b with hkb | hkb
      · exact ⟨b, by simp, hkb, by omega⟩
      · rcases List.mem_cons.mp hn with rfl | hn
        · omega
        · obtain ⟨m, hm, hkm, hle⟩ := hrest k hkb ⟨n, hn, hlt⟩
          exact ⟨m, by simp [hm], hkm, hle⟩

end DgMiddleware.Library
