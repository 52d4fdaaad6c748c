import Mathlib.Algebra.Ring.Nat
import Mathlib.Data.Fin.Basic
import Mathlib.Data.List.Induction
import Mathlib.Data.List.OfFn
import Mathlib.Data.List.Perm.Basic
import Mathlib.Data.List.Rotate
import Mathlib.Logic.Function.Basic
import Mathlib.Tactic.Common

/-! A ring of fixed positive capacity as the log of everything ever pushed: which
push each slot still holds, where the next one goes, and whether it wrapped. -/
namespace DgMiddleware.Library

/-- The next slot to write lies inside the ring by construction. -/
structure Ring (β : Type) (N : Nat) where
  slot : Fin N → β
  index : Fin N
  turnaround : Bool

namespace Ring
variable {β : Type} {N : Nat}

/-- Position `k` is the latest of `0, ..., n - 1` that falls on slot `j`. -/
def LastOn (N n j k : Nat) : Prop := k < n ∧ k % N = j ∧ ∀ i < n, i % N = j → i ≤ k

def next (i : Fin N) : Fin N := ⟨(i + 1) % N, Nat.mod_lt _ (Nat.lt_of_le_of_lt (Nat.zero_le _) i.isLt)⟩

def push (r : Ring β N) (v : β) : Ring β N where
  slot := Function.update r.slot r.index v
  index := next r.index
  turnaround := r.turnaround || decide (r.index.val + 1 = N)

section Log
variable [NeZero N]

def fresh (blank : β) : Ring β N := ⟨fun _ => blank, ⟨0, Nat.pos_of_ne_zero (NeZero.ne N)⟩, false⟩

/-- The ring after a whole history of pushes. -/
def log (blank : β) (history : List β) : Ring β N := history.foldl push (fresh blank)

@[simp] theorem log_nil (blank : β) : log blank [] = (fresh blank : Ring β N) := rfl
@[simp] theorem log_snoc (blank : β) (history : List β) (v : β) :
    log blank (history ++ [v]) = (log blank history : Ring β N).push v := by
  simp [log]

theorem log_index (blank : β) (history : List β) :
    (log blank history : Ring β N).index.val = history.length % N := by
  induction history using List.reverseRecOn with
  | nil => simp [fresh]
  | append_singleton history v ih => simp [push, next, ih]

theorem log_turnaround (blank : β) (history : List β) :
    (log blank history : Ring β N).turnaround = true ↔ N ≤ history.length := by
  have hN := Nat.pos_of_ne_zero (NeZero.ne N)
  induction history using List.reverseRecOn with
  | nil => simp [fresh]; omega
  | append_singleton history v ih =>
    rw [log_snoc, List.length_append, List.length_singleton]
    simp only [push, Bool.or_eq_true, ih, decide_eq_true_eq, log_index]
    constructor
    · rintro (h | h)
      · omega
      · have := Nat.mod_le history.length N
        omega
    · intro h
      rcases Nat.lt_or_ge history.length N with hlt | hge
      · exact .inr (by rw [Nat.mod_eq_of_lt hlt]; omega)
      · exact .inl hge

end Log

theorem lastOn_self (N n : Nat) : LastOn N (n + 1) (n % N) n :=
  ⟨by omega, rfl, fun i hi _ => by omega⟩

theorem lastOn_succ {n j k : Nat} (h : j ≠ n % N) : LastOn N (n + 1) j k ↔ LastOn N n j k := by
  constructor
  · rintro ⟨hk, hj, hmax⟩
    have hne : k ≠ n := fun he => h (he ▸ hj.symm)
    exact ⟨by omega, hj, fun i hi => hmax i (by omega)⟩
  · rintro ⟨hk, hj, hmax⟩
    refine ⟨by omega, hj, fun i hi hij => ?_⟩
    have hne : i ≠ n := fun he => h (he ▸ hij.symm)
    exact hmax i (by omega) hij

theorem LastOn.unique {n j k l : Nat} (hk : LastOn N n j k) (hl : LastOn N n j l) : k = l :=
  Nat.le_antisymm (hl.2.2 k hk.1 hk.2.1) (hk.2.2 l hl.1 hl.2.1)

/-- Every slot below the number of pushes, and below the capacity, was written. -/
theorem exists_lastOn {n j : Nat} (hj : j < N) (hn : j < n) : ∃ k, LastOn N n j k := by
  induction n with
  | zero => omega
  | succ n ih =>
    by_cases h : j = n % N
    · exact ⟨n, h ▸ lastOn_self N n⟩
    · have hlt : j < n := by
        have hne : j ≠ n := fun he => h (by rw [← he, Nat.mod_eq_of_lt hj])
        omega
      obtain ⟨k, hk⟩ := ih hlt
      exact ⟨k, (lastOn_succ h).mpr hk⟩

/-- A written slot holds the latest push that fell on it. -/
theorem log_slot [NeZero N] (blank : β) (history : List β) (j : Fin N) (k : Nat)
    (h : LastOn N history.length j k) : history[k]? = some ((log blank history).slot j) := by
  induction history using List.reverseRecOn with
  | nil => exact absurd h.1 (Nat.not_lt_zero k)
  | append_singleton history v ih =>
    rw [List.length_append, List.length_singleton] at h
    rw [log_snoc]
    by_cases hj : j.val = history.length % N
    · obtain rfl := h.unique (hj ▸ lastOn_self N history.length)
      have hi : (log blank history).index = j := Fin.ext (by rw [log_index, hj])
      simp [push, hi]
    · have hi : j ≠ (log blank history).index := fun he => hj (by rw [he, log_index])
      have old := (lastOn_succ hj).mp h
      rw [List.getElem?_append_left old.1, ih old]
      simp [push, Function.update_of_ne hi]

theorem ofFn_update (f : Fin N → β) (i : Fin N) (v : β) :
    List.ofFn (Function.update f i v) = (List.ofFn f).set i v := by
  apply List.ext_getElem (by simp)
  intro j hj _
  rw [List.length_ofFn] at hj
  rw [List.getElem_set]
  by_cases hij : i.val = j
  · obtain rfl := hij
    simp
  · have hne : (⟨j, hj⟩ : Fin N) ≠ i := fun he => hij (congrArg Fin.val he).symm
    simp [hij, Function.update_of_ne hne]

/-- The push that the next one overwrites, once the ring is full. -/
theorem lastOn_oldest {n : Nat} (hN : 0 < N) (h : N ≤ n) : LastOn N n (n % N) (n - N) := by
  refine ⟨by omega, (Nat.mod_eq_sub_mod h).symm, fun m hm hmod => ?_⟩
  by_contra hlt
  have hdist : (n - m) % N = 0 := Nat.sub_mod_eq_zero_of_mod_eq hmod.symm
  rw [Nat.mod_eq_of_lt (by omega)] at hdist
  omega

/-- The written slots hold the latest pushes, as many as the capacity allows. -/
theorem log_perm [NeZero N] (blank : β) (history : List β) :
    ((List.ofFn (log blank history : Ring β N).slot).take history.length).Perm
      (history.drop (history.length - N)) := by
  have hN := Nat.pos_of_ne_zero (NeZero.ne N)
  induction history using List.reverseRecOn with
  | nil => simp
  | append_singleton history v ih =>
    have hslots : List.ofFn (log blank (history ++ [v]) : Ring β N).slot =
        (List.ofFn (log blank history : Ring β N).slot).set (history.length % N) v := by
      rw [log_snoc, push, ofFn_update, log_index]
    rw [hslots, List.length_append, List.length_singleton]
    rcases Nat.lt_or_ge history.length N with hlt | hge
    · have hlen : (List.ofFn (log blank history : Ring β N).slot).length = N := List.length_ofFn
      rw [Nat.sub_eq_zero_of_le hlt.le, List.drop_zero] at ih
      rw [Nat.mod_eq_of_lt hlt, Nat.sub_eq_zero_of_le hlt, List.drop_zero,
        List.take_succ_eq_append_getElem (by simpa using hlt), List.take_set_of_le (Nat.le_refl _),
        List.getElem_set_self]
      exact ih.append_right [v]
    · have hi : history.length % N < (List.ofFn (log blank history : Ring β N).slot).length := by
        rw [List.length_ofFn]
        exact Nat.mod_lt _ hN
      have holdest : (List.ofFn (log blank history : Ring β N).slot)[history.length % N] =
          history[history.length - N] := by
        have hget := log_slot blank history ⟨history.length % N, Nat.mod_lt _ hN⟩ _ (lastOn_oldest hN hge)
        rw [List.getElem?_eq_getElem (by omega), Option.some.injEq] at hget
        rw [hget, List.getElem_ofFn]
      rw [List.take_of_length_le (by simpa using hge)] at ih
      have hkept := List.set_perm_cons_eraseIdx hi (List.ofFn (log blank history : Ring β N).slot)[history.length % N]
      rw [List.set_getElem_self, holdest] at hkept
      have hdrop : history.drop (history.length - N) =
          history[history.length - N] :: history.drop (history.length + 1 - N) := by
        rw [List.drop_eq_getElem_cons (by omega), Nat.sub_add_comm hge]
      rw [hdrop] at ih
      have hrest := (hkept.symm.trans ih).cons_inv
      rw [List.take_of_length_le (by simp; omega), List.drop_append_of_le_length (by omega)]
      exact (List.set_perm_cons_eraseIdx hi v).trans ((hrest.cons v).trans (List.perm_append_singleton v _).symm)

/-- The latest elements of a history, as many as fit, in the order of the slots that they
fell on. -/
def arranged (N : Nat) (history : List β) : List β :=
  if history.length < N then history
  else (history.drop (history.length - N)).rotate (N - history.length % N)

theorem length_arranged (history : List β) : (arranged N history).length = min history.length N := by
  unfold arranged
  split
  · omega
  · simp
    omega

private theorem arranged_mod {n j : Nat} (hN : 0 < N) (hj : j < N) (hn : N ≤ n) :
    (n - N + (j + (N - n % N)) % N) % N = j := by
  have hmod : n % N < N := Nat.mod_lt n hN
  calc (n - N + (j + (N - n % N)) % N) % N = ((n - N) % N + (j + (N - n % N))) % N := by simp [Nat.add_mod]
    _ = (n % N + (j + (N - n % N))) % N := by rw [Nat.mod_eq_sub_mod hn]
    _ = (j + N) % N := by
      congr 1
      omega
    _ = j := by rw [Nat.add_mod_right, Nat.mod_eq_of_lt hj]

private theorem lastOn_arranged {n j : Nat} (hN : 0 < N) (hj : j < N) (hn : N ≤ n) :
    LastOn N n j (n - N + (j + (N - n % N)) % N) := by
  have hplace : (j + (N - n % N)) % N < N := Nat.mod_lt _ hN
  have hk := arranged_mod hN hj hn
  refine ⟨by omega, hk, fun i hi hij => ?_⟩
  by_contra hlt
  have hdist := Nat.sub_mod_eq_zero_of_mod_eq (hij.trans hk.symm)
  rw [Nat.mod_eq_of_lt (by omega)] at hdist
  omega

/-- The written slots of a log, in slot order. -/
theorem log_arranged [NeZero N] (blank : β) (history : List β) :
    (List.ofFn (log blank history : Ring β N).slot).take history.length = arranged N history := by
  have hN := Nat.pos_of_ne_zero (NeZero.ne N)
  apply List.ext_getElem?
  intro j
  rcases Nat.lt_or_ge j (min history.length N) with hj | hj
  · have hslot : ∀ k, LastOn N history.length j k →
        ((List.ofFn (log blank history : Ring β N).slot).take history.length)[j]? = history[k]? := by
      intro k hk
      have hjN : j < N := by omega
      rw [List.getElem?_take_of_lt (by omega), log_slot blank history ⟨j, hjN⟩ k hk]
      simp [hjN]
    unfold arranged
    split
    · rename_i hlt
      refine hslot j ⟨by omega, Nat.mod_eq_of_lt (by omega), fun i hi hij => ?_⟩
      rw [← hij, Nat.mod_eq_of_lt (by omega)]
    · have hlen : (history.drop (history.length - N)).length = N := by
        rw [List.length_drop]
        omega
      rw [hslot _ (lastOn_arranged hN (by omega) (by omega)), List.getElem?_rotate (by omega), hlen,
        List.getElem?_drop]
  · have hout : (arranged N history).length ≤ j := by rwa [length_arranged]
    rw [List.getElem?_eq_none (by simp; omega), List.getElem?_eq_none hout]

end Ring
end DgMiddleware.Library
