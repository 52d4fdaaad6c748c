import DgMiddleware.Library.Method
import Mathlib.Data.List.SplitLengths

/-! Vectors and sequences as lists: resizing, element writes that must stay inside,
the loop that copies one sequence over another of the same length, and sequences of
blocks of one width. -/
namespace DgMiddleware.Library
variable {β : Type}

/-- Keep the first elements, and append copies of `fill` when growing. -/
def resize (n : Nat) (fill : β) (xs : List β) : List β :=
  xs.take n ++ List.replicate (n - xs.length) fill

@[simp] theorem length_resize (n : Nat) (fill : β) (xs : List β) : (resize n fill xs).length = n := by
  simp [resize]
  omega

@[simp] theorem resize_length (fill : β) (xs : List β) : resize xs.length fill xs = xs := by
  simp [resize]

@[simp] theorem resize_nil (n : Nat) (fill : β) : resize n fill [] = List.replicate n fill := by
  simp [resize]

theorem getElem?_resize (n : Nat) (fill : β) (xs : List β) (j : Nat) :
    (resize n fill xs)[j]? = if j < n then some (xs[j]?.getD fill) else none := by
  rcases Nat.lt_or_ge j n with hj | hj
  · rw [if_pos hj, resize]
    rcases Nat.lt_or_ge j xs.length with hlt | hge
    · rw [List.getElem?_append_left (by simp; omega), List.getElem?_take_of_lt hj,
        List.getElem?_eq_getElem hlt, Option.getD_some]
    · rw [List.getElem?_append_right (by simp; omega), List.getElem?_eq_none hge, Option.getD_none,
        List.getElem?_replicate, if_pos (by simp; omega)]
  · rw [if_neg (by omega), List.getElem?_eq_none (by simp; omega)]

theorem getElem?_snoc {xs : List β} {x y : β} {i : Nat} :
    (xs ++ [x])[i]? = some y ↔ xs[i]? = some y ∨ (i = xs.length ∧ x = y) := by
  rcases Nat.lt_trichotomy i xs.length with hlt | rfl | hgt
  · simp [List.getElem?_append_left hlt, Nat.ne_of_lt hlt]
  · simp
  · rw [List.getElem?_eq_none (by simp; omega), List.getElem?_eq_none (by omega)]
    simp
    omega

theorem set_same {xs : List β} {i : Nat} {x : β} (h : xs[i]? = some x) : xs.set i x = xs := by
  obtain ⟨_, rfl⟩ := List.getElem?_eq_some_iff.mp h
  exact List.set_getElem_self _

theorem mem_take_iff {xs : List β} {k : Nat} {x : β} : x ∈ xs.take k ↔ ∃ j < k, xs[j]? = some x := by
  constructor
  · intro hmem
    obtain ⟨j, hj⟩ := List.getElem?_of_mem hmem
    have hlt : j < k := by
      by_contra hge
      rw [List.getElem?_take_eq_none (by omega)] at hj
      cases hj
    exact ⟨j, hlt, by rwa [List.getElem?_take_of_lt hlt] at hj⟩
  · rintro ⟨j, hlt, hj⟩
    exact List.mem_of_getElem? (by rwa [List.getElem?_take_of_lt hlt])

/-- An element write inside the sequence; outside it there is no result. -/
def writeAt (xs : List β) (i : Nat) (v : β) : Option (List β) :=
  if i < xs.length then some (xs.set i v) else none

theorem writeAt_eq_some {xs ys : List β} {i : Nat} {v : β} :
    writeAt xs i v = some ys ↔ i < xs.length ∧ xs.set i v = ys := by
  unfold writeAt
  split <;> simp [*]

/-- Writing the first element that is still blank extends what is written. -/
theorem writeAt_blank (done : List β) (blank v : β) (n : Nat) :
    writeAt (done ++ List.replicate (n + 1) blank) done.length v =
      some ((done ++ [v]) ++ List.replicate n blank) := by
  rw [writeAt_eq_some]
  refine ⟨by simp, ?_⟩
  rw [List.set_append_right _ _ (Nat.le_refl _)]
  simp [List.replicate_succ]

/-- for (i = 0; i < source.size(); ++i) target[i] = source[i] -/
def copyInto (source target : List β) : Option (List β) :=
  forUpTo source.length (fun i target => do
    let x ← source[i]?
    writeAt target i x) target

theorem copyInto_eq {source target : List β} (h : target.length = source.length) :
    copyInto source target = some source := by
  have run := forUpTo_some (fun i target => do
    let x ← source[i]?
    writeAt target i x) (fun i => source.take i ++ target.drop i) source.length (by
      intro i hi
      have hlen : (source.take i).length = i := List.length_take_of_le (Nat.le_of_lt hi)
      simp only [List.getElem?_eq_getElem hi, Option.bind_eq_bind, Option.bind_some, writeAt_eq_some]
      refine ⟨by simp; omega, ?_⟩
      rw [List.set_append_right _ _ (by omega), hlen, Nat.sub_self,
        List.drop_eq_getElem_cons (h ▸ hi), List.set_cons_zero, List.take_succ_eq_append_getElem hi,
        List.append_assoc]
      rfl)
  rw [List.take_length, ← h, List.drop_length, List.append_nil, h] at run
  simpa [copyInto] using run

section Blocks
variable {γ : Type} {f : γ → List β} {width : Nat} {xs : List γ}

theorem length_flatMap_width (h : ∀ x ∈ xs, (f x).length = width) :
    (xs.flatMap f).length = width * xs.length := by
  induction xs with
  | nil => simp
  | cons x xs ih =>
    have hx : (f x).length = width := h x (by simp)
    have hxs := ih fun y hy => h y (by simp [hy])
    rw [List.flatMap_cons, List.length_append, hx, hxs, List.length_cons, Nat.mul_succ, Nat.add_comm]

/-- Where an element of a block stands in the whole. -/
theorem getElem?_flatMap_width (h : ∀ x ∈ xs, (f x).length = width) {j i : Nat} {x : γ}
    (hj : xs[j]? = some x) (hi : i < width) : (xs.flatMap f)[j * width + i]? = (f x)[i]? := by
  induction xs generalizing j with
  | nil => simp at hj
  | cons y ys ih =>
    have hy : (f y).length = width := h y (by simp)
    rw [List.flatMap_cons]
    cases j with
    | zero =>
      obtain rfl : y = x := by simpa using hj
      rw [Nat.zero_mul, Nat.zero_add, List.getElem?_append_left (by omega)]
    | succ j =>
      have hpos : (j + 1) * width + i = (f y).length + (j * width + i) := by
        rw [hy, Nat.succ_mul]
        omega
      rw [hpos, List.getElem?_append_right (by omega), Nat.add_sub_cancel_left]
      exact ih (fun z hz => h z (by simp [hz])) (by simpa using hj)

/-- Cutting the whole into pieces of the width gives the blocks back. -/
theorem splitLengths_flatMap_width (h : ∀ x ∈ xs, (f x).length = width) :
    (List.replicate xs.length width).splitLengths (xs.flatMap f) = xs.map f := by
  induction xs with
  | nil => rfl
  | cons x xs ih =>
    have hx : (f x).length = width := h x (by simp)
    rw [List.length_cons, List.replicate_succ, List.splitLengths_cons, List.flatMap_cons, ← hx,
      List.take_left, List.drop_left, hx, ih fun y hy => h y (by simp [hy]), List.map_cons]

/-- Every position lies in exactly one block, at exactly one place. -/
theorem existsUnique_position {n p : Nat} (h : p < width * n) :
    ∃! at' : Nat × Nat, at'.1 < n ∧ at'.2 < width ∧ p = at'.1 * width + at'.2 := by
  have hwidth : 0 < width := Nat.pos_of_mul_pos_right (Nat.lt_of_le_of_lt (Nat.zero_le p) h)
  refine ⟨(p / width, p % width), ⟨Nat.div_lt_of_lt_mul h, Nat.mod_lt p hwidth, ?_⟩, ?_⟩
  · exact (Nat.div_add_mod' p width).symm
  · rintro ⟨j, i⟩ ⟨-, hi, rfl⟩
    have hi : i < width := hi
    ext
    · dsimp only
      rw [Nat.mul_comm, Nat.mul_add_div hwidth, Nat.div_eq_of_lt hi, Nat.add_zero]
    · dsimp only
      rw [Nat.mul_comm, Nat.mul_add_mod, Nat.mod_eq_of_lt hi]

end Blocks
end DgMiddleware.Library
