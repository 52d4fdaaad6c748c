import Mathlib.Data.List.Basic
import Mathlib.Tactic.Common

/-! Texts of lines that a separator ends, and the lines that are read back from a text. -/
namespace DgMiddleware.Library
variable {α : Type} [DecidableEq α] {sep : α}

omit [DecidableEq α] in
/-- The lines one after another, each of them ended. -/
def joinLines (sep : α) (lines : List (List α)) : List α := lines.flatMap (· ++ [sep])

/-- A character before a text belongs to its first line, unless it ends a line itself. -/
def consLine (sep : α) (c : α) (lines : List (List α)) : List (List α) :=
  if c = sep then [] :: lines
  else match lines with
    | [] => [[c]]
    | line :: rest => (c :: line) :: rest

def linesOf (sep : α) (text : List α) : List (List α) := text.foldr (consLine sep) []

@[simp] theorem linesOf_cons (c : α) (text : List α) :
    linesOf sep (c :: text) = consLine sep c (linesOf sep text) := rfl

theorem linesOf_line {line : List α} (h : sep ∉ line) (text : List α) :
    linesOf sep (line ++ sep :: text) = line :: linesOf sep text := by
  induction line with
  | nil => simp [consLine]
  | cons c line ih =>
    obtain ⟨hc, hline⟩ := List.ne_and_not_mem_of_not_mem_cons h
    rw [List.cons_append, linesOf_cons, ih hline, consLine, if_neg (Ne.symm hc)]

/-- As many lines are read as there are separators. -/
theorem length_linesOf (line text : List α) :
    (linesOf sep (line ++ sep :: text)).length = line.count sep + 1 + (linesOf sep text).length := by
  induction line with
  | nil => simp [consLine, Nat.add_comm]
  | cons c line ih =>
    rw [List.cons_append, linesOf_cons, List.count_cons]
    by_cases hc : c = sep
    · simp only [consLine, hc, if_true, List.length_cons, ih, beq_self_eq_true]
      omega
    · cases hlines : linesOf sep (line ++ sep :: text) with
      | nil =>
        rw [hlines, List.length_nil] at ih
        omega
      | cons first rest =>
        rw [hlines] at ih
        simpa [consLine, hc] using ih

private theorem length_joinLines_cons (line : List α) (lines : List (List α)) :
    (linesOf sep (joinLines sep (line :: lines))).length =
      line.count sep + 1 + (linesOf sep (joinLines sep lines)).length := by
  rw [joinLines, List.flatMap_cons, List.append_assoc, List.singleton_append, length_linesOf]
  rfl

theorem length_le_linesOf_joinLines (lines : List (List α)) :
    lines.length ≤ (linesOf sep (joinLines sep lines)).length := by
  induction lines with
  | nil => exact Nat.zero_le _
  | cons line lines ih =>
    rw [length_joinLines_cons, List.length_cons]
    omega

/-- Lines without a separator in them are read back as they are. -/
theorem linesOf_joinLines {lines : List (List α)} (h : ∀ line ∈ lines, sep ∉ line) :
    linesOf sep (joinLines sep lines) = lines := by
  induction lines with
  | nil => rfl
  | cons line lines ih =>
    obtain ⟨hline, hlines⟩ := List.forall_mem_cons.mp h
    rw [joinLines, List.flatMap_cons, List.append_assoc, List.singleton_append, linesOf_line hline]
    exact congrArg _ (ih hlines)

/-- With a separator in any of them, more lines are read than there are. -/
theorem length_linesOf_joinLines_iff {lines : List (List α)} :
    (linesOf sep (joinLines sep lines)).length = lines.length ↔ ∀ line ∈ lines, sep ∉ line := by
  induction lines with
  | nil => exact iff_of_true rfl (by simp)
  | cons line lines ih =>
    have hle : lines.length ≤ (linesOf sep (joinLines sep lines)).length := length_le_linesOf_joinLines lines
    rw [List.forall_mem_cons, ← ih, ← List.count_eq_zero, length_joinLines_cons, List.length_cons]
    omega

end DgMiddleware.Library
