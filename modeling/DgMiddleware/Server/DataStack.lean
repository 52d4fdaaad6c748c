import DgMiddleware.Library.Container
import DgMiddleware.Library.Ring
import Mathlib.Data.Rat.Init
import Mathlib.Algebra.Field.Rat

/-! The sample buffer kept beside every input signal: a vector of time-stamped
samples, the index of the next slot to write, and whether that index has wrapped. -/
namespace DgMiddleware.Server
open Library

/-- What the server asks of double-precision numbers; no law is assumed. -/
class Double (α : Type) extends Zero α, IntCast α, Mul α, OfScientific α

instance : Double ℚ where

structure TsData (α : Type) where
  ts : α
  data : List α
  deriving DecidableEq, Repr

/-- Sizes come from an unsigned int, so the conversions of `size()` to 32 bits keep
them; only the index is counted modulo 2^32. -/
structure DataStack (α : Type) where
  stackOfTsData : List (TsData α)
  index : Nat
  turnaround : Bool
  deriving DecidableEq, Repr

variable {α : Type} [Double α]

/-- A slot that `resize` adds. -/
def TsData.default : TsData α := ⟨0, []⟩

def timeStamp (time : Int) : α := (time : α) * 0.005

namespace DataStack

def empty : DataStack α := ⟨[], 0, false⟩

def inc (aDS : DataStack α) : DataStack α :=
  let index := (aDS.index + 1) % 2 ^ 32
  if index = aDS.stackOfTsData.length then { aDS with index := 0, turnaround := true }
  else { aDS with index := index }

def resizeTo (aDS : DataStack α) (n : Nat) : DataStack α :=
  { aDS with stackOfTsData := resize n .default aDS.stackOfTsData }

/-- How many slots a reader walks over. -/
def lsizeOfSTD (aDS : DataStack α) : Nat :=
  if !aDS.turnaround then aDS.index else aDS.stackOfTsData.length

/-- Overwrite the slot at the index with a sample, then advance. -/
def record (aDS : DataStack α) (time : Int) (data : List α) : Option (DataStack α) := do
  let aTsData ← aDS.stackOfTsData[aDS.index]?
  let target :=
    if aTsData.data.length ≠ data.length then resize data.length 0 aTsData.data else aTsData.data
  let copied ← copyInto data target
  let stack ← writeAt aDS.stackOfTsData aDS.index ⟨timeStamp time, copied⟩
  return { aDS with stackOfTsData := stack }.inc

/-- The slot that is written next, and all slots that are read, lie in the stack. -/
def SlotsInside (aDS : DataStack α) : Prop :=
  (aDS.stackOfTsData.length ≠ 0 → aDS.index < aDS.stackOfTsData.length) ∧
    (aDS.turnaround = false → aDS.index ≤ aDS.stackOfTsData.length)

omit [Double α] in
theorem slotsInside_iff (aDS : DataStack α) : aDS.SlotsInside ↔
    (aDS.stackOfTsData.length ≠ 0 → aDS.index < aDS.stackOfTsData.length) ∧
      ∀ j < aDS.lsizeOfSTD, j < aDS.stackOfTsData.length := by
  unfold SlotsInside lsizeOfSTD
  cases aDS.turnaround
  · refine and_congr_right fun _ => ⟨fun h j hj => by have := h rfl; simp at hj; omega, fun h _ => ?_⟩
    by_contra hlt
    exact absurd (h (aDS.index - 1) (by simp; omega)) (by omega)
  · simp

omit [Double α] in
@[simp] theorem stack_inc (aDS : DataStack α) : aDS.inc.stackOfTsData = aDS.stackOfTsData := by
  simp only [inc]
  split <;> rfl

omit [Double α] in
theorem inc_wrap {aDS : DataStack α} (hb : aDS.stackOfTsData.length < 2 ^ 32)
    (h : aDS.index + 1 = aDS.stackOfTsData.length) :
    aDS.inc = { aDS with index := 0, turnaround := true } := by
  simp only [inc, h, Nat.mod_eq_of_lt hb, if_true]

omit [Double α] in
theorem inc_advance {aDS : DataStack α} (hb : aDS.stackOfTsData.length < 2 ^ 32)
    (h : aDS.index + 1 < aDS.stackOfTsData.length) :
    aDS.inc = { aDS with index := aDS.index + 1 } := by
  simp only [inc, Nat.mod_eq_of_lt (h.trans hb), if_neg (Nat.ne_of_lt h)]

@[simp] theorem length_resizeTo (aDS : DataStack α) (n : Nat) :
    (aDS.resizeTo n).stackOfTsData.length = n := length_resize _ _ _

/-- Inside the stack, recording sets one slot to the sample and advances. -/
theorem record_eq {aDS : DataStack α} (h : aDS.index < aDS.stackOfTsData.length) (time : Int)
    (data : List α) : aDS.record time data =
      some { aDS with stackOfTsData := aDS.stackOfTsData.set aDS.index ⟨timeStamp time, data⟩ }.inc := by
  simp only [record, List.getElem?_eq_getElem h, Option.bind_eq_bind, Option.bind_some]
  rw [copyInto_eq (by split <;> simp_all)]
  simp [writeAt, h]

theorem record_none {aDS : DataStack α} (h : aDS.stackOfTsData.length ≤ aDS.index) (time : Int)
    (data : List α) : aDS.record time data = none := by
  simp [record, List.getElem?_eq_none h]

/-- Recording keeps the size, and the index inside it. -/
theorem record_spec {aDS aDS' : DataStack α} {time : Int} {data : List α}
    (h : aDS.record time data = some aDS') :
    aDS.index < aDS.stackOfTsData.length ∧
      aDS'.stackOfTsData = aDS.stackOfTsData.set aDS.index ⟨timeStamp time, data⟩ := by
  rcases Nat.lt_or_ge aDS.index aDS.stackOfTsData.length with hi | hi
  · rw [record_eq hi] at h
    obtain rfl := Option.some.inj h
    exact ⟨hi, stack_inc _⟩
  · rw [record_none hi] at h
    cases h

section Inside

omit [Double α] in
theorem inc_slotsInside {aDS : DataStack α} (h : aDS.index < aDS.stackOfTsData.length) :
    aDS.inc.SlotsInside := by
  have hmod := Nat.mod_le (aDS.index + 1) (2 ^ 32)
  simp only [DataStack.inc, SlotsInside]
  split
  · exact ⟨fun _ => by dsimp; omega, fun ht => by cases ht⟩
  · exact ⟨fun _ => by dsimp; omega, fun _ => by dsimp; omega⟩

/-- Recording leaves a stack inside itself. -/
theorem record_slotsInside {aDS aDS' : DataStack α} {time : Int} {data : List α}
    (h : aDS.record time data = some aDS') : aDS'.SlotsInside := by
  have hi := (record_spec h).1
  rw [record_eq hi] at h
  obtain rfl := Option.some.inj h
  exact inc_slotsInside (by simpa using hi)

/-- A resize does so exactly when the new size stays above the index, or when it is
zero and nothing is left to be read below the index. -/
theorem slotsInside_resizeTo (aDS : DataStack α) (n : Nat) : (aDS.resizeTo n).SlotsInside ↔
    aDS.index < n ∨ (n = 0 ∧ (aDS.turnaround = true ∨ aDS.index = 0)) := by
  simp only [SlotsInside, length_resizeTo]
  cases ht : aDS.turnaround <;> simp [resizeTo, ht] <;> omega

end Inside

section Refinement
variable {N : Nat}

/-- The stack holds exactly what a ring of its size holds. -/
structure Represents (aDS : DataStack α) (r : Ring (TsData α) N) : Prop where
  slots : aDS.stackOfTsData = List.ofFn r.slot
  index : aDS.index = r.index
  turnaround : aDS.turnaround = r.turnaround

omit [Double α] in
theorem Represents.length {aDS : DataStack α} {r : Ring (TsData α) N} (h : aDS.Represents r) :
    aDS.stackOfTsData.length = N := by
  rw [h.slots, List.length_ofFn]

theorem represents_fresh [NeZero N] : (empty.resizeTo N : DataStack α).Represents
    (Ring.fresh .default : Ring (TsData α) N) where
  slots := by simp [resizeTo, empty, Ring.fresh, List.ofFn_const]
  index := by simp [resizeTo, empty, Ring.fresh]
  turnaround := rfl

/-- Recording a sample is one push on the ring. -/
theorem Represents.record {aDS : DataStack α} {r : Ring (TsData α) N} (h : aDS.Represents r)
    (hN : N < 2 ^ 32) (time : Int) (data : List α) :
    ∃ aDS', aDS.record time data = some aDS' ∧ aDS'.Represents (r.push ⟨timeStamp time, data⟩) := by
  have hlt : aDS.index < aDS.stackOfTsData.length := by
    rw [h.length, h.index]
    exact r.index.isLt
  have hslots : aDS.stackOfTsData.set aDS.index ⟨timeStamp time, data⟩ =
      List.ofFn (r.push ⟨timeStamp time, data⟩).slot := by
    rw [h.slots, h.index, Ring.push, Ring.ofFn_update]
  have hlen : (aDS.stackOfTsData.set aDS.index ⟨timeStamp time, data⟩).length = N := by
    rw [List.length_set, h.length]
  refine ⟨_, record_eq hlt time data, ?_⟩
  have hnext : r.index.val + 1 ≤ N := r.index.isLt
  rcases Nat.lt_or_eq_of_le hnext with hlt' | hwrap
  · rw [inc_advance (hlen ▸ hN) (by rw [hlen, h.index]; exact hlt')]
    refine ⟨hslots, ?_, ?_⟩
    · simp [Ring.push, Ring.next, h.index, Nat.mod_eq_of_lt hlt']
    · simp [Ring.push, h.turnaround, Nat.ne_of_lt hlt']
  · rw [inc_wrap (hlen ▸ hN) (by rw [hlen, h.index]; exact hwrap)]
    have hmod : (r.index.val + 1) % N = 0 := by rw [hwrap, Nat.mod_self]
    refine ⟨hslots, ?_, ?_⟩
    · simp [Ring.push, Ring.next, hmod]
    · simp [Ring.push, hwrap]

end Refinement
end DataStack
end DgMiddleware.Server
