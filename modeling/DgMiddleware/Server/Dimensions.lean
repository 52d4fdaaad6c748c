import DgMiddleware.Server.Provenance
import Mathlib.Algebra.Order.BigOperators.Group.List

/-! Samples of several dimensions in one buffer. A slot takes the dimension its sample
was recorded with, a reader cuts every slot at the dimension of the current vector. -/
namespace DgMiddleware.Server
open Library
variable {α : Type}

/-- The samples that a ring of `N` slots still holds of those recorded. -/
def inRing (N : Nat) (recorded : List (TsData α)) : List (TsData α) := recorded.drop (recorded.length - N)

variable [Double α] {localName : String → String} {s t : ServerCommand α} {e : Event α} {r N : Nat}
  {aDS : DataStack α} {o : Origins α}

/-- A buffer before it is given its size, and the ring of everything recorded from then on. -/
def Sized (N : Nat) (o : Origins α) (aDS : DataStack α) : Prop :=
  (aDS = .empty ∧ o.recorded = []) ∨
    ∃ _ : NeZero N, N < 2 ^ 32 ∧ aDS.Represents (Ring.log .default o.recorded : Ring (TsData α) N)

private theorem sized_resized (h : Sized N o aDS) (hN : N < 2 ^ 32) :
    Sized N { o with slots := resize N none o.slots } (aDS.resizeTo N) := by
  rcases h with ⟨rfl, hempty⟩ | ⟨hne, -, hrep⟩
  · rcases Nat.eq_zero_or_pos N with rfl | hpos
    · exact .inl ⟨rfl, hempty⟩
    · have : NeZero N := ⟨by omega⟩
      exact .inr ⟨this, hN, by rw [hempty]; exact DataStack.represents_fresh⟩
  · exact .inr ⟨hne, hN, by rw [resize_represented hrep]; exact hrep⟩

private theorem sized_recorded {slots : List (Option Nat)} {aDS' : DataStack α} {time : Int} {data : List α}
    (h : Sized N o aDS) (hrec : aDS.record time data = some aDS') :
    Sized N ⟨slots, o.recorded ++ [⟨timeStamp time, data⟩]⟩ aDS' := by
  rcases h with ⟨rfl, -⟩ | ⟨hne, hN, hrep⟩
  · exact absurd (DataStack.record_spec hrec).1 (Nat.not_lt_zero _)
  · obtain ⟨aDS'', hrec', hrep'⟩ := hrep.record hN time data
    obtain rfl := Option.some.inj (hrec.symm.trans hrec')
    exact .inr ⟨hne, hN, by rw [Ring.log_snoc]; exact hrep'⟩

private theorem sized_step (hs : Traced r o s)
    (h : ∀ aDS, s.vectorSINStored[r]? = some aDS → Sized N o aDS)
    (hfixed : ∀ size ∈ resizing r s e, size = N) (hstep : Steps localName s e t) :
    ∀ aDS, t.vectorSINStored[r]? = some aDS → Sized N (o.step r s e) aDS := by
  intro aDS' hafter
  cases hget : s.vectorSINStored[r]? with
  | none =>
    obtain ⟨ht | ht, ho⟩ := buffer_step_none hstep hget o
    · rw [ht] at hafter
      cases hafter
    · obtain rfl := Option.some.inj (ht.symm.trans hafter)
      rw [ho, hs.missing hget]
      exact .inl ⟨rfl, rfl⟩
  | some aDS =>
    have hold := h aDS hget
    rcases buffer_step hstep hget o with ⟨size, hbound, hsize, ht, ho⟩ |
      ⟨time, data, aDS'', -, -, -, hrec, ht, ho⟩ | ⟨-, -, ht, ho⟩
    · obtain rfl := hfixed size hsize
      obtain rfl := Option.some.inj (ht.symm.trans hafter)
      rw [ho]
      exact sized_resized hold hbound
    · obtain rfl := Option.some.inj (ht.symm.trans hafter)
      rw [ho]
      exact sized_recorded hold hrec
    · obtain rfl := Option.some.inj (ht.symm.trans hafter)
      rwa [ho]

/-- With one size for all its `buffer` commands, an input is kept in a ring of that size. -/
theorem sized_run {server : String} {trace : List (ServerCommand α × Event α)}
    (h : Run (Steps localName) (ServerCommand.construct localName server) trace s)
    (hfixed : ∀ x ∈ trace, ∀ size ∈ resizing r x.1 x.2, size = N) :
    ∀ aDS, s.vectorSINStored[r]? = some aDS → Sized N (origins r trace) aDS := by
  induction h with
  | start => simp [ServerCommand.construct]
  | @next trace s t e hrun hstep ih =>
    rw [origins_snoc]
    exact sized_step (.run r hrun) (ih fun x hx => hfixed x (List.mem_append_left _ hx))
      (hfixed (s, e) (by simp)) hstep

omit [Double α] in
theorem length_inRing (recorded : List (TsData α)) : (inRing N recorded).length = min recorded.length N := by
  rw [inRing, List.length_drop]
  omega

/-- What is walked over are the samples still in the ring, in some order. -/
theorem sized_walked (h : Sized N o aDS) :
    aDS.lsizeOfSTD = (inRing N o.recorded).length ∧
      (aDS.stackOfTsData.take aDS.lsizeOfSTD).Perm (inRing N o.recorded) := by
  rw [length_inRing]
  rcases h with ⟨rfl, hempty⟩ | ⟨hne, -, hrep⟩
  · simp [hempty, inRing, DataStack.lsizeOfSTD, DataStack.empty]
  · have hperm := Ring.log_perm (N := N) TsData.default o.recorded
    rw [List.take_eq_take_min, List.length_ofFn, ← hrep.slots] at hperm
    rw [log_lsizeOfSTD hrep]
    exact ⟨rfl, hperm⟩

section Survival

/-- A reader is answered with the current vector while there is no sample, and else with
every sample still in the ring, whole, in a reply of the length announced. -/
def SamplesSurvive (r N : Nat) (o : Origins α) (s : ServerCommand α) : Prop :=
  ∀ data aDS, s.copyAt r = some data → s.vectorSINStored[r]? = some aDS →
    (aDS.stackOfTsData.take aDS.lsizeOfSTD).Perm (inRing N o.recorded) ∧
    readInputVectorSignal r s = .ret (some (if inRing N o.recorded = [] then data
      else (aDS.stackOfTsData.take aDS.lsizeOfSTD).flatMap fun sample => sample.ts :: sample.data)) s ∧
    replyLength data.length aDS.lsizeOfSTD = doublesWritten data.length aDS.lsizeOfSTD

/-- The samples in the ring all have the dimension of the current vector, and the
reply they make is shorter than 2^32. -/
def DimensionsAgree (r N : Nat) (o : Origins α) (s : ServerCommand α) : Prop :=
  ∀ data, s.copyAt r = some data → s.vectorSINStored[r]? ≠ none →
    (∀ sample ∈ inRing N o.recorded, sample.data.length = data.length) ∧
      (data.length + 1) * (inRing N o.recorded).length < 2 ^ 32

instance (r N : Nat) (o : Origins α) (s : ServerCommand α) : Decidable (DimensionsAgree r N o s) :=
  decidable_of_iff (∀ data ∈ s.copyAt r, s.vectorSINStored[r]?.isSome = true →
    (∀ sample ∈ inRing N o.recorded, sample.data.length = data.length) ∧
      (data.length + 1) * (inRing N o.recorded).length < 2 ^ 32) (by
    simp only [DimensionsAgree, Option.mem_def, Option.isSome_iff_ne_none])

omit [Double α] in
/-- Cutting every slot at `d` loses nothing only if none stores more. -/
private theorem dimension_of_length {d : Nat} {slots : List (TsData α)} (hroom : ∀ x ∈ slots, d ≤ x.data.length)
    (h : (slots.flatMap fun x => x.ts :: x.data).length ≤ (slots.flatMap (block d)).length) :
    ∀ x ∈ slots, x.data.length = d := by
  induction slots with
  | nil => simp
  | cons x slots ih =>
    have hx := hroom x (by simp)
    have hrest := fun y hy => hroom y (List.mem_cons_of_mem x hy)
    have hcut : (slots.flatMap (block d)).length ≤ (slots.flatMap fun x => x.ts :: x.data).length := by
      rw [List.length_flatMap, List.length_flatMap]
      exact List.sum_le_sum fun y _ => by simp [block]
    simp only [List.flatMap_cons, List.length_append, block, List.length_cons, List.length_take] at h
    rintro y (_ | ⟨_, hy⟩)
    · omega
    · exact ih hrest (by omega) y hy

/-- The same for one readable vector and one buffer of the size. -/
private theorem survive_iff {data : List α} (hcopy : s.copyAt r = some data)
    (hget : s.vectorSINStored[r]? = some aDS) (hsized : Sized N o aDS) :
    ((aDS.stackOfTsData.take aDS.lsizeOfSTD).Perm (inRing N o.recorded) ∧
      readInputVectorSignal r s = .ret (some (if inRing N o.recorded = [] then data
        else (aDS.stackOfTsData.take aDS.lsizeOfSTD).flatMap fun sample => sample.ts :: sample.data)) s ∧
      replyLength data.length aDS.lsizeOfSTD = doublesWritten data.length aDS.lsizeOfSTD) ↔
    (∀ sample ∈ inRing N o.recorded, sample.data.length = data.length) ∧
      (data.length + 1) * (inRing N o.recorded).length < 2 ^ 32 := by
  have hread := readInput_copy hcopy hget
  obtain ⟨hk, hperm⟩ := sized_walked hsized
  by_cases hempty : inRing N o.recorded = []
  · have hzero : aDS.lsizeOfSTD = 0 := by rw [hk, hempty, List.length_nil]
    rw [reading, if_pos hzero] at hread
    refine iff_of_true ⟨hperm, ?_, ?_⟩ (by simp [hempty])
    · rw [hread, if_pos hempty]
    · rw [hzero, doublesWritten_eq, replyLength_eq (by simp)]
  · have hne : aDS.lsizeOfSTD ≠ 0 := by simpa [hk] using hempty
    rw [reading, if_neg hne] at hread
    rw [if_neg hempty]
    constructor
    · rintro ⟨-, hvalue, -⟩
      rw [hread] at hvalue
      cases hblocks : readBlocks data.length aDS.lsizeOfSTD aDS.stackOfTsData with
      | none => simp [hblocks] at hvalue
      | some blocks =>
        obtain ⟨hslots, hfit⟩ := readBlocks_inside hblocks
        rw [readBlocks_eq hslots hfit] at hvalue
        have hroom : ∀ sample ∈ aDS.stackOfTsData.take aDS.lsizeOfSTD, data.length ≤ sample.data.length := by
          intro sample hmem
          obtain ⟨j, hj, hsample⟩ := mem_take_iff.mp hmem
          obtain ⟨slot, hslot, hsize⟩ := hslots j hj
          rwa [← Option.some.inj (hslot.symm.trans hsample)]
        have hsame : (aDS.stackOfTsData.take aDS.lsizeOfSTD).flatMap (block data.length) =
            (aDS.stackOfTsData.take aDS.lsizeOfSTD).flatMap fun sample => sample.ts :: sample.data := by
          simpa using hvalue
        have hdim := dimension_of_length hroom (by rw [hsame])
        exact ⟨fun sample hmem => hdim sample (hperm.mem_iff.mpr hmem), by rwa [← hk]⟩
    · rintro ⟨hdim, hfit⟩
      have hdim' : ∀ sample ∈ aDS.stackOfTsData.take aDS.lsizeOfSTD, sample.data.length = data.length :=
        fun sample hmem => hdim sample (hperm.mem_iff.mp hmem)
      have hslots : ∀ j < aDS.lsizeOfSTD, ∃ slot, aDS.stackOfTsData[j]? = some slot ∧
          data.length ≤ slot.data.length := by
        intro j hj
        have hlen := hperm.length_eq
        rw [List.length_take, ← hk] at hlen
        have hget := List.getElem?_eq_getElem (l := aDS.stackOfTsData) (i := j) (by omega)
        exact ⟨_, hget, (hdim' _ (mem_take_iff.mpr ⟨j, hj, hget⟩)).ge⟩
      rw [← hk] at hfit
      have hsame : (aDS.stackOfTsData.take aDS.lsizeOfSTD).flatMap (block data.length) =
          (aDS.stackOfTsData.take aDS.lsizeOfSTD).flatMap fun sample => sample.ts :: sample.data := by
        apply List.flatMap_congr
        intro sample hmem
        rw [block, ← hdim' sample hmem, List.take_length]
      rw [readBlocks_eq hslots hfit, hsame] at hread
      exact ⟨hperm, hread, by rw [replyLength_eq hfit, doublesWritten_eq]⟩

/-- With one buffer size, a reader gets every sample still in the ring exactly when
these samples have the dimension of the current vector and their reply fits. -/
theorem samplesSurvive_iff {server : String} {trace : List (ServerCommand α × Event α)}
    (h : Run (Steps localName) (ServerCommand.construct localName server) trace s)
    (hfixed : ∀ x ∈ trace, ∀ size ∈ resizing r x.1 x.2, size = N) :
    SamplesSurvive r N (origins r trace) s ↔ DimensionsAgree r N (origins r trace) s := by
  have hsized := sized_run h hfixed
  constructor
  · intro hsurvive data hcopy hstored
    obtain ⟨aDS, hget⟩ := Option.ne_none_iff_exists'.mp hstored
    exact (survive_iff hcopy hget (hsized aDS hget)).mp (hsurvive data aDS hcopy hget)
  · intro hagree data aDS hcopy hget
    exact (survive_iff hcopy hget (hsized aDS hget)).mpr (hagree data hcopy (by simp [hget]))

/-- One input with two slots, sampled once and then replugged. -/
def replugged (sampled current : List ℚ) : List (Nat × Op ℚ) :=
  [(0, .createInputVectorSignal "comstate"), (0, .plug "comstate" (some sampled)),
    (0, .buffer "comstate 2" 0), (0, .synchro none 1), (0, .plug "comstate" (some current))]

theorem samplesSurvive_same : SamplesSurvive 0 2
    (origins 0 (execute shortName (ServerCommand.construct shortName "coshell") (replugged [7] [8])).1)
    (execute shortName (ServerCommand.construct shortName "coshell") (replugged [7] [8])).2 := by
  have hrun := run_execute shortName (ServerCommand.construct shortName "coshell") (replugged [7] [8])
  have hfacts : (∀ x ∈ (execute shortName (ServerCommand.construct shortName "coshell") (replugged [7] [8])).1,
        ∀ size ∈ resizing 0 x.1 x.2, size = 2) ∧
      DimensionsAgree 0 2
        (origins 0 (execute shortName (ServerCommand.construct shortName "coshell") (replugged [7] [8])).1)
        (execute shortName (ServerCommand.construct shortName "coshell") (replugged [7] [8])).2 := by decide +kernel
  exact (samplesSurvive_iff hrun hfacts.1).mpr hfacts.2

private theorem not_survive {data : List α} (hcopy : s.copyAt r = some data)
    (hget : s.vectorSINStored[r]? = some aDS) (hring : inRing N o.recorded ≠ [])
    (h : reading data aDS ≠
      some ((aDS.stackOfTsData.take aDS.lsizeOfSTD).flatMap fun sample => sample.ts :: sample.data)) :
    ¬SamplesSurvive r N o s := by
  intro hsurvive
  obtain ⟨-, hvalue, -⟩ := hsurvive data aDS hcopy hget
  rw [readInput_copy hcopy hget, if_neg hring] at hvalue
  cases hread : reading data aDS with
  | none => simp [hread] at hvalue
  | some value => exact h (by simpa [hread] using hvalue)

/-- A reader of a grown input leaves the slot, one of a shrunk input loses components. -/
theorem samples_lost :
    (∃ (trace : List (ServerCommand ℚ × Event ℚ)) (s : ServerCommand ℚ),
      Run (Steps shortName) (ServerCommand.construct shortName "coshell") trace s ∧
        (∀ x ∈ trace, ∀ size ∈ resizing 0 x.1 x.2, size = 2) ∧
        inRing 2 (origins 0 trace).recorded = [⟨timeStamp 1, [7]⟩] ∧ s.copyAt 0 = some [8, 9] ∧
        ¬SamplesSurvive 0 2 (origins 0 trace) s ∧ readInputVectorSignal 0 s = .undefined) ∧
    ∃ (trace : List (ServerCommand ℚ × Event ℚ)) (s : ServerCommand ℚ),
      Run (Steps shortName) (ServerCommand.construct shortName "coshell") trace s ∧
        (∀ x ∈ trace, ∀ size ∈ resizing 0 x.1 x.2, size = 2) ∧
        inRing 2 (origins 0 trace).recorded = [⟨timeStamp 1, [7, 6]⟩] ∧ s.copyAt 0 = some [8] ∧
        ¬SamplesSurvive 0 2 (origins 0 trace) s ∧
        readInputVectorSignal 0 s = .ret (some [timeStamp 1, 7]) s := by
  constructor
  · have hrun := run_execute shortName (ServerCommand.construct shortName "coshell") (replugged [7] [8, 9])
    generalize hresult : execute shortName (ServerCommand.construct shortName "coshell") (replugged [7] [8, 9]) =
      result at hrun
    obtain ⟨hsizes, hring, hcopy, hget⟩ : (∀ x ∈ result.1, ∀ size ∈ resizing 0 x.1 x.2, size = 2) ∧
        inRing 2 (origins 0 result.1).recorded = [⟨timeStamp 1, [7]⟩] ∧ result.2.copyAt 0 = some [8, 9] ∧
        result.2.vectorSINStored[0]? = some ⟨[⟨timeStamp 1, [7]⟩, .default], 1, false⟩ := by
      rw [← hresult]
      decide +kernel
    have hnone : reading [8, 9] (⟨[⟨timeStamp 1, [7]⟩, .default], 1, false⟩ : DataStack ℚ) = none := by
      decide +kernel
    have hread := readInput_copy hcopy hget
    rw [hnone] at hread
    exact ⟨result.1, result.2, hrun, hsizes, hring, hcopy,
      not_survive hcopy hget (by simp [hring]) (by simp [hnone]), hread⟩
  · have hrun := run_execute shortName (ServerCommand.construct shortName "coshell") (replugged [7, 6] [8])
    generalize hresult : execute shortName (ServerCommand.construct shortName "coshell") (replugged [7, 6] [8]) =
      result at hrun
    obtain ⟨hsizes, hring, hcopy, hget⟩ : (∀ x ∈ result.1, ∀ size ∈ resizing 0 x.1 x.2, size = 2) ∧
        inRing 2 (origins 0 result.1).recorded = [⟨timeStamp 1, [7, 6]⟩] ∧ result.2.copyAt 0 = some [8] ∧
        result.2.vectorSINStored[0]? = some ⟨[⟨timeStamp 1, [7, 6]⟩, .default], 1, false⟩ := by
      rw [← hresult]
      decide +kernel
    have hcut : reading [8] (⟨[⟨timeStamp 1, [7, 6]⟩, .default], 1, false⟩ : DataStack ℚ) =
        some [timeStamp 1, 7] := by decide +kernel
    have hread := readInput_copy hcopy hget
    rw [hcut] at hread
    exact ⟨result.1, result.2, hrun, hsizes, hring, hcopy,
      not_survive hcopy hget (by simp [hring]) (by decide +kernel), hread⟩

end Survival
end DgMiddleware.Server
