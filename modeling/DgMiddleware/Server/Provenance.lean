import DgMiddleware.Server.BatchRead
import DgMiddleware.Server.Replies
import Mathlib.Data.Set.List

/-! Where the samples of a reply come from. Beside the buffer of an input it is kept
which of the samples recorded so far each of its slots holds, and that a slot added by
a resize holds none. -/
namespace DgMiddleware.Server
open Library
variable {α : Type} [Double α]

/-- The samples recorded for an input, oldest first, and for each slot of its buffer
the position among them of the sample it holds. -/
structure Origins (α : Type) where
  slots : List (Option Nat)
  recorded : List (TsData α)
  deriving DecidableEq

/-- The sample that an event records for the input at a rank. -/
def sampling (r : Nat) (s : ServerCommand α) (e : Event α) : Option (Nat × TsData α) :=
  match e.op with
  | .synchro none time =>
    if ∀ i ≤ r, Recordable s i then do
      let aDS ← s.vectorSINStored[r]?
      let data ← s.copyAt r
      if aDS.stackOfTsData = [] then none else some (aDS.index, ⟨timeStamp time, data⟩)
    else none
  | _ => none

/-- The size that an event gives the buffer at a rank. -/
def resizing (r : Nat) (s : ServerCommand α) (e : Event α) : Option Nat :=
  e.bufferCommand.bind fun (name, size) => if s.rank name = r then some size else none

namespace Origins

def start : Origins α := ⟨[], []⟩

def step (r : Nat) (o : Origins α) (s : ServerCommand α) (e : Event α) : Origins α :=
  match resizing r s e, sampling r s e with
  | some size, _ => { o with slots := resize size none o.slots }
  | none, some (index, sample) => ⟨o.slots.set index (some o.recorded.length), o.recorded ++ [sample]⟩
  | none, none => o

end Origins

def origins (r : Nat) (trace : List (ServerCommand α × Event α)) : Origins α :=
  trace.foldl (fun o x => o.step r x.1 x.2) .start

@[simp] theorem origins_snoc (r : Nat) (trace : List (ServerCommand α × Event α)) (s : ServerCommand α)
    (e : Event α) : origins r (trace ++ [(s, e)]) = (origins r trace).step r s e := by
  simp [origins]

section Step
variable {localName : String → String} {s t : ServerCommand α} {e : Event α} {r : Nat}
  {aDS aDS' : DataStack α}

/-- What an event does to the buffer at a rank, and to the origins kept beside it. -/
theorem buffer_step (h : Steps localName s e t) (hget : s.vectorSINStored[r]? = some aDS) (o : Origins α) :
    (∃ size < 2 ^ 32, resizing r s e = some size ∧ t.vectorSINStored[r]? = some (aDS.resizeTo size) ∧
      o.step r s e = { o with slots := resize size none o.slots }) ∨
    (∃ time data aDS', resizing r s e = none ∧ sampling r s e = some (aDS.index, ⟨timeStamp time, data⟩) ∧
      s.copyAt r = some data ∧ aDS.record time data = some aDS' ∧ t.vectorSINStored[r]? = some aDS' ∧
      o.step r s e = ⟨o.slots.set aDS.index (some o.recorded.length),
        o.recorded ++ [⟨timeStamp time, data⟩]⟩) ∨
    (resizing r s e = none ∧ sampling r s e = none ∧ t.vectorSINStored[r]? = some aDS ∧
      o.step r s e = o) := by
  have hafter := h.effect.stack_after hget
  obtain ⟨client, op, result⟩ := e
  cases op with
  | buffer cmdArgs uninitialised =>
    rw [stackAfter] at hafter
    by_cases hr : s.rank (bufferArgs cmdArgs uninitialised).1 = r
    · have hsize : resizing r s ⟨client, .buffer cmdArgs uninitialised, result⟩ =
          some (bufferArgs cmdArgs uninitialised).2 := by simp [resizing, Event.bufferCommand, hr]
      rw [if_pos hr] at hafter
      exact .inl ⟨(bufferArgs cmdArgs uninitialised).2, UInt32.toNat_lt _, hsize, hafter,
        by simp [Origins.step, hsize]⟩
    · have hsize : resizing r s ⟨client, .buffer cmdArgs uninitialised, result⟩ = none := by
        simp [resizing, Event.bufferCommand, hr]
      rw [if_neg hr] at hafter
      exact .inr (.inr ⟨hsize, rfl, hafter, by simp [Origins.step, hsize, sampling]⟩)
  | synchro internalStep time =>
    have hsize : resizing r s ⟨client, .synchro internalStep time, result⟩ = none := rfl
    cases internalStep with
    | some x => exact .inr (.inr ⟨rfl, rfl, hafter, rfl⟩)
    | none =>
      rw [stackAfter] at hafter
      by_cases hreach : ∀ i ≤ r, Recordable s i
      · rw [if_pos hreach] at hafter
        by_cases hempty : aDS.stackOfTsData = []
        · have hrec : sampling r s ⟨client, .synchro none time, result⟩ = none := by
            refine (if_pos hreach).trans ?_
            simp [hget, hempty]
          rw [sampled, if_pos hempty] at hafter
          exact .inr (.inr ⟨hsize, hrec, hafter, by simp [Origins.step, hsize, hrec]⟩)
        · obtain ⟨⟨data, hdata⟩, hindex⟩ := hreach r (Nat.le_refl r) aDS hget hempty
          have hrec : sampling r s ⟨client, .synchro none time, result⟩ =
              some (aDS.index, ⟨timeStamp time, data⟩) := by
            refine (if_pos hreach).trans ?_
            simp [hget, hdata, hempty]
          have hsampled : sampled time s r aDS =
              { aDS with stackOfTsData := aDS.stackOfTsData.set aDS.index ⟨timeStamp time, data⟩ }.inc := by
            simp [sampled, hempty, hdata, DataStack.record_eq hindex]
          rw [hsampled] at hafter
          exact .inr (.inl ⟨time, data, _, hsize, hrec, hdata, DataStack.record_eq hindex time data, hafter,
            by simp [Origins.step, hsize, hrec]⟩)
      · have hrec : sampling r s ⟨client, .synchro none time, result⟩ = none :=
          if_neg hreach
        rw [if_neg hreach] at hafter
        exact .inr (.inr ⟨hsize, hrec, hafter, by simp [Origins.step, hsize, hrec]⟩)
  | _ => exact .inr (.inr ⟨rfl, rfl, hafter, rfl⟩)

/-- An input without a buffer is neither resized nor recorded. -/
theorem buffer_step_none (h : Steps localName s e t) (hget : s.vectorSINStored[r]? = none) (o : Origins α) :
    (t.vectorSINStored[r]? = none ∨ t.vectorSINStored[r]? = some .empty) ∧ o.step r s e = o := by
  constructor
  · rcases h.effect.stack r with ht | ⟨-, ht⟩
    · exact .inl (by rw [ht, hget, Option.map_none])
    · exact .inr ht
  · obtain ⟨client, op, result⟩ := e
    have heffect := h.effect
    cases heffect with
    | @resized cmdArgs uninitialised aDS hstored =>
      have hne : s.rank (bufferArgs cmdArgs uninitialised).1 ≠ r := by
        rintro rfl
        rw [hget] at hstored
        cases hstored
      simp [Origins.step, resizing, Event.bufferCommand, hne, sampling]
    | sampledAll | sampledSome => simp [Origins.step, resizing, Event.bufferCommand, sampling, hget]
    | _ => rfl

end Step

section Traced
variable {localName : String → String} {s t : ServerCommand α} {e : Event α} {r : Nat} {aDS : DataStack α}

/-- Every slot with an origin holds the sample recorded there, and no two slots share one. -/
structure Holds (o : Origins α) (aDS : DataStack α) : Prop where
  length : aDS.stackOfTsData.length = o.slots.length
  bound : aDS.stackOfTsData.length < 2 ^ 32
  sample : ∀ (j k : Nat), o.slots[j]? = some (some k) →
    k < o.recorded.length ∧ aDS.stackOfTsData[j]? = o.recorded[k]?
  distinct : ∀ (i j k : Nat), o.slots[i]? = some (some k) → o.slots[j]? = some (some k) → i = j

/-- The origins kept along a run describe the buffer at a rank. -/
structure Traced (r : Nat) (o : Origins α) (s : ServerCommand α) : Prop where
  missing : s.vectorSINStored[r]? = none → o = .start
  holds : ∀ aDS, s.vectorSINStored[r]? = some aDS → Holds o aDS

omit [Double α] in
theorem holds_start : Holds .start (.empty : DataStack α) := by
  refine ⟨rfl, by simp [DataStack.empty], fun j k h => ?_, fun i j k h _ => ?_⟩
  · simp [Origins.start] at h
  · simp [Origins.start] at h

omit [Double α] in
private theorem slot_resize {o : Origins α} {size j k : Nat}
    (h : (resize size none o.slots)[j]? = some (some k)) : j < size ∧ o.slots[j]? = some (some k) := by
  rw [getElem?_resize] at h
  split_ifs at h with hj
  refine ⟨hj, ?_⟩
  cases hs : o.slots[j]? with
  | none => simp [hs] at h
  | some slot => simpa [hs] using h

theorem Holds.resized {o : Origins α} (h : Holds o aDS) {size : Nat} (hsize : size < 2 ^ 32) :
    Holds { o with slots := resize size none o.slots } (aDS.resizeTo size) := by
  refine ⟨by simp, by simpa using hsize, fun j k hj => ?_, fun i j k hi hj => ?_⟩
  · obtain ⟨hlt, hslot⟩ := slot_resize hj
    obtain ⟨hk, hsample⟩ := h.sample j k hslot
    have hget := List.getElem?_eq_getElem hk
    refine ⟨hk, ?_⟩
    rw [DataStack.resizeTo, getElem?_resize, if_pos hlt, hsample, hget, Option.getD_some]
  · exact h.distinct i j k (slot_resize hi).2 (slot_resize hj).2

omit [Double α] in
private theorem slot_set {o : Origins α} {index j k : Nat}
    (h : (o.slots.set index (some o.recorded.length))[j]? = some (some k)) :
    (j = index ∧ k = o.recorded.length) ∨ (j ≠ index ∧ o.slots[j]? = some (some k)) := by
  rw [List.getElem?_set] at h
  split_ifs at h with hij hlen
  · subst hij
    simp only [Option.some.injEq] at h
    exact .inl ⟨rfl, h.symm⟩
  · exact .inr ⟨fun he => hij he.symm, h⟩

theorem Holds.recorded {o : Origins α} {aDS' : DataStack α} (h : Holds o aDS) {time : Int} {data : List α}
    (hrec : aDS.record time data = some aDS') :
    Holds ⟨o.slots.set aDS.index (some o.recorded.length), o.recorded ++ [⟨timeStamp time, data⟩]⟩ aDS' := by
  obtain ⟨hindex, hstack⟩ := DataStack.record_spec hrec
  have hfresh : ∀ j, o.slots[j]? ≠ some (some o.recorded.length) :=
    fun j hj => Nat.lt_irrefl _ (h.sample j _ hj).1
  refine ⟨by simp [hstack, h.length], by simpa [hstack] using h.bound, fun j k hj => ?_,
    fun i j k hi hj => ?_⟩
  · rw [hstack]
    rcases slot_set hj with ⟨rfl, rfl⟩ | ⟨hne, hslot⟩
    · simp [hindex]
    · obtain ⟨hk, hsample⟩ := h.sample j k hslot
      rw [List.getElem?_set_ne (Ne.symm hne), List.getElem?_append_left hk]
      exact ⟨by simp; omega, hsample⟩
  · rcases slot_set hi with ⟨rfl, rfl⟩ | ⟨-, hi⟩ <;> rcases slot_set hj with ⟨rfl, hk⟩ | ⟨-, hj⟩
    · rfl
    · exact absurd hj (hfresh j)
    · exact absurd (hk ▸ hi) (hfresh i)
    · exact h.distinct i j k hi hj

omit [Double α] in
private theorem traced_some {o : Origins α} (ht : t.vectorSINStored[r]? = some aDS) (h : Holds o aDS) :
    Traced r o t := by
  refine ⟨fun hnone => ?_, fun aDS' hget => ?_⟩
  · rw [ht] at hnone
    cases hnone
  · obtain rfl := Option.some.inj (ht.symm.trans hget)
    exact h

theorem Traced.step {o : Origins α} (hs : Traced r o s) (h : Steps localName s e t) :
    Traced r (o.step r s e) t := by
  cases hget : s.vectorSINStored[r]? with
  | none =>
    obtain ⟨ht, ho⟩ := buffer_step_none h hget o
    rw [ho, hs.missing hget]
    rcases ht with ht | ht
    · exact ⟨fun _ => rfl, fun aDS hafter => by rw [ht] at hafter; cases hafter⟩
    · exact traced_some ht holds_start
  | some aDS =>
    have hold := hs.holds aDS hget
    rcases buffer_step h hget o with ⟨size, hsize, -, ht, ho⟩ |
      ⟨time, data, aDS', -, -, -, hrec, ht, ho⟩ | ⟨-, -, ht, ho⟩
    · rw [ho]
      exact traced_some ht (hold.resized hsize)
    · rw [ho]
      exact traced_some ht (hold.recorded hrec)
    · rw [ho]
      exact traced_some ht hold

theorem Traced.run {server : String} {trace : List (ServerCommand α × Event α)} (r : Nat)
    (h : Run (Steps localName) (ServerCommand.construct localName server) trace s) :
    Traced r (origins r trace) s := by
  refine h.history (fun trace s => Traced r (origins r trace) s) ⟨fun _ => rfl, fun aDS hget => ?_⟩ ?_
  · simp [ServerCommand.construct] at hget
  · intro trace s e t _ hs hstep
    rw [origins_snoc]
    exact hs.step hstep

/-- What was recorded for an input are copies it carried. -/
theorem recorded_dimension {d : Nat} {trace : List (ServerCommand α × Event α)}
    (h : ∀ x ∈ trace, ∀ data ∈ x.1.copyAt r, data.length = d) :
    ∀ sample ∈ (origins r trace).recorded, sample.data.length = d := by
  induction trace using List.reverseRecOn with
  | nil => simp [origins, Origins.start]
  | append_singleton trace x ih =>
    obtain ⟨s, e⟩ := x
    have hold := ih fun y hy => h y (List.mem_append_left _ hy)
    rw [origins_snoc, Origins.step]
    split
    · exact hold
    · rename_i index sample hrec
      intro other hmem
      rcases List.mem_append.mp hmem with hmem | hmem
      · exact hold other hmem
      · obtain rfl := List.mem_singleton.mp hmem
        refine h (s, e) (by simp) _ ?_
        unfold sampling at hrec
        split at hrec
        · split_ifs at hrec
          obtain ⟨aDS, -, hrec⟩ := Option.bind_eq_some_iff.mp hrec
          obtain ⟨data, hdata, hrec⟩ := Option.bind_eq_some_iff.mp hrec
          split_ifs at hrec
          cases hrec
          exact hdata
        · cases hrec
    · exact hold

end Traced

section Fabrication
variable {localName : String → String} {s t : ServerCommand α} {e : Event α} {r : Nat} {aDS : DataStack α}
  {o : Origins α}

/-- The slots that are walked over hold the samples recorded at the positions `ks`, no
position twice. -/
structure ReadsRecorded (o : Origins α) (aDS : DataStack α) (ks : List Nat) : Prop where
  slots : o.slots.take aDS.lsizeOfSTD = ks.map some
  walked : ks.length = aDS.lsizeOfSTD
  once : ks.Nodup
  samples : ks.map (o.recorded[·]?) = (aDS.stackOfTsData.take aDS.lsizeOfSTD).map some

/-- Reading the input walks over slots with recorded samples only, each of them once,
and what it returns are the blocks of these samples. -/
def NoFabrication (r : Nat) (o : Origins α) (s : ServerCommand α) : Prop :=
  ∀ aDS, s.vectorSINStored[r]? = some aDS → ∃ ks, ReadsRecorded o aDS ks ∧
    ∀ value, aDS.lsizeOfSTD ≠ 0 → readInputVectorSignal r s = .ret (some value) s →
      value = (aDS.stackOfTsData.take aDS.lsizeOfSTD).flatMap fun sample => sample.ts :: sample.data

/-- A `buffer` command that acts on the rank does not enlarge a buffer that has wrapped,
nor cut samples off one that has not. -/
def KeepsRecorded (r : Nat) (s : ServerCommand α) (e : Event α) : Prop :=
  ∀ size ∈ resizing r s e, ∀ aDS ∈ s.vectorSINStored[r]?,
    (aDS.turnaround = true → size ≤ aDS.stackOfTsData.length) ∧ (aDS.turnaround = false → aDS.index ≤ size)

instance (r : Nat) (s : ServerCommand α) (e : Event α) : Decidable (KeepsRecorded r s e) := by
  unfold KeepsRecorded
  infer_instance

private def SlotsRecorded (o : Origins α) (aDS : DataStack α) : Prop :=
  ∀ j < aDS.lsizeOfSTD, ∃ k, o.slots[j]? = some (some k)

omit [Double α] in
private theorem positions_of_recorded (hs : Holds o aDS) (h : SlotsRecorded o aDS) :
    ∃ ks, ReadsRecorded o aDS ks := by
  have hlen : aDS.lsizeOfSTD ≤ o.slots.length := by
    by_contra hlt
    obtain ⟨k, hk⟩ := h o.slots.length (by omega)
    simp at hk
  have hsome : o.slots.take aDS.lsizeOfSTD ∈ Set.range (List.map some) := by
    rw [Set.range_list_map]
    intro slot hmem
    obtain ⟨j, hlt, hj⟩ := mem_take_iff.mp hmem
    obtain ⟨k, hk⟩ := h j hlt
    exact ⟨k, Option.some.inj (hk.symm.trans hj)⟩
  obtain ⟨ks, htake⟩ := hsome
  replace htake := htake.symm
  have hwalked : ks.length = aDS.lsizeOfSTD := by
    have hsame := congrArg List.length htake
    rwa [List.length_take, Nat.min_eq_left hlen, List.length_map, eq_comm] at hsame
  have hslot : ∀ j (hj : j < ks.length), o.slots[j]? = some (some ks[j]) := by
    intro j hj
    rw [← List.getElem?_take_of_lt (hwalked ▸ hj), htake, List.getElem?_map, List.getElem?_eq_getElem hj]
    rfl
  refine ⟨ks, htake, hwalked, ?_, ?_⟩
  · rw [List.nodup_iff_injective_getElem]
    intro i j hij
    have hval : ks[i] = ks[j] := hij
    exact Fin.ext (hs.distinct i j _ (hslot i i.isLt) (hval ▸ hslot j j.isLt))
  · apply List.ext_getElem?
    intro j
    rw [List.getElem?_map, List.getElem?_map]
    rcases Nat.lt_or_ge j ks.length with hj | hj
    · have hsample := hs.sample j ks[j] (hslot j hj)
      rw [List.getElem?_take_of_lt (hwalked ▸ hj), List.getElem?_eq_getElem hj, hsample.2]
      simp only [Option.map_some, List.getElem?_eq_getElem hsample.1]
    · rw [List.getElem?_eq_none hj, List.getElem?_eq_none (by simp; omega)]
      rfl

omit [Double α] in
private theorem recorded_of_positions {ks : List Nat} (h : ReadsRecorded o aDS ks) : SlotsRecorded o aDS := by
  intro j hj
  have hlt : j < ks.length := by rw [h.walked]; exact hj
  refine ⟨ks[j], ?_⟩
  rw [← List.getElem?_take_of_lt hj, h.slots, List.getElem?_map, List.getElem?_eq_getElem hlt]
  rfl

/-- Where all recorded samples and the current vector have one dimension, the blocks
of a reply are whole samples. -/
private theorem reply_whole {d : Nat} {ks : List Nat} (h : ReadsRecorded o aDS ks)
    (hget : s.vectorSINStored[r]? = some aDS) (hin : r < s.vectorSIN.length)
    (hrec : ∀ sample ∈ o.recorded, sample.data.length = d) (hcopy : ∀ data ∈ s.copyAt r, data.length = d)
    {value : List α} (hne : aDS.lsizeOfSTD ≠ 0) (hread : readInputVectorSignal r s = .ret (some value) s) :
    value = (aDS.stackOfTsData.take aDS.lsizeOfSTD).flatMap fun sample => sample.ts :: sample.data := by
  have hsig : s.vectorSIN[(r : Int).toNat]? = some s.vectorSIN[r] := by simp [hin]
  cases hptr : s.vectorSIN[r].ptr with
  | none =>
    rw [readInput_unreadable (Int.natCast_nonneg r) hsig hptr] at hread
    cases hread
  | some data =>
    have hd : data.length = d := hcopy data (by simp [ServerCommand.copyAt, hin, hptr])
    rw [readInput_readable (Int.natCast_nonneg r) hsig hptr (by simpa using hget), reading,
      if_neg hne] at hread
    cases hblocks : readBlocks data.length aDS.lsizeOfSTD aDS.stackOfTsData with
    | none => simp [hblocks] at hread
    | some blocks =>
      obtain ⟨hslots, hfit⟩ := readBlocks_inside hblocks
      rw [readBlocks_eq hslots hfit] at hblocks hread
      obtain rfl : _ = value := by simpa using hread
      apply List.flatMap_congr
      intro sample hmem
      have hfrom : some sample ∈ ks.map (o.recorded[·]?) := by
        rw [h.samples]
        exact List.mem_map_of_mem hmem
      obtain ⟨k, -, hk⟩ := List.mem_map.mp hfrom
      rw [block, hd, ← hrec sample (List.mem_of_getElem? hk), List.take_length]

private theorem noFabrication_iff {d : Nat} (hs : Traced r o s)
    (hlen : s.vectorSINStored.length ≤ s.vectorSIN.length)
    (hrec : ∀ sample ∈ o.recorded, sample.data.length = d) (hcopy : ∀ data ∈ s.copyAt r, data.length = d) :
    NoFabrication r o s ↔ ∀ aDS, s.vectorSINStored[r]? = some aDS → SlotsRecorded o aDS := by
  constructor
  · intro h aDS hget
    obtain ⟨ks, hks, -⟩ := h aDS hget
    exact recorded_of_positions hks
  · intro h aDS hget
    obtain ⟨ks, hks⟩ := positions_of_recorded (hs.holds aDS hget) (h aDS hget)
    have hin : r < s.vectorSIN.length :=
      Nat.lt_of_lt_of_le (List.getElem?_eq_some_iff.mp hget).1 hlen
    exact ⟨ks, hks, fun value hne hread => reply_whole hks hget hin hrec hcopy hne hread⟩

private theorem recorded_resize (hs : Holds o aDS) (h : SlotsRecorded o aDS) {size : Nat} :
    SlotsRecorded { o with slots := resize size none o.slots } (aDS.resizeTo size) ↔
      (aDS.turnaround = true → size ≤ aDS.stackOfTsData.length) ∧
        (aDS.turnaround = false → aDS.index ≤ size) := by
  have hslot : ∀ j < aDS.lsizeOfSTD, j < size → ∃ k, (resize size none o.slots)[j]? = some (some k) := by
    intro j hj hlt
    obtain ⟨k, hk⟩ := h j hj
    exact ⟨k, by rw [getElem?_resize, if_pos hlt, hk, Option.getD_some]⟩
  cases hturn : aDS.turnaround with
  | false =>
    have hread : aDS.lsizeOfSTD = aDS.index := by simp [DataStack.lsizeOfSTD, hturn]
    have hread' : (aDS.resizeTo size).lsizeOfSTD = aDS.index := by
      simp [DataStack.lsizeOfSTD, DataStack.resizeTo, hturn]
    refine ⟨fun h' => ⟨fun hfalse => absurd hfalse (by decide), fun _ => ?_⟩, fun hle j hj => ?_⟩
    · by_contra hlt
      obtain ⟨k, hk⟩ := h' size (by omega)
      exact Nat.lt_irrefl _ (slot_resize hk).1
    · have := hle.2 rfl
      exact hslot j (by omega) (by omega)
  | true =>
    have hread : aDS.lsizeOfSTD = aDS.stackOfTsData.length := by simp [DataStack.lsizeOfSTD, hturn]
    have hread' : (aDS.resizeTo size).lsizeOfSTD = size := by
      rw [DataStack.lsizeOfSTD, DataStack.length_resizeTo]
      simp [DataStack.resizeTo, hturn]
    refine ⟨fun h' => ⟨fun _ => ?_, fun hfalse => absurd hfalse (by decide)⟩, fun hle j hj => ?_⟩
    · by_contra hlt
      obtain ⟨k, hk⟩ := h' aDS.stackOfTsData.length (by omega)
      have hinside := (List.getElem?_eq_some_iff.mp (slot_resize hk).2).1
      rw [hs.length] at hinside
      exact Nat.lt_irrefl _ hinside
    · have := hle.1 rfl
      exact hslot j (by omega) (by omega)

private theorem recorded_record (hs : Holds o aDS) (h : SlotsRecorded o aDS) {time : Int} {data : List α}
    {aDS' : DataStack α} (hrec : aDS.record time data = some aDS') :
    SlotsRecorded ⟨o.slots.set aDS.index (some o.recorded.length), o.recorded ++ [⟨timeStamp time, data⟩]⟩
      aDS' := by
  obtain ⟨hindex, -⟩ := DataStack.record_spec hrec
  rw [DataStack.record_eq hindex] at hrec
  obtain rfl := Option.some.inj hrec
  have hwalk : ∀ j, j < (⟨aDS.stackOfTsData.set aDS.index ⟨timeStamp time, data⟩, aDS.index,
      aDS.turnaround⟩ : DataStack α).inc.lsizeOfSTD → j = aDS.index ∨ j < aDS.lsizeOfSTD := by
    intro j hj
    rcases Nat.lt_or_eq_of_le (Nat.succ_le_of_lt hindex) with hlt | hwrap
    · rw [DataStack.inc_advance (by simpa using hs.bound) (by simpa using hlt)] at hj
      cases hturn : aDS.turnaround <;> simp [DataStack.lsizeOfSTD, hturn] at hj ⊢ <;> omega
    · rw [DataStack.inc_wrap (by simpa using hs.bound) (by simpa using hwrap)] at hj
      cases hturn : aDS.turnaround <;> simp [DataStack.lsizeOfSTD, hturn] at hj ⊢ <;> omega
  intro j hj
  by_cases hne : j = aDS.index
  · subst hne
    exact ⟨o.recorded.length, by rw [List.getElem?_set_self (by rw [← hs.length]; exact hindex)]⟩
  · obtain ⟨k, hk⟩ := h j ((hwalk j hj).resolve_left hne)
    exact ⟨k, by rw [List.getElem?_set_ne (Ne.symm hne), hk]⟩

/-- One step keeps every slot that is walked over recorded exactly when it resizes so. -/
private theorem slotsRecorded_step (hs : Traced r o s)
    (hrec : ∀ aDS, s.vectorSINStored[r]? = some aDS → SlotsRecorded o aDS) (h : Steps localName s e t) :
    (∀ aDS, t.vectorSINStored[r]? = some aDS → SlotsRecorded (o.step r s e) aDS) ↔ KeepsRecorded r s e := by
  cases hget : s.vectorSINStored[r]? with
  | none =>
    obtain ⟨ht, ho⟩ := buffer_step_none h hget o
    refine iff_of_true (fun aDS hafter => ?_) fun size _ aDS hmem => ?_
    · rcases ht with ht | ht
      · rw [ht] at hafter
        cases hafter
      · obtain rfl := Option.some.inj (ht.symm.trans hafter)
        exact fun j hj => absurd hj (Nat.not_lt_zero j)
    · rw [hget] at hmem
      cases hmem
  | some aDS =>
    have hold := hs.holds aDS hget
    have hkeep : ∀ size, resizing r s e = some size → (KeepsRecorded r s e ↔
        (aDS.turnaround = true → size ≤ aDS.stackOfTsData.length) ∧
          (aDS.turnaround = false → aDS.index ≤ size)) := by
      intro size hsize
      simp [KeepsRecorded, hsize, hget]
    have hkeep' : resizing r s e = none → KeepsRecorded r s e := by
      intro hnone
      simp [KeepsRecorded, hnone]
    have hafter : ∀ aDS', t.vectorSINStored[r]? = some aDS' →
        ((∀ aDS, t.vectorSINStored[r]? = some aDS → SlotsRecorded (o.step r s e) aDS) ↔
          SlotsRecorded (o.step r s e) aDS') := by
      intro aDS' ht
      simp [ht]
    rcases buffer_step h hget o with ⟨size, -, hsize, ht, ho⟩ |
      ⟨time, data, aDS', hnone, -, -, hpush, ht, ho⟩ | ⟨hnone, -, ht, ho⟩
    · rw [hafter _ ht, hkeep size hsize, ho]
      exact recorded_resize hold (hrec aDS hget)
    · rw [hafter _ ht, ho]
      exact iff_of_true (recorded_record hold (hrec aDS hget) hpush) (hkeep' hnone)
    · rw [hafter _ ht, ho]
      exact iff_of_true (hrec aDS hget) (hkeep' hnone)

/-- Where all vectors of an input have one dimension, its buffer is read without a
fabricated sample in every state of a run exactly when every `buffer` command that
acts on it keeps what is walked over recorded. -/
theorem noFabrication_run_iff {server : String} {trace : List (ServerCommand α × Event α)} (d : Nat)
    (h : Run (Steps localName) (ServerCommand.construct localName server) trace s)
    (hdim : ∀ x ∈ trace, ∀ data ∈ x.1.copyAt r, data.length = d) (hlast : ∀ data ∈ s.copyAt r, data.length = d) :
    ((∀ before x after, trace = before ++ x :: after → NoFabrication r (origins r before) x.1) ∧
      NoFabrication r (origins r trace) s) ↔ ∀ x ∈ trace, KeepsRecorded r x.1 x.2 := by
  have hexact := h.forall_histories_iff
    (fun trace s => ∀ aDS, s.vectorSINStored[r]? = some aDS → SlotsRecorded (origins r trace) aDS)
    (fun _ s e => KeepsRecorded r s e) (by simp [ServerCommand.construct])
    fun trace s e t hrun hrec hstep => by
      rw [origins_snoc]
      exact slotsRecorded_step (.run r hrun) hrec hstep
  have hcond : (∀ before x after, trace = before ++ x :: after → KeepsRecorded r x.1 x.2) ↔
      ∀ x ∈ trace, KeepsRecorded r x.1 x.2 := by
    refine ⟨fun hall x hx => ?_, fun hall before x after heq => hall x (heq ▸ by simp)⟩
    obtain ⟨before, after, heq⟩ := List.append_of_mem hx
    exact hall before x after heq
  rw [← hcond, ← hexact]
  refine and_congr (forall_congr' fun before => forall_congr' fun x => forall_congr' fun after =>
    forall_congr' fun heq => ?_) ?_
  · subst heq
    have hrun := h.split.1
    exact noFabrication_iff (.run r hrun) (Accounted.run hrun).stored
      (recorded_dimension fun y hy => hdim y (List.mem_append_left _ hy)) (hdim x (by simp))
  · exact noFabrication_iff (.run r h) (Accounted.run h).stored (recorded_dimension hdim) hlast

/-- One input with one slot, sampled, enlarged to `size` slots and sampled again. -/
def enlarged (first size : String) : List (Nat × Op ℚ) :=
  [(0, .createInputVectorSignal "comstate"), (0, .plug "comstate" (some [7])),
    (0, .buffer ("comstate " ++ first) 0), (0, .synchro none 1), (0, .buffer ("comstate " ++ size) 0),
    (0, .synchro none 2)]

theorem noFabrication_unwrapped : NoFabrication 0
    (origins 0 (execute shortName (ServerCommand.construct shortName "coshell") (enlarged "2" "5")).1)
    (execute shortName (ServerCommand.construct shortName "coshell") (enlarged "2" "5")).2 := by
  have hrun := run_execute shortName (ServerCommand.construct shortName "coshell") (enlarged "2" "5")
  generalize hresult : execute shortName (ServerCommand.construct shortName "coshell") (enlarged "2" "5") =
    result at hrun
  obtain ⟨hdim, hlast, hkeeps⟩ : (∀ x ∈ result.1, ∀ data ∈ x.1.copyAt 0, data.length = 1) ∧
      (∀ data ∈ result.2.copyAt 0, data.length = 1) ∧ ∀ x ∈ result.1, KeepsRecorded 0 x.1 x.2 := by
    rw [← hresult]
    decide +kernel
  exact ((noFabrication_run_iff 1 hrun hdim hlast).mpr hkeeps).2

/-- Enlarged after it has wrapped, a buffer is read with the slots that were added. -/
theorem fabricated_enlarged : ∃ (trace : List (ServerCommand ℚ × Event ℚ)) (s : ServerCommand ℚ),
    Run (Steps shortName) (ServerCommand.construct shortName "coshell") trace s ∧
      (∀ x ∈ trace, ∀ size ∈ resizing 0 x.1 x.2, ∀ aDS ∈ x.1.vectorSINStored[0]?,
        aDS.stackOfTsData.length ≤ size) ∧
      (∀ x ∈ trace, ∀ data ∈ x.1.copyAt 0, data.length = 1) ∧ s.copyAt 0 = some [7] ∧
      ¬NoFabrication 0 (origins 0 trace) s ∧ readInputVectorSignal 0 s = .undefined := by
  have hrun := run_execute shortName (ServerCommand.construct shortName "coshell") (enlarged "1" "3")
  generalize hresult : execute shortName (ServerCommand.construct shortName "coshell") (enlarged "1" "3") =
    result at hrun
  obtain ⟨hgrows, hdim, hcopy, hget, hslots⟩ : (∀ x ∈ result.1, ∀ size ∈ resizing 0 x.1 x.2,
        ∀ aDS ∈ x.1.vectorSINStored[0]?, aDS.stackOfTsData.length ≤ size) ∧
      (∀ x ∈ result.1, ∀ data ∈ x.1.copyAt 0, data.length = 1) ∧ result.2.copyAt 0 = some [7] ∧
      result.2.vectorSINStored[0]? = some ⟨[⟨timeStamp 2, [7]⟩, .default, .default], 1, true⟩ ∧
      (origins 0 result.1).slots = [some 1, none, none] := by
    rw [← hresult]
    decide +kernel
  refine ⟨result.1, result.2, hrun, hgrows, hdim, hcopy, fun h => ?_, ?_⟩
  · obtain ⟨ks, hks, -⟩ := h _ hget
    have hmem : none ∈ ks.map some := by
      rw [← hks.slots, hslots]
      decide
    simp at hmem
  · have hnone : reading [7] (⟨[⟨timeStamp 2, [7]⟩, .default, .default], 1, true⟩ : DataStack ℚ) = none := by
      decide +kernel
    have hread := readInput_copy hcopy hget
    rwa [hnone] at hread

end Fabrication
end DgMiddleware.Server
