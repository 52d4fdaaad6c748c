import DgMiddleware.Server.RingLog

/-! The format of a reply. A client who knows the dimension can tell the current vector
from a log of samples, and cut the log into them, unless the length has wrapped. -/
namespace DgMiddleware.Server
open Library
variable {α : Type} [Double α]

/-- What a client makes of a reply. -/
inductive Decoded (α : Type) where
  | raw (data : List α)
  | buffered (samples : List (TsData α))
  deriving DecidableEq, Repr

def sampleOf : List α → TsData α
  | [] => .default
  | ts :: data => ⟨ts, data⟩

/-- Only the dimension and the length tell the two formats apart. -/
def decode (d : Nat) (value : List α) : Decoded α :=
  if value.length = d then .raw value
  else .buffered (((List.replicate (value.length / (d + 1)) (d + 1)).splitLengths value).map sampleOf)

/-- The argument of `resCorba->length` for a log of `k` samples. -/
def replyLength (d k : Nat) : Nat := (d + 1) % 2 ^ 32 * k % 2 ^ 32

/-- The two nested loops, counting what they write. -/
def doublesWritten (d k : Nat) : Nat :=
  forUpTo (m := Id) k (fun _ written => forUpTo (m := Id) d (fun _ written => written + 1) (written + 1)) 0

private theorem componentsWritten (d written : Nat) :
    forUpTo (m := Id) d (fun _ written => written + 1) written = written + d := by
  induction d with
  | zero => rfl
  | succ d ih => exact congrArg (· + 1) ih

theorem doublesWritten_eq (d k : Nat) : doublesWritten d k = (d + 1) * k := by
  induction k with
  | zero => rfl
  | succ k ih =>
    have hloop : doublesWritten d (k + 1) = doublesWritten d k + 1 + d := componentsWritten d _
    rw [hloop, ih, Nat.mul_succ]
    omega

theorem replyLength_eq {d k : Nat} (h : (d + 1) * k < 2 ^ 32) : replyLength d k = (d + 1) * k := by
  rw [replyLength, Nat.mod_mul_mod, Nat.mod_eq_of_lt h]

section Decoding
variable {d k : Nat} {stack : List (TsData α)}

/-- Every slot that is walked over stores `d` components, and the length fits. -/
structure WellFormed (d : Nat) (aDS : DataStack α) : Prop where
  slots : ∀ j < aDS.lsizeOfSTD, ∃ slot, aDS.stackOfTsData[j]? = some slot ∧ slot.data.length = d
  fits : (d + 1) * aDS.lsizeOfSTD < 2 ^ 32

/-- Where the nested loops put everything, and where their cursor stands before each
write: a time stamp opens a block, component `i` of slot `j` follows at its place. -/
structure LaidOut (d k : Nat) (stack : List (TsData α)) (value : List α) : Prop where
  length : value.length = (d + 1) * k
  stamps : ∀ j < k, ∀ slot, stack[j]? = some slot → value[j * (d + 1)]? = some slot.ts
  components : ∀ j < k, ∀ slot, stack[j]? = some slot →
    ∀ i < d, ∃ x, slot.data[i]? = some x ∧ value[j * (d + 1) + 1 + i]? = some x
  cursor : ∀ j < k, ∃ reply,
    forUpTo j (putSlot d stack) (List.replicate (replyLength d k) 0, 0) = some reply ∧
      reply.2 = j * (d + 1) ∧
      ∀ i < d, ∃ reply', putSlot i stack j reply = some reply' ∧ reply'.2 = j * (d + 1) + 1 + i
  once : ∀ p < (d + 1) * k, ∃! at' : Nat × Nat, at'.1 < k ∧ at'.2 < d + 1 ∧ p = at'.1 * (d + 1) + at'.2

omit [Double α] in
private theorem block_whole {slot : TsData α} (h : slot.data.length = d) :
    block d slot = slot.ts :: slot.data := by
  rw [block, ← h, List.take_length]

private theorem laidOut (hslots : ∀ j < k, ∃ slot, stack[j]? = some slot ∧ slot.data.length = d)
    (hn : (d + 1) * k < 2 ^ 32) : LaidOut d k stack ((stack.take k).flatMap (block d)) := by
  have hroom : ∀ j < k, ∃ slot, stack[j]? = some slot ∧ d ≤ slot.data.length :=
    fun j hj => (hslots j hj).imp fun _ hs => ⟨hs.1, hs.2.ge⟩
  have hstored : ∀ j < k, ∀ slot, stack[j]? = some slot → slot.data.length = d := by
    intro j hj slot hslot
    obtain ⟨slot', hslot', hlen⟩ := hslots j hj
    rwa [Option.some.inj (hslot.symm.trans hslot')]
  have hat : ∀ j < k, ∀ slot, stack[j]? = some slot → ∀ i < d + 1,
      ((stack.take k).flatMap (block d))[j * (d + 1) + i]? = (block d slot)[i]? := by
    intro j hj slot hslot i hi
    exact getElem?_flatMap_width (length_blocks hroom (Nat.le_refl k)).2
      (by rw [List.getElem?_take_of_lt hj, hslot]) hi
  constructor
  · obtain ⟨hlen, hwidth⟩ := length_blocks hroom (Nat.le_refl k)
    rw [length_flatMap_width hwidth, hlen]
  · intro j hj slot hslot
    exact hat j hj slot hslot 0 (Nat.succ_pos d)
  · intro j hj slot hslot i hi
    have hlen := hstored j hj slot hslot
    have hget : slot.data[i]? = some slot.data[i] := List.getElem?_eq_getElem (by omega)
    have hplace := hat j hj slot hslot (i + 1) (by omega)
    rw [block_whole hlen, List.getElem?_cons_succ, hget] at hplace
    exact ⟨_, hget, by rwa [Nat.add_assoc, Nat.add_comm 1 i]⟩
  · intro j hj
    obtain ⟨slot, hslot, hlen⟩ := hslots j hj
    obtain ⟨htake, hwidth⟩ := length_blocks hroom (j := j) hj.le
    have hdone : ((stack.take j).flatMap (block d)).length = j * (d + 1) := by
      rw [length_flatMap_width hwidth, htake, Nat.mul_comm]
    have hnext : (d + 1) * (j + 1) ≤ (d + 1) * k := Nat.mul_le_mul_left _ hj
    rw [Nat.mul_succ, Nat.mul_comm] at hnext
    refine ⟨filled ((d + 1) * k) ((stack.take j).flatMap (block d)), ?_, hdone, fun i hi => ?_⟩
    · rw [replyLength_eq hn]
      exact putSlots_filled hroom hn hj.le
    · refine ⟨_, putSlot_filled hslot (by omega) (by omega) hn, ?_⟩
      simp only [filled, List.length_append, hdone, block, List.length_cons, List.length_take]
      omega
  · exact fun p hp => existsUnique_position hp

theorem decode_raw (data : List α) : decode data.length data = .raw data := by
  rw [decode, if_pos rfl]

theorem decode_buffered (hk : k ≠ 0)
    (hslots : ∀ j < k, ∃ slot, stack[j]? = some slot ∧ slot.data.length = d) :
    decode d ((stack.take k).flatMap (block d)) = .buffered (stack.take k) := by
  have hroom : ∀ j < k, ∃ slot, stack[j]? = some slot ∧ d ≤ slot.data.length :=
    fun j hj => (hslots j hj).imp fun _ hs => ⟨hs.1, hs.2.ge⟩
  obtain ⟨hlen, hwidth⟩ := length_blocks hroom (Nat.le_refl k)
  have htotal : ((stack.take k).flatMap (block d)).length = (d + 1) * k := by
    rw [length_flatMap_width hwidth, hlen]
  have hne : (d + 1) * k ≠ d := by
    have : (d + 1) * 1 ≤ (d + 1) * k := Nat.mul_le_mul_left _ (Nat.pos_of_ne_zero hk)
    omega
  have hsample : ∀ slot ∈ stack.take k, sampleOf (block d slot) = slot := by
    intro slot hmem
    obtain ⟨j, hjk, hj⟩ := mem_take_iff.mp hmem
    obtain ⟨slot', hslot, hd⟩ := hslots j hjk
    obtain rfl := Option.some.inj (hslot.symm.trans hj)
    rw [block_whole hd, sampleOf]
  have hcut := splitLengths_flatMap_width hwidth
  rw [hlen] at hcut
  rw [decode, if_neg (by rw [htotal]; exact hne), htotal, Nat.mul_div_cancel_left _ (Nat.succ_pos d), hcut,
    List.map_map]
  congr 1
  calc (stack.take k).map (sampleOf ∘ block d) = (stack.take k).map id := List.map_congr_left hsample
    _ = stack.take k := List.map_id _

end Decoding

/-- One decoder, given the dimension only, gets back from every reply whether it is the
current vector or a log, and which; the loops fill each position of a log once. -/
theorem reply_decodable : ∃ decode : Nat → List α → Decoded α,
    ∀ (s : ServerCommand α) (signalRank : Int) (data : List α) (aDS : DataStack α), 0 ≤ signalRank →
      s.copyAt signalRank.toNat = some data → s.vectorSINStored[signalRank.toNat]? = some aDS →
      WellFormed data.length aDS →
      ∃ value, readInputVectorSignal signalRank s = .ret (some value) s ∧
        decode data.length value =
          (if aDS.lsizeOfSTD = 0 then .raw data else .buffered (aDS.stackOfTsData.take aDS.lsizeOfSTD)) ∧
        (value.length = data.length ↔ aDS.lsizeOfSTD = 0) ∧
        (aDS.lsizeOfSTD ≠ 0 → LaidOut data.length aDS.lsizeOfSTD aDS.stackOfTsData value) := by
  refine ⟨decode, fun s signalRank data aDS h0 hcopy hget hform => ?_⟩
  obtain ⟨signal, hsig, hptr⟩ := signal_of_copy hcopy
  have hread := readInput_readable h0 hsig hptr hget
  by_cases hk : aDS.lsizeOfSTD = 0
  · rw [reading, if_pos hk] at hread
    refine ⟨data, hread, ?_, by simp [hk], fun hne => absurd hk hne⟩
    rw [decode_raw, if_pos hk]
  · have hblocks := readBlocks_eq (fun j hj => (hform.slots j hj).imp fun _ hs => ⟨hs.1, hs.2.ge⟩) hform.fits
    rw [reading, if_neg hk, hblocks] at hread
    have hlaid := laidOut hform.slots hform.fits
    refine ⟨_, hread, ?_, ?_, fun _ => hlaid⟩
    · rw [decode_buffered hk hform.slots, if_neg hk]
    · have : (data.length + 1) * 1 ≤ (data.length + 1) * aDS.lsizeOfSTD :=
        Nat.mul_le_mul_left _ (Nat.pos_of_ne_zero hk)
      rw [hlaid.length]
      omega

theorem reply_decodable_wrapped : ∃ (decode : Nat → List ℚ → Decoded ℚ) (value : List ℚ),
    readInputVectorSignal 0 (execute shortName (ServerCommand.construct shortName "coshell") wrapped).2 =
      .ret (some value) (execute shortName (ServerCommand.construct shortName "coshell") wrapped).2 ∧
    decode 1 value = .buffered [⟨timeStamp 3, [4]⟩, ⟨timeStamp 2, [1]⟩] := by
  obtain ⟨decode, h⟩ := reply_decodable (α := ℚ)
  have hform : WellFormed 1 (⟨[⟨timeStamp 3, [4]⟩, ⟨timeStamp 2, [1]⟩], 1, true⟩ : DataStack ℚ) := by
    refine ⟨fun j hj => ?_, by decide⟩
    rcases (show j = 0 ∨ j = 1 by simp [DataStack.lsizeOfSTD] at hj; omega) with rfl | rfl
    · exact ⟨_, rfl, rfl⟩
    · exact ⟨_, rfl, rfl⟩
  generalize hresult : (execute shortName (ServerCommand.construct shortName "coshell") wrapped).2 = s
  obtain ⟨hcopy, hget⟩ : s.copyAt 0 = some [4] ∧
      s.vectorSINStored[0]? = some ⟨[⟨timeStamp 3, [4]⟩, ⟨timeStamp 2, [1]⟩], 1, true⟩ := by
    rw [← hresult]
    decide +kernel
  obtain ⟨value, hread, hdecode, -⟩ := h s 0 [4] _ (by decide) hcopy hget hform
  exact ⟨decode, value, hread, hdecode⟩

section Lengths

/-- The announced length is the number of doubles the loops write, and they write all
of them inside a reply of that length, from any `k` slots that store enough. -/
structure LengthFits (α : Type) [Double α] (d k : Nat) : Prop where
  announced : replyLength d k = doublesWritten d k
  inside : ∀ (s : ServerCommand α) (signalRank : Int) (data : List α) (aDS : DataStack α), 0 ≤ signalRank →
    s.copyAt signalRank.toNat = some data → s.vectorSINStored[signalRank.toNat]? = some aDS →
    data.length = d → aDS.lsizeOfSTD = k → k ≠ 0 →
    (∀ j < k, ∃ slot, aDS.stackOfTsData[j]? = some slot ∧ d ≤ slot.data.length) →
    ∃ value, readInputVectorSignal signalRank s = .ret (some value) s ∧ value.length = doublesWritten d k

/-- The length announced for `k` samples of dimension `d` is right exactly when the
number of doubles is below 2^32. -/
theorem lengthFits_iff (d k : Nat) : LengthFits α d k ↔ (d + 1) * k < 2 ^ 32 := by
  constructor
  · intro h
    rw [← doublesWritten_eq, ← h.announced]
    exact Nat.mod_lt _ (by decide)
  · intro hn
    refine ⟨by rw [replyLength_eq hn, doublesWritten_eq], ?_⟩
    rintro s signalRank data aDS h0 hcopy hget rfl rfl hk hslots
    obtain ⟨signal, hsig, hptr⟩ := signal_of_copy hcopy
    have hread := readInput_readable h0 hsig hptr hget
    rw [reading, if_neg hk, readBlocks_eq hslots hn] at hread
    obtain ⟨hlen, hwidth⟩ := length_blocks hslots (Nat.le_refl _)
    refine ⟨_, hread, ?_⟩
    rw [length_flatMap_width hwidth, hlen, doublesWritten_eq]

/-- One input, always carrying the same vector, buffered and then sampled `n` times. -/
private theorem sampledRun {N : Nat} [NeZero N] (hN : N < 2 ^ 32) (size : String)
    (hsize : bufferArgs size 0 = ("comstate", N)) (n : Nat) :
    ∃ (trace : List (ServerCommand ℚ × Event ℚ)) (s : ServerCommand ℚ) (aDS : DataStack ℚ) (history : List _),
      Run (Steps shortName) (ServerCommand.construct shortName "coshell") trace s ∧
      s.vectorSIN = [⟨"comstate", some [7]⟩] ∧ s.vectorSINStored = [aDS] ∧
      aDS.Represents (Ring.log .default history : Ring (TsData ℚ) N) ∧ history.length = n := by
  induction n with
  | zero =>
    have hrun := run_execute shortName (ServerCommand.construct shortName "coshell")
      [(0, .createInputVectorSignal "comstate"), (0, .plug "comstate" (some [(7 : ℚ)]))]
    generalize hs : (execute shortName (ServerCommand.construct shortName "coshell")
      [(0, .createInputVectorSignal "comstate"), (0, .plug "comstate" (some [(7 : ℚ)]))]).2 = s at hrun
    obtain ⟨hsin, hstored, hrank⟩ : s.vectorSIN = [⟨"comstate", some [7]⟩] ∧ s.vectorSINStored = [.empty] ∧
        s.rank "comstate" = 0 := by
      rw [← hs]
      decide +kernel
    have hstep : Steps shortName s ⟨0, .buffer size 0, .ok .done⟩ (withBuffer s "comstate" .empty N) := by
      have he := bufferSignal_eq s size 0
      simp only [hsize, hrank, hstored] at he
      simp [Steps, perform, he, withBuffer, hrank, hstored]
    refine ⟨_, _, .resizeTo .empty N, [], hrun.next hstep, hsin, ?_, DataStack.represents_fresh, rfl⟩
    simp [withBuffer, hrank, hstored]
  | succ n ih =>
    obtain ⟨trace, s, aDS, history, hrun, hsin, hstored, hrep, hlen⟩ := ih
    have hcopy : s.copyAt 0 = some [7] := by simp [ServerCommand.copyAt, hsin]
    have hrec : ∀ i < s.vectorSINStored.length, Recordable s i := by
      rintro i hi aDS' hget -
      obtain rfl : i = 0 := by
        rw [hstored, List.length_singleton] at hi
        omega
      obtain rfl : aDS = aDS' := by simpa [hstored] using hget
      exact ⟨⟨_, hcopy⟩, by rw [hrep.index, hrep.length]; exact Fin.isLt _⟩
    have hstep : Steps shortName s ⟨0, .synchro none 0, .ok .done⟩ (synchronised 0 s s.vectorSINStored.length) := by
      rcases synchroValue_cases (0 : ℚ) 0 s with ⟨-, he⟩ | ⟨k, aDS', hk, -, -, ⟨hun, -⟩ | ⟨-, hno, -⟩⟩
      · simp [Steps, perform, he]
      · obtain ⟨signal, hsig, hptr⟩ := hun
        obtain rfl : k = 0 := by
          have := (List.getElem?_eq_some_iff.mp hk).1
          rw [hstored, List.length_singleton] at this
          omega
        obtain rfl : (⟨"comstate", some [7]⟩ : SignalPtr ℚ) = signal := by simpa [hsin] using hsig
        cases hptr
      · exact absurd (hrec k (List.getElem?_eq_some_iff.mp hk).1) hno
    refine ⟨_, _, sampled 0 s 0 aDS, history ++ [⟨timeStamp 0, [7]⟩], hrun.next hstep, hsin, ?_, ?_, ?_⟩
    · simp [synchronised, hstored]
    · rw [Ring.log_snoc]
      exact sampled_represents hrep hN hcopy 0
    · simp [hlen]

/-- With 2^31 samples of dimension one the announced length is zero, and the first
double is written outside. -/
theorem lengthFits_wrapped : ∃ (trace : List (ServerCommand ℚ × Event ℚ)) (s : ServerCommand ℚ)
    (aDS : DataStack ℚ), Run (Steps shortName) (ServerCommand.construct shortName "coshell") trace s ∧
      s.copyAt 0 = some [7] ∧ s.vectorSINStored[0]? = some aDS ∧ aDS.lsizeOfSTD = 2 ^ 31 ∧
      replyLength 1 (2 ^ 31) = 0 ∧ doublesWritten 1 (2 ^ 31) = 2 ^ 32 ∧
      readInputVectorSignal 0 s = .undefined := by
  have : NeZero (2 ^ 31) := ⟨by decide⟩
  obtain ⟨trace, s, aDS, history, hrun, hsin, hstored, hrep, hlen⟩ :=
    sampledRun (N := 2 ^ 31) (by decide) "comstate 2147483648" (by decide +kernel) (2 ^ 31)
  have hk : aDS.lsizeOfSTD = 2 ^ 31 := by rw [log_lsizeOfSTD hrep, hlen, Nat.min_self]
  have hnone : reading [7] aDS = none := by
    rw [reading, if_neg (by rw [hk]; decide)]
    cases hb : readBlocks [(7 : ℚ)].length aDS.lsizeOfSTD aDS.stackOfTsData with
    | none => rfl
    | some value => exact absurd (readBlocks_inside hb).2 (by rw [hk]; decide)
  have hcopy : s.copyAt 0 = some [7] := by simp [ServerCommand.copyAt, hsin]
  have hget : s.vectorSINStored[0]? = some aDS := by simp [hstored]
  have hread := readInput_copy hcopy hget
  rw [hnone] at hread
  exact ⟨trace, s, aDS, hrun, hcopy, hget, hk, by decide, by rw [doublesWritten_eq]; decide, hread⟩

end Lengths
end DgMiddleware.Server
