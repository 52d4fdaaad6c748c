import DgMiddleware.Server.State

/-! The data path of the clients: reading one input signal with its recorded
samples, reading many at once, and writing an output signal. -/
namespace DgMiddleware.Server
open Library
variable {α : Type} [Double α]

/-- A reply under construction and the cursor that both loops move. -/
abbrev Reply (α : Type) : Type := List α × Nat

/-- `resCorba[lindex++] = x` -/
def put (reply : Reply α) (x : α) : Option (Reply α) := do
  let resCorba ← writeAt reply.1 reply.2 x
  return (resCorba, (reply.2 + 1) % 2 ^ 32)

/-- One iteration of the outer loop: the time stamp, then the components. -/
def putSlot (size : Nat) (stackOfTsData : List (TsData α)) (j : Nat) (reply : Reply α) :
    Option (Reply α) := do
  let slot ← stackOfTsData[j]?
  let reply ← put reply slot.ts
  forUpTo size (fun i reply => do
    let x ← slot.data[i]?
    put reply x) reply

/-- The length is computed in 32 bits, like the cursor. -/
def readBlocks (size lsizeOfSTD : Nat) (stackOfTsData : List (TsData α)) : Option (List α) := do
  let length := (size + 1) % 2 ^ 32 * lsizeOfSTD % 2 ^ 32
  let reply ← forUpTo lsizeOfSTD (putSlot size stackOfTsData) (List.replicate length 0, 0)
  return reply.1

/-- The out parameter starts as null; every path here assigns it. -/
def readInputVectorSignal (signalRank : Int) : Body α (Option (List α)) := do
  let s ← .get
  if signalRank < 0 ∨ s.vectorSIN.length ≤ signalRank then
    return some []
  else
    let signal ← elementAt s.vectorSIN signalRank
    let data ← accessCopy signal
    let aDS ← elementAt s.vectorSINStored signalRank
    if aDS.lsizeOfSTD = 0 then
      let resCorba ← .ofOption (copyInto data (List.replicate data.length 0))
      return some resCorba
    else
      let resCorba ← .ofOption (readBlocks data.length aDS.lsizeOfSTD aDS.stackOfTsData)
      return some resCorba

/-- One iteration of the batch read. `resCorba` is a copy of the element: what is
written to it does not reach `aSDS`. -/
def readSeqSignal (signalRanks : List Int) (liRank : Nat) (aSDS : List (List α)) :
    Body α (List (List α)) := do
  let s ← .get
  let signalRank ← element signalRanks liRank
  if 0 ≤ signalRank ∧ signalRank < s.vectorSIN.length then
    let signal ← elementAt s.vectorSIN signalRank
    let data ← accessCopy signal
    let resCorba ← element aSDS liRank
    let _resCorba ← .ofOption (copyInto data (resize data.length 0 resCorba))
    return aSDS
  else
    return aSDS

def readSeqInputVectorSignal (signalRanks : List Int) : Body α (Option (List (List α))) := do
  let aSDS := List.replicate signalRanks.length []
  let aSDS ← forUpTo signalRanks.length (readSeqSignal signalRanks) aSDS
  return some aSDS

def writeOutputVectorSignal (signalRank : Int) (value : List α) : Body α Unit := do
  let s ← .get
  let signal ← elementAt s.vectorSOUT signalRank
  let data ← .ofOption (copyInto value (List.replicate value.length 0))
  .set { s with vectorSOUT := s.vectorSOUT.set signalRank.toNat { signal with value := data } }

section Blocks

/-- What one slot contributes to a reply for vectors of the given size. -/
def block (size : Nat) (slot : TsData α) : List α := slot.ts :: slot.data.take size

/-- A reply of length `n` whose first positions are written. -/
def filled (n : Nat) (done : List α) : Reply α :=
  (done ++ List.replicate (n - done.length) 0, done.length)

private theorem put_filled {n : Nat} {done : List α} (h : done.length < n) (hn : n < 2 ^ 32) (x : α) :
    put (filled n done) x = some (filled n (done ++ [x])) := by
  have hw : writeAt (filled n done).1 (filled n done).2 x = some (filled n (done ++ [x])).1 := by
    have he : n - done.length = n - (done ++ [x]).length + 1 := by
      rw [List.length_append, List.length_singleton]
      omega
    rw [filled, he]
    exact writeAt_blank done 0 x _
  have hc : ((filled n done).2 + 1) % 2 ^ 32 = (filled n (done ++ [x])).2 := by
    rw [filled, Nat.mod_eq_of_lt (by simp; omega)]
    simp [filled]
  simp only [put, hw, hc, Option.bind_eq_bind, Option.bind_some, Option.pure_def]

/-- The inner loop writes the block of a slot behind what is written. -/
theorem putSlot_filled {n size j : Nat} {stack : List (TsData α)} {slot : TsData α}
    {done : List α} (hslot : stack[j]? = some slot) (hsize : size ≤ slot.data.length)
    (h : done.length + size + 1 ≤ n) (hn : n < 2 ^ 32) :
    putSlot size stack j (filled n done) = some (filled n (done ++ block size slot)) := by
  have inner := forUpTo_some (fun i reply => do
    let x ← slot.data[i]?
    put reply x) (fun i => filled n (done ++ slot.ts :: slot.data.take i)) size (by
      intro i hi
      have hlt : i < slot.data.length := by omega
      simp only [List.getElem?_eq_getElem hlt, Option.bind_eq_bind, Option.bind_some]
      rw [put_filled (by simp; omega) hn, List.take_succ_eq_append_getElem hlt, List.append_assoc,
        List.cons_append])
  have first : put (filled n done) slot.ts = _ := put_filled (by omega) hn slot.ts
  simpa [putSlot, hslot, first, block] using inner

section Slots
variable {size k : Nat} {stack : List (TsData α)}

omit [Double α] in
/-- The slots that are read are there, and each has a whole block. -/
theorem length_blocks (hslots : ∀ j < k, ∃ slot, stack[j]? = some slot ∧ size ≤ slot.data.length) {j : Nat}
    (hj : j ≤ k) : (stack.take j).length = j ∧ ∀ slot ∈ stack.take j, (block size slot).length = size + 1 := by
  have hlen : (stack.take j).length = j := by
    rw [List.length_take, Nat.min_eq_left]
    by_contra hlt
    obtain ⟨slot, hslot, -⟩ := hslots stack.length (by omega)
    simp at hslot
  refine ⟨hlen, fun slot hmem => ?_⟩
  obtain ⟨i, hij, hi⟩ := mem_take_iff.mp hmem
  obtain ⟨slot', hslot, hsize⟩ := hslots i (by omega)
  obtain rfl := Option.some.inj (hslot.symm.trans hi)
  simp [block, hsize]

/-- The outer loop writes the blocks of the slots, one after another. -/
theorem putSlots_filled (hslots : ∀ j < k, ∃ slot, stack[j]? = some slot ∧ size ≤ slot.data.length)
    (hn : (size + 1) * k < 2 ^ 32) {j : Nat} (hj : j ≤ k) :
    forUpTo j (putSlot size stack) (List.replicate ((size + 1) * k) 0, 0) =
      some (filled ((size + 1) * k) ((stack.take j).flatMap (block size))) := by
  have hstart : filled ((size + 1) * k) ((stack.take 0).flatMap (block size)) =
      (List.replicate ((size + 1) * k) 0, 0) := by simp [filled]
  rw [← hstart]
  apply forUpTo_some (putSlot size stack)
    (fun j => filled ((size + 1) * k) ((stack.take j).flatMap (block size))) j
  intro i hi
  obtain ⟨slot, hslot, hsize⟩ := hslots i (by omega)
  obtain ⟨hlen, hwidth⟩ := length_blocks hslots (j := i) (by omega)
  have hroom : (size + 1) * i + (size + 1) ≤ (size + 1) * k := by
    rw [← Nat.mul_succ]
    exact Nat.mul_le_mul_left _ (by omega)
  rw [putSlot_filled hslot hsize (by rw [length_flatMap_width hwidth, hlen]; omega) hn, List.take_add_one,
    hslot, Option.toList_some, List.flatMap_append]
  simp

/-- Slots that store enough components, and a product below 2^32, give a reply that
is exactly the blocks of the slots, one after another. -/
theorem readBlocks_eq (hslots : ∀ j < k, ∃ slot, stack[j]? = some slot ∧ size ≤ slot.data.length)
    (hn : (size + 1) * k < 2 ^ 32) :
    readBlocks size k stack = some ((stack.take k).flatMap (block size)) := by
  have hlength : (size + 1) % 2 ^ 32 * k % 2 ^ 32 = (size + 1) * k := by
    rw [Nat.mod_mul_mod, Nat.mod_eq_of_lt hn]
  obtain ⟨hlen, hwidth⟩ := length_blocks hslots (Nat.le_refl k)
  simp only [readBlocks, hlength, putSlots_filled hslots hn (Nat.le_refl k), Option.bind_eq_bind,
    Option.bind_some, Option.pure_def]
  simp [filled, length_flatMap_width hwidth, hlen]

end Slots

omit [Double α] in
private theorem put_inside {reply reply' : Reply α} {x : α} (h : put reply x = some reply') :
    reply.2 < reply.1.length ∧ reply'.1.length = reply.1.length ∧ reply'.2 = (reply.2 + 1) % 2 ^ 32 := by
  obtain ⟨resCorba, hw, hr⟩ := Option.bind_eq_some_iff.mp h
  obtain ⟨hlt, rfl⟩ := writeAt_eq_some.mp hw
  cases hr
  exact ⟨hlt, List.length_set, rfl⟩

omit [Double α] in
private theorem putSlot_inside {n size j c : Nat} {stack : List (TsData α)} {reply reply' : Reply α}
    (hn : n < 2 ^ 32) (hlen : reply.1.length = n) (hc : reply.2 = c)
    (h : putSlot size stack j reply = some reply') :
    (∃ slot, stack[j]? = some slot ∧ size ≤ slot.data.length) ∧
      reply'.1.length = n ∧ reply'.2 = c + size + 1 ∧ c + size + 1 ≤ n := by
  obtain ⟨slot, hslot, h⟩ := Option.bind_eq_some_iff.mp h
  obtain ⟨reply₁, hput, h⟩ := Option.bind_eq_some_iff.mp h
  obtain ⟨hlt, hlen₁, hc₁⟩ := put_inside hput
  have inner := forUpTo_invariant
    (fun i (r : Reply α) => i ≤ slot.data.length ∧ r.1.length = n ∧ r.2 = c + i + 1 ∧ c + i + 1 ≤ n)
    _ _ _ _
    ⟨Nat.zero_le _, by omega, by rw [hc₁, hc, Nat.mod_eq_of_lt (by omega)], by omega⟩
    (by
      rintro i hi x y ⟨-, hx, hcx, hle⟩ hy
      obtain ⟨v, hv, hy⟩ := Option.bind_eq_some_iff.mp hy
      obtain ⟨hlt', hy₁, hy₂⟩ := put_inside hy
      have hin : i < slot.data.length := (List.getElem?_eq_some_iff.mp hv).1
      exact ⟨hin, by omega, by rw [hy₂, hcx, Nat.mod_eq_of_lt (by omega)]; omega, by omega⟩) h
  exact ⟨⟨slot, hslot, inner.1⟩, inner.2⟩

/-- A reply is only built from slots that store enough components, and only when
its length did not wrap. -/
theorem readBlocks_inside {size k : Nat} {stack : List (TsData α)} {resCorba : List α}
    (h : readBlocks size k stack = some resCorba) :
    (∀ j < k, ∃ slot, stack[j]? = some slot ∧ size ≤ slot.data.length) ∧ (size + 1) * k < 2 ^ 32 := by
  obtain ⟨reply, h, -⟩ := Option.bind_eq_some_iff.mp h
  have hn : (size + 1) % 2 ^ 32 * k % 2 ^ 32 < 2 ^ 32 := Nat.mod_lt _ (by decide)
  generalize (size + 1) % 2 ^ 32 * k % 2 ^ 32 = n at h hn
  have outer := forUpTo_invariant
    (fun j (r : Reply α) => (∀ i < j, ∃ slot, stack[i]? = some slot ∧ size ≤ slot.data.length) ∧
      r.1.length = n ∧ r.2 = (size + 1) * j ∧ (size + 1) * j ≤ n)
    _ _ _ _
    ⟨by simp, by simp, by simp, by simp⟩
    (by
      rintro j hj x y ⟨hall, hx, hcx, -⟩ hy
      obtain ⟨hslot, hy₁, hy₂, hle⟩ := putSlot_inside hn hx hcx hy
      refine ⟨fun i hi => ?_, hy₁, by rw [hy₂, Nat.mul_succ]; omega, by rw [Nat.mul_succ]; omega⟩
      rcases Nat.lt_or_eq_of_le (Nat.le_of_lt_succ hi) with hlt | rfl
      · exact hall i hlt
      · exact hslot) h
  exact ⟨outer.1, by omega⟩

end Blocks

section Read
variable {s : ServerCommand α} {signalRank : Int}

theorem readInput_outside (h : signalRank < 0 ∨ (s.vectorSIN.length : Int) ≤ signalRank) :
    readInputVectorSignal signalRank s = .ret (some []) s := by
  simp [readInputVectorSignal, h]

/-- What a readable input with this buffer is answered with. -/
def reading (data : List α) (aDS : DataStack α) : Option (List α) :=
  if aDS.lsizeOfSTD = 0 then some data else readBlocks data.length aDS.lsizeOfSTD aDS.stackOfTsData

omit [Double α] in
private theorem inside {signal : SignalPtr α} (h0 : 0 ≤ signalRank)
    (hs : s.vectorSIN[signalRank.toNat]? = some signal) :
    ¬(signalRank < 0 ∨ (s.vectorSIN.length : Int) ≤ signalRank) := by
  have := (List.getElem?_eq_some_iff.mp hs).1
  omega

theorem readInput_unreadable {signal : SignalPtr α} (h0 : 0 ≤ signalRank)
    (hs : s.vectorSIN[signalRank.toNat]? = some signal) (hp : signal.ptr = none) :
    readInputVectorSignal signalRank s = .raise .exceptionSignal s := by
  simp [readInputVectorSignal, inside h0 hs, elementAt_some h0 hs, accessCopy_none hp]

theorem readInput_unbuffered {signal : SignalPtr α} {data : List α} (h0 : 0 ≤ signalRank)
    (hs : s.vectorSIN[signalRank.toNat]? = some signal) (hp : signal.ptr = some data)
    (hd : (s.vectorSINStored.length : Int) ≤ signalRank) :
    readInputVectorSignal signalRank s = .undefined := by
  simp [readInputVectorSignal, inside h0 hs, elementAt_some h0 hs, accessCopy_some hp,
    elementAt_none (.inr hd)]

theorem readInput_readable {signal : SignalPtr α} {data : List α} {aDS : DataStack α}
    (h0 : 0 ≤ signalRank) (hs : s.vectorSIN[signalRank.toNat]? = some signal)
    (hp : signal.ptr = some data) (hd : s.vectorSINStored[signalRank.toNat]? = some aDS) :
    readInputVectorSignal signalRank s =
      match reading data aDS with
      | some value => .ret (some value) s
      | none => .undefined := by
  simp only [readInputVectorSignal, Method.bind_apply, Method.get_apply, Outcome.bind_ret,
    if_neg (inside h0 hs), elementAt_some h0 hs, accessCopy_some hp, elementAt_some h0 hd, reading]
  split
  · simp [copyInto_eq]
  · cases readBlocks data.length aDS.lsizeOfSTD aDS.stackOfTsData <;> simp

omit [Double α] in
theorem signal_of_copy {rank : Nat} {data : List α} (h : s.copyAt rank = some data) :
    ∃ signal, s.vectorSIN[rank]? = some signal ∧ signal.ptr = some data := Option.bind_eq_some_iff.mp h

theorem readInput_copy {rank : Nat} {data : List α} {aDS : DataStack α} (hcopy : s.copyAt rank = some data)
    (hd : s.vectorSINStored[rank]? = some aDS) :
    readInputVectorSignal rank s =
      match reading data aDS with
      | some value => .ret (some value) s
      | none => .undefined := by
  obtain ⟨signal, hs, hp⟩ := signal_of_copy hcopy
  exact readInput_readable (Int.natCast_nonneg rank) (by simpa using hs) hp (by simpa using hd)

/-- Reading one signal changes nothing. -/
theorem readInput_cases (s : ServerCommand α) (signalRank : Int) :
    (∃ value, readInputVectorSignal signalRank s = .ret (some value) s) ∨
      readInputVectorSignal signalRank s = .raise .exceptionSignal s ∨
      readInputVectorSignal signalRank s = .undefined := by
  by_cases hout : signalRank < 0 ∨ (s.vectorSIN.length : Int) ≤ signalRank
  · exact .inl ⟨[], readInput_outside hout⟩
  · have h0 : 0 ≤ signalRank := by omega
    have hs := List.getElem?_eq_getElem (l := s.vectorSIN) (i := signalRank.toNat) (by omega)
    cases hp : s.vectorSIN[signalRank.toNat].ptr with
    | none => exact .inr (.inl (readInput_unreadable h0 hs hp))
    | some data =>
      cases hd : s.vectorSINStored[signalRank.toNat]? with
      | none =>
        have := List.getElem?_eq_none_iff.mp hd
        exact .inr (.inr (readInput_unbuffered h0 hs hp (by omega)))
      | some aDS =>
        rw [readInput_readable h0 hs hp hd]
        cases reading data aDS with
        | none => exact .inr (.inr rfl)
        | some value => exact .inl ⟨value, rfl⟩

end Read

section ReadSeq
variable {s : ServerCommand α} {signalRanks : List Int}

/-- The rank names an input signal that cannot be read. -/
def UnreadableAt (s : ServerCommand α) (signalRank : Int) : Prop :=
  0 ≤ signalRank ∧ ∃ signal, s.vectorSIN[signalRank.toNat]? = some signal ∧ signal.ptr = none

private theorem readSeqSignal_cases {liRank : Nat} {signalRank : Int}
    (h : signalRanks[liRank]? = some signalRank) :
    (¬UnreadableAt s signalRank → readSeqSignal signalRanks liRank (List.replicate signalRanks.length []) s =
      .ret (List.replicate signalRanks.length []) s) ∧
    (UnreadableAt s signalRank → readSeqSignal signalRanks liRank (List.replicate signalRanks.length []) s =
      .raise .exceptionSignal s) := by
  have hi : liRank < signalRanks.length := (List.getElem?_eq_some_iff.mp h).1
  have hget : (List.replicate signalRanks.length ([] : List α))[liRank]? = some [] := by simp [hi]
  by_cases hin : 0 ≤ signalRank ∧ signalRank < s.vectorSIN.length
  · have hs := List.getElem?_eq_getElem (l := s.vectorSIN) (i := signalRank.toNat) (by omega)
    cases hp : s.vectorSIN[signalRank.toNat].ptr with
    | none =>
      refine ⟨fun hno => absurd ⟨hin.1, _, hs, hp⟩ hno, fun _ => ?_⟩
      simp [readSeqSignal, element_some h, hin, elementAt_some hin.1 hs, accessCopy_none hp]
    | some data =>
      refine ⟨fun _ => ?_, fun ⟨_, signal, hs', hp'⟩ => ?_⟩
      · simp [readSeqSignal, element_some h, hin, elementAt_some hin.1 hs, accessCopy_some hp,
          element_some hget, copyInto_eq]
      · obtain rfl := Option.some.inj (hs.symm.trans hs')
        exact absurd (hp.symm.trans hp') (by simp)
  · refine ⟨fun _ => by simp [readSeqSignal, element_some h, hin], fun ⟨h0, signal, hs, _⟩ => ?_⟩
    have := (List.getElem?_eq_some_iff.mp hs).1
    exact absurd ⟨h0, by omega⟩ hin

/-- The batch read answers with empty sequences, whatever the signals carry. -/
theorem readSeq_ret (h : ∀ r ∈ signalRanks, ¬UnreadableAt s r) :
    readSeqInputVectorSignal signalRanks s = .ret (some (List.replicate signalRanks.length [])) s := by
  have run := forUpTo_ret (readSeqSignal (α := α) signalRanks)
    (fun _ => List.replicate signalRanks.length []) (fun _ => s) signalRanks.length (by
      intro i hi
      exact (readSeqSignal_cases (List.getElem?_eq_getElem hi)).1 (h _ (List.getElem_mem hi)))
  simp [readSeqInputVectorSignal, run]

theorem readSeq_raise (h : ∃ r ∈ signalRanks, UnreadableAt s r) :
    readSeqInputVectorSignal signalRanks s = .raise .exceptionSignal s := by
  classical
  have hex : ∃ k : Nat, ∃ r, signalRanks[k]? = some r ∧ UnreadableAt s r := by
    obtain ⟨r, hr, hun⟩ := h
    obtain ⟨k, hk⟩ := List.getElem?_of_mem hr
    exact ⟨k, r, hk, hun⟩
  obtain ⟨r, hr, hun⟩ := Nat.find_spec hex
  have hk : Nat.find hex < signalRanks.length := (List.getElem?_eq_some_iff.mp hr).1
  have run := forUpTo_ret (readSeqSignal (α := α) signalRanks)
    (fun _ => List.replicate signalRanks.length []) (fun _ => s) (Nat.find hex) (by
      intro i hi
      have hget := List.getElem?_eq_getElem (hi.trans hk)
      exact (readSeqSignal_cases hget).1 fun hbad => Nat.find_min hex hi ⟨_, hget, hbad⟩)
  have stop : forUpTo signalRanks.length (readSeqSignal signalRanks)
      (List.replicate signalRanks.length ([] : List α)) s = .raise .exceptionSignal s := by
    apply forUpTo_stop _ _ _ _ (fun _ => rfl) _ _ hk
    rw [forUpTo, Method.bind_apply, run]
    exact (readSeqSignal_cases hr).2 hun
  simp [readSeqInputVectorSignal, stop]

end ReadSeq

theorem writeOutput_inside {s : ServerCommand α} {signalRank : Int} {signal : SignalTimeDependent α}
    (h0 : 0 ≤ signalRank) (h : s.vectorSOUT[signalRank.toNat]? = some signal) (value : List α) :
    writeOutputVectorSignal signalRank value s =
      .ret () { s with vectorSOUT := s.vectorSOUT.set signalRank.toNat { signal with value := value } } := by
  simp [writeOutputVectorSignal, elementAt_some h0 h, copyInto_eq]

theorem writeOutput_outside {s : ServerCommand α} {signalRank : Int}
    (h : signalRank < 0 ∨ (s.vectorSOUT.length : Int) ≤ signalRank) (value : List α) :
    writeOutputVectorSignal signalRank value s = .undefined := by
  simp [writeOutputVectorSignal, elementAt_none h]

end DgMiddleware.Server
