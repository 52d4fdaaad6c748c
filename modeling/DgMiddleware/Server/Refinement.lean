import DgMiddleware.Library.Simulation
import DgMiddleware.Server.RingLog
import DgMiddleware.Server.Store

/-! The server does what the store says. Signals and ranks are where the store has them,
and the stack of every input is the ring of its history. -/
namespace DgMiddleware.Server
open Library
variable {α : Type}

def Input.signal (input : Input α) : SignalPtr α := ⟨input.name, input.current⟩

/-- The stack of an input that was never sized, or was last sized to zero, and of one
with slots. -/
inductive Input.Holds [Double α] : Input α → DataStack α → Prop
  | unbuffered (name : String) (current : Option (List α)) : Holds ⟨name, current, 0, []⟩ .empty
  | buffered (name : String) (current : Option (List α)) {N : Nat} [NeZero N] {history : List (TsData α)}
      {aDS : DataStack α} (hN : N < 2 ^ 32)
      (hrep : aDS.Represents (Ring.log .default history : Ring (TsData α) N)) : Holds ⟨name, current, N, history⟩ aDS

section Holds
variable [Double α] {input : Input α} {aDS : DataStack α}

/-- A reader walks over the samples that are kept. -/
theorem Input.Holds.walked (h : input.Holds aDS) :
    aDS.stackOfTsData.take aDS.lsizeOfSTD = input.kept ∧ aDS.lsizeOfSTD = input.kept.length ∧
      aDS.lsizeOfSTD ≤ aDS.stackOfTsData.length := by
  cases h with
  | unbuffered name current => exact ⟨rfl, rfl, Nat.le_refl 0⟩
  | @buffered name current N _ history _ hN hrep =>
    have hlen := hrep.length
    have hsize : aDS.lsizeOfSTD = (Ring.arranged N history).length := by
      rw [log_lsizeOfSTD hrep, Ring.length_arranged]
    have htake : aDS.stackOfTsData.take aDS.lsizeOfSTD = aDS.stackOfTsData.take history.length := by
      rw [log_lsizeOfSTD hrep, ← hlen]
      exact List.take_eq_take_iff.mpr (by omega)
    refine ⟨?_, hsize, ?_⟩
    · rw [htake, hrep.slots, Ring.log_arranged]
      rfl
    · rw [log_lsizeOfSTD hrep, hlen]
      exact Nat.min_le_right _ _

/-- What the server answers a reader of a readable input with. -/
theorem Input.Holds.reading (h : input.Holds aDS) {data : List α} (hdata : input.current = some data) :
    input.read = (Server.reading data aDS).map .ok := by
  obtain ⟨htake, hsize, hle⟩ := h.walked
  have hroom : (∀ j < aDS.lsizeOfSTD, ∃ slot, aDS.stackOfTsData[j]? = some slot ∧ data.length ≤ slot.data.length) ↔
      ∀ x ∈ input.kept, data.length ≤ x.data.length := by
    rw [← htake]
    constructor
    · intro hall x hx
      obtain ⟨j, hj, hget⟩ := mem_take_iff.mp hx
      obtain ⟨slot, hslot, hlen⟩ := hall j hj
      rwa [Option.some.inj (hget.symm.trans hslot)]
    · intro hall j hj
      have hget := List.getElem?_eq_getElem (l := aDS.stackOfTsData) (i := j) (by omega)
      exact ⟨_, hget, hall _ (mem_take_iff.mpr ⟨j, hj, hget⟩)⟩
  unfold Input.read Server.reading
  rw [hdata]
  by_cases hzero : aDS.lsizeOfSTD = 0
  · have hnil : input.kept.isEmpty = true := by rw [List.isEmpty_iff_length_eq_zero, ← hsize, hzero]
    simp [hzero, hnil]
  · have hsome : ¬input.kept.isEmpty = true := by rwa [List.isEmpty_iff_length_eq_zero, ← hsize]
    simp only [hsome, hzero, if_false]
    by_cases hfits : (∀ x ∈ input.kept, data.length ≤ x.data.length) ∧ (data.length + 1) * input.kept.length < 2 ^ 32
    · rw [if_pos hfits, readBlocks_eq (hroom.mpr hfits.1) (hsize ▸ hfits.2), htake]
      rfl
    · rw [if_neg hfits]
      cases hblocks : readBlocks data.length aDS.lsizeOfSTD aDS.stackOfTsData with
      | none => rfl
      | some value =>
        obtain ⟨hslots, hlength⟩ := readBlocks_inside hblocks
        exact absurd ⟨hroom.mp hslots, hsize ▸ hlength⟩ hfits

/-- One sample more, if the input takes any. -/
theorem Input.Holds.sampled (h : input.Holds aDS) {s : ServerCommand α} {r : Nat} (time : Int)
    (hcopy : s.copyAt r = input.current) : (input.sample time).Holds (sampled time s r aDS) := by
  cases h with
  | unbuffered name current =>
    have hempty : Server.sampled time s r (.empty : DataStack α) = .empty := by simp [Server.sampled, DataStack.empty]
    rw [hempty, Input.sample]
    cases current <;> exact .unbuffered name _
  | @buffered name current N _ history _ hN hrep =>
    cases current with
    | none =>
      have hsame : Server.sampled time s r aDS = aDS := by
        rw [Server.sampled, hcopy]
        split <;> rfl
      rw [hsame]
      exact .buffered name none hN hrep
    | some data =>
      have hnew : Input.sample time ⟨name, some data, N, history⟩ =
          ⟨name, some data, N, history ++ [⟨timeStamp time, data⟩]⟩ := by
        simp [Input.sample, NeZero.ne N]
      rw [hnew]
      refine .buffered name _ hN ?_
      rw [Ring.log_snoc]
      exact sampled_represents hrep hN hcopy time

/-- A new size, where there are no samples or it is the old one. -/
theorem Input.Holds.resized (h : input.Holds aDS) {size : Nat} (hsize : size < 2 ^ 32)
    (hkeep : aDS.lsizeOfSTD = 0 ∨ aDS.stackOfTsData.length = size) :
    Input.Holds { input with size := size } (aDS.resizeTo size) := by
  have hfresh : ∀ (name : String) (current : Option (List α)),
      Input.Holds ⟨name, current, size, []⟩ (DataStack.empty.resizeTo size) := by
    intro name current
    rcases Nat.eq_zero_or_pos size with rfl | hpos
    · exact .unbuffered name current
    · have : NeZero size := ⟨by omega⟩
      exact .buffered name current hsize DataStack.represents_fresh
  cases h with
  | unbuffered name current => exact hfresh name current
  | @buffered name current N _ history _ hN hrep =>
    rcases hkeep with hnone | hsame
    · have hnil : history = [] := by
        have hmin := log_lsizeOfSTD hrep
        have hpos := Nat.pos_of_ne_zero (NeZero.ne N)
        exact List.length_eq_zero_iff.mp (by omega)
      subst hnil
      have hblank : aDS.resizeTo size = DataStack.empty.resizeTo size := by
        obtain ⟨hslots, hindex, hturn⟩ := hrep
        obtain ⟨stack, index, turnaround⟩ := aDS
        simp only [Ring.log_nil, Ring.fresh] at hslots hindex hturn
        subst hslots hindex hturn
        simp [DataStack.resizeTo, DataStack.empty, resize, List.ofFn_const]
        omega
      rw [hblank]
      exact hfresh name current
    · obtain rfl : N = size := hrep.length.symm.trans hsame
      rw [resize_represented hrep]
      exact .buffered name current hN hrep

end Holds

/-- The inputs and outputs of the server are those of the store, a local name is that of
an input exactly where the entity has it so, and every stack holds its history. -/
structure Refines [Double α] (localName : String → String) (s : ServerCommand α) (a : Store α) : Prop where
  registry : Registry s
  mapped : ∀ (key : String) (rank : Nat), s.signalMap[key]? = some (.vectorSIN rank) ↔
    ∃ name, s.inputNames[rank]? = some name ∧ localName name = key
  outputs : s.vectorSOUT = a.outputs
  inputs : s.vectorSIN = a.inputs.map Input.signal
  buffers : ∀ (r : Nat) (input : Input α), a.inputs[r]? = some input →
    ∃ aDS, s.vectorSINStored[r]? = some aDS ∧ input.Holds aDS

/-- No registration is refused, and no size is changed of a buffer that holds samples, or
of one that is not there. -/
def Admits (localName : String → String) (s : ServerCommand α) : Op α → Prop
  | .createInputVectorSignal name => name ∈ s.inputNames ∨ ¬Refused localName s name
  | .createOutputVectorSignal name => name ∈ s.outputNames ∨ ¬Refused localName s name
  | .buffer cmdArgs uninitialised => ∃ x ∈ s.inputNames.zip s.vectorSINStored,
      x.1 = (bufferArgs cmdArgs uninitialised).1 ∧
        (x.2.lsizeOfSTD = 0 ∨ x.2.stackOfTsData.length = (bufferArgs cmdArgs uninitialised).2)
  | _ => True

instance (localName : String → String) (s : ServerCommand α) (op : Op α) : Decidable (Admits localName s op) := by
  unfold Admits
  split <;> infer_instance

/-- The same result, in related states, or none on both sides. -/
def Agrees [Double α] (localName : String → String) (o : Outcome Exception (ServerCommand α) (Answer α))
    (answered : Option (Except Exception (Answer α) × Store α)) : Prop :=
  match o, answered with
  | .ret answer t, some (result, b) => result = .ok answer ∧ Refines localName t b
  | .raise e t, some (result, b) => result = .error e ∧ Refines localName t b
  | .undefined, none => True
  | _, _ => False

section Refinement
variable [Double α] {localName : String → String} {s : ServerCommand α} {a : Store α}

theorem Refines.inputNames (h : Refines localName s a) : s.inputNames = a.inputNames := by
  rw [ServerCommand.inputNames, h.inputs, Store.inputNames, List.map_map]
  rfl

theorem Refines.outputNames (h : Refines localName s a) : s.outputNames = a.outputNames := by
  rw [ServerCommand.outputNames, h.outputs]
  rfl

theorem Refines.length (h : Refines localName s a) : s.vectorSIN.length = a.inputs.length := by
  rw [h.inputs, List.length_map]

theorem Refines.signal (h : Refines localName s a) (r : Nat) :
    s.vectorSIN[r]? = a.inputs[r]?.map Input.signal := by
  rw [h.inputs, List.getElem?_map]

theorem Refines.copyAt (h : Refines localName s a) {r : Nat} {input : Input α} (hr : a.inputs[r]? = some input) :
    s.copyAt r = input.current := by
  rw [ServerCommand.copyAt, h.signal, hr]
  rfl

theorem refines_construct (server : String) :
    Refines localName (ServerCommand.construct localName server : ServerCommand α) .empty where
  registry := .construct server
  mapped key rank := by
    simp only [ServerCommand.construct, lookup_insert]
    constructor
    · intro h
      split at h
      · cases h
      split at h
      · cases h
      split at h
      · cases h
      · simp at h
    · rintro ⟨name, hname, -⟩
      simp [ServerCommand.inputNames] at hname
  outputs := rfl
  inputs := rfl
  buffers r input hr := by simp [Store.empty] at hr

omit [Double α] in
private theorem idxOf_eq {names : List String} (hnodup : names.Nodup) {i : Nat} {name : String}
    (h : names[i]? = some name) : names.idxOf name = i := by
  obtain ⟨hi, rfl⟩ := List.getElem?_eq_some_iff.mp h
  exact hnodup.idxOf_getElem i hi

/-- The registry after an operation that returned. -/
private theorem registry_ret (h : Refines localName s a) {op : Op α} {answer : Answer α} {t : ServerCommand α}
    (hret : perform localName op s = .ret answer t) : Registry t :=
  h.registry.step (e := ⟨0, op, .ok answer⟩) (by cases op <;> rfl) hret

/-- What is unchanged in the map and the inputs and outputs. -/
private theorem Refines.kept (h : Refines localName s a) {t : ServerCommand α} (hregistry : Registry t)
    (hmap : t.signalMap = s.signalMap) (hsin : t.vectorSIN = s.vectorSIN) (hsout : t.vectorSOUT = s.vectorSOUT)
    {inputs : List (Input α)} (hsignals : inputs.map Input.signal = a.inputs.map Input.signal)
    (hbuffers : ∀ (r : Nat) (input : Input α), inputs[r]? = some input →
      ∃ aDS, t.vectorSINStored[r]? = some aDS ∧ input.Holds aDS) :
    Refines localName t { a with inputs := inputs } where
  registry := hregistry
  mapped key rank := by
    have hnames : t.inputNames = s.inputNames := by rw [ServerCommand.inputNames, hsin, ServerCommand.inputNames]
    rw [hmap, hnames]
    exact h.mapped key rank
  outputs := hsout.trans h.outputs
  inputs := by rw [hsin, h.inputs, hsignals]
  buffers := hbuffers

private theorem createInput_agrees (h : Refines localName s a) {name : String}
    (hadm : name ∈ s.inputNames ∨ ¬Refused localName s name) :
    Agrees localName (perform localName (.createInputVectorSignal name) s)
      (a.perform localName (.createInputVectorSignal name)) := by
  rw [Store.perform, ← h.inputNames]
  rcases createInput_cases localName s name with ⟨i, hi, he⟩ | ⟨hn, hr, he⟩ | ⟨hn, hr, -⟩
  · have hret : perform localName (.createInputVectorSignal name) s = .ret (.rank i) s := by simp [perform, he]
    rw [hret, if_pos (List.mem_of_getElem? hi), idxOf_eq h.registry.inputs hi]
    exact ⟨rfl, h⟩
  · have hret : perform localName (.createInputVectorSignal name) s =
        .ret (.rank s.vectorSIN.length) (withInput localName s name) := by simp [perform, he]
    rw [hret, if_neg hn, h.length]
    refine ⟨rfl, registry_ret h hret, fun key rank => ?_, h.outputs, by simp [withInput, h.inputs, Input.signal,
      Input.new], fun r input hr' => ?_⟩
    · have hfresh : ∀ rank, s.signalMap[localName name]? ≠ some (.vectorSIN rank) := by
        intro rank hsome
        exact hr (Std.ExtTreeMap.mem_iff_isSome_getElem?.mpr (by simp [hsome]))
      have hlen : s.inputNames.length = s.vectorSIN.length := List.length_map _
      rw [inputNames_withInput]
      simp only [withInput, lookup_insert, getElem?_snoc]
      constructor
      · intro hget
        split at hget
        · rename_i hkey
          cases hget
          exact ⟨name, .inr ⟨hlen.symm, rfl⟩, hkey⟩
        · obtain ⟨other, hother, hkey⟩ := (h.mapped key rank).mp hget
          exact ⟨other, .inl hother, hkey⟩
      · rintro ⟨other, hother | ⟨hrank, hsame⟩, hkey⟩
        · have hold := (h.mapped key rank).mpr ⟨other, hother, hkey⟩
          have hne : localName name ≠ key := fun heq => hfresh rank (heq ▸ hold)
          rw [if_neg hne, hold]
        · rw [if_pos (hsame ▸ hkey), hrank, hlen]
    · rcases getElem?_snoc.mp hr' with hold | ⟨rfl, rfl⟩
      · obtain ⟨aDS, hget, hholds⟩ := h.buffers r input hold
        exact ⟨aDS, getElem?_snoc.mpr (.inl hget), hholds⟩
      · refine ⟨.empty, getElem?_snoc.mpr (.inr ⟨?_, rfl⟩), .unbuffered name none⟩
        rw [← h.length, h.registry.length]
  · exact absurd hr (hadm.resolve_left hn)

private theorem createOutput_agrees (h : Refines localName s a) {name : String}
    (hadm : name ∈ s.outputNames ∨ ¬Refused localName s name) :
    Agrees localName (perform localName (.createOutputVectorSignal name) s)
      (a.perform localName (.createOutputVectorSignal name)) := by
  rw [Store.perform, ← h.outputNames, ← h.outputs]
  rcases createOutput_cases localName s name with ⟨i, hi, he⟩ | ⟨hn, hr, he⟩ | ⟨hn, hr, -⟩
  · have hret : perform localName (.createOutputVectorSignal name) s = .ret (.rank i) s := by simp [perform, he]
    rw [hret, if_pos (List.mem_of_getElem? hi), idxOf_eq h.registry.outputs hi]
    exact ⟨rfl, h⟩
  · have hret : perform localName (.createOutputVectorSignal name) s =
        .ret (.rank s.vectorSOUT.length) (withOutput localName s name) := by simp [perform, he]
    rw [hret, if_neg hn]
    refine ⟨rfl, registry_ret h hret, fun key rank => ?_, rfl, h.inputs, h.buffers⟩
    have hnames : (withOutput localName s name).inputNames = s.inputNames := rfl
    rw [hnames, ← h.mapped key rank]
    simp only [withOutput, lookup_insert]
    split
    · rename_i hkey
      refine iff_of_false (by simp) fun hold => hr ?_
      exact Std.ExtTreeMap.mem_iff_isSome_getElem?.mpr (by simp [hkey, hold])
    · exact Iff.rfl
  · exact absurd hr (hadm.resolve_left hn)

private theorem buffer_agrees (h : Refines localName s a) {cmdArgs : String} {uninitialised : UInt32}
    (hadm : Admits localName s (.buffer cmdArgs uninitialised)) :
    Agrees localName (perform localName (.buffer cmdArgs uninitialised) s)
      (a.perform localName (.buffer cmdArgs uninitialised)) := by
  obtain ⟨⟨name, aDS⟩, hmem, hname, hkeep⟩ := hadm
  obtain ⟨r, hr⟩ := List.getElem?_of_mem hmem
  obtain ⟨hnames, hget⟩ := List.getElem?_zip_eq_some.mp hr
  have hsize : (bufferArgs cmdArgs uninitialised).2 < 2 ^ 32 := UInt32.toNat_lt _
  rw [Store.perform]
  generalize hargs : bufferArgs cmdArgs uninitialised = args at hname hkeep hsize ⊢
  obtain ⟨name', size⟩ := args
  obtain rfl : name = name' := hname
  dsimp only at hnames hget hkeep hsize ⊢
  have hrank := h.registry.rank_eq hnames
  have hret : perform localName (.buffer cmdArgs uninitialised) s = .ret .done (withBuffer s name aDS size) := by
    simp [perform, bufferSignal_eq, hargs, hrank, hget, withBuffer]
  rw [hret, ← h.inputNames, if_pos (List.mem_of_getElem? hnames), idxOf_eq h.registry.inputs hnames]
  refine ⟨rfl, h.kept (registry_ret h hret) rfl rfl rfl ?_ fun i input hi => ?_⟩
  · apply List.ext_getElem?
    intro i
    rw [List.getElem?_map, List.getElem?_map, List.getElem?_modify]
    cases a.inputs[i]? with
    | none => rfl
    | some input =>
      by_cases hri : r = i <;> simp [hri, Input.signal]
  · rw [List.getElem?_modify] at hi
    obtain ⟨old, hold, rfl⟩ := Option.map_eq_some_iff.mp hi
    obtain ⟨aDS', hget', hholds⟩ := h.buffers i old hold
    simp only [withBuffer, hrank, List.getElem?_set]
    by_cases hri : r = i
    · subst hri
      obtain rfl := Option.some.inj (hget.symm.trans hget')
      have hlt := (List.getElem?_eq_some_iff.mp hget).1
      simp only [if_true, hlt]
      exact ⟨_, rfl, hholds.resized hsize hkeep⟩
    · simp only [hri, if_false]
      exact ⟨aDS', hget', hholds⟩

/-- What ends a synchronisation step is an input that blocks it. -/
private theorem recordable_iff (h : Refines localName s a) {r : Nat} {input : Input α}
    (hr : a.inputs[r]? = some input) : Recordable s r ↔ input.blocks = false := by
  obtain ⟨aDS, hget, hholds⟩ := h.buffers r input hr
  have hcopy := h.copyAt hr
  cases hholds with
  | unbuffered name current =>
    refine iff_of_true (fun aDS' hget' hbuf => ?_) rfl
    obtain rfl := Option.some.inj (hget.symm.trans hget')
    exact absurd rfl hbuf
  | @buffered name current N _ history _ hN hrep =>
    have hlen := hrep.length
    constructor
    · intro hrec
      have hbuf : aDS.stackOfTsData ≠ [] := fun hnil => NeZero.ne N (by rw [← hlen, hnil, List.length_nil])
      obtain ⟨⟨data, hdata⟩, -⟩ := hrec aDS hget hbuf
      obtain rfl : current = some data := hcopy.symm.trans hdata
      simp [Input.blocks]
    · intro hno aDS' hget' _
      obtain rfl := Option.some.inj (hget.symm.trans hget')
      refine ⟨?_, by rw [hlen, hrep.index]; exact (Ring.log _ history).index.isLt⟩
      cases current with
      | none => simp [Input.blocks, NeZero.ne N] at hno
      | some data => exact ⟨data, hcopy⟩

private theorem sampled_refines (h : Refines localName s a) (time : Int) (k : Nat) :
    Refines localName (synchronised time s k) (a.sampled time k) := by
  have hregistry : Registry (synchronised time s k) :=
    ⟨by simpa [synchronised] using h.registry.length, h.registry.inputs, h.registry.outputs, h.registry.ranks⟩
  refine h.kept hregistry rfl rfl rfl ?_ fun r input hr => ?_
  · apply List.ext_getElem?
    intro i
    rw [List.getElem?_map, List.getElem?_map, List.getElem?_mapIdx]
    cases a.inputs[i]? with
    | none => rfl
    | some input => by_cases hi : i < k <;> simp [hi, Input.signal]
  · rw [List.getElem?_mapIdx] at hr
    obtain ⟨old, hold, rfl⟩ := Option.map_eq_some_iff.mp hr
    obtain ⟨aDS, hget, hholds⟩ := h.buffers r old hold
    rw [synchronised_stored, hget, Option.map_some]
    by_cases hk : r < k
    · simp only [hk, if_true]
      exact ⟨_, rfl, hholds.sampled time (h.copyAt hold)⟩
    · simp only [hk, if_false]
      exact ⟨aDS, rfl, hholds⟩

private theorem synchro_agrees (h : Refines localName s a) (internalStep : Option Exception) (time : Int) :
    Agrees localName (perform localName (.synchro internalStep time) s)
      (a.perform localName (.synchro internalStep time)) := by
  cases internalStep with
  | some e =>
    have hraise : perform localName (.synchro (some e) time) s = .raise e s := by simp [perform, synchroValue]
    rw [hraise]
    exact ⟨rfl, h⟩
  | none =>
    have hstored : s.vectorSINStored.length = a.inputs.length := by rw [← h.registry.length, h.length]
    have hfirst : ∀ k, (∀ i < k, Recordable s i) → ∀ i (hi : i < a.inputs.length), i < k →
        a.inputs[i].blocks = false := fun k before i hi hlt =>
      (recordable_iff h (List.getElem?_eq_getElem hi)).mp (before i hlt)
    rw [Store.perform]
    rcases synchroValue_cases 0 time s with ⟨hall, he⟩ | ⟨k, aDS, hk, hbuf, before, hend⟩
    · have hret : perform localName (.synchro none time) s =
          .ret .done (synchronised time s s.vectorSINStored.length) := by simp [perform, he]
      have hnone : a.inputs.findIdx? (·.blocks) = none := by
        refine List.findIdx?_eq_none_iff.mpr fun input hmem => ?_
        obtain ⟨i, hi, rfl⟩ := List.getElem_of_mem hmem
        exact hfirst _ hall i hi (by omega)
      rw [hret, hnone, hstored]
      exact ⟨rfl, sampled_refines h time _⟩
    · have hklt : k < a.inputs.length := by
        rw [← hstored]
        exact (List.getElem?_eq_some_iff.mp hk).1
      have hget := List.getElem?_eq_getElem hklt
      rcases hend with ⟨⟨signal, hsig, hptr⟩, he⟩ | ⟨hread, hno, -⟩
      · have hraise : perform localName (.synchro none time) s =
            .raise .exceptionSignal (synchronised time s k) := by simp [perform, he]
        have hnot : ¬Recordable s k := by
          intro hrec
          obtain ⟨⟨data, hdata⟩, -⟩ := hrec aDS hk hbuf
          simp [ServerCommand.copyAt, hsig, hptr] at hdata
        have hblocks : a.inputs[k].blocks = true := by
          rw [recordable_iff h hget, Bool.not_eq_false] at hnot
          exact hnot
        have hsome : a.inputs.findIdx? (·.blocks) = some k := by
          refine List.findIdx?_eq_some_iff_getElem.mpr ⟨hklt, hblocks, fun i hi => ?_⟩
          simp [hfirst k before i (by omega) hi]
        rw [hraise, hsome]
        exact ⟨rfl, sampled_refines h time k⟩
      · refine absurd ⟨a.inputs[k].signal, by rw [h.signal, hget]; rfl, ?_⟩ hread
        rw [recordable_iff h hget, Bool.not_eq_false] at hno
        simp only [Input.blocks, Bool.and_eq_true, Option.isNone_iff_eq_none] at hno
        exact hno.2

private theorem readInput_agrees (h : Refines localName s a) (signalRank : Int) :
    Agrees localName (perform localName (.readInputVectorSignal signalRank) s)
      (a.perform localName (.readInputVectorSignal signalRank)) := by
  have hout : signalRank < 0 ∨ (s.vectorSIN.length : Int) ≤ signalRank →
      perform localName (.readInputVectorSignal signalRank) s = .ret (.doubles (some [])) s := by
    intro hout
    simp [perform, readInput_outside hout]
  rw [Store.perform]
  by_cases hneg : signalRank < 0
  · rw [hout (.inl hneg), if_pos hneg]
    exact ⟨rfl, h⟩
  · rw [if_neg hneg]
    cases hr : a.inputs[signalRank.toNat]? with
    | none =>
      have hlen := List.getElem?_eq_none_iff.mp hr
      rw [hout (.inr (by rw [h.length]; omega))]
      exact ⟨rfl, h⟩
    | some input =>
      have hsig : s.vectorSIN[signalRank.toNat]? = some input.signal := by rw [h.signal, hr]; rfl
      obtain ⟨aDS, hget, hholds⟩ := h.buffers _ input hr
      dsimp only
      cases hdata : input.current with
      | none =>
        have hraise : perform localName (.readInputVectorSignal signalRank) s = .raise .exceptionSignal s := by
          simp [perform, readInput_unreadable (not_lt.mp hneg) hsig hdata]
        have hthrow : input.read = some (.error .exceptionSignal) := by simp [Input.read, hdata]
        rw [hraise, hthrow]
        exact ⟨rfl, h⟩
      | some data =>
        have hread := readInput_readable (not_lt.mp hneg) hsig hdata hget
        rw [hholds.reading hdata]
        cases hreading : reading data aDS with
        | none =>
          have hundefined : perform localName (.readInputVectorSignal signalRank) s = .undefined := by
            simp [perform, hread, hreading]
          rw [hundefined]
          trivial
        | some value =>
          have hret : perform localName (.readInputVectorSignal signalRank) s = .ret (.doubles (some value)) s := by
            simp [perform, hread, hreading]
          rw [hret]
          exact ⟨rfl, h⟩

private theorem unreadable_iff (h : Refines localName s a) (signalRank : Int) :
    a.unreadable signalRank = true ↔ UnreadableAt s signalRank := by
  simp only [Store.unreadable, Bool.and_eq_true, decide_eq_true_eq, UnreadableAt, h.signal]
  refine and_congr_right fun _ => ?_
  cases a.inputs[signalRank.toNat]? <;> simp [Input.signal]

private theorem readSeq_agrees (h : Refines localName s a) (signalRanks : List Int) :
    Agrees localName (perform localName (.readSeqInputVectorSignal signalRanks) s)
      (a.perform localName (.readSeqInputVectorSignal signalRanks)) := by
  have hany : signalRanks.any a.unreadable = true ↔ ∃ r ∈ signalRanks, UnreadableAt s r := by
    simp [List.any_eq_true, unreadable_iff h]
  rw [Store.perform]
  by_cases hun : ∃ r ∈ signalRanks, UnreadableAt s r
  · have hraise : perform localName (.readSeqInputVectorSignal signalRanks) s = .raise .exceptionSignal s := by
      simp [perform, readSeq_raise hun]
    rw [hraise, if_pos (hany.mpr hun)]
    exact ⟨rfl, h⟩
  · have hret : perform localName (.readSeqInputVectorSignal signalRanks) s =
        .ret (.doubleSeqs (some (List.replicate signalRanks.length []))) s := by
      simp [perform, readSeq_ret fun r hr hbad => hun ⟨r, hr, hbad⟩]
    rw [hret, if_neg (mt hany.mp hun)]
    exact ⟨rfl, h⟩

private theorem write_agrees (h : Refines localName s a) (signalRank : Int) (value : List α) :
    Agrees localName (perform localName (.writeOutputVectorSignal signalRank value) s)
      (a.perform localName (.writeOutputVectorSignal signalRank value)) := by
  have hout : signalRank < 0 ∨ (s.vectorSOUT.length : Int) ≤ signalRank →
      perform localName (.writeOutputVectorSignal signalRank value) s = .undefined := by
    intro hout
    simp [perform, writeOutput_outside hout]
  rw [Store.perform, ← h.outputs]
  by_cases hneg : signalRank < 0
  · rw [hout (.inl hneg), if_pos hneg]
    trivial
  · rw [if_neg hneg]
    cases hget : s.vectorSOUT[signalRank.toNat]? with
    | none =>
      have hlen := List.getElem?_eq_none_iff.mp hget
      rw [hout (.inr (by omega))]
      trivial
    | some signal =>
      have hret : perform localName (.writeOutputVectorSignal signalRank value) s = .ret .done
          { s with vectorSOUT := s.vectorSOUT.set signalRank.toNat { signal with value := value } } := by
        simp [perform, writeOutput_inside (not_lt.mp hneg) hget]
      rw [hret]
      exact ⟨rfl, registry_ret h hret, h.mapped, rfl, h.inputs, h.buffers⟩

private theorem plug_agrees (h : Refines localName s a) (signal : String) (copy : Option (List α)) :
    Agrees localName (perform localName (.plug signal copy) s) (a.perform localName (.plug signal copy)) := by
  have hret : perform localName (.plug signal copy) s = .ret .done (withPlug s signal copy) := by simp [perform]
  obtain ⟨hstored, hranks, hlen⟩ := withPlug_frame s signal copy
  have hplugged : ∀ (i : Nat) (input : Input α), a.inputs[i]? = some input →
      (localName input.name = signal ↔ s.signalMap[signal]? = some (.vectorSIN i)) := by
    intro i input hi
    have hname : s.inputNames[i]? = some input.name := by
      rw [h.inputNames, Store.inputNames, List.getElem?_map, hi, Option.map_some]
    rw [h.mapped signal i]
    constructor
    · exact fun hkey => ⟨_, hname, hkey⟩
    · rintro ⟨name, hother, hkey⟩
      obtain rfl := Option.some.inj (hname.symm.trans hother)
      exact hkey
  have hsout : (withPlug s signal copy).vectorSOUT = s.vectorSOUT ∧
      (withPlug s signal copy).signalMap = s.signalMap := by
    unfold withPlug
    split <;> exact ⟨rfl, rfl⟩
  rw [hret]
  refine ⟨rfl, registry_ret h hret, fun key rank => ?_, hsout.1.trans h.outputs, ?_, fun r input hr => ?_⟩
  · rw [hsout.2, inputNames_withPlug]
    exact h.mapped key rank
  · apply List.ext_getElem?
    intro i
    rw [List.map_map, List.getElem?_map]
    cases hi : a.inputs[i]? with
    | none =>
      rw [List.getElem?_eq_none_iff] at hi
      exact List.getElem?_eq_none (by rw [hlen, h.length]; exact hi)
    | some input =>
      have hiff := hplugged i input hi
      have hold : s.vectorSIN[i]? = some input.signal := by rw [h.signal, hi]; rfl
      unfold withPlug
      split
      · rename_i rank hrank
        rw [List.getElem?_modify, hold]
        rw [hrank, Option.some.injEq, SignalRef.vectorSIN.injEq] at hiff
        by_cases hri : rank = i
        · simp [hri, hiff.mpr hri, Input.signal]
        · simp [hri, mt hiff.mp hri]
      · rename_i hother
        have hne : localName input.name ≠ signal := fun hkey => hother i (hiff.mp hkey)
        simp [hold, hne]
  · rw [List.getElem?_map] at hr
    obtain ⟨old, hold, rfl⟩ := Option.map_eq_some_iff.mp hr
    obtain ⟨aDS, hget, hholds⟩ := h.buffers r old hold
    refine ⟨aDS, by rw [hstored, hget], ?_⟩
    split
    · cases hholds with
      | unbuffered name current => exact .unbuffered name copy
      | buffered name current hN hrep => exact .buffered name copy hN hrep
    · exact hholds

/-- An operation that is admitted ends the same way on both sides. -/
theorem perform_agrees (h : Refines localName s a) {op : Op α} (hadm : Admits localName s op) :
    Agrees localName (perform localName op s) (a.perform localName op) := by
  cases op with
  | createInputVectorSignal name => exact createInput_agrees h hadm
  | createOutputVectorSignal name => exact createOutput_agrees h hadm
  | buffer cmdArgs uninitialised => exact buffer_agrees h hadm
  | synchro internalStep time => exact synchro_agrees h internalStep time
  | readInputVectorSignal signalRank => exact readInput_agrees h signalRank
  | readSeqInputVectorSignal signalRanks => exact readSeq_agrees h signalRanks
  | writeOutputVectorSignal signalRank value => exact write_agrees h signalRank value
  | plug signal copy => exact plug_agrees h signal copy

/-- An event of the server is one of the store, and the other way round. -/
private theorem steps_iff (h : Refines localName s a) {e : Event α} (hadm : Admits localName s e.op) :
    (∀ t, Steps localName s e t → ∃ b, a.Steps localName e b ∧ Refines localName t b) ∧
      ∀ b, a.Steps localName e b → ∃ t, Steps localName s e t ∧ Refines localName t b := by
  have hagree := perform_agrees h hadm
  obtain ⟨client, op, result⟩ := e
  simp only [Steps, Store.Steps]
  cases ho : perform localName op s with
  | undefined =>
    rw [ho] at hagree
    cases hstore : a.perform localName op with
    | none => exact ⟨fun t ht => by (cases result <;> cases ht), nofun⟩
    | some answered => simp [Agrees, hstore] at hagree
  | ret answer u | raise answer u =>
    rw [ho] at hagree
    cases hstore : a.perform localName op with
    | none => simp [Agrees, hstore] at hagree
    | some answered =>
      rw [hstore] at hagree
      obtain ⟨hresult, hrel⟩ := hagree
      refine ⟨fun t ht => ?_, fun b hb => ?_⟩
      · cases result <;> cases ht
        exact ⟨answered.2, by rw [← hresult], hrel⟩
      · obtain rfl := Option.some.inj hb
        dsimp only at hresult
        subst hresult
        exact ⟨u, rfl, hrel⟩

/-- Whatever clients ask for and the graph does, in any order, a server whose
registrations are accepted, and whose buffers are not resized while they hold samples,
answers as the store does, and goes on to do so. -/
theorem server_refines_store {server : String} {trace : List (ServerCommand α × Event α)}
    (h : Run (Steps localName) (ServerCommand.construct localName server) trace s)
    (hadm : ∀ x ∈ trace, Admits localName x.1 x.2.op) :
    ∃ trace' a, Run (Store.Steps localName) .empty trace' a ∧
      trace'.map Prod.snd = trace.map Prod.snd ∧
      ∀ e, Admits localName s e.op → ((∃ t, Steps localName s e t) ↔ ∃ b, a.Steps localName e b) := by
  obtain ⟨trace', a, hrun, hlabels, hrel⟩ := h.simulates (Refines localName)
    (fun s e => Admits localName s e.op) id (refines_construct server)
    (fun s e t a hrel hc hs => (steps_iff hrel hc).1 t hs) hadm
  refine ⟨trace', a, hrun, hlabels, fun e he => ?_⟩
  obtain ⟨hforward, hback⟩ := steps_iff hrel he
  constructor
  · rintro ⟨t, ht⟩
    obtain ⟨b, hb, -⟩ := hforward t ht
    exact ⟨b, hb⟩
  · rintro ⟨b, hb⟩
    obtain ⟨t, ht, -⟩ := hback b hb
    exact ⟨t, ht⟩

end Refinement

/-- An input that is sized again before it is sampled, an unreadable one that stops a
synchronisation step, and an output. -/
def mixed : List (Nat × Op ℚ) :=
  [(0, .createInputVectorSignal "comstate"), (0, .buffer "comstate 3" 0), (1, .createOutputVectorSignal "command"),
    (0, .synchro none 1), (0, .plug "comstate" (some [1])), (0, .buffer "comstate 2" 0), (0, .synchro none 2),
    (1, .writeOutputVectorSignal 0 [5, 6]), (0, .readInputVectorSignal 0)]

theorem server_refines_mixed : ∃ trace' a, Run (Store.Steps shortName) .empty trace' a ∧
    trace'.map Prod.snd = (execute shortName (ServerCommand.construct shortName "coshell") mixed).1.map Prod.snd ∧
    trace'.length = 9 := by
  have hrun := run_execute shortName (ServerCommand.construct shortName "coshell") mixed
  generalize hresult : execute shortName (ServerCommand.construct shortName "coshell") mixed = result at hrun
  obtain ⟨hadm, hlen⟩ : (∀ x ∈ result.1, Admits shortName x.1 x.2.op) ∧ result.1.length = 9 := by
    rw [← hresult]
    decide +kernel
  obtain ⟨trace', a, hstore, hlabels, -⟩ := server_refines_store hrun hadm
  exact ⟨trace', a, hstore, hlabels, by simpa [hlen] using congrArg List.length hlabels⟩

end DgMiddleware.Server
