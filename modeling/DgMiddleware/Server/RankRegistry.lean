import DgMiddleware.Server.Operations
import Mathlib.Data.List.Nodup

/-! Names and ranks. As long as every registration is accepted, a rank handed out
stays with its name, and the three input containers agree on it. -/
namespace DgMiddleware.Server
open Library
variable {α : Type}

/-- The two vectors and the map describe one numbering of the inputs. -/
structure Registry (s : ServerCommand α) : Prop where
  length : s.vectorSIN.length = s.vectorSINStored.length
  inputs : s.inputNames.Nodup
  outputs : s.outputNames.Nodup
  ranks : ∀ (i : Nat) (name : String), s.inputNames[i]? = some name → s.vectorName2Rank[name]? = some i

/-- The name and the rank of an input, or of an output, that was created. -/
def Event.inputRank (e : Event α) : Option (String × Nat) :=
  match e.op, e.result with
  | .createInputVectorSignal name, .ok (.rank rank) => some (name, rank)
  | _, _ => none

def Event.outputRank (e : Event α) : Option (String × Nat) :=
  match e.op, e.result with
  | .createOutputVectorSignal name, .ok (.rank rank) => some (name, rank)
  | _, _ => none

/-- The event is no creation whose registration was refused. -/
def Event.registered (e : Event α) : Bool :=
  match e.op, e.result with
  | .createInputVectorSignal _, .error _ => false
  | .createOutputVectorSignal _, .error _ => false
  | _, _ => true

section Names
variable [Double α] {localName : String → String} {s t : ServerCommand α}

omit [Double α] in
@[simp] theorem inputNames_withPlug (s : ServerCommand α) (signal : String) (copy : Option (List α)) :
    (withPlug s signal copy).inputNames = s.inputNames := by
  unfold withPlug
  split
  · apply List.ext_getElem?
    intro i
    simp only [ServerCommand.inputNames, List.getElem?_map, List.getElem?_modify]
    split <;> simp [Option.map_map, Function.comp_def]
  · rfl

omit [Double α] in
@[simp] theorem inputNames_withInput (s : ServerCommand α) (name : String) :
    (withInput localName s name).inputNames = s.inputNames ++ [name] := by
  simp [ServerCommand.inputNames, withInput]

omit [Double α] in
@[simp] theorem outputNames_withOutput (s : ServerCommand α) (name : String) :
    (withOutput localName s name).outputNames = s.outputNames ++ [name] := by
  simp [ServerCommand.outputNames, withOutput]

omit [Double α] in
@[simp] theorem outputNames_withPlug (s : ServerCommand α) (signal : String) (copy : Option (List α)) :
    (withPlug s signal copy).outputNames = s.outputNames := by
  unfold withPlug
  split <;> rfl

omit [Double α] in
@[simp] theorem outputNames_write {signal : SignalTimeDependent α} {i : Nat}
    (h : s.vectorSOUT[i]? = some signal) (value : List α) :
    ServerCommand.outputNames { s with vectorSOUT := s.vectorSOUT.set i { signal with value := value } } =
      s.outputNames := by
  rw [ServerCommand.outputNames, List.map_set]
  exact set_same (by simp [h])

/-- No operation renames or removes a signal. -/
theorem names_grow {op : Op α} {result : Except Exception (Answer α)} (h : Effect localName s op result t) :
    s.inputNames <+: t.inputNames ∧ s.outputNames <+: t.outputNames := by
  cases h with
  | inputCreated | inputRefused =>
    refine ⟨?_, List.prefix_rfl⟩
    simp [ServerCommand.inputNames, withInput]
  | outputCreated | outputRefused =>
    refine ⟨List.prefix_rfl, ?_⟩
    simp [ServerCommand.outputNames, withOutput]
  | outputWritten h0 hget =>
    rw [outputNames_write hget]
    exact ⟨List.prefix_rfl, List.prefix_rfl⟩
  | plugged => simp
  | inputExists | outputExists | resized | stepRaised | sampledAll | sampledSome | inputRead
  | inputUnreadable | inputsRead | inputsUnreadable =>
    exact ⟨List.prefix_rfl, List.prefix_rfl⟩

omit [Double α] in
private theorem nodup_snoc {names : List String} {name : String} (h : names.Nodup) (hn : name ∉ names) :
    (names ++ [name]).Nodup := by
  rw [← List.concat_eq_append]
  exact (List.nodup_concat _ _).mpr ⟨hn, h⟩

theorem names_nodup {op : Op α} {result : Except Exception (Answer α)} (h : Effect localName s op result t)
    (hs : s.inputNames.Nodup ∧ s.outputNames.Nodup) : t.inputNames.Nodup ∧ t.outputNames.Nodup := by
  cases h with
  | inputCreated hn | inputRefused hn =>
    refine ⟨?_, hs.2⟩
    simpa [ServerCommand.inputNames, withInput] using nodup_snoc hs.1 hn
  | outputCreated hn | outputRefused hn =>
    refine ⟨hs.1, ?_⟩
    simpa [ServerCommand.outputNames, withOutput] using nodup_snoc hs.2 hn
  | outputWritten h0 hget =>
    rw [outputNames_write hget]
    exact hs
  | plugged => simpa using hs
  | inputExists | outputExists | resized | stepRaised | sampledAll | sampledSome | inputRead
  | inputUnreadable | inputsRead | inputsUnreadable =>
    exact hs

end Names

section Registry
variable [Double α] {localName : String → String} {s t : ServerCommand α}

omit [Double α] in
/-- Asking the map for a name only adds names that have no rank yet. -/
private theorem asked_ranks {name : String} (h : Registry s) (i : Nat) (other : String)
    (hi : s.inputNames[i]? = some other) : (asked s name).vectorName2Rank[other]? = some i := by
  have hr := h.ranks i other hi
  simp only [asked, lookup_insert]
  split
  · rename_i he
    rw [ServerCommand.rank, he, hr, Option.getD_some]
  · exact hr

theorem Registry.step {e : Event α} (hs : Registry s) (hr : e.registered = true)
    (h : Steps localName s e t) : Registry t := by
  have hnames := names_nodup h.effect ⟨hs.inputs, hs.outputs⟩
  obtain ⟨client, op, result⟩ := e
  have heffect := h.effect
  cases heffect with
  | @inputCreated name hn hacc =>
    refine ⟨by simp [withInput, hs.length], hnames.1, hnames.2, fun i other hi => ?_⟩
    rw [inputNames_withInput, getElem?_snoc] at hi
    simp only [withInput, lookup_insert]
    rcases hi with hi | ⟨rfl, rfl⟩
    · have hne : name ≠ other := fun he => hn (he ▸ List.mem_of_getElem? hi)
      rw [if_neg hne, hs.ranks i other hi]
    · simp [ServerCommand.inputNames]
  | inputRefused | outputRefused => simp [Event.registered] at hr
  | resized hget =>
    exact ⟨by simpa [withBuffer, asked] using hs.length, hnames.1, hnames.2, asked_ranks hs⟩
  | sampledAll | sampledSome =>
    exact ⟨by simpa [synchronised] using hs.length, hnames.1, hnames.2, hs.ranks⟩
  | plugged =>
    obtain ⟨hstored, hmap, hlen⟩ := withPlug_frame s _ _
    refine ⟨by rw [hlen, hstored, hs.length], hnames.1, hnames.2, fun i other hi => ?_⟩
    rw [inputNames_withPlug] at hi
    rw [hmap, hs.ranks i other hi]
  | outputCreated | outputWritten => exact ⟨hs.length, hnames.1, hnames.2, hs.ranks⟩
  | inputExists | outputExists | stepRaised | inputRead | inputUnreadable | inputsRead | inputsUnreadable =>
    exact hs

omit [Double α] in
theorem Registry.construct (server : String) :
    Registry (ServerCommand.construct localName server : ServerCommand α) :=
  ⟨rfl, List.nodup_nil, List.nodup_nil, fun i name h => by
    simp [ServerCommand.construct, ServerCommand.inputNames] at h⟩

end Registry

section HandedOut
variable [Double α] {localName : String → String} {s t : ServerCommand α}

/-- Every rank that was handed out still carries the name it was handed out for. -/
structure HandedOut (trace : List (ServerCommand α × Event α)) (s : ServerCommand α) : Prop where
  input : ∀ x ∈ trace, ∀ name rank, x.2.inputRank = some (name, rank) → s.inputNames[rank]? = some name
  output : ∀ x ∈ trace, ∀ name rank, x.2.outputRank = some (name, rank) → s.outputNames[rank]? = some name

omit [Double α] in
theorem getElem?_of_prefix {names names' : List String} (h : names <+: names') {i : Nat} {name : String}
    (hi : names[i]? = some name) : names'[i]? = some name := by
  obtain ⟨more, rfl⟩ := h
  rw [List.getElem?_append_left (List.getElem?_eq_some_iff.mp hi).1, hi]

private theorem handed_out_now {e : Event α} (h : Steps localName s e t) :
    (∀ name rank, e.inputRank = some (name, rank) → t.inputNames[rank]? = some name) ∧
      ∀ name rank, e.outputRank = some (name, rank) → t.outputNames[rank]? = some name := by
  obtain ⟨client, op, result⟩ := e
  have heffect := h.effect
  cases heffect with
  | inputExists hi | inputCreated =>
    refine ⟨fun name rank he => ?_, fun name rank he => by simp [Event.outputRank] at he⟩
    simp only [Event.inputRank, Option.some.injEq, Prod.mk.injEq] at he
    obtain ⟨rfl, rfl⟩ := he
    simp_all [ServerCommand.inputNames, withInput]
  | outputExists hi | outputCreated =>
    refine ⟨fun name rank he => by simp [Event.inputRank] at he, fun name rank he => ?_⟩
    simp only [Event.outputRank, Option.some.injEq, Prod.mk.injEq] at he
    obtain ⟨rfl, rfl⟩ := he
    simp_all [ServerCommand.outputNames, withOutput]
  | inputRefused | outputRefused | resized | stepRaised | sampledAll | sampledSome | inputRead
  | inputUnreadable | inputsRead | inputsUnreadable | outputWritten | plugged =>
    exact ⟨fun name rank he => by simp [Event.inputRank] at he,
      fun name rank he => by simp [Event.outputRank] at he⟩

theorem HandedOut.step {trace : List (ServerCommand α × Event α)} {e : Event α} (hs : HandedOut trace s)
    (h : Steps localName s e t) : HandedOut (trace ++ [(s, e)]) t := by
  have hgrow := names_grow h.effect
  have hnow := handed_out_now h
  constructor <;> intro x hx name rank he <;> rcases List.mem_append.mp hx with hx | hx
  · exact getElem?_of_prefix hgrow.1 (hs.input x hx name rank he)
  · rw [List.mem_singleton.mp hx] at he
    exact hnow.1 name rank he
  · exact getElem?_of_prefix hgrow.2 (hs.output x hx name rank he)
  · rw [List.mem_singleton.mp hx] at he
    exact hnow.2 name rank he

theorem HandedOut.run {init : ServerCommand α} {trace : List (ServerCommand α × Event α)}
    (h : Run (Steps localName) init trace s) : HandedOut trace s :=
  h.history HandedOut ⟨by simp, by simp⟩ fun _ _ _ _ _ hi hs => hi.step hs

omit [Double α] in
/-- Without repetitions, a rank and the name at it determine each other. -/
private theorem rank_iff {names : List String} (h : names.Nodup) {i j : Nat} {a b : String}
    (hi : names[i]? = some a) (hj : names[j]? = some b) : i = j ↔ a = b := by
  constructor
  · rintro rfl
    exact Option.some.inj (hi.symm.trans hj)
  · rintro rfl
    exact (List.getElem?_inj (List.getElem?_eq_some_iff.mp hi).1 h).mp (hi.trans hj.symm)

omit [Double α] in
theorem createInput_again (h : s.inputNames.Nodup) {rank : Nat} {name : String}
    (hi : s.inputNames[rank]? = some name) : createInputVectorSignal localName name s = .ret rank s := by
  obtain ⟨i, hget, he⟩ := createInput_existing localName (List.mem_of_getElem? hi)
  rw [he, (rank_iff h hget hi).mpr rfl]

omit [Double α] in
theorem createOutput_again (h : s.outputNames.Nodup) {rank : Nat} {name : String}
    (hi : s.outputNames[rank]? = some name) : createOutputVectorSignal localName name s = .ret rank s := by
  obtain ⟨i, hget, he⟩ := createOutput_existing localName (List.mem_of_getElem? hi)
  rw [he, (rank_iff h hget hi).mpr rfl]

end HandedOut

section Run
variable [Double α] {localName : String → String} {server : String} {s : ServerCommand α}
  {trace : List (ServerCommand α × Event α)}

/-- While every registration is accepted, every state of a run has one numbering of
its signals, and any two answers to creations agree on it whoever asked. A creation
asked for again answers the same rank and changes nothing. -/
theorem registry_run (h : Run (Steps localName) (ServerCommand.construct localName server) trace s)
    (hr : ∀ x ∈ trace, x.2.registered = true) :
    (∀ x ∈ trace, Registry x.1) ∧ Registry s ∧
    (∀ x ∈ trace, ∀ y ∈ trace, ∀ name other rank rank',
      x.2.inputRank = some (name, rank) → y.2.inputRank = some (other, rank') →
        (rank = rank' ↔ name = other)) ∧
    (∀ x ∈ trace, ∀ y ∈ trace, ∀ name other rank rank',
      x.2.outputRank = some (name, rank) → y.2.outputRank = some (other, rank') →
        (rank = rank' ↔ name = other)) ∧
    (∀ x ∈ trace, ∀ name rank, x.2.inputRank = some (name, rank) →
      s.inputNames[rank]? = some name ∧ createInputVectorSignal localName name s = .ret rank s) ∧
    (∀ x ∈ trace, ∀ name rank, x.2.outputRank = some (name, rank) →
      s.outputNames[rank]? = some name ∧ createOutputVectorSignal localName name s = .ret rank s) := by
  have keep : ∀ (s : ServerCommand α) (e : Event α) (t : ServerCommand α), Registry s →
      e.registered = true → Steps localName s e t → Registry t := fun _ _ _ hi hc hs => hi.step hc hs
  obtain ⟨visited, final⟩ := h.throughout Registry (fun _ e => e.registered = true) (.construct server) keep hr
  have handed := HandedOut.run h
  refine ⟨visited, final, ?_, ?_, ?_, ?_⟩
  · intro x hx y hy name other rank rank' hn ho
    exact rank_iff final.inputs (handed.input x hx _ _ hn) (handed.input y hy _ _ ho)
  · intro x hx y hy name other rank rank' hn ho
    exact rank_iff final.outputs (handed.output x hx _ _ hn) (handed.output y hy _ _ ho)
  · intro x hx name rank hn
    have hi := handed.input x hx _ _ hn
    exact ⟨hi, createInput_again final.inputs hi⟩
  · intro x hx name rank hn
    have hi := handed.output x hx _ _ hn
    exact ⟨hi, createOutput_again final.outputs hi⟩

end Run

/-- Two clients create one input each, the second asks for a buffer before its input
exists, and both ask for the second input. -/
def twoClients : List (Nat × Op ℚ) :=
  [(0, .createInputVectorSignal "comstate"), (1, .buffer "force 4" 0), (1, .createInputVectorSignal "force"),
    (0, .createInputVectorSignal "force"), (0, .createOutputVectorSignal "torque"), (1, .synchro none 1)]

theorem registry_run_two_clients :
    Registry (execute shortName (ServerCommand.construct shortName "coshell") twoClients).2 ∧
      (execute shortName (ServerCommand.construct shortName "coshell") twoClients).2.inputNames =
        ["comstate", "force"] :=
  ⟨(registry_run (run_execute shortName (ServerCommand.construct shortName "coshell") twoClients)
    (by decide +kernel)).2.1, by decide +kernel⟩

end DgMiddleware.Server
