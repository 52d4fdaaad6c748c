import DgMiddleware.Server.Operations

/-! What the server is for, without its vectors, ranks and rings: named inputs that
remember what was sampled from them since they were sized, and named outputs. -/
namespace DgMiddleware.Server
open Library
variable {α : Type}

/-- An input with the vector that can be read from it now, the number of samples it was
asked to keep, and all that was ever sampled. -/
structure Input (α : Type) where
  name : String
  current : Option (List α)
  size : Nat
  history : List (TsData α)

structure Store (α : Type) where
  inputs : List (Input α)
  outputs : List (SignalTimeDependent α)

namespace Input

def new (name : String) : Input α := ⟨name, none, 0, []⟩

/-- A sample is due and cannot be taken. -/
def blocks (input : Input α) : Bool := input.size != 0 && input.current.isNone

/-- The samples that are kept. -/
def kept (input : Input α) : List (TsData α) := Ring.arranged input.size input.history

/-- An unplugged input throws; and it is not said what is read from samples with less
components than the current vector has, or from too many. -/
def read (input : Input α) : Option (Except Exception (List α)) :=
  match input.current with
  | none => some (.error .exceptionSignal)
  | some data =>
    if input.kept.isEmpty then some (.ok data)
    else if (∀ x ∈ input.kept, data.length ≤ x.data.length) ∧ (data.length + 1) * input.kept.length < 2 ^ 32 then
      some (.ok (input.kept.flatMap (block data.length)))
    else none

def sample [Double α] (time : Int) (input : Input α) : Input α :=
  match input.current with
  | some data => if input.size = 0 then input else { input with history := input.history ++ [⟨timeStamp time, data⟩] }
  | none => input

@[simp] theorem sample_name [Double α] (time : Int) (input : Input α) : (input.sample time).name = input.name := by
  unfold sample
  split
  · split <;> rfl
  · rfl

@[simp] theorem sample_current [Double α] (time : Int) (input : Input α) :
    (input.sample time).current = input.current := by
  unfold sample
  split
  · split <;> rfl
  · rfl

end Input

namespace Store

def empty : Store α := ⟨[], []⟩

def inputNames (s : Store α) : List String := s.inputs.map (·.name)
def outputNames (s : Store α) : List String := s.outputs.map (·.name)

/-- The inputs before the given one are sampled. -/
def sampled [Double α] (time : Int) (s : Store α) (k : Nat) : Store α :=
  { s with inputs := s.inputs.mapIdx fun i input => if i < k then input.sample time else input }

/-- Reading any of the ranks throws. -/
def unreadable (s : Store α) (signalRank : Int) : Bool :=
  decide (0 ≤ signalRank) && s.inputs[signalRank.toNat]?.any (·.current.isNone)

/-- What comes back, and the store after it; `none` where that is not said. -/
def perform [Double α] (localName : String → String) (s : Store α) :
    Op α → Option (Except Exception (Answer α) × Store α)
  | .createInputVectorSignal name =>
    if name ∈ s.inputNames then some (.ok (.rank (s.inputNames.idxOf name)), s)
    else some (.ok (.rank s.inputs.length), { s with inputs := s.inputs ++ [.new name] })
  | .createOutputVectorSignal name =>
    if name ∈ s.outputNames then some (.ok (.rank (s.outputNames.idxOf name)), s)
    else some (.ok (.rank s.outputs.length), { s with outputs := s.outputs ++ [⟨name, []⟩] })
  | .buffer cmdArgs uninitialised =>
    let (name, size) := bufferArgs cmdArgs uninitialised
    if name ∈ s.inputNames then
      some (.ok .done, { s with
        inputs := s.inputs.modify (s.inputNames.idxOf name) fun input => { input with size := size } })
    else none
  | .synchro (some e) _ => some (.error e, s)
  | .synchro none time =>
    match s.inputs.findIdx? (·.blocks) with
    | some k => some (.error .exceptionSignal, s.sampled time k)
    | none => some (.ok .done, s.sampled time s.inputs.length)
  | .readInputVectorSignal signalRank =>
    if signalRank < 0 then some (.ok (.doubles (some [])), s)
    else
      match s.inputs[signalRank.toNat]? with
      | none => some (.ok (.doubles (some [])), s)
      | some input => input.read.map fun value => (value.map fun value => .doubles (some value), s)
  | .readSeqInputVectorSignal signalRanks =>
    if signalRanks.any s.unreadable then some (.error .exceptionSignal, s)
    else some (.ok (.doubleSeqs (some (List.replicate signalRanks.length []))), s)
  | .writeOutputVectorSignal signalRank value =>
    if signalRank < 0 then none
    else s.outputs[signalRank.toNat]?.map fun signal =>
      (.ok .done, { s with outputs := s.outputs.set signalRank.toNat { signal with value := value } })
  | .plug signal copy =>
    some (.ok .done, { s with
      inputs := s.inputs.map fun input =>
        if localName input.name = signal then { input with current := copy } else input })

/-- An event of the store is one of the server, with the same result. -/
def Steps [Double α] (localName : String → String) (s : Store α) (e : Event α) (t : Store α) : Prop :=
  s.perform localName e.op = some (e.result, t)

end Store
end DgMiddleware.Server
