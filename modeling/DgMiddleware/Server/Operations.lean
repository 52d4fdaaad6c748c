import DgMiddleware.Library.Run
import DgMiddleware.Server.Buffering
import DgMiddleware.Server.Creation
import DgMiddleware.Server.Reading

/-! Runs of the server: the operations of any number of clients, the samples taken
by the graph, and the graph's own changes to what is plugged into the inputs. -/
namespace DgMiddleware.Server
open Library
variable {α : Type}

inductive Op (α : Type) where
  | createInputVectorSignal (signalName : String)
  | createOutputVectorSignal (signalName : String)
  | buffer (cmdArgs : String) (uninitialised : UInt32)
  | synchro (internalStep : Option Exception) (time : Int)
  | readInputVectorSignal (signalRank : Int)
  | readSeqInputVectorSignal (signalRanks : List Int)
  | writeOutputVectorSignal (signalRank : Int) (value : List α)
  | plug (signal : String) (copy : Option (List α))
  deriving DecidableEq, Repr

inductive Answer (α : Type) where
  | done
  | rank (rank : Nat)
  | doubles (value : Option (List α))
  | doubleSeqs (values : Option (List (List α)))
  deriving DecidableEq, Repr

/-- Who asked for what, and what came back. -/
structure Event (α : Type) where
  client : Nat
  op : Op α
  result : Except Exception (Answer α)

/-- The name and the size a `buffer` command is read as. -/
def Event.bufferCommand (e : Event α) : Option (String × Nat) :=
  match e.op with
  | .buffer cmdArgs uninitialised => some (bufferArgs cmdArgs uninitialised)
  | _ => none

/-- The internal step and the time of a synchronisation step. -/
def Event.synchroCall (e : Event α) : Option (Option Exception × Int) :=
  match e.op with
  | .synchro internalStep time => some (internalStep, time)
  | _ => none

def Event.synchroTime (e : Event α) : Option Int := e.synchroCall.map (·.2)

/-- The server when the input registered under a local name gets another copy:
it was plugged, its source changed, or it was unplugged. -/
def withPlug (s : ServerCommand α) (signal : String) (copy : Option (List α)) : ServerCommand α :=
  match s.signalMap[signal]? with
  | some (.vectorSIN rank) =>
    { s with vectorSIN := s.vectorSIN.modify rank fun sig => { sig with ptr := copy } }
  | _ => s

theorem withPlug_frame (s : ServerCommand α) (signal : String) (copy : Option (List α)) :
    (withPlug s signal copy).vectorSINStored = s.vectorSINStored ∧
      (withPlug s signal copy).vectorName2Rank = s.vectorName2Rank ∧
      (withPlug s signal copy).vectorSIN.length = s.vectorSIN.length := by
  unfold withPlug
  split <;> simp

section Perform
variable [Double α] (localName : String → String)

def perform : Op α → Body α (Answer α)
  | .createInputVectorSignal signalName => do
    return .rank (← createInputVectorSignal localName signalName)
  | .createOutputVectorSignal signalName => do
    return .rank (← createOutputVectorSignal localName signalName)
  | .buffer cmdArgs uninitialised => do
    bufferSignal (.ofString cmdArgs) uninitialised
    return .done
  | .synchro internalStep time => do
    let _ ← synchroValue internalStep 0 time
    return .done
  | .readInputVectorSignal signalRank => do
    return .doubles (← readInputVectorSignal signalRank)
  | .readSeqInputVectorSignal signalRanks => do
    return .doubleSeqs (← readSeqInputVectorSignal signalRanks)
  | .writeOutputVectorSignal signalRank value => do
    writeOutputVectorSignal signalRank value
    return .done
  | .plug signal copy => fun s => .ret .done (withPlug s signal copy)

/-- An event takes the server from one state to the next; an exception is a result
like any other. Where the operation is undefined, there is no event. -/
def Steps (s : ServerCommand α) (e : Event α) (t : ServerCommand α) : Prop :=
  perform localName e.op s =
    match e.result with
    | .ok answer => .ret answer t
    | .error x => .raise x t

/-- Serve requests in order, with the event each of them makes; one whose behaviour
is undefined makes none. -/
def execute (init : ServerCommand α) (requests : List (Nat × Op α)) :
    List (ServerCommand α × Event α) × ServerCommand α :=
  requests.foldl (fun (trace, s) (client, op) =>
    match perform localName op s with
    | .ret answer t => (trace ++ [(s, ⟨client, op, .ok answer⟩)], t)
    | .raise x t => (trace ++ [(s, ⟨client, op, .error x⟩)], t)
    | .undefined => (trace, s)) ([], init)

theorem run_execute (init : ServerCommand α) (requests : List (Nat × Op α)) :
    Run (Steps localName) init (execute localName init requests).1 (execute localName init requests).2 := by
  induction requests using List.reverseRecOn with
  | nil => exact .start
  | append_singleton requests request ih =>
    simp only [execute, List.foldl_append, List.foldl_cons, List.foldl_nil] at ih ⊢
    split
    · rename_i he
      exact ih.next he
    · rename_i he
      exact ih.next he
    · exact ih

/-- The stack at the rank of a name, resized. -/
def withBuffer (s : ServerCommand α) (name : String) (aDS : DataStack α) (n : Nat) : ServerCommand α :=
  { asked s name with vectorSINStored := s.vectorSINStored.set (s.rank name) (aDS.resizeTo n) }

/-- All an event can do, one case for each way its operation can end. -/
inductive Effect (s : ServerCommand α) : Op α → Except Exception (Answer α) → ServerCommand α → Prop
  | inputExists {name : String} {i : Nat} (h : s.inputNames[i]? = some name) :
      Effect s (.createInputVectorSignal name) (.ok (.rank i)) s
  | inputCreated {name : String} (h : name ∉ s.inputNames) (hr : ¬Refused localName s name) :
      Effect s (.createInputVectorSignal name) (.ok (.rank s.vectorSIN.length)) (withInput localName s name)
  | inputRefused {name : String} (h : name ∉ s.inputNames) (hr : Refused localName s name) :
      Effect s (.createInputVectorSignal name) (.error .exceptionFactory)
        { s with vectorSIN := s.vectorSIN ++ [⟨name, none⟩] }
  | outputExists {name : String} {i : Nat} (h : s.outputNames[i]? = some name) :
      Effect s (.createOutputVectorSignal name) (.ok (.rank i)) s
  | outputCreated {name : String} (h : name ∉ s.outputNames) (hr : ¬Refused localName s name) :
      Effect s (.createOutputVectorSignal name) (.ok (.rank s.vectorSOUT.length))
        (withOutput localName s name)
  | outputRefused {name : String} (h : name ∉ s.outputNames) (hr : Refused localName s name) :
      Effect s (.createOutputVectorSignal name) (.error .exceptionFactory)
        { s with vectorSOUT := s.vectorSOUT ++ [⟨name, []⟩] }
  | resized {cmdArgs : String} {uninitialised : UInt32} {aDS : DataStack α}
      (h : s.vectorSINStored[s.rank (bufferArgs cmdArgs uninitialised).1]? = some aDS) :
      Effect s (.buffer cmdArgs uninitialised) (.ok .done)
        (withBuffer s (bufferArgs cmdArgs uninitialised).1 aDS (bufferArgs cmdArgs uninitialised).2)
  | stepRaised {e : Exception} {time : Int} : Effect s (.synchro (some e) time) (.error e) s
  | sampledAll {time : Int} (h : ∀ i < s.vectorSINStored.length, Recordable s i) :
      Effect s (.synchro none time) (.ok .done) (synchronised time s s.vectorSINStored.length)
  | sampledSome {time : Int} {k : Nat} {aDS : DataStack α} (hk : s.vectorSINStored[k]? = some aDS)
      (hbuf : aDS.stackOfTsData ≠ []) (before : ∀ i < k, Recordable s i) (hun : Unreadable s k) :
      Effect s (.synchro none time) (.error .exceptionSignal) (synchronised time s k)
  | inputRead {signalRank : Int} {value : List α}
      (h : readInputVectorSignal signalRank s = .ret (some value) s) :
      Effect s (.readInputVectorSignal signalRank) (.ok (.doubles (some value))) s
  | inputUnreadable {signalRank : Int} (h : readInputVectorSignal signalRank s = .raise .exceptionSignal s) :
      Effect s (.readInputVectorSignal signalRank) (.error .exceptionSignal) s
  | inputsRead {signalRanks : List Int} (h : ∀ r ∈ signalRanks, ¬UnreadableAt s r) :
      Effect s (.readSeqInputVectorSignal signalRanks)
        (.ok (.doubleSeqs (some (List.replicate signalRanks.length [])))) s
  | inputsUnreadable {signalRanks : List Int} (h : ∃ r ∈ signalRanks, UnreadableAt s r) :
      Effect s (.readSeqInputVectorSignal signalRanks) (.error .exceptionSignal) s
  | outputWritten {signalRank : Int} {value : List α} {signal : SignalTimeDependent α} (h0 : 0 ≤ signalRank)
      (h : s.vectorSOUT[signalRank.toNat]? = some signal) :
      Effect s (.writeOutputVectorSignal signalRank value) (.ok .done)
        { s with vectorSOUT := s.vectorSOUT.set signalRank.toNat { signal with value := value } }
  | plugged {signal : String} {copy : Option (List α)} :
      Effect s (.plug signal copy) (.ok .done) (withPlug s signal copy)

end Perform

section Inversion
variable [Double α] {localName : String → String} {s t : ServerCommand α}

/-- The result and the state an outcome leaves behind. -/
private def Leaves (o : Outcome Exception (ServerCommand α) (Answer α))
    (result : Except Exception (Answer α)) (t : ServerCommand α) : Prop :=
  o = match result with
    | .ok answer => .ret answer t
    | .error x => .raise x t

omit [Double α] in
private theorem leaves_ret {a : Answer α} {u : ServerCommand α} {result : Except Exception (Answer α)}
    (h : Leaves (.ret a u) result t) : result = .ok a ∧ t = u := by
  unfold Leaves at h
  cases result <;> simp_all

omit [Double α] in
private theorem leaves_raise {e : Exception} {u : ServerCommand α}
    {result : Except Exception (Answer α)} (h : Leaves (.raise e u) result t) :
    result = .error e ∧ t = u := by
  unfold Leaves at h
  cases result <;> simp_all

omit [Double α] in
private theorem leaves_undefined {result : Except Exception (Answer α)}
    (h : Leaves .undefined result t) : False := by
  unfold Leaves at h
  cases result <;> simp_all

theorem Steps.effect {client : Nat} {op : Op α} {result : Except Exception (Answer α)}
    (h : Steps localName s ⟨client, op, result⟩ t) : Effect localName s op result t := by
  have h : Leaves (perform localName op s) result t := h
  cases op with
  | createInputVectorSignal name =>
    rcases createInput_cases localName s name with ⟨i, hi, he⟩ | ⟨hn, hr, he⟩ | ⟨hn, hr, he⟩
    · obtain ⟨rfl, rfl⟩ := leaves_ret (a := .rank i) (by simpa [perform, he] using h)
      exact .inputExists hi
    · obtain ⟨rfl, rfl⟩ := leaves_ret (a := .rank _) (by simpa [perform, he] using h)
      exact .inputCreated hn hr
    · obtain ⟨rfl, rfl⟩ := leaves_raise (by simpa [perform, he] using h)
      exact .inputRefused hn hr
  | createOutputVectorSignal name =>
    rcases createOutput_cases localName s name with ⟨i, hi, he⟩ | ⟨hn, hr, he⟩ | ⟨hn, hr, he⟩
    · obtain ⟨rfl, rfl⟩ := leaves_ret (a := .rank i) (by simpa [perform, he] using h)
      exact .outputExists hi
    · obtain ⟨rfl, rfl⟩ := leaves_ret (a := .rank _) (by simpa [perform, he] using h)
      exact .outputCreated hn hr
    · obtain ⟨rfl, rfl⟩ := leaves_raise (by simpa [perform, he] using h)
      exact .outputRefused hn hr
  | buffer cmdArgs uninitialised =>
    have he := bufferSignal_eq s cmdArgs uninitialised
    cases hget : s.vectorSINStored[s.rank (bufferArgs cmdArgs uninitialised).1]? with
    | none => exact (leaves_undefined (by simpa [perform, he, hget] using h)).elim
    | some aDS =>
      obtain ⟨rfl, rfl⟩ := leaves_ret (a := .done) (by simpa [perform, he, hget] using h)
      exact .resized hget
  | synchro internalStep time =>
    cases internalStep with
    | some x =>
      obtain ⟨rfl, rfl⟩ := leaves_raise (by simpa [perform, synchroValue] using h)
      exact .stepRaised
    | none =>
      rcases synchroValue_cases 0 time s with ⟨hall, he⟩ | ⟨k, aDS, hk, hbuf, before, ⟨hun, he⟩ | ⟨-, -, he⟩⟩
      · obtain ⟨rfl, rfl⟩ := leaves_ret (a := .done) (by simpa [perform, he] using h)
        exact .sampledAll hall
      · obtain ⟨rfl, rfl⟩ := leaves_raise (by simpa [perform, he] using h)
        exact .sampledSome hk hbuf before hun
      · exact (leaves_undefined (by simpa [perform, he] using h)).elim
  | readInputVectorSignal signalRank =>
    rcases readInput_cases s signalRank with ⟨value, he⟩ | he | he
    · obtain ⟨rfl, rfl⟩ := leaves_ret (a := .doubles (some value)) (by simpa [perform, he] using h)
      exact .inputRead he
    · obtain ⟨rfl, rfl⟩ := leaves_raise (by simpa [perform, he] using h)
      exact .inputUnreadable he
    · exact (leaves_undefined (by simpa [perform, he] using h)).elim
  | readSeqInputVectorSignal signalRanks =>
    by_cases hun : ∃ r ∈ signalRanks, UnreadableAt s r
    · obtain ⟨rfl, rfl⟩ := leaves_raise (by simpa [perform, readSeq_raise hun] using h)
      exact .inputsUnreadable hun
    · have hread : ∀ r ∈ signalRanks, ¬UnreadableAt s r := fun r hr hbad => hun ⟨r, hr, hbad⟩
      obtain ⟨rfl, rfl⟩ := leaves_ret (a := .doubleSeqs _) (by simpa [perform, readSeq_ret hread] using h)
      exact .inputsRead hread
  | writeOutputVectorSignal signalRank value =>
    by_cases hout : signalRank < 0 ∨ (s.vectorSOUT.length : Int) ≤ signalRank
    · exact (leaves_undefined (by simpa [perform, writeOutput_outside hout] using h)).elim
    · have hget := List.getElem?_eq_getElem (l := s.vectorSOUT) (i := signalRank.toNat) (by omega)
      have h0 : 0 ≤ signalRank := by omega
      obtain ⟨rfl, rfl⟩ := leaves_ret (a := .done) (by simpa [perform, writeOutput_inside h0 hget] using h)
      exact .outputWritten h0 hget
  | plug signal copy =>
    obtain ⟨rfl, rfl⟩ := leaves_ret (a := .done) (by simpa [perform] using h)
    exact .plugged

end Inversion
end DgMiddleware.Server
