import DgMiddleware.Server.Commands
import DgMiddleware.Server.Creation
import DgMiddleware.Server.Operations
import DgMiddleware.Server.Reading

/-! The remote interface as a whole: the ten requests a client can send, which of them
the server survives, and which replies carry what the interface promises. -/
namespace DgMiddleware.Server
open Library

/-- The server entity, and the rest of its process: interpreter, pool and entities. -/
structure Process (α S : Type) where
  server : ServerCommand α
  graph : S

inductive Request (α : Type) where
  | run (cmd : String)
  | runAndRead (cmd : String)
  | readVector (signalName : String)
  | createOutputVectorSignal (signalName : String)
  | createInputVectorSignal (signalName : String)
  | readInputVectorSignal (signalRank : Int)
  | readSeqInputVectorSignal (signalRanks : List Int)
  | writeOutputVectorSignal (signalRank : Int) (value : List α)
  | registerClient (client : NotifyCallback) (clientName : String)
  | unregisterClient (clientName : String)

/-- What comes back: nothing, a rank, or an out parameter that may not be assigned. -/
inductive Response (α : Type) where
  | done
  | rank (rank : Nat)
  | os (os : Option (List Char))
  | value (value : Option (List α))
  | values (values : Option (List (List α)))

def Response.assigned {α : Type} : Response α → Prop
  | .os reply => reply ≠ none
  | .value reply => reply ≠ none
  | .values reply => reply ≠ none
  | .done | .rank _ => True

section Bodies
variable {α : Type}

/-- A client of the same name is replaced. -/
def registerClient (client : NotifyCallback) (clientName : String) : Body α Unit := do
  let s ← .get
  .set { s with callbackList := s.callbackList.insert clientName client }

/-- The name is erased whether or not it was bound. -/
def unregisterClient (clientName : String) : Body α Unit := do
  let s ← .get
  .set { s with callbackList := s.callbackList.erase clientName }

end Bodies

section Serve
variable {α S : Type} [Double α] (localName : String → String) (shell : Interpreter (Process α S))
  (describe : Exception → String) (pool : Pool (Process α S) α)

def onServer {α S β : Type} (body : Body α β) : Method Exception (Process α S) β :=
  .focus Process.server (fun s p => { p with server := s }) body

def serve : Request α → Method Exception (Process α S) (Response α)
  | .run cmd => do
    run shell cmd
    return .done
  | .runAndRead cmd => do
    return .os (← runAndRead shell describe cmd)
  | .readVector signalName => do
    return .value (← readVector pool signalName)
  | .createOutputVectorSignal signalName => do
    return .rank (← onServer (createOutputVectorSignal localName signalName))
  | .createInputVectorSignal signalName => do
    return .rank (← onServer (createInputVectorSignal localName signalName))
  | .readInputVectorSignal signalRank => do
    return .value (← onServer (readInputVectorSignal signalRank))
  | .readSeqInputVectorSignal signalRanks => do
    return .values (← onServer (readSeqInputVectorSignal signalRanks))
  | .writeOutputVectorSignal signalRank value => do
    onServer (writeOutputVectorSignal signalRank value)
    return .done
  | .registerClient client clientName => do
    onServer (registerClient client clientName)
    return .done
  | .unregisterClient clientName => do
    onServer (unregisterClient clientName)
    return .done

/-- The method returns, or throws the one type its specification admits. -/
def Admitted {σ β : Type} : Outcome Exception σ β → Prop
  | .ret _ _ => True
  | .raise e _ => e = .systemException
  | .undefined => False

instance {σ β : Type} (o : Outcome Exception σ β) : Decidable (Admitted o) := by
  unfold Admitted
  split <;> infer_instance

/-- The signal at the rank can be read and has a buffer, whose recorded slots hold at
least as many components as the signal, and all of it fits a reply. -/
def ReadableAt (s : ServerCommand α) (rank : Nat) : Prop :=
  ∃ data aDS, s.copyAt rank = some data ∧ s.vectorSINStored[rank]? = some aDS ∧
    (∀ j < aDS.lsizeOfSTD, ∃ slot, aDS.stackOfTsData[j]? = some slot ∧ data.length ≤ slot.data.length) ∧
    (data.length + 1) * aDS.lsizeOfSTD < 2 ^ 32

/-- When a request ends with a reply to its client. -/
def Answerable (p : Process α S) : Request α → Prop
  | .run _ | .runAndRead _ | .readVector _ | .registerClient .. | .unregisterClient _ => True
  | .createOutputVectorSignal name => name ∈ p.server.outputNames ∨ ¬Refused localName p.server name
  | .createInputVectorSignal name => name ∈ p.server.inputNames ∨ ¬Refused localName p.server name
  | .readInputVectorSignal signalRank =>
    (signalRank < 0 ∨ (p.server.vectorSIN.length : Int) ≤ signalRank) ∨ ReadableAt p.server signalRank.toNat
  | .readSeqInputVectorSignal signalRanks => ∀ r ∈ signalRanks, ¬UnreadableAt p.server r
  | .writeOutputVectorSignal signalRank _ => 0 ≤ signalRank ∧ signalRank < p.server.vectorSOUT.length

/-- The state that service goes on in: a SystemException is handed to the client. -/
def survivor {σ β : Type} : Outcome Exception σ β → Option σ
  | .ret _ q => some q
  | .raise e q => if e = .systemException then some q else none
  | .undefined => none

/-- Requests served one after another, as long as the process survives. -/
def serveAll : List (Request α) → Process α S → Option (Process α S)
  | [], p => some p
  | request :: rest, p =>
    (survivor (serve localName shell describe pool request p)).bind fun q => serveAll rest q

/-- A normal return has assigned its out parameter. -/
def Delivers {α σ : Type} (o : Outcome Exception σ (Response α)) : Prop :=
  ∀ response q, o = .ret response q → response.assigned

/-- When a request that returns delivers its reply. -/
def Deliverable (p : Process α S) : Request α → Prop
  | .readVector signalName => ∃ data, pool (.ofString signalName) p = .ok (.vector (.ok data))
  | _ => True

end Serve

section Admitted
variable {α : Type} {localName : String → String} {s : ServerCommand α} {name : String}

private theorem admitted_createOutput : Admitted (createOutputVectorSignal localName name s) ↔
    name ∈ s.outputNames ∨ ¬Refused localName s name := by
  rcases createOutput_cases localName s name with ⟨i, hi, he⟩ | ⟨-, hr, he⟩ | ⟨hn, hr, he⟩ <;> rw [he]
  · exact iff_of_true trivial (.inl (List.mem_of_getElem? hi))
  · exact iff_of_true trivial (.inr hr)
  · exact iff_of_false (by simp [Admitted]) (by simp [hn, hr])

private theorem admitted_createInput : Admitted (createInputVectorSignal localName name s) ↔
    name ∈ s.inputNames ∨ ¬Refused localName s name := by
  rcases createInput_cases localName s name with ⟨i, hi, he⟩ | ⟨-, hr, he⟩ | ⟨hn, hr, he⟩ <;> rw [he]
  · exact iff_of_true trivial (.inl (List.mem_of_getElem? hi))
  · exact iff_of_true trivial (.inr hr)
  · exact iff_of_false (by simp [Admitted]) (by simp [hn, hr])

variable [Double α]

private theorem admitted_write {signalRank : Int} {value : List α} :
    Admitted (writeOutputVectorSignal signalRank value s) ↔
      0 ≤ signalRank ∧ signalRank < s.vectorSOUT.length := by
  by_cases hin : 0 ≤ signalRank ∧ signalRank < s.vectorSOUT.length
  · have hget := List.getElem?_eq_getElem (l := s.vectorSOUT) (i := signalRank.toNat) (by omega)
    rw [writeOutput_inside hin.1 hget]
    exact iff_of_true trivial hin
  · rw [writeOutput_outside (by omega)]
    exact iff_of_false id hin

/-- A reply can be built exactly from slots that hold enough, and that fit. -/
theorem reading_isSome_iff (data : List α) (aDS : DataStack α) : (∃ value, reading data aDS = some value) ↔
    (∀ j < aDS.lsizeOfSTD, ∃ slot, aDS.stackOfTsData[j]? = some slot ∧ data.length ≤ slot.data.length) ∧
      (data.length + 1) * aDS.lsizeOfSTD < 2 ^ 32 := by
  unfold reading
  split
  · rename_i hzero
    rw [hzero]
    exact iff_of_true ⟨data, rfl⟩ (by simp)
  · exact ⟨fun ⟨value, h⟩ => readBlocks_inside h, fun h => ⟨_, readBlocks_eq h.1 h.2⟩⟩

private theorem admitted_readInput {signalRank : Int} : Admitted (readInputVectorSignal signalRank s) ↔
    (signalRank < 0 ∨ (s.vectorSIN.length : Int) ≤ signalRank) ∨ ReadableAt s signalRank.toNat := by
  by_cases hout : signalRank < 0 ∨ (s.vectorSIN.length : Int) ≤ signalRank
  · rw [readInput_outside hout]
    exact iff_of_true trivial (.inl hout)
  · rw [or_iff_right hout]
    have h0 : 0 ≤ signalRank := by omega
    have hs := List.getElem?_eq_getElem (l := s.vectorSIN) (i := signalRank.toNat) (by omega)
    cases hp : s.vectorSIN[signalRank.toNat].ptr with
    | none =>
      rw [readInput_unreadable h0 hs hp]
      refine iff_of_false (by simp [Admitted]) ?_
      rintro ⟨data, aDS, hcopy, -⟩
      simp [ServerCommand.copyAt, hs, hp] at hcopy
    | some data =>
      have hcopy : s.copyAt signalRank.toNat = some data := by simp [ServerCommand.copyAt, hs, hp]
      cases hd : s.vectorSINStored[signalRank.toNat]? with
      | none =>
        have := List.getElem?_eq_none_iff.mp hd
        rw [readInput_unbuffered h0 hs hp (by omega)]
        refine iff_of_false id ?_
        rintro ⟨-, aDS, -, hget, -⟩
        rw [hd] at hget
        cases hget
      | some aDS =>
        have hiff := reading_isSome_iff data aDS
        rw [readInput_readable h0 hs hp hd]
        unfold ReadableAt
        cases hreading : reading data aDS with
        | none =>
          refine iff_of_false id ?_
          rintro ⟨data', aDS', hcopy', hget, hslots⟩
          obtain rfl := Option.some.inj (hcopy.symm.trans hcopy')
          obtain rfl := Option.some.inj (hd.symm.trans hget)
          obtain ⟨value, hv⟩ := hiff.mpr hslots
          rw [hreading] at hv
          cases hv
        | some value => exact iff_of_true trivial ⟨data, aDS, hcopy, hd, hiff.mp ⟨value, hreading⟩⟩

private theorem admitted_readSeq {signalRanks : List Int} : Admitted (readSeqInputVectorSignal signalRanks s) ↔
    ∀ r ∈ signalRanks, ¬UnreadableAt s r := by
  by_cases h : ∃ r ∈ signalRanks, UnreadableAt s r
  · rw [readSeq_raise h]
    exact iff_of_false (by simp [Admitted]) fun hall => h.elim fun r hr => hall r hr.1 hr.2
  · have hall : ∀ r ∈ signalRanks, ¬UnreadableAt s r := fun r hr hun => h ⟨r, hr, hun⟩
    rw [readSeq_ret hall]
    exact iff_of_true trivial hall

end Admitted

section Serve
variable {α S : Type} [Double α] {localName : String → String} {shell : Interpreter (Process α S)}
  {describe : Exception → String} {pool : Pool (Process α S) α} {p : Process α S}

omit [Double α] in
/-- The entity's own bodies decide how the process ends. -/
private theorem admitted_onServer {β : Type} (body : Body α β) (f : β → Response α) :
    Admitted ((do return f (← onServer body) : Method Exception (Process α S) (Response α)) p) ↔
      Admitted (body p.server) := by
  simp only [onServer, Method.bind_apply, Method.focus]
  cases body p.server <;> exact Iff.rfl

theorem readVector_ret (pool : Pool (Process α S) α) (p : Process α S) (signalNameCorba : String) :
    (∃ data, vectorOf pool (.ofString signalNameCorba) p = .ok data ∧
      readVector pool signalNameCorba p = .ret (some data) p) ∨
    (∃ e, vectorOf pool (.ofString signalNameCorba) p = .error e ∧
      readVector pool signalNameCorba p = .ret none p) := by
  cases h : vectorOf pool (.ofString signalNameCorba) p with
  | ok data => exact .inl ⟨data, rfl, by simp [readVector, h, copyInto_eq]⟩
  | error e => exact .inr ⟨e, rfl, by simp [readVector, h]⟩

theorem admitted_iff (localName : String → String) (shell : Interpreter (Process α S))
    (describe : Exception → String) (pool : Pool (Process α S) α) (p : Process α S) (request : Request α) :
    Admitted (serve localName shell describe pool request p) ↔ Answerable localName p request := by
  cases request with
  | run cmd =>
    refine iff_of_true ?_ trivial
    simp [serve, run_ret, Admitted]
  | runAndRead cmd =>
    refine iff_of_true ?_ trivial
    simp [serve, runAndRead_ret, Admitted]
  | readVector signalName =>
    refine iff_of_true ?_ trivial
    rcases readVector_ret pool p signalName with ⟨data, -, he⟩ | ⟨e, -, he⟩ <;>
      simp [serve, he, Admitted]
  | createOutputVectorSignal name => exact (admitted_onServer _ _).trans admitted_createOutput
  | createInputVectorSignal name => exact (admitted_onServer _ _).trans admitted_createInput
  | readInputVectorSignal signalRank => exact (admitted_onServer _ _).trans admitted_readInput
  | readSeqInputVectorSignal signalRanks => exact (admitted_onServer _ _).trans admitted_readSeq
  | writeOutputVectorSignal signalRank value =>
    exact (admitted_onServer _ fun _ => .done).trans admitted_write
  | registerClient client clientName => exact iff_of_true trivial trivial
  | unregisterClient clientName => exact iff_of_true trivial trivial

omit [Double α] in
private theorem survivor_isSome {σ β : Type} (o : Outcome Exception σ β) :
    (survivor o).isSome ↔ Admitted o := by
  cases o with
  | ret => exact iff_of_true rfl trivial
  | raise e q => by_cases h : e = .systemException <;> simp [survivor, Admitted, h]
  | undefined => exact iff_of_false (by simp [survivor]) id

/-- A list of requests is served to its end exactly when each of them is answerable in
the state that the requests before it have left. -/
theorem serveAll_isSome_iff (requests : List (Request α)) :
    (serveAll localName shell describe pool requests p).isSome ↔ ∀ (k : Nat) q request,
      serveAll localName shell describe pool (requests.take k) p = some q → requests[k]? = some request →
        Answerable localName q request := by
  induction requests generalizing p with
  | nil => simp [serveAll]
  | cons first rest ih =>
    cases hnext : survivor (serve localName shell describe pool first p) with
    | none =>
      have hno : ¬Answerable localName p first := by
        rw [← admitted_iff localName shell describe pool, ← survivor_isSome, hnext]
        simp
      refine iff_of_false (by simp [serveAll, hnext]) fun h => hno (h 0 p first rfl rfl)
    | some q =>
      have hyes : Answerable localName p first := by
        rw [← admitted_iff localName shell describe pool, ← survivor_isSome, hnext]
        rfl
      rw [serveAll, hnext, Option.bind_some, ih]
      constructor
      · intro h k r request hr hget
        cases k with
        | zero =>
          obtain rfl := Option.some.inj hr
          obtain rfl := Option.some.inj hget
          exact hyes
        | succ k =>
          rw [List.take_succ_cons, serveAll, hnext, Option.bind_some] at hr
          exact h k r request hr hget
      · intro h k r request hr hget
        refine h (k + 1) r request ?_ hget
        rw [List.take_succ_cons, serveAll, hnext, Option.bind_some, hr]

/-- In every state a request ends as its exception specification says exactly when it
is answerable; and so the process outlives exactly the lists of answerable requests. -/
theorem requests_admitted_iff (localName : String → String) (shell : Interpreter (Process α S))
    (describe : Exception → String) (pool : Pool (Process α S) α) (p : Process α S) :
    (∀ request : Request α, Admitted (serve localName shell describe pool request p) ↔
      Answerable localName p request) ∧
    ∀ requests : List (Request α), (serveAll localName shell describe pool requests p).isSome ↔
      ∀ (k : Nat) q request, serveAll localName shell describe pool (requests.take k) p = some q →
        requests[k]? = some request → Answerable localName q request :=
  ⟨admitted_iff localName shell describe pool p, serveAll_isSome_iff⟩

omit [Double α] in
private theorem delivers_onServer {β : Type} (body : Body α β) (f : β → Response α)
    (h : ∀ b t, body p.server = .ret b t → (f b).assigned) :
    Delivers ((do return f (← onServer body) : Method Exception (Process α S) (Response α)) p) := by
  intro response q he
  simp only [onServer, Method.bind_apply, Method.focus] at he
  cases hb : body p.server with
  | ret b t =>
    rw [hb] at he
    cases he
    exact h b t hb
  | raise e t =>
    rw [hb] at he
    cases he
  | undefined =>
    rw [hb] at he
    cases he

omit [Double α] in
private theorem vectorOf_ok_iff {σ : Type} {pool : Pool σ α} {sigName : InputStream} {s : σ} {data : List α} :
    vectorOf pool sigName s = .ok data ↔ pool sigName s = .ok (.vector (.ok data)) := by
  unfold vectorOf
  rcases pool sigName s with e | ((e | data') | _) <;> simp [dynamicCast, bind, Except.bind]

private theorem delivers_readVector (signalName : String) :
    Delivers (serve localName shell describe pool (.readVector signalName) p) ↔
      Deliverable pool p (.readVector signalName) := by
  rcases readVector_ret pool p signalName with ⟨data, hv, he⟩ | ⟨e, hv, he⟩
  · refine iff_of_true ?_ ⟨data, vectorOf_ok_iff.mp hv⟩
    intro response q hret
    rw [serve, Method.bind_apply, he] at hret
    cases hret
    simp [Response.assigned]
  · refine iff_of_false ?_ ?_
    · intro h
      exact h (.value none) p (by rw [serve, Method.bind_apply, he]; rfl) rfl
    · rintro ⟨data, hdata⟩
      rw [vectorOf_ok_iff.mpr hdata] at hv
      cases hv

/-- A request that returns has assigned its reply, whatever the interpreter does and the
arguments are, exactly unless it is a `readVector` whose signal is not found, is of
another type, or cannot be read. -/
theorem requests_delivers_iff (localName : String → String) (shell : Interpreter (Process α S))
    (describe : Exception → String) (pool : Pool (Process α S) α) (p : Process α S) (request : Request α) :
    Delivers (serve localName shell describe pool request p) ↔ Deliverable pool p request := by
  cases request with
  | readVector signalName => exact delivers_readVector signalName
  | runAndRead cmd =>
    refine iff_of_true (fun response q hret => ?_) trivial
    rw [serve, Method.bind_apply, runAndRead_ret] at hret
    cases hret
    simp [Response.assigned]
  | readInputVectorSignal signalRank =>
    refine iff_of_true (delivers_onServer _ _ fun value t hret => ?_) trivial
    rcases readInput_cases p.server signalRank with ⟨value', he⟩ | he | he <;> rw [he] at hret <;> cases hret
    simp [Response.assigned]
  | readSeqInputVectorSignal signalRanks =>
    refine iff_of_true (delivers_onServer _ _ fun values t hret => ?_) trivial
    by_cases hun : ∃ r ∈ signalRanks, UnreadableAt p.server r
    · rw [readSeq_raise hun] at hret
      cases hret
    · rw [readSeq_ret fun r hr hbad => hun ⟨r, hr, hbad⟩] at hret
      cases hret
      simp [Response.assigned]
  | run cmd =>
    refine iff_of_true (fun response q hret => ?_) trivial
    rw [serve, Method.bind_apply, run_ret] at hret
    cases hret
    trivial
  | createOutputVectorSignal | createInputVectorSignal =>
    exact iff_of_true (delivers_onServer _ _ fun _ _ _ => trivial) trivial
  | writeOutputVectorSignal signalRank value =>
    refine iff_of_true (delivers_onServer (writeOutputVectorSignal signalRank value) (fun _ => .done) ?_) trivial
    exact fun _ _ _ => trivial
  | registerClient client clientName =>
    refine iff_of_true (delivers_onServer (registerClient client clientName) (fun _ => .done) ?_) trivial
    exact fun _ _ _ => trivial
  | unregisterClient clientName =>
    refine iff_of_true (delivers_onServer (unregisterClient clientName) (fun _ => .done) ?_) trivial
    exact fun _ _ _ => trivial

end Serve

/-- A process whose interpreter does nothing and whose pool is empty. -/
def idle : Interpreter (Process ℚ Unit) := fun _ _ p => ⟨"", none, p⟩
def noSignals : Pool (Process ℚ Unit) ℚ := fun _ _ => .error .exceptionFactory

/-- Reading an input that was created but never plugged ends the process. -/
theorem request_not_admitted : ∃ (trace : List (ServerCommand ℚ × Event ℚ)) (s : ServerCommand ℚ),
    Run (Steps shortName) (ServerCommand.construct shortName "coshell") trace s ∧
      ¬Admitted (serve shortName idle (fun _ => "") noSignals (.readInputVectorSignal 0) ⟨s, ()⟩) :=
  ⟨_, _, run_execute shortName _ [(0, .createInputVectorSignal "comstate")], by decide +kernel⟩

/-- Asking for a signal that does not exist returns without a reply. -/
theorem readVector_not_delivered : ¬Delivers (serve shortName idle (fun _ => "") noSignals
    (.readVector "nothing.here") ⟨ServerCommand.construct shortName "coshell", ()⟩) :=
  fun h => h (.value none) _ rfl rfl

end DgMiddleware.Server
