import DgMiddleware.Server.RankRegistry

/-! Writing output signals. Each output carries the last value written to its rank, as
long as no client writes to a rank that no creation has returned. -/
namespace DgMiddleware.Server
open Library
variable {α : Type}

/-- The value an event writes to an output rank. -/
def Event.written (e : Event α) (rank : Nat) : Option (List α) :=
  match e.op with
  | .writeOutputVectorSignal signalRank value => if signalRank = rank then some value else none
  | _ => none

/-- The last value written to an output rank since it was returned by a creation. -/
def lastWrite (rank : Nat) (trace : List (ServerCommand α × Event α)) : Option (List α) :=
  (trace.filterMap fun x => if rank < x.1.vectorSOUT.length then x.2.written rank else none).getLast?

def requestsOf (trace : List (ServerCommand α × Event α)) : List (Nat × Op α) :=
  trace.map fun x => (x.2.client, x.2.op)

@[simp] theorem requestsOf_snoc (trace : List (ServerCommand α × Event α)) (x : ServerCommand α × Event α) :
    requestsOf (trace ++ [x]) = requestsOf trace ++ [(x.2.client, x.2.op)] := by
  simp [requestsOf]

/-- The output names that requests create, in the order of their first creation. -/
def requestedOutputs (requests : List (Nat × Op α)) : List String :=
  requests.foldl (fun names request =>
    match request.2 with
    | .createOutputVectorSignal name => if name ∈ names then names else names ++ [name]
    | _ => names) []

/-- A request that creates an output signal or writes to one. -/
def OutputRequest : Op α → Prop
  | .createOutputVectorSignal _ | .writeOutputVectorSignal .. => True
  | _ => False

/-- The rank of a write names no output of the server. -/
def Stray (s : ServerCommand α) (signalRank : Int) : Prop :=
  signalRank < 0 ∨ (s.vectorSOUT.length : Int) ≤ signalRank

/-- No output name is taken by the signals of the constructor, and no two share a
local name: every registration succeeds. -/
structure Registrable (localName : String → String) (server : String) (requests : List (Nat × Op α)) :
    Prop where
  free : ∀ name ∈ requestedOutputs requests,
    localName name ∉ (ServerCommand.construct localName server : ServerCommand α).signalMap
  distinct : ∀ name ∈ requestedOutputs requests, ∀ other ∈ requestedOutputs requests,
    localName name = localName other → name = other

def Op.writeRank : Op α → Option Int
  | .writeOutputVectorSignal signalRank _ => some signalRank
  | _ => none

/-- Every write goes to a rank below the number of outputs requested before it. -/
def WritesInside (requests : List (Nat × Op α)) : Prop :=
  ∀ k < requests.length, ∀ q ∈ requests[k]?, ∀ signalRank ∈ q.2.writeRank,
    0 ≤ signalRank ∧ signalRank < (requestedOutputs (requests.take k)).length

instance (requests : List (Nat × Op α)) : Decidable (WritesInside requests) := by
  unfold WritesInside
  infer_instance

section
variable [Double α] {localName : String → String} {server : String} {s t : ServerCommand α}
  {trace : List (ServerCommand α × Event α)} {requests : List (Nat × Op α)}

/-- The requests are all served; the ranks returned stay with their names; every output
carries its last write; and a stray write leaves the server as it was. -/
def LastWriteWins (localName : String → String) (server : String) (requests : List (Nat × Op α)) : Prop :=
  ∃ trace s, Run (Steps localName) (ServerCommand.construct localName server) trace s ∧
    requestsOf trace = requests ∧
    (∀ x ∈ trace, ∀ name rank, x.2.outputRank = some (name, rank) → s.outputNames[rank]? = some name) ∧
    (∀ rank signal, s.vectorSOUT[rank]? = some signal → signal.value = (lastWrite rank trace).getD []) ∧
    ∀ x ∈ trace, ∀ signalRank value t, x.2.op = .writeOutputVectorSignal signalRank value →
      Stray x.1 signalRank → Steps localName x.1 x.2 t → t = x.1

/-- What a run of creations and writes has made of the outputs. -/
structure Outputs (localName : String → String) (server : String)
    (trace : List (ServerCommand α × Event α)) (s : ServerCommand α) : Prop where
  names : s.outputNames = requestedOutputs (requestsOf trace)
  keys : ∀ key : String, key ∈ s.signalMap →
    key ∈ (ServerCommand.construct localName server : ServerCommand α).signalMap ∨
      ∃ name ∈ s.outputNames, localName name = key
  before : ∀ x ∈ trace, x.1.vectorSOUT.length ≤ s.vectorSOUT.length
  values : ∀ rank signal, s.vectorSOUT[rank]? = some signal → signal.value = (lastWrite rank trace).getD []

omit [Double α] in
theorem requestedOutputs_snoc (requests : List (Nat × Op α)) (request : Nat × Op α) :
    requestedOutputs (requests ++ [request]) =
      match request.2 with
      | .createOutputVectorSignal name =>
        if name ∈ requestedOutputs requests then requestedOutputs requests
        else requestedOutputs requests ++ [name]
      | _ => requestedOutputs requests := by
  rw [requestedOutputs, List.foldl_append]
  rfl

omit [Double α] in
theorem lastWrite_snoc (rank : Nat) (trace : List (ServerCommand α × Event α)) (x : ServerCommand α × Event α) :
    lastWrite rank (trace ++ [x]) =
      (if rank < x.1.vectorSOUT.length then x.2.written rank else none).or (lastWrite rank trace) := by
  rw [lastWrite, List.filterMap_append, List.getLast?_append, lastWrite]
  congr 1
  simp only [List.filterMap_cons, List.filterMap_nil]
  split <;> simp [*]

omit [Double α] in
private theorem lastWrite_new (h : ∀ x ∈ trace, x.1.vectorSOUT.length ≤ s.vectorSOUT.length) :
    lastWrite s.vectorSOUT.length trace = none := by
  rw [lastWrite, List.getLast?_eq_none_iff, List.filterMap_eq_nil_iff]
  intro x hx
  rw [if_neg (Nat.not_lt.mpr (h x hx))]

omit [Double α] in
private theorem outputNames_length (s : ServerCommand α) : s.outputNames.length = s.vectorSOUT.length :=
  List.length_map _

omit [Double α] in
theorem requestedOutputs_append (before after : List (Nat × Op α)) :
    requestedOutputs before <+: requestedOutputs (before ++ after) := by
  induction after using List.reverseRecOn with
  | nil => simp
  | append_singleton after request ih =>
    rw [← List.append_assoc, requestedOutputs_snoc]
    split
    · split
      · exact ih
      · exact ih.trans (List.prefix_append _ _)
    · exact ih

omit [Double α] in
theorem Registrable.init {before after : List (Nat × Op α)}
    (h : Registrable localName server (before ++ after)) : Registrable localName server before := by
  have hsub := (requestedOutputs_append before after).subset
  exact ⟨fun name hn => h.free name (hsub hn),
    fun name hn other ho => h.distinct name (hsub hn) other (hsub ho)⟩

omit [Double α] in
/-- A new name in the requests is accepted by the registration. -/
private theorem Outputs.accepted {client : Nat} {name : String} (hs : Outputs localName server trace s)
    (hreg : Registrable localName server (requestsOf trace ++ [(client, .createOutputVectorSignal name)]))
    (hn : name ∉ s.outputNames) : ¬Refused localName s name := by
  have hreq : requestedOutputs (requestsOf trace ++ [(client, .createOutputVectorSignal name)]) =
      s.outputNames ++ [name] := by
    rw [requestedOutputs_snoc, ← hs.names]
    simp [hn]
  intro hbad
  rcases hs.keys _ hbad with hinit | ⟨other, hother, hlocal⟩
  · exact hreg.free name (by simp [hreq]) hinit
  · obtain rfl := hreg.distinct other (by simp [hreq, hother]) name (by simp [hreq]) hlocal
    exact hn hother

omit [Double α] in
theorem outputs_construct :
    Outputs localName server [] (ServerCommand.construct localName server : ServerCommand α) where
  names := rfl
  keys := fun _ h => .inl h
  before := by simp
  values := by simp [ServerCommand.construct]

omit [Double α] in
private theorem Outputs.created {client : Nat} {name : String} (hs : Outputs localName server trace s)
    (hn : name ∉ s.outputNames) : Outputs localName server
      (trace ++ [(s, ⟨client, .createOutputVectorSignal name, .ok (.rank s.vectorSOUT.length)⟩)])
      (withOutput localName s name) := by
  refine ⟨?_, fun key hkey => ?_, fun x hx => ?_, fun rank signal hget => ?_⟩
  · rw [requestsOf_snoc, requestedOutputs_snoc, outputNames_withOutput, hs.names]
    exact (if_neg (by rwa [hs.names] at hn)).symm
  · rw [withOutput, Std.ExtTreeMap.mem_insert] at hkey
    rcases hkey with he | hold
    · exact .inr ⟨name, by simp, Std.LawfulEqCmp.eq_of_compare he⟩
    · rcases hs.keys key hold with hinit | ⟨other, ho, hl⟩
      · exact .inl hinit
      · exact .inr ⟨other, by simp [ho], hl⟩
  · have hlen : (withOutput localName s name).vectorSOUT.length = s.vectorSOUT.length + 1 := by
      simp [withOutput]
    rw [hlen]
    rcases List.mem_append.mp hx with hx | hx
    · exact Nat.le_succ_of_le (hs.before x hx)
    · rw [List.mem_singleton.mp hx]
      exact Nat.le_succ _
  · have hsame : lastWrite rank (trace ++ [(s, ⟨client, .createOutputVectorSignal name,
        .ok (.rank s.vectorSOUT.length)⟩)]) = lastWrite rank trace := by
      rw [lastWrite_snoc]
      simp [Event.written]
    rw [hsame]
    rw [withOutput, getElem?_snoc] at hget
    rcases hget with hget | ⟨rfl, rfl⟩
    · exact hs.values rank signal hget
    · rw [lastWrite_new hs.before, Option.getD_none]

omit [Double α] in
private theorem Outputs.written {client : Nat} {signalRank : Int} {value : List α}
    {signal : SignalTimeDependent α} (hs : Outputs localName server trace s) (h0 : 0 ≤ signalRank)
    (hget : s.vectorSOUT[signalRank.toNat]? = some signal) : Outputs localName server
      (trace ++ [(s, ⟨client, .writeOutputVectorSignal signalRank value, .ok .done⟩)])
      { s with vectorSOUT := s.vectorSOUT.set signalRank.toNat { signal with value := value } } := by
  refine ⟨?_, fun key hkey => ?_, fun x hx => ?_, fun rank signal' hget' => ?_⟩
  · rw [outputNames_write hget, hs.names, requestsOf_snoc, requestedOutputs_snoc]
  · rw [outputNames_write hget]
    exact hs.keys key hkey
  · rw [List.length_set]
    rcases List.mem_append.mp hx with hx | hx
    · exact hs.before x hx
    · rw [List.mem_singleton.mp hx]
  · have hlt := (List.getElem?_eq_some_iff.mp hget).1
    rw [lastWrite_snoc]
    rw [List.getElem?_set] at hget'
    split at hget'
    · rename_i hrank
      subst hrank
      obtain rfl := Option.some.inj hget'
      simp [hlt, Event.written, Int.toNat_of_nonneg h0]
    · rename_i hrank
      have hne : signalRank ≠ rank := by omega
      simpa [Event.written, hne] using hs.values rank signal' hget'

theorem Outputs.step {e : Event α} (hs : Outputs localName server trace s) (h : Steps localName s e t)
    (hreq : OutputRequest e.op) (hreg : Registrable localName server (requestsOf (trace ++ [(s, e)]))) :
    Outputs localName server (trace ++ [(s, e)]) t := by
  rw [requestsOf_snoc] at hreg
  obtain ⟨client, op, result⟩ := e
  have heffect := h.effect
  cases heffect with
  | @outputExists name i hi =>
    refine ⟨?_, hs.keys, fun x hx => ?_, fun rank signal hget => ?_⟩
    · rw [requestsOf_snoc, requestedOutputs_snoc, hs.names]
      exact (if_pos (hs.names ▸ List.mem_of_getElem? hi)).symm
    · rcases List.mem_append.mp hx with hx | hx
      · exact hs.before x hx
      · rw [List.mem_singleton.mp hx]
    · rw [lastWrite_snoc]
      simpa [Event.written] using hs.values rank signal hget
  | outputCreated hn => exact hs.created hn
  | outputRefused hn hr => exact absurd hr (hs.accepted hreg hn)
  | outputWritten h0 hget => exact hs.written h0 hget
  | inputExists | inputCreated | inputRefused | resized | stepRaised | sampledAll | sampledSome | inputRead
  | inputUnreadable | inputsRead | inputsUnreadable | plugged =>
    exact hreq.elim

theorem Outputs.run (h : Run (Steps localName) (ServerCommand.construct localName server) trace s)
    (hreq : ∀ q ∈ requestsOf trace, OutputRequest q.2)
    (hreg : Registrable localName server (requestsOf trace)) : Outputs localName server trace s := by
  induction h with
  | start => exact outputs_construct
  | @next trace s t e hr hs ih =>
    rw [requestsOf_snoc] at hreq
    have prior := ih (fun q hq => hreq q (List.mem_append_left _ hq)) (requestsOf_snoc trace (s, e) ▸ hreg).init
    exact prior.step hs (hreq (e.client, e.op) (List.mem_append_right _ (List.mem_singleton_self _))) hreg

omit [Double α] in
private theorem writesInside_init {before after : List (Nat × Op α)} (h : WritesInside (before ++ after)) :
    WritesInside before := by
  intro k hk q hq
  have hget : (before ++ after)[k]? = some q := by rw [List.getElem?_append_left hk, hq]
  have htake : (before ++ after).take k = before.take k := List.take_append_of_le_length hk.le
  rw [← htake]
  exact h k (by rw [List.length_append]; omega) q hget

omit [Double α] in
private theorem writesInside_last {requests : List (Nat × Op α)} {q : Nat × Op α}
    (h : WritesInside (requests ++ [q])) {signalRank : Int} (hq : signalRank ∈ q.2.writeRank) :
    0 ≤ signalRank ∧ signalRank < (requestedOutputs requests).length := by
  simpa using h requests.length (by simp) q (by simp) signalRank hq

/-- Requests whose writes go inside are all served. -/
private theorem served (hreq : ∀ q ∈ requests, OutputRequest q.2) (hreg : Registrable localName server requests)
    (hin : WritesInside requests) : ∃ trace s,
      Run (Steps localName) (ServerCommand.construct localName server) trace s ∧
        requestsOf trace = requests := by
  induction requests using List.reverseRecOn with
  | nil => exact ⟨[], _, .start, rfl⟩
  | append_singleton requests q ih =>
    obtain ⟨trace, s, hrun, rfl⟩ := ih (fun q hq => hreq q (List.mem_append_left _ hq)) hreg.init
      (writesInside_init hin)
    have houtputs := Outputs.run hrun (fun q hq => hreq q (List.mem_append_left _ hq)) hreg.init
    have hserve : ∃ result t, Steps localName s ⟨q.1, q.2, result⟩ t := by
      have hlast := hreq q (List.mem_append_right _ (List.mem_singleton_self _))
      obtain ⟨client, op⟩ := q
      cases op with
      | createOutputVectorSignal name =>
        rcases createOutput_cases localName s name with ⟨i, -, he⟩ | ⟨-, -, he⟩ | ⟨hn, hr, -⟩
        · exact ⟨.ok (.rank i), s, by simp [Steps, perform, he]⟩
        · exact ⟨.ok (.rank s.vectorSOUT.length), withOutput localName s name, by simp [Steps, perform, he]⟩
        · exact absurd hr (houtputs.accepted hreg hn)
      | writeOutputVectorSignal signalRank value =>
        obtain ⟨h0, hlt⟩ := writesInside_last hin rfl
        rw [← houtputs.names, outputNames_length] at hlt
        have hget := List.getElem?_eq_getElem (l := s.vectorSOUT) (i := signalRank.toNat) (by omega)
        have he := writeOutput_inside h0 hget value
        exact ⟨.ok .done, _, by rw [Steps, perform, Method.bind_apply, he]; rfl⟩
      | _ => exact hlast.elim
    obtain ⟨result, t, hstep⟩ := hserve
    exact ⟨trace ++ [(s, ⟨q.1, q.2, result⟩)], t, hrun.next hstep, by simp⟩

/-- A run that serves a write found its rank inside. -/
private theorem write_inside {e : Event α} {signalRank : Int} (h : Steps localName s e t)
    (hq : signalRank ∈ e.op.writeRank) : 0 ≤ signalRank ∧ signalRank < s.vectorSOUT.length := by
  obtain ⟨client, op, result⟩ := e
  have heffect := h.effect
  cases heffect with
  | outputWritten h0 hget =>
    obtain rfl := Option.some.inj hq
    have := (List.getElem?_eq_some_iff.mp hget).1
    omega
  | _ => cases hq

private theorem writesInside_of_served (hreq : ∀ q ∈ requests, OutputRequest q.2)
    (hreg : Registrable localName server requests) (h : LastWriteWins localName server requests) :
    WritesInside requests := by
  obtain ⟨trace, s, hrun, rfl, -⟩ := h
  intro k hk q hq signalRank hrank
  rw [requestsOf, List.length_map] at hk
  have hx := List.getElem?_eq_getElem hk
  have hsplit : trace = trace.take k ++ (trace)[k] :: trace.drop (k + 1) := by simp
  rw [hsplit] at hrun
  obtain ⟨hbefore, t, hstep⟩ := hrun.split
  have hreqs : requestsOf (trace.take k) = (requestsOf trace).take k := List.map_take
  have hinit := List.take_append_drop k (requestsOf trace)
  have houtputs := Outputs.run hbefore
    (fun q hq => hreq q (List.mem_of_mem_take (hreqs ▸ hq)))
    (hreqs ▸ Registrable.init (hinit.symm ▸ hreg))
  obtain rfl : ((trace)[k].2.client, (trace)[k].2.op) = q := by
    simpa [requestsOf, hx] using hq
  rw [← hreqs, ← houtputs.names, outputNames_length]
  exact write_inside hstep hrank

/-- When every registration succeeds, all outputs carry their last writes and stray
writes are harmless exactly if there are no stray writes. -/
theorem lastWriteWins_iff (localName : String → String) (server : String) (requests : List (Nat × Op α))
    (hreq : ∀ q ∈ requests, OutputRequest q.2) (hreg : Registrable localName server requests) :
    LastWriteWins localName server requests ↔ WritesInside requests := by
  refine ⟨writesInside_of_served hreq hreg, fun hin => ?_⟩
  obtain ⟨trace, s, hrun, rfl⟩ := served hreq hreg hin
  refine ⟨trace, s, hrun, rfl, (HandedOut.run hrun).output, (Outputs.run hrun hreq hreg).values, ?_⟩
  intro x hx signalRank value t hop hstray hstep
  have hrank : signalRank ∈ x.2.op.writeRank := by rw [hop]; rfl
  have hinside := write_inside hstep hrank
  unfold Stray at hstray
  omega

end

/-- Two outputs and four writes; the last one goes to the given rank. -/
def writes (signalRank : Int) : List (Nat × Op ℚ) :=
  [(0, .createOutputVectorSignal "torque"), (0, .writeOutputVectorSignal 0 [1, 2]),
    (1, .createOutputVectorSignal "force"), (1, .writeOutputVectorSignal 1 [3]),
    (2, .createOutputVectorSignal "torque"), (2, .writeOutputVectorSignal signalRank [4, 5, 6])]

theorem lastWriteWins_writes : LastWriteWins shortName "coshell" (writes 0) :=
  (lastWriteWins_iff shortName "coshell" (writes 0) (by simp [writes, OutputRequest])
    ⟨by decide +kernel, by decide +kernel⟩).mpr (by decide +kernel)

/-- A write to the rank after the last one has no outcome. -/
theorem stray_write_harmful : ¬LastWriteWins shortName "coshell" (writes 2) := by
  intro h
  have hin := writesInside_of_served (by simp [writes, OutputRequest]) ⟨by decide +kernel, by decide +kernel⟩ h
  exact absurd hin (by decide +kernel)

end DgMiddleware.Server
