import DgMiddleware.Server.State

/-! Creating signals on request: an existing name returns its rank, a new name is
pushed, registered with the entity, and only then given its buffer and its rank. -/
namespace DgMiddleware.Server
open Library
variable {α : Type} (localName : String → String)

/-- The entity refuses a second signal under one local name. -/
def signalRegistration (name : String) (signal : SignalRef) : Body α Unit := do
  let s ← .get
  if localName name ∈ s.signalMap then .raise .exceptionFactory
  else .set { s with signalMap := s.signalMap.insert (localName name) signal }

def createOutputVectorSignal (signalName : String) : Body α Nat := do
  let s ← .get
  match s.vectorSOUT.findIdx? (·.name == signalName) with
  | some i => return i
  | none =>
    .set { s with vectorSOUT := s.vectorSOUT ++ [⟨signalName, []⟩] }
    signalRegistration localName signalName (.vectorSOUT s.vectorSOUT.length)
    let s ← .get
    return s.vectorSOUT.length - 1

def createInputVectorSignal (signalName : String) : Body α Nat := do
  let s ← .get
  match s.vectorSIN.findIdx? (·.name == signalName) with
  | some i => return i
  | none =>
    .set { s with vectorSIN := s.vectorSIN ++ [⟨signalName, none⟩] }
    signalRegistration localName signalName (.vectorSIN s.vectorSIN.length)
    let s ← .get
    .set { s with vectorSINStored := s.vectorSINStored ++ [.empty] }
    let s ← .get
    .set { s with vectorName2Rank := s.vectorName2Rank.insert signalName (s.vectorSIN.length - 1) }
    let s ← .get
    return s.vectorSIN.length - 1

/-- Whether registering a new signal of this name throws. -/
def Refused (s : ServerCommand α) (name : String) : Prop := localName name ∈ s.signalMap

instance (s : ServerCommand α) (name : String) : Decidable (Refused localName s name) :=
  inferInstanceAs (Decidable (_ ∈ _))

/-- The server after a new output, or a new input, of this name was accepted. -/
def withOutput (s : ServerCommand α) (name : String) : ServerCommand α :=
  { s with
    vectorSOUT := s.vectorSOUT ++ [⟨name, []⟩]
    signalMap := s.signalMap.insert (localName name) (.vectorSOUT s.vectorSOUT.length) }

def withInput (s : ServerCommand α) (name : String) : ServerCommand α :=
  { s with
    vectorSIN := s.vectorSIN ++ [⟨name, none⟩]
    vectorSINStored := s.vectorSINStored ++ [.empty]
    vectorName2Rank := s.vectorName2Rank.insert name s.vectorSIN.length
    signalMap := s.signalMap.insert (localName name) (.vectorSIN s.vectorSIN.length) }

private theorem findIdx_none {β : Type} {xs : List β} {f : β → String} {name : String}
    (h : name ∉ xs.map f) : xs.findIdx? (fun x => f x == name) = none := by
  rw [List.findIdx?_eq_none_iff]
  intro x hx
  rw [beq_eq_false_iff_ne]
  rintro rfl
  exact h (List.mem_map_of_mem hx)

private theorem findIdx_some {β : Type} {xs : List β} {f : β → String} {name : String}
    (h : name ∈ xs.map f) :
    ∃ i, xs.findIdx? (fun x => f x == name) = some i ∧ (xs.map f)[i]? = some name := by
  obtain ⟨x, hx, rfl⟩ := List.mem_map.mp h
  cases he : xs.findIdx? (fun y => f y == f x) with
  | none =>
    have := List.findIdx?_eq_none_iff.mp he x hx
    simp at this
  | some i =>
    obtain ⟨hi, hname, -⟩ := List.findIdx?_eq_some_iff_getElem.mp he
    exact ⟨i, rfl, by rw [List.getElem?_map, List.getElem?_eq_getElem hi]; simpa using hname⟩

private theorem registration_refused {s : ServerCommand α} {name : String} {signal : SignalRef}
    (h : Refused localName s name) :
    signalRegistration localName name signal s = .raise .exceptionFactory s := by
  have hc : localName name ∈ s.signalMap := h
  simp [signalRegistration, hc]

private theorem registration_accepted {s : ServerCommand α} {name : String} {signal : SignalRef}
    (h : ¬Refused localName s name) : signalRegistration localName name signal s =
      .ret () { s with signalMap := s.signalMap.insert (localName name) signal } := by
  have hc : localName name ∉ s.signalMap := h
  simp [signalRegistration, hc]

section Input
variable {s : ServerCommand α} {name : String}

theorem createInput_existing (h : name ∈ s.inputNames) :
    ∃ i, s.inputNames[i]? = some name ∧ createInputVectorSignal localName name s = .ret i s := by
  obtain ⟨i, hf, hi⟩ := findIdx_some h
  exact ⟨i, hi, by simp [createInputVectorSignal, hf]⟩

theorem createInput_accepted (h : name ∉ s.inputNames) (hr : ¬Refused localName s name) :
    createInputVectorSignal localName name s = .ret s.vectorSIN.length (withInput localName s name) := by
  have hc : ¬Refused localName { s with vectorSIN := s.vectorSIN ++ [⟨name, none⟩] } name := hr
  simp [createInputVectorSignal, findIdx_none h, registration_accepted localName hc, withInput]

theorem createInput_refused (h : name ∉ s.inputNames) (hr : Refused localName s name) :
    createInputVectorSignal localName name s =
      .raise .exceptionFactory { s with vectorSIN := s.vectorSIN ++ [⟨name, none⟩] } := by
  have hc : Refused localName { s with vectorSIN := s.vectorSIN ++ [⟨name, none⟩] } name := hr
  simp [createInputVectorSignal, findIdx_none h, registration_refused localName hc]

/-- All a creation of an input can do. -/
theorem createInput_cases (s : ServerCommand α) (name : String) :
    (∃ i, s.inputNames[i]? = some name ∧ createInputVectorSignal localName name s = .ret i s) ∨
    (name ∉ s.inputNames ∧ ¬Refused localName s name ∧
      createInputVectorSignal localName name s = .ret s.vectorSIN.length (withInput localName s name)) ∨
    (name ∉ s.inputNames ∧ Refused localName s name ∧ createInputVectorSignal localName name s =
      .raise .exceptionFactory { s with vectorSIN := s.vectorSIN ++ [⟨name, none⟩] }) := by
  by_cases h : name ∈ s.inputNames
  · exact .inl (createInput_existing localName h)
  · by_cases hr : Refused localName s name
    · exact .inr (.inr ⟨h, hr, createInput_refused localName h hr⟩)
    · exact .inr (.inl ⟨h, hr, createInput_accepted localName h hr⟩)

end Input

section Output
variable {s : ServerCommand α} {name : String}

theorem createOutput_existing (h : name ∈ s.outputNames) :
    ∃ i, s.outputNames[i]? = some name ∧ createOutputVectorSignal localName name s = .ret i s := by
  obtain ⟨i, hf, hi⟩ := findIdx_some h
  exact ⟨i, hi, by simp [createOutputVectorSignal, hf]⟩

theorem createOutput_accepted (h : name ∉ s.outputNames) (hr : ¬Refused localName s name) :
    createOutputVectorSignal localName name s =
      .ret s.vectorSOUT.length (withOutput localName s name) := by
  have hc : ¬Refused localName { s with vectorSOUT := s.vectorSOUT ++ [⟨name, []⟩] } name := hr
  simp [createOutputVectorSignal, findIdx_none h, registration_accepted localName hc, withOutput]

theorem createOutput_refused (h : name ∉ s.outputNames) (hr : Refused localName s name) :
    createOutputVectorSignal localName name s =
      .raise .exceptionFactory { s with vectorSOUT := s.vectorSOUT ++ [⟨name, []⟩] } := by
  have hc : Refused localName { s with vectorSOUT := s.vectorSOUT ++ [⟨name, []⟩] } name := hr
  simp [createOutputVectorSignal, findIdx_none h, registration_refused localName hc]

/-- All a creation of an output can do. -/
theorem createOutput_cases (s : ServerCommand α) (name : String) :
    (∃ i, s.outputNames[i]? = some name ∧ createOutputVectorSignal localName name s = .ret i s) ∨
    (name ∉ s.outputNames ∧ ¬Refused localName s name ∧
      createOutputVectorSignal localName name s = .ret s.vectorSOUT.length (withOutput localName s name)) ∨
    (name ∉ s.outputNames ∧ Refused localName s name ∧ createOutputVectorSignal localName name s =
      .raise .exceptionFactory { s with vectorSOUT := s.vectorSOUT ++ [⟨name, []⟩] }) := by
  by_cases h : name ∈ s.outputNames
  · exact .inl (createOutput_existing localName h)
  · by_cases hr : Refused localName s name
    · exact .inr (.inr ⟨h, hr, createOutput_refused localName h hr⟩)
    · exact .inr (.inl ⟨h, hr, createOutput_accepted localName h hr⟩)

end Output

/-- A name of the signals that every server has is not free. -/
example : Refused shortName (ServerCommand.construct shortName "coshell" : ServerCommand Unit) "position" ∧
    ¬Refused shortName (ServerCommand.construct shortName "coshell" : ServerCommand Unit) "comstate" := by
  decide +kernel

end DgMiddleware.Server
