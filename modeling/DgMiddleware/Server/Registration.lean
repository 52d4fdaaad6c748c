import DgMiddleware.Server.Operations

/-! Creations whose registration throws. The new signal stays in its vector, so the
containers are not what they were, and the same creation asked for again returns. -/
namespace DgMiddleware.Server
open Library
variable {α : Type}

structure SameContainers (s t : ServerCommand α) : Prop where
  vectorSIN : t.vectorSIN = s.vectorSIN
  vectorSINStored : t.vectorSINStored = s.vectorSINStored
  vectorSOUT : t.vectorSOUT = s.vectorSOUT
  vectorName2Rank : t.vectorName2Rank = s.vectorName2Rank

/-- When the creation throws, nothing was created, and asking again gives no rank. -/
def CreationAtomic (create : Body α Nat) (s : ServerCommand α) : Prop :=
  ∀ e t, create s = .raise e t → SameContainers s t ∧ ∀ rank u, create t ≠ .ret rank u

/-- Every input has its sample buffer. -/
def Buffered (s : ServerCommand α) : Prop := s.vectorSIN.length = s.vectorSINStored.length

section Atomic
variable {localName : String → String} {s : ServerCommand α} {name : String}

/-- A creation that returns for existing names, and otherwise leaves other containers
when it throws, is atomic for the existing names only. -/
private theorem atomic_iff {create : Body α Nat} {old : Prop} (hold : old → ∃ i, create s = .ret i s)
    (hnew : ¬old → ∃ e t, create s = .raise e t ∧ ¬SameContainers s t) : CreationAtomic create s ↔ old := by
  constructor
  · intro hatomic
    by_contra hn
    obtain ⟨e, t, hraise, hdiff⟩ := hnew hn
    exact hdiff (hatomic e t hraise).1
  · intro ho e t hraise
    obtain ⟨i, hret⟩ := hold ho
    rw [hret] at hraise
    cases hraise

private theorem createInput_atomic_iff (hr : Refused localName s name) :
    CreationAtomic (createInputVectorSignal localName name) s ↔ name ∈ s.inputNames := by
  apply atomic_iff
  · intro hn
    obtain ⟨i, -, hret⟩ := createInput_existing localName hn
    exact ⟨i, hret⟩
  · intro hn
    exact ⟨_, _, createInput_refused localName hn hr, fun hsame => by simpa using hsame.vectorSIN⟩

private theorem createOutput_atomic_iff (hr : Refused localName s name) :
    CreationAtomic (createOutputVectorSignal localName name) s ↔ name ∈ s.outputNames := by
  apply atomic_iff
  · intro hn
    obtain ⟨i, -, hret⟩ := createOutput_existing localName hn
    exact ⟨i, hret⟩
  · intro hn
    exact ⟨_, _, createOutput_refused localName hn hr, fun hsame => by simpa using hsame.vectorSOUT⟩

/-- Asked for again, a creation that threw returns the rank of the signal it left. -/
theorem createInput_retried (hn : name ∉ s.inputNames) (hr : Refused localName s name) :
    ∃ t, createInputVectorSignal localName name s = .raise .exceptionFactory t ∧
      ∃ rank, createInputVectorSignal localName name t = .ret rank t := by
  refine ⟨_, createInput_refused localName hn hr, ?_⟩
  have hin : name ∈ ServerCommand.inputNames { s with vectorSIN := s.vectorSIN ++ [⟨name, none⟩] } := by
    simp [ServerCommand.inputNames]
  obtain ⟨rank, -, hret⟩ := createInput_existing localName hin
  exact ⟨rank, hret⟩

end Atomic

section Run
variable [Double α] {localName : String → String} {s t : ServerCommand α}

/-- The event does not create an input whose registration is refused. -/
def RegistersInput (localName : String → String) (s : ServerCommand α) (e : Event α) : Prop :=
  match e.op with
  | .createInputVectorSignal name => Refused localName s name → name ∈ s.inputNames
  | _ => True

instance (s : ServerCommand α) (e : Event α) : Decidable (RegistersInput localName s e) := by
  unfold RegistersInput
  split <;> infer_instance

theorem buffered_step {e : Event α} (hs : Buffered s) (h : Steps localName s e t) :
    Buffered t ↔ RegistersInput localName s e := by
  obtain ⟨client, op, result⟩ := e
  have heffect := h.effect
  unfold Buffered at *
  cases heffect with
  | inputExists hi => exact iff_of_true hs fun _ => List.mem_of_getElem? hi
  | inputCreated hn hr => exact iff_of_true (by simp [withInput, hs]) fun hbad => absurd hbad hr
  | inputRefused hn hr => exact iff_of_false (by simp [hs]) fun hbad => hn (hbad hr)
  | resized | sampledAll | sampledSome =>
    exact iff_of_true (by simpa [withBuffer, asked, synchronised] using hs) trivial
  | plugged =>
    obtain ⟨hstored, -, hlen⟩ := withPlug_frame s _ _
    exact iff_of_true (by rw [hlen, hstored, hs]) trivial
  | outputExists | outputCreated | outputRefused | stepRaised | inputRead | inputUnreadable | inputsRead
  | inputsUnreadable | outputWritten =>
    exact iff_of_true hs trivial

/-- A creation whose registration is refused is atomic exactly when the signal exists
already; and every state of a run has one buffer per input exactly when no input was
created against a refusal. -/
theorem creation_atomic_iff (localName : String → String) :
    (∀ (s : ServerCommand α) (name : String), Refused localName s name →
      (CreationAtomic (createInputVectorSignal localName name) s ↔ name ∈ s.inputNames) ∧
      (CreationAtomic (createOutputVectorSignal localName name) s ↔ name ∈ s.outputNames)) ∧
    ∀ (server : String) (trace : List (ServerCommand α × Event α)) (s : ServerCommand α),
      Run (Steps localName) (ServerCommand.construct localName server) trace s →
      (((∀ x ∈ trace, Buffered x.1) ∧ Buffered s) ↔ ∀ x ∈ trace, RegistersInput localName x.1 x.2) :=
  ⟨fun _ _ hr => ⟨createInput_atomic_iff hr, createOutput_atomic_iff hr⟩, fun _ _ _ h =>
    h.forall_states_iff Buffered (RegistersInput localName) (by rfl) fun _ _ _ hi hs => buffered_step hi hs⟩

end Run

/-- An output takes the local name that an input is then created under. -/
def conflicting : List (Nat × Op ℚ) :=
  [(0, .createOutputVectorSignal "torque"), (1, .createInputVectorSignal "torque")]

theorem creation_atomic_conflicting :
    ¬CreationAtomic (createInputVectorSignal shortName "torque")
      (execute shortName (ServerCommand.construct shortName "coshell") (conflicting.take 1)).2 ∧
    CreationAtomic (createOutputVectorSignal shortName "torque")
      (execute shortName (ServerCommand.construct shortName "coshell") (conflicting.take 1)).2 := by
  generalize hresult : (execute shortName (ServerCommand.construct shortName "coshell") (conflicting.take 1)).2 = s
  obtain ⟨hrefused, hinput, houtput⟩ : Refused shortName s "torque" ∧ "torque" ∉ s.inputNames ∧
      "torque" ∈ s.outputNames := by
    rw [← hresult]
    decide +kernel
  have h := (creation_atomic_iff (α := ℚ) shortName).1 s "torque" hrefused
  exact ⟨fun hbad => absurd (h.1.mp hbad) hinput, h.2.mpr houtput⟩

/-- The creation of the input is not atomic, and leaves it without a buffer. -/
theorem creation_not_atomic : ∃ (trace : List (ServerCommand ℚ × Event ℚ)) (s : ServerCommand ℚ),
    Run (Steps shortName) (ServerCommand.construct shortName "coshell") trace s ∧ Refused shortName s "torque" ∧
      ¬CreationAtomic (createInputVectorSignal shortName "torque") s ∧
      ∃ (trace' : List (ServerCommand ℚ × Event ℚ)) (s' : ServerCommand ℚ),
        Run (Steps shortName) (ServerCommand.construct shortName "coshell") trace' s' ∧ ¬Buffered s' := by
  have hrun := run_execute shortName (ServerCommand.construct shortName "coshell") (conflicting.take 1)
  generalize hresult : execute shortName (ServerCommand.construct shortName "coshell") (conflicting.take 1) =
    result at hrun
  obtain ⟨hrefused, hinput⟩ : Refused shortName result.2 "torque" ∧ "torque" ∉ result.2.inputNames := by
    rw [← hresult]
    decide +kernel
  refine ⟨result.1, result.2, hrun, hrefused, ?_, _, _, run_execute shortName _ conflicting, ?_⟩
  · rwa [createInput_atomic_iff hrefused]
  · unfold Buffered
    decide +kernel

end DgMiddleware.Server
