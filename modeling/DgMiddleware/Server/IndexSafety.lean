import DgMiddleware.Server.Stacks

/-! Whether the slots that are written and read lie inside their stacks. Recording
keeps them inside; a `buffer` command does so only for the sizes described here. -/
namespace DgMiddleware.Server
open Library
variable {α : Type}

/-- In every stack the slot that the next sample is written to, and all slots that a
reader walks over, exist. -/
def IndexSafe (s : ServerCommand α) : Prop :=
  ∀ aDS ∈ s.vectorSINStored, (aDS.stackOfTsData.length ≠ 0 → aDS.index < aDS.stackOfTsData.length) ∧
    ∀ j < aDS.lsizeOfSTD, j < aDS.stackOfTsData.length

instance (s : ServerCommand α) : Decidable (IndexSafe s) := by unfold IndexSafe; infer_instance

theorem indexSafe_iff (s : ServerCommand α) :
    IndexSafe s ↔ ∀ (r : Nat) aDS, s.vectorSINStored[r]? = some aDS → aDS.SlotsInside := by
  simp only [IndexSafe, ← DataStack.slotsInside_iff]
  constructor
  · exact fun h r aDS hget => h aDS (List.mem_of_getElem? hget)
  · intro h aDS hmem
    obtain ⟨r, hget⟩ := List.getElem?_of_mem hmem
    exact h r aDS hget

/-- A `buffer` command leaves room above the index of the stack it resizes, or empties
a stack whose readers will find nothing. -/
def ResizeInside (s : ServerCommand α) (e : Event α) : Prop :=
  ∀ c ∈ e.bufferCommand, ∀ aDS ∈ s.vectorSINStored[s.rank c.1]?,
    aDS.index < c.2 ∨ (c.2 = 0 ∧ (aDS.turnaround = true ∨ aDS.index = 0))

instance (s : ServerCommand α) (e : Event α) : Decidable (ResizeInside s e) := by
  unfold ResizeInside
  infer_instance

variable [Double α] {localName : String → String} {s t : ServerCommand α}

private theorem sampled_inside {time : Int} {r : Nat} {aDS : DataStack α} (h : aDS.SlotsInside) :
    (sampled time s r aDS).SlotsInside := by
  unfold sampled
  split
  · exact h
  · split
    · rename_i data _
      cases hr : aDS.record time data with
      | none => exact h
      | some aDS' => exact DataStack.record_slotsInside hr
    · exact h

/-- In a safe state a synchronisation step never leaves a container. -/
theorem IndexSafe.synchro_defined (h : IndexSafe s) (hlen : s.vectorSINStored.length ≤ s.vectorSIN.length)
    (aValue : α) (time : Int) : synchroValue none aValue time s ≠ .undefined := by
  rcases synchroValue_cases aValue time s with ⟨-, he⟩ | ⟨k, aDS, hk, hbuf, -, ⟨-, he⟩ | ⟨hread, hrec, -⟩⟩
  · simp [he]
  · simp [he]
  · have hlt : k < s.vectorSIN.length := Nat.lt_of_lt_of_le (List.getElem?_eq_some_iff.mp hk).1 hlen
    have hsig := List.getElem?_eq_getElem hlt
    have hdata : ∃ data, s.vectorSIN[k].ptr = some data := by
      cases hptr : s.vectorSIN[k].ptr with
      | none => exact absurd ⟨_, hsig, hptr⟩ hread
      | some data => exact ⟨data, rfl⟩
    obtain ⟨data, hptr⟩ := hdata
    refine absurd (fun aDS' hget _ => ⟨⟨data, ?_⟩, ?_⟩) hrec
    · simp [ServerCommand.copyAt, hsig, hptr]
    · obtain rfl := Option.some.inj (hk.symm.trans hget)
      exact (h aDS (List.mem_of_getElem? hk)).1 (by simpa using hbuf)

/-- One step keeps all stacks safe exactly when it resizes inside. -/
theorem indexSafe_step {e : Event α} (hs : IndexSafe s) (h : Steps localName s e t) :
    IndexSafe t ↔ ResizeInside s e := by
  obtain ⟨client, op, result⟩ := e
  have heffect := h.effect
  rw [indexSafe_iff] at hs ⊢
  constructor
  · intro ht c hcmd aDS hget
    cases op with
    | buffer cmdArgs uninitialised =>
      obtain rfl : bufferArgs cmdArgs uninitialised = c := Option.some.inj hcmd
      have hafter := heffect.stack_after hget
      rw [stackAfter, if_pos rfl] at hafter
      exact (DataStack.slotsInside_resizeTo aDS _).mp (ht _ _ hafter)
    | _ => cases hcmd
  · intro hinside r aDS' hafter
    rcases heffect.stack_before hafter with ⟨aDS, hget, rfl⟩ | rfl
    · have hold := hs r aDS hget
      cases op with
      | buffer cmdArgs uninitialised =>
        rw [stackAfter]
        split
        · rename_i hr
          subst hr
          exact (DataStack.slotsInside_resizeTo aDS _).mpr (hinside _ rfl aDS hget)
        · exact hold
      | synchro internalStep time =>
        cases internalStep with
        | some _ => exact hold
        | none =>
          rw [stackAfter]
          split
          · exact sampled_inside hold
          · exact hold
      | _ => exact hold
    · simp [DataStack.SlotsInside, DataStack.empty]

/-- A run keeps all its states safe exactly when all its `buffer` commands resize inside. -/
theorem indexSafe_run_iff {server : String} {trace : List (ServerCommand α × Event α)}
    (h : Run (Steps localName) (ServerCommand.construct localName server) trace s) :
    ((∀ x ∈ trace, IndexSafe x.1) ∧ IndexSafe s) ↔ ∀ x ∈ trace, ResizeInside x.1 x.2 :=
  h.forall_states_iff IndexSafe ResizeInside (by simp [IndexSafe, ServerCommand.construct])
    fun _ _ _ hi hs => indexSafe_step hi hs

/-- One input with three slots; the second size is the argument. -/
def resizedAfterTwo (size : String) : List (Nat × Op ℚ) :=
  [(0, .createInputVectorSignal "comstate"), (0, .plug "comstate" (some [1])), (0, .buffer "comstate 3" 0),
    (0, .synchro none 1), (0, .synchro none 2), (0, .buffer ("comstate " ++ size) 0)]

theorem indexSafe_grown :
    IndexSafe (execute shortName (ServerCommand.construct shortName "coshell") (resizedAfterTwo "5")).2 :=
  ((indexSafe_run_iff (run_execute shortName (ServerCommand.construct shortName "coshell") (resizedAfterTwo "5"))).mpr
    (by decide +kernel)).2

/-- Shrinking the buffer below its index leaves the next sample no slot to go to. -/
theorem indexSafe_shrunk : ∃ (trace : List (ServerCommand ℚ × Event ℚ)) (s : ServerCommand ℚ),
    Run (Steps shortName) (ServerCommand.construct shortName "coshell") trace s ∧
      (∀ x ∈ trace, ∀ c ∈ x.2.bufferCommand, c.1 ∈ x.1.inputNames) ∧ ¬IndexSafe s :=
  ⟨_, _, run_execute shortName _ (resizedAfterTwo "1"), by decide +kernel, by decide +kernel⟩

end DgMiddleware.Server
