import DgMiddleware.Server.Operations

/-! What an event does to the sample buffer of one input. The buffer command acts on
one rank, a synchronisation step on the ranks it reaches, and nothing else does. -/
namespace DgMiddleware.Server
open Library
variable {α : Type} [Double α]

open Classical in
/-- The stack at a rank after an operation, from the stack before it. -/
noncomputable def stackAfter (s : ServerCommand α) (op : Op α) (rank : Nat) (aDS : DataStack α) :
    DataStack α :=
  match op with
  | .buffer cmdArgs uninitialised =>
    if s.rank (bufferArgs cmdArgs uninitialised).1 = rank then
      aDS.resizeTo (bufferArgs cmdArgs uninitialised).2
    else aDS
  | .synchro none time => if ∀ i ≤ rank, Recordable s i then sampled time s rank aDS else aDS
  | _ => aDS

section Step
variable {localName : String → String} {s t : ServerCommand α} {op : Op α}
  {result : Except Exception (Answer α)}

private theorem stored_same (h : t.vectorSINStored = s.vectorSINStored)
    (hop : ∀ r aDS, stackAfter s op r aDS = aDS) (r : Nat) :
    t.vectorSINStored[r]? = s.vectorSINStored[r]?.map (stackAfter s op r) := by
  rw [h]
  cases s.vectorSINStored[r]? <;> simp [hop]

omit [Double α] in
/-- A stack that ends a synchronisation step is not recordable itself. -/
private theorem reached_iff {k r : Nat} {aDS : DataStack α} (hk : s.vectorSINStored[k]? = some aDS)
    (hbuf : aDS.stackOfTsData ≠ []) (before : ∀ i < k, Recordable s i) (hun : Unreadable s k) :
    (∀ i ≤ r, Recordable s i) ↔ r < k := by
  constructor
  · intro hall
    by_contra hle
    obtain ⟨⟨data, hcopy⟩, -⟩ := hall k (by omega) aDS hk hbuf
    obtain ⟨signal, hsig, hptr⟩ := hun
    simp [ServerCommand.copyAt, hsig, hptr] at hcopy
  · exact fun hlt i hi => before i (by omega)

/-- Every stack is kept, or changed by its own function, and a new one is empty. -/
theorem Effect.stack (h : Effect localName s op result t) (r : Nat) :
    t.vectorSINStored[r]? = s.vectorSINStored[r]?.map (stackAfter s op r) ∨
      (s.vectorSINStored[r]? = none ∧ t.vectorSINStored[r]? = some .empty) := by
  cases h with
  | inputCreated =>
    simp only [withInput]
    rcases Nat.lt_trichotomy r s.vectorSINStored.length with hlt | rfl | hgt
    · simp [List.getElem?_append_left hlt, hlt, stackAfter]
    · simp
    · rw [List.getElem?_eq_none (by simp; omega), List.getElem?_eq_none (by omega)]
      simp
  | @resized cmdArgs uninitialised aDS hget =>
    refine .inl ?_
    simp only [withBuffer, List.getElem?_set]
    split
    · rename_i he
      subst he
      rw [hget, Option.map_some, stackAfter, if_pos rfl, if_pos (List.getElem?_eq_some_iff.mp hget).1]
    · rename_i hne
      cases s.vectorSINStored[r]? <;> simp [stackAfter, hne]
  | sampledAll hall =>
    refine .inl ?_
    rw [synchronised_stored]
    cases hget : s.vectorSINStored[r]? with
    | none => rfl
    | some aDS =>
      have hr : r < s.vectorSINStored.length := (List.getElem?_eq_some_iff.mp hget).1
      have hreach : ∀ i ≤ r, Recordable s i := fun i hi => hall i (by omega)
      rw [Option.map_some, Option.map_some, stackAfter, if_pos hr, if_pos hreach]
  | sampledSome hk hbuf before hun =>
    refine .inl ?_
    rw [synchronised_stored]
    cases hget : s.vectorSINStored[r]? with
    | none => rfl
    | some aDS => simp [stackAfter, reached_iff hk hbuf before hun]
  | plugged => exact .inl (stored_same (withPlug_frame s _ _).1 (fun _ _ => rfl) r)
  | inputExists | inputRefused | outputExists | outputCreated | outputRefused | stepRaised | inputRead
  | inputUnreadable | inputsRead | inputsUnreadable | outputWritten =>
    refine .inl (stored_same ?_ ?_ r) <;> intros <;> rfl

theorem Effect.stack_after (h : Effect localName s op result t) {r : Nat} {aDS : DataStack α}
    (hr : s.vectorSINStored[r]? = some aDS) : t.vectorSINStored[r]? = some (stackAfter s op r aDS) := by
  rcases h.stack r with he | ⟨hn, -⟩
  · rw [he, hr, Option.map_some]
  · rw [hn] at hr
    cases hr

theorem Effect.stack_before (h : Effect localName s op result t) {r : Nat} {aDS' : DataStack α}
    (ht : t.vectorSINStored[r]? = some aDS') :
    (∃ aDS, s.vectorSINStored[r]? = some aDS ∧ aDS' = stackAfter s op r aDS) ∨ aDS' = .empty := by
  rcases h.stack r with he | ⟨-, he⟩
  · obtain ⟨aDS, hget, hafter⟩ := Option.map_eq_some_iff.mp (he.symm.trans ht)
    exact .inl ⟨aDS, hget, hafter.symm⟩
  · exact .inr (Option.some.inj (he.symm.trans ht)).symm

end Step
end DgMiddleware.Server
