import DgMiddleware.Library.InputStream
import DgMiddleware.Server.State

/-! Sizing the sample buffers and filling them: the `buffer` command, and the
synchronisation step that samples every buffered input in rank order. -/
namespace DgMiddleware.Server
open Library
variable {α : Type} [Double α]

/-- The subscript operator of the name map: a new name is inserted with rank 0. -/
def rankOf (signalName : String) : Body α Nat := do
  let s ← .get
  match s.vectorName2Rank[signalName]? with
  | some rank => return rank
  | none =>
    .set { s with vectorName2Rank := s.vectorName2Rank.insert signalName 0 }
    return 0

/-- `uninitialised` is what the size variable happens to hold when the text ends
after the name. -/
def bufferSignal (iss : InputStream) (uninitialised : UInt32) : Body α Unit := do
  let (signalName, iss) := iss.extractWord ""
  let (sizeOfTheBuffer, _) := iss.extractUnsigned uninitialised
  let signalRank ← rankOf signalName
  let s ← .get
  let aDS ← element s.vectorSINStored signalRank
  .set { s with
    vectorSINStored := s.vectorSINStored.set signalRank (aDS.resizeTo sizeOfTheBuffer.toNat) }

/-- One iteration of the loop of `synchroValue`. -/
def synchroSignal (time : Int) (i : Nat) : Body α Unit := do
  let s ← .get
  let aDS ← element s.vectorSINStored i
  if aDS.stackOfTsData.length ≠ 0 then
    let signal ← element s.vectorSIN i
    let data ← accessCopy signal
    let aDS ← .ofOption (aDS.record time data)
    .set { s with vectorSINStored := s.vectorSINStored.set i aDS }

/-- `internalStep` is how the evaluation of `OneInternalStepS` ends in the graph's
library; the function behind it returns its argument. -/
def synchroValue (internalStep : Option Exception) (aValue : α) (time : Int) : Body α α := do
  match internalStep with
  | some e => .raise e
  | none =>
    let s ← .get
    forUpTo s.vectorSINStored.length (fun i _ => synchroSignal time i) ()
    return aValue

/-- The name and the size that the text of a `buffer` command is read as. -/
def bufferArgs (cmdArgs : String) (uninitialised : UInt32) : String × Nat :=
  let word := (InputStream.ofString cmdArgs).extractWord ""
  (word.1, (word.2.extractUnsigned uninitialised).1.toNat)

/-- The rank that the subscript operator of the name map answers for a name. -/
def ServerCommand.rank (s : ServerCommand α) (name : String) : Nat := s.vectorName2Rank[name]?.getD 0

/-- The server once the name map was asked for a name. -/
def asked (s : ServerCommand α) (name : String) : ServerCommand α :=
  { s with vectorName2Rank := s.vectorName2Rank.insert name (s.rank name) }

omit [Double α] in
theorem rankOf_eq (s : ServerCommand α) (name : String) :
    rankOf name s = .ret (s.rank name) (asked s name) := by
  unfold rankOf asked ServerCommand.rank
  cases h : s.vectorName2Rank[name]? with
  | none => simp [h]
  | some rank =>
    have same : s.vectorName2Rank.insert name rank = s.vectorName2Rank := by
      apply Std.ExtTreeMap.ext_getElem?
      intro k
      rw [Std.ExtTreeMap.getElem?_insert]
      split
      · rename_i hk
        rw [← Std.LawfulEqCmp.eq_of_compare hk, h]
      · rfl
    simp [h, same]

/-- All a `buffer` command can do: resize the stack at the rank of its name, or
leave the vector of stacks. -/
theorem bufferSignal_eq (s : ServerCommand α) (cmdArgs : String) (uninitialised : UInt32) :
    bufferSignal (.ofString cmdArgs) uninitialised s =
      match s.vectorSINStored[s.rank (bufferArgs cmdArgs uninitialised).1]? with
      | none => .undefined
      | some aDS => .ret () { asked s (bufferArgs cmdArgs uninitialised).1 with
          vectorSINStored := s.vectorSINStored.set (s.rank (bufferArgs cmdArgs uninitialised).1)
            (aDS.resizeTo (bufferArgs cmdArgs uninitialised).2) } := by
  unfold bufferSignal bufferArgs
  simp only [Method.bind_apply, rankOf_eq, Outcome.bind_ret, Method.get_apply, asked]
  split
  · rename_i h
    simp [element_none h]
  · rename_i aDS h
    simp [element_some h]

section Synchro
variable {time : Int} {s : ServerCommand α}

/-- Rank `rank` has no buffer, or its signal can be read and its index is inside. -/
def Recordable (s : ServerCommand α) (rank : Nat) : Prop :=
  ∀ aDS, s.vectorSINStored[rank]? = some aDS → aDS.stackOfTsData ≠ [] →
    (∃ data, s.copyAt rank = some data) ∧ aDS.index < aDS.stackOfTsData.length

instance (s : ServerCommand α) (rank : Nat) : Decidable (Recordable s rank) :=
  decidable_of_iff (∀ aDS ∈ s.vectorSINStored[rank]?, aDS.stackOfTsData ≠ [] →
    (s.copyAt rank).isSome ∧ aDS.index < aDS.stackOfTsData.length) (by
      simp only [Recordable, Option.isSome_iff_exists, Option.mem_def])

/-- A stack after its signal was sampled, if it is buffered and readable. -/
def sampled (time : Int) (s : ServerCommand α) (rank : Nat) (aDS : DataStack α) : DataStack α :=
  if aDS.stackOfTsData = [] then aDS
  else match s.copyAt rank with
    | some data => (aDS.record time data).getD aDS
    | none => aDS

/-- The server after the ranks below `k` were sampled. -/
def synchronised (time : Int) (s : ServerCommand α) (k : Nat) : ServerCommand α :=
  { s with vectorSINStored := s.vectorSINStored.mapIdx fun i aDS =>
      if i < k then sampled time s i aDS else aDS }

@[simp] theorem synchronised_zero (time : Int) (s : ServerCommand α) : synchronised time s 0 = s := by
  have h : s.vectorSINStored.mapIdx (fun i aDS => if i < 0 then sampled time s i aDS else aDS) =
      s.vectorSINStored := List.ext_getElem (by simp) (by simp)
  rw [synchronised, h]

theorem synchronised_stored (k i : Nat) : (synchronised time s k).vectorSINStored[i]? =
    s.vectorSINStored[i]?.map fun aDS => if i < k then sampled time s i aDS else aDS := by
  simp [synchronised]

/-- Sampling the next rank extends what was sampled by one. -/
theorem synchronised_succ {k : Nat} {aDS : DataStack α} (h : s.vectorSINStored[k]? = some aDS) :
    { synchronised time s k with
      vectorSINStored := (synchronised time s k).vectorSINStored.set k (sampled time s k aDS) } =
      synchronised time s (k + 1) := by
  obtain ⟨hk, rfl⟩ := List.getElem?_eq_some_iff.mp h
  have hl : (synchronised time s k).vectorSINStored.set k (sampled time s k s.vectorSINStored[k]) =
      (synchronised time s (k + 1)).vectorSINStored := by
    apply List.ext_getElem?
    intro i
    rw [List.getElem?_set, synchronised_stored, synchronised_stored]
    by_cases hi : k = i
    · subst hi
      simp [synchronised, hk]
    · have he : (i < k) ↔ i < k + 1 := by omega
      simp [hi, he]
  rw [hl]
  rfl

private theorem synchroSignal_ret {k : Nat} (hk : k < s.vectorSINStored.length) (h : Recordable s k) :
    synchroSignal time k (synchronised time s k) = .ret () (synchronised time s (k + 1)) := by
  have hget := List.getElem?_eq_getElem hk
  have hstored : (synchronised time s k).vectorSINStored[k]? = some s.vectorSINStored[k] := by
    rw [synchronised_stored, hget]
    simp
  rw [← synchronised_succ hget]
  unfold synchroSignal
  simp only [Method.bind_apply, Method.get_apply, Outcome.bind_ret, element_some hstored]
  by_cases hempty : s.vectorSINStored[k].stackOfTsData = []
  · simp only [hempty, List.length_nil, ne_eq, not_true_eq_false, if_false, Method.pure_apply, sampled, if_true]
    rw [set_same hstored]
  · obtain ⟨⟨data, hcopy⟩, hidx⟩ := h _ hget hempty
    obtain ⟨signal, hsig, hptr⟩ := Option.bind_eq_some_iff.mp hcopy
    have hsin : (synchronised time s k).vectorSIN[k]? = some signal := hsig
    have hlen : s.vectorSINStored[k].stackOfTsData.length ≠ 0 := by simpa using hempty
    simp [hlen, element_some hsin, accessCopy_some hptr, DataStack.record_eq hidx, sampled, hempty, hcopy]

theorem synchroLoop_ret {k : Nat} (hk : k ≤ s.vectorSINStored.length) (h : ∀ i < k, Recordable s i) :
    forUpTo k (fun i _ => synchroSignal time i) () s = .ret () (synchronised time s k) := by
  have run := forUpTo_ret (fun i _ => synchroSignal (α := α) time i) (fun _ => ())
    (synchronised time s) k
    fun i hi => synchroSignal_ret (by omega) (h i hi)
  rwa [synchronised_zero] at run

/-- There is a signal at the rank, and reading it throws. -/
def Unreadable (s : ServerCommand α) (rank : Nat) : Prop :=
  ∃ signal, s.vectorSIN[rank]? = some signal ∧ signal.ptr = none

instance (s : ServerCommand α) (rank : Nat) : Decidable (Unreadable s rank) :=
  decidable_of_iff (∃ signal ∈ s.vectorSIN[rank]?, signal.ptr = none) Iff.rfl

/-- The first rank that cannot be sampled ends the loop, after the ranks below it. -/
private theorem synchroLoop_stop (time : Int) {k : Nat} {aDS : DataStack α}
    (hget : s.vectorSINStored[k]? = some aDS) (hbuf : aDS.stackOfTsData ≠ []) (before : ∀ i < k, Recordable s i) :
    (Unreadable s k → forUpTo s.vectorSINStored.length (fun i _ => synchroSignal time i) () s =
      .raise .exceptionSignal (synchronised time s k)) ∧
    (¬Unreadable s k → ¬Recordable s k →
      forUpTo s.vectorSINStored.length (fun i _ => synchroSignal time i) () s = .undefined) := by
  have hk : k < s.vectorSINStored.length := (List.getElem?_eq_some_iff.mp hget).1
  have hstored : (synchronised time s k).vectorSINStored[k]? = some aDS := by
    rw [synchronised_stored, hget]
    simp
  have hsin : (synchronised time s k).vectorSIN = s.vectorSIN := rfl
  constructor
  · rintro ⟨signal, hsig, hptr⟩
    apply forUpTo_stop _ _ _ _ (fun _ => rfl) k _ hk
    rw [forUpTo, Method.bind_apply, synchroLoop_ret hk.le before]
    simp [synchroSignal, element_some hstored, hbuf, hsin, element_some hsig, accessCopy_none hptr]
  · intro hread hrec
    apply forUpTo_stop _ _ _ _ (fun _ => rfl) k _ hk
    rw [forUpTo, Method.bind_apply, synchroLoop_ret hk.le before]
    cases hsig : s.vectorSIN[k]? with
    | none => simp [synchroSignal, element_some hstored, hbuf, hsin, element_none hsig]
    | some signal =>
      cases hptr : signal.ptr with
      | none => exact absurd ⟨signal, hsig, hptr⟩ hread
      | some data =>
        have hidx : aDS.stackOfTsData.length ≤ aDS.index := by
          by_contra hlt
          refine hrec fun aDS' h' _ => ?_
          obtain rfl := Option.some.inj (hget.symm.trans h')
          exact ⟨⟨data, by simp [ServerCommand.copyAt, hsig, hptr]⟩, by omega⟩
        simp [synchroSignal, element_some hstored, hbuf, hsin, element_some hsig, accessCopy_some hptr,
          DataStack.record_none hidx]

/-- All a synchronisation step can do once its internal step went through. -/
theorem synchroValue_cases (aValue : α) (time : Int) (s : ServerCommand α) :
    ((∀ i < s.vectorSINStored.length, Recordable s i) ∧
      synchroValue none aValue time s = .ret aValue (synchronised time s s.vectorSINStored.length)) ∨
    ∃ k aDS, s.vectorSINStored[k]? = some aDS ∧ aDS.stackOfTsData ≠ [] ∧ (∀ i < k, Recordable s i) ∧
      ((Unreadable s k ∧
        synchroValue none aValue time s = .raise .exceptionSignal (synchronised time s k)) ∨
      (¬Unreadable s k ∧ ¬Recordable s k ∧ synchroValue none aValue time s = .undefined)) := by
  classical
  by_cases hall : ∀ i < s.vectorSINStored.length, Recordable s i
  · refine .inl ⟨hall, ?_⟩
    simp [synchroValue, synchroLoop_ret (Nat.le_refl _) hall]
  · have hex : ∃ k, ¬Recordable s k := by
      by_contra hno
      exact hall fun i _ => by_contra fun h => hno ⟨i, h⟩
    have before : ∀ i < Nat.find hex, Recordable s i := fun i hi => not_not.mp (Nat.find_min hex hi)
    have hstop : ∃ aDS, s.vectorSINStored[Nat.find hex]? = some aDS ∧ aDS.stackOfTsData ≠ [] := by
      by_contra hno
      exact Nat.find_spec hex fun aDS hget hbuf => absurd ⟨aDS, hget, hbuf⟩ hno
    obtain ⟨aDS, hget, hbuf⟩ := hstop
    have stop := synchroLoop_stop time hget hbuf before
    refine .inr ⟨_, aDS, hget, hbuf, before, ?_⟩
    by_cases hread : Unreadable s (Nat.find hex)
    · exact .inl ⟨hread, by simp [synchroValue, stop.1 hread]⟩
    · exact .inr ⟨hread, Nat.find_spec hex, by simp [synchroValue, stop.2 hread (Nat.find_spec hex)]⟩

end Synchro
end DgMiddleware.Server
