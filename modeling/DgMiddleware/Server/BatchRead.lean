import DgMiddleware.Server.Registration

/-! Reading many inputs at once against reading each of them. The batch read copies
every element of its reply before filling it, so the reply stays empty. -/
namespace DgMiddleware.Server
open Library
variable {α : Type}

/-- An input without a buffer was refused by the registration, and what was refused
is in no plug's reach: it never becomes readable. -/
structure Accounted (s : ServerCommand α) : Prop where
  stored : s.vectorSINStored.length ≤ s.vectorSIN.length
  plugs : ∀ (key : String) (rank : Nat), s.signalMap[key]? = some (.vectorSIN rank) → rank < s.vectorSIN.length
  missing : s.vectorSINStored.length = s.vectorSIN.length ∨
    ∃ rank, Unreadable s rank ∧ ∀ key : String, s.signalMap[key]? ≠ some (.vectorSIN rank)

section Accounted
variable {localName : String → String} {s t : ServerCommand α}

private theorem unreadable_snoc {rank : Nat} {signal : SignalPtr α} (h : Unreadable s rank) :
    ∃ sig, (s.vectorSIN ++ [signal])[rank]? = some sig ∧ sig.ptr = none := by
  obtain ⟨sig, hsig, hptr⟩ := h
  exact ⟨sig, by rw [List.getElem?_append_left (List.getElem?_eq_some_iff.mp hsig).1, hsig], hptr⟩

private theorem unreadable_lt {rank : Nat} (h : Unreadable s rank) : rank < s.vectorSIN.length := by
  obtain ⟨sig, hsig, -⟩ := h
  exact (List.getElem?_eq_some_iff.mp hsig).1

theorem accounted_construct (server : String) :
    Accounted (ServerCommand.construct localName server : ServerCommand α) := by
  refine ⟨Nat.le_refl _, fun key rank h => ?_, .inl rfl⟩
  simp only [ServerCommand.construct, lookup_insert] at h
  split_ifs at h <;> simp at h

private theorem accounted_created {name : String} (hs : Accounted s) :
    Accounted (withInput localName s name) := by
  refine ⟨by simpa [withInput] using hs.stored, fun key rank h => ?_, ?_⟩
  · simp only [withInput, lookup_insert, List.length_append, List.length_singleton] at h ⊢
    split_ifs at h
    · simp only [Option.some.injEq, SignalRef.vectorSIN.injEq] at h
      omega
    · exact Nat.lt_succ_of_lt (hs.plugs key rank h)
  · rcases hs.missing with heq | ⟨rank, hun, hkey⟩
    · exact .inl (by simp [withInput, heq])
    · refine .inr ⟨rank, unreadable_snoc hun, fun key => ?_⟩
      simp only [withInput, lookup_insert]
      split_ifs
      · have := unreadable_lt hun
        simp only [ne_eq, Option.some.injEq, SignalRef.vectorSIN.injEq]
        omega
      · exact hkey key

private theorem accounted_refused {name : String} (hs : Accounted s) :
    Accounted { s with vectorSIN := s.vectorSIN ++ [⟨name, none⟩] } := by
  refine ⟨?_, fun key rank h => ?_, .inr ⟨s.vectorSIN.length, ⟨⟨name, none⟩, by simp, rfl⟩, fun key h => ?_⟩⟩
  · have := hs.stored
    simp only [List.length_append, List.length_singleton]
    omega
  · have := hs.plugs key rank h
    simp only [List.length_append, List.length_singleton]
    omega
  · exact absurd (hs.plugs key _ h) (Nat.lt_irrefl _)

private theorem accounted_output {name : String} (hs : Accounted s) :
    Accounted (withOutput localName s name) := by
  have hkeep : ∀ (key : String) rank, (withOutput localName s name).signalMap[key]? = some (.vectorSIN rank) →
      s.signalMap[key]? = some (.vectorSIN rank) := by
    intro key rank h
    simp only [withOutput, lookup_insert] at h
    split_ifs at h
    · simp at h
    · exact h
  refine ⟨hs.stored, fun key rank h => hs.plugs key rank (hkeep key rank h), ?_⟩
  rcases hs.missing with heq | ⟨rank, hun, hkey⟩
  · exact .inl heq
  · exact .inr ⟨rank, hun, fun key h => hkey key (hkeep key rank h)⟩

private theorem accounted_plugged {signal : String} {copy : Option (List α)} (hs : Accounted s) :
    Accounted (withPlug s signal copy) := by
  unfold withPlug
  split
  · rename_i rank hplug
    refine ⟨by simpa using hs.stored, fun key r h => by simpa using hs.plugs key r h, ?_⟩
    rcases hs.missing with heq | ⟨r, ⟨sig, hsig, hptr⟩, hkey⟩
    · exact .inl (by simpa using heq)
    · have hne : rank ≠ r := fun he => hkey signal (he ▸ hplug)
      exact .inr ⟨r, ⟨sig, by simp [hne, hsig], hptr⟩, hkey⟩
  · exact hs

private theorem accounted_same (hs : Accounted s) (hin : t.vectorSIN = s.vectorSIN)
    (hlen : t.vectorSINStored.length = s.vectorSINStored.length) (hmap : t.signalMap = s.signalMap) :
    Accounted t := by
  refine ⟨?_, ?_, ?_⟩
  · rw [hlen, hin]
    exact hs.stored
  · rw [hmap, hin]
    exact hs.plugs
  · unfold Unreadable
    rw [hlen, hin, hmap]
    exact hs.missing

theorem Accounted.step [Double α] {e : Event α} (hs : Accounted s) (h : Steps localName s e t) :
    Accounted t := by
  obtain ⟨client, op, result⟩ := e
  have heffect := h.effect
  cases heffect with
  | inputCreated => exact accounted_created hs
  | inputRefused => exact accounted_refused hs
  | outputCreated => exact accounted_output hs
  | plugged => exact accounted_plugged hs
  | resized | sampledAll | sampledSome =>
    exact accounted_same hs rfl (by simp [withBuffer, synchronised]) rfl
  | outputRefused | outputWritten => exact accounted_same hs rfl rfl rfl
  | inputExists | outputExists | stepRaised | inputRead | inputUnreadable | inputsRead | inputsUnreadable =>
    exact hs

theorem Accounted.run [Double α] {server : String} {trace : List (ServerCommand α × Event α)}
    (h : Run (Steps localName) (ServerCommand.construct localName server) trace s) : Accounted s :=
  h.history (fun _ s => Accounted s) (accounted_construct server) fun _ _ _ _ _ hi hs => hi.step hs

/-- A server whose inputs can all be read has a buffer for each of them. -/
theorem Accounted.buffered (hs : Accounted s) (hread : ∀ signal ∈ s.vectorSIN, signal.ptr ≠ none) :
    Buffered s := by
  rcases hs.missing with heq | ⟨rank, ⟨sig, hsig, hptr⟩, -⟩
  · exact heq.symm
  · exact absurd hptr (hread sig (List.mem_of_getElem? hsig))

end Accounted

section Batch
variable [Double α] {s : ServerCommand α} {signalRanks : List Int}

/-- The batch read returns as many sequences as ranks, each of them what the single
read returns for its rank. -/
def BatchAgrees (s : ServerCommand α) (signalRanks : List Int) : Prop :=
  ∃ values, readSeqInputVectorSignal signalRanks s = .ret (some values) s ∧
    values.length = signalRanks.length ∧
    ∀ (i : Nat) (rank : Int), signalRanks[i]? = some rank → readInputVectorSignal rank s = .ret values[i]? s

/-- Readable and without samples, a valid rank is answered with its current vector. -/
private theorem readInput_current {rank : Int} {signal : SignalPtr α} {data : List α} (hb : Buffered s)
    (hnone : ∀ aDS ∈ s.vectorSINStored, aDS.lsizeOfSTD = 0) (h0 : 0 ≤ rank)
    (hs : s.vectorSIN[rank.toNat]? = some signal) (hp : signal.ptr = some data) :
    readInputVectorSignal rank s = .ret (some data) s := by
  have hlt : rank.toNat < s.vectorSINStored.length := hb ▸ (List.getElem?_eq_some_iff.mp hs).1
  have hget := List.getElem?_eq_getElem hlt
  rw [readInput_readable h0 hs hp hget, reading, if_pos (hnone _ (List.getElem_mem hlt))]

private theorem batchAgrees_iff (hb : Buffered s) (hread : ∀ signal ∈ s.vectorSIN, signal.ptr ≠ none)
    (hnone : ∀ aDS ∈ s.vectorSINStored, aDS.lsizeOfSTD = 0) : BatchAgrees s signalRanks ↔
      ∀ rank ∈ signalRanks, 0 ≤ rank → ∀ signal ∈ s.vectorSIN[rank.toNat]?, signal.ptr = some [] := by
  have hok : ∀ r ∈ signalRanks, ¬UnreadableAt s r := by
    rintro r - ⟨-, signal, hsig, hptr⟩
    exact hread signal (List.mem_of_getElem? hsig) hptr
  have hret := readSeq_ret hok
  constructor
  · rintro ⟨values, he, -, hall⟩ rank hmem h0 signal hsig
    obtain rfl : List.replicate signalRanks.length [] = values := by
      rw [hret] at he
      cases he
      rfl
    obtain ⟨i, hi⟩ := List.getElem?_of_mem hmem
    obtain ⟨data, hptr⟩ := Option.ne_none_iff_exists'.mp (hread signal (List.mem_of_getElem? hsig))
    have hsingle := hall i rank hi
    rw [readInput_current hb hnone h0 hsig hptr] at hsingle
    have hi' : (List.replicate signalRanks.length ([] : List α))[i]? = some [] := by
      simp [(List.getElem?_eq_some_iff.mp hi).1]
    rw [hi'] at hsingle
    cases hsingle
    exact hptr
  · intro hempty
    refine ⟨_, hret, List.length_replicate, fun i rank hi => ?_⟩
    have hi' : (List.replicate signalRanks.length ([] : List α))[i]? = some [] := by
      simp [(List.getElem?_eq_some_iff.mp hi).1]
    rw [hi']
    by_cases hout : rank < 0 ∨ (s.vectorSIN.length : Int) ≤ rank
    · exact readInput_outside hout
    · have h0 : 0 ≤ rank := by omega
      have hsig := List.getElem?_eq_getElem (l := s.vectorSIN) (i := rank.toNat) (by omega)
      exact readInput_current hb hnone h0 hsig (hempty rank (List.mem_of_getElem? hi) h0 _ hsig)

/-- In a reachable state whose inputs are readable and hold no samples, the batch read
agrees with the single read exactly when every signal it names carries the empty vector. -/
theorem batchAgrees_run_iff {localName : String → String} {server : String}
    {trace : List (ServerCommand α × Event α)}
    (h : Run (Steps localName) (ServerCommand.construct localName server) trace s)
    (hread : ∀ signal ∈ s.vectorSIN, signal.ptr ≠ none) (hnone : ∀ aDS ∈ s.vectorSINStored, aDS.lsizeOfSTD = 0)
    (signalRanks : List Int) : BatchAgrees s signalRanks ↔
      ∀ rank ∈ signalRanks, 0 ≤ rank → ∀ signal ∈ s.vectorSIN[rank.toNat]?, signal.ptr = some [] :=
  batchAgrees_iff ((Accounted.run h).buffered hread) hread hnone

end Batch

/-- One input that carries the given vector. -/
def carrying (data : List ℚ) : List (Nat × Op ℚ) :=
  [(0, .createInputVectorSignal "comstate"), (0, .plug "comstate" (some data))]

theorem batchAgrees_empty :
    BatchAgrees (execute shortName (ServerCommand.construct shortName "coshell") (carrying [])).2 [0, 0, -1, 5] := by
  have hrun := run_execute shortName (ServerCommand.construct shortName "coshell") (carrying [])
  generalize hresult : execute shortName (ServerCommand.construct shortName "coshell") (carrying []) = result at hrun
  obtain ⟨hread, hnone, hempty⟩ : (∀ signal ∈ result.2.vectorSIN, signal.ptr ≠ none) ∧
      (∀ aDS ∈ result.2.vectorSINStored, aDS.lsizeOfSTD = 0) ∧ ∀ rank ∈ ([0, 0, -1, 5] : List Int), 0 ≤ rank →
        ∀ signal ∈ result.2.vectorSIN[rank.toNat]?, signal.ptr = some [] := by
    rw [← hresult]
    decide +kernel
  exact (batchAgrees_run_iff hrun hread hnone _).mpr hempty

/-- A signal that carries a number is lost by the batch read. -/
theorem batch_loses : ∃ (trace : List (ServerCommand ℚ × Event ℚ)) (s : ServerCommand ℚ),
    Run (Steps shortName) (ServerCommand.construct shortName "coshell") trace s ∧
      (∀ signal ∈ s.vectorSIN, signal.ptr ≠ none) ∧ (∀ aDS ∈ s.vectorSINStored, aDS.lsizeOfSTD = 0) ∧
      ¬BatchAgrees s [0] := by
  have hrun := run_execute shortName (ServerCommand.construct shortName "coshell") (carrying [7])
  generalize hresult : execute shortName (ServerCommand.construct shortName "coshell") (carrying [7]) = result at hrun
  obtain ⟨hread, hnone, hcarries⟩ : (∀ signal ∈ result.2.vectorSIN, signal.ptr ≠ none) ∧
      (∀ aDS ∈ result.2.vectorSINStored, aDS.lsizeOfSTD = 0) ∧ ¬∀ rank ∈ ([0] : List Int), 0 ≤ rank →
        ∀ signal ∈ result.2.vectorSIN[rank.toNat]?, signal.ptr = some [] := by
    rw [← hresult]
    decide +kernel
  refine ⟨result.1, result.2, hrun, hread, hnone, ?_⟩
  rwa [batchAgrees_iff ((Accounted.run hrun).buffered hread) hread hnone]

end DgMiddleware.Server
