import DgMiddleware.Library.Increasing
import DgMiddleware.Server.Dimensions
import Mathlib.Algebra.Order.Ring.Unbundled.Rat

/-! What a client gets out of the replies to its reads of an input: sorted by time stamp,
one reply is the latest samples in the order they were taken, and a client that keeps
reading misses a sample exactly when it reads too late. -/
namespace DgMiddleware.Server
open Library
variable {α : Type} [Double α]

/-- The samples that a reply carries, for a reader that knows the dimension of the input. -/
def samplesIn (d : Nat) (value : List α) : List (TsData α) :=
  match decode d value with
  | .raw _ => []
  | .buffered samples => samples

/-- What a client was given for reading an input. -/
def Event.reply (e : Event α) (client r : Nat) : Option (List α) :=
  match e.op, e.result with
  | .readInputVectorSignal signalRank, .ok (.doubles value) =>
    if e.client = client ∧ signalRank = r then value else none
  | _, _ => none

/-- The replies to a client's reads of an input, each with the number of samples that were
recorded for the input by then. -/
def polls (client r : Nat) (trace : List (ServerCommand α × Event α)) : List (Nat × List α) :=
  (trace.foldl (fun polled x => (Origins.step r polled.1 x.1 x.2, polled.2 ++
    ((x.2.reply client r).map fun value => (polled.1.recorded.length, value)).toList)) (.start, [])).2

def delivered (d client r : Nat) (trace : List (ServerCommand α × Event α)) : List (TsData α) :=
  (polls client r trace).flatMap fun poll => samplesIn d poll.2

theorem polls_snoc (client r : Nat) (trace : List (ServerCommand α × Event α)) (s : ServerCommand α)
    (e : Event α) : polls client r (trace ++ [(s, e)]) = polls client r trace ++
      ((e.reply client r).map fun value => ((origins r trace).recorded.length, value)).toList := by
  have horigins : ∀ polled : Origins α × List (Nat × List α),
      (trace.foldl (fun polled x => (Origins.step r polled.1 x.1 x.2, polled.2 ++
        ((x.2.reply client r).map fun value => (polled.1.recorded.length, value)).toList)) polled).1 =
      trace.foldl (fun o x => Origins.step r o x.1 x.2) polled.1 := by
    induction trace with
    | nil => exact fun _ => rfl
    | cons x trace ih => exact fun _ => ih _
  rw [polls, List.foldl_append, List.foldl_cons, List.foldl_nil, horigins]
  rfl

section Samples
variable [LinearOrder α] {localName : String → String} {server : String} {s t : ServerCommand α} {e : Event α}
  {trace : List (ServerCommand α × Event α)} {r N d : Nat} {aDS : DataStack α} {data : List α}

/-- An input of one dimension, buffered with one size for which the replies are short
enough, and sampled at increasing times. -/
structure Steady (r N d : Nat) (trace : List (ServerCommand α × Event α)) : Prop where
  size : ∀ x ∈ trace, ∀ size ∈ resizing r x.1 x.2, size = N
  dimension : ∀ x ∈ trace, ∀ data ∈ x.1.copyAt r, data.length = d
  fits : (d + 1) * N < 2 ^ 32
  increasing : Increasing TsData.ts (origins r trace).recorded

omit [LinearOrder α] in
/-- What is recorded stays, and is followed by what is sampled next. -/
theorem recorded_grows (r : Nat) (o : Origins α) (s : ServerCommand α) (e : Event α) :
    o.recorded <+: (o.step r s e).recorded := by
  unfold Origins.step
  split
  · exact List.prefix_rfl
  · exact List.prefix_append _ _
  · exact List.prefix_rfl

theorem Steady.before (h : Steady r N d (trace ++ [(s, e)])) : Steady r N d trace where
  size x hx := h.size x (List.mem_append_left _ hx)
  dimension x hx := h.dimension x (List.mem_append_left _ hx)
  fits := h.fits
  increasing := by
    have hincreasing := h.increasing
    rw [origins_snoc] at hincreasing
    exact List.Pairwise.sublist (recorded_grows r _ s e).sublist hincreasing

/-- One reply to a read of a readable input carries what is still in its ring. -/
theorem reply_samples (h : Run (Steps localName) (ServerCommand.construct localName server) trace s)
    (hsteady : Steady r N d trace) (hcopy : s.copyAt r = some data) (hlen : data.length = d)
    (hget : s.vectorSINStored[r]? = some aDS) :
    ∃ value, readInputVectorSignal r s = .ret (some value) s ∧
      (samplesIn d value).Perm (inRing N (origins r trace).recorded) := by
  obtain ⟨hk, hperm⟩ := sized_walked (sized_run h hsteady.size aDS hget)
  have hread := readInput_copy hcopy hget
  subst hlen
  by_cases hzero : aDS.lsizeOfSTD = 0
  · rw [reading, if_pos hzero] at hread
    rw [hzero] at hk
    exact ⟨data, hread, by rw [samplesIn, decode_raw, List.eq_nil_of_length_eq_zero hk.symm]⟩
  · have hfit : (data.length + 1) * aDS.lsizeOfSTD < 2 ^ 32 := by
      refine Nat.lt_of_le_of_lt (Nat.mul_le_mul_left _ ?_) hsteady.fits
      rw [hk, length_inRing]
      exact Nat.min_le_right _ _
    have hdim : ∀ sample ∈ aDS.stackOfTsData.take aDS.lsizeOfSTD, sample.data.length = data.length :=
      fun sample hmem => recorded_dimension hsteady.dimension sample
        (List.mem_of_mem_drop (hperm.mem_iff.mp hmem))
    have hslots : ∀ j < aDS.lsizeOfSTD, ∃ slot, aDS.stackOfTsData[j]? = some slot ∧
        slot.data.length = data.length := by
      intro j hj
      have hlong := hperm.length_eq
      rw [List.length_take, ← hk] at hlong
      have hslot := List.getElem?_eq_getElem (l := aDS.stackOfTsData) (i := j) (by omega)
      exact ⟨_, hslot, hdim _ (mem_take_iff.mpr ⟨j, hj, hslot⟩)⟩
    rw [reading, if_neg hzero, readBlocks_eq (fun j hj => (hslots j hj).imp fun _ hs => ⟨hs.1, hs.2.ge⟩) hfit]
      at hread
    exact ⟨_, hread, by rwa [samplesIn, decode_buffered hzero hslots]⟩

/-- Sorted by time stamp, the reply to a read of such an input is the latest samples that
were recorded for it, as many as its buffer keeps, in the order they were recorded. -/
theorem chronology_run (h : Run (Steps localName) (ServerCommand.construct localName server) trace s)
    (hsteady : Steady r N d trace) (hcopy : s.copyAt r = some data) (hlen : data.length = d)
    (hstored : r < s.vectorSINStored.length) :
    ∃ value, readInputVectorSignal r s = .ret (some value) s ∧
      sortBy TsData.ts (samplesIn d value) = inRing N (origins r trace).recorded := by
  obtain ⟨value, hread, hperm⟩ := reply_samples h hsteady hcopy hlen (List.getElem?_eq_getElem hstored)
  exact ⟨value, hread, (hsteady.increasing.drop _).sortBy_eq hperm⟩

omit [LinearOrder α] in
theorem answered_read {client : Nat} {value : List α} (h : Steps localName s e t)
    (hreply : e.reply client r = some value) : readInputVectorSignal r s = .ret (some value) s := by
  obtain ⟨other, op, result⟩ := e
  unfold Event.reply at hreply
  split at hreply
  · rename_i signalRank answer hop hresult
    split_ifs at hreply with hwho
    simp only at hop hresult
    subst hop hresult
    obtain ⟨-, rfl⟩ := hwho
    rcases readInput_cases s (r : Int) with ⟨value', hread⟩ | hread | hread
    · simp only [Steps, perform, Method.bind_apply, hread, Outcome.bind_ret, Method.pure_apply] at h
      simp_all
    · simp [Steps, perform, hread] at h
    · simp [Steps, perform, hread] at h
  · cases hreply

omit [LinearOrder α] in
/-- Nothing is recorded at a rank that no input has yet. -/
theorem recorded_outside (h : Run (Steps localName) (ServerCommand.construct localName server) trace s)
    (hout : s.vectorSIN[r]? = none) : (origins r trace).recorded = [] := by
  induction h with
  | start => rfl
  | @next trace s t e hrun hstep ih =>
    have hnone : s.vectorSIN[r]? = none := by
      have hgrow := (names_grow hstep.effect).1.length_le
      simp only [ServerCommand.inputNames, List.length_map] at hgrow
      rw [List.getElem?_eq_none_iff] at hout ⊢
      omega
    have hcopy : s.copyAt r = none := by simp [ServerCommand.copyAt, hnone]
    have hsampling : sampling r s e = none := by
      unfold sampling
      split <;> simp [hcopy]
    rw [origins_snoc, Origins.step, hsampling]
    split
    · exact ih hnone
    · rename_i hsome
      cases hsome
    · exact ih hnone

/-- Every reply carries what was in the ring at the time of the read. -/
theorem poll_samples {client : Nat} {value : List α}
    (h : Run (Steps localName) (ServerCommand.construct localName server) trace s)
    (hsteady : Steady r N d trace) (hcopy : ∀ data ∈ s.copyAt r, data.length = d)
    (hstep : Steps localName s e t) (hreply : e.reply client r = some value) :
    (samplesIn d value).Perm (inRing N (origins r trace).recorded) := by
  have hread := answered_read hstep hreply
  cases hsignal : s.vectorSIN[r]? with
  | none =>
    rw [readInput_outside (.inr (by have := List.getElem?_eq_none_iff.mp hsignal; omega))] at hread
    obtain rfl : [] = value := by simpa using hread
    have hnone : samplesIn d ([] : List α) = [] := by
      by_cases hd : d = 0
      · simp [samplesIn, decode, hd]
      · simp [samplesIn, decode, Ne.symm hd]
    simp [recorded_outside h hsignal, hnone, inRing]
  | some signal =>
    cases hptr : signal.ptr with
    | none =>
      rw [readInput_unreadable (Int.natCast_nonneg r) (by simpa using hsignal) hptr] at hread
      cases hread
    | some data =>
      have hdata : s.copyAt r = some data := by simp [ServerCommand.copyAt, hsignal, hptr]
      cases hget : s.vectorSINStored[r]? with
      | none =>
        have hout := List.getElem?_eq_none_iff.mp hget
        rw [readInput_unbuffered (Int.natCast_nonneg r) (by simpa using hsignal) hptr (by omega)] at hread
        cases hread
      | some aDS =>
        obtain ⟨value', hread', hperm⟩ := reply_samples h hsteady hdata (hcopy data hdata) hget
        obtain rfl : value' = value := by simpa [hread] using hread'.symm
        exact hperm

omit [LinearOrder α] in
theorem polls_grow (client : Nat) (x : ServerCommand α × Event α) {n : Nat} {value : List α}
    (h : (n, value) ∈ polls client r (trace ++ [x])) : (n, value) ∈ polls client r trace ∨
      (n = (origins r trace).recorded.length ∧ x.2.reply client r = some value) := by
  obtain ⟨s, e⟩ := x
  rw [polls_snoc, List.mem_append] at h
  rcases h with h | h
  · exact .inl h
  · obtain ⟨hreply, rfl⟩ : e.reply client r = some value ∧ (origins r trace).recorded.length = n := by
      simpa using h
    exact .inr ⟨rfl, hreply⟩

/-- Every reply of a run carries the ring of the samples recorded before it. -/
theorem polls_run {client : Nat}
    (h : Run (Steps localName) (ServerCommand.construct localName server) trace s)
    (hsteady : Steady r N d trace) : ∀ poll ∈ polls client r trace,
      poll.1 ≤ (origins r trace).recorded.length ∧
        (samplesIn d poll.2).Perm (inRing N ((origins r trace).recorded.take poll.1)) := by
  induction h with
  | start => simp [polls]
  | @next trace s t e hrun hstep ih =>
    rintro ⟨n, value⟩ hpoll
    have hgrow := recorded_grows r (origins r trace) s e
    rw [← origins_snoc] at hgrow
    rcases polls_grow client (s, e) hpoll with hold | ⟨rfl, hreply⟩
    · obtain ⟨hle, hperm⟩ := ih hsteady.before (n, value) hold
      refine ⟨Nat.le_trans hle hgrow.length_le, ?_⟩
      obtain ⟨more, hmore⟩ := hgrow
      rwa [← hmore, List.take_append_of_le_length hle]
    · have hperm := poll_samples hrun hsteady.before (hsteady.dimension (s, e) (by simp)) hstep hreply
      refine ⟨hgrow.length_le, ?_⟩
      rwa [List.prefix_iff_eq_take.mp hgrow] at hperm

omit [LinearOrder α] in
theorem polls_sorted (client r : Nat) (trace : List (ServerCommand α × Event α)) :
    ((polls client r trace).map Prod.fst).Pairwise (· ≤ ·) ∧
      ∀ n ∈ (polls client r trace).map Prod.fst, n ≤ (origins r trace).recorded.length := by
  induction trace using List.reverseRecOn with
  | nil => simp [polls]
  | append_singleton trace x ih =>
    obtain ⟨s, e⟩ := x
    have hgrow := (recorded_grows r (origins r trace) s e).length_le
    rw [polls_snoc, List.map_append, origins_snoc, List.pairwise_append]
    refine ⟨⟨ih.1, ?_, ?_⟩, ?_⟩
    · cases e.reply client r <;> simp
    · cases e.reply client r with
      | none => simp
      | some value => simpa using ih.2
    · intro n hn
      rcases List.mem_append.mp hn with hn | hn
      · exact Nat.le_trans (ih.2 n hn) hgrow
      · cases hreply : e.reply client r with
        | none => simp [hreply] at hn
        | some value =>
          obtain rfl : n = (origins r trace).recorded.length := by simpa [hreply] using hn
          exact hgrow

/-- A client is given the sample recorded at a position exactly when one of its reads
comes after the sample, and before as many others as the buffer keeps. -/
theorem delivered_iff {client k : Nat} {sample : TsData α}
    (h : Run (Steps localName) (ServerCommand.construct localName server) trace s)
    (hsteady : Steady r N d trace) (hk : (origins r trace).recorded[k]? = some sample) :
    sample ∈ delivered d client r trace ↔
      ∃ n ∈ (polls client r trace).map Prod.fst, k < n ∧ n ≤ k + N := by
  have hring : ∀ poll ∈ polls client r trace,
      (sample ∈ samplesIn d poll.2 ↔ k < poll.1 ∧ poll.1 ≤ k + N) := by
    intro poll hpoll
    obtain ⟨hle, hperm⟩ := polls_run h hsteady poll hpoll
    rw [hperm.mem_iff, inRing, List.length_take, Nat.min_eq_left hle, hsteady.increasing.mem_window_iff hk]
    omega
  simp only [delivered, List.mem_flatMap, List.mem_map]
  constructor
  · rintro ⟨poll, hpoll, hmem⟩
    exact ⟨poll.1, ⟨poll, hpoll, rfl⟩, (hring poll hpoll).mp hmem⟩
  · rintro ⟨-, ⟨poll, hpoll, rfl⟩, hwindow⟩
    exact ⟨poll, hpoll, (hring poll hpoll).mpr hwindow⟩

/-- A client that reads an input again and again is given every sample recorded before its
last read exactly when no more samples than the buffer keeps are recorded before its
first read, and between two consecutive ones. -/
theorem delivered_all_iff (client : Nat)
    (h : Run (Steps localName) (ServerCommand.construct localName server) trace s)
    (hsteady : Steady r N d trace) :
    (∀ n ∈ (polls client r trace).map Prod.fst, ∀ sample ∈ (origins r trace).recorded.take n,
        sample ∈ delivered d client r trace) ↔
      (0 :: (polls client r trace).map Prod.fst).IsChain fun m n => n ≤ m + N := by
  obtain ⟨hsorted, hbound⟩ := polls_sorted client r trace
  rw [← windows_cover (List.pairwise_cons.mpr ⟨fun _ _ => Nat.zero_le _, hsorted⟩)]
  constructor
  · intro hall k _ ⟨n, hn, hlt⟩
    have hk := List.getElem?_eq_getElem (Nat.lt_of_lt_of_le hlt (hbound n hn))
    refine (delivered_iff h hsteady hk).mp (hall n hn _ ?_)
    exact List.mem_of_getElem? ((List.getElem?_take_of_lt hlt).trans hk)
  · intro hcover n hn sample hmem
    obtain ⟨k, hlt, hk⟩ := mem_take_iff.mp hmem
    exact (delivered_iff h hsteady hk).mpr (hcover k (Nat.zero_le k) ⟨n, hn, hlt⟩)

end Samples

/-- One input with two slots, sampled at the given times and read by one client after
each of these batches. -/
def watched (batches : List (List Int)) : List (ServerCommand ℚ × Event ℚ) × ServerCommand ℚ :=
  execute shortName (ServerCommand.construct shortName "coshell")
    ([(0, .createInputVectorSignal "comstate"), (0, .buffer "comstate 2" 0)] ++ batches.flatMap fun times =>
      (times.flatMap fun time => [(0, .plug "comstate" (some [(time : ℚ)])), (0, .synchro none time)]) ++
        [(1, .readInputVectorSignal 0)])

theorem run_watched (batches : List (List Int)) :
    Run (Steps shortName) (ServerCommand.construct shortName "coshell") (watched batches).1 (watched batches).2 :=
  run_execute shortName _ _

theorem steady_watched :
    ∀ batches ∈ [[[1, 2], [3]], [[1, 2, 3], [4]]], Steady 0 2 1 (watched batches).1 := by
  intro batches hmem
  have hall : ∀ batches ∈ [[[1, 2], [3]], [[1, 2, 3], [4]]],
      (∀ x ∈ (watched batches).1,
        (∀ size ∈ resizing 0 x.1 x.2, size = 2) ∧ ∀ data ∈ x.1.copyAt 0, data.length = 1) ∧
      Increasing TsData.ts (origins 0 (watched batches).1).recorded := by decide +kernel
  obtain ⟨hevents, hincreasing⟩ := hall batches hmem
  exact ⟨fun x hx => (hevents x hx).1, fun x hx => (hevents x hx).2, by decide, hincreasing⟩

theorem chronology_run_wrapped : ∃ value,
    readInputVectorSignal 0 (watched [[1, 2], [3]]).2 = .ret (some value) (watched [[1, 2], [3]]).2 ∧
    sortBy TsData.ts (samplesIn 1 value) = [⟨timeStamp 2, [2]⟩, ⟨timeStamp 3, [3]⟩] := by
  obtain ⟨hcopy, hstored, hring⟩ : (watched [[1, 2], [3]]).2.copyAt 0 = some [3] ∧
      0 < (watched [[1, 2], [3]]).2.vectorSINStored.length ∧
      inRing 2 (origins 0 (watched [[1, 2], [3]]).1).recorded =
        [⟨timeStamp 2, [2]⟩, ⟨timeStamp 3, [3]⟩] := by decide +kernel
  obtain ⟨value, hread, hsorted⟩ := chronology_run (run_watched _) (steady_watched [[1, 2], [3]] (by simp))
    hcopy rfl hstored
  exact ⟨value, hread, hsorted.trans hring⟩

/-- Two samples, a read, one sample and a read miss nothing; a read after three does. -/
theorem delivered_all_watched :
    (∀ n ∈ (polls 1 0 (watched [[1, 2], [3]]).1).map Prod.fst,
      ∀ sample ∈ (origins 0 (watched [[1, 2], [3]]).1).recorded.take n,
        sample ∈ delivered 1 1 0 (watched [[1, 2], [3]]).1) ∧
    ¬∀ n ∈ (polls 1 0 (watched [[1, 2, 3], [4]]).1).map Prod.fst,
      ∀ sample ∈ (origins 0 (watched [[1, 2, 3], [4]]).1).recorded.take n,
        sample ∈ delivered 1 1 0 (watched [[1, 2, 3], [4]]).1 := by
  constructor
  · rw [delivered_all_iff 1 (run_watched _) (steady_watched [[1, 2], [3]] (by simp))]
    decide +kernel
  · rw [delivered_all_iff 1 (run_watched _) (steady_watched [[1, 2, 3], [4]] (by simp))]
    decide +kernel

end DgMiddleware.Server
