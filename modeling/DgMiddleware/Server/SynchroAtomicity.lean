import DgMiddleware.Server.Stacks

/-! A synchronisation step as one update of all sample buffers. The loop advances them
one after another, so a signal that cannot be read leaves the lower ranks ahead. -/
namespace DgMiddleware.Server
open Library
variable {α : Type} [Double α]

/-- The number of slots at a rank; a signal without any is not buffered. -/
def ServerCommand.bufferSize {α : Type} (s : ServerCommand α) (rank : Nat) : Nat :=
  (s.vectorSINStored[rank]?.map fun aDS => aDS.stackOfTsData.length).getD 0

/-- The stack after one sample was written at its index and the index advanced. -/
def appended (time : Int) (data : List α) (aDS : DataStack α) : DataStack α :=
  { aDS with stackOfTsData := aDS.stackOfTsData.set aDS.index ⟨timeStamp time, data⟩ }.inc

/-- Either the step returns and every buffered signal got one sample of this time, or
it throws and all stacks are what they were. -/
def AllOrNothing (internalStep : Option Exception) (aValue : α) (time : Int) (s : ServerCommand α) : Prop :=
  (∃ t, synchroValue internalStep aValue time s = .ret aValue t ∧
    ∀ r aDS, s.vectorSINStored[r]? = some aDS → aDS.stackOfTsData ≠ [] →
      aDS.index < aDS.stackOfTsData.length ∧
      ∃ data, s.copyAt r = some data ∧ t.vectorSINStored[r]? = some (appended time data aDS)) ∨
  ∃ e t, synchroValue internalStep aValue time s = .raise e t ∧ t.vectorSINStored = s.vectorSINStored

/-- A buffer at the rank would not change: it has one slot, was filled before, and
holds exactly the sample that it is given. -/
def Settled (time : Int) (s : ServerCommand α) (rank : Nat) : Prop :=
  ∀ aDS, s.vectorSINStored[rank]? = some aDS → aDS.stackOfTsData ≠ [] →
    ∀ data, s.copyAt rank = some data → aDS = ⟨[⟨timeStamp time, data⟩], 0, true⟩

/-- The step is stopped before it samples anything, or samples every rank, or is
stopped by a signal below which nothing changes. -/
def AtomicWhen (internalStep : Option Exception) (time : Int) (s : ServerCommand α) : Prop :=
  internalStep ≠ none ∨ (∀ r < s.vectorSINStored.length, Recordable s r) ∨
    ∃ k < s.vectorSINStored.length, s.bufferSize k ≠ 0 ∧ Unreadable s k ∧
      ∀ r < k, Recordable s r ∧ Settled time s r

instance [DecidableEq α] (time : Int) (s : ServerCommand α) (rank : Nat) : Decidable (Settled time s rank) :=
  inferInstanceAs (Decidable (∀ aDS ∈ s.vectorSINStored[rank]?, aDS.stackOfTsData ≠ [] →
    ∀ data ∈ s.copyAt rank, aDS = ⟨[⟨timeStamp time, data⟩], 0, true⟩))

instance [DecidableEq α] (internalStep : Option Exception) (time : Int) (s : ServerCommand α) :
    Decidable (AtomicWhen internalStep time s) := by unfold AtomicWhen; infer_instance

section Atomic
variable {s : ServerCommand α} {time : Int}

omit [Double α] in
theorem bufferSize_eq {rank : Nat} {aDS : DataStack α} (h : s.vectorSINStored[rank]? = some aDS) :
    s.bufferSize rank = aDS.stackOfTsData.length := by
  simp [ServerCommand.bufferSize, h]

omit [Double α] in
private theorem bufferSize_ne_zero {rank : Nat} {aDS : DataStack α} (h : s.vectorSINStored[rank]? = some aDS) :
    s.bufferSize rank ≠ 0 ↔ aDS.stackOfTsData ≠ [] := by
  rw [bufferSize_eq h]
  simp

omit [Double α] in
theorem Unreadable.not_recordable {k : Nat} {aDS : DataStack α} (h : Unreadable s k)
    (hk : s.vectorSINStored[k]? = some aDS) (hbuf : aDS.stackOfTsData ≠ []) : ¬Recordable s k := by
  intro hrec
  obtain ⟨⟨data, hcopy⟩, -⟩ := hrec aDS hk hbuf
  obtain ⟨signal, hsig, hptr⟩ := h
  simp [ServerCommand.copyAt, hsig, hptr] at hcopy

/-- Only a wrapped stack of one slot is not changed by a sample. -/
theorem appended_eq_self {aDS : DataStack α} {data : List α} (hi : aDS.index < aDS.stackOfTsData.length) :
    appended time data aDS = aDS ↔ aDS = ⟨[⟨timeStamp time, data⟩], 0, true⟩ := by
  obtain ⟨stack, index, turnaround⟩ := aDS
  simp only [appended, DataStack.inc, List.length_set, DataStack.mk.injEq] at hi ⊢
  constructor
  · intro h
    split at h
    · rename_i hlen
      obtain ⟨hstack, rfl, rfl⟩ := DataStack.mk.inj h
      obtain ⟨slot, rfl⟩ := List.length_eq_one_iff.mp (show stack.length = 1 by omega)
      exact ⟨hstack.symm, rfl, rfl⟩
    · obtain ⟨-, hindex, -⟩ := DataStack.mk.inj h
      omega
  · rintro ⟨rfl, rfl, rfl⟩
    simp

private theorem sampled_eq {r : Nat} {aDS : DataStack α} {data : List α} (hbuf : aDS.stackOfTsData ≠ [])
    (hcopy : s.copyAt r = some data) (hi : aDS.index < aDS.stackOfTsData.length) :
    sampled time s r aDS = appended time data aDS := by
  simp only [sampled, if_neg hbuf, hcopy, DataStack.record_eq hi, Option.getD_some, appended]

/-- Sampling a recordable rank changes nothing exactly when the rank is settled. -/
private theorem sampled_self_iff {r : Nat} {aDS : DataStack α} (hget : s.vectorSINStored[r]? = some aDS)
    (hrec : Recordable s r) : sampled time s r aDS = aDS ↔ Settled time s r := by
  by_cases hbuf : aDS.stackOfTsData = []
  · refine iff_of_true (by rw [sampled, if_pos hbuf]) fun aDS' hget' hbuf' => ?_
    obtain rfl := Option.some.inj (hget.symm.trans hget')
    exact absurd hbuf hbuf'
  · obtain ⟨⟨data, hcopy⟩, hi⟩ := hrec aDS hget hbuf
    rw [sampled_eq hbuf hcopy hi, appended_eq_self hi]
    constructor
    · rintro hself aDS' hget' - data' hcopy'
      obtain rfl := Option.some.inj (hget.symm.trans hget')
      obtain rfl := Option.some.inj (hcopy.symm.trans hcopy')
      exact hself
    · exact fun hset => hset aDS hget hbuf data hcopy

private theorem synchronised_same_iff {k : Nat} (hk : k ≤ s.vectorSINStored.length)
    (before : ∀ r < k, Recordable s r) :
    (synchronised time s k).vectorSINStored = s.vectorSINStored ↔ ∀ r < k, Settled time s r := by
  constructor
  · intro hsame r hr
    have hget := List.getElem?_eq_getElem (Nat.lt_of_lt_of_le hr hk)
    have hafter : (synchronised time s k).vectorSINStored[r]? = _ := synchronised_stored k r
    rw [hsame, hget, Option.map_some, if_pos hr, Option.some.injEq] at hafter
    exact (sampled_self_iff hget (before r hr)).mp hafter.symm
  · intro hset
    apply List.ext_getElem?
    intro r
    rw [synchronised_stored]
    cases hget : s.vectorSINStored[r]? with
    | none => rfl
    | some aDS =>
      rw [Option.map_some]
      split
      · rename_i hr
        rw [(sampled_self_iff hget (before r hr)).mpr (hset r hr)]
      · rfl

/-- A step that stops at rank `k` is atomic only if `k` is what stops it. -/
private theorem atomicWhen_stopped {k : Nat} {aDS : DataStack α} (hk : s.vectorSINStored[k]? = some aDS)
    (hrec : ¬Recordable s k) (before : ∀ r < k, Recordable s r) (h : AtomicWhen none time s) :
    Unreadable s k ∧ ∀ r < k, Settled time s r := by
  have hlt : k < s.vectorSINStored.length := (List.getElem?_eq_some_iff.mp hk).1
  rcases h with h | h | ⟨k', hk', hbuf, hun, hall⟩
  · exact absurd rfl h
  · exact absurd (h k hlt) hrec
  · have hget := List.getElem?_eq_getElem hk'
    rcases Nat.lt_trichotomy k k' with hkk | rfl | hkk
    · exact absurd (hall k hkk).1 hrec
    · exact ⟨hun, fun r hr => (hall r hr).2⟩
    · exact absurd (before k' hkk) (hun.not_recordable hget ((bufferSize_ne_zero hget).mp hbuf))

theorem allOrNothing_of_recordable (aValue : α) (h : ∀ r < s.vectorSINStored.length, Recordable s r)
    (he : synchroValue none aValue time s = .ret aValue (synchronised time s s.vectorSINStored.length)) :
    AllOrNothing none aValue time s := by
  refine .inl ⟨_, he, fun r aDS hget hbuf => ?_⟩
  have hr : r < s.vectorSINStored.length := (List.getElem?_eq_some_iff.mp hget).1
  obtain ⟨⟨data, hcopy⟩, hi⟩ := h r hr aDS hget hbuf
  refine ⟨hi, data, hcopy, ?_⟩
  rw [synchronised_stored, hget, Option.map_some, if_pos hr, sampled_eq hbuf hcopy hi]

theorem allOrNothing_iff (internalStep : Option Exception) (aValue : α) (time : Int) (s : ServerCommand α) :
    AllOrNothing internalStep aValue time s ↔ AtomicWhen internalStep time s := by
  cases internalStep with
  | some e => exact iff_of_true (.inr ⟨e, s, rfl, rfl⟩) (.inl (by simp))
  | none =>
    rcases synchroValue_cases aValue time s with ⟨hall, he⟩ |
      ⟨k, aDS, hk, hbuf, before, ⟨hun, he⟩ | ⟨hread, hrec, he⟩⟩
    · exact iff_of_true (allOrNothing_of_recordable aValue hall he) (.inr (.inl hall))
    · have hlt : k < s.vectorSINStored.length := (List.getElem?_eq_some_iff.mp hk).1
      constructor
      · rintro (⟨t, ht, -⟩ | ⟨e, t, ht, hsame⟩)
        · rw [he] at ht
          cases ht
        · rw [he] at ht
          cases ht
          have hset := (synchronised_same_iff hlt.le before).mp hsame
          have hsize := (bufferSize_ne_zero hk).mpr hbuf
          exact .inr (.inr ⟨k, hlt, hsize, hun, fun r hr => ⟨before r hr, hset r hr⟩⟩)
      · intro hwhen
        obtain ⟨-, hset⟩ := atomicWhen_stopped hk (hun.not_recordable hk hbuf) before hwhen
        exact .inr ⟨_, _, he, (synchronised_same_iff hlt.le before).mpr hset⟩
    · refine iff_of_false ?_ fun hwhen => hread (atomicWhen_stopped hk hrec before hwhen).1
      rintro (⟨t, ht, -⟩ | ⟨e, t, ht, -⟩) <;> rw [he] at ht <;> cases ht

end Atomic

section InStep
variable {localName : String → String} {s t : ServerCommand α} {i j N : Nat}

/-- Two stacks sampled at the same times: slot by slot the same time stamp. -/
structure SameStamps {α : Type} (a b : DataStack α) : Prop where
  stamps : a.stackOfTsData.map (·.ts) = b.stackOfTsData.map (·.ts)
  index : a.index = b.index
  turnaround : a.turnaround = b.turnaround

theorem SameStamps.appended {a b : DataStack α} (h : SameStamps a b) (time : Int) (dataA dataB : List α) :
    SameStamps (appended time dataA a) (appended time dataB b) := by
  obtain ⟨stackA, index, turnaround⟩ := a
  obtain ⟨stackB, indexB, turnaroundB⟩ := b
  obtain ⟨hstamps, rfl, rfl⟩ := h
  have hlen : stackA.length = stackB.length := by simpa using congrArg List.length hstamps
  dsimp only at hstamps
  simp only [Server.appended, DataStack.inc, List.length_set, hlen]
  split <;> exact ⟨by simp [List.map_set, hstamps], rfl, rfl⟩

/-- The event is no synchronisation step, or an atomic one. -/
def SynchroAtomic (s : ServerCommand α) (e : Event α) : Prop :=
  ∀ c ∈ e.synchroCall, AtomicWhen c.1 c.2 s

instance [DecidableEq α] (s : ServerCommand α) (e : Event α) : Decidable (SynchroAtomic s e) := by
  unfold SynchroAtomic
  infer_instance

/-- The `buffer` commands for either rank carry one size, a synchronisation step finds
both of them buffered or neither, and it is atomic. -/
structure Paired (i j N : Nat) (s : ServerCommand α) (e : Event α) : Prop where
  buffer : ∀ c ∈ e.bufferCommand, s.rank c.1 = i ∨ s.rank c.1 = j → c.2 = N
  synchro : e.synchroCall ≠ none → (s.bufferSize i = 0 ↔ s.bufferSize j = 0)
  atomic : SynchroAtomic s e

instance [DecidableEq α] (i j N : Nat) (s : ServerCommand α) (e : Event α) : Decidable (Paired i j N s e) :=
  decidable_of_iff ((∀ c ∈ e.bufferCommand, s.rank c.1 = i ∨ s.rank c.1 = j → c.2 = N) ∧
    (e.synchroCall ≠ none → (s.bufferSize i = 0 ↔ s.bufferSize j = 0)) ∧ SynchroAtomic s e)
    ⟨fun ⟨h₁, h₂, h₃⟩ => ⟨h₁, h₂, h₃⟩, fun h => ⟨h.buffer, h.synchro, h.atomic⟩⟩

/-- Two ranks that no step has sampled yet, or that all steps have sampled together. -/
def InStep (i j N : Nat) (s : ServerCommand α) : Prop :=
  (∀ r, r = i ∨ r = j → ∀ aDS, s.vectorSINStored[r]? = some aDS →
    aDS = .empty ∨ aDS = DataStack.empty.resizeTo N) ∨
  ∃ a b, s.vectorSINStored[i]? = some a ∧ s.vectorSINStored[j]? = some b ∧
    a.stackOfTsData.length = N ∧ a.stackOfTsData ≠ [] ∧ SameStamps a b

/-- What an atomic step does to all stacks. -/
private theorem synchro_step {internalStep : Option Exception} {time : Int}
    {result : Except Exception (Answer α)} (h : Effect localName s (.synchro internalStep time) result t)
    (hwhen : AtomicWhen internalStep time s) : t.vectorSINStored = s.vectorSINStored ∨
      ∀ (r : Nat) (aDS : DataStack α), s.vectorSINStored[r]? = some aDS →
        (aDS.stackOfTsData = [] → t.vectorSINStored[r]? = some aDS) ∧
        (aDS.stackOfTsData ≠ [] → ∃ data, t.vectorSINStored[r]? = some (appended time data aDS)) := by
  cases h with
  | stepRaised => exact .inl rfl
  | sampledAll hall =>
    refine .inr fun r aDS hget => ?_
    have hr : r < s.vectorSINStored.length := (List.getElem?_eq_some_iff.mp hget).1
    rw [synchronised_stored, hget, Option.map_some, if_pos hr]
    constructor
    · intro hempty
      rw [sampled, if_pos hempty]
    · intro hbuf
      obtain ⟨⟨data, hcopy⟩, hi⟩ := hall r hr aDS hget hbuf
      exact ⟨data, by rw [sampled_eq hbuf hcopy hi]⟩
  | sampledSome hk hbuf before hun =>
    obtain ⟨-, hset⟩ := atomicWhen_stopped hk (hun.not_recordable hk hbuf) before hwhen
    exact .inl ((synchronised_same_iff (List.getElem?_eq_some_iff.mp hk).1.le before).mpr hset)

private theorem stackAfter_other {e : Event α} {r : Nat} (hp : Paired i j N s e) (hr : r = i ∨ r = j)
    (hno : e.synchroCall = none) (aDS : DataStack α) :
    stackAfter s e.op r aDS = aDS ∨ stackAfter s e.op r aDS = aDS.resizeTo N := by
  have hbuf := hp.buffer
  obtain ⟨client, op, result⟩ := e
  cases op with
  | buffer cmdArgs uninitialised =>
    simp only [stackAfter]
    split
    · rename_i hrank
      exact .inr (by rw [hbuf _ rfl (hrank ▸ hr)])
    · exact .inl rfl
  | synchro => cases hno
  | _ => exact .inl rfl

private theorem resizeTo_twice (N : Nat) :
    (DataStack.empty.resizeTo N : DataStack α).resizeTo N = DataStack.empty.resizeTo N := by
  have hlen := length_resize N TsData.default ([] : List (TsData α))
  conv_lhs => rw [DataStack.resizeTo, DataStack.resizeTo]
  simp [DataStack.empty, DataStack.resizeTo, resize]

private theorem inStep_other {e : Event α} (hs : InStep i j N s) (hp : Paired i j N s e)
    (h : Steps localName s e t) (hno : e.synchroCall = none) : InStep i j N t := by
  rcases hs with hfresh | ⟨a, b, ha, hb, hlen, hbuf, hsame⟩
  · refine .inl fun r hr aDS' hafter => ?_
    rcases h.effect.stack_before hafter with ⟨aDS, hget, rfl⟩ | rfl
    · rcases stackAfter_other hp hr hno aDS with he | he <;> rw [he]
      · exact hfresh r hr aDS hget
      · rcases hfresh r hr aDS hget with rfl | rfl
        · exact .inr rfl
        · exact .inr (resizeTo_twice N)
    · exact .inl rfl
  · have hlen' : b.stackOfTsData.length = N := by
      rw [← hlen]
      simpa using (congrArg List.length hsame.stamps).symm
    have keep : ∀ r, r = i ∨ r = j → ∀ aDS : DataStack α, aDS.stackOfTsData.length = N →
        s.vectorSINStored[r]? = some aDS → t.vectorSINStored[r]? = some aDS := by
      intro r hr aDS hN hget
      rw [h.effect.stack_after hget]
      rcases stackAfter_other hp hr hno aDS with he | he <;> rw [he]
      rw [DataStack.resizeTo, ← hN, resize_length]
    exact .inr ⟨a, b, keep i (.inl rfl) a hlen ha, keep j (.inr rfl) b hlen' hb, hlen, hbuf, hsame⟩

private theorem appended_length (time : Int) (data : List α) (aDS : DataStack α) :
    (appended time data aDS).stackOfTsData.length = aDS.stackOfTsData.length := by
  simp [appended]

omit [Double α] in
private theorem ne_nil_of_length {β : Type} {xs ys : List β} (h : xs.length = ys.length) (hys : ys ≠ []) :
    xs ≠ [] := by
  rw [← List.length_pos_iff] at hys ⊢
  omega

omit [Double α] in
private theorem synchro_of_call {e : Event α} (h : e.synchroCall ≠ none) :
    ∃ internalStep time, e.op = .synchro internalStep time := by
  obtain ⟨client, op, result⟩ := e
  cases op with
  | synchro internalStep time => exact ⟨internalStep, time, rfl⟩
  | _ => exact absurd rfl h

/-- A rank that is buffered, but not yet sampled, gets its first sample. -/
private theorem fresh_sampled {r : Nat} {time : Int}
    (hall : ∀ (r : Nat) (aDS : DataStack α), s.vectorSINStored[r]? = some aDS →
      (aDS.stackOfTsData = [] → t.vectorSINStored[r]? = some aDS) ∧
      (aDS.stackOfTsData ≠ [] → ∃ data, t.vectorSINStored[r]? = some (appended time data aDS)))
    (hfresh : ∀ aDS, s.vectorSINStored[r]? = some aDS → aDS = .empty ∨ aDS = DataStack.empty.resizeTo N)
    (hsize : s.bufferSize r ≠ 0) : ∃ data,
      t.vectorSINStored[r]? = some (appended time data (DataStack.empty.resizeTo N)) ∧
        (DataStack.empty.resizeTo N : DataStack α).stackOfTsData ≠ [] := by
  cases hget : s.vectorSINStored[r]? with
  | none => simp [ServerCommand.bufferSize, hget] at hsize
  | some aDS =>
    have hbuf := (bufferSize_ne_zero hget).mp hsize
    rcases hfresh aDS hget with rfl | rfl
    · exact absurd rfl hbuf
    · obtain ⟨data, hafter⟩ := (hall r _ hget).2 hbuf
      exact ⟨data, hafter, hbuf⟩

private theorem inStep_synchro {e : Event α} (hs : InStep i j N s) (hp : Paired i j N s e)
    (h : Steps localName s e t) (hyes : e.synchroCall ≠ none) : InStep i j N t := by
  have heffect := h.effect
  have hboth := hp.synchro hyes
  obtain ⟨internalStep, time, hop⟩ := synchro_of_call hyes
  rw [hop] at heffect
  have hcall : e.synchroCall = some (internalStep, time) := by rw [Event.synchroCall, hop]
  have hwhen : AtomicWhen internalStep time s := hp.atomic _ hcall
  rcases synchro_step heffect hwhen with hsame | hall
  · unfold InStep
    rw [hsame]
    exact hs
  · rcases hs with hfresh | ⟨a, b, ha, hb, hlen, hbuf, hstamps⟩
    · by_cases hi : s.bufferSize i = 0
      · refine .inl fun r hr aDS' hafter => ?_
        rcases heffect.stack_before hafter with ⟨aDS, hget, -⟩ | rfl
        · have hr0 : s.bufferSize r = 0 := by
            rcases hr with rfl | rfl
            · exact hi
            · exact hboth.mp hi
          have hempty : aDS.stackOfTsData = [] := by
            by_contra hbuf
            exact (bufferSize_ne_zero hget).mpr hbuf hr0
          obtain rfl := Option.some.inj (((hall r aDS hget).1 hempty).symm.trans hafter)
          exact hfresh r hr aDS hget
        · exact .inl rfl
      · obtain ⟨dataA, ha⟩ := fresh_sampled hall (hfresh i (.inl rfl)) hi
        obtain ⟨dataB, hb⟩ := fresh_sampled hall (hfresh j (.inr rfl)) fun hj => hi (hboth.mpr hj)
        refine .inr ⟨_, _, ha.1, hb.1, ?_, ?_, SameStamps.appended ⟨rfl, rfl, rfl⟩ time dataA dataB⟩
        · rw [appended_length, DataStack.length_resizeTo]
        · exact ne_nil_of_length (appended_length time dataA _) ha.2
    · have hsame : b.stackOfTsData.length = a.stackOfTsData.length := by
        simpa using (congrArg List.length hstamps.stamps).symm
      have hbuf' := ne_nil_of_length hsame hbuf
      obtain ⟨dataA, ha'⟩ := (hall i a ha).2 hbuf
      obtain ⟨dataB, hb'⟩ := (hall j b hb).2 hbuf'
      exact .inr ⟨_, _, ha', hb', (appended_length time dataA a).trans hlen,
        ne_nil_of_length (appended_length time dataA a) hbuf, hstamps.appended time dataA dataB⟩

theorem InStep.step {e : Event α} (hs : InStep i j N s) (hp : Paired i j N s e) (h : Steps localName s e t) :
    InStep i j N t := by
  by_cases hno : e.synchroCall = none
  · exact inStep_other hs hp h hno
  · exact inStep_synchro hs hp h hno

theorem InStep.sameStamps {a b : DataStack α} (hs : InStep i j N s) (ha : s.vectorSINStored[i]? = some a)
    (hb : s.vectorSINStored[j]? = some b) (hbufA : a.stackOfTsData ≠ []) (hbufB : b.stackOfTsData ≠ []) :
    SameStamps a b := by
  rcases hs with hfresh | ⟨a', b', ha', hb', -, -, hsame⟩
  · rcases hfresh i (.inl rfl) a ha with rfl | rfl
    · exact absurd rfl hbufA
    · rcases hfresh j (.inr rfl) b hb with rfl | rfl
      · exact absurd rfl hbufB
      · exact ⟨rfl, rfl, rfl⟩
  · obtain rfl := Option.some.inj (ha.symm.trans ha')
    obtain rfl := Option.some.inj (hb.symm.trans hb')
    exact hsame

/-- A synchronisation step is all-or-nothing exactly when it is stopped at once, or
samples every rank, or is stopped above settled ranks only. In a run of such steps, two
ranks given one size with no step in between hold the same time stamps. -/
theorem synchro_atomic_iff (localName : String → String) :
    (∀ (internalStep : Option Exception) (aValue : α) (time : Int) (s : ServerCommand α),
      AllOrNothing internalStep aValue time s ↔ AtomicWhen internalStep time s) ∧
    ∀ (server : String) (trace : List (ServerCommand α × Event α)) (s : ServerCommand α) (i j N : Nat),
      Run (Steps localName) (ServerCommand.construct localName server) trace s →
      (∀ x ∈ trace, Paired i j N x.1 x.2) →
      ∀ a b, s.vectorSINStored[i]? = some a → s.vectorSINStored[j]? = some b →
        a.stackOfTsData ≠ [] → b.stackOfTsData ≠ [] → SameStamps a b := by
  refine ⟨allOrNothing_iff, fun server trace s i j N h hp a b ha hb hbufA hbufB => ?_⟩
  have hinv := h.invariant (InStep i j N) (Paired i j N)
    (.inl fun r _ aDS hget => by simp [ServerCommand.construct] at hget)
    (fun _ _ _ hi hc hs => hi.step hc hs) hp
  exact hinv.sameStamps ha hb hbufA hbufB

end InStep

/-- Two inputs with two slots each. The second is plugged before the first sample is
taken or, when `late`, after it. -/
def twoInputs (late : Bool) : List (Nat × Op ℚ) :=
  [(0, .createInputVectorSignal "comstate"), (0, .plug "comstate" (some [1])),
    (1, .createInputVectorSignal "force"), (1, .plug "force" (if late then none else some [2])),
    (0, .buffer "comstate 2" 0), (1, .buffer "force 2" 0), (0, .synchro none 1),
    (1, .plug "force" (some [3])), (0, .synchro none 2)]

theorem synchro_atomic_twoInputs :
    AllOrNothing none 0 3 (execute shortName (ServerCommand.construct shortName "coshell") (twoInputs false)).2 ∧
    ∀ a b,
      (execute shortName (ServerCommand.construct shortName "coshell") (twoInputs false)).2.vectorSINStored[0]? =
        some a →
      (execute shortName (ServerCommand.construct shortName "coshell") (twoInputs false)).2.vectorSINStored[1]? =
        some b →
      a.stackOfTsData ≠ [] → b.stackOfTsData ≠ [] → SameStamps a b :=
  ⟨((synchro_atomic_iff (α := ℚ) shortName).1 none 0 3 _).mpr (by decide +kernel),
    (synchro_atomic_iff shortName).2 "coshell" _ _ 0 1 2 (run_execute shortName _ (twoInputs false))
      (by decide +kernel)⟩

/-- The step that meets the unplugged input has sampled the other one already, and the
two stay one slot apart. -/
theorem synchro_not_atomic :
    (∃ (trace : List (ServerCommand ℚ × Event ℚ)) (s : ServerCommand ℚ),
      Run (Steps shortName) (ServerCommand.construct shortName "coshell") trace s ∧ ¬AllOrNothing none 0 1 s) ∧
    ∃ (trace : List (ServerCommand ℚ × Event ℚ)) (s : ServerCommand ℚ),
      Run (Steps shortName) (ServerCommand.construct shortName "coshell") trace s ∧
        s.vectorSINStored.map (·.stackOfTsData.length) = [2, 2] ∧ s.vectorSINStored.map (·.index) = [0, 1] := by
  refine ⟨⟨_, _, run_execute shortName _ ((twoInputs true).take 6), ?_⟩,
    _, _, run_execute shortName _ (twoInputs true), ?_⟩
  · rw [allOrNothing_iff]
    decide +kernel
  · decide +kernel

end DgMiddleware.Server
