import DgMiddleware.Server.RankRegistry
import DgMiddleware.Server.Stacks

/-! The sample buffer of an input as a log: after any run it is the ring to which the
synchronisation steps since the input was buffered pushed one sample each. -/
namespace DgMiddleware.Server
open Library
variable {α : Type}

def Event.buffers (e : Event α) (name : String) : Bool := e.bufferCommand.any fun c => c.1 == name

/-- The synchronisation steps since the first `buffer` command for a name, each with
the state it was made in and its time. -/
def synchros (name : String) (trace : List (ServerCommand α × Event α)) : List (ServerCommand α × Int) :=
  (trace.dropWhile fun x => !x.2.buffers name).filterMap fun x => x.2.synchroTime.map fun time => (x.1, time)

section Synchros
variable {name : String} {trace : List (ServerCommand α × Event α)} {x : ServerCommand α × Event α}

theorem synchros_first (h : ∀ y ∈ trace, y.2.buffers name = false) (hx : x.2.buffers name = true) :
    synchros name (trace ++ [x]) = [] := by
  have hdrop : trace.dropWhile (fun y => !y.2.buffers name) = [] :=
    List.dropWhile_eq_nil_iff.mpr fun y hy => by simp [h y hy]
  have hnot : x.2.synchroTime = none := by
    unfold Event.buffers Event.bufferCommand at hx
    unfold Event.synchroTime Event.synchroCall
    cases hop : x.2.op <;> simp_all
  simp [synchros, List.dropWhile_append, hdrop, hx, hnot]

theorem synchros_snoc (h : ∃ y ∈ trace, y.2.buffers name = true) : synchros name (trace ++ [x]) =
    synchros name trace ++ (x.2.synchroTime.map fun time => (x.1, time)).toList := by
  have hdrop : trace.dropWhile (fun y => !y.2.buffers name) ≠ [] := by
    intro hnil
    obtain ⟨y, hy, hb⟩ := h
    have := List.dropWhile_eq_nil_iff.mp hnil y hy
    simp [hb] at this
  have hempty : (trace.dropWhile fun y => !y.2.buffers name).isEmpty = false := by simpa using hdrop
  rw [synchros, synchros, List.dropWhile_append, hempty]
  cases ht : x.2.synchroTime <;> simp [ht]

theorem mem_synchros {y : ServerCommand α × Int} (h : y ∈ synchros name trace) : ∃ e, (y.1, e) ∈ trace := by
  obtain ⟨x, hx, hy⟩ := List.mem_filterMap.mp h
  obtain ⟨time, -, rfl⟩ := Option.map_eq_some_iff.mp hy
  exact ⟨x.2, (List.dropWhile_suffix _).subset hx⟩

end Synchros

section Log
variable [Double α] {localName : String → String} {name : String} {N : Nat} {s t : ServerCommand α}
  {trace : List (ServerCommand α × Event α)}

/-- What these steps sampled from the input at a rank. -/
def samples (name : String) (rank : Nat) (trace : List (ServerCommand α × Event α)) : List (TsData α) :=
  (synchros name trace).map fun x => ⟨timeStamp x.2, (x.1.copyAt rank).getD []⟩

/-- Before its first `buffer` command an input has the empty stack, and from then on
the ring of everything sampled from it. -/
structure Logged (name : String) (N : Nat) [NeZero N] (trace : List (ServerCommand α × Event α))
    (s : ServerCommand α) : Prop where
  registry : Registry s
  unbuffered : (∀ x ∈ trace, x.2.buffers name = false) → ∀ (r : Nat) (aDS : DataStack α),
    s.inputNames[r]? = some name → s.vectorSINStored[r]? = some aDS → aDS = .empty
  buffered : (∃ x ∈ trace, x.2.buffers name = true) → ∃ (r : Nat) (aDS : DataStack α),
    s.inputNames[r]? = some name ∧ s.vectorSINStored[r]? = some aDS ∧
    aDS.Represents (Ring.log .default (samples name r trace) : Ring (TsData α) N) ∧
    ∀ x ∈ synchros name trace, x.1.inputNames[r]? = some name ∧ ∃ data, x.1.copyAt r = some data

/-- An event that returns, and that resizes only existing inputs, and this one to `N`. -/
structure Regular (name : String) (N : Nat) (s : ServerCommand α) (e : Event α) : Prop where
  ok : e.result.isOk = true
  buffer : ∀ c ∈ e.bufferCommand, c.1 ∈ s.inputNames ∧ (c.1 = name → c.2 = N)

omit [Double α] in
theorem Registry.rank_eq (h : Registry s) {r : Nat} (hr : s.inputNames[r]? = some name) : s.rank name = r := by
  rw [ServerCommand.rank, h.ranks r name hr, Option.getD_some]

omit [Double α] in
theorem Regular.registered {e : Event α} (h : Regular name N s e) : e.registered = true := by
  have := h.ok
  unfold Event.registered
  cases hr : e.result with
  | error => simp [hr, Except.isOk, Except.toBool] at this
  | ok => cases e.op <;> rfl

/-- A regular event resizes the stack at the rank of the name, samples into it, or
leaves it. -/
private theorem stack_regular {e : Event α} {r : Nat} {aDS : DataStack α} (hs : Registry s)
    (he : Regular name N s e) (h : Steps localName s e t) (hr : s.inputNames[r]? = some name)
    (hget : s.vectorSINStored[r]? = some aDS) :
    (e.buffers name = true ∧ e.synchroTime = none ∧ t.vectorSINStored[r]? = some (aDS.resizeTo N)) ∨
    (e.buffers name = false ∧ ∃ time, e.synchroTime = some time ∧ Recordable s r ∧
      t.vectorSINStored[r]? = some (sampled time s r aDS)) ∨
    (e.buffers name = false ∧ e.synchroTime = none ∧ t.vectorSINStored[r]? = some aDS) := by
  have hafter := h.effect.stack_after hget
  obtain ⟨client, op, result⟩ := e
  have heffect := h.effect
  cases heffect with
  | @resized cmdArgs uninitialised aDS' hget' =>
    obtain ⟨hin, hsize⟩ := he.buffer (bufferArgs cmdArgs uninitialised) rfl
    by_cases hname : (bufferArgs cmdArgs uninitialised).1 = name
    · refine .inl ⟨by simp [Event.buffers, Event.bufferCommand, hname], rfl, ?_⟩
      rw [hafter, stackAfter, if_pos (by rw [hname, hs.rank_eq hr]), hsize hname]
    · refine .inr (.inr ⟨by simp [Event.buffers, Event.bufferCommand, hname], rfl, ?_⟩)
      obtain ⟨i, hi⟩ := List.getElem?_of_mem hin
      have hne : i ≠ r := by
        rintro rfl
        exact hname (Option.some.inj (hi.symm.trans hr))
      rwa [stackAfter, if_neg (by rwa [hs.rank_eq hi])] at hafter
  | @sampledAll time hall =>
    have hlen : r < s.vectorSINStored.length := (List.getElem?_eq_some_iff.mp hget).1
    refine .inr (.inl ⟨rfl, time, rfl, hall r hlen, ?_⟩)
    rwa [stackAfter, if_pos fun i hi => hall i (by omega)] at hafter
  | inputRefused | outputRefused | stepRaised | sampledSome => cases he.ok
  | inputExists | inputCreated | outputExists | outputCreated | inputRead | inputUnreadable | inputsRead
  | inputsUnreadable | outputWritten | plugged =>
    exact .inr (.inr ⟨rfl, rfl, hafter⟩)

omit [Double α] in
private theorem name_before (hs : Registry s) (hgrow : s.inputNames <+: t.inputNames) {r : Nat}
    {aDS : DataStack α} (hget : s.vectorSINStored[r]? = some aDS) (hr : t.inputNames[r]? = some name) :
    s.inputNames[r]? = some name := by
  obtain ⟨more, hmore⟩ := hgrow
  have hlen : r < s.inputNames.length := by
    rw [ServerCommand.inputNames, List.length_map, hs.length]
    exact (List.getElem?_eq_some_iff.mp hget).1
  rwa [← hmore, List.getElem?_append_left hlen] at hr

theorem resize_represented [NeZero N] {aDS : DataStack α} {ring : Ring (TsData α) N}
    (h : aDS.Represents ring) : aDS.resizeTo N = aDS := by
  rw [DataStack.resizeTo, ← h.length, resize_length]

omit [Double α] in
private theorem represented_buffered [NeZero N] {aDS : DataStack α} {ring : Ring (TsData α) N}
    (h : aDS.Represents ring) : aDS.stackOfTsData ≠ [] := by
  intro hnil
  have hlen := h.length
  rw [hnil] at hlen
  exact NeZero.ne N hlen.symm

/-- Sampling a readable input into a represented stack is one push. -/
theorem sampled_represents [NeZero N] {r : Nat} {aDS : DataStack α} {ring : Ring (TsData α) N} {data : List α}
    (h : aDS.Represents ring) (hN : N < 2 ^ 32) (hdata : s.copyAt r = some data) (time : Int) :
    (sampled time s r aDS).Represents (ring.push ⟨timeStamp time, data⟩) := by
  obtain ⟨aDS', hrec, hrep⟩ := h.record hN time data
  simpa only [sampled, if_neg (represented_buffered h), hdata, hrec, Option.getD_some] using hrep

private theorem empty_step {e : Event α} {r : Nat} {aDS : DataStack α} (hs : Registry s)
    (hempty : ∀ (r : Nat) (aDS : DataStack α),
      s.inputNames[r]? = some name → s.vectorSINStored[r]? = some aDS → aDS = .empty)
    (he : Regular name N s e) (hno : e.buffers name = false) (h : Steps localName s e t)
    (hr : t.inputNames[r]? = some name) (ht : t.vectorSINStored[r]? = some aDS) : aDS = .empty := by
  rcases h.effect.stack_before ht with ⟨aDS', hget, -⟩ | hnew
  · have hr' := name_before hs (names_grow h.effect).1 hget hr
    obtain rfl := hempty r aDS' hr' hget
    rcases stack_regular hs he h hr' hget with ⟨hb, -, -⟩ | ⟨-, time, -, -, hafter⟩ | ⟨-, -, hafter⟩
    · rw [hno] at hb
      cases hb
    · rw [hafter] at ht
      simpa [sampled, DataStack.empty] using ht.symm
    · exact Option.some.inj (ht.symm.trans hafter)
  · exact hnew

private theorem ring_step [NeZero N] {e : Event α} {r : Nat} {aDS : DataStack α} (hN : N < 2 ^ 32)
    (hs : Registry s) (hold : ∃ x ∈ trace, x.2.buffers name = true) (hr : s.inputNames[r]? = some name)
    (hget : s.vectorSINStored[r]? = some aDS)
    (hrep : aDS.Represents (Ring.log .default (samples name r trace) : Ring (TsData α) N))
    (hread : ∀ x ∈ synchros name trace, x.1.inputNames[r]? = some name ∧ ∃ data, x.1.copyAt r = some data)
    (he : Regular name N s e) (h : Steps localName s e t) :
    ∃ aDS', t.vectorSINStored[r]? = some aDS' ∧
      aDS'.Represents (Ring.log .default (samples name r (trace ++ [(s, e)])) : Ring (TsData α) N) ∧
      ∀ x ∈ synchros name (trace ++ [(s, e)]),
        x.1.inputNames[r]? = some name ∧ ∃ data, x.1.copyAt r = some data := by
  rcases stack_regular hs he h hr hget with ⟨-, ht, hafter⟩ | ⟨-, time, ht, hrec, hafter⟩ | ⟨-, ht, hafter⟩
  · rw [resize_represented hrep] at hafter
    refine ⟨aDS, hafter, ?_, ?_⟩
    · simpa [samples, synchros_snoc hold, ht] using hrep
    · simpa [synchros_snoc hold, ht] using hread
  · obtain ⟨data, hdata⟩ := (hrec aDS hget (represented_buffered hrep)).1
    refine ⟨_, hafter, ?_, ?_⟩
    · simpa [samples, synchros_snoc hold, ht, hdata] using sampled_represents hrep hN hdata time
    · simp only [synchros_snoc hold, ht, Option.map_some, Option.toList_some, List.mem_append,
        List.mem_singleton]
      rintro x (hx | rfl)
      · exact hread x hx
      · exact ⟨hr, data, hdata⟩
  · refine ⟨aDS, hafter, ?_, ?_⟩
    · simpa [samples, synchros_snoc hold, ht] using hrep
    · simpa [synchros_snoc hold, ht] using hread

private theorem first_step [NeZero N] {e : Event α} (hs : Registry s)
    (hempty : ∀ (r : Nat) (aDS : DataStack α),
      s.inputNames[r]? = some name → s.vectorSINStored[r]? = some aDS → aDS = .empty)
    (he : Regular name N s e) (hnow : e.buffers name = true) (h : Steps localName s e t) :
    ∃ (r : Nat) (aDS : DataStack α), s.inputNames[r]? = some name ∧ t.vectorSINStored[r]? = some aDS ∧
      aDS.Represents (Ring.fresh .default : Ring (TsData α) N) := by
  obtain ⟨⟨other, n⟩, hcmd, hother⟩ := (Option.any_eq_true _ _).mp hnow
  obtain rfl : other = name := by simpa using hother
  obtain ⟨r, hr⟩ := List.getElem?_of_mem (he.buffer (other, n) hcmd).1
  have hlen : r < s.vectorSINStored.length := by
    have := (List.getElem?_eq_some_iff.mp hr).1
    rwa [ServerCommand.inputNames, List.length_map, hs.length] at this
  have hget := List.getElem?_eq_getElem hlen
  rcases stack_regular hs he h hr hget with ⟨-, -, hafter⟩ | ⟨hb, -⟩ | ⟨hb, -⟩
  · rw [hempty r _ hr hget] at hafter
    exact ⟨r, _, hr, hafter, DataStack.represents_fresh⟩
  · rw [hnow] at hb
    cases hb
  · rw [hnow] at hb
    cases hb

theorem Logged.step [NeZero N] {e : Event α} (hN : N < 2 ^ 32) (hs : Logged name N trace s)
    (he : Regular name N s e) (h : Steps localName s e t) : Logged name N (trace ++ [(s, e)]) t := by
  have hgrow := (names_grow h.effect).1
  refine ⟨hs.registry.step he.registered h, fun hno r aDS hr ht => ?_, fun hyes => ?_⟩
  · have hold : ∀ x ∈ trace, x.2.buffers name = false := fun x hx => hno x (List.mem_append_left _ hx)
    exact empty_step hs.registry (hs.unbuffered hold) he (hno (s, e) (by simp)) h hr ht
  · by_cases hold : ∃ x ∈ trace, x.2.buffers name = true
    · obtain ⟨r, aDS, hr, hget, hrep, hread⟩ := hs.buffered hold
      obtain ⟨aDS', hafter, hrep', hread'⟩ := ring_step hN hs.registry hold hr hget hrep hread he h
      exact ⟨r, aDS', getElem?_of_prefix hgrow hr, hafter, hrep', hread'⟩
    · have hno : ∀ x ∈ trace, x.2.buffers name = false := fun x hx => by
        by_contra hne
        exact hold ⟨x, hx, by simpa using hne⟩
      have hnow : e.buffers name = true := by
        obtain ⟨x, hx, hb⟩ := hyes
        rcases List.mem_append.mp hx with hx | hx
        · exact absurd ⟨x, hx, hb⟩ hold
        · rwa [List.mem_singleton.mp hx] at hb
      have hnone : synchros name (trace ++ [(s, e)]) = [] := synchros_first hno hnow
      obtain ⟨r, aDS, hr, hafter, hrep⟩ := first_step hs.registry (hs.unbuffered hno) he hnow h
      refine ⟨r, aDS, getElem?_of_prefix hgrow hr, hafter, ?_, ?_⟩
      · rw [samples, hnone]
        exact hrep
      · rw [hnone]
        simp

theorem Logged.run [NeZero N] {server : String} (hN : N < 2 ^ 32)
    (h : Run (Steps localName) (ServerCommand.construct localName server) trace s)
    (hreg : ∀ x ∈ trace, Regular name N x.1 x.2) : Logged name N trace s := by
  induction h with
  | start =>
    refine ⟨.construct server, fun _ r aDS _ hget => ?_, fun ⟨x, hx, _⟩ => by cases hx⟩
    simp [ServerCommand.construct] at hget
  | next hr hs ih =>
    exact (ih fun x hx => hreg x (List.mem_append_left _ hx)).step hN
      (hreg _ (List.mem_append_right _ (List.mem_singleton_self _))) hs

/-- The slots of a represented log, its reader's length, and what its reader emits. -/
theorem log_slots [NeZero N] {history : List (TsData α)} {aDS : DataStack α}
    (h : aDS.Represents (Ring.log .default history : Ring (TsData α) N)) {j k : Nat}
    (hk : Ring.LastOn N history.length j k) : aDS.stackOfTsData[j]? = history[k]? := by
  have hj : j < N := hk.2.1 ▸ Nat.mod_lt _ (Nat.pos_of_ne_zero (NeZero.ne N))
  rw [Ring.log_slot .default history ⟨j, hj⟩ k hk, h.slots]
  simp [hj]

theorem log_lsizeOfSTD [NeZero N] {history : List (TsData α)} {aDS : DataStack α}
    (h : aDS.Represents (Ring.log .default history : Ring (TsData α) N)) :
    aDS.lsizeOfSTD = min history.length N := by
  have hturn := Ring.log_turnaround (N := N) TsData.default history
  rw [← h.turnaround] at hturn
  rcases Nat.lt_or_ge history.length N with hlt | hge
  · have hfalse : aDS.turnaround = false := by
      by_contra hne
      exact absurd (hturn.mp (by simpa using hne)) (by omega)
    rw [DataStack.lsizeOfSTD, hfalse, h.index, Ring.log_index, Nat.mod_eq_of_lt hlt,
      Nat.min_eq_left hlt.le]
    rfl
  · rw [DataStack.lsizeOfSTD, hturn.mpr hge, h.length, Nat.min_eq_right hge]
    rfl

theorem log_reading [NeZero N] {history : List (TsData α)} {aDS : DataStack α} {data : List α}
    (h : aDS.Represents (Ring.log .default history : Ring (TsData α) N))
    (hdim : ∀ x ∈ history, x.data.length = data.length) (hsize : (data.length + 1) * N < 2 ^ 32) :
    reading data aDS = some (if history.length = 0 then data
      else (aDS.stackOfTsData.take (min history.length N)).flatMap fun slot => slot.ts :: slot.data) := by
  have hN := Nat.pos_of_ne_zero (NeZero.ne N)
  have hslot : ∀ j < min history.length N, ∃ slot, aDS.stackOfTsData[j]? = some slot ∧
      slot.data.length = data.length := by
    intro j hj
    obtain ⟨k, hk⟩ := Ring.exists_lastOn (N := N) (n := history.length) (j := j) (by omega) (by omega)
    have hget := List.getElem?_eq_getElem hk.1
    exact ⟨_, (log_slots h hk).trans hget, hdim _ (List.getElem_mem hk.1)⟩
  rw [reading, log_lsizeOfSTD h]
  by_cases hn : history.length = 0
  · rw [if_pos (by omega), if_pos hn]
  · have hfit : (data.length + 1) * min history.length N < 2 ^ 32 :=
      Nat.lt_of_le_of_lt (Nat.mul_le_mul_left _ (Nat.min_le_right _ _)) hsize
    rw [if_neg (by omega), if_neg hn,
      readBlocks_eq (fun j hj => (hslot j hj).imp fun slot hs => ⟨hs.1, hs.2.ge⟩) hfit]
    congr 1
    apply List.flatMap_congr
    intro slot hmem
    obtain ⟨j, hlt, hj⟩ := mem_take_iff.mp hmem
    obtain ⟨slot', hget, hlen⟩ := hslot j hlt
    obtain rfl := Option.some.inj (hget.symm.trans hj)
    rw [block, ← hlen, List.take_length]

end Log

section Run
variable [Double α] {localName : String → String} {server : String} {s : ServerCommand α}
  {trace : List (ServerCommand α × Event α)}

/-- After any run whose operations return, an input that was always buffered with `N`
slots holds in each of them the latest sample that fell on it, and a client reads the
slots that were written, or the current vector while there are none. -/
theorem ring_log_run (name : String) (N d : Nat)
    (h : Run (Steps localName) (ServerCommand.construct localName server) trace s)
    (hok : ∀ x ∈ trace, x.2.result.isOk = true)
    (hbuf : ∀ x ∈ trace, ∀ c ∈ x.2.bufferCommand, c.1 ∈ x.1.inputNames ∧ (c.1 = name → c.2 = N))
    (hN : 1 ≤ N) (hsize : (d + 1) * N < 2 ^ 32)
    (hdim : ∀ x ∈ trace, ∀ signal ∈ x.1.vectorSIN, signal.name = name → ∀ data ∈ signal.ptr, data.length = d)
    (hname : ∃ x ∈ trace, x.2.buffers name = true) :
    ∃ (r : Nat) (aDS : DataStack α), s.inputNames[r]? = some name ∧ s.vectorSINStored[r]? = some aDS ∧
      aDS.stackOfTsData.length = N ∧
      aDS.index = (synchros name trace).length % N ∧
      (aDS.turnaround = true ↔ N ≤ (synchros name trace).length) ∧
      (∀ j < min (synchros name trace).length N, ∃ k u time data,
        Ring.LastOn N (synchros name trace).length j k ∧ (synchros name trace)[k]? = some (u, time) ∧
        u.copyAt r = some data ∧ aDS.stackOfTsData[j]? = some ⟨timeStamp time, data⟩) ∧
      ∀ data, s.copyAt r = some data → data.length = d → readInputVectorSignal r s =
        .ret (some (if (synchros name trace).length = 0 then data
          else (aDS.stackOfTsData.take (min (synchros name trace).length N)).flatMap
            fun slot => slot.ts :: slot.data)) s := by
  have : NeZero N := ⟨by omega⟩
  have hN' : N < 2 ^ 32 := Nat.lt_of_le_of_lt (Nat.le_mul_of_pos_left N (by omega)) hsize
  obtain ⟨r, aDS, hr, hget, hrep, hread⟩ :=
    (Logged.run hN' h fun x hx => ⟨hok x hx, hbuf x hx⟩).buffered hname
  have hlen : (samples name r trace).length = (synchros name trace).length := List.length_map _
  have hsample : ∀ (k : Nat) u time, (synchros name trace)[k]? = some (u, time) →
      ∃ data, u.copyAt r = some data ∧ (samples name r trace)[k]? = some ⟨timeStamp time, data⟩ := by
    intro k u time hk
    obtain ⟨-, data, hdata⟩ := hread _ (List.mem_of_getElem? hk)
    exact ⟨data, hdata, by simp [samples, hk, hdata]⟩
  refine ⟨r, aDS, hr, hget, hrep.length, ?_, ?_, ?_, ?_⟩
  · rw [hrep.index, Ring.log_index, hlen]
  · rw [hrep.turnaround, Ring.log_turnaround, hlen]
  · intro j hj
    obtain ⟨k, hk⟩ := Ring.exists_lastOn (N := N) (n := (synchros name trace).length) (j := j)
      (by omega) (by omega)
    have hx := List.getElem?_eq_getElem hk.1
    obtain ⟨data, hdata, hs⟩ := hsample k _ _ hx
    exact ⟨k, _, _, data, hk, hx, hdata, (log_slots hrep (hlen.symm ▸ hk)).trans hs⟩
  · rintro data hdata rfl
    obtain ⟨signal, hsig, hptr⟩ := Option.bind_eq_some_iff.mp hdata
    have hdims : ∀ x ∈ samples name r trace, x.data.length = data.length := by
      intro x hx
      obtain ⟨y, hy, rfl⟩ := List.mem_map.mp hx
      obtain ⟨hi, old, hold⟩ := hread y hy
      obtain ⟨e, he⟩ := mem_synchros hy
      rw [hold, Option.getD_some]
      obtain ⟨sig, hsig', hptr'⟩ := Option.bind_eq_some_iff.mp hold
      rw [ServerCommand.inputNames, List.getElem?_map, hsig', Option.map_some, Option.some.injEq] at hi
      exact hdim _ he sig (List.mem_of_getElem? hsig') hi old hptr'
    rw [readInput_readable (Int.natCast_nonneg r) (by simpa using hsig) hptr (by simpa using hget),
      log_reading hrep hdims hsize, hlen]

end Run

/-- One input with two slots, sampled three times while another is created and read. -/
def wrapped : List (Nat × Op ℚ) :=
  [(0, .createInputVectorSignal "comstate"), (0, .plug "comstate" (some [1])), (0, .buffer "comstate 2" 0),
    (0, .synchro none 1), (1, .createInputVectorSignal "force"), (0, .synchro none 2),
    (1, .readInputVectorSignal 0), (0, .plug "comstate" (some [4])), (0, .synchro none 3)]

theorem ring_log_run_wrapped :
    ∃ (r : Nat) (aDS : DataStack ℚ),
      (execute shortName (ServerCommand.construct shortName "coshell") wrapped).2.inputNames[r]? = some "comstate" ∧
      (execute shortName (ServerCommand.construct shortName "coshell") wrapped).2.vectorSINStored[r]? = some aDS ∧
      aDS.stackOfTsData.length = 2 ∧ aDS.index = 1 := by
  have hrun := run_execute shortName (ServerCommand.construct shortName "coshell") wrapped
  generalize hresult : execute shortName (ServerCommand.construct shortName "coshell") wrapped = result at hrun
  obtain ⟨hok, hbuf, hdim, hname, hn⟩ : (∀ x ∈ result.1, x.2.result.isOk = true) ∧
      (∀ x ∈ result.1, ∀ c ∈ x.2.bufferCommand, c.1 ∈ x.1.inputNames ∧ (c.1 = "comstate" → c.2 = 2)) ∧
      (∀ x ∈ result.1, ∀ signal ∈ x.1.vectorSIN, signal.name = "comstate" →
        ∀ data ∈ signal.ptr, data.length = 1) ∧
      (∃ x ∈ result.1, x.2.buffers "comstate" = true) ∧ (synchros "comstate" result.1).length = 3 := by
    rw [← hresult]
    decide +kernel
  obtain ⟨r, aDS, hr, hget, hlen, hindex, -⟩ :=
    ring_log_run "comstate" 2 1 hrun hok hbuf (by decide) (by decide) hdim hname
  exact ⟨r, aDS, hr, hget, hlen, by rw [hindex, hn]⟩

end DgMiddleware.Server
