import DgMiddleware.Server.RankRegistry

/-! Which signal a `buffer` command reaches. Its text may lack the name or the size, or
name an input that does not exist: what then happens depends on the stack at rank 0. -/
namespace DgMiddleware.Server
open Library

/-- How the text after a name reads as a size in 32 bits. -/
inductive SizeText where
  | missing
  | notANumber
  | tooLarge
  | negative (magnitude : Nat)
  | fits (size : Nat)
  deriving DecidableEq, Repr

namespace SizeText

def ofChars (text : List Char) : SizeText :=
  if text = [] then .missing
  else
    let (minus, body) := InputStream.sign text
    let digits := body.takeWhile Char.isDigit
    if digits = [] then .notANumber
    else if 2 ^ 32 ≤ InputStream.decimal digits then .tooLarge
    else if minus then .negative (InputStream.decimal digits)
    else .fits (InputStream.decimal digits)

/-- The number that the extraction leaves behind; a missing one is not written at all. -/
def extracted (uninitialised : UInt32) : SizeText → Nat
  | .missing => uninitialised.toNat
  | .notANumber => 0
  | .tooLarge => 2 ^ 32 - 1
  | .negative magnitude => (2 ^ 32 - magnitude) % 2 ^ 32
  | .fits size => size

end SizeText

/-- The first word of a text, and what follows it read as a size. -/
def nameAndSize (cmdArgs : String) : String × SizeText :=
  let text := cmdArgs.toList.dropWhile isspace
  (String.ofList (text.takeWhile fun c => !isspace c),
    .ofChars ((text.dropWhile fun c => !isspace c).dropWhile isspace))

private theorem extractUnsigned_size {is : InputStream} (hgood : is.good = true) (uninitialised : UInt32) :
    (is.extractUnsigned uninitialised).1.toNat =
      (SizeText.ofChars (is.rest.dropWhile isspace)).extracted uninitialised := by
  by_cases hblank : is.rest.dropWhile isspace = []
  · rw [InputStream.extractUnsigned_blank (.inl hblank), hblank]
    rfl
  · simp only [InputStream.extractUnsigned, InputStream.sentry_text hgood hblank, SizeText.ofChars,
      if_neg hblank, InputStream.good, Bool.not_false, Bool.and_self, if_true]
    split_ifs with hdigits hlarge hneg
    · rfl
    · rfl
    · simp only [SizeText.extracted, UInt32.toNat_neg, UInt32.toNat_ofNat']
      rw [Nat.mod_eq_of_lt (Nat.lt_of_not_le hlarge)]
      rfl
    · exact UInt32.toNat_ofNat_of_lt' (Nat.lt_of_not_le hlarge)

/-- What the command extracts from its text, by the kinds of texts there are. -/
theorem bufferArgs_eq (cmdArgs : String) (uninitialised : UInt32) :
    bufferArgs cmdArgs uninitialised =
      ((nameAndSize cmdArgs).1, (nameAndSize cmdArgs).2.extracted uninitialised) := by
  have hgood : (InputStream.ofString cmdArgs).good = true := rfl
  have hrest : (InputStream.ofString cmdArgs).rest = cmdArgs.toList := rfl
  by_cases hblank : cmdArgs.toList.dropWhile isspace = []
  · have hbad : (⟨[], true, true⟩ : InputStream).good = false := rfl
    rw [bufferArgs, InputStream.extractWord_blank hgood (hrest ▸ hblank), nameAndSize, hblank,
      InputStream.extractUnsigned_blank (.inr hbad)]
    rfl
  · rw [bufferArgs, InputStream.extractWord_text hgood (hrest ▸ hblank), nameAndSize, hrest]
    refine Prod.ext rfl ?_
    dsimp only
    generalize (cmdArgs.toList.dropWhile isspace).dropWhile (fun c => !isspace c) = after
    cases hafter : after with
    | nil =>
      rw [InputStream.extractUnsigned_blank (.inl rfl)]
      rfl
    | cons c cs => exact extractUnsigned_size rfl uninitialised

variable {α : Type} [Double α]

/-- The position of the input a text names, and its size, if the text starts with the
name of an input and a size that fits. -/
def named (s : ServerCommand α) (cmdArgs : String) : Option (Nat × Nat) :=
  match nameAndSize cmdArgs with
  | (name, .fits size) => if name ∈ s.inputNames then some (s.inputNames.idxOf name, size) else none
  | _ => none

/-- The command resizes the stack of the input it names, whose first slots stay, and
leaves everything else; a text that names none leaves all. -/
def AffectsOnlyNamed (s : ServerCommand α) (cmdArgs : String) (uninitialised : UInt32) : Prop :=
  match named s cmdArgs with
  | some (rank, size) => ∃ aDS, s.vectorSINStored[rank]? = some aDS ∧
      bufferSignal (.ofString cmdArgs) uninitialised s = .ret ()
        { s with vectorSINStored := s.vectorSINStored.set rank (aDS.resizeTo size) } ∧
      (aDS.resizeTo size).stackOfTsData.take (min aDS.stackOfTsData.length size) =
        aDS.stackOfTsData.take (min aDS.stackOfTsData.length size)
  | none => bufferSignal (.ofString cmdArgs) uninitialised s = .ret () s

omit [Double α] in
def ServerCommand.stackSize (s : ServerCommand α) (rank : Nat) : Option Nat :=
  s.vectorSINStored[rank]?.map (·.stackOfTsData.length)

/-- The name map holds the first word. Where a text names an input, the rank there is
the position of the input, or both have the size already; for any other text the stack
at the rank has just the size that is extracted. -/
def NameResolves (s : ServerCommand α) (cmdArgs : String) (uninitialised : UInt32) : Prop :=
  ∃ rank, s.vectorName2Rank[(nameAndSize cmdArgs).1]? = some rank ∧
    match named s cmdArgs with
    | some (position, size) => (rank = position ∧ s.stackSize position ≠ none) ∨
        (s.stackSize rank = some size ∧ s.stackSize position = some size)
    | none => s.stackSize rank = some ((nameAndSize cmdArgs).2.extracted uninitialised)

section Exact
variable {s : ServerCommand α} {cmdArgs : String} {uninitialised : UInt32}

omit [Double α] in
private theorem rank_of_mapped {name : String} {rank : Nat} (h : s.vectorName2Rank[name]? = some rank) :
    s.rank name = rank ∧ asked s name = s := by
  have hrank : s.rank name = rank := by rw [ServerCommand.rank, h, Option.getD_some]
  have hask := rankOf_eq s name
  simp only [rankOf, Method.bind_apply, Method.get_apply, Outcome.bind_ret, h, Method.pure_apply,
    Outcome.ret.injEq] at hask
  exact ⟨hrank, hask.2.symm⟩

omit [Double α] in
private theorem mapped_of_asked {name : String}
    (h : (asked s name).vectorName2Rank = s.vectorName2Rank) :
    s.vectorName2Rank[name]? = some (s.rank name) := by
  rw [← h, asked, lookup_insert, if_pos rfl]

/-- When the command leaves everything but a given vector of stacks. -/
private theorem bufferSignal_ret_iff (stored : List (DataStack α)) :
    bufferSignal (.ofString cmdArgs) uninitialised s = .ret () { s with vectorSINStored := stored } ↔
      ∃ rank, s.vectorName2Rank[(nameAndSize cmdArgs).1]? = some rank ∧
        ∃ aDS, s.vectorSINStored[rank]? = some aDS ∧ s.vectorSINStored.set rank
          (aDS.resizeTo ((nameAndSize cmdArgs).2.extracted uninitialised)) = stored := by
  rw [bufferSignal_eq, bufferArgs_eq]
  dsimp only
  constructor
  · intro h
    cases hget : s.vectorSINStored[s.rank (nameAndSize cmdArgs).1]? with
    | none => simp [hget] at h
    | some aDS =>
      rw [hget] at h
      obtain ⟨-, -, hset, hmap, -, -⟩ := ServerCommand.mk.inj (Outcome.ret.inj h).2
      exact ⟨_, mapped_of_asked hmap, aDS, hget, hset⟩
  · rintro ⟨rank, hmap, aDS, hget, rfl⟩
    obtain ⟨hrank, hasked⟩ := rank_of_mapped hmap
    rw [hrank, hget, hasked]

private theorem resizeTo_same_iff {aDS : DataStack α} {size : Nat} :
    aDS.resizeTo size = aDS ↔ aDS.stackOfTsData.length = size := by
  constructor
  · intro h
    rw [← h, DataStack.length_resizeTo]
  · rintro rfl
    rw [DataStack.resizeTo, resize_length]

omit [Double α] in
private theorem set_same_iff {β : Type} {xs : List β} {i : Nat} {x y : β} (h : xs[i]? = some x) :
    xs.set i y = xs ↔ y = x := by
  constructor
  · intro he
    have hset : (xs.set i y)[i]? = some y := List.getElem?_set_self (List.getElem?_eq_some_iff.mp h).1
    rw [he, h] at hset
    exact (Option.some.inj hset).symm
  · rintro rfl
    exact set_same h

omit [Double α] in
private theorem set_eq_set_iff {β : Type} {xs : List β} (f : β → β) {i j : Nat} {x y : β} (hi : xs[i]? = some x)
    (hj : xs[j]? = some y) : xs.set i (f x) = xs.set j (f y) ↔ i = j ∨ (f x = x ∧ f y = y) := by
  constructor
  · intro h
    by_cases hij : i = j
    · exact .inl hij
    · have hx : (xs.set i (f x))[i]? = some (f x) := List.getElem?_set_self (List.getElem?_eq_some_iff.mp hi).1
      have hy : (xs.set j (f y))[j]? = some (f y) := List.getElem?_set_self (List.getElem?_eq_some_iff.mp hj).1
      rw [h, List.getElem?_set_ne (Ne.symm hij), hi] at hx
      rw [← h, List.getElem?_set_ne hij, hj] at hy
      exact .inr ⟨(Option.some.inj hx).symm, (Option.some.inj hy).symm⟩
  · rintro (rfl | ⟨hx, hy⟩)
    · rw [Option.some.inj (hi.symm.trans hj)]
    · rw [hx, hy, set_same hi, set_same hj]

omit [Double α] in
private theorem named_fits {rank size : Nat} (h : named s cmdArgs = some (rank, size)) :
    (nameAndSize cmdArgs).2 = .fits size := by
  unfold named at h
  split at h
  · rename_i name size' he
    split_ifs at h
    rw [he]
    simp_all
  · cases h

private theorem take_resize {aDS : DataStack α} {size : Nat} :
    (aDS.resizeTo size).stackOfTsData.take (min aDS.stackOfTsData.length size) =
      aDS.stackOfTsData.take (min aDS.stackOfTsData.length size) := by
  simp only [DataStack.resizeTo, resize]
  rw [List.take_append_of_le_length (by simp), List.take_take]
  congr 1
  omega

omit [Double α] in
private theorem stackSize_eq_some {rank size : Nat} {aDS : DataStack α}
    (h : s.vectorSINStored[rank]? = some aDS) :
    s.stackSize rank = some size ↔ aDS.stackOfTsData.length = size := by
  simp [ServerCommand.stackSize, h]

/-- In every state and for every text, the command affects the signal it names and
nothing else exactly when its first word resolves so. -/
theorem affectsOnlyNamed_iff (s : ServerCommand α) (cmdArgs : String) (uninitialised : UInt32) :
    AffectsOnlyNamed s cmdArgs uninitialised ↔ NameResolves s cmdArgs uninitialised := by
  unfold AffectsOnlyNamed NameResolves
  cases hnamed : named s cmdArgs with
  | none =>
    dsimp only
    refine (bufferSignal_ret_iff s.vectorSINStored).trans (exists_congr fun rank => ?_)
    refine and_congr_right fun _ => ?_
    constructor
    · rintro ⟨aDS, hget, hset⟩
      rwa [stackSize_eq_some hget, ← resizeTo_same_iff, ← set_same_iff hget]
    · intro hsize
      obtain ⟨aDS, hget, hlen⟩ := Option.map_eq_some_iff.mp hsize
      exact ⟨aDS, hget, (set_same_iff hget).mpr (resizeTo_same_iff.mpr hlen)⟩
  | some at' =>
    obtain ⟨position, size⟩ := at'
    have hfits : (nameAndSize cmdArgs).2.extracted uninitialised = size := by
      rw [named_fits hnamed]
      rfl
    dsimp only
    constructor
    · rintro ⟨aDS, hget, hret, -⟩
      obtain ⟨rank, hmap, aDS', hget', hset⟩ := (bufferSignal_ret_iff _).mp hret
      rw [hfits, set_eq_set_iff (DataStack.resizeTo · size) hget' hget, resizeTo_same_iff, resizeTo_same_iff] at hset
      refine ⟨rank, hmap, hset.imp (fun he => ⟨he, ?_⟩) fun hsame => ?_⟩
      · simp [ServerCommand.stackSize, hget]
      · rwa [stackSize_eq_some hget', stackSize_eq_some hget]
    · rintro ⟨rank, hmap, ⟨rfl, hstack⟩ | ⟨hrank, hposition⟩⟩
      · obtain ⟨aDS, hget⟩ : ∃ aDS, s.vectorSINStored[rank]? = some aDS := by
          cases hget : s.vectorSINStored[rank]? with
          | none => simp [ServerCommand.stackSize, hget] at hstack
          | some aDS => exact ⟨aDS, rfl⟩
        exact ⟨aDS, hget, (bufferSignal_ret_iff _).mpr ⟨rank, hmap, aDS, hget, by rw [hfits]⟩, take_resize⟩
      · obtain ⟨aDS', hget', hlen'⟩ := Option.map_eq_some_iff.mp hrank
        obtain ⟨aDS, hget, hlen⟩ := Option.map_eq_some_iff.mp hposition
        refine ⟨aDS, hget, (bufferSignal_ret_iff _).mpr ⟨rank, hmap, aDS', hget', ?_⟩, take_resize⟩
        rw [hfits, set_eq_set_iff (DataStack.resizeTo · size) hget' hget, resizeTo_same_iff, resizeTo_same_iff]
        exact .inr ⟨hlen', hlen⟩

omit [Double α] in
/-- As long as no creation was refused, a text that names an input resolves. -/
theorem Registry.resolves (h : Registry s) {at' : Nat × Nat} (hnamed : named s cmdArgs = some at') :
    NameResolves s cmdArgs uninitialised := by
  have hfound : (nameAndSize cmdArgs).1 ∈ s.inputNames ∧ at'.1 = s.inputNames.idxOf (nameAndSize cmdArgs).1 := by
    unfold named at hnamed
    split at hnamed
    · rename_i name size he
      split_ifs at hnamed with hmem
      obtain rfl := Option.some.inj hnamed
      rw [he]
      exact ⟨hmem, rfl⟩
    · cases hnamed
  obtain ⟨hmem, hposition⟩ := hfound
  have hlt := List.idxOf_lt_length_of_mem hmem
  have hname : s.inputNames[s.inputNames.idxOf (nameAndSize cmdArgs).1]? = some (nameAndSize cmdArgs).1 := by
    rw [List.getElem?_eq_getElem hlt, List.getElem_idxOf hlt]
  refine ⟨_, h.ranks _ _ hname, ?_⟩
  rw [hnamed]
  have hlen : s.inputNames.length = s.vectorSINStored.length := by
    rw [ServerCommand.inputNames, List.length_map, h.length]
  have hget := List.getElem?_eq_getElem (l := s.vectorSINStored) (i := at'.1) (by omega)
  exact .inl ⟨hposition.symm, by simp [ServerCommand.stackSize, hget]⟩

end Exact

/-- One input with two slots. -/
def twoSlots : List (Nat × Op ℚ) := [(0, .createInputVectorSignal "comstate"), (0, .buffer "comstate 2" 0)]

/-- On a new server every name leads to a stack that does not exist; later a name of no
input empties the stack of the first one. -/
theorem buffer_strays :
    (¬AffectsOnlyNamed (ServerCommand.construct shortName "coshell" : ServerCommand ℚ) "comstate 3" 0 ∧
      bufferSignal (.ofString "comstate 3") 0 (ServerCommand.construct shortName "coshell" : ServerCommand ℚ) =
        .undefined) ∧
    ∃ (trace : List (ServerCommand ℚ × Event ℚ)) (s t : ServerCommand ℚ),
      Run (Steps shortName) (ServerCommand.construct shortName "coshell") trace s ∧ s.inputNames = ["comstate"] ∧
        bufferSignal (.ofString "force 0") 0 s = .ret () t ∧ s.stackSize 0 = some 2 ∧ t.stackSize 0 = some 0 ∧
        ¬AffectsOnlyNamed s "force 0" 0 := by
  constructor
  · have hundefined : bufferSignal (.ofString "comstate 3") 0
        (ServerCommand.construct shortName "coshell" : ServerCommand ℚ) = .undefined := by
      rw [bufferSignal_eq]
      rfl
    have hnamed : named (ServerCommand.construct shortName "coshell" : ServerCommand ℚ) "comstate 3" = none := by
      decide +kernel
    refine ⟨fun h => ?_, hundefined⟩
    rw [AffectsOnlyNamed, hnamed, hundefined] at h
    cases h
  · have hrun := run_execute shortName (ServerCommand.construct shortName "coshell") twoSlots
    generalize hresult : (execute shortName (ServerCommand.construct shortName "coshell") twoSlots).2 = s at hrun
    obtain ⟨hnames, hsize, hnamed, hrank⟩ : s.inputNames = ["comstate"] ∧ s.stackSize 0 = some 2 ∧
        named s "force 0" = none ∧ s.rank "force" = 0 := by
      rw [← hresult]
      decide +kernel
    have hargs : bufferArgs "force 0" 0 = ("force", 0) := by decide +kernel
    obtain ⟨aDS, hget, -⟩ := Option.map_eq_some_iff.mp hsize
    have hret : bufferSignal (.ofString "force 0") 0 s = .ret () (withBuffer s "force" aDS 0) := by
      rw [bufferSignal_eq, hargs, hrank, hget, withBuffer, hrank]
    have hemptied : (withBuffer s "force" aDS 0).stackSize 0 = some 0 := by
      have hlt := (List.getElem?_eq_some_iff.mp hget).1
      simp [ServerCommand.stackSize, withBuffer, hrank, hlt]
    refine ⟨_, s, _, hrun, hnames, hret, hsize, hemptied, fun h => ?_⟩
    rw [AffectsOnlyNamed, hnamed, hret] at h
    have hsame : withBuffer s "force" aDS 0 = s := (Outcome.ret.inj h).2
    rw [hsame, hsize] at hemptied
    cases hemptied

end DgMiddleware.Server
