import Mathlib.Data.List.TakeWhile
import Mathlib.Data.String.Basic
import Mathlib.Tactic.Common

/-! Input string streams: the characters still to be read and the two state bits,
with formatted extraction of words and of unsigned numbers in the C locale. -/
namespace DgMiddleware.Library

structure InputStream where
  rest : List Char
  eofbit : Bool
  failbit : Bool
  deriving DecidableEq, Repr

def isspace (c : Char) : Bool :=
  c == ' ' || c == '\t' || c == '\n' || c == '\x0b' || c == '\x0c' || c == '\r'

namespace InputStream

def ofString (s : String) : InputStream := ⟨s.toList, false, false⟩

def good (is : InputStream) : Bool := !is.eofbit && !is.failbit

/-- What every formatted extraction does first: skip white space, and give up on a
stream that is not good or has nothing left. -/
def sentry (is : InputStream) : InputStream :=
  if is.good then
    match is.rest.dropWhile isspace with
    | [] => ⟨[], true, true⟩
    | rest => { is with rest := rest }
  else { is with failbit := true }

/-- Extraction into a string that held `old`. -/
def extractWord (is : InputStream) (old : String) : String × InputStream :=
  let is := is.sentry
  if is.good then
    let rest := is.rest.dropWhile (fun c => !isspace c)
    (String.ofList (is.rest.takeWhile fun c => !isspace c), ⟨rest, rest.isEmpty, false⟩)
  else (old, is)

/-- The manipulator `std::ws`. -/
def ws (is : InputStream) : InputStream :=
  if is.good then
    match is.rest.dropWhile isspace with
    | [] => { is with rest := [], eofbit := true }
    | rest => { is with rest := rest }
  else is

def decimal (digits : List Char) : Nat :=
  digits.foldl (fun n c => 10 * n + (c.toNat - '0'.toNat)) 0

/-- A sign is read before the digits: minus negates modulo 2^32. -/
def sign : List Char → Bool × List Char
  | '-' :: rest => (true, rest)
  | '+' :: rest => (false, rest)
  | rest => (false, rest)

/-- Extraction into an unsigned number that held `old`, which it still does when
nothing is left. No number is read as zero, too large a number as the largest one. -/
def extractUnsigned (is : InputStream) (old : UInt32) : UInt32 × InputStream :=
  let is := is.sentry
  if is.good then
    let (negative, body) := sign is.rest
    let digits := body.takeWhile Char.isDigit
    let rest := body.dropWhile Char.isDigit
    if digits = [] then (0, ⟨rest, rest.isEmpty, true⟩)
    else if 2 ^ 32 ≤ decimal digits then (UInt32.ofNat (2 ^ 32 - 1), ⟨rest, rest.isEmpty, true⟩)
    else
      let value := UInt32.ofNat (decimal digits)
      (if negative then -value else value, ⟨rest, rest.isEmpty, false⟩)
  else (old, is)

section Sentry
variable {is : InputStream}

theorem good_iff : is.good = true ↔ is.eofbit = false ∧ is.failbit = false := by simp [good]

theorem sentry_blank (hgood : is.good = true) (h : is.rest.dropWhile isspace = []) :
    is.sentry = ⟨[], true, true⟩ := by
  rw [sentry, if_pos hgood, h]

theorem sentry_text (hgood : is.good = true) (h : is.rest.dropWhile isspace ≠ []) :
    is.sentry = ⟨is.rest.dropWhile isspace, false, false⟩ := by
  obtain ⟨heof, hfail⟩ := good_iff.mp hgood
  rw [sentry, if_pos hgood]
  cases hrest : is.rest.dropWhile isspace with
  | nil => exact absurd hrest h
  | cons c cs => rw [heof, hfail]

theorem sentry_bad (h : is.good = false) : is.sentry.good = false := by
  rw [sentry, if_neg (by simp [h])]
  simp [good]

theorem extractWord_blank (hgood : is.good = true) (h : is.rest.dropWhile isspace = []) (old : String) :
    is.extractWord old = (old, ⟨[], true, true⟩) := by
  simp [extractWord, sentry_blank hgood h, good]

theorem extractWord_text (hgood : is.good = true) (h : is.rest.dropWhile isspace ≠ []) (old : String) :
    is.extractWord old =
      (String.ofList ((is.rest.dropWhile isspace).takeWhile fun c => !isspace c),
        ⟨(is.rest.dropWhile isspace).dropWhile fun c => !isspace c,
          ((is.rest.dropWhile isspace).dropWhile fun c => !isspace c).isEmpty, false⟩) := by
  simp [extractWord, sentry_text hgood h, good]

/-- Nothing is extracted where there is nothing left. -/
theorem extractUnsigned_blank (h : is.rest.dropWhile isspace = [] ∨ is.good = false) (old : UInt32) :
    (is.extractUnsigned old).1 = old := by
  have hbad : is.sentry.good = false := by
    cases hgood : is.good with
    | false => exact sentry_bad hgood
    | true => rw [sentry_blank hgood (h.resolve_right (by simp [hgood]))]; rfl
  simp [extractUnsigned, hbad]

/-- The manipulator leaves the stream good only before further text. -/
theorem ws_good_iff : is.ws.good = true ↔ is.good = true ∧ is.rest.dropWhile isspace ≠ [] := by
  unfold ws
  cases hgood : is.good with
  | false => simp [hgood]
  | true =>
    obtain ⟨heof, hfail⟩ := good_iff.mp hgood
    cases hrest : is.rest.dropWhile isspace with
    | nil => simp [good]
    | cons c cs => simp [good, heof, hfail]

end Sentry

/-- Without white space in it, a text is one word and nothing is left. -/
theorem extractWord_of_no_space (s : String) (h : ∀ c ∈ s.toList, isspace c = false) :
    ((ofString s).extractWord "").1 = s ∧ ((ofString s).extractWord "").2.rest = [] ∧
      ((ofString s).extractWord "").2.eofbit = true := by
  have hd : s.toList.dropWhile isspace = s.toList := by
    cases hs : s.toList with
    | nil => rfl
    | cons c cs => simp [h c (by simp [hs])]
  have ht : s.toList.takeWhile (fun c => !isspace c) = s.toList :=
    List.takeWhile_eq_self_iff.mpr fun c hc => by simp [h c hc]
  have hr : s.toList.dropWhile (fun c => !isspace c) = [] :=
    List.dropWhile_eq_nil_iff.mpr fun c hc => by simp [h c hc]
  cases hs : s.toList with
  | nil =>
    have he : s = "" := by rw [← String.ofList_toList (s := s), hs]
    subst he
    decide
  | cons c cs =>
    rw [hs] at hd ht hr
    simp only [extractWord, ofString, sentry, good, hs, hd, Bool.not_false, Bool.and_self, if_true,
      ht, hr, List.isEmpty_nil, and_true]
    rw [← hs, String.ofList_toList]

/-- No word contains white space. -/
theorem extractWord_no_space (is : InputStream) :
    ∀ c ∈ (is.extractWord "").1.toList, isspace c = false := by
  intro c hc
  simp only [extractWord] at hc
  split at hc
  · rw [String.toList_ofList] at hc
    simpa using List.mem_takeWhile_imp hc
  · simp at hc

end InputStream
end DgMiddleware.Library
