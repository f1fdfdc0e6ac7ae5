import Mathlib.Data.List.TakeDrop
import Mathlib.Data.List.TakeWhile

/-!
# Content digests

A digest is an algorithm the registry knows together with as many lower-case
hexadecimal digits as the algorithm yields; no other value can be built.
Parsing accepts upper-case digits and folds them.
-/

namespace Roci.Storage

inductive QuotaScope where
  | repository
  | total
deriving DecidableEq

inductive StorageError where
  | notFound
  | badDigest (text : String)
  | digestMismatch (expected actual : String)
  | io (message : String)
  | badPath (text : String)
  | rangeNotSatisfiable (expected got : Nat)
  | tooLarge (limit actual : Nat)
  | quotaExceeded (scope : QuotaScope) (limit requested : Nat)
  | missingReference (digest : String)
  | tooManySessions (limit : Nat)
  | unavailable (text : String)
deriving DecidableEq

def splitOnce (separator : Char) (text : String) : Option (String × String) :=
  match text.toList.span (· ≠ separator) with
  | (_, []) => none
  | (before, _ :: behind) => some (String.ofList before, String.ofList behind)

/-- Digits of a digest of the algorithm; `none` for an unknown one. -/
def hexLength (algorithm : String) : Option Nat :=
  if algorithm = "sha256" then some 64
  else if algorithm = "sha512" then some 128
  else none

def lowerHexDigits : List Char := "0123456789abcdef".toList

def upperHexDigits : List Char := "ABCDEF".toList

/-- `u8::is_ascii_hexdigit`. -/
def isHexDigit (digit : Char) : Bool := decide (digit ∈ lowerHexDigits ∨ digit ∈ upperHexDigits)

structure Digest where
  algorithm : String
  hex : String
  length_eq : hexLength algorithm = some hex.toList.length
  digits : hex.toList.all (· ∈ lowerHexDigits) = true

variable (digest : Digest)

namespace Digest

theorem ext_fields {first second : Digest} (algorithm : first.algorithm = second.algorithm)
    (hex : first.hex = second.hex) : first = second := by
  cases first
  cases second
  simp_all

instance : DecidableEq Digest := fun first second =>
  decidable_of_iff (first.algorithm = second.algorithm ∧ first.hex = second.hex)
    ⟨fun same => ext_fields same.1 same.2, by
      rintro rfl
      exact ⟨rfl, rfl⟩⟩

theorem algorithm_eq : digest.algorithm = "sha256" ∨ digest.algorithm = "sha512" := by
  have known := digest.length_eq
  unfold hexLength at known
  split at known
  · exact .inl ‹_›
  split at known
  · exact .inr ‹_›
  · cases known

theorem digit_mem : ∀ digit ∈ digest.hex.toList, digit ∈ lowerHexDigits := by
  simpa using digest.digits

theorem toLower_mem_lowerHexDigits {digit : Char} (hexadecimal : isHexDigit digit = true) :
    digit.toLower ∈ lowerHexDigits := by
  have every : (lowerHexDigits ++ upperHexDigits).all (·.toLower ∈ lowerHexDigits) = true := by
    decide +kernel
  exact of_decide_eq_true (List.all_eq_true.mp every digit
    (List.mem_append.mpr (of_decide_eq_true hexadecimal)))

def fold (algorithm hex : String)
    (valid : hexLength algorithm = some hex.toList.length ∧
      hex.toList.all isHexDigit = true) : Digest where
  algorithm := algorithm
  hex := String.ofList (hex.toList.map Char.toLower)
  length_eq := by simpa using valid.1
  digits := by
    rw [String.toList_ofList, List.all_map, List.all_eq_true]
    intro digit membership
    exact decide_eq_true (toLower_mem_lowerHexDigits
      (List.all_eq_true.mp valid.2 digit membership))

/-- Parse `sha256:<hex>` or `sha512:<hex>`. -/
def parse (text : String) : Except StorageError Digest :=
  match splitOnce ':' text with
  | none => .error (.badDigest text)
  | some (algorithm, hex) =>
    if valid : hexLength algorithm = some hex.toList.length ∧
        hex.toList.all isHexDigit = true then
      .ok (fold algorithm hex valid)
    else .error (.badDigest text)

def asString : String := digest.algorithm ++ ":" ++ digest.hex

/-- SHA-256 of no bytes at all. -/
def ofNothing : Digest where
  algorithm := "sha256"
  hex := "e3b0c44298fc1c149afbf4c8996fb92427ae41e4649b934ca495991b7852b855"
  length_eq := by decide
  digits := by decide

/-- SHA-256 of an empty JSON object. -/
def ofObject : Digest where
  algorithm := "sha256"
  hex := "44136fa355b3678a1146ad16f7e8649e94fb4fc21fe77e8310c060f61caaff8a"
  length_eq := by decide
  digits := by decide

/-! ## Printing and parsing -/

theorem splitOnce_append {separator : Char} {before behind : String}
    (absent : separator ∉ before.toList) :
    splitOnce separator (before ++ String.singleton separator ++ behind) =
      some (before, behind) := by
  have differ : ∀ character ∈ before.toList, decide (character ≠ separator) = true := by
    intro character membership
    rw [decide_eq_true_eq]
    rintro rfl
    exact absent membership
  have spanned : (before.toList ++ separator :: behind.toList).span (· ≠ separator) =
      (before.toList, separator :: behind.toList) := by
    rw [List.span_eq_takeWhile_dropWhile, List.takeWhile_append_of_pos differ,
      List.dropWhile_append_of_pos differ]
    simp
  unfold splitOnce
  rw [show (before ++ String.singleton separator ++ behind).toList =
    before.toList ++ separator :: behind.toList by simp, spanned]
  simp

theorem separator_not_mem_algorithm : ':' ∉ digest.algorithm.toList := by
  rcases digest.algorithm_eq with known | known <;> rw [known] <;> decide

theorem isHexDigit_of_lower {digit : Char} (lower : digit ∈ lowerHexDigits) :
    isHexDigit digit = true := decide_eq_true (.inl lower)

theorem toLower_of_lower {digit : Char} (lower : digit ∈ lowerHexDigits) :
    digit.toLower = digit := by
  have every : lowerHexDigits.all (fun digit => digit.toLower = digit) = true := by
    decide +kernel
  exact of_decide_eq_true (List.all_eq_true.mp every digit lower)

theorem parse_asString : parse digest.asString = .ok digest := by
  have valid : hexLength digest.algorithm = some digest.hex.toList.length ∧
      digest.hex.toList.all isHexDigit = true :=
    ⟨digest.length_eq, List.all_eq_true.mpr fun digit membership =>
      isHexDigit_of_lower (digest.digit_mem digit membership)⟩
  have folded : digest.hex.toList.map Char.toLower = digest.hex.toList := by
    rw [List.map_congr_left fun digit membership =>
      toLower_of_lower (digest.digit_mem digit membership)]
    exact List.map_id' _
  have split : splitOnce ':' digest.asString = some (digest.algorithm, digest.hex) :=
    splitOnce_append (separator_not_mem_algorithm digest)
  have same : fold digest.algorithm digest.hex valid = digest :=
    ext_fields rfl (by simp [fold, folded])
  unfold parse
  simp only [split]
  rw [dif_pos valid, same]

end Digest

end Roci.Storage
