import Roci.Library.Bytes
import Mathlib.Data.List.Sort

/-!
# The order of byte strings

Byte strings are ordered lexicographically, a proper initial part first.  UTF-8
keeps the order of texts.  Strings without a zero byte, each followed by one,
compare part by part, so a tuple of such strings and its concatenation are
ordered alike.
-/

namespace Roci.Library

theorem Bytes.compare_eq_lt_iff (first second : Bytes) :
    compare first second = .lt ↔ first < second := by
  induction first generalizing second with
  | nil => cases second <;> simp
  | cons byte rest ih =>
    cases second with
    | nil => simp
    | cons other more =>
      rw [List.compare_cons_cons, List.cons_lt_cons_iff, ← ih,
        Ordering.then_eq_lt, Std.compare_eq_lt, Std.LawfulEqOrd.compare_eq_iff_eq]

theorem lt_append_of_lt {bytes front : Bytes} (less : bytes < front) (rest : Bytes) :
    bytes < front ++ rest := by
  induction bytes generalizing front with
  | nil =>
    cases front with
    | nil => exact absurd less (List.not_lt_nil _)
    | cons byte front => exact List.nil_lt_cons _ _
  | cons byte bytes ih =>
    rcases front with _ | ⟨other, front⟩
    · exact absurd less (List.not_lt_nil _)
    rw [List.cons_append, List.cons_lt_cons_iff]
    rcases List.cons_lt_cons_iff.mp less with differ | ⟨same, later⟩
    · exact .inl differ
    · exact .inr ⟨same, ih later⟩

/-! ## Texts -/

theorem lt_digits {low high : Nat} (less : low < high) :
    low / 262144 < high / 262144 ∨
      low / 262144 = high / 262144 ∧
        (low / 4096 % 64 < high / 4096 % 64 ∨
          low / 4096 % 64 = high / 4096 % 64 ∧
            (low / 64 % 64 < high / 64 % 64 ∨
              low / 64 % 64 = high / 64 % 64 ∧ low % 64 < high % 64)) := by
  have last : ∀ {low high : Nat}, low < high →
      low / 64 < high / 64 ∨ low / 64 = high / 64 ∧ low % 64 < high % 64 := by
    omega
  have shorter : ∀ value : Nat, value / 4096 = value / 64 / 64 ∧
      value / 262144 = value / 64 / 64 / 64 := by
    intro value
    simp only [Nat.div_div_eq_div_mul, and_self]
  rw [(shorter low).1, (shorter low).2, (shorter high).1, (shorter high).2]
  rcases last less with differ | ⟨same, differ⟩
  · rcases last differ with differ | ⟨same, differ⟩
    · rcases last differ with differ | ⟨same, differ⟩
      · exact .inl differ
      · exact .inr ⟨same, .inl differ⟩
    · exact .inr ⟨by rw [same], .inr ⟨by rw [same], .inl differ⟩⟩
  · exact .inr ⟨by rw [same], .inr ⟨by rw [same], .inr ⟨by rw [same], differ⟩⟩⟩

/-- The encodings of two characters first differ inside both of them, the
lesser character having the lesser byte there. -/
theorem utf8EncodeChar_append_lt {first second : Char} (less : first < second) (rest more : Bytes) :
    String.utf8EncodeChar first ++ rest < String.utf8EncodeChar second ++ more := by
  have values : first.val.toNat < second.val.toNat := less
  have bounded : second.val.toNat < 1114112 := by
    have valid := second.valid
    simp only [UInt32.isValidChar, Nat.isValidChar] at valid
    omega
  unfold String.utf8EncodeChar
  simp only
  generalize first.val.toNat = low at values
  generalize second.val.toNat = high at values bounded
  have digits := lt_digits values
  split_ifs <;>
    simp only [List.cons_append, List.nil_append, List.cons_lt_cons_iff, UInt8.lt_iff_toNat_lt,
      ← UInt8.toNat_inj, UInt8.toNat_ofNat'] <;>
    rcases digits with first | ⟨same, second | ⟨same, third | ⟨same, fourth⟩⟩⟩ <;>
    omega

theorem flatMap_utf8EncodeChar_lt {first second : List Char} (less : first < second) :
    first.flatMap String.utf8EncodeChar < second.flatMap String.utf8EncodeChar := by
  induction first generalizing second with
  | nil =>
    rcases second with _ | ⟨character, rest⟩
    · exact absurd less (List.not_lt_nil _)
    have positive := Char.utf8Size_pos character
    have width := String.length_utf8EncodeChar character
    cases encoded : String.utf8EncodeChar character with
    | nil => simp [encoded] at width; omega
    | cons byte more => simp [encoded]
  | cons character rest ih =>
    rcases second with _ | ⟨other, more⟩
    · exact absurd less (List.not_lt_nil _)
    rw [List.flatMap_cons, List.flatMap_cons]
    rcases List.cons_lt_cons_iff.mp less with differ | ⟨rfl, later⟩
    · exact utf8EncodeChar_append_lt differ _ _
    · exact List.append_left_lt (ih later)

/-- UTF-8 keeps the order of texts. -/
theorem utf8_lt_iff (first second : String) : utf8 first < utf8 second ↔ first < second := by
  have forward : ∀ {first second : String}, first < second → utf8 first < utf8 second := by
    intro first second less
    have encoded := flatMap_utf8EncodeChar_lt (String.lt_iff.mp less)
    rwa [← utf8_ofList, ← utf8_ofList, String.ofList_toList, String.ofList_toList] at encoded
  constructor
  · intro less
    by_contra notLess
    by_cases greater : second < first
    · exact List.lt_asymm less (forward greater)
    have same : first = second :=
      String.le_antisymm (String.not_lt.mp greater) (String.not_lt.mp notLess)
    exact List.lt_irrefl _ (same ▸ less)
  · exact forward

/-! ## Strings closed by a zero byte -/

theorem terminated_lt_iff {first second : Bytes} (clean : 0 ∉ first) (alsoClean : 0 ∉ second)
    (rest more : Bytes) :
    first ++ 0 :: rest < second ++ 0 :: more ↔ first < second ∨ first = second ∧ rest < more := by
  induction first generalizing second with
  | nil =>
    cases second with
    | nil => simp
    | cons byte tail =>
      have positive : 0 < byte := UInt8.pos_iff_ne_zero.mpr (by grind)
      simp [List.cons_lt_cons_iff, positive]
  | cons byte tail ih =>
    cases second with
    | nil =>
      have nonzero : byte ≠ 0 := by grind
      simp [List.cons_lt_cons_iff, nonzero]
    | cons other others =>
      have tails := @ih others (by grind) (by grind)
      simp only [List.cons_append, List.cons_lt_cons_iff, tails, List.cons.injEq]
      grind

theorem terminated_lt_cursor_iff {text : Bytes} (clean : 0 ∉ text) (cursor : Bytes) :
    text ++ [0] < cursor ++ [0, 0] ↔ ¬ cursor < text := by
  induction text generalizing cursor with
  | nil =>
    cases cursor with
    | nil => simp
    | cons byte tail =>
      by_cases zero : byte = 0
      · cases tail <;> simp [zero]
      · simp [List.cons_lt_cons_iff, UInt8.pos_iff_ne_zero.mpr zero]
  | cons byte tail ih =>
    have nonzero : byte ≠ 0 := by grind
    rcases cursor with _ | ⟨other, others⟩
    · simp [List.cons_lt_cons_iff, nonzero]
    have order : byte < other ∨ byte = other ∨ other < byte := by
      simp only [UInt8.lt_iff_toNat_lt, ← UInt8.toNat_inj]
      omega
    simp only [List.cons_append, List.cons_lt_cons_iff, ih (by grind) others]
    grind [UInt8.lt_asymm]

theorem terminated_inj {first second rest others : Bytes} (clean : 0 ∉ first)
    (alsoClean : 0 ∉ second) (same : first ++ 0 :: rest = second ++ 0 :: others) :
    first = second ∧ rest = others := by
  induction first generalizing second with
  | nil => cases second <;> simp_all
  | cons byte first ih => cases second <;> grind

/-- The strings from `front` closed by a zero up to `front` closed by a one are
those that begin with the first. -/
theorem between_terminated_iff (front bytes : Bytes) :
    ¬ bytes < front ++ [0] ∧ bytes < front ++ [1] ↔ front ++ [0] <+: bytes := by
  induction front generalizing bytes with
  | nil =>
    rcases bytes with _ | ⟨byte, tail⟩
    · simp
    have bits : byte < 1 ↔ byte = 0 := by
      rw [UInt8.lt_iff_toNat_lt, ← UInt8.toNat_inj]
      exact Nat.lt_one_iff
    simp [List.cons_lt_cons_iff, bits, eq_comm]
  | cons first front ih =>
    cases bytes with
    | nil => simp
    | cons byte tail =>
      have tails := ih tail
      simp only [List.cons_append, List.cons_lt_cons_iff, List.cons_prefix_cons]
      grind [UInt8.lt_asymm]

end Roci.Library
