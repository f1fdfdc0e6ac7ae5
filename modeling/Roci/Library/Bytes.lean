import Mathlib.Data.List.Basic
import Mathlib.Data.UInt

/-!
# Byte strings

Byte strings are lists of bytes.  The file relates them to text (UTF-8, with
the lossy decoding of the Rust standard library) and to little-endian 32-bit
words.
-/

namespace Roci.Library

abbrev Bytes := List UInt8

def utf8 (text : String) : Bytes := text.toByteArray.data.toList

variable (bytes : Bytes)

/-- A byte string that is the encoding of some text. -/
def ValidUtf8 : Prop := ∃ text, utf8 text = bytes

theorem utf8_injective : Function.Injective utf8 := by
  intro first second same
  have arrays : first.toByteArray.data = second.toByteArray.data := Array.toList_inj.mp same
  exact String.toByteArray_inj.mp (ByteArray.ext arrays)

variable (characters : List Char)

theorem utf8_ofList :
    utf8 (String.ofList characters) = characters.flatMap String.utf8EncodeChar := by
  simp [utf8, String.toByteArray_ofList, List.utf8Encode]

theorem length_utf8_ofList_le :
    (utf8 (String.ofList characters)).length ≤ 4 * characters.length := by
  rw [utf8_ofList]
  induction characters with
  | nil => simp
  | cons character characters ih =>
    have width := Char.utf8Size_le_four character
    simp only [List.flatMap_cons, List.length_append, String.length_utf8EncodeChar,
      List.length_cons]
    omega

/-- The length of the ill-formed sequence at the front of `bytes`: as many
bytes as could still begin a character. -/
def invalidLength : Bytes → Nat
  | [] => 0
  | first :: rest =>
    let continuation (index : Nat) : Bool :=
      match rest[index]? with
      | some byte => 0x80 ≤ byte ∧ byte ≤ 0xBF
      | none => false
    let second (low high : UInt8) : Bool :=
      match rest[0]? with
      | some byte => low ≤ byte ∧ byte ≤ high
      | none => false
    let three (low high : UInt8) : Nat := if second low high then 2 else 1
    let four (low high : UInt8) : Nat :=
      if second low high then (if continuation 1 then 3 else 2) else 1
    if first = 0xE0 then three 0xA0 0xBF
    else if 0xE1 ≤ first ∧ first ≤ 0xEC then three 0x80 0xBF
    else if first = 0xED then three 0x80 0x9F
    else if 0xEE ≤ first ∧ first ≤ 0xEF then three 0x80 0xBF
    else if first = 0xF0 then four 0x90 0xBF
    else if 0xF1 ≤ first ∧ first ≤ 0xF3 then four 0x80 0xBF
    else if first = 0xF4 then four 0x80 0x8F
    else 1

/-- The characters of `String::from_utf8_lossy`, one per decoded character or
ill-formed sequence. -/
def lossyCharacters : Nat → Bytes → List Char
  | 0, _ => []
  | _ + 1, [] => []
  | fuel + 1, bytes =>
    match bytes.toByteArray.utf8DecodeChar? 0 with
    | some character =>
      character :: lossyCharacters fuel (bytes.drop character.utf8Size)
    | none => '�' :: lossyCharacters fuel (bytes.drop (invalidLength bytes))

def fromUtf8Lossy : String := String.ofList (lossyCharacters bytes.length bytes)

theorem lossyCharacters_encoded {fuel : Nat}
    (enough : (characters.flatMap String.utf8EncodeChar).length ≤ fuel) :
    lossyCharacters fuel (characters.flatMap String.utf8EncodeChar) = characters := by
  induction characters generalizing fuel with
  | nil => cases fuel <;> rfl
  | cons character rest ih =>
    have width := String.length_utf8EncodeChar character
    have positive := Char.utf8Size_pos character
    simp only [List.flatMap_cons, List.length_append, width] at enough ⊢
    obtain _ | fuel := fuel
    · omega
    have decoded :
        (String.utf8EncodeChar character ++
          rest.flatMap String.utf8EncodeChar).toByteArray.utf8DecodeChar? 0 = some character := by
      rw [List.toByteArray_append]
      exact ByteArray.utf8DecodeChar?_utf8EncodeChar_append
    rcases encoded : String.utf8EncodeChar character with _ | ⟨byte, more⟩
    · simp [encoded] at width; omega
    rw [encoded] at decoded width
    simp only [List.cons_append] at decoded ⊢
    simp only [lossyCharacters, decoded]
    rw [← List.cons_append, List.drop_left' width, ih (by omega)]

@[simp]
theorem fromUtf8Lossy_utf8 (text : String) : fromUtf8Lossy (utf8 text) = text := by
  obtain ⟨characters, rfl⟩ : ∃ characters, text = String.ofList characters := ⟨text.toList, by simp⟩
  rw [fromUtf8Lossy, utf8_ofList, lossyCharacters_encoded characters le_rfl]

/-- Decoding and encoding again is the identity exactly on UTF-8. -/
theorem utf8_fromUtf8Lossy_iff : utf8 (fromUtf8Lossy bytes) = bytes ↔ ValidUtf8 bytes := by
  constructor
  · intro same
    exact ⟨_, same⟩
  rintro ⟨text, rfl⟩
  rw [fromUtf8Lossy_utf8]

/-- `str::from_utf8`: the text a byte string encodes, if any. -/
def fromUtf8 : Option String :=
  let text := fromUtf8Lossy bytes
  if utf8 text = bytes then some text else none

@[simp]
theorem fromUtf8_utf8 (text : String) : fromUtf8 (utf8 text) = some text := by
  simp [fromUtf8]

/-- The four bytes of a word, least significant first.  Larger numbers are
truncated, as by a cast to `u32`. -/
def le32 (word : Nat) : Bytes :=
  [word.toUInt8, (word / 256).toUInt8, (word / 65536).toUInt8, (word / 16777216).toUInt8]

variable (b0 b1 b2 b3 : UInt8)

def fromLe32 : Nat := b0.toNat + 256 * b1.toNat + 65536 * b2.toNat + 16777216 * b3.toNat

def readLe32 : Bytes → Option (Nat × Bytes)
  | b0 :: b1 :: b2 :: b3 :: rest => some (fromLe32 b0 b1 b2 b3, rest)
  | _ => none

@[simp]
theorem length_le32 (word : Nat) : (le32 word).length = 4 := rfl

theorem fromLe32_le32 {word : Nat} (fits : word < 4294967296) :
    fromLe32 word.toUInt8 (word / 256).toUInt8 (word / 65536).toUInt8
      (word / 16777216).toUInt8 = word := by
  simp only [fromLe32, Nat.toUInt8, UInt8.toNat_ofNat']
  omega

theorem fromLe32_lt : fromLe32 b0 b1 b2 b3 < 4294967296 := by
  have low := b0.toNat_lt
  have second := b1.toNat_lt
  have third := b2.toNat_lt
  have high := b3.toNat_lt
  unfold fromLe32
  omega

theorem le32_fromLe32 : le32 (fromLe32 b0 b1 b2 b3) = [b0, b1, b2, b3] := by
  have low := b0.toNat_lt
  have second := b1.toNat_lt
  have third := b2.toNat_lt
  have high := b3.toNat_lt
  simp only [le32, fromLe32, List.cons.injEq, and_true, ← UInt8.toNat_inj, Nat.toUInt8,
    UInt8.toNat_ofNat']
  omega

theorem readLe32_eq_some_iff (bytes rest : Bytes) (word : Nat) :
    readLe32 bytes = some (word, rest) ↔ word < 4294967296 ∧ bytes = le32 word ++ rest := by
  constructor
  · intro found
    unfold readLe32 at found
    split at found
    · rename_i b0 b1 b2 b3 remaining
      cases found
      exact ⟨fromLe32_lt b0 b1 b2 b3, by rw [le32_fromLe32]; rfl⟩
    · cases found
  rintro ⟨fits, rfl⟩
  simp only [le32, readLe32, List.cons_append, List.nil_append, fromLe32_le32 fits]

/-- CRC-32C (Castagnoli), bit by bit. -/
def crc32c : UInt32 :=
  let shift (crc : UInt32) : UInt32 :=
    if crc &&& 1 = 1 then (crc >>> 1) ^^^ 0x82F63B78 else crc >>> 1
  let step (crc : UInt32) (byte : UInt8) : UInt32 :=
    (List.range 8).foldl (fun crc _ => shift crc) (crc ^^^ byte.toUInt32)
  ~~~ (bytes.foldl step 0xFFFFFFFF)

example : crc32c (utf8 "123456789") = 0xE3069283 := by decide +kernel

example : fromUtf8Lossy [0x61, 0xE2, 0x28, 0xC3, 0xA9] = "a\uFFFD(é" := by decide

end Roci.Library
