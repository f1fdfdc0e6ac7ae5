import Roci.Library.Json

/-!
# A reader of JSON text

A recursive descent reader over the characters of a text, and the proof that
it reads printed objects back: it is the `JsonReader` that concrete runs use.
-/

namespace Roci.Library.JsonText

open Json

def isSpace (character : Char) : Bool :=
  character = ' ' || character = '\t' || character = '\n' || character = '\r'

def skipSpace (text : List Char) : List Char := text.dropWhile isSpace

def hexValue (character : Char) : Option Nat :=
  if '0' ≤ character ∧ character ≤ '9' then some (character.toNat - '0'.toNat)
  else if 'a' ≤ character ∧ character ≤ 'f' then some (character.toNat - 'a'.toNat + 10)
  else if 'A' ≤ character ∧ character ≤ 'F' then some (character.toNat - 'A'.toNat + 10)
  else none

def readHex4 : List Char → Option (Nat × List Char)
  | a :: b :: c :: d :: rest => do
      let a ← hexValue a
      let b ← hexValue b
      let c ← hexValue c
      let d ← hexValue d
      some (((a * 16 + b) * 16 + c) * 16 + d, rest)
  | _ => none

/-- What follows a `\u`: one code unit, or a surrogate pair. -/
def readUnicode (text : List Char) : Option (Char × List Char) := do
  let (high, rest) ← readHex4 text
  if 0xD800 ≤ high ∧ high ≤ 0xDBFF then
    match rest with
    | '\\' :: 'u' :: rest => do
        let (low, rest) ← readHex4 rest
        if 0xDC00 ≤ low ∧ low ≤ 0xDFFF then
          some (Char.ofNat (0x10000 + (high - 0xD800) * 0x400 + (low - 0xDC00)), rest)
        else none
    | _ => none
  else if 0xDC00 ≤ high ∧ high ≤ 0xDFFF then none
  else some (Char.ofNat high, rest)

def readEscape : List Char → Option (Char × List Char)
  | [] => none
  | character :: rest =>
    if character = '"' then some ('"', rest)
    else if character = '\\' then some ('\\', rest)
    else if character = '/' then some ('/', rest)
    else if character = 'b' then some ('\x08', rest)
    else if character = 'f' then some ('\x0c', rest)
    else if character = 'n' then some ('\n', rest)
    else if character = 'r' then some ('\r', rest)
    else if character = 't' then some ('\t', rest)
    else if character = 'u' then readUnicode rest
    else none

def readString : Nat → List Char → Option (List Char × List Char)
  | 0, _ => none
  | _ + 1, [] => none
  | fuel + 1, character :: rest =>
    if character = '"' then some ([], rest)
    else if character = '\\' then do
      let (escaped, rest) ← readEscape rest
      let (more, rest) ← readString fuel rest
      some (escaped :: more, rest)
    else if character.toNat < 0x20 then none
    else do
      let (more, rest) ← readString fuel rest
      some (character :: more, rest)

def readFraction : List Char → Option (List Char × List Char)
  | '.' :: rest =>
    let digits := rest.takeWhile Char.isDigit
    if digits = [] then none else some ('.' :: digits, rest.dropWhile Char.isDigit)
  | text => some ([], text)

def readExponent : List Char → Option (List Char × List Char)
  | character :: rest =>
    if character = 'e' ∨ character = 'E' then
      let sign := rest.takeWhile fun next => next = '+' ∨ next = '-'
      let body := rest.dropWhile fun next => next = '+' ∨ next = '-'
      let digits := body.takeWhile Char.isDigit
      if digits = [] ∨ 1 < sign.length then none
      else some (character :: (sign ++ digits), body.dropWhile Char.isDigit)
    else some ([], character :: rest)
  | [] => some ([], [])

def readNumber (sign : List Char) (text : List Char) : Option (Json × List Char) := do
  let digits := text.takeWhile Char.isDigit
  if digits = [] ∨ (digits.head? = some '0' ∧ 1 < digits.length) then none
  else
    let (fraction, rest) ← readFraction (text.dropWhile Char.isDigit)
    let (exponent, rest) ← readExponent rest
    let value := Nat.ofDigitChars 10 digits 0
    if sign = [] ∧ fraction = [] ∧ exponent = [] ∧ value < 2 ^ 64 then
      some (.number value.toUInt64, rest)
    else some (.otherNumber (String.ofList (sign ++ digits ++ fraction ++ exponent)), rest)

mutual

def readValue : Nat → List Char → Option (Json × List Char)
  | 0, _ => none
  | fuel + 1, text =>
    match skipSpace text with
    | 'n' :: 'u' :: 'l' :: 'l' :: rest => some (.null, rest)
    | 't' :: 'r' :: 'u' :: 'e' :: rest => some (.bool true, rest)
    | 'f' :: 'a' :: 'l' :: 's' :: 'e' :: rest => some (.bool false, rest)
    | '"' :: rest => do
        let (characters, rest) ← readString (rest.length + 1) rest
        some (.string (String.ofList characters), rest)
    | '[' :: rest =>
      match skipSpace rest with
      | ']' :: rest => some (.array [], rest)
      | rest => do
          let (items, rest) ← readItems fuel rest
          some (.array items, rest)
    | '\x7b' :: rest =>
      match skipSpace rest with
      | '\x7d' :: rest => some (.object [], rest)
      | rest => do
          let (fields, rest) ← readFields fuel rest
          some (ofFields fields, rest)
    | '-' :: rest => readNumber ['-'] rest
    | rest => readNumber [] rest

def readItems : Nat → List Char → Option (List Json × List Char)
  | 0, _ => none
  | fuel + 1, text => do
      let (item, rest) ← readValue fuel text
      match skipSpace rest with
      | ',' :: rest => do
          let (items, rest) ← readItems fuel rest
          some (item :: items, rest)
      | ']' :: rest => some ([item], rest)
      | _ => none

def readFields : Nat → List Char → Option (List (String × Json) × List Char)
  | 0, _ => none
  | fuel + 1, text =>
    match skipSpace text with
    | '"' :: rest => do
        let (key, rest) ← readString (rest.length + 1) rest
        match skipSpace rest with
        | ':' :: rest => do
            let (value, rest) ← readValue fuel rest
            match skipSpace rest with
            | ',' :: rest => do
                let (fields, rest) ← readFields fuel rest
                some ((String.ofList key, value) :: fields, rest)
            | '\x7d' :: rest => some ([(String.ofList key, value)], rest)
            | _ => none
        | _ => none
    | _ => none

end

/-- Read a whole text: well-formed UTF-8 holding one value. -/
def parse (bytes : Bytes) : Option Json :=
  let text := fromUtf8Lossy bytes
  if utf8 text = bytes then
    match readValue (bytes.length + 1) text.toList with
    | some (value, rest) => if skipSpace rest = [] then some value else none
    | none => none
  else none

/-! ## Reading printed text -/

theorem skipSpace_cons (character : Char) (rest : List Char)
    (visible : isSpace character = false) : skipSpace (character :: rest) = character :: rest := by
  simp [skipSpace, visible]

theorem hexValue_digitChar : ∀ digit < 16, hexValue (Nat.digitChar digit) = some digit := by
  decide

variable {character : Char} {rest : List Char}

theorem readUnicode_control (control : character.toNat < 0x20) (rest : List Char) :
    readUnicode ('0' :: '0' :: Nat.digitChar (character.toNat / 16) ::
      Nat.digitChar (character.toNat % 16) :: rest) = some (character, rest) := by
  have high := hexValue_digitChar (character.toNat / 16) (by omega)
  have low := hexValue_digitChar (character.toNat % 16) (by omega)
  have zero : hexValue '0' = some 0 := by decide
  have value : ((0 * 16 + 0) * 16 + character.toNat / 16) * 16 + character.toNat % 16 =
      character.toNat := by omega
  have four : readHex4 ('0' :: '0' :: Nat.digitChar (character.toNat / 16) ::
      Nat.digitChar (character.toNat % 16) :: rest) = some (character.toNat, rest) := by
    simp only [readHex4, high, low, zero, Option.bind_eq_bind, Option.bind_some, value]
  have notHigh : ¬ (0xD800 ≤ character.toNat ∧ character.toNat ≤ 0xDBFF) := by omega
  have notLow : ¬ (0xDC00 ≤ character.toNat ∧ character.toNat ≤ 0xDFFF) := by omega
  simp only [readUnicode, four, Option.bind_eq_bind, Option.bind_some, if_neg notHigh,
    if_neg notLow, Char.ofNat_toNat]

theorem readString_escape (character : Char) (rest : List Char) (fuel : Nat) :
    readString (fuel + 1) (escape character ++ rest) =
      (readString fuel rest).bind fun more => some (character :: more.1, more.2) := by
  unfold escape
  split_ifs with quotation backslash backspace tab newline formFeed carriage control
  · subst quotation
    simp [readString, readEscape]
  · subst backslash
    simp [readString, readEscape]
  · subst backspace
    simp [readString, readEscape]
  · subst tab
    simp [readString, readEscape]
  · subst newline
    simp [readString, readEscape]
  · subst formFeed
    simp [readString, readEscape]
  · subst carriage
    simp [readString, readEscape]
  · have decoded := readUnicode_control control rest
    simp [readString, readEscape, decoded]
  · simp [readString, quotation, backslash, control]

theorem readString_quoted (characters rest : List Char) {fuel : Nat}
    (enough : characters.length < fuel) :
    readString fuel (characters.flatMap escape ++ '"' :: rest) = some (characters, rest) := by
  induction characters generalizing fuel with
  | nil =>
    obtain _ | fuel := fuel
    · omega
    simp [readString]
  | cons character characters ih =>
    simp only [List.length_cons] at enough
    obtain _ | fuel := fuel
    · omega
    rw [List.flatMap_cons, List.append_assoc, readString_escape, ih (by omega)]
    rfl

theorem length_le_flatMap_escape (characters : List Char) :
    characters.length ≤ (characters.flatMap escape).length := by
  induction characters with
  | nil => simp
  | cons character characters ih =>
    have nonempty : 1 ≤ (escape character).length := by
      unfold escape
      split_ifs <;> simp
    simp only [List.flatMap_cons, List.length_append, List.length_cons]
    omega

theorem readString_quote (text : String) (rest : List Char) :
    readString ((text.toList.flatMap escape ++ '"' :: rest).length + 1)
      (text.toList.flatMap escape ++ '"' :: rest) = some (text.toList, rest) := by
  apply readString_quoted
  have shorter := length_le_flatMap_escape text.toList
  simp only [List.length_append, List.length_cons]
  omega

theorem quote_append (text : String) (rest : List Char) :
    quote text ++ rest = '"' :: (text.toList.flatMap escape ++ '"' :: rest) := by
  simp [quote]

theorem eq_zero_of_digitChar : ∀ digit < 10, Nat.digitChar digit = '0' → digit = 0 := by
  decide

theorem toDigits_head (value : Nat) (leading : (Nat.toDigits 10 value).head? = some '0') :
    value = 0 := by
  induction value using Nat.strong_induction_on with
  | _ value ih =>
    rw [Nat.toDigits_eq_if (by omega)] at leading
    split at leading
    · rename_i small
      exact eq_zero_of_digitChar value small (by simpa using leading)
    rename_i large
    have nonempty := Nat.toDigits_ne_nil (b := 10) (n := value / 10)
    rw [List.head?_append_of_ne_nil _ nonempty] at leading
    have zero := ih (value / 10) (by omega) leading
    omega

inductive Delimited : List Char → Prop where
  | nothing : Delimited []
  | comma (rest : List Char) : Delimited (',' :: rest)
  | bracket (rest : List Char) : Delimited (']' :: rest)
  | brace (rest : List Char) : Delimited ('\x7d' :: rest)

theorem takeWhile_digits (value : Nat) (delimited : Delimited rest) :
    (Nat.toDigits 10 value ++ rest).takeWhile Char.isDigit = Nat.toDigits 10 value ∧
      (Nat.toDigits 10 value ++ rest).dropWhile Char.isDigit = rest := by
  have digits : ∀ character ∈ Nat.toDigits 10 value, character.isDigit = true :=
    fun character membership =>
      Nat.isDigit_of_mem_toDigits (by decide) (by decide) membership
  rw [List.takeWhile_append_of_pos digits, List.dropWhile_append_of_pos digits]
  cases delimited <;> constructor <;> simp [List.takeWhile, List.dropWhile, Char.isDigit]

theorem readNumber_toDigits (value : UInt64) (delimited : Delimited rest) :
    readNumber [] (Nat.toDigits 10 value.toNat ++ rest) = some (.number value, rest) := by
  obtain ⟨taken, dropped⟩ := takeWhile_digits value.toNat delimited
  have nonempty := Nat.toDigits_ne_nil (b := 10) (n := value.toNat)
  have canonical : ¬ (Nat.toDigits 10 value.toNat = [] ∨
      ((Nat.toDigits 10 value.toNat).head? = some '0' ∧
        1 < (Nat.toDigits 10 value.toNat).length)) := by
    rintro (empty | ⟨leading, long⟩)
    · exact nonempty empty
    rw [toDigits_head _ leading] at long
    simp at long
  have fraction : readFraction rest = some ([], rest) := by cases delimited <;> rfl
  have exponent : readExponent rest = some ([], rest) := by
    cases delimited <;> simp [readExponent]
  have bounded : value.toNat < 2 ^ 64 := value.toNat_lt
  simp only [readNumber, taken, dropped, if_neg canonical, fraction, exponent,
    Option.bind_eq_bind, Option.bind_some, Nat.ofDigitChars_ten_toDigits, true_and,
    if_pos bounded]
  simp

/-- A character no space, and not the end of an array or object. -/
def Opening (character : Char) : Prop :=
  isSpace character = false ∧ character ≠ ']' ∧ character ≠ '\x7d'

theorem opening_of_isDigit (digit : character.isDigit = true) : Opening character := by
  refine ⟨?_, ?_, ?_⟩
  · cases spaced : isSpace character with
    | false => rfl
    | true =>
      simp only [isSpace, Bool.or_eq_true, decide_eq_true_eq] at spaced
      rcases spaced with ((rfl | rfl) | rfl) | rfl <;> simp [Char.isDigit] at digit
  · rintro rfl
    simp [Char.isDigit] at digit
  rintro rfl
  simp [Char.isDigit] at digit

theorem readValue_digit (digit : character.isDigit = true) (rest : List Char) (fuel : Nat) :
    readValue (fuel + 1) (character :: rest) = readNumber [] (character :: rest) := by
  simp only [readValue, skipSpace_cons _ _ (opening_of_isDigit digit).1]
  split <;> first
    | rfl
    | (rename_i shape
       cases shape
       simp [Char.isDigit] at digit)

theorem readValue_quote (text : String) (rest : List Char) (fuel : Nat) :
    readValue (fuel + 1) (quote text ++ rest) = some (.string text, rest) := by
  rw [quote_append, readValue, skipSpace_cons '"' _ rfl]
  simp only [readString_quote, Option.bind_eq_bind, Option.bind_some, String.ofList_toList]

/-- The printed value is read back, with its objects sorted. -/
def ReadsBack (value : Json) : Prop :=
  ∀ rest fuel, Delimited rest → (render value).length < fuel →
    readValue fuel (render value ++ rest) = some (value.normal, rest)

theorem toDigits_cons (value : Nat) :
    ∃ digit more, Nat.toDigits 10 value = digit :: more ∧ digit.isDigit = true := by
  cases digits : Nat.toDigits 10 value with
  | nil => exact absurd digits (Nat.toDigits_ne_nil (b := 10))
  | cons digit more =>
    exact ⟨digit, more, rfl, Nat.isDigit_of_mem_toDigits (b := 10) (n := value) (by decide)
      (by decide) (by simp [digits])⟩

theorem render_head {value : Json} (plain : value.Plain) :
    ∃ character more, render value = character :: more ∧ Opening character := by
  cases plain with
  | bool value => cases value <;> exact ⟨_, _, rfl, by decide, by decide, by decide⟩
  | number value =>
    obtain ⟨digit, more, digits, isDigit⟩ := toDigits_cons value.toNat
    exact ⟨digit, more, by rw [render, digits], opening_of_isDigit isDigit⟩
  | _ => exact ⟨_, _, rfl, by decide, by decide, by decide⟩

theorem renderItems_head {item : Json} (plain : item.Plain) (items : List Json) :
    ∃ character more, renderItems (item :: items) = character :: more ∧ Opening character := by
  obtain ⟨character, more, rendered, opening⟩ := render_head plain
  cases items with
  | nil => exact ⟨character, more, rendered, opening⟩
  | cons next rest =>
    exact ⟨character, more ++ ',' :: renderItems (next :: rest),
      by rw [renderItems, rendered, List.cons_append]; simp, opening⟩

theorem renderFields_head (field : String × Json) (fields : List (String × Json)) :
    ∃ body, renderFields (field :: fields) = '"' :: body := by
  obtain ⟨key, value⟩ := field
  cases fields <;> simp [renderFields, quote]

theorem readItems_back (item : Json) (items : List Json)
    (back : ∀ member ∈ item :: items, ReadsBack member) (rest : List Char) (fuel : Nat)
    (enough : (renderItems (item :: items)).length + 1 < fuel) :
    readItems fuel (renderItems (item :: items) ++ ']' :: rest) =
      some (normalItems (item :: items), rest) := by
  induction items generalizing item fuel with
  | nil =>
    obtain _ | fuel := fuel
    · omega
    simp only [renderItems] at enough ⊢
    have read := back item (by simp) (']' :: rest) fuel (.bracket rest) (by omega)
    rw [readItems, read]
    simp only [Option.bind_eq_bind, Option.bind_some, skipSpace_cons ']' _ rfl, normalItems]
  | cons next items ih =>
    obtain _ | fuel := fuel
    · omega
    simp only [renderItems, List.length_append, List.length_cons, List.append_assoc,
      List.cons_append] at enough ⊢
    have read := back item (by simp) (',' :: (renderItems (next :: items) ++ ']' :: rest)) fuel
      (.comma _) (by omega)
    have remaining := ih next
      (fun member membership => back member (List.mem_cons_of_mem _ membership)) fuel (by omega)
    rw [readItems, read]
    simp only [Option.bind_eq_bind, Option.bind_some, skipSpace_cons ',' _ rfl, remaining,
      normalItems]

theorem readFields_back (field : String × Json) (fields : List (String × Json))
    (back : ∀ member ∈ field :: fields, ReadsBack member.2) (rest : List Char) (fuel : Nat)
    (enough : (renderFields (field :: fields)).length < fuel) :
    readFields fuel (renderFields (field :: fields) ++ '\x7d' :: rest) =
      some (normalFields (field :: fields), rest) := by
  induction fields generalizing field fuel with
  | nil =>
    obtain ⟨key, value⟩ := field
    obtain _ | fuel := fuel
    · omega
    simp only [renderFields, List.length_append, List.length_cons] at enough
    have read := back (key, value) (by simp) ('\x7d' :: rest) fuel (.brace rest)
      (by simp only; omega)
    simp only [renderFields, List.append_assoc, List.cons_append]
    rw [quote_append, readFields, skipSpace_cons '"' _ rfl]
    simp only [readString_quote, Option.bind_eq_bind, Option.bind_some,
      skipSpace_cons ':' _ rfl, read, skipSpace_cons '\x7d' _ rfl, String.ofList_toList,
      normalFields]
  | cons next fields ih =>
    obtain ⟨key, value⟩ := field
    obtain _ | fuel := fuel
    · omega
    simp only [renderFields, List.length_append, List.length_cons] at enough
    have remaining := ih next
      (fun member membership => back member (List.mem_cons_of_mem _ membership))
      fuel (by omega)
    have read := back (key, value) (by simp)
      (',' :: (renderFields (next :: fields) ++ '\x7d' :: rest)) fuel (.comma _)
      (by simp only; omega)
    simp only [renderFields, List.append_assoc, List.cons_append]
    rw [quote_append, readFields, skipSpace_cons '"' _ rfl]
    simp only [readString_quote, Option.bind_eq_bind, Option.bind_some,
      skipSpace_cons ':' _ rfl, read, skipSpace_cons ',' _ rfl, remaining,
      String.ofList_toList, normalFields]

/-- Every printed value whose numbers fit is read back. -/
theorem readsBack {value : Json} (plain : value.Plain) : ReadsBack value := by
  induction plain with
  | null =>
    intro rest fuel _ enough
    obtain _ | fuel := fuel
    · omega
    rfl
  | bool value =>
    intro rest fuel _ enough
    obtain _ | fuel := fuel
    · omega
    cases value <;> rfl
  | number value =>
    intro rest fuel delimited enough
    obtain _ | fuel := fuel
    · omega
    have number := readNumber_toDigits value delimited
    obtain ⟨digit, more, digits, isDigit⟩ := toDigits_cons value.toNat
    rw [digits] at number
    rw [render, digits, List.cons_append, readValue_digit isDigit]
    exact number
  | string text =>
    intro rest fuel _ enough
    obtain _ | fuel := fuel
    · omega
    exact readValue_quote text rest fuel
  | @array items every ih =>
    intro rest fuel _ enough
    obtain _ | fuel := fuel
    · omega
    simp only [render, List.length_cons, List.length_append, List.length_nil] at enough
    simp only [render, List.cons_append, List.append_assoc, List.nil_append]
    rw [readValue, skipSpace_cons '[' _ rfl]
    rcases items with _ | ⟨item, items⟩
    · rfl
    obtain ⟨character, more, rendered, visible, notEnd, _⟩ :=
      renderItems_head (every item (by simp)) items
    have read := readItems_back item items ih rest fuel (by omega)
    rw [rendered] at read ⊢
    simp only [List.cons_append] at read ⊢
    rw [skipSpace_cons _ _ visible]
    simp [read, notEnd, normal]
  | @object fields every ih =>
    intro rest fuel _ enough
    obtain _ | fuel := fuel
    · omega
    simp only [render, List.length_cons, List.length_append, List.length_nil] at enough
    simp only [render, List.cons_append, List.append_assoc, List.nil_append]
    rw [readValue, skipSpace_cons '\x7b' _ rfl]
    rcases fields with _ | ⟨field, fields⟩
    · rfl
    obtain ⟨body, head⟩ := renderFields_head field fields
    have read := readFields_back field fields ih rest fuel (by omega)
    rw [head] at read ⊢
    simp only [List.cons_append] at read ⊢
    simp [skipSpace_cons '"' _ rfl, read, normal]

theorem length_le_length_encoded (characters : List Char) :
    characters.length ≤ (characters.flatMap String.utf8EncodeChar).length := by
  induction characters with
  | nil => simp
  | cons character characters ih =>
    have positive := Char.utf8Size_pos character
    simp only [List.flatMap_cons, List.length_append, List.length_cons,
      String.length_utf8EncodeChar]
    omega

/-- A printed value whose numbers fit is parsed, with its objects sorted. -/
theorem parse_print_plain {value : Json} (plain : value.Plain) :
    parse (Json.print value) = some value.normal := by
  have shorter := length_le_length_encoded (render value)
  have read := readsBack plain [] ((utf8 (String.ofList (render value))).length + 1) .nothing (by
    rw [utf8_ofList]
    omega)
  rw [List.append_nil] at read
  simp only [parse, Json.print, fromUtf8Lossy_utf8, if_true, String.toList_ofList, read]
  rfl

theorem parse_print (fields : List (String × Json)) (flat : ∀ field ∈ fields, field.2.Flat) :
    parse (Json.print (.object fields)) = some (ofFields fields) := by
  rw [parse_print_plain (.object fun field membership => (flat field membership).plain),
    Json.normal, Json.normalFields_flat flat]

def reader : JsonReader where
  parse := parse
  parse_print := parse_print

theorem reader_parse : reader.parse = parse := rfl

end Roci.Library.JsonText
