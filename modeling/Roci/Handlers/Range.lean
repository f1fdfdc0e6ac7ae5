import Roci.Handlers.Routes

/-!
# Byte ranges

A `Range` header is read as one range of bytes or ignored, and the range is cut to
the size of the blob.  The reader is more lenient than the grammar about signs and
blanks and stricter about capitals and large numbers, and it computes the last byte
of a suffix before it looks whether there is one.
-/

namespace Roci.Handlers

open Roci.Manifests (isWhitespace)

inductive ByteRange where
  | between (first last : Nat) (ordered : first ≤ last)
  | starting (first : Nat)
  | suffix (length : Nat)

inductive RangeOutcome where
  | full
  | partialRange (start stop : Nat)
  | unsatisfiable
deriving DecidableEq

/-- What stands before and behind the dash of a single range. -/
def rangeSides (raw : String) : Option (List Char × List Char) :=
  match raw.toList with
  | 'b' :: 'y' :: 't' :: 'e' :: 's' :: '=' :: spec =>
    if ',' ∈ spec then none
    else
      match spec.dropWhile (· ≠ '-') with
      | [] => none
      | _ :: stop => some (spec.takeWhile (· ≠ '-'), stop)
  | _ => none

/-- The numbers before and behind the dash, where there are any. -/
def ofSides : Option Nat → Option Nat → Option ByteRange
  | none, some length => some (.suffix length)
  | some start, none => some (.starting start)
  | some start, some stop =>
    if ordered : start ≤ stop then some (.between start stop ordered) else none
  | none, none => none

def readRange (number : List Char → Option (Option Nat)) (header : Option String) :
    Option ByteRange := do
  let (before, behind) ← rangeSides (← header)
  ofSides (← number before) (← number behind)

variable (text : List Char)

/-- A number as `parse_byte_range` reads it. -/
def trimmedNumber : Option (Option Nat) :=
  if trimChars text = [] then some none else (parseU64 (trimChars text)).map some

def cutTo (size start stop : Nat) : RangeOutcome :=
  if size = 0 ∨ size ≤ start then .unsatisfiable else .partialRange start stop

/-- `none` where `size - 1` underflows; the other subtractions saturate. -/
def ByteRange.outcome (size : Nat) : ByteRange → Option RangeOutcome
  | .suffix length =>
    if length = 0 then some .unsatisfiable
    else if size = 0 then none
    else some (cutTo size (size - length) (size - 1))
  | .starting start => some (cutTo size start (size - 1))
  | .between start stop _ => some (cutTo size start (min stop (size - 1)))

variable (header : Option String)

/-- A header that is absent or no text is `none`. -/
def parseByteRange (size : Nat) : Option RangeOutcome :=
  match readRange trimmedNumber header with
  | none => some .full
  | some range => range.outcome size

/-! ## What RFC 9110 asks for -/

/-- Decimal digits. -/
def digitsNumber : Option (Option Nat) :=
  if text = [] then some none
  else if text.all Char.isDigit then
    some (some (text.foldl (fun value digit => 10 * value + (digit.toNat - 48)) 0))
  else none

/-- The name of the unit is read without regard to case. -/
def smallUnit (raw : String) : String :=
  String.ofList ((raw.toList.take 5).map Char.toLower ++ raw.toList.drop 5)

def namedRange : Option ByteRange := readRange digitsNumber (header.map smallUnit)

/-- The first byte selected and the one behind the last. -/
def ByteRange.bounds (size : Nat) : ByteRange → Nat × Nat
  | .between first last _ => (first, min (last + 1) size)
  | .starting first => (first, size)
  | .suffix length => (size - length, size)

def ByteRange.selected (size : Nat) (range : ByteRange) : RangeOutcome :=
  if (range.bounds size).2 ≤ (range.bounds size).1 then .unsatisfiable
  else .partialRange (range.bounds size).1 ((range.bounds size).2 - 1)

def selectedOutcome (size : Nat) : RangeOutcome :=
  (namedRange header).elim .full (ByteRange.selected size)

/-! ## What is read -/

/-- A text that is blank, or a number below `2 ^ 64` with blanks around it and
perhaps a sign. -/
def Padded (read : Option Nat) : Prop :=
  ∃ front core back, text = front ++ core ++ back ∧ front.all isWhitespace = true ∧
    back.all isWhitespace = true ∧
    (core = [] ∧ read = none ∨ ∃ digits value, (core = digits ∨ core = '+' :: digits) ∧
      digitsNumber digits = some (some value) ∧ value < 2 ^ 64 ∧ read = some value)

/-- The unit in small letters, and two such texts around the dash. -/
def PaddedRange (raw : String) (range : ByteRange) : Prop :=
  ∃ before behind first last,
    raw.toList = 'b' :: 'y' :: 't' :: 'e' :: 's' :: '=' :: (before ++ '-' :: behind) ∧
    '-' ∉ before ∧ ',' ∉ before ++ behind ∧ Padded before first ∧ Padded behind last ∧
    ofSides first last = some range

theorem digitsNumber_eq_some_iff {digits : List Char} {value : Nat} :
    digitsNumber digits = some (some value) ↔ digits ≠ [] ∧ digits.all Char.isDigit = true ∧
      digits.foldl (fun value digit => 10 * value + (digit.toNat - 48)) 0 = value := by
  unfold digitsNumber
  split
  · simp_all
  split <;> simp_all

theorem visible_of_digits {digits : List Char} {value : Nat}
    (named : digitsNumber digits = some (some value)) :
    ∀ digit ∈ digits, digit ≠ '+' ∧ isWhitespace digit = false := by
  intro digit listed
  have isDigit := List.all_eq_true.mp (digitsNumber_eq_some_iff.mp named).2.1 digit listed
  refine ⟨?_, Bool.eq_false_iff.mpr fun blank => ?_⟩
  · rintro rfl
    cases isDigit
  simp [isWhitespace, Char.isDigit, UInt32.le_iff_toNat_le] at blank isDigit
  omega

theorem parseU64_eq_some_iff {text : List Char} {value : Nat} :
    parseU64 text = some value ↔ ∃ digits, (text = digits ∨ text = '+' :: digits) ∧
      digitsNumber digits = some (some value) ∧ value < 2 ^ 64 := by
  have unsigned : ∀ digits, digitsNumber digits = some (some value) → digits.head? ≠ some '+' :=
    fun digits named sign => (visible_of_digits named _ (List.mem_of_head? sign)).1 rfl
  unfold parseU64
  constructor
  · intro parsed
    refine ⟨if text.head? = some '+' then text.drop 1 else text, ?_, ?_⟩
    · rcases text with _ | ⟨first, rest⟩ <;> grind
    · grind [digitsNumber_eq_some_iff]
  · rintro ⟨digits, rfl | rfl, named, small⟩
    · grind [digitsNumber_eq_some_iff]
    · grind [digitsNumber_eq_some_iff]

theorem trimChars_padded {front core back : List Char} (before : front.all isWhitespace = true)
    (behind : back.all isWhitespace = true)
    (visible : ∀ character ∈ core, isWhitespace character = false) :
    trimChars (front ++ core ++ back) = core := by
  rw [trimChars, List.append_assoc, List.dropWhile_append_of_pos (List.all_eq_true.mp before)]
  rcases core with _ | ⟨first, rest⟩
  · rw [List.nil_append, List.dropWhile_eq_nil_iff.mpr (List.all_eq_true.mp behind)]
    rfl
  have stays : (first :: rest ++ back).dropWhile isWhitespace = first :: rest ++ back := by
    rw [List.cons_append, List.dropWhile_cons_of_neg (by simp [visible first])]
  have all : (first :: rest).reverse.dropWhile isWhitespace = (first :: rest).reverse :=
    List.dropWhile_eq_self_iff.mpr fun _ => by
      rw [visible _ (List.mem_reverse.mp (List.getElem_mem _))]
      exact Bool.false_ne_true
  rw [stays, List.reverse_append, List.dropWhile_append_of_pos, all, List.reverse_reverse]
  exact fun character listed => List.all_eq_true.mp behind character (List.mem_reverse.mp listed)

theorem exists_trimChars :
    ∃ front back, text = front ++ trimChars text ++ back ∧ front.all isWhitespace = true ∧
      back.all isWhitespace = true := by
  let shown := text.dropWhile isWhitespace
  refine ⟨text.takeWhile isWhitespace, (shown.reverse.takeWhile isWhitespace).reverse, ?_,
    List.all_takeWhile, by rw [List.all_reverse]; exact List.all_takeWhile⟩
  rw [trimChars, List.append_assoc, ← List.reverse_append, List.takeWhile_append_dropWhile,
    List.reverse_reverse, List.takeWhile_append_dropWhile]

theorem trimmedNumber_eq_some_iff {text : List Char} {read : Option Nat} :
    trimmedNumber text = some read ↔ Padded text read := by
  constructor
  · intro trimmed
    obtain ⟨front, back, split, before, behind⟩ := exists_trimChars text
    refine ⟨front, trimChars text, back, split, before, behind, ?_⟩
    unfold trimmedNumber at trimmed
    split at trimmed
    · exact .inl ⟨‹_›, (Option.some.inj trimmed).symm⟩
    · obtain ⟨value, parsed, rfl⟩ := Option.map_eq_some_iff.mp trimmed
      obtain ⟨digits, signed, named, small⟩ := parseU64_eq_some_iff.mp parsed
      exact .inr ⟨digits, value, signed, named, small, rfl⟩
  · rintro ⟨front, core, back, rfl, before, behind, ⟨rfl, rfl⟩ | ⟨digits, value, signed, named,
      small, rfl⟩⟩
    · rw [trimmedNumber, trimChars_padded before behind (by simp)]
      rfl
    have visible : ∀ character ∈ core, isWhitespace character = false := by
      rcases signed with rfl | rfl
      · exact fun digit listed => (visible_of_digits named digit listed).2
      · exact List.forall_mem_cons.mpr
          ⟨rfl, fun digit listed => (visible_of_digits named digit listed).2⟩
    have shown : core ≠ [] := by
      rcases signed with rfl | rfl
      · exact (digitsNumber_eq_some_iff.mp named).1
      · exact List.cons_ne_nil _ _
    rw [trimmedNumber, trimChars_padded before behind visible, if_neg shown,
      parseU64_eq_some_iff.mpr ⟨digits, signed, named, small⟩]
    rfl

theorem parted_at_dash_iff {spec before behind : List Char} :
    spec.takeWhile (· ≠ '-') = before ∧ spec.dropWhile (· ≠ '-') = '-' :: behind ↔
      spec = before ++ '-' :: behind ∧ '-' ∉ before := by
  constructor
  · rintro ⟨rfl, rest⟩
    refine ⟨by rw [← rest, List.takeWhile_append_dropWhile], fun dash => ?_⟩
    simpa using List.mem_takeWhile_imp dash
  · rintro ⟨rfl, absent⟩
    have none : ∀ character ∈ before, decide (character ≠ '-') = true := fun character listed =>
      decide_eq_true fun dash => absent (dash ▸ listed)
    rw [List.takeWhile_append_of_pos none, List.dropWhile_append_of_pos none]
    simp

theorem rangeSides_eq_some_iff {raw : String} {before behind : List Char} :
    rangeSides raw = some (before, behind) ↔
      raw.toList = 'b' :: 'y' :: 't' :: 'e' :: 's' :: '=' :: (before ++ '-' :: behind) ∧
        '-' ∉ before ∧ ',' ∉ before ++ behind := by
  unfold rangeSides
  split
  · rename_i spec same
    simp only [same, List.cons.injEq, true_and]
    rw [← and_assoc]
    constructor
    · intro parted
      split at parted
      · cases parted
      rename_i single
      have dash := List.head?_dropWhile_not (· ≠ '-') spec
      split at parted
      · cases parted
      rename_i first stop rest
      rw [rest] at dash
      obtain rfl : first = '-' := by simpa using dash
      cases parted
      have parts := parted_at_dash_iff.mp ⟨rfl, rest⟩
      refine ⟨parts, fun comma => single ?_⟩
      rw [parts.1, List.mem_append, List.mem_cons]
      exact (List.mem_append.mp comma).imp_right .inr
    · rintro ⟨⟨rfl, absent⟩, single⟩
      obtain ⟨taken, dropped⟩ := parted_at_dash_iff.mpr ⟨rfl, absent⟩
      rw [if_neg (by simpa using single), dropped]
      exact congrArg (fun before => some (before, behind)) taken
  · rename_i other
    exact iff_of_false (by simp) fun named => other _ named.1

theorem readRange_eq_some_iff {number : List Char → Option (Option Nat)} {raw : String}
    {range : ByteRange} : readRange number (some raw) = some range ↔
      ∃ before behind first last, rangeSides raw = some (before, behind) ∧
        number before = some first ∧ number behind = some last ∧
        ofSides first last = some range := by
  simp only [readRange, Option.bind_eq_bind, Option.bind_some, Option.bind_eq_some_iff, Prod.exists]
  grind

theorem readRange_trimmed_iff {raw : String} {range : ByteRange} :
    readRange trimmedNumber (some raw) = some range ↔ PaddedRange raw range := by
  simp only [readRange_eq_some_iff, trimmedNumber_eq_some_iff, rangeSides_eq_some_iff, PaddedRange,
    and_assoc]

theorem ByteRange.outcome_eq_iff (range : ByteRange) (size : Nat) :
    range.outcome size = some (range.selected size) ↔
      ∀ length, range = .suffix length → size = 0 → length = 0 := by
  cases range <;> grind [outcome, selected, bounds, cutTo]

theorem ByteRange.within_of_outcome {range : ByteRange} {size : Nat} {outcome : RangeOutcome}
    (computed : range.outcome size = some outcome) : outcome ≠ .full ∧
      ∀ start stop, outcome = .partialRange start stop → start ≤ stop ∧ stop < size := by
  cases range <;> grind [ByteRange.outcome, cutTo]

theorem number_unique {text : List Char} {read named : Option Nat}
    (trimmed : trimmedNumber text = some read) (digits : digitsNumber text = some named) :
    read = named := by
  cases named with
  | none =>
    obtain rfl : text = [] := by grind [digitsNumber]
    exact (Option.some.inj trimmed).symm
  | some value =>
    -- the text is nothing but digits, so there is neither a blank nor a sign
    obtain ⟨front, core, back, rfl, before, behind, held⟩ := trimmedNumber_eq_some_iff.mp trimmed
    have visible := visible_of_digits digits
    have noBlank : ∀ blanks : List Char, blanks.all isWhitespace = true →
        (∀ blank ∈ blanks, blank ∈ front ++ core ++ back) → blanks = [] := by
      intro blanks all within
      refine List.eq_nil_iff_forall_not_mem.mpr fun blank listed => ?_
      have shown := (visible blank (within blank listed)).2
      rw [List.all_eq_true.mp all blank listed] at shown
      cases shown
    obtain rfl := noBlank front before (by simp_all)
    obtain rfl := noBlank back behind (by simp_all)
    rcases held with ⟨rfl, rfl⟩ | ⟨core, value, rfl | rfl, named, _, rfl⟩
    · cases digits
    · simpa [named] using digits
    · exact absurd rfl (visible '+' (by simp)).1

theorem smallUnit_of_padded {raw : String} {range : ByteRange} (padded : PaddedRange raw range) :
    smallUnit raw = raw := by
  obtain ⟨before, behind, _, _, shape, _⟩ := padded
  have unit : smallUnit raw = String.ofList raw.toList := by
    rw [smallUnit, shape]
    rfl
  rw [unit, String.ofList_toList]

/-- What is read as a range and names one is read as that one. -/
theorem namedRange_unique {raw : String} {read named : ByteRange}
    (trimmed : readRange trimmedNumber (some raw) = some read)
    (digits : namedRange (some raw) = some named) : read = named := by
  rw [namedRange, Option.map_some, smallUnit_of_padded (readRange_trimmed_iff.mp trimmed),
    readRange_eq_some_iff] at digits
  obtain ⟨before, behind, first, last, sides, beforeRead, behindRead, made⟩ :=
    readRange_eq_some_iff.mp trimmed
  obtain ⟨_, _, _, _, same, beforeNamed, behindNamed, named⟩ := digits
  cases sides.symm.trans same
  rw [← number_unique beforeRead beforeNamed, ← number_unique behindRead behindNamed] at named
  exact Option.some.inj (made.symm.trans named)

/-- The outcome is the one RFC 9110 asks for, without an underflow, exactly when the
header names a range if it is one with blanks and signs allowed, numbers below
`2 ^ 64` and the unit in small letters, and only then, and no suffix is taken of an
empty blob.  A part that is answered always lies within the blob. -/
theorem byte_range_right_iff (size : Nat) :
    (parseByteRange header size = some (selectedOutcome header size) ↔
      ((∃ range, namedRange header = some range) ↔ ∃ raw ∈ header, ∃ range, PaddedRange raw range) ∧
        ∀ length, namedRange header = some (.suffix length) → size = 0 → length = 0) ∧
    ∀ start stop, parseByteRange header size = some (.partialRange start stop) →
      start ≤ stop ∧ stop < size := by
  rcases header with _ | raw
  · simp [parseByteRange, selectedOutcome, namedRange, readRange]
  simp only [Option.mem_some_iff, exists_eq_left', ← readRange_trimmed_iff]
  unfold parseByteRange selectedOutcome
  cases read : readRange trimmedNumber (some raw) with
  | none =>
    cases namedRange (some raw) with
    | none => simp
    | some range =>
      have named : range.selected size ≠ .full := by grind [ByteRange.selected]
      simp [named.symm]
  | some range =>
    refine ⟨?_, fun _ _ computed => (ByteRange.within_of_outcome computed).2 _ _ rfl⟩
    cases named : namedRange (some raw) with
    | none => simpa using fun computed => (ByteRange.within_of_outcome computed).1 rfl
    | some other =>
      obtain rfl := namedRange_unique read named
      simpa using range.outcome_eq_iff size

theorem suffix_of_nothing_underflows :
    parseByteRange (some "bytes=-5") 0 ≠ some (selectedOutcome (some "bytes=-5") 0) := by
  decide +kernel

end Roci.Handlers
