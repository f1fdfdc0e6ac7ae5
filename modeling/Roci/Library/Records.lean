import Mathlib.Data.List.Infix

/-!
# Reading self-delimiting records off a string

A `RecordReader` takes one record from the front of a string, or stops.  It
must look only at what it consumes: text appended behind a record does not
change how the record is read.  `scan` reads records until the reader stops
and keeps the unread tail.

Two facts carry every argument about logs of records.  When a string is read
to its end, whatever is appended is read on its own (`scan_append`); and
cutting a string short only drops records from the end
(`records_append_extends`).
-/

namespace Roci.Library

universe u v

/-- A reader of one record, stable under appending. -/
structure RecordReader (Symbol : Type u) (Record : Type v) where
  read : List Symbol → Option (Record × List Symbol)
  shortens : ∀ {text record rest},
    read text = some (record, rest) → rest.length < text.length
  stable : ∀ {text record rest} (more : List Symbol),
    read text = some (record, rest) → read (text ++ more) = some (record, rest ++ more)

namespace RecordReader

variable {Symbol : Type u} {Record : Type v} (reader : RecordReader Symbol Record)

def scanAtMost : Nat → List Symbol → List Record × List Symbol
  | 0, text => ([], text)
  | fuel + 1, text =>
    match reader.read text with
    | none => ([], text)
    | some (record, rest) =>
      let scanned := scanAtMost fuel rest
      (record :: scanned.1, scanned.2)

/-- Read records until the reader stops: the records and the unread tail. -/
def scan (text : List Symbol) : List Record × List Symbol := reader.scanAtMost text.length text

def records (text : List Symbol) : List Record := (reader.scan text).1

/-- The part of `text` in which no further record could be read. -/
def tail (text : List Symbol) : List Symbol := (reader.scan text).2

variable {text : List Symbol}

theorem scanAtMost_of_stopped (stopped : reader.read text = none) (fuel : Nat) :
    reader.scanAtMost fuel text = ([], text) := by
  cases fuel with
  | zero => rfl
  | succ fuel => simp [scanAtMost, stopped]

theorem read_nil : reader.read [] = none := by
  cases found : reader.read [] with
  | none => rfl
  | some pair =>
    obtain ⟨record, rest⟩ := pair
    exact absurd (reader.shortens found) (Nat.not_lt_zero _)

/-- Every record consumes a symbol, so any fuel from the length of the text on
gives the same scan. -/
theorem scanAtMost_stable (text : List Symbol) (first second : Nat)
    (firstEnough : text.length ≤ first) (secondEnough : text.length ≤ second) :
    reader.scanAtMost first text = reader.scanAtMost second text := by
  induction first generalizing second text with
  | zero =>
    obtain rfl : text = [] := List.length_eq_zero_iff.mp (Nat.le_zero.mp firstEnough)
    rw [scanAtMost_of_stopped reader reader.read_nil, scanAtMost_of_stopped reader reader.read_nil]
  | succ first ih =>
    rcases found : reader.read text with _ | pair
    · rw [scanAtMost_of_stopped reader found, scanAtMost_of_stopped reader found]
    obtain ⟨record, rest⟩ := pair
    have shorter := reader.shortens found
    obtain _ | second := second
    · omega
    simp only [scanAtMost, found]
    rw [ih rest second (by omega) (by omega)]

theorem scan_of_stopped (stopped : reader.read text = none) : reader.scan text = ([], text) :=
  scanAtMost_of_stopped reader stopped _

theorem scan_of_read {rest : List Symbol} {record : Record}
    (found : reader.read text = some (record, rest)) :
    reader.scan text = (record :: reader.records rest, reader.tail rest) := by
  have shorter := reader.shortens found
  obtain ⟨fuel, enough⟩ : ∃ fuel, text.length = fuel + 1 := ⟨text.length - 1, by omega⟩
  have same : reader.scanAtMost fuel rest = reader.scan rest :=
    scanAtMost_stable reader rest _ _ (by omega) le_rfl
  simp only [scan, enough, scanAtMost, found, same]
  rfl

@[simp]
theorem records_nil : reader.records [] = [] := by
  simp [records, scan_of_stopped reader reader.read_nil]

@[simp]
theorem tail_nil : reader.tail [] = [] := by
  simp [tail, scan_of_stopped reader reader.read_nil]

/-- Induction along the records that are read off one by one. -/
@[elab_as_elim]
theorem scan_induction {motive : List Symbol → Prop} (text : List Symbol)
    (stop : ∀ text, reader.read text = none → motive text)
    (step : ∀ text record rest, reader.read text = some (record, rest) → motive rest →
      motive text) : motive text := by
  induction size : text.length using Nat.strong_induction_on generalizing text with
  | _ size ih =>
    rcases found : reader.read text with _ | ⟨record, rest⟩
    · exact stop text found
    · have shorter := reader.shortens found
      exact step text record rest found (ih rest.length (by omega) rest rfl)

/-- Scanning a string with something appended reads the same records first and
continues from the unread tail. -/
theorem scan_append (text more : List Symbol) :
    reader.scan (text ++ more) =
      (reader.records text ++ reader.records (reader.tail text ++ more),
        reader.tail (reader.tail text ++ more)) := by
  induction text using reader.scan_induction with
  | stop text found => simp [records, tail, scan_of_stopped reader found]
  | step text record rest found remaining =>
    have front := scan_of_read reader found
    have whole := scan_of_read reader (reader.stable more found)
    simp only [records, tail] at remaining whole front ⊢
    rw [whole, front, remaining]
    simp

theorem records_append (complete : reader.tail text = []) (more : List Symbol) :
    reader.records (text ++ more) = reader.records text ++ reader.records more := by
  have split := scan_append reader text more
  rw [complete] at split
  simp [records, split]

theorem tail_append (complete : reader.tail text = []) (more : List Symbol) :
    reader.tail (text ++ more) = reader.tail more := by
  have split := scan_append reader text more
  rw [complete] at split
  simp [tail, split]

theorem records_append_extends (text more : List Symbol) :
    reader.records text <+: reader.records (text ++ more) := by
  have split := scan_append reader text more
  refine ⟨reader.records (reader.tail text ++ more), ?_⟩
  simp [records, split]

theorem scan_single {record : Record} (found : reader.read text = some (record, [])) :
    reader.records text = [record] ∧ reader.tail text = [] := by
  have front := scan_of_read reader found
  constructor
  · simp [records, front]
    simpa [records] using reader.records_nil
  simp only [tail, front]
  exact reader.tail_nil

theorem scan_flatMap {Item : Type*} (encode : Item → List Symbol) (decode : Item → Record)
    (items : List Item)
    (readable : ∀ item ∈ items, reader.read (encode item) = some (decode item, [])) :
    reader.records (items.flatMap encode) = items.map decode ∧
      reader.tail (items.flatMap encode) = [] := by
  induction items with
  | nil => simp
  | cons item rest ih =>
    obtain ⟨single, complete⟩ := scan_single reader (readable item (by simp))
    obtain ⟨restRecords, restTail⟩ :=
      ih fun other membership => readable other (by simp [membership])
    rw [List.flatMap_cons, records_append reader complete, tail_append reader complete,
      single, restRecords, restTail]
    exact ⟨rfl, rfl⟩

theorem read_tail (text : List Symbol) : reader.read (reader.tail text) = none := by
  induction text using reader.scan_induction with
  | stop text found => rwa [tail, scan_of_stopped reader found]
  | step text record rest found remaining => rwa [tail, scan_of_read reader found]

/-- When reading inverts an encoding, a string is the encoding of its records
followed by its tail. -/
theorem flatMap_records_append_tail (encode : Record → List Symbol)
    (inverts : ∀ {text record rest}, reader.read text = some (record, rest) →
      text = encode record ++ rest) (text : List Symbol) :
    (reader.records text).flatMap encode ++ reader.tail text = text := by
  induction text using reader.scan_induction with
  | stop text found =>
    rw [records, tail, scan_of_stopped reader found]
    rfl
  | step text record rest found remaining =>
    rw [records, tail, scan_of_read reader found, List.flatMap_cons, List.append_assoc]
    simp only [remaining]
    exact (inverts found).symm

end RecordReader

end Roci.Library
