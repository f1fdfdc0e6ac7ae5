import Roci.Manifests.Push

/-!
# How deep a document nests

The depth check looks at one byte at a time.  It is compared with the grammar of
JSON, taken generously: numbers and literals are words of their characters, a
backslash escapes whatever follows, and a last comma does no harm.
-/

namespace Roci.Manifests

open Roci.Library

/-- White space and the characters of numbers, `true`, `false` and `null`. -/
def Plain (text : Bytes) : Prop := ∀ byte ∈ text, byte ∈ utf8 " \t\n\r+-.0123456789Eaeflnrstu"

/-- What stands between the quotes of a string. -/
inductive Characters : Bytes → Prop
  | nil : Characters []
  | plain {byte : UInt8} {rest : Bytes} (quoteless : byte ≠ 34) (ordinary : byte ≠ 92)
      (more : Characters rest) : Characters (byte :: rest)
  | escape (byte : UInt8) {rest : Bytes} (more : Characters rest) : Characters (92 :: byte :: rest)

inductive Container where
  | array
  | object

def Container.opening : Container → UInt8
  | array => 91
  | object => 123

def Container.closing : Container → UInt8
  | array => 93
  | object => 125

inductive Part where
  | value
  | members (kind : Container)
  /-- What stands in front of a member. -/
  | front (kind : Container)

/-- The text of a part, and how deep its arrays and objects nest. -/
inductive Document : Part → Bytes → Nat → Prop
  | plain {text : Bytes} (plain : Plain text) : Document .value text 0
  | string {text : Bytes} (characters : Characters text) : Document .value (34 :: text ++ [34]) 0
  | spaced {before text behind : Bytes} {depth : Nat} (blank : Plain before)
      (value : Document .value text depth) (blanks : Plain behind) :
      Document .value (before ++ text ++ behind) depth
  | container (kind : Container) {text : Bytes} {depth : Nat}
      (members : Document (.members kind) text depth) :
      Document .value (kind.opening :: (text ++ [kind.closing])) (depth + 1)
  | none (kind : Container) {text : Bytes} (blank : Plain text) : Document (.members kind) text 0
  | last {kind : Container} {first second : Bytes} {depth other : Nat}
      (front : Document (.front kind) first depth) (value : Document .value second other) :
      Document (.members kind) (first ++ second) (max depth other)
  | first : Document (.front .array) [] 0
  | name {text : Bytes} {depth : Nat} (name : Document .value text depth) :
      Document (.front .object) (text ++ [58]) depth
  | next {kind : Container} {first second : Bytes} {depth other : Nat}
      (members : Document (.members kind) first depth)
      (front : Document (.front kind) second other) :
      Document (.front kind) (first ++ [44] ++ second) (max depth other)

/-- The last byte of the text opens a container inside `depth - 1` others. -/
inductive Enters : Bytes → Nat → Prop
  | outermost (kind : Container) {before : Bytes} (blank : Plain before) :
      Enters (before ++ [kind.opening]) 1
  | inner (kind : Container) {before front text : Bytes} {within depth : Nat}
      (blank : Plain before) (passed : Document (.front kind) front within)
      (entered : Enters text depth) :
      Enters (before ++ kind.opening :: (front ++ text)) (depth + 1)

/-! ## What the check sees -/

/-- The check passes over the text and is where it was before. -/
def Nests (text : Bytes) (depth : Nat) : Prop :=
  ∀ limit level rest, level ≤ limit →
    jsonDepthExceeds limit { depth := level } (text ++ rest) =
      (decide (limit < level + depth) || jsonDepthExceeds limit { depth := level } rest)

variable {text : Bytes} {depth limit : Nat}

theorem Nests.append {other : Bytes} {deeper : Nat} (one : Nests text depth)
    (two : Nests other deeper) : Nests (text ++ other) (max depth deeper) := by
  intro limit level rest within
  rw [List.append_assoc, one limit level _ within, two limit level rest within, ← Bool.or_assoc,
    ← Bool.decide_or]
  congr 2
  simp only [eq_iff_iff]
  omega

/-- Neither a quote nor a bracket. -/
theorem nests_inert (inert : ∀ byte ∈ text, byte ∉ [34, 91, 93, 123, 125]) : Nests text 0 := by
  intro limit level rest within
  induction text with
  | nil => simpa using fun above : limit < level => absurd above (by omega)
  | cons byte text ih =>
    rw [List.forall_mem_cons] at inert
    have still : DepthScan.next { depth := level } byte = { depth := level } := by
      simp only [List.mem_cons, List.not_mem_nil, or_false, not_or] at inert
      simp [DepthScan.next, inert.1]
    rw [List.cons_append, jsonDepthExceeds, still, ih inert.2]
    simp

theorem Plain.nests (plain : Plain text) : Nests text 0 :=
  nests_inert fun byte inside => of_decide_eq_true (List.all_eq_true.mp
    (by decide : (utf8 " \t\n\r+-.0123456789Eaeflnrstu").all
      (fun byte => byte ∉ [34, 91, 93, 123, 125]) = true) byte (plain byte inside))

theorem exceeds_characters (characters : Characters text) {level : Nat} (within : level ≤ limit)
    (rest : Bytes) :
    jsonDepthExceeds limit { depth := level, inString := true } (text ++ 34 :: rest) =
      jsonDepthExceeds limit { depth := level } rest := by
  induction characters with
  | nil => simp [jsonDepthExceeds, DepthScan.next, within]
  | plain quoteless ordinary _ ih =>
    simp [jsonDepthExceeds, DepthScan.next, within, quoteless, ordinary, ih]
  | escape byte _ ih => simp [jsonDepthExceeds, DepthScan.next, within, ih]

theorem exceeds_opening (kind : Container) {level : Nat} (rest : Bytes) :
    jsonDepthExceeds limit { depth := level } (kind.opening :: rest) =
      (decide (limit < level + 1) || jsonDepthExceeds limit { depth := level + 1 } rest) := by
  cases kind <;> rfl

theorem nests_container (kind : Container) (nests : Nests text depth) :
    Nests (kind.opening :: (text ++ [kind.closing])) (depth + 1) := by
  intro limit level rest within
  rw [List.cons_append, exceeds_opening]
  by_cases above : limit < level + 1
  · simp [above, show limit < level + (depth + 1) by omega]
  have closes : DepthScan.next { depth := level + 1 } kind.closing = { depth := level } := by
    cases kind <;> rfl
  rw [List.append_assoc, nests limit (level + 1) _ (by omega), List.singleton_append,
    jsonDepthExceeds, closes]
  simp [above, within.not_gt, show level + 1 + depth = level + (depth + 1) by omega]

theorem Document.nests {part : Part} (document : Document part text depth) : Nests text depth := by
  have mark : ∀ byte ∈ [(58 : UInt8), 44], Nests [byte] 0 := fun byte known =>
    nests_inert (by rcases List.mem_pair.mp known with rfl | rfl <;> simp)
  induction document with
  | plain plain | none _ plain => exact plain.nests
  | string characters =>
    intro limit level rest within
    simp [jsonDepthExceeds, DepthScan.next, exceeds_characters characters within]
  | spaced blank _ blanks ih => simpa using (blank.nests.append ih).append blanks.nests
  | container kind _ ih => exact nests_container kind ih
  | last _ _ front value => exact front.append value
  | first => exact nests_inert nofun
  | name _ ih => simpa using ih.append (mark 58 (by simp))
  | next _ _ members front => simpa using (members.append (mark 44 (by simp))).append front

/-- The check has seen every container the text enters. -/
theorem Enters.le_of_not_exceeds (enters : Enters text depth) :
    ∀ {level rest}, level ≤ limit →
      jsonDepthExceeds limit { depth := level } (text ++ rest) = false → level + depth ≤ limit := by
  induction enters with
  | outermost kind blank =>
    intro level rest within passed
    rw [List.append_assoc, blank.nests limit level _ within, List.singleton_append,
      exceeds_opening] at passed
    simp at passed
    omega
  | inner kind blank front _ ih =>
    intro level rest within passed
    rw [List.append_assoc, blank.nests limit level _ within, List.cons_append,
      exceeds_opening] at passed
    simp only [Bool.or_eq_false_iff, decide_eq_false_iff_not, not_lt] at passed
    rw [List.append_assoc, front.nests limit (level + 1) _ passed.2.1] at passed
    have inside := ih passed.2.1 (Bool.or_eq_false_iff.mp passed.2.2).2
    omega

/-- The check is exact on every document; and where it lets a text through, a
parser of any part of it has entered no more than `limit` containers. -/
theorem depth_check_exact (limit : Nat) :
    (∀ text depth, Document .value text depth →
      (jsonDepthExceeds limit {} text = true ↔ limit < depth)) ∧
    ∀ text, jsonDepthExceeds limit {} text = false →
      ∀ part depth, part <+: text → Enters part depth → depth ≤ limit := by
  constructor
  · intro text depth document
    have scanned := document.nests limit 0 [] (Nat.zero_le _)
    rw [List.append_nil] at scanned
    simp [scanned, jsonDepthExceeds]
  · rintro text passed part depth ⟨rest, rfl⟩ enters
    simpa using enters.le_of_not_exceeds (Nat.zero_le _) passed

end Roci.Manifests
