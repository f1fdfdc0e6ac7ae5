import Roci.Library.ByteMap
import Roci.Metadata.Op

/-!
# Composite keys

A key of the embedded database is a tuple of strings, each followed by a zero
byte.  For tuples without zero bytes the encoding is injective and keeps the
order, and the tuples that begin alike fill one range of keys.
-/

namespace Roci.Lmdb

open Roci.Library Roci.Metadata

variable (parts : List Bytes)

/-- Each part is followed by a zero byte. -/
def makeKey : Bytes := parts.flatMap fun part => part ++ [0]

/-- The same encoding for the first parts of a key. -/
def makePrefix : Bytes := makeKey parts

/-- Increment the last byte that is not `0xFF` and drop those behind it; here
the last byte comes first. -/
def incrementLast : Bytes → Option Bytes
  | [] => none
  | last :: before => if last < 0xFF then some ((last + 1) :: before) else incrementLast before

/-- The exclusive upper bound of the keys with a given front. -/
def prefixSuccessor (front : Bytes) : Option Bytes := (incrementLast front.reverse).map List.reverse

/-- The parts closed by a zero byte, after the bytes read of the current one. -/
def splitFrom (current : Bytes) : Bytes → List Bytes
  | [] => []
  | byte :: rest =>
    if byte = 0 then current :: splitFrom [] rest else splitFrom (current ++ [byte]) rest

def splitKey (key : Bytes) : List Bytes := splitFrom [] key

theorem makeKey_cons (part : Bytes) (parts : List Bytes) :
    makeKey (part :: parts) = part ++ 0 :: makeKey parts := by
  simp [makeKey]

theorem makeKey_append (first second : List Bytes) :
    makeKey (first ++ second) = makeKey first ++ makeKey second := by
  simp [makeKey]

theorem length_makeKey : (makeKey parts).length = (parts.map fun part => part.length + 1).sum := by
  induction parts with
  | nil => rfl
  | cons part parts ih =>
    simp only [makeKey_cons, List.length_append, List.length_cons, ih, List.map_cons, List.sum_cons]
    omega

theorem splitFrom_append {part : Bytes} (clean : 0 ∉ part) (current rest : Bytes) :
    splitFrom current (part ++ 0 :: rest) = (current ++ part) :: splitFrom [] rest := by
  induction part generalizing current with
  | nil => simp [splitFrom]
  | cons byte part ih =>
    have nonzero : byte ≠ 0 := by grind
    rw [List.cons_append, splitFrom, if_neg nonzero, ih (by grind)]
    simp

theorem splitKey_makeKey {parts : List Bytes} (clean : ∀ part ∈ parts, 0 ∉ part) :
    splitKey (makeKey parts) = parts := by
  induction parts with
  | nil => rfl
  | cons part parts ih =>
    have rest := ih fun other membership =>
      clean other (List.mem_cons_of_mem part membership)
    rw [splitKey, makeKey_cons, splitFrom_append (clean part List.mem_cons_self)]
    rw [splitKey] at rest
    rw [rest, List.nil_append]

theorem zero_not_mem_of_splitFrom {key current part : Bytes} (clean : 0 ∉ current)
    (listed : part ∈ splitFrom current key) : 0 ∉ part := by
  induction key generalizing current with
  | nil => cases listed
  | cons byte key ih =>
    rw [splitFrom] at listed
    split at listed
    · rcases List.mem_cons.mp listed with rfl | later
      · exact clean
      · exact ih (by simp) later
    · exact ih (by simp_all [eq_comm]) listed

section

variable {first second : List Bytes} (alsoClean : ∀ part ∈ second, 0 ∉ part)

include alsoClean

theorem makeKey_injective (clean : ∀ part ∈ first, 0 ∉ part)
    (same : makeKey first = makeKey second) : first = second := by
  rw [← splitKey_makeKey clean, same, splitKey_makeKey alsoClean]

/-- Keys of tuples of one length are ordered as the tuples are. -/
theorem makeKey_lt_iff (clean : ∀ part ∈ first, 0 ∉ part)
    (sameLength : first.length = second.length) :
    makeKey first < makeKey second ↔ first < second := by
  induction first generalizing second with
  | nil =>
    obtain rfl := List.length_eq_zero_iff.mp sameLength.symm
    simp [makeKey]
  | cons part rest ih =>
    rcases second with _ | ⟨other, others⟩
    · simp at sameLength
    rw [List.forall_mem_cons] at clean alsoClean
    have tails := ih alsoClean.2 clean.2 (by simpa using sameLength)
    rw [makeKey_cons, makeKey_cons, terminated_lt_iff clean.1 alsoClean.1, tails,
      List.cons_lt_cons_iff]

theorem makeKey_prefix_iff (clean : ∀ part ∈ first, 0 ∉ part) :
    makeKey first <+: makeKey second ↔ first <+: second := by
  constructor
  · intro begins
    induction first generalizing second with
    | nil => exact List.nil_prefix
    | cons part front ih =>
      rcases second with _ | ⟨other, others⟩
      · have width := begins.length_le
        simp [makeKey] at width
      rw [List.forall_mem_cons] at clean
      obtain ⟨rest, split⟩ := begins
      have head := congrArg splitKey split
      rw [splitKey_makeKey alsoClean, makeKey_cons, List.append_assoc, List.cons_append,
        splitKey, splitFrom_append clean.1, List.nil_append, List.cons.injEq] at head
      obtain rfl := head.1
      rw [makeKey_cons, makeKey_cons, List.append_assoc, List.append_cancel_left_eq,
        List.cons_append, List.cons.injEq] at split
      rw [List.cons_prefix_cons]
      exact ⟨rfl, ih (by grind) clean.2 ⟨rest, split.2⟩⟩
  · rintro ⟨rest, rfl⟩
    rw [makeKey_append]
    exact List.prefix_append _ _

end

/-- A key lies at or above the cursor's key, closed once more, exactly when its
last part lies above the cursor. -/
theorem makeKey_lt_cursor_iff (front : List Bytes) {last : Bytes} (clean : 0 ∉ last)
    (cursor : Bytes) :
    makeKey (front ++ [last]) < makeKey (front ++ [cursor]) ++ [0] ↔ last ≤ cursor := by
  have same : ∀ (shared left right : Bytes), shared ++ left < shared ++ right ↔ left < right := by
    intro shared left right
    induction shared with
    | nil => rfl
    | cons byte shared ih =>
      simp [ih]
  rw [makeKey_append, makeKey_append, List.append_assoc, same, ← List.not_lt,
    ← terminated_lt_cursor_iff clean]
  simp [makeKey]

theorem prefixSuccessor_makeKey {front : List Bytes} (inhabited : front ≠ []) :
    ∃ shared : Bytes, makeKey front = shared ++ [0] ∧
      prefixSuccessor (makeKey front) = some (shared ++ [1]) := by
  obtain ⟨before, last, rfl⟩ : ∃ before last, front = before ++ [last] :=
    ⟨_, _, (List.dropLast_append_getLast inhabited).symm⟩
  refine ⟨makeKey before ++ last, by simp [makeKey], ?_⟩
  have zero : (0 : UInt8) < 255 := by decide
  simp [prefixSuccessor, makeKey, incrementLast, zero]

/-- The keys of tuples are ordered as the tuples and read back as them; those that
begin alike fill one range, in which a cursor leaves behind what is not above it. -/
theorem keys_embed_tuples :
    (∀ first second : List Bytes, (∀ part ∈ first, 0 ∉ part) → (∀ part ∈ second, 0 ∉ part) →
      first.length = second.length → (makeKey first < makeKey second ↔ first < second)) ∧
    (∀ parts : List Bytes, (∀ part ∈ parts, 0 ∉ part) → splitKey (makeKey parts) = parts) ∧
    ∀ front : List Bytes, (∀ part ∈ front, 0 ∉ part) → front ≠ [] →
      ∃ high, prefixSuccessor (makeKey front) = some high ∧
        (∀ parts : List Bytes, (∀ part ∈ parts, 0 ∉ part) →
          (makeKey front ≤ makeKey parts ∧ makeKey parts < high ↔ front <+: parts)) ∧
        ∀ last cursor : Bytes, 0 ∉ last →
          (makeKey (front ++ [cursor]) ++ [0] ≤ makeKey (front ++ [last]) ↔ ¬ last ≤ cursor) := by
  refine ⟨fun first second clean alsoClean => makeKey_lt_iff alsoClean clean,
    fun parts => splitKey_makeKey, fun front clean inhabited => ?_⟩
  obtain ⟨shared, closed, successor⟩ := prefixSuccessor_makeKey inhabited
  refine ⟨_, successor, fun parts partsClean => ?_, fun last cursor lastClean => ?_⟩
  · rw [← makeKey_prefix_iff partsClean clean, closed, ← between_terminated_iff, List.not_lt]
  · rw [← makeKey_lt_cursor_iff front lastClean, List.not_lt]

/-! ## Keys of texts -/

/-- A text whose encoding has no zero byte. -/
def NulFree (text : String) : Prop := 0 ∉ utf8 text

instance (text : String) : Decidable (NulFree text) := inferInstanceAs (Decidable (¬ _))

def keyOf (parts : List String) : Bytes := makeKey (parts.map utf8)

section

variable (first second third fourth : String)

theorem makeKey_one : makeKey [utf8 first] = keyOf [first] := rfl

theorem makeKey_two : makeKey [utf8 first, utf8 second] = keyOf [first, second] := rfl

theorem makeKey_three :
    makeKey [utf8 first, utf8 second, utf8 third] = keyOf [first, second, third] := rfl

theorem makeKey_four : makeKey [utf8 first, utf8 second, utf8 third, utf8 fourth] =
    keyOf [first, second, third, fourth] := rfl

end

theorem keyOf_cons (part : String) (parts : List String) :
    keyOf (part :: parts) = utf8 part ++ 0 :: keyOf parts :=
  makeKey_cons _ _

theorem keyOf_append (first second : List String) :
    keyOf (first ++ second) = keyOf first ++ keyOf second := by
  rw [keyOf, List.map_append, makeKey_append]
  rfl

theorem splitKey_keyOf {parts : List String} (clean : ∀ part ∈ parts, NulFree part) :
    splitKey (keyOf parts) = parts.map utf8 := by
  apply splitKey_makeKey
  intro part membership
  obtain ⟨text, present, rfl⟩ := List.mem_map.mp membership
  exact clean text present

section

variable {first second : List String} (clean : ∀ part ∈ first, NulFree part)
  (alsoClean : ∀ part ∈ second, NulFree part)

include clean alsoClean

theorem keyOf_injective (same : keyOf first = keyOf second) : first = second :=
  utf8_injective.list_map
    (makeKey_injective (List.forall_mem_map.mpr alsoClean) (List.forall_mem_map.mpr clean) same)

theorem keyOf_lt_iff (sameLength : first.length = second.length) :
    keyOf first < keyOf second ↔ first < second := by
  have texts : ∀ first second : List String, first.map utf8 < second.map utf8 ↔ first < second := by
    intro first
    induction first with
    | nil => intro second; cases second <;> simp
    | cons part rest ih =>
      intro second
      cases second <;> simp [List.cons_lt_cons_iff, utf8_lt_iff, utf8_injective.eq_iff, ih]
  rw [keyOf, keyOf, makeKey_lt_iff (List.forall_mem_map.mpr alsoClean)
    (List.forall_mem_map.mpr clean) (by simpa using sameLength), texts]

theorem keyOf_prefix_iff : keyOf first <+: keyOf second ↔ first <+: second := by
  rw [keyOf, keyOf, makeKey_prefix_iff (List.forall_mem_map.mpr alsoClean)
    (List.forall_mem_map.mpr clean), List.prefix_map_iff_of_injective utf8_injective]

end

theorem keyOf_lt_cursor_iff (front : List String) {last : String} (clean : NulFree last)
    (cursor : String) :
    keyOf (front ++ [last]) < keyOf (front ++ [cursor]) ++ [0] ↔ ¬ cursor < last := by
  have closed := makeKey_lt_cursor_iff (front.map utf8) clean (utf8 cursor)
  rw [← List.not_lt, utf8_lt_iff] at closed
  simpa [keyOf] using closed

theorem prefixSuccessor_keyOf {front : List String} (inhabited : front ≠ []) :
    ∃ shared : Bytes, keyOf front = shared ++ [0] ∧
      prefixSuccessor (keyOf front) = some (shared ++ [1]) :=
  prefixSuccessor_makeKey (by simpa using inhabited)

/-! ## Tables keyed by tuples -/

/-- The table holds what `entry` gives for tuples without zero bytes, and
nothing else. -/
structure Stored (table : ByteMap Bytes) (entry : List String → Option Bytes) : Prop where
  lookup : ∀ parts : List String, (∀ part ∈ parts, NulFree part) →
    table[keyOf parts]? = entry parts
  keys : ∀ (key value : Bytes), table[key]? = some value →
    ∃ parts : List String, (∀ part ∈ parts, NulFree part) ∧ key = keyOf parts

namespace Stored

variable {table : ByteMap Bytes} {entry updated : List String → Option Bytes}

theorem empty : Stored ∅ fun _ => none where
  lookup := by simp
  keys := by simp

theorem eraseAll (stored : Stored table entry) {tuples : List (List String)}
    (clean : ∀ parts ∈ tuples, ∀ part ∈ parts, NulFree part)
    (same : ∀ other, updated other = if other ∈ tuples then none else entry other) :
    Stored ((tuples.map keyOf).foldl Std.ExtTreeMap.erase table) updated where
  lookup other otherClean := by
    rw [ByteMap.lookup_foldl_erase, stored.lookup other otherClean, same]
    congr 1
    refine propext ⟨fun listed => ?_, List.mem_map_of_mem⟩
    obtain ⟨parts, membership, equal⟩ := List.mem_map.mp listed
    rwa [← keyOf_injective (clean parts membership) otherClean equal]
  keys key found present := by
    rw [ByteMap.lookup_foldl_erase] at present
    split at present
    · cases present
    · exact stored.keys key found present

theorem erase (stored : Stored table entry) (parts : List String)
    (clean : ∀ part ∈ parts, NulFree part)
    (same : ∀ other, updated other = if other = parts then none else entry other) :
    Stored (table.erase (keyOf parts)) updated :=
  @eraseAll _ _ _ stored [parts] (by simpa) (by simpa using same)

/-- An entry is put or, with no value, dropped. -/
theorem set (stored : Stored table entry) (parts : List String)
    (clean : ∀ part ∈ parts, NulFree part) (found : Option Bytes)
    (same : ∀ other, updated other = if other = parts then found else entry other) :
    Stored (found.elim (table.erase (keyOf parts)) (table.insert (keyOf parts))) updated := by
  rcases found with _ | value
  · exact stored.erase parts clean same
  refine ⟨fun other otherClean => ?_, fun key bytes present => ?_⟩
  · rw [Option.elim_some, ByteMap.lookup_insert, stored.lookup other otherClean, same]
    congr 1
    exact propext ⟨keyOf_injective otherClean clean, congrArg keyOf⟩
  rw [Option.elim_some, ByteMap.lookup_insert] at present
  split at present
  · rename_i equal
    exact ⟨parts, clean, equal⟩
  · exact stored.keys key bytes present

theorem congr (stored : Stored table entry) (same : ∀ parts, updated parts = entry parts) :
    Stored table updated := by
  rwa [funext same]

section Range

variable (stored : Stored table entry) {front : List String}
  (clean : ∀ part ∈ front, NulFree part) {high : Bytes}
  (bound : prefixSuccessor (keyOf front) = some high)

include stored clean bound

theorem mem_range_iff (inhabited : front ≠ []) (key value : Bytes) :
    (key, value) ∈ table.range (keyOf front) high ↔
      ∃ rest : List String, (∀ part ∈ rest, NulFree part) ∧ key = keyOf (front ++ rest) ∧
        entry (front ++ rest) = some value := by
  obtain ⟨shared, closed, successor⟩ := prefixSuccessor_keyOf inhabited
  rw [bound, Option.some.injEq] at successor
  rw [ByteMap.mem_range_iff, closed, successor, between_terminated_iff, ← closed]
  constructor
  · rintro ⟨present, begins⟩
    obtain ⟨parts, partsClean, rfl⟩ := stored.keys key value present
    obtain ⟨rest, rfl⟩ := (keyOf_prefix_iff clean partsClean).mp begins
    rw [stored.lookup _ partsClean] at present
    exact ⟨rest, fun part membership => partsClean part (by simp [membership]), rfl, present⟩
  rintro ⟨rest, restClean, rfl, present⟩
  have allClean : ∀ part ∈ front ++ rest, NulFree part := by
    intro part membership
    rcases List.mem_append.mp membership with first | later
    · exact clean part first
    · exact restClean part later
  refine ⟨(stored.lookup _ allClean).trans present, ?_⟩
  rw [keyOf_append]
  exact List.prefix_append _ _

/-- The range of a front, in terms of the ascending list of what follows it. -/
theorem range_eq {Item : Type} (inhabited : front ≠ []) {items : List Item}
    (rest : Item → List String) (bytes : Item → Bytes) (width : Nat)
    (lengths : ∀ item ∈ items, (rest item).length = width)
    (itemsClean : ∀ item ∈ items, ∀ part ∈ rest item, NulFree part)
    (ascending : items.Pairwise fun first second => rest first < rest second)
    (listed : ∀ parts value, entry (front ++ parts) = some value ↔
      ∃ item ∈ items, rest item = parts ∧ bytes item = value) :
    table.range (keyOf front) high =
      items.map fun item => (keyOf (front ++ rest item), bytes item) := by
  refine @ascending_ext _ (fun first second => first.1 < second.1)
    (fun first second => List.lt_asymm) _ _ (ByteMap.range_ascending table _ _) ?_ ?_
  · rw [List.pairwise_map]
    refine List.Pairwise.imp_of_mem ?_ ascending
    intro first second inItems alsoInItems less
    have firstClean := itemsClean first inItems
    have secondClean := itemsClean second alsoInItems
    refine (keyOf_lt_iff (by grind) (by grind) ?_).mpr (List.append_left_lt less)
    rw [List.length_append, List.length_append, lengths first inItems, lengths second alsoInItems]
  rintro ⟨key, value⟩
  rw [mem_range_iff stored clean bound inhabited, List.mem_map]
  constructor
  · rintro ⟨parts, _, rfl, present⟩
    obtain ⟨item, membership, rfl, rfl⟩ := (listed parts value).mp present
    exact ⟨item, membership, rfl⟩
  rintro ⟨item, membership, same⟩
  cases same
  exact ⟨rest item, itemsClean _ membership, rfl, (listed _ _).mpr ⟨item, membership, rfl, rfl⟩⟩

end Range

end Stored

/-- Where a page starts: behind the cursor, or at the front itself. -/
def startKey (front : List String) : Option String → Bytes
  | some cursor => keyOf (front ++ [cursor]) ++ [0]
  | none => keyOf front

theorem Stored.range_startKey {table : ByteMap Bytes} {entry : List String → Option Bytes}
    (stored : Stored table entry) {front : List String}
    (clean : ∀ part ∈ front, NulFree part) (inhabited : front ≠ []) {high : Bytes}
    (bound : prefixSuccessor (keyOf front) = some high) {Item : Type} (items : List Item)
    (name : Item → String) (bytes : Item → Bytes) (itemsClean : ∀ item ∈ items, NulFree (name item))
    (ascending : items.Pairwise fun first second => name first < name second)
    (listed : ∀ parts value, entry (front ++ parts) = some value ↔
      ∃ item ∈ items, [name item] = parts ∧ bytes item = value) (last : Option String) :
    table.range (startKey front last) high =
      (items.filter fun item => after last (name item)).map
        fun item => (keyOf (front ++ [name item]), bytes item) := by
  have whole : table.range (keyOf front) high =
      items.map fun item => (keyOf (front ++ [name item]), bytes item) := by
    refine stored.range_eq clean bound inhabited (fun item => [name item]) bytes 1
      (fun _ _ => rfl) ?_ ?_ listed
    · simpa using itemsClean
    · exact ascending.imp fun less => List.cons_lt_cons_iff.mpr (.inl less)
  rcases last with _ | cursor
  · simpa [startKey, after] using whole
  have above : ∀ key : Bytes, ¬ key < keyOf (front ++ [cursor]) ++ [0] → ¬ key < keyOf front := by
    intro key outside below
    apply outside
    rw [keyOf_append, List.append_assoc]
    exact lt_append_of_lt below _
  have filtered : table.range (keyOf (front ++ [cursor]) ++ [0]) high =
      (table.range (keyOf front) high).filter
        fun item => !decide (item.1 < keyOf (front ++ [cursor]) ++ [0]) := by
    rw [ByteMap.range, ByteMap.range, List.filter_filter]
    apply List.filter_congr
    rintro ⟨key, value⟩ -
    have implied := above key
    grind
  rw [startKey, filtered, whole, List.filter_map]
  congr 1
  apply List.filter_congr
  intro item membership
  have behind := keyOf_lt_cursor_iff front (itemsClean item membership) cursor
  rw [Bool.eq_iff_iff]
  simp [after, behind]

end Roci.Lmdb
