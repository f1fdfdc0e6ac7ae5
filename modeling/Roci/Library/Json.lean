import Roci.Library.Bytes

/-!
# JSON values and their compact text

Values are those of `serde_json` with sorted objects: an object is a list of
fields in key order, built by inserting one field after the other, so that a
repeated key keeps its last value.  `Json.print` writes the compact text.

Reading text is left to a `JsonReader`.  Its one law says that a printed
object whose members are scalars or arrays of texts is read back.
-/

namespace Roci.Library

/-- JSON values.  `number` is a number that fits an unsigned 64-bit integer;
every other number is kept as its literal. -/
inductive Json where
  | null
  | bool (value : Bool)
  | number (value : UInt64)
  | otherNumber (literal : String)
  | string (text : String)
  | array (items : List Json)
  | object (fields : List (String × Json))

variable {fields : List (String × Json)} {value : Json} (key : String)

namespace Json

def get? : Json → Option Json
  | object fields => fields.lookup key
  | _ => none

def asStr : Json → Option String
  | string text => some text
  | _ => none

def asU64 : Json → Option UInt64
  | number value => some value
  | _ => none

def asArray : Json → Option (List Json)
  | array items => some items
  | _ => none

def asObject : Json → Option (List (String × Json))
  | object fields => some fields
  | _ => none

def insertField (key : String) (value : Json) :
    List (String × Json) → List (String × Json)
  | [] => [(key, value)]
  | (other, kept) :: rest =>
    if key < other then (key, value) :: (other, kept) :: rest
    else if key = other then (key, value) :: rest
    else (other, kept) :: insertField key value rest

def orInsertField (value : Json) (fields : List (String × Json)) : List (String × Json) :=
  if (fields.lookup key).isSome then fields else insertField key value fields

def removeField (fields : List (String × Json)) : List (String × Json) :=
  fields.filter fun field => field.1 ≠ key

/-- The object with the given fields; a later field replaces an earlier one. -/
def ofFields (fields : List (String × Json)) : Json :=
  object (fields.foldl (fun sorted field => insertField field.1 field.2 sorted) [])

theorem lookup_cons_eq_ite (key other : String) (value : Json) (fields : List (String × Json)) :
    ((key, value) :: fields).lookup other =
      if other = key then some value else fields.lookup other := by
  by_cases same : other = key
  · simp [same]
  have different : (other == key) = false := by simpa using same
  simp [List.lookup_cons, same, different]

theorem lookup_insertField (key other : String) (value : Json) (fields : List (String × Json)) :
    (insertField key value fields).lookup other =
      if other = key then some value else fields.lookup other := by
  induction fields with
  | nil => rw [insertField, lookup_cons_eq_ite]
  | cons field rest ih =>
    obtain ⟨name, kept⟩ := field
    simp only [insertField]
    split
    · rw [lookup_cons_eq_ite]
    split
    · rename_i equal
      subst equal
      simp only [lookup_cons_eq_ite]
      split <;> rfl
    rename_i different
    simp only [lookup_cons_eq_ite, ih]
    by_cases same : other = name
    · subst same
      simp [Ne.symm different]
    · simp [same]

theorem get?_ofFields (fields : List (String × Json)) :
    (ofFields fields).get? key = fields.reverse.lookup key := by
  suffices general : ∀ sorted : List (String × Json),
      (fields.foldl (fun sorted field => insertField field.1 field.2 sorted) sorted).lookup key =
        (fields.reverse.lookup key).or (sorted.lookup key) by
    simpa [ofFields, get?] using general []
  induction fields with
  | nil => simp
  | cons field rest ih =>
    intro sorted
    rw [List.foldl_cons, ih, lookup_insertField, List.reverse_cons, List.lookup_append]
    obtain ⟨name, value⟩ := field
    rw [lookup_cons_eq_ite]
    by_cases same : key = name <;> simp [same]

/-! ## Sorted fields -/

theorem mem_insertField {key : String} {field : String × Json}
    (membership : field ∈ insertField key value fields) :
    field = (key, value) ∨ field ∈ fields := by
  induction fields with
  | nil => simpa [insertField] using membership
  | cons first rest ih =>
    simp only [insertField] at membership
    split at membership
    · simpa using membership
    split at membership
    · rcases List.mem_cons.mp membership with equal | later
      · exact .inl equal
      · exact .inr (by simp [later])
    rcases List.mem_cons.mp membership with equal | later
    · exact .inr (by simp [equal])
    rcases ih later with equal | present
    · exact .inl equal
    · exact .inr (by simp [present])

theorem insertField_ascending {key : String}
    (ascending : fields.Pairwise fun first second => first.1 < second.1) :
    (insertField key value fields).Pairwise fun first second => first.1 < second.1 := by
  induction fields with
  | nil => simp [insertField]
  | cons first rest ih =>
    obtain ⟨above, restAscending⟩ := List.pairwise_cons.mp ascending
    simp only [insertField]
    split
    · rename_i below
      refine List.pairwise_cons.mpr ⟨?_, ascending⟩
      intro field membership
      rcases List.mem_cons.mp membership with rfl | later
      · exact below
      · exact String.lt_trans below (above field later)
    split
    · rename_i same
      subst same
      exact List.pairwise_cons.mpr ⟨above, restAscending⟩
    rename_i notBelow different
    refine List.pairwise_cons.mpr ⟨?_, ih restAscending⟩
    intro field membership
    rcases mem_insertField membership with rfl | present
    · by_contra notAbove
      exact different (String.le_antisymm (String.not_lt.mp notAbove) (String.not_lt.mp notBelow))
    · exact above field present

theorem insertField_greatest {key : String} (greatest : ∀ field ∈ fields, field.1 < key) :
    insertField key value fields = fields ++ [(key, value)] := by
  induction fields with
  | nil => rfl
  | cons first rest ih =>
    have below : first.1 < key := greatest first (by simp)
    have notAbove : ¬ key < first.1 := String.lt_asymm below
    have different : key ≠ first.1 := fun same => String.lt_irrefl _ (same ▸ below)
    simp only [insertField, if_neg notAbove, if_neg different, List.cons_append]
    rw [ih fun field membership => greatest field (by simp [membership])]

theorem ofFields_ascending (ascending : fields.Pairwise fun first second => first.1 < second.1) :
    ofFields fields = object fields := by
  suffices general : ∀ before : List (String × Json),
      (before ++ fields).Pairwise (fun first second => first.1 < second.1) →
      fields.foldl (fun sorted field => insertField field.1 field.2 sorted) before =
        before ++ fields by
    simpa [ofFields] using general [] ascending
  induction fields with
  | nil => simp
  | cons field rest ih =>
    intro before together
    have greatest : ∀ earlier ∈ before, earlier.1 < field.1 := fun earlier membership =>
      (List.pairwise_append.mp together).2.2 earlier membership field (by simp)
    rw [List.foldl_cons, insertField_greatest greatest, ih (List.pairwise_cons.mp ascending).2]
    · simp
    · simpa using together

/-! ## Printing -/

def escape (character : Char) : List Char :=
  if character = '"' then ['\\', '"']
  else if character = '\\' then ['\\', '\\']
  else if character = '\x08' then ['\\', 'b']
  else if character = '\t' then ['\\', 't']
  else if character = '\n' then ['\\', 'n']
  else if character = '\x0c' then ['\\', 'f']
  else if character = '\r' then ['\\', 'r']
  else if character.toNat < 0x20 then
    ['\\', 'u', '0', '0', Nat.digitChar (character.toNat / 16),
      Nat.digitChar (character.toNat % 16)]
  else [character]

def quote (text : String) : List Char := '"' :: (text.toList.flatMap escape ++ ['"'])

mutual

def render : Json → List Char
  | null => "null".toList
  | bool true => "true".toList
  | bool false => "false".toList
  | number value => Nat.toDigits 10 value.toNat
  | otherNumber literal => literal.toList
  | string text => quote text
  | array items => '[' :: (renderItems items ++ [']'])
  | object fields => '\x7b' :: (renderFields fields ++ ['\x7d'])

def renderItems : List Json → List Char
  | [] => []
  | [item] => render item
  | item :: rest => render item ++ ',' :: renderItems rest

def renderFields : List (String × Json) → List Char
  | [] => []
  | [(key, value)] => quote key ++ ':' :: render value
  | (key, value) :: rest => quote key ++ ':' :: (render value ++ ',' :: renderFields rest)

end

/-- `serde_json::to_vec`. -/
def print (value : Json) : Bytes := utf8 (String.ofList (render value))

inductive Flat : Json → Prop where
  | null : Flat .null
  | bool (value : Bool) : Flat (.bool value)
  | number (value : UInt64) : Flat (.number value)
  | string (text : String) : Flat (.string text)
  | strings (texts : List String) : Flat (.array (texts.map .string))

mutual

/-- The value with the members of every object in key order. -/
def normal : Json → Json
  | array items => array (normalItems items)
  | object fields => ofFields (normalFields fields)
  | null => null
  | bool value => bool value
  | number value => number value
  | otherNumber literal => otherNumber literal
  | string text => string text

def normalItems : List Json → List Json
  | [] => []
  | item :: rest => normal item :: normalItems rest

def normalFields : List (String × Json) → List (String × Json)
  | [] => []
  | (key, value) :: rest => (key, normal value) :: normalFields rest

end

/-- Values whose numbers all fit an unsigned 64-bit integer. -/
inductive Plain : Json → Prop where
  | null : Plain .null
  | bool (value : Bool) : Plain (.bool value)
  | number (value : UInt64) : Plain (.number value)
  | string (text : String) : Plain (.string text)
  | array {items : List Json} (every : ∀ item ∈ items, Plain item) : Plain (.array items)
  | object {fields : List (String × Json)} (every : ∀ field ∈ fields, Plain field.2) :
      Plain (.object fields)

mutual

def isPlain : Json → Bool
  | otherNumber _ => false
  | array items => arePlain items
  | object fields => fieldsPlain fields
  | _ => true

def arePlain : List Json → Bool
  | [] => true
  | item :: rest => isPlain item && arePlain rest

def fieldsPlain : List (String × Json) → Bool
  | [] => true
  | (_, value) :: rest => isPlain value && fieldsPlain rest

end

mutual

theorem plain_of_isPlain : (value : Json) → value.isPlain = true → value.Plain
  | null, _ => .null
  | bool value, _ => .bool value
  | number value, _ => .number value
  | otherNumber _, plain => by simp [isPlain] at plain
  | string text, _ => .string text
  | array items, plain => .array (plain_of_arePlain items (by simpa only [isPlain] using plain))
  | object fields, plain =>
    .object (plain_of_fieldsPlain fields (by simpa only [isPlain] using plain))

theorem plain_of_arePlain : (items : List Json) → arePlain items = true → ∀ item ∈ items, item.Plain
  | [], _ => fun _ membership => by cases membership
  | first :: rest, plain => by
    simp only [arePlain, Bool.and_eq_true] at plain
    exact List.forall_mem_cons.mpr ⟨plain_of_isPlain first plain.1, plain_of_arePlain rest plain.2⟩

theorem plain_of_fieldsPlain : (fields : List (String × Json)) → fieldsPlain fields = true →
    ∀ field ∈ fields, field.2.Plain
  | [], _ => fun _ membership => by cases membership
  | (key, value) :: rest, plain => by
    simp only [fieldsPlain, Bool.and_eq_true] at plain
    exact List.forall_mem_cons.mpr
      ⟨plain_of_isPlain value plain.1, plain_of_fieldsPlain rest plain.2⟩

end

theorem Flat.plain (flat : value.Flat) : value.Plain := by
  cases flat with
  | null => exact .null
  | bool value => exact .bool value
  | number value => exact .number value
  | string text => exact .string text
  | strings texts =>
    refine .array fun item membership => ?_
    obtain ⟨text, _, rfl⟩ := List.mem_map.mp membership
    exact .string text

theorem Flat.normal_eq (flat : value.Flat) : value.normal = value := by
  cases flat with
  | strings texts =>
    rw [normal]
    congr 1
    induction texts with
    | nil => rfl
    | cons text texts ih =>
      rw [List.map_cons, normalItems, ih, normal]
  | _ => simp only [normal]

theorem normalFields_flat (flat : ∀ field ∈ fields, field.2.Flat) :
    normalFields fields = fields := by
  induction fields with
  | nil => rfl
  | cons field rest ih =>
    rw [List.forall_mem_cons] at flat
    obtain ⟨key, value⟩ := field
    rw [normalFields, ih flat.2, flat.1.normal_eq]

end Json

structure JsonReader where
  parse : Bytes → Option Json
  parse_print : ∀ fields : List (String × Json), (∀ field ∈ fields, field.2.Flat) →
    parse (Json.print (.object fields)) = some (Json.ofFields fields)

namespace JsonReader

theorem parse_print_ofFields (reader : JsonReader) (fields : List (String × Json))
    (flat : ∀ field ∈ fields, field.2.Flat) :
    reader.parse (Json.print (Json.ofFields fields)) = some (Json.ofFields fields) := by
  suffices sorted : ∃ members : List (String × Json), Json.ofFields fields = .object members ∧
      (members.Pairwise fun first second => first.1 < second.1) ∧
      ∀ field ∈ members, field.2.Flat by
    obtain ⟨members, shape, ascending, flatMembers⟩ := sorted
    rw [shape, reader.parse_print members flatMembers, Json.ofFields_ascending ascending]
  suffices general : ∀ before : List (String × Json),
      (before.Pairwise fun first second => first.1 < second.1) →
      (∀ field ∈ before, field.2.Flat) →
      ∃ members : List (String × Json),
        fields.foldl (fun sorted field => Json.insertField field.1 field.2 sorted) before =
          members ∧
        (members.Pairwise fun first second => first.1 < second.1) ∧
        ∀ field ∈ members, field.2.Flat by
    obtain ⟨members, shape, properties⟩ := general [] (by simp) (by simp)
    exact ⟨members, by rw [Json.ofFields, shape], properties⟩
  induction fields with
  | nil =>
    intro before ascending flatBefore
    exact ⟨before, rfl, ascending, flatBefore⟩
  | cons field rest ih =>
    intro before ascending flatBefore
    apply ih (fun member membership => flat member (by simp [membership]))
    · exact Json.insertField_ascending ascending
    intro member membership
    rcases Json.mem_insertField membership with rfl | present
    · exact flat field (by simp)
    · exact flatBefore member present

end JsonReader

end Roci.Library
