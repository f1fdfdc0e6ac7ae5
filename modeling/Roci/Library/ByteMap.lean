import Roci.Library.ByteOrder
import Roci.Library.StringMap

/-!
# Maps keyed by byte strings

Finite maps in the order of their keys, with the entries of a range, and maps
that keep a sorted set of values per key.
-/

namespace Roci.Library

universe u

/-- Maps keyed by byte strings, in key order. -/
abbrev ByteMap (Value : Type u) := Std.ExtTreeMap Bytes Value compare

abbrev ByteSet := Std.ExtTreeSet Bytes compare

variable (map : ByteMap ByteSet)

namespace ByteMap

variable {Value : Type u}

theorem lookup_insert (map : ByteMap Value) (key other : Bytes) (value : Value) :
    (map.insert key value)[other]? = if other = key then some value else map[other]? := by
  simp [Std.ExtTreeMap.getElem?_insert, @eq_comm _ other key]

theorem lookup_erase (map : ByteMap Value) (key other : Bytes) :
    (map.erase key)[other]? = if other = key then none else map[other]? := by
  simp [Std.ExtTreeMap.getElem?_erase, @eq_comm _ other key]

theorem lookup_foldl_erase (keys : List Bytes) (map : ByteMap Value) (key : Bytes) :
    (keys.foldl Std.ExtTreeMap.erase map)[key]? = if key ∈ keys then none else map[key]? := by
  induction keys generalizing map with
  | nil => simp
  | cons first rest ih =>
    rw [List.foldl_cons, ih, lookup_erase]
    by_cases same : key = first <;> simp [same]

theorem keys_ascending (map : ByteMap Value) :
    map.toList.Pairwise fun first second => first.1 < second.1 :=
  map.ordered_keys_toList.imp fun ordered => (Bytes.compare_eq_lt_iff _ _).mp ordered

/-- The entries from `low` up to but not including `high`, in key order. -/
def range (map : ByteMap Value) (low high : Bytes) : List (Bytes × Value) :=
  map.toList.filter fun entry => !decide (entry.1 < low) && decide (entry.1 < high)

theorem mem_range_iff (map : ByteMap Value) (low high key : Bytes) (value : Value) :
    (key, value) ∈ map.range low high ↔ map[key]? = some value ∧ ¬ key < low ∧ key < high := by
  simp [range, Std.ExtTreeMap.mem_toList_iff_getElem?_eq_some]

theorem range_ascending (map : ByteMap Value) (low high : Bytes) :
    (map.range low high).Pairwise fun first second => first.1 < second.1 :=
  (keys_ascending map).filter _

/-! ## Several values per key -/

/-- The values of a key; an absent key has none. -/
def values (key : Bytes) : ByteSet := map[key]?.getD ∅

def addValue (key value : Bytes) : ByteMap ByteSet := map.insert key ((map.values key).insert value)

def dropValue (key value : Bytes) : ByteMap ByteSet := map.insert key ((map.values key).erase value)

theorem mem_values_addValue (key value other wanted : Bytes) :
    wanted ∈ (map.addValue key value).values other ↔
      (other = key ∧ wanted = value) ∨ wanted ∈ map.values other := by
  unfold addValue values
  rw [lookup_insert]
  by_cases same : other = key
  · subst same
    simp [@eq_comm _ wanted value]
  · simp [same]

theorem mem_values_dropValue (key value other wanted : Bytes) :
    wanted ∈ (map.dropValue key value).values other ↔
      ¬ (other = key ∧ wanted = value) ∧ wanted ∈ map.values other := by
  unfold dropValue values
  rw [lookup_insert]
  by_cases same : other = key
  · subst same
    simp [@eq_comm _ wanted value]
  · simp [same]

theorem mem_values_erase (key other wanted : Bytes) :
    wanted ∈ values (map.erase key) other ↔ other ≠ key ∧ wanted ∈ map.values other := by
  unfold values
  rw [lookup_erase]
  by_cases same : other = key
  · simp [same]
  · simp [same]

end ByteMap

end Roci.Library
