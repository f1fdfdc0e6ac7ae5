import Mathlib.Data.List.Nodup

/-!
# Maps and sets of texts

Finite maps keyed by text and finite sets of texts, in key order, with the
lookup rules in terms of equality of keys.
-/

namespace Roci.Library

universe u

/-- Two lists with the same members are equal when both ascend. -/
theorem ascending_ext {Item : Type u} {below : Item → Item → Prop}
    (asymmetric : ∀ first second, below first second → ¬ below second first)
    {left right : List Item} (leftAscending : left.Pairwise below)
    (rightAscending : right.Pairwise below) (same : ∀ item, item ∈ left ↔ item ∈ right) :
    left = right := by
  have nodup : ∀ {items : List Item}, items.Pairwise below → items.Nodup := by
    intro items ascending
    apply ascending.imp
    rintro item _ less rfl
    exact asymmetric item item less less
  apply List.Perm.eq_of_pairwise _ leftAscending rightAscending
  · rw [List.perm_ext_iff_of_nodup (nodup leftAscending) (nodup rightAscending)]
    exact same
  intro first second _ _ less greater
  exact absurd greater (asymmetric first second less)

/-- Maps keyed by text, in key order. -/
abbrev StringMap (Value : Type u) := Std.ExtTreeMap String Value compare

abbrev StringSet := Std.ExtTreeSet String compare

namespace StringMap

variable {Value : Type u}

theorem lookup_insert (map : StringMap Value) (key other : String) (value : Value) :
    (map.insert key value)[other]? = if other = key then some value else map[other]? := by
  simp [Std.ExtTreeMap.getElem?_insert, @eq_comm _ other key]

theorem lookup_erase (map : StringMap Value) (key other : String) :
    (map.erase key)[other]? = if other = key then none else map[other]? := by
  simp [Std.ExtTreeMap.getElem?_erase, @eq_comm _ other key]

/-- Values are changed, and those that have become empty are left out. -/
theorem lookup_filterMap_ite (map : StringMap Value) (change : Value → Value)
    (empty : Value → Bool) {key : String} {value : Value}
    (found : (map.filterMap fun _ old => if empty (change old) then none
      else some (change old))[key]? = some value) :
    ∃ old, map[key]? = some old ∧ change old = value ∧ empty value = false := by
  rw [Std.ExtTreeMap.getElem?_filterMap', Option.bind_eq_some_iff] at found
  obtain ⟨old, listed, remaining⟩ := found
  split at remaining
  · cases remaining
  rename_i nonempty
  cases remaining
  exact ⟨old, listed, rfl, Bool.eq_false_iff.mpr nonempty⟩

theorem isEmpty_iff_lookup (map : StringMap Value) :
    map.isEmpty = true ↔ ∀ key : String, map[key]? = none := by
  constructor
  · intro empty key
    rw [Std.ExtTreeMap.isEmpty_iff.mp empty]
    simp
  intro absent
  rw [Std.ExtTreeMap.isEmpty_iff]
  apply Std.ExtTreeMap.ext_getElem?
  intro key
  simp [absent key]

/-- Update the value of a key, starting from a fallback when it has none. -/
def upsert (map : StringMap Value) (key : String) (fallback : Value)
    (update : Value → Value) : StringMap Value :=
  map.insert key (update (map[key]?.getD fallback))

theorem lookup_upsert (map : StringMap Value) (key other : String) (fallback : Value)
    (update : Value → Value) :
    (map.upsert key fallback update)[other]? =
      if other = key then some (update (map[key]?.getD fallback)) else map[other]? :=
  lookup_insert _ _ _ _

theorem insert_insert (map : StringMap Value) (key : String) (first second : Value) :
    (map.insert key first).insert key second = map.insert key second := by
  apply Std.ExtTreeMap.ext_getElem?
  intro other
  simp only [lookup_insert]
  split <;> rfl

variable {entries : List (String × Value)} {key : String} {map : StringMap Value} {Item : Type*}

theorem foldl_upsert (key : String) (fallback : Value) (update : Value → Item → Value) (item : Item)
    (items : List Item) (map : StringMap Value) :
    (item :: items).foldl
        (fun map item => map.upsert key fallback fun value => update value item) map =
      map.insert key ((item :: items).foldl update (map[key]?.getD fallback)) := by
  induction items generalizing item map with
  | nil => rfl
  | cons next items ih =>
    rw [List.foldl_cons, ih]
    simp only [upsert, insert_insert, lookup_insert, if_true, Option.getD_some, List.foldl_cons]

theorem lookup_foldl_insert (key : Item → String) (value : Item → Value) (items : List Item)
    (map : StringMap Value) (wanted : String) :
    (items.foldl (fun map item => map.insert (key item) (value item)) map)[wanted]? =
      ((items.reverse.find? fun item => key item = wanted).map value).or map[wanted]? := by
  induction items generalizing map with
  | nil => simp
  | cons item items ih =>
    rw [List.foldl_cons, ih, lookup_insert, List.reverse_cons, List.find?_append]
    cases items.reverse.find? fun item => key item = wanted with
    | some found => simp
    | none =>
      by_cases same : wanted = key item
      · simp [same]
      · simp [same, Ne.symm same]

theorem find?_reverse_eq_of_nodup (distinct : (entries.map Prod.fst).Nodup) {value : Value}
    (membership : (key, value) ∈ entries) :
    entries.reverse.find? (fun entry => entry.1 = key) = some (key, value) := by
  cases found : entries.reverse.find? fun entry => entry.1 = key with
  | none =>
    have absent := List.find?_eq_none.mp found (key, value) (by simpa using membership)
    simp at absent
  | some entry =>
    have sameKey : entry.1 = key := by simpa using List.find?_some found
    have present : entry ∈ entries := by simpa using List.mem_of_find?_eq_some found
    exact congrArg some (List.inj_on_of_nodup_map distinct present membership sameKey)

theorem compare_eq_lt_iff (first second : String) :
    compare first second = .lt ↔ first < second := by
  change compareOfLessAndEq first second = .lt ↔ _
  unfold compareOfLessAndEq
  split_ifs <;> simp_all

theorem keys_ascending (map : StringMap Value) :
    map.toList.Pairwise fun first second => first.1 < second.1 :=
  map.ordered_keys_toList.imp fun ordered => (compare_eq_lt_iff _ _).mp ordered

theorem nodup_keys_toList (map : StringMap Value) : (map.toList.map Prod.fst).Nodup := by
  rw [List.nodup_iff_pairwise_ne, List.pairwise_map]
  exact map.distinct_keys_toList.imp fun different same => different (by simp [same])

theorem find?_reverse_arranged (arranged : entries.Perm map.toList) (key : String) :
    entries.reverse.find? (fun entry => entry.1 = key) =
      map[key]?.map fun value => (key, value) := by
  have distinct : (entries.map Prod.fst).Nodup :=
    (arranged.map Prod.fst).nodup_iff.mpr (nodup_keys_toList map)
  cases present : map[key]? with
  | some value =>
    exact find?_reverse_eq_of_nodup distinct
      (arranged.mem_iff.mpr (Std.ExtTreeMap.mem_toList_iff_getElem?_eq_some.mpr present))
  | none =>
    rw [Option.map_none, List.find?_eq_none]
    rintro ⟨other, value⟩ membership same
    have found := Std.ExtTreeMap.mem_toList_iff_getElem?_eq_some.mp
      (arranged.mem_iff.mp (List.mem_reverse.mp membership))
    simp only [decide_eq_true_eq] at same
    rw [same, present] at found
    cases found

theorem lookup_foldl_insert_arranged {map : StringMap Item} {entries : List (String × Item)}
    (arranged : entries.Perm map.toList) (value : String × Item → Value) (base : StringMap Value)
    (key : String) :
    (entries.foldl (fun built entry => built.insert entry.1 (value entry)) base)[key]? =
      (map[key]?.map fun item => value (key, item)).or base[key]? := by
  rw [lookup_foldl_insert Prod.fst value, find?_reverse_arranged arranged, Option.map_map]
  rfl

theorem foldl_insert_entries (arranged : entries.Perm map.toList) :
    entries.foldl (fun built entry => built.insert entry.1 entry.2) ∅ = map := by
  apply Std.ExtTreeMap.ext_getElem?
  intro key
  rw [lookup_foldl_insert_arranged arranged Prod.snd]
  simp

theorem greatest_of_find?_reverse {property : String × Value → Bool} {value : Value}
    (found : map.toList.reverse.find? property = some (key, value)) :
    map[key]? = some value ∧ property (key, value) = true ∧
      ∀ (other : String) (kept : Value), map[other]? = some kept →
        property (other, kept) = true → ¬ key < other := by
  have ascending := keys_ascending map
  obtain ⟨satisfied, later, earlier, split, none⟩ := List.find?_eq_some_iff_append.mp found
  have order : map.toList = earlier.reverse ++ (key, value) :: later.reverse := by
    have reversed := congrArg List.reverse split
    simpa using reversed
  refine ⟨Std.ExtTreeMap.mem_toList_iff_getElem?_eq_some.mp (by simp [order]), satisfied, ?_⟩
  intro other kept present holds above
  have membership := Std.ExtTreeMap.mem_toList_iff_getElem?_eq_some.mpr present
  rw [order] at membership ascending
  rcases List.mem_append.mp membership with before | after
  · have below := (List.pairwise_append.mp ascending).2.2 _ before (key, value) (by simp)
    exact String.lt_asymm below above
  rcases List.mem_cons.mp after with same | inLater
  · cases same
    exact String.lt_irrefl _ above
  have refuted := none (other, kept) (by simpa using inLater)
  simp [holds] at refuted

theorem find?_reverse_toList_eq_some_iff (map : StringMap Value)
    (property : String × Value → Bool) (key : String) (value : Value) :
    map.toList.reverse.find? property = some (key, value) ↔
      map[key]? = some value ∧ property (key, value) = true ∧
        ∀ (other : String) (kept : Value), map[other]? = some kept →
          property (other, kept) = true → ¬ key < other := by
  constructor
  · exact greatest_of_find?_reverse
  rintro ⟨present, satisfied, greatest⟩
  cases found : map.toList.reverse.find? property with
  | none =>
    have refuted := List.find?_eq_none.mp found (key, value) (by
      simpa using Std.ExtTreeMap.mem_toList_iff_getElem?_eq_some.mpr present)
    simp [satisfied] at refuted
  | some entry =>
    obtain ⟨other, kept⟩ := entry
    obtain ⟨otherPresent, otherSatisfied, otherGreatest⟩ := greatest_of_find?_reverse found
    have same : other = key := String.le_antisymm
      (String.not_lt.mp (greatest other kept otherPresent otherSatisfied))
      (String.not_lt.mp (otherGreatest key value present satisfied))
    subst same
    rw [present] at otherPresent
    cases otherPresent
    rfl

/-- A step that acts as an insertion on fresh keys acts as one throughout a
list of distinct keys. -/
theorem foldl_eq_foldl_insert (step : StringMap Value → String × Item → StringMap Value)
    (value : String × Item → Value) (entries : List (String × Item))
    (fresh : ∀ (map : StringMap Value), ∀ entry ∈ entries, map[entry.1]? = none →
      step map entry = map.insert entry.1 (value entry)) (distinct : (entries.map Prod.fst).Nodup)
    (map : StringMap Value) (absent : ∀ entry ∈ entries, map[entry.1]? = none) :
    entries.foldl step map =
      entries.foldl (fun map entry => map.insert entry.1 (value entry)) map := by
  induction entries generalizing map with
  | nil => rfl
  | cons entry entries ih =>
    simp only [List.map_cons, List.nodup_cons] at distinct
    rw [List.foldl_cons, List.foldl_cons, fresh map entry (by simp) (absent entry (by simp))]
    apply ih
    · intro other later membership
      exact fresh other later (by simp [membership])
    · exact distinct.2
    intro later membership
    rw [lookup_insert]
    split
    · rename_i same
      exact absurd (List.mem_map.mpr ⟨later, membership, same⟩) distinct.1
    · exact absent later (by simp [membership])

end StringMap

variable (set : StringSet)

namespace StringSet

theorem mem_insert_iff (key other : String) :
    other ∈ set.insert key ↔ other = key ∨ other ∈ set := by
  simp [@eq_comm _ other key]

theorem mem_erase_iff (key other : String) : other ∈ set.erase key ↔ other ≠ key ∧ other ∈ set := by
  simp [@eq_comm _ other key]

theorem toList_ascending : set.toList.Pairwise (· < ·) :=
  set.ordered_toList.imp fun ordered => (StringMap.compare_eq_lt_iff _ _).mp ordered

theorem isEmpty_iff_mem : set.isEmpty = true ↔ ∀ key, key ∉ set := by
  constructor
  · intro empty key
    rw [Std.ExtTreeSet.isEmpty_iff.mp empty]
    exact Std.ExtTreeSet.not_mem_empty
  intro absent
  rw [Std.ExtTreeSet.isEmpty_iff]
  apply Std.ExtTreeSet.ext_mem
  intro key
  simp [absent key]

end StringSet

end Roci.Library
