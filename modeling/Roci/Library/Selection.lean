import Mathlib.Data.List.Induction
import Mathlib.Order.Lattice

/-!
# The first of the highest

A pass over a list keeps the eligible value of the highest rank, and of several of
one rank the first.  Only the order within each rank matters.
-/

namespace Roci.Library

variable {Value Key : Type} [LinearOrder Key] (eligible : Value → Bool) (rank : Value → Key)

def selectFirst (values : List Value) : Option Value :=
  values.foldl (fun best value =>
    if eligible value && best.all (fun best => rank best < rank value) then some value else best)
    none

/-- The value is the first eligible one of its rank, and none ranks higher. -/
structure Selected (values : List Value) (value : Value) : Prop where
  first : (values.filter (rank · = rank value)).find? eligible = some value
  highest : ∀ other ∈ values, eligible other = true → rank other ≤ rank value

variable {eligible rank} {values others : List Value} {value : Value}

namespace Selected

section

variable (selected : Selected eligible rank values value)

include selected

theorem mem : value ∈ values := (List.mem_filter.mp (List.mem_of_find?_eq_some selected.first)).1

theorem isEligible : eligible value = true := List.find?_some selected.first

theorem unique {other : Value} (again : Selected eligible rank values other) : value = other := by
  have sameRank : rank value = rank other :=
    le_antisymm (again.highest value selected.mem selected.isEligible)
      (selected.highest other again.mem again.isEligible)
  have first := selected.first
  rw [sameRank, again.first] at first
  exact (Option.some.inj first).symm

/-- Another list with the same values of each rank in the same order. -/
theorem of_alike (alike : ∀ key, values.filter (rank · = key) = others.filter (rank · = key)) :
    Selected eligible rank others value where
  first := alike (rank value) ▸ selected.first
  highest other inside isEligible := by
    refine selected.highest other ?_ isEligible
    have found : other ∈ others.filter (rank · = rank other) :=
      List.mem_filter.mpr ⟨inside, decide_eq_true rfl⟩
    rw [← alike] at found
    exact (List.mem_filter.mp found).1

end

end Selected

theorem selectFirst_concat (last : Value) :
    selectFirst eligible rank (values ++ [last]) =
      if eligible last && (selectFirst eligible rank values).all (fun best => rank best < rank last)
      then some last else selectFirst eligible rank values :=
  List.foldl_append ..

theorem selectFirst_spec (values : List Value) :
    (∀ value, selectFirst eligible rank values = some value → Selected eligible rank values value) ∧
      (selectFirst eligible rank values = none → ∀ value ∈ values, eligible value = false) := by
  induction values using List.reverseRecOn with
  | nil => exact ⟨nofun, fun _ => nofun⟩
  | append_singleton values last ih =>
    obtain ⟨found, missing⟩ := ih
    rw [selectFirst_concat]
    split
    · rename_i better
      rw [Bool.and_eq_true] at better
      have lower : ∀ other ∈ values, eligible other = true → rank other < rank last := by
        intro other inside isEligible
        cases best : selectFirst eligible rank values with
        | none => exact absurd isEligible (by rw [missing best other inside]; decide)
        | some best' =>
          rw [best] at better
          exact ((found _ best).highest other inside isEligible).trans_lt
            (of_decide_eq_true better.2)
      refine ⟨?_, nofun⟩
      rintro _ ⟨⟩
      refine ⟨?_, ?_⟩
      · rw [List.filter_append, List.find?_append, List.find?_eq_none.mpr]
        · simp [better.1]
        intro other inside isEligible
        obtain ⟨inside, sameRank⟩ := List.mem_filter.mp inside
        exact (lower other inside isEligible).ne (of_decide_eq_true sameRank)
      intro other inside isEligible
      rcases List.mem_append.mp inside with inside | inside
      · exact (lower other inside isEligible).le
      · rw [List.mem_singleton.mp inside]
    · rename_i worse
      rw [Bool.and_eq_true, not_and] at worse
      constructor
      · intro best same
        have selected := found best same
        refine ⟨by rw [List.filter_append, List.find?_append, selected.first]; rfl, ?_⟩
        intro other inside isEligible
        rcases List.mem_append.mp inside with inside | inside
        · exact selected.highest other inside isEligible
        obtain rfl := List.mem_singleton.mp inside
        have notHigher := worse isEligible
        rw [same] at notHigher
        exact not_lt.mp fun higher => notHigher (decide_eq_true higher)
      intro none other inside
      rcases List.mem_append.mp inside with inside | inside
      · exact missing none other inside
      obtain rfl := List.mem_singleton.mp inside
      rw [none] at worse
      exact Bool.eq_false_iff.mpr fun isEligible => worse isEligible rfl

theorem selectFirst_eq_some_iff :
    selectFirst eligible rank values = some value ↔ Selected eligible rank values value := by
  obtain ⟨found, missing⟩ := @selectFirst_spec _ _ _ eligible rank values
  refine ⟨found value, fun selected => ?_⟩
  cases best : selectFirst eligible rank values with
  | none => exact absurd selected.isEligible (by rw [missing best value selected.mem]; decide)
  | some other => rw [(found other best).unique selected]

theorem selectFirst_congr
    (alike : ∀ key, values.filter (rank · = key) = others.filter (rank · = key)) :
    selectFirst eligible rank values = selectFirst eligible rank others := by
  ext value
  rw [selectFirst_eq_some_iff, selectFirst_eq_some_iff]
  exact ⟨fun selected => selected.of_alike alike,
    fun selected => selected.of_alike fun key => (alike key).symm⟩

end Roci.Library
