import Mathlib.Data.Finset.Card

/-!
# Counters that run ahead of what they count

A counter counts the items that are listed.  Whoever lists or unlists an item
does so in two steps, the counter and the list, and in between stands for the
difference.
-/

namespace Roci.Library

variable {Item Party : Type} {count : Nat} {listed later : Item → Prop}
  {standing next : Party → Prop} {party : Party}

def Tallies (count : Nat) (listed : Item → Prop) (standing : Party → Prop) : Prop :=
  ∃ (items : Finset Item) (parties : Finset Party), (∀ item, item ∈ items ↔ listed item) ∧
    (∀ party, party ∈ parties ↔ standing party) ∧ count = items.card + parties.card

namespace Tallies

theorem congr (tallies : Tallies count listed standing) (items : ∀ item, later item ↔ listed item)
    (parties : ∀ party, next party ↔ standing party) : Tallies count later next := by
  obtain ⟨listing, stand, lists, stands, total⟩ := tallies
  exact ⟨listing, stand, fun item => (lists item).trans (items item).symm,
    fun party => (stands party).trans (parties party).symm, total⟩

/-- Items and parties count alike. -/
theorem symm (tallies : Tallies count listed standing) : Tallies count standing listed := by
  obtain ⟨listing, stand, lists, stands, total⟩ := tallies
  exact ⟨stand, listing, stands, lists, total.trans (Nat.add_comm _ _)⟩

variable [DecidableEq Party]

theorem announce (tallies : Tallies count listed standing) (absent : ¬ standing party)
    (present : next party) (others : ∀ other ≠ party, next other ↔ standing other) :
    Tallies (count + 1) listed next := by
  obtain ⟨listing, stand, lists, stands, rfl⟩ := tallies
  refine ⟨listing, insert party stand, lists, fun other => ?_, ?_⟩
  · by_cases same : other = party
    · simp [same, present]
    · simp [same, stands, others]
  rw [Finset.card_insert_of_notMem fun member => absent ((stands party).mp member), Nat.add_assoc]

theorem conclude (tallies : Tallies count listed standing) (present : standing party)
    (absent : ¬ next party) (others : ∀ other ≠ party, next other ↔ standing other) :
    Tallies (count - 1) listed next := by
  obtain ⟨listing, stand, lists, stands, rfl⟩ := tallies
  refine ⟨listing, stand.erase party, lists, fun other => ?_, ?_⟩
  · by_cases same : other = party
    · simp [same, absent]
    · simp [same, stands, others]
  rw [← Finset.card_erase_add_one ((stands party).mpr present)]
  rfl

end Tallies

end Roci.Library
