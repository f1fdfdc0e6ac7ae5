import Mathlib.Data.List.Basic

/-!
# Computations that may fail
-/

namespace Roci.Library

variable {Problem : Type}

theorem bind_eq_ok_iff {First Second : Type} (step : Except Problem First)
    (next : First → Except Problem Second) (result : Second) :
    (step >>= next) = .ok result ↔ ∃ found, step = .ok found ∧ next found = .ok result := by
  cases step with
  | _ => simp [bind, Except.bind]

/-- Whether a step succeeds may be known apart from what it finds. -/
theorem exists_bind_ok_iff {First Second : Type} {step : Except Problem First}
    {next : First → Except Problem Second} {here later : Prop}
    (now : (∃ found, step = .ok found) ↔ here)
    (rest : ∀ found, (∃ result, next found = .ok result) ↔ later) :
    (∃ result, (step >>= next) = .ok result) ↔ here ∧ later := by
  simp only [bind_eq_ok_iff, ← now]
  rw [exists_comm]
  simp only [exists_and_left, rest, exists_and_right]

theorem forM_eq_ok_iff {Item : Type} {check : Item → Except Problem Unit} {items : List Item} :
    items.forM check = .ok () ↔ ∀ item ∈ items, check item = .ok () := by
  induction items with
  | nil => simp [pure, Except.pure]
  | cons item items ih =>
    rw [List.forall_mem_cons, ← ih]
    refine (bind_eq_ok_iff (check item) _ ()).trans ⟨?_, fun both => ⟨(), both⟩⟩
    rintro ⟨⟨⟩, both⟩
    exact both

end Roci.Library
