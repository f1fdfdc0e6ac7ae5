import Mathlib.Computability.Language

/-!
# Words of products of languages

How a word of a product begins, how a word is cut where a property of its symbols
first fails, the star of a sum, and words with separators between them.
-/

namespace Roci.Library

open Computability

variable {Symbol : Type} {first second : Language Symbol}

theorem nil_mem_mul : [] ∈ first * second ↔ [] ∈ first ∧ [] ∈ second := by
  simp [Language.mem_mul]

/-- The first factor takes nothing of the word, or at least its first symbol. -/
theorem cons_mem_mul {symbol : Symbol} {word : List Symbol} :
    symbol :: word ∈ first * second ↔
      ([] ∈ first ∧ symbol :: word ∈ second) ∨
        ∃ left right, word = left ++ right ∧ symbol :: left ∈ first ∧ right ∈ second := by
  simp only [Language.mem_mul, List.append_eq_cons_iff]
  constructor
  · rintro ⟨_, taken, right, left, ⟨rfl, rfl⟩ | ⟨left, rfl, cut⟩⟩
    · exact .inl ⟨taken, left⟩
    · exact .inr ⟨left, right, cut, taken, by assumption⟩
  rintro (⟨empty, whole⟩ | ⟨left, right, cut, taken, behind⟩)
  · exact ⟨[], empty, _, whole, .inl ⟨rfl, rfl⟩⟩
  · exact ⟨_, taken, right, behind, .inr ⟨left, rfl, cut⟩⟩

/-- A word is cut in one way where a property first fails. -/
theorem append_cons_inj {holds : Symbol → Prop} {run other : List Symbol} {symbol next : Symbol}
    {rest more : List Symbol} (all : ∀ found ∈ run, holds found)
    (otherAll : ∀ found ∈ other, holds found) (fails : ¬ holds symbol) (otherFails : ¬ holds next)
    (same : run ++ symbol :: rest = other ++ next :: more) :
    run = other ∧ symbol = next ∧ rest = more := by
  induction run generalizing other with
  | nil =>
    cases other with
    | nil => exact ⟨rfl, List.cons.inj same⟩
    | cons head tail =>
      exact absurd ((List.cons.inj same).1 ▸ otherAll head List.mem_cons_self) fails
  | cons head tail ih =>
    rcases other with _ | ⟨otherHead, otherTail⟩
    · exact absurd ((List.cons.inj same).1 ▸ all head List.mem_cons_self) otherFails
    obtain ⟨rfl, later⟩ := List.cons.inj same
    obtain ⟨rfl, ends⟩ := ih (fun found inside => all found (.tail _ inside))
      (fun found inside => otherAll found (.tail _ inside)) later
    exact ⟨rfl, ends⟩

/-- Any mixture of two languages: runs of the first, each later one behind a word
of the second. -/
theorem kstar_add : (first + second)∗ = first∗ * (second * first∗)∗ := by
  apply le_antisymm
  · apply kstar_le_of_mul_le_right
    · exact one_le_mul one_le_kstar one_le_kstar
    rw [add_mul]
    apply add_le
    · rw [← mul_assoc]
      exact mul_le_mul' mul_kstar_le_kstar le_rfl
    calc second * (first∗ * (second * first∗)∗)
        = (second * first∗) * (second * first∗)∗ := by rw [mul_assoc]
      _ ≤ (second * first∗)∗ := mul_kstar_le_kstar
      _ = 1 * (second * first∗)∗ := (one_mul _).symm
      _ ≤ first∗ * (second * first∗)∗ := mul_le_mul' one_le_kstar le_rfl
  have inFirst : first∗ ≤ (first + second)∗ := kstar_mono le_self_add
  have inSecond : second * first∗ ≤ (first + second)∗ := calc
    second * first∗ ≤ (first + second) * (first + second)∗ := mul_le_mul' le_add_self inFirst
    _ ≤ (first + second)∗ := mul_kstar_le_kstar
  calc first∗ * (second * first∗)∗
      ≤ (first + second)∗ * (first + second)∗∗ := mul_le_mul' inFirst (kstar_mono inSecond)
    _ = (first + second)∗ := by rw [kstar_idem, kstar_mul_kstar]

/-- Words of a language, with a symbol between them that none of them has. -/
theorem mem_separated_iff [DecidableEq Symbol] {separator : Symbol}
    (free : ∀ word ∈ first, separator ∉ word) {word : List Symbol} :
    word ∈ first * ({[separator]} * first)∗ ↔ ∀ piece ∈ word.splitOn separator, piece ∈ first := by
  constructor
  · rw [Language.mem_mul]
    rintro ⟨head, inside, _, later, rfl⟩
    obtain ⟨pieces, rfl, all⟩ := Language.mem_kstar.mp later
    clear later
    induction pieces generalizing head with
    | nil => simpa [List.splitOn_eq_singleton (free head inside)] using inside
    | cons piece pieces ih =>
      obtain ⟨⟨_, rfl, next, follows, rfl⟩, rest⟩ := List.forall_mem_cons.mp all
      change ∀ found ∈ (head ++ separator :: (next ++ pieces.flatten)).splitOn separator,
        found ∈ first
      rw [List.splitOn_append_cons_self_of_not_mem (free head inside), List.forall_mem_cons]
      exact ⟨inside, ih next follows rest⟩
  intro all
  obtain ⟨head, pieces, split⟩ := List.exists_cons_of_ne_nil (List.splitOn_ne_nil separator word)
  rw [← @List.intercalate_splitOn _ word _ _ separator, split]
  rw [split] at all
  clear split
  induction pieces generalizing head with
  | nil => exact ⟨head, all head List.mem_cons_self, [], Language.nil_mem_kstar _, by simp⟩
  | cons next pieces ih =>
    obtain ⟨inside, all⟩ := List.forall_mem_cons.mp all
    rw [← one_add_mul_kstar]
    refine ⟨head, inside, separator :: [separator].intercalate (next :: pieces), .inr ?_, by simp⟩
    rw [mul_assoc]
    exact ⟨[separator], rfl, _, ih next all, rfl⟩

end Roci.Library
