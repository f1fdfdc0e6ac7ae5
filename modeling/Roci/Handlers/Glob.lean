import Roci.Handlers.Access
import Roci.Library.Languages

/-!
# The language of a pattern

A star is any run without a slash, a last `**` anything, an earlier `**` nothing or
whole directories, and every other byte is itself.  The matcher goes over the
tokens from the last one; its row says behind which of the name's first bytes the
rest of the name is a word of the tokens read so far.
-/

namespace Roci.Handlers

open Roci.Library Roci.Storage

/-! ## Languages of patterns -/

def runs : Language UInt8 := {word | 47 ∉ word}

def directories : Language UInt8 := {word | word = [] ∨ word.getLast? = some 47}

def componentLanguage : Bytes → Language UInt8
  | [] => 1
  | byte :: rest => (if byte = 42 then runs else {[byte]}) * componentLanguage rest

def patternLanguage : List (List Char) → Language UInt8
  | [] => 1
  | [component] =>
    if component = ['*', '*'] then ⊤ else componentLanguage (utf8 (String.ofList component))
  | component :: rest =>
    (if component = ['*', '*'] then directories
      else componentLanguage (utf8 (String.ofList component)) * {[47]}) * patternLanguage rest

def Tok.language : Tok → Language UInt8
  | .lit byte => {[byte]}
  | .star => runs
  | .anyTail => ⊤
  | .anyDirs => directories

/-! ## One byte of a name -/

variable {language : Language UInt8} {byte : UInt8} {rest : Bytes}

theorem cons_mem_lit_mul {expected : UInt8} :
    byte :: rest ∈ Tok.language (.lit expected) * language ↔ byte = expected ∧ rest ∈ language := by
  rw [cons_mem_mul]
  constructor
  · rintro (⟨empty, -⟩ | ⟨left, right, rfl, taken, behind⟩)
    · exact nomatch (show ([] : Bytes) = [expected] from empty)
    obtain ⟨rfl, rfl⟩ := List.cons.inj (show byte :: left = [expected] from taken)
    exact ⟨rfl, behind⟩
  rintro ⟨rfl, behind⟩
  exact .inr ⟨[], rest, rfl, rfl, behind⟩

theorem cons_mem_star_mul :
    byte :: rest ∈ Tok.star.language * language ↔
      byte :: rest ∈ language ∨ (byte ≠ 47 ∧ rest ∈ Tok.star.language * language) := by
  rw [cons_mem_mul]
  apply or_congr (and_iff_right List.not_mem_nil)
  constructor
  · rintro ⟨left, right, rfl, taken, behind⟩
    obtain ⟨differs, free⟩ := not_or.mp (mt List.mem_cons.mpr taken)
    exact ⟨Ne.symm differs, left, free, right, behind, rfl⟩
  rintro ⟨differs, left, free, right, behind, rfl⟩
  refine ⟨left, right, rfl, fun inside => ?_, behind⟩
  rcases List.mem_cons.mp inside with same | inside
  · exact differs same.symm
  · exact free inside

theorem cons_mem_anyTail_mul :
    byte :: rest ∈ Tok.anyTail.language * language ↔
      byte :: rest ∈ language ∨ rest ∈ Tok.anyTail.language * language := by
  rw [cons_mem_mul]
  apply or_congr (and_iff_right trivial)
  constructor
  · rintro ⟨left, right, rfl, -, behind⟩
    exact ⟨left, trivial, right, behind, rfl⟩
  rintro ⟨left, -, right, behind, rfl⟩
  exact ⟨left, right, rfl, trivial, behind⟩

/-- A slash behind which the rest is in the language. -/
def slashThen (language : Language UInt8) : Language UInt8 :=
  {word | ∃ before after, word = before ++ 47 :: after ∧ after ∈ language}

theorem cons_mem_slashThen :
    byte :: rest ∈ slashThen language ↔
      rest ∈ slashThen language ∨ (byte = 47 ∧ rest ∈ language) := by
  constructor
  · rintro ⟨before, after, same, behind⟩
    cases before with
    | nil =>
      obtain ⟨rfl, rfl⟩ := List.cons.inj same
      exact .inr ⟨rfl, behind⟩
    | cons head tail =>
      exact .inl ⟨tail, after, (List.cons.inj same).2, behind⟩
  rintro (⟨before, after, rfl, behind⟩ | ⟨rfl, behind⟩)
  · exact ⟨byte :: before, after, rfl, behind⟩
  · exact ⟨[], rest, rfl, behind⟩

theorem mem_anyDirs_mul {name : Bytes} :
    name ∈ Tok.anyDirs.language * language ↔ name ∈ language ∨ name ∈ slashThen language := by
  constructor
  · rintro ⟨left, rfl | ends, right, behind, rfl⟩
    · exact .inl behind
    obtain ⟨before, rfl⟩ := List.getLast?_eq_some_iff.mp ends
    exact .inr ⟨before, right, List.append_assoc _ _ _, behind⟩
  rintro (inside | ⟨before, after, rfl, behind⟩)
  · exact ⟨[], .inl rfl, name, inside, rfl⟩
  · exact ⟨before ++ [47], .inr List.getLast?_concat, after, behind, List.append_assoc _ _ _⟩

/-! ## Rows -/

/-- The row tells of each rest of the name whether it is in the language. -/
def RowOf (language : Language UInt8) : Bytes → List Bool → Prop
  | [], row => ∃ here : Bool, row = [here] ∧ (here = true ↔ [] ∈ language)
  | byte :: rest, row => ∃ (here : Bool) (after : List Bool), row = here :: after ∧
      (here = true ↔ byte :: rest ∈ language) ∧ RowOf language rest after

theorem RowOf.headD {name : Bytes} {row : List Bool} (known : RowOf language name row) :
    row.headD false = true ↔ name ∈ language := by
  cases name with
  | nil =>
    obtain ⟨here, rfl, exact⟩ := known
    exact exact
  | cons byte rest =>
    obtain ⟨here, after, rfl, exact, -⟩ := known
    exact exact

theorem rowOf_one (name : Bytes) : RowOf 1 name (List.replicate name.length false ++ [true]) := by
  induction name with
  | nil => exact ⟨true, rfl, iff_of_true rfl rfl⟩
  | cons byte rest ih =>
    exact ⟨false, _, rfl, iff_of_false Bool.false_ne_true (List.cons_ne_nil _ _), ih⟩

/-- One token: the row of the language with the token in front, and the flag that
the directories are behind. -/
theorem RowOf.matchRow (token : Tok) {name : Bytes} {row : List Bool}
    (known : RowOf language name row) :
    RowOf (token.language * language) name (matchRow token name row).1 ∧
      (token = .anyDirs → ((matchRow token name row).2 = true ↔ name ∈ slashThen language)) := by
  induction name generalizing row with
  | nil =>
    obtain ⟨here, rfl, exact⟩ := known
    constructor
    · cases token with
      | lit expected =>
        refine ⟨false, rfl, iff_of_false Bool.false_ne_true fun inside => ?_⟩
        exact nomatch (show ([] : Bytes) = [expected] from (nil_mem_mul.mp inside).1)
      | star =>
        exact ⟨here, rfl, exact.trans (nil_mem_mul.trans (and_iff_right List.not_mem_nil)).symm⟩
      | anyTail =>
        exact ⟨here, rfl, exact.trans (nil_mem_mul.trans (and_iff_right (Set.mem_univ _))).symm⟩
      | anyDirs =>
        exact ⟨here, rfl, exact.trans (nil_mem_mul.trans (and_iff_right (.inl rfl))).symm⟩
    rintro -
    refine iff_of_false (by cases token <;> exact Bool.false_ne_true) ?_
    rintro ⟨before, after, same, -⟩
    exact absurd same (by simp)
  | cons byte rest ih =>
    obtain ⟨here, after, rfl, exact, later⟩ := known
    obtain ⟨done, flag⟩ := ih later
    cases token with
    | lit expected =>
      refine ⟨⟨_, _, rfl, ?_, done⟩, nofun⟩
      rw [cons_mem_lit_mul, ← later.headD, Bool.and_eq_true, decide_eq_true_iff]
    | star =>
      refine ⟨⟨_, _, rfl, ?_, done⟩, nofun⟩
      rw [cons_mem_star_mul, ← done.headD, ← exact, Bool.or_eq_true, Bool.and_eq_true,
        decide_eq_true_iff]
    | anyTail =>
      refine ⟨⟨_, _, rfl, ?_, done⟩, nofun⟩
      rw [cons_mem_anyTail_mul, ← done.headD, ← exact, Bool.or_eq_true]
    | anyDirs =>
      have flagged : ((Handlers.matchRow .anyDirs rest after).2 ||
          (byte = 47 && after.headD false)) = true ↔ byte :: rest ∈ slashThen language := by
        rw [cons_mem_slashThen, ← flag rfl, ← later.headD, Bool.or_eq_true, Bool.and_eq_true,
          decide_eq_true_iff]
      refine ⟨⟨_, _, rfl, ?_, done⟩, fun _ => flagged⟩
      rw [mem_anyDirs_mul, ← exact, ← flagged, Bool.or_eq_true]

/-- The matcher decides the product of the tokens' languages. -/
theorem globMatch_iff_mem_prod (tokens : List Tok) (name : Bytes) :
    globMatch tokens name = true ↔ name ∈ (tokens.map Tok.language).prod := by
  suffices rows : RowOf (tokens.map Tok.language).prod name
      (tokens.foldr (fun token row => (matchRow token name row).1)
        (List.replicate name.length false ++ [true])) from rows.headD
  induction tokens with
  | nil => exact rowOf_one name
  | cons token tokens ih => exact (ih.matchRow token).1

/-! ## Tokens of a pattern -/

theorem prod_component (bytes : Bytes) :
    ((bytes.map fun byte => if byte = 42 then Tok.star else .lit byte).map Tok.language).prod =
      componentLanguage bytes := by
  induction bytes with
  | nil => rfl
  | cons byte rest ih =>
    rw [List.map_cons, List.map_cons, List.prod_cons, ih, componentLanguage]
    split <;> rfl

theorem prod_tokenizeComponents (separated : Bool) (components : List (List Char)) :
    ((tokenizeComponents separated components).map Tok.language).prod =
      (if separated ∧ components ≠ [] then {[47]} else 1) * patternLanguage components := by
  induction components generalizing separated with
  | nil => simp [tokenizeComponents, patternLanguage]
  | cons component rest ih =>
    have slash : ((if separated then [Tok.lit 47] else []).map Tok.language).prod =
        if separated ∧ component :: rest ≠ [] then {[47]} else 1 := by
      cases separated <;> simp [Tok.language]
    rw [tokenizeComponents, List.map_append, List.prod_append, slash]
    congr 1
    cases rest with
    | nil =>
      rw [patternLanguage]
      split
      · exact mul_one _
      · rw [tokenizeComponents, List.append_nil, prod_component]
    | cons next rest =>
      rw [patternLanguage]
      · split
        · rw [if_neg (by simp), List.map_cons, List.prod_cons, ih, if_neg (by simp), one_mul]
          rfl
        rw [List.map_append, List.prod_append, prod_component, ih,
          if_pos ⟨rfl, List.cons_ne_nil _ _⟩, mul_assoc]
      · exact List.cons_ne_nil _ _

/-- A pattern matches exactly the names in its language. -/
theorem globMatch_tokenize_iff (pattern : String) (name : Bytes) :
    globMatch (tokenize pattern) name = true ↔
      name ∈ patternLanguage (splitAll '/' pattern.toList) := by
  have product := prod_tokenizeComponents false (splitAll '/' pattern.toList)
  rw [if_neg (by simp), one_mul] at product
  rw [globMatch_iff_mem_prod, tokenize, product]

end Roci.Handlers
