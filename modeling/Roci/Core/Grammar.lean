import Roci.Core.Names
import Roci.Library.Languages

/-!
# The grammar of repository names

The check of a request and the check of a configured subpath were written apart.
Both walk over runs of separators, the one over `.`, `_` and `-`, the other over
all that is not `[a-z0-9]`, and both accept one regular language.
-/

namespace Roci.Core

open Roci.Library Roci.Storage
open Computability

/-! ## The language -/

def alnum : Language UInt8 := {word | ∃ byte, word = [byte] ∧ isLowerAlnum byte = true}

/-- `\.|_|__|-+`. -/
def separator : Language UInt8 := {[46]} + {[95]} + {[95, 95]} + {[45]} * {[45]}∗

/-- `[a-z0-9]+((\.|_|__|-+)[a-z0-9]+)*`. -/
def component : Language UInt8 := alnum * alnum∗ * (separator * (alnum * alnum∗))∗

def repositoryName : Language UInt8 := component * ({[47]} * component)∗

/-! ## The check of the configuration -/

/-- The walk over a component with the run read last; a run ends at `[a-z0-9]` or
at the end of the component. -/
def prefixRuns (run : Bytes) : Bytes → Bool
  | [] => run = [46] || run = [95] || run = [95, 95] || run.all (· = 45)
  | byte :: rest =>
    if isLowerAlnum byte then
      (run = [46] || run = [95] || run = [95, 95] || run.all (· = 45)) && prefixRuns [] rest
    else prefixRuns (run ++ [byte]) rest

def prefixComponent (bytes : Bytes) : Bool :=
  bytes.head?.any isLowerAlnum && bytes.getLast?.any isLowerAlnum && prefixRuns [] bytes

def isRepoPrefix (text : String) : Bool :=
  (utf8 text).length ≤ 255 &&
    (splitAll '/' text.toList).all fun piece => prefixComponent (utf8 (String.ofList piece))

/-! ## Runs of separators -/

/-- What a component may continue with: `[a-z0-9]`, or a separator and one. -/
def unit : Language UInt8 := alnum + separator * alnum

theorem mem_dashes_iff {word : Bytes} :
    word ∈ ({[45]} * {[45]}∗ : Language UInt8) ↔ word ≠ [] ∧ word.all (· = 45) = true := by
  induction word with
  | nil => exact iff_of_false (fun inside => nomatch (nil_mem_mul.mp inside).1) (fun h => h.1 rfl)
  | cons byte rest ih =>
    have behind : rest ∈ ({[45]}∗ : Language UInt8) ↔ rest.all (· = 45) = true := by
      rw [← one_add_mul_kstar, Language.mem_add, ih, Language.mem_one]
      cases rest <;> simp
    rw [cons_mem_mul, List.all_cons, Bool.and_eq_true, decide_eq_true_iff, ← behind]
    constructor
    · rintro (⟨empty, -⟩ | ⟨left, right, rfl, taken, later⟩)
      · exact nomatch (show ([] : Bytes) = [45] from empty)
      obtain ⟨rfl, rfl⟩ := List.cons.inj (show byte :: left = [45] from taken)
      exact ⟨List.cons_ne_nil _ _, rfl, later⟩
    rintro ⟨-, rfl, later⟩
    exact .inr ⟨[], rest, rfl, rfl, later⟩

variable {run : Bytes}

theorem validSeparatorRun_iff : validSeparatorRun run = true ↔ run = [] ∨ run ∈ separator := by
  simp only [validSeparatorRun, separator, Language.mem_add, mem_dashes_iff, Bool.or_eq_true,
    decide_eq_true_iff]
  by_cases empty : run = []
  · simp [empty]
  simp only [empty, false_or, ne_eq, not_false_eq_true, true_and]
  exact Iff.rfl

theorem isSeparator_of_mem (inside : run ∈ separator) : ∀ byte ∈ run, isSeparator byte = true := by
  rcases inside with ((rfl | rfl) | rfl) | dashes
  · simp [isSeparator]
  · simp [isSeparator]
  · simp [isSeparator]
  intro byte found
  have dash := List.all_eq_true.mp (mem_dashes_iff.mp dashes).2 byte found
  rw [of_decide_eq_true dash]
  rfl

theorem mem_unit_iff {word : Bytes} :
    word ∈ unit ↔ ∃ run byte, word = run ++ [byte] ∧ validSeparatorRun run = true ∧
      isLowerAlnum byte = true := by
  simp only [validSeparatorRun_iff]
  constructor
  · rintro (⟨byte, rfl, lower⟩ | ⟨run, inside, _, ⟨byte, rfl, lower⟩, rfl⟩)
    · exact ⟨[], byte, rfl, .inl rfl, lower⟩
    · exact ⟨run, byte, rfl, .inr inside, lower⟩
  rintro ⟨run, byte, rfl, rfl | inside, lower⟩
  · exact .inl ⟨byte, rfl, lower⟩
  · exact .inr ⟨run, inside, [byte], ⟨byte, rfl, lower⟩, rfl⟩

/-- A run of bytes such as separators have, and then one as `[a-z0-9]` has: the
run is a separator or nothing. -/
theorem append_mem_units_iff {inRun : UInt8 → Prop}
    (separators : ∀ byte, isSeparator byte = true → inRun byte)
    (letters : ∀ byte, isLowerAlnum byte = true → ¬ inRun byte) {rest : Bytes} {byte : UInt8}
    (all : ∀ found ∈ run, inRun found) (ends : ¬ inRun byte) :
    run ++ byte :: rest ∈ unit∗ ↔
      validSeparatorRun run = true ∧ isLowerAlnum byte = true ∧ rest ∈ unit∗ := by
  rw [← one_add_mul_kstar, Language.mem_add, Language.mem_one, one_add_mul_kstar]
  constructor
  · rintro (empty | ⟨word, inside, more, later, whole⟩)
    · exact absurd empty (by simp)
    obtain ⟨other, next, rfl, valid, lower⟩ := mem_unit_iff.mp inside
    have otherAll : ∀ found ∈ other, inRun found := by
      intro found inOther
      rcases validSeparatorRun_iff.mp valid with rfl | isSeparated
      · exact nomatch inOther
      · exact separators _ (isSeparator_of_mem isSeparated found inOther)
    obtain ⟨rfl, rfl, rfl⟩ := append_cons_inj all otherAll ends (letters next lower)
      (whole.symm.trans (List.append_assoc _ _ _))
    exact ⟨valid, lower, later⟩
  rintro ⟨valid, lower, later⟩
  exact .inr ⟨run ++ [byte], mem_unit_iff.mpr ⟨run, byte, rfl, valid, lower⟩, rest, later,
    List.append_assoc _ _ _⟩

theorem not_lower_of_isSeparator (byte : UInt8) (separates : isSeparator byte = true) :
    ¬ isLowerAlnum byte = true := by
  simp only [isSeparator, Bool.or_eq_true, decide_eq_true_iff] at separates
  rcases separates with (rfl | rfl) | rfl <;> decide

theorem append_lower_mem_units_iff {rest : Bytes} {byte : UInt8}
    (all : ∀ found ∈ run, ¬ isLowerAlnum found = true) (lower : isLowerAlnum byte = true) :
    run ++ byte :: rest ∈ unit∗ ↔ validSeparatorRun run = true ∧ rest ∈ unit∗ := by
  rw [append_mem_units_iff not_lower_of_isSeparator (fun _ => not_not.mpr) all (not_not.mpr lower),
    and_iff_right lower]

theorem mem_units_of_all (all : ∀ byte ∈ run, ¬ isLowerAlnum byte = true) :
    run ∈ unit∗ ↔ run = [] := by
  refine ⟨fun inside => ?_, fun empty => empty ▸ Language.nil_mem_kstar _⟩
  rw [← one_add_mul_kstar, Language.mem_add, Language.mem_one] at inside
  rcases inside with empty | ⟨word, inside, more, -, rfl⟩
  · exact empty
  obtain ⟨other, next, rfl, -, lower⟩ := mem_unit_iff.mp inside
  exact absurd lower (all next (by simp))

variable {bytes : Bytes}

theorem validateRuns_iff (all : ∀ byte ∈ run, isSeparator byte = true) :
    validateRuns run bytes = .ok () ↔ run ++ bytes ∈ unit∗ := by
  induction bytes generalizing run with
  | nil =>
    rw [List.append_nil, validateRuns,
      mem_units_of_all fun byte inside => not_lower_of_isSeparator byte (all byte inside)]
    cases run with
    | nil => exact iff_of_true rfl rfl
    | cons head tail =>
      refine iff_of_false ?_ (List.cons_ne_nil _ _)
      simp only [List.isEmpty_cons, Bool.false_eq_true, if_false]
      split <;> exact nofun
  | cons byte rest ih =>
    rw [validateRuns]
    split
    · rename_i separates
      have longer : ∀ found ∈ run ++ [byte], isSeparator found = true :=
        List.forall_mem_append.mpr ⟨all, List.forall_mem_singleton.mpr separates⟩
      refine (ih longer).trans ?_
      rw [List.append_assoc, List.singleton_append]
    rename_i ends
    have later : validateRuns [] rest = .ok () ↔ rest ∈ unit∗ := ih (List.forall_mem_nil _)
    have notSeparator : ∀ byte, isLowerAlnum byte = true → ¬ isSeparator byte = true :=
      fun byte lower separates => not_lower_of_isSeparator byte separates lower
    rw [append_mem_units_iff (fun _ => id) notSeparator all ends, ← later]
    cases validSeparatorRun run <;> cases isLowerAlnum byte <;> simp

theorem prefixRuns_iff (all : ∀ byte ∈ run, ¬ isLowerAlnum byte = true)
    (ends : bytes.getLast?.any isLowerAlnum = true ∨ run = [] ∧ bytes = []) :
    prefixRuns run bytes = true ↔ run ++ bytes ∈ unit∗ := by
  induction bytes generalizing run with
  | nil =>
    obtain ⟨rfl, -⟩ := ends.resolve_left nofun
    exact iff_of_true rfl (Language.nil_mem_kstar _)
  | cons byte rest ih =>
    replace ends := ends.resolve_right nofun
    rw [List.getLast?_cons] at ends
    rw [prefixRuns]
    split
    · rename_i lower
      have restEnds : rest.getLast?.any isLowerAlnum = true ∨ ([] : Bytes) = [] ∧ rest = [] := by
        cases last : rest.getLast? with
        | none => exact .inr ⟨rfl, List.getLast?_eq_none_iff.mp last⟩
        | some final => exact .inl (by rwa [last] at ends)
      rw [append_lower_mem_units_iff all lower, Bool.and_eq_true,
        ih (List.forall_mem_nil _) restEnds]
      exact Iff.rfl
    rename_i other
    have restEnds : rest.getLast?.any isLowerAlnum = true := by
      cases last : rest.getLast? with
      | none => rw [last] at ends; exact absurd ends other
      | some final => rwa [last] at ends
    have longer : ∀ found ∈ run ++ [byte], ¬ isLowerAlnum found = true :=
      List.forall_mem_append.mpr ⟨all, List.forall_mem_singleton.mpr other⟩
    rw [ih longer (.inl restEnds), List.append_assoc, List.singleton_append]

/-! ## Components -/

theorem component_eq : component = alnum * unit∗ := by
  rw [component, unit, kstar_add, mul_assoc, mul_assoc]

theorem mem_component_iff :
    bytes ∈ component ↔ bytes.head?.any isLowerAlnum = true ∧ bytes ∈ unit∗ := by
  rw [component_eq]
  cases bytes with
  | nil =>
    refine iff_of_false (fun inside => ?_) (fun starts => nomatch starts.1)
    obtain ⟨byte, nothing, -⟩ := (nil_mem_mul.mp inside).1
    exact nomatch nothing
  | cons byte rest =>
    constructor
    · rintro ⟨_, ⟨first, rfl, lower⟩, more, later, whole⟩
      obtain ⟨rfl, rfl⟩ := List.cons.inj whole
      exact ⟨lower, (append_lower_mem_units_iff (List.forall_mem_nil _) lower).mpr ⟨rfl, later⟩⟩
    rintro ⟨lower, inside⟩
    have later := (append_lower_mem_units_iff (List.forall_mem_nil _) lower).mp inside
    exact ⟨[byte], ⟨byte, rfl, lower⟩, rest, later.2, rfl⟩

/-- A component ends as it starts. -/
theorem getLast_of_mem_units (inside : bytes ∈ unit∗) (some : bytes ≠ []) :
    bytes.getLast?.any isLowerAlnum = true := by
  rw [← one_add_kstar_mul, Language.mem_add, Language.mem_one] at inside
  obtain ⟨front, -, word, last, rfl⟩ := inside.resolve_left some
  obtain ⟨run, byte, rfl, -, lower⟩ := mem_unit_iff.mp last
  change ((front ++ (run ++ [byte])).getLast?).any _ = true
  rw [← List.append_assoc, List.getLast?_concat]
  exact lower

theorem prefixComponent_iff : prefixComponent bytes = true ↔ bytes ∈ component := by
  rw [mem_component_iff, prefixComponent, Bool.and_eq_true, Bool.and_eq_true]
  constructor
  · rintro ⟨⟨starts, ends⟩, runs⟩
    exact ⟨starts, (prefixRuns_iff (List.forall_mem_nil _) (.inl ends)).mp runs⟩
  rintro ⟨starts, inside⟩
  have ends := getLast_of_mem_units inside (by rintro rfl; exact nomatch starts)
  exact ⟨⟨starts, ends⟩, (prefixRuns_iff (List.forall_mem_nil _) (.inl ends)).mpr inside⟩

theorem validateNameComponent_iff (text : String) :
    validateNameComponent text = .ok () ↔ utf8 text ∈ component := by
  have runs : validateRuns [] (utf8 text) = .ok () ↔ utf8 text ∈ unit∗ :=
    validateRuns_iff (List.forall_mem_nil _)
  rw [mem_component_iff, ← runs, validateNameComponent]
  split
  · rename_i dots
    refine iff_of_false nofun fun starts => ?_
    simp only [Bool.or_eq_true, decide_eq_true_iff, String.isEmpty_iff] at dots
    rcases dots with (rfl | rfl) | rfl <;> exact absurd starts.1 (by decide)
  dsimp only
  split
  · rename_i outside
    refine iff_of_false nofun fun starts => ?_
    have ends := getLast_of_mem_units (runs.mp starts.2) fun empty =>
      nomatch (empty ▸ starts.1 : (List.head? ([] : Bytes)).any isLowerAlnum = true)
    simp [starts.1, ends] at outside
  rename_i bounded
  simp only [Bool.or_eq_true, not_or, Bool.not_eq_true', Bool.not_eq_false] at bounded
  exact (and_iff_right bounded.1).symm

/-! ## Names -/

theorem component_free {word : Bytes} (inside : word ∈ component) : (47 : UInt8) ∉ word := by
  have free : ∀ pieces : List Bytes, (∀ piece ∈ pieces, piece ∈ unit) →
      (47 : UInt8) ∉ pieces.flatten := by
    intro pieces units slash
    obtain ⟨piece, listed, slash⟩ := List.mem_flatten.mp slash
    obtain ⟨run, byte, rfl, valid, lower⟩ := mem_unit_iff.mp (units piece listed)
    rcases List.mem_append.mp slash with slash | slash
    · rcases validSeparatorRun_iff.mp valid with rfl | separated
      · exact nomatch slash
      · exact absurd (isSeparator_of_mem separated _ slash) (by decide)
    rw [← List.mem_singleton.mp slash] at lower
    exact absurd lower (by decide)
  obtain ⟨pieces, rfl, units⟩ := Language.mem_kstar.mp (mem_component_iff.mp inside).2
  exact free pieces units

theorem slash_not_mem_utf8EncodeChar {character : Char} (other : character ≠ '/') :
    (47 : UInt8) ∉ String.utf8EncodeChar character := by
  have differs : character.val.toNat ≠ 47 := fun same =>
    other (Char.ext (UInt32.toNat_inj.mp same))
  unfold String.utf8EncodeChar
  simp only
  generalize character.val.toNat = code at differs
  have slash : (47 : UInt8).toNat = 47 := rfl
  split_ifs <;>
    simp only [List.mem_cons, List.not_mem_nil, or_false, ← UInt8.toNat_inj, slash,
      UInt8.toNat_ofNat'] <;>
    omega

theorem slash_not_mem_utf8 {characters : List Char} (free : '/' ∉ characters) :
    (47 : UInt8) ∉ utf8 (String.ofList characters) := by
  rw [utf8_ofList, List.mem_flatMap]
  rintro ⟨character, inside, slash⟩
  exact slash_not_mem_utf8EncodeChar (ne_of_mem_of_not_mem inside free) slash

theorem utf8_splitOn (text : List Char) :
    (utf8 (String.ofList text)).splitOn 47 =
      (text.splitOn '/').map fun piece => utf8 (String.ofList piece) := by
  by_cases slash : '/' ∈ text
  · obtain ⟨front, rest, rfl, free⟩ := List.eq_append_cons_of_mem slash
    have cut : utf8 (String.ofList (front ++ '/' :: rest)) =
        utf8 (String.ofList front) ++ 47 :: utf8 (String.ofList rest) := by
      simp only [utf8_ofList, List.flatMap_append, List.flatMap_cons]
      rfl
    rw [cut, List.splitOn_append_cons_self_of_not_mem (slash_not_mem_utf8 free),
      List.splitOn_append_cons_self_of_not_mem free, List.map_cons, utf8_splitOn rest]
  rw [List.splitOn_eq_singleton slash, List.splitOn_eq_singleton (slash_not_mem_utf8 slash)]
  rfl
termination_by text.length

theorem mem_repositoryName_iff (text : String) :
    utf8 text ∈ repositoryName ↔
      ∀ piece ∈ splitAll '/' text.toList, utf8 (String.ofList piece) ∈ component := by
  have pieces := utf8_splitOn text.toList
  rw [String.ofList_toList] at pieces
  rw [repositoryName, mem_separated_iff fun _ => component_free, pieces, splitAll_eq,
    List.forall_mem_map]

/-- A request and a configured subpath are checked against one grammar. -/
theorem name_grammar (text : String) :
    ((∃ name, RepositoryName.parse text = .ok name) ↔
      (utf8 text).length ≤ 255 ∧ utf8 text ∈ repositoryName) ∧
    (isRepoPrefix text = true ↔ (utf8 text).length ≤ 255 ∧ utf8 text ∈ repositoryName) := by
  constructor
  · have parsed : (∃ name, RepositoryName.parse text = .ok name) ↔ validateName text = .ok () := by
      unfold RepositoryName.parse
      split
      · rename_i failed
        exact iff_of_false (fun ⟨_, found⟩ => nomatch found) fun valid =>
          nomatch failed.symm.trans valid
      · rename_i valid
        exact iff_of_true ⟨_, rfl⟩ valid
    rw [parsed, validateName]
    split
    · rename_i outside
      refine iff_of_false nofun fun ⟨short, inside⟩ => ?_
      rw [Bool.or_eq_true, String.isEmpty_iff, decide_eq_true_iff, maxName] at outside
      rcases outside with rfl | long
      · have first := (mem_repositoryName_iff "").mp inside [] List.mem_cons_self
        exact nomatch (mem_component_iff.mp first).1
      · omega
    · rename_i bounded
      rw [Bool.or_eq_true, not_or, decide_eq_true_iff, maxName, not_lt] at bounded
      simp only [validateComponents_eq_ok_iff, List.forall_mem_map, validateNameComponent_iff]
      rw [← mem_repositoryName_iff, and_iff_right bounded.2]
  · rw [isRepoPrefix, Bool.and_eq_true, decide_eq_true_iff, List.all_eq_true,
      mem_repositoryName_iff]
    simp only [prefixComponent_iff]

end Roci.Core
