import Mathlib.Data.Prod.Lex
import Roci.Handlers.Access
import Roci.Library.Selection

/-!
# Which rule decides

Of the rules that match a repository the one with the most literal bytes decides,
of several the one with the fewest wildcards, of several the first.  It alone says
which actions a user holds, so rules can change places as long as those of equal
rank keep their order.
-/

namespace Roci.Handlers

open Roci.Library

/-! ## Actions in a set -/

namespace ActionSet

variable {action : Action}

theorem contains_union (first second : ActionSet) :
    (first.union second).contains action = true ↔
      first.contains action = true ∨ second.contains action = true := by
  have bitwise : (first.bits ||| second.bits) &&& (of action).bits =
      (first.bits &&& (of action).bits) ||| (second.bits &&& (of action).bits) := by
    apply UInt8.toBitVec_inj.mp
    ext index
    simp [Bool.and_or_distrib_right]
  rw [contains, contains, contains, union, bitwise, bne_iff_ne, bne_iff_ne, bne_iff_ne, Ne,
    UInt8.or_eq_zero_iff, Decidable.not_and_iff_not_or_not]

theorem contains_foldl {Item : Type} (actions : Item → ActionSet) (items : List Item)
    (set : ActionSet) :
    (items.foldl (fun set item => set.union (actions item)) set).contains action = true ↔
      set.contains action = true ∨ ∃ item ∈ items, (actions item).contains action = true := by
  induction items generalizing set with
  | nil => simp
  | cons item items ih =>
    rw [List.foldl_cons, ih, contains_union, or_assoc, List.exists_mem_cons_iff]

theorem contains_fromActions (actions : List Action) :
    (fromActions actions).contains action = true ↔ action ∈ actions := by
  have single : ∀ other : Action, (of other).contains action = true ↔ other = action := by
    intro other
    cases other <;> cases action <;> decide
  have empty : none.contains action = false := by cases action <;> rfl
  simp only [fromActions, contains_foldl, empty, single, Bool.false_eq_true, false_or,
    exists_eq_right]

end ActionSet

/-! ## The rule that decides -/

namespace RepositoryPolicy

def matchesName (repo : String) (policy : RepositoryPolicy) : Bool :=
  globMatch (tokenize policy.pattern) (utf8 repo)

/-- Literal bytes first, then few wildcards. -/
def rank (policy : RepositoryPolicy) : Nat ×ₗ Natᵒᵈ :=
  toLex ((tokenize policy.pattern).countP Tok.isLit,
    OrderDual.toDual ((tokenize policy.pattern).countP (!·.isLit)))

theorem moreSpecific_compile (policy best : RepositoryPolicy) :
    AccessPolicy.moreSpecific (Rule.compile policy) (Rule.compile best) =
      decide (best.rank < policy.rank) := by
  rw [Bool.eq_iff_iff, decide_eq_true_iff, rank, rank, Prod.Lex.toLex_lt_toLex,
    OrderDual.toDual_lt_toDual, AccessPolicy.moreSpecific, Bool.or_eq_true, Bool.and_eq_true,
    decide_eq_true_iff, decide_eq_true_iff, decide_eq_true_iff, eq_comm]
  simp only [Rule.compile, List.countP_eq_length_filter]

end RepositoryPolicy

namespace AccessControlConfig

variable (config : AccessControlConfig)

/-- The policy is the first of the most specific ones that match. -/
def Decides (repo : String) (policy : RepositoryPolicy) : Prop :=
  Selected (RepositoryPolicy.matchesName repo) RepositoryPolicy.rank config.repositories policy

def InGroup (ldapGroups : List String) (name group : String) : Prop :=
  (∃ users, (group, users) ∈ config.groups ∧ name ∈ users) ∨ group ∈ ldapGroups

def Gives (ldapGroups : List String) (policy : RepositoryPolicy) (user : Option String)
    (action : Action) : Prop :=
  action ∈ policy.anonymous ∨ ∃ name, user = some name ∧
    (action ∈ policy.authenticated ∨ ∃ identity ∈ policy.policies, action ∈ identity.actions ∧
      (name ∈ identity.users ∨ ∃ group ∈ identity.groups, config.InGroup ldapGroups name group))

end AccessControlConfig

variable {config : AccessControlConfig} {user : Option String} {ldapGroups : List String}
  {repo : String}

theorem winningRule_compile :
    (AccessPolicy.compile config).winningRule repo =
      (selectFirst (RepositoryPolicy.matchesName repo) RepositoryPolicy.rank
        config.repositories).map Rule.compile := by
  rw [AccessPolicy.winningRule, AccessPolicy.compile, List.foldl_map, selectFirst]
  change List.foldl _ (Option.map Rule.compile none) _ = _
  refine List.foldl_hom (Option.map Rule.compile) fun best policy => ?_
  have specific : (best.map Rule.compile).all (AccessPolicy.moreSpecific (Rule.compile policy)) =
      best.all fun best => best.rank < policy.rank := by
    cases best with
    | none => rfl
    | some best => exact policy.moreSpecific_compile best
  rw [specific, RepositoryPolicy.matchesName, Rule.compile]
  split <;> rfl

theorem mem_groups_iff {name group : String} :
    group ∈ (AccessPolicy.compile config).userGroups name ++ ldapGroups ↔
      config.InGroup ldapGroups name group := by
  simp only [AccessPolicy.compile, AccessControlConfig.InGroup, List.mem_append, List.mem_flatMap,
    List.mem_map, List.mem_filter, decide_eq_true_iff, Prod.exists]
  refine or_congr_left ⟨?_, ?_⟩
  · rintro ⟨_, users, listed, _, ⟨inside, rfl⟩, rfl⟩
    exact ⟨users, listed, inside⟩
  rintro ⟨users, listed, inside⟩
  exact ⟨group, users, listed, name, ⟨inside, rfl⟩, rfl⟩

theorem contains_grants_iff {policy : RepositoryPolicy} (decides : config.Decides repo policy)
    (noAdmin : user.any (config.admins.contains ·) = false) (action : Action) :
    ((AccessPolicy.compile config).grants user ldapGroups repo).contains action = true ↔
      config.Gives ldapGroups policy user action := by
  have winner : (AccessPolicy.compile config).winningRule repo = some (Rule.compile policy) := by
    rw [winningRule_compile, selectFirst_eq_some_iff.mpr decides, Option.map_some]
  unfold AccessPolicy.grants AccessControlConfig.Gives
  rw [show (AccessPolicy.compile config).admins = config.admins from rfl, noAdmin,
    if_neg Bool.false_ne_true, winner]
  rcases user with _ | name
  · simp [Rule.compile, ActionSet.contains_fromActions]
  simp only [ActionSet.contains_foldl, ActionSet.contains_union, Rule.compile,
    ActionSet.contains_fromActions, or_assoc, Option.some.injEq, exists_eq_left']
  refine or_congr_right (or_congr_right ?_)
  simp only [List.mem_filter, List.mem_map, Bool.or_eq_true, List.contains_iff_mem,
    List.any_eq_true]
  constructor
  · rintro ⟨_, ⟨⟨identity, listed, rfl⟩, named⟩, given⟩
    refine ⟨identity, listed, (ActionSet.contains_fromActions _).mp given, ?_⟩
    exact named.imp_right fun ⟨group, inside, named⟩ => ⟨group, named, mem_groups_iff.mp inside⟩
  rintro ⟨identity, listed, given, named⟩
  refine ⟨_, ⟨⟨identity, listed, rfl⟩, ?_⟩, (ActionSet.contains_fromActions _).mpr given⟩
  exact named.imp_right fun ⟨group, named, inside⟩ => ⟨group, mem_groups_iff.mpr inside, named⟩

/-- An administrator holds every action; where no rule matches, nobody else holds
any; otherwise one rule decides, and the places of rules of different rank do not
matter. -/
theorem access_decided (config : AccessControlConfig) (user : Option String)
    (ldapGroups : List String) (repo : String) :
    (user.any (config.admins.contains ·) = true →
      (AccessPolicy.compile config).grants user ldapGroups repo = .all) ∧
    (user.any (config.admins.contains ·) = false →
      ((∀ policy ∈ config.repositories, policy.matchesName repo = false) →
        (AccessPolicy.compile config).grants user ldapGroups repo = .none) ∧
      ((∃ policy ∈ config.repositories, policy.matchesName repo = true) →
        ∃ policy, config.Decides repo policy ∧ ∀ action,
          ((AccessPolicy.compile config).grants user ldapGroups repo).contains action = true ↔
            config.Gives ldapGroups policy user action)) ∧
    ∀ reordered : List RepositoryPolicy,
      (∀ rank, reordered.filter (·.rank = rank) = config.repositories.filter (·.rank = rank)) →
      (AccessPolicy.compile { config with repositories := reordered }).grants user ldapGroups repo =
        (AccessPolicy.compile config).grants user ldapGroups repo := by
  refine ⟨fun admin => if_pos admin, fun noAdmin => ⟨fun unmatched => ?_, fun matched => ?_⟩,
    fun reordered alike => ?_⟩
  · have noWinner : (AccessPolicy.compile config).winningRule repo = none := by
      rw [winningRule_compile, Option.map_eq_none_iff, Option.eq_none_iff_forall_ne_some]
      intro policy found
      have selected := selectFirst_eq_some_iff.mp found
      exact absurd selected.isEligible (by rw [unmatched policy selected.mem]; decide)
    unfold AccessPolicy.grants
    rw [show (AccessPolicy.compile config).admins = config.admins from rfl, noAdmin,
      if_neg Bool.false_ne_true, noWinner]
  · obtain ⟨some, listed, matching⟩ := matched
    cases found : selectFirst (RepositoryPolicy.matchesName repo) RepositoryPolicy.rank
        config.repositories with
    | none =>
      have unmatched := (selectFirst_spec config.repositories).2 found some listed
      exact absurd matching (by rw [unmatched]; decide)
    | some policy =>
      have decides := selectFirst_eq_some_iff.mp found
      exact ⟨policy, decides, contains_grants_iff decides noAdmin⟩
  · have sameWinner : (AccessPolicy.compile { config with repositories := reordered }).winningRule
        repo = (AccessPolicy.compile config).winningRule repo := by
      rw [winningRule_compile, winningRule_compile, selectFirst_congr alike]
    unfold AccessPolicy.grants
    rw [sameWinner]
    rfl

/-- A public library, and a push by every user elsewhere. -/
def library : AccessControlConfig where
  admins := ["root"]
  repositories := [{ pattern := "lib/*", anonymous := [.pull] },
    { pattern := "**", authenticated := [.push] }]

theorem library_decided :
    (AccessPolicy.compile library).grants (some "root") [] "lib/a" = .all ∧
    (AccessPolicy.compile {}).grants none [] "lib/a" = .none ∧
    (∃ policy, library.Decides "lib/a" policy ∧ ∀ action,
      ((AccessPolicy.compile library).grants (some "ann") [] "lib/a").contains action = true ↔
        library.Gives [] policy (some "ann") action) ∧
    (AccessPolicy.compile { library with repositories := library.repositories.reverse }).grants
      none [] "lib/a" = (AccessPolicy.compile library).grants none [] "lib/a" := by
  refine ⟨(access_decided library (some "root") [] "lib/a").1 (by decide),
    ((access_decided {} none [] "lib/a").2.1 rfl).1 nofun,
    ((access_decided library (some "ann") [] "lib/a").2.1 (by decide)).2
      ⟨_, List.mem_cons_self, by decide +kernel⟩,
    (access_decided library none [] "lib/a").2.2 _ fun rank => ?_⟩
  have differ : ∀ first ∈ library.repositories.head?, ∀ second ∈ library.repositories.getLast?,
      first.rank ≠ second.rank := by
    rintro _ ⟨⟩ _ ⟨⟩
    decide +kernel
  simp only [library, List.reverse_cons, List.reverse_nil, List.nil_append, List.cons_append,
    List.filter_cons, List.filter_nil]
  split <;> split <;> simp_all [library]

end Roci.Handlers
