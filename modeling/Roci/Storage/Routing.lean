import Roci.Library.Bytes
import Roci.Storage.Digest

/-!
# Routes to backends

The routes are tried from the longest on, so the first that leads to a repository
is the longest that does.  Two of one length that lead to one repository are the
same, and the order in which the routes were given does not matter.
-/

namespace Roci.Storage

open Roci.Library

variable {Backend : Type}

structure Routed (Backend : Type) where
  default : Backend
  routes : List (String × Backend)

def matchesPrefix (repo route : String) : Bool :=
  repo = route || ((utf8 route).length < (utf8 repo).length &&
    (utf8 repo)[(utf8 route).length]? = some 47 && (utf8 route).isPrefixOf (utf8 repo))

namespace Routed

def new (default : Backend) (routes : List (String × Backend)) : Routed Backend where
  default := default
  routes := routes.mergeSort fun first second => (utf8 second.1).length ≤ (utf8 first.1).length

variable (routed : Routed Backend)

def backendFor (repo : String) : Backend :=
  match routed.routes.find? (matchesPrefix repo ·.1) with
  | some route => route.2
  | none => routed.default

def routeIndex (repo : String) : Option Nat := routed.routes.findIdx? (matchesPrefix repo ·.1)

def sameBackend (source target : String) : Bool :=
  routed.routeIndex source = routed.routeIndex target

/-- What the backend answers is a parameter. -/
def mountBlob (mount : Backend → String → String → Digest → Except StorageError Bool)
    (source target : String) (digest : Digest) : Except StorageError Bool :=
  if routed.sameBackend source target then
    mount (routed.backendFor target) source target digest
  else .ok false

end Routed

/-! ## The longest route -/

/-- The route is the name itself or whole components at its front. -/
def Leads (route repo : String) : Prop :=
  repo = route ∨ ∃ rest, utf8 repo = utf8 route ++ 47 :: rest

/-- The longest route that leads to the repository, if one does. -/
inductive Selects (routes : List (String × Backend)) (repo : String) :
    Option (String × Backend) → Prop
  | route {route : String × Backend} (listed : route ∈ routes) (leads : Leads route.1 repo)
      (longest : ∀ other ∈ routes, Leads other.1 repo →
        (utf8 other.1).length ≤ (utf8 route.1).length) :
      Selects routes repo (some route)
  | default (nowhere : ∀ route ∈ routes, ¬ Leads route.1 repo) : Selects routes repo none

theorem matchesPrefix_iff {repo route : String} :
    matchesPrefix repo route = true ↔ Leads route repo := by
  simp only [matchesPrefix, Leads, Bool.or_eq_true, Bool.and_eq_true, decide_eq_true_iff,
    List.isPrefixOf_iff_prefix]
  refine or_congr_right ⟨?_, ?_⟩
  · rintro ⟨⟨shorter, slash⟩, rest, same⟩
    cases rest with
    | nil => simp [← same] at shorter
    | cons byte rest =>
      rw [← same, List.getElem?_append_right le_rfl, Nat.sub_self] at slash
      obtain rfl : byte = 47 := Option.some.inj slash
      exact ⟨rest, same.symm⟩
  rintro ⟨rest, same⟩
  rw [same]
  simp

/-- Two routes of one length that lead to one repository are the same. -/
theorem Leads.eq_of_length {repo first second : String} (one : Leads first repo)
    (other : Leads second repo) (length : (utf8 first).length = (utf8 second).length) :
    first = second := by
  have front : ∀ {route}, Leads route repo → utf8 route <+: utf8 repo := by
    rintro route (rfl | ⟨rest, same⟩)
    · exact List.prefix_rfl
    · exact ⟨_, same.symm⟩
  exact utf8_injective ((List.prefix_of_prefix_length_le (front one) (front other)
    length.le).eq_of_length length)

section

variable {routes reordered : List (String × Backend)} {repo source target : String}
  {one other : Option (String × Backend)}

theorem Selects.unique (distinct : (routes.map Prod.fst).Nodup) (first : Selects routes repo one)
    (second : Selects routes repo other) : one = other := by
  cases first with
  | route listed leads longest =>
    cases second with
    | route listed' leads' longest' =>
      have length := le_antisymm (longest' _ listed leads) (longest _ listed' leads')
      exact congrArg some (List.inj_on_of_nodup_map distinct listed listed'
        (leads.eq_of_length leads' length))
    | default nowhere => exact absurd leads (nowhere _ listed)
  | default nowhere =>
    cases second with
    | route listed leads longest => exact absurd leads (nowhere _ listed)
    | default nowhere => rfl

theorem Selects.of_perm (same : routes.Perm reordered) (selects : Selects routes repo one) :
    Selects reordered repo one := by
  cases selects with
  | route listed leads longest =>
    exact .route (same.mem_iff.mp listed) leads fun other inside =>
      longest other (same.mem_iff.mpr inside)
  | default nowhere => exact .default fun route inside => nowhere route (same.mem_iff.mpr inside)

/-- Behind the longest routes only shorter ones follow. -/
theorem selects_find? (sorted : routes.Pairwise fun first second =>
      (utf8 second.1).length ≤ (utf8 first.1).length) :
    Selects routes repo (routes.find? (matchesPrefix repo ·.1)) := by
  cases found : routes.find? (matchesPrefix repo ·.1) with
  | none =>
    refine .default fun route inside leads => ?_
    exact List.find?_eq_none.mp found route inside (matchesPrefix_iff.mpr leads)
  | some route =>
    obtain ⟨leads, before, behind, rfl, passed⟩ := List.find?_eq_some_iff_append.mp found
    refine .route (by simp) (matchesPrefix_iff.mp leads) fun other inside others => ?_
    rcases List.mem_append.mp inside with inside | inside
    · exact absurd (matchesPrefix_iff.mpr others) (by simpa using passed other inside)
    rcases List.mem_cons.mp inside with rfl | inside
    · exact le_rfl
    · exact (List.pairwise_cons.mp (List.pairwise_append.mp sorted).2.1).1 other inside

theorem selects_new (default : Backend) (same : routes.Perm reordered) :
    Selects routes repo ((Routed.new default reordered).routes.find? (matchesPrefix repo ·.1)) := by
  have sorted := @List.pairwise_mergeSort _
    (fun first second : String × Backend => (utf8 second.1).length ≤ (utf8 first.1).length)
    (fun _ _ _ first second => by simp_all; omega) (fun _ _ => by simp; omega) reordered
  refine (selects_find? ?_).of_perm ((List.mergeSort_perm _ _).trans same.symm)
  exact sorted.imp fun shorter => of_decide_eq_true shorter

end

theorem findIdx?_eq_iff_find?_eq {Item : Type} {items : List Item} (distinct : items.Nodup)
    (first second : Item → Bool) :
    items.findIdx? first = items.findIdx? second ↔ items.find? first = items.find? second := by
  induction items with
  | nil => simp
  | cons item items ih =>
    obtain ⟨absent, distinct⟩ := List.nodup_cons.mp distinct
    have elsewhere : ∀ matching, items.find? matching ≠ some item := fun matching found =>
      absent (List.mem_of_find?_eq_some found)
    rw [List.findIdx?_cons, List.findIdx?_cons, List.find?_cons, List.find?_cons]
    cases first item <;> cases second item
    · simpa [Option.map_inj_right] using ih distinct
    · simpa [Option.map_eq_some_iff] using elsewhere first
    · simpa [Option.map_eq_some_iff, eq_comm] using elsewhere second
    · simp

/-- The longest route decides, wherever it stands in the list; two repositories are
on one backend exactly if one route decides for both, and only then a mount reaches
it. -/
theorem longest_route_decides (default : Backend) {routes : List (String × Backend)}
    (distinct : (routes.map Prod.fst).Nodup) :
    (∀ repo, ∃ selected, (∀ other, Selects routes repo other ↔ other = selected) ∧
      ∀ reordered, routes.Perm reordered → (Routed.new default reordered).backendFor repo =
        (selected.map Prod.snd).getD default) ∧
    ∀ source target,
      ((Routed.new default routes).sameBackend source target = true ↔
        ∃ selected, Selects routes source selected ∧ Selects routes target selected) ∧
      ∀ mount digest, (Routed.new default routes).mountBlob mount source target digest = .ok false ∨
        ∃ selected, Selects routes source selected ∧ Selects routes target selected ∧
          (Routed.new default routes).mountBlob mount source target digest =
            mount ((selected.map Prod.snd).getD default) source target digest := by
  have decides : ∀ repo reordered, routes.Perm reordered →
      ∀ selected, Selects routes repo selected → (Routed.new default reordered).backendFor repo =
        (selected.map Prod.snd).getD default := by
    intro repo reordered same selected selects
    rw [selects.unique distinct (selects_new default same), Routed.backendFor]
    split <;> rename_i found <;> rw [found] <;> rfl
  have both : ∀ source target, (Routed.new default routes).sameBackend source target = true ↔
      ∃ selected, Selects routes source selected ∧ Selects routes target selected := by
    intro source target
    have entries : (Routed.new default routes).routes.Nodup :=
      (List.mergeSort_perm routes _).nodup_iff.mpr distinct.of_map
    rw [Routed.sameBackend, decide_eq_true_iff, Routed.routeIndex, Routed.routeIndex,
      findIdx?_eq_iff_find?_eq entries]
    constructor
    · intro same
      exact ⟨_, same ▸ selects_new default (.refl _), selects_new default (.refl _)⟩
    · rintro ⟨selected, first, second⟩
      rw [(selects_new default (.refl _)).unique distinct first,
        (selects_new default (.refl _)).unique distinct second]
  refine ⟨fun repo => ?_, fun source target => ⟨both source target, fun mount digest => ?_⟩⟩
  · have selects : Selects routes repo _ := selects_new default (.refl _)
    exact ⟨_, fun other => ⟨fun others => others.unique distinct selects,
        fun same => same ▸ selects⟩,
      fun reordered same => decides repo reordered same _ selects⟩
  · rw [Routed.mountBlob]
    split
    · rename_i same
      obtain ⟨selected, first, second⟩ := (both source target).mp same
      exact .inr ⟨selected, first, second, by rw [decides target routes (.refl _) selected second]⟩
    · exact .inl rfl

theorem nested_routes_decided :
    ∃ selected, (∀ other, Selects [("a", 1), ("a/b", 2)] "a/b/c" other ↔ other = selected) ∧
      ∀ reordered, [("a", 1), ("a/b", 2)].Perm reordered →
        (Routed.new 0 reordered).backendFor "a/b/c" = (selected.map Prod.snd).getD 0 :=
  (longest_route_decides 0 (by decide)).1 "a/b/c"

end Roci.Storage
