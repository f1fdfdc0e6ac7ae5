import Roci.Metadata.State

/-!
# What the queries can tell apart

Every query looks at one repository at a time, and a repository that was never
written to answers like one whose maps are empty.  Two states that hold the
same maps for every repository name therefore give the same answers, and
applying one operation changes the maps of the repository it names and no
other.
-/

namespace Roci.Metadata

open Roci.Library

variable (reader : JsonReader)

namespace State

theorem repo_empty (name : String) : ({} : State).repo name = {} := by
  simp [repo]

/-- Frame rule: an operation changes only the repository it names. -/
theorem repo_applyInRam (self : State) (op : MetaOp) (name : String) :
    (self.applyInRam reader op).repo name =
      if name = op.repo then (self.repo name).apply reader op else self.repo name := by
  simp only [repo, applyInRam, StringMap.lookup_upsert]
  split <;> simp_all

/-- A run of operations acts on a repository through the operations that name
it. -/
theorem repo_foldl (ops : List MetaOp) (self : State) (name : String) :
    (ops.foldl (applyInRam reader) self).repo name =
      (ops.filter (·.repo = name)).foldl (RepoState.apply reader) (self.repo name) := by
  induction ops generalizing self with
  | nil => rfl
  | cons op ops ih =>
    rw [List.foldl_cons, ih, repo_applyInRam]
    by_cases same : op.repo = name
    · simp [same]
    · simp [same, Ne.symm same]

/-- The same maps for every repository name. -/
def Equiv (first second : State) : Prop := ∀ name, first.repo name = second.repo name

theorem Equiv.refl (state : State) : Equiv state state := fun _ => rfl

theorem Equiv.trans {first second third : State} (left : Equiv first second)
    (right : Equiv second third) : Equiv first third :=
  fun name => (left name).trans (right name)

theorem Equiv.foldl {first second : State} (same : Equiv first second) (ops : List MetaOp) :
    Equiv (ops.foldl (applyInRam reader) first) (ops.foldl (applyInRam reader) second) := by
  intro name
  rw [repo_foldl, repo_foldl, same name]

/-! ## The queries in terms of one repository -/

section

variable (self : State)

include self

theorem resolveTag_eq (repo tag : String) :
    self.resolveTag repo tag = (self.repo repo).tags[tag]? := by
  unfold resolveTag State.repo
  cases self.repos[repo]? <;> simp

theorem manifestMediaType_eq (repo digest : String) :
    self.manifestMediaType repo digest = (self.repo repo).mediaTypes[digest]? := by
  unfold manifestMediaType State.repo
  cases self.repos[repo]? <;> simp

theorem tagsPage_eq (repo : String) (last : Option String) (limit : Nat) :
    self.tagsPage repo last limit =
      if (self.repo repo).tags.isEmpty then none
      else some (takePage ((self.repo repo).tags.keys.filter (after last)) limit) := by
  unfold tagsPage State.repo
  cases self.repos[repo]? <;> simp

theorem referrersPage_eq (repo subject : String) (artifactType last : Option String) (limit : Nat) :
    self.referrersPage repo subject artifactType last limit =
      (self.repo repo).referrers[subject]?.map fun referrers =>
        referrers.page artifactType last limit := by
  unfold referrersPage State.repo
  cases self.repos[repo]? <;> simp

theorem hasReferrer_eq (repo subject referrer : String) :
    self.hasReferrer repo subject referrer =
      (self.repo repo).referrers[subject]?.any
        fun referrers => referrers.byDigest.contains referrer := by
  unfold hasReferrer State.repo
  cases self.repos[repo]? <;> simp

theorem backrefs_eq (repo blob : String) :
    self.backrefs repo blob = (self.repo repo).backrefs[blob]?.getD [] := by
  unfold backrefs State.repo
  cases self.repos[repo]? <;> simp

theorem checksum_eq (repo digest : String) :
    self.checksum repo digest = (self.repo repo).checksums[digest]? := by
  unfold checksum State.repo
  cases self.repos[repo]? <;> simp

theorem manifests_eq (repo : String) : self.manifests repo = (self.repo repo).mediaTypes.keys := by
  unfold manifests State.repo
  cases self.repos[repo]? <;> simp

theorem tagsSnapshot_eq (repo : String) :
    self.tagsSnapshot repo = (self.repo repo).tags.toList := by
  unfold tagsSnapshot State.repo
  cases self.repos[repo]? <;> simp

theorem referrersSnapshot_eq (repo : String) :
    self.referrersSnapshot repo =
      ((self.repo repo).referrers.toList.filter fun entry => !entry.2.byDigest.isEmpty).map
        fun entry => (entry.1, entry.2.byDigest.toList.map fun item => (item.1, item.2.2)) := by
  unfold referrersSnapshot State.repo
  cases self.repos[repo]? <;> simp

theorem mem_repoNames_iff (name : String) :
    name ∈ self.repoNames ↔
      (self.repo name).mediaTypes.isEmpty = false ∨ (self.repo name).referrers.isEmpty = false := by
  simp only [repoNames, List.mem_map, List.mem_filter, Prod.exists, exists_and_right,
    exists_eq_right, Std.ExtTreeMap.mem_toList_iff_getElem?_eq_some, State.repo]
  cases self.repos[name]? <;> simp

theorem repoNames_sorted : self.repoNames.Pairwise (· < ·) := by
  unfold repoNames
  rw [List.pairwise_map]
  apply List.Pairwise.filter
  exact StringMap.keys_ascending _

theorem repoNames_nodup : self.repoNames.Nodup := by
  apply self.repoNames_sorted.imp
  rintro name _ ascending rfl
  exact String.lt_irrefl name ascending

end

end State

/-- Two states no query of the metadata store can tell apart.  Lists the
engine returns in hash order are compared as sets. -/
structure SameAnswers (first second : State) : Prop where
  resolveTag : ∀ repo tag, first.resolveTag repo tag = second.resolveTag repo tag
  manifestMediaType : ∀ repo digest,
    first.manifestMediaType repo digest = second.manifestMediaType repo digest
  tagsPage : ∀ repo last limit,
    first.tagsPage repo last limit = second.tagsPage repo last limit
  referrersPage : ∀ repo subject artifactType last limit,
    first.referrersPage repo subject artifactType last limit =
      second.referrersPage repo subject artifactType last limit
  hasReferrer : ∀ repo subject referrer,
    first.hasReferrer repo subject referrer = second.hasReferrer repo subject referrer
  backrefs : ∀ repo blob manifest,
    manifest ∈ first.backrefs repo blob ↔ manifest ∈ second.backrefs repo blob
  checksum : ∀ repo digest, first.checksum repo digest = second.checksum repo digest
  repoNames : first.repoNames = second.repoNames
  manifests : ∀ repo digest,
    digest ∈ first.manifests repo ↔ digest ∈ second.manifests repo
  tagsSnapshot : ∀ repo, first.tagsSnapshot repo = second.tagsSnapshot repo
  referrersSnapshot : ∀ repo entry,
    entry ∈ first.referrersSnapshot repo ↔ entry ∈ second.referrersSnapshot repo

theorem State.Equiv.sameAnswers {first second : State} (same : State.Equiv first second) :
    SameAnswers first second := by
  constructor
  case repoNames =>
    apply @List.Perm.eq_of_pairwise _ (· < ·)
    · intro name other _ _ ascending descending
      exact absurd descending (String.lt_asymm ascending)
    · exact first.repoNames_sorted
    · exact second.repoNames_sorted
    rw [List.perm_ext_iff_of_nodup first.repoNames_nodup second.repoNames_nodup]
    intro name
    rw [State.mem_repoNames_iff, State.mem_repoNames_iff, same name]
  all_goals
    intros
    simp only [State.resolveTag_eq, State.manifestMediaType_eq, State.tagsPage_eq,
      State.referrersPage_eq, State.hasReferrer_eq, State.backrefs_eq, State.checksum_eq,
      State.manifests_eq, State.tagsSnapshot_eq, State.referrersSnapshot_eq, same _]

end Roci.Metadata
