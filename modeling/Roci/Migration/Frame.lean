import Roci.Migration.Lossless

/-!
# What an operation leaves alone

An operation changes the answers about the repository it names and no other,
also if one name begins with the other.  Deleting a manifest takes the entries
that name it out of its repository and nothing else.
-/

namespace Roci.Migration

open Roci.Library Roci.Metadata Roci.Lmdb

/-- Every query about the repository has the same answer. -/
structure SameAbout (order : IterOrder) (repo : String) (first second : Store) : Prop where
  resolveTag : ∀ tag, NulFree tag → first.resolveTag repo tag = second.resolveTag repo tag
  manifestMediaType : ∀ digest, NulFree digest →
    first.manifestMediaType repo digest = second.manifestMediaType repo digest
  tagsPage : ∀ last limit, first.tagsPage repo last limit = second.tagsPage repo last limit
  referrersPage : ∀ subject artifactType last limit, NulFree subject →
    (∀ type ∈ artifactType, NulFree type) →
      first.referrersPage repo subject artifactType last limit =
        second.referrersPage repo subject artifactType last limit
  hasReferrer : ∀ subject referrer, NulFree subject → NulFree referrer →
    first.hasReferrer repo subject referrer = second.hasReferrer repo subject referrer
  backrefs : ∀ blob, NulFree blob → first.backrefs repo blob = second.backrefs repo blob
  checksum : ∀ digest, NulFree digest → first.checksum repo digest = second.checksum repo digest
  listed : repo ∈ first.repos ↔ repo ∈ second.repos
  manifests : first.manifests order repo = second.manifests order repo
  tagsSnapshot : first.tagsSnapshot repo = second.tagsSnapshot repo
  referrersSnapshot : first.referrersSnapshot order repo = second.referrersSnapshot order repo

section

variable {reader : JsonReader} (order : IterOrder) {before after : State} {repo : String}
  (same : before.repo repo = after.repo repo)
include same

theorem sameAbout_log : SameAbout order repo (.log before) (.log after) := by
  constructor <;> intros <;>
    simp only [Store.resolveTag, Store.manifestMediaType, Store.tagsPage, Store.referrersPage,
      Store.hasReferrer, Store.backrefs, Store.checksum, Store.repos, Store.manifests,
      Store.tagsSnapshot, Store.referrersSnapshot, referrersSnapshotIn, State.resolveTag_eq,
      State.manifestMediaType_eq, State.tagsPage_eq, State.referrersPage_eq, State.hasReferrer_eq,
      State.backrefs_eq, State.checksum_eq, State.mem_repoNames_iff, State.tagsSnapshot_eq,
      State.referrersSnapshot_eq, same]

variable {first second : Tables} (earlier : Represents reader first before.contents)
  (later : Represents reader second after.contents) (repoClean : NulFree repo)
include earlier later repoClean

theorem backrefsOf_congr {blob : String} (blobClean : NulFree blob) :
    first.backrefsOf repo blob = second.backrefsOf repo blob := by
  have values : first.backrefs.values (keyOf [repo, blob]) =
      second.backrefs.values (keyOf [repo, blob]) := Std.ExtTreeSet.ext_mem fun value => by
    rw [mem_values_backrefs_iff earlier repoClean blobClean,
      mem_values_backrefs_iff later repoClean blobClean, same]
  rw [Tables.backrefsOf, Tables.backrefsOf, makeKey_two, values]

theorem sameAbout_lmdb (formed : ∀ name, (before.repo name).WellFormed reader)
    (stillFormed : ∀ name, (after.repo name).WellFormed reader) :
    SameAbout order repo (.lmdb first) (.lmdb second) := by
  have log := sameAbout_log order same
  have one := agree_of_represents order formed earlier
  have two := agree_of_represents order stillFormed later
  constructor
  case referrersPage =>
    intro subject type last limit clean typeClean
    rw [one.referrersPage repo subject type last limit repoClean clean typeClean,
      log.referrersPage subject type last limit clean typeClean,
      two.referrersPage repo subject type last limit repoClean clean typeClean]
  case backrefs => exact fun _ clean => backrefsOf_congr same earlier later repoClean clean
  case manifests =>
    rw [Store.manifests, Store.manifests, manifests_eq earlier repoClean,
      manifests_eq later repoClean, State.manifests_eq, State.manifests_eq, same]
  case referrersSnapshot =>
    rw [Store.referrersSnapshot, Store.referrersSnapshot,
      referrersSnapshot_eq earlier (formed repo) repoClean,
      referrersSnapshot_eq later (stillFormed repo) repoClean, State.referrersSnapshot_eq,
      State.referrersSnapshot_eq, same]
  all_goals
    intros
    simp only [one.resolveTag, one.manifestMediaType, one.tagsPage, one.hasReferrer, one.checksum,
      one.repos, one.tagsSnapshot, two.resolveTag, two.manifestMediaType, two.tagsPage,
      two.hasReferrer, two.checksum, two.repos, two.tagsSnapshot, log.resolveTag,
      log.manifestMediaType, log.tagsPage, log.hasReferrer, log.checksum, log.listed,
      log.tagsSnapshot, *]

end

/-! ## A deleted manifest -/

/-- The queries with the names of the entry show it. -/
def Store.Shows (store : Store) (order : IterOrder) (repo : String) : Entry → Prop
  | .tag tag digest mediaType => store.resolveTag repo tag = some (digest, mediaType)
  | .mediaType digest mediaType => store.manifestMediaType repo digest = some mediaType
  | .referrer subject referrer descriptor => ∃ listed,
    (subject, listed) ∈ store.referrersSnapshot order repo ∧ (referrer, descriptor) ∈ listed
  | .edge blob manifest => manifest ∈ store.backrefs repo blob
  | .checksum digest found => store.checksum repo digest = some found

section

variable {reader : JsonReader} {order : IterOrder} {repo : String} {entry : Entry}

theorem Agree.shows_iff {first second : Store} (agree : Agree order first second)
    (repoClean : NulFree repo) (asked : NulFree entry.asked) :
    first.Shows order repo entry ↔ second.Shows order repo entry := by
  cases entry with
  | tag tag => rw [Store.Shows, Store.Shows, agree.resolveTag repo tag repoClean asked]
  | mediaType digest =>
    rw [Store.Shows, Store.Shows, agree.manifestMediaType repo digest repoClean asked]
  | referrer =>
    simp only [Store.Shows, (agree.referrersSnapshot repo repoClean).mem_iff]
  | edge blob manifest => exact agree.backrefs repo blob repoClean asked manifest
  | checksum digest => rw [Store.Shows, Store.Shows, agree.checksum repo digest repoClean asked]

theorem shows_log_iff (state : State) :
    (Store.log state).Shows order repo entry ↔ (state.contents repo).Holds entry := by
  cases entry with
  | tag tag =>
    rw [Store.Shows, Store.resolveTag, State.resolveTag_eq]
    rfl
  | mediaType digest =>
    rw [Store.Shows, Store.manifestMediaType, State.manifestMediaType_eq]
    rfl
  | referrer subject referrer descriptor =>
    rw [RepoContents.Holds, ← State.mem_referrersSnapshot_iff]
    simp only [Store.Shows, Store.referrersSnapshot, referrersSnapshotIn,
      (order.perm repo _).mem_iff]
  | edge blob =>
    rw [Store.Shows, Store.backrefs, State.backrefs_eq]
    rfl
  | checksum digest =>
    rw [Store.Shows, Store.checksum, State.checksum_eq]
    rfl

theorem Reached.shows_iff {ops : List MetaOp} {engine : MetadataEngine} {store : Store}
    (reached : Reached reader ops engine store) (clean : ∀ op ∈ ops, OpNulFree reader op)
    (repoClean : NulFree repo) (asked : NulFree entry.asked) :
    store.Shows order repo entry ↔ (contentsOf ops repo).Holds entry := by
  rw [← contents_reached reader, ← @shows_log_iff order]
  cases reached with
  | log => rfl
  | lmdb applied =>
    exact (agree_of_represents order (State.wellFormed_foldl reader ops)
      (represents_foldl clean applied)).shows_iff repoClean asked

end

/-! ## One operation -/

def Store.apply (reader : JsonReader) (op : MetaOp) : Store → Except HeedError Store
  | .log state => .ok (.log (state.applyInRam reader op))
  | .lmdb tables => do return .lmdb (← tables.applyOp reader op)

theorem Reached.apply {reader : JsonReader} {ops : List MetaOp} {op : MetaOp}
    {engine : MetadataEngine} {before after : Store} (reached : Reached reader ops engine before)
    (applied : before.apply reader op = .ok after) : Reached reader (ops ++ [op]) engine after := by
  cases reached with
  | log =>
    cases applied
    exact List.foldl_concat (State.applyInRam reader) _ _ _ ▸ .log
  | lmdb stored =>
    obtain ⟨tables, step, ⟨⟩⟩ := (bind_eq_ok_iff _ _ _).mp applied
    refine .lmdb ?_
    rw [List.foldlM_append, stored]
    exact (bind_eq_ok_iff _ _ _).mpr ⟨_, rfl, (bind_eq_ok_iff _ _ _).mpr ⟨tables, step, rfl⟩⟩

/-- An operation changes no answer about another repository, and deleting a
manifest takes out exactly the entries that name it. -/
theorem operation_frame {reader : JsonReader} (order : IterOrder) {ops : List MetaOp} {op : MetaOp}
    {engine : MetadataEngine} {before after : Store}
    (clean : ∀ issued ∈ ops ++ [op], OpNulFree reader issued)
    (reached : Reached reader ops engine before) (applied : before.apply reader op = .ok after) :
    (∀ repo, NulFree repo → repo ≠ op.repo → SameAbout order repo before after) ∧
      ∀ repo digest, op = .deleteManifest repo digest → ∀ entry, NulFree entry.asked →
        (after.Shows order repo entry ↔
          before.Shows order repo entry ∧ ¬ entry.About digest) := by
  have earlier : ∀ issued ∈ ops, OpNulFree reader issued := fun issued listed =>
    clean issued (List.mem_append_left _ listed)
  have taken := reached.apply applied
  refine ⟨fun repo repoClean other => ?_, ?_⟩
  · have same : (ops.foldl (State.applyInRam reader) {}).repo repo =
        ((ops ++ [op]).foldl (State.applyInRam reader) {}).repo repo := by
      rw [List.foldl_concat, State.repo_applyInRam, if_neg other]
    cases reached with
    | log =>
      cases taken
      exact sameAbout_log order same
    | lmdb stored =>
      cases taken with
      | lmdb done =>
        exact sameAbout_lmdb order same (represents_foldl earlier stored)
          (represents_foldl clean done) repoClean (State.wellFormed_foldl reader _)
          (State.wellFormed_foldl reader _)
  · rintro repo digest rfl entry asked
    have repoClean : NulFree repo := (clean _ (List.mem_append_right _ List.mem_cons_self)).1
    rw [taken.shows_iff clean repoClean asked, reached.shows_iff earlier repoClean asked,
      contentsOf, List.foldl_concat, Contents.holds_apply]
    simp [MetaOp.repo, MetaOp.Writes, MetaOp.Drops, contentsOf]

def twoNames : List MetaOp :=
  [.putManifest "a" "sha256:0a" "application/json" (some "v1") ["sha256:0b"] none,
    .putManifest "ab" "sha256:0a" "application/json" (some "v1") ["sha256:0b"] none]

theorem longer_name_left_alone :
    ∃ after, (Store.lmdb (tablesOf twoNames)).apply JsonText.reader
        (.deleteManifest "a" "sha256:0a") = .ok after ∧
      SameAbout .sorted "ab" (.lmdb (tablesOf twoNames)) after :=
  ⟨_, rfl, (@operation_frame JsonText.reader .sorted twoNames
    (.deleteManifest "a" "sha256:0a") _ _ _
    (by decide +kernel) (.lmdb (bulkApply_tablesOf (by decide +kernel))) rfl).1 "ab" (by decide)
    (by decide)⟩

end Roci.Migration
