import Roci.Metadata.Compaction
import Roci.Metadata.Contents

/-!
# Carrying a store over by its export

An export lists what a store holds and turns the list into operations.  Applied
to an empty store, the operations of a complete listing rebuild everything but
one thing: a tagged manifest gets the media type of its greatest tag.
-/

namespace Roci.Metadata

open Roci.Library

structure Listing where
  /-- Repository, tag, digest and media type. -/
  tags : List (String × String × String × String)
  /-- Repository, digest and media type of a manifest without a tag. -/
  manifests : List (String × String × String)
  /-- Repository, blob and manifest. -/
  edges : List (String × String × String)
  /-- Repository, subject, referrer and descriptor. -/
  referrers : List (String × String × String × Bytes)
  checksums : List (String × String × BlobChecksum)

namespace Listing

variable (listing : Listing)

def tagOps : List MetaOp :=
  listing.tags.map fun entry =>
    .putManifest entry.1 entry.2.2.1 entry.2.2.2 (some entry.2.1) [] none

def manifestOps : List MetaOp :=
  listing.manifests.map fun entry => .putManifest entry.1 entry.2.1 entry.2.2 none [] none

def edgeOps : List MetaOp :=
  listing.edges.map fun entry => .putBackrefs entry.1 entry.2.2 [entry.2.1]

def referrerOps : List MetaOp :=
  listing.referrers.map fun entry =>
    .putReferrer entry.1 entry.2.1 entry.2.2.1 entry.2.2.2

def checksumOps : List MetaOp :=
  listing.checksums.map fun entry =>
    .putChecksum entry.1 entry.2.1 entry.2.2.crc32c entry.2.2.size

/-- One operation per entry. -/
def ops : List MetaOp :=
  listing.tagOps ++ listing.manifestOps ++ listing.edgeOps ++ listing.referrerOps ++
    listing.checksumOps

end Listing

def RepoContents.Tagged (self : RepoContents) (digest : String) : Prop :=
  ∃ tag mediaType, self.tag tag = some (digest, mediaType)

def RepoContents.GreatestTag (self : RepoContents) (digest tag mediaType : String) : Prop :=
  self.tag tag = some (digest, mediaType) ∧
    ∀ other otherType, self.tag other = some (digest, otherType) → ¬ tag < other

/-- The listing holds every entry, and the tags of a repository in order. -/
structure Listing.Complete (listing : Listing) (contents : Contents) : Prop where
  tags : ∀ repo tag digest mediaType, (repo, tag, digest, mediaType) ∈ listing.tags ↔
    (contents repo).tag tag = some (digest, mediaType)
  ascending : listing.tags.Pairwise fun first second =>
    first.1 = second.1 → first.2.1 < second.2.1
  manifests : ∀ repo digest mediaType, (repo, digest, mediaType) ∈ listing.manifests ↔
    (contents repo).mediaType digest = some mediaType ∧ ¬ (contents repo).Tagged digest
  edges : ∀ repo blob manifest, (repo, blob, manifest) ∈ listing.edges ↔
    (contents repo).edge blob manifest
  referrers : ∀ repo subject referrer descriptor,
    (repo, subject, referrer, descriptor) ∈ listing.referrers ↔
      (contents repo).referrer subject referrer = some descriptor
  checksums : ∀ repo digest found, (repo, digest, found) ∈ listing.checksums ↔
    (contents repo).checksum digest = some found

/-! ## What a complete listing rebuilds -/

/-- The store the operations of a listing lead to. -/
def Listing.rebuilt (listing : Listing) : Contents :=
  listing.ops.foldl Contents.apply fun _ => .nothing

namespace Listing.Complete

variable {listing : Listing} {contents : Contents} (complete : listing.Complete contents)
include complete

/-- The listing writes what the store holds, except that it also writes the media
types of the tags. -/
theorem written_iff (repo : String) (entry : Entry) :
    (∃ op ∈ listing.ops, op.repo = repo ∧ op.Writes entry) ↔
      (contents repo).Holds entry ∧ (∀ digest type, entry = .mediaType digest type →
        ¬ (contents repo).Tagged digest) ∨
      ∃ tag digest type, entry = .mediaType digest type ∧
        (contents repo).tag tag = some (digest, type) := by
  cases entry <;>
    simp [Listing.ops, Listing.tagOps, Listing.manifestOps, Listing.edgeOps, Listing.referrerOps,
      Listing.checksumOps, or_and_right, exists_or, MetaOp.repo, MetaOp.Writes, ← complete.tags,
      ← complete.manifests, ← complete.edges, ← complete.referrers, ← complete.checksums,
      RepoContents.Holds]
  grind

theorem writes_of_drops {repo : String} {entry : Entry} (holds : (contents repo).Holds entry)
    (untagged : ∀ digest type, entry = .mediaType digest type → ¬ (contents repo).Tagged digest) :
    ∀ op ∈ listing.ops, op.repo = repo → op.Drops entry → op.Writes entry := by
  simp only [Listing.ops, Listing.tagOps, Listing.manifestOps, Listing.edgeOps,
    Listing.referrerOps, Listing.checksumOps, List.forall_mem_append, List.forall_mem_map,
    Prod.forall, complete.tags, complete.manifests, complete.edges, complete.referrers,
    complete.checksums, MetaOp.repo]
  cases entry <;> simp only [MetaOp.Drops, MetaOp.Writes, RepoContents.Holds] at holds ⊢ <;>
    grind [RepoContents.Tagged, cases BlobChecksum]

theorem holds_rebuilt_iff {repo : String} {entry : Entry}
    (untagged : ∀ digest type, entry = .mediaType digest type → ¬ (contents repo).Tagged digest) :
    (listing.rebuilt repo).Holds entry ↔ (contents repo).Holds entry := by
  constructor
  · intro holds
    rcases (complete.written_iff repo entry).mp (Contents.written_of_holds holds) with
      listed | ⟨tag, digest, type, rfl, tagged⟩
    · exact listed.1
    · exact absurd ⟨tag, type, tagged⟩ (untagged digest type rfl)
  intro holds
  exact (Contents.holds_foldl (complete.writes_of_drops holds untagged)).mpr
    (.inr ((complete.written_iff repo entry).mpr (.inl ⟨holds, untagged⟩)))

theorem mediaType_of_greatest {repo digest tag mediaType : String}
    (greatest : (contents repo).GreatestTag digest tag mediaType) :
    (listing.rebuilt repo).mediaType digest = some mediaType := by
  obtain ⟨before, behind, split⟩ :=
    List.append_of_mem ((complete.tags repo tag digest mediaType).mpr greatest.1)
  have sorted := complete.ascending
  rw [split, List.pairwise_append, List.pairwise_cons] at sorted
  have listed : ∀ entry ∈ behind, entry ∈ listing.tags := by simp +contextual [split]
  change (listing.rebuilt repo).Holds (.mediaType digest mediaType)
  rw [Listing.rebuilt, Listing.ops, Listing.tagOps, split, List.map_append, List.map_cons]
  simp only [List.append_assoc, List.cons_append]
  rw [List.foldl_append, List.foldl_cons, Contents.holds_foldl]
  · exact .inl (Contents.holds_apply.mpr (.inl ⟨rfl, rfl, rfl⟩))
  simp only [Listing.manifestOps, Listing.edgeOps, Listing.referrerOps, Listing.checksumOps,
    List.forall_mem_append, List.forall_mem_map, MetaOp.repo, MetaOp.Drops]
  refine ⟨?_, ?_, by simp, by simp, by simp⟩
  · rintro ⟨_, name, _, type⟩ later rfl rfl
    exact absurd (sorted.2.1.1 _ later rfl)
      (greatest.2 name type ((complete.tags ..).mp (listed _ later)))
  rintro ⟨_, _, type⟩ untagged rfl rfl
  exact absurd ⟨tag, mediaType, greatest.1⟩ ((complete.manifests ..).mp untagged).2

/-- The listing rebuilds the store exactly when every tagged manifest has the
media type of its greatest tag. -/
theorem rebuilt_eq_iff (finite : ∀ repo digest, (contents repo).Tagged digest →
      ∃ tag mediaType, (contents repo).GreatestTag digest tag mediaType) :
    listing.rebuilt = contents ↔ ∀ repo digest tag mediaType,
      (contents repo).GreatestTag digest tag mediaType →
        (contents repo).mediaType digest = some mediaType := by
  constructor
  · intro same repo digest tag mediaType greatest
    rw [← complete.mediaType_of_greatest greatest, same]
  intro recorded
  refine Contents.ext_holds fun repo entry => ?_
  by_cases tagged : ∃ digest type, entry = .mediaType digest type ∧ (contents repo).Tagged digest
  · obtain ⟨digest, type, rfl, tagged⟩ := tagged
    obtain ⟨tag, mediaType, greatest⟩ := finite repo digest tagged
    rw [RepoContents.Holds, RepoContents.Holds, complete.mediaType_of_greatest greatest,
      recorded repo digest tag mediaType greatest]
  exact complete.holds_rebuilt_iff fun digest type same held =>
    tagged ⟨digest, type, same, held⟩

end Listing.Complete

/-! ## The export of the log engine -/

section Log

variable (order : IterOrder) (state : State)

/-- What `export_state` lists. -/
def logListing : Listing :=
  let repos := order.arrange "" state.repos.toList
  { tags := repos.flatMap fun (repo, entries) =>
      entries.tags.toList.map fun entry => (repo, entry.1, entry.2)
    manifests := repos.flatMap fun (repo, entries) =>
      ((order.arrange repo entries.mediaTypes.toList).filter fun entry =>
        !entries.tagged entry.1).map fun entry => (repo, entry.1, entry.2)
    edges := repos.flatMap fun (repo, entries) =>
      (order.arrange repo entries.backrefs.toList).flatMap fun entry =>
        entry.2.map fun manifest => (repo, entry.1, manifest)
    referrers := repos.flatMap fun (repo, entries) =>
      (order.arrange repo entries.referrers.toList).flatMap fun entry =>
        entry.2.byDigest.toList.map fun item => (repo, entry.1, item.1, item.2.2)
    checksums := repos.flatMap fun (repo, entries) =>
      (order.arrange repo entries.checksums.toList).map fun entry => (repo, entry.1, entry.2) }

/-- The export and the image of a compaction are the same operations. -/
theorem ops_logListing : (logListing order state).ops = imageOps order state := by
  simp only [Listing.ops, Listing.tagOps, Listing.manifestOps, Listing.edgeOps,
    Listing.referrerOps, Listing.checksumOps, logListing, imageOps, tagOps, manifestOps,
    backrefOps, referrerOps, checksumOps, List.map_flatMap, List.map_map]
  rfl

theorem mem_arrange_iff {Value : Type} (owner : String) (map : StringMap Value)
    (entry : String × Value) :
    entry ∈ order.arrange owner map.toList ↔ map[entry.1]? = some entry.2 :=
  (order.perm owner map.toList).mem_iff.trans Std.ExtTreeMap.mem_toList_iff_getElem?_eq_some

theorem exists_repo_iff (property : RepoState → Prop) (nowhere : ¬ property {}) (repo : String) :
    (∃ entries, (repo, entries) ∈ order.arrange "" state.repos.toList ∧ property entries) ↔
      property (state.repo repo) := by
  simp only [mem_arrange_iff, State.repo]
  cases state.repos[repo]? with
  | none => simpa using nowhere
  | some entries => simp

theorem tagged_iff (entries : RepoState) (digest : String) :
    entries.tagged digest = true ↔ entries.contents.Tagged digest := by
  simp only [RepoState.tagged, List.any_eq_true, decide_eq_true_eq, Prod.exists,
    Std.ExtTreeMap.mem_toList_iff_getElem?_eq_some, RepoContents.Tagged, RepoState.contents]
  constructor
  · rintro ⟨tag, _, mediaType, recorded, rfl⟩
    exact ⟨tag, mediaType, recorded⟩
  rintro ⟨tag, mediaType, recorded⟩
  exact ⟨tag, digest, mediaType, recorded, rfl⟩

theorem logListing_ascending : (logListing order state).tags.Pairwise fun first second =>
    first.1 = second.1 → first.2.1 < second.2.1 := by
  rw [logListing, List.pairwise_flatMap]
  refine ⟨?_, ?_⟩
  · rintro ⟨repo, entries⟩ _
    rw [List.pairwise_map]
    refine (StringMap.keys_ascending entries.tags).imp ?_
    intro first second less _
    exact less
  have distinct : ((order.arrange "" state.repos.toList).map Prod.fst).Nodup :=
    ((order.perm "" state.repos.toList).map Prod.fst).nodup_iff.mpr
      (StringMap.nodup_keys_toList state.repos)
  refine (List.pairwise_map.mp distinct).imp fun different first inFirst second inSecond same => ?_
  obtain ⟨_, _, rfl⟩ := List.mem_map.mp inFirst
  obtain ⟨_, _, rfl⟩ := List.mem_map.mp inSecond
  exact absurd same different

theorem logListing_complete : (logListing order state).Complete state.contents where
  tags repo tag digest mediaType := by
    refine Iff.trans ?_ (exists_repo_iff order state
      (fun entries => entries.tags[tag]? = some (digest, mediaType)) (by simp) repo)
    simp [logListing, Std.ExtTreeMap.mem_toList_iff_getElem?_eq_some]
  ascending := logListing_ascending order state
  manifests repo digest mediaType := by
    refine Iff.trans ?_ (exists_repo_iff order state (fun entries =>
      entries.mediaTypes[digest]? = some mediaType ∧ ¬ entries.contents.Tagged digest)
      (by simp) repo)
    simp [logListing, mem_arrange_iff, ← tagged_iff]
  edges repo blob manifest := by
    refine Iff.trans ?_ (exists_repo_iff order state (fun entries => entries.Edge blob manifest)
      (by simp [RepoState.Edge]) repo)
    have listed : ∀ entries : RepoState, entries.Edge blob manifest ↔
        ∃ manifests, entries.backrefs[blob]? = some manifests ∧ manifest ∈ manifests := by
      intro entries
      unfold RepoState.Edge
      cases entries.backrefs[blob]? <;> simp
    simp [logListing, mem_arrange_iff, listed]
  referrers repo subject referrer descriptor := by
    refine Iff.trans ?_ (exists_repo_iff order state (fun entries =>
      entries.contents.referrer subject referrer = some descriptor)
      (by simp [RepoState.contents]) repo)
    simp [logListing, mem_arrange_iff, RepoState.contents, Option.bind_eq_some_iff,
      Std.ExtTreeMap.mem_toList_iff_getElem?_eq_some]
  checksums repo digest found := by
    refine Iff.trans ?_ (exists_repo_iff order state
      (fun entries => entries.checksums[digest]? = some found) (by simp) repo)
    simp [logListing, mem_arrange_iff]

theorem exists_greatestTag (entries : RepoState) (digest : String)
    (tagged : entries.contents.Tagged digest) :
    ∃ tag mediaType, entries.contents.GreatestTag digest tag mediaType := by
  rw [← tagged_iff, tagged_eq_isSome] at tagged
  obtain ⟨⟨tag, named, mediaType⟩, found⟩ := Option.isSome_iff_exists.mp tagged
  have same : named = digest := by simpa using List.find?_some found
  rw [same] at found
  exact ⟨tag, mediaType, (entries.greatestTag_iff digest tag mediaType).mpr found⟩

end Log

end Roci.Metadata
