import Roci.Layout.Index
import Roci.Metadata.Facts

/-!
# Recovery at startup

Two durable copies of what a repository holds lag each other: the log of the
metadata store and the `index.json` that is written behind it.  Recovery first
replays the log, then imports from `index.json` the subject links and the tags
the replayed state does not know, and rewrites each index that differs from what
the metadata store would write.  A repository therefore names a manifest after
recovery exactly when the replayed state names it or its `index.json` brings it
back.
-/

namespace Roci.Layout

open Roci.Library Roci.Metadata Roci.Storage

inductive IndexFile where
  | absent
  | unreadable
  | json (value : Json)

/-- What a restart finds on disk: the blobs and the `index.json` of each
repository, and the state the log replays to. -/
structure Disk where
  files : StringMap (StringMap Bytes) := ∅
  layout : StringMap IndexFile := ∅
  metadata : State := {}

namespace Disk

def sizeLookup (disk : Disk) (repo digest : String) : Option UInt64 :=
  (splitOnce ':' digest).bind fun _ =>
    (disk.files[repo]?.bind fun files => files[digest]?).map fun bytes => UInt64.ofNat bytes.length

end Disk

section

variable (reader : JsonReader) (order : IterOrder)

/-! ## The passes -/

def warmEntry (repo : String) (store : State) (entry : Json) : State :=
  match subjectDigest entry, descriptorDigest entry with
  | some subject, some referrer =>
    if store.hasReferrer repo subject referrer then store
    else store.applyInRam reader (.putReferrer repo subject referrer (Json.print entry))
  | _, _ => store

def warmRepo (store : State) (discovered : String × IndexFile) : State :=
  match discovered.2 with
  | .json index => (indexManifests index).foldl (warmEntry reader discovered.1) store
  | _ => store

variable (disk : Disk)

def Disk.discoverRepos : List (String × IndexFile) := order.arrange "" disk.layout.toList

def warmReferrersFromLayout : State :=
  (disk.discoverRepos order).foldl (warmRepo reader) disk.metadata

def importRepo (store : State) (discovered : String × IndexFile) : State :=
  match discovered.2 with
  | .json index => importForeignTags reader store discovered.1 index
  | _ => store

def indexDirty (store : State) (repo : String) : Bool :=
  match disk.layout[repo]? with
  | some (.json existing) =>
    !sameManifestSet existing
      (indexFromMeta reader order store repo (some existing) (disk.sizeLookup repo))
  | _ => store.repoNames.contains repo

/-- `flush_dirty` for one repository; an unreadable index is left alone. -/
def flushRepo (store : State) (layout : StringMap IndexFile) (repo : String) :
    StringMap IndexFile :=
  match layout[repo]?.getD .absent with
  | .unreadable => layout
  | .absent =>
    layout.insert repo
      (.json (indexFromMeta reader order store repo none (disk.sizeLookup repo)))
  | .json existing =>
    layout.insert repo
      (.json (indexFromMeta reader order store repo (some existing) (disk.sizeLookup repo)))

/-- `reconcile_index_json`: import the tags of every layout, then flush what
differs. -/
def reconcileIndexJson (warmed : State) : Disk :=
  let imported := (disk.discoverRepos order).foldl (importRepo reader) warmed
  let dirty := ((disk.discoverRepos order).map Prod.fst ++
    imported.repoNames.filter fun repo => !disk.layout.contains repo).filter
      (indexDirty reader order disk imported)
  { disk with
    metadata := imported
    layout := dirty.foldl (flushRepo reader order disk imported) disk.layout }

def recover : Disk :=
  reconcileIndexJson reader order disk (warmReferrersFromLayout reader order disk)

/-! ## One pass over all repositories -/

theorem repo_foldl_of_frame {Item : Type} {act : State → Item → State} {name : String}
    {items : List Item}
    (frame : ∀ store, ∀ item ∈ items, (act store item).repo name = store.repo name)
    (store : State) : (items.foldl act store).repo name = store.repo name := by
  refine List.foldlRecOn (motive := fun reached => State.repo reached name = store.repo name)
    items act rfl fun reached same item listed => ?_
  rw [frame reached item listed, same]

/-- A pass whose part for each repository leaves the others alone acts on a
repository through its own part. -/
theorem repo_foldl_pass {Value : Type} {act : State → String × Value → State}
    (frame : ∀ store entry name, name ≠ entry.1 → (act store entry).repo name = store.repo name)
    {entries : List (String × Value)} (nodup : (entries.map Prod.fst).Nodup) (start : State)
    {name : String} {value : Value} (listed : (name, value) ∈ entries) :
    ∃ store : State, store.repo name = start.repo name ∧
      (entries.foldl act start).repo name = (act store (name, value)).repo name := by
  obtain ⟨before, after, rfl⟩ := List.append_of_mem listed
  have others : ∀ entry ∈ before ++ after, name ≠ entry.1 := by
    rw [List.map_append, List.map_cons, List.nodup_middle, List.nodup_cons] at nodup
    rintro ⟨key, other⟩ membership rfl
    exact nodup.1 (by
      rw [← List.map_append]
      exact List.mem_map.mpr ⟨(name, other), membership, rfl⟩)
  refine ⟨before.foldl act start, ?_, ?_⟩
  · exact repo_foldl_of_frame (fun store entry membership =>
      frame store entry name (others entry (by simp [membership]))) start
  rw [List.foldl_append, List.foldl_cons]
  exact repo_foldl_of_frame (fun store entry membership =>
    frame store entry name (others entry (by simp [membership]))) _

variable {reader} in
theorem repo_warmEntry_frame {repo name : String} (different : name ≠ repo) (store : State)
    (entry : Json) : (warmEntry reader repo store entry).repo name = store.repo name := by
  unfold warmEntry
  split
  · split
    · rfl
    rw [State.repo_applyInRam]
    exact if_neg different
  · rfl

variable {reader} in
theorem repo_importEntry_frame {repo name : String} (different : name ≠ repo) (store : State)
    (entry : Json) : (importEntry reader repo store entry).repo name = store.repo name := by
  unfold importEntry
  split
  · split
    · rfl
    rw [State.repo_applyInRam]
    exact if_neg different
  · rfl

theorem repo_warmRepo_frame (store : State) (discovered : String × IndexFile) (name : String)
    (different : name ≠ discovered.1) :
    (warmRepo reader store discovered).repo name = store.repo name := by
  unfold warmRepo
  split
  · exact repo_foldl_of_frame
      (fun store entry _ => repo_warmEntry_frame different store entry) store
  · rfl

theorem repo_importRepo_frame (store : State) (discovered : String × IndexFile) (name : String)
    (different : name ≠ discovered.1) :
    (importRepo reader store discovered).repo name = store.repo name := by
  unfold importRepo
  split
  · exact repo_foldl_of_frame (fun store entry _ => repo_importEntry_frame different store entry)
      store
  · rfl

theorem nodup_discoverRepos : ((disk.discoverRepos order).map Prod.fst).Nodup :=
  ((order.perm "" disk.layout.toList).map Prod.fst).nodup_iff.mpr (StringMap.nodup_keys_toList _)

variable (repo : String)

theorem mem_discoverRepos_iff (file : IndexFile) :
    (repo, file) ∈ disk.discoverRepos order ↔ disk.layout[repo]? = some file := by
  rw [Disk.discoverRepos, (order.perm "" disk.layout.toList).mem_iff,
    Std.ExtTreeMap.mem_toList_iff_getElem?_eq_some]

/-! ## What one layout brings back -/

theorem hasReferrer_iff_refers (store : State) (repo subject digest : String) :
    store.hasReferrer repo subject digest = true ↔ (store.repo repo).Refers subject digest := by
  rw [State.hasReferrer_eq, RepoState.Refers]
  cases (store.repo repo).referrers[subject]? with
  | none => simp
  | some referrers =>
    simp only [Option.any_some, ← Std.ExtTreeMap.isSome_getElem?_eq_contains,
      Option.isSome_iff_exists]
    simp

def linksReferrer (digest : String) (entry : Json) : Prop :=
  descriptorDigest entry = some digest ∧ (subjectDigest entry).isSome = true

def importable (tag : String) (entry : Json) : Bool :=
  decide (descriptorTag entry = some tag) &&
    (descriptorDigest entry).any fun digest => (Digest.parse digest).toOption.isSome

/-- An `index.json` that makes recovery name `digest` in a repository: it links
the digest to a subject, or the first importable entry for a tag the repository
does not know carries the digest. -/
def Revives (repoState : RepoState) (index : Json) (digest : String) : Prop :=
  (∃ entry ∈ indexManifests index, linksReferrer digest entry) ∨
    ∃ tag : String, repoState.tags[tag]? = none ∧
      ∃ entry, (indexManifests index).find? (importable tag) = some entry ∧
        descriptorDigest entry = some digest

theorem tags_warmEntry (store : State) (entry : Json) :
    ((warmEntry reader repo store entry).repo repo).tags = (store.repo repo).tags := by
  unfold warmEntry
  split
  · split
    · rfl
    rw [State.repo_applyInRam]
    split <;> rfl
  · rfl

theorem names_warmEntry (store : State) (entry : Json) (digest : String) :
    ((warmEntry reader repo store entry).repo repo).Names digest ↔
      (store.repo repo).Names digest ∨ linksReferrer digest entry := by
  unfold warmEntry linksReferrer
  rcases linked : subjectDigest entry with _ | subject
  · simp
  rcases named : descriptorDigest entry with _ | referrer
  · simp
  simp only [Option.some.injEq, Option.isSome_some, and_true]
  by_cases listed : store.hasReferrer repo subject referrer = true
  · rw [if_pos listed]
    have refers := (hasReferrer_iff_refers store repo subject referrer).mp listed
    constructor
    · exact .inl
    rintro (before | rfl)
    · exact before
    · exact .inr (.inr ⟨subject, refers⟩)
  rw [if_neg listed, State.repo_applyInRam,
    if_pos (show repo = (MetaOp.putReferrer repo subject referrer _).repo from rfl)]
  constructor
  · intro after
    exact RepoState.names_of_apply reader after
  rintro ((tagged | recorded | ⟨other, refers⟩) | rfl)
  · exact .inl tagged
  · exact .inr (.inl recorded)
  · exact .inr (.inr ⟨other, (RepoState.refers_addReferrer ..).mpr (.inl refers)⟩)
  exact .inr (.inr ⟨subject, (RepoState.refers_addReferrer ..).mpr (.inr ⟨rfl, rfl⟩)⟩)

theorem names_warm (entries : List Json) (store : State) (digest : String) :
    ((entries.foldl (warmEntry reader repo) store).repo repo).tags = (store.repo repo).tags ∧
      (((entries.foldl (warmEntry reader repo) store).repo repo).Names digest ↔
        (store.repo repo).Names digest ∨ ∃ entry ∈ entries, linksReferrer digest entry) := by
  induction entries generalizing store with
  | nil => simp
  | cons entry rest ih =>
    obtain ⟨tags, names⟩ := ih (warmEntry reader repo store entry)
    rw [List.foldl_cons]
    refine ⟨tags.trans (tags_warmEntry reader repo store entry), ?_⟩
    rw [names, names_warmEntry, List.exists_mem_cons_iff, or_assoc]

theorem importable_iff (tag : String) (entry : Json) :
    importable tag entry = true ↔ descriptorTag entry = some tag ∧
      ∃ digest, descriptorDigest entry = some digest ∧
        (Digest.parse digest).toOption.isSome = true := by
  cases named : descriptorDigest entry <;> simp [importable, named]

theorem importEntry_cases (store : State) (entry : Json) :
    (importEntry reader repo store entry = store ∧
      ∀ tag : String, importable tag entry = true → (store.repo repo).tags[tag]? ≠ none) ∨
    ∃ tag digest mediaType, importable tag entry = true ∧ descriptorTag entry = some tag ∧
      descriptorDigest entry = some digest ∧ (store.repo repo).tags[tag]? = none ∧
      importEntry reader repo store entry = store.applyInRam reader
        (.putManifest repo digest mediaType (some tag) [] none) := by
  cases tagged : descriptorTag entry with
  | none =>
    refine .inl ⟨by simp [importEntry, tagged], ?_⟩
    intro tag wanted
    rw [importable_iff, tagged] at wanted
    cases wanted.1
  | some tag =>
    cases named : descriptorDigest entry with
    | none =>
      refine .inl ⟨by simp [importEntry, tagged, named], ?_⟩
      intro tag wanted
      obtain ⟨_, digest, found, _⟩ := (importable_iff tag entry).mp wanted
      rw [named] at found
      cases found
    | some digest =>
      by_cases skipped : ((Digest.parse digest).toOption.isNone ||
          (store.resolveTag repo tag).isSome) = true
      · refine .inl ⟨by simp only [importEntry, tagged, named, skipped, if_true], ?_⟩
        intro other wanted
        obtain ⟨same, found, equal, valid⟩ := (importable_iff other entry).mp wanted
        rw [tagged, Option.some.injEq] at same
        rw [named, Option.some.injEq] at equal
        subst same equal
        rw [State.resolveTag_eq] at skipped
        intro unknown
        simp [unknown, Option.isNone_iff_eq_none, Option.isSome_iff_ne_none.mp valid] at skipped
      refine .inr ⟨tag, digest,
        ((entry.get? "mediaType").bind Json.asStr).getD mediaTypeImageManifest, ?_, rfl, rfl,
        ?_, by simp only [importEntry, tagged, named, if_neg skipped]⟩
      · rw [importable_iff]
        refine ⟨tagged, digest, named, ?_⟩
        simp only [Bool.or_eq_true, not_or, Bool.not_eq_true, Option.isNone_eq_false_iff] at skipped
        exact skipped.1
      rw [← State.resolveTag_eq]
      simp only [Bool.or_eq_true, not_or, Bool.not_eq_true, Option.isSome_eq_false_iff,
        Option.isNone_iff_eq_none] at skipped
      exact skipped.2

theorem names_apply_fresh_tag (repoState : RepoState) (repo digest mediaType tag other : String)
    (unknown : repoState.tags[tag]? = none) :
    (repoState.apply reader (.putManifest repo digest mediaType (some tag) [] none)).Names other ↔
      repoState.Names other ∨ other = digest := by
  constructor
  · intro named
    rcases RepoState.names_of_apply reader named with before | created
    · exact .inl before
    · exact .inr created.symm
  rintro ((⟨named, tagged⟩ | recorded | ⟨subject, refers⟩) | rfl)
  · refine .inl ⟨named, (RepoState.tagged_putManifest ..).mpr ?_⟩
    rw [if_neg]
    · exact tagged
    rintro same
    cases same
    obtain ⟨_, found⟩ := tagged
    rw [unknown] at found
    cases found
  · exact .inr (.inl ((RepoState.recorded_putManifest ..).mpr (.inl recorded)))
  · exact .inr (.inr ⟨subject, (RepoState.refers_putManifest ..).mpr (.inl refers)⟩)
  · exact .inr (.inl ((RepoState.recorded_putManifest ..).mpr (.inr rfl)))

theorem names_import (entries : List Json) (store : State) (digest : String) :
    ((entries.foldl (importEntry reader repo) store).repo repo).Names digest ↔
      (store.repo repo).Names digest ∨
        ∃ tag : String, (store.repo repo).tags[tag]? = none ∧
          ∃ entry, entries.find? (importable tag) = some entry ∧
            descriptorDigest entry = some digest := by
  induction entries generalizing store with
  | nil => simp
  | cons entry rest ih =>
    rw [List.foldl_cons, ih]
    rcases importEntry_cases reader repo store entry with ⟨same, known⟩ |
      ⟨tag, named, mediaType, wanted, tagged, carries, unknown, applied⟩
    · rw [same]
      have skip : ∀ tag : String, (store.repo repo).tags[tag]? = none →
          (entry :: rest).find? (importable tag) = rest.find? (importable tag) := by
        intro tag unknown
        rw [List.find?_cons_of_neg]
        exact fun wanted => known tag wanted unknown
      refine or_congr_right (exists_congr fun tag => and_congr_right fun unknown => ?_)
      rw [skip tag unknown]
    have here : (store.applyInRam reader
        (.putManifest repo named mediaType (some tag) [] none)).repo repo =
          (store.repo repo).apply reader
            (.putManifest repo named mediaType (some tag) [] none) := by
      rw [State.repo_applyInRam]
      exact if_pos rfl
    have tags : ∀ other : String, ((store.repo repo).apply reader
        (.putManifest repo named mediaType (some tag) [] none)).tags[other]? = none ↔
          (store.repo repo).tags[other]? = none ∧ other ≠ tag := by
      intro other
      change ((store.repo repo).tags.insert tag (named, mediaType))[other]? = none ↔ _
      rw [StringMap.lookup_insert]
      by_cases same : other = tag <;> simp [same]
    have first : (entry :: rest).find? (importable tag) = some entry :=
      List.find?_cons_of_pos wanted
    have later : ∀ other, other ≠ tag →
        (entry :: rest).find? (importable other) = rest.find? (importable other) := by
      intro other different
      rw [List.find?_cons_of_neg]
      intro alsoWanted
      rw [importable_iff, tagged, Option.some.injEq] at alsoWanted
      exact different alsoWanted.1.symm
    rw [applied, here, names_apply_fresh_tag reader _ _ _ _ _ _ unknown, or_assoc]
    apply or_congr_right
    simp only [tags]
    constructor
    · rintro (rfl | ⟨other, ⟨absent, different⟩, found⟩)
      · exact ⟨tag, unknown, entry, first, carries⟩
      · exact ⟨other, absent, by rwa [later other different]⟩
    rintro ⟨other, absent, found⟩
    by_cases same : other = tag
    · subst same
      rw [first] at found
      obtain ⟨_, equal, carried⟩ := found
      cases equal
      rw [carries] at carried
      cases carried
      exact .inl rfl
    rw [later other same] at found
    exact .inr ⟨other, ⟨absent, same⟩, found⟩

/-! ## Recovery loses nothing -/

/-- Every fact about a manifest is kept, and no edge is added. -/
structure Extends (before after : RepoState) : Prop where
  tagged : ∀ tag digest, before.Tagged tag digest → after.Tagged tag digest
  recorded : ∀ digest, before.Recorded digest → after.Recorded digest
  refers : ∀ subject digest, before.Refers subject digest → after.Refers subject digest
  edge_iff : ∀ blob manifest, after.Edge blob manifest ↔ before.Edge blob manifest

theorem Extends.refl (repoState : RepoState) : Extends repoState repoState :=
  ⟨fun _ _ => id, fun _ => id, fun _ _ => id, fun _ _ => Iff.rfl⟩

theorem Extends.trans {first second third : RepoState} (left : Extends first second)
    (right : Extends second third) : Extends first third where
  tagged tag digest kept := right.tagged tag digest (left.tagged tag digest kept)
  recorded digest kept := right.recorded digest (left.recorded digest kept)
  refers subject digest kept := right.refers subject digest (left.refers subject digest kept)
  edge_iff blob manifest := (right.edge_iff blob manifest).trans (left.edge_iff blob manifest)

theorem metadata_recover :
    (recover reader order disk).metadata =
      (disk.discoverRepos order).foldl (importRepo reader)
        ((disk.discoverRepos order).foldl (warmRepo reader) disk.metadata) := rfl

/-- After recovery a repository names exactly what the replayed state names and
what its `index.json` brings back. -/
theorem names_recover_iff (repo digest : String) :
    ((recover reader order disk).metadata.repo repo).Names digest ↔
      (disk.metadata.repo repo).Names digest ∨
        ∃ index, disk.layout[repo]? = some (.json index) ∧
          Revives (disk.metadata.repo repo) index digest := by
  rw [metadata_recover]
  cases found : disk.layout[repo]? with
  | none =>
    have others : ∀ discovered ∈ disk.discoverRepos order, repo ≠ discovered.1 := by
      rintro ⟨key, file⟩ membership rfl
      rw [mem_discoverRepos_iff, found] at membership
      cases membership
    rw [repo_foldl_of_frame fun store discovered membership =>
        repo_importRepo_frame reader store discovered repo (others discovered membership),
      repo_foldl_of_frame fun store discovered membership =>
        repo_warmRepo_frame reader store discovered repo (others discovered membership)]
    simp
  | some file =>
    have listed := (mem_discoverRepos_iff order disk repo file).mpr found
    obtain ⟨start, sameStart, warmed⟩ := repo_foldl_pass (repo_warmRepo_frame reader)
      (nodup_discoverRepos order disk) disk.metadata listed
    obtain ⟨middle, sameMiddle, imported⟩ := repo_foldl_pass (repo_importRepo_frame reader)
      (nodup_discoverRepos order disk)
      ((disk.discoverRepos order).foldl (warmRepo reader) disk.metadata) listed
    rw [imported]
    cases file with
    | json index =>
      obtain ⟨tags, names⟩ := names_warm reader repo (indexManifests index) start digest
      have warmedRepo : middle.repo repo =
          ((indexManifests index).foldl (warmEntry reader repo) start).repo repo :=
        sameMiddle.trans warmed
      simp only [importRepo, importForeignTags]
      rw [names_import, warmedRepo, tags, names, sameStart, or_assoc]
      simp [Revives]
    | _ => simp [importRepo, sameMiddle, warmed, warmRepo, sameStart]

end

/-! ## Deleted manifests -/

theorem not_names_iff_queries (store : State) (repo digest : String) :
    ¬ (store.repo repo).Names digest ↔
      (∀ tag mediaType, store.resolveTag repo tag ≠ some (digest, mediaType)) ∧
      digest ∉ store.manifests repo ∧
      ∀ subject, store.hasReferrer repo subject digest = false := by
  simp only [RepoState.Names, not_or, not_exists, RepoState.mem_manifests_iff, ne_eq,
    ← Bool.not_eq_true, hasReferrer_iff_refers, State.resolveTag_eq, RepoState.Tagged]

/-- A manifest whose deletion was logged, and which was not pushed since, stays
deleted through a crash and recovery exactly when the `index.json` found at the
restart does not bring it back. -/
theorem deleted_stays_deleted_iff (reader : JsonReader) (order : IterOrder)
    (before after : List MetaOp) (repo digest : String)
    (notPushed : ∀ op ∈ after, op.repo = repo → ¬ op.Creates digest) (disk : Disk)
    (replayed : disk.metadata =
      (before ++ .deleteManifest repo digest :: after).foldl (State.applyInRam reader) {}) :
    ((∀ tag mediaType, (recover reader order disk).metadata.resolveTag repo tag ≠
        some (digest, mediaType)) ∧
      digest ∉ (recover reader order disk).metadata.manifests repo ∧
      ∀ subject, (recover reader order disk).metadata.hasReferrer repo subject digest = false) ↔
    ∀ index, disk.layout[repo]? = some (.json index) →
      ¬ Revives (disk.metadata.repo repo) index digest := by
  have deleted : ¬ (disk.metadata.repo repo).Names digest := by
    rw [replayed]
    exact State.not_names_after_delete reader before after repo digest {} notPushed
  rw [← not_names_iff_queries, names_recover_iff]
  simp [deleted]

/-- The empty blob's digest, pushed as a manifest. -/
def pushedDigest : String :=
  "sha256:e3b0c44298fc1c149afbf4c8996fb92427ae41e4649b934ca495991b7852b855"

def pushTag : MetaOp := .putManifest "app" pushedDigest mediaTypeImageManifest (some "v1") [] none

/-- What the index writer writes when the log holds `ops`. -/
def writtenIndex (ops : List MetaOp) : Json :=
  indexFromMeta JsonText.reader .sorted (ops.foldl (State.applyInRam JsonText.reader) {}) "app"
    none fun _ => some 0

/-- The index was last written when the log held `flushed`; the crash finds the
log with `ops`. -/
def crashedDisk (flushed ops : List MetaOp) : Disk where
  layout := (∅ : StringMap IndexFile).insert "app" (.json (writtenIndex flushed))
  metadata := ops.foldl (State.applyInRam JsonText.reader) {}

/-- A push is flushed to `index.json`, the manifest is deleted, and the process
dies before the next flush: the tag is back. -/
theorem deleted_tag_returns :
    ((recover JsonText.reader .sorted
        (crashedDisk [pushTag] [pushTag, .deleteManifest "app" pushedDigest])).metadata.resolveTag
      "app" "v1") = some (pushedDigest, mediaTypeImageManifest) := by
  decide +kernel

theorem deleted_and_flushed_stays_deleted :
    pushedDigest ∉ (recover JsonText.reader .sorted
      (crashedDisk [pushTag, .deleteManifest "app" pushedDigest]
        [pushTag, .deleteManifest "app" pushedDigest])).metadata.manifests "app" := by
  refine ((deleted_stays_deleted_iff JsonText.reader .sorted [pushTag] [] "app" pushedDigest
    (by simp) _ rfl).mpr ?_).2.1
  intro index found
  have same : index = writtenIndex [pushTag, .deleteManifest "app" pushedDigest] := by
    simp only [crashedDisk, StringMap.lookup_insert, if_true] at found
    cases found
    rfl
  have empty : indexManifests
      (writtenIndex [pushTag, .deleteManifest "app" pushedDigest]) = [] :=
    List.isEmpty_iff.mp (by decide +kernel)
  simp [Revives, same, empty]

end Roci.Layout
