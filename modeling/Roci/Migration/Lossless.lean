import Roci.Migration.Stages
import Roci.Storage.Digest

/-!
# What a migration carries over

The export lists everything a store holds, but it writes a tagged manifest
under the media type of each of its tags, one after the other.  So the migrated
store answers like its source exactly when every tagged manifest is recorded
with the media type of its greatest tag.
-/

namespace Roci.Migration

open Roci.Library Roci.Metadata Roci.Lmdb Roci.Storage

/-! ## Clean contents -/

variable {ops : List MetaOp}

section Clean

variable (reader : JsonReader)

/-- No text of the operation has a zero byte, and its descriptor is UTF-8. -/
structure Plain (op : MetaOp) : Prop where
  nulFree : OpNulFree reader op
  utf8 : ∀ descriptor, op.descriptor = some descriptor → ValidUtf8 descriptor

/-- The same of the entries of a repository. -/
structure CleanEntries (repo : String) (entries : RepoContents) : Prop where
  tag : ∀ tag digest mediaType, entries.tag tag = some (digest, mediaType) →
    NulFree repo ∧ NulFree tag ∧ NulFree digest
  mediaType : ∀ digest mediaType, entries.mediaType digest = some mediaType →
    NulFree repo ∧ NulFree digest
  referrer : ∀ subject referrer descriptor, entries.referrer subject referrer = some descriptor →
    NulFree repo ∧ NulFree subject ∧ NulFree referrer ∧ TypeNulFree reader descriptor ∧
      ValidUtf8 descriptor
  edge : ∀ blob manifest, entries.edge blob manifest →
    NulFree repo ∧ NulFree blob ∧ NulFree manifest
  checksum : ∀ digest found, entries.checksum digest = some found → NulFree repo ∧ NulFree digest

def Clean (contents : Contents) : Prop := ∀ repo, CleanEntries reader repo (contents repo)

variable {reader}

theorem clean_foldl (plain : ∀ op ∈ ops, Plain reader op) :
    Clean reader (ops.foldl Contents.apply fun _ => .nothing) := by
  intro repo
  have written := fun entry => @Contents.written_of_holds ops repo entry
  refine ⟨fun tag digest mediaType found => ?_, fun digest mediaType found => ?_,
    fun subject referrer descriptor found => ?_, fun blob manifest found => ?_,
    fun digest sum found => ?_⟩
  · obtain ⟨op, listed, rfl, writes⟩ := written (.tag tag digest mediaType) found
    have nulFree := (plain op listed).nulFree
    cases op with
    | putManifest =>
      obtain ⟨named, rfl, rfl⟩ := writes
      exact ⟨nulFree.1, nulFree.2.2.1 tag named, nulFree.2.1⟩
    | _ => cases writes
  · obtain ⟨op, listed, rfl, writes⟩ := written (.mediaType digest mediaType) found
    have nulFree := (plain op listed).nulFree
    cases op with
    | putManifest =>
      obtain ⟨rfl, rfl⟩ := writes
      exact ⟨nulFree.1, nulFree.2.1⟩
    | _ => cases writes
  · obtain ⟨op, listed, rfl, writes⟩ := written (.referrer subject referrer descriptor) found
    obtain ⟨nulFree, valid⟩ := plain op listed
    cases op with
    | putManifest =>
      obtain ⟨rfl, linked⟩ := writes
      obtain ⟨subjectClean, typeClean⟩ := nulFree.2.2.2.2 _ linked
      exact ⟨nulFree.1, subjectClean, nulFree.2.1, typeClean,
        valid _ (by simp [MetaOp.descriptor, linked])⟩
    | putReferrer =>
      cases writes
      exact ⟨nulFree.1, nulFree.2.1, nulFree.2.2.1, nulFree.2.2.2, valid _ rfl⟩
    | _ => cases writes
  · obtain ⟨op, listed, rfl, writes⟩ := written (.edge blob manifest) found
    have nulFree := (plain op listed).nulFree
    cases op with
    | putManifest =>
      obtain ⟨rfl, listed⟩ := writes
      exact ⟨nulFree.1, nulFree.2.2.2.1 blob listed, nulFree.2.1⟩
    | putBackrefs =>
      obtain ⟨rfl, listed⟩ := writes
      exact ⟨nulFree.1, nulFree.2.2 blob listed, nulFree.2.1⟩
    | _ => cases writes
  obtain ⟨op, listed, rfl, writes⟩ := written (.checksum digest sum) found
  have nulFree := (plain op listed).nulFree
  cases op with
  | putChecksum =>
    cases writes
    exact ⟨nulFree.1, nulFree.2⟩
  | _ => cases writes

theorem plain_of_complete {listing : Listing} {contents : Contents}
    (complete : listing.Complete contents) (clean : Clean reader contents) :
    ∀ op ∈ listing.ops, Plain reader op := by
  simp only [Listing.ops, List.forall_mem_append]
  refine ⟨⟨⟨⟨?_, ?_⟩, ?_⟩, ?_⟩, ?_⟩
  · simp only [Listing.tagOps, List.forall_mem_map]
    rintro ⟨repo, tag, digest, mediaType⟩ membership
    obtain ⟨repoClean, tagClean, digestClean⟩ := (clean repo).tag _ _ _
      ((complete.tags _ _ _ _).mp membership)
    exact ⟨⟨repoClean, digestClean, by simpa using tagClean, by simp, by simp⟩, by
      simp [MetaOp.descriptor]⟩
  · simp only [Listing.manifestOps, List.forall_mem_map]
    rintro ⟨repo, digest, mediaType⟩ membership
    obtain ⟨repoClean, digestClean⟩ := (clean repo).mediaType _ _
      ((complete.manifests _ _ _).mp membership).1
    exact ⟨⟨repoClean, digestClean, by simp, by simp, by simp⟩, by simp [MetaOp.descriptor]⟩
  · simp only [Listing.edgeOps, List.forall_mem_map]
    rintro ⟨repo, blob, manifest⟩ membership
    obtain ⟨repoClean, blobClean, manifestClean⟩ := (clean repo).edge _ _
      ((complete.edges _ _ _).mp membership)
    exact ⟨⟨repoClean, manifestClean, by simpa using blobClean⟩, by simp [MetaOp.descriptor]⟩
  · simp only [Listing.referrerOps, List.forall_mem_map]
    rintro ⟨repo, subject, referrer, descriptor⟩ membership
    obtain ⟨repoClean, subjectClean, referrerClean, typeClean, valid⟩ := (clean repo).referrer _ _ _
      ((complete.referrers _ _ _ _).mp membership)
    exact ⟨⟨repoClean, subjectClean, referrerClean, typeClean⟩, by
      simpa [MetaOp.descriptor] using valid⟩
  simp only [Listing.checksumOps, List.forall_mem_map]
  rintro ⟨repo, digest, found⟩ membership
  obtain ⟨repoClean, digestClean⟩ := (clean repo).checksum _ _
    ((complete.checksums _ _ _).mp membership)
  exact ⟨⟨repoClean, digestClean⟩, by simp [MetaOp.descriptor]⟩

end Clean

/-! ## Stores that show the same contents -/

inductive Reached (reader : JsonReader) (ops : List MetaOp) : MetadataEngine → Store → Prop where
  | log : Reached reader ops .log (.log (ops.foldl (State.applyInRam reader) {}))
  | lmdb {tables : Tables} (applied : ops.foldlM (Tables.applyOp reader) {} = .ok tables) :
      Reached reader ops .lmdb (.lmdb tables)

/-- Every query with arguments free of zero bytes has the same answer, the
lists that follow a hash map up to their order. -/
structure Agree (order : IterOrder) (first second : Store) : Prop where
  resolveTag : ∀ repo tag, NulFree repo → NulFree tag →
    first.resolveTag repo tag = second.resolveTag repo tag
  manifestMediaType : ∀ repo digest, NulFree repo → NulFree digest →
    first.manifestMediaType repo digest = second.manifestMediaType repo digest
  tagsPage : ∀ repo last limit, NulFree repo →
    first.tagsPage repo last limit = second.tagsPage repo last limit
  referrersPage : ∀ repo subject artifactType last limit, NulFree repo → NulFree subject →
    (∀ type ∈ artifactType, NulFree type) →
      first.referrersPage repo subject artifactType last limit =
        second.referrersPage repo subject artifactType last limit
  hasReferrer : ∀ repo subject referrer, NulFree repo → NulFree subject → NulFree referrer →
    first.hasReferrer repo subject referrer = second.hasReferrer repo subject referrer
  backrefs : ∀ repo blob, NulFree repo → NulFree blob → ∀ manifest,
    manifest ∈ first.backrefs repo blob ↔ manifest ∈ second.backrefs repo blob
  checksum : ∀ repo digest, NulFree repo → NulFree digest →
    first.checksum repo digest = second.checksum repo digest
  repos : first.repos = second.repos
  manifests : ∀ repo, NulFree repo → ∀ digest,
    digest ∈ first.manifests order repo ↔ digest ∈ second.manifests order repo
  tagsSnapshot : ∀ repo, NulFree repo → first.tagsSnapshot repo = second.tagsSnapshot repo
  referrersSnapshot : ∀ repo, NulFree repo →
    (first.referrersSnapshot order repo).Perm (second.referrersSnapshot order repo)

theorem Agree.symm {order : IterOrder} {first second : Store} (agree : Agree order first second) :
    Agree order second first := by
  constructor <;> intros <;> symm <;> apply_rules [agree.resolveTag, agree.manifestMediaType,
    agree.tagsPage, agree.referrersPage, agree.hasReferrer, agree.backrefs, agree.checksum,
    agree.repos, agree.manifests, agree.tagsSnapshot, agree.referrersSnapshot]

theorem agree_of_represents {reader : JsonReader} (order : IterOrder) {state : State}
    {tables : Tables} (wellFormed : ∀ name, (state.repo name).WellFormed reader)
    (represents : Represents reader tables state.contents) :
    Agree order (.lmdb tables) (.log state) := by
  have alike := represents.answersAlike order wellFormed
  refine ⟨alike.resolveTag, alike.manifestMediaType, alike.tagsPage, alike.referrersPage,
    alike.hasReferrer, alike.backrefs, alike.checksum, alike.repoNames,
    fun repo repoClean digest => (alike.manifests repo repoClean digest).trans ?_,
    alike.tagsSnapshot, alike.referrersSnapshot⟩
  refine Iff.trans ?_ ((order.perm repo _).map Prod.fst).mem_iff.symm
  rw [State.manifests, State.repo]
  cases state.repos[repo]? with
  | none => simp
  | some entries => simp [Std.ExtTreeMap.map_fst_toList_eq_keys]

/-! ## The migrated store -/

def contentsOf (ops : List MetaOp) : Contents := ops.foldl Contents.apply fun _ => .nothing

theorem contents_reached (reader : JsonReader) (ops : List MetaOp) :
    (ops.foldl (State.applyInRam reader) {}).contents = contentsOf ops := by
  rw [State.contents_foldl, State.contents_empty]
  rfl

theorem represents_contentsOf {reader : JsonReader} {tables : Tables}
    (plain : ∀ op ∈ ops, Plain reader op)
    (applied : ({} : Tables).bulkApply reader ops = .ok tables) :
    Represents reader tables (contentsOf ops) :=
  (Represents.empty reader).bulkApply (fun op membership => (plain op membership).nulFree) applied

theorem Reached.export_complete {reader : JsonReader} {engine : MetadataEngine} {source : Store}
    (reached : Reached reader ops engine source) (plain : ∀ op ∈ ops, Plain reader op)
    (order : IterOrder) :
    ∃ listing : Listing, source.exportOps order = listing.ops ∧
      listing.Complete (contentsOf ops) := by
  cases reached with
  | log =>
    refine ⟨logListing order _, (ops_logListing order _).symm, ?_⟩
    rw [← contents_reached reader]
    exact logListing_complete order _
  | lmdb applied =>
    exact ⟨_, rfl, (represents_contentsOf plain applied).exportListing_complete⟩

theorem built_log_eq {env : Metadata.Env} {key : Option HmacKey} {store : Store}
    (plain : ∀ op ∈ ops, Plain env.reader op) (fits : ∀ op ∈ ops, Fits (serializeOp op))
    (whole : built env key ops .log = .ok store) :
    store = .log (ops.foldl (State.applyInRam env.reader) {}) := by
  have logged : ops.map MetaOp.asLogged = ops :=
    (List.map_congr_left fun op membership =>
      (asLogged_eq_self_iff op).mpr (plain op membership).utf8).trans (List.map_id ops)
  rw [built, openInner_framedLog env key fits, logged] at whole
  exact (Except.ok.inj whole).symm

theorem manifestMediaType_reached (reader : JsonReader) (ops : List MetaOp) (repo digest : String) :
    (ops.foldl (State.applyInRam reader) {}).manifestMediaType repo digest =
      (contentsOf ops repo).mediaType digest := by
  rw [← contents_reached reader, State.manifestMediaType_eq]
  rfl

section Pair

variable {reader : JsonReader} {logOps tableOps : List MetaOp} {tables : Tables}
  (order : IterOrder) (represents : Represents reader tables (contentsOf tableOps))
include represents

theorem agree_of_contents_eq (same : contentsOf logOps = contentsOf tableOps) :
    Agree order (.lmdb tables) (.log (logOps.foldl (State.applyInRam reader) {})) := by
  rw [← same, ← contents_reached reader] at represents
  exact agree_of_represents order (State.wellFormed_foldl reader logOps) represents

variable {order} in
theorem mediaType_eq_of_agree
    (agree : Agree order (.lmdb tables) (.log (logOps.foldl (State.applyInRam reader) {})))
    {repo digest : String} (repoClean : NulFree repo) (digestClean : NulFree digest) :
    (contentsOf logOps repo).mediaType digest = (contentsOf tableOps repo).mediaType digest := by
  have answer := agree.manifestMediaType repo digest repoClean digestClean
  rw [← contents_reached reader tableOps] at represents
  rw [← manifestMediaType_reached reader, ← manifestMediaType_reached reader]
  exact answer.symm.trans (manifestMediaType_eq represents repoClean digestClean)

end Pair

/-- A migrated store answers like its source exactly when every tagged manifest
is recorded with the media type of its greatest tag. -/
theorem migrated_store_agrees_iff (setup : Setup) (sourceEngine config : MetadataEngine)
    (different : sourceEngine ≠ config) (ops : List MetaOp)
    (plain : ∀ op ∈ ops, Plain setup.env.reader op) (source : Store)
    (reached : Reached setup.env.reader ops sourceEngine source) (disk : Disk)
    (opens : held setup.env setup.key disk sourceEngine = .ok source)
    (fits : config = .log → ∀ op ∈ source.exportOps setup.order, Fits (serializeOp op))
    (dest : Store) (final : Disk)
    (returned : Program.Gets (effect setup.env.reader) (migrate setup sourceEngine config) disk
      (.finish (.ok dest)) final) :
    Agree setup.order source dest ↔ ∀ repo digest tag mediaType,
      (contentsOf ops repo).GreatestTag digest tag mediaType →
        (contentsOf ops repo).mediaType digest = some mediaType := by
  obtain ⟨whole, _⟩ := (keeps_migrate setup different opens).returns returned dest rfl
  obtain ⟨listing, exported, complete⟩ := reached.export_complete plain setup.order
  have clean : Clean setup.env.reader (contentsOf ops) := clean_foldl plain
  have plainExport := plain_of_complete complete clean
  have finite : ∀ repo digest, (contentsOf ops repo).Tagged digest →
      ∃ tag mediaType, (contentsOf ops repo).GreatestTag digest tag mediaType := by
    intro repo digest
    rw [← contents_reached setup.env.reader]
    exact exists_greatestTag _ digest
  have condition := complete.rebuilt_eq_iff finite
  -- Equal media types of the tagged manifests are all that is missing.
  have sameTypes : (∀ repo digest, NulFree repo → NulFree digest →
      (contentsOf listing.ops repo).mediaType digest = (contentsOf ops repo).mediaType digest) →
      contentsOf listing.ops = contentsOf ops := by
    refine fun same => condition.mpr fun repo digest tag mediaType greatest => ?_
    obtain ⟨repoClean, _, digestClean⟩ := (clean repo).tag tag digest mediaType greatest.1
    rw [← same repo digest repoClean digestClean]
    exact complete.mediaType_of_greatest greatest
  rw [← condition]
  rw [exported] at whole fits
  cases reached with
  | log =>
    cases config with
    | log => exact absurd rfl different
    | lmdb =>
      obtain ⟨tables, applied, rfl⟩ := built_lmdb_eq_ok whole
      have represents := represents_contentsOf plainExport applied
      exact ⟨fun agree => sameTypes fun repo digest repoClean digestClean =>
          (mediaType_eq_of_agree represents agree.symm repoClean digestClean).symm,
        fun same => (agree_of_contents_eq _ represents same.symm).symm⟩
  | lmdb stored =>
    cases config with
    | lmdb => exact absurd rfl different
    | log =>
      cases built_log_eq plainExport (fits rfl) whole
      have represents := represents_contentsOf plain stored
      exact ⟨fun agree => sameTypes fun repo digest repoClean digestClean =>
          mediaType_eq_of_agree represents agree repoClean digestClean,
        fun same => agree_of_contents_eq _ represents same⟩

/-! ## A run -/

def lmdbRoot (tables : Tables) : Disk
  | .artifact .lmdb => some (.database tables)
  | _ => none

theorem movedAside_framedLog (env : Metadata.Env) (key : Option HmacKey) (ops : List MetaOp) :
    (openInner env key (framedLog env key ops)).movedAside = false := by
  have compatible := compatible_append env key (headerRecord_compatible env key)
    (ops.flatMap (encodeRecord env key))
  have nonempty : framedLog env key ops ≠ [] := by
    simp [framedLog, headerRecord_ne_nil]
  rw [← framedLog] at compatible
  simp only [openInner, nonempty, if_false, compatible]

theorem gets_openLog (setup : Setup) {disk : Disk} {place : Place}
    (stored : disk place = some (.file (framedLog setup.env setup.key ops))) :
    Program.Gets (effect setup.env.reader) (openLog setup place) disk
      (.finish (.log (openInner setup.env setup.key (framedLog setup.env setup.key ops)).state))
      disk := by
  have read : Program.Gets (effect setup.env.reader) (act (.read place)) disk
      (.finish (some (framedLog setup.env setup.key ops))) disk := by
    refine .step 0 ?_
    simp only [effect, stored]
    exact .stay _ _
  refine read.bind ?_
  simp only [movedAside_framedLog, Bool.false_eq_true, if_false]
  exact .stay _ _

/-- The root with the finished log in its scratch place. -/
def builtRoot (tables : Tables) : Disk :=
  Function.update (Function.update (Function.update (lmdbRoot tables) (.artifact .lmdb)
    (some (.database tables))) (.migrating .log) (some (.file [])))
    (.migrating .log) (some (.file (framedLog .concrete none tables.exportImpl)))

/-- The same after the comparison. -/
def comparedRoot (tables : Tables) : Disk :=
  Function.update (emptied (Function.update (Function.update (builtRoot tables) .verifyDir
    (some .directory)) .verifyLog (some (.file (framedLog .concrete none tables.exportImpl))))
      .verifyDir) .verifyDir none

/-- What the finished log opens to. -/
def rewritten (tables : Tables) : Store :=
  .log (openInner .concrete none (framedLog .concrete none tables.exportImpl)).state

theorem lmdbRoot_migrates (tables : Tables)
    (compared : verifyMigration .sorted (.lmdb tables) (rewritten tables) = .ok ()) :
    ∃ final, Program.Gets (effect Env.concrete.reader) (migrate plainSetup .lmdb .log)
      (lmdbRoot tables) (.finish (.ok (rewritten tables))) final := by
  have cleaned : Program.Gets (effect Env.concrete.reader) cleanMigratingLeftovers
      (lmdbRoot tables) (.finish ()) (lmdbRoot tables) :=
    Program.gets_advance _ (List.replicate 5 0) _ _
  have ready : Program.Gets (effect Env.concrete.reader) (setAside .log)
      (lmdbRoot tables) (.finish (.ok ())) (lmdbRoot tables) :=
    Program.gets_advance _ [0] _ _
  have opened := Program.gets_advance (effect Env.concrete.reader) [0]
    (openEngine plainSetup .lmdb) (lmdbRoot tables)
  have building : Program.Gets (effect Env.concrete.reader)
      (buildDestination plainSetup (.lmdb tables) .log)
      (Function.update (lmdbRoot tables) (.artifact .lmdb) (some (.database tables)))
      (.finish (.ok ())) (builtRoot tables) :=
    Program.gets_advance _ [0, 0, 0] _ _
  have reopened : Program.Gets (effect Env.concrete.reader) (openEngineAt plainSetup .log)
      (builtRoot tables) (.finish (.ok (rewritten tables))) (comparedRoot tables) :=
    .step 0 (.step 0 ((gets_openLog plainSetup rfl).bind (.step 0 (.step 0 (.stay _ _)))))
  have committed : ∃ final, Program.Gets (effect Env.concrete.reader)
      (commitDestination plainSetup .lmdb .log) (comparedRoot tables)
      (.finish (.ok (rewritten tables))) final :=
    ⟨_, .step 0 (.step 0 (.step 0 (.step 0 (.step 0 (.step 0 (.step 0 (.step 0 (.step 0 (.step 0
      ((gets_openLog plainSetup rfl).bind (.stay _ _)))))))))))⟩
  obtain ⟨final, committed⟩ := committed
  refine ⟨final, cleaned.bind (ready.bind (opened.bind (building.bind (reopened.bind ?_))))⟩
  simp only [show plainSetup.order = .sorted from rfl, compared]
  exact committed

def tablesOf (ops : List MetaOp) : Tables :=
  (({} : Tables).bulkApply JsonText.reader ops).toOption.getD {}

theorem bulkApply_tablesOf
    (taken : (({} : Tables).bulkApply JsonText.reader ops).toOption.isSome = true) :
    ({} : Tables).bulkApply JsonText.reader ops = .ok (tablesOf ops) := by
  unfold tablesOf
  cases applied : ({} : Tables).bulkApply JsonText.reader ops with
  | error error =>
    rw [applied] at taken
    cases taken
  | ok tables => rfl

def oneImage : List MetaOp :=
  [.putManifest "app" "sha256:0a" "application/json" (some "v1") ["sha256:0b"] none,
    .putChecksum "app" "sha256:0b" 7 42]

theorem oneImage_migrates :
    ∃ dest final, Program.Gets (effect Env.concrete.reader) (migrate plainSetup .lmdb .log)
        (lmdbRoot (tablesOf oneImage)) (.finish (.ok dest)) final ∧
      Agree .sorted (.lmdb (tablesOf oneImage)) dest := by
  have applied := @bulkApply_tablesOf oneImage (by decide +kernel)
  have fits : ∀ op ∈ (tablesOf oneImage).exportImpl, Fits (serializeOp op) := by decide +kernel
  obtain ⟨final, run⟩ := lmdbRoot_migrates (tablesOf oneImage) (by
    rw [rewritten, openInner_framedLog .concrete none fits]
    decide +kernel)
  refine ⟨_, final, run, ?_⟩
  have clean : ∀ op ∈ oneImage, OpNulFree JsonText.reader op := by decide +kernel
  have described : ∀ op ∈ oneImage, op.descriptor = none := by decide
  have plain : ∀ op ∈ oneImage, Plain JsonText.reader op := fun op member =>
    ⟨clean op member, by simp [described op member]⟩
  refine (migrated_store_agrees_iff plainSetup .lmdb .log (by decide) oneImage plain _
    (.lmdb applied) (lmdbRoot (tablesOf oneImage)) rfl (fun _ => fits) _ final run).mpr ?_
  intro repo digest tag mediaType greatest
  by_cases same : repo = "app"
  · subst same
    have tagged : (if tag = "v1" then some ("sha256:0a", "application/json") else none) =
        some (digest, mediaType) := greatest.1
    obtain ⟨_, rfl, rfl⟩ : tag = "v1" ∧ "sha256:0a" = digest ∧ "application/json" = mediaType := by
      simpa using tagged
    rfl
  · have missing : contentsOf oneImage repo = .nothing := by
      simp [contentsOf, oneImage, Contents.apply, Contents.update, MetaOp.repo, same]
    rw [missing] at greatest
    cases greatest.1

/-- The empty body pushed under two tags with two content types, the greater
tag first. -/
def twiceTagged : List MetaOp :=
  [.putManifest "app" Digest.ofNothing.asString
      "application/vnd.docker.distribution.manifest.v2+json" (some "v2") [] none,
    .putManifest "app" Digest.ofNothing.asString "application/vnd.oci.image.manifest.v1+json"
      (some "v1") [] none]

/-- The migrated store gives the manifest the media type of its greater tag, not
the one it was last pushed with. -/
theorem migration_changes_media_type :
    ({} : Tables).bulkApply JsonText.reader twiceTagged = .ok (tablesOf twiceTagged) ∧
    ∃ dest final, Program.Gets (effect Env.concrete.reader) (migrate plainSetup .lmdb .log)
        (lmdbRoot (tablesOf twiceTagged)) (.finish (.ok dest)) final ∧
      (Store.lmdb (tablesOf twiceTagged)).manifestMediaType "app" Digest.ofNothing.asString =
        some "application/vnd.oci.image.manifest.v1+json" ∧
      dest.manifestMediaType "app" Digest.ofNothing.asString =
        some "application/vnd.docker.distribution.manifest.v2+json" := by
  have fits : ∀ op ∈ (tablesOf twiceTagged).exportImpl, Fits (serializeOp op) := by
    decide +kernel
  have logged := openInner_framedLog .concrete none fits
  obtain ⟨final, run⟩ := lmdbRoot_migrates (tablesOf twiceTagged) (by
    rw [rewritten, logged]
    decide +kernel)
  refine ⟨bulkApply_tablesOf (by decide +kernel), _, final, run, by decide +kernel, ?_⟩
  rw [rewritten, logged]
  decide +kernel

end Roci.Migration
