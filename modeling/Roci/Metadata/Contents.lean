import Roci.Metadata.Invariants

/-!
# What a metadata store holds

An engine-independent account of a store: for each repository, the digest and
media type of a tag, the media type of a manifest, the descriptors of
referrers, the edges from blobs to manifests, and checksums.  Operations change
it entry by entry, and the maps of the log engine are one way to hold it.
-/

namespace Roci.Metadata

open Roci.Library

@[ext]
structure RepoContents where
  tag : String → Option (String × String)
  mediaType : String → Option String
  /-- The descriptor of a subject's referrer. -/
  referrer : String → String → Option Bytes
  /-- A blob is kept alive by a manifest. -/
  edge : String → String → Prop
  checksum : String → Option BlobChecksum

namespace RepoContents

def nothing : RepoContents where
  tag _ := none
  mediaType _ := none
  referrer _ _ := none
  edge _ _ := False
  checksum _ := none

variable (self : RepoContents)

def putMediaType (digest mediaType : String) : RepoContents :=
  { self with
    mediaType := fun other => if other = digest then some mediaType else self.mediaType other }

def putTag (digest mediaType tag : String) : RepoContents :=
  { self with
    tag := fun other => if other = tag then some (digest, mediaType) else self.tag other }

def addBackrefs (manifest : String) (blobs : List String) : RepoContents :=
  { self with
    edge := fun blob other => self.edge blob other ∨ (other = manifest ∧ blob ∈ blobs) }

def removeReferrer (subject referrer : String) : RepoContents :=
  { self with
    referrer := fun target other =>
      if target = subject ∧ other = referrer then none else self.referrer target other }

def addReferrer (subject referrer : String) (descriptor : Bytes) : RepoContents :=
  { self with
    referrer := fun target other =>
      if target = subject ∧ other = referrer then some descriptor
      else self.referrer target other }

variable (digest : String)

def putChecksum (checksum : BlobChecksum) : RepoContents :=
  { self with
    checksum := fun other => if other = digest then some checksum else self.checksum other }

def deleteChecksum : RepoContents :=
  { self with
    checksum := fun other => if other = digest then none else self.checksum other }

/-- Drop the record of a manifest. -/
def deleteMediaType : RepoContents :=
  { self with
    mediaType := fun other => if other = digest then none else self.mediaType other }

def untag : RepoContents :=
  { self with
    tag := fun tag =>
      if (self.tag tag).map Prod.fst = some digest then none else self.tag tag }

def unlist : RepoContents :=
  { self with
    referrer := fun subject referrer =>
      if referrer = digest then none else self.referrer subject referrer }

def unreference : RepoContents :=
  { self with edge := fun blob manifest => self.edge blob manifest ∧ manifest ≠ digest }

def deleteManifest : RepoContents :=
  ((((self.deleteChecksum digest).deleteMediaType digest).untag digest).unlist
    digest).unreference digest

def apply : MetaOp → RepoContents
  | .putManifest _ digest mediaType tag references referrer =>
    let recorded := self.putMediaType digest mediaType
    let tagged :=
      match tag with
      | some tag => recorded.putTag digest mediaType tag
      | none => recorded
    let referenced := tagged.addBackrefs digest references
    match referrer with
    | some (subject, descriptor) => referenced.addReferrer subject digest descriptor
    | none => referenced
  | .deleteManifest _ digest => self.deleteManifest digest
  | .putBackrefs _ manifest blobs => self.addBackrefs manifest blobs
  | .putReferrer _ subject referrer descriptor => self.addReferrer subject referrer descriptor
  | .putChecksum _ digest crc32c size => self.putChecksum digest ⟨crc32c, size⟩
  | .deleteBlob _ digest => self.deleteChecksum digest

end RepoContents

abbrev Contents := String → RepoContents

namespace Contents

variable (self : Contents)

def update (repo : String) (change : RepoContents → RepoContents) : Contents :=
  fun name => if name = repo then change (self name) else self name

def apply (op : MetaOp) : Contents := self.update op.repo fun entries => entries.apply op

theorem update_update (repo : String) (first second : RepoContents → RepoContents) :
    (self.update repo first).update repo second =
      self.update repo fun entries => second (first entries) := by
  funext name
  simp only [update]
  split <;> rfl

/-- What the change leaves alone is the same in every repository. -/
theorem update_field {Value : Type} (field : RepoContents → Value)
    {change : RepoContents → RepoContents}
    (same : ∀ entries, field (change entries) = field entries) (self : Contents) (repo : String) :
    (fun name => field (self.update repo change name)) = fun name => field (self name) := by
  funext name
  simp only [update]
  split
  · exact same _
  · rfl

theorem update_congr {self : Contents} {repo : String} {first second : RepoContents → RepoContents}
    (same : first (self repo) = second (self repo)) :
    self.update repo first = self.update repo second := by
  funext name
  simp only [update]
  split
  · rename_i equal
    rw [equal, same]
  · rfl

end Contents

/-! ## Where entries come from -/

inductive Entry where
  | tag (tag digest mediaType : String)
  | mediaType (digest mediaType : String)
  | referrer (subject referrer : String) (descriptor : Bytes)
  | edge (blob manifest : String)
  | checksum (digest : String) (found : BlobChecksum)

def RepoContents.Holds (self : RepoContents) : Entry → Prop
  | .tag tag digest mediaType => self.tag tag = some (digest, mediaType)
  | .mediaType digest mediaType => self.mediaType digest = some mediaType
  | .referrer subject referrer descriptor => self.referrer subject referrer = some descriptor
  | .edge blob manifest => self.edge blob manifest
  | .checksum digest found => self.checksum digest = some found

def MetaOp.Writes : MetaOp → Entry → Prop
  | .putManifest _ digest mediaType tag _ _, .tag name named type =>
    tag = some name ∧ digest = named ∧ mediaType = type
  | .putManifest _ digest mediaType _ _ _, .mediaType named type =>
    digest = named ∧ mediaType = type
  | .putManifest _ digest _ _ _ referrer, .referrer subject named descriptor =>
    digest = named ∧ referrer = some (subject, descriptor)
  | .putManifest _ digest _ _ references _, .edge blob manifest =>
    digest = manifest ∧ blob ∈ references
  | .putReferrer _ subject referrer descriptor, entry =>
    entry = .referrer subject referrer descriptor
  | .putBackrefs _ manifest blobs, .edge blob named => manifest = named ∧ blob ∈ blobs
  | .putChecksum _ digest crc32c size, entry => entry = .checksum digest ⟨crc32c, size⟩
  | _, _ => False

/-- The entry names the manifest. -/
def Entry.About (digest : String) : Entry → Prop
  | .tag _ named _ | .mediaType named _ | .referrer _ named _ | .edge _ named
  | .checksum named _ => named = digest

/-- The name the query for the entry asks with. -/
def Entry.asked : Entry → String
  | .tag asked _ _ | .mediaType asked _ | .referrer asked _ _ | .edge asked _
  | .checksum asked _ => asked

/-- The operation takes the entry out or writes in its place. -/
def MetaOp.Drops : MetaOp → Entry → Prop
  | .putManifest _ _ _ tag _ _, .tag name _ _ => tag = some name
  | .putManifest _ digest _ _ _ _, .mediaType named _ => digest = named
  | .putManifest _ digest _ _ _ referrer, .referrer subject named _ =>
    digest = named ∧ ∃ descriptor, referrer = some (subject, descriptor)
  | .putReferrer _ subject referrer _, .referrer target named _ =>
    subject = target ∧ referrer = named
  | .putChecksum _ digest _ _, .checksum named _ | .deleteBlob _ digest, .checksum named _ =>
    digest = named
  | .deleteManifest _ digest, entry => entry.About digest
  | _, _ => False

/-- Step lemma: an entry is written by the operation or was there before. -/
theorem RepoContents.holds_apply {self : RepoContents} {op : MetaOp} {entry : Entry} :
    (self.apply op).Holds entry ↔ op.Writes entry ∨ self.Holds entry ∧ ¬ op.Drops entry := by
  cases op with
  | putManifest repo digest mediaType tag references referrer =>
    cases tag <;> cases referrer <;> cases entry <;>
      simp only [apply, Holds, putMediaType, putTag, addBackrefs, addReferrer, MetaOp.Writes,
        MetaOp.Drops] <;>
      grind
  | _ =>
    cases entry <;>
      simp only [apply, Holds, putChecksum, addBackrefs, addReferrer, deleteManifest,
        deleteChecksum, deleteMediaType, untag, unlist, unreference, MetaOp.Writes,
        MetaOp.Drops, Entry.About] <;>
      grind

theorem RepoContents.holds_deleteManifest {self : RepoContents} {digest : String} {entry : Entry} :
    (self.deleteManifest digest).Holds entry ↔ self.Holds entry ∧ ¬ entry.About digest :=
  (@holds_apply self (.deleteManifest "" digest) entry).trans (or_iff_right id)

namespace Contents

variable {self : Contents} {op : MetaOp} {ops : List MetaOp} {repo : String} {entry : Entry}

theorem holds_apply : (self.apply op repo).Holds entry ↔
    op.repo = repo ∧ op.Writes entry ∨ (self repo).Holds entry ∧
      ¬ (op.repo = repo ∧ op.Drops entry) := by
  rw [apply, update]
  split
  · rename_i here
    simp [RepoContents.holds_apply, here]
  rename_i elsewhere
  simp [Ne.symm elsewhere]

/-- Run lemma: where every operation on the place of an entry writes it, one is
enough. -/
theorem holds_foldl (only : ∀ op ∈ ops, op.repo = repo → op.Drops entry → op.Writes entry) :
    (ops.foldl apply self repo).Holds entry ↔
      (self repo).Holds entry ∨ ∃ op ∈ ops, op.repo = repo ∧ op.Writes entry := by
  induction ops generalizing self with
  | nil => simp
  | cons op ops ih =>
    rw [List.forall_mem_cons] at only
    rw [List.foldl_cons, ih only.2, holds_apply, List.exists_mem_cons_iff]
    grind

/-- Run lemma: every entry was written by an operation on its repository. -/
theorem written_of_holds (holds : (ops.foldl apply (fun _ => .nothing) repo).Holds entry) :
    ∃ op ∈ ops, op.repo = repo ∧ op.Writes entry := by
  revert holds
  refine List.foldlRecOn (motive := fun contents : Contents => (contents repo).Holds entry →
    ∃ op ∈ ops, op.repo = repo ∧ op.Writes entry) ops _ ?_ fun _ written op issued holds => ?_
  · cases entry <;> exact nofun
  rcases holds_apply.mp holds with now | before
  · exact ⟨op, issued, now⟩
  · exact written before.1

/-- Two stores with the same entries are the same. -/
theorem ext_holds {first second : Contents}
    (same : ∀ repo entry, (first repo).Holds entry ↔ (second repo).Holds entry) :
    first = second := by
  funext repo
  exact RepoContents.ext
    (funext fun tag => Option.ext fun found => same repo (.tag tag found.1 found.2))
    (funext fun digest => Option.ext fun found => same repo (.mediaType digest found))
    (funext fun subject => funext fun referrer => Option.ext fun found =>
      same repo (.referrer subject referrer found))
    (funext fun blob => funext fun manifest => propext (same repo (.edge blob manifest)))
    (funext fun digest => Option.ext fun found => same repo (.checksum digest found))

end Contents

/-- The manifests of all tags are recorded. -/
def RepoContents.TagsRecorded (self : RepoContents) : Prop :=
  ∀ tag digest mediaType, self.tag tag = some (digest, mediaType) →
    (self.mediaType digest).isSome = true

/-- Step lemma: a manifest is deleted with its tags. -/
theorem RepoContents.TagsRecorded.apply {self : RepoContents} (recorded : self.TagsRecorded)
    (op : MetaOp) : (self.apply op).TagsRecorded := by
  intro tag digest mediaType tagged
  cases op with
  | putManifest repo named type name references referrer =>
    cases name <;> cases referrer <;>
      simp only [RepoContents.apply, putMediaType, putTag, addBackrefs, addReferrer] at tagged ⊢ <;>
      grind [TagsRecorded]
  | _ =>
    simp only [RepoContents.apply, putChecksum, addBackrefs, addReferrer, deleteManifest,
      deleteChecksum, deleteMediaType, untag, unlist, unreference] at tagged ⊢
    grind [TagsRecorded]

theorem Contents.tagsRecorded_apply {self : Contents} (recorded : ∀ repo, (self repo).TagsRecorded)
    (op : MetaOp) (repo : String) : (self.apply op repo).TagsRecorded := by
  rw [apply, update]
  split
  · exact (recorded repo).apply op
  · exact recorded repo

namespace RepoState

variable (self : RepoState)

/-- `blob` is kept alive by `manifest`. -/
def Edge (blob manifest : String) : Prop := manifest ∈ self.backrefs[blob]?.getD []

theorem edge_addBackrefs (manifest : String) (blobs : List String) (blob other : String) :
    (self.addBackrefs manifest blobs).Edge blob other ↔
      self.Edge blob other ∨ (other = manifest ∧ blob ∈ blobs) := by
  unfold Edge addBackrefs
  generalize self.backrefs = backrefs
  induction blobs generalizing backrefs with
  | nil => simp
  | cons first rest ih =>
    rw [List.foldl_cons, ih, addBackref, StringMap.lookup_upsert]
    by_cases same : blob = first
    · subst same
      by_cases listed : manifest ∈ backrefs[blob]?.getD []
      · simp only [if_true, Option.getD_some, listed, List.mem_cons, true_or, and_true]
        grind
      simp only [if_true, Option.getD_some, listed, if_false, List.mem_append, List.mem_cons,
        true_or, and_true]
      grind
    · simp [same]

theorem edge_deleteManifest (digest blob manifest : String) :
    (self.deleteManifest digest).Edge blob manifest ↔
      self.Edge blob manifest ∧ manifest ≠ digest := by
  unfold Edge deleteManifest
  simp only [Std.ExtTreeMap.getElem?_filterMap']
  rcases found : self.backrefs[blob]? with _ | kept
  · simp
  simp only [Option.bind_some, Option.getD_some]
  by_cases emptied : (kept.filter (· ≠ digest)).isEmpty = true
  · rw [if_pos emptied]
    have only : ∀ listed ∈ kept, listed = digest := by simpa using emptied
    simpa using only manifest
  rw [if_neg emptied]
  simp

/-- What the maps of a repository hold. -/
def contents : RepoContents where
  tag tag := self.tags[tag]?
  mediaType digest := self.mediaTypes[digest]?
  referrer subject referrer := self.referrers[subject]?.bind fun referrers =>
    referrers.byDigest[referrer]?.map Prod.snd
  edge blob manifest := self.Edge blob manifest
  checksum digest := self.checksums[digest]?

theorem referrer_eq_some_iff {self : RepoState} {subject referrer : String} {descriptor : Bytes} :
    self.contents.referrer subject referrer = some descriptor ↔
      ∃ kept type, self.referrers[subject]? = some kept ∧
        kept.byDigest[referrer]? = some (type, descriptor) := by
  simp [contents, Option.bind_eq_some_iff]

theorem contents_empty : ({} : RepoState).contents = .nothing := by
  ext <;> simp [contents, RepoContents.nothing, Edge]

variable (reader : JsonReader) (self : RepoState)

theorem contents_addBackrefs (manifest : String) (blobs : List String) :
    (self.addBackrefs manifest blobs).contents = self.contents.addBackrefs manifest blobs := by
  have edges : (self.addBackrefs manifest blobs).Edge =
      fun blob other => self.Edge blob other ∨ (other = manifest ∧ blob ∈ blobs) := by
    funext blob other
    exact propext (edge_addBackrefs self manifest blobs blob other)
  simp only [contents, RepoContents.addBackrefs, edges]
  rfl

theorem contents_addReferrer (subject referrer : String) (descriptor : Bytes) :
    (self.addReferrer reader subject referrer descriptor).contents =
      self.contents.addReferrer subject referrer descriptor := by
  apply RepoContents.ext
  · rfl
  · rfl
  · funext target other
    simp only [contents, addReferrer, RepoContents.addReferrer, StringMap.lookup_upsert]
    by_cases same : target = subject
    · subst same
      simp only [if_true, Option.bind_some, SubjectReferrers.insert,
        SubjectReferrers.byDigest_put, true_and]
      cases self.referrers[target]? with
      | none => split <;> simp [SubjectReferrers.empty]
      | some kept => split <;> simp
    · simp [same]
  · rfl
  · rfl

theorem contents_deleteManifest (digest : String) :
    (self.deleteManifest digest).contents = self.contents.deleteManifest digest := by
  apply RepoContents.ext
  · funext tag
    simp only [contents, deleteManifest, RepoContents.deleteManifest, RepoContents.unreference,
      RepoContents.unlist, RepoContents.untag, RepoContents.deleteMediaType,
      RepoContents.deleteChecksum, Std.ExtTreeMap.getElem?_filter']
    have dropped : ∀ entry : Option (String × String),
        entry.filter (fun entry => entry.1 ≠ digest) =
          if entry.map Prod.fst = some digest then none else entry := by
      rintro (_ | entry)
      · simp
      · by_cases same : entry.1 = digest <;> simp [same]
    exact dropped _
  · funext other
    exact StringMap.lookup_erase _ _ _
  · funext subject other
    simp only [contents, deleteManifest, RepoContents.deleteManifest, RepoContents.unreference,
      RepoContents.unlist, RepoContents.untag, RepoContents.deleteMediaType,
      RepoContents.deleteChecksum, Std.ExtTreeMap.getElem?_filterMap']
    rcases self.referrers[subject]? with _ | kept
    · simp
    have remaining := SubjectReferrers.byDigest_remove kept digest other
    simp only [Option.bind_some]
    split
    · rename_i empty
      have absent := (StringMap.isEmpty_iff_lookup _).mp empty other
      rw [remaining] at absent
      split at absent <;> simp_all
    rw [Option.bind_some, remaining]
    split <;> simp
  · funext blob manifest
    exact propext (edge_deleteManifest self digest blob manifest)
  funext other
  exact StringMap.lookup_erase _ _ _

theorem contents_insert_mediaType (digest mediaType : String) :
    contents { self with mediaTypes := self.mediaTypes.insert digest mediaType } =
      self.contents.putMediaType digest mediaType := by
  apply RepoContents.ext <;> try rfl
  funext other
  exact StringMap.lookup_insert _ _ _ _

theorem contents_insert_tag (digest mediaType tag : String) :
    contents { self with tags := self.tags.insert tag (digest, mediaType) } =
      self.contents.putTag digest mediaType tag := by
  apply RepoContents.ext <;> try rfl
  funext other
  exact StringMap.lookup_insert _ _ _ _

/-- The maps hold what the operation says they should. -/
theorem contents_apply (op : MetaOp) :
    (self.apply reader op).contents = self.contents.apply op := by
  cases op with
  | putManifest repo digest mediaType tag references referrer =>
    rcases tag with _ | tag <;> rcases referrer with _ | ⟨subject, descriptor⟩ <;>
      simp only [apply, RepoContents.apply, contents_addReferrer, contents_addBackrefs,
        contents_insert_mediaType]
    all_goals
      have tagged := contents_insert_tag
        { self with mediaTypes := self.mediaTypes.insert digest mediaType } digest mediaType tag
      rw [contents_insert_mediaType] at tagged
      rw [← tagged]
  | deleteManifest repo digest => exact contents_deleteManifest self digest
  | putBackrefs repo manifest blobs => exact contents_addBackrefs self manifest blobs
  | putReferrer repo subject referrer descriptor =>
    exact contents_addReferrer reader self subject referrer descriptor
  | putChecksum repo digest crc32c size =>
    apply RepoContents.ext <;> try rfl
    funext other
    exact StringMap.lookup_insert _ _ _ _
  | deleteBlob repo digest =>
    apply RepoContents.ext <;> try rfl
    funext other
    exact StringMap.lookup_erase _ _ _

end RepoState

/-- What the log engine holds. -/
def State.contents (self : State) : Contents := fun name => (self.repo name).contents

theorem State.mem_referrersSnapshot_iff {self : State} {repo subject referrer : String}
    {descriptor : Bytes} :
    (∃ listed, (subject, listed) ∈ self.referrersSnapshot repo ∧ (referrer, descriptor) ∈ listed) ↔
      (self.contents repo).referrer subject referrer = some descriptor := by
  rw [contents, RepoState.referrer_eq_some_iff]
  simp only [State.referrersSnapshot_eq, List.mem_map, List.mem_filter, Prod.exists,
    Std.ExtTreeMap.mem_toList_iff_getElem?_eq_some]
  constructor
  · rintro ⟨_, ⟨_, kept, ⟨found, _⟩, ⟨⟩⟩, listed⟩
    obtain ⟨⟨_, type, _⟩, item, ⟨⟩⟩ := List.mem_map.mp listed
    exact ⟨kept, type, found, Std.ExtTreeMap.mem_toList_iff_getElem?_eq_some.mp item⟩
  rintro ⟨kept, type, found, listed⟩
  refine ⟨_, ⟨subject, kept, ⟨found, ?_⟩, rfl⟩, List.mem_map.mpr
    ⟨_, Std.ExtTreeMap.mem_toList_iff_getElem?_eq_some.mpr listed, rfl⟩⟩
  rw [Bool.not_eq_true', Bool.eq_false_iff]
  intro empty
  exact nomatch ((StringMap.isEmpty_iff_lookup _).mp empty _).symm.trans listed

theorem State.contents_empty : ({} : State).contents = fun _ => .nothing := by
  funext name
  rw [State.contents, State.repo_empty, RepoState.contents_empty]

/-- Step lemma: the log engine follows the operations on contents. -/
theorem State.contents_applyInRam (reader : JsonReader) (self : State) (op : MetaOp) :
    (self.applyInRam reader op).contents = self.contents.apply op := by
  funext name
  simp only [State.contents, State.repo_applyInRam, Contents.apply, Contents.update]
  split
  · exact RepoState.contents_apply reader _ op
  · rfl

/-- Run lemma. -/
theorem State.contents_foldl (reader : JsonReader) (ops : List MetaOp) (self : State) :
    (ops.foldl (State.applyInRam reader) self).contents =
      ops.foldl Contents.apply self.contents := by
  refine (List.foldl_hom State.contents ?_).symm
  exact fun self op => (contents_applyInRam reader self op).symm

end Roci.Metadata
