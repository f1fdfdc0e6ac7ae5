import Roci.Metadata.Invariants
import Roci.Metadata.Wal

/-!
# The compacted log

Compaction writes a minimal image of the state: one record per tag, one per
manifest no tag names, one per backref edge, referrer and checksum.  Replaying
the image rebuilds every map of every repository, with two exceptions: a tagged
manifest gets the media type of its greatest tag, and descriptors come back
lossily decoded.
-/

namespace Roci.Metadata

open Roci.Library

/-- The iteration order of the engine's hash maps: any arrangement of the
entries, which may differ from one repository to the next. -/
structure IterOrder where
  arrange : {Value : Type} → String → List (String × Value) → List (String × Value)
  perm : ∀ {Value : Type} (owner : String) (entries : List (String × Value)),
    (arrange owner entries).Perm entries

/-- Hash maps that happen to iterate in key order. -/
def IterOrder.sorted : IterOrder where
  arrange _ entries := entries
  perm _ entries := List.Perm.refl entries

variable (order : IterOrder) (repo : String) (repoState : RepoState)

def tagOps : List MetaOp :=
  repoState.tags.toList.map fun entry =>
    .putManifest repo entry.2.1 entry.2.2 (some entry.1) [] none

/-- Whether a tag record of the image already covers a manifest. -/
def RepoState.tagged (digest : String) : Bool :=
  repoState.tags.toList.any fun entry => entry.2.1 = digest

def manifestOps : List MetaOp :=
  ((order.arrange repo repoState.mediaTypes.toList).filter fun entry =>
    !repoState.tagged entry.1).map fun entry =>
      .putManifest repo entry.1 entry.2 none [] none

def backrefOps : List MetaOp :=
  (order.arrange repo repoState.backrefs.toList).flatMap fun entry =>
    entry.2.map fun manifest => .putBackrefs repo manifest [entry.1]

def referrerOps : List MetaOp :=
  (order.arrange repo repoState.referrers.toList).flatMap fun entry =>
    entry.2.byDigest.toList.map fun item => .putReferrer repo entry.1 item.1 item.2.2

def checksumOps : List MetaOp :=
  (order.arrange repo repoState.checksums.toList).map fun entry =>
    .putChecksum repo entry.1 entry.2.crc32c entry.2.size

/-- The operations of the image.  Each kind of record is written for all
repositories before the next kind. -/
def imageOps (state : State) : List MetaOp :=
  let repos := order.arrange "" state.repos.toList
  (repos.flatMap fun entry => tagOps entry.1 entry.2) ++
  (repos.flatMap fun entry => manifestOps order entry.1 entry.2) ++
  (repos.flatMap fun entry => backrefOps order entry.1 entry.2) ++
  (repos.flatMap fun entry => referrerOps order entry.1 entry.2) ++
  (repos.flatMap fun entry => checksumOps order entry.1 entry.2)

def markerRecord (env : Env) (key : Option HmacKey) : Option UInt64 → Bytes
  | some generation => encodeRecordRaw env key (markerPayload generation)
  | none => []

def writeLogImage (env : Env) (key : Option HmacKey) (state : State)
    (generation : Option UInt64) : Bytes :=
  headerRecord env key ++ markerRecord env key generation ++
    (imageOps order state).flatMap (encodeRecord env key)

/-! ## The records of one repository -/

/-- The operations of the image that name one repository. -/
def repoImage : List MetaOp :=
  tagOps repo repoState ++ manifestOps order repo repoState ++ backrefOps order repo repoState ++
    referrerOps order repo repoState ++ checksumOps order repo repoState

theorem filter_flatMap_repo (expand : String → RepoState → List MetaOp)
    (labelled : ∀ repo repoState, ∀ op ∈ expand repo repoState, op.repo = repo)
    (entries : List (String × RepoState)) (name : String) :
    (entries.flatMap fun entry => expand entry.1 entry.2).filter (·.repo = name) =
      (entries.filter (·.1 = name)).flatMap fun entry => expand entry.1 entry.2 := by
  induction entries with
  | nil => rfl
  | cons entry entries ih =>
    rw [List.flatMap_cons, List.filter_append, ih, List.filter_cons]
    by_cases same : entry.1 = name
    · have kept : (expand entry.1 entry.2).filter (·.repo = name) = expand entry.1 entry.2 := by
        rw [List.filter_eq_self]
        intro op membership
        simp [labelled entry.1 entry.2 op membership, same]
      rw [kept]
      simp [same]
    have dropped : (expand entry.1 entry.2).filter (·.repo = name) = [] := by
      rw [List.filter_eq_nil_iff]
      intro op membership
      simp [labelled entry.1 entry.2 op membership, same]
    simp [same, dropped]

theorem filter_arrange_repos (state : State) (name : String) :
    ((order.arrange "" state.repos.toList).filter (·.1 = name)) =
      match state.repos[name]? with
      | some repoState => [(name, repoState)]
      | none => [] := by
  have arranged := (order.perm "" state.repos.toList).filter (·.1 = name)
  have wanted : (state.repos.toList.filter (·.1 = name)).Perm
      (match state.repos[name]? with
        | some repoState => [(name, repoState)]
        | none => []) := by
    rw [List.perm_ext_iff_of_nodup]
    · rintro ⟨other, repoState⟩
      rw [List.mem_filter, Std.ExtTreeMap.mem_toList_iff_getElem?_eq_some]
      by_cases same : other = name
      · subst same
        cases state.repos[other]? <;> simp [eq_comm]
      · cases state.repos[name]? <;> simp [same]
    · exact ((StringMap.nodup_keys_toList state.repos).of_map _).filter _
    · split <;> simp
  have together := arranged.trans wanted
  cases found : state.repos[name]? with
  | some repoState =>
    rw [found] at together
    exact List.perm_singleton.mp together
  | none =>
    rw [found] at together
    exact List.perm_nil.mp together

theorem repoImage_empty : repoImage order repo {} = [] := by
  have nothing : ∀ {Value : Type}, order.arrange repo ([] : List (String × Value)) = [] :=
    fun {Value} => List.perm_nil.mp (order.perm repo [])
  have none : ∀ {Value : Type}, (∅ : StringMap Value).toList = [] := by simp
  simp only [repoImage, tagOps, manifestOps, backrefOps, referrerOps, checksumOps, none, nothing]
  rfl

theorem filter_imageOps (state : State) (name : String) :
    (imageOps order state).filter (·.repo = name) = repoImage order name (state.repo name) := by
  have entries := filter_arrange_repos order state name
  simp only [imageOps, List.filter_append]
  rw [filter_flatMap_repo tagOps (by grind [tagOps, MetaOp.repo]),
    filter_flatMap_repo (manifestOps order) (by grind [manifestOps, MetaOp.repo]),
    filter_flatMap_repo (backrefOps order) (by grind [backrefOps, MetaOp.repo]),
    filter_flatMap_repo (referrerOps order) (by grind [referrerOps, MetaOp.repo]),
    filter_flatMap_repo (checksumOps order) (by grind [checksumOps, MetaOp.repo]), entries]
  cases found : state.repos[name]? with
  | some repoState => simp [State.repo, found, repoImage]
  | none => simp [State.repo, found, repoImage_empty]

/-! ## Replaying the records of one repository -/

section Replay

variable (reader : JsonReader) (repo : String)

theorem foldl_tagOps (entries : List (String × String × String)) (self : RepoState) :
    (entries.map fun entry =>
        MetaOp.putManifest repo entry.2.1 entry.2.2 (some entry.1) [] none).foldl
          (RepoState.apply reader) self =
      { self with
        tags := entries.foldl (fun tags entry => tags.insert entry.1 entry.2) self.tags
        mediaTypes := entries.foldl
          (fun mediaTypes entry => mediaTypes.insert entry.2.1 entry.2.2) self.mediaTypes } := by
  rw [List.foldl_map]
  refine List.foldl_hom₂ entries
    (fun tags mediaTypes => { self with tags, mediaTypes }) _ _ _ _ _ ?_
  exact fun _ _ _ => rfl

theorem foldl_manifestOps (entries : List (String × String)) (self : RepoState) :
    (entries.map fun entry =>
        MetaOp.putManifest repo entry.1 entry.2 none [] none).foldl (RepoState.apply reader) self =
      { self with
        mediaTypes := entries.foldl
          (fun mediaTypes entry => mediaTypes.insert entry.1 entry.2) self.mediaTypes } := by
  rw [List.foldl_map]
  refine List.foldl_hom (fun mediaTypes => { self with mediaTypes }) ?_
  exact fun _ _ => rfl

/-- The edges of one blob are recorded one after the other. -/
def fileBackrefs (backrefs : StringMap (List String)) (entry : String × List String) :
    StringMap (List String) :=
  entry.2.foldl (fun backrefs manifest => RepoState.addBackref manifest backrefs entry.1) backrefs

theorem foldl_backrefOps (entries : List (String × List String)) (self : RepoState) :
    (entries.flatMap fun entry =>
        entry.2.map fun manifest => MetaOp.putBackrefs repo manifest [entry.1]).foldl
          (RepoState.apply reader) self =
      { self with backrefs := entries.foldl fileBackrefs self.backrefs } := by
  rw [List.foldl_flatMap]
  refine List.foldl_hom (fun backrefs => { self with backrefs }) fun backrefs entry => ?_
  rw [List.foldl_map]
  refine List.foldl_hom (fun backrefs => { self with backrefs }) ?_
  exact fun _ _ => rfl

/-- The referrers of one subject, as they come back from the log, are recorded
one after the other. -/
def fileReferrers (referrers : StringMap SubjectReferrers)
    (entry : String × SubjectReferrers) : StringMap SubjectReferrers :=
  entry.2.byDigest.toList.foldl (fun referrers item =>
    referrers.upsert entry.1 .empty fun kept =>
      kept.insert reader item.1 (utf8 (fromUtf8Lossy item.2.2))) referrers

theorem foldl_referrerOps (entries : List (String × SubjectReferrers)) (self : RepoState) :
    ((entries.flatMap fun entry => entry.2.byDigest.toList.map fun item =>
        MetaOp.putReferrer repo entry.1 item.1 item.2.2).map MetaOp.asLogged).foldl
          (RepoState.apply reader) self =
      { self with referrers := entries.foldl (fileReferrers reader) self.referrers } := by
  rw [List.foldl_map, List.foldl_flatMap]
  refine List.foldl_hom (fun referrers => { self with referrers }) fun referrers entry => ?_
  rw [List.foldl_map]
  refine List.foldl_hom (fun referrers => { self with referrers }) ?_
  exact fun _ _ => rfl

theorem foldl_checksumOps (entries : List (String × BlobChecksum)) (self : RepoState) :
    (entries.map fun entry =>
        MetaOp.putChecksum repo entry.1 entry.2.crc32c entry.2.size).foldl
          (RepoState.apply reader) self =
      { self with
        checksums := entries.foldl
          (fun checksums entry => checksums.insert entry.1 entry.2) self.checksums } := by
  rw [List.foldl_map]
  refine List.foldl_hom (fun checksums => { self with checksums }) ?_
  exact fun _ _ => rfl

end Replay

/-! ## What the image loses -/

variable (self : RepoState)

/-- The media type a manifest has after a compaction: that of its greatest tag,
or its own when no tag names it. -/
def RepoState.compactedMediaType (digest : String) : Option String :=
  ((self.tags.toList.reverse.find? fun entry => entry.2.1 = digest).map
    fun entry => entry.2.2).or self.mediaTypes[digest]?

/-- The referrers of a subject as they come back from the log. -/
def SubjectReferrers.relogged (reader : JsonReader) (self : SubjectReferrers) :
    SubjectReferrers :=
  self.byDigest.toList.foldl (fun kept item =>
    kept.insert reader item.1 (utf8 (fromUtf8Lossy item.2.2))) .empty

theorem SubjectReferrers.byDigest_relogged (reader : JsonReader) (self : SubjectReferrers)
    (digest : String) :
    (self.relogged reader).byDigest[digest]? = self.byDigest[digest]?.map fun entry =>
      (artifactTypeOf reader (utf8 (fromUtf8Lossy entry.2)), utf8 (fromUtf8Lossy entry.2)) := by
  have fold : (self.relogged reader).byDigest =
      self.byDigest.toList.foldl (fun byDigest item => byDigest.insert item.1
        (artifactTypeOf reader (utf8 (fromUtf8Lossy item.2.2)),
          utf8 (fromUtf8Lossy item.2.2))) ∅ := by
    refine (List.foldl_hom SubjectReferrers.byDigest fun kept item => ?_).symm
    apply Std.ExtTreeMap.ext_getElem?
    intro other
    rw [SubjectReferrers.insert, byDigest_put, StringMap.lookup_insert]
  rw [fold, StringMap.lookup_foldl_insert_arranged (List.Perm.refl _)
    fun entry : String × Option String × Bytes =>
      (artifactTypeOf reader (utf8 (fromUtf8Lossy entry.2.2)), utf8 (fromUtf8Lossy entry.2.2))]
  simp

theorem fileBackrefs_fresh {backrefs : StringMap (List String)} {blob : String}
    {manifests : List String} (fresh : backrefs[blob]? = none) (inhabited : manifests ≠ [])
    (distinct : manifests.Nodup) :
    fileBackrefs backrefs (blob, manifests) = backrefs.insert blob manifests := by
  have pushed : ∀ (rest before : List String), (before ++ rest).Nodup →
      rest.foldl (fun kept manifest =>
        if manifest ∈ kept then kept else kept ++ [manifest]) before = before ++ rest := by
    intro rest
    induction rest with
    | nil => simp
    | cons manifest rest ih =>
      intro before together
      have absent : manifest ∉ before := fun membership =>
        (List.nodup_append.mp together).2.2 manifest membership manifest (by simp) rfl
      rw [List.foldl_cons, if_neg absent, ih _ (by simpa using together)]
      simp
  obtain ⟨manifest, rest, rfl⟩ := List.exists_cons_of_ne_nil inhabited
  have together := StringMap.foldl_upsert blob []
    (fun kept manifest => if manifest ∈ kept then kept else kept ++ [manifest])
    manifest rest backrefs
  rw [fresh, Option.getD_none, pushed _ [] distinct] at together
  exact together

theorem fileReferrers_fresh (reader : JsonReader) {referrers : StringMap SubjectReferrers}
    {subject : String} {kept : SubjectReferrers} (fresh : referrers[subject]? = none)
    (inhabited : kept.byDigest.isEmpty = false) :
    fileReferrers reader referrers (subject, kept) =
      referrers.insert subject (kept.relogged reader) := by
  have nonempty : kept.byDigest.toList ≠ [] := by
    intro empty
    rw [Std.ExtTreeMap.toList_eq_nil_iff] at empty
    simp [empty] at inhabited
  obtain ⟨item, rest, items⟩ := List.exists_cons_of_ne_nil nonempty
  have together := StringMap.foldl_upsert subject SubjectReferrers.empty
    (fun kept (item : String × Option String × Bytes) =>
      kept.insert reader item.1 (utf8 (fromUtf8Lossy item.2.2))) item rest referrers
  rw [fresh, Option.getD_none] at together
  rw [fileReferrers, SubjectReferrers.relogged]
  simp only [items]
  exact together

/-- The maps `after` a compaction, in terms of those before it. -/
structure Compacted (reader : JsonReader) (before after : RepoState) : Prop where
  tags : after.tags = before.tags
  mediaTypes : ∀ digest : String,
    after.mediaTypes[digest]? = before.compactedMediaType digest
  backrefs : after.backrefs = before.backrefs
  referrers : ∀ subject : String, after.referrers[subject]? =
    before.referrers[subject]?.map (SubjectReferrers.relogged reader)
  checksums : after.checksums = before.checksums

theorem tagged_eq_isSome (digest : String) :
    self.tagged digest =
      (self.tags.toList.reverse.find? fun entry => entry.2.1 = digest).isSome := by
  rw [Bool.eq_iff_iff]
  simp [RepoState.tagged]

theorem lookup_mediaTypes_image {entries : List (String × String)}
    (arranged : entries.Perm self.mediaTypes.toList) (digest : String) :
    ((entries.filter fun entry => !self.tagged entry.1).foldl
        (fun mediaTypes entry => mediaTypes.insert entry.1 entry.2)
        (self.tags.toList.foldl (fun mediaTypes entry =>
          mediaTypes.insert entry.2.1 entry.2.2) (∅ : StringMap String)))[digest]? =
      self.compactedMediaType digest := by
  have untagged : (entries.filter fun entry => !self.tagged entry.1).Perm
      (self.mediaTypes.filter fun digest _ => !self.tagged digest).toList := by
    rw [Std.ExtTreeMap.toList_filter]
    exact arranged.filter _
  rw [StringMap.lookup_foldl_insert_arranged untagged Prod.snd,
    StringMap.lookup_foldl_insert (fun entry : String × String × String => entry.2.1)
      (fun entry => entry.2.2),
    Std.ExtTreeMap.getElem?_filter', RepoState.compactedMediaType]
  have covered := tagged_eq_isSome self digest
  cases found : self.tags.toList.reverse.find? fun entry => entry.2.1 = digest with
  | _ =>
    rw [found] at covered
    cases self.mediaTypes[digest]? <;> simp_all

theorem map_asLogged_repoImage (self : RepoState) :
    (repoImage order repo self).map MetaOp.asLogged =
      tagOps repo self ++ manifestOps order repo self ++ backrefOps order repo self ++
        (referrerOps order repo self).map MetaOp.asLogged ++ checksumOps order repo self := by
  have same : ∀ ops : List MetaOp, (∀ op ∈ ops, op.descriptor = none) →
      ops.map MetaOp.asLogged = ops := by
    intro ops none
    conv_rhs => rw [← List.map_id ops]
    apply List.map_congr_left
    intro op membership
    exact (asLogged_eq_self_iff op).mpr (by simp [none op membership])
  simp only [repoImage, List.map_append]
  rw [same (tagOps repo self) (by grind [tagOps, MetaOp.descriptor]),
    same (manifestOps order repo self) (by grind [manifestOps, MetaOp.descriptor]),
    same (backrefOps order repo self) (by grind [backrefOps, MetaOp.descriptor]),
    same (checksumOps order repo self) (by grind [checksumOps, MetaOp.descriptor])]

theorem compacted_replay {reader : JsonReader} {self : RepoState}
    (wellFormed : self.WellFormed reader) (repo : String) :
    Compacted reader self
      (((repoImage order repo self).map MetaOp.asLogged).foldl (RepoState.apply reader) {}) := by
  have distinct : ∀ {Value : Type} (map : StringMap Value),
      ((order.arrange repo map.toList).map Prod.fst).Nodup := fun map =>
    ((order.perm repo map.toList).map Prod.fst).nodup_iff.mpr (StringMap.nodup_keys_toList map)
  have entry_iff : ∀ {Value : Type} (map : StringMap Value) (entry : String × Value),
      entry ∈ order.arrange repo map.toList ↔ map[entry.1]? = some entry.2 :=
    fun map entry => (order.perm repo map.toList).mem_iff.trans
      Std.ExtTreeMap.mem_toList_iff_getElem?_eq_some
  rw [map_asLogged_repoImage]
  simp only [List.foldl_append, tagOps, manifestOps, backrefOps, referrerOps, checksumOps,
    foldl_tagOps, foldl_manifestOps, foldl_backrefOps, foldl_referrerOps, foldl_checksumOps]
  constructor
  · exact StringMap.foldl_insert_entries (List.Perm.refl _)
  · exact lookup_mediaTypes_image self (order.perm repo _)
  · refine Eq.trans (StringMap.foldl_eq_foldl_insert fileBackrefs Prod.snd _ ?_
      (distinct _) ∅ (by simp)) (StringMap.foldl_insert_entries (order.perm repo _))
    rintro backrefs ⟨blob, manifests⟩ membership fresh
    have listed := (entry_iff _ _).mp membership
    exact fileBackrefs_fresh fresh (wellFormed.backrefsInhabited blob manifests listed)
      (wellFormed.backrefsDistinct blob manifests listed)
  · intro subject
    have filed := StringMap.foldl_eq_foldl_insert (fileReferrers reader)
      (fun entry => entry.2.relogged reader) _
      (fun referrers entry membership fresh => fileReferrers_fresh reader fresh
        (wellFormed.referrersInhabited entry.1 entry.2 ((entry_iff _ _).mp membership)))
      (distinct self.referrers) ∅ (by simp)
    simp only
    rw [filed, StringMap.lookup_foldl_insert_arranged (order.perm repo self.referrers.toList)
      fun entry : String × SubjectReferrers => entry.2.relogged reader]
    simp
  · exact StringMap.foldl_insert_entries (order.perm repo _)

/-! ## The image as bytes -/

section Bytes

variable (env : Env) (key : Option HmacKey)

theorem marker_fits (generation : UInt64) : Fits (markerPayload generation) := by
  have bounded : generation.toNat < 10 ^ 20 := lt_of_lt_of_le generation.toNat_lt (by decide)
  have digits : (Nat.toDigits 10 generation.toNat).length ≤ 20 :=
    (Nat.length_toDigits_le_iff (b := 10) (k := 20) (by omega) (by omega)).mpr bounded
  have width := length_utf8_ofList_le ("\x7b\"op\":\"gen\",\"gen\":".toList ++
    Nat.toDigits 10 generation.toNat ++ "\x7d".toList)
  simp only [List.length_append] at width
  have front : "\x7b\"op\":\"gen\",\"gen\":".toList.length = 18 := by decide
  have back : "\x7d".toList.length = 1 := by decide
  unfold Fits markerPayload
  omega

theorem openedOps_writeLogImage (state : State) (generation : Option UInt64)
    (fits : ∀ op ∈ imageOps order state, Fits (serializeOp op)) :
    openedOps env key (writeLogImage order env key state generation) =
      (imageOps order state).map MetaOp.asLogged := by
  rcases generation with _ | generation
  · rw [writeLogImage, markerRecord, List.append_nil]
    exact openedOps_header_append env key fits
  obtain ⟨payloads, _⟩ := RecordReader.scan_flatMap (walReader env key)
    (encodeRecord env key) serializeOp (imageOps order state)
    fun op membership => read_encodeRecord env key (fits op membership)
  have header := (RecordReader.scan_single (walReader env key) (read_headerRecord env key)).1
  rw [writeLogImage, List.append_assoc, openedOps_append env key
    (headerRecord_compatible env key) (headerRecord_complete env key), openedOps_headerRecord,
    header, List.nil_append]
  have marker := RecordReader.scan_single (walReader env key)
    ((readRecord_eq_some_iff env key (encodeRecordRaw env key (markerPayload generation))
      _ []).mpr ⟨marker_fits generation, by simp⟩)
  rw [markerRecord, RecordReader.records_append _ marker.2, marker.1, payloads,
    List.singleton_append, List.zipIdx_cons, List.filterMap_cons]
  have entry : logEntry env 2 (markerPayload generation) = .marker generation := by
    rw [logEntry, if_neg (by simp), if_pos (by omega), generationMarker_markerPayload]
  rw [show 1 + [encodeHeader (framingMode key)].length = 2 from rfl, entry]
  exact filterMap_logEntry_ops env _ (by omega)

/-- The image of a state reads back as its repositories, each compacted. -/
theorem compacted_openInner (state : State)
    (wellFormed : ∀ name, (state.repo name).WellFormed env.reader)
    (generation : Option UInt64)
    (fits : ∀ op ∈ imageOps order state, Fits (serializeOp op)) (name : String) :
    Compacted env.reader (state.repo name)
      ((openInner env key (writeLogImage order env key state generation)).state.repo name) := by
  rw [openInner_state, openedOps_writeLogImage order env key _ _ fits, State.repo_foldl,
    List.filter_map, State.repo_empty]
  have relabelled : ((fun op : MetaOp => decide (op.repo = name)) ∘ MetaOp.asLogged) =
      fun op => decide (op.repo = name) := by
    funext op
    cases op <;> rfl
  rw [relabelled, filter_imageOps]
  exact compacted_replay order (wellFormed name) name

end Bytes

end Roci.Metadata
