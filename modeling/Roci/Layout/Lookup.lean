import Roci.Layout.Index

/-!
# Looking a manifest up

A manifest is found under every spelling of its digest, since the blob is opened by
the parsed digest.  Its media type is looked up under the reference as it was
written: in the metadata store, then in `index.json`.
-/

namespace Roci.Layout

open Roci.Library Roci.Metadata Roci.Storage

def mediaTypeMember (entry : Json) : Option String := (entry.get? "mediaType").bind Json.asStr

def indexMediaTypeForDigest (index : Json) (digest : String) : Option String :=
  ((indexManifests index).find? fun entry => descriptorDigest entry = some digest).bind
    mediaTypeMember

def indexResolveTag (index : Json) (tag : String) : Except StorageError (Digest × String) :=
  match (indexManifests index).find? fun entry => descriptorTag entry = some tag with
  | none => .error .notFound
  | some entry =>
    match descriptorDigest entry with
    | none => .error .notFound
    | some digest => (Digest.parse digest).map fun digest =>
        (digest, (mediaTypeMember entry).getD mediaTypeImageManifest)

/-- What `get_manifest` finds of a repository: what `read_index` answers, the cached
bodies, and what reading a blob answers. -/
structure Found where
  metadata : State
  index : Except StorageError Json
  cache : String → Option Bytes
  blob : Digest → Except StorageError Bytes

namespace Found

variable (found : Found) (repo : String)

def mediaType (reference : String) : Except StorageError String :=
  match found.metadata.manifestMediaType repo reference with
  | some mediaType => .ok mediaType
  | none => found.index.map fun index =>
      (indexMediaTypeForDigest index reference).getD mediaTypeImageManifest

def resolve (tag : String) : Except StorageError (Digest × String) :=
  match found.metadata.resolveTag repo tag with
  | some (text, mediaType) => (Digest.parse text).map fun digest => (digest, mediaType)
  | none => found.index.bind fun index => indexResolveTag index tag

def bytes (digest : Digest) : Except StorageError Bytes :=
  (found.cache digest.asString).elim (found.blob digest) .ok

/-- A reference with a colon is a digest. -/
def getManifest (reference : String) : Except StorageError (Digest × String × Bytes) := do
  let (digest, mediaType) ←
    if (splitOnce ':' reference).isSome then do
      let digest ← Digest.parse reference
      let mediaType ← found.mediaType repo reference
      pure (digest, mediaType)
    else found.resolve repo reference
  let bytes ← found.bytes digest
  pure (digest, mediaType, bytes)

/-- Texts of one digest, or one text that is none. -/
structure Spellings where
  first : String
  second : String
  alike : Digest.parse first = Digest.parse second

theorem getManifest_of_parse {reference : String} {digest : Digest}
    (parsed : Digest.parse reference = .ok digest) :
    found.getManifest repo reference = (found.mediaType repo reference).bind fun mediaType =>
      (found.bytes digest).map fun bytes => (digest, mediaType, bytes) := by
  have colon : (splitOnce ':' reference).isSome = true := by
    by_contra none
    rw [Option.not_isSome_iff_eq_none] at none
    simp [Digest.parse, none] at parsed
  rw [getManifest, if_pos colon, parsed]
  cases found.mediaType repo reference with
  | error failure => rfl
  | ok mediaType =>
    cases answer : found.bytes digest <;>
      simp [bind, Except.bind, pure, Except.pure, answer, Except.map]

theorem eq_of_parse_error {text other : String} {failure : StorageError}
    (parsed : Digest.parse text = .error failure) (same : Digest.parse other = .error failure) :
    text = other := by
  have named : ∀ {text failure}, Digest.parse text = .error failure →
      failure = .badDigest text := by
    intro text failure parsed
    unfold Digest.parse at parsed
    split at parsed
    · exact (Except.error.inj parsed).symm
    split at parsed
    · cases parsed
    · exact (Except.error.inj parsed).symm
  exact StorageError.badDigest.inj ((named parsed).symm.trans (named same))

/-- The media type a repository has under a text: that of the record, or without
one that of the first entry of `index.json`, or the default where that says
nothing. -/
def HasType (text mediaType : String) : Prop :=
  (found.metadata.repo repo).mediaTypes[text]? = some mediaType ∨
    (found.metadata.repo repo).mediaTypes[text]? = none ∧ ∃ index, found.index = .ok index ∧
      ((∃ entry, (indexManifests index).find? (descriptorDigest · = some text) = some entry ∧
          mediaTypeMember entry = some mediaType) ∨
        mediaType = mediaTypeImageManifest ∧ ∀ entry,
          (indexManifests index).find? (descriptorDigest · = some text) = some entry →
            mediaTypeMember entry = none)

theorem hasType_iff (text mediaType : String) :
    found.HasType repo text mediaType ↔ found.mediaType repo text = .ok mediaType := by
  rw [HasType, Found.mediaType, State.manifestMediaType_eq]
  cases (found.metadata.repo repo).mediaTypes[text]? with
  | some recorded => simp
  | none =>
    cases found.index with
    | error failure => simp [Except.map]
    | ok index =>
      simp only [Except.map, indexMediaTypeForDigest, Except.ok.injEq, exists_eq_left',
        reduceCtorEq, true_and, false_or]
      cases (indexManifests index).find? (descriptorDigest · = some text) with
      | none => simp [eq_comm]
      | some entry => cases member : mediaTypeMember entry <;> simp [member, eq_comm]

theorem mediaType_eq_error_iff (text : String) (failure : StorageError) :
    found.mediaType repo text = .error failure ↔
      (found.metadata.repo repo).mediaTypes[text]? = none ∧ found.index = .error failure := by
  rw [Found.mediaType, State.manifestMediaType_eq]
  cases (found.metadata.repo repo).mediaTypes[text]? <;> cases found.index <;> simp [Except.map]

theorem mediaType_eq_iff (first second : String) :
    found.mediaType repo first = found.mediaType repo second ↔
      ∀ mediaType, found.HasType repo first mediaType ↔ found.HasType repo second mediaType := by
  simp only [hasType_iff]
  refine ⟨fun same mediaType => by rw [same], fun same => ?_⟩
  rcases left : found.mediaType repo first with failure | mediaType
  · rcases right : found.mediaType repo second with other | mediaType
    · have unread := ((mediaType_eq_error_iff found repo first failure).mp left).2
      rw [((mediaType_eq_error_iff found repo second other).mp right).2] at unread
      rw [Except.error.inj unread]
    · cases left.symm.trans ((same mediaType).mpr right)
  · exact ((same mediaType).mp left).symm

/-- Two spellings of a digest give the same answer exactly when the records and
the entries of `index.json` under both give the same media type, or the bytes
cannot be read and nothing else fails before. -/
theorem manifest_found_alike_iff (texts : Spellings) :
    found.getManifest repo texts.first = found.getManifest repo texts.second ↔
      (∀ mediaType, found.HasType repo texts.first mediaType ↔
        found.HasType repo texts.second mediaType) ∨
      ∃ digest error, Digest.parse texts.first = .ok digest ∧
        found.cache digest.asString = none ∧ found.blob digest = .error error ∧
        ∀ text ∈ [texts.first, texts.second],
          (found.metadata.repo repo).mediaTypes[text]? = none →
            ∀ failure, found.index = .error failure → failure = error := by
  have unread : ∀ digest error, found.bytes digest = .error error ↔
      found.cache digest.asString = none ∧ found.blob digest = .error error := by
    intro digest error
    rw [bytes]
    cases found.cache digest.asString <;> simp
  have failing : ∀ text error, ((found.metadata.repo repo).mediaTypes[text]? = none →
      ∀ failure, found.index = .error failure → failure = error) ↔
        ∀ failure, found.mediaType repo text = .error failure → failure = error := by
    intro text error
    simp only [mediaType_eq_error_iff, and_imp]
    exact ⟨fun same failure => (same · failure),
      fun same unrecorded failure => same failure unrecorded⟩
  simp only [← mediaType_eq_iff, ← and_assoc, ← unread, failing]
  obtain ⟨first, second, alike⟩ := texts
  rcases parsed : Digest.parse first with failure | digest
  · obtain rfl := eq_of_parse_error parsed (alike ▸ parsed)
    simp
  rw [getManifest_of_parse found repo parsed,
    getManifest_of_parse found repo (alike ▸ parsed)]
  cases left : found.mediaType repo first <;> cases right : found.mediaType repo second <;>
    cases answer : found.bytes digest <;> grind [Except.bind, Except.map]

/-- An image index is recorded under the digest in small letters. -/
def imageIndexFound : Found where
  metadata := ⟨(∅ : StringMap RepoState).insert "app"
    { mediaTypes := (∅ : StringMap String).insert Digest.ofNothing.asString mediaTypeImageIndex }⟩
  index := .ok (.object [])
  cache _ := none
  blob _ := .ok []

theorem capitals_lose_media_type :
    Digest.parse "sha256:E3B0C44298FC1C149AFBF4C8996FB92427AE41E4649B934CA495991B7852B855" =
        .ok .ofNothing ∧
      imageIndexFound.getManifest "app" Digest.ofNothing.asString =
        .ok (.ofNothing, mediaTypeImageIndex, []) ∧
      imageIndexFound.getManifest "app"
          "sha256:E3B0C44298FC1C149AFBF4C8996FB92427AE41E4649B934CA495991B7852B855" =
        .ok (.ofNothing, mediaTypeImageManifest, []) := by
  decide +kernel

end Found

end Roci.Layout
