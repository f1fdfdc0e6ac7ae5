import Roci.Handlers.Range

/-!
# Conditional requests

A manifest is looked up before its digest is compared with `If-None-Match`; only its
media type is looked at later.  For a blob the header comes first, so a match hides
that there is no such blob, or no such range of it.
-/

namespace Roci.Handlers

open Roci.Core Roci.Storage

/-- The response of a handler to what the store answers. -/
def respond (store : (action : HandlerAction) → HandlerAnswer action) :
    Handler Response → Response
  | .finish response => response
  | .perform action next => respond store (next (store action))

/-- What a response is made of besides what the store answers: the `Range` header,
the redirect, whether the bytes from an offset on can be streamed, and which texts
`HeaderValue::from_str` takes. -/
structure Reading where
  range : Option String
  redirectUrl : Option String
  streams : Nat → Nat → Bool
  fromStr : String → Bool

variable (reading : Reading)

/-- Whether `get_body` answers with 200, 206 or 307. -/
def Reading.sends (size : Nat) : Bool :=
  match reading.redirectUrl with
  | some url => reading.fromStr url
  | none =>
    match parseByteRange reading.range size with
    | some .full => reading.streams 0 size
    | some (.partialRange start stop) => reading.streams start (stop - start + 1)
    | _ => false

/-- Whether the status is 200, 206 or 307. -/
def Reading.succeeds : Response → Bool
  | .ok (.blobBody _ size) => reading.sends size
  | .ok (.manifest found _) => reading.fromStr found.mediaType
  | .ok (.notModified _) => false
  | .ok _ => true
  | .error _ => false

/-- With the header the response is as without it, or 304 instead of a success. -/
def Unmasked (store : (action : HandlerAction) → HandlerAnswer action) (reading : Reading)
    (get : Option String → Handler Response) (header : String) : Prop :=
  respond store (get (some header)) = respond store (get none) ∨
    reading.succeeds (respond store (get none)) = true ∧
      ∃ digest, respond store (get (some header)) = .ok (.notModified digest)

/-- Bytes of a blob can be sent: the URL to redirect to is a header value, or
without one the range can be satisfied and the stream opens. -/
def Reading.Sendable (size : Nat) : Prop :=
  (∃ url, reading.redirectUrl = some url ∧ reading.fromStr url = true) ∨
    reading.redirectUrl = none ∧
      (parseByteRange reading.range size = some .full ∧ reading.streams 0 size = true ∨
        ∃ start stop, parseByteRange reading.range size = some (.partialRange start stop) ∧
          reading.streams start (stop - start + 1) = true)

theorem Reading.sends_iff (size : Nat) :
    reading.sends size = true ↔ reading.Sendable size := by
  unfold sends Sendable
  cases reading.redirectUrl with
  | some url => simp
  | none =>
    cases parseByteRange reading.range size with
    | none => simp
    | some outcome => cases outcome <;> simp

section

variable (store : (action : HandlerAction) → HandlerAnswer action) (reading : Reading)
  (repo : RepositoryName) (head : Bool) (header : String)

theorem respond_storage (call : StorageCall)
    (next : Except StorageError (StorageAnswer call) → Handler Response) :
    respond store (storage call >>= next) = respond store (next (store (.storage call))) := rfl

theorem respond_manifestsGet (reference : String) (ifNoneMatch : Option String) :
    respond store (manifestsGet repo reference head ifNoneMatch) =
      ((store (.storage (.getManifest repo reference))).mapError (notFoundAs manifestUnknown)).map
        fun found => if ifNoneMatchHit ifNoneMatch found.digest.asString then
          .notModified found.digest.asString else .manifest found head := by
  change respond store (storage (.getManifest repo reference) >>= _) = _
  rw [respond_storage]
  cases store (.storage (.getManifest repo reference)) with
  | error error => rfl
  | ok found =>
    change respond store (if _ then _ else _) = .ok (if _ then _ else _)
    split <;> rfl

theorem unmasked_manifestsGet_iff (reference : String) :
    Unmasked store reading (manifestsGet repo reference head) header ↔
      ∀ found, store (.storage (.getManifest repo reference)) = .ok found →
        ifNoneMatchHit (some header) found.digest.asString = true →
          reading.fromStr found.mediaType = true := by
  unfold Unmasked
  rw [respond_manifestsGet, respond_manifestsGet]
  cases store (.storage (.getManifest repo reference)) with
  | error error => exact iff_of_true (.inl rfl) (by simp)
  | ok found =>
    have absent : ifNoneMatchHit none found.digest.asString = false := rfl
    by_cases hit : ifNoneMatchHit (some header) found.digest.asString = true
    · simp [Except.mapError, Except.map, hit, absent, Reading.succeeds]
    · simp [Except.mapError, Except.map, hit, absent]

/-- What the store has to answer for a blob to be sent. -/
def BlobThere (digest : Digest) : Bool → Prop
  | true => ∃ size, store (.storage (.blobSize repo digest)) = .ok size
  | false => ∃ size, store (.storage (.openBlob repo digest)) = .ok size ∧ reading.Sendable size

theorem respond_blobsGet (digest : Digest) :
    respond store (blobsGet repo digest head none) =
      if head then ((store (.storage (.blobSize repo digest))).mapError
        (notFoundAs blobUnknown)).map (.blobHead digest)
      else ((store (.storage (.openBlob repo digest))).mapError
        (notFoundAs blobUnknown)).map (.blobBody digest) := by
  cases head with
  | true =>
    change respond store (storage (.blobSize repo digest) >>= _) = _
    rw [respond_storage]
    cases store (.storage (.blobSize repo digest)) <;> rfl
  | false =>
    change respond store (storage (.openBlob repo digest) >>= _) = _
    rw [respond_storage]
    cases store (.storage (.openBlob repo digest)) <;> rfl

theorem respond_blobsGet_ne (digest : Digest) (tag : String) :
    respond store (blobsGet repo digest head none) ≠ .ok (.notModified tag) := by
  rw [respond_blobsGet]
  cases head with
  | true => cases store (.storage (.blobSize repo digest)) <;> simp [Except.mapError, Except.map]
  | false => cases store (.storage (.openBlob repo digest)) <;> simp [Except.mapError, Except.map]

theorem succeeds_blobsGet_iff (digest : Digest) :
    reading.succeeds (respond store (blobsGet repo digest head none)) = true ↔
      BlobThere store reading repo digest head := by
  rw [respond_blobsGet]
  cases head with
  | true =>
    cases answer : store (.storage (.blobSize repo digest)) <;>
      simp [BlobThere, answer, Reading.succeeds, Except.mapError, Except.map]
  | false =>
    cases answer : store (.storage (.openBlob repo digest)) <;>
      simp [BlobThere, answer, Reading.succeeds, Reading.sends_iff, Except.mapError, Except.map]

/-- For a manifest the header masks nothing but a media type that is no header
value.  For a blob a match of the digest is right exactly when the blob, or its
range, could be sent. -/
theorem conditional_requests_unmasked_iff :
    (∀ reference, Unmasked store reading (manifestsGet repo reference head) header ↔
      ∀ found, store (.storage (.getManifest repo reference)) = .ok found →
        ifNoneMatchHit (some header) found.digest.asString = true →
          reading.fromStr found.mediaType = true) ∧
      ∀ digest : Digest, Unmasked store reading (blobsGet repo digest head) header ↔
        (ifNoneMatchHit (some header) digest.asString = true →
          BlobThere store reading repo digest head) := by
  refine ⟨unmasked_manifestsGet_iff store reading repo head header, fun digest => ?_⟩
  unfold Unmasked
  by_cases hit : ifNoneMatchHit (some header) digest.asString = true
  · have matched : respond store (blobsGet repo digest head (some header)) =
        .ok (.notModified digest.asString) := by
      rw [blobsGet, if_pos hit]
      rfl
    rw [matched]
    simp [hit, (respond_blobsGet_ne store repo head digest _).symm, succeeds_blobsGet_iff]
  · have same : blobsGet repo digest head (some header) = blobsGet repo digest head none := by
      rw [blobsGet, if_neg hit]
      rfl
    simp [hit, same]

end

def emptyStore : (action : HandlerAction) → HandlerAnswer action
  | .policy _ _ _ => none
  | .storage _ => .error .notFound

theorem missing_blob_not_modified :
    ¬ Unmasked emptyStore ⟨none, none, fun _ _ => true, fun _ => true⟩
      (blobsGet ⟨"app", app_valid⟩ .ofNothing false) "*" := by
  rintro (same | ⟨succeeded, _⟩)
  · cases same
  · cases succeeded

end Roci.Handlers
