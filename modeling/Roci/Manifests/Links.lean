import Roci.Core.Names
import Roci.Layout.Index

/-!
# What a pushed manifest links to

The handler of a manifest push reads three things off the body: the blobs that
must be present (its config and its layers), the digests it references, and the
subject it refers to with the descriptor listed for it.  Whatever is required is
also referenced, so a recorded manifest has an edge from each blob it needs.
-/

namespace Roci.Manifests

open Roci.Library Roci.Storage Roci.Core Roci.Layout

/-- The links of a manifest: `subject` carries the descriptor of the referrer. -/
structure ManifestLinks where
  references : List Digest
  required : List Digest
  subject : Option (Digest × Bytes)
deriving DecidableEq

def descriptorDigestOf (value : Json) (kind : String) : Except ApiError Digest :=
  match descriptorDigest value with
  | none => .error (.manifestInvalid (kind ++ " descriptor is malformed"))
  | some text =>
    match Digest.parse text with
    | .error _ => .error (.manifestInvalid (kind ++ " digest is malformed"))
    | .ok digest => .ok digest

/-- The digests of a list of descriptors; the first malformed one is the error. -/
def layerDigests : List Json → Except ApiError (List Digest)
  | [] => .ok []
  | layer :: rest =>
    match descriptorDigestOf layer "layer" with
    | .error error => .error error
    | .ok digest =>
      match layerDigests rest with
      | .error error => .error error
      | .ok digests => .ok (digest :: digests)

variable (manifest : Json)

def configDigest : Except ApiError (List Digest) :=
  match manifest.get? "config" with
  | none => .ok []
  | some config => (descriptorDigestOf config "config").map fun digest => [digest]

def requiredBlobs : Except ApiError (List Digest) :=
  match configDigest manifest with
  | .error error => .error error
  | .ok config =>
    match manifest.get? "layers" with
    | none => .ok config
    | some layers =>
      match layers.asArray with
      | none => .error (.manifestInvalid "manifest layers is not an array")
      | some layers => (layerDigests layers).map fun digests => config ++ digests

def referrerDescriptor (mediaType : String) (digest : Digest) (size : Nat) : Bytes :=
  let artifactType :=
    ((manifest.get? "artifactType").bind Json.asStr).or
      (((manifest.get? "config").bind (Json.get? "mediaType")).bind Json.asStr)
  Json.print (Json.ofFields (
    [("mediaType", .string mediaType), ("digest", .string digest.asString),
      ("size", .number (UInt64.ofNat size))] ++
    (artifactType.map fun type => ("artifactType", Json.string type)).toList ++
    ((manifest.get? "annotations").map fun annotations => ("annotations", annotations)).toList))

variable (reader : JsonReader)

def parsedBody (body : Bytes) : Json := (reader.parse body).getD .null

def manifestLinks (mediaType : String) (digest : Digest) (body : Bytes) :
    Except ApiError ManifestLinks :=
  let parsed := parsedBody reader body
  match requiredBlobs parsed with
  | .error error => .error error
  | .ok required => .ok {
      references := manifestReferences parsed
      required := required
      subject := ((subjectDigest parsed).bind fun text => (Digest.parse text).toOption).map
        fun subject => (subject, referrerDescriptor parsed mediaType digest body.length) }

def mergeSubject (subject : Digest) (descriptor : Bytes) : Except StorageError Bytes :=
  match (reader.parse descriptor).bind Json.asObject with
  | none => .error (.io "invalid data")
  | some fields => .ok (Json.print (.object (Json.insertField "subject"
      (Json.ofFields [("digest", .string subject.asString)]) fields)))

/-! ## Required blobs are referenced -/

theorem referencedDigest_of_descriptorDigestOf {value : Json} {kind : String} {digest : Digest}
    (found : descriptorDigestOf value kind = .ok digest) :
    referencedDigest value = some digest := by
  unfold descriptorDigestOf at found
  unfold referencedDigest
  split at found
  · cases found
  rename_i text named
  split at found
  · cases found
  rename_i parsed
  cases found
  simp [named, parsed, Except.toOption]

theorem mem_layerDigests {layers : List Json} {digests : List Digest}
    (found : layerDigests layers = .ok digests) :
    ∀ digest ∈ digests, digest ∈ layers.filterMap referencedDigest := by
  induction layers generalizing digests with
  | nil =>
    cases found
    simp
  | cons layer rest ih =>
    simp only [layerDigests] at found
    split at found
    · cases found
    rename_i first named
    split at found
    · cases found
    rename_i others listed
    cases found
    have referenced := referencedDigest_of_descriptorDigestOf named
    intro digest membership
    rw [List.filterMap_cons_some referenced]
    rcases List.mem_cons.mp membership with rfl | later
    · exact List.mem_cons_self
    · exact List.mem_cons_of_mem _ (ih listed digest later)

theorem mem_configDigest {manifest : Json} {digests : List Digest}
    (found : configDigest manifest = .ok digests) :
    ∀ digest ∈ digests, digest ∈ (manifest.get? "config").toList.filterMap referencedDigest := by
  unfold configDigest at found
  split at found
  · cases found
    simp
  rename_i config present
  cases named : descriptorDigestOf config "config" with
  | error error =>
    rw [named] at found
    cases found
  | ok digest =>
    rw [named] at found
    cases found
    simp [present, referencedDigest_of_descriptorDigestOf named]

theorem requiredBlobs_subset_references {manifest : Json} {required : List Digest}
    (found : requiredBlobs manifest = .ok required) :
    ∀ digest ∈ required, digest ∈ manifestReferences manifest := by
  unfold requiredBlobs at found
  unfold manifestReferences
  simp only [List.filterMap_append, List.mem_append]
  split at found
  · cases found
  rename_i config named
  have ofConfig := mem_configDigest named
  split at found
  · cases found
    exact fun digest membership => .inl (.inl (ofConfig digest membership))
  rename_i layers present
  split at found
  · cases found
  rename_i items listed
  rcases read : layerDigests items with error | digests
  · rw [read] at found
    cases found
  rw [read] at found
  cases found
  intro digest membership
  rcases List.mem_append.mp membership with first | later
  · exact .inl (.inl (ofConfig digest first))
  refine .inl (.inr (.inl ?_))
  simpa [present, listed] using mem_layerDigests read digest later

end Roci.Manifests
