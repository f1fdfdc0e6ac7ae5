import Roci.Metadata.Image
import Roci.Storage.Digest

/-!
# The image layout of a repository

`index.json` lists the manifests of a repository for tools that read the layout
without the registry.  It is rebuilt from the metadata store over the file that
is already there: entries of known manifests are refreshed, entries that look
like those of a deleted manifest are dropped, and the rest is kept.  In the
other direction tagged entries are imported into the metadata store when their
tag is not known there.
-/

namespace Roci.Layout

open Roci.Library Roci.Metadata Roci.Storage

/-! ## Descriptors -/

def refNameAnnotation : String := "org.opencontainers.image.ref.name"

def mediaTypeImageManifest : String := "application/vnd.oci.image.manifest.v1+json"

def mediaTypeImageIndex : String := "application/vnd.oci.image.index.v1+json"

variable (descriptor : Json)

def descriptorTag : Option String :=
  ((descriptor.get? "annotations").bind (Json.get? refNameAnnotation)).bind Json.asStr

def descriptorDigest : Option String := (descriptor.get? "digest").bind Json.asStr

/-- The `manifests` array of an image index; empty when absent. -/
def indexManifests (index : Json) : List Json :=
  ((index.get? "manifests").bind Json.asArray).getD []

def subjectDigest : Option String :=
  ((descriptor.get? "subject").bind (Json.get? "digest")).bind Json.asStr

/-- The digest a descriptor object names, if it is well formed. -/
def referencedDigest : Option Digest :=
  (descriptorDigest descriptor).bind fun text => (Digest.parse text).toOption

/-- All digests a manifest references: config, layers, index children, subject. -/
def manifestReferences (manifest : Json) : List Digest :=
  let items (field : String) : List Json := ((manifest.get? field).bind Json.asArray).getD []
  ((manifest.get? "config").toList ++ (items "layers" ++ items "manifests") ++
    (manifest.get? "subject").toList).filterMap referencedDigest

/-! ## Rebuilding the index -/

abbrev Obj := List (String × Json)

def bareDescriptor (digest : String) : Obj := [("digest", .string digest)]

/-- Remove the tag annotation, and the annotations when nothing else is left. -/
def withoutTag (descriptor : Obj) : Obj :=
  match (descriptor.lookup "annotations").bind Json.asObject with
  | none => descriptor
  | some annotations =>
    let kept := Json.removeField refNameAnnotation annotations
    if kept.isEmpty then Json.removeField "annotations" descriptor
    else Json.insertField "annotations" (.object kept) descriptor

/-- The refreshed descriptors by digest, and the entries of other tools. -/
structure Sorted where
  base : StringMap Obj := ∅
  foreign : List Json := []

def sortEntry (known : List String) (sorted : Sorted) (entry : Json) : Sorted :=
  match entry.asObject with
  | none => { sorted with foreign := sorted.foreign ++ [entry] }
  | some descriptor =>
    match (descriptor.lookup "digest").bind Json.asStr with
    | some digest =>
      if digest ∈ known then
        { sorted with base := sorted.base.upsert digest (withoutTag descriptor) id }
      else if (descriptorTag entry).isNone && (entry.get? "subject").isNone then
        { sorted with foreign := sorted.foreign ++ [entry] }
      else sorted
    | none =>
      if (descriptorTag entry).isNone && (entry.get? "subject").isNone then
        { sorted with foreign := sorted.foreign ++ [entry] }
      else sorted

def describeKnown (mediaType : Option String) (size : Option UInt64) (descriptor : Obj) : Obj :=
  let typed :=
    match mediaType with
    | some mediaType => Json.insertField "mediaType" (.string mediaType) descriptor
    | none => descriptor
  match size with
  | some size => Json.orInsertField "size" (.number size) typed
  | none => typed

/-- Merge the annotations of a referrer descriptor, except for a tag. -/
def mergeAnnotations (value : Json) (descriptor : Obj) : Obj :=
  let annotated := Json.orInsertField "annotations" (.object []) descriptor
  match value.asObject, (annotated.lookup "annotations").bind Json.asObject with
  | some new, some current =>
    let merged := new.foldl (fun current field =>
      if field.1 ≠ refNameAnnotation then Json.orInsertField field.1 field.2 current
      else current) current
    Json.insertField "annotations" (.object merged) annotated
  | _, _ => annotated

def mergeField (descriptor : Obj) (field : String × Json) : Obj :=
  if field.1 = "digest" then descriptor
  else if field.1 = "mediaType" ∨ field.1 = "size" then
    Json.orInsertField field.1 field.2 descriptor
  else if field.1 = "annotations" then mergeAnnotations field.2 descriptor
  else Json.insertField field.1 field.2 descriptor

def mergeReferrer (reader : JsonReader) (subject : String) (bytes : Bytes) (descriptor : Obj) :
    Obj :=
  match (reader.parse bytes).bind Json.asObject with
  | none => descriptor
  | some fields =>
    Json.insertField "subject" (.object [("digest", .string subject)])
      (fields.foldl mergeField descriptor)

def tagDescriptor (tag : String) (descriptor : Obj) : Obj :=
  let annotated := Json.orInsertField "annotations" (.object []) descriptor
  match (annotated.lookup "annotations").bind Json.asObject with
  | some annotations =>
    Json.insertField "annotations"
      (.object (Json.insertField refNameAnnotation (.string tag) annotations)) annotated
  | none => annotated

def taggedEntries (tags : List (String × String × String)) (base : StringMap Obj) :
    List (String × Json) :=
  tags.filterMap fun entry =>
    base[entry.2.1]?.map fun descriptor =>
      (entry.2.1, Json.object (tagDescriptor entry.1 descriptor))

/-- One descriptor per tag, then the untagged ones, then those of other tools. -/
def assembleIndex (existing : Option Json) (foreign : List Json)
    (tags : List (String × String × String)) (base : StringMap Obj) : Json :=
  let tagged := taggedEntries tags base
  let untagged := base.toList.filter fun entry => !(tagged.map Prod.fst).contains entry.1
  let manifests := tagged.map Prod.snd ++ untagged.map (fun entry => Json.object entry.2) ++ foreign
  let top := (existing.bind Json.asObject).getD []
  .object (Json.insertField "manifests" (.array manifests)
    (Json.insertField "mediaType" (.string mediaTypeImageIndex)
      (Json.insertField "schemaVersion" (.number 2) top)))

section

variable (reader : JsonReader) (order : IterOrder)

def baseDescriptors (store : State) (repo : String) (sizeLookup : String → Option UInt64)
    (base : StringMap Obj) : StringMap Obj :=
  let described := (store.manifests repo).foldl (fun base digest =>
    base.upsert digest (bareDescriptor digest)
      (describeKnown (store.manifestMediaType repo digest) (sizeLookup digest))) base
  (order.arrange repo (store.referrersSnapshot repo)).foldl (fun base entry =>
    entry.2.foldl (fun base referrer =>
      base.upsert referrer.1 (bareDescriptor referrer.1)
        (mergeReferrer reader entry.1 referrer.2)) base) described

/-- Rebuild `index.json` from the metadata store merged over the existing one. -/
def indexFromMeta (store : State) (repo : String) (existing : Option Json)
    (sizeLookup : String → Option UInt64) : Json :=
  let known := store.manifests repo
  let sorted := ((existing.map indexManifests).getD []).foldl (sortEntry known) {}
  assembleIndex existing sorted.foreign (store.tagsSnapshot repo)
    (baseDescriptors reader order store repo sizeLookup sorted.base)

end

/-- Whether two indexes carry the same descriptors, in any order; descriptors
are compared by their text. -/
def sameManifestSet (first second : Json) : Bool :=
  ((indexManifests first).map Json.render).isPerm ((indexManifests second).map Json.render)

/-! ## Importing -/

/-- Import a tagged entry whose tag the metadata store does not know. -/
def importEntry (reader : JsonReader) (repo : String) (store : State) (entry : Json) : State :=
  match descriptorTag entry, descriptorDigest entry with
  | some tag, some digest =>
    if (Digest.parse digest).toOption.isNone || (store.resolveTag repo tag).isSome then store
    else
      store.applyInRam reader (.putManifest repo digest
        (((entry.get? "mediaType").bind Json.asStr).getD mediaTypeImageManifest) (some tag) [] none)
  | _, _ => store

def importForeignTags (reader : JsonReader) (store : State) (repo : String) (existing : Json) :
    State :=
  (indexManifests existing).foldl (importEntry reader repo) store

end Roci.Layout
