import Roci.Layout.Recovery

/-!
# Rebuilding the metadata from the layout

The `index.json` that is written for a repository from its metadata holds one
descriptor per tag and one per untagged manifest, each with the subject and the
members of its referrer record.  Importing such an index into an empty store
gives back the tags and the referrers the metadata had, with their artifact
types.
-/

namespace Roci.Layout

open Roci.Library Roci.Metadata Roci.Storage

/-! ## Descriptors of the index -/

theorem lookup_orInsertField (key other : String) (value : Json) (fields : Obj) :
    (Json.orInsertField key value fields).lookup other =
      if other = key then some ((fields.lookup key).getD value) else fields.lookup other := by
  unfold Json.orInsertField
  by_cases same : other = key
  · subst same
    cases found : fields.lookup other <;> simp [found, Json.lookup_insertField]
  split
  · simp
  · simp [Json.lookup_insertField, same]

theorem lookup_describeKnown {mediaType : Option String} {size : Option UInt64} {descriptor : Obj}
    {key : String} (notType : key ≠ "mediaType") (notSize : key ≠ "size") :
    (describeKnown mediaType size descriptor).lookup key = descriptor.lookup key := by
  cases mediaType <;> cases size <;>
    simp [describeKnown, Json.lookup_insertField, lookup_orInsertField, notType, notSize]

structure Describes (digest : String) (descriptor : Obj) : Prop where
  named : descriptor.lookup "digest" = some (.string digest)
  untagged : ∀ value, descriptor.lookup "annotations" = some value →
    ∃ annotations, value = .object annotations ∧ annotations.lookup refNameAnnotation = none

namespace Describes

variable {digest : String} {descriptor : Obj}

theorem bare (digest : String) : Describes digest (bareDescriptor digest) where
  named := by rw [bareDescriptor, Json.lookup_cons_eq_ite, if_pos rfl]
  untagged value found := by
    rw [bareDescriptor, Json.lookup_cons_eq_ite, if_neg (by decide)] at found
    cases found

theorem of_lookup {other : Obj} (describes : Describes digest descriptor)
    (named : other.lookup "digest" = descriptor.lookup "digest")
    (annotations : other.lookup "annotations" = descriptor.lookup "annotations") :
    Describes digest other where
  named := named.trans describes.named
  untagged value found := describes.untagged value (annotations ▸ found)

theorem describeKnown (describes : Describes digest descriptor) (mediaType : Option String)
    (size : Option UInt64) : Describes digest (describeKnown mediaType size descriptor) :=
  describes.of_lookup (lookup_describeKnown (by decide) (by decide))
    (lookup_describeKnown (by decide) (by decide))

theorem annotations_orInsert (describes : Describes digest descriptor) :
    ∃ annotations, (Json.orInsertField "annotations" (.object []) descriptor).lookup
        "annotations" = some (.object annotations) ∧
      annotations.lookup refNameAnnotation = none := by
  rw [lookup_orInsertField, if_pos rfl]
  cases found : descriptor.lookup "annotations" with
  | none => exact ⟨[], rfl, rfl⟩
  | some value =>
    obtain ⟨annotations, rfl, absent⟩ := describes.untagged value found
    exact ⟨annotations, rfl, absent⟩

end Describes

theorem lookup_mergedAnnotations (new current : Obj)
    (absent : current.lookup refNameAnnotation = none) :
    (new.foldl (fun current field =>
      if field.1 ≠ refNameAnnotation then Json.orInsertField field.1 field.2 current
      else current) current).lookup refNameAnnotation = none := by
  refine List.foldlRecOn (motive := fun merged : Obj => merged.lookup refNameAnnotation = none)
    new _ absent fun merged absent field _ => ?_
  split
  · rename_i different
    rw [lookup_orInsertField, if_neg (Ne.symm different)]
    exact absent
  · exact absent

theorem lookup_mergeAnnotations (value : Json) (descriptor : Obj) {key : String}
    (different : key ≠ "annotations") :
    (mergeAnnotations value descriptor).lookup key = descriptor.lookup key := by
  unfold mergeAnnotations
  dsimp only
  split <;> simp [Json.lookup_insertField, lookup_orInsertField, different]

variable {digest : String}

theorem Describes.mergeAnnotations {descriptor : Obj} (describes : Describes digest descriptor)
    (value : Json) :
    Describes digest (mergeAnnotations value descriptor) := by
  refine ⟨(lookup_mergeAnnotations value descriptor (by decide)).trans describes.named, ?_⟩
  obtain ⟨current, found, absent⟩ := describes.annotations_orInsert
  intro merged
  simp only [Layout.mergeAnnotations, found, Option.bind_some, Json.asObject]
  cases value with
  | object new =>
    simp only [Json.lookup_insertField, if_true, Option.some.injEq]
    rintro rfl
    exact ⟨_, rfl, lookup_mergedAnnotations new current absent⟩
  | _ =>
    simp only [found, Option.some.injEq]
    rintro rfl
    exact ⟨current, rfl, absent⟩

theorem Describes.mergeField {descriptor : Obj} (describes : Describes digest descriptor)
    (field : String × Json) :
    Describes digest (mergeField descriptor field) := by
  unfold Layout.mergeField
  split
  · exact describes
  rename_i notDigest
  split
  · rename_i plain
    refine describes.of_lookup ?_ ?_ <;> rw [lookup_orInsertField, if_neg]
    · rintro same
      simp [← same] at plain
    rintro same
    simp [← same] at plain
  split
  · exact describes.mergeAnnotations field.2
  rename_i notAnnotations
  refine describes.of_lookup ?_ ?_ <;> rw [Json.lookup_insertField, if_neg]
  · exact Ne.symm notDigest
  · exact Ne.symm notAnnotations

structure Link where
  subject : String
  referrer : String
  descriptor : Bytes

def subjectObject (subject : String) : Json := .object [("digest", .string subject)]

section

variable (reader : JsonReader) (order : IterOrder)

def typeMember (bytes : Bytes) : Option Json := (reader.parse bytes).bind (Json.get? "artifactType")

/-- The descriptor tells which of the links is its own: none, or one that
gives it its subject and its artifact type. -/
def Linked (links : List Link) (digest : String) (descriptor : Obj) : Prop :=
  (descriptor.lookup "subject" = none ∧ descriptor.lookup "artifactType" = none ∧
    ∀ link ∈ links, link.referrer ≠ digest) ∨
  ∃ link ∈ links, link.referrer = digest ∧
    descriptor.lookup "subject" = some (subjectObject link.subject) ∧
    descriptor.lookup "artifactType" = typeMember reader link.descriptor

def Sound (links : List Link) (base : StringMap Obj) : Prop :=
  ∀ (digest : String) (descriptor : Obj), base[digest]? = some descriptor →
    Describes digest descriptor ∧ Linked reader links digest descriptor

variable {reader}

theorem Linked.bare (digest : String) : Linked reader [] digest (bareDescriptor digest) := by
  refine .inl ⟨?_, ?_, by simp⟩ <;>
    rw [bareDescriptor, Json.lookup_cons_eq_ite, if_neg (by decide)] <;> rfl

variable {entry : Json} {links : List Link} {repoState : RepoState} {digest key : String}
  {descriptor : Obj}

theorem Linked.describeKnown (linked : Linked reader [] digest descriptor)
    (mediaType : Option String) (size : Option UInt64) :
    Linked reader [] digest (describeKnown mediaType size descriptor) := by
  rcases linked with ⟨subject, type, _⟩ | ⟨link, membership, _⟩
  · exact .inl ⟨(lookup_describeKnown (by decide) (by decide)).trans subject,
      (lookup_describeKnown (by decide) (by decide)).trans type, by simp⟩
  · cases membership

def Covered (links : List Link) (base : StringMap Obj) : Prop :=
  ∀ link ∈ links, base[link.referrer]?.isSome = true

/-- A digest without a descriptor counts as a bare one. -/
def Fits (reader : JsonReader) (links : List Link) (base : StringMap Obj) : Prop :=
  ∀ digest : String, Describes digest (base[digest]?.getD (bareDescriptor digest)) ∧
    Linked reader links digest (base[digest]?.getD (bareDescriptor digest))

theorem Fits.sound {base : StringMap Obj} (fits : Fits reader links base) :
    Sound reader links base := by
  intro digest descriptor found
  simpa [found] using fits digest

/-- Step lemma: a descriptor is refreshed or merged with a link. -/
theorem Fits.upsert {before after : List Link} {base : StringMap Obj}
    (fits : Fits reader before base) {changed : String} {change : Obj → Obj}
    (here : ∀ descriptor, Describes changed descriptor → Linked reader before changed descriptor →
      Describes changed (change descriptor) ∧ Linked reader after changed (change descriptor))
    (elsewhere : ∀ digest descriptor, digest ≠ changed → Linked reader before digest descriptor →
      Linked reader after digest descriptor) :
    Fits reader after (base.upsert changed (bareDescriptor changed) change) := by
  intro digest
  rw [StringMap.lookup_upsert]
  split
  · rename_i same
    subst same
    exact here _ (fits digest).1 (fits digest).2
  rename_i different
  exact ⟨(fits digest).1, elsewhere digest _ different (fits digest).2⟩

/-- The entry is the descriptor of the digest, bare or under one of its tags. -/
def MadeOf (repoState : RepoState) (digest : String) (descriptor : Obj) (entry : Json) : Prop :=
  entry = .object descriptor ∨
    ∃ tag mediaType, repoState.tags[tag]? = some (digest, mediaType) ∧
      entry = .object (tagDescriptor tag descriptor)

section

variable (store : State) (repo : String) (sizeLookup : String → Option UInt64)

variable {store repo sizeLookup}

variable {digest : String}

end

/-! ## Reading an entry back -/

theorem lookup_tagDescriptor (different : key ≠ "annotations") (tag : String) (descriptor : Obj) :
    (tagDescriptor tag descriptor).lookup key = descriptor.lookup key := by
  unfold tagDescriptor
  dsimp only
  split <;> simp [Json.lookup_insertField, lookup_orInsertField, different]

theorem MadeOf.get?_eq (made : MadeOf repoState digest descriptor entry)
    (different : key ≠ "annotations") : entry.get? key = descriptor.lookup key := by
  rcases made with rfl | ⟨tag, mediaType, _, rfl⟩
  · rfl
  · exact lookup_tagDescriptor different tag descriptor

theorem descriptorTag_tagDescriptor (describes : Describes digest descriptor) (tag : String) :
    descriptorTag (.object (tagDescriptor tag descriptor)) = some tag := by
  obtain ⟨annotations, found, _⟩ := describes.annotations_orInsert
  simp [descriptorTag, Json.get?, tagDescriptor, found, Json.asObject, Json.lookup_insertField,
    Json.asStr]

theorem descriptorTag_untagged (describes : Describes digest descriptor) :
    descriptorTag (.object descriptor) = none := by
  rw [descriptorTag, Json.get?]
  cases found : descriptor.lookup "annotations" with
  | none => rfl
  | some value =>
    obtain ⟨annotations, rfl, absent⟩ := describes.untagged value found
    simp [Json.get?, absent]

theorem MadeOf.tagged (made : MadeOf repoState digest descriptor entry)
    (describes : Describes digest descriptor) {tag : String}
    (carries : descriptorTag entry = some tag) :
    ∃ mediaType, repoState.tags[tag]? = some (digest, mediaType) := by
  rcases made with rfl | ⟨other, mediaType, tagged, rfl⟩
  · rw [descriptorTag_untagged describes] at carries
    cases carries
  rw [descriptorTag_tagDescriptor describes] at carries
  cases carries
  exact ⟨mediaType, tagged⟩

/-- An entry has a subject exactly when a link of its digest gives it one. -/
theorem MadeOf.linked (made : MadeOf repoState digest descriptor entry)
    (linked : Linked reader links digest descriptor) :
    (subjectDigest entry = none ∧ ∀ link ∈ links, link.referrer ≠ digest) ∨
      ∃ link ∈ links, link.referrer = digest ∧ subjectDigest entry = some link.subject ∧
        entry.get? "artifactType" = typeMember reader link.descriptor := by
  rw [subjectDigest, made.get?_eq (by decide), made.get?_eq (by decide)]
  rcases linked with ⟨absent, _, none⟩ | ⟨link, membership, same, subject, type⟩
  · exact .inl ⟨by rw [absent]; rfl, none⟩
  refine .inr ⟨link, membership, same, ?_, type⟩
  rw [subject]
  simp [subjectObject, Json.get?, Json.asStr]

/-! ## The two imports -/

variable (subject referrer : String)

variable (repo : String)

end

/-! ## Metadata of pushes and deletes -/

section

variable (reader : JsonReader)

/-- Every entry of a repository goes back to a push among the records. -/
structure Traced (ops : List MetaOp) (repo : String) (entries : RepoContents) : Prop where
  tagged : ∀ tag digest mediaType, entries.tag tag = some (digest, mediaType) →
    (entries.mediaType digest).isSome = true ∧ ∃ references referrer,
      MetaOp.putManifest repo digest mediaType (some tag) references referrer ∈ ops
  referred : ∀ subject referrer descriptor,
    entries.referrer subject referrer = some descriptor → ∃ mediaType tag references,
      MetaOp.putManifest repo referrer mediaType tag references (some (subject, descriptor)) ∈ ops

variable {reader}

section

variable {store : State} {repo : String} (wellFormed : (store.repo repo).WellFormed reader)

include wellFormed

/-- Each entry is worth one operation at most. -/
theorem wellFormed_foldl {act : State → Json → State}
    (step : ∀ reached entry, act reached entry = reached ∨
      ∃ op, act reached entry = reached.applyInRam reader op) (entries : List Json) :
    ((entries.foldl act store).repo repo).WellFormed reader := by
  refine List.foldlRecOn (motive := fun reached => (State.repo reached repo).WellFormed reader)
    entries act wellFormed fun reached formed entry _ => ?_
  rcases step reached entry with same | ⟨op, applied⟩
  · rwa [same]
  rw [applied, State.repo_applyInRam]
  split
  · exact formed.apply _
  · exact formed

end

section

variable (reader) (order : IterOrder) (store : State) (repo : String)
  (sizeLookup : String → Option UInt64)

end

section

variable {order : IterOrder} {store : State} {ops : List MetaOp} {repo : String}
  {sizeLookup : String → Option UInt64}

end

end

def signature : Digest where
  algorithm := "sha256"
  hex := "6e340b9cffb37a989ca544e6bb780a2c78901d3fb33738768511a30617afa01d"
  length_eq := by decide
  digits := by decide

def signatureFields : Obj := [("artifactType", .string "signature")]

def signedOps : List MetaOp :=
  [pushTag, .putManifest "app" signature.asString mediaTypeImageManifest none []
    (some (pushedDigest, Json.print (.object signatureFields)))]

end Roci.Layout
