import Roci.Lmdb.Equivalence
import Roci.Manifests.Agreement
import Roci.Manifests.Push

/-!
# Which pushes the embedded engine takes

The edge bounds the length of a repository name but not that of a tag or of an
artifact type, while every key of the embedded engine has to fit into 511
bytes.  The engine takes a push exactly when the keys of its tag and of its
referrer are short enough; the other keys always are.
-/

namespace Roci.Lmdb

open Roci.Library Roci.Metadata Roci.Storage Roci.Core Roci.Manifests

/-! ## Lengths -/

theorem length_keyOf (parts : List String) :
    (keyOf parts).length = (parts.map fun part => (utf8 part).length + 1).sum := by
  rw [keyOf, length_makeKey, List.map_map]
  rfl

theorem utf8_append (first second : String) :
    utf8 (first ++ second) = utf8 first ++ utf8 second := by
  simp [utf8]

theorem length_utf8_digits {digits : List Char}
    (hexadecimal : ∀ digit ∈ digits, digit ∈ lowerHexDigits) :
    (utf8 (String.ofList digits)).length = digits.length := by
  rw [utf8_ofList]
  induction digits with
  | nil => rfl
  | cons digit digits ih =>
    rw [List.forall_mem_cons] at hexadecimal
    have narrow : lowerHexDigits.all (fun digit => (String.utf8EncodeChar digit).length = 1) := by
      decide
    rw [List.flatMap_cons, List.length_append,
      of_decide_eq_true (List.all_eq_true.mp narrow digit hexadecimal.1),
      ih hexadecimal.2, List.length_cons]
    omega

theorem length_utf8_asString_le (digest : Digest) : (utf8 digest.asString).length ≤ 135 := by
  have hex := length_utf8_digits digest.digit_mem
  rw [String.ofList_toList] at hex
  have colon : (utf8 ":").length = 1 := by decide
  have named : (utf8 digest.algorithm).length = 6 := by
    rcases digest.algorithm_eq with same | same <;> rw [same] <;> decide
  have short : digest.hex.toList.length ≤ 128 := by
    have known := digest.length_eq
    rcases digest.algorithm_eq with same | same <;> rw [same] at known
    · exact Option.some.inj known ▸ by decide
    · exact Option.some.inj known ▸ le_rfl
  rw [Digest.asString, utf8_append, utf8_append, List.length_append, List.length_append, hex, colon]
  omega

/-! ## Pushes -/

def PushFits (reader : JsonReader) : MetaOp → Prop
  | .putManifest repo digest _ tag _ referrer =>
    (∀ name ∈ tag, (utf8 repo).length + (utf8 digest).length + (utf8 name).length ≤ 508) ∧
      ∀ entry ∈ referrer,
        (utf8 repo).length + (utf8 digest).length + (utf8 entry.1).length ≤ 508 ∧
          ∀ type ∈ artifactTypeOf reader entry.2,
            (utf8 repo).length + (utf8 entry.1).length + (utf8 type).length +
              (utf8 digest).length ≤ 507
  | _ => True

theorem pushedOp_eq {env : Manifests.Env} {limits : Limits}
    {blobExists : Digest → Except StorageError Bool}
    {repository : RepositoryName} {reference mediaType : String} {request : Bytes} {op : MetaOp}
    (pushed : pushedOp env limits blobExists repository reference mediaType request = .ok op) :
    ∃ (digest : Digest) (tag : Option String) (references : List Digest)
      (referrer : Option (Digest × Bytes)),
      op = .putManifest repository.name digest.asString mediaType tag
        (references.map Digest.asString)
        (referrer.map fun entry => (entry.1.asString, entry.2)) := by
  simp only [pushedOp, Manifests.put, bind_eq_ok_iff] at pushed
  obtain ⟨push, ⟨body, _, handled⟩, recording⟩ := pushed
  split at handled
  · cases handled
  simp only [bind_eq_ok_iff, pure, Except.pure, Except.ok.injEq] at handled
  obtain ⟨⟨digest, tag⟩, _, _, _, links, _, _, _, rfl⟩ := handled
  rcases recorded : recordedOp env repository.name ⟨tag, digest, mediaType, body, links⟩ with
    error | result
  · rw [recorded] at recording
    cases recording
  rw [recorded] at recording
  cases recording
  simp only [recordedOp, bind_eq_ok_iff] at recorded
  obtain ⟨_, _, referrer, listed, last⟩ := recorded
  split at last
  · cases last
    unfold referrerEntry at listed
    split at listed
    · cases listed
      exact ⟨digest, tag, links.references, none, rfl⟩
    rename_i subject descriptor _
    cases merged : mergeSubject env.reader subject descriptor with
    | error error =>
      rw [merged] at listed
      cases listed
    | ok stored =>
      rw [merged] at listed
      cases listed
      exact ⟨digest, tag, links.references, some (subject, stored), rfl⟩
  · cases last

theorem backrefKeys_short (repository : RepositoryName) (manifest : Digest)
    (references : List Digest) :
    ∀ key ∈ backrefKeys repository.name manifest.asString (references.map Digest.asString),
      key.length ≤ maxKeySize := by
  have named := repository.length_le
  have own := length_utf8_asString_le manifest
  intro key membership
  simp only [backrefKeys, List.mem_flatMap, List.mem_map] at membership
  obtain ⟨_, ⟨digest, _, rfl⟩, present⟩ := membership
  have other := length_utf8_asString_le digest
  simp only [List.mem_cons, List.not_mem_nil, or_false] at present
  simp only [maxName] at named
  rcases present with rfl | rfl <;>
    simp only [length_keyOf, List.map_cons, List.map_nil, List.sum_cons, List.sum_nil,
      maxKeySize] <;> omega

/-- The engine takes an accepted push exactly when the keys of its tag and of
its referrer fit. -/
theorem pushed_keys_fit_iff {env : Manifests.Env} {limits : Limits}
    {blobExists : Digest → Except StorageError Bool} {repository : RepositoryName}
    {reference mediaType : String} {request : Bytes} {op : MetaOp}
    (pushed : pushedOp env limits blobExists repository reference mediaType request = .ok op) :
    (((∀ key ∈ putKeys env.reader op, key.length ≤ maxKeySize) ∧
        ∀ value ∈ putValues op, value.length ≤ maxKeySize) ↔ PushFits env.reader op) ∧
      ∀ tables : Tables, (∃ result, tables.applyOp env.reader op = .ok result) ↔
        PushFits env.reader op := by
  suffices keys : (∀ key ∈ putKeys env.reader op, key.length ≤ maxKeySize) ↔
      PushFits env.reader op by
    have both : ((∀ key ∈ putKeys env.reader op, key.length ≤ maxKeySize) ∧
        ∀ value ∈ putValues op, value.length ≤ maxKeySize) ↔ PushFits env.reader op :=
      ⟨fun short => keys.mp short.1,
        fun fits => ⟨keys.mpr fits, putValues_short (keys.mpr fits)⟩⟩
    exact ⟨both, fun tables => (applyOp_ok_iff env.reader tables op).trans both⟩
  obtain ⟨digest, tag, references, referrer, rfl⟩ := pushedOp_eq pushed
  have named := repository.length_le
  have own := length_utf8_asString_le digest
  have edges := backrefKeys_short repository digest references
  simp only [maxName] at named
  have tagKeys : (∀ key ∈ tag.toList.flatMap fun tag =>
      [keyOf [repository.name, tag], keyOf [repository.name, digest.asString, tag]],
        key.length ≤ maxKeySize) ↔ ∀ name ∈ tag, (utf8 repository.name).length +
          (utf8 digest.asString).length + (utf8 name).length ≤ 508 := by
    cases tag with
    | none => simp
    | some tag =>
      simp [length_keyOf, maxKeySize]
      omega
  have referrerKeys :
      (∀ key ∈ (referrer.map fun entry => (entry.1.asString, entry.2)).toList.flatMap
      fun entry => referrerKeys env.reader repository.name entry.1 digest.asString entry.2,
        key.length ≤ maxKeySize) ↔
      ∀ entry ∈ referrer.map fun entry => (entry.1.asString, entry.2),
        (utf8 repository.name).length + (utf8 digest.asString).length +
            (utf8 entry.1).length ≤ 508 ∧
          ∀ type ∈ artifactTypeOf env.reader entry.2,
            (utf8 repository.name).length + (utf8 entry.1).length + (utf8 type).length +
              (utf8 digest.asString).length ≤ 507 := by
    rcases referrer with _ | entry
    · simp
    cases typed : artifactTypeOf env.reader entry.2 with
    | _ =>
      simp [referrerKeys, typed, length_keyOf, maxKeySize]
      omega
  have recorded : (keyOf [repository.name, digest.asString]).length ≤ maxKeySize := by
    simp only [length_keyOf, List.map_cons, List.map_nil, List.sum_cons, List.sum_nil, maxKeySize]
    omega
  rw [putKeys, PushFits, List.forall_mem_append, List.forall_mem_append, List.forall_mem_cons,
    tagKeys, referrerKeys]
  exact ⟨fun short => ⟨short.1.1.2, short.2⟩, fun fits => ⟨⟨⟨recorded, fits.1⟩, edges⟩, fits.2⟩⟩

def app : RepositoryName := ⟨"app", app_valid⟩

/-- The caps of the default configuration. -/
def defaultLimits : Limits := ⟨268435456, 4194304⟩

def emptyBodyOp (tag : String) : MetaOp :=
  .putManifest "app" Digest.ofNothing.asString "application/vnd.oci.image.manifest.v1+json"
    (some tag) [] none

theorem short_tag_taken :
    PushFits emptyBodies.reader (emptyBodyOp "v1") ∧
      ∃ result, ({} : Tables).applyOp emptyBodies.reader (emptyBodyOp "v1") = .ok result := by
  have pushed : pushedOp emptyBodies defaultLimits (fun _ => .ok true) app "v1"
      "application/vnd.oci.image.manifest.v1+json" [] = .ok (emptyBodyOp "v1") := by decide +kernel
  have fits : PushFits emptyBodies.reader (emptyBodyOp "v1") := by
    simp only [PushFits, emptyBodyOp]
    exact ⟨by decide +kernel, by simp⟩
  exact ⟨fits, ((pushed_keys_fit_iff pushed).2 {}).mpr fits⟩

def longTag : String := String.ofList (List.replicate 450 'a')

theorem length_utf8_replicate (count : Nat) (character : Char) :
    (utf8 (String.ofList (List.replicate count character))).length =
      count * character.utf8Size := by
  simp [utf8_ofList, List.length_flatMap]

theorem longTag_unfit :
    ¬ (keyOf ["app", Digest.ofNothing.asString, longTag]).length ≤ maxKeySize := by
  have long : (utf8 longTag).length = 450 := length_utf8_replicate 450 'a'
  simp only [length_keyOf, List.map_cons, List.map_nil, List.sum_cons, List.sum_nil, long]
  decide +kernel

theorem pushedOp_letters {tag : String} {count : Nat}
    (letters : tag = String.ofList (List.replicate (count + 1) 'a')) :
    pushedOp emptyBodies defaultLimits (fun _ => .ok true) app tag
      "application/vnd.oci.image.manifest.v1+json" [] = .ok (emptyBodyOp tag) := by
  have read : readBody defaultLimits [] = .ok [] := rfl
  have plain : isDigestRef tag = false := by simp [letters, isDigestRef]
  have checked : checkTag (some tag) = .ok () := by
    simp [letters, checkTag, safeComponent, List.replicate_succ, String.ext_iff, Except.map]
  simp only [pushedOp, Manifests.put, read, contentDigest, plain, bind, Except.bind]
  exact congrArg (Except.mapError ApiError.storage) (recordedOp_of_checks checked rfl rfl)

/-- A tag of 450 letters is accepted by the handler and by the log engine, and
refused by the embedded engine. -/
theorem long_tag_refused :
    pushedOp emptyBodies defaultLimits (fun _ => .ok true) app longTag
        "application/vnd.oci.image.manifest.v1+json" [] = .ok (emptyBodyOp longTag) ∧
      ∀ tables : Tables,
        ¬ ∃ result, tables.applyOp emptyBodies.reader (emptyBodyOp longTag) = .ok result := by
  refine ⟨@pushedOp_letters longTag 449 rfl, ?_⟩
  intro tables taken
  exact longTag_unfit (((applyOp_ok_iff emptyBodies.reader tables _).mp taken).1 _
    (by simp [putKeys, emptyBodyOp]))

end Roci.Lmdb
