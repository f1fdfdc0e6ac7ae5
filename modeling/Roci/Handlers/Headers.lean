import Roci.Handlers.Routes
import Roci.Layout.Lookup
import Roci.Library.Fallible
import Roci.Metadata.Contents

/-!
# Reads of manifests

The media type of a manifest becomes a header value, and a text that is none makes
the handler panic.  A push takes the media type from a header; an `index.json` may
name any text.
-/

namespace Roci.Handlers

open Roci.Layout Roci.Library Roci.Manifests Roci.Metadata Roci.Storage

/-- Which texts `HeaderValue::from_str` takes. -/
structure HeaderRules where
  fromStr : String → Bool
  visible : ∀ text, (∀ byte ∈ utf8 text, 32 ≤ byte ∧ byte < 127) → fromStr text = true

inductive ManifestResponse where
  | notModified (etag cacheControl : String)
  | ok (contentType : String) (contentLength : Nat) (digest etag cacheControl : String)
      (body : Option Bytes)

def manifestCacheControl (byDigest : Bool) : String :=
  if byDigest then "max-age=31536000, immutable" else "no-cache"

def quoted (digest : Digest) : String := "\"" ++ digest.asString ++ "\""

section

variable (rules : HeaderRules)

/-- `HeaderValue::from_str(..).unwrap()`; a panic is `none`. -/
def HeaderRules.value (text : String) : Option String :=
  if rules.fromStr text then some text else none

/-- `manifests::get`. -/
def getManifest (found : Found) (repo reference : String) (head : Bool)
    (ifNoneMatch : Option String) : Option (Except Refusal ManifestResponse) :=
  let control := manifestCacheControl (isDigestRef reference)
  match found.getManifest repo reference with
  | .error error => some (.error (notFoundAs manifestUnknown error))
  | .ok (digest, mediaType, bytes) =>
    if ifNoneMatchHit ifNoneMatch digest.asString then do
      let etag ← rules.value (quoted digest)
      some (.ok (.notModified etag control))
    else do
      let contentType ← rules.value mediaType
      let value ← rules.value digest.asString
      let etag ← rules.value (quoted digest)
      some (.ok (.ok contentType bytes.length value etag control
        (if head then none else some bytes)))

/-- The media type that is found is a header value or need not be sent. -/
def Sendable (found : Found) (repo reference : String) (ifNoneMatch : Option String) : Prop :=
  ∀ digest mediaType bytes, found.getManifest repo reference = .ok (digest, mediaType, bytes) →
    ifNoneMatchHit ifNoneMatch digest.asString = true ∨ rules.fromStr mediaType = true

/-! ## Runs -/

/-- What changes the records of a store: an operation, or the import of the tags of
an `index.json`. -/
inductive Change where
  | apply (op : MetaOp)
  | importTags (repo : String) (index : Json)

def Change.step (reader : JsonReader) (store : State) : Change → Option State
  | .apply op => some (store.applyInRam reader op)
  | .importTags repo index => some (importForeignTags reader store repo index)

def IndexAccepted (index : Json) : Prop :=
  ∀ entry ∈ indexManifests index, ∀ mediaType ∈ mediaTypeMember entry,
    rules.fromStr mediaType = true

def Change.Accepted : Change → Prop
  | .apply (.putManifest _ _ mediaType _ _ _) => rules.fromStr mediaType = true
  | .apply _ => True
  | .importTags _ index => IndexAccepted rules index

def recordedType : Entry → Option String
  | .tag _ _ mediaType => some mediaType
  | .mediaType _ mediaType => some mediaType
  | _ => none

/-- Every media type on record is a header value. -/
def TypesAccepted (store : State) : Prop :=
  ∀ repo entry, (store.contents repo).Holds entry → ∀ mediaType ∈ recordedType entry,
    rules.fromStr mediaType = true

end

section

variable {rules : HeaderRules} {reader : JsonReader} {store : State}

theorem fromStr_of_subset {text : String} (within : text.toList ⊆ "0123456789abcdefhs:\"".toList) :
    rules.fromStr text = true := by
  refine rules.visible text fun byte inside => ?_
  rw [← text.ofList_toList, utf8_ofList] at inside
  obtain ⟨character, listed, encoded⟩ := List.mem_flatMap.mp inside
  have every : ("0123456789abcdefhs:\"".toList.flatMap String.utf8EncodeChar).all
      (fun byte => 32 ≤ byte ∧ byte < 127) = true := by
    decide +kernel
  exact of_decide_eq_true (List.all_eq_true.mp every byte
    (List.mem_flatMap.mpr ⟨character, within listed, encoded⟩))

theorem asString_subset (digest : Digest) :
    digest.asString.toList ⊆ "0123456789abcdefhs:\"".toList := by
  simp only [Digest.asString, String.toList_append, List.append_subset]
  have digits : lowerHexDigits ⊆ "0123456789abcdefhs:\"".toList := by decide
  refine ⟨⟨?_, by decide⟩, fun digit inside => digits (digest.digit_mem digit inside)⟩
  rcases digest.algorithm_eq with known | known <;> rw [known] <;> decide

/-- Only the media type can be no header value. -/
theorem getManifest_isSome_iff (found : Found) (repo reference : String) (head : Bool)
    (ifNoneMatch : Option String) :
    (getManifest rules found repo reference head ifNoneMatch).isSome = true ↔
      Sendable rules found repo reference ifNoneMatch := by
  unfold getManifest Sendable
  rcases answer : found.getManifest repo reference with error | parts
  · simp
  obtain ⟨digest, mediaType, bytes⟩ := parts
  have plain : rules.fromStr digest.asString = true := fromStr_of_subset (asString_subset digest)
  have tag : rules.fromStr (quoted digest) = true := by
    refine fromStr_of_subset ?_
    simp only [quoted, String.toList_append, List.append_subset]
    exact ⟨⟨by decide, asString_subset digest⟩, by decide⟩
  cases hit : ifNoneMatchHit ifNoneMatch digest.asString <;>
    cases accepted : rules.fromStr mediaType <;>
    simp [HeaderRules.value, plain, tag, hit, accepted]

theorem fromStr_getD {mediaType : Option String}
    (accepted : ∀ found ∈ mediaType, rules.fromStr found = true) :
    rules.fromStr (mediaType.getD mediaTypeImageManifest) = true := by
  cases mediaType with
  | none => exact rules.visible _ (by decide +kernel)
  | some found => exact accepted found rfl

/-- Step lemma for an operation. -/
theorem TypesAccepted.apply {op : MetaOp} (types : TypesAccepted rules store)
    (accepted : (Change.apply op).Accepted rules) :
    TypesAccepted rules (store.applyInRam reader op) := by
  intro repo entry holds mediaType named
  rw [State.contents_applyInRam, Contents.holds_apply] at holds
  rcases holds with ⟨_, writes⟩ | ⟨before, _⟩
  · cases op with
    | putManifest =>
      cases entry with
      | tag =>
        cases named
        exact writes.2.2 ▸ accepted
      | mediaType =>
        cases named
        exact writes.2 ▸ accepted
      | _ => cases named
    | _ =>
      cases entry with
      | tag | mediaType => cases writes
      | _ => cases named
  · exact types repo entry before mediaType named

theorem TypesAccepted.importEntry {repo : String} {entry : Json} (types : TypesAccepted rules store)
    (accepted : ∀ mediaType ∈ mediaTypeMember entry, rules.fromStr mediaType = true) :
    TypesAccepted rules (importEntry reader repo store entry) := by
  unfold Layout.importEntry
  split
  · split
    · exact types
    · exact types.apply (fromStr_getD accepted)
  · exact types

/-- Run lemma. -/
theorem typesAccepted_of_run {changes : List Change} {final : State}
    (run : Reaches (Change.step reader) (fun _ change => change.Accepted rules) {} changes final) :
    TypesAccepted rules final := by
  refine run.invariant (fun store change next accepted stepped types => ?_) ?_
  · cases change with
    | apply op =>
      cases stepped
      exact types.apply accepted
    | importTags repo index =>
      cases stepped
      refine List.foldlRecOn (motive := TypesAccepted rules) _ _ types fun _ kept entry listed => ?_
      exact kept.importEntry (accepted entry listed)
  intro repo entry holds
  rw [State.contents_empty] at holds
  cases entry <;> cases holds

theorem fromStr_of_getManifest {found : Found} (types : TypesAccepted rules found.metadata)
    (indexed : ∀ index, found.index = .ok index → IndexAccepted rules index)
    {repo reference mediaType : String} {digest : Digest} {bytes : Bytes}
    (answer : found.getManifest repo reference = .ok (digest, mediaType, bytes)) :
    rules.fromStr mediaType = true := by
  have listed : ∀ index, found.index = .ok index → ∀ sought entry,
      (indexManifests index).find? sought = some entry →
        ∀ type ∈ mediaTypeMember entry, rules.fromStr type = true :=
    fun index read _ entry sought => indexed index read entry (List.mem_of_find?_eq_some sought)
  unfold Found.getManifest at answer
  dsimp only at answer
  split at answer
  · obtain ⟨_, _, answer⟩ := (bind_eq_ok_iff _ _ _).mp answer
    obtain ⟨_, typed, answer⟩ := (bind_eq_ok_iff _ _ _).mp answer
    obtain ⟨_, ⟨⟩, answer⟩ := (bind_eq_ok_iff _ _ _).mp answer
    obtain ⟨_, _, ⟨⟩⟩ := (bind_eq_ok_iff _ _ _).mp answer
    unfold Found.mediaType at typed
    split at typed
    · rename_i recorded
      cases typed
      rw [State.manifestMediaType_eq] at recorded
      exact types repo (.mediaType _ _) recorded _ rfl
    cases read : found.index with
    | error error => cases read ▸ typed
    | ok index =>
      rw [read] at typed
      cases typed
      refine fromStr_getD fun type named => ?_
      obtain ⟨entry, sought, named⟩ := Option.bind_eq_some_iff.mp named
      exact listed index read _ entry sought type named
  · obtain ⟨⟨_, _⟩, resolved, answer⟩ := (bind_eq_ok_iff _ _ _).mp answer
    obtain ⟨_, _, ⟨⟩⟩ := (bind_eq_ok_iff _ _ _).mp answer
    unfold Found.resolve at resolved
    split at resolved
    · rename_i recorded
      rw [State.resolveTag_eq] at recorded
      obtain ⟨_, _, ⟨⟩⟩ := (bind_eq_ok_iff _ _ _).mp resolved
      exact types repo (.tag _ _ _) recorded _ rfl
    obtain ⟨index, read, resolved⟩ := (bind_eq_ok_iff _ _ _).mp resolved
    unfold indexResolveTag at resolved
    split at resolved
    · cases resolved
    rename_i entry sought
    split at resolved
    · cases resolved
    obtain ⟨_, _, ⟨⟩⟩ := (bind_eq_ok_iff _ _ _).mp resolved
    exact fromStr_getD (listed index read _ entry sought)

end

/-- A read is answered exactly if its media type can be sent; so it always is when
only media types that are header values were put on record. -/
theorem manifest_read_answered_iff (rules : HeaderRules) :
    (∀ found repo reference head ifNoneMatch,
      (getManifest rules found repo reference head ifNoneMatch).isSome = true ↔
        Sendable rules found repo reference ifNoneMatch) ∧
    ∀ reader changes (found : Found),
      Reaches (Change.step reader) (fun _ change => change.Accepted rules) {} changes
        found.metadata →
      (∀ index, found.index = .ok index → IndexAccepted rules index) →
      ∀ repo reference head ifNoneMatch,
        (getManifest rules found repo reference head ifNoneMatch).isSome = true := by
  refine ⟨getManifest_isSome_iff, fun reader changes found run indexed repo reference head
    ifNoneMatch => (getManifest_isSome_iff _ _ _ _ _).mpr fun _ _ _ answer => .inr ?_⟩
  exact fromStr_of_getManifest (typesAccepted_of_run run) indexed answer

/-- The rules of the `http` crate. -/
def httpRules : HeaderRules where
  fromStr text := (utf8 text).all fun byte => (32 ≤ byte && byte ≠ 127) || byte = 9
  visible text every := by
    simp only [List.all_eq_true, Bool.or_eq_true, Bool.and_eq_true, decide_eq_true_iff]
    intro byte inside
    refine .inl ⟨(every byte inside).1, ?_⟩
    rintro rfl
    exact absurd (every 127 inside).2 (by decide)

/-- A tagged manifest whose media type has a line break. -/
def brokenIndex : Json := .object [("manifests", .array [.object [
  ("annotations", .object [( refNameAnnotation, .string "v1")]),
  ("digest", .string Digest.ofNothing.asString), ("mediaType", .string "a\nb")]])]

theorem line_break_panics :
    (getManifest httpRules { metadata := importForeignTags JsonText.reader {} "app" brokenIndex
                             index := .ok brokenIndex, cache := fun _ => none
                             blob := fun _ => .ok [] }
      "app" "v1" false none).isNone = true := by
  decide +kernel

end Roci.Handlers
