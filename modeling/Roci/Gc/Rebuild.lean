import Mathlib.Data.List.Dedup
import Roci.Layout.Recovery
import Roci.Library.Worklist

/-!
# Rebuilding the backref edges

At startup every repository is walked from its root manifests: those the
metadata store records and those `index.json` lists.  Each manifest read
contributes its missing backref edges, the children of an image index are walked
in turn, and a root that cannot be read makes the repository unsafe, so that no
sweep touches it.
-/

namespace Roci.Gc

open Roci.Library Roci.Metadata Roci.Storage Roci.Layout

def maxRootManifestBytes : Nat := 4 * 1024 * 1024

inductive RootRead where
  | skipped
  | failed
  | manifest (value : Json)

/-- The outcome of the walk: the metadata store, the texts taken from the stack
and the digests read, both in order, the roots that made the repository unsafe,
the roots the metadata store does not record, and whether `index.json` could be
read. -/
structure Check where
  store : State
  visited : List String := []
  reads : List Digest := []
  unsafeRoots : List String := []
  roots : List String := []
  unreadableIndex : Bool := false

def Check.isUnsafe (check : Check) : Bool := check.unreadableIndex || !check.unsafeRoots.isEmpty

section

variable (reader : JsonReader) (repo : String)
  (readManifest : Digest → Except Unit (Option Bytes)) (logged : MetaOp → Bool)

def readRoot (text : String) : RootRead :=
  match Digest.parse text with
  | .error _ => .skipped
  | .ok digest =>
    match readManifest digest with
    | .error _ => .failed
    | .ok none => .failed
    | .ok (some bytes) =>
      match reader.parse bytes with
      | none => .failed
      | some manifest => .manifest manifest

def rootChildren (text : String) : List String :=
  match readRoot reader readManifest text with
  | .manifest manifest => (indexManifests manifest).filterMap descriptorDigest
  | _ => []

/-- What the edges of a root that was read add to the store; `logged` tells
which appends succeed. -/
def recordEdges (store : State) (text : String) (manifest : Json) : State :=
  let references := (manifestReferences manifest).map Digest.asString
  let missing := references.filter fun blob => text ∉ store.backrefs repo blob
  if missing.isEmpty || !logged (.putBackrefs repo text missing) then store
  else store.applyInRam reader (.putBackrefs repo text missing)

/-- The effect of visiting a root: every text that is a digest is read. -/
def visitRoot (check : Check) (text : String) : Check :=
  let check := { check with
    visited := check.visited ++ [text]
    reads := check.reads ++ (Digest.parse text).toOption.toList }
  match readRoot reader readManifest text with
  | .skipped => check
  | .failed => { check with unsafeRoots := check.unsafeRoots ++ [text] }
  | .manifest manifest =>
    { check with store := recordEdges reader repo logged check.store text manifest }

end

section

variable (reader : JsonReader) (repo : String)
  (reads : String → Digest → Except Unit (Option Bytes)) (logged : MetaOp → Bool)

/-- A visit during which each read has an outcome of its own. -/
def visitText (check : Check) (text : String) : Check :=
  visitRoot reader repo (reads text) logged check text

def textChildren (text : String) : List String := rootChildren reader (reads text) text

/-- `rebuild_backrefs`, where each read of a manifest may fail on its own: walk
the manifests from `roots`, then keep those that are not recorded as roots of
their own. -/
def rebuildFailing (fuel : Nat) (roots : List String) (store : State) : Option Check :=
  (walk (textChildren reader reads) (visitText reader repo reads logged) fuel
    { seen := roots, stack := roots } { store := store }).map fun walked =>
      { walked.2 with
        roots := walked.1.filter fun text =>
          (walked.2.store.manifestMediaType repo text).isNone }

/-- `rebuild_backrefs` over files that do not change. -/
def rebuildBackrefs (readManifest : Digest → Except Unit (Option Bytes)) :
    Nat → List String → State → Option Check :=
  rebuildFailing reader repo (fun _ => readManifest) logged

end

/-! ## One repository on disk -/

variable (files : StringMap Bytes)

/-- A manifest file, unless it is larger than a root may be. -/
def readCasBlobBounded (digest : Digest) : Except Unit (Option Bytes) :=
  match files[digest.asString]? with
  | none => .ok none
  | some bytes => if maxRootManifestBytes < bytes.length then .error () else .ok (some bytes)

variable (reader : JsonReader)

def listedChildren (files : StringMap Bytes) : List String :=
  files.toList.flatMap fun entry =>
    ((reader.parse entry.2).map fun manifest =>
      (indexManifests manifest).filterMap descriptorDigest).getD []

def repoFiles (disk : Disk) (repo : String) : StringMap Bytes := disk.files[repo]?.getD ∅

section

variable (reader : JsonReader) (repo : String)
  (reads : String → Digest → Except Unit (Option Bytes)) (logged : MetaOp → Bool)
  (order : List String)

theorem mem_unsafeRoots_visitText (check : Check) (text other : String) :
    other ∈ (visitText reader repo reads logged check text).unsafeRoots ↔
      other ∈ check.unsafeRoots ∨
        (other = text ∧ readRoot reader (reads text) text = .failed) := by
  unfold visitText visitRoot
  cases readRoot reader (reads text) text <;> simp

/-- The repository becomes unsafe through the manifests that cannot be read. -/
theorem mem_unsafeRoots_visits (check : Check) (other : String) :
    other ∈ (order.foldl (visitText reader repo reads logged) check).unsafeRoots ↔
      other ∈ check.unsafeRoots ∨
        (other ∈ order ∧ readRoot reader (reads other) other = .failed) := by
  induction order generalizing check with
  | nil => simp
  | cons text rest ih =>
    rw [List.foldl_cons, ih, mem_unsafeRoots_visitText]
    by_cases same : other = text
    · subst same
      simp
      tauto
    · simp [same]

/-- The visits are recorded in their order. -/
theorem visited_visits (check : Check) :
    (order.foldl (visitText reader repo reads logged) check).visited = check.visited ++ order := by
  induction order generalizing check with
  | nil => simp
  | cons text rest ih =>
    have visited : (visitText reader repo reads logged check text).visited =
        check.visited ++ [text] := by
      unfold visitText visitRoot
      cases readRoot reader (reads text) text <;> rfl
    rw [List.foldl_cons, ih, visited, List.append_assoc, List.singleton_append]

/-- A visit reads its text once, if that is a digest. -/
theorem reads_visits (check : Check) :
    (order.foldl (visitText reader repo reads logged) check).reads =
      check.reads ++ order.filterMap fun text => (Digest.parse text).toOption := by
  induction order generalizing check with
  | nil => simp
  | cons text rest ih =>
    have read : (visitText reader repo reads logged check text).reads =
        check.reads ++ (Digest.parse text).toOption.toList := by
      unfold visitText visitRoot
      cases readRoot reader (reads text) text <;> rfl
    rw [List.foldl_cons, ih, read, List.append_assoc, List.filterMap_cons]
    cases (Digest.parse text).toOption <;> rfl

end

/-- Reads that find nothing but the content of `files`. -/
def ReadsFrom (readManifest : Digest → Except Unit (Option Bytes)) : Prop :=
  ∀ digest bytes, readManifest digest = .ok (some bytes) →
    files[digest.asString]? = some bytes

theorem readsFrom_readCasBlobBounded : ReadsFrom files (readCasBlobBounded files) := by
  intro digest bytes read
  unfold readCasBlobBounded at read
  split at read
  · cases read
  rename_i stored
  split at read
  · cases read
  cases read
  exact stored

theorem rootChildren_subset_listed {files : StringMap Bytes}
    {readManifest : Digest → Except Unit (Option Bytes)} (reads : ReadsFrom files readManifest)
    (text child : String) (listed : child ∈ rootChildren reader readManifest text) :
    child ∈ listedChildren reader files := by
  unfold rootChildren readRoot at listed
  rcases parsed : Digest.parse text with reason | digest
  · simp [parsed] at listed
  rcases found : readManifest digest with failure | content
  · simp [parsed, found] at listed
  rcases content with _ | bytes
  · simp [parsed, found] at listed
  rcases read : reader.parse bytes with _ | manifest
  · simp [parsed, found, read] at listed
  simp only [parsed, found, read] at listed
  refine List.mem_flatMap.mpr ⟨(digest.asString, bytes),
    Std.ExtTreeMap.mem_toList_iff_getElem?_eq_some.mpr (reads digest bytes found), ?_⟩
  simpa [read] using listed

/-- The walk always ends, and visits exactly what can be reached. -/
theorem rebuildFailing_spec (repo : String)
    {reads : String → Digest → Except Unit (Option Bytes)} (logged : MetaOp → Bool)
    {files : StringMap Bytes} (within : ∀ text, ReadsFrom files (reads text))
    {roots : List String} (store : State) {fuel : Nat}
    (enough : roots.length + (listedChildren reader files).length ≤ fuel) :
    ∃ order seen : List String,
      rebuildFailing reader repo reads logged fuel roots store =
        some { order.foldl (visitText reader repo reads logged) { store := store } with
          roots := seen.filter fun text =>
            ((order.foldl (visitText reader repo reads logged)
              { store := store }).store.manifestMediaType repo text).isNone } ∧
      (∀ text, text ∈ order ↔ Reachable (textChildren reader reads) roots text) ∧
      (∀ text, text ∈ seen ↔ Reachable (textChildren reader reads) roots text) ∧
      (roots.Nodup → order.Nodup) := by
  have bounded : ∀ text, ∀ child ∈ textChildren reader reads text,
      child ∈ listedChildren reader files :=
    fun text => rootChildren_subset_listed reader (within text) text
  obtain ⟨order, seen, walked, spec⟩ := walk_spec (visitText reader repo reads logged) bounded
    ({ store := store } : Check) enough
  exact ⟨order, seen, by rw [rebuildFailing, walked]; rfl, spec⟩

end Roci.Gc
