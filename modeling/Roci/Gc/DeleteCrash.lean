import Roci.Gc.Rebuild
import Roci.Layout.Rebuild

/-!
# A crash inside the deletion of a manifest

Deleting a manifest unlinks its file before the metadata store forgets it.  A
crash in between leaves metadata without a file, and neither recovery nor a
second deletion, which starts by reading the file, removes it.
-/

namespace Roci.Gc

open Roci.Library Roci.Metadata Roci.Storage Roci.Layout

inductive CrashPoint where
  | beforeUnlink
  | afterUnlink
  | afterBlobLeft
  | afterAppend
deriving DecidableEq

section

variable (reader : JsonReader) (disk : Disk) (repo digest : String)

def unlinkManifest : Disk :=
  { disk with files := disk.files.upsert repo ∅ fun files => files.erase digest }

/-- `blob_left`, as far as it reaches the log. -/
def blobLeft : Disk :=
  if (disk.metadata.checksum repo digest).isSome then
    { disk with metadata := disk.metadata.applyInRam reader (.deleteBlob repo digest) }
  else disk

def appendDelete : Disk :=
  { disk with metadata := disk.metadata.applyInRam reader (.deleteManifest repo digest) }

/-- What `delete_manifest`, having read the manifest, leaves on disk when the
process dies. -/
def deleteManifestUntil : CrashPoint → Disk
  | .beforeUnlink => disk
  | .afterUnlink => unlinkManifest disk repo digest
  | .afterBlobLeft => blobLeft reader (unlinkManifest disk repo digest) repo digest
  | .afterAppend =>
    appendDelete reader (blobLeft reader (unlinkManifest disk repo digest) repo digest) repo
      digest

/-- `delete_manifest` in a fresh process: nothing is cached, so a missing file
is not found. -/
def deleteManifest (repo : String) (digest : Digest) : Except StorageError Disk :=
  match (repoFiles disk repo)[digest.asString]? with
  | none => .error .notFound
  | some _ => .ok (deleteManifestUntil reader disk repo digest.asString .afterAppend)

end

/-- The file and every fact about the manifest are as they were. -/
structure Intact (before after : Disk) (repo digest : String) : Prop where
  file : (repoFiles after repo)[digest]? = (repoFiles before repo)[digest]?
  tagged : ∀ tag, (before.metadata.repo repo).Tagged tag digest →
    (after.metadata.repo repo).Tagged tag digest
  recorded : (before.metadata.repo repo).Recorded digest →
    (after.metadata.repo repo).Recorded digest
  refers : ∀ subject, (before.metadata.repo repo).Refers subject digest →
    (after.metadata.repo repo).Refers subject digest
  edge : ∀ blob, (before.metadata.repo repo).Edge blob digest →
    (after.metadata.repo repo).Edge blob digest

/-- Every descriptor is about its key, and the key is allowed. -/
def Keyed (allowed : String → Prop) (base : StringMap Obj) : Prop :=
  ∀ (key : String) (descriptor : Obj), base[key]? = some descriptor →
    descriptor.lookup "digest" = some (.string key) ∧ allowed key

section

variable {allowed : String → Prop} {base : StringMap Obj} {reader : JsonReader}

theorem Keyed.upsert (keyed : Keyed allowed base) {changed : String} {fallback : Obj}
    {change : Obj → Obj} (isAllowed : allowed changed)
    (named : fallback.lookup "digest" = some (.string changed))
    (keeps : ∀ descriptor, (change descriptor).lookup "digest" = descriptor.lookup "digest") :
    Keyed allowed (base.upsert changed fallback change) := by
  intro key descriptor found
  rw [StringMap.lookup_upsert] at found
  split at found
  · rename_i same
    subst same
    cases found
    refine ⟨?_, isAllowed⟩
    rw [keeps]
    cases before : base[key]? with
    | none => exact named
    | some descriptor => exact (keyed key descriptor before).1
  · exact keyed key descriptor found

end

section

variable {reader : JsonReader} {order : IterOrder} {logged : MetaOp → Bool} {disk : Disk}
  {repo : String} {digest : Digest} {point : CrashPoint}

end

end Roci.Gc
