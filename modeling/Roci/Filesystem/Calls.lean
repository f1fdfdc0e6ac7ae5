import Roci.Filesystem.World

/-!
# The storage calls

Each call is written down as the source performs it, one action after the other.
What runs on the blocking pool ends in `resume`: a call that is dropped there
has its job carried out all the same, and nothing behind it.
-/

namespace Roci.Filesystem

open Roci.Core Roci.Library Roci.Storage Roci.Metadata Roci.Layout
open Roci.Manifests (ManifestLinks checksumOf checkTag referrerEntry)

/-- Configuration, and what comes from elsewhere: the JSON reader, CRC-32C and
the content hash. -/
structure Env extends Manifests.Env where
  commit : Bool := false
  limits : QuotaLimits := {}

abbrev Call (Result : Type) := Program Action Response Result

abbrev act (action : Action) : Call (Response action) := Program.act action

variable {Result : Type}

def runBlocking (job : Call Result) : Call Result := do
  let result ← job
  act .resume
  pure result

/-! ## Bookkeeping -/

section

variable (env : Env) (key : BlobKey)

def wantBlob : Call Unit := do
  act (.collector .pin)
  act (.collector (.touch key))
  act (.collector .unpin)

def mark : Call Unit := do
  let now ← act (.collector .now)
  act (.collector (.markAt key now))

def recordChecksum : Option BlobChecksum → Call Unit
  | none => pure ()
  | some found => do
      let recorded ← act (.metadata (.checksum key))
      if recorded ≠ some found then
        let _ ← act (.metadata (.applyRelaxed
          (.putChecksum key.repo.name key.digest.asString found.crc32c found.size)))

/-- A blob nothing refers to, and that is no manifest, becomes a candidate. -/
def markNewcomer : Call Unit := do
  let manifests ← act (.metadata (.backrefs key))
  if manifests.isEmpty then
    let mediaType ← act (.metadata (.mediaType key))
    if mediaType.isNone then
      mark key

def blobEntered (checksum : Option BlobChecksum) : Call Unit := do
  act (.memory (.insertPresence key))
  act (.collector (.arrive key))
  recordChecksum key checksum
  markNewcomer key

variable (repo : RepositoryName)

def releaseSize : Option Nat → Call Unit
  | none => pure ()
  | some size => act (.quota (.release repo size))

def blobLeft (size : Option Nat) : Call Unit := do
  act (.memory (.removePresence key))
  act (.memory (.cacheInvalidate key))
  act (.collector (.clear key))
  releaseSize key.repo size
  let recorded ← act (.metadata (.checksum key))
  if recorded.isSome then
    let _ ← act (.metadata (.applyRelaxed (.deleteBlob key.repo.name key.digest.asString)))

/-! ## Putting files in place -/

def syncDirectory (wanted : Bool) : Call (Except StorageError Unit) :=
  if wanted then act (.disk .sync) else pure (.ok ())

/-- What exists under a name in the blob store is accepted as a regular file
only. -/
def checkRegular (path : Path) : Call (Except StorageError Unit) := do
  match ← act (.disk (.stat path)) with
  | .error error => pure (.error error)
  | .ok none => pure (.error .notFound)
  | .ok (some (true, _)) => pure (.ok ())
  | .ok (some (false, _)) =>
    pure (.error (.io "CAS destination exists and is not a regular file"))

def publishBytes (path : Path) (data : Bytes) (sync : Bool) : Call (Except StorageError Unit) := do
  match ← act (.disk (.publish path data)) with
  | .error error => pure (.error error)
  | .ok true => syncDirectory sync
  | .ok false =>
    match ← checkRegular path with
    | .error error => pure (.error error)
    | .ok () => syncDirectory sync

/-- `rename_beneath_sync`: rename the file that was hashed. -/
def renameBeneath (source target : Path) (node : Nat) (sync : Bool) :
    Call (Except StorageError Unit) := do
  match ← act (.disk (.inode source)) with
  | .error error => pure (.error error)
  | .ok found =>
    if found ≠ node then pure (.error .notFound)
    else
      match ← act (.disk (.rename source target)) with
      | .error error => pure (.error error)
      | .ok true => syncDirectory sync
      | .ok false => checkRegular target

def concludeLink (target : Path) (sync : Bool) :
    Promotion × Bool → Call (Except StorageError Promotion)
  | (how, true) => do
      let synced ← syncDirectory sync
      pure (synced.map fun _ => how)
  | (.hardlink, false) => do
      match ← checkRegular target with
      | .error error => pure (.error error)
      | .ok () => do
          let synced ← syncDirectory sync
          pure (synced.map fun _ => .existing)
  | (how, false) => do
      let checked ← checkRegular target
      pure (checked.map fun _ => how)

/-- `mount_promote_beneath_sync`: bring in a blob of another repository. -/
def mountPromote (source target : Path) (allowCopy sync : Bool) :
    Call (Except StorageError Promotion) := do
  match ← act (.disk (.openFile source)) with
  | .error error => pure (.error error)
  | .ok node =>
    match ← act (.disk (.stat target)) with
    | .error error => pure (.error error)
    | .ok (some (true, _)) => pure (.ok .existing)
    | .ok (some (false, _)) =>
      pure (.error (.io "mount destination exists and is not a regular file"))
    | .ok none =>
      match ← act (.disk (.link node target allowCopy)) with
      | .error error => pure (.error error)
      | .ok outcome => concludeLink target sync outcome

/-- `dedupe_link_at`: link the blob from another repository; `false` if that is
not possible. -/
def dedupeLinkAt : Call Bool := do
  match ← act (.memory (.locate key)) with
  | none => pure false
  | some source =>
    let promoted ← mountPromote (BlobKey.path ⟨source, key.digest⟩) key.path false env.commit
    pure promoted.isOk

/-- `dedupe_link`: the same, with the link as a job. -/
def dedupeLink : Call Bool := do
  match ← act (.memory (.locate key)) with
  | none => pure false
  | some source =>
    let promoted ← runBlocking
      (mountPromote (BlobKey.path ⟨source, key.digest⟩) key.path false env.commit)
    pure promoted.isOk

def ociLayoutMarker : Bytes := utf8 "\x7b\"imageLayoutVersion\":\"1.0.0\"\x7d"

/-- `ensure_layout_beneath_sync`; `true` when the marker was not there. -/
def ensureLayoutBeneath : Call (Except StorageError Bool) := do
  match ← act (.disk (.stat (markerPath repo))) with
  | .error error => pure (.error error)
  | .ok (some (true, _)) => pure (.ok false)
  | .ok (some (false, _)) => pure (.error (.io "oci-layout exists and is not a regular file"))
  | .ok none =>
    match ← act (.disk (.publish (markerPath repo) ociLayoutMarker)) with
    | .error error => pure (.error error)
    | .ok true =>
      let synced ← syncDirectory true
      pure (synced.map fun _ => true)
    | .ok false =>
      let checked ← checkRegular (markerPath repo)
      pure (checked.map fun _ => true)

def ensureMarker : Call (Except StorageError Unit) := do
  match ← ensureLayoutBeneath repo with
  | .error error => pure (.error error)
  | .ok created => syncDirectory created

def admitAbsent (size : Nat) : Call (Except StorageError Nat) := do
  match ← act (.disk (.stat key.path)) with
  | .error error => pure (.error error)
  | .ok (some (true, _)) => pure (.ok 0)
  | .ok _ =>
    let admitted ← act (.quota (.admitBytes env.limits key.repo size))
    pure (admitted.map fun _ => size)

def layoutAndAdmit (size : Nat) : Call (Except StorageError Nat) := do
  match ← ensureMarker key.repo with
  | .error error => pure (.error error)
  | .ok () =>
    if env.limits.tracksBytes then admitAbsent env key size
    else pure (.ok 0)

def ensureLayout : Call (Except StorageError Unit) := runBlocking (ensureMarker repo)

/-- `admit_blob`: only the look at the file is a job. -/
def admitBlob (size : Nat) : Call (Except StorageError Nat) := do
  if env.limits.tracksBytes then
    match ← runBlocking (act (.disk (.stat key.path))) with
    | .error error => pure (.error error)
    | .ok (some (true, _)) => pure (.ok 0)
    | .ok _ =>
      let admitted ← act (.quota (.admitBytes env.limits key.repo size))
      pure (admitted.map fun _ => size)
  else pure (.ok 0)

end

/-! ## Request bodies -/

abbrev UploadBody := List (Except StorageError Bytes)

def writeBatch : Nat := 2 ^ 20

/-- The full batches of the bytes read, and what is left; for at most `fuel`
batches. -/
def fullBatches : Nat → Bytes → List Bytes × Bytes
  | 0, bytes => ([], bytes)
  | fuel + 1, bytes =>
    if bytes.length < writeBatch then ([], bytes)
    else
      let (batches, rest) := fullBatches fuel (bytes.drop writeBatch)
      (bytes.take writeBatch :: batches, rest)

/-- Bytes written so far, bytes read and not written yet, and the hash of all
that is staged. -/
structure Progress where
  written : Nat := 0
  batch : Bytes := []
  hash : Option StagedHash := none

def writeHashed (node : Nat) (progress : Progress) (batch : Bytes) :
    Call (Except StorageError Progress) := do
  match ← runBlocking (act (.disk (.write node batch))) with
  | .error error => pure (.error error)
  | .ok () =>
    pure (.ok {
      written := progress.written + batch.length
      batch := []
      hash := progress.hash.map fun hash => { bytes := hash.bytes ++ batch } })

def writeBatches (node : Nat) (progress : Progress) : List Bytes →
    Call (Except StorageError Progress)
  | [] => pure (.ok progress)
  | batch :: rest => do
      match ← writeHashed node progress batch with
      | .error error => pure (.error error)
      | .ok progress => writeBatches node progress rest

def takeChunk (node limit : Nat) (progress : Progress) (chunk : Bytes) :
    Call (Except StorageError Progress) := do
  let received := progress.written + progress.batch.length + chunk.length
  if limit < received then
    pure (.error (.tooLarge limit received))
  else
    let bytes := progress.batch ++ chunk
    let (batches, rest) := fullBatches bytes.length bytes
    let written ← writeBatches node progress batches
    pure (written.map fun progress => { progress with batch := rest })

/-- The body is over: write what is left unless the caller does. -/
def takeTail (node : Nat) (deferTail : Bool) (progress : Progress) :
    Call (Except StorageError Progress) :=
  if !deferTail && !progress.batch.isEmpty then writeHashed node progress progress.batch
  else pure (.ok progress)

def takeBody (node limit : Nat) (deferTail : Bool) (progress : Progress) : UploadBody →
    Call (Except StorageError Progress)
  | [] => do
      act .nextChunk
      takeTail node deferTail progress
  | .error error :: _ => do
      act .nextChunk
      pure (.error error)
  | .ok chunk :: rest => do
      act .nextChunk
      match ← takeChunk node limit progress chunk with
      | .error error => pure (.error error)
      | .ok progress => takeBody node limit deferTail progress rest

/-- What has been staged, with a tail that may still have to be written. -/
structure Deferred where
  len : Nat
  hash : Option StagedHash
  tail : Bytes
  tailAt : Nat
  node : Nat

/-- `append_inner`: on failure the file is cut back to where it was. -/
def appendInner (node start : Nat) (body : UploadBody) (limit : Nat) (hash : Option StagedHash)
    (deferTail : Bool) : Call (Except StorageError Deferred) := do
  let seed := hash.filter fun hash => hash.bytes.length = start
  match ← takeBody node limit deferTail { hash := seed } body with
  | .ok progress =>
    pure (.ok {
      len := start + progress.written + progress.batch.length
      hash := progress.hash
      tail := progress.batch
      tailAt := start + progress.written
      node := node })
  | .error error =>
    match ← runBlocking (act (.disk (.setLen node start))) with
    | .error failed => pure (.error failed)
    | .ok () => pure (.error error)

def writeTail (deferred : Deferred) : Call (Except StorageError (Option StagedHash)) := do
  if deferred.tail.isEmpty then
    pure (.ok deferred.hash)
  else
    match ← act (.disk (.write deferred.node deferred.tail)) with
    | .error error =>
      let _ ← act (.disk (.setLen deferred.node deferred.tailAt))
      pure (.error error)
    | .ok () =>
      pure (.ok (deferred.hash.map fun hash => { bytes := hash.bytes ++ deferred.tail }))

/-! ## Upload sessions -/

inductive Staging where
  | missing
  | notRegular
  | ready (node len : Nat)

def prepareStaging (key : SessionKey) (create : Bool) : Call (Except StorageError Staging) := do
  if create then
    match ← act (.disk (.create key.path)) with
    | .error error => pure (.error error)
    | .ok node =>
      match ← act (.disk (.fstat node)) with
      | .error error => pure (.error error)
      | .ok _ => pure (.ok (.ready node 0))
  else
    match ← act (.disk (.stat key.path)) with
    | .error error => pure (.error error)
    | .ok none => pure (.ok .missing)
    | .ok (some (false, _)) => pure (.ok .notRegular)
    | .ok (some (true, _)) =>
      match ← act (.disk (.openFile key.path)) with
      | .error error => pure (.error error)
      | .ok node =>
        match ← act (.disk (.fstat node)) with
        | .error error => pure (.error error)
        | .ok len => pure (.ok (.ready node len))

def settleCreated (key : SessionKey) : Bool → Call Unit
  | true => do
      let _ ← act (.sessions (.takePending key))
  | false => pure ()

/-- Open the staging file of a session, creating it for a pending one. -/
def prepareSession (key : SessionKey) : Call (Except StorageError Staging) := do
  let create ← act (.sessions (.isPending key))
  match ← runBlocking (prepareStaging key create) with
  | .error error => pure (.error error)
  | .ok staging =>
    settleCreated key create
    pure (.ok staging)

/-- The part of a call that holds the session lock.  The lock is looked up for
ids that are safe components only. -/
def withSession (key : SessionKey) (body : Nat → Call (Except StorageError Result)) :
    Call (Except StorageError Result) :=
  match safeComponent key.id with
  | .error error => pure (.error error)
  | .ok _ => do
      let mutex ← act (.uploads (.get key))
      act (.uploads (.lock mutex))
      let result ← body mutex
      act (.uploads (.unlock mutex))
      act (.uploads (.forget mutex))
      pure result

/-- The hash of what is staged: the one kept with the session, or a new one for
an empty file. -/
def seedHash (taken : Option StagedHash) (current : Nat) : Option StagedHash :=
  taken.or (if current = 0 then some {} else none)

section

variable (env : Env)

def beginUpload (repo : RepositoryName) : Call (Except StorageError String) := do
  match ← act (.sessions .random) with
  | .error error => pure (.error error)
  | .ok () =>
    match ← act (.sessions (.beginSession env.limits.maxUploadSessions)) with
    | .error error => pure (.error error)
    | .ok () =>
      let id ← act (.sessions (.insertPending repo))
      pure (.ok id)

def appendReady (mutex node current : Nat) (body : UploadBody) (expectedOffset : Option Nat)
    (limit : Nat) : Call (Except StorageError Nat) := do
  match expectedOffset.filter (· ≠ current) with
  | some offset => pure (.error (.rangeNotSatisfiable current offset))
  | none =>
    let taken ← act (.uploads (.take mutex))
    match ← appendInner node current body limit (seedHash taken current) false with
    | .error error => pure (.error error)
    | .ok appended =>
      act (.uploads (.set mutex appended.hash))
      pure (.ok appended.len)

def appendUpload (key : SessionKey) (body : UploadBody) (expectedOffset : Option Nat)
    (limit : Nat) : Call (Except StorageError Nat) :=
  withSession key fun mutex => do
    match ← prepareSession key with
    | .error error => pure (.error error)
    | .ok .missing =>
      act (.uploads (.remove key))
      pure (.error .notFound)
    | .ok .notRegular => pure (.error (.io s!"upload {key.id} is not a regular file"))
    | .ok (.ready node current) => appendReady mutex node current body expectedOffset limit

def uploadSize (key : SessionKey) : Call (Except StorageError Nat) := do
  if ← act (.sessions (.isPending key)) then
    pure (.ok 0)
  else
    match safeComponent key.id with
    | .error error => pure (.error error)
    | .ok _ =>
      match ← runBlocking (act (.disk (.stat key.path))) with
      | .error error => pure (.error error)
      | .ok (some (true, size)) => pure (.ok size)
      | .ok _ => pure (.error .notFound)

/-- Whether the session was pending or had a file that could be unlinked. -/
def endPendingOr (key : SessionKey) (taken : Bool) : Call (Except StorageError Bool) := do
  if taken then pure (.ok true)
  else
    match ← runBlocking (act (.disk (.unlink key.path))) with
    | .ok () => pure (.ok true)
    | .error .notFound => pure (.ok false)
    | .error error => pure (.error error)

def saysTrue : Except StorageError Bool → Bool
  | .ok answer => answer
  | .error _ => false

def endIf : Bool → Call Unit
  | true => act (.sessions .endSession)
  | false => pure ()

def discardSession (key : SessionKey) : Call Unit := do
  let taken ← act (.sessions (.takePending key))
  let ended ← endPendingOr key taken
  endIf (saysTrue ended)
  act (.uploads (.remove key))

inductive Landed where
  | done (checksum : Option UInt32)
  | mismatch (actual : Digest)
  | rejected (error : StorageError)
  | failed (charged : Nat) (error : StorageError)

variable (session : SessionKey)

/-- The staged file takes its place, by a link from another repository or by a
rename. -/
def placeStaged (key : BlobKey) (node : Nat) :
    Call (Except StorageError Unit) := do
  if ← dedupeLinkAt env key then act (.disk (.unlink session.path))
  else renameBeneath session.path key.path node env.commit

def landVerified (key : BlobKey) (size node : Nat) (checksum : Option UInt32) : Call Landed := do
  match ← layoutAndAdmit env key size with
  | .error error => pure (.rejected error)
  | .ok charged =>
    match ← placeStaged env session key node with
    | .error error => pure (.failed charged error)
    | .ok () => pure (.done checksum)

def landBlob (key : BlobKey) (size node : Nat) :
    Option Deferred → Call Landed
  | none => landVerified env session key size node none
  | some deferred => do
      match ← writeTail deferred with
      | .error error => pure (.failed 0 error)
      | .ok none => pure (.mismatch key.digest)
      | .ok (some hash) =>
        let actual := env.digestOf hash.bytes "sha256"
        if actual ≠ key.digest then pure (.mismatch actual)
        else landVerified env session key size node (some (env.crc32c hash.bytes))

/-- A staging file that was read or hashed in full: its digest, its checksum and
its number. -/
structure Verified where
  digest : Digest
  crc32c : UInt32
  node : Nat

def finishVerify (algorithm : String) (deferred : Deferred) (covers : Bool) :
    Call (Except StorageError Verified) := do
  match ← writeTail deferred with
  | .error error => pure (.error error)
  | .ok hash =>
    match ← act (.disk (.openFile session.path)) with
    | .error error => pure (.error error)
    | .ok node =>
      match ← syncDirectory env.commit with
      | .error error => pure (.error error)
      | .ok () =>
        match hash.filter fun _ => covers with
        | some hash =>
          pure (.ok ⟨env.digestOf hash.bytes "sha256", env.crc32c hash.bytes, node⟩)
        | none =>
          match ← act (.disk (.read node)) with
          | .error error => pure (.error error)
          | .ok bytes =>
            pure (.ok ⟨env.digestOf bytes algorithm, env.crc32c bytes, node⟩)

/-- The landing of a verified upload, under the admission lock and a pin. -/
def finishLand (key : BlobKey) (size node : Nat) (deferred : Option Deferred)
    (verified : Option Verified) :
    Call (Except StorageError Unit) := do
  let lock ← act (.admissions (.get key))
  act (.admissions (.lock lock))
  act (.collector .pin)
  match ← runBlocking (landBlob env session key size node deferred) with
  | .done checksum =>
    act (.sessions .endSession)
    act (.uploads (.remove session))
    blobEntered key (some
      { crc32c := (checksum.or (verified.map Verified.crc32c)).getD 0
        size := UInt64.ofNat size })
    act (.collector .unpin)
    act (.admissions (.unlock lock))
    act (.admissions (.release key))
    act (.admissions (.forget lock))
    pure (.ok ())
  | .mismatch actual =>
    act (.collector .unpin)
    act (.admissions (.unlock lock))
    act (.admissions (.release key))
    discardSession session
    act (.admissions (.forget lock))
    pure (.error (.digestMismatch key.digest.asString actual.asString))
  | .rejected error =>
    act (.collector .unpin)
    act (.admissions (.unlock lock))
    act (.admissions (.release key))
    discardSession session
    act (.admissions (.forget lock))
    pure (.error error)
  | .failed charged error =>
    act (.collector .unpin)
    act (.quota (.release key.repo charged))
    act (.admissions (.unlock lock))
    act (.admissions (.release key))
    act (.admissions (.forget lock))
    pure (.error error)

/-- Verify what is staged and land it; the verification is part of the landing
when the hash covers all that is on disk. -/
def verifyAndLand (key : BlobKey) (node : Nat) (body : Deferred) :
    Call (Except StorageError Unit) := do
  let covers := (body.hash.any fun hash => hash.bytes.length = body.tailAt) &&
    key.digest.algorithm = "sha256"
  if covers && !env.commit then
    finishLand env session key body.len node (some body) none
  else
    match ← runBlocking (finishVerify env session key.digest.algorithm body covers) with
    | .error error => pure (.error error)
    | .ok verified =>
      if verified.digest ≠ key.digest then
        discardSession session
        pure (.error (.digestMismatch key.digest.asString verified.digest.asString))
      else finishLand env session key body.len verified.node none (some verified)

def finishReady (key : BlobKey) (mutex node current maxSize : Nat) (trailing : UploadBody)
    (limit : Nat) : Call (Except StorageError Unit) := do
  let taken ← act (.uploads (.take mutex))
  match ← appendInner node current trailing limit (seedHash taken current) true with
  | .error error => pure (.error error)
  | .ok body =>
    if maxSize < body.len then
      discardSession session
      pure (.error (.tooLarge maxSize body.len))
    else verifyAndLand env session key node body

def finishUpload (digest : Digest) (maxSize : Nat) (trailing : UploadBody) (limit : Nat) :
    Call (Except StorageError Unit) :=
  withSession session fun mutex => do
    match ← prepareSession session with
    | .error error => pure (.error error)
    | .ok .missing =>
      act (.uploads (.remove session))
      pure (.error .notFound)
    | .ok .notRegular =>
      discardSession session
      pure (.error (.badPath s!"upload {session.id} is not a regular file"))
    | .ok (.ready node current) =>
      finishReady env session ⟨session.repo, digest⟩ mutex node current maxSize trailing limit

def abortUpload (key : SessionKey) : Call (Except StorageError Bool) :=
  match safeComponent key.id with
  | .error error => pure (.error error)
  | .ok _ => do
      let mutex ← act (.uploads (.get key))
      act (.uploads (.lock mutex))
      let taken ← act (.sessions (.takePending key))
      match ← endPendingOr key taken with
      | .error error =>
        act (.uploads (.unlock mutex))
        act (.uploads (.forget mutex))
        pure (.error error)
      | .ok removed =>
        endIf removed
        act (.uploads (.unlock mutex))
        act (.uploads (.remove key))
        act (.uploads (.forget mutex))
        pure (.ok removed)

/-! ## Blobs and manifests -/

variable (key : BlobKey)

def concludeBlob (lock : Nat) (checksum : BlobChecksum) :
    Call (Except StorageError Unit) := do
  blobEntered key (some checksum)
  act (.collector .unpin)
  act (.admissions (.unlock lock))
  act (.admissions (.release key))
  act (.admissions (.forget lock))
  pure (.ok ())

def storeBlob (lock charged : Nat) (data : Bytes) :
    Call (Except StorageError Unit) := do
  act (.collector .pin)
  if ← dedupeLink env key then
    concludeBlob key lock (checksumOf env.toEnv data)
  else
    match ← runBlocking (publishBytes key.path data env.commit) with
    | .ok () => concludeBlob key lock (checksumOf env.toEnv data)
    | .error error =>
      act (.collector .unpin)
      act (.quota (.release key.repo charged))
      act (.admissions (.unlock lock))
      act (.admissions (.release key))
      act (.admissions (.forget lock))
      pure (.error error)

def putBlob (data : Bytes) : Call (Except StorageError Unit) := do
  if env.digestOf data key.digest.algorithm ≠ key.digest then
    pure (.error (.digestMismatch key.digest.asString
      (env.digestOf data key.digest.algorithm).asString))
  else
    match ← ensureLayout key.repo with
    | .error error => pure (.error error)
    | .ok () =>
      let lock ← act (.admissions (.get key))
      act (.admissions (.lock lock))
      match ← admitBlob env key data.length with
      | .error error =>
        act (.admissions (.unlock lock))
        act (.admissions (.forget lock))
        pure (.error error)
      | .ok charged => storeBlob env key lock charged data

def sizeForRelease : Call (Option Nat) := do
  if env.limits.tracksBytes then
    match ← runBlocking (act (.disk (.stat key.path))) with
    | .ok (some (true, size)) => pure (some size)
    | _ => pure none
  else pure none

def deleteBlob : Call (Except StorageError Unit) := do
  let size ← sizeForRelease env key
  match ← runBlocking (act (.disk (.unlink key.path))) with
  | .error error => pure (.error error)
  | .ok () =>
    blobLeft key size
    pure (.ok ())

inductive ManifestLanded where
  | rejected (error : StorageError)
  | failed (charged : Nat) (error : StorageError)
  | stored (missing : Option Nat) (error : Option StorageError)

def recheck (repo : RepositoryName) (position : Nat) : List Digest → Call ManifestLanded
  | [] => pure (.stored none none)
  | digest :: rest => do
      match ← act (.disk (.stat (BlobKey.path ⟨repo, digest⟩))) with
      | .ok (some (true, _)) => recheck repo (position + 1) rest
      | .ok _ => pure (.stored (some position) none)
      | .error error => pure (.stored none (some error))

/-- Put the manifest's file in place, then look for the required blobs. -/
def placeManifest (charged : Nat) (data : Bytes) (required : List Digest) :
    Call ManifestLanded := do
  if ← dedupeLinkAt env key then
    recheck key.repo 0 required
  else
    match ← publishBytes key.path data true with
    | .error error => pure (.failed charged error)
    | .ok () => recheck key.repo 0 required

def landManifest (data : Bytes) (required : List Digest) :
    Call ManifestLanded := do
  match ← layoutAndAdmit env key data.length with
  | .error error => pure (.rejected error)
  | .ok charged => placeManifest env key charged data required

def clearAll (repo : RepositoryName) : List Digest → Call Unit
  | [] => pure ()
  | digest :: rest => do
      act (.collector (.clear ⟨repo, digest⟩))
      clearAll repo rest

variable (tag : Option String)

def recordManifest (key : BlobKey) (mediaType : String) (references : List Digest)
    (referrer : Option (String × Bytes)) :
    Call (Except StorageError Unit) := do
  match ← act (.metadata (.apply (.putManifest key.repo.name key.digest.asString mediaType tag
      (references.map Digest.asString) referrer))) with
  | .error error =>
    act (.collector .unpin)
    pure (.error error)
  | .ok () =>
    act (.collector (.clear key))
    clearAll key.repo references
    act (.collector .unpin)
    pure (.ok ())

def concludeManifest (key : BlobKey) (mediaType : String) (data : Bytes) (links : ManifestLinks)
    (referrer : Option (String × Bytes)) :
    ManifestLanded → Call (Except StorageError Unit)
  | .rejected error => do
      act (.collector .unpin)
      pure (.error error)
  | .failed charged error => do
      act (.collector .unpin)
      act (.quota (.release key.repo charged))
      pure (.error error)
  | .stored missing error => do
      blobEntered key (some (checksumOf env.toEnv data))
      act (.memory (.cachePut key data))
      match error, missing with
      | some error, _ =>
        act (.collector .unpin)
        pure (.error error)
      | none, some position =>
        act (.collector .unpin)
        pure (.error (.missingReference
          ((links.required.map Digest.asString).getD position "")))
      | none, none => recordManifest tag key mediaType links.references referrer

def storeManifest (key : BlobKey) (mediaType : String) (data : Bytes) (links : ManifestLinks)
    (referrer : Option (String × Bytes)) :
    Call (Except StorageError Unit) := do
  act (.collector .pin)
  let landed ← runBlocking (landManifest env key data links.required)
  concludeManifest env tag key mediaType data links referrer landed

def putManifest (key : BlobKey) (mediaType : String) (data : Bytes) (links : ManifestLinks) :
    Call (Except StorageError Unit) :=
  match checkTag tag with
  | .error error => pure (.error error)
  | .ok () =>
    match referrerEntry env.toEnv links with
    | .error error => pure (.error error)
    | .ok referrer =>
      if env.digestOf data key.digest.algorithm = key.digest then
        storeManifest env tag key mediaType data links referrer
      else
        pure (.error (.digestMismatch key.digest.asString
          (env.digestOf data key.digest.algorithm).asString))

def readOpen (node : Nat) : Call (Except StorageError Bytes) :=
  runBlocking (act (.disk (.read node)))

def readFile : Call (Except StorageError Bytes) := do
  match ← runBlocking (act (.disk (.openFile key.path))) with
  | .error error => pure (.error error)
  | .ok node => readOpen node

def readAndCache : Call (Except StorageError Bytes) := do
  match ← readFile key with
  | .error error => pure (.error error)
  | .ok bytes =>
    act (.memory (.cachePut key bytes))
    pure (.ok bytes)

def readBlob : Call (Except StorageError Bytes) := do
  match ← act (.memory (.cacheGet key)) with
  | some bytes => pure (.ok bytes)
  | none =>
    if ← act (.memory (.maybePresent key)) then readAndCache key
    else pure (.error .notFound)

/-- The media type of a manifest; `index.json` is asked when the metadata store
does not know it. -/
def mediaTypeOf : Call (Except StorageError String) := do
  match ← act (.metadata (.mediaType key)) with
  | some mediaType => pure (.ok mediaType)
  | none =>
    let listed ← act (.metadata (.indexMediaType key))
    act .resume
    pure (listed.map fun found => found.getD mediaTypeImageManifest)

def getManifest : Call (Except StorageError (String × Bytes)) := do
  match ← mediaTypeOf key with
  | .error error => pure (.error error)
  | .ok mediaType =>
    match ← act (.memory (.cacheGet key)) with
    | some bytes => pure (.ok (mediaType, bytes))
    | none =>
      let bytes ← readAndCache key
      pure (bytes.map fun bytes => (mediaType, bytes))

/-- A blob the deleted manifest referenced becomes a candidate when nothing else
refers to it. -/
def markOrphan : Call Unit := do
  let manifests ← act (.metadata (.backrefs key))
  if manifests.isEmpty then
    if ← act (.memory (.maybePresent key)) then
      mark key

def markOrphans (repo : RepositoryName) : List Digest → Call Unit
  | [] => pure ()
  | digest :: rest => do
      markOrphan ⟨repo, digest⟩
      markOrphans repo rest

def manifestBytes : Call (Except StorageError Bytes) := do
  match ← act (.memory (.cacheGet key)) with
  | some bytes => pure (.ok bytes)
  | none => readFile key

def removeManifest (bytes : Bytes) : Call (Except StorageError Unit) := do
  match ← runBlocking (act (.disk (.unlink key.path))) with
  | .error error => pure (.error error)
  | .ok () =>
    blobLeft key (some bytes.length)
    match ← act (.metadata (.apply (.deleteManifest key.repo.name key.digest.asString))) with
    | .error error => pure (.error error)
    | .ok () =>
      markOrphans key.repo (((env.reader.parse bytes).map manifestReferences).getD [])
      pure (.ok ())

def deleteManifest : Call (Except StorageError Unit) := do
  match ← manifestBytes key with
  | .error error => pure (.error error)
  | .ok bytes => removeManifest env key bytes

def blobSize : Call (Except StorageError Nat) := do
  if ← act (.memory (.maybePresent key)) then
    wantBlob key
    match ← act (.metadata (.checksum key)) with
    | some recorded => pure (.ok recorded.size.toNat)
    | none =>
      match ← runBlocking (act (.disk (.stat key.path))) with
      | .error error => pure (.error error)
      | .ok (some (true, size)) => pure (.ok size)
      | .ok _ => pure (.error .notFound)
  else pure (.error .notFound)

def blobExists : Call (Except StorageError Bool) := do
  if ← act (.memory (.maybePresent key)) then
    wantBlob key
    let recorded ← act (.metadata (.checksum key))
    if recorded.isSome then
      pure (.ok true)
    else
      match ← runBlocking (act (.disk (.stat key.path))) with
      | .error error => pure (.error error)
      | .ok found => pure (.ok (found.any Prod.fst))
  else pure (.ok false)

/-- The part of `mount_blob` behind the admission.  The lock is given up before
its guard. -/
def mountAdmitted (source target : BlobKey) (lock charged : Nat) :
    Call (Except StorageError Bool) := do
  act (.collector .pin)
  match ← runBlocking (mountPromote source.path target.path true env.commit) with
  | .error error =>
    act (.collector .unpin)
    act (.quota (.release target.repo charged))
    act (.admissions (.release target))
    act (.admissions (.unlock lock))
    act (.admissions (.forget lock))
    pure (.error error)
  | .ok _ =>
    let checksum ← act (.metadata (.checksum source))
    blobEntered target checksum
    act (.collector .unpin)
    act (.admissions (.release target))
    act (.admissions (.unlock lock))
    act (.admissions (.forget lock))
    pure (.ok true)

def mountFrom (source target : BlobKey) (size : Nat) : Call (Except StorageError Bool) := do
  match ← ensureLayout target.repo with
  | .error error => pure (.error error)
  | .ok () =>
    let lock ← act (.admissions (.get target))
    act (.admissions (.lock lock))
    match ← admitBlob env target size with
    | .error error =>
      act (.admissions (.release target))
      act (.admissions (.unlock lock))
      act (.admissions (.forget lock))
      pure (.error error)
    | .ok charged => mountAdmitted env source target lock charged

def mountBlob (fromRepo toRepo : RepositoryName) (digest : Digest) :
    Call (Except StorageError Bool) := do
  match ← blobSize ⟨fromRepo, digest⟩ with
  | .error .notFound => pure (.ok false)
  | .error error => pure (.error error)
  | .ok size =>
    if fromRepo = toRepo then
      act (.memory (.insertPresence ⟨toRepo, digest⟩))
      pure (.ok true)
    else mountFrom env ⟨fromRepo, digest⟩ ⟨toRepo, digest⟩ size

/-! ## Sweeps -/

def sweepBatchSize : Nat := 256

/-- `slice::chunks`, of a list no longer than `fuel`. -/
def chunked {Item : Type} (size : Nat) : Nat → List Item → List (List Item)
  | 0, _ => []
  | _ + 1, [] => []
  | fuel + 1, first :: rest =>
    (first :: rest).take size :: chunked size fuel ((first :: rest).drop size)

def collectCandidate : Call Unit := do
  match ← runBlocking (act (.disk (.stat key.path))) with
  | .error .notFound => act (.collector (.clear key))
  | .error _ => pure ()
  | .ok (some (true, size)) =>
    match ← runBlocking (act (.disk (.unlink key.path))) with
    | .ok () => blobLeft key (some size)
    | .error .notFound => act (.collector (.clear key))
    | .error _ => pure ()
  | .ok _ => act (.collector (.clear key))

/-- Unlink one candidate, unless a check under the fence speaks against it. -/
def sweepCandidate (now : Nat) (key : BlobKey) : Call Unit := do
  if ← act (.collector (.isDue key now)) then
    if ← act (.collector (.isRoot key)) then
      act (.collector (.clear key))
    else if ← act (.collector (.isUnsafe key.repo)) then
      pure ()
    else
      let manifests ← act (.metadata (.backrefs key))
      if manifests.isEmpty then
        let mediaType ← act (.metadata (.mediaType key))
        if mediaType.isSome then act (.collector (.clear key))
        else collectCandidate key
      else act (.collector (.clear key))

def sweepBatch (now : Nat) : List BlobKey → Call Unit
  | [] => pure ()
  | key :: rest => do
      sweepCandidate now key
      sweepBatch now rest

def sweepBatches (now : Nat) : List (List BlobKey) → Call Unit
  | [] => pure ()
  | batch :: rest => do
      act (.collector .exclusive)
      sweepBatch now batch
      act (.collector .release)
      sweepBatches now rest

def sweepExpired (key : SessionKey) : Call Unit :=
  match safeComponent key.id with
  | .error _ => pure ()
  | .ok _ => do
      let mutex ← act (.uploads (.get key))
      if ← act (.uploads (.tryLock mutex)) then
        let taken ← act (.sessions (.takePending key))
        endIf taken
        act (.uploads (.unlock mutex))
        act (.uploads (.remove key))
        act (.uploads (.forget mutex))
      else act (.uploads (.forget mutex))

def stillStale (key : SessionKey) : Call Bool := do
  match ← runBlocking (act (.disk (.stat key.path))) with
  | .ok (some (true, _)) => act (.sessions (.isStale key))
  | _ => pure false

def unlinkStale (key : SessionKey) : Bool → Call Unit
  | false => pure ()
  | true => do
      let unlinked ← runBlocking (act (.disk (.unlink key.path)))
      endIf unlinked.isOk

def sweepStale (key : SessionKey) : Call Unit :=
  match safeComponent key.id with
  | .error _ => pure ()
  | .ok _ => do
      let mutex ← act (.uploads (.get key))
      if ← act (.uploads (.tryLock mutex)) then
        let stale ← stillStale key
        unlinkStale key stale
        act (.uploads (.unlock mutex))
        act (.uploads (.remove key))
        act (.uploads (.forget mutex))
      else act (.uploads (.forget mutex))

def forEach {Item : Type} (body : Item → Call Unit) : List Item → Call Unit
  | [] => pure ()
  | item :: rest => do
      body item
      forEach body rest

def sweepStaleUploads : Call Unit := do
  let stale ← runBlocking (act (.sessions .listStale))
  let expired ← act (.sessions .listExpired)
  forEach sweepExpired expired
  forEach sweepStale stale

def sweepAt (now : Nat) : Call Unit := do
  if ← act (.collector .isReady) then
    let due ← act (.collector (.due now))
    sweepBatches now (chunked sweepBatchSize due.length due)
    sweepStaleUploads

/-! ## The check at the start -/

/-- What the walk over the root manifests writes down. -/
inductive Finding where
  | edges (repo : RepositoryName) (manifest : String) (blobs : List String)
  | root (key : BlobKey)
  | unsafeRepo (repo : RepositoryName)

def noteFinding : Finding → Call Unit
  | .edges repo manifest blobs => do
      let _ ← act (.metadata (.apply (.putBackrefs repo.name manifest blobs)))
      act .resume
  | .root key => act (.collector (.addRoot key))
  | .unsafeRepo repo => act (.collector (.markUnsafe repo))

/-- Make a blob a candidate, stamped with the time read before the walk, when
nothing speaks for it. -/
def seedCandidate (now : Nat) (key : BlobKey) : Call Unit := do
  let mediaType ← act (.metadata (.mediaType key))
  if mediaType.isNone then
    let isRoot ← act (.collector (.isRoot key))
    if !isRoot then
      let manifests ← act (.metadata (.backrefs key))
      if manifests.isEmpty then
        act (.collector (.markAt key now))

/-- `gc_consistency_check`, for any sequence of findings of the walk, and the
`set_ready` behind it. -/
def gcConsistencyCheck (findings : List Finding) : Call Unit := do
  forEach noteFinding findings
  let now ← act (.collector .now)
  let blobs ← act .listBlobs
  forEach (seedCandidate now) blobs
  act .resume
  act (.collector .setReady)

end

/-! ## All calls -/

inductive Request where
  | beginUpload (repo : RepositoryName)
  | appendUpload (key : SessionKey) (body : UploadBody) (expectedOffset : Option Nat)
      (limit : Nat)
  | uploadSize (key : SessionKey)
  | finishUpload (key : SessionKey) (digest : Digest) (maxSize : Nat) (trailing : UploadBody)
      (limit : Nat)
  | abortUpload (key : SessionKey)
  | putBlob (key : BlobKey) (data : Bytes)
  | deleteBlob (key : BlobKey)
  | putManifest (tag : Option String) (key : BlobKey) (mediaType : String) (data : Bytes)
      (links : ManifestLinks)
  | getManifest (key : BlobKey)
  | readBlob (key : BlobKey)
  | deleteManifest (key : BlobKey)
  | mountBlob (fromRepo toRepo : RepositoryName) (digest : Digest)
  | blobExists (key : BlobKey)
  | sweepAt (now : Nat)
  | sweepStaleUploads
  | gcConsistencyCheck (findings : List Finding)

inductive Answer where
  | done
  | flag (value : Bool)
  | size (value : Nat)
  | session (id : String)
  | bytes (data : Bytes)
  | manifest (mediaType : String) (data : Bytes)
deriving DecidableEq

abbrev Reply := Except StorageError Answer

def answering (call : Call (Except StorageError Result)) (answer : Result → Answer) :
    Call Reply := do
  let result ← call
  pure (result.map answer)

def concluding (call : Call Unit) : Call Reply := do
  call
  pure (.ok .done)

def code (env : Env) : Request → Call Reply
  | .beginUpload repo => answering (beginUpload env repo) .session
  | .appendUpload key body expectedOffset limit =>
    answering (appendUpload key body expectedOffset limit) .size
  | .uploadSize key => answering (uploadSize key) .size
  | .finishUpload key digest maxSize trailing limit =>
    answering (finishUpload env key digest maxSize trailing limit) fun _ => .done
  | .abortUpload key => answering (abortUpload key) .flag
  | .putBlob key data => answering (putBlob env key data) fun _ => .done
  | .deleteBlob key => answering (deleteBlob env key) fun _ => .done
  | .putManifest tag key mediaType data links =>
    answering (putManifest env tag key mediaType data links) fun _ => .done
  | .getManifest key => answering (getManifest key) fun found => .manifest found.1 found.2
  | .readBlob key => answering (readBlob key) .bytes
  | .deleteManifest key => answering (deleteManifest env key) fun _ => .done
  | .mountBlob fromRepo toRepo digest => answering (mountBlob env fromRepo toRepo digest) .flag
  | .blobExists key => answering (blobExists key) .flag
  | .sweepAt now => concluding (sweepAt now)
  | .sweepStaleUploads => concluding sweepStaleUploads
  | .gcConsistencyCheck findings => concluding (gcConsistencyCheck findings)

/-- Any number of calls side by side, each keeping notes.  A call that is dropped
gives back its locks and pins; a job handed to the blocking pool is carried out. -/
def store {Notes : Type} (env : Env)
    (observe : Notes → (action : Action) → Response action → Notes) (idle : Notes)
    (detach : Notes → Notes) : Machine World Request Action Response Reply Notes Choice where
  code := code env
  perform := perform env.reader
  observe := observe
  idle := idle
  detach := detach
  blocking action := !action.waits
  awaits := Action.awaits
  abandon := World.abandon

end Roci.Filesystem
