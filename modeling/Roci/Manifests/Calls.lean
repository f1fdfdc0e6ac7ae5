import Roci.Manifests.World

/-!
# The storage calls on a repository's blobs and manifests

Each call is written down as the source performs it, one action after the
other.  A push holds the fence from before its file lands until its record is
written and its candidates are cleared; a sweep takes the fence for itself, one
batch at a time; a deletion takes no fence at all.
-/

namespace Roci.Manifests

open Roci.Library Roci.Storage Roci.Metadata Roci.Layout
open Program (meets_act meets_bind performs_act)

/-- What comes from elsewhere: the JSON reader, CRC-32C and the content hash. -/
structure Env where
  reader : JsonReader
  crc32c : Bytes → UInt32
  digestOf : Bytes → String → Digest

/-- An empty JSON object is all that is hashed. -/
def objectBodies : Env where
  reader := JsonText.reader
  crc32c := crc32c
  digestOf _ _ := .ofObject

abbrev Call (Result : Type) := Program Action Response Result

abbrev act (action : Action) : Call (Response action) := Program.act action

/-- The landing of a manifest: refused before anything is written, failed, or
stored with the first required blob that is missing. -/
inductive ManifestLanded where
  | rejected (error : StorageError)
  | failed (error : StorageError)
  | stored (missing : Option Nat) (error : Option StorageError)

section

variable (env : Env) (repo : String)

def recordChecksum (digest : String) : Option BlobChecksum → Call Unit
  | none => pure ()
  | some found => do
      let recorded ← act (.checksum digest)
      if recorded ≠ some found then
        let _ ← act (.applyRelaxed (.putChecksum repo digest found.crc32c found.size))

variable (digest : Digest)

/-- A blob nothing refers to, and that is no manifest, becomes a candidate. -/
def markNewcomer : Call Unit := do
  let manifests ← act (.backrefs digest.asString)
  if manifests.isEmpty then
    let mediaType ← act (.manifestMediaType digest.asString)
    if mediaType.isNone then
      act (.mark digest)

def blobEntered (checksum : Option BlobChecksum) : Call Unit := do
  recordChecksum repo digest.asString checksum
  markNewcomer digest

def blobLeft (digest : String) : Call Unit := do
  act (.cacheInvalidate digest)
  act (.clear digest)
  let recorded ← act (.checksum digest)
  if recorded.isSome then
    let _ ← act (.applyRelaxed (.deleteBlob repo digest))

def checksumOf (data : Bytes) : BlobChecksum where
  crc32c := env.crc32c data
  size := UInt64.ofNat data.length

def recheck (position : Nat) : List String → Call ManifestLanded
  | [] => pure (.stored none none)
  | digest :: rest => do
      match ← act (.stat digest) with
      | .ok (some _) => recheck (position + 1) rest
      | .ok none => pure (.stored (some position) none)
      | .error error => pure (.stored none (some error))

/-- `land_manifest`: layout and quota, the file, then the required blobs. -/
def landManifest (digest : String) (data : Bytes) (required : List String) :
    Call ManifestLanded := do
  match ← act (.layoutAndAdmit data.length) with
  | .error error => pure (.rejected error)
  | .ok () =>
    if ← act (.dedupeLink digest) then
      recheck 0 required
    else
      match ← act (.publishBytes digest data) with
      | .error error => pure (.failed error)
      | .ok () => recheck 0 required

def clearAll : List String → Call Unit
  | [] => pure ()
  | digest :: rest => do
      act (.clear digest)
      clearAll rest

variable (tag : Option String)

def recordManifest (digest mediaType : String) (data : Bytes) (references : List String)
    (referrer : Option (String × Bytes)) :
    Call (Except StorageError Unit) := do
  match ← act (.apply (.putManifest repo digest mediaType tag references referrer) data) with
  | .error error =>
    act .unpin
    pure (.error error)
  | .ok () =>
    act (.clear digest)
    clearAll references
    act .unpin
    pure (.ok ())

def concludeManifest (digest : Digest) (mediaType : String) (data : Bytes) (links : ManifestLinks)
    (referrer : Option (String × Bytes)) :
    ManifestLanded → Call (Except StorageError Unit)
  | .rejected error => do
      act .unpin
      pure (.error error)
  | .failed error => do
      act .unpin
      pure (.error error)
  | .stored missing error => do
      blobEntered repo digest (some (checksumOf env data))
      act (.cachePut digest.asString data)
      match error, missing with
      | some error, _ =>
        act .unpin
        pure (.error error)
      | none, some position =>
        act .unpin
        pure (.error (.missingReference
          ((links.required.map Digest.asString).getD position "")))
      | none, none =>
        recordManifest repo tag digest.asString mediaType data
          (links.references.map Digest.asString) referrer

def storeManifest (digest : Digest) (mediaType : String) (data : Bytes) (links : ManifestLinks)
    (referrer : Option (String × Bytes)) :
    Call (Except StorageError Unit) := do
  act .pin
  let landed ← landManifest digest.asString data (links.required.map Digest.asString)
  concludeManifest env repo tag digest mediaType data links referrer landed

def checkTag : Option String → Except StorageError Unit
  | none => .ok ()
  | some tag => (safeComponent tag).map fun _ => ()

def referrerEntry (links : ManifestLinks) : Except StorageError (Option (String × Bytes)) :=
  match links.subject with
  | none => .ok none
  | some (subject, descriptor) =>
    (mergeSubject env.reader subject descriptor).map fun merged =>
      some (subject.asString, merged)

def putManifest (digest : Digest) (mediaType : String) (data : Bytes) (links : ManifestLinks) :
    Call (Except StorageError Unit) :=
  match checkTag tag with
  | .error error => pure (.error error)
  | .ok () =>
    match referrerEntry env links with
    | .error error => pure (.error error)
    | .ok referrer =>
      if env.digestOf data digest.algorithm = digest then
        storeManifest env repo tag digest mediaType data links referrer
      else
        pure (.error (.digestMismatch digest.asString
          (env.digestOf data digest.algorithm).asString))

/-- A blob the deleted manifest referenced becomes a candidate when nothing
else refers to it. -/
def markOrphan : Call Unit := do
  let manifests ← act (.backrefs digest.asString)
  if manifests.isEmpty then
    if ← act (.maybePresent digest.asString) then
      act (.mark digest)

def markOrphans : List Digest → Call Unit
  | [] => pure ()
  | digest :: rest => do
      markOrphan digest
      markOrphans rest

def manifestBytes (digest : String) : Call (Except StorageError Bytes) := do
  match ← act (.cacheGet digest) with
  | some bytes => pure (.ok bytes)
  | none => act (.readFile digest)

def removeManifest (bytes : Bytes) : Call (Except StorageError Unit) := do
  match ← act (.unlink digest.asString) with
  | .error error => pure (.error error)
  | .ok () =>
    blobLeft repo digest.asString
    match ← act (.apply (.deleteManifest repo digest.asString) []) with
    | .error error => pure (.error error)
    | .ok () =>
      markOrphans (((env.reader.parse bytes).map manifestReferences).getD [])
      pure (.ok ())

def deleteManifest : Call (Except StorageError Unit) := do
  match ← manifestBytes digest.asString with
  | .error error => pure (.error error)
  | .ok bytes => removeManifest env repo digest bytes

/-- Put a blob in place under the pin, by a link from another repository or as
`place` does. -/
def landBlob (place : Call (Except StorageError Unit)) (checksum : BlobChecksum) :
    Call (Except StorageError Unit) := do
  if ← act (.dedupeLink digest.asString) then
    blobEntered repo digest (some checksum)
    act .unpin
    pure (.ok ())
  else
    match ← place with
    | .error error =>
      act .unpin
      pure (.error error)
    | .ok () =>
      blobEntered repo digest (some checksum)
      act .unpin
      pure (.ok ())

def putBlob (data : Bytes) : Call (Except StorageError Unit) := do
  if env.digestOf data digest.algorithm = digest then
    match ← act (.layoutAndAdmit data.length) with
    | .error error => pure (.error error)
    | .ok () =>
      act .pin
      landBlob repo digest (act (.publishBytes digest.asString data))
        (checksumOf env data)
  else
    pure (.error (.digestMismatch digest.asString
      (env.digestOf data digest.algorithm).asString))

/-- The landing of `finish_upload`, for a session whose verified file holds
`staged`.  After a link from another repository the staging file is unlinked. -/
def finishUpload (staged : Bytes) : Call (Except StorageError Unit) := do
  act .pin
  match ← act (.layoutAndAdmit staged.length) with
  | .error error =>
    act .unpin
    pure (.error error)
  | .ok () =>
    if ← act (.dedupeLink digest.asString) then
      match ← act .unlinkStaged with
      | .error error =>
        act .unpin
        pure (.error error)
      | .ok () =>
        blobEntered repo digest (some (checksumOf env staged))
        act .unpin
        pure (.ok ())
    else
      match ← act (.renameStaged digest.asString staged) with
      | .error error =>
        act .unpin
        pure (.error error)
      | .ok () =>
        blobEntered repo digest (some (checksumOf env staged))
        act .unpin
        pure (.ok ())

def wantBlob (digest : String) : Call Unit := do
  act .pin
  act (.touch digest)
  act .unpin

/-- `mount_blob` from another repository; `false` when that has no such blob. -/
def mountBlob : Call (Except StorageError Bool) := do
  act .pin
  act .unpin
  match ← act (.sourceSize digest.asString) with
  | .error .notFound => pure (.ok false)
  | .error error => pure (.error error)
  | .ok size =>
    match ← act (.layoutAndAdmit size) with
    | .error error => pure (.error error)
    | .ok () =>
      act .pin
      match ← act (.mountPromote digest.asString) with
      | .error error =>
        act .unpin
        pure (.error error)
      | .ok () =>
        let checksum ← act (.sourceChecksum digest.asString)
        blobEntered repo digest checksum
        act .unpin
        pure (.ok true)

def blobExists : Call (Except StorageError Bool) := do
  if ← act (.maybePresent digest.asString) then
    wantBlob digest.asString
    let recorded ← act (.checksum digest.asString)
    if recorded.isSome then
      pure (.ok true)
    else
      match ← act (.stat digest.asString) with
      | .error error => pure (.error error)
      | .ok found => pure (.ok found.isSome)
  else
    pure (.ok false)

def sweepBatchSize : Nat := 256

/-- `slice::chunks`, of a list no longer than `fuel`. -/
def chunks (size : Nat) : Nat → List String → List (List String)
  | 0, _ => []
  | _ + 1, [] => []
  | fuel + 1, first :: rest =>
    (first :: rest).take size :: chunks size fuel ((first :: rest).drop size)

/-- Unlink one candidate, unless a check under the fence speaks against it. -/
def sweepCandidate (now : Nat) (digest : String) : Call Unit := do
  if ← act (.isDue digest now) then
    if ← act (.isRoot digest) then
      act (.clear digest)
    else if ← act .isUnsafe then
      pure ()
    else
      let manifests ← act (.backrefs digest)
      if manifests.isEmpty then
        let mediaType ← act (.manifestMediaType digest)
        if mediaType.isSome then
          act (.clear digest)
        else
          match Digest.parse digest with
          | .error _ => act (.clear digest)
          | .ok parsed =>
            match ← act (.stat parsed.asString) with
            | .error .notFound => act (.clear digest)
            | .error _ => pure ()
            | .ok none => act (.clear digest)
            | .ok (some _) =>
              match ← act (.unlink parsed.asString) with
              | .ok () => blobLeft repo digest
              | .error .notFound => act (.clear digest)
              | .error _ => pure ()
      else
        act (.clear digest)

def sweepBatch (now : Nat) : List String → Call Unit
  | [] => pure ()
  | digest :: rest => do
      sweepCandidate repo now digest
      sweepBatch now rest

def sweepBatches (now : Nat) : List (List String) → Call Unit
  | [] => pure ()
  | batch :: rest => do
      act .exclusive
      sweepBatch repo now batch
      act .release
      sweepBatches now rest

/-- `sweep_at`, up to the sweep of stale uploads. -/
def sweepAt (now : Nat) : Call Unit := do
  if ← act .isReady then
    let due ← act (.due now)
    sweepBatches repo now (chunks sweepBatchSize due.length due)

end

inductive Request where
  | putManifest (tag : Option String) (digest : Digest) (mediaType : String) (data : Bytes)
      (links : ManifestLinks)
  | deleteManifest (digest : Digest)
  | putBlob (digest : Digest) (data : Bytes)
  | finishUpload (digest : Digest) (staged : Bytes)
  | mountBlob (digest : Digest)
  | blobExists (digest : Digest)
  | sweepAt (now : Nat)

abbrev Reply := Except StorageError Bool

def code (env : Env) (repo : String) : Request → Call Reply
  | .putManifest tag digest mediaType data links => do
      let result ← putManifest env repo tag digest mediaType data links
      pure (result.map fun _ => true)
  | .deleteManifest digest => do
      let result ← deleteManifest env repo digest
      pure (result.map fun _ => true)
  | .putBlob digest data => do
      let result ← putBlob env repo digest data
      pure (result.map fun _ => true)
  | .finishUpload digest staged => do
      let result ← finishUpload env repo digest staged
      pure (result.map fun _ => true)
  | .mountBlob digest => mountBlob repo digest
  | .blobExists digest => blobExists digest
  | .sweepAt now => do
      sweepAt repo now
      pure (.ok true)

/-- The calls on one repository; none of them is dropped. -/
def machine (env : Env) (repo : String) :
    Machine World Request Action Response Reply Notes Choice where
  code := code env repo
  perform := perform env.reader repo
  observe := observe
  idle := {}
  detach _ := {}
  blocking _ := false
  awaits _ := false
  abandon world _ := world

/-- A call performs some actions in a row, none of which fails. -/
def runs (thread steps : Nat) : List (Event Request Choice) := List.replicate steps (.run thread {})

/-! ## Bookkeeping -/

/-- Actions a call may perform at any time: those that touch neither a file nor
the fence nor a manifest record. -/
def Action.bookkeeping : Action → Bool
  | .applyRelaxed (.putChecksum ..) => true
  | .applyRelaxed (.deleteBlob ..) => true
  | action => action.quiet

variable {checksum : Option BlobChecksum} {now : Nat}

section

variable {discipline : Discipline Action Response Notes} {repo : String} {notes : Notes}
  {post : Unit → Notes → Prop}

section

variable (books : ∀ notes action, action.bookkeeping = true → discipline.allowed notes action)

include books

theorem meets_blobEntered {digest : Digest}
    (ends : ∀ unreferenced, post () { notes with unreferenced := unreferenced }) :
    (blobEntered repo digest checksum).Meets observe discipline notes post := by
  have marks : (markNewcomer digest).Meets observe discipline notes post := by
    unfold markNewcomer
    simp only [meets_bind, meets_act]
    refine ⟨books _ _ rfl, fun manifests _ => ?_⟩
    split
    · simp only [meets_bind, meets_act]
      refine ⟨books _ _ rfl, fun mediaType _ => ?_⟩
      split
      · exact ⟨books _ _ rfl, fun _ _ => ends _⟩
      · exact ends _
    · exact ends _
  unfold blobEntered
  rw [meets_bind]
  rcases checksum with _ | found
  · exact marks
  simp only [recordChecksum, meets_bind, meets_act]
  refine ⟨books _ _ rfl, fun recorded _ => ?_⟩
  split
  · simp only [meets_bind, meets_act]
    exact ⟨books _ _ rfl, fun _ _ => marks⟩
  · exact marks

theorem meets_blobLeft {digest : String}
    (ends : post () notes) : (blobLeft repo digest).Meets observe discipline notes post := by
  unfold blobLeft
  simp only [meets_bind, meets_act]
  refine ⟨books _ _ rfl, fun _ _ => ⟨books _ _ rfl, fun _ _ => ⟨books _ _ rfl,
    fun recorded _ => ?_⟩⟩⟩
  split
  · simp only [meets_bind, meets_act]
    exact ⟨books _ _ rfl, fun _ _ => ends⟩
  · exact ends

theorem meets_clearAll {digests : List String}
    (ends : post () notes) : (clearAll digests).Meets observe discipline notes post := by
  induction digests with
  | nil => exact ends
  | cons first rest ih =>
    simp only [clearAll, meets_bind, meets_act]
    exact ⟨books _ _ rfl, fun _ _ => ih⟩

theorem meets_markOrphans {digests : List Digest}
    (ends : ∀ unreferenced, post () { notes with unreferenced := unreferenced }) :
    (markOrphans digests).Meets observe discipline notes post := by
  induction digests generalizing notes with
  | nil => exact ends notes.unreferenced
  | cons first rest ih =>
    simp only [markOrphans, markOrphan, meets_bind, meets_act]
    refine ⟨books _ _ rfl, fun manifests _ => ?_⟩
    split
    · simp only [meets_bind, meets_act]
      refine ⟨books _ _ rfl, fun present _ => ?_⟩
      split
      · exact ⟨books _ _ rfl, fun _ _ => ih ends⟩
      · exact ih ends
    · exact ih ends

theorem meets_recheck {position : Nat} {required : List String}
    {post : ManifestLanded → Notes → Prop}
    (ends : ∀ vouched, (∀ digest ∈ required, digest ∈ vouched) →
      (∀ digest ∈ notes.vouched, digest ∈ vouched) →
      post (.stored none none) { notes with vouched := vouched })
    (fails : ∀ reached digest response, discipline.expected reached (.stat digest) response →
      (∀ size, response ≠ .ok (some size)) → ∀ missing error vouched,
      (missing.isSome ∨ error.isSome) →
      post (.stored missing error) { notes with vouched := vouched }) :
    (recheck position required).Meets observe discipline notes post := by
  induction required generalizing position notes with
  | nil => exact ends notes.vouched (by simp) (by simp)
  | cons first rest ih =>
    simp only [recheck, meets_bind, meets_act]
    refine ⟨books _ _ rfl, fun found expected => ?_⟩
    rcases found with error | _ | size
    · exact fails _ first _ expected (by simp) none (some error) notes.vouched (.inr rfl)
    · exact fails _ first _ expected (by simp) (some position) none notes.vouched (.inl rfl)
    refine ih ?_ fails
    intro vouched every kept
    refine ends vouched ?_ fun digest membership => kept digest (List.mem_cons_of_mem _ membership)
    intro digest membership
    rcases List.mem_cons.mp membership with rfl | later
    · exact kept digest List.mem_cons_self
    · exact every digest later

end

/-! ## Sweeps -/

theorem mem_of_mem_chunks {size fuel : Nat} {batch texts : List String}
    (listed : batch ∈ chunks size fuel texts) : ∀ text ∈ batch, text ∈ texts := by
  induction fuel generalizing texts with
  | zero => cases listed
  | succ fuel ih =>
    rcases texts with _ | ⟨first, rest⟩
    · cases listed
    rcases List.mem_cons.mp listed with rfl | later
    · exact fun text membership => List.mem_of_mem_take membership
    exact fun text membership =>
      List.mem_of_mem_drop (ih later text membership)

section

variable (books : ∀ notes action, action.bookkeeping = true → discipline.allowed notes action)
  (unlinks : ∀ (notes : Notes) (digest : Digest), notes.exclusive = true →
    notes.unreferenced = some digest.asString →
    (∃ before, discipline.expected before (.isRoot digest.asString) false) →
    (∃ before, discipline.expected before .isUnsafe false) →
    (∃ before, discipline.expected before (.backrefs digest.asString) []) →
    (∃ before, discipline.expected before (.manifestMediaType digest.asString) none) →
    discipline.allowed notes (.unlink digest.asString))

include books unlinks

/-- A candidate is unlinked under the fence, when all four questions about it
have been answered against it. -/
theorem meets_sweepCandidate {digest : Digest} (exclusive : notes.exclusive = true)
    (ends : ∀ reached : Notes, reached.exclusive = true → post () reached) :
    (sweepCandidate repo now digest.asString).Meets observe discipline notes post := by
  unfold sweepCandidate
  simp only [Digest.parse_asString, meets_bind, meets_act]
  refine ⟨books _ _ rfl, fun due _ => ?_⟩
  split
  · simp only [meets_bind, meets_act]
    refine ⟨books _ _ rfl, fun root rooted => ?_⟩
    split
    · exact ⟨books _ _ rfl, fun _ _ => ends _ exclusive⟩
    rename_i notRoot
    simp only [meets_bind, meets_act]
    refine ⟨books _ _ rfl, fun skipped guarded => ?_⟩
    split
    · exact ends _ exclusive
    rename_i safe
    simp only [meets_bind, meets_act]
    refine ⟨books _ _ rfl, fun manifests referenced => ?_⟩
    split
    · rename_i unreferenced
      simp only [meets_bind, meets_act]
      refine ⟨books _ _ rfl, fun mediaType recorded => ?_⟩
      split
      · exact ⟨books _ _ rfl, fun _ _ => ends _ exclusive⟩
      rename_i unrecorded
      simp only [meets_bind, meets_act]
      refine ⟨books _ _ rfl, fun found _ => ?_⟩
      split
      · exact ⟨books _ _ rfl, fun _ _ => ends _ exclusive⟩
      · exact ends _ exclusive
      · exact ⟨books _ _ rfl, fun _ _ => ends _ exclusive⟩
      rw [Bool.not_eq_true] at notRoot safe
      rw [Bool.not_eq_true, Option.isSome_eq_false_iff, Option.isNone_iff_eq_none] at unrecorded
      subst notRoot safe unrecorded
      cases List.isEmpty_iff.mp unreferenced
      simp only [meets_bind, meets_act]
      refine ⟨unlinks _ digest exclusive rfl ⟨_, rooted⟩ ⟨_, guarded⟩ ⟨_, referenced⟩
        ⟨_, recorded⟩, fun unlinked _ => ?_⟩
      split
      · exact meets_blobLeft books (ends _ exclusive)
      · exact ⟨books _ _ rfl, fun _ _ => ends _ exclusive⟩
      · exact ends _ exclusive
    · exact ⟨books _ _ rfl, fun _ _ => ends _ exclusive⟩
  · exact ends _ exclusive

theorem meets_sweepBatch {batch : List String}
    (digests : ∀ text ∈ batch, ∃ digest : Digest, text = digest.asString)
    (exclusive : notes.exclusive = true)
    (ends : ∀ reached : Notes, reached.exclusive = true → post () reached) :
    (sweepBatch repo now batch).Meets observe discipline notes post := by
  induction batch generalizing notes with
  | nil => exact ends _ exclusive
  | cons text rest ih =>
    rw [List.forall_mem_cons] at digests
    obtain ⟨⟨digest, rfl⟩, others⟩ := digests
    rw [sweepBatch, meets_bind]
    exact meets_sweepCandidate books unlinks exclusive fun reached still => ih others still

variable (excludes : ∀ notes, discipline.allowed notes .exclusive)
  (releases : ∀ notes : Notes, notes.exclusive = true → discipline.allowed notes .release)

include excludes releases

theorem meets_sweepBatches {batches : List (List String)}
    (digests : ∀ batch ∈ batches, ∀ text ∈ batch, ∃ digest : Digest, text = digest.asString) :
    (sweepBatches repo now batches).Meets observe discipline notes fun _ _ => True := by
  induction batches generalizing notes with
  | nil => trivial
  | cons batch rest ih =>
    rw [List.forall_mem_cons] at digests
    simp only [sweepBatches, meets_bind, meets_act]
    exact ⟨excludes _, fun _ _ => meets_sweepBatch books unlinks digests.1 rfl
      fun reached still => ⟨releases _ still, fun _ _ => ih digests.2⟩⟩

theorem meets_sweepAt
    (listed : ∀ notes now texts, discipline.expected notes (.due now) texts →
      ∀ text ∈ texts, ∃ digest : Digest, text = digest.asString) :
    (sweepAt repo now).Meets observe discipline notes fun _ _ => True := by
  simp only [sweepAt, meets_bind, meets_act]
  refine ⟨books _ _ rfl, fun ready _ => ?_⟩
  split
  · rw [meets_bind]
    exact ⟨books _ _ rfl, fun texts expected =>
      meets_sweepBatches books unlinks excludes releases fun batch chunk text membership =>
        listed _ _ _ expected text (mem_of_mem_chunks chunk text membership)⟩
  · trivial

end

end

/-! ## Calls that bring a blob in or look for one -/

/-- Actions that remove no file, write no manifest record and do not take the
fence for themselves. -/
def Entering : Action → Prop
  | .pin | .unpin | .dedupeLink _ | .publishBytes _ _ | .renameStaged _ _ | .mountPromote _ => True
  | action => action.bookkeeping = true

theorem Entering.of_books {action : Action} (books : action.bookkeeping = true) :
    Entering action := by
  cases action with
  | pin | unpin | dedupeLink | publishBytes | renameStaged | mountPromote => trivial
  | _ => exact books

section

variable {env : Env} {repo : String} {digest : Digest} {Result : Type} {result : Result}

theorem entering_blobEntered : (blobEntered repo digest checksum).Performs Entering := by
  have marks : (markNewcomer digest).Performs Entering := by
    refine .act_bind rfl fun manifests => ?_
    split
    · refine .act_bind rfl fun mediaType => ?_
      split
      · exact performs_act.mpr rfl
      · trivial
    · trivial
  refine .bind ?_ fun _ => marks
  rcases checksum with _ | found
  · trivial
  refine .act_bind rfl fun recorded => ?_
  split
  · exact .act_bind rfl fun _ => trivial
  · trivial

theorem entering_unpin : (act .unpin >>= fun _ => pure result : Call Result).Performs Entering :=
  .act_bind trivial fun _ => trivial

theorem entering_entered :
    (do
      blobEntered repo digest checksum
      act .unpin
      pure result : Call Result).Performs Entering :=
  .bind entering_blobEntered fun _ => entering_unpin

theorem entering_putBlob {data : Bytes} : (putBlob env repo digest data).Performs Entering := by
  unfold putBlob
  split
  · refine .act_bind rfl fun admitted => ?_
    rcases admitted with error | _
    · trivial
    refine .act_bind trivial fun _ => .act_bind trivial fun linked => ?_
    split
    · exact entering_entered
    refine .act_bind trivial fun written => ?_
    rcases written with error | _
    · exact entering_unpin
    · exact entering_entered
  · trivial

theorem entering_finishUpload {staged : Bytes} :
    (finishUpload env repo digest staged).Performs Entering := by
  refine .act_bind trivial fun _ => .act_bind rfl fun admitted => ?_
  rcases admitted with error | _
  · exact entering_unpin
  refine .act_bind trivial fun linked => ?_
  split
  · refine .act_bind rfl fun unlinked => ?_
    rcases unlinked with error | _
    · exact entering_unpin
    · exact entering_entered
  refine .act_bind trivial fun renamed => ?_
  rcases renamed with error | _
  · exact entering_unpin
  · exact entering_entered

theorem entering_mountBlob : (mountBlob repo digest).Performs Entering := by
  refine .act_bind trivial fun _ => .act_bind trivial fun _ => .act_bind rfl fun size => ?_
  split
  · trivial
  · trivial
  refine .act_bind rfl fun admitted => ?_
  rcases admitted with error | _
  · trivial
  refine .act_bind trivial fun _ => .act_bind trivial fun promoted => ?_
  rcases promoted with error | _
  · exact entering_unpin
  · exact .act_bind rfl fun _ => entering_entered

theorem entering_blobExists : (blobExists digest).Performs Entering := by
  refine .act_bind rfl fun present => ?_
  split
  · refine .bind (.act_bind trivial fun _ => .act_bind rfl fun _ => performs_act.mpr trivial)
      fun _ => .act_bind rfl fun recorded => ?_
    split
    · trivial
    refine .act_bind rfl fun found => ?_
    rcases found with error | found <;> trivial
  · trivial

end

/-! ## A push -/

section

variable {discipline : Discipline Action Response Notes} {env : Env} {repo : String}
  {notes : Notes} {tag : Option String} {digest : Digest} {mediaType : String} {data : Bytes}
  {links : ManifestLinks} {referrer : Option (String × Bytes)}
  (entering : ∀ notes action, Entering action → discipline.allowed notes action)

include entering

theorem meets_conclude (pinned : notes.pinned = true)
    (records : ∀ notes : Notes, notes.pinned = true →
      (∀ blob ∈ links.required.map Digest.asString, blob ∈ notes.vouched) →
      discipline.allowed notes (.apply (.putManifest repo digest.asString mediaType tag
        (links.references.map Digest.asString) referrer) data)) :
    (recheck 0 (links.required.map Digest.asString)).Meets observe discipline notes
      fun landed reached => (concludeManifest env repo tag digest mediaType data links referrer
        landed).Meets observe discipline reached fun _ _ => True := by
  have books : ∀ notes action, action.bookkeeping = true → discipline.allowed notes action :=
    fun notes action books => entering notes action (.of_books books)
  refine meets_recheck books ?_ ?_
  · intro vouched every _
    simp only [concludeManifest, meets_bind, meets_act]
    refine meets_blobEntered books fun unreferenced => ⟨books _ _ rfl, fun _ _ => ?_⟩
    simp only [recordManifest, meets_bind, meets_act]
    refine ⟨records _ pinned every, fun logged _ => ?_⟩
    rcases logged with error | _
    · exact entering_unpin.meets entering
    simp only [meets_bind, meets_act]
    exact ⟨books _ _ rfl, fun _ _ => meets_clearAll books (entering_unpin.meets entering)⟩
  intro _ _ _ _ _ missing error vouched failed
  simp only [concludeManifest, meets_bind, meets_act]
  refine meets_blobEntered books fun unreferenced => ⟨books _ _ rfl, fun _ _ => ?_⟩
  cases error with
  | some error => exact entering_unpin.meets entering
  | none =>
    cases missing with
    | some position => exact entering_unpin.meets entering
    | none => simp at failed

/-- A push writes one record, after all checks have passed and under a pin under
which it has found every blob the manifest requires. -/
theorem meets_push (records : ∀ (notes : Notes) referrer, checkTag tag = .ok () →
      referrerEntry env links = .ok referrer → env.digestOf data digest.algorithm = digest →
      notes.pinned = true →
      (∀ blob ∈ links.required.map Digest.asString, blob ∈ notes.vouched) →
      discipline.allowed notes (.apply (.putManifest repo digest.asString mediaType tag
        (links.references.map Digest.asString) referrer) data)) :
    (putManifest env repo tag digest mediaType data links).Meets observe discipline notes
      fun _ _ => True := by
  unfold putManifest
  split
  · trivial
  rename_i tagged
  split
  · trivial
  rename_i referrer listed
  split
  · rename_i matched
    simp only [storeManifest, landManifest, meets_bind, meets_act]
    refine ⟨entering _ _ trivial, fun _ _ => ⟨entering _ _ rfl, fun admitted _ => ?_⟩⟩
    rcases admitted with error | _
    · exact entering_unpin.meets entering
    simp only [meets_bind, meets_act]
    refine ⟨entering _ _ trivial, fun linked _ => ?_⟩
    cases linked with
    | true => exact meets_conclude entering rfl (records · referrer tagged listed matched)
    | false =>
      simp only [Bool.false_eq_true, if_false, meets_bind, meets_act]
      refine ⟨entering _ _ trivial, fun written _ => ?_⟩
      rcases written with error | _
      · exact entering_unpin.meets entering
      · exact meets_conclude entering rfl (records · referrer tagged listed matched)
  · trivial

end

end Roci.Manifests
