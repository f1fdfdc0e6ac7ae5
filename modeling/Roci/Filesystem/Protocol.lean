import Roci.Filesystem.Footprint

/-!
# What a call may do with an upload session

A call works on a session under the lock of the session only.  It creates the
staging file of a session it has found pending, writes to the file it has opened
after taking the hash kept with the session, keeps a hash of what is in the file
only, and renames a file into the blob store only when the bytes in it have the
digest in its name.  Every call is shown to keep to these rules by looking at
that call alone.
-/

namespace Roci.Filesystem

open Roci.Core Roci.Library Roci.Storage Roci.Metadata
open Program (performs_act performs_pure)

/-- What a call has seen and holds: the session lock it refers to, whether it
holds it, whether the session was pending, the staging file it has open, the
bytes known to be in it, whether it took the hash kept with the session, whether
the session counter is ahead of the sessions because of it, and the last other
file it opened. -/
structure Notes where
  lock : Option (SessionKey × Nat) := none
  held : Bool := false
  pending : Option Bool := none
  node : Option Nat := none
  content : Option Bytes := none
  taken : Bool := false
  owes : Bool := false
  source : Option (Nat × Path) := none

namespace Notes

def isAt (notes : Notes) (path : Path) : Bool :=
  notes.held && notes.lock.any fun lock => lock.1.path = path

def Holds (notes : Notes) (key : SessionKey) (mutex : Nat) : Prop :=
  notes.lock = some (key, mutex) ∧ notes.held = true

theorem Holds.isAt_iff {notes : Notes} {key : SessionKey} {mutex : Nat}
    (holds : notes.Holds key mutex) (path : Path) : notes.isAt path = true ↔ key.path = path := by
  simp [isAt, holds.1, holds.2]

theorem exists_holds_of_isAt {notes : Notes} {path : Path} (here : notes.isAt path = true) :
    ∃ key mutex, notes.Holds key mutex ∧ key.path = path := by
  unfold isAt at here
  rw [Bool.and_eq_true, Option.any_eq_true] at here
  obtain ⟨held, ⟨key, mutex⟩, lock, same⟩ := here
  exact ⟨key, mutex, ⟨lock, held⟩, of_decide_eq_true same⟩

end Notes

def observe (notes : Notes) (action : Action) (response : Response action) : Notes :=
  match action, response with
  | .uploads (.get key), mutex => { lock := some (key, mutex) }
  | .uploads (.lock _), _ => { lock := notes.lock, held := true }
  | .uploads (.tryLock _), locked => if locked then { lock := notes.lock, held := true } else {}
  | .uploads (.unlock _), _ => {}
  | .uploads (.take _), taken =>
    { notes with taken := true, content := (taken.map StagedHash.bytes).or notes.content }
  | .uploads (.set _ _), _ => { notes with taken := false }
  | .sessions (.beginSession _), begun => { notes with owes := begun.isOk }
  | .sessions (.insertPending _), _ => { notes with owes := false }
  | .sessions (.isPending key), answer =>
    if notes.isAt key.path then { notes with pending := some answer } else notes
  | .sessions (.takePending _), answer =>
    { notes with pending := some false, owes := answer && notes.node.isNone }
  | .sessions .endSession, _ => { notes with owes := false }
  | .disk (.create _), .ok node => { notes with node := some node, content := some [] }
  | .disk (.openFile path), .ok node =>
    if notes.isAt path then { notes with node := some node }
    else { notes with source := some (node, path) }
  | .disk (.fstat node), .ok len =>
    if notes.node = some node ∧ len = 0 then { notes with content := some [] } else notes
  | .disk (.write _ data), .ok () => { notes with content := notes.content.map (· ++ data) }
  | .disk (.write _ _), .error _ => { notes with content := none }
  | .disk (.setLen _ _), _ => { notes with content := none }
  | .disk (.read node), .ok bytes =>
    if notes.node = some node then { notes with content := some bytes } else notes
  | .disk (.unlink path), .ok () =>
    if notes.isAt path then { notes with owes := true, node := none, content := none }
    else notes
  | .disk (.rename _ _), .ok _ => { notes with owes := true, node := none, content := none }
  | _, _ => notes

section

variable (env : Env)

def Hashes (digest : Digest) (bytes : Bytes) : Prop := env.digestOf bytes digest.algorithm = digest

/-- What a call may do.  With `faultless` nothing fails that the counter of
sessions depends on, and a call gives up the lock of a session only when the
counter is right again. -/
def discipline (faultless : Bool) : Discipline Action Response Notes where
  allowed notes
    | .uploads (.get _) => notes = {}
    | .uploads (.lock mutex) => ∃ key, notes = { lock := some (key, mutex) }
    | .uploads (.tryLock mutex) => ∃ key, notes = { lock := some (key, mutex) }
    | .uploads (.unlock mutex) =>
      (∃ key, notes.Holds key mutex) ∧
        (faultless = true → notes.owes = false ∧ (notes.pending = some true → notes.node = none))
    | .uploads (.take mutex) => ∃ key, notes.Holds key mutex ∧ notes.node.isSome = true
    | .uploads (.set mutex value) =>
      ∃ key, notes.Holds key mutex ∧ notes.taken = true ∧ notes.node.isSome = true ∧
        notes.pending = some false ∧ ∀ hash, value = some hash → notes.content = some hash.bytes
    | .uploads (.release _) => False
    | .sessions (.beginSession _) => notes.owes = false
    | .sessions (.insertPending _) => notes.owes = true
    | .sessions (.takePending key) =>
      (∃ mutex, notes.Holds key mutex) ∧ (faultless = true → notes.owes = false)
    | .sessions .endSession => notes.owes = true
    | .disk (.create path) =>
      ∃ key mutex, notes.Holds key mutex ∧ notes.pending = some true ∧ path = key.path
    | .disk (.write node _) =>
      ∃ key mutex, notes.Holds key mutex ∧ notes.node = some node ∧ notes.taken = true
    | .disk (.setLen node _) =>
      ∃ key mutex, notes.Holds key mutex ∧ notes.node = some node ∧ notes.taken = true
    | .disk (.unlink path) =>
      (∃ blob : BlobKey, path = blob.path) ∨
        ∃ key mutex, notes.Holds key mutex ∧ path = key.path ∧ notes.owes = false ∧
          notes.pending ≠ some true
    | .disk (.rename source target) =>
      ∃ key mutex, notes.Holds key mutex ∧ source = key.path ∧ notes.owes = false ∧
        notes.pending = some false ∧ notes.node.isSome = true ∧
        ∃ blob : BlobKey, target = blob.path ∧
          ∃ bytes, notes.content = some bytes ∧ Hashes env blob.digest bytes
    | .disk (.publish path data) =>
      (∃ repo, path = markerPath repo) ∨
        ∃ blob : BlobKey, path = blob.path ∧ Hashes env blob.digest data
    | .disk (.link node path _) =>
      ∃ source target : BlobKey, notes.source = some (node, source.path) ∧
        path = target.path ∧ source.digest = target.digest
    | _ => True
  expected notes
    | .sessions (.takePending key), answer =>
      (∃ mutex, notes.Holds key mutex) → ∀ known, notes.pending = some known → answer = known
    | .disk (.openFile path), .ok node =>
      notes.isAt path = true → ∀ known, notes.node = some known → node = known
    | .disk (.fstat _), .error _ => faultless = false
    | .disk (.rename _ _), .ok false => faultless = false
    | .disk .sync, .error _ => faultless = false
    | _, _ => True

end

abbrev Obeys {Result : Type} (env : Env) (faultless : Bool) (program : Call Result)
    (notes : Notes) (post : Result → Notes → Prop) : Prop :=
  program.Meets observe (discipline env faultless) notes post

abbrev ObeysStill {Result : Type} (env : Env) (faultless : Bool) (program : Call Result)
    (notes : Notes) : Prop :=
  Obeys env faultless program notes fun _ reached => reached = notes

/-! ## Actions that concern no session -/

/-- Actions that are always allowed and tell a call nothing about a session. -/
def Quiet : Action → Prop
  | .disk (.stat _) => True
  | .disk (.inode _) => True
  | .disk .sync => True
  | .disk _ => False
  | .uploads (.remove _) => True
  | .uploads (.forget _) => True
  | .uploads _ => False
  | .sessions (.beginSession _) => False
  | .sessions (.insertPending _) => False
  | .sessions (.isPending _) => False
  | .sessions (.takePending _) => False
  | .sessions .endSession => False
  | _ => True

section

variable {env : Env} {faultless : Bool} {notes : Notes} {Result : Type}

/-- Actions that are allowed and leave the notes as they are. -/
def Still (env : Env) (faultless : Bool) (notes : Notes) (action : Action) : Prop :=
  (discipline env faultless).allowed notes action ∧
    ∀ response, observe notes action response = notes

theorem quiet_step {action : Action} (quiet : Quiet action) : Still env faultless notes action := by
  cases action with
  | disk action | uploads action | sessions action =>
    cases action <;> first | exact quiet.elim | exact ⟨trivial, fun _ => rfl⟩
  | _ => exact ⟨trivial, fun _ => rfl⟩

theorem observe_elsewhere {action : Action} (elsewhere : action.Elsewhere)
    (response : Response action) : observe notes action response = notes := by
  cases action with
  | disk action | uploads action | sessions action => exact elsewhere.elim
  | _ => rfl

variable {job program : Call Result}

theorem obeys_still (still : program.Performs (Still env faultless notes)) :
    ObeysStill env faultless program notes :=
  still.meets_keeping (fun _ _ kept same => same ▸ kept) rfl

theorem obeys_quiet (quiet : program.Performs Quiet) : ObeysStill env faultless program notes :=
  obeys_still (quiet.weaken fun _ => quiet_step)

theorem obeys_quiet_bind {Other : Type} {next : Result → Call Other} {post : Other → Notes → Prop}
    (quiet : program.Performs Quiet)
    (continues : ∀ result, Obeys env faultless (next result) notes post) :
    Obeys env faultless (program >>= next) notes post :=
  (obeys_quiet quiet).bind fun result _ same => same ▸ continues result

theorem obeys_runBlocking {post : Result → Notes → Prop}
    (obeys : Obeys env faultless job notes post) :
    Obeys env faultless (runBlocking job) notes post :=
  obeys.bind fun _ _ met => ⟨trivial, fun _ _ => met⟩

end

/-! ## Quiet parts of the calls -/

theorem quiet_wantBlob (key : BlobKey) : (wantBlob key).Performs Quiet :=
  .act_bind trivial fun _ => .act_bind trivial fun _ => performs_act.mpr trivial

theorem quiet_mark (key : BlobKey) : (mark key).Performs Quiet :=
  .act_bind trivial fun _ => performs_act.mpr trivial

theorem quiet_blobEntered (key : BlobKey) (checksum : Option BlobChecksum) :
    (blobEntered key checksum).Performs Quiet := by
  refine (bookkeeping_blobEntered key checksum).weaken fun action bookkeeping => ?_
  cases action <;> first | exact bookkeeping.elim | exact trivial

variable (repo : RepositoryName)

theorem quiet_releaseSize (size : Option Nat) : (releaseSize repo size).Performs Quiet := by
  cases size with
  | none => exact performs_pure
  | some size => exact performs_act.mpr trivial

theorem quiet_blobLeft (key : BlobKey) (size : Option Nat) :
    (blobLeft key size).Performs Quiet := by
  refine .act_bind trivial fun _ => .act_bind trivial fun _ =>
    .act_bind trivial fun _ => (quiet_releaseSize _ _).bind fun _ =>
    .act_bind trivial fun recorded => ?_
  split
  · exact .act_bind trivial fun _ => performs_pure
  · exact performs_pure

theorem quiet_admitBlob (env : Env) (key : BlobKey) (size : Nat) :
    (admitBlob env key size).Performs Quiet := by
  unfold admitBlob
  split
  · refine (performs_runBlocking (performs_act.mpr trivial) trivial).bind fun found => ?_
    split
    · exact performs_pure
    · exact performs_pure
    · exact .act_bind trivial fun _ => performs_pure
  · exact performs_pure

theorem quiet_recheck (position : Nat) (required : List Digest) :
    (recheck repo position required).Performs Quiet := by
  induction required generalizing position with
  | nil => exact performs_pure
  | cons digest rest ih =>
    refine .act_bind trivial fun found => ?_
    split
    · exact ih (position + 1)
    · exact performs_pure
    · exact performs_pure

theorem quiet_clearAll (digests : List Digest) : (clearAll repo digests).Performs Quiet := by
  induction digests with
  | nil => exact performs_pure
  | cons digest rest ih =>
    exact .act_bind trivial fun _ => ih

theorem quiet_recordManifest (tag : Option String) (key : BlobKey) (mediaType : String)
    (references : List Digest) (referrer : Option (String × Bytes)) :
    (recordManifest tag key mediaType references referrer).Performs Quiet := by
  refine .act_bind trivial fun recorded => ?_
  split
  · exact .act_bind trivial fun _ => performs_pure
  exact .act_bind trivial fun _ => (quiet_clearAll _ _).bind fun _ =>
    .act_bind trivial fun _ => performs_pure

theorem quiet_concludeManifest (env : Env) (tag : Option String) (key : BlobKey)
    (mediaType : String) (data : Bytes) (links : Manifests.ManifestLinks)
    (referrer : Option (String × Bytes)) (landed : ManifestLanded) :
    (concludeManifest env tag key mediaType data links referrer landed).Performs Quiet := by
  cases landed with
  | rejected error => exact .act_bind trivial fun _ => performs_pure
  | failed charged error =>
    exact .act_bind trivial fun _ => .act_bind trivial fun _ => performs_pure
  | stored missing error =>
    refine (quiet_blobEntered _ _).bind fun _ => .act_bind trivial fun _ => ?_
    split
    · exact .act_bind trivial fun _ => performs_pure
    · exact .act_bind trivial fun _ => performs_pure
    · exact quiet_recordManifest _ _ _ _ _

theorem quiet_markOrphans (digests : List Digest) : (markOrphans repo digests).Performs Quiet := by
  induction digests with
  | nil => exact performs_pure
  | cons digest rest ih =>
    refine Program.Performs.bind ?_ fun _ => ih
    refine .act_bind trivial fun manifests => ?_
    split
    · refine .act_bind trivial fun present => ?_
      split
      · exact quiet_mark _
      · exact performs_pure
    · exact performs_pure

theorem quiet_noteFinding (finding : Finding) : (noteFinding finding).Performs Quiet := by
  cases finding with
  | edges repo manifest blobs => exact .act_bind trivial fun _ => performs_act.mpr trivial
  | _ => exact performs_act.mpr trivial

theorem quiet_seedCandidate (now : Nat) (key : BlobKey) :
    (seedCandidate now key).Performs Quiet := by
  refine .act_bind trivial fun mediaType => ?_
  split
  · refine .act_bind trivial fun isRoot => ?_
    split
    · refine .act_bind trivial fun manifests => ?_
      split
      · exact performs_act.mpr trivial
      · exact performs_pure
    · exact performs_pure
  · exact performs_pure

theorem quiet_gcConsistencyCheck (findings : List Finding) :
    (gcConsistencyCheck findings).Performs Quiet :=
  (performs_forEach quiet_noteFinding findings).bind fun _ => .act_bind trivial fun now =>
    .act_bind trivial fun blobs => (performs_forEach (quiet_seedCandidate now) blobs).bind
      fun _ => .act_bind trivial fun _ => performs_act.mpr trivial

/-- Both lookups trust a recorded checksum and otherwise ask the disk. -/
theorem quiet_lookups (key : BlobKey) :
    (blobSize key).Performs Quiet ∧ (blobExists key).Performs Quiet := by
  constructor
  all_goals
    refine .act_bind trivial fun present => ?_
    split
    · refine (quiet_wantBlob key).bind fun _ => .act_bind trivial fun recorded => ?_
      split
      · exact performs_pure
      refine (performs_runBlocking (performs_act.mpr trivial) trivial).bind fun found => ?_
      split <;> exact performs_pure
    · exact performs_pure

theorem quiet_sizeForRelease (env : Env) (key : BlobKey) :
    (sizeForRelease env key).Performs Quiet := by
  unfold sizeForRelease
  split
  · refine (performs_runBlocking (performs_act.mpr trivial) trivial).bind fun found => ?_
    split <;> exact performs_pure
  · exact performs_pure

theorem quiet_mediaTypeOf (key : BlobKey) : (mediaTypeOf key).Performs Quiet := by
  refine .act_bind trivial fun known => ?_
  split
  · exact performs_pure
  · exact .act_bind trivial fun _ => .act_bind trivial fun _ => performs_pure

theorem quiet_concludeBlob (key : BlobKey) (lock : Nat) (checksum : BlobChecksum) :
    (concludeBlob key lock checksum).Performs Quiet :=
  (quiet_blobEntered _ _).bind fun _ => .act_bind trivial fun _ =>
    .act_bind trivial fun _ => .act_bind trivial fun _ =>
      .act_bind trivial fun _ => performs_pure

/-! ## Files that are no staging files -/

/-- Nothing but the last other file opened has changed. -/
def Notes.SameSession (notes reached : Notes) : Prop :=
  reached = { notes with source := reached.source }

abbrev ObeysSame {Result : Type} (env : Env) (faultless : Bool) (program : Call Result)
    (notes : Notes) : Prop :=
  Obeys env faultless program notes fun _ reached => notes.SameSession reached

section

variable {env : Env} {faultless : Bool} {notes : Notes}

theorem Notes.not_isAt_blob (notes : Notes) (blob : BlobKey) : notes.isAt blob.path = false := by
  unfold Notes.isAt
  cases notes.lock with
  | _ => simp

theorem obeys_quiet_after {Result : Type} {program : Call Result} {reached : Notes}
    (same : notes.SameSession reached) (quiet : program.Performs Quiet) :
    Obeys env faultless program reached fun _ last => notes.SameSession last :=
  (obeys_quiet quiet).weaken fun _ _ equal => equal ▸ same

theorem obeys_mountPromote (source target : BlobKey) (same : source.digest = target.digest)
    (allowCopy sync : Bool) :
    ObeysSame env faultless (mountPromote source.path target.path allowCopy sync) notes := by
  refine .act trivial fun opened _ => ?_
  rcases opened with error | node
  · exact rfl
  have noted : observe notes (.disk (.openFile source.path)) (.ok node) =
      { notes with source := some (node, source.path) } := by
    simp [observe, notes.not_isAt_blob source]
  rw [noted]
  refine .act trivial fun found _ => ?_
  split
  · exact rfl
  · exact rfl
  · exact rfl
  refine .act ⟨source, target, rfl, rfl, same⟩ fun linked _ => ?_
  cases linked with
  | error error => exact rfl
  | ok outcome =>
    exact (obeys_quiet (performs_concludeLink trivial trivial _ _)).weaken
      fun _ _ equal => equal ▸ rfl

theorem obeys_dedupeLinkAt (key : BlobKey) :
    ObeysSame env faultless (dedupeLinkAt env key) notes := by
  refine .act trivial fun located _ => ?_
  cases located with
  | none => exact rfl
  | some source =>
    exact (obeys_mountPromote ⟨source, key.digest⟩ key rfl _ _).bind fun _ _ met => met

theorem obeys_dedupeLink (key : BlobKey) : ObeysSame env faultless (dedupeLink env key) notes := by
  refine .act trivial fun located _ => ?_
  cases located with
  | none => exact rfl
  | some source =>
    exact (obeys_runBlocking (obeys_mountPromote ⟨source, key.digest⟩ key rfl _ _)).bind
      fun _ _ met => met

variable {data : Bytes}

theorem obeys_publishBytes (key : BlobKey) (hashes : Hashes env key.digest data) (sync : Bool) :
    ObeysStill env faultless (publishBytes key.path data sync) notes := by
  refine .act (.inr ⟨key, rfl, hashes⟩) fun published _ => ?_
  split
  · exact rfl
  · exact obeys_quiet (performs_syncDirectory trivial sync)
  refine obeys_quiet ((performs_checkRegular trivial).bind fun checked => ?_)
  split
  · exact performs_pure
  · exact performs_syncDirectory trivial sync

theorem obeys_ensureMarker : ObeysStill env faultless (ensureMarker repo) notes :=
  obeys_still (performs_ensureMarker repo (quiet_step trivial)
    ⟨.inl ⟨repo, rfl⟩, fun _ => rfl⟩ (quiet_step trivial))

theorem obeys_layoutAndAdmit (key : BlobKey) (size : Nat) :
    ObeysStill env faultless (layoutAndAdmit env key size) notes :=
  obeys_still (performs_layoutAndAdmit env key size (quiet_step trivial)
    ⟨.inl ⟨key.repo, rfl⟩, fun _ => rfl⟩ (quiet_step trivial) (quiet_step trivial)
    (quiet_step trivial))

/-! ## Calls on blobs and manifests -/

theorem obeys_unlinkBlob (key : BlobKey) :
    ObeysStill env faultless (runBlocking (act (.disk (.unlink key.path)))) notes := by
  refine obeys_runBlocking ⟨.inl ⟨key, rfl⟩, fun response _ => ?_⟩
  cases response with
  | error error => exact rfl
  | ok done => simp [Program.Meets, observe, notes.not_isAt_blob key]

theorem obeys_storeBlob (key : BlobKey) (lock charged : Nat) (hashes : Hashes env key.digest data) :
    ObeysSame env faultless (storeBlob env key lock charged data) notes := by
  refine .act trivial fun _ _ => (obeys_dedupeLink key).bind fun linked reached same => ?_
  split
  · exact obeys_quiet_after same (quiet_concludeBlob _ _ _)
  refine (obeys_runBlocking (obeys_publishBytes key hashes _)).bind fun stored last equal => ?_
  subst equal
  refine obeys_quiet_after same ?_
  split
  · exact quiet_concludeBlob _ _ _
  exact .act_bind trivial fun _ => .act_bind trivial fun _ =>
    .act_bind trivial fun _ => .act_bind trivial fun _ =>
      .act_bind trivial fun _ => performs_pure

theorem obeys_putBlob (key : BlobKey) (data : Bytes) :
    ObeysSame env faultless (putBlob env key data) notes := by
  unfold putBlob
  split
  · exact rfl
  rename_i hashes
  refine (obeys_runBlocking (obeys_ensureMarker key.repo)).bind fun ensured reached same => ?_
  subst same
  split
  · exact rfl
  refine .act trivial fun lock _ => .act trivial fun _ _ =>
    obeys_quiet_bind (quiet_admitBlob env key _) fun admitted => ?_
  split
  · exact obeys_quiet_after rfl (.act_bind trivial fun _ => .act_bind trivial fun _ =>
      performs_pure)
  · exact obeys_storeBlob key lock _ (not_not.mp hashes)

theorem obeys_deleteBlob (key : BlobKey) : ObeysStill env faultless (deleteBlob env key) notes := by
  refine obeys_quiet_bind (quiet_sizeForRelease env key) fun size => ?_
  refine (obeys_unlinkBlob key).bind fun unlinked reached same => ?_
  subst same
  split
  · exact rfl
  · exact obeys_quiet ((quiet_blobLeft _ _).bind fun _ => performs_pure)

theorem obeys_landManifest (key : BlobKey) (hashes : Hashes env key.digest data)
    (required : List Digest) :
    ObeysSame env faultless (landManifest env key data required) notes := by
  refine (obeys_layoutAndAdmit key _).bind fun admitted reached same => ?_
  subst same
  split
  · exact rfl
  refine (obeys_dedupeLinkAt key).bind fun linked last same => ?_
  split
  · exact obeys_quiet_after same (quiet_recheck _ _ _)
  refine (obeys_publishBytes key hashes true).bind fun stored final equal => ?_
  subst equal
  split
  · exact same
  · exact obeys_quiet_after same (quiet_recheck _ _ _)

theorem obeys_putManifest (tag : Option String) (key : BlobKey) (mediaType : String)
    (data : Bytes) (links : Manifests.ManifestLinks) :
    ObeysSame env faultless (putManifest env tag key mediaType data links) notes := by
  unfold putManifest
  split
  · exact rfl
  split
  · exact rfl
  split
  · rename_i hashes
    refine .act trivial fun _ _ =>
      (obeys_runBlocking (obeys_landManifest key hashes _)).bind fun landed reached same => ?_
    exact obeys_quiet_after same (quiet_concludeManifest _ _ _ _ _ _ _ _)
  · exact rfl

section

variable (key : BlobKey) (unopened : notes.node = none)

include key unopened

theorem obeys_readFile : ObeysSame env faultless (readFile key) notes := by
  have opens : ObeysSame env faultless (act (.disk (.openFile key.path))) notes := by
    refine ⟨trivial, fun opened _ => ?_⟩
    cases opened with
    | error error => exact rfl
    | ok node => simp [Program.Meets, observe, notes.not_isAt_blob key, Notes.SameSession]
  refine (obeys_runBlocking opens).bind fun opened reached same => ?_
  have closed : reached.node = none := by rw [same, unopened]
  split
  · exact same
  refine obeys_runBlocking ⟨trivial, fun bytes _ => ?_⟩
  cases bytes with
  | error error => exact same
  | ok bytes => simpa [Program.Meets, observe, closed] using same

theorem obeys_readAndCache : ObeysSame env faultless (readAndCache key) notes := by
  refine (obeys_readFile key unopened).bind fun bytes reached same => ?_
  split
  · exact same
  · exact .act trivial fun _ _ => same

theorem obeys_readBlob : ObeysSame env faultless (readBlob key) notes := by
  refine .act trivial fun cached _ => ?_
  split
  · exact rfl
  refine .act trivial fun present _ => ?_
  split
  · exact obeys_readAndCache key unopened
  · exact rfl

theorem obeys_getManifest : ObeysSame env faultless (getManifest key) notes := by
  refine obeys_quiet_bind (quiet_mediaTypeOf key) fun mediaType => ?_
  split
  · exact rfl
  refine .act trivial fun cached _ => ?_
  split
  · exact rfl
  · exact (obeys_readAndCache key unopened).bind fun _ _ same => same

theorem obeys_deleteManifest : ObeysSame env faultless (deleteManifest env key) notes := by
  have read : ObeysSame env faultless (manifestBytes key) notes := by
    refine .act trivial fun cached _ => ?_
    split
    · exact rfl
    · exact obeys_readFile key unopened
  refine read.bind fun bytes reached same => ?_
  split
  · exact same
  refine (obeys_unlinkBlob key).bind fun unlinked last equal => ?_
  subst equal
  split
  · exact same
  refine obeys_quiet_after same ((quiet_blobLeft _ _).bind fun _ =>
    .act_bind (by trivial) fun applied => ?_)
  split
  · exact performs_pure
  · exact (quiet_markOrphans _ _).bind fun _ => performs_pure

end

theorem obeys_mountBlob (fromRepo toRepo : RepositoryName) (digest : Digest) :
    ObeysSame env faultless (mountBlob env fromRepo toRepo digest) notes := by
  refine obeys_quiet_bind (quiet_lookups _).1 fun size => ?_
  split
  · exact rfl
  · exact rfl
  split
  · exact .act trivial fun _ _ => rfl
  refine (obeys_runBlocking (obeys_ensureMarker _)).bind fun ensured reached same => ?_
  subst same
  split
  · exact rfl
  refine .act trivial fun lock _ => .act trivial fun _ _ =>
    obeys_quiet_bind (quiet_admitBlob env _ _) fun admitted => ?_
  split
  · exact .act trivial fun _ _ => .act trivial fun _ _ => .act trivial fun _ _ =>
      rfl
  refine .act trivial fun _ _ => (obeys_runBlocking
    (obeys_mountPromote ⟨fromRepo, digest⟩ ⟨toRepo, digest⟩ rfl _ _)).bind
      fun promoted reached same => ?_
  refine obeys_quiet_after same ?_
  split
  · exact .act_bind trivial fun _ => .act_bind trivial fun _ =>
      .act_bind trivial fun _ => .act_bind trivial fun _ =>
        .act_bind trivial fun _ => performs_pure
  exact .act_bind trivial fun _ => (quiet_blobEntered _ _).bind fun _ =>
    .act_bind trivial fun _ => .act_bind trivial fun _ =>
      .act_bind trivial fun _ => .act_bind trivial fun _ =>
        performs_pure

/-! ## Sweeps of blobs -/

theorem obeys_collectCandidate (key : BlobKey) :
    ObeysStill env faultless (collectCandidate key) notes := by
  refine obeys_quiet_bind (performs_runBlocking (performs_act.mpr trivial) trivial) fun found => ?_
  split
  · exact obeys_quiet (performs_act.mpr trivial)
  · exact rfl
  · refine (obeys_unlinkBlob key).bind fun unlinked reached same => ?_
    subst same
    split
    · exact obeys_quiet (quiet_blobLeft _ _)
    · exact obeys_quiet (performs_act.mpr trivial)
    · exact rfl
  · exact obeys_quiet (performs_act.mpr trivial)

theorem obeys_sweepCandidate (now : Nat) (key : BlobKey) :
    ObeysStill env faultless (sweepCandidate now key) notes := by
  refine .act trivial fun due _ => ?_
  split
  · refine .act trivial fun isRoot _ => ?_
    split
    · exact obeys_quiet (performs_act.mpr trivial)
    refine .act trivial fun isUnsafe _ => ?_
    split
    · exact rfl
    refine .act trivial fun manifests _ => ?_
    split
    · refine .act trivial fun mediaType _ => ?_
      split
      · exact obeys_quiet (performs_act.mpr trivial)
      · exact obeys_collectCandidate key
    · exact obeys_quiet (performs_act.mpr trivial)
  · exact rfl

theorem obeys_sweepBatches (now : Nat) (batches : List (List BlobKey)) :
    ObeysStill env faultless (sweepBatches now batches) notes := by
  have batch : ∀ keys, ObeysStill env faultless (sweepBatch now keys) notes := by
    intro keys
    induction keys with
    | nil => exact rfl
    | cons key rest ih =>
      exact (obeys_sweepCandidate now key).bind fun _ _ same => same ▸ ih
  induction batches with
  | nil => exact rfl
  | cons keys rest ih =>
    refine .act trivial fun _ _ => (batch keys).bind fun _ reached same => ?_
    subst same
    exact .act trivial fun _ _ => ih

end

end Roci.Filesystem
