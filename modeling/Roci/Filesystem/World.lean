import Roci.Filesystem.Disk
import Roci.Filesystem.Locks
import Roci.Filesystem.Places
import Roci.Manifests.Calls

/-!
# What the calls of a store share

The disk, the upload sessions with their locks, the admission locks, the quota
counters, the garbage collector with its fence, the presence filter and the
cache, and the metadata store.  Each part has its own atomic actions, one system
call or one critical section each, and an action touches its own part only.

The dedupe index may name any other repository, and listings and ages are
whatever the directories hold; both are left to the `Choice` of an action.
-/

namespace Roci.Filesystem

open Roci.Core Roci.Library Roci.Storage Roci.Metadata
open Function (update)

/-! ## Upload sessions -/

structure StagedHash where
  bytes : Bytes := []
deriving DecidableEq

/-- `pending` are the sessions without a staging file, `count` the sessions the
quota counts.  `issued` is not kept by the program: it remembers the sessions
handed out. -/
structure Sessions where
  pending : SessionKey → Bool := fun _ => false
  count : Nat := 0
  issued : List SessionKey := []

inductive SessionAction where
  /-- Draw sixteen random bytes. -/
  | random
  | beginSession (limit : Nat)
  /-- Enter a session under the hexadecimal form of the bytes drawn. -/
  | insertPending (repo : RepositoryName)
  | isPending (key : SessionKey)
  | takePending (key : SessionKey)
  | endSession
  /-- The pending sessions older than the delay. -/
  | listExpired
  /-- The entries of upload directories older than the delay. -/
  | listStale
  /-- Whether a staging file is still older than the delay. -/
  | isStale (key : SessionKey)

abbrev SessionResponse : SessionAction → Type
  | .random => Except StorageError Unit
  | .beginSession _ => Except StorageError Unit
  | .insertPending _ => String
  | .isPending _ => Bool
  | .takePending _ => Bool
  | .endSession => Unit
  | .listExpired => List SessionKey
  | .listStale => List SessionKey
  | .isStale _ => Bool

/-! ## Quota -/

/-- Configured caps; zero means unlimited. -/
structure QuotaLimits where
  maxRepoBytes : Nat := 0
  maxTotalBytes : Nat := 0
  maxUploadSessions : Nat := 0

def QuotaLimits.tracksBytes (limits : QuotaLimits) : Bool :=
  0 < limits.maxRepoBytes || 0 < limits.maxTotalBytes

/-- `u64::saturating_add`. -/
def saturatingAdd (first second : Nat) : Nat := min (first + second) (2 ^ 64 - 1)

structure Quota where
  perRepo : StringMap Nat := ∅
  total : Nat := 0

inductive QuotaAction where
  | admitBytes (limits : QuotaLimits) (repo : RepositoryName) (size : Nat)
  | release (repo : RepositoryName) (size : Nat)

abbrev QuotaResponse : QuotaAction → Type
  | .admitBytes _ _ _ => Except StorageError Unit
  | .release _ _ => Unit

namespace Quota

variable (quota : Quota) (repo : String) (size : Nat)

def repoBytes : Nat := quota.perRepo[repo]?.getD 0

def charge : Quota where
  perRepo := quota.perRepo.insert repo (saturatingAdd (quota.repoBytes repo) size)
  total := saturatingAdd quota.total size

def admitBytes (limits : QuotaLimits) : Quota × Except StorageError Unit :=
  if !limits.tracksBytes then (quota, .ok ())
  else if 0 < limits.maxRepoBytes &&
      limits.maxRepoBytes < saturatingAdd (quota.repoBytes repo) size then
    (quota, .error (.quotaExceeded .repository limits.maxRepoBytes size))
  else if 0 < limits.maxTotalBytes && limits.maxTotalBytes < saturatingAdd quota.total size then
    (quota, .error (.quotaExceeded .total limits.maxTotalBytes size))
  else (quota.charge repo size, .ok ())

/-- A repository that holds nothing any more is forgotten. -/
def release : Quota :=
  match quota.perRepo[repo]? with
  | none => quota
  | some used =>
    let actual := min size used
    { perRepo := if used - actual = 0 then quota.perRepo.erase repo
        else quota.perRepo.insert repo (used - actual)
      total := quota.total - actual }

def perform (action : QuotaAction) : Quota × QuotaResponse action :=
  match action with
  | .admitBytes limits repo size => quota.admitBytes repo.name size limits
  | .release repo size => (quota.release repo.name size, ())

end Quota

/-! ## Garbage collector -/

/-- `pins` and `writer` are the holders of the fence.  `wanted` is not kept by
the program: it remembers when a blob last arrived or was asked for. -/
structure Collector where
  enabled : Bool := true
  delay : Nat := 0
  candidates : BlobKey → Option Nat := fun _ => none
  ready : Bool := false
  roots : BlobKey → Bool := fun _ => false
  unsafeRepos : RepositoryName → Bool := fun _ => false
  pins : List Nat := []
  writer : Option Nat := none
  clock : Nat := 0
  wanted : BlobKey → Option Nat := fun _ => none

inductive CollectorAction where
  | pin
  | unpin
  | exclusive
  | release
  /-- A blob is entered into the books. -/
  | arrive (key : BlobKey)
  /-- Read the clock. -/
  | now
  | markAt (key : BlobKey) (stamp : Nat)
  | touch (key : BlobKey)
  | clear (key : BlobKey)
  | isReady
  | setReady
  | due (now : Nat)
  | isDue (key : BlobKey) (now : Nat)
  | isRoot (key : BlobKey)
  | addRoot (key : BlobKey)
  | isUnsafe (repo : RepositoryName)
  | markUnsafe (repo : RepositoryName)

abbrev CollectorResponse : CollectorAction → Type
  | .now => Nat
  | .isReady => Bool
  | .due _ => List BlobKey
  | .isDue _ _ => Bool
  | .isRoot _ => Bool
  | .isUnsafe _ => Bool
  | _ => Unit

variable (collector : Collector)

namespace Collector

def isDue (key : BlobKey) (now : Nat) : Bool :=
  (collector.candidates key).any fun stamp => collector.delay ≤ now - stamp

def stamp (key : BlobKey) (value : Option Nat) : Collector :=
  if collector.enabled then
    { collector with candidates := update collector.candidates key value }
  else collector

def touch (key : BlobKey) : Collector :=
  let noted := { collector with
    wanted := update collector.wanted key (some collector.clock) }
  if (collector.candidates key).isSome then noted.stamp key (some collector.clock) else noted

/-- One action of call number `index`; `none` while it has to wait. -/
def perform (index : Nat) (action : CollectorAction) (listed : List BlobKey) :
    Option (Collector × CollectorResponse action) :=
  match action with
  | .pin =>
    if collector.enabled then
      if collector.writer.isNone then
        some ({ collector with pins := index :: collector.pins }, ())
      else none
    else some (collector, ())
  | .unpin => some ({ collector with pins := collector.pins.filter (· ≠ index) }, ())
  | .exclusive =>
    if collector.writer.isNone && collector.pins.isEmpty then
      some ({ collector with writer := some index }, ())
    else none
  | .release => some ({ collector with writer := none }, ())
  | .arrive key =>
    some ({ collector with
      wanted := update collector.wanted key (some collector.clock) }, ())
  | .now => some (collector, collector.clock)
  | .markAt key stamp => some (collector.stamp key (some stamp), ())
  | .touch key => some (collector.touch key, ())
  | .clear key => some (collector.stamp key none, ())
  | .isReady => some (collector, collector.enabled && collector.ready)
  | .setReady => some ({ collector with ready := true }, ())
  | .due now => some (collector, listed.filter fun key => collector.isDue key now)
  | .isDue key now => some (collector, collector.isDue key now)
  | .isRoot key => some (collector, collector.roots key)
  | .addRoot key =>
    some (if collector.enabled then
      { collector with roots := update collector.roots key true } else collector, ())
  | .isUnsafe repo => some (collector, collector.unsafeRepos repo)
  | .markUnsafe repo =>
    some (if collector.enabled then
      { collector with unsafeRepos := update collector.unsafeRepos repo true }
      else collector, ())

end Collector

/-! ## Presence filter and cache -/

/-- The filter counts how often a key was added and deleted: one added more
often than deleted is found, anything may be found. -/
structure Memory where
  added : BlobKey → Nat := fun _ => 0
  deleted : BlobKey → Nat := fun _ => 0
  cache : BlobKey → Option Bytes := fun _ => none

inductive MemoryAction where
  | insertPresence (key : BlobKey)
  | removePresence (key : BlobKey)
  | maybePresent (key : BlobKey)
  | cacheGet (key : BlobKey)
  | cachePut (key : BlobKey) (data : Bytes)
  | cacheInvalidate (key : BlobKey)
  /-- Another repository that is said to hold the blob. -/
  | locate (key : BlobKey)

abbrev MemoryResponse : MemoryAction → Type
  | .maybePresent _ => Bool
  | .cacheGet _ => Option Bytes
  | .locate _ => Option RepositoryName
  | _ => Unit

namespace Memory

def perform (memory : Memory) (action : MemoryAction) (answer : Bool)
    (source : Option RepositoryName) : Memory × MemoryResponse action :=
  match action with
  | .insertPresence key =>
    ({ memory with added := update memory.added key (memory.added key + 1) }, ())
  | .removePresence key =>
    ({ memory with deleted := update memory.deleted key (memory.deleted key + 1) }, ())
  | .maybePresent key => (memory, answer || decide (memory.deleted key < memory.added key))
  | .cacheGet key =>
    -- an entry may have been evicted
    (memory, if answer then memory.cache key else none)
  | .cachePut key data =>
    (if answer then { memory with cache := update memory.cache key (some data) }
      else memory, ())
  | .cacheInvalidate key => ({ memory with cache := update memory.cache key none }, ())
  | .locate key => (memory, source.filter (· ≠ key.repo))

end Memory

/-! ## Metadata -/

inductive MetadataAction where
  | checksum (key : BlobKey)
  | backrefs (key : BlobKey)
  | mediaType (key : BlobKey)
  /-- The media type `index.json` lists. -/
  | indexMediaType (key : BlobKey)
  | apply (op : MetaOp)
  | applyRelaxed (op : MetaOp)

abbrev MetadataResponse : MetadataAction → Type
  | .checksum _ => Option BlobChecksum
  | .backrefs _ => List String
  | .mediaType _ => Option String
  | .indexMediaType _ => Except StorageError (Option String)
  | .apply _ => Except StorageError Unit
  | .applyRelaxed _ => Except StorageError Unit

/-- Append a record and apply it.  With `effective` the failing step is the sync
of the log, behind the append. -/
def logged (reader : JsonReader) (metadata : State) (op : MetaOp) (error : Option StorageError)
    (effective : Bool) : State × Except StorageError Unit :=
  match error with
  | none => (metadata.applyInRam reader op, .ok ())
  | some error => (if effective then metadata.applyInRam reader op else metadata, .error error)

def performMetadata (reader : JsonReader) (metadata : State) (action : MetadataAction)
    (error : Option StorageError) (effective : Bool) (listed : Option String) :
    State × MetadataResponse action :=
  match action with
  | .checksum key => (metadata, metadata.checksum key.repo.name key.digest.asString)
  | .backrefs key => (metadata, metadata.backrefs key.repo.name key.digest.asString)
  | .mediaType key => (metadata, metadata.manifestMediaType key.repo.name key.digest.asString)
  | .indexMediaType _ =>
    (metadata, match error with
      | some error => .error error
      | none => .ok listed)
  | .apply op => logged reader metadata op error effective
  | .applyRelaxed op => logged reader metadata op error effective

/-! ## The whole store -/

structure World where
  disk : Disk := {}
  uploads : LockMap SessionKey (Option StagedHash) := {}
  sessions : Sessions := {}
  admissions : LockMap BlobKey Unit := {}
  quota : Quota := {}
  collector : Collector := {}
  memory : Memory := {}
  metadata : State := {}

/-- `resume` is where a call goes on after a job of the blocking pool,
`nextChunk` where it waits for more of a request body. -/
inductive Action where
  | disk (action : DiskAction)
  | uploads (action : LockAction SessionKey (Option StagedHash))
  | sessions (action : SessionAction)
  | admissions (action : LockAction BlobKey Unit)
  | quota (action : QuotaAction)
  | collector (action : CollectorAction)
  | memory (action : MemoryAction)
  | metadata (action : MetadataAction)
  /-- The blobs found under the root. -/
  | listBlobs
  | resume
  | nextChunk

abbrev Response : Action → Type
  | .disk action => DiskResponse action
  | .uploads action => LockResponse action
  | .sessions action => SessionResponse action
  | .admissions action => LockResponse action
  | .quota action => QuotaResponse action
  | .collector action => CollectorResponse action
  | .memory action => MemoryResponse action
  | .metadata action => MetadataResponse action
  | .listBlobs => List BlobKey
  | .resume => Unit
  | .nextChunk => Unit

/-- What an action depends on besides the shared state. -/
structure Choice extends DiskChoice where
  answer : Bool := true
  effective : Bool := false
  random : Bytes := []
  source : Option RepositoryName := none
  sessionKeys : List SessionKey := []
  blobKeys : List BlobKey := []
  listed : Option String := none
  clock : Nat := 0

def hexEncode (bytes : Bytes) : String :=
  String.ofList (bytes.flatMap fun byte =>
    [lowerHexDigits.getD (byte.toNat / 16) '0', lowerHexDigits.getD (byte.toNat % 16) '0'])

def World.Fresh (world : World) (random : Bytes) : Prop :=
  random.length = 16 ∧ (∀ key ∈ world.uploads.named, key.id ≠ hexEncode random) ∧
    ∀ key ∈ world.sessions.issued, key.id ≠ hexEncode random

instance (world : World) (random : Bytes) : Decidable (world.Fresh random) :=
  inferInstanceAs (Decidable (_ ∧ _))

def performSession (world : World) (action : SessionAction) (choice : Choice) :
    Option (Sessions × SessionResponse action) :=
  let sessions := world.sessions
  match action with
  | .random =>
    some (sessions, match choice.error with
      | some error => .error error
      | none => .ok ())
  | .beginSession limit =>
    if limit = 0 || sessions.count < limit then
      some ({ sessions with count := sessions.count + 1 }, .ok ())
    else some (sessions, .error (.tooManySessions limit))
  | .insertPending repo =>
    if world.Fresh choice.random then
      some ({ sessions with
        pending := update sessions.pending ⟨repo, hexEncode choice.random⟩ true
        issued := ⟨repo, hexEncode choice.random⟩ :: sessions.issued },
        hexEncode choice.random)
    else none
  | .isPending key => some (sessions, sessions.pending key)
  | .takePending key =>
    some ({ sessions with pending := update sessions.pending key false },
      sessions.pending key)
  | .endSession => some ({ sessions with count := sessions.count - 1 }, ())
  | .listExpired => some (sessions, choice.sessionKeys.filter sessions.pending)
  | .listStale => some (sessions, choice.sessionKeys)
  | .isStale _ => some (sessions, choice.answer)

def World.tick (world : World) (clock : Nat) : World :=
  { world with collector := { world.collector with clock := max world.collector.clock clock } }

section

variable (world : World) (clock : Nat)

@[simp]
theorem World.tick_disk : (world.tick clock).disk = world.disk := rfl

@[simp]
theorem World.tick_uploads : (world.tick clock).uploads = world.uploads := rfl

@[simp]
theorem World.tick_sessions : (world.tick clock).sessions = world.sessions := rfl

end

/-- One action of call number `index`; `none` while it has to wait. -/
def perform (reader : JsonReader) (before : World) (index : Nat) (action : Action)
    (choice : Choice) : Option (World × Response action) :=
  let world := before.tick choice.clock
  match action with
  | .disk action =>
    let (disk, response) := world.disk.perform action choice.toDiskChoice
    some ({ world with disk := disk }, response)
  | .uploads action =>
    (world.uploads.perform index action).map fun outcome =>
      ({ world with uploads := outcome.1 }, outcome.2)
  | .sessions action =>
    (performSession world action choice).map fun outcome =>
      ({ world with sessions := outcome.1 }, outcome.2)
  | .admissions action =>
    (world.admissions.perform index action).map fun outcome =>
      ({ world with admissions := outcome.1 }, outcome.2)
  | .quota action =>
    let (quota, response) := world.quota.perform action
    some ({ world with quota := quota }, response)
  | .collector action =>
    (world.collector.perform index action choice.blobKeys).map fun outcome =>
      ({ world with collector := outcome.1 }, outcome.2)
  | .memory action =>
    let (memory, response) := world.memory.perform action choice.answer choice.source
    some ({ world with memory := memory }, response)
  | .metadata action =>
    let (metadata, response) :=
      performMetadata reader world.metadata action choice.error choice.effective choice.listed
    some ({ world with metadata := metadata }, response)
  | .listBlobs => some (world, choice.blobKeys)
  | .resume => some (world, ())
  | .nextChunk => some (world, ())

section

variable {reader : JsonReader} {world next : World} {index : Nat} {choice : Choice}

theorem perform_disk {action : DiskAction} {response : DiskResponse action}
    (performed : perform reader world index (.disk action) choice = some (next, response)) :
    ∃ after, next = { world.tick choice.clock with disk := after } ∧
      world.disk.Outcome after action response := by
  cases performed
  exact ⟨_, rfl, world.disk.outcome_perform action choice.toDiskChoice⟩

theorem perform_uploads {action : LockAction SessionKey (Option StagedHash)}
    {response : LockResponse action}
    (performed : perform reader world index (.uploads action) choice = some (next, response)) :
    ∃ uploads, world.uploads.perform index action = some (uploads, response) ∧
      next = { world.tick choice.clock with uploads := uploads } := by
  obtain ⟨⟨uploads, found⟩, locked, equal⟩ := Option.map_eq_some_iff.mp performed
  cases equal
  exact ⟨uploads, locked, rfl⟩

theorem perform_sessions {action : SessionAction} {response : SessionResponse action}
    (performed : perform reader world index (.sessions action) choice = some (next, response)) :
    ∃ sessions, performSession (world.tick choice.clock) action choice = some (sessions, response) ∧
      next = { world.tick choice.clock with sessions := sessions } := by
  obtain ⟨⟨sessions, found⟩, changed, equal⟩ := Option.map_eq_some_iff.mp performed
  cases equal
  exact ⟨sessions, changed, rfl⟩

section

variable {key : SessionKey} {action : SessionAction} {sessions : Sessions}
  {response : SessionResponse action}
  (changed : performSession world action choice = some (sessions, response))

include changed

theorem pending_of_performSession (key : SessionKey) :
    sessions.pending key = world.sessions.pending key ∨
      (∃ repo, action = .insertPending repo) ∧ key ∉ world.uploads.named ∨
      action = .takePending key ∧ sessions.pending key = false := by
  cases action with
  | beginSession limit =>
    simp only [performSession] at changed
    split at changed <;> cases changed <;> exact .inl rfl
  | insertPending repo =>
    simp only [performSession] at changed
    split at changed
    · rename_i fresh
      cases changed
      by_cases same : key = ⟨repo, hexEncode choice.random⟩
      · exact .inr (.inl ⟨⟨repo, rfl⟩, fun named => fresh.2.1 key named (by rw [same])⟩)
      · exact .inl (Function.update_of_ne same _ _)
    · cases changed
  | takePending taken =>
    cases changed
    by_cases same : key = taken
    · subst same
      exact .inr (.inr ⟨rfl, Function.update_self _ _ _⟩)
    · exact .inl (Function.update_of_ne same _ _)
  | _ =>
    cases changed
    exact .inl rfl

theorem settled_of_performSession (named : key ∈ world.uploads.named)
    (untaken : ∀ taken, action = .takePending taken → taken ≠ key) :
    sessions.pending key = world.sessions.pending key := by
  rcases pending_of_performSession changed key with same | ⟨_, unnamed⟩ | ⟨taken, _⟩
  · exact same
  · exact absurd named unnamed
  · exact absurd rfl (untaken key taken)

theorem settled_after (old : key ∈ world.uploads.named ∨ ∀ repo, action ≠ .insertPending repo)
    (settled : world.sessions.pending key = false) : sessions.pending key = false := by
  rcases pending_of_performSession changed key with same | ⟨⟨repo, begins⟩, new⟩ | ⟨_, taken⟩
  · exact same.trans settled
  · exact absurd begins (old.resolve_left new repo)
  · exact taken

end

/-- Actions on neither files nor upload sessions. -/
def Action.Elsewhere : Action → Prop
  | .disk _ => False
  | .uploads _ => False
  | .sessions _ => False
  | _ => True

theorem perform_elsewhere {action : Action} {response : Response action}
    (elsewhere : action.Elsewhere)
    (performed : perform reader world index action choice = some (next, response)) :
    ∃ rest : World, next = { rest with
      disk := world.disk, uploads := world.uploads, sessions := world.sessions } := by
  refine ⟨next, ?_⟩
  cases action with
  | disk action | uploads action | sessions action => exact elsewhere.elim
  | admissions action | collector action =>
    obtain ⟨_, _, equal⟩ := Option.map_eq_some_iff.mp performed
    cases equal
    rfl
  | _ =>
    cases performed
    rfl

end

/-- Whether a call can be dropped before the action, and a dropped one stops
there. -/
def Action.waits : Action → Bool
  | .uploads (.lock _) => true
  | .admissions (.lock _) => true
  | .collector .pin => true
  | .collector .exclusive => true
  | .resume => true
  | .nextChunk => true
  | _ => false

def Action.awaits : Action → Bool
  | .disk _ => true
  | action => action.waits

/-- A call is dropped: its guards, pins and references are gone. -/
def World.abandon (world : World) (index : Nat) : World :=
  { world with
    uploads := world.uploads.abandon index
    admissions := world.admissions.abandon index
    collector := { world.collector with
      pins := world.collector.pins.filter (· ≠ index)
      writer := if world.collector.writer = some index then none else world.collector.writer } }

end Roci.Filesystem
