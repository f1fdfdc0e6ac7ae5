import Roci.Library.Interleaving
import Roci.Manifests.Links

/-!
# What the calls of a repository share

The blobs of one repository, its metadata, the garbage collector's candidates
and its fence, and the cache of small blobs, with the atomic actions on them:
each is one system call or one critical section of the source.  Actions can
fail where the source lets them fail.

The presence filter may answer anything, and other repositories hold whatever a
link from them finds; both are left to the `Choice` of an action.
-/

namespace Roci.Manifests

open Roci.Library Roci.Storage Roci.Metadata

/-- An order a hash map of stamps lists its entries in. -/
structure Arrangement where
  arrange : List (String × Nat) → List (String × Nat)
  perm : ∀ entries, (arrange entries).Perm entries

def Arrangement.sorted : Arrangement where
  arrange entries := entries
  perm entries := List.Perm.refl entries

structure GcTracker where
  enabled : Bool := true
  delay : Nat := 0
  candidates : StringMap Nat := ∅
  ready : Bool := true
  roots : List String := []
  unsafeRepo : Bool := false

variable (tracker : GcTracker)

namespace GcTracker

variable (digest : String)

def markAt (stamp : Nat) : GcTracker :=
  if tracker.enabled then { tracker with candidates := tracker.candidates.insert digest stamp }
  else tracker

def touch (now : Nat) : GcTracker :=
  if tracker.enabled && tracker.candidates.contains digest then
    { tracker with candidates := tracker.candidates.insert digest now }
  else tracker

def clear : GcTracker :=
  if tracker.enabled then { tracker with candidates := tracker.candidates.erase digest }
  else tracker

/-- The candidates whose stamp is old enough, as the map lists them. -/
def due (arrangement : Arrangement) (now : Nat) : List String :=
  ((arrangement.arrange tracker.candidates.toList).filter fun candidate =>
    tracker.delay ≤ now - candidate.2).map Prod.fst

def isDue (now : Nat) : Bool :=
  tracker.candidates[digest]?.any fun stamp => tracker.delay ≤ now - stamp

def isReady : Bool := tracker.enabled && tracker.ready

end GcTracker

/-- Shared state.  `pins` and `writer` are the holders of the fence.  `pushed`
is not kept by the program: it remembers the body each record was made for. -/
structure World where
  files : StringMap Bytes := ∅
  metadata : State := {}
  gc : GcTracker := {}
  cache : StringMap Bytes := ∅
  pins : List Nat := []
  writer : Option Nat := none
  pushed : StringMap Bytes := ∅

/-- One system call or one critical section. -/
inductive Action where
  | pin
  | unpin
  | exclusive
  | release
  | layoutAndAdmit (size : Nat)
  | dedupeLink (digest : String)
  | publishBytes (digest : String) (data : Bytes)
  | renameStaged (digest : String) (staged : Bytes)
  | unlinkStaged
  | sourceSize (digest : String)
  | sourceChecksum (digest : String)
  | mountPromote (digest : String)
  | stat (digest : String)
  | readFile (digest : String)
  | unlink (digest : String)
  | maybePresent (digest : String)
  | cacheGet (digest : String)
  | cachePut (digest : String) (data : Bytes)
  | cacheInvalidate (digest : String)
  | checksum (digest : String)
  | backrefs (digest : String)
  | manifestMediaType (digest : String)
  | apply (op : MetaOp) (body : Bytes)
  | applyRelaxed (op : MetaOp)
  | mark (digest : Digest)
  | touch (digest : String)
  | clear (digest : String)
  | isReady
  | due (now : Nat)
  | isDue (digest : String) (now : Nat)
  | isRoot (digest : String)
  | isUnsafe

abbrev Response : Action → Type
  | .layoutAndAdmit _ => Except StorageError Unit
  | .dedupeLink _ => Bool
  | .publishBytes _ _ => Except StorageError Unit
  | .renameStaged _ _ => Except StorageError Unit
  | .unlinkStaged => Except StorageError Unit
  | .sourceSize _ => Except StorageError Nat
  | .sourceChecksum _ => Option BlobChecksum
  | .mountPromote _ => Except StorageError Unit
  | .stat _ => Except StorageError (Option Nat)
  | .readFile _ => Except StorageError Bytes
  | .unlink _ => Except StorageError Unit
  | .maybePresent _ => Bool
  | .cacheGet _ => Option Bytes
  | .checksum _ => Option BlobChecksum
  | .backrefs _ => List String
  | .manifestMediaType _ => Option String
  | .apply _ _ => Except StorageError Unit
  | .applyRelaxed _ => Except StorageError Unit
  | .isReady => Bool
  | .due _ => List String
  | .isDue _ _ => Bool
  | .isRoot _ => Bool
  | .isUnsafe => Bool
  | _ => Unit

/-- What an action depends on besides the shared state.  With `effective` a
failing action has taken effect before it failed: the directory sync behind a
link, the log sync behind an append. -/
structure Choice where
  error : Option StorageError := none
  effective : Bool := false
  answer : Bool := true
  bytes : Option Bytes := none
  checksum : Option BlobChecksum := none
  clock : Nat := 0
  arrangement : Arrangement := .sorted

namespace World

variable (world : World)

/-- A file is never replaced. -/
def link (digest : String) (data : Bytes) : World :=
  if world.files.contains digest then world
  else { world with files := world.files.insert digest data }

def place (digest : String) (data : Bytes) (choice : Choice) : World × Except StorageError Unit :=
  match choice.error with
  | none => (world.link digest data, .ok ())
  | some error => (if choice.effective then world.link digest data else world, .error error)

def note (op : MetaOp) (body : Bytes) : StringMap Bytes :=
  match op with
  | .putManifest _ digest _ _ _ _ => world.pushed.insert digest body
  | _ => world.pushed

def record (reader : JsonReader) (world : World) (op : MetaOp) (body : Bytes) : World :=
  { world with
    metadata := world.metadata.applyInRam reader op
    pushed := world.note op body }

def logged (reader : JsonReader) (world : World) (op : MetaOp) (body : Bytes) (choice : Choice) :
    World × Except StorageError Unit :=
  match choice.error with
  | none => (world.record reader op body, .ok ())
  | some error => (if choice.effective then world.record reader op body else world, .error error)

end World

section

variable (reader : JsonReader) (repo : String)

/-- One action of call number `index`; `none` while it has to wait. -/
def perform (world : World) (index : Nat) (action : Action) (choice : Choice) :
    Option (World × Response action) :=
  match action with
  | .pin =>
    if world.gc.enabled then
      if world.writer.isNone then some ({ world with pins := index :: world.pins }, ())
      else none
    else some (world, ())
  | .unpin => some ({ world with pins := world.pins.filter (· ≠ index) }, ())
  | .exclusive =>
    if world.writer.isNone && world.pins.isEmpty then
      some ({ world with writer := some index }, ())
    else none
  | .release => some ({ world with writer := none }, ())
  | .layoutAndAdmit _ =>
    some (world, match choice.error with
      | some error => .error error
      | none => .ok ())
  | .dedupeLink digest =>
    match choice.bytes with
    | none => some (world, false)
    | some bytes => some (world.link digest bytes, choice.error.isNone)
  | .publishBytes digest data => some (world.place digest data choice)
  | .renameStaged digest staged => some (world.place digest staged choice)
  | .unlinkStaged =>
    some (world, match choice.error with
      | some error => .error error
      | none => .ok ())
  | .sourceSize _ =>
    some (world, match choice.error with
      | some error => .error error
      | none => .ok ((choice.bytes.map List.length).getD 0))
  | .sourceChecksum _ => some (world, choice.checksum)
  | .mountPromote digest =>
    match choice.bytes with
    | none => some (world, .error (choice.error.getD .notFound))
    | some bytes => some (world.place digest bytes choice)
  | .stat digest =>
    some (world, match choice.error with
      | some error => .error error
      | none => .ok (world.files[digest]?.map List.length))
  | .readFile digest =>
    some (world, match choice.error, world.files[digest]? with
      | some error, _ => .error error
      | none, some bytes => .ok bytes
      | none, none => .error .notFound)
  | .unlink digest =>
    match choice.error with
    | some error => some (world, .error error)
    | none =>
      if world.files.contains digest then
        some ({ world with files := world.files.erase digest }, .ok ())
      else some (world, .error .notFound)
  | .maybePresent _ => some (world, choice.answer)
  | .cacheGet digest =>
    some (world, if choice.answer then world.cache[digest]? else none)
  | .cachePut digest data =>
    some (if choice.answer then { world with cache := world.cache.insert digest data }
      else world, ())
  | .cacheInvalidate digest => some ({ world with cache := world.cache.erase digest }, ())
  | .checksum digest => some (world, world.metadata.checksum repo digest)
  | .backrefs digest => some (world, world.metadata.backrefs repo digest)
  | .manifestMediaType digest => some (world, world.metadata.manifestMediaType repo digest)
  | .apply op body => some (world.logged reader op body choice)
  | .applyRelaxed op => some (world.logged reader op [] choice)
  | .mark digest =>
    some ({ world with gc := world.gc.markAt digest.asString choice.clock }, ())
  | .touch digest => some ({ world with gc := world.gc.touch digest choice.clock }, ())
  | .clear digest => some ({ world with gc := world.gc.clear digest }, ())
  | .isReady => some (world, world.gc.isReady)
  | .due now => some (world, world.gc.due choice.arrangement now)
  | .isDue digest now => some (world, world.gc.isDue digest now)
  | .isRoot digest => some (world, digest ∈ world.gc.roots)
  | .isUnsafe => some (world, world.gc.unsafeRepo)

end

/-- What a call has seen and holds: its place at the fence, the blobs it found
present under its pin, the blob it found without backrefs, the manifest file it
is putting or has put in place and not recorded yet, and the one it has unlinked
and not deleted from the metadata yet. -/
structure Notes where
  pinned : Bool := false
  exclusive : Bool := false
  vouched : List String := []
  unreferenced : Option String := none
  landing : Option String := none
  landed : Option String := none
  unlinked : Option String := none

def observe (notes : Notes) (action : Action) (response : Response action) : Notes :=
  match action, response with
  | .pin, _ => { notes with pinned := true, vouched := [] }
  | .unpin, _ => { notes with pinned := false, vouched := [] }
  | .exclusive, _ => { notes with exclusive := true, unreferenced := none }
  | .release, _ => { notes with exclusive := false, unreferenced := none, unlinked := none }
  | .dedupeLink digest, linked =>
    { notes with landing := some digest, landed := if linked then some digest else none }
  | .publishBytes digest _, .ok () => { notes with landing := some digest, landed := some digest }
  | .stat digest, .ok (some _) => { notes with vouched := digest :: notes.vouched }
  | .backrefs digest, manifests =>
    { notes with unreferenced := if manifests.isEmpty then some digest else none }
  | .unlink digest, .ok () => { notes with unlinked := some digest }
  | .apply (.putManifest ..) _, _ => { notes with landing := none, landed := none }
  | .apply (.deleteManifest ..) _, _ => { notes with unlinked := none }
  | _, _ => notes

theorem update_field {Value : Type} {notes : Nat → Notes} {index : Nat} {changed : Notes}
    (field : Notes → Value) (same : field changed = field (notes index)) (other : Nat) :
    field (Function.update notes index changed other) = field (notes other) := by
  by_cases equal : other = index
  · subst equal
    rw [Function.update_self, same]
  · rw [Function.update_of_ne equal]

/-! ## What an action can do -/

namespace World

def Holds (world : World) (digest : String) : Prop := (world.files[digest]?).isSome = true

instance (world : World) (digest : String) : Decidable (world.Holds digest) :=
  inferInstanceAs (Decidable (_ = true))

/-- The worlds differ at most in the cache and the candidates. -/
structure Same (next world : World) : Prop where
  files : next.files = world.files
  metadata : next.metadata = world.metadata
  pins : next.pins = world.pins
  writer : next.writer = world.writer
  pushed : next.pushed = world.pushed
  enabled : next.gc.enabled = world.gc.enabled

theorem holds_link (world : World) (digest other : String) (data : Bytes) :
    (world.link digest data).Holds other ↔ other = digest ∨ world.Holds other := by
  unfold link Holds
  split
  · rename_i present
    have found : (world.files[digest]?).isSome = true := by simpa using present
    constructor
    · exact .inr
    rintro (rfl | kept)
    · exact found
    · exact kept
  rw [StringMap.lookup_insert]
  by_cases same : other = digest <;> simp [same]

theorem holds_erase (world : World) (digest other : String) :
    ({ world with files := world.files.erase digest } : World).Holds other ↔
      other ≠ digest ∧ world.Holds other := by
  unfold Holds
  rw [StringMap.lookup_erase]
  by_cases same : other = digest <;> simp [same]

theorem link_eq (world : World) (digest : String) (data : Bytes) :
    ∃ files, world.link digest data = { world with files := files } := by
  unfold link
  split
  · exact ⟨world.files, rfl⟩
  · exact ⟨_, rfl⟩

variable {choice : Choice} {response : Except StorageError Unit} {world : World}

theorem place_cases {next : World} {digest : String} {data : Bytes}
    (placed : world.place digest data choice = (next, response)) :
    (next = world ∨ next = world.link digest data) ∧
      (response = .ok () → next = world.link digest data) := by
  unfold place at placed
  split at placed
  · cases placed
    exact ⟨.inr rfl, fun _ => rfl⟩
  cases placed
  refine ⟨?_, fun done => by cases done⟩
  split
  · exact .inr rfl
  · exact .inl rfl

theorem logged_cases {reader : JsonReader} {next : World} {op : MetaOp} {body : Bytes}
    (logged : world.logged reader op body choice = (next, response)) :
    (next = world ∨ next = world.record reader op body) ∧
      (response = .ok () → next = world.record reader op body) := by
  unfold World.logged at logged
  split at logged
  · cases logged
    exact ⟨.inr rfl, fun _ => rfl⟩
  cases logged
  refine ⟨?_, fun done => by cases done⟩
  split
  · exact .inr rfl
  · exact .inl rfl

end World

/-- Actions that touch neither a file nor the metadata nor the fence. -/
def Action.quiet : Action → Bool
  | .pin | .unpin | .exclusive | .release | .dedupeLink _ | .publishBytes _ _
  | .renameStaged _ _ | .mountPromote _ | .unlink _ | .apply _ _ | .applyRelaxed _ => false
  | _ => true

def Action.fencing : Action → Bool
  | .pin | .unpin | .exclusive | .release => true
  | _ => false

/-- The blob the action may put in place. -/
def Action.placing : Action → Option String
  | .dedupeLink digest | .publishBytes digest _ | .renameStaged digest _ | .mountPromote digest =>
    some digest
  | _ => none

section

variable {reader : JsonReader} {repo : String} {world next : World} {index : Nat}
  {choice : Choice} {digest : String}

section

variable {action : Action} {response : Response action}
  (performed : perform reader repo world index action choice = some (next, response))

include performed

theorem perform_quiet_eq (quiet : action.quiet = true) :
    ∃ candidates cache, next =
      { world with gc := { world.gc with candidates := candidates }, cache := cache } := by
  cases action <;> cases quiet <;>
    simp only [perform, Option.some.injEq, Prod.mk.injEq] at performed <;>
    obtain ⟨rfl, _⟩ := performed
  case mark | touch | clear =>
    simp only [GcTracker.markAt, GcTracker.touch, GcTracker.clear]
    split <;> exact ⟨_, _, rfl⟩
  case cachePut => split <;> exact ⟨_, _, rfl⟩
  all_goals exact ⟨_, _, rfl⟩

theorem perform_quiet (quiet : action.quiet = true) : next.Same world := by
  obtain ⟨candidates, cache, rfl⟩ := perform_quiet_eq performed quiet
  exact ⟨rfl, rfl, rfl, rfl, rfl, rfl⟩

theorem perform_fencing (fencing : action.fencing = true) :
    ∃ pins writer, next = { world with pins := pins, writer := writer } := by
  cases action <;> cases fencing <;> simp only [perform] at performed
  case unpin | release =>
    cases performed
    exact ⟨_, _, rfl⟩
  all_goals
    repeat' split at performed
    all_goals cases performed <;> exact ⟨_, _, rfl⟩

theorem perform_placing (placing : action.placing = some digest) :
    next = world ∨ ∃ data, next = world.link digest data := by
  cases action <;> cases placing <;> simp only [perform] at performed
  case dedupeLink =>
    split at performed <;> cases performed
    · exact .inl rfl
    · exact .inr ⟨_, rfl⟩
  case mountPromote =>
    split at performed
    · cases performed
      exact .inl rfl
    · exact (World.place_cases (Option.some.inj performed)).1.imp_right fun linked => ⟨_, linked⟩
  all_goals
    exact (World.place_cases (Option.some.inj performed)).1.imp_right fun linked => ⟨_, linked⟩

end

theorem perform_dedupeLink {response : Bool}
    (performed : perform reader repo world index (.dedupeLink digest) choice =
      some (next, response)) :
    (next = world ∧ response = false) ∨ ∃ data, next = world.link digest data := by
  simp only [perform] at performed
  split at performed
  · cases performed
    exact .inl ⟨rfl, rfl⟩
  cases performed
  exact .inr ⟨_, rfl⟩

theorem perform_unlink {response : Except StorageError Unit}
    (performed : perform reader repo world index (.unlink digest) choice = some (next, response)) :
    (next = world ∧ ∃ error, response = .error error) ∨
      (response = .ok () ∧ next = { world with files := world.files.erase digest }) := by
  simp only [perform] at performed
  split at performed
  · cases performed
    exact .inl ⟨rfl, _, rfl⟩
  split at performed
  · cases performed
    exact .inr ⟨rfl, rfl⟩
  cases performed
  exact .inl ⟨rfl, _, rfl⟩

end

end Roci.Manifests
