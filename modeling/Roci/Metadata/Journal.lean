import Roci.Library.Interleaving
import Roci.Metadata.Store

/-!
# The log engine under concurrent calls

Any number of threads run `apply`, `apply_relaxed` and `maintain` on one engine.
The state lock guards the state in memory and the open log, the sync lock guards
the sync handle and the watermark, and the append counter is an atomic that is
read under the sync lock alone.  A call is spelled out action by action, so that
every interleaving the locks admit is a run.

No file operation fails here.  The name of a log that is created is taken to be
on disk at once; a rename is on disk once its directory has been synced, and
until then a crash leaves either file at the log path.
-/

namespace Roci.Metadata.Journal

open Roci.Library

/-- The engine and its files.  `path` is the file at the log path, `stable` the
one a crash may bring back there instead, and `written` the operations whose
records this process has written, in order. -/
structure World where
  files : List LogFile
  path : Option Nat
  stable : Option Nat
  ram : State
  log : Option Nat := none
  handle : Option Nat := none
  appended : Nat := 0
  synced : Nat := 0
  generation : UInt64
  imageLen : Nat
  inner : Option Nat := none
  sync : Option Nat := none
  written : List MetaOp := []

namespace World

def opened (existing : Option LogFile) (ram : State) (generation : UInt64) (imageLen : Nat) :
    World where
  files := existing.toList
  path := existing.map fun _ => 0
  stable := existing.map fun _ => 0
  ram := ram
  generation := generation
  imageLen := imageLen

/-- The file under a name; a missing one reads as empty. -/
def fileAt (world : World) (name : Option Nat) : LogFile :=
  (name.bind fun inode => world.files[inode]?).getD {}

/-- What a crash may leave at the log path. -/
def names (world : World) : List (Option Nat) := [world.path, world.stable]

end World

inductive Action where
  | lockInner
  | unlockInner
  | lockSync
  | unlockSync
  | readLog
  | openLog
  | write (inode : Nat) (bytes : Bytes) (op : MetaOp)
  | setLog (inode : Nat)
  | setHandle (inode : Nat)
  | fetchAdd
  | applyInRam (op : MetaOp)
  | readSynced
  | loadAppended
  | syncData
  | raiseSynced (covered : Nat)
  | setSynced (appended : Nat)
  | statLog
  | loadImageLen
  | readGeneration
  | createImage (generation : UInt64)
  | syncAll (inode : Nat)
  | rename (inode : Nat)
  | syncDirectory
  | reopen
  | storeImageLen (len : Nat)
  | setGeneration (generation : UInt64)

@[reducible]
def Response : Action → Type
  | .readLog => Option Nat
  | .openLog => Nat × Nat
  | .fetchAdd => Nat
  | .readSynced => Nat
  | .loadAppended => Nat
  | .statLog => Nat
  | .loadImageLen => Nat
  | .readGeneration => UInt64
  | .createImage _ => Nat
  | .syncAll _ => Nat
  | .reopen => Nat
  | _ => Unit

abbrev Routine (Result : Type) := Program Action Response Result

abbrev act (action : Action) : Routine (Response action) := Program.act action

variable (config : Config)

/-- The effect of an action of thread `me`.  The image is written in the order
the hash maps iterate in at that moment. -/
def perform (orders : Nat → IterOrder) (world : World) (me : Nat) :
    (action : Action) → Nat → Option (World × Response action)
  | .lockInner, _ =>
    if world.inner = none then some ({ world with inner := some me }, ()) else none
  | .unlockInner, _ => some ({ world with inner := none }, ())
  | .lockSync, _ =>
    if world.sync = none then some ({ world with sync := some me }, ()) else none
  | .unlockSync, _ => some ({ world with sync := none }, ())
  | .readLog, _ => some (world, world.log)
  | .openLog, _ =>
    match world.path with
    | some inode => some (world, inode, (world.fileAt (some inode)).content.length)
    | none =>
      some ({ world with
        files := world.files ++ [{}]
        path := some world.files.length
        stable := some world.files.length }, world.files.length, 0)
  | .write inode bytes op, _ =>
    some ({ world with
      files := world.files.modify inode fun file => file.write bytes
      written := world.written ++ [op] }, ())
  | .setLog inode, _ => some ({ world with log := some inode }, ())
  | .setHandle inode, _ => some ({ world with handle := some inode }, ())
  | .fetchAdd, _ => some ({ world with appended := world.appended + 1 }, world.appended + 1)
  | .applyInRam op, _ =>
    some ({ world with ram := world.ram.applyInRam config.env.reader op }, ())
  | .readSynced, _ => some (world, world.synced)
  | .loadAppended, _ => some (world, world.appended)
  | .syncData, _ =>
    match world.handle with
    | some inode => some ({ world with files := world.files.modify inode LogFile.sync }, ())
    | none => none
  | .raiseSynced covered, _ => some ({ world with synced := max world.synced covered }, ())
  | .setSynced appended, _ => some ({ world with synced := appended }, ())
  | .statLog, _ => some (world, (world.fileAt world.path).content.length)
  | .loadImageLen, _ => some (world, world.imageLen)
  | .readGeneration, _ => some (world, world.generation)
  | .createImage generation, choice =>
    some ({ world with
      files := world.files ++ [{
        unsynced := writeLogImage (orders choice) config.env config.key world.ram
          (some generation) }] }, world.files.length)
  | .syncAll inode, _ =>
    some ({ world with files := world.files.modify inode LogFile.sync },
      (world.fileAt (some inode)).content.length)
  | .rename inode, _ => some ({ world with path := some inode }, ())
  | .syncDirectory, _ => some ({ world with stable := world.path }, ())
  | .reopen, _ =>
    match world.path with
    | some inode => some (world, inode)
    | none => none
  | .storeImageLen len, _ => some ({ world with imageLen := len }, ())
  | .setGeneration generation, _ => some ({ world with generation := generation }, ())

def countRecord (op : MetaOp) : Routine Nat := do
  let seq ← act .fetchAdd
  act (.applyInRam op)
  act .unlockInner
  pure seq

def appendRecord (op : MetaOp) : Routine Nat := do
  let record := encodeRecord config.env config.key op
  act .lockInner
  let log ← act .readLog
  match log with
  | none =>
    let (inode, length) ← act .openLog
    let lead := if length = 0 then headerRecord config.env config.key else []
    act (.write inode (lead ++ record) op)
    act (.setLog inode)
    act .lockSync
    act (.setHandle inode)
    act .unlockSync
    countRecord op
  | some inode =>
    act (.write inode record op)
    countRecord op

def groupCommitThrough (seq : Nat) : Routine Unit := do
  act .lockSync
  let synced ← act .readSynced
  if seq ≤ synced then act .unlockSync
  else do
    let covered ← act .loadAppended
    act .syncData
    act (.raiseSynced covered)
    act .unlockSync

def installLog (tmp : Nat) : Routine Unit := do
  act (.rename tmp)
  act .syncDirectory
  let inode ← act .reopen
  act (.setLog inode)
  act .lockSync
  act (.setHandle inode)
  let appended ← act .loadAppended
  act (.setSynced appended)
  act .unlockSync

def doMaintain : Routine Unit := do
  let size ← act .statLog
  let imageLen ← act .loadImageLen
  if config.compactThreshold = 0 ∨ size - imageLen ≤ config.compactThreshold then pure ()
  else do
    act .lockInner
    let generation ← act .readGeneration
    let tmp ← act (.createImage (generation + 1))
    let len ← act (.syncAll tmp)
    installLog tmp
    act (.storeImageLen len)
    act (.setGeneration (generation + 1))
    act .unlockInner

inductive Call where
  | apply (op : MetaOp)
  | applyRelaxed (op : MetaOp)
  | maintain
deriving DecidableEq

def code : Call → Routine Unit
  | .apply op => do
      let seq ← appendRecord config op
      groupCommitThrough seq
  | .applyRelaxed op => do
      let _ ← appendRecord config op
      pure ()
  | .maintain => doMaintain config

/-- How far the holder of the state lock has come. -/
inductive Phase where
  | free
  | held
  | unopened
  | opened (inode : Nat)
  | wrote (inode : Nat) (op : MetaOp)
  | logged (inode : Nat) (op : MetaOp)
  | appending (inode : Nat)
  | ready (op : MetaOp)
  | counted (op : MetaOp)
  | imaged (inode : Nat)
  | flushed (inode : Nat)
  | renamed (inode : Nat)
  | placed (inode : Nat)
  | attached (inode : Nat)
  | switched (inode : Nat)
  | measured (inode appended : Nat)

/-- How far the holder of the sync lock has come. -/
inductive Commit where
  | free
  | held
  | loaded (covered : Nat)
  | reached (covered : Nat)

/-- What a thread knows: how far it has come under either lock, the sequence
number of its operation, and a watermark it has seen. -/
structure Notes where
  phase : Phase := .free
  commit : Commit := .free
  ticket : Option (MetaOp × Nat) := none
  floor : Nat := 0

def Phase.afterWrite (inode : Nat) (op : MetaOp) : Phase → Phase
  | opened _ => wrote inode op
  | _ => ready op

def Phase.afterSetLog (inode : Nat) : Phase → Phase
  | wrote _ op => logged inode op
  | _ => attached inode

def Phase.afterSetHandle (inode : Nat) : Phase → Phase
  | logged _ op => ready op
  | _ => switched inode

def Phase.afterLoad (appended : Nat) : Phase → Phase
  | switched inode => measured inode appended
  | phase => phase

def Phase.afterSyncDirectory : Phase → Phase
  | renamed inode => placed inode
  | phase => phase

def Commit.afterSync : Commit → Commit
  | loaded covered => reached covered
  | commit => commit

def observe (notes : Notes) : (action : Action) → Response action → Notes
  | .lockInner, _ => { notes with phase := .held }
  | .unlockInner, _ => { notes with phase := .free }
  | .lockSync, _ => { notes with commit := .held }
  | .unlockSync, _ => { notes with commit := .free }
  | .readLog, none => { notes with phase := .unopened }
  | .readLog, some inode => { notes with phase := .appending inode }
  | .openLog, (inode, _) => { notes with phase := .opened inode }
  | .write inode _ op, _ => { notes with phase := notes.phase.afterWrite inode op }
  | .setLog inode, _ => { notes with phase := notes.phase.afterSetLog inode }
  | .setHandle inode, _ => { notes with phase := notes.phase.afterSetHandle inode }
  | .fetchAdd, seq =>
    match notes.phase with
    | .ready op => { notes with phase := .counted op, ticket := some (op, seq) }
    | _ => notes
  | .applyInRam _, _ => { notes with phase := .held }
  | .readSynced, synced => { notes with floor := max notes.floor synced }
  | .loadAppended, appended =>
    { notes with phase := notes.phase.afterLoad appended, commit := .loaded appended }
  | .syncData, _ => { notes with commit := notes.commit.afterSync }
  | .raiseSynced covered, _ =>
    { notes with commit := .held, floor := max notes.floor covered }
  | .setSynced _, _ => { notes with phase := .held, commit := .held }
  | .createImage _, inode => { notes with phase := .imaged inode }
  | .syncAll inode, _ => { notes with phase := .flushed inode }
  | .rename inode, _ => { notes with phase := .renamed inode }
  | .syncDirectory, _ => { notes with phase := notes.phase.afterSyncDirectory }
  | .reopen, inode => { notes with phase := .placed inode }
  | _, _ => notes

/-- Threads are never cut off in the middle of a call. -/
def machine (orders : Nat → IterOrder) :
    Machine World Call Action Response Unit Notes Nat where
  code := code config
  perform := perform config orders
  observe := observe
  idle := {}
  detach notes := notes
  blocking _ := false
  awaits _ := false
  abandon world _ := world

end Roci.Metadata.Journal
