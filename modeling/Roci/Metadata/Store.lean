import Roci.Metadata.Compaction

/-!
# The log engine as a machine

One process keeps the state in memory and appends a record per operation to
the file named `roci-meta.log`.  A call of `apply` appends under the state lock
and is acknowledged by a group commit under the sync lock; compaction writes an
image to a temporary file and renames it over the log.  Every file operation
can fail where the source lets it fail, and a crash keeps the synced bytes and
some prefix of the rest.

Files are known by their inode, since a handle keeps writing to the file it was
opened on after the name has moved to another one.
-/

namespace Roci.Metadata

open Roci.Library

/-- A file: bytes that survive a crash, and bytes that may not. -/
structure LogFile where
  synced : Bytes := []
  unsynced : Bytes := []

namespace LogFile

def content (file : LogFile) : Bytes := file.synced ++ file.unsynced

def write (file : LogFile) (bytes : Bytes) : LogFile :=
  { file with unsynced := file.unsynced ++ bytes }

def sync (file : LogFile) : LogFile where
  synced := file.content

def crash (keep : Nat) (file : LogFile) : LogFile where
  synced := file.synced ++ file.unsynced.take keep

end LogFile

inductive WriteOutcome where
  | openFails
  | setupFails
  | writeFails (written : Nat)
  | done

inductive CompactFault where
  | image
  | rename
  | directory
  | reopen
  | clone
deriving DecidableEq

/-- An operation some call tried to append.  `ticket` is its sequence number in
the running process when the append succeeded; `acked` says that `apply`
returned success. -/
structure Issued where
  op : MetaOp
  ticket : Option Nat
  acked : Bool

structure Config where
  env : Env
  key : Option HmacKey
  compactThreshold : Nat

/-- The engine, its files, and the record of what callers were told. -/
structure Store where
  files : List LogFile := []
  logPath : Option Nat := none
  ram : State := {}
  log : Option Nat := none
  syncHandle : Option Nat := none
  appended : Nat := 0
  synced : Nat := 0
  committing : Option (Nat × Nat) := none
  waiting : List Nat := []
  generation : UInt64 := 0
  imageLen : Nat := 0
  issued : List Issued := []

variable (store : Store) (config : Config)

namespace Store

/-- The file at the log path; a missing one reads as empty. -/
def logFile : LogFile := (store.logPath.bind fun inode => store.files[inode]?).getD {}

def logBytes : Bytes := store.logFile.content

def write (inode : Nat) (bytes : Bytes) : Store :=
  { store with files := store.files.modify inode fun file => file.write bytes }

def openLog : Store × Nat :=
  match store.logPath with
  | some inode => (store, inode)
  | none =>
    ({ store with files := store.files ++ [{}], logPath := some store.files.length },
      store.files.length)

def reject (op : MetaOp) : Store := { store with issued := store.issued ++ [⟨op, none, false⟩] }

def accept (store : Store) (op : MetaOp) (durable : Bool) : Store :=
  { store with
    appended := store.appended + 1
    ram := store.ram.applyInRam config.env.reader op
    waiting := if durable then (store.appended + 1) :: store.waiting else store.waiting
    issued := store.issued ++ [⟨op, some (store.appended + 1), false⟩] }

/-- `append_record`, on behalf of `apply` when `durable` and of `apply_relaxed`
otherwise.  The handle is kept only when the first write through it succeeds. -/
def append (store : Store) (op : MetaOp) (durable : Bool) :
    WriteOutcome → Option Store
  | .openFails =>
    match store.log with
    | some _ => none
    | none => some (store.reject op)
  | .setupFails =>
    match store.log with
    | some _ => none
    | none => some (store.openLog.1.reject op)
  | .writeFails written =>
    match store.log with
    | some inode =>
      some ((store.write inode
        ((encodeRecord config.env config.key op).take written)).reject op)
    | none =>
      let (opened, inode) := store.openLog
      some ((opened.write inode
        ((appendedBytes config.env config.key opened.logBytes op).take written)).reject op)
  | .done =>
    match store.log with
    | some inode =>
      some ((store.write inode (encodeRecord config.env config.key op)).accept config op
        durable)
    | none =>
      let (opened, inode) := store.openLog
      some ({ opened.write inode
          (appendedBytes config.env config.key opened.logBytes op) with
        log := some inode
        syncHandle := some inode }.accept config op durable)

/-- `apply` returns success to the caller that holds `seq`. -/
def acknowledge (seq : Nat) : Store :=
  { store with
    waiting := store.waiting.erase seq
    issued := store.issued.map fun entry =>
      if entry.ticket = some seq then { entry with acked := true } else entry }

/-- `group_commit_through` takes the sync lock: either its record is already
covered, or it notes how far the coming sync will reach. -/
def load (seq : Nat) : Option Store :=
  if seq ∈ store.waiting ∧ store.committing = none then
    if seq ≤ store.synced then some (store.acknowledge seq)
    else some { store with committing := some (seq, store.appended) }
  else none

/-- Everything written through the handle is on disk. -/
def synchronise (inode covered : Nat) : Store :=
  { store with
    files := store.files.modify inode LogFile.sync
    synced := max store.synced covered
    committing := none }

/-- The sync itself, still under the sync lock. -/
def sync (succeeds : Bool) : Option Store :=
  match store.committing, store.syncHandle with
  | some (seq, covered), some inode =>
    if succeeds then some ((store.synchronise inode covered).acknowledge seq)
    else some { store with committing := none, waiting := store.waiting.erase seq }
  | _, _ => none

/-- Whether the log has grown past the threshold since the last image. -/
def due (store : Store) : Bool :=
  config.compactThreshold ≠ 0 &&
    config.compactThreshold < store.logBytes.length - store.imageLen

/-- The image renamed over the log; the open handles stay on the old file. -/
def renamed (store : Store) (order : IterOrder) : Store :=
  { store with
    files := store.files ++
      [{ synced := writeLogImage order config.env config.key store.ram
          (some (store.generation + 1)) }]
    logPath := some store.files.length }

def maintain (store : Store) (order : IterOrder) :
    Option CompactFault → Option Store
  | some .image => some store
  | some .rename => some store
  | some .directory => some (if store.due config then store.renamed config order else store)
  | some .reopen => some (if store.due config then store.renamed config order else store)
  | some .clone => some (if store.due config then store.renamed config order else store)
  | none =>
    if store.due config then
      if store.committing = none then
        some { store.renamed config order with
          log := some store.files.length
          syncHandle := some store.files.length
          synced := store.appended
          imageLen := (writeLogImage order config.env config.key store.ram
            (some (store.generation + 1))).length
          generation := store.generation + 1 }
      else none
    else some store

def afterCrash (keep : Nat) : Bytes := (store.logFile.crash keep).content

/-- A crash that keeps `keep` unsynced bytes, and the next open.  A log of the
wrong framing is moved aside unless the rename fails. -/
def reopen (store : Store) (keep : Nat) (moves : Bool) : Store :=
  let bytes := store.afterCrash keep
  let opened := openInner config.env config.key bytes
  let gone := opened.movedAside && moves
  { files :=
      match store.logPath with
      | some inode => store.files.modify inode (LogFile.crash keep)
      | none => store.files
    logPath := if gone then none else store.logPath
    ram := opened.state
    generation := opened.generation
    imageLen := if gone then 0 else bytes.length
    issued := store.issued.map fun entry => { entry with ticket := none } }

end Store

inductive Event where
  | append (op : MetaOp) (durable : Bool) (outcome : WriteOutcome)
  | load (seq : Nat)
  | sync (succeeds : Bool)
  | maintain (order : IterOrder) (fault : Option CompactFault)
  | reopen (keep : Nat) (moves : Bool)

def Store.step (store : Store) : Event → Option Store
  | .append op durable outcome => store.append config op durable outcome
  | .load seq => store.load seq
  | .sync succeeds => store.sync succeeds
  | .maintain order fault => store.maintain config order fault
  | .reopen keep moves => some (store.reopen config keep moves)

end Roci.Metadata
