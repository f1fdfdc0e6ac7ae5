import Roci.Library.Crash
import Roci.Migration.Stores

/-!
# Switching the metadata engine

A migration copies the records of one engine to the other.  It is a program of
file operations on the store's root directory and can be cut off between any two
of them.
-/

namespace Roci.Migration

open Roci.Library Roci.Metadata Roci.Lmdb
open Function (update)

/-! ## The root directory -/

inductive Place where
  /-- `roci-meta.engine` -/
  | marker
  /-- `roci-meta.engine.tmp` -/
  | markerTmp
  /-- `roci-meta.log` or `roci-meta.lmdb` -/
  | artifact (engine : MetadataEngine)
  /-- `roci-meta.log.migrating` or `roci-meta.lmdb.migrating` -/
  | migrating (engine : MetadataEngine)
  /-- `roci-meta.log.migrating.verify` -/
  | verifyDir
  /-- The log in the directory for the comparison. -/
  | verifyLog
  /-- An artifact set aside, with the second it was. -/
  | migrated (engine : MetadataEngine) (seconds : Nat)
  /-- A log whose framing does not fit the key, moved aside next to where it
  was: in the root or in the directory for the comparison. -/
  | untrusted (verify : Bool) (seconds : Nat)
deriving DecidableEq

inductive Node where
  | file (bytes : Bytes)
  | directory
  /-- A directory with the data of an embedded engine. -/
  | database (tables : Tables)

def Node.isDir : Node → Bool
  | .file _ => false
  | _ => true

abbrev Disk := Place → Option Node

inductive IoError where
  | notFound
  | unsuitable
  | notEmpty
  | invalidMarker
  | heed (error : HeedError)
  | verify (error : VerifyError)
deriving DecidableEq

inductive FileOp where
  | present (place : Place)
  | isDir (place : Place)
  | read (place : Place)
  | create (place : Place)
  | append (place : Place) (bytes : Bytes)
  | sync
  | removeFile (place : Place)
  | emptyDir (place : Place)
  | removeDir (place : Place)
  | rename (source target : Place)
  | createDirAll (place : Place)
  | copy (source target : Place)
  | openEnv (place : Place)
  | bulkApply (place : Place) (ops : List MetaOp)
  | unixTs

abbrev FileOp.Response : FileOp → Type
  | .present _ => Bool
  | .isDir _ => Bool
  | .read _ => Option Bytes
  | .create _ => Except IoError Unit
  | .rename _ _ => Except IoError Unit
  | .createDirAll _ => Except IoError Unit
  | .copy _ _ => Except IoError Unit
  | .openEnv _ => Except IoError Tables
  | .bulkApply _ _ => Except IoError Unit
  | .unixTs => Nat
  | _ => Unit

/-- A file replaces a file; nothing replaces a directory. -/
def replaceable : Node → Option Node → Bool
  | _, none => true
  | .file _, some (.file _) => true
  | _, _ => false

def openedEnv : Option Node → Except IoError Tables
  | none => .ok {}
  | some .directory => .ok {}
  | some (.database tables) => .ok tables
  | some (.file _) => .error .unsuitable

def Place.inVerifyDir : Place → Bool
  | .verifyLog => true
  | .untrusted verify _ => verify
  | _ => false

/-- A directory loses its files; without its data a database is a directory. -/
def emptied (disk : Disk) (place : Place) : Disk :=
  match place, disk place with
  | .verifyDir, _ => fun other => if other.inVerifyDir then none else disk other
  | place, some (.database _) => update disk place (some .directory)
  | _, _ => disk

def effect (reader : JsonReader) (disk : Disk) :
    (op : FileOp) → Nat → Disk × op.Response
  | .present place, _ => (disk, (disk place).isSome)
  | .isDir place, _ => (disk, (disk place).any Node.isDir)
  | .read place, _ => (disk,
      match disk place with
      | some (.file bytes) => some bytes
      | _ => none)
  | .create place, _ =>
    if (disk place).any Node.isDir then (disk, .error .unsuitable)
    else (update disk place (some (.file [])), .ok ())
  | .append place bytes, _ =>
    match disk place with
    | some (.file before) => (update disk place (some (.file (before ++ bytes))), ())
    | _ => (disk, ())
  | .sync, _ => (disk, ())
  | .removeFile place, _ =>
    if (disk place).any Node.isDir then (disk, ()) else (update disk place none, ())
  | .emptyDir place, _ => (emptied disk place, ())
  | .removeDir place, _ =>
    match disk place with
    | some .directory => (update disk place none, ())
    | _ => (disk, ())
  | .rename source target, _ =>
    match disk source with
    | none => (disk, .error .notFound)
    | some node =>
      if replaceable node (disk target) then
        (update (update disk source none) target (some node), .ok ())
      else (disk, .error .notEmpty)
  | .createDirAll place, _ =>
    match disk place with
    | none => (update disk place (some .directory), .ok ())
    | some (.file _) => (disk, .error .unsuitable)
    | some _ => (disk, .ok ())
  | .copy source target, _ =>
    match disk source with
    | some (.file bytes) =>
      if (disk target).any Node.isDir then (disk, .error .unsuitable)
      else (update disk target (some (.file bytes)), .ok ())
    | _ => (disk, .error .notFound)
  | .openEnv place, _ =>
    match openedEnv (disk place) with
    | .ok tables => (update disk place (some (.database tables)), .ok tables)
    | .error error => (disk, .error error)
  | .bulkApply place ops, _ =>
    match disk place with
    | some (.database tables) =>
      match tables.bulkApply reader ops with
      | .ok result => (update disk place (some (.database result)), .ok ())
      | .error error => (disk, .error (.heed error))
    | _ => (disk, .error .notFound)
  | .unixTs, now => (disk, now)

/-! ## The programs -/

abbrev Prog (Result : Type) := Program FileOp FileOp.Response Result

abbrev act (op : FileOp) : Prog op.Response := Program.act op

/-- What a process brings along: the key, the order its hash maps iterate in,
and how its buffered writer cuts what it writes. -/
structure Setup where
  env : Metadata.Env
  key : Option HmacKey
  order : IterOrder
  cut : Bytes → List Bytes
  flatten_cut : ∀ bytes, (cut bytes).flatten = bytes

/-- A process on the default configuration. -/
def plainSetup : Setup where
  env := .concrete
  key := none
  order := .sorted
  cut bytes := [bytes]
  flatten_cut := by simp

structure EngineMarker where
  engine : String
  format : String

/-- A marker is a JSON object, or an array, with the two texts. -/
def markerOfJson : Json → Option EngineMarker
  | .array [engine, format] => do pure ⟨← engine.asStr, ← format.asStr⟩
  | value => do
      let engine ← value.get? "engine"
      let format ← value.get? "format"
      pure ⟨← engine.asStr, ← format.asStr⟩

def parseMarker (reader : JsonReader) (bytes : Bytes) : Option EngineMarker :=
  (reader.parse bytes).bind markerOfJson

def engineName : MetadataEngine → String
  | .log => "log"
  | .lmdb => "lmdb"

def markerToEngine (name : String) : Option MetadataEngine :=
  if name = "log" then some .log else if name = "lmdb" then some .lmdb else none

section

variable (setup : Setup) (engine : MetadataEngine)

def formatLabel : String := if setup.key.isSome && engine = .log then "hmac" else "plain"

def markerBytes : Bytes :=
  Json.print (Json.ofFields
    [("engine", .string (engineName engine)), ("format", .string (formatLabel setup engine))])

variable (place : Place)

def asideLog (seconds : Nat) : Place := .untrusted (place = .verifyLog) seconds

/-- `LogMetadataStore::open_with`, of the log at a path.  A log whose framing
does not fit the key is moved aside. -/
def openLog : Prog Store := do
  match ← act (.read place) with
  | none => pure (.log {})
  | some bytes =>
    let opened := openInner setup.env setup.key bytes
    if opened.movedAside then
      let seconds ← act .unixTs
      let _ ← act (.rename place (asideLog place seconds))
      pure (.log opened.state)
    else pure (.log opened.state)

def openLmdb : Prog (Except IoError Store) := do
  let opened ← act (.openEnv place)
  pure (opened.map Store.lmdb)

def openEngine : MetadataEngine → Prog (Except IoError Store)
  | .log => do
      let store ← openLog setup (.artifact .log)
      pure (.ok store)
  | .lmdb => openLmdb (.artifact .lmdb)

def writeMarker : Prog (Except IoError Unit) := do
  match ← act (.create .markerTmp) with
  | .error error => pure (.error error)
  | .ok () =>
    act (.append .markerTmp (markerBytes setup engine))
    act .sync
    match ← act (.rename .markerTmp .marker) with
    | .error error => pure (.error error)
    | .ok () =>
      act .sync
      pure (.ok ())

def removeDirAll : Prog Unit := do
  act (.emptyDir place)
  act (.removeDir place)

def cleanLeftover : Prog Unit := do
  if ← act (.isDir place) then removeDirAll place
  else if ← act (.present place) then act (.removeFile place)
  else pure ()

def cleanMigratingLeftovers : Prog Unit := do
  cleanLeftover (.migrating .lmdb)
  cleanLeftover (.migrating .log)
  if ← act (.isDir .verifyDir) then removeDirAll .verifyDir
  else pure ()

def setAside : Prog (Except IoError Unit) := do
  if ← act (.present (.artifact engine)) then
    let seconds ← act .unixTs
    act (.rename (.artifact engine) (.migrated engine seconds))
  else pure (.ok ())

def batchSize : Nat := 10000

def load (place : Place) : List MetaOp → List MetaOp → Prog (Except IoError Unit)
  | batch, [] =>
    if batch.isEmpty then pure (.ok ()) else act (.bulkApply place batch)
  | batch, op :: rest =>
    if batchSize ≤ (batch ++ [op]).length then do
      match ← act (.bulkApply place (batch ++ [op])) with
      | .error error => pure (.error error)
      | .ok () => load place [] rest
    else load place (batch ++ [op]) rest

def buildLmdbDestination (source : Store) : Prog (Except IoError Unit) := do
  match ← act (.createDirAll (.migrating .lmdb)) with
  | .error error => pure (.error error)
  | .ok () =>
    match ← act (.openEnv (.migrating .lmdb)) with
    | .error error => pure (.error error)
    | .ok _ =>
      match ← load (.migrating .lmdb) [] (source.exportOps setup.order) with
      | .error error => pure (.error error)
      | .ok () =>
        act .sync
        pure (.ok ())

def writeAll (place : Place) : List Bytes → Prog Unit
  | [] => pure ()
  | chunk :: rest => do
      act (.append place chunk)
      writeAll place rest

def buildLogDestination (source : Store) : Prog (Except IoError Unit) := do
  match ← act (.create (.migrating .log)) with
  | .error error => pure (.error error)
  | .ok () =>
    writeAll (.migrating .log)
      (setup.cut (framedLog setup.env setup.key (source.exportOps setup.order)))
    act .sync
    pure (.ok ())

def buildDestination (source : Store) : MetadataEngine → Prog (Except IoError Unit)
  | .log => buildLogDestination setup source
  | .lmdb => buildLmdbDestination setup source

/-- Open the destination while it is still under its temporary name. -/
def openEngineAt : MetadataEngine → Prog (Except IoError Store)
  | .lmdb => openLmdb (.migrating .lmdb)
  | .log => do
      match ← act (.createDirAll .verifyDir) with
      | .error error => pure (.error error)
      | .ok () =>
        match ← act (.copy (.migrating .log) .verifyLog) with
        | .error error => pure (.error error)
        | .ok () =>
          let store ← openLog setup .verifyLog
          removeDirAll .verifyDir
          pure (.ok store)

variable (sourceEngine config : MetadataEngine)

def commitDestination : Prog (Except IoError Store) := do
  match ← act (.rename (.migrating config) (.artifact config)) with
  | .error error => pure (.error error)
  | .ok () =>
    act .sync
    match ← writeMarker setup config with
    | .error error => pure (.error error)
    | .ok () =>
      match ← setAside sourceEngine with
      | .error error => pure (.error error)
      | .ok () => openEngine setup config

/-- Build the destination from an open source, compare and commit. -/
def transfer (source : Store) :
    Prog (Except IoError Store) := do
  match ← buildDestination setup source config with
  | .error error => pure (.error error)
  | .ok () =>
    match ← openEngineAt setup config with
    | .error error => pure (.error error)
    | .ok dest =>
      match verifyMigration setup.order source dest with
      | .error error => pure (.error (.verify error))
      | .ok () => commitDestination setup sourceEngine config

/-- A source that does not open leaves a fresh destination. -/
def startFresh (config : MetadataEngine) : Prog (Except IoError Store) := do
  match ← openEngine setup config with
  | .error error => pure (.error error)
  | .ok store =>
    match ← writeMarker setup config with
    | .error error => pure (.error error)
    | .ok () => pure (.ok store)

def migrate : Prog (Except IoError Store) := do
  cleanMigratingLeftovers
  match ← setAside config with
  | .error error => pure (.error error)
  | .ok () =>
    match ← openEngine setup sourceEngine with
    | .error _ => startFresh setup config
    | .ok source => transfer setup sourceEngine config source

end

end Roci.Migration
