import Mathlib.Logic.Function.Basic
import Roci.Library.Bytes
import Roci.Storage.Paths

/-!
# The file system

Names lead to nodes and nodes hold bytes: an open file is a node, which keeps
its bytes whatever becomes of its names.  Each action is one system call, and
each may fail.  A name that is no regular file (a directory, a planted link) is
an entry without a node.
-/

namespace Roci.Filesystem

open Roci.Library Roci.Storage

inductive Entry where
  | regular (node : Nat)
  | other
deriving DecidableEq

structure Disk where
  files : Path → Option Entry := fun _ => none
  nodes : List Bytes := []

/-- How a blob of another repository was brought in. -/
inductive Promotion where
  | existing
  | reflink
  | hardlink
  | copy
deriving DecidableEq

inductive DiskAction where
  /-- Create a file that must not exist and open it. -/
  | create (path : Path)
  /-- Whether it is a regular file, and its size. -/
  | stat (path : Path)
  /-- The number of the file a name leads to. -/
  | inode (path : Path)
  /-- Open a regular file. -/
  | openFile (path : Path)
  | fstat (node : Nat)
  /-- Append, as one write. -/
  | write (node : Nat) (data : Bytes)
  | setLen (node length : Nat)
  | read (node : Nat)
  | unlink (path : Path)
  /-- Rename without replacing; `false` when the target exists. -/
  | rename (source target : Path)
  /-- Link a new file with these bytes without replacing; `false` when the name
  exists. -/
  | publish (path : Path) (data : Bytes)
  /-- Link an open file, or a copy of it, without replacing. -/
  | link (node : Nat) (path : Path) (allowCopy : Bool)
  /-- Make the entries of a directory durable. -/
  | sync

abbrev DiskResponse : DiskAction → Type
  | .create _ => Except StorageError Nat
  | .stat _ => Except StorageError (Option (Bool × Nat))
  | .inode _ => Except StorageError Nat
  | .openFile _ => Except StorageError Nat
  | .fstat _ => Except StorageError Nat
  | .write _ _ => Except StorageError Unit
  | .setLen _ _ => Except StorageError Unit
  | .read _ => Except StorageError Bytes
  | .unlink _ => Except StorageError Unit
  | .rename _ _ => Except StorageError Bool
  | .publish _ _ => Except StorageError Bool
  | .link _ _ _ => Except StorageError (Promotion × Bool)
  | .sync => Except StorageError Unit

/-- What a system call depends on besides the disk: an error it fails with, the
bytes a failing write leaves behind, the mechanism a link uses. -/
structure DiskChoice where
  error : Option StorageError := none
  amount : Nat := 0
  promotion : Promotion := .hardlink

namespace Disk

variable (disk : Disk)

def content (node : Nat) : Bytes := disk.nodes[node]?.getD []

def bytesAt (path : Path) : Option Bytes :=
  match disk.files path with
  | some (.regular node) => some (disk.content node)
  | _ => none

def setFile (path : Path) (entry : Option Entry) : Disk :=
  { disk with files := Function.update disk.files path entry }

def setContent (node : Nat) (data : Bytes) : Disk := { disk with nodes := disk.nodes.set node data }

def add (path : Path) (data : Bytes) : Disk where
  files := Function.update disk.files path (some (.regular disk.nodes.length))
  nodes := disk.nodes ++ [data]

/-- One more name, of the file itself or of a copy, unless the name exists. -/
def linkAs (node : Nat) (path : Path) (how : Promotion) : Disk × (Promotion × Bool) :=
  if (disk.files path).isSome then (disk, (how, false))
  else
    match how with
    | .hardlink => (disk.setFile path (some (.regular node)), (how, true))
    | _ => (disk.add path (disk.content node), (how, true))

variable (action : DiskAction) (choice : DiskChoice)

/-- One system call that does not fail by itself. -/
def act : Disk × DiskResponse action :=
  match action with
  | .create path =>
    if (disk.files path).isSome then (disk, .error (.io "file exists"))
    else (disk.add path [], .ok disk.nodes.length)
  | .stat path =>
    (disk, .ok ((disk.files path).map fun
      | .regular node => (true, (disk.content node).length)
      | .other => (false, 0)))
  | .inode path =>
    (disk, match disk.files path with
      | some (.regular node) => .ok node
      | some .other => .error .notFound
      | none => .error .notFound)
  | .openFile path =>
    (disk, match disk.files path with
      | some (.regular node) => .ok node
      | some .other => .error (.io "not a regular file")
      | none => .error .notFound)
  | .fstat node => (disk, .ok (disk.content node).length)
  | .write node data => (disk.setContent node (disk.content node ++ data), .ok ())
  | .setLen node length =>
    (disk.setContent node ((disk.content node).take length ++
      List.replicate (length - (disk.content node).length) 0), .ok ())
  | .read node => (disk, .ok (disk.content node))
  | .unlink path =>
    if (disk.files path).isSome then (disk.setFile path none, .ok ())
    else (disk, .error .notFound)
  | .rename source target =>
    match disk.files source with
    | none => (disk, .error .notFound)
    | some entry =>
      if (disk.files target).isSome then (disk, .ok false)
      else ((disk.setFile source none).setFile target (some entry), .ok true)
  | .publish path data =>
    if (disk.files path).isSome then (disk, .ok false) else (disk.add path data, .ok true)
  | .link node path allowCopy =>
    if choice.promotion = .copy && !allowCopy then (disk, .error (.io "cross-device link"))
    else
      let (linked, outcome) := disk.linkAs node path choice.promotion
      (linked, .ok outcome)
  | .sync => (disk, .ok ())

/-- What a failing call leaves behind: part of a write. -/
def fail (error : StorageError) : Disk × DiskResponse action :=
  match action with
  | .write node data =>
    (disk.setContent node (disk.content node ++ data.take choice.amount), .error error)
  | .create _ => (disk, .error error)
  | .stat _ => (disk, .error error)
  | .inode _ => (disk, .error error)
  | .openFile _ => (disk, .error error)
  | .fstat _ => (disk, .error error)
  | .setLen _ _ => (disk, .error error)
  | .read _ => (disk, .error error)
  | .unlink _ => (disk, .error error)
  | .rename _ _ => (disk, .error error)
  | .publish _ _ => (disk, .error error)
  | .link _ _ _ => (disk, .error error)
  | .sync => (disk, .error error)

def perform : Disk × DiskResponse action :=
  match choice.error with
  | none => disk.act action choice
  | some error => disk.fail action choice error

/-! ## What a system call can do -/

def describe : Entry → Bool × Nat
  | .regular node => (true, (disk.content node).length)
  | .other => (false, 0)

/-- What is known of the disk before and after a call by its response. -/
def Outcome (disk after : Disk) : (action : DiskAction) → DiskResponse action → Prop
  | .create path, .ok node =>
    disk.files path = none ∧ node = disk.nodes.length ∧ after = disk.add path []
  | .stat path, .ok found => found = (disk.files path).map disk.describe ∧ after = disk
  | .inode path, .ok node => disk.files path = some (.regular node) ∧ after = disk
  | .openFile path, .ok node => disk.files path = some (.regular node) ∧ after = disk
  | .fstat node, .ok length => length = (disk.content node).length ∧ after = disk
  | .write node data, .ok () => after = disk.setContent node (disk.content node ++ data)
  | .write node data, .error _ =>
    ∃ amount, after = disk.setContent node (disk.content node ++ data.take amount)
  | .setLen node length, .ok () =>
    after = disk.setContent node ((disk.content node).take length ++
      List.replicate (length - (disk.content node).length) 0)
  | .read node, .ok bytes => bytes = disk.content node ∧ after = disk
  | .unlink path, .ok () => (disk.files path).isSome = true ∧ after = disk.setFile path none
  | .rename source target, .ok true =>
    ∃ entry, disk.files source = some entry ∧ disk.files target = none ∧
      after = (disk.setFile source none).setFile target (some entry)
  | .rename _ target, .ok false => (disk.files target).isSome = true ∧ after = disk
  | .publish path data, .ok true => disk.files path = none ∧ after = disk.add path data
  | .publish path _, .ok false => (disk.files path).isSome = true ∧ after = disk
  | .link node path _, .ok (_, true) =>
    disk.files path = none ∧
      (after = disk.setFile path (some (.regular node)) ∨
        after = disk.add path (disk.content node))
  | .link _ path _, .ok (_, false) => (disk.files path).isSome = true ∧ after = disk
  | _, _ => after = disk

theorem outcome_linkAs (node : Nat) (path : Path) (allowCopy : Bool) (how : Promotion) :
    disk.Outcome (disk.linkAs node path how).1 (.link node path allowCopy)
      (.ok (disk.linkAs node path how).2) := by
  unfold linkAs
  split
  · rename_i present
    exact ⟨present, rfl⟩
  rename_i absent
  have free : disk.files path = none := Option.not_isSome_iff_eq_none.mp absent
  cases how with
  | hardlink => exact ⟨free, .inl rfl⟩
  | _ => exact ⟨free, .inr rfl⟩

theorem outcome_act :
    disk.Outcome (disk.act action choice).1 action (disk.act action choice).2 := by
  cases action with
  | create path =>
    simp only [act]
    split
    · exact rfl
    rename_i absent
    exact ⟨Option.not_isSome_iff_eq_none.mp absent, rfl, rfl⟩
  | stat path =>
    refine ⟨?_, rfl⟩
    cases disk.files path with
    | none => rfl
    | some entry => cases entry <;> rfl
  | fstat node | read node => exact ⟨rfl, rfl⟩
  | write node data => exact rfl
  | setLen node length => exact rfl
  | unlink path =>
    simp only [act]
    split
    · rename_i present
      exact ⟨present, rfl⟩
    · exact rfl
  | rename source target =>
    simp only [act]
    split
    · exact rfl
    rename_i entry found
    split
    · rename_i present
      exact ⟨present, rfl⟩
    rename_i absent
    exact ⟨entry, found, Option.not_isSome_iff_eq_none.mp absent, rfl⟩
  | publish path data =>
    simp only [act]
    split
    · rename_i present
      exact ⟨present, rfl⟩
    rename_i absent
    exact ⟨Option.not_isSome_iff_eq_none.mp absent, rfl⟩
  | link node path allowCopy =>
    simp only [act]
    split
    · exact rfl
    · exact disk.outcome_linkAs node path allowCopy choice.promotion
  | sync => exact rfl
  | _ =>
    simp only [act]
    split
    · rename_i found
      exact ⟨found, rfl⟩
    · exact rfl
    · exact rfl

/-- Every call is described by its outcome. -/
theorem outcome_perform :
    disk.Outcome (disk.perform action choice).1 action (disk.perform action choice).2 := by
  unfold perform
  split
  · exact disk.outcome_act action choice
  cases action with
  | write node data => exact ⟨choice.amount, rfl⟩
  | _ => exact rfl

end Disk

/-- The names a system call may give or take away. -/
def DiskAction.names : DiskAction → List Path
  | .create path => [path]
  | .unlink path => [path]
  | .rename source target => [source, target]
  | .publish path _ => [path]
  | .link _ path _ => [path]
  | _ => []

def DiskAction.written : DiskAction → Option Nat
  | .write node _ => some node
  | .setLen node _ => some node
  | _ => none

variable (path : Path)

namespace Disk

variable {disk after : Disk} {action : DiskAction} {response : DiskResponse action}

theorem files_setFile_of_ne {path other : Path} (different : other ≠ path)
    (entry : Option Entry) : (disk.setFile path entry).files other = disk.files other :=
  Function.update_of_ne different _ _

theorem files_add_of_ne {path other : Path} (different : other ≠ path) (data : Bytes) :
    (disk.add path data).files other = disk.files other :=
  Function.update_of_ne different _ _

@[simp]
theorem files_setFile_self (entry : Option Entry) : (disk.setFile path entry).files path = entry :=
  Function.update_self _ _ _

@[simp]
theorem files_add_self (data : Bytes) :
    (disk.add path data).files path = some (.regular disk.nodes.length) :=
  Function.update_self _ _ _

@[simp]
theorem content_setFile (entry : Option Entry) (node : Nat) :
    (disk.setFile path entry).content node = disk.content node := rfl

theorem content_setContent_of_ne {node other : Nat} (different : other ≠ node) (data : Bytes) :
    (disk.setContent node data).content other = disk.content other := by
  simp [content, setContent, List.getElem?_set_ne (Ne.symm different)]

theorem content_setContent {node : Nat} (within : node < disk.nodes.length) (data : Bytes) :
    (disk.setContent node data).content node = data := by
  simp [content, setContent, within]

theorem content_add {node : Nat} (within : node < disk.nodes.length) (path : Path)
    (data : Bytes) : (disk.add path data).content node = disk.content node := by
  simp [content, add, List.getElem?_append_left within]

theorem content_add_new (data : Bytes) : (disk.add path data).content disk.nodes.length = data := by
  simp [content, add]

theorem bytesAt_eq_some {path : Path} {bytes : Bytes} : disk.bytesAt path = some bytes ↔
    ∃ node, disk.files path = some (.regular node) ∧ disk.content node = bytes := by
  unfold bytesAt
  split
  · rename_i node named
    simp [named]
  rename_i irregular
  exact iff_of_false nofun fun ⟨node, named, _⟩ => irregular node named

end Disk

end Roci.Filesystem
