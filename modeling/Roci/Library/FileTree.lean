import Mathlib.Data.List.Infix

/-!
# Directories and files

A tree of names in which a path leads to a file, to a directory or nowhere.
Making a directory fails when a file stands where a directory is needed, and
placing a file fails when a directory stands in its place.  Nothing else makes
either fail, so whether a set of users can get into each other's way is a
question about prefixes of paths.
-/

namespace Roci.Library

inductive NodeKind where
  | file
  | directory
deriving DecidableEq

structure FileTree (Name : Type) where
  kind : List Name → Option NodeKind := fun _ => none

inductive TreeAction (Name : Type) where
  | makeDirectories (path : List Name)
  | placeFile (path : List Name)
  | removeFile (path : List Name)

namespace FileTree

variable {Name : Type} [DecidableEq Name]

def blocked (tree : FileTree Name) (path : List Name) : Bool :=
  path.inits.any fun initial => tree.kind initial = some .file

def withDirectories (tree : FileTree Name) (path : List Name) : FileTree Name where
  kind other := if other <+: path then some .directory else tree.kind other

def withFile (tree : FileTree Name) (path : List Name) : FileTree Name where
  kind other := if other = path then some .file else tree.kind other

def makeDirectories (tree : FileTree Name) (path : List Name) : Option (FileTree Name) :=
  if tree.blocked path then none else some (tree.withDirectories path)

/-- Make the directory of the file, then the file; one that exists is replaced. -/
def placeFile (tree : FileTree Name) (path : List Name) : Option (FileTree Name) :=
  match tree.makeDirectories path.dropLast with
  | none => none
  | some made =>
    if made.kind path = some .directory then none else some (made.withFile path)

def removeFile (tree : FileTree Name) (path : List Name) : FileTree Name where
  kind other := if other = path && tree.kind path = some .file then none else tree.kind other

def perform (tree : FileTree Name) : TreeAction Name → Option (FileTree Name)
  | .makeDirectories path => tree.makeDirectories path
  | .placeFile path => tree.placeFile path
  | .removeFile path => some (tree.removeFile path)

def performAll (tree : FileTree Name) : List (TreeAction Name) → Option (FileTree Name)
  | [] => some tree
  | action :: rest =>
    match tree.perform action with
    | none => none
    | some next => next.performAll rest

omit [DecidableEq Name] in
theorem blocked_eq_true {tree : FileTree Name} {path : List Name} :
    tree.blocked path = true ↔ ∃ initial, initial <+: path ∧ tree.kind initial = some .file := by
  simp [blocked, List.any_eq_true]

end FileTree

def TreeAction.Within {Name : Type} (files directories : List Name → Prop) :
    TreeAction Name → Prop
  | .makeDirectories path => directories path
  | .placeFile path => files path
  | .removeFile path => files path

namespace FileTree

variable {Name : Type} [DecidableEq Name] {files directories : List Name → Prop}

/-- No file lies where a directory is needed. -/
structure Disjoint (files directories : List Name → Prop) : Prop where
  proper : ∀ file, files file → file ≠ []
  directory : ∀ file path, files file → directories path → ¬ file <+: path
  file : ∀ first second, files first → files second → first <+: second → first = second

/-- What stands in the tree stands there for one of the uses. -/
structure Serves (files directories : List Name → Prop) (tree : FileTree Name) : Prop where
  file : ∀ path, tree.kind path = some .file → files path
  directory : ∀ path, tree.kind path = some .directory →
    (∃ made, directories made ∧ path <+: made) ∨ ∃ placed, files placed ∧ path <+: placed.dropLast

omit [DecidableEq Name] in
theorem serves_empty : Serves files directories ({} : FileTree Name) where
  file path found := by cases found
  directory path found := by cases found

omit [DecidableEq Name] in
theorem Disjoint.not_dropLast (apart : Disjoint files directories) {file placed : List Name}
    (first : files file) (second : files placed) : ¬ file <+: placed.dropLast := by
  intro before
  have whole := apart.file _ _ first second (before.trans (List.dropLast_prefix placed))
  have shorter := before.length_le
  rw [whole, List.length_dropLast] at shorter
  have nonempty := List.length_pos_of_ne_nil (apart.proper placed second)
  omega

variable {tree : FileTree Name} {path : List Name}

section

variable (serves : Serves files directories tree)

include serves

omit [DecidableEq Name] in
theorem Serves.not_blocked (free : ∀ file, files file → ¬ file <+: path) :
    tree.blocked path = false := by
  rw [Bool.eq_false_iff]
  intro blocked
  obtain ⟨initial, before, found⟩ := blocked_eq_true.mp blocked
  exact free initial (serves.file initial found) before

theorem Serves.withFile (member : files path) : Serves files directories (tree.withFile path) where
  file other found := by
    simp only [FileTree.withFile] at found
    split_ifs at found with same
    · rw [same]
      exact member
    · exact serves.file other found
  directory other found := by
    simp only [FileTree.withFile] at found
    split_ifs at found with same
    · cases found
    · exact serves.directory other found

theorem Serves.removeFile (path : List Name) : Serves files directories (tree.removeFile path) where
  file other found := by
    simp only [FileTree.removeFile] at found
    split_ifs at found
    exact serves.file other found
  directory other found := by
    simp only [FileTree.removeFile] at found
    split_ifs at found
    exact serves.directory other found

theorem Serves.withDirectories
    (needed : (∃ made, directories made ∧ path <+: made) ∨
      ∃ placed, files placed ∧ path <+: placed.dropLast) :
    Serves files directories (tree.withDirectories path) where
  file other found := by
    simp only [FileTree.withDirectories] at found
    split_ifs at found with before
    · cases found
    · exact serves.file other found
  directory other found := by
    simp only [FileTree.withDirectories] at found
    split_ifs at found with before
    · rcases needed with ⟨made, member, inside⟩ | ⟨placed, member, inside⟩
      · exact .inl ⟨made, member, before.trans inside⟩
      · exact .inr ⟨placed, member, before.trans inside⟩
    · exact serves.directory other found

end

/-- Step lemma: an action within the uses succeeds. -/
theorem Serves.perform (apart : Disjoint files directories) (serves : Serves files directories tree)
    {action : TreeAction Name} (within : action.Within files directories) :
    ∃ next, tree.perform action = some next ∧ Serves files directories next := by
  cases action with
  | makeDirectories path =>
    have free := serves.not_blocked fun file member => apart.directory file path member within
    refine ⟨tree.withDirectories path, ?_, serves.withDirectories (.inl ⟨path, within, ?_⟩)⟩
    · simp [FileTree.perform, makeDirectories, free]
    · exact List.prefix_refl path
  | placeFile path =>
    have free := serves.not_blocked fun file member => apart.not_dropLast member within
    have made := serves.withDirectories (.inr ⟨path, within, List.prefix_refl path.dropLast⟩)
    have vacant : (tree.withDirectories path.dropLast).kind path ≠ some .directory := by
      intro found
      rcases made.directory path found with ⟨other, member, before⟩ | ⟨other, member, before⟩
      · exact apart.directory path other within member before
      · exact apart.not_dropLast within member before
    refine ⟨_, ?_, made.withFile within⟩
    simp only [FileTree.perform, placeFile, makeDirectories, free, Bool.false_eq_true,
      if_false, if_neg vacant]
  | removeFile path => exact ⟨_, rfl, serves.removeFile path⟩

/-- Run lemma. -/
theorem Serves.performAll (apart : Disjoint files directories)
    (serves : Serves files directories tree) {actions : List (TreeAction Name)}
    (within : ∀ action ∈ actions, action.Within files directories) :
    (tree.performAll actions).isSome = true := by
  induction actions generalizing tree with
  | nil => rfl
  | cons action rest ih =>
    obtain ⟨next, performed, still⟩ := serves.perform apart (within action List.mem_cons_self)
    simp only [FileTree.performAll, performed]
    exact ih still fun other member =>
      within other (List.mem_cons_of_mem action member)

theorem performAll_blocked {file : List Name} (proper : file ≠ []) (before : file <+: path) :
    ({} : FileTree Name).performAll [.placeFile file, .makeDirectories path] = none := by
  have vacant : ¬ file <+: file.dropLast := by
    intro inside
    have shorter := inside.length_le
    rw [List.length_dropLast] at shorter
    have nonempty := List.length_pos_of_ne_nil proper
    omega
  have unblocked : ({} : FileTree Name).blocked file.dropLast = false := by
    rw [Bool.eq_false_iff]
    intro blocked
    obtain ⟨_, _, found⟩ := blocked_eq_true.mp blocked
    cases found
  simp only [performAll, perform, placeFile, makeDirectories, unblocked, Bool.false_eq_true,
    if_false, withDirectories, if_neg vacant, withFile, reduceCtorEq]
  rw [if_pos]
  exact blocked_eq_true.mpr ⟨file, before, by simp⟩

end FileTree

end Roci.Library
