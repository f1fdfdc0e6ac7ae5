import Roci.Storage.Digest

/-!
# Paths beneath the store root

Every path the store touches is built from a repository name and a digest or an
upload id, and every component that comes from outside is checked first.  A
path is the list of its components.
-/

namespace Roci.Storage

abbrev Path := List String

/-- A single path component: not empty, no dots alone, no separator, no NUL. -/
def safeComponent (component : String) : Except StorageError String :=
  if component.isEmpty || component = "." || component = ".." ||
      component.toList.any (fun character =>
        character = '/' || character = '\\' || character = '\x00') then
    .error (.badPath component)
  else .ok component

/-- `str::split` at a character: the pieces between its occurrences. -/
def splitAll (separator : Char) : List Char → List (List Char)
  | [] => [[]]
  | character :: rest =>
    if character = separator then [] :: splitAll separator rest
    else
      match splitAll separator rest with
      | [] => [[character]]
      | piece :: pieces => (character :: piece) :: pieces

theorem splitAll_eq (separator : Char) (text : List Char) :
    splitAll separator text = text.splitOn separator := by
  induction text with
  | nil => rfl
  | cons character rest ih =>
    rw [splitAll, List.splitOn_cons_eq_if_modifyHead, ih]
    by_cases same : character = separator
    · rw [if_pos same, if_pos (beq_iff_eq.mpr same)]
    rw [if_neg same, if_neg (mt beq_iff_eq.mp same)]
    cases pieces : rest.splitOn separator with
    | nil => exact absurd pieces (List.splitOn_ne_nil _ _)
    | cons piece others => rfl

theorem splitAll_ne_nil (separator : Char) (text : List Char) : splitAll separator text ≠ [] := by
  rw [splitAll_eq]
  exact List.splitOn_ne_nil _ _

end Roci.Storage
