import Roci.Library.Bytes
import Roci.Storage.Paths

/-!
# Repository names

A repository name is checked once, at the edge, against the grammar of the
distribution specification: components of lower-case letters and digits, joined
by separators, at most 255 bytes in all.  A `RepositoryName` is a text that
passed.
-/

namespace Roci.Core

open Roci.Library Roci.Storage

inductive ApiError where
  | nameInvalid (message : String)
  | digestInvalid (message : String)
  | manifestInvalid (message : String)
  | manifestBlobUnknown (message : String)
  | payloadTooLarge (message : String)
  | storage (error : StorageError)
deriving DecidableEq

def maxName : Nat := 255

/-- `[a-z0-9]`. -/
def isLowerAlnum (byte : UInt8) : Bool := (97 ≤ byte && byte ≤ 122) || (48 ≤ byte && byte ≤ 57)

/-- `.`, `_` or `-`. -/
def isSeparator (byte : UInt8) : Bool := byte = 46 || byte = 95 || byte = 45

def validSeparatorRun (run : Bytes) : Bool :=
  run = [46] || run = [95] || run = [95, 95] || run.all (· = 45)

/-- Walk over a component with the run of separators read last; a run has to be
valid and has to be followed by `[a-z0-9]`. -/
def validateRuns (run : Bytes) : Bytes → Except ApiError Unit
  | [] =>
    if run.isEmpty then .ok ()
    else if !validSeparatorRun run then
      .error (.nameInvalid "invalid repository name separator")
    else .error (.nameInvalid "separator not followed by [a-z0-9]")
  | byte :: rest =>
    if isSeparator byte then validateRuns (run ++ [byte]) rest
    else if !validSeparatorRun run then
      .error (.nameInvalid "invalid repository name separator")
    else if !isLowerAlnum byte then
      .error (.nameInvalid "separator not followed by [a-z0-9]")
    else validateRuns [] rest

def validateNameComponent (component : String) : Except ApiError Unit :=
  if component.isEmpty || component = "." || component = ".." then
    .error (.nameInvalid "empty or dot repository component")
  else
    let bytes := utf8 component
    if !(bytes.head?.any isLowerAlnum) || !(bytes.getLast?.any isLowerAlnum) then
      .error (.nameInvalid "repository component must start and end with [a-z0-9]")
    else validateRuns [] bytes

def validateComponents : List String → Except ApiError Unit
  | [] => .ok ()
  | component :: rest =>
    match validateNameComponent component with
    | .error error => .error error
    | .ok () => validateComponents rest

theorem validateComponents_eq_ok_iff {components : List String} :
    validateComponents components = .ok () ↔
      ∀ component ∈ components, validateNameComponent component = .ok () := by
  induction components with
  | nil => exact iff_of_true rfl (List.forall_mem_nil _)
  | cons first rest ih =>
    rw [List.forall_mem_cons, ← ih, validateComponents]
    cases validateNameComponent first with
    | error error => exact iff_of_false nofun fun both => nomatch both.1
    | ok valid => exact (and_iff_right rfl).symm

def validateName (text : String) : Except ApiError Unit :=
  if text.isEmpty || maxName < (utf8 text).length then
    .error (.nameInvalid "repository name length out of range")
  else validateComponents ((splitAll '/' text.toList).map String.ofList)

structure RepositoryName where
  name : String
  valid : validateName name = .ok ()

theorem app_valid : validateName "app" = .ok () := by decide +kernel

namespace RepositoryName

theorem components_valid (repo : RepositoryName) :
    validateComponents ((splitAll '/' repo.name.toList).map String.ofList) = .ok () := by
  have valid := repo.valid
  unfold validateName at valid
  split at valid
  · cases valid
  · exact valid

def parse (text : String) : Except ApiError RepositoryName :=
  match found : validateName text with
  | .error error => .error error
  | .ok () => .ok ⟨text, found⟩

theorem length_le (repository : RepositoryName) : (utf8 repository.name).length ≤ maxName := by
  have valid := repository.valid
  unfold validateName at valid
  split at valid
  · cases valid
  rename_i admitted
  simp only [Bool.or_eq_true, decide_eq_true_eq, not_or] at admitted
  omega

end RepositoryName

end Roci.Core
