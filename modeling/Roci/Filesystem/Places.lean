import Roci.Core.Names

/-!
# Where the files of a store lie

A blob lies at `<repo>/blobs/<algorithm>/<hex>`, the staging file of an upload
at `<repo>/uploads/<id>`, the layout marker and the index in the directory of
the repository itself.  A repository name may have several components, so one
repository can lie beneath another one's directories.
-/

namespace Roci.Storage

theorem intercalate_splitAll (separator : Char) (text : List Char) :
    [separator].intercalate (splitAll separator text) = text := by
  rw [splitAll_eq]
  exact List.intercalate_splitOn separator

theorem splitAll_injective (separator : Char) : Function.Injective (splitAll separator) :=
  Function.LeftInverse.injective (intercalate_splitAll separator)

end Roci.Storage

namespace Roci.Filesystem

open Roci.Core Roci.Library Roci.Storage

variable (repo : RepositoryName)

def repoPath : Path := (splitAll '/' repo.name.toList).map String.ofList

instance : DecidableEq RepositoryName := fun first second =>
  decidable_of_iff (first.name = second.name)
    ⟨fun same => by cases first; cases second; simp_all, fun same => by rw [same]⟩

theorem repoPath_injective : Function.Injective repoPath := by
  intro first second same
  have pieces := List.map_injective_iff.mpr (fun _ _ equal => String.ofList_injective equal) same
  have characters := splitAll_injective '/' pieces
  cases first
  cases second
  simp only [RepositoryName.mk.injEq]
  exact String.toList_injective characters

structure BlobKey where
  repo : RepositoryName
  digest : Digest
deriving DecidableEq

/-- An upload session; the id is whatever text a client gave. -/
structure SessionKey where
  repo : RepositoryName
  id : String
deriving DecidableEq

def BlobKey.path (key : BlobKey) : Path :=
  repoPath key.repo ++ ["blobs", key.digest.algorithm, key.digest.hex]

def SessionKey.path (key : SessionKey) : Path := repoPath key.repo ++ ["uploads", key.id]

def markerPath : Path := repoPath repo ++ ["oci-layout"]

/-! ## Different places -/

theorem BlobKey.path_injective : Function.Injective BlobKey.path := by
  intro first second same
  obtain ⟨directory, place⟩ := List.append_inj' same rfl
  simp only [List.cons.injEq, true_and, and_true] at place
  cases first
  cases second
  simp only [BlobKey.mk.injEq]
  exact ⟨repoPath_injective directory, Digest.ext_fields place.1 place.2⟩

theorem SessionKey.path_injective : Function.Injective SessionKey.path := by
  intro first second same
  obtain ⟨directory, place⟩ := List.append_inj' same rfl
  simp only [List.cons.injEq, true_and, and_true] at place
  cases first
  cases second
  simp only [SessionKey.mk.injEq]
  exact ⟨repoPath_injective directory, place⟩

@[simp]
theorem BlobKey.path_inj {first second : BlobKey} : first.path = second.path ↔ first = second :=
  BlobKey.path_injective.eq_iff

@[simp]
theorem SessionKey.path_inj {first second : SessionKey} :
    first.path = second.path ↔ first = second :=
  SessionKey.path_injective.eq_iff

@[simp]
theorem SessionKey.path_ne_blob (session : SessionKey) (blob : BlobKey) :
    session.path ≠ blob.path := by
  intro same
  rw [BlobKey.path, ← List.singleton_append, ← List.append_assoc] at same
  obtain ⟨_, place⟩ := List.append_inj' same rfl
  have algorithm : "uploads" = blob.digest.algorithm := (List.cons.inj place).1
  rcases blob.digest.algorithm_eq with known | known <;> rw [known] at algorithm <;>
    exact absurd algorithm (by decide)

@[simp]
theorem BlobKey.path_ne_session (blob : BlobKey) (session : SessionKey) :
    blob.path ≠ session.path :=
  (session.path_ne_blob blob).symm

@[simp]
theorem BlobKey.path_ne_marker (blob : BlobKey) (repo : RepositoryName) :
    blob.path ≠ markerPath repo := by
  intro same
  rw [BlobKey.path, ← List.singleton_append, ← List.append_assoc,
    ← @List.singleton_append _ blob.digest.algorithm, ← List.append_assoc] at same
  obtain ⟨_, place⟩ := List.append_inj' same rfl
  have hex : blob.digest.hex = "oci-layout" := (List.cons.inj place).1
  have digits := blob.digest.digits
  rw [hex] at digits
  revert digits
  decide

theorem SessionKey.id_of_path_eq_marker {session : SessionKey} {repo : RepositoryName}
    (same : session.path = markerPath repo) : session.id = "oci-layout" := by
  rw [SessionKey.path, ← List.singleton_append, ← List.append_assoc] at same
  obtain ⟨_, place⟩ := List.append_inj' same rfl
  exact (List.cons.inj place).1

end Roci.Filesystem
