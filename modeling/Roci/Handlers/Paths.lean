import Roci.Filesystem.Places
import Roci.Handlers.Routes

/-!
# Printing and parsing paths

A verb is recognised by its place from the end of a path, so a repository may be
called like one: what is printed is parsed again as it was.
-/

namespace Roci.Handlers

open Roci.Core Roci.Storage

/-- The path of a route behind `/v2/`. -/
def Parsed.path : Parsed → String
  | .blob repo digest => "/".intercalate [repo.name, "blobs", digest.asString]
  | .manifestRef repo reference => "/".intercalate [repo.name, "manifests", reference]
  | .uploadStart repo => "/".intercalate [repo.name, "blobs", "uploads", ""]
  | .uploadSession repo id => "/".intercalate [repo.name, "blobs", "uploads", id]
  | .tagsList repo => "/".intercalate [repo.name, "tags", "list"]
  | .referrers repo digest => "/".intercalate [repo.name, "referrers", digest.asString]
  | .unknown => ""

def Parsed.repo : Parsed → Option RepositoryName
  | .blob repo _ => some repo
  | .manifestRef repo _ => some repo
  | .uploadStart repo => some repo
  | .uploadSession repo _ => some repo
  | .tagsList repo => some repo
  | .referrers repo _ => some repo
  | .unknown => none

/-- References and session ids are one segment. -/
def Parsed.Printable : Parsed → Prop
  | .manifestRef _ reference => reference ≠ "" ∧ '/' ∉ reference.toList
  | .uploadSession _ id => id ≠ "" ∧ '/' ∉ id.toList
  | .unknown => False
  | _ => True

/-! ## Segments -/

theorem segments_intercalate {verbs : List String} (name : String)
    (single : ∀ verb ∈ verbs, '/' ∉ verb.toList) :
    segments ("/".intercalate (name :: verbs)) = segments name ++ verbs := by
  induction verbs generalizing name with
  | nil => simp
  | cons verb rest ih =>
    obtain ⟨first, others⟩ := List.forall_mem_cons.mp single
    have characters : ("/".intercalate (name :: verb :: rest)).toList =
        name.toList ++ '/' :: ("/".intercalate (verb :: rest)).toList := by
      simp
    have behind := ih verb others
    rw [segments, splitAll_eq] at behind ⊢
    rw [characters, List.splitOn_append_cons_self, List.map_append, behind, segments, splitAll_eq,
      segments, splitAll_eq, List.splitOn_eq_singleton first]
    simp

theorem slash_not_mem_asString (digest : Digest) : '/' ∉ digest.asString.toList := by
  have noDigit : '/' ∉ lowerHexDigits := by decide
  simp only [Digest.asString, String.toList_append, List.mem_append, not_or]
  refine ⟨⟨?_, by decide⟩, fun inside => noDigit (digest.digit_mem _ inside)⟩
  rcases digest.algorithm_eq with known | known <;> rw [known] <;> decide

theorem parse_name (repo : RepositoryName) : RepositoryName.parse repo.name = .ok repo := by
  unfold RepositoryName.parse
  split
  · rename_i refused
    rw [repo.valid] at refused
    cases refused
  · rfl

@[simp]
theorem checkedRepo_segments (repo : RepositoryName) :
    checkedRepo (segments repo.name).reverse = .ok repo := by
  rw [checkedRepo, List.reverse_reverse, segments, List.map_map,
    show String.toList ∘ String.ofList = id from funext fun _ => by simp, List.map_id,
    intercalate_splitAll, String.ofList_toList, parse_name]

@[simp]
theorem checkedDigest_asString (digest : Digest) : checkedDigest digest.asString = .ok digest := by
  rw [checkedDigest, Digest.parse_asString]
  rfl

/-! ## Routes -/

/-- What is printed is parsed as it was, and whatever is parsed is on a repository
with a valid name. -/
theorem paths_parsed_as_printed :
    (∀ route : Parsed, route.Printable → parsePath route.path = .ok route) ∧
    ∀ rest route, parsePath rest = .ok route →
      route = .unknown ∨ ∃ repo, route.repo = some repo ∧ validateName repo.name = .ok () := by
  refine ⟨fun route printable => ?_, fun rest route _ => ?_⟩
  · cases route with
    | blob repo digest =>
      -- A digest has a colon, so it is not taken for the verb.
      have single := slash_not_mem_asString digest
      have noVerb : digest.asString ≠ "uploads" := by
        intro same
        have colon : ':' ∈ digest.asString.toList := by simp [Digest.asString]
        rw [same] at colon
        exact absurd colon (by decide)
      rw [parsePath, Parsed.path, segments_intercalate _ (by simp [single])]
      simp
      rfl
    | manifestRef repo reference =>
      rw [parsePath, Parsed.path, segments_intercalate _ (by simp [printable.2])]
      simp
      rfl
    | uploadStart repo =>
      rw [parsePath, Parsed.path, segments_intercalate _ (by simp)]
      simp
      rfl
    | uploadSession repo id =>
      rw [parsePath, Parsed.path, segments_intercalate _ (by simp [printable.2])]
      simp [printable.1]
      rfl
    | tagsList repo =>
      rw [parsePath, Parsed.path, segments_intercalate _ (by simp)]
      simp
      rfl
    | referrers repo digest =>
      have single := slash_not_mem_asString digest
      rw [parsePath, Parsed.path, segments_intercalate _ (by simp [single])]
      simp
      rfl
    | unknown => exact printable.elim
  · cases route with
    | unknown => exact .inl rfl
    | _ repo => exact .inr ⟨repo, rfl, repo.valid⟩

end Roci.Handlers
