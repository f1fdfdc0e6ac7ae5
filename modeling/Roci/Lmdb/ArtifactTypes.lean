import Roci.Lmdb.Equivalence

/-!
# Artifact types in keys

The index of referrers by type files a referrer under a key that has the type
for a part, and a part ends with the first zero byte.  A type without one is
found exactly; a referrer whose type has one is filed and listed nowhere.
-/

namespace Roci.Lmdb

open Roci.Library Roci.Metadata

section

variable {reader : JsonReader} {repo subject type : String} {last : Option String} {limit : Nat}
  {referrer : String → String → String → Option Bytes}

def putReferrers (entries : List (String × String × String × Bytes)) : List MetaOp :=
  entries.map fun entry => .putReferrer entry.1 entry.2.1 entry.2.2.1 entry.2.2.2

/-- A page of the referrers that name the type and come after the cursor, by
digest. -/
def IsExact (reader : JsonReader) (referrer : String → Option Bytes) (type : String)
    (last : Option String) (limit : Nat) (page : Page Referrer) : Prop :=
  ∃ items : List Referrer, items.Pairwise (fun first second => first.1 < second.1) ∧
    (∀ digest descriptor, (digest, descriptor) ∈ items ↔ referrer digest = some descriptor ∧
      artifactTypeOf reader descriptor = some type ∧ after last digest = true) ∧
    page = takePage items limit

/-- The index of the log engine is exact. -/
theorem referrersPage_typed {state : State} (wellFormed : (state.repo repo).WellFormed reader) :
    IsExact reader ((state.contents repo).referrer subject) type last limit
      ((state.referrersPage repo subject (some type) last limit).getD ⟨[], false⟩) := by
  rw [referrersPage_listing wellFormed]
  refine ⟨((listing state repo subject (some type)).filter fun entry => after last entry.1).map
    fun entry => (entry.1, entry.2.2), List.pairwise_map.mpr ((listing_ascending _).filter _),
    fun digest descriptor => ?_, ?_⟩
  · simp only [List.mem_map, List.mem_filter, Prod.exists, mem_listing_iff wellFormed]
    grind
  split
  · rename_i empty
    simp [listing_eq_nil empty, takePage]
  · rfl

/-- No part of a key is a type with a zero byte, and the walk ends at once. -/
theorem typedPage_of_nul (dirty : ¬ NulFree type) (tables : Tables) :
    (tables.typedPage repo subject type last limit).getD ⟨[], false⟩ = ⟨[], false⟩ := by
  have foreign : ∀ key, (splitKey key)[2]? ≠ some (utf8 type) := fun key named =>
    dirty (zero_not_mem_of_splitFrom (by simp) (List.mem_of_getElem? named))
  unfold Tables.typedPage
  dsimp only
  split
  · split <;> rfl
  rcases prefixSuccessor (makePrefix [utf8 repo, utf8 subject, utf8 type]) with _ | high
  · rfl
  rw [Option.map_some, Option.getD_some]
  generalize rangeOwned tables.referrersByType _ high = entries
  cases entries with
  | nil => rfl
  | cons entry entries => simp [Tables.collectPage, foreign]

variable {entries : List (String × String × String × Bytes)}
  (listed : ∀ repo subject digest descriptor, (repo, subject, digest, descriptor) ∈ entries ↔
    referrer repo subject digest = some descriptor)

include listed

theorem referrer_putReferrers :
    ((putReferrers entries).foldl Contents.apply (fun _ => .nothing) repo).referrer =
      referrer repo := by
  funext subject digest
  refine Option.ext fun descriptor => ?_
  have written : (∃ op ∈ putReferrers entries, op.repo = repo ∧
      op.Writes (.referrer subject digest descriptor)) ↔
        referrer repo subject digest = some descriptor := by
    simp [putReferrers, MetaOp.repo, MetaOp.Writes, ← listed]
  constructor
  · exact fun holds => written.mp (@Contents.written_of_holds _ _ (.referrer ..) holds)
  intro found
  refine (@Contents.holds_foldl _ _ repo (.referrer subject digest descriptor) ?_).mpr
    (.inr (written.mpr found))
  simp only [putReferrers, List.forall_mem_map, Prod.forall, listed, MetaOp.repo, MetaOp.Drops,
    MetaOp.Writes]
  grind

/-- The pages of every type are exact if and only if no type has a zero byte. -/
theorem typed_pages_exact_iff {tables : Tables}
    (clean : ∀ repo subject digest, (referrer repo subject digest).isSome →
      NulFree repo ∧ NulFree subject ∧ NulFree digest)
    (stored : (putReferrers entries).foldlM (Tables.applyOp reader) {} = .ok tables) :
    (∀ repo subject type last limit, NulFree repo → NulFree subject →
      IsExact reader (referrer repo subject) type last limit
        ((tables.referrersPage repo subject (some type) last limit).getD ⟨[], false⟩)) ↔
      ∀ repo subject digest descriptor, referrer repo subject digest = some descriptor →
        TypeNulFree reader descriptor := by
  constructor
  · intro exact_ repo subject digest descriptor found type named
    by_contra dirty
    obtain ⟨repoClean, subjectClean, _⟩ := clean repo subject digest (by simp [found])
    obtain ⟨items, _, members, page⟩ := exact_ repo subject type none 1 repoClean subjectClean
    have empty := congrArg Page.items ((typedPage_of_nul dirty tables).symm.trans page)
    have member := (members digest descriptor).mpr ⟨found, named, rfl⟩
    rw [List.take_eq_nil_iff.mp empty.symm |>.resolve_left one_ne_zero] at member
    cases member
  · intro typesClean repo subject type last limit repoClean subjectClean
    by_cases typeClean : NulFree type
    · have opsClean : ∀ op ∈ putReferrers entries, OpNulFree reader op := by
        simp only [putReferrers, List.forall_mem_map, Prod.forall, listed]
        intro repo subject digest descriptor found
        obtain ⟨one, two, three⟩ := clean repo subject digest (by simp [found])
        exact ⟨one, two, three, typesClean repo subject digest descriptor found⟩
      have represents := represents_foldl opsClean stored
      have wellFormed := State.wellFormed_foldl reader (putReferrers entries) repo
      rw [referrersPage_eq represents wellFormed repoClean subjectClean (by simpa using typeClean)]
      have exact_ := @referrersPage_typed reader repo subject type last limit _ wellFormed
      rwa [State.contents_foldl, State.contents_empty, referrer_putReferrers listed] at exact_
    · refine ⟨[], .nil, fun digest descriptor => ?_,
        (typedPage_of_nul typeClean tables).trans (by simp [takePage])⟩
      simp only [List.not_mem_nil, false_iff]
      exact fun found =>
        typeClean (typesClean repo subject digest descriptor found.1 type found.2.1)

end

def typed (type : String) : Bytes := utf8 ("\x7b\"artifactType\":\"" ++ type ++ "\"\x7d")

def oneReferrer (descriptor : Bytes) (repo subject digest : String) : Option Bytes :=
  if repo = "app" ∧ subject = "sha256:0a" ∧ digest = "sha256:0c" then some descriptor else none

theorem signature_listed :
    ∃ tables, (putReferrers [("app", "sha256:0a", "sha256:0c", typed "sig")]).foldlM
        (Tables.applyOp JsonText.reader) {} = .ok tables ∧
      ∀ repo subject type last limit, NulFree repo → NulFree subject →
        IsExact JsonText.reader (oneReferrer (typed "sig") repo subject) type last limit
          ((tables.referrersPage repo subject (some type) last limit).getD ⟨[], false⟩) := by
  obtain ⟨tables, stored⟩ := @bulkApply_ok JsonText.reader
    (putReferrers [("app", "sha256:0a", "sha256:0c", typed "sig")]) {} (by decide +kernel)
  refine ⟨tables, stored, (typed_pages_exact_iff ?_ ?_ stored).mpr ?_⟩
  · grind [oneReferrer]
  · have clean : NulFree "app" ∧ NulFree "sha256:0a" ∧ NulFree "sha256:0c" := by decide +kernel
    grind [oneReferrer]
  · have clean : TypeNulFree JsonText.reader (typed "sig") := by decide +kernel
    grind [oneReferrer]

/-- A referrer whose type has a zero byte is stored, and a page of its type is
empty. -/
theorem nul_type_not_listed :
    ((putReferrers [("app", "sha256:0a", "sha256:0c", typed "a\\u0000b")]).foldlM
      (Tables.applyOp JsonText.reader) {}).toOption.map (fun tables =>
        (tables.hasReferrer "app" "sha256:0a" "sha256:0c",
          (tables.referrersPage "app" "sha256:0a" (some "a\x00b") none 10).map Page.items)) =
      some (true, some []) ∧
    artifactTypeOf JsonText.reader (typed "a\\u0000b") = some "a\x00b" := by
  decide +kernel

end Roci.Lmdb
