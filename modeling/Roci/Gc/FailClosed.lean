import Roci.Gc.Spared
import Roci.Gc.Rebuild

/-!
# Errors of the rebuild

The walk over the root manifests marks the repository unsafe when a manifest
cannot be read.  When the record of a manifest's backref edges cannot be
appended it only says so in the log: the blobs of that manifest are left without
their edges, and a later sweep takes them for garbage.
-/

namespace Roci.Gc

open Roci.Library Roci.Metadata Roci.Storage Roci.Layout

section

variable (reader : JsonReader) (repo : String)
  (reads : String → Digest → Except Unit (Option Bytes)) (logged : MetaOp → Bool)

def visitedReferences (text : String) : List String :=
  match readRoot reader (reads text) text with
  | .manifest manifest => (manifestReferences manifest).map Digest.asString
  | _ => []

/-- Those the store has no edge for yet. -/
def missingEdges (store : State) (text : String) : List String :=
  (visitedReferences reader reads text).filter fun blob => text ∉ store.backrefs repo blob

/-! ## Edges -/

variable {reader repo reads logged}

theorem edge_putBackrefs (store : State) (manifest : String) (blobs : List String)
    (blob other : String) :
    ((store.applyInRam reader (.putBackrefs repo manifest blobs)).repo repo).Edge blob other ↔
      (store.repo repo).Edge blob other ∨ (other = manifest ∧ blob ∈ blobs) := by
  rw [State.repo_applyInRam,
    if_pos (show repo = (MetaOp.putBackrefs repo manifest blobs).repo from rfl)]
  exact RepoState.edge_addBackrefs _ manifest blobs blob other

/-- Step lemma: a visit adds the missing edges of its manifest, if it can. -/
theorem edge_visitText (check : Check) (text blob other : String) :
    ((visitText reader repo reads logged check text).store.repo repo).Edge blob other ↔
      (check.store.repo repo).Edge blob other ∨
        (other = text ∧ blob ∈ missingEdges reader repo reads check.store text ∧
          logged (.putBackrefs repo text (missingEdges reader repo reads check.store text)) =
            true) := by
  unfold visitText visitRoot recordEdges missingEdges visitedReferences
  cases readRoot reader (reads text) text with
  | manifest value =>
    dsimp only
    generalize List.filter _ _ = missing
    by_cases nothing : missing.isEmpty = true
    · rw [if_pos (by simp [nothing]), List.isEmpty_iff.mp nothing]
      simp
    by_cases taken : logged (.putBackrefs repo text missing) = true
    · rw [if_neg (by simp [nothing, taken]), edge_putBackrefs]
      simp [taken]
    rw [if_pos (by simp [taken])]
    simp [taken]
  | _ => simp

theorem mem_missingEdges_iff {store : State} {text blob : String} :
    blob ∈ missingEdges reader repo reads store text ↔
      blob ∈ visitedReferences reader reads text ∧ ¬ (store.repo repo).Edge blob text := by
  rw [missingEdges, List.mem_filter, edge_iff_mem_backrefs, decide_eq_true_eq]

theorem missingEdges_congr {first second : State} {text : String}
    (same : ∀ blob, (first.repo repo).Edge blob text ↔ (second.repo repo).Edge blob text) :
    missingEdges reader repo reads first text = missingEdges reader repo reads second text := by
  unfold missingEdges
  refine List.filter_congr fun blob _ => decide_eq_decide.mpr (not_congr ?_)
  rw [← edge_iff_mem_backrefs, ← edge_iff_mem_backrefs, same]

variable (order : List String)

/-- Run lemma: a manifest that was visited has all its edges if they could be
appended, and those it had before if they could not. -/
theorem edge_visits (check : Check) (blob text : String) :
    ((order.foldl (visitText reader repo reads logged) check).store.repo repo).Edge blob text ↔
      (check.store.repo repo).Edge blob text ∨
        (text ∈ order ∧ blob ∈ missingEdges reader repo reads check.store text ∧
          logged (.putBackrefs repo text (missingEdges reader repo reads check.store text)) =
            true) := by
  induction order generalizing check with
  | nil => simp
  | cons visited rest ih =>
    rw [List.foldl_cons, ih, edge_visitText]
    by_cases same : text = visited
    · subst same
      by_cases taken : logged
          (.putBackrefs repo text (missingEdges reader repo reads check.store text)) = true
      · -- the visit adds every missing edge, so that later visits find none missing
        have complete : missingEdges reader repo reads
            (visitText reader repo reads logged check text).store text = [] := by
          rw [List.eq_nil_iff_forall_not_mem]
          intro other missing
          rw [mem_missingEdges_iff, edge_visitText] at missing
          refine missing.2 ?_
          by_cases before : (check.store.repo repo).Edge other text
          · exact .inl before
          · exact .inr ⟨rfl, mem_missingEdges_iff.mpr ⟨missing.1, before⟩, taken⟩
        simp [complete, taken]
      have unchanged : missingEdges reader repo reads
          (visitText reader repo reads logged check text).store text =
            missingEdges reader repo reads check.store text :=
        missingEdges_congr fun other => by
          rw [edge_visitText]
          simp [taken]
      simp [unchanged, taken]
    · have unchanged : missingEdges reader repo reads
          (visitText reader repo reads logged check visited).store text =
            missingEdges reader repo reads check.store text :=
        missingEdges_congr fun other => by
          rw [edge_visitText]
          simp [same]
      simp [unchanged, same]

theorem edge_of_referenced {order : List String} {check : Check} {text blob : String}
    (listed : text ∈ order) (referenced : blob ∈ visitedReferences reader reads text)
    (taken : missingEdges reader repo reads check.store text = [] ∨
      logged (.putBackrefs repo text (missingEdges reader repo reads check.store text)) = true) :
    ((order.foldl (visitText reader repo reads logged) check).store.repo repo).Edge blob text := by
  rw [edge_visits]
  by_cases before : (check.store.repo repo).Edge blob text
  · exact .inl before
  have missing := mem_missingEdges_iff.mpr ⟨referenced, before⟩
  exact .inr ⟨listed, missing, taken.resolve_left (List.ne_nil_of_mem missing)⟩

theorem mem_visitedReferences_iff {text blob : String} :
    blob ∈ visitedReferences reader reads text ↔
      ∃ manifest, readRoot reader (reads text) text = .manifest manifest ∧
        ∃ digest ∈ manifestReferences manifest, digest.asString = blob := by
  unfold visitedReferences
  cases readRoot reader (reads text) text <;> simp

theorem unreadableIndex_visits (check : Check) :
    (order.foldl (visitText reader repo reads logged) check).unreadableIndex =
      check.unreadableIndex := by
  refine List.foldlRecOn (motive := fun reached => Check.unreadableIndex reached =
    check.unreadableIndex) order _ rfl fun reached same text _ => ?_
  rw [← same]
  unfold visitText visitRoot
  cases readRoot reader (reads text) text <;> rfl

/-- Sweeps skip the repository exactly when a visit failed. -/
theorem isUnsafe_visits {order roots : List String}
    (visited : ∀ text, text ∈ order ↔ Reachable (textChildren reader reads) roots text)
    (store : State) (texts : List String) :
    ({ order.foldl (visitText reader repo reads logged)
        { store := store } with roots := texts } : Check).isUnsafe = true ↔
      ∃ text, Reachable (textChildren reader reads) roots text ∧
        readRoot reader (reads text) text = .failed := by
  simp only [Check.isUnsafe, unreadableIndex_visits, Bool.false_or, Bool.not_eq_true',
    List.isEmpty_eq_false_iff_exists_mem, mem_unsafeRoots_visits, visited]
  simp

end

/-! ## The walk of one repository -/

/-- A read of a manifest file: it fails when `unreadable` says so. -/
def failingReads (files : StringMap Bytes) (unreadable : String → Bool) (text : String)
    (digest : Digest) : Except Unit (Option Bytes) :=
  if unreadable text then .error () else readCasBlobBounded files digest

theorem readsFrom_failingReads (files : StringMap Bytes) (unreadable : String → Bool)
    (text : String) : ReadsFrom files (failingReads files unreadable text) := by
  intro digest bytes read
  unfold failingReads at read
  split at read
  · cases read
  · exact readsFrom_readCasBlobBounded files digest bytes read

section

variable (reader : JsonReader) (repo : String) (files : StringMap Bytes)
  (unreadable : String → Bool) (logged : MetaOp → Bool) (roots : List String)

def Visited (text : String) : Prop :=
  Reachable (textChildren reader (failingReads files unreadable)) roots text

def visitedRead (text : String) : RootRead :=
  readRoot reader (failingReads files unreadable text) text

/-- Every blob of a manifest that was read has its edge, or sweeps skip the
repository. -/
def Closed (check : Check) : Prop :=
  ∀ text manifest, Visited reader files unreadable roots text →
    visitedRead reader files unreadable text = .manifest manifest →
    ∀ blob ∈ manifestReferences manifest,
      text ∈ check.store.backrefs repo blob.asString ∨ check.isUnsafe = true

end

section

variable {reader : JsonReader} {repo : String} {files : StringMap Bytes}
  {unreadable : String → Bool} {logged : MetaOp → Bool} {roots order : List String}

/-- What the visits of the walk leave behind is closed exactly when a visit
failed or every record of missing edges could be appended. -/
theorem closed_visits_iff
    (visited : ∀ text, text ∈ order ↔ Visited reader files unreadable roots text)
    (store : State) (texts : List String) :
    Closed reader repo files unreadable roots
        { order.foldl (visitText reader repo (failingReads files unreadable) logged)
            { store := store } with roots := texts } ↔
      (∃ text, Visited reader files unreadable roots text ∧
        visitedRead reader files unreadable text = .failed) ∨
      ∀ text, Visited reader files unreadable roots text →
        missingEdges reader repo (failingReads files unreadable) store text = [] ∨
          logged (.putBackrefs repo text
            (missingEdges reader repo (failingReads files unreadable) store text)) = true := by
  have marked := @isUnsafe_visits reader repo (failingReads files unreadable) logged order roots
    visited store texts
  have edges := @edge_visits reader repo (failingReads files unreadable) logged order
    { store := store }
  constructor
  · intro closed
    by_cases failed : ∃ text, Visited reader files unreadable roots text ∧
        visitedRead reader files unreadable text = .failed
    · exact .inl failed
    refine .inr fun text reached => ?_
    by_contra neither
    rw [not_or] at neither
    obtain ⟨blob, missing⟩ := List.exists_mem_of_ne_nil _ neither.1
    obtain ⟨referenced, absent⟩ := mem_missingEdges_iff.mp missing
    obtain ⟨manifest, read, digest, listed, rfl⟩ := mem_visitedReferences_iff.mp referenced
    rcases closed text manifest reached read digest listed with edge | skipped
    · rcases (edges _ _).mp (edge_iff_mem_backrefs.mpr edge) with before | ⟨_, _, taken⟩
      · exact absent before
      · exact neither.2 taken
    · exact failed (marked.mp skipped)
  · rintro (failed | taken) text manifest reached read blob listed
    · exact .inr (marked.mpr failed)
    refine .inl (edge_iff_mem_backrefs.mp (edge_of_referenced ((visited text).mpr reached) ?_
      (taken text reached)))
    exact mem_visitedReferences_iff.mpr ⟨manifest, read, blob, listed, rfl⟩

end

/-- What calls find once the check of a repository is through. -/
def checkedWorld (files : StringMap Bytes) (check : Check) (delay : Nat)
    (candidates : StringMap Nat) : Manifests.World where
  files := files
  metadata := check.store
  gc :=
    { delay := delay, candidates := candidates, roots := check.roots,
      unsafeRepo := check.isUnsafe }

def NeverSwept (env : Manifests.Env) (repo : String) (world : Manifests.World)
    (digest : String) : Prop :=
  world.Holds digest → ∀ events final,
    Reaches (Manifests.machine env repo).step
      ((Manifests.machine env repo).Permitted NoDeletes) { world := world } events final →
    final.world.Holds digest

/-- The walk ends whatever fails.  It leaves every blob of a manifest it has read
with its edge, or marks the repository unsafe, exactly when some manifest could
not be read or every record of missing edges could be appended.  A blob with
such an edge, or in an unsafe repository, is not removed by any later sweep, as
long as nothing is deleted. -/
theorem rebuild_fails_closed_iff (env : Manifests.Env) (repo : String) (files : StringMap Bytes)
    (unreadable : String → Bool) (logged : MetaOp → Bool) (roots : List String) (store : State) :
    ∃ check, rebuildFailing env.reader repo (failingReads files unreadable) logged
        (roots.length + (listedChildren env.reader files).length) roots store = some check ∧
      (Closed env.reader repo files unreadable roots check ↔
        (∃ text, Visited env.reader files unreadable roots text ∧
          visitedRead env.reader files unreadable text = .failed) ∨
        ∀ text, Visited env.reader files unreadable roots text →
          missingEdges env.reader repo (failingReads files unreadable) store text = [] ∨
            logged (.putBackrefs repo text
              (missingEdges env.reader repo (failingReads files unreadable) store text)) = true) ∧
      (Closed env.reader repo files unreadable roots check →
        ∀ text manifest, Visited env.reader files unreadable roots text →
        visitedRead env.reader files unreadable text = .manifest manifest →
        ∀ blob ∈ manifestReferences manifest, ∀ delay (candidates : StringMap Nat),
          (∀ candidate stamp, candidates[candidate]? = some stamp →
            ∃ digest : Digest, candidate = digest.asString) →
          NeverSwept env repo (checkedWorld files check delay candidates) blob.asString) := by
  obtain ⟨order, seen, walked, visited, _⟩ := rebuildFailing_spec env.reader repo logged
    (readsFrom_failingReads files unreadable) store (Nat.le_refl (roots.length + _))
  refine ⟨_, walked, ?_, ?_⟩
  · exact closed_visits_iff visited store _
  intro closed text manifest reached read blob referenced delay candidates digests present
    events final run
  refine spared_stays ?_ present digests run
  rcases closed text manifest reached read blob referenced with edge | marked
  · exact ⟨.referenced, text, edge_iff_mem_backrefs.mpr edge⟩
  · exact ⟨.unsafeRepo, marked⟩

/-! ## A walk on which every record can be appended -/

section

variable (reader : JsonReader) (repo : String) (files : StringMap Bytes)
  (readManifest : Digest → Except Unit (Option Bytes)) (roots : List String)

/-- A root, or an image-index child of what a walk from the roots reads. -/
def RootedText (text : String) : Prop := Reachable (rootChildren reader readManifest) roots text

/-- The walk over a finite store ends whatever its graph.  It visits exactly the
manifests that can be reached, each once, reads no digest twice, and leaves every
reference with its edge and every manifest the store does not know among the
roots. -/
theorem rebuild_backrefs_complete (store : State) {fuel : Nat}
    (reads : ReadsFrom files readManifest) (distinct : roots.Nodup)
    (canonical : ∀ text, RootedText reader readManifest roots text →
      ∃ digest : Digest, digest.asString = text)
    (enough : roots.length + (listedChildren reader files).length ≤ fuel) :
    ∃ check : Check,
      rebuildBackrefs reader repo (fun _ => true) readManifest fuel roots store = some check ∧
      check.reads.Nodup ∧ check.visited.Nodup ∧
      (∀ text, text ∈ check.visited ↔ RootedText reader readManifest roots text) ∧
      (∀ text ∈ check.visited, ∀ manifest,
        readRoot reader readManifest text = .manifest manifest →
        ∀ blob ∈ manifestReferences manifest,
          text ∈ check.store.backrefs repo blob.asString) ∧
      ∀ text ∈ check.visited,
        check.store.manifestMediaType repo text = none → text ∈ check.roots := by
  obtain ⟨order, seen, walked, visited, reached, once⟩ := rebuildFailing_spec reader repo
    (fun _ => true) (fun _ => reads) store enough
  have recorded := visited_visits reader repo (fun _ => readManifest) (fun _ => true) order
    { store := store }
  refine ⟨_, walked, ?_, ?_, ?_, ?_, ?_⟩
  all_goals simp only [recorded, List.nil_append]
  · -- canonical texts that are read as one digest are one text
    rw [reads_visits, List.nil_append, List.Nodup, List.pairwise_filterMap]
    refine (once distinct).imp_of_mem fun firstListed secondListed differ => ?_
    obtain ⟨first, rfl⟩ := canonical _ ((visited _).mp firstListed)
    obtain ⟨second, rfl⟩ := canonical _ ((visited _).mp secondListed)
    rw [Digest.parse_asString, Digest.parse_asString]
    rintro _ ⟨⟩ _ ⟨⟩ same
    exact differ (congrArg Digest.asString same)
  · exact once distinct
  · exact visited
  · intro text listed manifest read blob referenced
    have edge := @edge_of_referenced reader repo (fun _ => readManifest) (fun _ => true) order
      { store := store } text blob.asString listed
      (mem_visitedReferences_iff.mpr ⟨manifest, read, blob, referenced, rfl⟩) (.inr rfl)
    exact edge_iff_mem_backrefs.mp edge
  · intro text listed unknown
    exact List.mem_filter.mpr ⟨(reached text).mpr ((visited text).mp listed), by rw [unknown]; rfl⟩

end

/-- An image index that lists itself. -/
def cyclicFiles : StringMap Bytes :=
  (∅ : StringMap Bytes).insert Digest.ofNothing.asString (Json.print (.object
    [("manifests", .array [.object [("digest", .string Digest.ofNothing.asString)]])]))

theorem cycle_walked :
    ∃ check, rebuildBackrefs JsonText.reader "app" (fun _ => true)
      (readCasBlobBounded cyclicFiles) 2 [Digest.ofNothing.asString] {} = some check ∧
      check.visited.Nodup := by
  have listed : listedChildren JsonText.reader cyclicFiles = [Digest.ofNothing.asString] := by
    decide +kernel
  have canonical : ∀ text, RootedText JsonText.reader (readCasBlobBounded cyclicFiles)
      [Digest.ofNothing.asString] text → ∃ digest : Digest, digest.asString = text := by
    intro text reached
    refine ⟨.ofNothing, ?_⟩
    cases reached with
    | root root => exact (List.mem_singleton.mp root).symm
    | child _ child =>
      have within := rootChildren_subset_listed _ (readsFrom_readCasBlobBounded _) _ _ child
      rw [listed] at within
      exact (List.mem_singleton.mp within).symm
  obtain ⟨check, rebuilt, _, once, _⟩ := rebuild_backrefs_complete JsonText.reader "app"
    cyclicFiles (readCasBlobBounded cyclicFiles) [Digest.ofNothing.asString] {}
    (readsFrom_readCasBlobBounded _) (List.nodup_singleton _) canonical (by rw [listed])
  exact ⟨check, rebuilt, once⟩

/-! ## A record that cannot be appended -/

set_option maxRecDepth 4096

def configHex : String := "6e340b9cffb37a989ca544e6bb780a2c78901d3fb33738768511a30617afa01d"

def configDigest : Digest where
  algorithm := "sha256"
  hex := configHex
  length_eq := by decide
  digits := by decide

def imageManifest : Json :=
  .object [("config", .object [("digest", .string configDigest.asString)])]

def imageFiles : StringMap Bytes :=
  (∅ : StringMap Bytes).insert Digest.ofNothing.asString (Json.print imageManifest)

/-- The manifest was read, but its configuration has no edge and the repository
is not marked unsafe. -/
theorem config_left_unguarded :
    ∃ check, rebuildFailing JsonText.reader "app" (failingReads imageFiles fun _ => false)
        (fun _ => false) 1 [Digest.ofNothing.asString] {} = some check ∧
      ¬ Closed JsonText.reader "app" imageFiles (fun _ => false) [Digest.ofNothing.asString]
        check := by
  have evaluated : (rebuildFailing JsonText.reader "app" (failingReads imageFiles fun _ => false)
      (fun _ => false) 1 [Digest.ofNothing.asString] {}).any (fun check =>
        decide (Digest.ofNothing.asString ∉ check.store.backrefs "app" configDigest.asString ∧
          ¬ check.isUnsafe = true)) = true := by
    decide +kernel
  obtain ⟨check, rebuilt, unguarded⟩ := (Option.any_eq_true _ _).mp evaluated
  have referenced : configDigest.asString ∈ visitedReferences JsonText.reader
      (failingReads imageFiles fun _ => false) Digest.ofNothing.asString := by
    decide +kernel
  obtain ⟨manifest, read, digest, listed, same⟩ := mem_visitedReferences_iff.mp referenced
  refine ⟨check, rebuilt, fun closed => ?_⟩
  have guarded := closed _ _ (.root (by simp)) read digest listed
  rw [same] at guarded
  exact not_or.mpr (of_decide_eq_true unguarded) guarded

end Roci.Gc
