import Roci.Manifests.Calls
import Roci.Metadata.Facts

/-!
# Recorded manifests keep their blobs

A push looks for the blobs its manifest requires while it holds the fence, and
its record comes with an edge from each of them.  A sweep takes the fence for
itself and leaves every blob with an edge alone, so it removes nothing a record
needs.  A deletion takes no fence: it can unlink a blob between the moment a
push has found it and the moment the push is recorded.
-/

namespace Roci.Manifests

open Roci.Library Roci.Storage Roci.Metadata
open Program (meets_act meets_bind)
open Function (update update_of_ne update_self)

variable (reader : JsonReader)

def requiredOf (body : Bytes) : List String :=
  match requiredBlobs (parsedBody reader body) with
  | .ok required => required.map Digest.asString
  | .error _ => []

variable (repo : String)

def World.Complete (world : World) : Prop :=
  ∀ manifest, (world.metadata.repo repo).Recorded manifest →
    ∃ body, world.pushed[manifest]? = some body ∧ ∀ blob ∈ requiredOf reader body,
      world.Holds blob

def World.Requires (world : World) (blob : String) : Prop :=
  ∃ manifest ∈ world.metadata.manifests repo, ∃ body ∈ world.pushed[manifest]?,
    blob ∈ requiredOf reader body

/-- Pushes link what the handler reads off the body.  A deletion, which holds no
fence, unlinks a file only while no recorded manifest requires it and no push
that holds a pin has found it. -/
def DeletesApart :
    Conditions World Request Action Response Reply Notes where
  calls
    | .putManifest _ digest mediaType data links =>
      manifestLinks reader mediaType digest data = .ok links
    | _ => True
  actions system index action response :=
    match action, response with
    | .unlink digest, _ =>
      (∀ thread ∈ system.threads[index]?, thread.notes.exclusive = false) →
        ¬ system.world.Requires reader repo digest ∧
        ∀ other ∈ system.threads, other.notes.pinned = true → digest ∉ other.notes.vouched
    | _, _ => True
  drops _ := False

/-- A record is written under the pin, for blobs found under it, with an edge
from each; under the exclusive fence only a blob without edges is unlinked. -/
def fenced : Discipline Action Response Notes where
  allowed notes
    | .release => notes.exclusive = true
    | .unlink digest => notes.exclusive = true → notes.unreferenced = some digest
    | .apply (.putManifest named _ _ _ references _) body =>
      named = repo ∧ notes.pinned = true ∧ ∀ blob ∈ requiredOf reader body,
        blob ∈ notes.vouched ∧ blob ∈ references
    | .apply (.deleteManifest named _) _ => named = repo
    | .apply _ _ => False
    | .applyRelaxed (.putChecksum ..) => True
    | .applyRelaxed (.deleteBlob ..) => True
    | .applyRelaxed _ => False
    | _ => True
  expected _
    | .due _, texts => ∀ text ∈ texts, ∃ digest : Digest, text = digest.asString
    | _, _ => True

/-! ## The calls keep to it -/

section

variable {env : Env} {repo : String} {notes : Notes}

theorem fenced_entering (notes : Notes) (action : Action) (entering : Entering action) :
    (fenced env.reader repo).allowed notes action := by
  cases action with
  | applyRelaxed op => cases op <;> trivial
  | exclusive | release | unlink | apply => cases entering
  | _ => trivial

theorem fenced_books (notes : Notes) (action : Action) (books : action.bookkeeping = true) :
    (fenced env.reader repo).allowed notes action :=
  fenced_entering notes action (.of_books books)

variable {data : Bytes} {digest : Digest} {links : ManifestLinks} {tag : Option String}
  {mediaType : String}

theorem fenced_putManifest (linked : manifestLinks env.reader mediaType digest data = .ok links) :
    (putManifest env repo tag digest mediaType data links).Meets observe
      (fenced env.reader repo) notes fun _ _ => True := by
  refine meets_push fenced_entering fun notes referrer _ _ _ pinned vouched =>
    ⟨rfl, pinned, fun blob membership => ?_⟩
  unfold manifestLinks at linked
  rcases found : requiredBlobs (parsedBody env.reader data) with error | digests
  · simp [found] at linked
  simp only [found, Except.ok.injEq] at linked
  rw [requiredOf, found] at membership
  subst linked
  refine ⟨vouched blob membership, ?_⟩
  obtain ⟨referenced, listed, rfl⟩ := List.mem_map.mp membership
  exact List.mem_map_of_mem (requiredBlobs_subset_references found referenced listed)

theorem fenced_removeManifest {bytes : Bytes} (unfenced : notes.exclusive = false) :
    (removeManifest env repo digest bytes).Meets observe (fenced env.reader repo) notes
      fun _ _ => True := by
  simp only [removeManifest, meets_bind, meets_act]
  refine ⟨fun holds => by simp [unfenced] at holds, fun unlinked _ => ?_⟩
  rcases unlinked with error | _
  · trivial
  simp only [meets_bind, meets_act]
  refine meets_blobLeft fenced_books ⟨rfl, fun logged _ => ?_⟩
  rcases logged with error | _
  · trivial
  rw [meets_bind]
  exact meets_markOrphans fenced_books fun _ => trivial

theorem fenced_deleteManifest :
    (deleteManifest env repo digest).Meets observe (fenced env.reader repo) {} fun _ _ => True := by
  simp only [deleteManifest, manifestBytes, meets_bind, meets_act]
  refine ⟨trivial, fun cached _ => ?_⟩
  cases cached with
  | some bytes => exact fenced_removeManifest rfl
  | none =>
    refine ⟨trivial, fun read _ => ?_⟩
    rcases read with error | bytes
    · trivial
    · exact fenced_removeManifest rfl

theorem fenced_sweepAt {now : Nat} :
    (sweepAt repo now).Meets observe (fenced env.reader repo) notes fun _ _ => True :=
  meets_sweepAt fenced_books (fun _ _ _ unreferenced _ _ _ _ _ => unreferenced)
    (fun _ => trivial) (fun _ => id) fun _ _ _ => id

end

/-! ## The invariant -/

/-- Who holds the fence, what they have found, and what records rest on. -/
structure Guarded (reader : JsonReader) (repo : String) (world : World) (notes : Nat → Notes) :
    Prop where
  enabled : world.gc.enabled = true
  digests : ∀ text stamp, world.gc.candidates[text]? = some stamp →
    ∃ digest : Digest, text = digest.asString
  pinned : ∀ index, (notes index).pinned = true → index ∈ world.pins
  exclusive : ∀ index, (notes index).exclusive = true → world.writer = some index
  alone : ∀ index, world.writer = some index → world.pins = []
  vouched : ∀ index, (notes index).pinned = true → ∀ blob ∈ (notes index).vouched,
    world.Holds blob
  unreferenced : ∀ index blob, (notes index).exclusive = true →
    (notes index).unreferenced = some blob →
    ∀ manifest, ¬ (world.metadata.repo repo).Edge blob manifest
  recorded : ∀ manifest, (world.metadata.repo repo).Recorded manifest →
    ∃ body, world.pushed[manifest]? = some body ∧ ∀ blob ∈ requiredOf reader body,
      world.Holds blob ∧ (world.metadata.repo repo).Edge blob manifest

variable {world : World}

theorem Guarded.complete {reader : JsonReader} {repo : String} {notes : Nat → Notes}
    (guarded : Guarded reader repo world notes) :
    world.Complete reader repo := by
  intro manifest recorded
  obtain ⟨body, pushed, every⟩ := guarded.recorded manifest recorded
  exact ⟨body, pushed, fun blob membership => (every blob membership).1⟩

variable {body : Bytes}

section

variable {reader : JsonReader} {repo : String} {world next : World} {notes : Nat → Notes}
  {index : Nat} {changed : Notes}

theorem Guarded.not_pinned (guarded : Guarded reader repo world notes) {other : Nat}
    (exclusive : (notes index).exclusive = true) : (notes other).pinned = false := by
  by_contra held
  rw [Bool.not_eq_false] at held
  have listed := guarded.pinned other held
  rw [guarded.alone index (guarded.exclusive index exclusive)] at listed
  cases listed

theorem Guarded.note (guarded : Guarded reader repo world notes)
    (pinned : changed.pinned = true → index ∈ world.pins)
    (exclusive : changed.exclusive = true → world.writer = some index)
    (vouched : changed.pinned = true → ∀ blob ∈ changed.vouched, world.Holds blob)
    (unreferenced : changed.exclusive = true → ∀ blob, changed.unreferenced = some blob →
      ∀ manifest, ¬ (world.metadata.repo repo).Edge blob manifest) :
    Guarded reader repo world (update notes index changed) where
  enabled := guarded.enabled
  digests := guarded.digests
  pinned := (Function.forall_update_iff notes fun other notes =>
    notes.pinned = true → other ∈ world.pins).mpr ⟨pinned, fun other _ => guarded.pinned other⟩
  exclusive := (Function.forall_update_iff notes fun other notes =>
    notes.exclusive = true → world.writer = some other).mpr
      ⟨exclusive, fun other _ => guarded.exclusive other⟩
  alone := guarded.alone
  vouched := (Function.forall_update_iff notes fun _ notes =>
    notes.pinned = true → ∀ blob ∈ notes.vouched, world.Holds blob).mpr
      ⟨vouched, fun other _ => guarded.vouched other⟩
  unreferenced other blob held := (Function.forall_update_iff notes fun _ notes =>
    notes.exclusive = true → ∀ blob, notes.unreferenced = some blob →
      ∀ manifest, ¬ (world.metadata.repo repo).Edge blob manifest).mpr
      ⟨unreferenced, fun other _ held blob => guarded.unreferenced other blob held⟩ other held blob
  recorded := guarded.recorded

theorem Guarded.frame (guarded : Guarded reader repo world notes)
    (enabled : next.gc.enabled = world.gc.enabled)
    (digests : ∀ text stamp, next.gc.candidates[text]? = some stamp →
      ∃ digest : Digest, text = digest.asString)
    (pins : next.pins = world.pins) (writer : next.writer = world.writer)
    (metadata : next.metadata = world.metadata) (pushed : next.pushed = world.pushed)
    (holds : ∀ blob, world.Holds blob → next.Holds blob) :
    Guarded reader repo next notes where
  enabled := by rw [enabled, guarded.enabled]
  digests := digests
  pinned := by simpa only [pins] using guarded.pinned
  exclusive := by simpa only [writer] using guarded.exclusive
  alone := by simpa only [writer, pins] using guarded.alone
  vouched other held blob listed := holds blob (guarded.vouched other held blob listed)
  unreferenced := by simpa only [metadata] using guarded.unreferenced
  recorded := by
    rw [metadata, pushed]
    intro manifest recorded
    obtain ⟨body, found, every⟩ := guarded.recorded manifest recorded
    exact ⟨body, found, fun blob membership =>
      ⟨holds blob (every blob membership).1, (every blob membership).2⟩⟩

variable {digest : String}

section

variable (guarded : Guarded reader repo world notes)

include guarded

theorem Guarded.idle (pinned : changed.pinned = (notes index).pinned := by rfl)
    (exclusive : changed.exclusive = (notes index).exclusive := by rfl)
    (vouched : changed.vouched = (notes index).vouched := by rfl)
    (unreferenced : changed.unreferenced = (notes index).unreferenced := by rfl) :
    Guarded reader repo world (update notes index changed) := by
  refine guarded.note ?_ ?_ ?_ ?_
  · rw [pinned]
    exact guarded.pinned index
  · rw [exclusive]
    exact guarded.exclusive index
  · rw [pinned, vouched]
    exact guarded.vouched index
  rw [exclusive, unreferenced]
  exact fun held blob => guarded.unreferenced index blob held

theorem Guarded.link {data : Bytes} : Guarded reader repo (world.link digest data) notes := by
  have holds : ∀ blob, world.Holds blob → (world.link digest data).Holds blob :=
    fun blob present => (World.holds_link ..).mpr (.inr present)
  obtain ⟨files, linked⟩ := world.link_eq digest data
  exact guarded.frame (by rw [linked]) (by rw [linked]; exact guarded.digests) (by rw [linked])
    (by rw [linked]) (by rw [linked]) (by rw [linked]) holds

theorem Guarded.pin (free : world.writer = none) :
    Guarded reader repo { world with pins := index :: world.pins }
      (update notes index { notes index with pinned := true, vouched := [] }) := by
  have pinning : Guarded reader repo { world with pins := index :: world.pins } notes :=
    { guarded with
      pinned := fun other held => List.mem_cons_of_mem _ (guarded.pinned other held)
      alone := fun other held => by cases free.symm.trans held }
  exact pinning.note (fun _ => List.mem_cons_self) (guarded.exclusive index) nofun
    fun held blob => guarded.unreferenced index blob held

theorem Guarded.unpin :
    Guarded reader repo { world with pins := world.pins.filter (· ≠ index) }
      (update notes index { notes index with pinned := false, vouched := [] }) := by
  have unpinned : Guarded reader repo world
      (update notes index { notes index with pinned := false, vouched := [] }) :=
    guarded.note nofun (guarded.exclusive index) nofun
      fun held blob => guarded.unreferenced index blob held
  refine { unpinned with pinned := ?_, alone := ?_ }
  · intro other held
    have different : other ≠ index := by
      rintro rfl
      rw [update_self] at held
      cases held
    simpa [different] using unpinned.pinned other held
  intro other held
  simp [guarded.alone other held]

theorem Guarded.exclude (free : world.writer = none) (unpinned : world.pins = []) :
    Guarded reader repo { world with writer := some index }
      (update notes index { notes index with exclusive := true, unreferenced := none }) := by
  have excluding : Guarded reader repo { world with writer := some index } notes :=
    { guarded with
      exclusive := fun other held => by cases free.symm.trans (guarded.exclusive other held)
      alone := fun _ _ => unpinned }
  exact excluding.note (guarded.pinned index) (fun _ => rfl) (guarded.vouched index) nofun

theorem Guarded.release (holder : (notes index).exclusive = true) :
    Guarded reader repo { world with writer := none }
      (update notes index
        { notes index with exclusive := false, unreferenced := none, unlinked := none }) := by
  have released : Guarded reader repo world (update notes index
      { notes index with exclusive := false, unreferenced := none, unlinked := none }) :=
    guarded.note (guarded.pinned index) nofun (guarded.vouched index) nofun
  refine { released with exclusive := ?_, alone := nofun }
  intro other held
  obtain rfl : index = other := Option.some.inj
    ((guarded.exclusive index holder).symm.trans (released.exclusive other held))
  rw [update_self] at held
  cases held

theorem Guarded.unlink
    (unrequired : ∀ manifest body, (world.metadata.repo repo).Recorded manifest →
      world.pushed[manifest]? = some body → digest ∉ requiredOf reader body)
    (unvouched : ∀ other, (notes other).pinned = true → digest ∉ (notes other).vouched) :
    Guarded reader repo { world with files := world.files.erase digest } notes := by
  refine { guarded with vouched := ?_, recorded := ?_ }
  · intro other held blob listed
    rw [World.holds_erase]
    refine ⟨?_, guarded.vouched other held blob listed⟩
    rintro rfl
    exact unvouched other held listed
  intro manifest recorded
  obtain ⟨body, found, every⟩ := guarded.recorded manifest recorded
  refine ⟨body, found, fun blob membership => ⟨?_, (every blob membership).2⟩⟩
  rw [World.holds_erase]
  refine ⟨?_, (every blob membership).1⟩
  rintro rfl
  exact unrequired manifest body recorded found membership

theorem Guarded.put {mediaType : String} {tag : Option String} {references : List String}
    {referrer : Option (String × Bytes)} (held : (notes index).pinned = true)
    (required : ∀ blob ∈ requiredOf reader body, blob ∈ (notes index).vouched ∧ blob ∈ references) :
    Guarded reader repo
      (world.record reader (.putManifest repo digest mediaType tag references referrer) body)
      notes := by
  have applied : (world.metadata.applyInRam reader
      (.putManifest repo digest mediaType tag references referrer)).repo repo =
        (world.metadata.repo repo).apply reader
          (.putManifest repo digest mediaType tag references referrer) := by
    rw [State.repo_applyInRam]
    exact if_pos rfl
  refine { guarded with unreferenced := ?_, recorded := ?_ }
  · intro other blob exclusive
    rw [guarded.not_pinned exclusive] at held
    cases held
  simp only [World.record, World.note, applied, RepoState.recorded_putManifest,
    RepoState.edge_putManifest, StringMap.lookup_insert]
  intro manifest recorded
  by_cases same : manifest = digest
  · refine ⟨body, by simp [same], fun blob membership => ⟨?_, .inr ⟨same, ?_⟩⟩⟩
    · exact guarded.vouched index held blob (required blob membership).1
    · exact (required blob membership).2
  obtain ⟨earlier, found, every⟩ := guarded.recorded manifest (recorded.resolve_right same)
  exact ⟨earlier, by simpa [same] using found, fun blob membership =>
    ⟨(every blob membership).1, .inl (every blob membership).2⟩⟩

theorem Guarded.delete :
    Guarded reader repo (world.record reader (.deleteManifest repo digest) body) notes := by
  have applied : (world.metadata.applyInRam reader (.deleteManifest repo digest)).repo repo =
      (world.metadata.repo repo).deleteManifest digest := by
    rw [State.repo_applyInRam]
    exact if_pos rfl
  refine { guarded with unreferenced := ?_, recorded := ?_ }
  · simp only [World.record, applied, RepoState.edge_deleteManifest]
    exact fun other blob held found manifest edge =>
      guarded.unreferenced other blob held found manifest edge.1
  simp only [World.record, World.note, applied, RepoState.recorded_deleteManifest,
    RepoState.edge_deleteManifest]
  rintro manifest ⟨recorded, different⟩
  obtain ⟨earlier, found, every⟩ := guarded.recorded manifest recorded
  exact ⟨earlier, found, fun blob membership =>
    ⟨(every blob membership).1, (every blob membership).2, different⟩⟩

theorem Guarded.relaxed {op : MetaOp}
    (allowed : (fenced reader repo).allowed (notes index) (.applyRelaxed op)) :
    Guarded reader repo (world.record reader op body) notes := by
  have facts : ((world.metadata.applyInRam reader op).repo repo).mediaTypes =
      (world.metadata.repo repo).mediaTypes ∧
      ((world.metadata.applyInRam reader op).repo repo).backrefs =
        (world.metadata.repo repo).backrefs ∧ world.note op body = world.pushed := by
    rw [State.repo_applyInRam]
    cases op with
    | putChecksum | deleteBlob => split <;> exact ⟨rfl, rfl, rfl⟩
    | _ => exact allowed.elim
  obtain ⟨mediaTypes, backrefs, pushed⟩ := facts
  refine { guarded with unreferenced := ?_, recorded := ?_ }
  · simpa only [World.record, RepoState.Edge, backrefs] using guarded.unreferenced
  have kept := guarded.recorded
  simp only [World.record, RepoState.Edge, RepoState.Recorded, mediaTypes, backrefs, pushed]
    at kept ⊢
  exact kept

end

theorem digests_of_quiet {action : Action} {choice : Choice} {response : Response action}
    (quiet : action.quiet = true)
    (performed : perform reader repo world index action choice = some (next, response))
    (digests : ∀ text stamp, world.gc.candidates[text]? = some stamp →
      ∃ digest : Digest, text = digest.asString) :
    ∀ text stamp, next.gc.candidates[text]? = some stamp →
      ∃ digest : Digest, text = digest.asString := by
  cases action <;> cases quiet <;>
    simp only [perform, Option.some.injEq, Prod.mk.injEq] at performed <;>
    obtain ⟨rfl, _⟩ := performed
  case mark digest _ =>
    intro text stamp found
    simp only [GcTracker.markAt] at found
    split at found
    · rw [StringMap.lookup_insert] at found
      split at found
      · rename_i same
        exact ⟨digest, same⟩
      · exact digests text stamp found
    · exact digests text stamp found
  case touch touched =>
    intro text stamp found
    simp only [GcTracker.touch] at found
    split at found
    · rename_i candidate
      rw [StringMap.lookup_insert] at found
      split at found
      · rename_i same
        subst same
        rw [Bool.and_eq_true, Std.ExtTreeMap.contains_eq_isSome_getElem?] at candidate
        obtain ⟨earlier, present⟩ := Option.isSome_iff_exists.mp candidate.2
        exact digests text earlier present
      · exact digests text stamp found
    · exact digests text stamp found
  case clear cleared =>
    intro text stamp found
    simp only [GcTracker.clear] at found
    split at found
    · rw [StringMap.lookup_erase] at found
      split at found
      · cases found
      · exact digests text stamp found
    · exact digests text stamp found
  case cachePut digest data =>
    split <;> exact digests
  all_goals exact digests

theorem due_digests {tracker : GcTracker} {arrangement : Arrangement} {now : Nat}
    (digests : ∀ text stamp, tracker.candidates[text]? = some stamp →
      ∃ digest : Digest, text = digest.asString) :
    ∀ text ∈ tracker.due arrangement now, ∃ digest : Digest, text = digest.asString := by
  intro text membership
  simp only [GcTracker.due, List.mem_map, List.mem_filter] at membership
  obtain ⟨⟨_, stamp⟩, ⟨listed, _⟩, rfl⟩ := membership
  have present := (arrangement.perm _).mem_iff.mp listed
  exact digests _ stamp (Std.ExtTreeMap.mem_toList_iff_getElem?_eq_some.mp present)

end

theorem World.requires_of_recorded {reader : JsonReader} {repo : String} {manifest blob : String}
    (recorded : (world.metadata.repo repo).Recorded manifest)
    (pushed : world.pushed[manifest]? = some body) (required : blob ∈ requiredOf reader body) :
    world.Requires reader repo blob := by
  exact ⟨manifest, RepoState.mem_manifests_iff.mpr recorded, body, pushed, required⟩

theorem fenced_preserved (env : Env) (repo : String) :
    (machine env repo).Preserves (DeletesApart env.reader repo) (fun _ => fenced env.reader repo)
      (fun _ _ _ => True) (Guarded env.reader repo) where
  codes call permitted := by
    cases call with
    | putManifest tag digest mediaType data links =>
      exact Program.meets_bind.mpr (fenced_putManifest permitted)
    | deleteManifest digest => exact Program.meets_bind.mpr fenced_deleteManifest
    | putBlob digest data => exact Program.meets_bind.mpr (entering_putBlob.meets fenced_entering)
    | finishUpload digest staged =>
      exact Program.meets_bind.mpr (entering_finishUpload.meets fenced_entering)
    | mountBlob digest => exact entering_mountBlob.meets fenced_entering
    | blobExists digest => exact entering_blobExists.meets fenced_entering
    | sweepAt now => exact Program.meets_bind.mpr fenced_sweepAt
  expects system index action choice world response condition performed guarded _ := by
    cases action with
    | due now =>
      cases performed
      exact due_digests guarded.digests
    | _ => trivial
  keeps system index action choice world response condition allowed performed guarded := by
    obtain ⟨_, allowed⟩ := allowed
    have unvouched : ∀ digest, (∀ other ∈ system.threads, other.notes.pinned = true →
        digest ∉ other.notes.vouched) → ∀ other,
        ((machine env repo).notesAt system other).pinned = true →
          digest ∉ ((machine env repo).notesAt system other).vouched :=
      fun digest every => Machine.forall_notesAt
        (fun notes : Notes => notes.pinned = true → digest ∉ notes.vouched)
        (fun idle => by cases idle) every
    have unfenced : ((machine env repo).notesAt system index).exclusive = false →
        ∀ thread ∈ system.threads[index]?, thread.notes.exclusive = false := by
      intro outside thread found
      rwa [Machine.notesAt_of_found found] at outside
    change perform env.reader repo system.world index action choice = some (world, response)
      at performed
    change Guarded env.reader repo world (update ((machine env repo).notesAt system) index
      (observe ((machine env repo).notesAt system index) action response))
    generalize (machine env repo).notesAt system = notes at *
    have quietly : action.quiet = true →
        (observe (notes index) action response).pinned = (notes index).pinned →
        (observe (notes index) action response).exclusive = (notes index).exclusive →
        ((observe (notes index) action response).pinned = true →
          ∀ blob ∈ (observe (notes index) action response).vouched, system.world.Holds blob) →
        ((observe (notes index) action response).exclusive = true →
          ∀ blob, (observe (notes index) action response).unreferenced = some blob →
          ∀ manifest, ¬ (system.world.metadata.repo repo).Edge blob manifest) →
        Guarded env.reader repo world (update notes index
          (observe (notes index) action response)) := by
      intro quiet pinned exclusive vouched unreferenced
      have same := perform_quiet performed quiet
      have holds : ∀ blob, system.world.Holds blob → world.Holds blob := by
        unfold World.Holds
        rw [same.files]
        exact fun _ => id
      refine (guarded.note ?_ ?_ vouched unreferenced).frame same.enabled
        (digests_of_quiet quiet performed guarded.digests) same.pins same.writer same.metadata
        same.pushed holds
      · rw [pinned]
        exact guarded.pinned index
      rw [exclusive]
      exact guarded.exclusive index
    cases action with
    | pin =>
      simp only [perform, guarded.enabled, if_true] at performed
      split at performed
      · rename_i free
        cases performed
        exact guarded.pin (Option.isNone_iff_eq_none.mp free)
      · cases performed
    | unpin =>
      cases performed
      exact guarded.unpin
    | exclusive =>
      simp only [perform] at performed
      split at performed
      · rename_i free
        cases performed
        rw [Bool.and_eq_true, Option.isNone_iff_eq_none, List.isEmpty_iff] at free
        exact guarded.exclude free.1 free.2
      · cases performed
    | release =>
      cases performed
      exact guarded.release allowed
    | dedupeLink digest =>
      rcases perform_dedupeLink performed with ⟨rfl, rfl⟩ | ⟨data, rfl⟩
      · exact guarded.idle
      · exact guarded.link.idle
    | publishBytes digest data =>
      have placed := perform_placing performed rfl
      rcases response with error | _ <;> rcases placed with rfl | ⟨data, rfl⟩
      · exact guarded.idle
      · exact guarded.link.idle
      · exact guarded.idle
      · exact guarded.link.idle
    | renameStaged | mountPromote =>
      rcases perform_placing performed rfl with rfl | ⟨data, rfl⟩
      · exact guarded.idle
      · exact guarded.link.idle
    | unlink digest =>
      rcases perform_unlink performed with ⟨rfl, error, rfl⟩ | ⟨rfl, rfl⟩
      · exact guarded.idle
      cases outside : (notes index).exclusive with
      | false =>
        obtain ⟨unrequired, unfound⟩ := condition (unfenced outside)
        exact (guarded.unlink (fun manifest body recorded pushed required =>
          unrequired (World.requires_of_recorded recorded pushed required))
          (unvouched digest unfound)).idle
      | true =>
        refine (guarded.unlink ?_ ?_).idle
        · intro manifest body recorded pushed required
          obtain ⟨known, found, every⟩ := guarded.recorded manifest recorded
          rw [pushed] at found
          cases found
          exact guarded.unreferenced index digest outside (allowed outside) manifest
            (every digest required).2
        intro other held
        rw [guarded.not_pinned outside] at held
        cases held
    | apply op body =>
      rcases (World.logged_cases (Option.some.inj performed)).1 with rfl | rfl
      · cases op with
        | _ => exact guarded.idle
      cases op with
      | putManifest named digest mediaType tag references referrer =>
        obtain ⟨rfl, held, required⟩ := allowed
        exact (guarded.put held required).idle
      | deleteManifest named digest =>
        obtain rfl := allowed
        exact guarded.delete.idle
      | _ => exact allowed.elim
    | applyRelaxed op =>
      rcases (World.logged_cases (Option.some.inj performed)).1 with rfl | rfl
      · exact guarded.idle
      · exact (guarded.relaxed allowed).idle
    | stat digest =>
      simp only [perform, Option.some.injEq, Prod.mk.injEq] at performed
      obtain ⟨rfl, answered⟩ := performed
      rcases response with error | _ | size
      · exact guarded.idle
      · exact guarded.idle
      have present : system.world.Holds digest := by
        split at answered
        · cases answered
        rw [Except.ok.injEq, Option.map_eq_some_iff] at answered
        obtain ⟨bytes, found, _⟩ := answered
        simp [World.Holds, found]
      refine quietly rfl rfl rfl ?_ (fun held blob => guarded.unreferenced index blob held)
      intro held blob listed
      rcases List.mem_cons.mp listed with rfl | earlier
      · exact present
      · exact guarded.vouched index held blob earlier
    | backrefs digest =>
      cases performed
      refine quietly rfl rfl rfl (guarded.vouched index) ?_
      intro held blob found manifest edge
      simp only [observe] at found
      split at found
      · rename_i empty
        cases found
        rw [State.backrefs_eq, List.isEmpty_iff] at empty
        rw [RepoState.Edge, empty] at edge
        cases edge
      · cases found
    | _ => exact quietly rfl rfl rfl (guarded.vouched index) (fun held blob =>
      guarded.unreferenced index blob held)
  drops _ _ _ _ dropped := dropped.elim
  abandons _ dropped := dropped.elim

def World.fresh (delay : Nat) : World where
  gc := { delay := delay }

theorem Guarded.fresh (delay : Nat) :
    Guarded reader repo (.fresh delay) fun _ => {} where
  enabled := rfl
  digests text stamp found := by simp [World.fresh] at found
  pinned _ held := by cases held
  exclusive _ held := by cases held
  alone _ _ := rfl
  vouched _ held := by cases held
  unreferenced _ _ held := by cases held
  recorded manifest recorded := by
    simp [World.fresh, State.repo_empty, RepoState.Recorded] at recorded

/-- At every moment of a run from an empty store, every recorded manifest has
its config and its layers. -/
theorem recorded_manifests_complete (env : Env) (repo : String) (delay : Nat)
    {final : System World Request Action Response Reply Notes}
    {events : List (Event Request Choice)}
    (run : Reaches (machine env repo).step
      ((machine env repo).Permitted (DeletesApart env.reader repo)) { world := .fresh delay }
      events final) :
    final.world.Complete env.reader repo :=
  ((fenced_preserved env repo).run run rfl (.fresh env.reader repo delay)).holds.complete

/-- A manifest whose config is the empty blob. -/
def configBody : Bytes :=
  utf8 ("\x7b\"config\":\x7b\"digest\":\"" ++ Digest.ofNothing.asString ++ "\"\x7d\x7d")

def configManifest : Digest where
  algorithm := "sha256"
  hex := "c05ed4a74b843d65f9bf3d51a2b023ea8177f2d3629cb68b316bff29e5d668de"
  length_eq := by decide
  digits := by decide

/-- The empty body and the manifest above are all that is stored. -/
def configBodies : Env where
  reader := JsonText.reader
  crc32c := crc32c
  digestOf data _ := if data = configBody then configManifest else .ofNothing

def pushConfig : Request :=
  .putManifest (some "v1") configManifest "application/vnd.oci.image.manifest.v1+json" configBody
    { references := [.ofNothing], required := [.ofNothing], subject := none }

instance (reader : JsonReader) (repo : String) (world : World) (blob : String) :
    Decidable (world.Requires reader repo blob) :=
  inferInstanceAs (Decidable (∃ manifest ∈ world.metadata.manifests repo,
    ∃ body ∈ world.pushed[manifest]?, blob ∈ requiredOf reader body))

/-- Deletions spare what recorded manifests require, and nothing else is asked
of them. -/
def DeletesUnrequired :
    Conditions World Request Action Response Reply Notes where
  calls := (DeletesApart reader repo).calls
  actions system _ action _ :=
    match action with
    | .unlink digest => ¬ system.world.Requires reader repo digest
    | _ => True
  drops _ := False

instance (reader : JsonReader) (repo : String) (call : Request) :
    Decidable ((DeletesApart reader repo).calls call) := by
  apply @Request.casesOn _ call <;> intros <;>
    first | exact isTrue trivial | exact inferInstanceAs (Decidable (_ = _))

instance (reader : JsonReader) (repo : String) (call : Request) :
    Decidable ((DeletesUnrequired reader repo).calls call) :=
  inferInstanceAs (Decidable ((DeletesApart reader repo).calls call))

instance (reader : JsonReader) (repo : String) (action : Action) :
    Decidable ((DeletesUnrequired reader repo).drops action) := isFalse id

instance (reader : JsonReader) (repo : String)
    (system : System World Request Action Response Reply Notes) (index : Nat) (action : Action)
    (response : Response action) :
    Decidable ((DeletesUnrequired reader repo).actions system index action response) := by
  revert response
  apply @Action.casesOn _ action <;> intros <;>
    first | exact isTrue trivial | exact instDecidableNot

/-- The config is uploaded; a push of the manifest finds it, and a deletion of
it runs from start to end before the push writes its record. -/
def deletedConfigEvents : List (Event Request Choice) :=
  [.start (.putBlob .ofNothing []), .start pushConfig, .start (.deleteManifest .ofNothing)] ++
    runs 0 10 ++ runs 1 5 ++ runs 2 8 ++ runs 1 10

/-- The recorded manifest has lost its config. -/
theorem recorded_manifest_without_config :
    ∃ final, Reaches (machine configBodies "app").step
        ((machine configBodies "app").Permitted (DeletesUnrequired JsonText.reader "app"))
        { world := .fresh 0 } deletedConfigEvents final ∧ Machine.Quiescent final ∧
      ¬ final.world.Complete JsonText.reader "app" := by
  obtain ⟨final, run, returned, recorded, pushed, required, missing⟩ := @exists_run_of_execute _ _
    (machine configBodies "app").step
    ((machine configBodies "app").Permitted (DeletesUnrequired JsonText.reader "app")) _
    { world := .fresh 0 } deletedConfigEvents (fun final => Machine.Quiescent final ∧
      (final.world.metadata.manifestMediaType "app" configManifest.asString).isSome = true ∧
      final.world.pushed[configManifest.asString]? = some configBody ∧
      Digest.ofNothing.asString ∈ requiredOf JsonText.reader configBody ∧
      ¬ final.world.Holds Digest.ofNothing.asString) _ (by decide +kernel)
  rw [State.manifestMediaType_eq] at recorded
  refine ⟨final, run, returned, fun complete => ?_⟩
  obtain ⟨body, known, every⟩ := complete _ (Option.isSome_iff_exists.mp recorded)
  rw [pushed] at known
  cases known
  exact missing (every _ required)

instance (reader : JsonReader) (repo : String) (action : Action) :
    Decidable ((DeletesApart reader repo).drops action) := isFalse id

instance (reader : JsonReader) (repo : String)
    (system : System World Request Action Response Reply Notes) (index : Nat) (action : Action)
    (response : Response action) :
    Decidable ((DeletesApart reader repo).actions system index action response) := by
  revert response
  apply @Action.casesOn _ action <;> intros <;>
    first | exact isTrue trivial | exact inferInstanceAs (Decidable (_ → _))

/-- A sweep lists the config as a candidate and waits for the fence while the
manifest is pushed. -/
def sweptPushEvents : List (Event Request Choice) :=
  [.start (.putBlob .ofNothing []), .start pushConfig, .start (.sweepAt 7)] ++
    runs 0 10 ++ runs 2 2 ++ runs 1 15 ++ runs 2 3

/-- The sweep spares the config of the manifest pushed meanwhile. -/
theorem swept_push_complete :
    ∃ final, Reaches (machine configBodies "app").step
        ((machine configBodies "app").Permitted (DeletesApart JsonText.reader "app"))
        { world := .fresh 0 } sweptPushEvents final ∧ Machine.Quiescent final ∧
      (final.world.metadata.manifestMediaType "app" configManifest.asString).isSome = true ∧
      final.world.Complete JsonText.reader "app" := by
  obtain ⟨final, run, returned, recorded⟩ := @exists_run_of_execute _ _
    (machine configBodies "app").step
    ((machine configBodies "app").Permitted (DeletesApart JsonText.reader "app")) _
    { world := .fresh 0 } sweptPushEvents (fun final => Machine.Quiescent final ∧
      (final.world.metadata.manifestMediaType "app" configManifest.asString).isSome = true) _
    (by decide +kernel)
  exact ⟨final, run, returned, recorded, recorded_manifests_complete configBodies "app" 0 run⟩

end Roci.Manifests
