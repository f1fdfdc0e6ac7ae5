import Roci.Manifests.Integrity

/-!
# What sweeps leave alone

A sweep asks four questions about a candidate before it unlinks it: whether it
is a root, whether the repository is unsafe, whether a manifest refers to it and
whether it is a recorded manifest.  As long as nothing is deleted, an answer
that speaks for the blob stays as it is, so the blob is never unlinked.
-/

namespace Roci.Gc

open Roci.Library Roci.Metadata Roci.Storage
open Roci.Manifests
open Program (performs_pure)

inductive Reason where
  | root
  | unsafeRepo
  | referenced
  | recorded
deriving DecidableEq

def Reason.Holds (repo : String) (world : World) (digest : String) : Reason → Prop
  | root => digest ∈ world.gc.roots
  | unsafeRepo => world.gc.unsafeRepo = true
  | referenced => ∃ manifest, (world.metadata.repo repo).Edge digest manifest
  | recorded => (world.metadata.repo repo).Recorded digest

def Spared (repo : String) (world : World) (digest : String) : Prop :=
  ∃ reason : Reason, reason.Holds repo world digest

def NoDeletes : Conditions World Request Action Response Reply Notes where
  calls
    | .deleteManifest _ => False
    | _ => True
  actions _ _ _ _ := True
  drops _ := False

def Harmless : Action → Prop
  | .unlink _ => False
  | .apply (.putManifest ..) _ => True
  | .apply _ _ => False
  | .applyRelaxed (.putChecksum ..) => True
  | .applyRelaxed (.deleteBlob ..) => True
  | .applyRelaxed _ => False
  | _ => True

/-- The blob is not unlinked, given that the reason is answered for. -/
def sparing (digest : String) (reason : Reason) : Discipline Action Response Notes where
  allowed _
    | .unlink other => other ≠ digest
    | action => Harmless action
  expected _
    | .due _, texts => ∀ text ∈ texts, ∃ digest : Digest, text = digest.asString
    | .isRoot other, answer => other = digest → reason = .root → answer = true
    | .isUnsafe, answer => reason = .unsafeRepo → answer = true
    | .backrefs other, manifests => other = digest → reason = .referenced → manifests ≠ []
    | .manifestMediaType other, mediaType =>
      other = digest → reason = .recorded → mediaType.isSome = true
    | _, _ => True

/-! ## Calls that delete nothing -/

section

variable {repo digest : String} {reason : Reason} {notes : Notes}

theorem sparing_entering (notes : Notes) (action : Action) (entering : Entering action) :
    (sparing digest reason).allowed notes action := by
  cases action with
  | unlink | apply => cases entering
  | applyRelaxed op => cases op <;> trivial
  | _ => trivial

theorem sparing_books (notes : Notes) (action : Action) (books : action.bookkeeping = true) :
    (sparing digest reason).allowed notes action :=
  sparing_entering notes action (.of_books books)

theorem sparing_sweepAt {now : Nat} :
    (sweepAt repo now).Meets observe (sparing digest reason) notes fun _ _ => True := by
  refine meets_sweepAt sparing_books ?_ (fun _ => trivial) (fun _ _ => trivial) fun _ _ _ => id
  rintro _ candidate _ _ ⟨_, rooted⟩ ⟨_, guarded⟩ ⟨_, referenced⟩ ⟨_, recorded⟩ same
  cases reason with
  | root => cases rooted same rfl
  | unsafeRepo => cases guarded rfl
  | referenced => exact referenced same rfl rfl
  | recorded => cases recorded same rfl

end

/-! ## The reason stays -/

theorem edge_iff_mem_backrefs {store : State} {repo blob manifest : String} :
    (store.repo repo).Edge blob manifest ↔ manifest ∈ store.backrefs repo blob := by
  rw [State.backrefs_eq, RepoState.Edge]

/-- What is kept: the reason, the file, and that candidates are digests. -/
structure Kept (repo digest : String) (reason : Reason) (world : World) (_ : Nat → Notes) :
    Prop where
  reason : reason.Holds repo world digest
  file : world.Holds digest
  digests : ∀ text stamp, world.gc.candidates[text]? = some stamp →
    ∃ digest : Digest, text = digest.asString

section

variable {reader : JsonReader} {repo digest : String} {reason : Reason} {world next : World}
  {notes changed : Nat → Notes} {index : Nat} {choice : Choice}

section

variable (kept : Kept repo digest reason world notes)

include kept

theorem Kept.of_same (gc : next.gc = world.gc) (metadata : next.metadata = world.metadata)
    (holds : world.Holds digest → next.Holds digest) : Kept repo digest reason next changed where
  reason := by
    have held := kept.reason
    cases reason <;> simpa only [Reason.Holds, gc, metadata] using held
  file := holds kept.file
  digests := by
    rw [gc]
    exact kept.digests

theorem Kept.record {op : MetaOp} {body : Bytes}
    (harmless : Harmless (.apply op body) ∨ Harmless (.applyRelaxed op)) :
    Kept repo digest reason (world.record reader op body) changed where
  reason := by
    have grows : ((∃ manifest, (world.metadata.repo repo).Edge digest manifest) →
        ∃ manifest, ((world.metadata.applyInRam reader op).repo repo).Edge digest manifest) ∧
        ((world.metadata.repo repo).Recorded digest →
          ((world.metadata.applyInRam reader op).repo repo).Recorded digest) := by
      rw [State.repo_applyInRam]
      split
      · cases op with
        | putManifest =>
          exact ⟨fun ⟨manifest, edge⟩ =>
            ⟨manifest, (RepoState.edge_putManifest ..).mpr (.inl edge)⟩,
            fun recorded => (RepoState.recorded_putManifest ..).mpr (.inl recorded)⟩
        | putChecksum | deleteBlob => exact ⟨id, id⟩
        | _ => rcases harmless with harmless | harmless <;> exact harmless.elim
      · exact ⟨id, id⟩
    have held := kept.reason
    cases reason with
    | referenced => exact grows.1 held
    | recorded => exact grows.2 held
    | _ => exact held
  file := kept.file
  digests := kept.digests

theorem Kept.quiet {action : Action} {response : Response action} (quiet : action.quiet = true)
    (performed : perform reader repo world index action choice = some (next, response)) :
    Kept repo digest reason next changed := by
  have digests := digests_of_quiet quiet performed kept.digests
  obtain ⟨candidates, cache, rfl⟩ := perform_quiet_eq performed quiet
  have held := kept.reason
  exact ⟨by cases reason <;> exact held, kept.file, digests⟩

theorem Kept.link (other : String) (data : Bytes) :
    Kept repo digest reason (world.link other data) changed := by
  obtain ⟨files, linked⟩ := world.link_eq other data
  refine kept.of_same (by rw [linked]) (by rw [linked]) fun present => ?_
  exact (World.holds_link ..).mpr (.inr present)

end

end

theorem kept_preserved (env : Manifests.Env) (repo digest : String) (reason : Reason) :
    (machine env repo).Preserves NoDeletes (fun _ => sparing digest reason) (fun _ _ _ => True)
      (Kept repo digest reason) where
  codes call permitted := by
    cases call with
    | putManifest tag digest mediaType data links =>
      exact Program.meets_bind.mpr (meets_push sparing_entering fun _ _ _ _ _ _ _ => trivial)
    | deleteManifest digest => exact permitted.elim
    | putBlob digest data =>
      exact (entering_putBlob.bind fun _ => performs_pure).meets sparing_entering
    | finishUpload digest staged =>
      exact (entering_finishUpload.bind fun _ => performs_pure).meets sparing_entering
    | mountBlob digest => exact entering_mountBlob.meets sparing_entering
    | blobExists digest => exact entering_blobExists.meets sparing_entering
    | sweepAt now => exact Program.meets_bind.mpr sparing_sweepAt
  expects system index action choice world response condition performed kept _ := by
    have held := kept.reason
    cases action with
    | due now =>
      cases performed
      exact due_digests kept.digests
    | isRoot other =>
      cases performed
      rintro rfl rfl
      exact decide_eq_true held
    | isUnsafe =>
      cases performed
      rintro rfl
      exact held
    | backrefs other =>
      cases performed
      rintro rfl rfl
      obtain ⟨manifest, edge⟩ := held
      exact List.ne_nil_of_mem (edge_iff_mem_backrefs.mp edge)
    | manifestMediaType other =>
      cases performed
      rintro rfl rfl
      rw [State.manifestMediaType_eq]
      exact Option.isSome_iff_exists.mpr held
    | _ => trivial
  keeps system index action choice world response condition allowed performed kept := by
    obtain ⟨_, allowed⟩ := allowed
    change perform env.reader repo system.world index action choice = some (world, response)
      at performed
    generalize (machine env repo).notesAt system = notes at *
    cases action with
    | pin | unpin | exclusive | release =>
      obtain ⟨pins, writer, rfl⟩ := perform_fencing performed rfl
      exact kept.of_same rfl rfl id
    | dedupeLink other | publishBytes other | renameStaged other | mountPromote other =>
      rcases perform_placing performed rfl with rfl | ⟨data, rfl⟩
      · exact kept.of_same rfl rfl id
      · exact kept.link other data
    | unlink other =>
      rcases perform_unlink performed with ⟨rfl, error, rfl⟩ | ⟨rfl, rfl⟩
      · exact kept.of_same rfl rfl id
      exact kept.of_same rfl rfl fun present =>
        (World.holds_erase ..).mpr ⟨Ne.symm allowed, present⟩
    | apply op body =>
      rcases (World.logged_cases (Option.some.inj performed)).1 with rfl | rfl
      · exact kept.of_same rfl rfl id
      · exact kept.record (.inl allowed)
    | applyRelaxed op =>
      rcases (World.logged_cases (Option.some.inj performed)).1 with rfl | rfl
      · exact kept.of_same rfl rfl id
      · exact kept.record (.inr allowed)
    | _ => exact kept.quiet rfl performed
  drops _ _ _ _ dropped := dropped.elim
  abandons _ dropped := dropped.elim

/-- Run lemma: as long as nothing is deleted, a blob that something speaks for
stays. -/
theorem spared_stays {env : Manifests.Env} {repo digest : String} {world : World}
    (spared : Spared repo world digest) (present : world.Holds digest)
    (digests : ∀ text stamp, world.gc.candidates[text]? = some stamp →
      ∃ digest : Digest, text = digest.asString)
    {events : List (Event Request Choice)}
    {final : System World Request Action Response Reply Notes}
    (run : Reaches (machine env repo).step ((machine env repo).Permitted NoDeletes)
      { world := world } events final) :
    final.world.Holds digest := by
  obtain ⟨reason, holds⟩ := spared
  exact ((kept_preserved env repo digest reason).run run rfl ⟨holds, present, digests⟩).holds.file

end Roci.Gc
