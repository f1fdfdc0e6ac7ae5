import Roci.Manifests.Calls
import Roci.Metadata.Facts

/-!
# Records and files of manifests

A push puts the file in place before it writes the record, a deletion unlinks
the file before it removes the record, and nothing keeps one from running
between the two halves of the other.  As long as none does, and nothing fails
in between, record and file agree whenever no call is running.
-/

namespace Roci.Manifests

open Roci.Library Roci.Storage Roci.Metadata
open Program (meets_act meets_bind)
open Function (update update_apply update_of_ne update_self)

/-- Pushes and deletions whose halves are not interleaved and that do not fail
between them: a manifest file is put in place only while no deletion has
unlinked it and not removed its record yet, it is unlinked only while no push is
between its file and its record, required blobs are found, and files and
metadata are written. -/
def HalvesApart : Conditions World Request Action Response Reply Notes where
  calls
    | .putManifest .. => True
    | .deleteManifest _ => True
    | _ => False
  actions system _ action response :=
    match action, response with
    | .dedupeLink digest, _ => ∀ thread ∈ system.threads, thread.notes.unlinked ≠ some digest
    | .publishBytes digest _, written =>
      written = .ok () ∧ ∀ thread ∈ system.threads, thread.notes.unlinked ≠ some digest
    | .unlink digest, unlinked =>
      unlinked = .ok () → ∀ thread ∈ system.threads, thread.notes.landing ≠ some digest
    | .stat _, found => ∃ size, found = .ok (some size)
    | .apply _ _, logged => logged = .ok ()
    | _, _ => True
  drops _ := False

/-- A record is written for the file just put in place, and removed for the
file just unlinked. -/
def halves (repo : String) : Discipline Action Response Notes where
  allowed notes
    | .dedupeLink _ => notes.landing = none ∧ notes.landed = none
    | .publishBytes digest _ => notes.landing = some digest
    | .unlink _ => notes.unlinked = none
    | .apply (.putManifest named digest _ _ _ _) _ =>
      named = repo ∧ notes.landing = some digest ∧ notes.landed = some digest
    | .apply (.deleteManifest named digest) _ => named = repo ∧ notes.unlinked = some digest
    | .apply _ _ => False
    | .applyRelaxed (.putChecksum ..) => True
    | .applyRelaxed (.deleteBlob ..) => True
    | .applyRelaxed _ => False
    | .renameStaged _ _ => False
    | .mountPromote _ => False
    | .release => False
    | _ => True
  expected _
    | .publishBytes _ _, written => written = .ok ()
    | .stat _, found => ∃ size, found = .ok (some size)
    | .apply _ _, logged => logged = .ok ()
    | _, _ => True

def Notes.Settled (notes : Notes) : Prop :=
  notes.landing = none ∧ notes.landed = none ∧ notes.unlinked = none

/-! ## The calls keep to it -/

section

variable {env : Env} {repo : String} {notes : Notes}

theorem halves_books (notes : Notes) (action : Action) (books : action.bookkeeping = true) :
    (halves repo).allowed notes action := by
  cases action with
  | applyRelaxed op => cases op <;> trivial
  | _ => trivial

variable {data : Bytes} {digest : Digest} {links : ManifestLinks}
  {referrer : Option (String × Bytes)} {tag : Option String} {mediaType : String}

theorem meets_recordManifest {digest : String} {references : List String}
    {post : Except StorageError Unit → Notes → Prop} (landing : notes.landing = some digest)
    (landed : notes.landed = some digest) (ends : ∀ result, post result
      { notes with landing := none, landed := none, pinned := false, vouched := [] }) :
    (recordManifest repo tag digest mediaType data references referrer).Meets observe
      (halves repo) notes post := by
  simp only [recordManifest, meets_bind, meets_act]
  refine ⟨⟨rfl, landing, landed⟩, fun logged expected => ?_⟩
  cases expected
  simp only [meets_bind, meets_act]
  refine ⟨trivial, fun _ _ => meets_clearAll halves_books ⟨trivial, fun _ _ => ?_⟩⟩
  exact ends _

theorem meets_stored (landing : notes.landing = some digest.asString)
    (landed : notes.landed = some digest.asString) (unlinked : notes.unlinked = none) :
    (recheck 0 (links.required.map Digest.asString)).Meets observe (halves repo) notes
      fun landed reached => (concludeManifest env repo tag digest mediaType data links referrer
        landed).Meets observe (halves repo) reached fun _ notes => notes.Settled := by
  refine meets_recheck halves_books ?_ ?_
  · intro vouched _ _
    simp only [concludeManifest, meets_bind, meets_act]
    refine meets_blobEntered halves_books fun unreferenced => ⟨trivial, fun _ _ => ?_⟩
    exact meets_recordManifest landing landed fun _ => ⟨rfl, rfl, unlinked⟩
  rintro _ _ response ⟨size, found⟩ never
  exact absurd found (never size)

theorem meets_putManifest :
    (putManifest env repo tag digest mediaType data links).Meets observe (halves repo) {}
      fun _ notes => notes.Settled := by
  have settled : ({} : Notes).Settled := ⟨rfl, rfl, rfl⟩
  unfold putManifest
  split
  · exact settled
  split
  · exact settled
  split
  · simp only [storeManifest, landManifest, meets_bind, meets_act]
    refine ⟨trivial, fun _ _ => ⟨trivial, fun admitted _ => ?_⟩⟩
    rcases admitted with error | _
    · exact ⟨trivial, fun _ _ => settled⟩
    simp only [meets_bind, meets_act]
    refine ⟨⟨rfl, rfl⟩, fun linked _ => ?_⟩
    cases linked with
    | true => exact meets_stored rfl rfl rfl
    | false =>
      simp only [Bool.false_eq_true, if_false, meets_bind, meets_act]
      refine ⟨rfl, fun written expected => ?_⟩
      cases expected
      exact meets_stored rfl rfl rfl
  · exact settled

theorem meets_removeManifest {bytes : Bytes} :
    (removeManifest env repo digest bytes).Meets observe (halves repo) {}
      fun _ notes => notes.Settled := by
  simp only [removeManifest, meets_bind, meets_act]
  refine ⟨rfl, fun unlinked _ => ?_⟩
  rcases unlinked with error | _
  · exact ⟨rfl, rfl, rfl⟩
  simp only [meets_bind, meets_act]
  refine meets_blobLeft halves_books ⟨⟨rfl, rfl⟩, fun logged expected => ?_⟩
  cases expected
  rw [meets_bind]
  exact meets_markOrphans halves_books fun _ => ⟨rfl, rfl, rfl⟩

theorem meets_deleteManifest :
    (deleteManifest env repo digest).Meets observe (halves repo) {}
      fun _ notes => notes.Settled := by
  simp only [deleteManifest, manifestBytes, meets_bind, meets_act]
  refine ⟨trivial, fun cached _ => ?_⟩
  cases cached with
  | some bytes => exact meets_removeManifest
  | none =>
    refine ⟨trivial, fun read _ => ?_⟩
    rcases read with error | bytes
    · exact ⟨rfl, rfl, rfl⟩
    · exact meets_removeManifest

end

/-! ## The invariant -/

/-- Record and file of one manifest agree up to the calls between two halves. -/
structure Agrees (repo : String) (world : World) (notes : Nat → Notes) (digest : String) :
    Prop where
  named : (world.metadata.repo repo).Names digest →
    world.Holds digest ∨ ∃ index, (notes index).unlinked = some digest
  filed : world.Holds digest →
    (world.metadata.repo repo).Recorded digest ∨ ∃ index, (notes index).landing = some digest
  landed : ∀ index, (notes index).landed = some digest → world.Holds digest
  landing : ∀ index, (notes index).landed = some digest → (notes index).landing = some digest
  unlinked : ∀ index, (notes index).unlinked = some digest → ¬ world.Holds digest
  apart : ∀ index other, (notes index).landing = some digest →
    (notes other).unlinked ≠ some digest

section

variable {reader : JsonReader} {repo : String} {world next : World} {notes later : Nat → Notes}
  {index : Nat} {changed : Notes} {digest : String}

/-- Nobody has unlinked the file. -/
theorem Agrees.of_linked (clear : ∀ other, (later other).unlinked ≠ some digest)
    (named : (next.metadata.repo repo).Names digest → next.Holds digest)
    (filed : next.Holds digest → (next.metadata.repo repo).Recorded digest ∨
      ∃ index, (later index).landing = some digest)
    (landed : ∀ other, (later other).landed = some digest →
      next.Holds digest ∧ (later other).landing = some digest) :
    Agrees repo next later digest :=
  ⟨fun known => .inl (named known), filed, fun other found => (landed other found).1,
    fun other found => (landed other found).2, fun other found => absurd found (clear other),
    fun _ other _ => clear other⟩

/-- The file is not there, and nobody is about to put it in place. -/
theorem Agrees.of_absent (absent : ¬ next.Holds digest)
    (clear : ∀ other, (later other).landing ≠ some digest)
    (landing : ∀ other, (later other).landed = some digest → (later other).landing = some digest)
    (named : (next.metadata.repo repo).Names digest →
      ∃ index, (later index).unlinked = some digest) :
    Agrees repo next later digest :=
  ⟨fun known => .inr (named known), fun present => absurd present absent,
    fun other found => absurd (landing other found) (clear other), landing, fun _ _ => absent,
    fun other _ found => absurd found (clear other)⟩

section

variable (agrees : Agrees repo world notes digest)

include agrees

/-- Nothing changes for this manifest. -/
theorem Agrees.frame
    (names : (next.metadata.repo repo).Names digest → (world.metadata.repo repo).Names digest)
    (recorded : (world.metadata.repo repo).Recorded digest →
      (next.metadata.repo repo).Recorded digest)
    (holds : next.Holds digest ↔ world.Holds digest := by rfl)
    (landing : changed.landing = some digest ↔ (notes index).landing = some digest := by rfl)
    (landed : changed.landed = some digest ↔ (notes index).landed = some digest := by rfl)
    (unlinked : changed.unlinked = some digest ↔ (notes index).unlinked = some digest := by rfl) :
    Agrees repo next (update notes index changed) digest := by
  have sameLanding := update_field (fun notes => notes.landing = some digest) (propext landing)
  have sameLanded := update_field (fun notes => notes.landed = some digest) (propext landed)
  have sameUnlinked := update_field (fun notes => notes.unlinked = some digest) (propext unlinked)
  refine ⟨?_, ?_, ?_, ?_, ?_, ?_⟩
  · simpa only [holds, sameUnlinked] using fun named => agrees.named (names named)
  · simp only [holds, sameLanding]
    exact fun present => (agrees.filed present).imp_left recorded
  · simpa only [holds, sameLanded] using agrees.landed
  · simpa only [sameLanded, sameLanding] using agrees.landing
  · simpa only [holds, sameUnlinked] using agrees.unlinked
  · simpa only [Ne, sameLanding, sameUnlinked] using agrees.apart

theorem Agrees.land {placed : String} (metadata : next.metadata = world.metadata)
    (holds : ∀ other, next.Holds other → other = placed ∨ world.Holds other)
    (kept : ∀ other, world.Holds other → next.Holds other)
    (before : (notes index).landing = none ∨ (notes index).landing = some placed)
    (landing : changed.landing = some placed)
    (landed : ∀ other, changed.landed = some other → other = placed ∧ next.Holds placed)
    (unlinked : changed.unlinked = (notes index).unlinked)
    (clear : ∀ other, (notes other).unlinked ≠ some placed) :
    Agrees repo next (update notes index changed) digest := by
  by_cases same : digest = placed
  · subst same
    refine .of_linked (fun other => ?_) (fun named => ?_)
      (fun _ => .inr ⟨index, by rw [update_self, landing]⟩)
      ((Function.forall_update_iff notes (p := fun _ notes => notes.landed = some digest →
        next.Holds digest ∧ notes.landing = some digest)).mpr ⟨fun found => ?_,
          fun other _ found => ⟨kept _ (agrees.landed other found), agrees.landing other found⟩⟩)
    · rw [update_field Notes.unlinked unlinked]
      exact clear other
    · rw [metadata] at named
      exact kept _ ((agrees.named named).resolve_right fun ⟨other, found⟩ => clear other found)
    · exact ⟨(landed _ found).2, landing⟩
  have absent : (notes index).landing ≠ some digest := by
    rcases before with before | before <;> simp [before, Ne.symm same]
  refine agrees.frame (by rw [metadata]; exact id) (by rw [metadata]; exact id)
    ⟨fun present => (holds _ present).resolve_left same, kept _⟩ ?_ ?_ (by rw [unlinked])
  · simp [landing, absent, Ne.symm same]
  exact ⟨fun found => absurd (landed _ found).1 same,
    fun found => absurd (agrees.landing index found) absent⟩

variable {removed : String}

theorem Agrees.unlink
    (before : (notes index).unlinked = none) (landing : changed.landing = (notes index).landing)
    (landed : changed.landed = (notes index).landed) (unlinked : changed.unlinked = some removed)
    (clear : ∀ other, (notes other).landing ≠ some removed) :
    Agrees repo { world with files := world.files.erase removed }
      (update notes index changed) digest := by
  by_cases same : digest = removed
  · subst same
    have sameLanding := update_field Notes.landing landing
    refine .of_absent (fun present => ((World.holds_erase ..).mp present).1 rfl)
      (by simpa only [sameLanding] using clear) ?_ fun _ => ⟨index, by rw [update_self, unlinked]⟩
    simpa only [sameLanding, update_field Notes.landed landed] using agrees.landing
  refine agrees.frame id id ?_ (by rw [landing]) (by rw [landed]) ?_
  · rw [World.holds_erase]
    exact and_iff_right same
  · simp [before, unlinked, Ne.symm same]

theorem Agrees.put {named mediaType : String} {tag : Option String} {references : List String}
    {referrer : Option (String × Bytes)} {body : Bytes}
    (lands : (notes index).landing = some named) (before : (notes index).landed = some named)
    (landing : changed.landing = none) (landed : changed.landed = none)
    (unlinked : changed.unlinked = (notes index).unlinked) :
    Agrees repo (world.record reader (.putManifest repo named mediaType tag references referrer)
      body) (update notes index changed) digest := by
  have applied : (world.metadata.applyInRam reader
      (.putManifest repo named mediaType tag references referrer)).repo repo =
        (world.metadata.repo repo).apply reader
          (.putManifest repo named mediaType tag references referrer) := by
    rw [State.repo_applyInRam]
    exact if_pos rfl
  by_cases same : digest = named
  · subst same
    have present := agrees.landed index before
    refine .of_linked (fun other => ?_) (fun _ => present) (fun _ => .inl ?_)
      ((Function.forall_update_iff notes (p := fun _ notes => notes.landed = some digest →
        _ ∧ notes.landing = some digest)).mpr ⟨fun found => (nomatch landed.symm.trans found),
          fun other _ found => ⟨present, agrees.landing other found⟩⟩)
    · rw [update_field Notes.unlinked unlinked]
      exact agrees.apart index other lands
    · simp [World.record, applied, RepoState.recorded_putManifest]
  refine agrees.frame ?_ ?_ .rfl ?_ ?_ (by rw [unlinked])
  · simp only [World.record, applied]
    intro known
    rcases RepoState.names_of_apply reader known with earlier | created
    · exact earlier
    · exact absurd (Eq.symm created) same
  · simp only [World.record, applied, RepoState.recorded_putManifest]
    exact .inl
  · simp [landing, lands, Ne.symm same]
  · simp [landed, before, Ne.symm same]

theorem Agrees.delete {body : Bytes} (before : (notes index).unlinked = some removed)
    (landing : changed.landing = (notes index).landing)
    (landed : changed.landed = (notes index).landed) (unlinked : changed.unlinked = none) :
    Agrees repo (world.record reader (.deleteManifest repo removed) body)
      (update notes index changed) digest := by
  have applied : (world.metadata.applyInRam reader (.deleteManifest repo removed)).repo repo =
      (world.metadata.repo repo).deleteManifest removed := by
    rw [State.repo_applyInRam]
    exact if_pos rfl
  by_cases same : digest = removed
  · subst same
    have sameLanding := update_field Notes.landing landing
    refine .of_absent (agrees.unlinked index before) (fun other => ?_) ?_ fun known => ?_
    · rw [sameLanding]
      exact fun found => agrees.apart other index found before
    · simpa only [sameLanding, update_field Notes.landed landed] using agrees.landing
    simp only [World.record, applied] at known
    exact absurd known (RepoState.not_names_deleteManifest _ digest)
  refine agrees.frame ?_ ?_ .rfl (by rw [landing]) (by rw [landed]) ?_
  · simp only [World.record, applied]
    intro known
    exact (@RepoState.names_of_apply reader _ (.deleteManifest repo removed) _ known).resolve_right
      id
  · simp only [World.record, applied, RepoState.recorded_deleteManifest]
    exact fun recorded => ⟨recorded, same⟩
  · simp [before, unlinked, Ne.symm same]

theorem Agrees.relaxed {op : MetaOp} {body : Bytes}
    (allowed : (halves repo).allowed (notes index) (.applyRelaxed op)) :
    Agrees repo (world.record reader op body) (update notes index (notes index)) digest := by
  have facts : (((world.metadata.applyInRam reader op).repo repo).Names digest →
      (world.metadata.repo repo).Names digest) ∧
      ((world.metadata.repo repo).Recorded digest →
        ((world.metadata.applyInRam reader op).repo repo).Recorded digest) := by
    rw [State.repo_applyInRam]
    split
    · cases op with
      | putChecksum | deleteBlob => exact ⟨id, id⟩
      | _ => exact allowed.elim
    · exact ⟨id, id⟩
  exact agrees.frame facts.1 facts.2

end

end

theorem halves_preserved (env : Env) (repo : String) :
    (machine env repo).Preserves HalvesApart (fun _ => halves repo)
      (fun _ _ notes => notes.Settled)
      (fun world notes => ∀ digest, Agrees repo world notes digest) where
  codes call permitted := by
    cases call with
    | putManifest tag digest mediaType data links =>
      exact Program.meets_bind.mpr (meets_putManifest.weaken fun _ _ settled => settled)
    | deleteManifest digest =>
      exact Program.meets_bind.mpr (meets_deleteManifest.weaken fun _ _ settled => settled)
    | _ => exact permitted.elim
  expects system index action choice world response condition performed agrees _ := by
    cases action <;> first | exact condition.1 | exact condition | trivial
  keeps system index action choice world response condition allowed performed agrees digest := by
    obtain ⟨_, allowed⟩ := allowed
    have nowhere : ∀ (field : Notes → Option String) (found : String), field {} = none →
        (∀ thread ∈ system.threads, field thread.notes ≠ some found) →
        ∀ other, field ((machine env repo).notesAt system other) ≠ some found :=
      fun field found idle every => Machine.forall_notesAt (fun notes => field notes ≠ some found)
        (fun equal => nomatch idle.symm.trans equal) every
    change perform env.reader repo system.world index action choice = some (world, response)
      at performed
    change Agrees repo world (update ((machine env repo).notesAt system) index
      (observe ((machine env repo).notesAt system index) action response)) digest
    generalize (machine env repo).notesAt system = notes at *
    have quietly : action.quiet = true →
        (observe (notes index) action response).landing = (notes index).landing →
        (observe (notes index) action response).landed = (notes index).landed →
        (observe (notes index) action response).unlinked = (notes index).unlinked →
        Agrees repo world (update notes index (observe (notes index) action response)) digest := by
      intro quiet landing landed unlinked
      have same := perform_quiet performed quiet
      exact (agrees digest).frame (by rw [same.metadata]; exact id)
        (by rw [same.metadata]; exact id) (by rw [World.Holds, same.files]; rfl) (by rw [landing])
        (by rw [landed]) (by rw [unlinked])
    cases action with
    | release | renameStaged placed staged | mountPromote placed => exact allowed.elim
    | pin | unpin | exclusive =>
      obtain ⟨pins, writer, rfl⟩ := perform_fencing performed rfl
      exact (agrees digest).frame id id
    | dedupeLink placed =>
      have clear := nowhere Notes.unlinked placed rfl condition
      rcases perform_dedupeLink performed with ⟨rfl, rfl⟩ | ⟨data, rfl⟩
      · exact (agrees digest).land rfl (fun _ => .inr) (fun _ => id) (.inl allowed.1) rfl
          (fun _ found => by cases found) rfl clear
      obtain ⟨files, linked⟩ := system.world.link_eq placed data
      refine (agrees digest).land (by rw [linked])
        (fun other => (World.holds_link _ _ other _).mp)
        (fun other kept => (World.holds_link _ _ other _).mpr (.inr kept)) (.inl allowed.1)
        rfl ?_ rfl clear
      intro other found
      simp only [observe] at found
      split at found
      · cases found
        exact ⟨rfl, (World.holds_link ..).mpr (.inl rfl)⟩
      · cases found
    | publishBytes placed data =>
      obtain ⟨rfl, absent⟩ := condition
      have clear := nowhere Notes.unlinked placed rfl absent
      obtain rfl := (World.place_cases (Option.some.inj performed)).2 rfl
      obtain ⟨files, linked⟩ := system.world.link_eq placed data
      refine (agrees digest).land (by rw [linked])
        (fun other => (World.holds_link _ _ other _).mp)
        (fun other kept => (World.holds_link _ _ other _).mpr (.inr kept)) (.inr allowed)
        rfl ?_ rfl clear
      intro other found
      cases found
      exact ⟨rfl, (World.holds_link ..).mpr (.inl rfl)⟩
    | unlink removed =>
      rcases perform_unlink performed with ⟨rfl, error, rfl⟩ | ⟨rfl, rfl⟩
      · exact (agrees digest).frame id id
      exact (agrees digest).unlink allowed rfl rfl rfl
        (nowhere Notes.landing removed rfl (condition rfl))
    | apply op body =>
      cases condition
      obtain rfl := (World.logged_cases (Option.some.inj performed)).2 rfl
      cases op with
      | putManifest named placed mediaType tag references referrer =>
        obtain ⟨rfl, landing, landed⟩ := allowed
        exact (agrees digest).put landing landed rfl rfl rfl
      | deleteManifest named removed =>
        obtain ⟨rfl, unlinked⟩ := allowed
        exact (agrees digest).delete unlinked rfl rfl rfl
      | _ => exact allowed.elim
    | applyRelaxed op =>
      rcases (World.logged_cases (Option.some.inj performed)).1 with rfl | rfl
      · exact (agrees digest).frame id id
      · exact (agrees digest).relaxed allowed
    | stat found =>
      obtain ⟨size, rfl⟩ := condition
      exact quietly rfl rfl rfl rfl
    | _ => exact quietly rfl rfl rfl rfl
  drops _ _ _ _ dropped := dropped.elim
  abandons _ dropped := dropped.elim

/-- The manifests that are recorded are those whose file is there, and nothing
else is named. -/
structure World.Agreeing (repo : String) (world : World) : Prop where
  recorded : ∀ digest, (world.metadata.repo repo).Recorded digest ↔ world.Holds digest
  names : ∀ digest, (world.metadata.repo repo).Names digest →
    (world.metadata.repo repo).Recorded digest

theorem World.Agreeing.empty (repo : String) : ({} : World).Agreeing repo where
  recorded digest := by simp [State.repo_empty, RepoState.Recorded, World.Holds]
  names digest named := by
    rw [State.repo_empty] at named
    rcases named with ⟨_, _, found⟩ | recorded | ⟨_, _, _, found, _⟩
    · simp at found
    · rwa [State.repo_empty]
    · simp at found

theorem World.Agreeing.agrees {repo : String} {world : World} (agreeing : world.Agreeing repo)
    (digest : String) : Agrees repo world (fun _ => {}) digest where
  named known := .inl ((agreeing.recorded digest).mp (agreeing.names digest known))
  filed present := .inl ((agreeing.recorded digest).mpr present)
  landed _ found := by cases found
  landing _ found := by cases found
  unlinked _ found := by cases found
  apart _ _ found := by cases found

/-- Once every push and deletion has returned, a manifest is named by the
metadata exactly when its file is there. -/
theorem manifest_record_iff_file (env : Env) (repo : String)
    {start final : System World Request Action Response Reply Notes}
    {events : List (Event Request Choice)}
    (run : Reaches (machine env repo).step ((machine env repo).Permitted HalvesApart) start events
      final)
    (unused : start.threads = []) (agreeing : start.world.Agreeing repo)
    (returned : Machine.Quiescent final) (digest : String) :
    (final.world.metadata.repo repo).Names digest ↔ final.world.Holds digest := by
  have sound := (halves_preserved env repo).run run unused agreeing.agrees
  have settled := sound.quiescent returned Notes.Settled ⟨rfl, rfl, rfl⟩ fun _ _ _ ended => ended
  have agrees := sound.holds digest
  constructor
  · intro named
    rcases agrees.named named with present | ⟨index, unlinked⟩
    · exact present
    · rw [(settled index).2.2] at unlinked
      cases unlinked
  · intro present
    rcases agrees.filed present with recorded | ⟨index, landing⟩
    · exact .inr (.inl recorded)
    · rw [(settled index).1] at landing
      cases landing

/-- Everything pushed is the empty body. -/
def emptyBodies : Env where
  reader := JsonText.reader
  crc32c := crc32c
  digestOf _ _ := .ofNothing

def pushEmpty : Request :=
  .putManifest none .ofNothing "application/vnd.oci.image.manifest.v1+json" []
    { references := [], required := [], subject := none }

/-- The deletion runs from its first to its last step while the push is between
its file and its record. -/
def overlappingEvents : List (Event Request Choice) :=
  [.start pushEmpty, .start (.deleteManifest .ofNothing)] ++ runs 0 4 ++ runs 1 7 ++ runs 0 9

/-- Both calls have returned, and the record has no file. -/
theorem record_without_file :
    ∃ final, Reaches (machine emptyBodies "app").step (fun _ _ => True) { world := {} }
        overlappingEvents final ∧ Machine.Quiescent final ∧
      (final.world.metadata.repo "app").Names Digest.ofNothing.asString ∧
      ¬ final.world.Holds Digest.ofNothing.asString := by
  obtain ⟨final, run, returned, recorded, missing⟩ := @exists_run_of_execute _ _
    (machine emptyBodies "app").step (fun _ _ => True) _ { world := {} } overlappingEvents
    (fun final => Machine.Quiescent final ∧
      (final.world.metadata.manifestMediaType "app" Digest.ofNothing.asString).isSome = true ∧
      ¬ final.world.Holds Digest.ofNothing.asString) _ (by decide +kernel)
  rw [State.manifestMediaType_eq] at recorded
  exact ⟨final, run, returned, .inr (.inl (Option.isSome_iff_exists.mp recorded)), missing⟩

instance (call : Request) : Decidable (HalvesApart.calls call) := by
  cases call with
  | putManifest | deleteManifest => exact isTrue trivial
  | _ => exact isFalse id

instance (outcome : Except StorageError Unit) : Decidable (outcome = .ok ()) :=
  match outcome with
  | .ok () => isTrue rfl
  | .error _ => isFalse fun equal => by cases equal

def decidableFound :
    (found : Except StorageError (Option Nat)) → Decidable (∃ size, found = .ok (some size))
  | .ok (some size) => isTrue ⟨size, rfl⟩
  | .ok none => isFalse fun ⟨_, equal⟩ => by cases equal
  | .error _ => isFalse fun ⟨_, equal⟩ => by cases equal

instance (system : System World Request Action Response Reply Notes) (index : Nat) (action : Action)
    (response : Response action) :
    Decidable (HalvesApart.actions system index action response) := by
  unfold HalvesApart
  dsimp only
  split <;> first | exact decidableFound _ | infer_instance

instance (action : Action) : Decidable (HalvesApart.drops action) := isFalse id

/-- A push, a deletion and a second push, one after the other. -/
def orderlyEvents : List (Event Request Choice) :=
  [.start pushEmpty, .start (.deleteManifest .ofNothing), .start pushEmpty] ++ runs 0 13 ++
    runs 1 7 ++ runs 2 13

/-- After the second push the file is there, and so is the record. -/
theorem record_with_file :
    ∃ final, Reaches (machine emptyBodies "app").step
        ((machine emptyBodies "app").Permitted HalvesApart) { world := {} } orderlyEvents final ∧
      Machine.Quiescent final ∧ final.world.Holds Digest.ofNothing.asString ∧
      ((final.world.metadata.repo "app").Names Digest.ofNothing.asString ↔
        final.world.Holds Digest.ofNothing.asString) := by
  obtain ⟨final, run, returned, present⟩ := @exists_run_of_execute _ _
    (machine emptyBodies "app").step ((machine emptyBodies "app").Permitted HalvesApart) _
    { world := {} } orderlyEvents (fun final => Machine.Quiescent final ∧
      final.world.Holds Digest.ofNothing.asString) _ (by decide +kernel)
  exact ⟨final, run, returned, present,
    manifest_record_iff_file emptyBodies "app" run rfl (.empty "app") returned _⟩

end Roci.Manifests
