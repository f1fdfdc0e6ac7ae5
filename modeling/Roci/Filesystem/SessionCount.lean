import Roci.Filesystem.Exclusion
import Roci.Library.Tally

/-!
# The counter of upload sessions

The counter is to be the number of pending sessions and of staging files.  A
session that changes from pending to staged counts once all along; a call that
begins or ends one stands for the difference until the counter follows.

A rename that finds its target taken ends a session whose staging file stays, so
the counter is wrong afterwards.
-/

namespace Roci.Filesystem

open Roci.Library Roci.Storage
open Function (update update_of_ne update_self)

/-- Something is found under the name of the session in an upload directory. -/
def World.Staged (world : World) (key : SessionKey) : Prop :=
  (world.disk.files key.path).isSome = true

instance (world : World) (key : SessionKey) : Decidable (world.Staged key) :=
  inferInstanceAs (Decidable (_ = _))

/-- The counter is the number of pending sessions and of staging files. -/
def World.Accounted (world : World) : Prop :=
  ∃ pending staged : Finset SessionKey,
    (∀ key, key ∈ pending ↔ world.sessions.pending key = true) ∧
      (∀ key, key ∈ staged ↔ world.Staged key) ∧
      world.sessions.count = pending.card + staged.card

abbrev Notes.Creates (notes : Notes) (key : SessionKey) (mutex : Nat) : Prop :=
  notes.Holds key mutex ∧ notes.pending = some true ∧ notes.node.isSome = true

/-- A session is pending and staged only while a call creates its file. -/
def Created (world : World) (notes : Nat → Notes) : Prop :=
  ∀ key, world.sessions.pending key = true → world.Staged key →
    ∃ index mutex, (notes index).Holds key mutex ∧ (notes index).pending = some true ∧
      (notes index).node.isSome = true

/-- Sessions are counted once, and those that are live were handed out. -/
structure Balanced (world : World) (notes : Nat → Notes) : Prop where
  guarded : Guarded world notes
  issued : ∀ key, world.Live key → key ∈ world.sessions.issued
  created : Created world notes
  tallies : Tallies world.sessions.count world.Live fun index => (notes index).owes = true

section

variable {env : Env} {reader : JsonReader} {world next : World} {notes : Nat → Notes}
  {index : Nat} {choice : Choice} {later : Notes}

theorem owes_update_of_ne (other : Nat) (different : other ≠ index) :
    (update notes index later other).owes = true ↔ (notes other).owes = true := by
  rw [update_of_ne different]

theorem owes_update_of_eq (unchanged : later.owes = (notes index).owes) (other : Nat) :
    (update notes index later other).owes = true ↔ (notes other).owes = true := by
  by_cases same : other = index
  · subst same
    simp [unchanged]
  · exact owes_update_of_ne other same

theorem Created.update (created : Created world notes)
    (before : ∀ key, next.sessions.pending key = true → next.Staged key →
      world.sessions.pending key = true ∧ world.Staged key ∨ ∃ mutex, later.Creates key mutex)
    (keeps : ∀ key mutex, (notes index).Creates key mutex → next.sessions.pending key = true →
      later.Creates key mutex) :
    Created next (update notes index later) := by
  intro key pending staged
  rcases before key pending staged with earlier | ⟨mutex, creating⟩
  · obtain ⟨other, mutex, creating⟩ := created key earlier.1 earlier.2
    refine ⟨other, mutex, ?_⟩
    by_cases same : other = index
    · subst same
      rw [update_self]
      exact keeps key mutex creating pending
    rw [update_of_ne same]
    exact creating
  refine ⟨index, mutex, ?_⟩
  rw [update_self]
  exact creating

theorem Balanced.of_same (balanced : Balanced world notes)
    (guarded : Guarded next (update notes index later))
    (keeps : ∀ key mutex, (notes index).Creates key mutex → next.sessions.pending key = true →
      later.Creates key mutex)
    (owes : later.owes = (notes index).owes := by rfl)
    (files : ∀ key : SessionKey, next.disk.files key.path = world.disk.files key.path := by
      intro; rfl)
    (pending : next.sessions.pending = world.sessions.pending := by rfl)
    (count : next.sessions.count = world.sessions.count := by rfl)
    (issued : next.sessions.issued = world.sessions.issued := by rfl) :
    Balanced next (update notes index later) := by
  have live : ∀ key, next.Live key ↔ world.Live key := by
    intro key
    rw [World.Live, World.Live, pending, files]
  refine ⟨guarded, fun key found => ?_, balanced.created.update (fun key stated staged => .inl ?_)
    keeps, ?_⟩
  · rw [issued]
    exact balanced.issued key ((live key).mp found)
  · rw [World.Staged, files] at staged
    rw [pending] at stated
    exact ⟨stated, staged⟩
  rw [count]
  exact balanced.tallies.congr live (owes_update_of_eq owes)

theorem Balanced.creator (balanced : Balanced world notes) {key : SessionKey} {mutex : Nat}
    (holds : (notes index).Holds key mutex) (pending : world.sessions.pending key = true)
    (staged : world.Staged key) :
    (notes index).pending = some true ∧ (notes index).node.isSome = true := by
  obtain ⟨other, locked, also, noted, opened⟩ := balanced.created key pending staged
  cases balanced.guarded.exclusive (.inl pending) holds also
  exact ⟨noted, opened⟩

/-! ## Actions on sessions -/

theorem Balanced.step_sessions {action : SessionAction} {response : SessionResponse action}
    (balanced : Balanced world notes)
    (allowed : (discipline env true).allowed (notes index) (.sessions action))
    (performed : perform reader world index (.sessions action) choice = some (next, response)) :
    Balanced next (update notes index (observe (notes index) (.sessions action) response)) := by
  have guarded := balanced.guarded.step_sessions allowed performed
  obtain ⟨sessions, changed, rfl⟩ := perform_sessions performed
  cases action with
  | beginSession limit =>
    have settled : (notes index).owes = false := allowed
    simp only [performSession] at changed
    split at changed
    · cases changed
      refine ⟨guarded, balanced.issued, balanced.created.update (fun _ pending staged =>
        .inl ⟨pending, staged⟩) (fun _ _ creates _ => creates), ?_⟩
      exact balanced.tallies.announce (by simp [settled]) (by rw [update_self]; rfl)
        owes_update_of_ne
    cases changed
    exact balanced.of_same guarded (fun _ _ creates _ => creates) settled.symm
  | insertPending repo =>
    have owes : (notes index).owes = true := allowed
    simp only [performSession] at changed
    split at changed
    · rename_i fresh
      cases changed
      have absent : ¬ world.Live ⟨repo, hexEncode choice.random⟩ := fun live =>
        fresh.2.2 _ (balanced.issued _ live) rfl
      refine ⟨guarded, fun key live => ?_, balanced.created.update (fun key pending staged => ?_)
        (fun _ _ creates _ => creates), ?_⟩
      · by_cases same : key = ⟨repo, hexEncode choice.random⟩
        · exact same ▸ List.mem_cons_self
        refine List.mem_cons_of_mem _ (balanced.issued key (live.imp_left fun pending => ?_))
        exact (update_of_ne same _ _).symm.trans pending
      · have different : key ≠ ⟨repo, hexEncode choice.random⟩ := by
          rintro rfl
          exact absent (.inr staged)
        exact .inl ⟨(update_of_ne different _ _).symm.trans pending, staged⟩
      refine (balanced.tallies.symm.announce absent (.inl (update_self _ _ _))
        fun key different => or_congr_left ?_).symm.conclude owes
          (by rw [update_self]; exact Bool.false_ne_true)
          owes_update_of_ne
      exact Iff.of_eq (congrArg (· = true) (update_of_ne different _ _))
    · cases changed
  | isPending key =>
    cases changed
    by_cases here : (notes index).isAt key.path = true
    · simp only [observe, here, if_true] at guarded ⊢
      refine balanced.of_same guarded fun held mutex creates pending =>
        ⟨creates.1, ?_, creates.2.2⟩
      have same : held = key := SessionKey.path_inj.mp ((creates.1.isAt_iff _).mp here)
      subst same
      exact congrArg some pending
    simp only [observe, here] at guarded ⊢
    exact balanced.of_same guarded fun _ _ creates _ => creates
  | takePending key =>
    cases changed
    obtain ⟨⟨mutex, holds⟩, settled⟩ := allowed
    have gone : ∀ other, update world.sessions.pending key false other = true ↔
        world.sessions.pending other = true ∧ other ≠ key := by
      intro other
      by_cases same : other = key
      · subst same
        simp
      · simp [same]
    refine ⟨guarded, fun other live => balanced.issued other (live.imp_left fun pending =>
      ((gone other).mp pending).1), balanced.created.update (fun other pending staged =>
        .inl ⟨((gone other).mp pending).1, staged⟩) ?_, ?_⟩
    · rintro other locked ⟨also, _⟩ pending
      cases also.1.symm.trans holds.1
      exact absurd rfl ((gone key).mp pending).2
    by_cases counted : world.sessions.pending key = true ∧ (notes index).node = none
    · -- the session was pending only: the call stands for it now
      have unstaged : ¬ world.Staged key := by
        intro staged
        have opened := (balanced.creator holds counted.1 staged).2
        rw [counted.2] at opened
        cases opened
      have owes : (observe (notes index) (.sessions (.takePending key))
          (world.sessions.pending key)).owes = true := by
        simp [observe, counted.1, counted.2]
      refine ((balanced.tallies.announce (by simp [settled rfl]) (by simpa using owes)
        owes_update_of_ne).symm.conclude (.inl counted.1) ?_ fun other different => ?_).symm
      · rintro (pending | staged)
        · exact ((gone key).mp pending).2 rfl
        · exact unstaged staged
      · exact or_congr_left ((gone other).trans (and_iff_left different))
    · -- it was not pending, or its file has been created
      have owes : (observe (notes index) (.sessions (.takePending key))
          (world.sessions.pending key)).owes = false := by
        simp only [observe]
        cases pending : world.sessions.pending key with
        | false => rfl
        | true =>
          cases node : (notes index).node with
          | none => exact absurd ⟨pending, node⟩ counted
          | some node => rfl
      refine balanced.tallies.congr (fun other => ?_)
        (owes_update_of_eq (owes.trans (settled rfl).symm))
      refine ⟨fun live => live.imp_left fun pending => ((gone other).mp pending).1, ?_⟩
      rintro (pending | staged)
      · by_cases same : other = key
        · subst same
          cases opened : (notes index).node with
          | none => exact absurd ⟨pending, opened⟩ counted
          | some node =>
            have found := (balanced.guarded.sees index).opened other mutex node holds opened
            exact .inr (congrArg Option.isSome found)
        · exact .inl ((gone other).mpr ⟨pending, same⟩)
      · exact .inr staged
  | endSession =>
    cases changed
    refine ⟨guarded, balanced.issued, balanced.created.update (fun _ pending staged =>
      .inl ⟨pending, staged⟩) (fun _ _ creates _ => creates), ?_⟩
    exact balanced.tallies.conclude allowed (by rw [update_self]; exact Bool.false_ne_true)
      owes_update_of_ne
  | _ =>
    cases changed
    exact balanced.of_same guarded fun _ _ creates _ => creates

/-! ## Actions on locks -/

theorem Balanced.step_uploads {action : LockAction SessionKey (Option StagedHash)}
    {response : LockResponse action} (balanced : Balanced world notes)
    (allowed : (discipline env true).allowed (notes index) (.uploads action))
    (guarded : Guarded next (update notes index (observe (notes index) (.uploads action) response)))
    (performed : perform reader world index (.uploads action) choice = some (next, response)) :
    Balanced next (update notes index (observe (notes index) (.uploads action) response)) := by
  obtain ⟨uploads, changed, rfl⟩ := perform_uploads performed
  cases action with
  | get key =>
    have idle : notes index = {} := allowed
    refine balanced.of_same guarded (fun _ _ creates _ => ?_) (by rw [idle]; rfl)
    rw [idle] at creates
    cases creates.2.1
  | lock mutex =>
    obtain ⟨key, refers⟩ := allowed
    refine balanced.of_same guarded (fun _ _ creates _ => ?_) (by rw [refers]; rfl)
    rw [refers] at creates
    cases creates.2.1
  | tryLock mutex =>
    obtain ⟨key, refers⟩ := allowed
    refine balanced.of_same guarded (fun _ _ creates _ => ?_) ?_
    · rw [refers] at creates
      cases creates.2.1
    rw [refers]
    cases response <;> rfl
  | unlock mutex =>
    obtain ⟨_, settled⟩ := allowed
    refine balanced.of_same guarded (fun _ _ ⟨_, noted, opened⟩ _ => ?_) (settled rfl).1.symm
    rw [(settled rfl).2 noted] at opened
    cases opened
  | release key => exact allowed.elim
  | _ => exact balanced.of_same guarded fun _ _ creates _ => creates

/-! ## Actions on files -/

/-- Nothing fails that the counter depends on: a rename does not find its target
taken, a file that was created can be looked at, directories can be synced, and
no marker is put into an upload directory. -/
def Smooth : (action : Action) → Response action → Prop
  | .disk (.fstat _), .error _ => False
  | .disk .sync, .error _ => False
  | .disk (.rename _ _), .ok false => False
  | .disk (.publish path _), _ => path.dropLast.getLast? ≠ some "uploads"
  | _, _ => True

theorem SessionKey.getLast?_directory (key : SessionKey) :
    key.path.dropLast.getLast? = some "uploads" := by
  have split : key.path = (repoPath key.repo ++ ["uploads"]) ++ [key.id] := by
    simp [SessionKey.path]
  rw [split, List.dropLast_concat, List.getLast?_concat]

theorem Smooth.unstaged {action : DiskAction} {response : DiskResponse action}
    (smooth : Smooth (.disk action) response) (key : SessionKey) (path : Path) (data : Bytes)
    (equal : action = .publish path data) : key.path ≠ path := by
  subst equal
  rintro rfl
  exact smooth key.getLast?_directory

theorem Balanced.of_gone {after : Disk} {clock : Nat} {key : SessionKey}
    (balanced : Balanced world notes)
    (guarded : Guarded { world.tick clock with disk := after } (update notes index later))
    (settled : (notes index).owes = false) (owes : later.owes = true)
    (finished : world.sessions.pending key = false) (staged : world.Staged key)
    (gone : after.files key.path = none)
    (kept : ∀ other : SessionKey, other ≠ key →
      after.files other.path = world.disk.files other.path)
    (held : ∀ other mutex, (notes index).Holds other mutex → other = key) :
    Balanced { world.tick clock with disk := after } (update notes index later) := by
  have dead : ¬ World.Live { world.tick clock with disk := after } key :=
    fun live => live.not_over ⟨finished, gone⟩
  have live : ∀ other ≠ key, World.Live { world.tick clock with disk := after } other ↔
      world.Live other := fun other different =>
    or_congr_right (Iff.of_eq (congrArg (fun entry => Option.isSome entry = true)
      (kept other different)))
  refine ⟨guarded, fun other found => balanced.issued other ((live other ?_).mp found),
    balanced.created.update (fun other pending found => .inl ⟨pending, ?_⟩) ?_,
    ((balanced.tallies.announce (by simp [settled]) (by simpa using owes)
      owes_update_of_ne).symm.conclude (.inr staged) dead live).symm⟩
  · rintro rfl
    exact dead found
  · have different : other ≠ key := by
      rintro rfl
      exact nomatch finished.symm.trans pending
    exact (congrArg Option.isSome (kept other different)).symm.trans found
  rintro other mutex ⟨holds, _⟩ pending
  cases held other mutex holds
  exact nomatch finished.symm.trans pending

theorem Balanced.step_disk {action : DiskAction} {response : DiskResponse action}
    (balanced : Balanced world notes)
    (allowed : (discipline env true).allowed (notes index) (.disk action))
    (smooth : Smooth (.disk action) response)
    (performed : perform reader world index (.disk action) choice = some (next, response)) :
    Balanced next (update notes index (observe (notes index) (.disk action) response)) := by
  have guarded := balanced.guarded.step_disk allowed
    (fun path data equal index key mutex _ => smooth.unstaged key path data equal) performed
  obtain ⟨after, rfl, outcome⟩ := perform_disk performed
  obtain ⟨_, _, _, _, observed⟩ := observe_disk (notes index) action response
  have same : (∀ key : SessionKey, after.files key.path = world.disk.files key.path) →
      (observe (notes index) (.disk action) response).owes = (notes index).owes →
      ((notes index).node.isSome = true →
        (observe (notes index) (.disk action) response).node.isSome = true) →
      Balanced { world.tick choice.clock with disk := after } (update notes index
        (observe (notes index) (.disk action) response)) := fun files owes opened =>
    balanced.of_same guarded (fun key mutex ⟨holds, noted, open_⟩ _ =>
      ⟨observed ▸ holds, observed ▸ noted, opened open_⟩) owes files
  have frame : (∀ key : SessionKey, key.path ∉ action.names) →
      ∀ key : SessionKey, after.files key.path = world.disk.files key.path :=
    fun unnamed key => outcome.files (unnamed key)
  have only : ∀ {key mutex}, (notes index).Holds key mutex → ∀ other locked,
      (notes index).Holds other locked → other = key := by
    intro key mutex holds other locked also
    cases also.1.symm.trans holds.1
    rfl
  have traced := outcome.traced (notes index)
  generalize observe (notes index) (.disk action) response = seen at traced guarded same ⊢
  cases traced with
  | created free =>
    obtain ⟨key, mutex, holds, noted, rfl⟩ := allowed
    have stated := (balanced.guarded.sees index).pending key mutex true holds noted
    have kept : ∀ other : SessionKey, other ≠ key →
        (world.disk.add key.path []).files other.path = world.disk.files other.path :=
      fun other different => Disk.files_add_of_ne
        (fun equal => different (SessionKey.path_inj.mp equal)) _
    have live : ∀ other, World.Live { world.tick choice.clock with
        disk := world.disk.add key.path [] } other ↔ world.Live other := by
      intro other
      by_cases equal : other = key
      · subst equal
        exact ⟨fun _ => .inl stated, fun _ => .inl stated⟩
      exact or_congr_right (Iff.of_eq (congrArg (fun entry => Option.isSome entry = true)
        (kept other equal)))
    refine ⟨guarded, fun other found => balanced.issued other ((live other).mp found),
      balanced.created.update (fun other stated staged => ?_)
        (fun other locked ⟨also, noted, _⟩ _ => ⟨also, noted, rfl⟩),
      balanced.tallies.congr live (owes_update_of_eq rfl)⟩
    by_cases equal : other = key
    · subst equal
      exact .inr ⟨mutex, holds, noted, rfl⟩
    · exact .inl ⟨stated, (congrArg Option.isSome (kept other equal)).symm.trans staged⟩
  | unlinked present here =>
    obtain ⟨key, mutex, holds, rfl⟩ := Notes.exists_holds_of_isAt here
    rcases allowed with ⟨blob, equal⟩ | ⟨other, locked, also, _, settled, unpending⟩
    · exact absurd equal (SessionKey.path_ne_blob key blob)
    have finished : world.sessions.pending key = false := by
      by_contra pending
      exact unpending (balanced.creator holds (by simpa using pending) present).1
    refine balanced.of_gone guarded settled rfl finished present ?_ ?_ (only holds)
    · exact Disk.files_setFile_self _ _
    intro other different
    rw [Disk.files_setFile_of_ne fun equal => different (SessionKey.path_inj.mp equal)]
  | removed elsewhere =>
    refine same (fun key => Disk.files_setFile_of_ne ?_ _) rfl id
    rcases allowed with ⟨blob, rfl⟩ | ⟨other, locked, also, rfl, _⟩
    · exact SessionKey.path_ne_blob key blob
    · exact absurd ((also.isAt_iff _).mpr rfl) elsewhere
  | renamed found =>
    obtain ⟨key, mutex, holds, rfl, settled, unpending, _, blob, rfl, _⟩ := allowed
    have finished := (balanced.guarded.sees index).pending key mutex false holds unpending
    refine balanced.of_gone guarded settled rfl finished (congrArg Option.isSome found)
      ?_ ?_ (only holds)
    · rw [Disk.files_setFile_of_ne (SessionKey.path_ne_blob key blob), Disk.files_setFile_self]
    intro other different
    rw [Disk.files_setFile_of_ne (SessionKey.path_ne_blob other blob),
      Disk.files_setFile_of_ne fun equal => different (SessionKey.path_inj.mp equal)]
  | refused => exact smooth.elim
  | published free =>
    exact same (frame fun key => by simpa [DiskAction.names] using smooth.unstaged key _ _ rfl)
      rfl id
  | linked made =>
    obtain ⟨_, blob, _, rfl, _⟩ := allowed
    exact same (frame fun key => by simp [DiskAction.names]) rfl id
  | opened named here => exact same (fun _ => rfl) rfl fun _ => rfl
  | _ => exact same (fun _ => rfl) rfl id

/-! ## Runs -/

theorem Balanced.keeps {action : Action} {response : Response action}
    (balanced : Balanced world notes)
    (allowed : (discipline env true).allowed (notes index) action)
    (parted : Parted world notes action) (smooth : Smooth action response)
    (performed : perform reader world index action choice = some (next, response)) :
    Balanced next (update notes index (observe (notes index) action response)) := by
  have guarded := balanced.guarded.keeps allowed parted performed
  cases action with
  | disk action => exact balanced.step_disk allowed smooth performed
  | uploads action => exact balanced.step_uploads allowed guarded performed
  | sessions action => exact balanced.step_sessions allowed performed
  | _ =>
    obtain ⟨_, rfl⟩ := perform_elsewhere (by trivial) performed
    rw [observe_elsewhere (by trivial)] at guarded ⊢
    exact balanced.of_same guarded fun _ _ creates _ => creates

theorem Balanced.expects {action : Action} {response : Response action}
    (balanced : Balanced world notes) (smooth : Smooth action response)
    (performed : perform reader world index action choice = some (next, response)) :
    (discipline env true).expected (notes index) action response := by
  have expected : (discipline env false).expected (notes index) action response :=
    balanced.guarded.expects performed
  cases action with
  | disk action =>
    cases action with
    | fstat node | sync => cases response <;> first | exact smooth.elim | trivial
    | rename source target =>
      rcases response with error | moved
      · trivial
      · cases moved <;> first | exact smooth.elim | trivial
    | openFile path => cases response <;> exact expected
    | _ => cases response <;> trivial
  | sessions action =>
    cases action with
    | takePending key => exact expected
    | _ => trivial
  | _ => trivial

end

/-- The locks exclude and the counter depends on nothing that fails; every call
runs to its end. -/
def sessionsCounted : Conditions World Request Action Response Reply Notes where
  calls _ := True
  actions system index action response :=
    entriesKept.actions system index action response ∧ Smooth action response
  drops _ := False

theorem balanced_preserved (env : Env) :
    (sessionStore env).Preserves sessionsCounted (fun _ => discipline env true)
      (fun _ _ reached => Notes.SameSession {} reached) Balanced where
  codes request _ := obeys_code request
  expects _ _ _ _ _ _ condition performed balanced _ := balanced.expects condition.2 performed
  keeps _ _ _ _ _ _ condition allowed performed balanced :=
    balanced.keeps allowed.choose_spec (parted_of_entriesKept condition.1) condition.2 performed
  drops _ _ _ _ impossible := impossible.elim
  abandons _ impossible := impossible.elim

/-- A store that was just opened: nothing is locked or pending, the counter was
set to the number of staging files, and these belong to sessions handed out
before. -/
structure Opened (world : World) : Prop where
  unlocked : world.uploads = {}
  settled : ∀ key, world.sessions.pending key = false
  accounted : world.Accounted
  issued : ∀ key, world.Staged key → key ∈ world.sessions.issued

theorem Opened.balanced {world : World} (opened : Opened world) : Balanced world fun _ => {} := by
  have live : ∀ key, world.Live key → world.Staged key := fun key live =>
    live.resolve_left fun pending => nomatch (opened.settled key).symm.trans pending
  refine ⟨⟨fun key mutex found => ?_, fun index => sees_idle _ index⟩,
    fun key found => opened.issued key (live key found),
    fun key pending => (nomatch (opened.settled key).symm.trans pending), ?_⟩
  · rw [opened.unlocked] at found
    cases found
  obtain ⟨pending, staged, pends, stages, total⟩ := opened.accounted
  have none : pending = ∅ := Finset.eq_empty_of_forall_notMem fun key member =>
    nomatch (opened.settled key).symm.trans ((pends key).mp member)
  refine ⟨staged, ∅, fun key => (stages key).trans ⟨.inr, live key⟩, fun index => ?_, ?_⟩
  · simp
  rw [total, none]
  simp

/-- Once nothing is running, the counter is right. -/
theorem Balanced.accounted {world : World} {notes : Nat → Notes} (balanced : Balanced world notes)
    (idle : ∀ index, Notes.SameSession {} (notes index)) : world.Accounted := by
  obtain ⟨live, owing, lives, owe, total⟩ := balanced.tallies
  have settled : owing = ∅ := Finset.eq_empty_of_forall_notMem fun index member => by
    have owes : (notes index).owes = true := (owe index).mp member
    rw [idle index] at owes
    cases owes
  have apart : ∀ key, world.sessions.pending key = true → ¬ world.Staged key := by
    intro key pending staged
    obtain ⟨index, mutex, holds, _⟩ := balanced.created key pending staged
    rw [idle index] at holds
    cases holds.1
  refine ⟨live.filter fun key => world.sessions.pending key = true,
    live.filter world.Staged, fun key => ?_, fun key => ?_, ?_⟩
  · rw [Finset.mem_filter, lives]
    exact ⟨And.right, fun pending => ⟨.inl pending, pending⟩⟩
  · rw [Finset.mem_filter, lives]
    exact ⟨And.right, fun staged => ⟨.inr staged, staged⟩⟩
  rw [total, settled, Finset.card_empty, Nat.add_zero,
    ← Finset.card_union_of_disjoint (Finset.disjoint_filter.mpr fun key _ => apart key),
    ← Finset.filter_or]
  congr 1
  exact (Finset.filter_true_of_mem fun key member => (lives key).mp member).symm

/-- The session counter is the number of pending sessions and staging files
whenever nothing is running. -/
theorem sessions_accounted (env : Env) {start final : Store} {events : List (Event Request Choice)}
    (run : Reaches (sessionStore env).step ((sessionStore env).Permitted sessionsCounted)
      start events final)
    (unused : start.threads = []) (opened : Opened start.world)
    (returned : Machine.Quiescent final) : final.world.Accounted := by
  have sound := (balanced_preserved env).run run unused opened.balanced
  refine sound.holds.accounted fun index => ?_
  exact sound.quiescent returned (Notes.SameSession {}) rfl
    (fun _ _ _ ended => ended) index

/-! ## Uploads of a blob that is new, and of one that is there -/

instance (action : Action) (response : Response action) : Decidable (Smooth action response) := by
  cases action with
  | disk action =>
    cases action <;> first
      | exact isTrue trivial
      | exact instDecidableNot
      | rcases response with _ | _ | _ <;> first | exact isTrue trivial | exact isFalse id
  | _ => exact isTrue trivial

instance (system : Store) (index : Nat) (action : Action) (response : Response action) :
    Decidable (sessionsCounted.actions system index action response) :=
  inferInstanceAs (Decidable (_ ∧ _))

instance (request : Request) : Decidable (sessionsCounted.calls request) := isTrue trivial

instance (action : Action) : Decidable (sessionsCounted.drops action) := isFalse id

def finishEmpty (key : SessionKey) : Request := .finishUpload key .ofNothing 10 [] 10

theorem opened_empty : Opened {} :=
  ⟨rfl, fun _ => rfl, ⟨∅, ∅, by simp, by simp [World.Staged], rfl⟩, by simp [World.Staged]⟩

def firstUploadEvents : List (Event Request Choice) :=
  beginZero ++ .start (finishEmpty zeroSession) :: runs 1 36

theorem first_upload_accounted :
    ∃ final : Store, Reaches (sessionStore emptyBodies).step
        ((sessionStore emptyBodies).Permitted sessionsCounted)
        { world := {} } firstUploadEvents final ∧
      final.world.disk.bytesAt (BlobKey.path ⟨app, .ofNothing⟩) = some [] ∧
      final.world.Accounted := by
  obtain ⟨final, run, returned, landed⟩ := @exists_run_of_execute _ _
    (sessionStore emptyBodies).step ((sessionStore emptyBodies).Permitted sessionsCounted) _
    { world := {} } firstUploadEvents (fun final => Machine.Quiescent final ∧
      final.world.disk.bytesAt (BlobKey.path ⟨app, .ofNothing⟩) = some []) _ (by decide +kernel)
  exact ⟨final, run, landed, sessions_accounted emptyBodies run rfl opened_empty returned⟩

/-- The session drawn with sixteen bytes one. -/
def oneSession : SessionKey := ⟨app, hexEncode (List.replicate 16 1)⟩

/-- The empty blob is uploaded a second time: the rename finds its target taken,
the session is ended, and its staging file stays. -/
def secondUploadEvents : List (Event Request Choice) :=
  firstUploadEvents ++ .start (.beginUpload app) :: runs 2 2 ++
    .run 2 { random := List.replicate 16 1 } :: .start (finishEmpty oneSession) :: runs 3 33

theorem second_upload_uncounted :
    ∃ final : Store, Reaches (sessionStore emptyBodies).step
        ((sessionStore emptyBodies).Permitted .any) { world := {} } secondUploadEvents final ∧
      Machine.Quiescent final ∧ ¬ final.world.Accounted := by
  obtain ⟨final, run, returned, staged, zero⟩ := @exists_run_of_execute _ _
    (sessionStore emptyBodies).step ((sessionStore emptyBodies).Permitted .any) _ { world := {} }
    secondUploadEvents (fun final => Machine.Quiescent final ∧ final.world.Staged oneSession ∧
      final.world.sessions.count = 0) _ (by decide +kernel)
  refine ⟨final, run, returned, ?_⟩
  rintro ⟨pending, files, _, stages, total⟩
  have positive := Finset.card_pos.mpr ⟨oneSession, (stages oneSession).mpr staged⟩
  omega

end Roci.Filesystem
