import Roci.Filesystem.Exclusion
import Roci.Library.Sequential

/-!
# One call at a time

When calls do not overlap, what a call has seen of its session stays true until
it acts itself, every mutex is free between two calls, and a session that is over
stays over: an id is handed out once, and a staging file is made for a pending
session only.
-/

namespace Roci.Filesystem

open Roci.Library Roci.Storage Roci.Metadata

def alone (env : Env) (world : World) (action : Action) (choice : Choice) :
    Option (World × Response action) :=
  perform env.reader world 0 action choice

/-- One call after the other, whatever fails. -/
abbrev TakesTurns (env : Env) (start : World) (turns : List (Turn Request Choice))
    (final : World) : Prop :=
  Reaches (serve (alone env) (code env)) (fun _ _ => True) start turns final

/-- The notes of the one call under way are right, and it holds all that is held. -/
structure Undivided (world : World) (notes : Notes) : Prop where
  named : ∀ key mutex, notes.lock = some (key, mutex) → key ∈ world.uploads.named
  held : ∀ mutex, world.uploads.holder mutex ≠ none → ∃ key, notes.Holds key mutex
  pending : ∀ key mutex known, notes.Holds key mutex → notes.pending = some known →
    world.sessions.pending key = known
  opened : ∀ key mutex node, notes.Holds key mutex → notes.node = some node →
    world.disk.files key.path = some (.regular node)

section

variable {env : Env} {faultless : Bool} {world next : World} {notes : Notes} {choice : Choice}

theorem Undivided.expects {action : Action} {response : Response action}
    (undivided : Undivided world notes)
    (performed : alone env world action choice = some (next, response)) :
    (discipline env false).expected notes action response :=
  expected_of_known undivided.pending undivided.opened performed

theorem Undivided.free (undivided : Undivided world notes) (unheld : notes.held = false)
    (mutex : Nat) : world.uploads.holder mutex = none := by
  by_contra taken
  obtain ⟨key, holds⟩ := undivided.held mutex taken
  exact Bool.false_ne_true (unheld.symm.trans holds.2)

theorem Undivided.idle (free : ∀ mutex, world.uploads.holder mutex = none) :
    Undivided world {} where
  named _ _ impossible := nomatch impossible
  held mutex taken := absurd (free mutex) taken
  pending _ _ _ impossible := nomatch impossible.1
  opened _ _ _ impossible := nomatch impossible.1

theorem Undivided.elsewhere (undivided : Undivided world notes) (rest : World) :
    Undivided { rest with disk := world.disk, uploads := world.uploads, sessions := world.sessions }
      notes :=
  { undivided with }

variable {answer : Bool} {mutex : Nat} {key : SessionKey}

section

variable (undivided : Undivided world notes)

include undivided

theorem Undivided.of_same {later : Notes}
    (pending : ∀ key mutex known, notes.Holds key mutex → later.pending = some known →
      next.sessions.pending key = known)
    (opened : ∀ key mutex node, notes.Holds key mutex → later.node = some node →
      next.disk.files key.path = some (.regular node))
    (holder : ∀ mutex, next.uploads.holder mutex = world.uploads.holder mutex := by intro; rfl)
    (named : next.uploads.named = world.uploads.named := by rfl)
    (lock : later.lock = notes.lock := by rfl) (held : later.held = notes.held := by rfl) :
    Undivided next later := by
  have same : ∀ {key mutex}, later.Holds key mutex ↔ notes.Holds key mutex := by
    intro key mutex
    rw [Notes.Holds, lock, held]
    rfl
  refine ⟨fun key mutex refers => ?_, fun mutex taken => ?_,
    fun key mutex known holds => pending key mutex known (same.mp holds),
    fun key mutex node holds => opened key mutex node (same.mp holds)⟩
  · rw [named]
    exact undivided.named key mutex (lock ▸ refers)
  obtain ⟨key, holds⟩ := undivided.held mutex ((holder mutex) ▸ taken)
  exact ⟨key, same.mpr holds⟩

theorem Undivided.step_sessions {action : SessionAction} {response : SessionResponse action}
    (allowed : (discipline env faultless).allowed notes (.sessions action))
    (performed : alone env world (.sessions action) choice = some (next, response)) :
    Undivided next (observe notes (.sessions action) response) := by
  obtain ⟨sessions, changed, rfl⟩ := perform_sessions performed
  -- what the call knows of its session is kept, unless it has just asked
  have unchanged : (∀ taken, action ≠ .takePending taken) → ∀ key mutex known,
      notes.Holds key mutex → notes.pending = some known → sessions.pending key = known := by
    intro untaken key mutex known holds noted
    rw [settled_of_performSession changed (undivided.named key mutex holds.1)
      fun taken equal => absurd equal (untaken taken)]
    exact undivided.pending key mutex known holds noted
  cases action with
  | isPending asked =>
    cases changed
    by_cases here : notes.isAt asked.path = true
    · simp only [observe, here, if_true]
      refine undivided.of_same (fun key mutex known holds noted => ?_) undivided.opened
      cases noted
      rw [SessionKey.path_inj.mp ((holds.isAt_iff asked.path).mp here)]
    simp only [observe, here, Bool.false_eq_true, if_false]
    exact undivided.of_same (unchanged (by simp)) undivided.opened
  | takePending taken =>
    cases changed
    obtain ⟨⟨locked, also⟩, _⟩ := allowed
    refine undivided.of_same (fun key mutex known holds noted => ?_) undivided.opened
    cases noted
    cases holds.1.symm.trans also.1
    exact Function.update_self _ _ _
  | _ => exact undivided.of_same (unchanged (by simp)) undivided.opened

theorem Undivided.of_lock (refers : notes = { lock := some (key, mutex) }) (clock index : Nat) :
    Undivided { world.tick clock with uploads := world.uploads.update mutex fun found =>
        { found with holder := some index } } { lock := notes.lock, held := true } := by
  subst refers
  refine ⟨undivided.named, fun other taken => ?_, nofun, nofun⟩
  by_cases same : other = mutex
  · exact ⟨key, by rw [same], rfl⟩
  refine absurd ?_ taken
  exact (LockMap.holder_update_of_ne same _).trans (undivided.free rfl other)

theorem Undivided.step_uploads {action : LockAction SessionKey (Option StagedHash)}
    {response : LockResponse action}
    (allowed : (discipline env faultless).allowed notes (.uploads action))
    (performed : alone env world (.uploads action) choice = some (next, response)) :
    Undivided next (observe notes (.uploads action) response) := by
  obtain ⟨uploads, changed, rfl⟩ := perform_uploads performed
  cases action with
  | get key =>
    have pair : world.uploads.get 0 key = (uploads, response) := Option.some.inj changed
    have holder : ∀ mutex, (world.uploads.get 0 key).1.holder mutex =
        world.uploads.holder mutex := fun _ => LockMap.holder_get
    have named := @LockMap.named_get _ _ world.uploads 0 key _ _
    rw [pair] at holder named
    have idle : notes = {} := allowed
    refine ⟨fun other mutex refers => ?_, fun mutex taken => ?_, nofun, nofun⟩
    · cases refers
      exact named ▸ List.mem_cons_self
    refine absurd ?_ taken
    exact (holder mutex).trans (undivided.free (by rw [idle]) mutex)
  | lock mutex =>
    obtain ⟨key, refers⟩ := allowed
    simp only [LockMap.perform] at changed
    split at changed
    · cases changed
      exact undivided.of_lock refers choice.clock 0
    · cases changed
  | tryLock mutex =>
    obtain ⟨key, refers⟩ := allowed
    simp only [LockMap.perform] at changed
    split at changed
    · cases changed
      exact undivided.of_lock refers choice.clock 0
    cases changed
    exact .idle (undivided.free (by rw [refers]))
  | unlock mutex =>
    cases changed
    obtain ⟨⟨key, holds⟩, _⟩ := allowed
    refine .idle fun other => ?_
    by_cases same : other = mutex
    · rw [same]
      exact LockMap.holder_update_none _ fun _ => rfl
    rw [LockMap.holder_update_of_ne same]
    by_contra taken
    obtain ⟨named, also⟩ := undivided.held other taken
    cases holds.1.symm.trans also.1
    exact same rfl
  | remove key =>
    cases changed
    exact undivided.of_same undivided.pending undivided.opened
  | release key => exact allowed.elim
  | _ =>
    cases changed
    exact undivided.of_same undivided.pending undivided.opened
      fun _ => LockMap.holder_update_same _ fun _ => rfl

theorem Undivided.step_disk {action : DiskAction} {response : DiskResponse action}
    (allowed : (discipline env faultless).allowed notes (.disk action))
    (performed : alone env world (.disk action) choice = some (next, response)) :
    Undivided next (observe notes (.disk action) response) := by
  obtain ⟨after, rfl, outcome⟩ := perform_disk performed
  obtain ⟨_, _, _, _, observed⟩ := observe_disk notes action response
  have opened : ∀ key mutex node, notes.Holds key mutex → _ := fun key mutex node holds =>
    opened_after allowed outcome holds (undivided.opened key mutex node holds)
  rw [observed] at opened ⊢
  exact undivided.of_same undivided.pending opened

/-- Step lemma. -/
theorem Undivided.keeps {action : Action} {response : Response action}
    (allowed : (discipline env faultless).allowed notes action)
    (performed : alone env world action choice = some (next, response)) :
    Undivided next (observe notes action response) := by
  cases action with
  | disk action => exact undivided.step_disk allowed performed
  | uploads action => exact undivided.step_uploads allowed performed
  | sessions action => exact undivided.step_sessions allowed performed
  | _ =>
    obtain ⟨rest, rfl⟩ := perform_elsewhere (by trivial) performed
    rw [observe_elsewhere (by trivial)]
    exact undivided.elsewhere rest

end

/-! ## Single actions -/

theorem alone_isPending
    (performed : alone env world (.sessions (.isPending key)) choice = some (next, answer)) :
    next = world.tick choice.clock ∧ answer = world.sessions.pending key := by
  cases performed
  exact ⟨rfl, rfl⟩

theorem alone_takePending
    (performed : alone env world (.sessions (.takePending key)) choice = some (next, answer)) :
    next = { world.tick choice.clock with sessions := { world.sessions with
        pending := Function.update world.sessions.pending key false } } ∧
      answer = world.sessions.pending key := by
  cases performed
  exact ⟨rfl, rfl⟩

theorem alone_get (performed : alone env world (.uploads (.get key)) choice = some (next, mutex)) :
    next = { world.tick choice.clock with uploads := (world.uploads.get 0 key).1 } ∧
      mutex = (world.uploads.get 0 key).2 := by
  cases performed
  exact ⟨rfl, rfl⟩

theorem alone_lock_free {mutex : Nat} (free : world.uploads.holder mutex = none) :
    alone env world (.uploads (.lock mutex)) {} = some ({ world.tick 0 with
      uploads :=
        world.uploads.update mutex fun found => { found with holder := some 0 } }, ()) := by
  rw [alone, perform]
  simp only [World.tick_uploads, LockMap.perform, free]
  rfl

theorem alone_act {action : DiskAction} {response : DiskResponse action}
    (performed : alone env world (.disk action) choice = some (next, response))
    (sound : choice.error = none) :
    next = { world.tick choice.clock with
        disk := (world.disk.act action choice.toDiskChoice).1 } ∧
      response = (world.disk.act action choice.toDiskChoice).2 := by
  have acts : world.disk.perform action choice.toDiskChoice =
      world.disk.act action choice.toDiskChoice := by
    rw [Disk.perform, sound]
  rw [alone, perform] at performed
  simp only [World.tick_disk, acts] at performed
  cases performed
  exact ⟨rfl, rfl⟩

theorem alone_stat {path : Path} {found : Except StorageError (Option (Bool × Nat))}
    (performed : alone env world (.disk (.stat path)) choice = some (next, found))
    (sound : choice.error = none) : next = world.tick choice.clock ∧
      found = .ok ((world.disk.files path).map world.disk.describe) := by
  obtain ⟨rfl, rfl⟩ := alone_act performed sound
  refine ⟨rfl, ?_⟩
  cases named : world.disk.files path with
  | none => simp [Disk.act, named]
  | some entry => cases entry <;> simp [Disk.act, named, Disk.describe]

theorem alone_checksum {key : BlobKey} {found : Option BlobChecksum}
    (performed : alone env world (.metadata (.checksum key)) choice = some (next, found)) :
    next = world.tick choice.clock ∧
      found = world.metadata.checksum key.repo.name key.digest.asString := by
  cases performed
  exact ⟨rfl, rfl⟩

theorem alone_applyRelaxed {op : MetaOp} {applied : Except StorageError Unit}
    (performed : alone env world (.metadata (.applyRelaxed op)) choice = some (next, applied))
    (sound : choice.error = none) : next = { world.tick choice.clock with
      metadata := world.metadata.applyInRam env.reader op } := by
  rw [alone, perform] at performed
  simp only [performMetadata, logged, sound] at performed
  cases performed
  rfl

theorem alone_stat_absent {path : Path} (absent : world.disk.files path = none) :
    alone env world (.disk (.stat path)) {} = some (world.tick 0, .ok none) := by
  have seen : world.disk.perform (.stat path) {} = (world.disk, .ok none) := by
    simp [Disk.perform, Disk.act, absent]
  rw [alone, perform]
  simp only [World.tick_disk, seen]
  rfl

/-! ## Whole calls -/

/-- No call holds a session. -/
def World.Unlocked (world : World) : Prop := ∀ mutex, world.uploads.holder mutex = none

theorem Undivided.unlocked (undivided : Undivided world notes)
    (finished : Notes.SameSession {} notes) : world.Unlocked :=
  undivided.free (congrArg Notes.held finished)

/-- What every action of a call keeps that runs alone is kept by the call. -/
theorem ensures_code {condition : Deed World Action Choice Response → Prop}
    {Invariant : World → Notes → Prop} (request : Request)
    (keeps : ∀ world notes action choice next response,
      (discipline env false).allowed notes action →
      alone env world action choice = some (next, response) →
      condition ⟨world, action, choice, response⟩ →
      Undivided world notes → Invariant world notes →
      Invariant next (observe notes action response))
    (unlocked : world.Unlocked) (initially : Invariant world {}) :
    (code env request).Ensures (alone env) condition world fun _ _ reached =>
      reached.Unlocked ∧ ∃ later, Notes.SameSession {} later ∧ Invariant reached later := by
  have met : (code env request).Ensures (alone env) condition world fun _ _ reached =>
      ∃ later, Notes.SameSession {} later ∧ Undivided reached later ∧ Invariant reached later :=
    (@obeys_code env false request).ensures
      (fun world notes action choice next response allowed performed permitted holds =>
        ⟨holds.1.expects performed, holds.1.keeps allowed performed,
          keeps world notes action choice next response allowed performed permitted
            holds.1 holds.2⟩)
      ⟨Undivided.idle unlocked, initially⟩
  refine met.weaken fun deeds result reached ended => ?_
  obtain ⟨later, finished, undivided, holds⟩ := ended
  exact ⟨undivided.unlocked finished, later, finished, holds⟩

end

end Roci.Filesystem
