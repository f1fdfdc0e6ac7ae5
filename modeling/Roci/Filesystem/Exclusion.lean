import Roci.Filesystem.SessionCalls

/-!
# One call at a time works on a session

A session is live while it is pending or has a staging file.  The lock map hands
out the same mutex for a session as long as its entry stays, and a call that
refers to a mutex that is no longer in the map refers to a session that is over.
So two calls that hold a live session hold one mutex.

What breaks this is the removal of the entry of a live session while another
call refers to its mutex, as the sweep of stale uploads does.
-/

namespace Roci.Filesystem

open Roci.Core Roci.Library Roci.Storage
open Function (update update_of_ne update_self)

def World.Over (world : World) (key : SessionKey) : Prop :=
  world.sessions.pending key = false ∧ world.disk.files key.path = none

instance (world : World) (key : SessionKey) : Decidable (world.Over key) :=
  inferInstanceAs (Decidable (_ ∧ _))

def World.Live (world : World) (key : SessionKey) : Prop :=
  world.sessions.pending key = true ∨ (world.disk.files key.path).isSome = true

instance (world : World) (key : SessionKey) : Decidable (world.Live key) :=
  inferInstanceAs (Decidable (_ ∨ _))

variable {key : SessionKey} {system : Store}

theorem World.Live.not_over {world : World} (live : world.Live key) : ¬ world.Over key := by
  rintro ⟨settled, absent⟩
  rcases live with pending | staged
  · rw [settled] at pending
    cases pending
  rw [absent] at staged
  cases staged

structure Sees (world : World) (index : Nat) (notes : Notes) : Prop where
  refers : ∀ key mutex, notes.lock = some (key, mutex) →
    mutex < world.uploads.mutexes.length ∧ key ∈ world.uploads.named ∧
      (world.uploads.entries key = some mutex ∨ world.Over key)
  holds : ∀ key mutex, notes.Holds key mutex → world.uploads.holder mutex = some index
  pending : ∀ key mutex known, notes.Holds key mutex → notes.pending = some known →
    world.sessions.pending key = known
  opened : ∀ key mutex node, notes.Holds key mutex → notes.node = some node →
    world.disk.files key.path = some (.regular node)

/-- The mutexes of the map exist, and the notes of all calls are right. -/
structure Guarded (world : World) (notes : Nat → Notes) : Prop where
  bounded : ∀ key mutex, world.uploads.entries key = some mutex →
    mutex < world.uploads.mutexes.length
  sees : ∀ index, Sees world index (notes index)

section

variable {env : Env} {faultless : Bool} {reader : JsonReader} {world next : World}
  {notes : Nat → Notes} {index : Nat} {choice : Choice} {mutex : Nat} {key : SessionKey}

/-- Two calls that hold a live session are one. -/
theorem Guarded.exclusive (guarded : Guarded world notes) (live : world.Live key)
    {first second other : Nat} (holds : (notes first).Holds key mutex)
    (also : (notes second).Holds key other) :
    first = second := by
  have entered : ∀ {index mutex}, (notes index).Holds key mutex →
      world.uploads.entries key = some mutex := fun holds =>
    ((guarded.sees _).refers key _ holds.1).2.2.resolve_right live.not_over
  have same : mutex = other := Option.some.inj ((entered holds).symm.trans (entered also))
  subst same
  exact Option.some.inj
    (((guarded.sees first).holds _ _ holds).symm.trans ((guarded.sees second).holds _ _ also))

theorem sees_idle (world : World) (index : Nat) : Sees world index {} where
  refers _ _ impossible := nomatch impossible
  holds _ _ impossible := nomatch impossible.1
  pending _ _ _ impossible := nomatch impossible.1
  opened _ _ _ impossible := nomatch impossible.1

theorem Guarded.of_update {later : Notes}
    (bounded : ∀ key mutex, next.uploads.entries key = some mutex →
      mutex < next.uploads.mutexes.length)
    (actor : Sees next index later)
    (bystanders : ∀ other ≠ index, Sees next other (notes other)) :
    Guarded next (update notes index later) :=
  ⟨bounded, (Function.forall_update_iff notes (p := Sees next)).mpr ⟨actor, bystanders⟩⟩

theorem Guarded.elsewhere (guarded : Guarded world notes) (rest : World) :
    Guarded { rest with disk := world.disk, uploads := world.uploads, sessions := world.sessions }
      notes := by
  refine ⟨guarded.bounded, fun index => ?_⟩
  have sees := guarded.sees index
  exact { sees with }

/-! ## Actions on sessions -/

section

variable {sessions : Sessions}

theorem Sees.of_sessions {known : Notes} (sees : Sees world index known)
    (settled : ∀ key ∈ world.uploads.named, world.sessions.pending key = false →
      sessions.pending key = false) {noted : Option Bool} {owes : Bool}
    (pending : ∀ key mutex answer, known.Holds key mutex → noted = some answer →
      sessions.pending key = answer) :
    Sees { world with sessions := sessions } index
      { known with pending := noted, owes := owes } := by
  refine { sees with refers := fun key mutex refers => ?_, pending := pending }
  obtain ⟨within, named, entered⟩ := sees.refers key mutex refers
  exact ⟨within, named, entered.imp_right fun past => ⟨settled key named past.1, past.2⟩⟩

theorem Guarded.of_sessions (guarded : Guarded world notes)
    (settled : ∀ key ∈ world.uploads.named, world.sessions.pending key = false →
      sessions.pending key = false) {noted : Option Bool} {owes : Bool}
    (actor : ∀ key mutex answer, (notes index).Holds key mutex → noted = some answer →
      sessions.pending key = answer)
    (bystanders : ∀ other ≠ index, ∀ key mutex answer, (notes other).Holds key mutex →
      (notes other).pending = some answer → sessions.pending key = answer) :
    Guarded { world with sessions := sessions }
      (update notes index { notes index with pending := noted, owes := owes }) :=
  .of_update guarded.bounded ((guarded.sees index).of_sessions settled actor)
    fun other different => (guarded.sees other).of_sessions settled (bystanders other different)

end

theorem Guarded.step_sessions {action : SessionAction} {response : SessionResponse action}
    (guarded : Guarded world notes)
    (allowed : (discipline env faultless).allowed (notes index) (.sessions action))
    (performed : perform reader world index (.sessions action) choice = some (next, response)) :
    Guarded next (update notes index (observe (notes index) (.sessions action) response)) := by
  obtain ⟨sessions, changed, rfl⟩ := perform_sessions performed
  replace guarded : Guarded (world.tick choice.clock) notes :=
    guarded.elsewhere (world.tick choice.clock)
  -- a session some call refers to is not a new one
  have unchanged : (∀ taken, action ≠ .takePending taken) → ∀ index key mutex answer,
      (notes index).Holds key mutex → (notes index).pending = some answer →
        sessions.pending key = answer := by
    intro untaken index key mutex answer holds noted
    have sees := guarded.sees index
    rw [settled_of_performSession changed (sees.refers key mutex holds.1).2.1
      fun taken equal => absurd equal (untaken taken)]
    exact sees.pending key mutex answer holds noted
  have settled : ∀ key ∈ world.uploads.named, world.sessions.pending key = false →
      sessions.pending key = false := fun key named => settled_after changed (.inl named)
  cases action with
  | isPending key =>
    cases changed
    by_cases here : (notes index).isAt key.path = true
    · simp only [observe, here, if_true]
      refine guarded.of_sessions settled (fun held mutex answer holds known => ?_)
        fun other _ => unchanged (by simp) other
      rw [SessionKey.path_inj.mp ((holds.isAt_iff _).mp here)]
      exact Option.some.inj known
    simp only [observe, here]
    exact guarded.of_sessions settled (unchanged (by simp) index) fun other _ =>
      unchanged (by simp) other
  | takePending key =>
    cases changed
    obtain ⟨⟨mutex, holds⟩, _⟩ := allowed
    refine guarded.of_sessions settled ?_ ?_
    · intro held other answer also known
      have same : held = key := by
        cases also.1.symm.trans holds.1
        rfl
      subst same
      cases known
      exact update_self _ _ _
    intro other different held locked answer also known
    have stated := (guarded.sees other).pending held locked answer also known
    by_cases same : held = key
    · subst same
      cases answer with
      | false => exact update_self _ _ _
      | true => exact absurd (guarded.exclusive (.inl stated) also holds) different
    · exact (update_of_ne same _ _).trans stated
  | _ =>
    exact guarded.of_sessions settled (unchanged (by simp) index) fun other _ =>
      unchanged (by simp) other

/-! ## Actions on locks -/

section

variable {mutex : Nat} {key : SessionKey}
  {change : Mutex (Option StagedHash) → Mutex (Option StagedHash)}

theorem Sees.of_change {known : Notes} (sees : Sees world index known)
    (holds : ∀ key locked, known.Holds key locked →
      (world.uploads.update mutex change).holder locked = some index) :
    Sees { world with uploads := world.uploads.update mutex change } index known := by
  refine { sees with refers := ?_, holds := holds }
  simp only [LockMap.length_update]
  exact sees.refers

section

variable (guarded : Guarded world notes)

include guarded

theorem Guarded.of_change {later : Notes}
    (actor : Sees { world with uploads := world.uploads.update mutex change } index later)
    (bystanders : ∀ other ≠ index, ∀ key locked, (notes other).Holds key locked →
      (world.uploads.update mutex change).holder locked = some other) :
    Guarded { world with uploads := world.uploads.update mutex change }
      (update notes index later) := by
  refine .of_update ?_ actor fun other different =>
    (guarded.sees other).of_change (bystanders other different)
  simp only [LockMap.length_update]
  exact guarded.bounded

theorem Guarded.holder_ne {other : Nat}
    (free : world.uploads.holder mutex = none ∨ world.uploads.holder mutex = some index)
    (different : other ≠ index) {locked : Nat} (holds : (notes other).Holds key locked) :
    locked ≠ mutex := by
  rintro rfl
  have held := (guarded.sees other).holds key locked holds
  rcases free with none | own
  · rw [none] at held
    cases held
  rw [own] at held
  exact different (Option.some.inj held).symm

theorem Guarded.of_lock (refers : notes index = { lock := some (key, mutex) })
    (free : world.uploads.holder mutex = none) :
    Guarded { world with uploads := world.uploads.update mutex fun found =>
        { found with holder := some index } }
      (update notes index { lock := (notes index).lock, held := true }) := by
  have found : (notes index).lock = some (key, mutex) := by rw [refers]
  have within := ((guarded.sees index).refers key mutex found).1
  have sees := @Sees.of_change world index mutex
    (fun found => { found with holder := some index }) _
    (guarded.sees index) fun held locked holds => by
    rw [refers] at holds
    cases holds.2
  refine guarded.of_change { sees with holds := ?_, pending := nofun, opened := nofun } ?_
  · intro held locked holds
    cases found.symm.trans holds.1
    exact LockMap.holder_update within _ fun _ => rfl
  intro other different held locked holds
  rw [LockMap.holder_update_of_ne (guarded.holder_ne (.inl free) different holds)]
  exact (guarded.sees other).holds held locked holds

theorem Guarded.of_get (index : Nat) (key : SessionKey) :
    Guarded { world with uploads := (world.uploads.get index key).1 }
      (update notes index { lock := some (key, (world.uploads.get index key).2) }) := by
  refine .of_update (fun named mutex found => ?_)
    ⟨fun named mutex found => ?_, nofun, nofun, nofun⟩ fun other _ => { guarded.sees other with
      refers := fun named mutex found => ?_, holds := fun named mutex holds => ?_ }
  · by_cases same : named = key
    · subst same
      cases LockMap.entries_get_self.symm.trans found
      exact LockMap.get_lt fun mutex => guarded.bounded named mutex
    have entry := (LockMap.entries_get_of_ne same).symm.trans found
    exact (guarded.bounded named mutex entry).trans_le LockMap.length_le_get
  · cases found
    refine ⟨LockMap.get_lt fun mutex => guarded.bounded key mutex, ?_,
      .inl LockMap.entries_get_self⟩
    rw [LockMap.named_get]
    exact List.mem_cons_self
  · obtain ⟨within, member, entered⟩ := (guarded.sees other).refers named mutex found
    rw [LockMap.named_get]
    exact ⟨within.trans_le LockMap.length_le_get, List.mem_cons_of_mem _ member,
      entered.imp_left LockMap.entries_get⟩
  rw [LockMap.holder_get]
  exact (guarded.sees other).holds named mutex holds

theorem Guarded.of_unheld (unchanged : ∀ found, (change found).holder = found.holder)
    (content : Option Bytes) (taken : Bool) :
    Guarded { world with uploads := world.uploads.update mutex change }
      (update notes index { notes index with content := content, taken := taken }) := by
  have held : ∀ other key locked, (notes other).Holds key locked →
      (world.uploads.update mutex change).holder locked = some other := by
    intro other key locked holds
    rw [LockMap.holder_update_same _ unchanged]
    exact (guarded.sees other).holds key locked holds
  exact guarded.of_change { (guarded.sees index).of_change (held index) with }
    fun other _ => held other

end

end

/-- An entry is taken out of the map only when the session is over or no call
refers to its mutex. -/
def Unreferred (world : World) (notes : Nat → Notes) (key : SessionKey) : Prop :=
  world.Over key ∨ ∀ index mutex, (notes index).lock ≠ some (key, mutex)

theorem Guarded.step_uploads {action : LockAction SessionKey (Option StagedHash)}
    {response : LockResponse action} (guarded : Guarded world notes)
    (allowed : (discipline env faultless).allowed (notes index) (.uploads action))
    (unreferred : ∀ key, action = .remove key → Unreferred world notes key)
    (performed : perform reader world index (.uploads action) choice = some (next, response)) :
    Guarded next (update notes index (observe (notes index) (.uploads action) response)) := by
  obtain ⟨uploads, changed, rfl⟩ := perform_uploads performed
  replace guarded : Guarded (world.tick choice.clock) notes :=
    guarded.elsewhere (world.tick choice.clock)
  cases action with
  | get key =>
    have pair : (world.tick choice.clock).uploads.get index key = (uploads, response) :=
      Option.some.inj changed
    have got := guarded.of_get index key
    rw [pair] at got
    exact got
  | lock mutex =>
    obtain ⟨key, refers⟩ := allowed
    simp only [LockMap.perform] at changed
    split at changed
    · rename_i free
      cases changed
      exact guarded.of_lock refers (Option.isNone_iff_eq_none.mp free)
    · cases changed
  | tryLock mutex =>
    obtain ⟨key, refers⟩ := allowed
    simp only [LockMap.perform] at changed
    split at changed
    · rename_i free
      cases changed
      exact guarded.of_lock refers (Option.isNone_iff_eq_none.mp free)
    cases changed
    exact .of_update guarded.bounded (sees_idle _ index) fun other _ => guarded.sees other
  | unlock mutex =>
    cases changed
    obtain ⟨⟨key, holds⟩, _⟩ := allowed
    have own := (guarded.sees index).holds key mutex holds
    refine guarded.of_change (sees_idle _ index) fun other different held locked also => ?_
    rw [LockMap.holder_update_of_ne (guarded.holder_ne (.inr own) different also)]
    exact (guarded.sees other).holds held locked also
  | remove key =>
    cases changed
    have kept : ∀ other named mutex, (notes other).lock = some (named, mutex) →
        mutex < world.uploads.mutexes.length ∧ named ∈ world.uploads.named ∧
          ((world.uploads.remove key).entries named = some mutex ∨ world.Over named) := by
      intro other named mutex found
      obtain ⟨within, member, entered⟩ := (guarded.sees other).refers named mutex found
      refine ⟨within, member, ?_⟩
      by_cases same : named = key
      · subst same
        rcases unreferred named rfl with past | unused
        · exact .inr past
        · exact absurd found (unused other mutex)
      · exact entered.imp_left fun entry => (update_of_ne same _ _).trans entry
    exact .of_update
      (fun named mutex found => guarded.bounded named mutex (LockMap.entries_of_remove found))
      { guarded.sees index with refers := kept index }
      fun other _ => { guarded.sees other with refers := kept other }
  | release key => exact allowed.elim
  | forget mutex | take mutex | set mutex _ =>
    cases changed
    refine guarded.of_unheld (fun _ => ?_) _ _
    rfl

/-! ## Actions on files -/

/-- What a system call does to the disk, and what a call notes of it. -/
inductive Traced (known : Notes) (disk : Disk) :
    (action : DiskAction) → DiskResponse action → Disk → Notes → Prop where
  | nothing {action : DiskAction} {response : DiskResponse action}
      (unwritten : action.written = none) : Traced known disk action response disk known
  | created {path : Path} (free : disk.files path = none) :
      Traced known disk (.create path) (.ok disk.nodes.length) (disk.add path [])
        { known with node := some disk.nodes.length, content := some [] }
  | opened {path : Path} {node : Nat} (named : disk.files path = some (.regular node))
      (here : known.isAt path = true) :
      Traced known disk (.openFile path) (.ok node) disk { known with node := some node }
  | found {path : Path} {node : Nat} (named : disk.files path = some (.regular node)) :
      Traced known disk (.openFile path) (.ok node) disk { known with source := some (node, path) }
  | learned {action : DiskAction} {response : DiskResponse action} {node : Nat}
      (unwritten : action.written = none) (opened : known.node = some node) :
      Traced known disk action response disk { known with content := some (disk.content node) }
  | wrote {node : Nat} {data : Bytes} :
      Traced known disk (.write node data) (.ok ())
        (disk.setContent node (disk.content node ++ data))
        { known with content := known.content.map (· ++ data) }
  | spoiled {action : DiskAction} {response : DiskResponse action} {node : Nat} {data : Bytes}
      (written : action.written = some node) :
      Traced known disk action response (disk.setContent node data) { known with content := none }
  | failed {node length : Nat} {error : StorageError} :
      Traced known disk (.setLen node length) (.error error) disk { known with content := none }
  | unlinked {path : Path} (present : (disk.files path).isSome = true)
      (here : known.isAt path = true) :
      Traced known disk (.unlink path) (.ok ()) (disk.setFile path none)
        { known with owes := true, node := none, content := none }
  | removed {path : Path} (elsewhere : ¬ known.isAt path = true) :
      Traced known disk (.unlink path) (.ok ()) (disk.setFile path none) known
  | renamed {source target : Path} {entry : Entry} (found : disk.files source = some entry) :
      Traced known disk (.rename source target) (.ok true)
        ((disk.setFile source none).setFile target (some entry))
        { known with owes := true, node := none, content := none }
  | refused {source target : Path} : Traced known disk (.rename source target) (.ok false) disk
        { known with owes := true, node := none, content := none }
  | published {path : Path} {data : Bytes} (free : disk.files path = none) :
      Traced known disk (.publish path data) (.ok true) (disk.add path data) known
  | linked {node : Nat} {path : Path} {allowCopy : Bool} {how : Promotion} {after : Disk}
      (made : after = disk.setFile path (some (.regular node)) ∨
        after = disk.add path (disk.content node)) :
      Traced known disk (.link node path allowCopy) (.ok (how, true)) after known

theorem Traced.same {known : Notes} {disk after : Disk} {action : DiskAction}
    {response : DiskResponse action} (unwritten : action.written = none) (same : after = disk) :
    Traced known disk action response after known := same ▸ .nothing unwritten

theorem Disk.Outcome.traced {disk after : Disk} {action : DiskAction}
    {response : DiskResponse action} (outcome : disk.Outcome after action response)
    (known : Notes) :
    Traced known disk action response after (observe known (.disk action) response) := by
  cases action with
  | create path =>
    cases response with
    | error error => exact .same rfl outcome
    | ok node =>
      obtain ⟨free, rfl, rfl⟩ := outcome
      exact .created free
  | openFile path =>
    rcases response with error | node
    · exact .same rfl outcome
    obtain ⟨named, rfl⟩ := outcome
    simp only [observe]
    split
    · exact .opened named ‹_›
    · exact .found named
  | fstat node =>
    rcases response with error | length
    · exact .same rfl outcome
    obtain ⟨measured, rfl⟩ := outcome
    simp only [observe]
    split
    · rename_i empty
      rw [← List.eq_nil_of_length_eq_zero (measured.symm.trans empty.2)]
      exact .learned rfl empty.1
    · exact .nothing rfl
  | write node data =>
    cases response with
    | error error =>
      obtain ⟨amount, rfl⟩ := outcome
      exact .spoiled rfl
    | ok done => exact (show after = _ from outcome) ▸ .wrote
  | setLen node length =>
    cases response with
    | error error => exact (show after = disk from outcome) ▸ .failed
    | ok done => exact (show after = _ from outcome) ▸ .spoiled rfl
  | read node =>
    rcases response with error | bytes
    · exact .same rfl outcome
    obtain ⟨rfl, rfl⟩ := outcome
    simp only [observe]
    split
    · exact .learned rfl ‹_›
    · exact .nothing rfl
  | unlink path =>
    rcases response with error | done
    · exact .same rfl outcome
    obtain ⟨present, rfl⟩ := outcome
    simp only [observe]
    split
    · exact .unlinked present ‹_›
    · exact .removed ‹_›
  | rename source target =>
    rcases response with error | moved
    · exact .same rfl outcome
    cases moved with
    | false => exact outcome.2 ▸ .refused
    | true =>
      obtain ⟨entry, found, _, rfl⟩ := outcome
      exact .renamed found
  | publish path data =>
    cases response with
    | error error => exact .same rfl outcome
    | ok made =>
      cases made with
      | false => exact .same rfl outcome.2
      | true => exact outcome.2 ▸ .published outcome.1
  | link node path allowCopy =>
    rcases response with error | linked
    · exact .same rfl outcome
    obtain ⟨how, made⟩ := linked
    cases made with
    | false => exact .same rfl outcome.2
    | true => exact .linked outcome.2
  | sync => cases response <;> exact .same rfl outcome
  | _ => cases response <;> first | exact .same rfl outcome | exact .same rfl outcome.2

section

variable {disk after : Disk} {action : DiskAction} {response : DiskResponse action}
  (outcome : disk.Outcome after action response)

include outcome

theorem Disk.Outcome.files {path : Path} (unnamed : path ∉ action.names) :
    after.files path = disk.files path := by
  have traced := outcome.traced {}
  generalize observe {} (.disk action) response = later at traced
  cases traced with
  | created free | published free =>
    exact Disk.files_add_of_ne (List.ne_of_not_mem_cons unnamed) _
  | unlinked _ _ | removed _ =>
    exact Disk.files_setFile_of_ne (List.ne_of_not_mem_cons unnamed) _
  | renamed found =>
    obtain ⟨apart, away⟩ := List.ne_and_not_mem_of_not_mem_cons unnamed
    rw [Disk.files_setFile_of_ne (List.ne_of_not_mem_cons away), Disk.files_setFile_of_ne apart]
  | linked made =>
    rcases made with rfl | rfl
    · exact Disk.files_setFile_of_ne (List.ne_of_not_mem_cons unnamed) _
    · exact Disk.files_add_of_ne (List.ne_of_not_mem_cons unnamed) _
  | _ => rfl

theorem Disk.Outcome.content {node : Nat} (within : node < disk.nodes.length)
    (unwritten : action.written ≠ some node) : after.content node = disk.content node := by
  have traced := outcome.traced {}
  generalize observe {} (.disk action) response = later at traced
  cases traced with
  | created free | published free => exact Disk.content_add within _ _
  | wrote => exact Disk.content_setContent_of_ne (fun same => unwritten (by rw [same]; rfl)) _
  | spoiled written =>
    exact Disk.content_setContent_of_ne (fun same => unwritten (by rw [same, written])) _
  | linked made =>
    rcases made with rfl | rfl
    · rfl
    · exact Disk.content_add within _ _
  | _ => rfl

theorem Disk.Outcome.length_le : disk.nodes.length ≤ after.nodes.length := by
  have traced := outcome.traced {}
  generalize observe {} (.disk action) response = later at traced
  cases traced with
  | linked made => rcases made with rfl | rfl <;> simp [Disk.setFile, Disk.add]
  | _ => simp [Disk.setFile, Disk.add, Disk.setContent]

end

/-- No marker is put where a call expects the staging file of a session. -/
def Unstaged (notes : Nat → Notes) (path : Path) : Prop :=
  ∀ index key mutex, (notes index).lock = some (key, mutex) → key.path ≠ path

/-- A staging file is given or taken away by a call that holds the session only,
and the session was live. -/
theorem staging_file {action : DiskAction} {response : DiskResponse action} {after : Disk}
    {known : Notes} (allowed : (discipline env faultless).allowed known (.disk action))
    (outcome : world.disk.Outcome after action response)
    (pending : ∀ mutex, known.Holds key mutex → known.pending = some true →
      world.sessions.pending key = true)
    (unstaged : ∀ path data, action = .publish path data → key.path ≠ path) :
    after.files key.path = world.disk.files key.path ∨
      world.Live key ∧ ∃ mutex, known.Holds key mutex := by
  by_cases named : key.path ∈ action.names
  · have traced := outcome.traced known
    generalize observe known (.disk action) response = later at traced
    cases traced with
    | created free =>
      obtain ⟨held, locked, holds, noted, rfl⟩ := allowed
      cases SessionKey.path_inj.mp (List.mem_singleton.mp named)
      exact .inr ⟨.inl (pending locked holds noted), locked, holds⟩
    | unlinked present here =>
      cases List.mem_singleton.mp named
      obtain ⟨held, locked, holds, same⟩ := Notes.exists_holds_of_isAt here
      cases SessionKey.path_inj.mp same
      exact .inr ⟨.inr present, locked, holds⟩
    | removed elsewhere =>
      rcases allowed with ⟨blob, rfl⟩ | ⟨held, locked, holds, rfl, _⟩
      · exact absurd (List.mem_singleton.mp named) (SessionKey.path_ne_blob key blob)
      · exact absurd ((holds.isAt_iff _).mpr rfl) elsewhere
    | renamed found =>
      obtain ⟨held, locked, holds, rfl, _, _, _, blob, rfl, _⟩ := allowed
      simp only [DiskAction.names, List.mem_cons, List.not_mem_nil, or_false,
        SessionKey.path_ne_blob] at named
      cases SessionKey.path_inj.mp named
      exact .inr ⟨.inr (by rw [found]; rfl), locked, holds⟩
    | published free =>
      exact absurd (List.mem_singleton.mp named) (unstaged _ _ rfl)
    | linked made =>
      obtain ⟨source, target, _, rfl, _⟩ := allowed
      exact absurd (List.mem_singleton.mp named) (SessionKey.path_ne_blob key target)
    | _ => exact .inl rfl
  · exact .inl (outcome.files named)

theorem observe_disk (known : Notes) (action : DiskAction) (response : DiskResponse action) :
    ∃ node content owes source, observe known (.disk action) response =
      { known with node := node, content := content, owes := owes, source := source } := by
  cases action with
  | openFile _ | fstat _ | read _ | unlink _ =>
    cases response with
    | error error => exact ⟨_, _, _, _, rfl⟩
    | ok value =>
      simp only [observe]
      split <;> exact ⟨_, _, _, _, rfl⟩
  | _ => cases response <;> exact ⟨_, _, _, _, rfl⟩

theorem opened_after {action : DiskAction} {response : DiskResponse action} {after : Disk}
    {known : Notes} (allowed : (discipline env faultless).allowed known (.disk action))
    (outcome : world.disk.Outcome after action response) {node : Nat}
    (holds : known.Holds key mutex)
    (before : known.node = some node → world.disk.files key.path = some (.regular node))
    (opened : (observe known (.disk action) response).node = some node) :
    after.files key.path = some (.regular node) := by
  have traced := outcome.traced known
  generalize observe known (.disk action) response = later at traced opened
  cases traced with
  | created free =>
    obtain ⟨held, locked, also, _, rfl⟩ := allowed
    cases holds.1.symm.trans also.1
    cases opened
    exact Disk.files_add_self _ _
  | opened named here =>
    cases opened
    rw [(holds.isAt_iff _).mp here]
    exact named
  | removed elsewhere =>
    have apart : key.path ≠ _ := fun same => elsewhere ((holds.isAt_iff _).mpr same)
    exact (Disk.files_setFile_of_ne apart _).trans (before opened)
  | unlinked _ _ | renamed _ | refused => cases opened
  | published free =>
    -- the name was free, and the staging file is there
    refine (Disk.files_add_of_ne ?_ _).trans (before opened)
    rintro rfl
    exact nomatch free.symm.trans (before opened)
  | linked made =>
    obtain ⟨_, target, _, rfl, _⟩ := allowed
    exact (outcome.files (by simp [DiskAction.names])).trans (before opened)
  | _ => exact before opened

theorem Guarded.step_disk {action : DiskAction} {response : DiskResponse action}
    (guarded : Guarded world notes)
    (allowed : (discipline env faultless).allowed (notes index) (.disk action))
    (unstaged : ∀ path data, action = .publish path data → Unstaged notes path)
    (performed : perform reader world index (.disk action) choice = some (next, response)) :
    Guarded next (update notes index (observe (notes index) (.disk action) response)) := by
  obtain ⟨after, rfl, outcome⟩ := perform_disk performed
  have refers : ∀ other key mutex, (notes other).lock = some (key, mutex) →
      mutex < world.uploads.mutexes.length ∧ key ∈ world.uploads.named ∧
        (world.uploads.entries key = some mutex ∨
          World.Over { world.tick choice.clock with disk := after } key) := by
    intro other key mutex found
    obtain ⟨within, named, entered⟩ := (guarded.sees other).refers key mutex found
    refine ⟨within, named, entered.imp_right fun past => ⟨past.1, ?_⟩⟩
    rcases staging_file allowed outcome
      (fun locked holds => (guarded.sees index).pending key locked true holds)
      (fun path data equal => unstaged path data equal other key mutex found) with same | ⟨live, _⟩
    · exact same.trans past.2
    · exact absurd past live.not_over
  obtain ⟨_, _, _, _, observed⟩ := observe_disk (notes index) action response
  have sees := guarded.sees index
  have opened : ∀ key mutex node, (notes index).Holds key mutex → _ := fun key mutex node holds =>
    opened_after allowed outcome holds (sees.opened key mutex node holds)
  rw [observed] at opened ⊢
  refine .of_update guarded.bounded { sees with refers := refers index, opened := opened }
    fun other different => ⟨refers other, (guarded.sees other).holds, (guarded.sees other).pending,
      fun key mutex node holds opened => ?_⟩
  · have found := (guarded.sees other).opened key mutex node holds opened
    rcases staging_file allowed outcome
      (fun locked holds => (guarded.sees index).pending key locked true holds)
      (fun path data equal => unstaged path data equal other key mutex holds.1) with
      same | ⟨live, _, also⟩
    · exact same.trans found
    · exact absurd (guarded.exclusive live holds also) different

/-! ## All actions -/

/-- What is asked of an action for the locks to exclude. -/
def Parted (world : World) (notes : Nat → Notes) : Action → Prop
  | .uploads (.remove key) => Unreferred world notes key
  | .disk (.publish path _) => Unstaged notes path
  | _ => True

/-- Step lemma. -/
theorem Guarded.keeps {action : Action} {response : Response action} (guarded : Guarded world notes)
    (allowed : (discipline env faultless).allowed (notes index) action)
    (parted : Parted world notes action)
    (performed : perform reader world index action choice = some (next, response)) :
    Guarded next (update notes index (observe (notes index) action response)) := by
  cases action with
  | disk action =>
    exact guarded.step_disk allowed (fun path data equal => by subst equal; exact parted) performed
  | uploads action =>
    exact guarded.step_uploads allowed (fun key equal => by subst equal; exact parted) performed
  | sessions action => exact guarded.step_sessions allowed performed
  | _ =>
    obtain ⟨rest, rfl⟩ := perform_elsewhere (by trivial) performed
    rw [observe_elsewhere (by trivial), Function.update_eq_self]
    exact guarded.elsewhere rest

theorem expected_of_known {known : Notes} {action : Action} {response : Response action}
    (pending : ∀ key mutex answer, known.Holds key mutex → known.pending = some answer →
      world.sessions.pending key = answer)
    (opened : ∀ key mutex node, known.Holds key mutex → known.node = some node →
      world.disk.files key.path = some (.regular node))
    (performed : perform reader world index action choice = some (next, response)) :
    (discipline env false).expected known action response := by
  cases action with
  | sessions action =>
    cases action with
    | takePending key =>
      obtain ⟨sessions, changed, rfl⟩ := perform_sessions performed
      cases changed
      rintro ⟨mutex, holds⟩ answer noted
      exact pending key mutex answer holds noted
    | _ => trivial
  | disk action =>
    obtain ⟨after, rfl, outcome⟩ := perform_disk performed
    cases action with
    | openFile path =>
      rcases response with error | node
      · trivial
      intro here before noted
      obtain ⟨key, mutex, holds, rfl⟩ := Notes.exists_holds_of_isAt here
      cases outcome.1.symm.trans (opened key mutex before holds noted)
      rfl
    | rename source target =>
      rcases response with error | moved
      · trivial
      · cases moved <;> trivial
    | _ => cases response <;> trivial
  | _ => trivial

theorem Guarded.expects {action : Action} {response : Response action}
    (guarded : Guarded world notes)
    (performed : perform reader world index action choice = some (next, response)) :
    (discipline env false).expected (notes index) action response :=
  expected_of_known (guarded.sees index).pending (guarded.sees index).opened performed

theorem Guarded.abandon (guarded : Guarded world notes) (index : Nat) :
    Guarded (world.abandon index) (update notes index {}) := by
  have length : (world.abandon index).uploads.mutexes.length = world.uploads.mutexes.length :=
    List.length_map _
  refine .of_update ?_ (sees_idle _ index) fun other different => ?_
  · rw [length]
    exact guarded.bounded
  have sees := guarded.sees other
  refine ⟨?_, fun key mutex holds => ?_, sees.pending, sees.opened⟩
  · rw [length]
    exact sees.refers
  have held := sees.holds key mutex holds
  refine LockMap.holder_abandon.trans ?_
  rw [held, if_neg fun same => different (Option.some.inj same)]

end

/-! ## Runs -/

abbrev Store := System World Request Action Response Reply Notes

/-- Any number of calls with notes on the session they work on. -/
def sessionStore (env : Env) : Machine World Request Action Response Reply Notes Choice :=
  store env observe {} fun _ => {}

/-- No call refers to a session other than by what satisfies the condition. -/
def Store.Refers (system : Store) (property : SessionKey → Prop) : Prop :=
  ∀ thread ∈ system.threads, ∀ lock ∈ thread.notes.lock, property lock.1

instance (system : Store) (property : SessionKey → Prop) [DecidablePred property] :
    Decidable (Store.Refers system property) :=
  inferInstanceAs (Decidable (∀ thread ∈ system.threads, ∀ lock ∈ thread.notes.lock,
    property lock.1))

/-- An entry of the lock map is removed only when its session is over or no call
refers to its mutex, no marker is put in the place of a staging file some call
works on, and a call is dropped only when it has no job on the blocking pool. -/
def entriesKept : Conditions World Request Action Response Reply Notes where
  calls _ := True
  actions system _
    | .uploads (.remove key), _ => system.world.Over key ∨ Store.Refers system (· ≠ key)
    | .disk (.publish path _), _ => Store.Refers system (·.path ≠ path)
    | _, _ => True
  drops action := action.waits = true

theorem Store.Refers.notes {property : SessionKey → Prop} (refers : Store.Refers system property)
    (env : Env) (index : Nat) {mutex : Nat}
    (found : ((sessionStore env).notesAt system index).lock = some (key, mutex)) :
    property key := by
  refine @Machine.forall_notesAt _ _ _ _ _ _ _ (sessionStore env) system
    (fun notes => ∀ lock ∈ notes.lock, property lock.1) ?_ refers index _ found
  nofun

theorem parted_of_entriesKept {env : Env} {index : Nat} {action : Action}
    {response : Response action} (kept : entriesKept.actions system index action response) :
    Parted system.world ((sessionStore env).notesAt system) action := by
  cases action with
  | uploads action =>
    cases action with
    | remove key =>
      exact kept.imp_right fun refers index mutex found => refers.notes env index found rfl
    | _ => trivial
  | disk action =>
    cases action with
    | publish path data =>
      have apart : Store.Refers system (·.path ≠ path) := kept
      exact fun index key mutex found => apart.notes env index found
    | _ => trivial
  | _ => trivial

theorem guarded_preserved (env : Env) :
    (sessionStore env).Preserves entriesKept (fun _ => discipline env false)
      (fun _ _ reached => Notes.SameSession {} reached) Guarded where
  codes request _ := obeys_code request
  expects _ _ _ _ _ _ _ performed guarded _ := guarded.expects performed
  keeps _ _ _ _ _ _ kept allowed performed guarded :=
    guarded.keeps allowed.choose_spec (parted_of_entriesKept kept) performed
  drops _ _ _ _ waits _ := by
    left
    exact congrArg not waits
  abandons _ _ _ _ index guarded := guarded.abandon index

def Store.Works (system : Store) (index : Nat) (key : SessionKey) : Prop :=
  ∃ thread ∈ system.threads[index]?, ∃ mutex, thread.notes.Holds key mutex

theorem one_call_per_session (env : Env) {start final : Store}
    {events : List (Event Request Choice)}
    (run : Reaches (sessionStore env).step ((sessionStore env).Permitted entriesKept)
      start events final)
    (unused : start.threads = []) (fresh : start.world.uploads = {}) {key : SessionKey}
    (live : final.world.Live key) : {index | Store.Works final index key}.Subsingleton := by
  have initially : Guarded start.world fun _ => (sessionStore env).idle := by
    refine ⟨fun key mutex found => ?_, fun index => sees_idle _ index⟩
    rw [fresh] at found
    cases found
  have guarded := ((guarded_preserved env).run run unused initially).holds
  rintro first ⟨thread, found, mutex, holds⟩ second ⟨other, located, locked, held⟩
  rw [← @Machine.notesAt_of_found _ _ _ _ _ _ _ (sessionStore env) _ _ _ found] at holds
  rw [← @Machine.notesAt_of_found _ _ _ _ _ _ _ (sessionStore env) _ _ _ located] at held
  exact guarded.exclusive live holds held

instance (notes : Notes) (key : SessionKey) : Decidable (∃ mutex, notes.Holds key mutex) :=
  decidable_of_iff (notes.held = true ∧ (notes.lock.map Prod.fst) = some key) (by
    constructor
    · rintro ⟨held, found⟩
      obtain ⟨⟨_, mutex⟩, lock, rfl⟩ := Option.map_eq_some_iff.mp found
      exact ⟨mutex, lock, held⟩
    · rintro ⟨mutex, lock, held⟩
      exact ⟨held, by rw [lock]; rfl⟩)

instance (system : Store) (index : Nat) (key : SessionKey) :
    Decidable (Store.Works system index key) :=
  inferInstanceAs (Decidable (∃ thread ∈ system.threads[index]?, ∃ mutex,
    thread.notes.Holds key mutex))

/-! ## A call at work, and a sweep that lets a second one in -/

instance (system : Store) (index : Nat) (action : Action) (response : Response action) :
    Decidable (entriesKept.actions system index action response) := by
  unfold entriesKept
  dsimp only
  split <;> infer_instance

instance (request : Request) : Decidable (entriesKept.calls request) := isTrue trivial

instance (action : Action) : Decidable (entriesKept.drops action) :=
  inferInstanceAs (Decidable (action.waits = true))

def app : RepositoryName := ⟨"app", app_valid⟩

def emptyBodies : Env where
  reader := JsonText.reader
  crc32c := crc32c
  digestOf _ _ := .ofNothing

def zeroSession : SessionKey := ⟨app, hexEncode (List.replicate 16 0)⟩

def appendNothing : Request := .appendUpload zeroSession [] none 10

def runs (thread steps : Nat) : List (Event Request Choice) := List.replicate steps (.run thread {})

def beginZero : List (Event Request Choice) :=
  .start (.beginUpload app) :: runs 0 2 ++ [.run 0 { random := List.replicate 16 0 }]

/-- One call has created the staging file while two others wait for the session. -/
def oneAtWorkEvents : List (Event Request Choice) :=
  beginZero ++ .start appendNothing :: runs 1 4 ++
    .start appendNothing :: runs 2 1 ++ .start (.abortUpload zeroSession) :: runs 3 1

theorem creator_alone_at_work :
    ∃ final : Store, Reaches (sessionStore emptyBodies).step
        ((sessionStore emptyBodies).Permitted entriesKept) { world := {} } oneAtWorkEvents final ∧
      Store.Works final 1 zeroSession ∧
      {index | Store.Works final index zeroSession}.Subsingleton := by
  obtain ⟨final, run, live, works⟩ := @exists_run_of_execute _ _ (sessionStore emptyBodies).step
    ((sessionStore emptyBodies).Permitted entriesKept) _ { world := {} } oneAtWorkEvents
    (fun final => final.world.Live zeroSession ∧ Store.Works final 1 zeroSession) _
    (by decide +kernel)
  exact ⟨final, run, works, one_call_per_session emptyBodies run rfl rfl live⟩

/-- A sweep lists a staging file that is written to afterwards.  When it gets the
lock, a call already waits for it; the sweep finds the file fresh and removes the
entry of the lock map, so that the next call gets another mutex. -/
def secondMutexEvents : List (Event Request Choice) :=
  beginZero ++ .start appendNothing :: runs 1 12 ++
    .start .sweepStaleUploads :: .run 2 { sessionKeys := [zeroSession] } ::
    .start appendNothing :: runs 3 12 ++ runs 2 4 ++
    .start appendNothing :: runs 4 1 ++ runs 2 2 ++ .run 2 { answer := false } :: runs 2 2 ++
    runs 4 1 ++ .start appendNothing :: runs 5 2

theorem sweep_lets_second_call_in :
    ∃ final : Store, Reaches (sessionStore emptyBodies).step
        ((sessionStore emptyBodies).Permitted .any) { world := {} } secondMutexEvents final ∧
      final.world.Live zeroSession ∧ Store.Works final 4 zeroSession ∧
      Store.Works final 5 zeroSession :=
  exists_run_of_execute (by decide +kernel)

end Roci.Filesystem
