import Mathlib.Tactic.MkIffOfInductiveProp
import Roci.Filesystem.Alone

/-!
# Calls on one session amid other calls

When nobody else works on a session, what other calls do between two actions of a
call on it leaves the session alone: its place among the pending sessions, its
staging file and its lock.  `amid` is one action of a call in such company; all
else may have changed before it.
-/

namespace Roci.Filesystem

open Roci.Library

/-- What others do when they leave a session alone. -/
@[mk_iff]
structure LeftAlone (key : SessionKey) (before after : World) : Prop where
  pending : after.sessions.pending key = before.sessions.pending key
  file : after.disk.files key.path = before.disk.files key.path
  bytes : after.disk.bytesAt key.path = before.disk.bytesAt key.path
  nodes : before.disk.nodes.length ≤ after.disk.nodes.length
  entry : after.uploads.entries key = before.uploads.entries key
  mutexes : before.uploads.mutexes.length ≤ after.uploads.mutexes.length
  mutex : ∀ mutex ∈ before.uploads.entries key,
    after.uploads.holder mutex = before.uploads.holder mutex ∧
      after.uploads.value mutex = before.uploads.value mutex

instance (key : SessionKey) (before after : World) : Decidable (LeftAlone key before after) :=
  decidable_of_iff' _ (leftAlone_iff key before after)

theorem LeftAlone.refl (key : SessionKey) (world : World) : LeftAlone key world world :=
  ⟨rfl, rfl, rfl, Nat.le_refl _, rfl, Nat.le_refl _, fun _ _ => ⟨rfl, rfl⟩⟩

/-- What an action depends on, and what others did before it. -/
structure Scene where
  choice : Choice := {}
  others : World → World := id

def amid (env : Env) (key : SessionKey) (world : World) (action : Action) (scene : Scene) :
    Option (World × Response action) :=
  if LeftAlone key world (scene.others world) then
    alone env (scene.others world) action scene.choice
  else none

structure Filed (key : SessionKey) (node : Nat) (bytes : Bytes) (world : World) : Prop where
  file : world.disk.files key.path = some (.regular node)
  within : node < world.disk.nodes.length
  content : world.disk.content node = bytes

structure Holding (key : SessionKey) (node : Nat) (bytes : Bytes) (world : World) : Prop where
  settled : world.sessions.pending key = false
  filed : Filed key node bytes world

/-- The entry of the session in the lock map, and what its mutex protects. -/
structure Guarding (key : SessionKey) (mutex : Nat) (value : Option StagedHash) (world : World) :
    Prop where
  entry : world.uploads.entries key = some mutex
  within : mutex < world.uploads.mutexes.length
  value : world.uploads.value mutex = value

def Spares (key : SessionKey) (node : Nat) : Action → Prop
  | .disk action => key.path ∉ action.names ∧ action.written ≠ some node
  | .sessions (.insertPending _) => False
  | _ => True

/-- Actions that leave the entries and values of the lock map as they are. -/
def Unlocking : Action → Prop
  | .uploads (.lock _) => True
  | .uploads (.unlock _) => True
  | .uploads (.forget _) => True
  | .uploads _ => False
  | _ => True

section

variable {env : Env} {world next : World} {choice : Choice} {scene : Scene} {key : SessionKey}
  {node mutex : Nat} {bytes : Bytes} {value : Option StagedHash}

theorem amid_eq_some {action : Action} {response : Response action}
    (performed : amid env key world action scene = some (next, response)) :
    ∃ between, LeftAlone key world between ∧
      alone env between action scene.choice = some (next, response) := by
  rw [amid] at performed
  split at performed
  · exact ⟨_, by assumption, performed⟩
  · cases performed

theorem amid_alone {action : Action} {response : Response action}
    (performed : alone env world action choice = some (next, response)) :
    amid env key world action { choice := choice } = some (next, response) :=
  (if_pos (LeftAlone.refl key world)).trans performed

section

variable (holding : Holding key node bytes world)

include holding

theorem Holding.file : world.disk.files key.path = some (.regular node) := holding.filed.file

theorem Holding.within : node < world.disk.nodes.length := holding.filed.within

theorem Holding.content : world.disk.content node = bytes := holding.filed.content

theorem Holding.bytesAt : world.disk.bytesAt key.path = some bytes :=
  Disk.bytesAt_eq_some.mpr ⟨node, holding.file, holding.content⟩

end

theorem Filed.beside (filed : Filed key node bytes world) (left : LeftAlone key world next) :
    Filed key node bytes next := by
  have file := left.file.trans filed.file
  refine ⟨file, filed.within.trans_le left.nodes, ?_⟩
  have same := left.bytes.trans (Disk.bytesAt_eq_some.mpr ⟨node, filed.file, filed.content⟩)
  obtain ⟨found, named, content⟩ := Disk.bytesAt_eq_some.mp same
  cases file.symm.trans named
  exact content

theorem Holding.beside (holding : Holding key node bytes world)
    (left : LeftAlone key world next) : Holding key node bytes next :=
  ⟨left.pending.trans holding.settled, holding.filed.beside left⟩

theorem Guarding.beside (guarding : Guarding key mutex value world)
    (left : LeftAlone key world next) : Guarding key mutex value next :=
  ⟨left.entry.trans guarding.entry, guarding.within.trans_le left.mutexes,
    (left.mutex mutex guarding.entry).2.trans guarding.value⟩

section

variable {action : Action} {response : Response action} (spares : Spares key node action)
  (performed : amid env key world action scene = some (next, response))

include spares performed

theorem Filed.step (filed : Filed key node bytes world) : Filed key node bytes next := by
  obtain ⟨between, left, performed⟩ := amid_eq_some performed
  replace filed := filed.beside left
  cases action with
  | disk action =>
    obtain ⟨after, rfl, outcome⟩ := perform_disk performed
    exact ⟨(outcome.files spares.1).trans filed.file, filed.within.trans_le outcome.length_le,
      (outcome.content filed.within spares.2).trans filed.content⟩
  | uploads action =>
    obtain ⟨uploads, changed, rfl⟩ := perform_uploads performed
    exact { filed with }
  | sessions action =>
    obtain ⟨sessions, changed, rfl⟩ := perform_sessions performed
    exact { filed with }
  | _ =>
    obtain ⟨_, rfl⟩ := perform_elsewhere (by trivial) performed
    exact { filed with }

theorem settled_step (settled : world.sessions.pending key = false) :
    next.sessions.pending key = false := by
  obtain ⟨between, left, performed⟩ := amid_eq_some performed
  replace settled := left.pending.trans settled
  cases action with
  | disk action =>
    obtain ⟨after, rfl, outcome⟩ := perform_disk performed
    exact settled
  | uploads action =>
    obtain ⟨uploads, changed, rfl⟩ := perform_uploads performed
    exact settled
  | sessions action =>
    obtain ⟨sessions, changed, rfl⟩ := perform_sessions performed
    refine settled_after changed (.inr ?_) settled
    rintro repo rfl
    exact spares
  | _ =>
    obtain ⟨_, rfl⟩ := perform_elsewhere (by trivial) performed
    exact settled

theorem Holding.step (holding : Holding key node bytes world) : Holding key node bytes next :=
  ⟨settled_step spares performed holding.settled, holding.filed.step spares performed⟩

end

/-- A look at the disk. -/
theorem Holding.look {action : DiskAction} {response : DiskResponse action}
    (holding : Holding key node bytes world) (unnamed : action.names = [])
    (unwritten : action.written = none)
    (performed : amid env key world (.disk action) scene = some (next, response)) :
    Holding key node bytes next ∧ ∃ between, Holding key node bytes between ∧
      alone env between (.disk action) scene.choice = some (next, response) ∧
        ∃ after, between.disk.Outcome after action response := by
  have spares : Spares key node (.disk action) := ⟨by simp [unnamed], by simp [unwritten]⟩
  refine ⟨holding.step spares performed, ?_⟩
  obtain ⟨between, left, performed⟩ := amid_eq_some performed
  obtain ⟨after, _, outcome⟩ := perform_disk performed
  exact ⟨between, holding.beside left, performed, after, outcome⟩

theorem Guarding.step {action : Action} {response : Response action}
    (guarding : Guarding key mutex value world) (unlocking : Unlocking action)
    (performed : amid env key world action scene = some (next, response)) :
    Guarding key mutex value next := by
  obtain ⟨between, left, performed⟩ := amid_eq_some performed
  replace guarding := guarding.beside left
  have kept : ∀ (other : Nat) (change : Mutex (Option StagedHash) → Mutex (Option StagedHash)),
      (∀ found, (change found).value = found.value) → ∀ clock,
      Guarding key mutex value { between.tick clock with
        uploads := between.uploads.update other change } := by
    intro other change unchanged clock
    refine ⟨guarding.entry, ?_, (LockMap.value_update_same change unchanged).trans guarding.value⟩
    simpa using guarding.within
  cases action with
  | uploads action =>
    obtain ⟨uploads, changed, rfl⟩ := perform_uploads performed
    cases action with
    | lock other =>
      simp only [LockMap.perform] at changed
      split at changed
      · cases changed
        exact kept other _ (fun _ => by rfl) scene.choice.clock
      · cases changed
    | unlock other | forget other =>
      cases changed
      exact kept other _ (fun _ => by rfl) scene.choice.clock
    | _ => exact unlocking.elim
  | disk action =>
    obtain ⟨after, rfl, _⟩ := perform_disk performed
    exact { guarding with }
  | sessions action =>
    obtain ⟨sessions, _, rfl⟩ := perform_sessions performed
    exact { guarding with }
  | _ =>
    obtain ⟨_, rfl⟩ := perform_elsewhere (by trivial) performed
    exact { guarding with }

end

end Roci.Filesystem
