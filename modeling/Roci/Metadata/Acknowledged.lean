import Roci.Metadata.Durability

/-!
# Acknowledged operations across crashes and failed writes

Neither opening the engine nor a failed append removes a torn record from the
end of the log, and the next append lands behind it.  As long as no successful
append does, every acknowledged operation is replayed by every later open.
-/

namespace Roci.Metadata

open Roci.Library

namespace Store

variable {config : Config} {store : Store}

theorem Current.step (current : store.Current) {event : Event} {next : Store}
    (notMaintain : ∀ order fault, event ≠ .maintain order fault)
    (stepped : store.step config event = some next) : next.Current := by
  cases event with
  | append op durable outcome =>
    simp only [Store.step] at stepped
    cases closed : store.log with
    | some inode =>
      cases outcome <;> simp only [append, closed, reduceCtorEq, Option.some.injEq] at stepped
      · rw [← stepped]
        exact current
      rw [← stepped]
      exact current
    | none =>
      have named : store.openLog.1.logPath = some store.openLog.2 ∧ store.openLog.1.log = none := by
        unfold openLog
        split <;> simp_all
      cases outcome <;> simp only [append, closed, Option.some.injEq] at stepped
      · rw [← stepped]
        exact current
      · rw [← stepped]
        intro inode opened
        change store.openLog.1.log = some inode at opened
        rw [named.2] at opened
        cases opened
      · rw [← stepped]
        intro inode opened
        change store.openLog.1.log = some inode at opened
        rw [named.2] at opened
        cases opened
      rw [← stepped]
      intro inode opened
      cases opened
      exact named.1
  | load seq =>
    simp only [Store.step, Store.load] at stepped
    split_ifs at stepped <;> cases stepped <;> exact current
  | sync succeeds =>
    simp only [Store.step, Store.sync] at stepped
    split at stepped
    · split at stepped <;> cases stepped <;> exact current
    · cases stepped
  | maintain order fault => exact absurd rfl (notMaintain order fault)
  | reopen keep moves =>
    cases stepped
    intro inode opened
    cases opened

theorem ram_append_failed {op : MetaOp} {durable : Bool} {outcome : WriteOutcome}
    {next : Store} (failed : outcome ≠ .done)
    (stepped : store.append config op durable outcome = some next) :
    next.ram = store.ram := by
  have opened : store.openLog.1.ram = store.ram := by
    unfold openLog
    split <;> rfl
  cases closed : store.log <;> cases outcome <;>
    simp only [append, closed, reduceCtorEq, Option.some.injEq] at stepped
  · rw [← stepped]
    rfl
  · rw [← stepped]
    exact opened
  · rw [← stepped]
    exact opened
  · exact absurd rfl failed
  · rw [← stepped]
    rfl
  · exact absurd rfl failed

end Store

/-- Runs without compaction whose successful appends go to an intact log. -/
def AppendsIntact (config : Config) (store : Store) : Event → Prop
  | .append op _ .done => Storable op ∧ Intact config.env config.key store.logBytes
  | .maintain _ _ => False
  | _ => True

instance (config : Config) (store : Store) (event : Event) :
    Decidable (AppendsIntact config store event) := by
  unfold AppendsIntact
  split <;> infer_instance

/-- Step lemma for such runs. -/
theorem Store.Sound.step_intact {config : Config} {store next : Store} {event : Event}
    (permitted : AppendsIntact config store event)
    (stepped : store.step config event = some next)
    (kept : store.Sound config .contains ∧ store.Current) :
    next.Sound config .contains ∧ next.Current := by
  obtain ⟨sound, current⟩ := kept
  have notMaintain : ∀ order fault, event ≠ .maintain order fault := by
    rintro order fault rfl
    exact permitted
  refine ⟨?_, current.step notMaintain stepped⟩
  cases event with
  | append op durable outcome =>
    refine sound.append ?_ stepped
    cases outcome with
    | done => exact ⟨permitted.1, permitted.2, current⟩
    | writeFails written =>
      exact fun _ => Store.harmless_of_extensible Reading.contains_extensible written
    | _ => trivial
  | load seq => exact sound.load stepped
  | sync succeeds => exact sound.sync stepped
  | maintain order fault => exact permitted.elim
  | reopen keep moves =>
    cases stepped
    exact sound.reopen keep moves

/-- Run lemma for such runs. -/
theorem Store.sound_of_appendsIntact {config : Config} {events : List Event} {store : Store}
    (run : Reaches (Store.step config) (AppendsIntact config) {} events store) :
    store.Sound config .contains := by
  have initially : ({} : Store).Sound config .contains ∧ ({} : Store).Current :=
    ⟨Store.Sound.fresh config .contains, fun _ opened => by cases opened⟩
  exact (run.invariant (fun _ _ _ permitted stepped => Store.Sound.step_intact permitted stepped)
    initially).1

/-- Every operation `apply` acknowledged is replayed, in append order, by an
open after a crash at any moment. -/
theorem acked_ops_replayed_after_crash (config : Config) {events : List Event} {store : Store}
    (run : Reaches (Store.step config) (AppendsIntact config) {} events store) (keep : Nat) :
    store.acked.Sublist (openedOps config.env config.key (store.afterCrash keep)) := by
  have sound := Store.sound_of_appendsIntact run
  obtain ⟨history, replayed, contained, _⟩ :=
    (sound.afterCrash keep).weaken (store.acked_sublist_durable store.synced)
  exact contained.trans replayed

/-- Plain framing, no compaction. -/
def plainConfig : Config where
  env := .concrete
  key := none
  compactThreshold := 0

def pushOp (digest tag : String) : MetaOp :=
  .putManifest "app" digest "application/vnd.oci.image.manifest.v1+json" (some tag) [] none

/-- A push acknowledged before the crash is found after it. -/
theorem acked_push_replayed_after_crash :
    ∃ store, Reaches (Store.step plainConfig) (AppendsIntact plainConfig) {}
        [.append (pushOp "sha256:0a" "v1") true .done, .load 1, .sync true] store ∧
      store.acked = [pushOp "sha256:0a" "v1"] ∧
      store.acked.Sublist (openedOps .concrete none (store.afterCrash 0)) := by
  obtain ⟨store, run, acked⟩ := @exists_run_of_execute _ _ (Store.step plainConfig)
    (AppendsIntact plainConfig) _ {}
    [.append (pushOp "sha256:0a" "v1") true .done, .load 1, .sync true]
    (·.acked = [pushOp "sha256:0a" "v1"]) _ (by decide +kernel)
  exact ⟨store, run, acked, acked_ops_replayed_after_crash plainConfig run 0⟩

/-- The process dies with one byte of the first header on disk.  The next one
opens the log, pushes behind that byte and acknowledges the push. -/
def tornHeaderEvents : List Event :=
  [.append (pushOp "sha256:0a" "v1") true .done, .reopen 1 true,
    .append (pushOp "sha256:0b" "v2") true .done, .load 1, .sync true]

/-- The push acknowledged behind a torn record is lost by the next open. -/
theorem acked_push_lost_behind_torn_header :
    ∃ store, Reaches (Store.step plainConfig) (fun _ _ => True) {} tornHeaderEvents store ∧
      pushOp "sha256:0b" "v2" ∈ store.acked ∧
      openedOps .concrete none (store.afterCrash 0) = [] :=
  exists_run_of_execute (by decide +kernel)

/-- A failed append changes no answer, and every operation acknowledged by then
is replayed by a clean reopen. -/
theorem failed_append_isolated (config : Config) {events : List Event} {store : Store}
    (run : Reaches (Store.step config) (AppendsIntact config) {} events store) :
    (∀ op durable outcome next, outcome ≠ .done →
      store.step config (.append op durable outcome) = some next →
        SameAnswers next.ram store.ram) ∧
    store.acked.Sublist (openedOps config.env config.key store.logBytes) := by
  constructor
  · intro op durable outcome next failed stepped
    rw [Store.ram_append_failed failed stepped]
    exact (State.Equiv.refl _).sameAnswers
  · have sound := Store.sound_of_appendsIntact run
    obtain ⟨history, replayed, contained, _⟩ := sound.whole.weaken
      ((store.acked_sublist_durable store.synced).trans
        (store.select_durable_sublist_live store.synced))
    exact contained.trans replayed

/-- A push that fails after its record was cut short, with nothing behind it. -/
theorem failed_push_isolated :
    ∃ store, Reaches (Store.step plainConfig) (AppendsIntact plainConfig) {}
        [.append (pushOp "sha256:0a" "v1") true .done, .load 1, .sync true,
          .append (pushOp "sha256:0b" "v2") true (.writeFails 9)] store ∧
      store.acked = [pushOp "sha256:0a" "v1"] ∧
      store.acked.Sublist (openedOps .concrete none store.logBytes) := by
  obtain ⟨store, run, acked⟩ := @exists_run_of_execute _ _ (Store.step plainConfig)
    (AppendsIntact plainConfig) _ {}
    [.append (pushOp "sha256:0a" "v1") true .done, .load 1, .sync true,
      .append (pushOp "sha256:0b" "v2") true (.writeFails 9)]
    (·.acked = [pushOp "sha256:0a" "v1"]) _ (by decide +kernel)
  exact ⟨store, run, acked, (failed_append_isolated plainConfig run).2⟩

/-- The write of the first header and record fails after one byte; the next
push lands behind it and is acknowledged. -/
def failedFirstWriteEvents : List Event :=
  [.append (pushOp "sha256:0a" "v1") true (.writeFails 1),
    .append (pushOp "sha256:0b" "v2") true .done, .load 1, .sync true]

/-- The push acknowledged behind a failed write is lost by a clean reopen. -/
theorem acked_push_lost_behind_failed_write :
    ∃ store, Reaches (Store.step plainConfig) (fun _ _ => True) {} failedFirstWriteEvents store ∧
      pushOp "sha256:0b" "v2" ∈ store.acked ∧
      openedOps .concrete none store.logBytes = [] :=
  exists_run_of_execute (by decide +kernel)

end Roci.Metadata
