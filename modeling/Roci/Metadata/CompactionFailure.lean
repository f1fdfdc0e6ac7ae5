import Roci.Metadata.Acknowledged

/-!
# Compaction that fails half way

Once the image is renamed over the log, the log path names the image while the
open handles still name the old file, until the new log is opened and its
handle stored.  If a step in between fails, later appends go to a file no open
will read.  As long as no append is made through such a handle, every open
finds the effect of a history with every acknowledged operation in it.
-/

namespace Roci.Metadata

open Roci.Library

variable {next : Store}

namespace Store

variable {config : Config} {store : Store}

/-! ## The state in memory -/

/-- The state in memory is the effect of issued operations, every live one
among them. -/
def Remembers (config : Config) (store : Store) : Prop :=
  ∃ history, State.Equiv store.ram (history.foldl (State.applyInRam config.env.reader) {}) ∧
    (store.select Issued.live).Sublist history ∧
    history.Sublist (store.issued.map Issued.op)

section

variable (remembers : store.Remembers config)

include remembers

theorem Remembers.wellFormed (name : String) :
    (store.ram.repo name).WellFormed config.env.reader := by
  obtain ⟨history, equiv, _⟩ := remembers
  rw [equiv name]
  exact State.wellFormed_foldl config.env.reader history name

theorem Remembers.of_same (ram : next.ram = store.ram) (issued : next.issued = store.issued) :
    next.Remembers config := by
  obtain ⟨history, equiv, contained, known⟩ := remembers
  refine ⟨history, ram ▸ equiv, ?_, issued ▸ known⟩
  rwa [select, issued]

theorem Remembers.reject (op : MetaOp) : (store.reject op).Remembers config := by
  obtain ⟨history, equiv, contained, known⟩ := remembers
  refine ⟨history, equiv, ?_, ?_⟩
  · simpa [select, Store.reject, List.filter_append, Issued.live] using contained
  rw [issued_reject]
  exact known.trans (List.sublist_append_left _ _)

theorem Remembers.accept (op : MetaOp) (durable : Bool) :
    (store.accept config op durable).Remembers config := by
  obtain ⟨history, equiv, contained, known⟩ := remembers
  refine ⟨history ++ [op], ?_, ?_, ?_⟩
  · rw [List.foldl_append]
    exact equiv.foldl config.env.reader [op]
  · simpa [select, Store.accept, List.filter_append, Issued.live] using
      contained.append (List.Sublist.refl [op])
  · simpa [Store.accept] using known.append (List.Sublist.refl [op])

theorem Remembers.append {op : MetaOp} {durable : Bool} {outcome : WriteOutcome}
    (stepped : store.append config op durable outcome = some next) : next.Remembers config := by
  have opened : store.openLog.1.Remembers config := by
    apply remembers.of_same <;> (unfold openLog; split <;> rfl)
  cases closed : store.log <;> cases outcome <;>
    simp only [Store.append, closed, reduceCtorEq, Option.some.injEq] at stepped <;>
    rw [← stepped]
  · exact remembers.reject op
  · exact opened.reject op
  · exact (opened.of_same rfl rfl : (store.openLog.1.write _ _).Remembers config).reject op
  · exact (opened.of_same rfl rfl : Remembers config { store.openLog.1.write _ _ with
      log := _, syncHandle := _ }).accept op durable
  · exact (remembers.of_same rfl rfl : (store.write _ _).Remembers config).reject op
  · exact (remembers.of_same rfl rfl : (store.write _ _).Remembers config).accept op durable

theorem Remembers.acknowledge (seq : Nat) : (store.acknowledge seq).Remembers config := by
  obtain ⟨history, equiv, contained, known⟩ := remembers
  refine ⟨history, equiv, ?_, ?_⟩
  · rwa [select_live_acknowledge]
  · rwa [issued_acknowledge]

theorem Remembers.load {seq : Nat} (stepped : store.load seq = some next) :
    next.Remembers config := by
  simp only [Store.load] at stepped
  split_ifs at stepped
  · cases stepped
    exact remembers.acknowledge seq
  cases stepped
  exact remembers.of_same rfl rfl

theorem Remembers.sync {succeeds : Bool} (stepped : store.sync succeeds = some next) :
    next.Remembers config := by
  unfold Store.sync at stepped
  split at stepped
  · split at stepped
    · cases stepped
      exact (remembers.of_same rfl rfl : (store.synchronise _ _).Remembers config).acknowledge _
    cases stepped
    exact remembers.of_same rfl rfl
  · cases stepped

end

variable {order : IterOrder} {reading : Reading}

theorem Remembers.maintain (remembers : store.Remembers config) {fault : Option CompactFault}
    (stepped : store.maintain config order fault = some next) : next.Remembers config := by
  have renamed : (store.renamed config order).Remembers config := remembers.of_same rfl rfl
  have halfway : (if store.due config then store.renamed config order else store).Remembers
      config := by
    split
    · exact renamed
    · exact remembers
  cases fault with
  | some fault =>
    cases fault <;> cases stepped
    · exact remembers
    · exact remembers
    · exact halfway
    · exact halfway
    · exact halfway
  | none =>
    simp only [Store.maintain] at stepped
    split_ifs at stepped <;> cases stepped
    · exact remembers.of_same rfl rfl
    · exact remembers

/-- Step lemma: every event of one process. -/
theorem Remembers.step (remembers : store.Remembers config) {event : Event}
    (notReopen : ∀ keep moves, event ≠ .reopen keep moves)
    (stepped : store.step config event = some next) : next.Remembers config := by
  cases event with
  | append op durable outcome => exact remembers.append stepped
  | load seq => exact remembers.load stepped
  | sync succeeds => exact remembers.sync stepped
  | maintain order fault => exact remembers.maintain stepped
  | reopen keep moves => exact absurd rfl (notReopen keep moves)

theorem Sound.remembers_reopen (sound : store.Sound config (.upToState config.env.reader))
    (keep : Nat) (moves : Bool) : (store.reopen config keep moves).Remembers config := by
  obtain ⟨history, same, contained, known⟩ :=
    (sound.afterCrash keep).weaken (store.acked_sublist_durable store.synced)
  refine ⟨history, ?_, ?_, ?_⟩
  · rw [show (store.reopen config keep moves).ram =
      (openInner config.env config.key (store.afterCrash keep)).state from rfl, openInner_state]
    exact same
  · rwa [select_live_reopen]
  · rwa [issued_reopen]

/-! ## Compaction -/

theorem Remembers.keeps_image (remembers : store.Remembers config)
    (compactable : store.ram.Compactable)
    (fits : ∀ op ∈ imageOps order store.ram, Fits (serializeOp op)) (generation : Option UInt64) :
    store.Keeps config (.upToState config.env.reader)
      (writeLogImage order config.env config.key store.ram generation)
      (store.select Issued.live) := by
  have image := equiv_openInner_image order config.env config.key remembers.wellFormed
    compactable generation fits
  rw [openInner_state] at image
  obtain ⟨history, equiv, contained, known⟩ := remembers
  exact ⟨history, image.trans equiv, contained, known⟩

theorem logFile_renamed (config : Config) (store : Store) (order : IterOrder) :
    (store.renamed config order).logFile = LogFile.mk
      (writeLogImage order config.env config.key store.ram (some (store.generation + 1))) [] := by
  simp [Store.renamed, logFile]

theorem logBytes_renamed (config : Config) (store : Store) (order : IterOrder) :
    (store.renamed config order).logBytes =
      writeLogImage order config.env config.key store.ram (some (store.generation + 1)) := by
  rw [logBytes, logFile_renamed]
  exact List.append_nil _

theorem Sound.renamed (sound : store.Sound config reading) (order : IterOrder)
    (image : store.Keeps config reading
      (writeLogImage order config.env config.key store.ram (some (store.generation + 1)))
      (store.select Issued.live)) :
    (store.renamed config order).Sound config reading := by
  have settled : (store.renamed config order).logFile.unsynced = [] := by rw [logFile_renamed]
  exact {
    cuts := by
      intro count reached
      rw [take_logBytes_of_settled settled reached, logBytes_renamed]
      exact image.weaken (store.select_durable_sublist_live _)
    whole := by
      rw [logBytes_renamed]
      exact image
    stale := fun _ => settled
    sameHandle := sound.sameHandle
    opened := by
      intro inode opened
      obtain ⟨file, found, nonempty⟩ := sound.opened inode opened
      refine ⟨file, ?_, nonempty⟩
      rw [← found]
      exact List.getElem?_append_left (List.getElem?_eq_some_iff.mp found).1
    exists_path := by
      intro inode path
      cases path
      simp [Store.renamed]
    syncedBound := sound.syncedBound
    tickets := sound.tickets
    waitingBound := sound.waitingBound
    coveredBound := sound.coveredBound }

theorem Sound.install (sound : store.Sound config reading) (settled : store.logFile.unsynced = [])
    {inode : Nat} {file : LogFile} (found : store.files[inode]? = some file)
    (nonempty : file.content ≠ []) (generation : UInt64) (imageLen : Nat) :
    ({ store with
        log := some inode
        syncHandle := some inode
        synced := store.appended
        imageLen := imageLen
        generation := generation } : Store).Sound config reading where
  cuts := by
    intro count reached
    have cut : store.logBytes.take count = store.logBytes :=
      take_logBytes_of_settled settled reached
    have kept := sound.whole.weaken (store.select_durable_sublist_live store.appended)
    rw [← cut] at kept
    exact kept
  whole := sound.whole
  stale := fun _ => settled
  sameHandle := rfl
  opened := by
    intro other opened
    cases opened
    exact ⟨file, found, nonempty⟩
  exists_path := sound.exists_path
  syncedBound := le_rfl
  tickets := sound.tickets
  waitingBound := sound.waitingBound
  coveredBound := sound.coveredBound

end Store

/-- Runs whose successful appends go to an intact log through a current handle, whose
failed ones leave the log to be read as before or with their operation behind, and
whose compactions write a faithful image. -/
def AppendsCurrent (config : Config) (store : Store) : Event → Prop
  | .append op _ .done =>
    Storable op ∧ Intact config.env config.key store.logBytes ∧ store.Current
  | .append op durable outcome => ∀ next ∈ store.append config op durable outcome,
      openedOps config.env config.key next.logBytes <+:
        openedOps config.env config.key store.logBytes ++ [op]
  | .maintain order _ => store.due config = true →
      store.ram.Compactable ∧ ∀ op ∈ imageOps order store.ram, Fits (serializeOp op)
  | _ => True

namespace Store

variable {config : Config} {store : Store}

/-- Step lemma: compaction, whichever of its steps fails. -/
theorem Sound.maintain (sound : store.Sound config (.upToState config.env.reader))
    (remembers : store.Remembers config) {order : IterOrder} {fault : Option CompactFault}
    (permitted : AppendsCurrent config store (.maintain order fault))
    (stepped : store.maintain config order fault = some next) :
    next.Sound config (.upToState config.env.reader) := by
  have renamed : store.due config = true →
      (store.renamed config order).Sound config (.upToState config.env.reader) := by
    intro due
    obtain ⟨compactable, fits⟩ := permitted due
    exact sound.renamed order (remembers.keeps_image compactable fits _)
  have halfway : (if store.due config then store.renamed config order else store).Sound config
      (.upToState config.env.reader) := by
    split
    · exact renamed ‹_›
    · exact sound
  cases fault with
  | some fault =>
    cases fault <;> cases stepped
    · exact sound
    · exact sound
    · exact halfway
    · exact halfway
    · exact halfway
  | none =>
    simp only [Store.maintain] at stepped
    split_ifs at stepped with due unlocked <;> cases stepped
    · refine (renamed due).install (by rw [logFile_renamed]) (List.getElem?_concat_length) ?_ _ _
      simp [LogFile.content, writeLogImage, headerRecord, encodeRecordRaw_ne_nil]
    · exact sound

theorem Sound.logBytes_writeFails (sound : store.Sound config reading) (current : store.Current)
    {op : MetaOp} {durable : Bool} {written : Nat}
    (stepped : store.append config op durable (.writeFails written) = some next) :
    next.logBytes = store.logBytes ++ (store.added config op).take written := by
  rcases closed : store.log with _ | inode
  · obtain ⟨opened, path, bytes, _⟩ := sound.openLog closed
    simp only [Store.append, closed, Option.some.injEq] at stepped
    rw [← stepped, added, ← bytes]
    exact logBytes_write path (opened.exists_path _ path) _
  · have path := current inode closed
    simp only [Store.append, closed, Option.some.injEq] at stepped
    rw [← stepped, sound.appendedBytes_open closed path op]
    exact logBytes_write path (sound.exists_path inode path) _

theorem Sound.lands_of_current (sound : store.Sound config (.upToState config.env.reader))
    {op : MetaOp} {durable : Bool} {outcome : WriteOutcome}
    (permitted : AppendsCurrent config store (.append op durable outcome))
    (stepped : store.append config op durable outcome = some next) :
    store.Lands config (.upToState config.env.reader) op outcome := by
  cases outcome with
  | done => exact permitted
  | writeFails written =>
    intro current count within history same
    have read := permitted next stepped
    rw [sound.logBytes_writeFails current stepped] at read
    -- Whatever part of the write survives, the log is read as something in between.
    have cut : openedOps config.env config.key
        (store.logBytes ++ (store.added config op).take count) <+:
        openedOps config.env config.key store.logBytes ++ [op] := by
      obtain ⟨rest, split⟩ := List.take_prefix_take_left within (l := store.added config op)
      refine List.IsPrefix.trans ?_ read
      rw [← split, ← List.append_assoc]
      exact openedOps_append_extends _ _ _ _
    have grown := openedOps_append_extends config.env config.key store.logBytes
      ((store.added config op).take count)
    rcases List.prefix_concat_iff.mp cut with whole | before
    · exact ⟨[op], List.Sublist.refl _, whole ▸ (Reading.upToState _).append [op] same⟩
    · refine ⟨[], List.nil_sublist _, ?_⟩
      rw [List.append_nil, before.eq_of_length_le grown.length_le]
      exact same
  | _ => trivial

/-- Step lemma for runs whose appends are current. -/
theorem Sound.step_current {event : Event} (permitted : AppendsCurrent config store event)
    (stepped : store.step config event = some next)
    (kept : store.Sound config (.upToState config.env.reader) ∧ store.Remembers config) :
    next.Sound config (.upToState config.env.reader) ∧ next.Remembers config := by
  obtain ⟨sound, remembers⟩ := kept
  cases event with
  | append op durable outcome =>
    exact ⟨sound.append (sound.lands_of_current permitted stepped) stepped,
      remembers.step (by simp) stepped⟩
  | load seq => exact ⟨sound.load stepped, remembers.step (by simp) stepped⟩
  | sync succeeds => exact ⟨sound.sync stepped, remembers.step (by simp) stepped⟩
  | maintain order fault =>
    exact ⟨sound.maintain remembers permitted stepped, remembers.step (by simp) stepped⟩
  | reopen keep moves =>
    cases stepped
    exact ⟨sound.reopen keep moves, sound.remembers_reopen keep moves⟩

theorem remembers_fresh (config : Config) : ({} : Store).Remembers config :=
  ⟨[], State.Equiv.refl _, List.Sublist.refl _, List.Sublist.refl _⟩

end Store

/-- Whatever step of a compaction fails, an open after a crash at any moment
finds the effect of a history of issued operations with every acknowledged one
in it. -/
theorem acked_ops_survive_failed_compaction (config : Config) {events : List Event}
    {store : Store} (run : Reaches (Store.step config) (AppendsCurrent config) {} events store)
    (keep : Nat) :
    ∃ history, store.acked.Sublist history ∧ history.Sublist (store.issued.map Issued.op) ∧
      State.Equiv (openInner config.env config.key (store.afterCrash keep)).state
        (history.foldl (State.applyInRam config.env.reader) {}) := by
  have sound := (run.invariant
    (fun _ _ _ permitted stepped => Store.Sound.step_current permitted stepped)
    ⟨Store.Sound.fresh config _, Store.remembers_fresh config⟩).1
  obtain ⟨history, same, contained, known⟩ :=
    (sound.afterCrash keep).weaken (store.acked_sublist_durable store.synced)
  refine ⟨history, contained, known, ?_⟩
  rw [openInner_state]
  exact same

/-! ## A failed compaction, played through -/

set_option maxRecDepth 4096

/-- Compaction as soon as the log has grown by more than one byte. -/
def eagerConfig : Config := { plainConfig with compactThreshold := 1 }

/-- The directory cannot be synced after the rename; the next push is written
through the old handle and acknowledged. -/
def failedInstallEvents : List Event :=
  [.append (pushOp "sha256:0a" "v1") true .done, .load 1, .sync true,
    .maintain .sorted (some .directory),
    .append (pushOp "sha256:0b" "v2") true .done, .load 2, .sync true]

/-- The push acknowledged after the failed compaction is lost by the next
open. -/
theorem acked_push_lost_behind_failed_install :
    ∃ store, Reaches (Store.step eagerConfig) (fun _ _ => True) {} failedInstallEvents store ∧
      pushOp "sha256:0b" "v2" ∈ store.acked ∧
      (openInner .concrete none (store.afterCrash 0)).state.resolveTag "app" "v2" = none :=
  exists_run_of_execute (by decide +kernel)

/-- What a step of the witness has to pass, apart from the state in memory. -/
def appendsCurrentCheck (store : Store) : Event → Bool
  | .append op _ .done => decide (Storable op ∧ Intact .concrete none store.logBytes ∧
      (store.log = none ∨ store.log = store.logPath))
  | .append op durable outcome => (store.append eagerConfig op durable outcome).all fun next =>
      decide (next.logBytes = store.logBytes)
  | .maintain order _ => decide (store.issued.map Issued.op = signedOps ∧
      store.select Issued.live = signedOps ∧
      ∀ op ∈ imageOps order store.ram, Fits (serializeOp op))
  | _ => true

theorem appendsCurrent_of_check {store : Store} {event : Event}
    (checked : appendsCurrentCheck store event = true) (remembers : store.Remembers eagerConfig) :
    AppendsCurrent eagerConfig store event := by
  cases event with
  | append op durable outcome =>
    cases outcome with
    | done =>
      obtain ⟨storable, intact, current⟩ := of_decide_eq_true checked
      refine ⟨storable, intact, ?_⟩
      intro inode open'
      rcases current with closed | same
      · rw [closed] at open'
        cases open'
      · rw [← same, open']
    | _ =>
      intro next stepped
      simp only [appendsCurrentCheck, Option.mem_def.mp stepped, Option.all_some,
        decide_eq_true_eq] at checked
      rw [checked]
      exact List.prefix_append _ _
  | maintain order fault =>
    obtain ⟨issued, live, fits⟩ := of_decide_eq_true checked
    obtain ⟨history, equiv, contained, known⟩ := remembers
    rw [issued] at known
    rw [live] at contained
    have same := known.antisymm contained
    subst same
    intro _
    refine ⟨?_, fits⟩
    intro name
    rw [equiv name]
    exact signedOps_compactable _ name
  | _ => trivial

/-- The installation fails, and then two pushes fail through the old handle, one
behind the torn record of the other, before the process is restarted. -/
def failedWritesEvents : List Event :=
  signedOps.map (fun op => .append op true .done) ++
    [.load 1, .sync true, .maintain .sorted (some .directory),
      .append (pushOp "sha256:0b" "v2") true (.writeFails 9),
      .append (pushOp "sha256:0c" "v3") true (.writeFails 9), .reopen 0 true]

/-- The push acknowledged before is found. -/
theorem acked_push_survives_failed_install :
    ∃ store, Reaches (Store.step eagerConfig) (AppendsCurrent eagerConfig) {}
        failedWritesEvents store ∧
      store.acked = signedOps ∧
      ∃ history, store.acked.Sublist history ∧ history.Sublist (store.issued.map Issued.op) ∧
        State.Equiv (openInner .concrete none (store.afterCrash 0)).state
          (history.foldl (State.applyInRam JsonText.reader) {}) := by
  obtain ⟨store, run, acked⟩ := @exists_run_of_execute _ _ (Store.step eagerConfig)
    (fun store event => appendsCurrentCheck store event = true) _ {} failedWritesEvents
    (·.acked = signedOps) _ (by decide +kernel)
  have current := @Reaches.strengthen _ _ (Store.step eagerConfig) _ _ _ _
    (fun store => store.Sound eagerConfig (.upToState JsonText.reader) ∧
      store.Remembers eagerConfig) (AppendsCurrent eagerConfig)
    (fun _ _ checked kept => appendsCurrent_of_check checked kept.2)
    (fun _ _ _ permitted stepped => Store.Sound.step_current permitted stepped) run
    ⟨Store.Sound.fresh eagerConfig _, Store.remembers_fresh eagerConfig⟩
  exact ⟨store, current, acked,
    acked_ops_survive_failed_compaction eagerConfig current 0⟩

end Roci.Metadata
