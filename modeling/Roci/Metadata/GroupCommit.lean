import Roci.Metadata.Watermark

/-!
# Group commit

Every call keeps to the locks, so the watermark is right in every interleaving
of `apply`, `apply_relaxed` and compaction, and a call of `apply` that returns
has seen the watermark pass its record.
-/

namespace Roci.Metadata.Journal

open Roci.Library
open Program (meets_act meets_bind)
open Function (update update_eq_self)

/-! ## The calls -/

def locking (config : Config) : Discipline Action Response Notes where
  allowed notes
    | .lockInner => notes.phase = .free
    | .unlockInner => notes.phase = .held
    | .lockSync => notes.commit = .free
    | .unlockSync => notes.commit ≠ .free
    | .readLog => notes.phase = .held
    | .openLog => notes.phase = .unopened
    | .write inode bytes op =>
      (notes.phase = .opened inode ∧
        ∃ lead, bytes = lead ++ encodeRecord config.env config.key op) ∨
      (notes.phase = .appending inode ∧ bytes = encodeRecord config.env config.key op)
    | .setLog inode => (∃ op, notes.phase = .wrote inode op) ∨ notes.phase = .placed inode
    | .setHandle inode =>
      notes.commit ≠ .free ∧
        ((∃ op, notes.phase = .logged inode op) ∨ notes.phase = .attached inode)
    | .fetchAdd => ∃ op, notes.phase = .ready op
    | .applyInRam op => notes.phase = .counted op
    | .loadAppended => notes.commit ≠ .free
    | .syncData => ∃ covered, notes.commit = .loaded covered
    | .raiseSynced covered => notes.commit = .reached covered
    | .setSynced appended =>
      notes.commit ≠ .free ∧ ∃ inode, notes.phase = .measured inode appended
    | .createImage _ => notes.phase = .held
    | .syncAll inode => notes.phase = .imaged inode
    | .rename inode => notes.phase = .flushed inode
    | .syncDirectory => ∃ inode, notes.phase = .renamed inode
    | .reopen => ∃ inode, notes.phase = .placed inode
    | _ => True
  expected notes
    | .loadAppended, appended => ∀ op seq, notes.ticket = some (op, seq) → seq ≤ appended
    | _, _ => True

/-- A successful `apply` has a sequence number the watermark has passed. -/
def Acknowledged : Call → Unit → Notes → Prop
  | .apply op, _, notes => ∃ seq, notes.ticket = some (op, seq) ∧ seq ≤ notes.floor
  | _, _, _ => True

section Calls

variable {config : Config} {op : MetaOp} {post : Unit → Notes → Prop}

theorem meets_countRecord {notes : Notes} {post : Nat → Notes → Prop}
    (phase : notes.phase = .ready op)
    (ends : ∀ seq, post seq { notes with phase := .free, ticket := some (op, seq) }) :
    (countRecord op).Meets observe (locking config) notes post := by
  obtain ⟨phase', commit, ticket, floor⟩ := notes
  simp only at phase
  subst phase
  simp only [countRecord, meets_bind, meets_act]
  refine ⟨⟨op, rfl⟩, fun seq _ => ⟨rfl, fun _ _ => ⟨rfl, fun _ _ => ?_⟩⟩⟩
  exact ends seq

theorem meets_appendRecord {post : Nat → Notes → Prop}
    (ends : ∀ seq, post seq { ticket := some (op, seq) }) :
    (appendRecord config op).Meets observe (locking config) {} post := by
  simp only [appendRecord, meets_bind, meets_act]
  refine ⟨rfl, fun _ _ => ⟨rfl, fun log _ => ?_⟩⟩
  cases log with
  | none =>
    simp only [meets_bind, meets_act]
    refine ⟨rfl, fun opened _ => ?_⟩
    obtain ⟨inode, length⟩ := opened
    refine ⟨.inl ⟨rfl, _, rfl⟩, fun _ _ => ⟨.inl ⟨op, rfl⟩, fun _ _ => ⟨rfl, fun _ _ => ?_⟩⟩⟩
    refine ⟨⟨by rintro ⟨⟩, .inl ⟨op, rfl⟩⟩, fun _ _ => ⟨by rintro ⟨⟩, fun _ _ => ?_⟩⟩
    exact meets_countRecord rfl ends
  | some inode =>
    simp only [meets_bind, meets_act]
    exact ⟨.inr ⟨rfl, rfl⟩, fun _ _ => meets_countRecord rfl ends⟩

theorem meets_groupCommitThrough {seq : Nat} :
    (groupCommitThrough seq).Meets observe (locking config) { ticket := some (op, seq) }
      (Acknowledged (.apply op)) := by
  simp only [groupCommitThrough, meets_bind, meets_act]
  refine ⟨rfl, fun _ _ => ⟨trivial, fun synced _ => ?_⟩⟩
  split
  · rename_i passed
    exact ⟨by rintro ⟨⟩, fun _ _ => ⟨seq, rfl, passed.trans (Nat.le_max_right _ _)⟩⟩
  rename_i behind
  simp only [meets_bind, meets_act]
  refine ⟨by rintro ⟨⟩, fun covered later => ⟨⟨covered, rfl⟩, fun _ _ => ⟨rfl, fun _ _ => ?_⟩⟩⟩
  exact ⟨by rintro ⟨⟩, fun _ _ => ⟨seq, rfl, (later op seq rfl).trans (Nat.le_max_right _ _)⟩⟩

theorem meets_doMaintain :
    (doMaintain config).Meets observe (locking config) {} fun _ _ => True := by
  simp only [doMaintain, meets_bind, meets_act]
  refine ⟨trivial, fun size _ => ⟨trivial, fun imageLen _ => ?_⟩⟩
  split
  · trivial
  simp only [installLog, meets_bind, meets_act]
  refine ⟨rfl, fun _ _ => ⟨trivial, fun _ _ => ⟨rfl, fun tmp _ => ⟨rfl, fun _ _ => ?_⟩⟩⟩⟩
  refine ⟨rfl, fun _ _ => ⟨⟨tmp, rfl⟩, fun _ _ => ⟨⟨tmp, rfl⟩, fun inode _ => ?_⟩⟩⟩
  refine ⟨.inr rfl, fun _ _ => ⟨rfl, fun _ _ => ⟨⟨by rintro ⟨⟩, .inr rfl⟩, fun _ _ => ?_⟩⟩⟩
  refine ⟨by rintro ⟨⟩, fun appended _ => ⟨⟨by rintro ⟨⟩, inode, rfl⟩, fun _ _ =>
    ⟨by rintro ⟨⟩, fun _ _ => ?_⟩⟩⟩
  exact ⟨trivial, fun _ _ => ⟨trivial, fun _ _ => ⟨rfl, fun _ _ => trivial⟩⟩⟩

end Calls

/-! ## Every run -/

section Preserved

variable {config : Config} {orders : Nat → IterOrder} {start : State} {world next : World}
  {notes : Nat → Notes} {index : Nat} {op : MetaOp} {covered inode : Nat} {phase : Phase}

theorem SameLog.still (same : SameLog world next) (files : next.fileAt = world.fileAt)
    (synced : next.synced = world.synced) (sound : world.Sound config start phase) :
    next.Sound config start phase ∧ Grows config start world next := by
  refine ⟨same.sound sound ?_ (synced ▸ sound.bounded), same.grows synced.ge fun _ _ => ?_⟩
  · rw [synced, files]
    exact sound.covers
  rw [files]
  exact id

theorem Noted.moved {known : Notes} (noted : Noted config start world known) (phase : Phase) :
    Noted config start world { known with phase := phase } :=
  { noted with }

section

variable (invariant : Invariant config start world notes)

include invariant

theorem preserved_lockInner (free : world.inner = none) :
    Invariant config start { world with inner := some index }
      (update notes index { notes index with phase := .held }) := by
  have same : SameLog world { world with inner := some index } := .locks world _ _ _ _ _
  have unheld := invariant.sound
  rw [holding, free] at unheld
  obtain ⟨kept, grows⟩ := same.still rfl rfl unheld
  have noted := (invariant.noted index).grow grows
  refine invariant.step grows (fun _ => rfl) ?_ (invariant.sync index) (fun _ _ => id) ?_
    (noted.moved _)
  · intro other _ holder
    rw [free] at holder
    cases holder
  · simpa [holding] using { kept with shape := kept.shape }

theorem preserved_unlockInner (held : (notes index).phase = .held) :
    Invariant config start { world with inner := none }
      (update notes index { notes index with phase := .free }) := by
  have same : SameLog world { world with inner := none } := .locks world _ _ _ _ _
  have holder := invariant.inner index (by rw [held]; nofun)
  obtain ⟨kept, grows⟩ := same.still rfl rfl (invariant.sound_at held)
  have noted := (invariant.noted index).grow grows
  refine invariant.step grows (fun busy => absurd rfl busy) ?_ (invariant.sync index)
    (fun _ _ => id) { kept with shape := kept.shape }
    (noted.moved _)
  intro other different theirs
  rw [holder] at theirs
  exact absurd (Option.some.inj theirs).symm different

theorem preserved_lockSync (free : world.sync = none) :
    Invariant config start { world with sync := some index }
      (update notes index { notes index with commit := .held }) := by
  have same : SameLog world { world with sync := some index } := .locks world _ _ _ _ _
  have grows := (same.still rfl rfl invariant.sound).2
  have noted := (invariant.noted index).grow grows
  refine invariant.beside rfl grows rfl (fun _ => rfl) ?_
    (fun _ sound => (same.still rfl rfl sound).1) ⟨nofun, nofun, noted.floor, noted.ticket⟩
  intro other _ holder
  rw [free] at holder
  cases holder

theorem preserved_unlockSync (held : (notes index).commit ≠ .free) :
    Invariant config start { world with sync := none }
      (update notes index { notes index with commit := .free }) := by
  have same : SameLog world { world with sync := none } := .locks world _ _ _ _ _
  have holder := invariant.sync index held
  have grows := (same.still rfl rfl invariant.sound).2
  have noted := (invariant.noted index).grow grows
  refine invariant.beside rfl grows rfl (fun busy => absurd rfl busy) ?_
    (fun _ sound => (same.still rfl rfl sound).1) ⟨nofun, nofun, noted.floor, noted.ticket⟩
  intro other different theirs
  rw [holder] at theirs
  exact absurd (Option.some.inj theirs).symm different

theorem Invariant.advance {reached : Phase} (at_ : (notes index).phase = phase)
    (stepped : next.Sound config start reached ∧ Grows config start world next)
    (busy : phase ≠ .free := by nofun) (inner : next.inner = world.inner := by rfl)
    (sync : next.sync = world.sync := by rfl) :
    Invariant config start next (update notes index { notes index with phase := reached }) := by
  obtain ⟨sound, grows⟩ := stepped
  exact invariant.inside (by rw [at_]; exact busy) grows inner sync id sound
    (((invariant.noted index).grow grows).moved reached)

end

theorem grows_refl (world : World) : Grows config start world world :=
  ⟨le_refl _, le_refl _, List.prefix_refl _, fun _ _ => id⟩

theorem World.Sound.readLog (sound : world.Sound config start .held) :
    (∀ inode, world.log = some inode → world.Sound config start (.appending inode)) ∧
      (world.log = none → world.Sound config start .unopened) := by
  obtain ⟨steady, current⟩ := sound.shape
  exact ⟨fun inode log => { sound with shape := ⟨steady, current, log⟩ },
    fun log => { sound with shape := ⟨steady, current, log⟩ }⟩

theorem World.Sound.writeFirst (lead : Bytes) (sound : world.Sound config start (.opened inode)) :
    let next := { world with
      files := world.files.modify inode fun file =>
        file.write (lead ++ encodeRecord config.env config.key op)
      written := world.written ++ [op] }
    next.Sound config start (.wrote inode op) ∧ Grows config start world next := by
  intro next
  obtain ⟨steady, current, log, path⟩ := sound.shape
  have nothing := steady.unopened log
  refine sound.append path (steady.stable.trans path) (.inl (steady.handle.trans log)) ?_
    ⟨⟨world.written, rfl, current.appended, current.ram⟩, path, steady.stable.trans path⟩
  rw [nothing]
  exact whole_first _ lead op

theorem World.Sound.write (sound : world.Sound config start (.appending inode)) :
    let next := { world with
      files := world.files.modify inode fun file =>
        file.write (encodeRecord config.env config.key op)
      written := world.written ++ [op] }
    next.Sound config start (.ready op) ∧ Grows config start world next := by
  intro next
  obtain ⟨steady, current, log⟩ := sound.shape
  have path := steady.log inode log
  have whole := sound.whole (some inode) (by simp [World.names, path])
  refine sound.append path (steady.stable.trans path) (.inr (steady.handle.trans log))
    (whole.write op) ⟨⟨steady.stable, steady.handle, steady.log, ?_⟩,
      ⟨world.written, rfl, current.appended, current.ram⟩⟩
  intro closed
  rw [log] at closed
  cases closed

section

variable (invariant : Invariant config start world notes)

include invariant

theorem preserved_setLog (allowed : (locking config).allowed (notes index) (.setLog inode)) :
    Invariant config start { world with log := some inode } (update notes index
      { notes index with phase := (notes index).phase.afterSetLog inode }) := by
  have same : SameFiles world { world with log := some inode } := ⟨rfl, rfl, rfl, rfl, rfl⟩
  rcases allowed with ⟨op, wrote⟩ | placed
  · have sound := invariant.sound_at wrote
    obtain ⟨pending, path, stable⟩ := sound.shape
    rw [wrote]
    exact invariant.advance wrote ⟨same.sound sound
      ⟨pending, path, stable, rfl⟩ sound.reachable sound.counted (le_refl _),
      same.grows (le_refl _)⟩
  have sound := invariant.sound_at placed
  obtain ⟨current, installed, stable⟩ := sound.shape
  rw [placed]
  exact invariant.advance placed ⟨same.sound sound
    ⟨⟨current.appended, current.ram⟩, ⟨installed.path, installed.synced⟩, stable, rfl⟩
    sound.reachable sound.counted (le_refl _), same.grows (le_refl _)⟩

theorem preserved_setHandle (allowed : (locking config).allowed (notes index) (.setHandle inode)) :
    Invariant config start { world with handle := some inode } (update notes index
      { notes index with phase := (notes index).phase.afterSetHandle inode }) := by
  have same : SameFiles world { world with handle := some inode } := ⟨rfl, rfl, rfl, rfl, rfl⟩
  have reachable : world.path = some inode → world.stable = some inode →
      ∀ other, some inode = some other → ∀ name ∈ world.names,
        name = some other ∨ (world.fileAt name).unsynced = [] := by
    intro path stable other held name named
    rw [← held]
    rcases mem_names named with isPath | isStable
    · exact .inl (isPath.trans path)
    · exact .inl (isStable.trans stable)
  have steady : world.path = some inode → world.stable = some inode → world.log = some inode →
      { world with handle := some inode }.Steady := by
    intro path stable log
    refine ⟨stable.trans path.symm, log.symm, fun other found => ?_, fun closed => ?_⟩
    · exact path.trans (log.symm.trans found)
    rw [log] at closed
    cases closed
  rcases allowed.2 with ⟨op, logged⟩ | attached
  · have sound := invariant.sound_at logged
    obtain ⟨pending, path, stable, log⟩ := sound.shape
    rw [logged]
    exact invariant.advance logged ⟨same.sound sound
      ⟨steady path stable log, pending⟩ (reachable path stable) sound.counted (le_refl _),
      same.grows (le_refl _)⟩
  have sound := invariant.sound_at attached
  obtain ⟨current, installed, stable, log⟩ := sound.shape
  rw [attached]
  exact invariant.advance attached ⟨same.sound sound
    ⟨⟨current.appended, current.ram⟩, ⟨installed.path, installed.synced⟩,
      steady installed.path stable log⟩
    (reachable installed.path stable) sound.counted (le_refl _), same.grows (le_refl _)⟩

theorem preserved_fetchAdd (ready : (notes index).phase = .ready op) :
    Invariant config start { world with appended := world.appended + 1 }
      (update notes index { notes index with
        phase := .counted op, ticket := some (op, world.appended + 1) }) := by
  have same : SameFiles world { world with appended := world.appended + 1 } :=
    ⟨rfl, rfl, rfl, rfl, rfl⟩
  have sound := invariant.sound_at ready
  obtain ⟨steady, earlier, written, appended, ram⟩ := sound.shape
  have counted : world.appended = earlier.length := appended
  have length : world.appended + 1 = world.written.length := by simp [written, counted]
  have grows : Grows config start world { world with appended := world.appended + 1 } :=
    same.grows (Nat.le_succ _)
  have noted := (invariant.noted index).grow grows
  refine invariant.inside (by rw [ready]; nofun) grows rfl rfl id ?_
    ⟨noted.loaded, noted.reached, noted.floor, ?_⟩
  · refine same.sound sound ⟨{ steady with }, earlier,
      written, ?_, ram⟩ sound.reachable length.le (Nat.le_succ _)
    simp [counted]
  intro other seq found
  simp only [Option.some.injEq, Prod.mk.injEq] at found
  obtain ⟨rfl, rfl⟩ := found
  simp [written, counted]

theorem preserved_applyInRam (counted : (notes index).phase = .counted op) :
    Invariant config start { world with ram := world.ram.applyInRam config.env.reader op }
      (update notes index { notes index with phase := .held }) := by
  have same : SameFiles world { world with ram := world.ram.applyInRam config.env.reader op } :=
    ⟨rfl, rfl, rfl, rfl, rfl⟩
  have sound := invariant.sound_at counted
  obtain ⟨steady, earlier, written, appended, ram⟩ := sound.shape
  refine invariant.advance counted ⟨same.sound sound
    ⟨{ steady with }, ?_, ?_⟩ sound.reachable
    sound.counted (le_refl _), same.grows (le_refl _)⟩
  · simp [written, appended]
  · simp [written, ram, stateAfter, List.foldl_append]

theorem preserved_loadAppended (holds : (notes index).commit ≠ .free) :
    Invariant config start world (update notes index { notes index with
      phase := (notes index).phase.afterLoad world.appended
      commit := .loaded world.appended }) := by
  have grows : Grows config start world world := grows_refl world
  have noted := invariant.noted index
  have changed : Noted config start world { notes index with
      phase := (notes index).phase.afterLoad world.appended
      commit := .loaded world.appended } := by
    refine ⟨?_, nofun, noted.floor, noted.ticket⟩
    rintro covered found
    cases found
    exact le_refl _
  cases phase : (notes index).phase with
  | switched inode =>
    rw [phase] at changed
    have sound := invariant.sound_at phase
    obtain ⟨current, installed, steady⟩ := sound.shape
    exact invariant.inside (by rw [phase]; nofun) grows rfl rfl (fun _ => holds)
      { sound with shape := ⟨current, installed, steady, rfl⟩ } changed
  | _ =>
    rw [phase] at changed
    exact invariant.beside phase.symm grows rfl (fun _ => invariant.sync index holds)
      (fun _ _ => id) (fun _ => id) changed

theorem preserved_syncData
    (handle : world.handle = some inode) (loaded : (notes index).commit = .loaded covered) :
    Invariant config start { world with files := world.files.modify inode LogFile.sync }
      (update notes index { notes index with commit := .reached covered }) := by
  have grows : Grows config start world
      { world with files := world.files.modify inode LogFile.sync } := grows_sync rfl
  have noted := (invariant.noted index).grow grows
  have holder := invariant.sync index (by rw [loaded]; nofun)
  refine invariant.beside rfl grows rfl (fun _ => holder) (fun _ _ => id)
    (fun _ sound => sound.sync rfl) ⟨nofun, ?_, noted.floor, noted.ticket⟩
  rintro _ found
  cases found
  exact ⟨noted.loaded covered loaded, invariant.sound.covers_of_sync handle rfl covered⟩

theorem preserved_raiseSynced (reached : (notes index).commit = .reached covered) :
    Invariant config start { world with synced := max world.synced covered }
      (update notes index { notes index with
        commit := .held, floor := max (notes index).floor covered }) := by
  have same : SameLog world { world with synced := max world.synced covered } :=
    .locks world _ _ _ _ _
  have noted := invariant.noted index
  obtain ⟨counted, onDisk⟩ := noted.reached covered reached
  have holder := invariant.sync index (by rw [reached]; nofun)
  have grows : Grows config start world { world with synced := max world.synced covered } :=
    same.grows (Nat.le_max_left _ _) fun _ _ => id
  refine invariant.beside rfl grows rfl (fun _ => holder) (fun _ _ => id) ?_
    ⟨nofun, nofun, max_le_max_right covered noted.floor, noted.ticket⟩
  intro phase sound
  refine same.sound sound (fun name named => ?_) (max_le sound.bounded counted)
  rcases max_choice world.synced covered with same | same
  · simp only [same]
    exact sound.covers name named
  simp only [same]
  exact onDisk name named

theorem preserved_still {after : World} (same : SameLog world after)
    (files : after.fileAt = world.fileAt) (synced : after.synced = world.synced)
    (inner : after.inner = world.inner) (sync : after.sync = world.sync) :
    Invariant config start after (update notes index (notes index)) := by
  have grown := (same.still files synced invariant.sound).2
  exact invariant.beside rfl grown inner (fun busy => sync.trans (invariant.sync index busy))
    (fun _ _ => sync.trans) (fun _ sound => (same.still files synced sound).1)
    ((invariant.noted index).grow grown)

end

theorem locking_preserved (config : Config) (orders : Nat → IterOrder) (start : State) :
    (machine config orders).Preserves .any (fun _ => locking config) Acknowledged
      (Invariant config start) where
  codes call _ := by
    cases call with
    | apply op =>
      exact Program.meets_bind.mpr (meets_appendRecord fun _ => meets_groupCommitThrough)
    | applyRelaxed op => exact Program.meets_bind.mpr (meets_appendRecord fun _ => trivial)
    | maintain => exact meets_doMaintain
  expects system index action choice world response _ performed invariant _ := by
    cases action with
    | loadAppended =>
      cases performed
      intro op seq found
      exact ((invariant.noted index).ticket op seq found).2.1
    | _ => trivial
  keeps system index action choice world response _ allowed performed invariant := by
    obtain ⟨_, allowed⟩ := allowed
    change perform config orders system.world index action choice = some (world, response)
      at performed
    change Invariant config start world (update ((machine config orders).notesAt system)
      index (observe ((machine config orders).notesAt system index) action response))
    generalize (machine config orders).notesAt system = notes at *
    have grows : Grows config start system.world system.world := grows_refl _
    cases action with
    | lockInner =>
      simp only [perform] at performed
      split at performed
      · cases performed
        exact preserved_lockInner invariant (by assumption)
      · cases performed
    | unlockInner =>
      cases performed
      exact preserved_unlockInner invariant allowed
    | lockSync =>
      simp only [perform] at performed
      split at performed
      · cases performed
        exact preserved_lockSync invariant (by assumption)
      · cases performed
    | unlockSync =>
      cases performed
      exact preserved_unlockSync invariant allowed
    | readLog =>
      cases performed
      have sound := invariant.sound_at allowed
      cases log : system.world.log with
      | none => exact invariant.advance allowed ⟨sound.readLog.2 log, grows⟩
      | some inode => exact invariant.advance allowed ⟨sound.readLog.1 inode log, grows⟩
    | openLog =>
      have sound := invariant.sound_at allowed
      obtain ⟨steady, current, log⟩ := sound.shape
      simp only [perform] at performed
      split at performed
      · rename_i inode path
        cases performed
        exact invariant.advance allowed
          ⟨{ sound with shape := ⟨steady, current, log, path⟩ }, grows⟩
      cases performed
      exact invariant.advance allowed sound.createLog
    | write inode bytes op =>
      cases performed
      rcases allowed with ⟨opened, lead, rfl⟩ | ⟨appending, rfl⟩
      · have sound := invariant.sound_at opened
        simp only [observe, opened, Phase.afterWrite]
        exact invariant.advance opened (sound.writeFirst lead)
      have sound := invariant.sound_at appending
      simp only [observe, appending, Phase.afterWrite]
      exact invariant.advance appending sound.write
    | setLog inode =>
      cases performed
      exact preserved_setLog invariant allowed
    | setHandle inode =>
      cases performed
      exact preserved_setHandle invariant allowed
    | fetchAdd =>
      cases performed
      obtain ⟨op, ready⟩ := allowed
      simp only [observe, ready]
      exact preserved_fetchAdd invariant ready
    | applyInRam op =>
      cases performed
      exact preserved_applyInRam invariant allowed
    | readSynced =>
      cases performed
      have noted := invariant.noted index
      exact invariant.beside rfl grows rfl (invariant.sync index) (fun _ _ => id) (fun _ => id)
        { noted with floor := max_le noted.floor (le_refl _) }
    | loadAppended =>
      cases performed
      exact preserved_loadAppended invariant allowed
    | syncData =>
      obtain ⟨covered, loaded⟩ := allowed
      simp only [perform] at performed
      split at performed
      · rename_i inode handle
        cases performed
        simp only [observe, loaded, Commit.afterSync]
        exact preserved_syncData invariant handle loaded
      · cases performed
    | raiseSynced covered =>
      cases performed
      exact preserved_raiseSynced invariant allowed
    | setSynced appended =>
      cases performed
      obtain ⟨holds, inode, measured⟩ := allowed
      obtain ⟨sound, grown⟩ := (invariant.sound_at measured).setSynced
      have noted := (invariant.noted index).grow grown
      exact invariant.inside (by rw [measured]; nofun) grown rfl rfl (fun _ => holds) sound
        ⟨nofun, nofun, noted.floor, noted.ticket⟩
    | createImage generation =>
      cases performed
      exact invariant.advance allowed
        ((invariant.sound_at allowed).createImage (orders choice) generation)
    | syncAll inode =>
      cases performed
      exact invariant.advance allowed ⟨(invariant.sound_at allowed).syncAll, grows_sync rfl⟩
    | rename inode =>
      cases performed
      exact invariant.advance allowed (invariant.sound_at allowed).rename
    | syncDirectory =>
      cases performed
      obtain ⟨inode, renamed⟩ := allowed
      simp only [observe, renamed, Phase.afterSyncDirectory]
      exact invariant.advance renamed (invariant.sound_at renamed).syncDirectory
    | reopen =>
      obtain ⟨inode, placed⟩ := allowed
      have sound := invariant.sound_at placed
      simp only [perform] at performed
      split at performed
      · rename_i reopened path
        have same := path.symm.trans sound.shape.2.1.path
        cases same
        cases performed
        exact invariant.advance placed ⟨sound, grows⟩
      · cases performed
    | storeImageLen len | setGeneration generation =>
      cases performed
      exact preserved_still invariant (.locks system.world _ _ _ _ _) rfl rfl rfl rfl
    | _ =>
      cases performed
      simp only [observe, update_eq_self]
      exact invariant
  drops _ _ _ _ _ _ := .inl rfl
  abandons _ _ world notes index invariant := by
    change Invariant config start world (update notes index (notes index))
    rw [update_eq_self]
    exact invariant

end Preserved

/-- A freshly opened engine. -/
theorem invariant_opened (config : Config) (existing : Option LogFile) (ram : State)
    (generation : UInt64) (imageLen : Nat) :
    Invariant config ram (.opened existing ram generation imageLen) fun _ => {} where
  inner _ busy := absurd rfl busy
  sync _ busy := absurd rfl busy
  sound := by
    refine ⟨⟨⟨rfl, rfl, nofun, fun _ => rfl⟩, ⟨rfl, rfl⟩⟩, ?_, fun _ _ => whole_nil _, nofun,
      fun _ _ => covers_nil _ _, le_refl _, le_refl _⟩
    intro inode named
    cases existing with
    | none => simp [World.names, World.opened] at named
    | some file =>
      simp only [World.names, World.opened, Option.map_some, List.mem_cons, Option.some.injEq,
        List.not_mem_nil, or_false, or_self] at named
      simp [World.opened, named]
  noted _ := ⟨nofun, nofun, le_refl _, nofun⟩

/-- Once `apply` has returned, its record is on disk in whichever file a crash
leaves at the log path: behind what was there, or as part of the image that
replaced it. -/
theorem applied_op_durable (config : Config) (orders : Nat → IterOrder)
    (existing : Option LogFile) (ram : State) (generation : UInt64) (imageLen : Nat)
    {final : System World Call Action Response Unit Notes} {events : List (Library.Event Call Nat)}
    (run : Reaches (machine config orders).step (fun _ _ => True)
      { world := .opened existing ram generation imageLen } events final)
    {thread : Thread Call Action Response Unit Notes} (membership : thread ∈ final.threads)
    {op : MetaOp} (called : thread.call = .apply op) (returned : thread.program.head? = none) :
    ∃ seq, thread.notes.ticket = some (op, seq) ∧
      0 < seq ∧ final.world.written[seq - 1]? = some op ∧
      ∀ name ∈ final.world.names,
        Covers config ram final.world.written seq (final.world.fileAt name) := by
  have sound := (locking_preserved config orders ram).run
    (run.weaken fun _ _ _ => Machine.permitted_any) rfl
    (invariant_opened config existing ram generation imageLen)
  obtain ⟨index, found⟩ := List.getElem?_of_mem membership
  have noted := sound.holds.noted index
  rw [Machine.notesAt_of_found found] at noted
  cases program : thread.program with
  | perform action rest =>
    rw [program] at returned
    cases returned
  | finish result =>
    have ended := sound.returned membership program
    rw [called] at ended
    obtain ⟨seq, ticket, passed⟩ := ended
    obtain ⟨positive, _, held⟩ := noted.ticket op seq ticket
    refine ⟨seq, ticket, positive, held, fun name named => ?_⟩
    exact (sound.holds.sound.covers name named).le (passed.trans noted.floor)

/-- A log that is compacted as soon as it holds more than one byte. -/
def eagerConfig : Config where
  env := Env.concrete
  key := none
  compactThreshold := 1

def durableOp : MetaOp := .putChecksum "app" "sha256:0a" 7 11

/-- The record is written, compaction renames its image over the log, and the
commit goes through the handle of the old file before the directory is synced. -/
def commitDuringRename : List (Library.Event Call Nat) :=
  .start (.apply durableOp) :: List.replicate 11 (.run 0 0) ++
    .start .maintain :: List.replicate 7 (.run 1 0) ++ List.replicate 6 (.run 0 0)

/-- The commit is good for both files a crash may leave. -/
theorem durable_in_either_file :
    ∃ final, Reaches (machine eagerConfig fun _ => .sorted).step
        (fun _ _ => True) { world := .opened none {} 0 0 } commitDuringRename final ∧
      final.world.path ≠ final.world.stable ∧
      ∃ seq, final.world.written[seq - 1]? = some durableOp ∧ ∀ name ∈ final.world.names,
        Covers eagerConfig {} final.world.written seq (final.world.fileAt name) := by
  obtain ⟨final, run, apart, thread, membership, called, returned⟩ := @exists_run_of_execute _ _
    (machine eagerConfig fun _ => .sorted).step (fun _ _ => True) _
    { world := .opened none {} 0 0 } commitDuringRename
    (fun final => final.world.path ≠ final.world.stable ∧ ∃ thread ∈ final.threads,
      thread.call = .apply durableOp ∧ thread.program.head? = none) _ (by decide +kernel)
  obtain ⟨seq, _, _, held, covers⟩ := applied_op_durable eagerConfig (fun _ => .sorted) none {} 0 0
    run membership called returned
  exact ⟨final, run, apart, seq, held, covers⟩

end Roci.Metadata.Journal
