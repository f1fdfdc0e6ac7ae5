import Roci.Metadata.Journal

/-!
# The watermark

The append counter, the watermark and the sync handle are guarded by different
locks, and compaction swaps the file underneath them.  What ties them together
is a statement about every file a crash may leave at the log path: it holds all
written records from some point on, behind an image of the operations before
that point, and it has been synced at least up to the watermark.
-/

namespace Roci.Metadata.Journal

open Roci.Library
open Function (update update_of_ne update_self)

/-! ## What a file holds -/

section Files

variable (config : Config) (start : State)

def stateAfter (ops : List MetaOp) : State := ops.foldl (State.applyInRam config.env.reader) start

def recordBytes (ops : List MetaOp) : Bytes := ops.flatMap (encodeRecord config.env config.key)

/-- The bytes in front of the records of a file: whatever was found when the
engine opened, or the image of the state after the first `base` operations. -/
def Origin (written : List MetaOp) (base : Nat) (before : Bytes) : Prop :=
  base = 0 ∨ base ≤ written.length ∧ ∃ order generation, before =
    writeLogImage order config.env config.key (stateAfter config start (written.take base))
      (some generation)

def Whole (written : List MetaOp) (file : LogFile) : Prop :=
  ∃ base before, Origin config start written base before ∧
    file.content = before ++ recordBytes config (written.drop base)

/-- The first `count` operations written are on disk: in the image the file
starts with, or as records behind it. -/
def Covers (written : List MetaOp) (count : Nat) (file : LogFile) : Prop :=
  ∃ base before, Origin config start written base before ∧
    before ++ recordBytes config ((written.take count).drop base) <+: file.synced

variable {config start} {written : List MetaOp} {file : LogFile} {base count : Nat}
  {before : Bytes}

theorem recordBytes_append (first second : List MetaOp) :
    recordBytes config (first ++ second) = recordBytes config first ++ recordBytes config second :=
  List.flatMap_append

theorem Origin.le (origin : Origin config start written base before) : base ≤ written.length := by
  rcases origin with rfl | ⟨within, _⟩
  · exact Nat.zero_le _
  · exact within

theorem Origin.append (origin : Origin config start written base before) (more : List MetaOp) :
    Origin config start (written ++ more) base before := by
  rcases origin with zero | ⟨within, order, generation, image⟩
  · exact .inl zero
  refine .inr ⟨?_, order, generation, ?_⟩
  · rw [List.length_append]
    omega
  rw [List.take_append_of_le_length within]
  exact image

theorem whole_nil (file : LogFile) : Whole config start [] file :=
  ⟨0, file.content, .inl rfl, by simp [recordBytes]⟩

theorem covers_nil (count : Nat) (file : LogFile) : Covers config start [] count file :=
  ⟨0, file.synced, .inl rfl, by simp [recordBytes]⟩

theorem whole_first (file : LogFile) (lead : Bytes) (op : MetaOp) :
    Whole config start [op] (file.write (lead ++ encodeRecord config.env config.key op)) := by
  refine ⟨0, file.content ++ lead, .inl rfl, ?_⟩
  simp [recordBytes, LogFile.write, LogFile.content]

theorem Whole.write (whole : Whole config start written file) (op : MetaOp) :
    Whole config start (written ++ [op]) (file.write (encodeRecord config.env config.key op)) := by
  obtain ⟨base, before, origin, content⟩ := whole
  refine ⟨base, before, origin.append [op], ?_⟩
  rw [List.drop_append_of_le_length origin.le, recordBytes_append, ← List.append_assoc, ← content]
  simp [recordBytes, LogFile.write, LogFile.content]

theorem Whole.sync (whole : Whole config start written file) :
    Whole config start written file.sync := by
  obtain ⟨base, before, origin, content⟩ := whole
  refine ⟨base, before, origin, ?_⟩
  rw [← content]
  simp [LogFile.sync, LogFile.content]

theorem whole_image {order : IterOrder} {generation : UInt64}
    (content : file.content = writeLogImage order config.env config.key
      (stateAfter config start written) (some generation)) :
    Whole config start written file := by
  refine ⟨written.length, file.content, .inr ⟨le_refl _, order, generation, ?_⟩, ?_⟩
  · rw [List.take_length]
    exact content
  · simp [recordBytes]

theorem Whole.covers (whole : Whole config start written file) (synced : file.unsynced = [])
    (count : Nat) : Covers config start written count file := by
  obtain ⟨base, before, origin, content⟩ := whole
  refine ⟨base, before, origin, ?_⟩
  have every : file.synced = before ++ recordBytes config (written.drop base) := by
    rw [← content, LogFile.content, synced, List.append_nil]
  obtain ⟨rest, split⟩ := (List.take_prefix count written).drop base
  rw [every, ← split, recordBytes_append, ← List.append_assoc]
  exact List.prefix_append _ _

theorem Covers.write (covers : Covers config start written count file)
    (within : count ≤ written.length) (more : List MetaOp) (bytes : Bytes) :
    Covers config start (written ++ more) count (file.write bytes) := by
  obtain ⟨base, before, origin, onDisk⟩ := covers
  refine ⟨base, before, origin.append more, ?_⟩
  rw [List.take_append_of_le_length within]
  exact onDisk

theorem Covers.le (covers : Covers config start written count file) {fewer : Nat}
    (le : fewer ≤ count) : Covers config start written fewer file := by
  obtain ⟨base, before, origin, onDisk⟩ := covers
  refine ⟨base, before, origin, List.IsPrefix.trans ?_ onDisk⟩
  obtain ⟨rest, split⟩ := (List.take_prefix_take_left le : written.take fewer <+: _).drop base
  rw [← split, recordBytes_append, ← List.append_assoc]
  exact List.prefix_append _ _

theorem Covers.sync (covers : Covers config start written count file) :
    Covers config start written count file.sync := by
  obtain ⟨base, before, origin, onDisk⟩ := covers
  exact ⟨base, before, origin, onDisk.trans (List.prefix_append _ _)⟩

end Files

/-! ## Files under a name -/

variable (files : List LogFile)

namespace World

variable {world : World} {name : Option Nat} {inode : Nat}

theorem fileAt_modify (change : LogFile → LogFile) (kept : inode < files.length ∨ change {} = {}) :
    ((name.bind fun other => (files.modify inode change)[other]?).getD {} : LogFile) =
      if name = some inode then change ((name.bind fun other => files[other]?).getD {})
      else (name.bind fun other => files[other]?).getD {} := by
  rcases name with _ | other
  · rfl
  by_cases same : other = inode
  · subst same
    cases found : files[other]? with
    | some file => simp [found]
    | none =>
      have unchanged := kept.resolve_left (by simpa using found)
      simp [found, unchanged]
  · simp [same, List.getElem?_modify_ne _ _ (Ne.symm same)]

theorem fileAt_append (file : LogFile)
    (present : ∀ other, name = some other → other < files.length) :
    ((name.bind fun other => (files ++ [file])[other]?).getD {} : LogFile) =
      (name.bind fun other => files[other]?).getD {} := by
  cases name with
  | none => rfl
  | some other => simp [List.getElem?_append_left (present other rfl)]

theorem fileAt_new (file : LogFile) :
    (((some files.length).bind fun other => (files ++ [file])[other]?).getD {} : LogFile) =
      file := by
  simp

end World

/-! ## What holds while the state lock is held -/

section Invariant

variable (config : Config) (start : State)

namespace World

/-- Both handles are on the file at the log path, whose name is on disk. -/
structure Steady (world : World) : Prop where
  stable : world.stable = world.path
  handle : world.handle = world.log
  log : ∀ inode, world.log = some inode → world.path = some inode
  unopened : world.log = none → world.written = []

/-- Everything written is counted and applied. -/
structure Current (world : World) : Prop where
  appended : world.appended = world.written.length
  ram : world.ram = stateAfter config start world.written

/-- The last record written is not applied yet, and counted only if `counted`. -/
def Pending (op : MetaOp) (counted : Bool) (world : World) : Prop :=
  ∃ earlier, world.written = earlier ++ [op] ∧
    world.appended = earlier.length + counted.toNat ∧
    world.ram = stateAfter config start earlier

structure Image (world : World) (inode : Nat) : Prop where
  present : inode < world.files.length
  apart : some inode ∉ world.names
  content : ∃ order generation, (world.fileAt (some inode)).content =
    writeLogImage order config.env config.key world.ram (some generation)

structure Installed (world : World) (inode : Nat) : Prop where
  path : world.path = some inode
  synced : (world.fileAt (some inode)).unsynced = []

end World

def Phase.Shape (world : World) : Phase → Prop
  | .free | .held => world.Steady ∧ world.Current config start
  | .unopened => world.Steady ∧ world.Current config start ∧ world.log = none
  | .opened inode =>
    world.Steady ∧ world.Current config start ∧ world.log = none ∧ world.path = some inode
  | .wrote inode op =>
    world.Pending config start op false ∧ world.path = some inode ∧ world.stable = some inode
  | .logged inode op =>
    world.Pending config start op false ∧ world.path = some inode ∧
      world.stable = some inode ∧ world.log = some inode
  | .appending inode =>
    world.Steady ∧ world.Current config start ∧ world.log = some inode
  | .ready op => world.Steady ∧ world.Pending config start op false
  | .counted op => world.Steady ∧ world.Pending config start op true
  | .imaged inode => world.Steady ∧ world.Current config start ∧ world.Image config inode
  | .flushed inode =>
    world.Steady ∧ world.Current config start ∧ world.Image config inode ∧
      (world.fileAt (some inode)).unsynced = []
  | .renamed inode => world.Current config start ∧ world.Installed inode
  | .placed inode =>
    world.Current config start ∧ world.Installed inode ∧ world.stable = some inode
  | .attached inode =>
    world.Current config start ∧ world.Installed inode ∧ world.stable = some inode ∧
      world.log = some inode
  | .switched inode =>
    world.Current config start ∧ world.Installed inode ∧ world.Steady
  | .measured inode appended =>
    world.Current config start ∧ world.Installed inode ∧ world.Steady ∧
      world.appended = appended

/-- The invariant of the engine while the holder of the state lock is in some
phase. -/
structure World.Sound (phase : Phase) (world : World) : Prop where
  shape : phase.Shape config start world
  present : ∀ inode, some inode ∈ world.names → inode < world.files.length
  whole : ∀ name ∈ world.names, Whole config start world.written (world.fileAt name)
  reachable : ∀ inode, world.handle = some inode → ∀ name ∈ world.names,
    name = some inode ∨ (world.fileAt name).unsynced = []
  covers : ∀ name ∈ world.names,
    Covers config start world.written world.synced (world.fileAt name)
  counted : world.appended ≤ world.written.length
  bounded : world.synced ≤ world.appended

structure Noted (world : World) (notes : Notes) : Prop where
  loaded : ∀ covered, notes.commit = .loaded covered → covered ≤ world.appended
  reached : ∀ covered, notes.commit = .reached covered → covered ≤ world.appended ∧
    ∀ name ∈ world.names, Covers config start world.written covered (world.fileAt name)
  floor : notes.floor ≤ world.synced
  ticket : ∀ op seq, notes.ticket = some (op, seq) →
    0 < seq ∧ seq ≤ world.appended ∧ world.written[seq - 1]? = some op

def holding (world : World) (notes : Nat → Notes) : Phase :=
  world.inner.elim .free fun index => (notes index).phase

structure Invariant (world : World) (notes : Nat → Notes) : Prop where
  inner : ∀ index, (notes index).phase ≠ .free → world.inner = some index
  sync : ∀ index, (notes index).commit ≠ .free → world.sync = some index
  sound : world.Sound config start (holding world notes)
  noted : ∀ index, Noted config start world (notes index)

/-- Nothing is taken back: the counters and the records only grow, and what is
on disk stays there. -/
structure Grows (world next : World) : Prop where
  appended : world.appended ≤ next.appended
  synced : world.synced ≤ next.synced
  written : world.written <+: next.written
  covers : ∀ count ≤ world.appended,
    (∀ name ∈ world.names, Covers config start world.written count (world.fileAt name)) →
    ∀ name ∈ next.names, Covers config start next.written count (next.fileAt name)

end Invariant

section Steps

variable {config : Config} {start : State} {world next : World} {notes : Nat → Notes}
  {index : Nat} {changed : Notes} {phase : Phase}

/-- Everything a phase relies on is as it was; files may have been synced. -/
structure SameLog (world next : World) : Prop where
  length : next.files.length = world.files.length
  content : ∀ name, (next.fileAt name).content = (world.fileAt name).content
  flushed : ∀ name, (world.fileAt name).unsynced = [] → (next.fileAt name).unsynced = []
  path : next.path = world.path
  stable : next.stable = world.stable
  ram : next.ram = world.ram
  log : next.log = world.log
  handle : next.handle = world.handle
  appended : next.appended = world.appended
  written : next.written = world.written

namespace SameLog

theorem locks (world : World) (inner sync : Option Nat) (synced imageLen : Nat)
    (generation : UInt64) :
    SameLog world { world with
      inner := inner, sync := sync, synced := synced, imageLen := imageLen,
      generation := generation } where
  length := rfl
  content _ := rfl
  flushed _ := id
  path := rfl
  stable := rfl
  ram := rfl
  log := rfl
  handle := rfl
  appended := rfl
  written := rfl

section

variable (same : SameLog world next)

include same

theorem names : next.names = world.names := by
  rw [World.names, World.names, same.path, same.stable]

theorem steady (steady : world.Steady) : next.Steady where
  stable := by rw [same.stable, same.path, steady.stable]
  handle := by rw [same.handle, same.log, steady.handle]
  log := by rw [same.log, same.path]; exact steady.log
  unopened := by rw [same.log, same.written]; exact steady.unopened

theorem current (current : world.Current config start) :
    next.Current config start where
  appended := by rw [same.appended, same.written, current.appended]
  ram := by rw [same.ram, same.written, current.ram]

theorem pending {op : MetaOp} {counted : Bool} (pending : world.Pending config start op counted) :
    next.Pending config start op counted := by
  unfold World.Pending
  rw [same.written, same.appended, same.ram]
  exact pending

end

variable {inode : Nat}

section

variable (same : SameLog world next)

include same

theorem image (image : world.Image config inode) :
    next.Image config inode where
  present := by rw [same.length]; exact image.present
  apart := by rw [same.names]; exact image.apart
  content := by rw [same.content, same.ram]; exact image.content

theorem installed (installed : world.Installed inode) :
    next.Installed inode where
  path := by rw [same.path, installed.path]
  synced := same.flushed _ installed.synced

theorem shape (shape : phase.Shape config start world) :
    phase.Shape config start next := by
  cases phase with
  | free | held => exact ⟨same.steady shape.1, same.current shape.2⟩
  | opened inode =>
    obtain ⟨steady, current, log, path⟩ := shape
    exact ⟨same.steady steady, same.current current, same.log.trans log, same.path.trans path⟩
  | wrote inode op =>
    obtain ⟨pending, path, stable⟩ := shape
    exact ⟨same.pending pending, same.path.trans path, same.stable.trans stable⟩
  | logged inode op =>
    obtain ⟨pending, path, stable, log⟩ := shape
    exact ⟨same.pending pending, same.path.trans path, same.stable.trans stable, same.log.trans log⟩
  | ready op | counted op => exact ⟨same.steady shape.1, same.pending shape.2⟩
  | imaged inode =>
    obtain ⟨steady, current, image⟩ := shape
    exact ⟨same.steady steady, same.current current, same.image image⟩
  | flushed inode =>
    obtain ⟨steady, current, image, synced⟩ := shape
    exact ⟨same.steady steady, same.current current, same.image image, same.flushed _ synced⟩
  | renamed inode => exact ⟨same.current shape.1, same.installed shape.2⟩
  | placed inode =>
    obtain ⟨current, installed, stable⟩ := shape
    exact ⟨same.current current, same.installed installed, same.stable.trans stable⟩
  | attached inode =>
    obtain ⟨current, installed, stable, log⟩ := shape
    exact ⟨same.current current, same.installed installed, same.stable.trans stable,
      same.log.trans log⟩
  | switched inode =>
    obtain ⟨current, installed, steady⟩ := shape
    exact ⟨same.current current, same.installed installed, same.steady steady⟩
  | measured inode appended =>
    obtain ⟨current, installed, steady, counted⟩ := shape
    exact ⟨same.current current, same.installed installed, same.steady steady,
      same.appended.trans counted⟩
  | _ =>
    obtain ⟨steady, current, log⟩ := shape
    exact ⟨same.steady steady, same.current current, same.log.trans log⟩

/-- The invariant of a phase survives as far as the watermark is covered. -/
theorem sound (sound : world.Sound config start phase)
    (covers : ∀ name ∈ world.names,
      Covers config start world.written next.synced (next.fileAt name))
    (bounded : next.synced ≤ world.appended) : next.Sound config start phase where
  shape := same.shape sound.shape
  present := by rw [same.names, same.length]; exact sound.present
  whole := by
    rw [same.names, same.written]
    intro name named
    obtain ⟨base, before, origin, content⟩ := sound.whole name named
    exact ⟨base, before, origin, (same.content name).trans content⟩
  reachable := by
    rw [same.names, same.handle]
    intro inode handle name named
    exact (sound.reachable inode handle name named).imp_right (same.flushed name)
  covers := by rw [same.names, same.written]; exact covers
  counted := by rw [same.appended, same.written]; exact sound.counted
  bounded := by rw [same.appended]; exact bounded

end

end SameLog

theorem Noted.grow {notes : Notes} (noted : Noted config start world notes)
    (grows : Grows config start world next) : Noted config start next notes where
  loaded covered found := (noted.loaded covered found).trans grows.appended
  reached covered found := by
    obtain ⟨counted, covers⟩ := noted.reached covered found
    exact ⟨counted.trans grows.appended, grows.covers covered counted covers⟩
  floor := noted.floor.trans grows.synced
  ticket op seq found := by
    obtain ⟨positive, counted, held⟩ := noted.ticket op seq found
    refine ⟨positive, counted.trans grows.appended, ?_⟩
    obtain ⟨more, extended⟩ := grows.written
    obtain ⟨within, _⟩ := List.getElem?_eq_some_iff.mp held
    rw [← extended, List.getElem?_append_left within]
    exact held

section

variable (invariant : Invariant config start world notes)

include invariant

/-- One thread takes a step: it holds what its notes say, and so do the others. -/
theorem Invariant.step (grows : Grows config start world next)
    (mine : changed.phase ≠ .free → next.inner = some index)
    (theirs : ∀ other ≠ index, world.inner = some other → next.inner = some other)
    (syncMine : changed.commit ≠ .free → next.sync = some index)
    (syncTheirs : ∀ other ≠ index, world.sync = some other → next.sync = some other)
    (sound : next.Sound config start (holding next (update notes index changed)))
    (noted : Noted config start next changed) :
    Invariant config start next (update notes index changed) where
  inner other busy := by
    by_cases same : other = index
    · subst same
      rw [update_self] at busy
      exact mine busy
    rw [update_of_ne same] at busy
    exact theirs other same (invariant.inner other busy)
  sync other busy := by
    by_cases same : other = index
    · subst same
      rw [update_self] at busy
      exact syncMine busy
    rw [update_of_ne same] at busy
    exact syncTheirs other same (invariant.sync other busy)
  sound := sound
  noted other := by
    by_cases same : other = index
    · subst same
      rw [update_self]
      exact noted
    rw [update_of_ne same]
    exact (invariant.noted other).grow grows

/-- A step of the holder of the state lock. -/
theorem Invariant.inside (busy : (notes index).phase ≠ .free)
    (grows : Grows config start world next)
    (inner : next.inner = world.inner) (sync : next.sync = world.sync)
    (commits : changed.commit ≠ .free → (notes index).commit ≠ .free)
    (sound : next.Sound config start changed.phase)
    (noted : Noted config start next changed) :
    Invariant config start next (update notes index changed) := by
  have holder := invariant.inner index busy
  refine invariant.step grows (fun _ => inner.trans holder) (fun _ _ => inner.trans)
    (fun held => sync.trans (invariant.sync index (commits held))) (fun _ _ => sync.trans) ?_ noted
  have held : holding next (update notes index changed) = changed.phase := by
    rw [holding, inner, holder]
    simp
  rw [held]
  exact sound

/-- A step that does not need the state lock. -/
theorem Invariant.beside (phases : changed.phase = (notes index).phase)
    (grows : Grows config start world next)
    (inner : next.inner = world.inner)
    (syncMine : changed.commit ≠ .free → next.sync = some index)
    (syncTheirs : ∀ other ≠ index, world.sync = some other → next.sync = some other)
    (sound : ∀ phase, world.Sound config start phase → next.Sound config start phase)
    (noted : Noted config start next changed) :
    Invariant config start next (update notes index changed) := by
  refine invariant.step grows ?_ (fun _ _ => inner.trans) syncMine syncTheirs ?_ noted
  · intro busy
    rw [phases] at busy
    exact inner.trans (invariant.inner index busy)
  have same : holding next (update notes index changed) = holding world notes := by
    rw [holding, holding, inner]
    rcases world.inner with _ | other
    · rfl
    by_cases same : other = index
    · subst same
      simp [phases]
    · simp [update_of_ne same]
  rw [same]
  exact sound _ invariant.sound

theorem Invariant.sound_at (at_ : (notes index).phase = phase) (busy : phase ≠ .free := by nofun) :
    world.Sound config start phase := by
  have held := invariant.sound
  rw [holding, invariant.inner index (by rw [at_]; exact busy)] at held
  rw [← at_]
  exact held

end

/-! ## Steps that leave the files alone -/

structure SameFiles (world next : World) : Prop where
  files : next.files = world.files
  path : next.path = world.path
  stable : next.stable = world.stable
  written : next.written = world.written
  synced : next.synced = world.synced

namespace SameFiles

theorem names (same : SameFiles world next) : next.names = world.names := by
  rw [World.names, World.names, same.path, same.stable]

theorem fileAt (same : SameFiles world next) : next.fileAt = world.fileAt := by
  funext name
  rw [World.fileAt, World.fileAt, same.files]

theorem sound (same : SameFiles world next) {reached : Phase}
    (sound : world.Sound config start phase)
    (shape : reached.Shape config start next)
    (reachable : ∀ inode, next.handle = some inode → ∀ name ∈ world.names,
      name = some inode ∨ (world.fileAt name).unsynced = [])
    (counted : next.appended ≤ world.written.length)
    (bounded : world.appended ≤ next.appended) : next.Sound config start reached where
  shape := shape
  present := by rw [same.names, same.files]; exact sound.present
  whole := by rw [same.names, same.written, same.fileAt]; exact sound.whole
  reachable := by rw [same.names, same.fileAt]; exact reachable
  covers := by rw [same.names, same.written, same.synced, same.fileAt]; exact sound.covers
  counted := by rw [same.written]; exact counted
  bounded := by rw [same.synced]; exact sound.bounded.trans bounded

theorem grows (same : SameFiles world next) (bounded : world.appended ≤ next.appended) :
    Grows config start world next where
  appended := bounded
  synced := same.synced.ge
  written := by rw [same.written]
  covers := by
    rw [same.names, same.written, same.fileAt]
    exact fun _ _ covers => covers

end SameFiles

theorem SameLog.grows (same : SameLog world next) (synced : world.synced ≤ next.synced)
    (covers : ∀ count name, Covers config start world.written count (world.fileAt name) →
      Covers config start world.written count (next.fileAt name)) :
    Grows config start world next where
  appended := same.appended.ge
  synced := synced
  written := by rw [same.written]
  covers count _ onDisk name named := by
    rw [same.names] at named
    rw [same.written]
    exact covers count name (onDisk name named)

/-! ## Appending -/

theorem mem_names {name : Option Nat} (named : name ∈ world.names) :
    name = world.path ∨ name = world.stable := by
  simpa [World.names] using named

theorem World.Sound.createLog (sound : world.Sound config start .unopened) :
    let next := { world with
      files := world.files ++ [{}]
      path := some world.files.length
      stable := some world.files.length }
    next.Sound config start (.opened world.files.length) ∧ Grows config start world next := by
  intro next
  obtain ⟨steady, current, log⟩ := sound.shape
  have nothing : world.written = [] := steady.unopened log
  have closed : world.handle = none := steady.handle.trans log
  have every : ∀ name ∈ next.names, name = some world.files.length := by
    intro name named
    rcases mem_names named with same | same <;> exact same
  refine ⟨⟨⟨⟨rfl, steady.handle, ?_, fun _ => nothing⟩, ⟨current.appended, current.ram⟩, log, rfl⟩,
    ?_, ?_, ?_, ?_, sound.counted, sound.bounded⟩,
    ⟨le_refl _, le_refl _, List.prefix_refl _, ?_⟩⟩
  · intro inode found
    rw [log] at found
    cases found
  · intro inode named
    cases every _ named
    simp [next]
  · intro name named
    rw [nothing]
    exact whole_nil _
  · intro inode handle
    rw [closed] at handle
    cases handle
  · intro name named
    rw [nothing]
    exact covers_nil _ _
  intro count _ _ name named
  rw [nothing]
  exact covers_nil _ _

variable {inode : Nat} {reached : Phase}

theorem World.Sound.append {bytes : Bytes} {op : MetaOp} (sound : world.Sound config start phase)
    (path : world.path = some inode) (stable : world.stable = some inode)
    (handle : world.handle = none ∨ world.handle = some inode)
    (whole : Whole config start (world.written ++ [op]) ((world.fileAt (some inode)).write bytes)) :
    let next := { world with
      files := world.files.modify inode fun file => file.write bytes
      written := world.written ++ [op] }
    reached.Shape config start next →
      next.Sound config start reached ∧ Grows config start world next := by
  intro next shape
  have present : inode < world.files.length := sound.present inode (by simp [World.names, path])
  have every : ∀ name ∈ world.names, name = some inode := by
    intro name named
    rcases mem_names named with same | same
    · exact same.trans path
    · exact same.trans stable
  have file : next.fileAt (some inode) = (world.fileAt (some inode)).write bytes :=
    (World.fileAt_modify _ _ (.inl present)).trans (if_pos rfl)
  have covers : ∀ count ≤ world.written.length,
      (∀ name ∈ world.names, Covers config start world.written count (world.fileAt name)) →
      ∀ name ∈ next.names, Covers config start next.written count (next.fileAt name) := by
    intro count within onDisk name named
    cases every name named
    rw [file]
    exact (onDisk _ named).write within [op] bytes
  refine ⟨⟨shape, ?_, ?_, ?_, ?_, ?_, sound.bounded⟩,
    ⟨le_refl _, le_refl _, List.prefix_append _ _, ?_⟩⟩
  · intro other named
    cases every _ named
    simpa [next] using present
  · intro name named
    rw [every name named, file]
    exact whole
  · intro other held name named
    rcases handle with none | same
    · rw [none] at held
      cases held
    rw [same] at held
    exact .inl ((every name named).trans held)
  · exact covers world.synced (sound.bounded.trans sound.counted) sound.covers
  · simp only [next, List.length_append]
    exact sound.counted.trans (Nat.le_add_right _ _)
  · exact fun count within => covers count (within.trans sound.counted)

/-! ## Syncing -/

section Sync

variable {inode : Nat}

section

variable (synced : next = { world with files := world.files.modify inode LogFile.sync })

include synced

theorem fileAt_sync (name : Option Nat) :
    next.fileAt name =
      if name = some inode then (world.fileAt name).sync else world.fileAt name := by
  rw [synced]
  exact World.fileAt_modify _ _ (.inr rfl)

theorem sameLog_sync : SameLog world next where
  length := by rw [synced]; simp
  content name := by
    rw [fileAt_sync synced]
    split
    · simp [LogFile.sync, LogFile.content]
    · rfl
  flushed name flushed := by
    rw [fileAt_sync synced]
    split
    · rfl
    · exact flushed
  path := by rw [synced]
  stable := by rw [synced]
  ram := by rw [synced]
  log := by rw [synced]
  handle := by rw [synced]
  appended := by rw [synced]
  written := by rw [synced]

theorem covers_sync (count : Nat) (name : Option Nat)
    (covers : Covers config start world.written count (world.fileAt name)) :
    Covers config start world.written count (next.fileAt name) := by
  rw [fileAt_sync synced]
  split
  · exact covers.sync
  · exact covers

end

theorem World.Sound.sync (sound : world.Sound config start phase)
    (synced : next = { world with files := world.files.modify inode LogFile.sync }) :
    next.Sound config start phase := by
  have watermark : next.synced = world.synced := by rw [synced]
  refine (sameLog_sync synced).sound sound ?_ ?_
  · intro name named
    rw [watermark]
    exact covers_sync synced _ name (sound.covers name named)
  rw [watermark]
  exact sound.bounded

theorem grows_sync (synced : next = { world with
      files := world.files.modify inode LogFile.sync }) : Grows config start world next := by
  refine (sameLog_sync synced).grows ?_ (covers_sync synced)
  rw [synced]

theorem World.Sound.covers_of_sync (sound : world.Sound config start phase)
    (handle : world.handle = some inode)
    (synced : next = { world with files := world.files.modify inode LogFile.sync })
    (count : Nat) :
    ∀ name ∈ next.names, Covers config start next.written count (next.fileAt name) := by
  have same := sameLog_sync synced
  rw [same.names, same.written]
  intro name named
  have whole := sound.whole name named
  rcases sound.reachable inode handle name named with isHandle | flushed
  · rw [fileAt_sync synced, if_pos isHandle]
    exact whole.sync.covers rfl count
  · exact covers_sync synced count name (whole.covers flushed count)

end Sync

/-! ## Compaction -/

/-- Every file at the log path is one that was there before, or is synced and
holds everything written. -/
theorem World.Sound.move (sound : world.Sound config start phase)
    (written : next.written = world.written) (synced : next.synced = world.synced)
    (appended : next.appended = world.appended) (handle : next.handle = world.handle)
    (shape : reached.Shape config start next)
    (present : ∀ inode, some inode ∈ next.names → inode < next.files.length)
    (files : ∀ name ∈ next.names,
      (name ∈ world.names ∧ next.fileAt name = world.fileAt name) ∨
        (Whole config start world.written (next.fileAt name) ∧ (next.fileAt name).unsynced = [])) :
    next.Sound config start reached ∧ Grows config start world next := by
  have covers : ∀ count,
      (∀ name ∈ world.names, Covers config start world.written count (world.fileAt name)) →
      ∀ name ∈ next.names, Covers config start next.written count (next.fileAt name) := by
    intro count onDisk name named
    rw [written]
    rcases files name named with ⟨before, same⟩ | ⟨whole, flushed⟩
    · rw [same]
      exact onDisk name before
    · exact whole.covers flushed count
  refine ⟨⟨shape, present, ?_, ?_, ?_, ?_, ?_⟩, ⟨appended.ge, synced.ge, ?_,
    fun count _ => covers count⟩⟩
  · intro name named
    rw [written]
    rcases files name named with ⟨before, same⟩ | ⟨whole, _⟩
    · rw [same]
      exact sound.whole name before
    · exact whole
  · intro inode held name named
    rw [handle] at held
    rcases files name named with ⟨before, same⟩ | ⟨_, flushed⟩
    · rw [same]
      exact sound.reachable inode held name before
    · exact .inr flushed
  · rw [synced]
    exact covers world.synced sound.covers
  · rw [appended, written]
    exact sound.counted
  · rw [synced, appended]
    exact sound.bounded
  · rw [written]

theorem World.Sound.createImage (order : IterOrder) (generation : UInt64)
    (sound : world.Sound config start .held) :
    let next := { world with
      files := world.files ++ [{
        unsynced := writeLogImage order config.env config.key world.ram (some generation) }] }
    next.Sound config start (.imaged world.files.length) ∧ Grows config start world next := by
  intro next
  obtain ⟨steady, current⟩ := sound.shape
  have content : (next.fileAt (some world.files.length)).content =
      writeLogImage order config.env config.key world.ram (some generation) :=
    congrArg LogFile.content (World.fileAt_new _ _)
  refine sound.move rfl rfl rfl rfl ⟨{ steady with },
    ⟨current.appended, current.ram⟩, ⟨?_, ?_, order, generation, content⟩⟩ ?_ ?_
  · simp [next]
  · intro named
    exact absurd (sound.present _ named) (lt_irrefl _)
  · intro inode named
    simp only [next, List.length_append]
    exact Nat.lt_add_right _ (sound.present inode named)
  intro name named
  refine .inl ⟨named, World.fileAt_append _ _ fun other same => ?_⟩
  exact sound.present other (same ▸ named)

theorem World.Sound.syncAll (sound : world.Sound config start (.imaged inode)) :
    { world with files := world.files.modify inode LogFile.sync }.Sound config start
      (.flushed inode) := by
  have kept : { world with files := world.files.modify inode LogFile.sync }.Sound config start
      (.imaged inode) := sound.sync rfl
  obtain ⟨steady, current, image⟩ := kept.shape
  refine { kept with shape := ⟨steady, current, image, ?_⟩ }
  rw [fileAt_sync rfl, if_pos rfl]
  rfl

/-- The image takes the log's place; a crash may still bring the old log back. -/
theorem World.Sound.rename (sound : world.Sound config start (.flushed inode)) :
    { world with path := some inode }.Sound config start (.renamed inode) ∧
      Grows config start world { world with path := some inode } := by
  obtain ⟨steady, current, image, flushed⟩ := sound.shape
  have named : ∀ name ∈ { world with path := some inode }.names,
      name = some inode ∨ name ∈ world.names := by
    intro name named
    refine (mem_names named).imp id fun same => ?_
    simp [World.names, same]
  have whole : Whole config start world.written (world.fileAt (some inode)) := by
    obtain ⟨order, generation, content⟩ := image.content
    rw [current.ram] at content
    exact whole_image content
  refine sound.move rfl rfl rfl rfl ⟨⟨current.appended, current.ram⟩, ⟨rfl, flushed⟩⟩ ?_ ?_
  · intro other known
    rcases named _ known with same | before
    · cases same
      exact image.present
    · exact sound.present other before
  intro name known
  rcases named name known with rfl | before
  · exact .inr ⟨whole, flushed⟩
  · exact .inl ⟨before, rfl⟩

theorem World.Sound.syncDirectory (sound : world.Sound config start (.renamed inode)) :
    { world with stable := world.path }.Sound config start (.placed inode) ∧
      Grows config start world { world with stable := world.path } := by
  obtain ⟨current, installed⟩ := sound.shape
  have named : ∀ name ∈ { world with stable := world.path }.names, name ∈ world.names := by
    intro name named
    rcases mem_names named with same | same <;> simp [World.names, same]
  exact sound.move rfl rfl rfl rfl ⟨⟨current.appended, current.ram⟩,
    ⟨installed.path, installed.synced⟩, installed.path⟩
    (fun other known => sound.present other (named _ known))
    fun name known => .inl ⟨named name known, rfl⟩

theorem World.Sound.setSynced {appended : Nat}
    (sound : world.Sound config start (.measured inode appended)) :
    { world with synced := appended }.Sound config start .held ∧
      Grows config start world { world with synced := appended } := by
  obtain ⟨current, installed, steady, rfl⟩ := sound.shape
  have same : SameLog world { world with synced := world.appended } := .locks world _ _ _ _ _
  have path : ∀ name ∈ world.names, name = some inode := by
    intro name named
    rcases mem_names named with isPath | isStable
    · exact isPath.trans installed.path
    · exact isStable.trans (steady.stable.trans installed.path)
  have kept := same.sound sound (fun name named => ?_) (le_refl _)
  · exact ⟨{ kept with shape := ⟨same.steady steady, same.current current⟩ },
      same.grows sound.bounded fun _ _ => id⟩
  refine (sound.whole name named).covers ?_ _
  rw [path name named]
  exact installed.synced

end Steps

end Roci.Metadata.Journal
