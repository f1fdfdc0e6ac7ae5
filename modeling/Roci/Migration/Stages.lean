import Roci.Migration.Steps

/-!
# The stages of a migration

Until the rename of the destination the source is active and its artifact is
untouched; after it both artifacts open to what they should; the marker then
makes the copy the active one.  A migration is always in one of these stages.
-/

namespace Roci.Migration

open Roci.Library Roci.Metadata Roci.Lmdb
open Program (guarded_act guarded_bind)
open Function (update update_eq_self update_idem update_of_ne update_self)

variable (setup : Setup) {Safe : Disk → Prop} {disk : Disk}

/-! ## Clearing the way -/

theorem emptied_of_isDir {place : Place} {node : Node} (proper : place ≠ .verifyDir)
    (stored : disk place = some node) (directory : node.isDir = true) :
    emptied disk place = update disk place (some .directory) := by
  unfold emptied
  rw [stored]
  cases node with
  | file bytes => cases directory
  | directory =>
    rw [← stored, update_eq_self]
    split
    · exact absurd rfl proper
    · simp_all
    · rfl
  | database tables =>
    split
    · exact absurd rfl proper
    · rfl
    · simp_all

theorem keeps_cleanLeftover (steady : Steady Safe) (safe : Safe disk) {place : Place}
    (scratch : place.lasting = false) (proper : place ≠ .verifyDir) :
    Keeps setup Safe (cleanLeftover place) disk fun _ after =>
      after = update disk place none := by
  have cleared : ∀ node, Safe (update disk place node) := steady.update safe scratch
  refine keeps_isDir setup safe ?_
  cases stored : disk place with
  | none =>
    refine keeps_present setup safe ?_
    rw [stored]
    exact ⟨safe, by rw [← stored, update_eq_self]⟩
  | some node =>
    by_cases directory : node.isDir = true
    · simp only [Option.any_some, directory, if_true, Keeps, removeDirAll, guarded_bind,
        guarded_act, effect, emptied_of_isDir proper stored directory,
        update_self, update_idem]
      exact ⟨safe, fun _ => ⟨cleared _, cleared _, fun _ => ⟨cleared _, trivial⟩⟩⟩
    rw [Option.any_some, if_neg directory]
    refine keeps_present setup safe ?_
    simp only [stored, Option.isSome_some, if_true, Keeps, guarded_act, effect,
      Option.any_some, directory, Bool.false_eq_true, if_false]
    exact ⟨safe, fun _ => ⟨cleared _, trivial⟩⟩

/-- Neither the lasting files nor the destinations are touched. -/
structure Spared (disk after : Disk) : Prop where
  framed : Framed disk after
  destinations : ∀ engine, after (.migrating engine) = disk (.migrating engine)

theorem keeps_removeVerifyDir (steady : Steady Safe) (safe : Safe disk) :
    Keeps setup Safe (removeDirAll .verifyDir) disk fun _ after => Spared disk after := by
  have emptying : Spared disk (emptied disk .verifyDir) := by
    refine ⟨fun place lasting => ?_, fun engine => rfl⟩
    cases place <;> first | rfl | cases lasting
  have removing : Spared disk (update (emptied disk .verifyDir) .verifyDir none) :=
    ⟨emptying.framed.update rfl none, fun engine => rfl⟩
  have safeEmptied := steady _ _ emptying.framed safe
  simp only [Keeps, removeDirAll, guarded_bind, guarded_act, effect]
  refine ⟨safe, fun _ => ⟨safeEmptied, safeEmptied, fun _ => ?_⟩⟩
  split
  · exact ⟨steady _ _ removing.framed safe, removing⟩
  · exact ⟨safeEmptied, emptying⟩

theorem keeps_cleanMigratingLeftovers (steady : Steady Safe) (safe : Safe disk) :
    Keeps setup Safe cleanMigratingLeftovers disk fun _ after =>
      Framed disk after ∧ ∀ engine, after (.migrating engine) = none := by
  simp only [Keeps, cleanMigratingLeftovers, guarded_bind]
  refine (keeps_cleanLeftover setup steady safe rfl (by simp)).weaken fun _ first safe same => ?_
  refine (keeps_cleanLeftover setup steady safe rfl (by simp)).weaken fun _ second safe again => ?_
  have framed : Framed disk second := by
    rw [again, same]
    exact ((Framed.refl disk).update rfl none).update rfl none
  have cleared : ∀ engine, second (.migrating engine) = none := by
    intro engine
    rw [again, same]
    cases engine <;> simp
  refine ⟨safe, fun _ => ⟨safe, ?_⟩⟩
  change Keeps setup Safe (if (second .verifyDir).any Node.isDir then _ else _) second _
  split
  · refine (keeps_removeVerifyDir setup steady safe).weaken fun _ third _ spared => ?_
    exact ⟨framed.trans spared.framed, fun engine => by
      rw [spared.destinations, cleared]⟩
  · exact ⟨safe, framed, cleared⟩

/-- An artifact is out of the way and nothing else has changed. -/
structure SetAside (engine : MetadataEngine) (disk after : Disk) : Prop where
  absent : after (.artifact engine) = none
  others : ∀ place : Place, place ≠ .artifact engine →
    (∀ kind seconds, place ≠ .migrated kind seconds) → after place = disk place

theorem keeps_setAside (safe : Safe disk) {engine : MetadataEngine}
    {post : Except IoError Unit → Disk → Prop}
    (moved : ∀ after, SetAside engine disk after → Safe after ∧ post (.ok ()) after)
    (failed : ∀ error, post (.error error) disk) :
    Keeps setup Safe (setAside engine) disk post := by
  refine keeps_present setup safe ?_
  rcases stored : disk (.artifact engine) with _ | node
  · exact moved disk ⟨stored, fun _ _ _ => rfl⟩
  simp only [Option.isSome_some, if_true, Keeps, guarded_bind, guarded_act, effect, stored]
  refine ⟨safe, fun seconds => ⟨safe, safe, fun _ => ?_⟩⟩
  by_cases free : replaceable node (disk (.migrated engine seconds)) = true
  · simp only [free, if_true]
    refine moved _ ⟨by simp, fun place other proper => ?_⟩
    rw [update_of_ne (proper _ _), update_of_ne other]
  simp only [free, Bool.false_eq_true, if_false]
  exact ⟨safe, failed _⟩

/-! ## Building the destination -/

theorem bulkApply_append (reader : JsonReader) (tables : Tables) (first second : List MetaOp) :
    tables.bulkApply reader (first ++ second) =
      (tables.bulkApply reader first).bind fun next => next.bulkApply reader second := by
  rw [Tables.bulkApply, List.foldlM_append]
  rfl

section Load

variable (steady : Steady Safe) {place : Place} (scratch : place.lasting = false)
include steady scratch

theorem keeps_bulkApply (ops : List MetaOp) {tables : Tables} (safe : Safe disk)
    (stored : disk place = some (.database tables)) :
    Keeps setup Safe (act (.bulkApply place ops)) disk fun result after =>
      result = .ok () → Framed disk after ∧ ∃ loaded,
        tables.bulkApply setup.env.reader ops = .ok loaded ∧
          after place = some (.database loaded) := by
  simp only [Keeps, guarded_act, effect, stored]
  refine ⟨safe, fun _ => ?_⟩
  cases applied : tables.bulkApply setup.env.reader ops with
  | error error => exact ⟨safe, fun done => by cases done⟩
  | ok loaded =>
    exact ⟨steady.update safe scratch _, fun _ => ⟨(Framed.refl disk).update scratch _,
      loaded, rfl, by simp⟩⟩

theorem keeps_load {ops batch : List MetaOp} {tables : Tables} (safe : Safe disk)
    (stored : disk place = some (.database tables)) :
    Keeps setup Safe (load place batch ops) disk fun result after =>
      result = .ok () → Framed disk after ∧ ∃ loaded,
        tables.bulkApply setup.env.reader (batch ++ ops) = .ok loaded ∧
          after place = some (.database loaded) := by
  induction ops generalizing disk batch tables with
  | nil =>
    rw [load, List.append_nil]
    by_cases empty : batch = []
    · subst empty
      exact ⟨safe, fun _ => ⟨.refl disk, tables, rfl, stored⟩⟩
    rw [if_neg (by simpa using empty)]
    exact keeps_bulkApply setup steady scratch batch safe stored
  | cons op ops ih =>
    have regrouped : batch ++ op :: ops = (batch ++ [op]) ++ ops := by simp
    rw [load, regrouped]
    split
    · rw [Keeps, guarded_bind]
      refine (keeps_bulkApply setup steady scratch (batch ++ [op]) safe stored).weaken
        fun result next safe outcome => ?_
      rcases result with error | _
      · exact ⟨safe, fun done => by cases done⟩
      obtain ⟨framed, loaded, applied, kept⟩ := outcome rfl
      refine (ih safe kept).weaken fun result after _ outcome done => ?_
      obtain ⟨later, final, rest, last⟩ := outcome done
      refine ⟨framed.trans later, final, ?_, last⟩
      rw [bulkApply_append, applied]
      exact rest
    · exact ih safe stored

/-- The chunks end up behind each other. -/
theorem keeps_writeAll {chunks : List Bytes} {before : Bytes} (safe : Safe disk)
    (stored : disk place = some (.file before)) :
    Keeps setup Safe (writeAll place chunks) disk fun _ after =>
      Framed disk after ∧ after place = some (.file (before ++ chunks.flatten)) := by
  induction chunks generalizing disk before with
  | nil => exact ⟨safe, .refl disk, by simpa using stored⟩
  | cons chunk chunks ih =>
    have written := steady.update safe scratch (some (.file (before ++ chunk)))
    simp only [Keeps, writeAll, guarded_bind, guarded_act, effect, stored]
    refine ⟨safe, fun _ => ⟨written, ?_⟩⟩
    refine (ih written (update_self _ _ _)).weaken fun _ after _ outcome => ?_
    refine ⟨((Framed.refl disk).update scratch _).trans outcome.1, ?_⟩
    rw [outcome.2, List.flatten_cons, List.append_assoc]

end Load

def Destined (source : Store) (config : MetadataEngine) (disk after : Disk) : Prop :=
  Framed disk after ∧ ∃ dest,
    built setup.env setup.key (source.exportOps setup.order) config = .ok dest ∧
      openedAs setup.env setup.key config (after (.migrating config)) = .ok dest

theorem keeps_buildDestination (steady : Steady Safe) (safe : Safe disk) {config : MetadataEngine}
    (cleared : disk (.migrating config) = none) (source : Store) :
    Keeps setup Safe (buildDestination setup source config) disk fun result after =>
      result = .ok () → Destined setup source config disk after := by
  have scratch : ∀ node, Safe (update disk (.migrating config) node) := steady.update safe rfl
  have framed : ∀ node, Framed disk (update disk (.migrating config) node) :=
    (Framed.refl disk).update rfl
  cases config with
  | log =>
    simp only [Keeps, buildDestination, buildLogDestination, guarded_bind,
      guarded_act, effect, cleared, Option.any_none, Bool.false_eq_true, if_false]
    refine ⟨safe, fun _ => ⟨scratch _, ?_⟩⟩
    refine (keeps_writeAll setup steady rfl (scratch _) (update_self _ _ _)).weaken
      fun _ after safe outcome => ⟨safe, fun _ => ⟨safe, safe, fun _ => ?_⟩⟩
    refine ⟨(framed _).trans outcome.1, _, rfl, ?_⟩
    simp only [outcome.2, List.nil_append, setup.flatten_cut]
    rfl
  | lmdb =>
    simp only [Keeps, buildDestination, buildLmdbDestination, guarded_bind,
      guarded_act, effect, cleared, update_self, openedEnv, update_idem]
    refine ⟨safe, fun _ => ⟨scratch _, scratch _, fun _ => ⟨scratch _, ?_⟩⟩⟩
    refine (keeps_load setup steady rfl (scratch _) (update_self _ _ _)).weaken
      fun result after safe outcome => ?_
    rcases result with error | _
    · exact ⟨safe, fun done => by cases done⟩
    refine ⟨safe, fun _ => ⟨safe, fun _ => ?_⟩⟩
    obtain ⟨later, loaded, applied, kept⟩ := outcome rfl
    refine ⟨(framed _).trans later, .lmdb loaded, ?_, ?_⟩
    · rw [List.nil_append] at applied
      rw [built, applied]
      rfl
    change openedAs setup.env setup.key .lmdb (after (.migrating .lmdb)) = _
    rw [kept]
    rfl

theorem keeps_copyToVerifyDir (steady : Steady Safe) (safe : Safe disk)
    {next : Except IoError Unit → Prog (Except IoError Store)}
    {post : Except IoError Store → Disk → Prop}
    (copied : ∀ after bytes, Spared disk after → disk (.migrating .log) = some (.file bytes) →
      after .verifyLog = some (.file bytes) → Keeps setup Safe (next (.ok ())) after post)
    (failed : ∀ error, Keeps setup Safe (next (.error error)) disk post) :
    Keeps setup Safe (act (.copy (.migrating .log) .verifyLog) >>= next) disk post := by
  simp only [Keeps, guarded_bind, guarded_act, effect]
  refine ⟨safe, fun _ => ?_⟩
  split
  · rename_i bytes stored
    split
    · exact ⟨safe, failed _⟩
    refine ⟨steady.update safe rfl _, copied _ bytes
      ⟨(Framed.refl disk).update rfl _, fun _ => rfl⟩ stored ?_⟩
    simp
  · exact ⟨safe, failed _⟩

theorem keeps_openEngineAt (steady : Steady Safe) (safe : Safe disk) (config : MetadataEngine) :
    Keeps setup Safe (openEngineAt setup config) disk fun result after =>
      ∀ store, result = .ok store → Framed disk after ∧
        openedAs setup.env setup.key config (disk (.migrating config)) = .ok store ∧
        openedAs setup.env setup.key config (after (.migrating config)) = .ok store := by
  cases config with
  | lmdb =>
    refine keeps_openLmdb setup (fun after opening => steady _ _ (opening.framed setup rfl) safe)
      fun after opening store result => ?_
    refine ⟨opening.framed setup rfl, result, ?_⟩
    rw [opening.opens, result]
  | log =>
    have making : Keeps setup Safe (act (.createDirAll .verifyDir)) disk fun _ after =>
        Spared disk after := by
      simp only [Keeps, guarded_act, effect]
      refine ⟨safe, fun _ => ?_⟩
      split
      · exact ⟨steady.update safe rfl _, (Framed.refl disk).update rfl _, fun _ => rfl⟩
      · exact ⟨safe, .refl disk, fun _ => rfl⟩
      · exact ⟨safe, .refl disk, fun _ => rfl⟩
    simp only [Keeps, openEngineAt, guarded_bind]
    refine making.weaken fun result first safe made => ?_
    rcases result with error | _
    · exact ⟨safe, fun _ done => by cases done⟩
    refine keeps_copyToVerifyDir setup steady safe (fun second bytes spared stored copied => ?_)
      fun error => ⟨safe, fun _ done => by cases done⟩
    have safe := steady _ _ spared.framed safe
    simp only [Keeps, guarded_bind]
    refine keeps_openLog setup rfl
      (fun third opening => steady _ _ (opening.framed setup rfl) safe)
      fun third store opening opens => ?_
    have safe := steady _ _ (opening.framed setup rfl) safe
    refine (keeps_removeVerifyDir setup steady safe).weaken fun _ after safe removed => ?_
    refine ⟨safe, fun result done => ?_⟩
    cases done
    have same : after (.migrating .log) = disk (.migrating .log) := by
      rw [removed.destinations, opening.others _ (by simp) rfl, spared.destinations,
        made.destinations]
    rw [copied, ← stored, made.destinations] at opens
    refine ⟨?_, opens, by rw [same, opens]⟩
    exact ((made.framed.trans spared.framed).trans (opening.framed setup rfl)).trans removed.framed

/-! ## The stages -/

section Stages

variable (start : Disk) (source : Store) (sourceEngine config : MetadataEngine)

/-- The destination is under construction. -/
structure Building (disk : Disk) : Prop where
  marker : disk .marker = start .marker
  holds : held setup.env setup.key disk sourceEngine = .ok source
  absent : disk (.artifact config) = none
  kept : disk (.artifact sourceEngine) = start (.artifact sourceEngine) ∨
    source = .empty sourceEngine

/-- What a migration may leave behind wherever it is cut off. -/
inductive Stage : Disk → Prop where
  | preparing {disk : Disk} (framed : Framed start disk) : Stage disk
  | building {disk : Disk} (building : Building setup start source sourceEngine config disk) :
      Stage disk
  | copied {disk : Disk} {dest : Store} (marker : disk .marker = start .marker)
      (holds : held setup.env setup.key disk sourceEngine = .ok source)
      (copy : VerifiedCopy setup.env setup.key source dest)
      (holdsCopy : held setup.env setup.key disk config = .ok dest) : Stage disk
  | switched {disk : Disk} {dest : Store}
      (marker : markerEngine setup.env (disk .marker) = .ok (some config))
      (copy : VerifiedCopy setup.env setup.key source dest)
      (holdsCopy : held setup.env setup.key disk config = .ok dest) : Stage disk

variable {start source sourceEngine config}

theorem held_of_framed {after : Disk} (framed : Framed disk after) (engine : MetadataEngine) :
    held setup.env setup.key after engine = held setup.env setup.key disk engine := by
  rw [held, held, framed _ rfl]

theorem Building.framed {after : Disk}
    (building : Building setup start source sourceEngine config disk)
    (framed : Framed disk after) : Building setup start source sourceEngine config after where
  marker := by rw [framed _ rfl, building.marker]
  holds := by rw [held_of_framed setup framed, building.holds]
  absent := by rw [framed _ rfl, building.absent]
  kept := by
    rw [framed _ rfl]
    exact building.kept

theorem steady_stage (start : Disk) (source : Store) (sourceEngine config : MetadataEngine) :
    Steady (Stage setup start source sourceEngine config) := by
  intro disk after framed stage
  cases stage with
  | preparing before => exact .preparing (before.trans framed)
  | building building => exact .building (building.framed setup framed)
  | copied marker holds copy holdsCopy =>
    exact .copied (by rw [framed _ rfl, marker]) (by rw [held_of_framed setup framed, holds])
      copy (by rw [held_of_framed setup framed, holdsCopy])
  | switched marker copy holdsCopy =>
    exact .switched (by rw [framed _ rfl, marker]) copy
      (by rw [held_of_framed setup framed, holdsCopy])

theorem Building.opened (different : sourceEngine ≠ config) {after : Disk}
    (building : Building setup start source sourceEngine config disk)
    (opening : AfterOpen setup (.artifact sourceEngine) sourceEngine disk after) :
    Building setup start source sourceEngine config after where
  marker := by rw [opening.others _ (by simp) rfl, building.marker]
  holds := by rw [held, opening.opens]; exact building.holds
  absent := by
    rw [opening.others _ (by simpa using different.symm) rfl, building.absent]
  kept := by
    rcases opening.kept with same | empty
    · rw [same]
      exact building.kept
    have holds := building.holds
    rw [held, empty] at holds
    exact .inr (Except.ok.inj holds).symm

theorem artifact_ne {first second : MetadataEngine} (different : first ≠ second) :
    Place.artifact first ≠ .artifact second := by
  simpa using different

/-- From the rename of the destination to the open store. -/
theorem keeps_commitDestination (different : sourceEngine ≠ config) {dest : Store}
    (building : Building setup start source sourceEngine config disk)
    (copy : VerifiedCopy setup.env setup.key source dest)
    (destined : openedAs setup.env setup.key config (disk (.migrating config)) = .ok dest) :
    Keeps setup (Stage setup start source sourceEngine config)
      (commitDestination setup sourceEngine config) disk fun result _ =>
        ∀ store, result = .ok store → store = dest := by
  have steady := steady_stage setup start source sourceEngine config
  have safe : Stage setup start source sourceEngine config disk := .building building
  simp only [Keeps, commitDestination, guarded_bind, guarded_act, effect]
  refine ⟨safe, fun _ => ?_⟩
  rcases stored : disk (.migrating config) with _ | node
  · exact ⟨safe, safe, fun _ done => by cases done⟩
  have free : replaceable node (disk (.artifact config)) = true := by
    rw [building.absent]
    rfl
  simp only [free, if_true, guarded_bind, guarded_act]
  have renamed : Stage setup start source sourceEngine config
      (update (update disk (.migrating config) none) (.artifact config) (some node)) := by
    refine .copied ?_ ?_ copy ?_
    · simpa using building.marker
    · rw [held, update_of_ne (artifact_ne different), update_of_ne (by simp)]
      exact building.holds
    · rw [held, update_self, ← stored, destined]
  refine ⟨renamed, renamed, fun _ => ⟨renamed, ?_⟩⟩
  refine keeps_writeMarker setup steady renamed (fun marked switching => ?_) ?_
  · have holdsCopy : held setup.env setup.key marked config = .ok dest := by
      rw [held, switching.artifacts, update_self, ← stored, destined]
    have switched : Stage setup start source sourceEngine config marked :=
      .switched switching.marker copy holdsCopy
    refine ⟨switched, ?_⟩
    simp only [guarded_bind]
    refine keeps_setAside setup switched (fun after aside => ?_) ?_
    · have marker := switching.marker
      rw [← aside.others _ (by simp) (by simp)] at marker
      have holdsCopy : held setup.env setup.key after config = .ok dest := by
        rw [held, aside.others _ (artifact_ne different.symm) (by simp)]
        exact holdsCopy
      refine ⟨.switched marker copy holdsCopy, ?_⟩
      refine keeps_openEngine setup (fun final opening => ?_) fun final opening store done => ?_
      · refine .switched ?_ copy (by rw [held, opening.opens]; exact holdsCopy)
        rw [opening.others _ (by simp) rfl]
        exact marker
      rw [holdsCopy] at done
      exact (Except.ok.inj done).symm
    · exact fun error => ⟨switched, fun _ done => by cases done⟩
  · exact fun error after framed => ⟨steady _ _ framed renamed, fun _ done => by cases done⟩

theorem keeps_migrate (different : sourceEngine ≠ config)
    (holds : held setup.env setup.key start sourceEngine = .ok source) :
    Keeps setup (Stage setup start source sourceEngine config)
      (migrate setup sourceEngine config) start fun result _ => ∀ dest, result = .ok dest →
        built setup.env setup.key (source.exportOps setup.order) config = .ok dest ∧
          verifyMigration setup.order source dest = .ok () := by
  have steady := steady_stage setup start source sourceEngine config
  simp only [Keeps, migrate, guarded_bind]
  refine (keeps_cleanMigratingLeftovers setup steady (.preparing (.refl start))).weaken
    fun _ cleaned safe outcome => ?_
  obtain ⟨framed, cleared⟩ := outcome
  refine keeps_setAside setup safe (fun ready aside => ?_) fun error =>
    ⟨safe, fun _ done => by cases done⟩
  have building : Building setup start source sourceEngine config ready := by
    have same : ready (.artifact sourceEngine) = start (.artifact sourceEngine) := by
      rw [aside.others _ (artifact_ne different) (by simp), framed _ rfl]
    refine ⟨?_, ?_, aside.absent, .inl same⟩
    · rw [aside.others _ (by simp) (by simp), framed _ rfl]
    rw [held, same]
    exact holds
  refine ⟨.building building, ?_⟩
  simp only [guarded_bind]
  refine keeps_openEngine setup
    (fun after opening => .building (building.opened setup different opening))
    fun opened opening => ?_
  rw [building.holds]
  have clearedNow : opened (.migrating config) = none := by
    rw [opening.others _ (by simp) rfl, aside.others _ (by simp) (by simp), cleared]
  replace building := building.opened setup different opening
  simp only [transfer, guarded_bind]
  refine (keeps_buildDestination setup steady (.building building) clearedNow source).weaken
    fun result next safe outcome => ?_
  rcases result with error | _
  · exact ⟨safe, fun _ done => by cases done⟩
  obtain ⟨framed, dest, whole, destined⟩ := outcome rfl
  replace building := building.framed setup framed
  simp only [guarded_bind]
  refine (keeps_openEngineAt setup steady safe config).weaken fun result last safe outcome => ?_
  rcases result with error | opened
  · exact ⟨safe, fun _ done => by cases done⟩
  obtain ⟨framed, before, behind⟩ := outcome opened rfl
  have same : opened = dest := by
    rw [destined] at before
    exact (Except.ok.inj before).symm
  subst same
  dsimp only
  rcases compared : verifyMigration setup.order source opened with error | _
  · exact ⟨safe, fun _ done => by cases done⟩
  refine (keeps_commitDestination setup different (building.framed setup framed)
    ⟨setup.order, config, whole, compared⟩ behind).weaken
    fun result _ _ outcome store done => ?_
  rw [outcome store done]
  exact ⟨whole, compared⟩

end Stages

end Roci.Migration
