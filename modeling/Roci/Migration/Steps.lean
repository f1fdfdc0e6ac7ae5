import Roci.Migration.Program

/-!
# What the parts of a migration do to the root directory

Which engine a root directory makes the active one, and what its artifacts open
to, is a function of the marker and the two artifacts.  The programs are
described by what they do to these; everything else is scratch.
-/

namespace Roci.Migration

open Roci.Library Roci.Metadata Roci.Lmdb
open Program (guarded_act guarded_bind)
open Function (update update_idem update_of_ne update_self)

/-! ## The meaning of a root directory -/

def Store.empty : MetadataEngine → Store
  | .log => .log {}
  | .lmdb => .lmdb {}

def Place.lasting : Place → Bool
  | .marker => true
  | .artifact _ => true
  | _ => false

def Place.isAside : Place → Bool
  | .untrusted _ _ => true
  | _ => false

section Meaning

variable (env : Metadata.Env) (key : Option HmacKey)

/-- The engine a marker names.  One that cannot be read or names no engine
leaves the choice open. -/
def markerEngine : Option Node → Except IoError (Option MetadataEngine)
  | some (.file bytes) =>
    if (fromUtf8 bytes).isNone then .ok none
    else
      match parseMarker env.reader bytes with
      | none => .error .invalidMarker
      | some marker => .ok (markerToEngine marker.engine)
  | _ => .ok none

def openedAs : MetadataEngine → Option Node → Except IoError Store
  | .log, some (.file bytes) => .ok (.log (openInner env key bytes).state)
  | .log, _ => .ok (.log {})
  | .lmdb, node => (openedEnv node).map Store.lmdb

def held (disk : Disk) (engine : MetadataEngine) : Except IoError Store :=
  openedAs env key engine (disk (.artifact engine))

variable {engine : MetadataEngine}

theorem state_of_movedAside {bytes : Bytes} (moved : (openInner env key bytes).movedAside = true) :
    (openInner env key bytes).state = {} := by
  unfold openInner at moved ⊢
  split <;> simp_all
  split <;> simp_all
  cases key <;> simp_all

end Meaning

/-- The marker and the artifacts are as before. -/
def Framed (disk after : Disk) : Prop :=
  ∀ place : Place, place.lasting = true → after place = disk place

theorem Framed.refl (disk : Disk) : Framed disk disk := fun _ _ => rfl

theorem Framed.trans {first second third : Disk} (before : Framed first second)
    (behind : Framed second third) : Framed first third := fun place lasting =>
  (behind place lasting).trans (before place lasting)

variable {place : Place}

theorem Framed.update {disk after : Disk} (framed : Framed disk after)
    (scratch : place.lasting = false) (node : Option Node) :
    Framed disk (update after place node) := by
  intro other lasting
  rw [update_of_ne, framed other lasting]
  rintro rfl
  rw [scratch] at lasting
  cases lasting

/-- An invariant of the marker and the artifacts. -/
def Steady (Safe : Disk → Prop) : Prop := ∀ disk after, Framed disk after → Safe disk → Safe after

theorem Steady.update {Safe : Disk → Prop} (steady : Steady Safe) {disk : Disk} (safe : Safe disk)
    (scratch : place.lasting = false) (node : Option Node) : Safe (update disk place node) :=
  steady _ _ ((Framed.refl disk).update scratch node) safe

/-! ## Looking -/

variable (setup : Setup) {Safe : Disk → Prop} {disk : Disk}

/-- The program is cut off in safe states only, and ends as `post` says. -/
abbrev Keeps {Result : Type} (Safe : Disk → Prop) (program : Prog Result) (disk : Disk)
    (post : Result → Disk → Prop) : Prop :=
  program.Guarded (effect setup.env.reader) Safe disk post

variable {post : Except IoError Store → Disk → Prop} {engine : MetadataEngine} {Result : Type}

theorem keeps_present {next : Bool → Prog Result} {post : Result → Disk → Prop} (safe : Safe disk)
    (done : Keeps setup Safe (next (disk place).isSome) disk post) :
    Keeps setup Safe (act (.present place) >>= next) disk post := by
  simp only [Keeps, guarded_bind, guarded_act]
  exact ⟨safe, fun _ => ⟨safe, done⟩⟩

theorem keeps_isDir {next : Bool → Prog Result} {post : Result → Disk → Prop} (safe : Safe disk)
    (done : Keeps setup Safe (next ((disk place).any Node.isDir)) disk post) :
    Keeps setup Safe (act (.isDir place) >>= next) disk post := by
  simp only [Keeps, guarded_bind, guarded_act]
  exact ⟨safe, fun _ => ⟨safe, done⟩⟩

/-! ## Opening an engine -/

/-- After an artifact was opened.  It changes only if it opens to an empty
store: a missing database is created, a log that does not fit the key is moved
aside. -/
structure AfterOpen (place : Place) (engine : MetadataEngine) (disk after : Disk) : Prop where
  others : ∀ other : Place, other ≠ place → other.isAside = false → after other = disk other
  opens : openedAs setup.env setup.key engine (after place) =
    openedAs setup.env setup.key engine (disk place)
  kept : after place = disk place ∨
    openedAs setup.env setup.key engine (disk place) = .ok (.empty engine)

theorem AfterOpen.refl (disk : Disk) (place : Place) (engine : MetadataEngine) :
    AfterOpen setup place engine disk disk :=
  ⟨fun _ _ _ => rfl, rfl, .inl rfl⟩

theorem AfterOpen.framed {after : Disk} (opening : AfterOpen setup place engine disk after)
    (scratch : place.lasting = false) : Framed disk after := by
  intro other lasting
  refine opening.others other ?_ ?_
  · rintro rfl
    rw [scratch] at lasting
    cases lasting
  · cases other <;> first | rfl | cases lasting

theorem keeps_openLog (proper : place.isAside = false) {post : Store → Disk → Prop}
    (safe : ∀ after, AfterOpen setup place .log disk after → Safe after)
    (done : ∀ after store, AfterOpen setup place .log disk after →
      openedAs setup.env setup.key .log (disk place) = .ok store → post store after) :
    Keeps setup Safe (openLog setup place) disk post := by
  have unchanged := AfterOpen.refl setup disk place .log
  have safeNow := safe disk unchanged
  simp only [Keeps, openLog, guarded_bind, guarded_act, effect]
  refine ⟨safeNow, fun _ => ⟨safeNow, ?_⟩⟩
  rcases stored : disk place with _ | node
  · exact ⟨safeNow, done disk _ unchanged (by rw [stored]; rfl)⟩
  cases node with
  | file bytes =>
    have opens : openedAs setup.env setup.key .log (disk place) =
        .ok (.log (openInner setup.env setup.key bytes).state) := by rw [stored]; rfl
    by_cases moved : (openInner setup.env setup.key bytes).movedAside = true
    · have empty := state_of_movedAside setup.env setup.key moved
      simp only [moved, if_true, guarded_bind, guarded_act, effect, stored]
      refine ⟨safeNow, fun seconds => ⟨safeNow, safeNow, fun _ => ?_⟩⟩
      by_cases free : replaceable (.file bytes) (disk (asideLog place seconds)) = true
      · simp only [free, if_true]
        have after : AfterOpen setup place .log disk
            (update (update disk place none) (asideLog place seconds) (some (.file bytes))) := by
          have apart : place ≠ asideLog place seconds := by
            intro same
            rw [same] at proper
            cases proper
          refine ⟨fun other different plain => ?_, ?_, .inr ?_⟩
          · rw [update_of_ne, update_of_ne different]
            rintro rfl
            cases plain
          · rw [update_of_ne apart, update_self, opens, empty]
            rfl
          rw [opens, empty]
          rfl
        exact ⟨safe _ after, safe _ after, done _ _ after opens⟩
      · simp only [free, Bool.false_eq_true, if_false]
        exact ⟨safeNow, safeNow, done _ _ unchanged opens⟩
    · simp only [moved, Bool.false_eq_true, if_false]
      exact ⟨safeNow, done _ _ unchanged opens⟩
  | _ => exact ⟨safeNow, done disk _ unchanged (by rw [stored]; rfl)⟩

theorem keeps_openLmdb (safe : ∀ after, AfterOpen setup place .lmdb disk after → Safe after)
    (done : ∀ after, AfterOpen setup place .lmdb disk after →
      post (openedAs setup.env setup.key .lmdb (disk place)) after) :
    Keeps setup Safe (openLmdb place) disk post := by
  have unchanged := AfterOpen.refl setup disk place .lmdb
  have safeNow := safe disk unchanged
  simp only [Keeps, openLmdb, guarded_bind, guarded_act, effect]
  refine ⟨safeNow, fun _ => ?_⟩
  cases node : openedEnv (disk place) with
  | error error =>
    have result := done disk unchanged
    rw [openedAs, node] at result
    exact ⟨safeNow, safeNow, result⟩
  | ok tables =>
    have after : AfterOpen setup place .lmdb disk
        (update disk place (some (.database tables))) := by
      refine ⟨fun other different _ => update_of_ne different _ _, ?_, ?_⟩
      · rw [update_self, openedAs, openedAs, node]
        rfl
      rw [update_self, openedAs]
      rcases stored : disk place with _ | kind
      · exact .inr rfl
      rw [stored] at node
      cases kind with
      | file bytes => cases node
      | directory => exact .inr rfl
      | database kept =>
        cases node
        exact .inl rfl
    have result := done _ after
    rw [openedAs, node] at result
    exact ⟨safe _ after, safe _ after, result⟩

theorem keeps_openEngine
    (safe : ∀ after, AfterOpen setup (.artifact engine) engine disk after → Safe after)
    (done : ∀ after, AfterOpen setup (.artifact engine) engine disk after →
      post (held setup.env setup.key disk engine) after) :
    Keeps setup Safe (openEngine setup engine) disk post := by
  cases engine with
  | lmdb => exact keeps_openLmdb setup safe done
  | log =>
    simp only [Keeps, openEngine, guarded_bind]
    refine keeps_openLog setup rfl safe fun after store opening opens => ?_
    have result := done after opening
    rw [held, opens] at result
    exact ⟨safe after opening, result⟩

/-! ## Writing the marker -/

theorem markerEngine_markerBytes (engine : MetadataEngine) :
    markerEngine setup.env (some (.file (markerBytes setup engine))) = .ok (some engine) := by
  have parsed := setup.env.reader.parse_print_ofFields
    [("engine", .string (engineName engine)), ("format", .string (formatLabel setup engine))]
    (by
      intro field membership
      simp only [List.mem_cons, List.not_mem_nil, or_false] at membership
      rcases membership with rfl | rfl <;> exact .string _)
  have readable : fromUtf8 (markerBytes setup engine) ≠ none := by
    rw [markerBytes, Json.print, fromUtf8_utf8]
    simp
  have ascending : "engine" < "format" := by decide
  have marker : parseMarker setup.env.reader (markerBytes setup engine) =
      some ⟨engineName engine, formatLabel setup engine⟩ := by
    rw [parseMarker, markerBytes, parsed, Json.ofFields_ascending
      (List.pairwise_pair.mpr ascending), Option.bind_some]
    simp [markerOfJson, Json.get?, List.lookup_cons, Json.asStr]
  simp only [markerEngine, Option.isNone_iff_eq_none, readable, if_false, marker]
  cases engine <;> rfl

/-- Everything lasting but the marker is as before, and the marker names the
engine. -/
structure Marked (engine : MetadataEngine) (disk after : Disk) : Prop where
  artifacts : ∀ kind, after (.artifact kind) = disk (.artifact kind)
  marker : markerEngine setup.env (after .marker) = .ok (some engine)

theorem keeps_writeMarker (steady : Steady Safe) (safe : Safe disk)
    {post : Except IoError Unit → Disk → Prop}
    (marked : ∀ after, Marked setup engine disk after → Safe after ∧ post (.ok ()) after)
    (failed : ∀ error after, Framed disk after → post (.error error) after) :
    Keeps setup Safe (writeMarker setup engine) disk post := by
  simp only [Keeps, writeMarker, guarded_bind, guarded_act, effect]
  refine ⟨safe, fun _ => ?_⟩
  split
  · exact ⟨safe, safe, failed _ _ (.refl disk)⟩
  have written : ∀ node, Safe (update disk .markerTmp node) := steady.update safe rfl
  simp only [guarded_bind, guarded_act, effect, update_self, update_idem, List.nil_append]
  refine ⟨written _, written _, fun _ => ⟨written _, written _, fun _ => ⟨written _, written _,
    fun _ => ?_⟩⟩⟩
  split
  · obtain ⟨after, ended⟩ := marked
      (update (update (update disk .markerTmp
        (some (.file (markerBytes setup engine)))) .markerTmp none) .marker
        (some (.file (markerBytes setup engine))))
      ⟨fun kind => by simp, by rw [update_self, markerEngine_markerBytes]⟩
    rw [update_idem] at after ended
    exact ⟨after, after, fun _ => ⟨after, ended⟩⟩
  · exact ⟨written _, written _, failed _ _ ((Framed.refl disk).update rfl _)⟩

end Roci.Migration
