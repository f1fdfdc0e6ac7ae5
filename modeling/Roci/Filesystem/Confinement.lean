import Roci.Filesystem.Namespaces
import Roci.Filesystem.Verified

/-!
# A call on an upload session keeps to its repository

The id of a session is any text a client sends, and it becomes part of a path.
A call on a session works on files only after it found the session pending or its
staging file there, so what has to be kept out of the directories of staging files
is everything else: the marker and the index of a repository whose own name ends
in `uploads` lie among the staging files of another one.

The one file of another repository such a call ever opens is a blob of the digest
it lands, to link it.
-/

namespace Roci.Filesystem

open Roci.Core Roci.Library Roci.Storage
open Program (performs_act performs_pure)

/-! ## Whose file it is -/

theorem repo_eq_of_path_eq {first second : RepositoryName} {file other : LocalFile}
    (equal : (FileUse.ofRepo first file).path = (FileUse.ofRepo second other).path) :
    first = second := by
  simp only [FileUse.path] at equal
  refine (same_of_begins (.file other) (by rw [equal]) ?_).1
  rw [equal]
  intro inside
  obtain ⟨word, rest, shape⟩ := other.place_cons
  have short := inside.length_le
  simp only [shape, List.length_append, List.length_cons] at short
  omega

theorem getD_mem_lowerHexDigits (position : Nat) :
    lowerHexDigits.getD position '0' ∈ lowerHexDigits := by
  rw [List.getD_eq_getElem?_getD]
  by_cases within : position < lowerHexDigits.length
  · rw [List.getElem?_eq_getElem within]
    exact List.getElem_mem within
  rw [List.getElem?_eq_none (Nat.not_lt.mp within)]
  decide

theorem isUploadId_hexEncode {random : Bytes} (length : random.length = 16) :
    isUploadId (hexEncode random) = true := by
  refine Bool.and_eq_true_iff.mpr ⟨?_, ?_⟩
  · simp [hexEncode, List.length_flatMap, length]
  rw [hexEncode, String.toList_ofList, List.all_eq_true]
  intro digit member
  obtain ⟨byte, _, digits⟩ := List.mem_flatMap.mp member
  rcases List.mem_pair.mp digits with rfl | rfl
  · exact decide_eq_true (getD_mem_lowerHexDigits _)
  · exact decide_eq_true (getD_mem_lowerHexDigits _)

/-! ## What a call does -/

/-- The files a system call looks at, changes, makes or removes.  What is read
from an open file is read under the name it was opened by. -/
def DiskAction.Touches (disk : Disk) (path : Path) : DiskAction → Prop
  | .create named => path = named
  | .stat named => path = named ∧ (disk.files path).isSome = true
  | .inode named => path = named ∧ (disk.files path).isSome = true
  | .openFile named => path = named ∧ (disk.files path).isSome = true
  | .unlink named => path = named ∧ (disk.files path).isSome = true
  | .rename source target => (path = source ∨ path = target) ∧ (disk.files source).isSome = true
  | .publish named _ => path = named
  | .link _ named _ => path = named
  | .write node _ => disk.files path = some (.regular node)
  | .setLen node _ => disk.files path = some (.regular node)
  | .fstat _ => False
  | .read _ => False
  | .sync => False

def Request.session? : Request → Option SessionKey
  | .appendUpload key _ _ _ => some key
  | .uploadSize key => some key
  | .finishUpload key _ _ _ _ => some key
  | .abortUpload key => some key
  | _ => none

def Request.landing : Request → Option BlobKey
  | .finishUpload key digest _ _ _ => some ⟨key.repo, digest⟩
  | _ => none

/-- Notes that also remember the session whose staging file was opened. -/
structure Tracked where
  base : Notes := {}
  opened : Option SessionKey := none

def Tracked.openedBy (notes : Tracked) : (action : Action) → Response action → Option SessionKey
  | .disk (.create path), .ok _ =>
    if notes.base.isAt path then notes.base.lock.map Prod.fst else notes.opened
  | .disk (.openFile path), .ok _ =>
    if notes.base.isAt path then notes.base.lock.map Prod.fst else notes.opened
  | _, _ => notes.opened

def observeTracked (notes : Tracked) (action : Action) (response : Response action) : Tracked where
  base := observe notes.base action response
  opened := notes.openedBy action response

/-- A call on a session names its staging file; before it opened that file it
names nothing else, and it writes only while it holds the session.  The sweep
looks at staging files and unlinks them. -/
def Request.Confined (request : Request) (notes : Tracked) : Action → Prop
  | .disk action =>
    (∀ key ∈ request.session?,
      (action.Near key none ∨ notes.opened = some key ∧ action.Near key request.landing) ∧
        (action.written.isSome = true → ∃ mutex, notes.base.Holds key mutex)) ∧
    (request = .sweepStaleUploads →
      ∃ key : SessionKey, action = .stat key.path ∨ action = .unlink key.path)
  | _ => True

def confinement (request : Request) : Discipline Action Response Tracked where
  allowed := request.Confined
  expected _ _ _ := True

abbrev Confines {Result : Type} (request : Request) (notes : Tracked) (program : Call Result) :
    Prop :=
  program.Meets observeTracked (confinement request) notes fun _ _ => True

def Tracked.Held (notes : Tracked) (key : SessionKey) : Prop := ∃ mutex, notes.base.Holds key mutex

structure Tracked.Entered (notes : Tracked) (key : SessionKey) : Prop where
  held : notes.Held key
  opened : notes.opened = some key

def Within (key : SessionKey) (blob : Option BlobKey) (action : Action) : Prop :=
  Treads key blob action ∨ ∃ mutex value, action = .uploads (.set mutex value)

section

variable {request : Request} {notes : Tracked} {key : SessionKey} {blob : Option BlobKey}
  {Result : Type}

theorem openedBy_of_held (held : notes.Held key) (action : Action) (response : Response action) :
    notes.openedBy action response = notes.opened ∨ notes.openedBy action response = some key := by
  obtain ⟨mutex, holds⟩ := held
  have here : ∀ path, (if notes.base.isAt path then notes.base.lock.map Prod.fst
      else notes.opened) = notes.opened ∨
      (if notes.base.isAt path then notes.base.lock.map Prod.fst else notes.opened) = some key := by
    intro path
    split
    · exact .inr (by rw [holds.1]; rfl)
    · exact .inl rfl
  cases action with
  | disk action =>
    cases action with
    | create path | openFile path =>
      cases response with
      | error error => exact .inl rfl
      | ok node => exact here path
    | _ => cases response <;> exact .inl rfl
  | _ => exact .inl rfl

variable {action : Action}

theorem Tracked.Held.step (held : notes.Held key) (within : Within key blob action)
    (response : Response action) : (observeTracked notes action response).Held key := by
  obtain ⟨mutex, holds⟩ := held
  refine ⟨mutex, show (observe notes.base action response).Holds key mutex from ?_⟩
  rcases within with treads | ⟨locked, value, rfl⟩
  · cases action with
    | disk action =>
      obtain ⟨_, _, _, _, observed⟩ := observe_disk notes.base action response
      exact observed ▸ holds
    | uploads action => cases action <;> first | exact treads.elim | exact holds
    | sessions action =>
      obtain ⟨_, _, observed⟩ := observe_sessions notes.base action response
      exact observed ▸ holds
    | _ => exact holds
  · exact holds

theorem Tracked.Entered.step (entered : notes.Entered key) (within : Within key blob action)
    (response : Response action) : (observeTracked notes action response).Entered key := by
  refine ⟨entered.held.step within response, ?_⟩
  exact (openedBy_of_held entered.held action response).elim (·.trans entered.opened) id

theorem confined_of_near (session : request.session? = some key) (within : Within key blob action)
    (held : notes.Held key)
    (reach : blob = none ∨ notes.opened = some key ∧ blob = request.landing) :
    request.Confined notes action := by
  cases action with
  | disk action =>
    refine ⟨fun found same => ?_, fun sweeps => by rw [sweeps] at session; cases session⟩
    cases session.symm.trans same
    have near : action.Near key blob := within.resolve_right nofun
    refine ⟨?_, fun _ => held⟩
    rcases reach with rfl | ⟨opened, rfl⟩
    · exact .inl near
    · exact .inr ⟨opened, near⟩
  | _ => trivial

variable {program : Call Result}

theorem confined_while_held (session : request.session? = some key)
    (performs : program.Performs (Within key none)) (held : notes.Held key) :
    program.Meets observeTracked (confinement request) notes fun _ reached => reached.Held key :=
  performs.meets_keeping
    (fun _ _ within held =>
      ⟨confined_of_near session within held (.inl rfl), held.step within⟩) held

theorem confined_while_entered (session : request.session? = some key)
    (performs : program.Performs (Within key request.landing)) (entered : notes.Entered key) :
    program.Meets observeTracked (confinement request) notes fun _ reached => reached.Entered key :=
  performs.meets_keeping
    (fun _ _ within entered => ⟨confined_of_near session within entered.held
      (.inr ⟨entered.opened, rfl⟩), entered.step within⟩) entered

theorem within_of_treads (performs : program.Performs (Treads key blob)) :
    program.Performs (Within key blob) :=
  performs.weaken fun _ => .inl

theorem confined_runBlocking {job : Call Result} {post : Result → Tracked → Prop}
    (met : job.Meets observeTracked (confinement request) notes post) :
    (runBlocking job).Meets observeTracked (confinement request) notes post :=
  met.bind fun _ _ ended => ⟨trivial, fun _ _ => ended⟩

theorem opened_here (held : notes.Held key) :
    (if notes.base.isAt key.path then notes.base.lock.map Prod.fst else notes.opened) =
      some key := by
  obtain ⟨mutex, holds⟩ := held
  simp [(holds.isAt_iff key.path).mpr rfl, holds.1]

theorem confined_prepareStaging (session : request.session? = some key) (held : notes.Held key)
    (create : Bool) :
    (prepareStaging key create).Meets observeTracked (confinement request) notes
      fun staging reached => reached.Held key ∧
        ∀ node len, staging = .ok (.ready node len) → reached.opened = some key := by
  have step : ∀ {notes : Tracked} {action : DiskAction}, notes.Held key → action.Near key none →
      request.Confined notes (.disk action) ∧
        ∀ response, (observeTracked notes (.disk action) response).Held key :=
    fun held near => ⟨confined_of_near session (.inl near) held (.inl rfl),
      held.step (.inl (show Treads key none (.disk _) from near))⟩
  cases create with
  | true =>
    obtain ⟨allowed, kept⟩ := @step notes (.create key.path) held rfl
    refine .act allowed fun made _ => ?_
    rcases made with error | node
    · exact ⟨kept _, nofun⟩
    obtain ⟨allowed, later⟩ := @step _ (.fstat node) (kept (.ok node)) trivial
    refine .act allowed fun length _ => ?_
    cases length with
    | error error => exact ⟨later _, nofun⟩
    | ok length => exact ⟨later _, fun _ _ _ => opened_here held⟩
  | false =>
    obtain ⟨allowed, kept⟩ := @step notes (.stat key.path) held (.inl rfl)
    refine .act allowed fun found _ => ?_
    split
    · exact ⟨kept _, nofun⟩
    · exact ⟨kept _, nofun⟩
    · exact ⟨kept _, nofun⟩
    obtain ⟨allowed, next⟩ := @step _ (.openFile key.path) (kept _) (.inl rfl)
    refine .act allowed fun entered _ => ?_
    rcases entered with error | node
    · exact ⟨next _, nofun⟩
    obtain ⟨allowed, later⟩ := @step _ (.fstat node) (next (.ok node)) trivial
    refine .act allowed fun length _ => ?_
    cases length with
    | error error => exact ⟨later _, nofun⟩
    | ok length => exact ⟨later _, fun _ _ _ => opened_here (kept _)⟩

theorem confined_prepareSession (session : request.session? = some key) (held : notes.Held key) :
    (prepareSession key).Meets observeTracked (confinement request) notes
      fun staging reached => reached.Held key ∧
        ∀ node len, staging = .ok (.ready node len) → reached.Entered key := by
  have asks : Within key none (.sessions (.isPending key)) := .inl rfl
  refine .act trivial fun create _ => ?_
  have staged := confined_prepareStaging session (held.step asks create) create
  refine (confined_runBlocking staged).bind fun staging reached ⟨kept, opened⟩ => ?_
  rcases staging with error | staging
  · exact ⟨kept, nofun⟩
  cases create with
  | false => exact ⟨kept, fun node len ready => ⟨kept, opened node len ready⟩⟩
  | true =>
    have settles : Within key none (.sessions (.takePending key)) := .inl rfl
    refine .act trivial fun taken _ => ⟨kept.step settles taken, fun node len ready =>
      ⟨kept.step settles taken, opened node len ready⟩⟩

theorem confined_withSession {body : Nat → Call (Except StorageError Result)}
    (confined : ∀ mutex reached, Tracked.Held reached key → Confines request reached (body mutex)) :
    Confines request notes (withSession key body) := by
  unfold withSession
  split
  · trivial
  refine .act trivial fun mutex _ => .act trivial fun _ _ =>
    (confined mutex _ ⟨mutex, rfl, rfl⟩).bind fun _ _ _ => ?_
  exact .act trivial fun _ _ => .act trivial fun _ _ => trivial

theorem within_appendReady (mutex node current : Nat) (body : UploadBody)
    (expectedOffset : Option Nat) (limit : Nat) :
    (appendReady mutex node current body expectedOffset limit).Performs (Within key none) := by
  unfold appendReady
  split
  · exact performs_pure
  refine .act_bind (.inl trivial) fun taken => .bind (performs_appendInner (fun _ => .inl trivial)
    (fun _ => .inl trivial) (.inl trivial) (.inl trivial) _ _ _ _ _) fun appended => ?_
  split
  · exact performs_pure
  · exact .act_bind (.inr ⟨_, _, rfl⟩) fun _ => performs_pure

section

variable (session : request.session? = some key)

include session

theorem confined_appendUpload (body : UploadBody) (expectedOffset : Option Nat) (limit : Nat) :
    Confines request notes (appendUpload key body expectedOffset limit) := by
  refine confined_withSession fun mutex reached held =>
    (confined_prepareSession session held).bind fun staging later ⟨kept, _⟩ => ?_
  split
  · trivial
  · exact .act trivial fun _ _ => trivial
  · trivial
  exact (confined_while_held session (within_appendReady _ _ _ _ _ _) kept).weaken
    fun _ _ _ => trivial

theorem confined_finishUpload {env : Env} {digest : Digest}
    (lands : request.landing = some ⟨key.repo, digest⟩) (maxSize : Nat) (trailing : UploadBody)
    (limit : Nat) :
    Confines request notes (finishUpload env key digest maxSize trailing limit) := by
  refine confined_withSession fun mutex reached held =>
    (confined_prepareSession session held).bind fun staging later ⟨kept, entered⟩ => ?_
  split
  · trivial
  · exact .act trivial fun _ _ => trivial
  · exact (confined_while_held session (within_of_treads treads_discardSession) kept).bind
      fun _ _ _ => trivial
  refine (confined_while_entered session ?_ (entered _ _ rfl)).weaken fun _ _ _ => trivial
  rw [lands]
  exact within_of_treads (treads_finishReady _ _ _ _ _)

theorem confined_abortUpload : Confines request notes (abortUpload key) := by
  unfold abortUpload
  split
  · trivial
  refine .act trivial fun mutex _ => .act trivial fun _ _ => .act trivial fun taken _ => ?_
  refine (confined_while_held session (within_of_treads (treads_endPendingOr taken))
    ⟨mutex, rfl, rfl⟩).bind fun ended _ held => ?_
  split
  · exact .act trivial fun _ _ => .act trivial fun _ _ => trivial
  exact (confined_while_held session (within_of_treads (performs_endIf trivial _)) held).bind
    fun _ _ _ => .act trivial fun _ _ => .act trivial fun _ _ => .act trivial fun _ _ => trivial

theorem confined_uploadSize : Confines request notes (uploadSize key) := by
  refine .act trivial fun pending _ => ?_
  split
  · trivial
  split
  · trivial
  have looks : ∀ notes : Tracked, Confines request notes (act (.disk (.stat key.path))) := by
    refine fun notes => ⟨⟨fun found same => ?_, fun sweeps => ?_⟩, fun _ _ => trivial⟩
    · cases session.symm.trans same
      exact ⟨.inl (.inl rfl), nofun⟩
    rw [sweeps] at session
    cases session
  refine (confined_runBlocking (looks _)).bind fun found _ _ => ?_
  split <;> trivial

end

def Sweeping : Action → Prop
  | .disk action => ∃ key : SessionKey, action = .stat key.path ∨ action = .unlink key.path
  | _ => True

theorem sweeping_sweepExpired (key : SessionKey) : (sweepExpired key).Performs Sweeping := by
  unfold sweepExpired
  split
  · exact performs_pure
  refine .act_bind trivial fun mutex => .act_bind trivial fun locked => ?_
  split
  · exact .act_bind trivial fun _ => (performs_endIf trivial _).bind fun _ =>
      .act_bind trivial fun _ =>
      .act_bind trivial fun _ => performs_act.mpr trivial
  · exact performs_act.mpr trivial

theorem sweeping_sweepStale (key : SessionKey) : (sweepStale key).Performs Sweeping := by
  unfold sweepStale
  split
  · exact performs_pure
  refine .act_bind trivial fun mutex => .act_bind trivial fun locked => ?_
  split
  · refine .bind ?_ fun stale => .bind ?_ fun _ => .act_bind trivial fun _ =>
      .act_bind trivial fun _ => performs_act.mpr trivial
    · refine (performs_runBlocking (performs_act.mpr ⟨key, .inl rfl⟩) trivial).bind fun found => ?_
      split
      · exact performs_act.mpr trivial
      · exact performs_pure
    cases stale with
    | false => exact performs_pure
    | true =>
      exact (performs_runBlocking (performs_act.mpr ⟨key, .inr rfl⟩) trivial).bind
        fun _ => performs_endIf trivial _
  · exact performs_act.mpr trivial

theorem sweeping_sweepStaleUploads : sweepStaleUploads.Performs Sweeping :=
  (performs_runBlocking (performs_act.mpr trivial) trivial).bind fun stale =>
    .act_bind trivial fun expired => (performs_forEach sweeping_sweepExpired expired).bind
      fun _ => performs_forEach sweeping_sweepStale stale

theorem confined_answering {call : Call (Except StorageError Result)} (answer : Result → Answer)
    (met : Confines request notes call) : Confines request notes (answering call answer) :=
  met.bind fun _ _ _ => trivial

/-- Every call keeps to its session. -/
theorem confined_code (env : Env) (request : Request) :
    Confines request notes (code env request) := by
  -- of the other calls nothing is asked
  have others : request.session? = none → request ≠ .sweepStaleUploads →
      Confines request notes (code env request) := by
    intro none different
    refine (Program.performs_any _).meets fun notes action _ => ?_
    cases action with
    | disk action =>
      exact ⟨fun key found => (nomatch none.symm.trans found), fun same => absurd same different⟩
    | _ => trivial
  cases request with
  | appendUpload key body expectedOffset limit =>
    exact confined_answering _ (confined_appendUpload rfl body expectedOffset limit)
  | uploadSize key => exact confined_answering _ (confined_uploadSize rfl)
  | finishUpload key digest maxSize trailing limit =>
    exact confined_answering _ (confined_finishUpload rfl rfl maxSize trailing limit)
  | abortUpload key => exact confined_answering _ (confined_abortUpload rfl)
  | sweepStaleUploads =>
    refine ((sweeping_sweepStaleUploads.meets fun notes action sweeping => ?_).bind
      fun _ _ _ => trivial)
    cases action with
    | disk action => exact ⟨nofun, fun _ => sweeping⟩
    | _ => trivial
  | _ => exact others rfl nofun

end

/-! ## What is on disk -/

/-- Sessions that are pending or staged were handed out, under hexadecimal ids,
and so was every session whose staging file a call has opened. -/
structure Confining (env : Env) (world : World) (notes : Nat → Tracked) : Prop where
  verifiable : Verifiable env world (Tracked.base ∘ notes)
  live : ∀ key, world.Live key → key ∈ world.sessions.issued
  hexadecimal : ∀ key ∈ world.sessions.issued, isUploadId key.id = true
  opened : ∀ index key, (notes index).opened = some key → key ∈ world.sessions.issued

section

variable {env : Env} {reader : JsonReader} {world next : World} {notes : Nat → Tracked}
  {index : Nat} {choice : Choice}

section

variable (confining : Confining env world notes)

include confining

section

variable {action : Action} {response : Response action}
  (allowed : (discipline env false).allowed (notes index).base action)
  (performed : perform reader world index action choice = some (next, response))

include allowed performed

theorem Confining.issued_after (outside : Outside action) :
    (∀ key ∈ world.sessions.issued, key ∈ next.sessions.issued) ∧
      (∀ key, next.Live key → key ∈ next.sessions.issued) ∧
      ∀ key ∈ next.sessions.issued, isUploadId key.id = true := by
  cases action with
  | disk action =>
    obtain ⟨after, rfl, outcome⟩ := perform_disk performed
    refine ⟨fun _ member => member, fun key live => confining.live key ?_, confining.hexadecimal⟩
    rcases live with pending | staged
    · exact .inl pending
    obtain ⟨entry, found⟩ := Option.isSome_iff_exists.mp staged
    rcases confining.verifiable.guarded.staged_before allowed outside outcome found with
      before | ⟨pending, _⟩
    · exact .inr (by rw [before]; rfl)
    · exact .inl pending
  | sessions action =>
    obtain ⟨sessions, changed, rfl⟩ := perform_sessions performed
    have same : sessions.issued = world.sessions.issued →
        (∀ key, sessions.pending key = true → world.sessions.pending key = true) →
        (∀ key ∈ world.sessions.issued, key ∈ sessions.issued) ∧
          (∀ key, World.Live { world.tick choice.clock with sessions := sessions } key →
            key ∈ sessions.issued) ∧ ∀ key ∈ sessions.issued, isUploadId key.id = true := by
      intro issued pending
      rw [issued]
      exact ⟨fun _ member => member,
        fun key live => confining.live key (live.imp_left (pending key)), confining.hexadecimal⟩
    cases action with
    | beginSession limit =>
      simp only [performSession] at changed
      split at changed <;> cases changed <;> exact same rfl fun _ => id
    | insertPending repo =>
      simp only [performSession] at changed
      split at changed
      · rename_i fresh
        cases changed
        refine ⟨fun _ member => List.mem_cons_of_mem _ member, fun key live => ?_,
          fun key member => ?_⟩
        · by_cases new : key = ⟨repo, hexEncode choice.random⟩
          · exact new ▸ List.mem_cons_self
          refine List.mem_cons_of_mem _ (confining.live key (live.imp_left fun pending => ?_))
          exact (Function.update_of_ne new _ _).symm.trans pending
        rcases List.mem_cons.mp member with rfl | earlier
        · exact isUploadId_hexEncode fresh.1
        · exact confining.hexadecimal key earlier
      · cases changed
    | takePending taken =>
      cases changed
      refine same rfl fun key pending => ?_
      by_cases equal : key = taken
      · subst equal
        cases (Function.update_self _ _ _).symm.trans pending
      · exact (Function.update_of_ne equal _ _).symm.trans pending
    | _ =>
      cases changed
      exact same rfl fun _ => id
  | uploads action =>
    obtain ⟨uploads, _, rfl⟩ := perform_uploads performed
    exact ⟨fun _ member => member, confining.live, confining.hexadecimal⟩
  | _ =>
    obtain ⟨_, rfl⟩ := perform_elsewhere (by trivial) performed
    exact ⟨fun _ member => member, confining.live, confining.hexadecimal⟩

theorem Confining.live_of_openedBy {key : SessionKey}
    (opened : (notes index).openedBy action response = some key) :
    (notes index).opened = some key ∨ world.Live key := by
  have sees := confining.verifiable.guarded.sees index
  have here : ∀ {path}, (if (notes index).base.isAt path then
      (notes index).base.lock.map Prod.fst else (notes index).opened) = some key →
      (notes index).opened = some key ∨ key.path = path := by
    intro path found
    split at found
    · rename_i at_path
      obtain ⟨held, mutex, holds, same⟩ := Notes.exists_holds_of_isAt at_path
      rw [holds.1] at found
      cases found
      exact .inr same
    · exact .inl found
  cases action with
  | disk action =>
    obtain ⟨after, rfl, outcome⟩ := perform_disk performed
    cases action with
    | create path =>
      rcases response with error | node
      · exact .inl opened
      obtain ⟨held, mutex, holds, pending, rfl⟩ := allowed
      refine (here opened).imp_right fun same => .inl ?_
      cases SessionKey.path_inj.mp same
      exact sees.pending key mutex true holds pending
    | openFile path =>
      cases response with
      | error error => exact .inl opened
      | ok node =>
        refine (here opened).imp_right fun same => .inr ?_
        rw [same, outcome.1]
        rfl
    | _ => cases response <;> exact .inl opened
  | _ => exact .inl opened

/-- Step lemma. -/
theorem Confining.keeps (parted : Parted world (Tracked.base ∘ notes) action)
    (outside : Outside action) :
    Confining env next (Function.update notes index
      (observeTracked (notes index) action response)) := by
  obtain ⟨kept, live, hexadecimal⟩ := confining.issued_after allowed performed outside
  refine ⟨?_, live, hexadecimal, fun other key opened => ?_⟩
  · rw [Function.comp_update]
    exact confining.verifiable.keeps allowed parted outside performed
  by_cases same : other = index
  · subst same
    rw [Function.update_self] at opened
    rcases confining.live_of_openedBy allowed performed opened with before | alive
    · exact kept key (confining.opened other key before)
    · exact kept key (confining.live key alive)
  rw [Function.update_of_ne same] at opened
  exact kept key (confining.opened other key opened)

end

theorem Confining.abandon (index : Nat) :
    Confining env (world.abandon index) (Function.update notes index {}) := by
  refine ⟨?_, confining.live, confining.hexadecimal, fun other key opened => ?_⟩
  · rw [Function.comp_update]
    exact confining.verifiable.abandon index
  by_cases same : other = index
  · rw [same, Function.update_self] at opened
    cases opened
  rw [Function.update_of_ne same] at opened
  exact confining.opened other key opened

end

theorem Verifiable.add {known : Nat → Notes} (verifiable : Verifiable env world known) {path : Path}
    (data : Bytes) (unstaged : ∀ key : SessionKey, key.path ≠ path)
    (noBlob : ∀ blob : BlobKey, blob.path ≠ path) :
    Verifiable env { world with disk := world.disk.add path data } known := by
  have guarded := verifiable.guarded
  have files : ∀ key : SessionKey, (world.disk.add path data).files key.path =
      world.disk.files key.path := fun key => Disk.files_add_of_ne (unstaged key) data
  have content : ∀ {node}, node < world.disk.nodes.length →
      (world.disk.add path data).content node = world.disk.content node :=
    fun within => Disk.content_add within path data
  have longer : world.disk.nodes.length ≤ (world.disk.add path data).nodes.length := by
    simp [Disk.add]
  refine ⟨⟨guarded.bounded, fun index => ⟨fun key mutex refers => ?_, (guarded.sees index).holds,
      (guarded.sees index).pending, fun key mutex node holds opened => ?_⟩⟩,
    verifiable.intact.add fun blob same => absurd same (noBlob blob),
    ⟨verifiable.covered.named, verifiable.covered.owner, fun key mutex hash own kept => ?_⟩,
    fun index => ⟨(verifiable.knows index).unopened,
      fun key mutex node bytes holds opened noted => ?_,
      (verifiable.knows index).taken, fun node blob source => ?_⟩⟩
  · obtain ⟨within, named, entered⟩ := (guarded.sees index).refers key mutex refers
    exact ⟨within, named, entered.imp_right fun past => ⟨past.1, (files key).trans past.2⟩⟩
  · exact (files key).trans ((guarded.sees index).opened key mutex node holds opened)
  · obtain ⟨settled, bytes⟩ := verifiable.covered.slots key mutex hash own kept
    refine ⟨settled, fun node found => ?_⟩
    have before := (files key).symm.trans found
    exact (content (verifiable.intact.bounded _ node before)).trans (bytes node before)
  · have staged := (guarded.sees index).opened key mutex node holds opened
    exact (content (verifiable.intact.bounded _ node staged)).trans
      ((verifiable.knows index).content key mutex node bytes holds opened noted)
  obtain ⟨within, free, hashes⟩ := (verifiable.knows index).source node blob source
  refine ⟨within.trans_le longer, fun key staged => free key ((files key).symm.trans staged), ?_⟩
  rw [content within]
  exact hashes

end

/-! ## Runs -/

abbrev TrackedStore := System World Request Action Response Reply Tracked

def trackedStore (env : Env) : Machine World Request Action Response Reply Tracked Choice :=
  store env observeTracked {} fun _ => {}

variable (repo : RepositoryName)

def indexPath : Path := repoPath repo ++ ["index.json"]

/-- Calls go on, or the index of a repository is written in the background. -/
inductive Happening where
  | call (event : Event Request Choice)
  | writeIndex (repo : RepositoryName) (data : Bytes)

def happen (env : Env) (system : TrackedStore) : Happening → Option TrackedStore
  | .call event => (trackedStore env).step system event
  | .writeIndex repo data =>
    some { system with world := { system.world with
      disk := system.world.disk.add (indexPath repo) data } }

/-- The conditions under which nothing is written to a blob. -/
def trackedWrites : Conditions World Request Action Response Reply Tracked where
  calls _ := True
  actions system := writesGuarded.actions (system.mapNotes Tracked.base)
  drops action := action.waits = true

/-- And neither a marker nor an index is put into a directory of staging files. -/
def Apartly (env : Env) (system : TrackedStore) : Happening → Prop
  | .call event => (trackedStore env).Permitted trackedWrites system event
  | .writeIndex repo _ => (repoPath repo).getLast? ≠ some "uploads"

/-- What is asked of a call on a session, besides what is asked of every call. -/
def confinedDiscipline (env : Env) (request : Request) : Discipline Action Response Tracked :=
  (discipline env false).along Tracked.base (confinement request)

theorem confining_preserved (env : Env) :
    (trackedStore env).Preserves trackedWrites (confinedDiscipline env) (fun _ _ _ => True)
      (Confining env) where
  codes request _ := by
    have obeys : Obeys env false (code env request) {} fun _ _ => True :=
      (obeys_code request).weaken fun _ _ _ => trivial
    exact (obeys.along Tracked.base (fun _ _ _ => rfl) (confined_code env request)).weaken
      fun _ _ _ => trivial
  expects _ _ _ _ _ _ _ performed confining _ :=
    ⟨confining.verifiable.guarded.expects performed, trivial⟩
  keeps system _ action _ _ _ condition allowed performed confining := by
    have parted : Parted system.world ((sessionStore env).notesAt (system.mapNotes Tracked.base))
        action := parted_of_entriesKept condition.1
    rw [Machine.notesAt_mapNotes (trackedStore env) rfl] at parted
    exact confining.keeps allowed.choose_spec.1 performed parted condition.2
  drops _ _ _ _ waits _ := .inl (congrArg not waits)
  abandons _ _ _ _ index confining := confining.abandon index

theorem SessionKey.path_ne_index (outside : (repoPath repo).getLast? ≠ some "uploads")
    (key : SessionKey) : key.path ≠ indexPath repo := by
  intro same
  have directory := key.getLast?_directory
  rw [same, indexPath, List.dropLast_concat] at directory
  exact outside directory

theorem BlobKey.path_ne_index (blob : BlobKey) (repo : RepositoryName) :
    blob.path ≠ indexPath repo := by
  intro same
  have last := congrArg List.getLast? same
  have hex : blob.digest.hex = "index.json" := by
    simpa [BlobKey.path, indexPath] using last
  exact blob.digest.hex_ne (by decide) hex

variable {env : Env} {key : SessionKey} {world : World}

/-- Step lemma. -/
theorem confining_happen {system next : TrackedStore} {happening : Happening}
    (apartly : Apartly env system happening) (happened : happen env system happening = some next)
    (sound : (trackedStore env).Sound (confinedDiscipline env) (fun _ _ _ => True)
      (Confining env) system) :
    (trackedStore env).Sound (confinedDiscipline env) (fun _ _ _ => True) (Confining env) next := by
  cases happening with
  | call event => exact (confining_preserved env).step apartly happened sound
  | writeIndex repo data =>
    cases happened
    have outside := SessionKey.path_ne_index repo apartly
    have confining := sound.holds
    refine ⟨⟨confining.verifiable.add data outside fun blob => blob.path_ne_index repo,
      fun key live => confining.live key (live.imp_right fun staged => ?_),
      confining.hexadecimal, confining.opened⟩, sound.orderly⟩
    rw [← staged]
    exact congrArg Option.isSome (Disk.files_add_of_ne (outside key) data).symm

/-! ## The files a call touches -/

section

variable {disk : Disk} {path : Path} {action : DiskAction} {key : SessionKey}
  {blob : Option BlobKey}

theorem place_of_near (near : action.Near key blob) (touches : action.Touches disk path)
    (unwritten : action.written = none) :
    path = key.path ∨
      (∃ landed ∈ blob, path = landed.path ∨ path = markerPath landed.repo) ∨
      ∃ landed ∈ blob, ∃ source : BlobKey, source.digest = landed.digest ∧
        action = .openFile source.path ∧ path = source.path := by
  cases action with
  | create named => exact .inl (touches.trans near)
  | stat named =>
    rcases near with same | ⟨landed, member, place⟩
    · exact .inl (touches.1.trans same)
    · exact .inr (.inl ⟨landed, member, touches.1 ▸ place⟩)
  | inode named | unlink named => exact .inl (touches.1.trans near)
  | openFile named =>
    rcases near with same | ⟨landed, member, source, digest, rfl⟩
    · exact .inl (touches.1.trans same)
    · exact .inr (.inr ⟨landed, member, source, digest, rfl, touches.1⟩)
  | rename source target =>
    obtain ⟨same, landed, member, place⟩ := near
    rcases touches.1 with equal | equal
    · exact .inl (equal.trans same)
    · exact .inr (.inl ⟨landed, member, .inl (equal.trans place)⟩)
  | publish named data =>
    obtain ⟨landed, member, place⟩ := near
    exact .inr (.inl ⟨landed, member, .inr (touches.trans place)⟩)
  | link node named allowCopy =>
    obtain ⟨landed, member, place⟩ := near
    exact .inr (.inl ⟨landed, member, .inl (touches.trans place)⟩)
  | write node data | setLen node length => cases unwritten
  | _ => exact touches.elim

theorem present_of_near (near : action.Near key none) (touches : action.Touches disk path)
    (unwritten : action.written = none) :
    (disk.files key.path).isSome = true ∨ action = .create key.path := by
  have place : path = key.path := (place_of_near near touches unwritten).resolve_right (by simp)
  cases action with
  | create named => exact .inr (congrArg _ near)
  | rename source target => exact .inl (near.1 ▸ touches.2)
  | publish named data | link node named allowCopy => exact absurd near (by simp [DiskAction.Near])
  | write node data | setLen node length => cases unwritten
  | fstat node | read node | sync => exact touches.elim
  | _ => exact .inl (place ▸ touches.2)

theorem files_of_written {node : Nat} (written : action.written = some node)
    (touches : action.Touches disk path) : disk.files path = some (.regular node) := by
  cases action with
  | write other data | setLen other length =>
    cases written
    exact touches
  | _ => cases written

theorem Request.landing_repo {request : Request} {landed : BlobKey}
    (session : request.session? = some key) (lands : request.landing = some landed) :
    landed.repo = key.repo := by
  cases request with
  | finishUpload key digest maxSize trailing limit =>
    cases session
    cases lands
    rfl
  | _ => cases lands

end

def OwnedBy (path : Path) : Prop :=
  ∀ other file, (FileUse.ofRepo other file).path = path → other = repo

theorem ownedBy_staging (issued : isUploadId key.id = true) :
    OwnedBy key.repo key.path := fun _ _ equal =>
  @repo_eq_of_path_eq _ key.repo _ (.staging key.id issued) equal

theorem ownedBy_blob (blob : BlobKey) : OwnedBy blob.repo blob.path := fun _ _ equal =>
  @repo_eq_of_path_eq _ blob.repo _ (.blob blob.digest) equal

theorem ownedBy_marker : OwnedBy repo (markerPath repo) :=
  fun _ _ equal => @repo_eq_of_path_eq _ repo _ .marker equal

/-- A call on a session touches files only when the session was handed out, and
then none of another repository, but for the blob of the landed digest that it
opens to link it. -/
theorem Confining.touches {notes : Nat → Tracked} {index : Nat} {request : Request}
    {action : DiskAction} (confining : Confining env world notes)
    (allowed : (confinedDiscipline env request).allowed (notes index) (.disk action)) {path : Path}
    (touches : action.Touches world.disk path) (session : request.session? = some key) :
    key ∈ world.sessions.issued ∧
      (OwnedBy key.repo path ∨ ∃ landed ∈ request.landing, ∃ source : BlobKey,
        source.digest = landed.digest ∧ action = .openFile source.path ∧ path = source.path) := by
  obtain ⟨base, confined, _⟩ := allowed
  obtain ⟨near, writes⟩ := confined key session
  have verifiable := confining.verifiable
  have staging : key ∈ world.sessions.issued → OwnedBy key.repo key.path := fun issued =>
    ownedBy_staging (confining.hexadecimal key issued)
  cases written : action.written with
  | some node =>
    obtain ⟨mutex, holds⟩ := writes (by rw [written]; rfl)
    obtain ⟨held, locked, also, opened, _⟩ := allowed_written base written
    cases holds.1.symm.trans also.1
    have staged := (verifiable.guarded.sees index).opened key mutex node holds opened
    have same : path = key.path :=
      verifiable.intact.staging key path node staged (files_of_written written touches)
    have issued := confining.live key (.inr (by rw [staged]; rfl))
    exact ⟨issued, .inl (same ▸ staging issued)⟩
  | none =>
    rcases near with near | ⟨opened, near⟩
    · have issued : key ∈ world.sessions.issued := by
        refine confining.live key ?_
        rcases present_of_near near touches written with present | rfl
        · exact .inr present
        obtain ⟨held, mutex, holds, pending, same⟩ := base
        cases SessionKey.path_inj.mp same
        exact .inl ((verifiable.guarded.sees index).pending key mutex true holds pending)
      have same : path = key.path := (place_of_near near touches written).resolve_right (by simp)
      exact ⟨issued, .inl (same ▸ staging issued)⟩
    have issued := confining.opened index key opened
    refine ⟨issued, ?_⟩
    rcases place_of_near near touches written with same | ⟨landed, lands, place⟩ | linked
    · exact .inl (same ▸ staging issued)
    · refine .inl ?_
      rw [← Request.landing_repo session lands]
      rcases place with same | same
      · exact same ▸ ownedBy_blob landed
      · exact same ▸ ownedBy_marker landed.repo
    · exact .inr linked

/-- The sweep touches staging files of sessions handed out. -/
theorem Confining.touches_swept {notes : Nat → Tracked} {index : Nat} {action : DiskAction}
    (confining : Confining env world notes)
    (allowed : (confinedDiscipline env .sweepStaleUploads).allowed (notes index) (.disk action))
    {path : Path} (touches : action.Touches world.disk path) :
    ∃ key ∈ world.sessions.issued, path = key.path ∧ OwnedBy key.repo path := by
  obtain ⟨_, _, sweeps⟩ := allowed
  obtain ⟨key, sweeps⟩ := sweeps rfl
  have found : path = key.path ∧ (world.disk.files path).isSome = true := by
    rcases sweeps with rfl | rfl <;> exact touches
  obtain ⟨rfl, present⟩ := found
  have issued := confining.live key (.inr present)
  exact ⟨key, issued, rfl, ownedBy_staging (confining.hexadecimal key issued)⟩

/-- A store that was just opened: nothing is locked, every blob has the digest in
its name, and staging files belong to sessions handed out before. -/
structure Confinable (env : Env) (world : World) : Prop where
  unlocked : world.uploads = {}
  intact : Intact env world.disk
  live : ∀ key, world.Live key → key ∈ world.sessions.issued
  hexadecimal : ∀ key ∈ world.sessions.issued, isUploadId key.id = true

/-- No call on a session touches files unless the session was handed out, and no
call touches files of another repository, but for the blob that `finish_upload`
opens to link it; the sweep of stale uploads touches staging files of sessions
handed out only. -/
theorem session_calls_confined (env : Env) {start final : TrackedStore}
    {happenings : List Happening}
    (run : Reaches (happen env) (Apartly env) start happenings final)
    (unused : start.threads = []) (confinable : Confinable env start.world)
    {thread : Thread Request Action Response Reply Tracked} (made : thread ∈ final.threads)
    {action : DiskAction} (heads : thread.program.head? = some (.disk action)) {path : Path}
    (touches : action.Touches final.world.disk path) :
    (∀ key ∈ thread.call.session?, key ∈ final.world.sessions.issued ∧
      (OwnedBy key.repo path ∨ ∃ landed ∈ thread.call.landing, ∃ source : BlobKey,
        source.digest = landed.digest ∧ action = .openFile source.path ∧ path = source.path)) ∧
    (thread.call = .sweepStaleUploads →
      ∃ key ∈ final.world.sessions.issued, path = key.path ∧ OwnedBy key.repo path) := by
  have initially : (trackedStore env).Sound (confinedDiscipline env) (fun _ _ _ => True)
      (Confining env) start := by
    refine (confining_preserved env).run (.nil start) unused
      ⟨verifiable_of_unlocked confinable.unlocked confinable.intact, confinable.live,
        confinable.hexadecimal, nofun⟩
  have sound := run.invariant
    (fun _ _ _ apartly happened => confining_happen apartly happened) initially
  obtain ⟨index, found⟩ := List.getElem?_of_mem made
  have noted : (trackedStore env).notesAt final index = thread.notes :=
    Machine.notesAt_of_found found
  have allowed : (confinedDiscipline env thread.call).allowed
      ((trackedStore env).notesAt final index) (.disk action) := by
    rw [noted]
    rcases sound.orderly thread made with met | ⟨_, other, same, inert⟩
    · exact met.allowed heads
    · cases heads.symm.trans same
      cases inert
  refine ⟨fun key session => sound.holds.touches allowed touches session, fun sweeps => ?_⟩
  rw [sweeps] at allowed
  exact sound.holds.touches_swept allowed touches

/-! ## A letter for a session, and one for the marker of another repository -/

instance (system : TrackedStore) (index : Nat) (action : Action) (response : Response action) :
    Decidable (trackedWrites.actions system index action response) :=
  inferInstanceAs (Decidable
    (writesGuarded.actions (system.mapNotes Tracked.base) index action response))

instance (request : Request) : Decidable (trackedWrites.calls request) := isTrue trivial

instance (action : Action) : Decidable (trackedWrites.drops action) :=
  inferInstanceAs (Decidable (action.waits = true))

instance (env : Env) (system : TrackedStore) (happening : Happening) :
    Decidable (Apartly env system happening) :=
  match happening with
  | .call event =>
      inferInstanceAs (Decidable ((trackedStore env).Permitted trackedWrites system event))
  | .writeIndex repo _ => inferInstanceAs (Decidable ((repoPath repo).getLast? ≠ some "uploads"))

/-- A letter is about to be written to a staging file. -/
def letterHappenings : List Happening :=
  .writeIndex app [] :: (beginZero ++ .start appendLetter :: runs 1 10).map .call

def writesNext (node : Nat) (thread : Thread Request Action Response Reply Tracked) : Bool :=
  match thread.program.head? with
  | some (.disk (.write other _)) => other = node
  | _ => false

theorem confinable_empty (env : Env) : Confinable env {} where
  unlocked := rfl
  intact := intact_empty env
  live _ live := by rcases live with pending | staged <;> contradiction
  hexadecimal _ impossible := nomatch impossible

theorem letter_confined :
    ∃ final : TrackedStore, Reaches (happen twoBodies) (Apartly twoBodies) { world := {} }
        letterHappenings final ∧
      ∃ thread ∈ final.threads, writesNext 1 thread = true ∧
        thread.call.session? = some zeroSession ∧
        final.world.disk.files zeroSession.path = some (.regular 1) ∧
        zeroSession ∈ final.world.sessions.issued := by
  obtain ⟨final, run, staged, thread, made, writes, session⟩ := @exists_run_of_execute _ _
    (happen twoBodies) (Apartly twoBodies) _ { world := {} } letterHappenings
    (fun final => final.world.disk.files zeroSession.path = some (.regular 1) ∧
      ∃ thread ∈ final.threads, writesNext 1 thread = true ∧
        thread.call.session? = some zeroSession) _ (by decide +kernel)
  refine ⟨final, run, thread, made, writes, session, staged, ?_⟩
  unfold writesNext at writes
  split at writes
  · rename_i node data heads
    cases of_decide_eq_true writes
    exact ((session_calls_confined twoBodies run rfl (confinable_empty twoBodies) made heads
      staged).1 zeroSession session).1
  · cases writes

/-- A repository beneath the staging files of another one. -/
def appUploads : RepositoryName := ⟨"app/uploads", by decide +kernel⟩

/-- An id nobody was given, and the marker of `app/uploads`. -/
def foreignMarker : SessionKey := ⟨app, "oci-layout"⟩

/-- A blob is put into `app/uploads`, and a letter is appended to the session
`oci-layout` of `app`. -/
def foreignHappenings : List Happening :=
  (.start (.putBlob ⟨appUploads, .ofNothing⟩ []) :: runs 0 23 ++
    .start (.appendUpload foreignMarker [.ok letter] none 10) :: runs 1 15).map .call

theorem foreign_marker_overwritten :
    ∃ final : TrackedStore, Reaches (happen twoBodies) (fun _ _ => True) { world := {} }
        foreignHappenings final ∧
      Machine.Quiescent final ∧ foreignMarker ∉ final.world.sessions.issued ∧
      final.world.disk.bytesAt (FileUse.ofRepo appUploads .marker).path =
        some (ociLayoutMarker ++ letter) :=
  exists_run_of_execute (by decide +kernel)

end Roci.Filesystem
