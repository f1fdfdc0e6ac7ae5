import Roci.Filesystem.Alone
import Roci.Filesystem.SessionCount

/-!
# A finished upload

`finish_upload` answers with success once the blob is in place.  Linked from
another repository, the blob is in place and the staging file is unlinked; moved
by a rename, the staging file is the blob.  A rename that finds the blob already
there counts as success too, and leaves the staging file where it is.
-/

namespace Roci.Filesystem

open Roci.Library Roci.Storage
open Program (performs_act performs_pure)

/-- A rename that found its target in place. -/
def refused : (action : Action) → Response action → Bool
  | .disk (.rename _ _), .ok false => true
  | _, _ => false

abbrev Steps := List (Deed World Action Choice Response)

/-- However the call runs alone, it ends as `post` says. -/
abbrev Alone {Result : Type} (env : Env) (program : Call Result) (world : World)
    (post : Steps → Result → World → Prop) : Prop :=
  program.Ensures (alone env) (fun _ => True) world post

def refusal (deeds : Steps) : Bool := deeds.any fun deed => refused deed.action deed.response

/-- The session was asked for and is not pending; `present` says whether it has a
staging file. -/
structure World.Stands (world : World) (key : SessionKey) (present : Bool) : Prop where
  asked : key ∈ world.uploads.named
  settled : world.sessions.pending key = false
  staged : (world.disk.files key.path).isSome = present

theorem World.Stands.absent {world : World} {key : SessionKey} (past : world.Stands key false) :
    world.disk.files key.path = none := by
  simpa using past.staged

def Leaves (key : SessionKey) : Action → Prop
  | .disk (.rename _ _) => False
  | .disk action => key.path ∉ action.names
  | .sessions (.insertPending _) => False
  | .sessions (.takePending _) => False
  | _ => True

variable {action : Action} (deed : Deed World Action Choice Response)

section

variable {env : Env} {world next : World} {choice : Choice} {key : SessionKey} {present : Bool}

theorem LockMap.named_perform {Key Value : Type} [DecidableEq Key] [Inhabited Value]
    {locks after : LockMap Key Value} {index : Nat} {action : LockAction Key Value}
    {response : LockResponse action}
    (performed : locks.perform index action = some (after, response)) {key : Key}
    (named : key ∈ locks.named) : key ∈ after.named := by
  cases action with
  | get asked =>
    have pair : locks.get index asked = (after, response) := Option.some.inj performed
    have grown := @LockMap.named_get _ _ locks index asked _ _
    rw [pair] at grown
    exact grown ▸ List.mem_cons_of_mem _ named
  | lock mutex =>
    simp only [LockMap.perform] at performed
    split at performed <;> cases performed
    exact named
  | tryLock mutex =>
    simp only [LockMap.perform] at performed
    split at performed <;> cases performed <;> exact named
  | release asked =>
    cases performed
    split <;> exact named
  | _ =>
    cases performed
    exact named

theorem refused_of_leaves (leaves : Leaves key action) (response : Response action) :
    refused action response = false := by
  cases action with
  | disk action =>
    cases action with
    | rename source target => exact leaves.elim
    | _ => rfl
  | _ => rfl

theorem World.Stands.step {response : Response action} (stands : world.Stands key present)
    (leaves : Leaves key action)
    (performed : alone env world action choice = some (next, response)) :
    next.Stands key present := by
  cases action with
  | disk action =>
    obtain ⟨after, rfl, outcome⟩ := perform_disk performed
    have unnamed : key.path ∉ action.names := by
      cases action with
      | rename source target => exact leaves.elim
      | _ => exact leaves
    refine ⟨stands.asked, stands.settled, ?_⟩
    simp only
    rw [outcome.files unnamed]
    exact stands.staged
  | uploads action =>
    obtain ⟨uploads, changed, rfl⟩ := perform_uploads performed
    exact ⟨LockMap.named_perform changed stands.asked, stands.settled, stands.staged⟩
  | sessions action =>
    obtain ⟨sessions, changed, rfl⟩ := perform_sessions performed
    refine ⟨stands.asked, ?_, stands.staged⟩
    refine (settled_of_performSession changed stands.asked ?_).trans stands.settled
    rintro taken rfl
    exact leaves.elim
  | _ =>
    obtain ⟨_, rfl⟩ := perform_elsewhere (by trivial) performed
    exact { stands with }

/-- Run alone, the call leaves a staging file behind exactly when a rename of it
was refused, provided its result is a good one. -/
def Finishes {Result : Type} (env : Env) (key : SessionKey) (good : Result → Bool)
    (program : Call Result) (world : World) : Prop :=
  program.Ensures (alone env) (fun _ => True) world fun deeds result reached =>
    good result = true → reached.Stands key (refusal deeds)

@[simp]
theorem refusal_nil : refusal [] = false := rfl

@[simp]
theorem refusal_cons (deeds : Steps) :
    refusal (deed :: deeds) = (refused deed.action deed.response || refusal deeds) := rfl

@[simp]
theorem refusal_append (first second : Steps) :
    refusal (first ++ second) = (refusal first || refusal second) :=
  List.any_append

section

variable {Result Other : Type} {good : Other → Bool}
  {program : Call Result} {rest : Result → Call Other}

theorem ensures_leaving (leaves : program.Performs (Leaves key))
    (stands : world.Stands key present) :
    Alone env program world fun deeds _ reached =>
      refusal deeds = false ∧ reached.Stands key present := by
  induction program generalizing world with
  | finish result => exact ⟨rfl, stands⟩
  | perform action next ih =>
    intro choice middle response performed _
    refine (ih response (leaves.2 response)
      (stands.step leaves.1 performed)).weaken fun deeds result reached ended => ?_
    refine ⟨?_, ended.2⟩
    simp [refused_of_leaves leaves.1, ended.1]

theorem Finishes.leaving_bind (leaves : program.Performs (Leaves key))
    (stands : world.Stands key present) (continues : ∀ result reached, reached.Stands key present →
      Finishes env key good (rest result) reached) :
    Finishes env key good (program >>= rest) world := by
  refine (ensures_leaving leaves stands).bind fun deeds result reached ended => ?_
  refine (continues result reached ended.2).weaken fun more answer final finished succeeded => ?_
  rw [refusal_append, ended.1]
  exact finished succeeded

theorem Finishes.bind {fine : Result → Bool} (finishes : Finishes env key fine program world)
    (leaves : ∀ result, fine result = true → (rest result).Performs (Leaves key))
    (fails : ∀ result reached, fine result = false →
      Alone env (rest result) reached fun _ answer _ => good answer = false) :
    Finishes env key good (program >>= rest) world := by
  refine Program.Ensures.bind finishes fun deeds result reached ended => ?_
  cases answered : fine result with
  | true =>
    refine (ensures_leaving (leaves result answered) (ended answered)).weaken
      fun more answer final left _ => ?_
    rw [refusal_append, left.1, Bool.or_false]
    exact left.2
  | false =>
    refine (fails result reached answered).weaken fun more answer final failed succeeded => ?_
    exact nomatch failed.symm.trans succeeded

theorem Finishes.runBlocking {job : Call Other} (finishes : Finishes env key good job world) :
    Finishes env key good (runBlocking job) world :=
  finishes.bind (fun _ _ => .act_bind trivial fun _ => performs_pure)
    fun _ _ failed _ _ _ _ _ => failed

end

/-! ## The parts of `finish_upload` -/

theorem leaves_of_quiet (quiet : Quiet action) : Leaves key action := by
  cases action with
  | disk action => cases action <;> first | exact quiet.elim | exact List.not_mem_nil
  | sessions action => cases action <;> first | exact quiet.elim | exact trivial
  | _ => trivial

variable {Result : Type}

theorem leaves_quiet {program : Call Result} (quiet : program.Performs Quiet) :
    program.Performs (Leaves key) :=
  quiet.weaken fun _ => leaves_of_quiet

theorem leaves_appendInner (node start : Nat) (body : UploadBody) (limit : Nat)
    (hash : Option StagedHash) (deferTail : Bool) :
    (appendInner node start body limit hash deferTail).Performs (Leaves key) :=
  performs_appendInner (fun _ => List.not_mem_nil) (fun _ => List.not_mem_nil) trivial trivial
    _ _ _ _ _

theorem leaves_writeTail (deferred : Deferred) : (writeTail deferred).Performs (Leaves key) :=
  performs_writeTail deferred List.not_mem_nil List.not_mem_nil

theorem leaves_finishVerify (session : SessionKey) (algorithm : String) (deferred : Deferred)
    (covers : Bool) :
    (finishVerify env session algorithm deferred covers).Performs (Leaves key) := by
  refine (leaves_writeTail deferred).bind fun hash => ?_
  split
  · exact performs_pure
  refine .act_bind List.not_mem_nil fun opened => ?_
  split
  · exact performs_pure
  refine (leaves_quiet (performs_syncDirectory trivial _)).bind fun synced => ?_
  split
  · exact performs_pure
  split
  · exact performs_pure
  refine .act_bind List.not_mem_nil fun read => ?_
  split <;> exact performs_pure

theorem leaves_dedupeLinkAt (blob : BlobKey) : (dedupeLinkAt env blob).Performs (Leaves key) :=
  performs_dedupeLinkAt env blob trivial (fun _ => List.not_mem_nil) List.not_mem_nil
    (fun _ => by simp [Leaves, DiskAction.names]) List.not_mem_nil

theorem leaves_layoutAndAdmit (unmarked : key.id ≠ "oci-layout") (blob : BlobKey) (size : Nat) :
    (layoutAndAdmit env blob size).Performs (Leaves key) := by
  have apart : key.path ≠ markerPath blob.repo :=
    fun same => unmarked (SessionKey.id_of_path_eq_marker same)
  exact performs_layoutAndAdmit env blob size List.not_mem_nil
    (by simpa [Leaves, DiskAction.names] using apart) List.not_mem_nil List.not_mem_nil trivial

/-! ## The staging file goes -/

theorem finishes_renameBeneath (blob : BlobKey) (node : Nat) (sync : Bool)
    (stands : world.Stands key true) :
    Finishes env key Except.isOk (renameBeneath key.path blob.path node sync) world := by
  refine .leaving_bind (performs_act.mpr List.not_mem_nil) stands fun found reached stands => ?_
  split
  · exact nofun
  split
  · exact nofun
  intro choice middle renamed performed _
  obtain ⟨after, rfl, outcome⟩ := perform_disk performed
  rcases renamed with error | moved
  · exact nofun
  cases moved with
  | true =>
    obtain ⟨entry, _, _, rfl⟩ := outcome
    have gone : World.Stands { reached.tick choice.clock with
        disk := (reached.disk.setFile key.path none).setFile blob.path (some entry) }
        key false := by
      refine ⟨stands.asked, stands.settled, ?_⟩
      simp [Disk.files_setFile_of_ne (key.path_ne_blob blob)]
    refine (ensures_leaving (leaves_quiet (performs_syncDirectory trivial sync)) gone).weaken
      fun deeds result final ended _ => ?_
    simpa [refused, ended.1] using ended.2
  | false =>
    obtain ⟨_, rfl⟩ := outcome
    have left : World.Stands { reached.tick choice.clock with disk := reached.disk }
        key true := { stands with }
    refine (ensures_leaving (leaves_quiet (performs_checkRegular trivial)) left).weaken
      fun deeds result final ended _ => ?_
    simpa [refused, ended.1] using ended.2

theorem finishes_placeStaged (blob : BlobKey) (node : Nat) (stands : world.Stands key true) :
    Finishes env key Except.isOk (placeStaged env key blob node) world := by
  refine .leaving_bind (leaves_dedupeLinkAt blob) stands fun linked reached stands => ?_
  split
  · intro choice middle unlinked performed _
    obtain ⟨after, rfl, outcome⟩ := perform_disk performed
    cases unlinked with
    | error error => exact nofun
    | ok done =>
      obtain ⟨_, rfl⟩ := outcome
      exact fun _ => ⟨stands.asked, stands.settled, by simp [refused]⟩
  · exact finishes_renameBeneath blob node _ stands

section

variable (unmarked : key.id ≠ "oci-layout") (blob : BlobKey)

include unmarked blob

theorem finishes_landVerified
    (size node : Nat) (checksum : Option UInt32) (stands : world.Stands key true) :
    Finishes env key Landed.isDone (landVerified env key blob size node checksum) world := by
  refine .leaving_bind (leaves_layoutAndAdmit unmarked blob size) stands
    fun admitted reached stands => ?_
  split
  · exact nofun
  refine (finishes_placeStaged blob node stands).bind (fun placed placedWell => ?_)
    fun placed final failed => ?_
  · split <;> exact performs_pure
  cases placed with
  | error error => exact rfl
  | ok done => exact nomatch failed

theorem finishes_landBlob (size node : Nat)
    (deferred : Option Deferred) (stands : world.Stands key true) :
    Finishes env key Landed.isDone (landBlob env key blob size node deferred) world := by
  rcases deferred with _ | deferred
  · exact finishes_landVerified unmarked blob size node none stands
  refine .leaving_bind (leaves_writeTail deferred) stands fun hash reached stands => ?_
  split
  · exact nofun
  · exact nofun
  simp only
  split
  · exact nofun
  · exact finishes_landVerified unmarked blob size node _ stands

theorem finishes_finishLand (size node : Nat)
    (deferred : Option Deferred) (verified : Option Verified) (stands : world.Stands key true) :
    Finishes env key Except.isOk (finishLand env key blob size node deferred verified) world := by
  refine .leaving_bind (performs_act.mpr trivial) stands fun lock reached stands => ?_
  refine .leaving_bind (performs_act.mpr trivial) stands fun _ reached stands => ?_
  refine .leaving_bind (performs_act.mpr trivial) stands fun _ reached stands => ?_
  refine (finishes_landBlob unmarked blob size node deferred stands).runBlocking.bind
    (fun landed done => ?_) fun landed final failed => ?_
  · cases landed with
    | done checksum =>
      exact .act_bind trivial fun _ => .act_bind trivial fun _ =>
        leaves_quiet (quiet_concludeBlob _ _ _)
    | _ => exact nomatch done
  cases landed with
  | done checksum => exact nomatch failed
  | _ => simp [Except.isOk, Except.toBool]

theorem finishes_verifyAndLand (node : Nat) (body : Deferred) (stands : world.Stands key true) :
    Finishes env key Except.isOk (verifyAndLand env key blob node body) world := by
  dsimp only [verifyAndLand]
  split
  · exact finishes_finishLand unmarked blob _ node _ _ stands
  refine .leaving_bind ((leaves_finishVerify _ _ _ _).bind fun _ =>
    .act_bind trivial fun _ => performs_pure) stands fun verified reached stands => ?_
  split
  · exact nofun
  split
  · simp [Finishes, Except.isOk, Except.toBool]
  · exact finishes_finishLand unmarked blob _ _ _ _ stands

theorem finishes_finishReady
    (mutex node current maxSize : Nat) (trailing : UploadBody) (limit : Nat)
    (stands : world.Stands key true) :
    Finishes env key Except.isOk
      (finishReady env key blob mutex node current maxSize trailing limit) world := by
  refine .leaving_bind (performs_act.mpr trivial) stands fun taken reached stands => ?_
  refine .leaving_bind (leaves_appendInner _ _ _ _ _ _) stands fun appended reached stands => ?_
  split
  · exact nofun
  split
  · simp [Finishes, Except.isOk, Except.toBool]
  · exact finishes_verifyAndLand unmarked blob node _ stands

end

/-! ## The staging file is there -/

/-- What `prepare_staging` ends in if it opens a file. -/
def Opens (key : SessionKey) (pending : Bool) (deeds : Steps)
    (result : Except StorageError Staging) (reached : World) : Prop :=
  ∀ node len, result = .ok (.ready node len) → refusal deeds = false ∧
    key ∈ reached.uploads.named ∧ (pending = false → reached.sessions.pending key = false) ∧
    (reached.disk.files key.path).isSome = true

theorem ensures_createStaging (asked : key ∈ world.uploads.named) :
    Alone env (prepareStaging key true) world (Opens key true) := by
  intro choice middle created performed _
  obtain ⟨after, rfl, outcome⟩ := perform_disk performed
  rcases created with error | node
  · exact fun _ _ impossible => by cases impossible
  obtain ⟨_, _, rfl⟩ := outcome
  intro choice middle length performed _
  obtain ⟨after, rfl, outcome⟩ := perform_disk performed
  have unchanged : after.files key.path = _ := outcome.files (by simp [DiskAction.names])
  rcases length with error | length
  · exact fun _ _ impossible => by cases impossible
  intro opened len _
  refine ⟨rfl, asked, by simp, ?_⟩
  simp only
  rw [unchanged]
  simp

theorem ensures_openStaging (asked : key ∈ world.uploads.named)
    (settled : world.sessions.pending key = false) :
    Alone env (prepareStaging key false) world (Opens key false) := by
  intro choice middle found performed _
  obtain ⟨after, rfl, outcome⟩ := perform_disk performed
  rcases found with error | found
  · exact nofun
  rcases found with _ | ⟨regular, size⟩
  · exact nofun
  rcases regular with _ | _
  · exact nofun
  obtain ⟨described, rfl⟩ := outcome
  have stands : World.Stands { world.tick choice.clock with disk := world.disk } key true := by
    refine ⟨asked, settled, ?_⟩
    cases named : world.disk.files key.path with
    | none => simp [named] at described
    | some entry => simp
  refine (ensures_leaving ?_ stands).weaken fun deeds result reached ended node len _ =>
    ⟨by simp [refused, ended.1], ended.2.asked, fun _ => ended.2.settled, ended.2.staged⟩
  refine .act_bind List.not_mem_nil fun opened => ?_
  split
  · exact performs_pure
  refine .act_bind List.not_mem_nil fun length => ?_
  split <;> exact performs_pure

theorem ensures_runBlocking {job : Call Result} {post : Steps → Result → World → Prop}
    (ensures : Alone env job world fun deeds result reached => ∀ choice,
      post (deeds ++ [⟨reached, .resume, choice, ()⟩]) result (reached.tick choice.clock)) :
    Alone env (runBlocking job) world post := by
  refine ensures.bind fun deeds result reached ended =>
    .act_bind fun choice middle resumed performed _ => ?_
  cases performed
  exact ended choice

theorem ensures_prepareSession (asked : key ∈ world.uploads.named) :
    Alone env (prepareSession key) world (Opens key false) := by
  refine .act_bind fun choice middle create performed _ => ?_
  obtain ⟨rfl, pending⟩ := alone_isPending performed
  have staging : Alone env (prepareStaging key create) (world.tick choice.clock)
      (Opens key create) := by
    cases create with
    | true => exact ensures_createStaging asked
    | false => exact ensures_openStaging asked pending.symm
  have blocking : Alone env (runBlocking (prepareStaging key create)) (world.tick choice.clock)
      (Opens key create) := by
    refine ensures_runBlocking (staging.weaken fun deeds result reached opens => ?_)
    intro choice node len equal
    simpa [refused] using opens node len equal
  refine blocking.bind fun deeds result reached opens => ?_
  rcases result with error | staging
  · exact nofun
  rcases create with _ | _
  · intro node len equal
    simpa [refused] using opens node len equal
  refine .act_bind fun choice middle taken performed _ node len equal => ?_
  obtain ⟨rfl, _⟩ := alone_takePending performed
  obtain ⟨unrefused, named, _, present⟩ := opens node len equal
  exact ⟨by simp [refused, unrefused], named, fun _ => Function.update_self _ _ _, present⟩

theorem finishes_withSession {body : Nat → Call (Except StorageError Result)}
    (finishes : ∀ mutex (reached : World), key ∈ reached.uploads.named →
      Finishes env key Except.isOk (body mutex) reached) :
    Finishes env key Except.isOk (withSession key body) world := by
  unfold withSession
  split
  · exact nofun
  refine .act_bind fun choice middle mutex performed _ => ?_
  obtain ⟨rfl, _⟩ := alone_get performed
  refine .act_bind fun choice middle locked performed _ => ?_
  obtain ⟨uploads, changed, rfl⟩ := perform_uploads performed
  have asked : key ∈ uploads.named := by
    refine LockMap.named_perform changed ?_
    rw [LockMap.named_get]
    exact List.mem_cons_self
  refine Finishes.bind (finishes mutex _ asked) (fun result done => ?_)
    fun result reached failed => .act_bind fun _ _ _ _ _ => .act_bind fun _ _ _ _ _ => failed
  exact .act_bind trivial fun _ => .act_bind trivial fun _ => performs_pure

theorem finishes_finishUpload (unmarked : key.id ≠ "oci-layout") (digest : Digest)
    (maxSize : Nat) (trailing : UploadBody) (limit : Nat) (world : World) :
    Finishes env key Except.isOk (finishUpload env key digest maxSize trailing limit) world := by
  refine finishes_withSession fun mutex reached asked => ?_
  refine (ensures_prepareSession asked).bind fun deeds staging final opens => ?_
  rcases staging with error | staging
  · exact nofun
  cases staging with
  | ready node current =>
    obtain ⟨unrefused, named, settled, present⟩ := opens node current rfl
    refine (finishes_finishReady unmarked _ mutex node current maxSize trailing limit
      ⟨named, settled rfl, present⟩).weaken fun more answer last finished succeeded => ?_
    rw [refusal_append, unrefused]
    exact finished succeeded
  | _ => simp [Except.isOk, Except.toBool]

end

/-! ## A session that is over stays over -/

section

variable {env : Env} {world next final : World} {notes : Notes} {choice : Choice} {key : SessionKey}

/-- Step lemma. -/
theorem World.Stands.keeps {response : Response action} (past : world.Stands key false)
    (unmarked : key.id ≠ "oci-layout") (undivided : Undivided world notes)
    (allowed : (discipline env false).allowed notes action)
    (performed : alone env world action choice = some (next, response)) :
    next.Stands key false := by
  cases action with
  | disk action =>
    obtain ⟨after, rfl, outcome⟩ := perform_disk performed
    refine ⟨past.asked, past.settled, ?_⟩
    have unstaged : ∀ path data, action = .publish path data → key.path ≠ path := by
      rintro path data rfl same
      rcases allowed with ⟨repo, marker⟩ | ⟨blob, place, _⟩
      · exact unmarked (SessionKey.id_of_path_eq_marker (same.trans marker))
      · exact key.path_ne_blob blob (same.trans place)
    rcases staging_file allowed outcome
      (fun mutex holds noted => undivided.pending key mutex true holds noted) unstaged with
      same | ⟨live, _⟩
    · simp only
      rw [same]
      exact past.staged
    · exact absurd ⟨past.settled, past.absent⟩ live.not_over
  | uploads action =>
    obtain ⟨uploads, changed, rfl⟩ := perform_uploads performed
    exact ⟨LockMap.named_perform changed past.asked, past.settled, past.staged⟩
  | sessions action =>
    obtain ⟨sessions, changed, rfl⟩ := perform_sessions performed
    refine ⟨past.asked, ?_, past.staged⟩
    by_cases taken : action = .takePending key
    · subst taken
      cases changed
      exact Function.update_self _ _ _
    refine (settled_of_performSession changed past.asked ?_).trans past.settled
    rintro other rfl rfl
    exact taken rfl
  | _ => exact past.step (by trivial) performed

/-- Run lemma. -/
theorem World.Stands.after_turns {turns : List (Turn Request Choice)}
    (run : TakesTurns env world turns final) (unlocked : world.Unlocked)
    (unmarked : key.id ≠ "oci-layout") (past : world.Stands key false) :
    final.Unlocked ∧ final.Stands key false := by
  have kept : ∀ request (world : World), True → world.Unlocked ∧ world.Stands key false →
      Alone env (code env request) world fun _ _ reached =>
        reached.Unlocked ∧ reached.Stands key false := by
    intro request world _ ⟨unlocked, past⟩
    refine (@ensures_code env world _ (fun world _ => world.Stands key false) request ?_
      unlocked past).weaken fun _ _ reached ended => ⟨ended.1, ended.2.choose_spec.2⟩
    intro world notes action choice next response allowed performed _ undivided past
    exact past.keeps unmarked undivided allowed performed
  refine invariant_of_ensures kept (run.weaken fun world turn _ => ⟨trivial, ?_⟩) ⟨unlocked, past⟩
  exact fun _ _ _ _ => trivial

def Request.AsksFor (key : SessionKey) : Request → Prop
  | .uploadSize asked => asked = key
  | .appendUpload asked _ _ _ => asked = key
  | .finishUpload asked _ _ _ _ => asked = key
  | _ => False

/-- No operation failed. -/
def Sound : Prop := deed.choice.error = none

theorem ensures_missing (past : world.Stands key false) :
    (prepareSession key).Ensures (alone env) Sound world fun _ result _ =>
      result = .ok .missing := by
  refine .act_bind fun choice middle create performed _ => ?_
  obtain ⟨rfl, rfl⟩ := alone_isPending performed
  rw [past.settled]
  refine .act_bind fun choice middle found performed sound => ?_
  obtain ⟨rfl, rfl⟩ := alone_stat performed sound
  rw [World.tick_disk, past.absent]
  exact .act_bind fun _ _ _ _ _ => rfl

abbrev Passable {Result : Type} (env : Env) (program : Call Result) (world : World)
    (post : Result → World → Prop) : Prop :=
  program.Can (alone env) world fun deeds result reached =>
    (∀ deed ∈ deeds, Sound deed) ∧ post result reached

theorem can_missing (past : world.Stands key false) :
    Passable env (prepareSession key) world fun result _ => result = .ok .missing := by
  refine .act_bind {} rfl ?_
  rw [World.tick_sessions, past.settled]
  exact ⟨{}, _, _, alone_stat_absent past.absent, {}, _, _, rfl, by simp [Sound], rfl⟩

variable {Result : Type} {call : Call (Except StorageError Result)} {request : Request}
  {answer : Result → Answer} {id : String}

theorem ensures_uploadSize_over (past : world.Stands key false)
    (safe : safeComponent key.id = .ok id) :
    (uploadSize key).Ensures (alone env) Sound world fun _ result _ =>
      result = .error .notFound := by
  refine .act_bind fun choice middle pending performed _ => ?_
  obtain ⟨rfl, rfl⟩ := alone_isPending performed
  rw [past.settled, if_neg Bool.false_ne_true, safe]
  refine .act_bind fun choice middle found performed sound => ?_
  obtain ⟨rfl, rfl⟩ := alone_stat performed sound
  rw [World.tick_disk, past.absent]
  exact .act_bind fun _ _ _ _ _ => rfl

theorem can_uploadSize_over (past : world.Stands key false) (safe : safeComponent key.id = .ok id) :
    Passable env (uploadSize key) world fun _ _ => True := by
  refine .act_bind {} rfl ?_
  rw [World.tick_sessions, past.settled, if_neg Bool.false_ne_true, safe]
  exact ⟨{}, _, _, alone_stat_absent past.absent, {}, _, _, rfl, by simp [Sound], trivial⟩

section

variable {Result : Type} {body : Nat → Call (Except StorageError Result)} {id : String}

theorem ensures_withSession_over (past : world.Stands key false)
    (missing : ∀ mutex (reached : World), reached.Stands key false →
      (body mutex).Ensures (alone env) Sound reached fun _ result _ => result = .error .notFound)
    (safe : safeComponent key.id = .ok id) :
    (withSession key body).Ensures (alone env) Sound world fun _ result _ =>
      result = .error .notFound := by
  rw [withSession, safe]
  refine .act_bind fun choice middle mutex performed _ => ?_
  replace past := past.step (by trivial) performed
  refine .act_bind fun choice middle locked performed _ => ?_
  replace past := past.step (by trivial) performed
  refine (missing mutex middle past).bind fun _ result _ answered => ?_
  exact .act_bind fun _ _ _ _ _ => .act_bind fun _ _ _ _ _ => answered

theorem can_withSession_over (unlocked : world.Unlocked) (past : world.Stands key false)
    (passes : ∀ mutex (reached : World), reached.Stands key false →
      Passable env (body mutex) reached fun _ _ => True) (safe : safeComponent key.id = .ok id) :
    Passable env (withSession key body) world fun _ _ => True := by
  rw [withSession, safe]
  obtain ⟨middle, mutex, got⟩ : ∃ middle mutex,
    alone env world (.uploads (.get key)) {} = some (middle, mutex) := ⟨_, _, rfl⟩
  have free : middle.uploads.holder mutex = none := by
    rw [(alone_get got).1]
    exact LockMap.holder_get.trans (unlocked _)
  have locked := @alone_lock_free env middle mutex free
  refine .act_bind {} got (.act_bind {} locked ?_)
  replace past := (past.step (by trivial) got).step (by trivial) locked
  refine (passes _ _ past).bind fun deeds result reached sound => ?_
  refine .act_bind {} rfl (.act_bind {} rfl ⟨?_, trivial⟩)
  simpa [Sound, or_imp, forall_and] using sound.1

end

/-- Run alone, the call can run to its end, and unless an operation fails it
answers that there is no such thing. -/
def Unknown (env : Env) (world : World) (request : Request) : Prop :=
  (∃ choices, ∃ conclusion ∈ (code env request).carryOut (alone env) world choices,
      ∀ deed ∈ conclusion.deeds, Sound deed) ∧
    ∀ choices, ∀ conclusion ∈ (code env request).carryOut (alone env) world choices,
      (∀ deed ∈ conclusion.deeds, Sound deed) → conclusion.result = .error .notFound

theorem unknown_of_answering (calls : code env request = answering call answer)
    (passes : Passable env call world fun _ _ => True)
    (refuses : call.Ensures (alone env) Sound world fun _ result _ => result = .error .notFound) :
    Unknown env world request := by
  rw [Unknown, calls]
  constructor
  · have passed : Passable env (answering call answer) world fun _ _ => True :=
      passes.bind fun deeds _ _ sound => by simpa using sound
    obtain ⟨choices, conclusion, carried, sound, _⟩ := passed.exists
    exact ⟨choices, conclusion, carried, sound⟩
  intro choices conclusion carried sound
  have refused : (answering call answer).Ensures (alone env) Sound world fun _ result _ =>
      result = .error .notFound :=
    refuses.bind fun _ result _ answered => by simp [answered, Except.map]
  exact refused.sound carried sound

theorem unknown_of_withSession
    {rest : Nat → Except StorageError Staging → Call (Except StorageError Result)}
    (calls : code env request =
      answering (withSession key fun mutex => prepareSession key >>= rest mutex) answer)
    (gives : ∀ mutex, rest mutex (.ok .missing) =
      act (.uploads (.remove key)) >>= fun _ => pure (.error .notFound))
    (past : world.Stands key false) (unlocked : world.Unlocked)
    (safe : safeComponent key.id = .ok id) : Unknown env world request := by
  refine unknown_of_answering calls
    (can_withSession_over unlocked past (fun mutex reached past => ?_) safe)
    (ensures_withSession_over past (fun mutex reached past => ?_) safe)
  · refine (can_missing past).bind fun deeds staging final ended => ?_
    obtain ⟨sound, rfl⟩ := ended
    rw [gives]
    exact .act_bind {} rfl ⟨by simpa [Sound, or_imp, forall_and] using sound, trivial⟩
  refine (ensures_missing past).bind fun deeds staging final missing => ?_
  rw [missing, gives]
  exact .act_bind fun _ _ _ _ _ => rfl

/-- A session that is over is not found. -/
theorem World.Stands.unknown (past : world.Stands key false) (unlocked : world.Unlocked)
    (safe : safeComponent key.id = .ok id) (asks : request.AsksFor key) :
    Unknown env world request := by
  cases request with
  | uploadSize asked =>
    cases asks
    exact unknown_of_answering rfl (can_uploadSize_over past safe)
      (ensures_uploadSize_over past safe)
  | appendUpload _ _ _ _ | finishUpload _ _ _ _ _ =>
    cases asks
    exact unknown_of_withSession rfl (fun _ => rfl) past unlocked safe
  | _ => exact asks.elim

theorem ensures_safe (session : SessionKey) (digest : Digest) (maxSize limit : Nat)
    (trailing : UploadBody) :
    Alone env (code env (.finishUpload session digest maxSize trailing limit)) world
      fun _ result _ => result = .ok .done → ∃ id, safeComponent session.id = .ok id := by
  cases checked : safeComponent session.id with
  | ok id => simp
  | error error => simp [code, answering, finishUpload, withSession, checked, Except.map]

theorem finishes_answering (finishes : Finishes env key Except.isOk call world) :
    Finishes env key Except.isOk (answering call answer) world := by
  refine finishes.bind (fun _ _ => performs_pure) fun result _ failed => ?_
  cases result with
  | error error => exact rfl
  | ok value => exact nomatch failed

theorem refusal_eq_false_iff {deeds : Steps} :
    refusal deeds = false ↔ ∀ deed ∈ deeds, refused deed.action deed.response = false := by
  simp [refusal]

/-- Wherever it starts from, a finished session is over, and not found by any
later call, exactly when no rename of it was refused because the blob was there.
Ids are drawn as hexadecimal numbers, so no session has the name of the marker. -/
theorem finished_session_over_iff (env : Env) {world : World} (unlocked : world.Unlocked)
    {session : SessionKey} (unmarked : session.id ≠ "oci-layout") {digest : Digest}
    {maxSize limit : Nat} {trailing : UploadBody} {choices : List Choice}
    {conclusion : Conclusion World Action Choice Response Reply}
    (finished : (code env (.finishUpload session digest maxSize trailing limit)).carryOut
      (alone env) world choices = some conclusion)
    (succeeded : conclusion.result = .ok .done) :
    (∀ deed ∈ conclusion.deeds, refused deed.action deed.response = false) ↔
      conclusion.world.disk.files session.path = none ∧
        ∀ turns final, TakesTurns env conclusion.world turns final →
          ∀ request : Request, request.AsksFor session → Unknown env final request := by
  have always : ∀ deed ∈ conclusion.deeds, True := fun _ _ => trivial
  obtain ⟨id, safe⟩ := (ensures_safe session digest maxSize limit trailing).sound finished always
    succeeded
  have stands : conclusion.world.Stands session (refusal conclusion.deeds) := by
    refine (finishes_answering (finishes_finishUpload unmarked digest maxSize trailing limit
      world)).sound finished always ?_
    rw [succeeded]
    rfl
  have released : conclusion.world.Unlocked :=
    ((@ensures_code env world (fun _ => True) (fun _ _ => True) _
      (fun _ _ _ _ _ _ _ _ _ _ _ => trivial) unlocked trivial).sound finished always).1
  rw [← refusal_eq_false_iff]
  constructor
  · intro unrefused
    rw [unrefused] at stands
    refine ⟨by simpa using stands.staged, fun turns final run request asks => ?_⟩
    obtain ⟨free, past⟩ := stands.after_turns run released unmarked
    exact past.unknown free safe asks
  · rintro ⟨absent, _⟩
    rw [← stands.staged, absent]
    rfl

end

/-! ## A first and a second upload of the same blob -/

/-- A session is begun under the hexadecimal form of the bytes. -/
def beginTurn (random : Bytes) : Turn Request Choice :=
  ⟨.beginUpload app, [{}, {}, { random := random }]⟩

def concludes (env : Env) (request : Request) (steps : Nat) (world : World) :
    Option (Conclusion World Action Choice Response Reply) :=
  (code env request).carryOut (alone env) world (List.replicate steps {})

def firstUpload : List (Turn Request Choice) :=
  [beginTurn (List.replicate 16 0), ⟨finishEmpty zeroSession, List.replicate 36 {}⟩]

theorem first_upload_over :
    ∃ world conclusion, TakesTurns emptyBodies {} [beginTurn (List.replicate 16 0)] world ∧
      concludes emptyBodies (finishEmpty zeroSession) 36 world = some conclusion ∧
      conclusion.result = .ok .done ∧ conclusion.world.disk.files zeroSession.path = none ∧
        ∀ turns final, TakesTurns emptyBodies conclusion.world turns final →
          ∀ request : Request, request.AsksFor zeroSession → Unknown emptyBodies final request := by
  obtain ⟨world, run, unused, conclusion, finished, succeeded, unrefused⟩ :=
    @exists_run_of_execute _ _ (serve (alone emptyBodies) (code emptyBodies)) (fun _ _ => True) _ {}
      [beginTurn (List.replicate 16 0)] (fun world => world.uploads.mutexes.isEmpty = true ∧
        ∃ conclusion ∈ concludes emptyBodies (finishEmpty zeroSession) 36 world,
          conclusion.result = .ok .done ∧ refusal conclusion.deeds = false) _ (by decide +kernel)
  have unlocked : world.Unlocked := fun mutex => by
    simp [LockMap.holder, List.isEmpty_iff.mp unused]
  have past := (finished_session_over_iff emptyBodies unlocked (by decide +kernel) finished
    succeeded).mp (refusal_eq_false_iff.mp unrefused)
  exact ⟨world, conclusion, run, finished, succeeded, past⟩

/-- The blob is there when it is uploaded a second time: the rename is refused, the
call answers with success, and the session is still found. -/
theorem second_upload_still_found :
    ∃ world conclusion, TakesTurns emptyBodies {}
        (firstUpload ++ [beginTurn (List.replicate 16 1)]) world ∧
      concludes emptyBodies (finishEmpty oneSession) 33 world = some conclusion ∧
      conclusion.result = .ok .done ∧
      (conclusion.world.disk.files oneSession.path).isSome = true ∧
      ((concludes emptyBodies (.uploadSize oneSession) 3 conclusion.world).map
        Conclusion.result) = some (.ok (.size 0)) := by
  obtain ⟨world, run, conclusion, finished, found⟩ := @exists_run_of_execute _ _
    (serve (alone emptyBodies) (code emptyBodies)) (fun _ _ => True) _ {}
    (firstUpload ++ [beginTurn (List.replicate 16 1)])
    (fun world => ∃ conclusion ∈ concludes emptyBodies (finishEmpty oneSession) 33 world,
      conclusion.result = .ok .done ∧ (conclusion.world.disk.files oneSession.path).isSome = true ∧
        (concludes emptyBodies (.uploadSize oneSession) 3 conclusion.world).map
          Conclusion.result = some (.ok (.size 0))) _ (by decide +kernel)
  exact ⟨world, conclusion, run, finished, found⟩

end Roci.Filesystem
