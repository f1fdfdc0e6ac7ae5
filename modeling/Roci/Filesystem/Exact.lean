import Roci.Filesystem.Amid
import Roci.Filesystem.Verified

/-!
# What `finish_upload` verifies

The digest `finish_upload` compares is the digest of the bytes in the staging file
followed by the body of the call, whether it was computed while the bytes were
written or by reading the file: a hash kept with a session is the hash of what is
in its file, and a failing write drops it.
-/

namespace Roci.Filesystem

open Roci.Core Roci.Library Roci.Storage Roci.Metadata
open Roci.Manifests (checksumOf)
open Program (ensures_true performs_pure)

/-- The bytes of a request body that arrives in full. -/
def received : UploadBody → Option Bytes
  | [] => some []
  | .ok chunk :: rest => (received rest).map (chunk ++ ·)
  | .error _ :: _ => none

/-- What is staged for a session that an upload call can work on. -/
def World.staged (world : World) (key : SessionKey) : Option Bytes :=
  if world.sessions.pending key then
    if (world.disk.files key.path).isNone then some [] else none
  else world.disk.bytesAt key.path

/-- The first thing done with a blob that was verified: the look at the marker. -/
def lands (repo : RepositoryName) : Action → Bool
  | .disk (.stat path) => decide (path = markerPath repo)
  | _ => false

abbrev Deeds := List (Deed World Action Scene Response)

/-- The call has got past the verification. -/
def landing (repo : RepositoryName) (deeds : Deeds) : Bool :=
  deeds.any fun deed => lands repo deed.action

@[simp]
theorem landing_nil (repo : RepositoryName) : landing repo [] = false := rfl

@[simp]
theorem landing_cons (repo : RepositoryName) (deed : Deed World Action Scene Response)
    (deeds : Deeds) :
    landing repo (deed :: deeds) = (lands repo deed.action || landing repo deeds) :=
  rfl

@[simp]
theorem landing_append (repo : RepositoryName) (first second : Deeds) :
    landing repo (first ++ second) = (landing repo first || landing repo second) :=
  List.any_append

def Faultless (faultless : Bool) (deed : Deed World Action Scene Response) : Prop :=
  faultless = true → deed.choice.choice.error = none

/-- However the call runs amid others, it ends as `post` says. -/
abbrev Amidst {Result : Type} (env : Env) (key : SessionKey) (faultless : Bool)
    (program : Call Result) (world : World) (post : Deeds → Result → World → Prop) : Prop :=
  program.Ensures (amid env key) (Faultless faultless) world post

/-- A call that does not get past the verification. -/
abbrev Stays {Result : Type} (env : Env) (key : SessionKey) (faultless : Bool)
    (repo : RepositoryName) (program : Call Result) (world : World)
    (post : Result → World → Prop) : Prop :=
  Amidst env key faultless program world fun deeds result reached =>
    landing repo deeds = false ∧ post result reached

variable {action : Action}

section

variable {env : Env} {key : SessionKey} {faultless : Bool} {repo : RepositoryName} {world : World}
  {Result Other : Type}

theorem Stays.pure {result : Result} {post : Result → World → Prop} (met : post result world) :
    Stays env key faultless repo (Pure.pure result) world post :=
  ⟨rfl, met⟩

section

variable {program : Call Result} {next : Result → Call Other} {middle : Result → World → Prop}
  (stays : Stays env key faultless repo program world middle)

include stays

/-- What a part that stays comes before is as if it had not been. -/
theorem Stays.before {goal : Deeds → Other → World → Prop}
    (extend : ∀ before deeds answer final, landing repo before = false →
      goal deeds answer final → goal (before ++ deeds) answer final)
    (continues : ∀ result reached, middle result reached →
      Amidst env key faultless (next result) reached goal) :
    Amidst env key faultless (program >>= next) world goal :=
  Program.Ensures.bind stays fun before result reached ended =>
    (continues result reached ended.2).weaken fun deeds answer final =>
      extend before deeds answer final ended.1

theorem Stays.bind {post : Other → World → Prop}
    (continues : ∀ result reached, middle result reached →
      Stays env key faultless repo (next result) reached post) :
    Stays env key faultless repo (program >>= next) world post := by
  refine stays.before (fun before deeds answer final stayed ended => ?_) continues
  rw [landing_append, stayed, ended.1]
  exact ⟨rfl, ended.2⟩

end

variable {post : Other → World → Prop}

theorem Stays.act_bind {next : Response action → Call Other} (before : lands repo action = false)
    (continues : ∀ scene middle response,
      amid env key world action scene = some (middle, response) →
      (faultless = true → scene.choice.error = none) →
      Stays env key faultless repo (next response) middle post) :
    Stays env key faultless repo (act action >>= next) world post := by
  refine Program.Ensures.act_bind fun scene middle response performed sound => ?_
  refine (continues scene middle response performed sound).weaken
    fun deeds answer final stayed => ?_
  rw [landing_cons, before, stayed.1]
  exact ⟨rfl, stayed.2⟩

theorem Stays.act {post : Response action → World → Prop} (before : lands repo action = false)
    (met : ∀ scene middle response, amid env key world action scene = some (middle, response) →
      (faultless = true → scene.choice.error = none) → post response middle) :
    Stays env key faultless repo (act action) world post := by
  intro scene middle response performed sound
  refine ⟨?_, met scene middle response performed sound⟩
  simp [before]

theorem Stays.runBlocking {job : Call Result} {post : Result → World → Prop}
    (stays : Stays env key faultless repo job world post)
    (stable : ∀ result reached next scene,
      amid env key reached .resume scene = some (next, ()) → post result reached →
      post result next) :
    Stays env key faultless repo (runBlocking job) world post :=
  stays.bind fun _ _ met => .act_bind rfl fun _ _ _ performed _ =>
    .pure (stable _ _ _ _ performed met)

end

/-! ## Bytes that are written -/

/-- The bytes follow those that were there, and are counted and hashed. -/
structure Written (key : SessionKey) (node : Nat) (bytes : Bytes) (before : Progress)
    (written : Bytes) (after : Progress) (world : World) : Prop where
  holding : Holding key node (bytes ++ written) world
  count : after.written = before.written + written.length
  hash : after.hash = before.hash.map fun hash => ⟨hash.bytes ++ written⟩

/-- The bytes taken in follow those that were there, but for those to be written
still. -/
def Advanced (key : SessionKey) (node : Nat) (bytes : Bytes) (before : Progress) (taken : Bytes)
    (after : Progress) (world : World) : Prop :=
  ∃ written, Written key node bytes before written after world ∧
    before.batch ++ taken = written ++ after.batch

variable {checksum : Option UInt32}

section

variable {env : Env} {key : SessionKey} {faultless : Bool} {repo : RepositoryName}
  {world next : World} {scene : Scene} {node : Nat} {bytes : Bytes} {progress : Progress}

inductive WriteOutcome (key : SessionKey) (node : Nat) (bytes data : Bytes) (faultless : Bool) :
    Except StorageError Unit → World → Prop where
  | done {world : World} (holding : Holding key node (bytes ++ data) world) :
      WriteOutcome key node bytes data faultless (.ok ()) world
  | failed {world : World} {error : StorageError} {other : Bytes} (fault : faultless = false)
      (holding : Holding key node other world) :
      WriteOutcome key node bytes data faultless (.error error) world

theorem WriteOutcome.step {response : Response action} {data : Bytes}
    {result : Except StorageError Unit} (spares : Spares key node action)
    (performed : amid env key world action scene = some (next, response))
    (outcome : WriteOutcome key node bytes data faultless result world) :
    WriteOutcome key node bytes data faultless result next := by
  cases outcome with
  | done holding => exact .done (holding.step spares performed)
  | failed fault holding => exact .failed fault (holding.step spares performed)

theorem Holding.overwritten (holding : Holding key node bytes world) (clock : Nat) (data : Bytes) :
    Holding key node data
      { world.tick clock with disk := world.disk.setContent node data } :=
  ⟨holding.settled, holding.file, by simpa [Disk.setContent] using holding.within,
    Disk.content_setContent holding.within data⟩

theorem stays_write (holding : Holding key node bytes world) (data : Bytes) :
    Stays env key faultless repo (act (.disk (.write node data))) world
      (WriteOutcome key node bytes data faultless) := by
  refine .act rfl fun scene middle response performed sound => ?_
  obtain ⟨between, left, performed⟩ := amid_eq_some performed
  replace holding := holding.beside left
  obtain ⟨after, rfl, outcome⟩ := perform_disk performed
  cases response with
  | ok done =>
    rw [show after = _ from outcome, holding.content]
    exact .done (holding.overwritten _ _)
  | error error =>
    obtain ⟨amount, rfl⟩ := outcome
    refine .failed ?_ (holding.overwritten _ _)
    by_contra faulty
    cases (alone_act performed (sound (Bool.not_eq_false _ ▸ faulty))).2

/-- What a part of the body came to: it is taken in, or there was a failure or the
excuse. -/
inductive TakesIn (key : SessionKey) (node : Nat) (faultless : Bool) (excuse : Prop)
    (goal : Progress → World → Prop) : Except StorageError Progress → World → Prop where
  | done {world : World} {after : Progress} (taken : goal after world) :
      TakesIn key node faultless excuse goal (.ok after) world
  | failed {world : World} {error : StorageError} {other : Bytes}
      (holding : Holding key node other world) (excused : faultless = true → excuse) :
      TakesIn key node faultless excuse goal (.error error) world

theorem stays_writeHashed (holding : Holding key node bytes world) (batch : Bytes) :
    Stays env key faultless repo (writeHashed node progress batch) world
      (TakesIn key node faultless False fun after reached =>
        Written key node bytes progress batch after reached ∧ after.batch = []) := by
  refine ((stays_write holding batch).runBlocking fun _ _ _ _ resumed =>
    WriteOutcome.step (by trivial) resumed).bind fun result reached outcome => ?_
  cases outcome with
  | done holding => exact .pure (.done ⟨⟨holding, rfl, rfl⟩, rfl⟩)
  | failed fault holding =>
    exact .pure (.failed holding fun sound => nomatch fault.symm.trans sound)

theorem Written.refl (holding : Holding key node bytes world) (progress : Progress) :
    Written key node bytes progress [] progress world := by
  refine ⟨by simpa using holding, rfl, ?_⟩
  cases progress.hash <;> simp

theorem Written.trans {first second : Bytes} {middle after : Progress} {reached : World}
    (earlier : Written key node bytes progress first middle world)
    (later : Written key node (bytes ++ first) middle second after reached) :
    Written key node bytes progress (first ++ second) after reached := by
  refine ⟨by simpa using later.holding, ?_, ?_⟩
  · rw [later.count, earlier.count, List.length_append, Nat.add_assoc]
  rw [later.hash, earlier.hash, Option.map_map]
  simp [Function.comp_def]

theorem stays_writeBatches (holding : Holding key node bytes world) (batches : List Bytes) :
    Stays env key faultless repo (writeBatches node progress batches) world
      (TakesIn key node faultless False (Written key node bytes progress batches.flatten)) := by
  induction batches generalizing bytes progress world with
  | nil => exact .pure (.done (.refl holding progress))
  | cons batch rest ih =>
    refine (stays_writeHashed holding batch).bind fun result reached outcome => ?_
    cases outcome with
    | failed holding excused => exact .pure (.failed holding excused)
    | done taken =>
      obtain ⟨written, _⟩ := taken
      refine (ih written.holding).weaken fun deeds result final ended =>
        ⟨ended.1, ?_⟩
      cases ended.2 with
      | done later => exact .done (written.trans later)
      | failed holding excused => exact .failed holding excused

theorem flatten_fullBatches (fuel : Nat) (bytes : Bytes) :
    (fullBatches fuel bytes).1.flatten ++ (fullBatches fuel bytes).2 = bytes := by
  induction fuel generalizing bytes with
  | zero => rfl
  | succ fuel ih =>
    rw [fullBatches]
    split
    · rfl
    simp only [List.flatten_cons, List.append_assoc, ih]
    exact List.take_append_drop _ _

section

variable (holding : Holding key node bytes world)

include holding

theorem stays_takeChunk (limit : Nat) (chunk : Bytes) :
    Stays env key faultless repo (takeChunk node limit progress chunk) world
      (TakesIn key node faultless
        (limit < progress.written + progress.batch.length + chunk.length)
        (Advanced key node bytes progress chunk)) := by
  dsimp only [takeChunk]
  split
  · rename_i beyond
    exact .pure (.failed holding fun _ => beyond)
  refine (stays_writeBatches holding _).bind fun result reached outcome => ?_
  cases outcome with
  | failed holding excused => exact .pure (.failed holding fun sound => (excused sound).elim)
  | done written =>
    refine .pure (.done ⟨_, { written with }, ?_⟩)
    exact (flatten_fullBatches _ _).symm

theorem stays_takeTail (deferTail : Bool) :
    Stays env key faultless repo (takeTail node deferTail progress) world
      (TakesIn key node faultless False fun after reached =>
        Advanced key node bytes progress [] after reached ∧
          (deferTail = false → after.batch = [])) := by
  unfold takeTail
  split
  · refine (stays_writeHashed holding progress.batch).weaken fun deeds result reached ended =>
      ⟨ended.1, ?_⟩
    cases ended.2 with
    | done taken => exact .done ⟨⟨_, taken.1, by simp [taken.2]⟩, fun _ => taken.2⟩
    | failed holding excused => exact .failed holding excused
  rename_i nothing
  refine .pure (.done ⟨⟨[], .refl holding progress, by simp⟩, fun immediate => ?_⟩)
  simpa [immediate] using nothing

theorem stays_takeBody (limit : Nat) (deferTail : Bool) (body : UploadBody) :
    Stays env key faultless repo (takeBody node limit deferTail progress body) world
      (TakesIn key node faultless
        (∀ taken, received body = some taken →
          limit < progress.written + progress.batch.length + taken.length)
        fun after reached => ∃ taken, received body = some taken ∧
          Advanced key node bytes progress taken after reached ∧
          (deferTail = false → after.batch = [])) := by
  induction body generalizing bytes progress world with
  | nil =>
    refine .act_bind rfl fun scene middle _ performed _ => ?_
    refine (stays_takeTail (holding.step (by trivial) performed) deferTail).weaken
      fun deeds result reached ended => ⟨ended.1, ?_⟩
    cases ended.2 with
    | done taken => exact .done ⟨[], rfl, taken⟩
    | failed holding excused => exact .failed holding fun sound => (excused sound).elim
  | cons chunk rest ih =>
    rcases chunk with error | chunk
    · refine .act_bind rfl fun scene middle _ performed _ => ?_
      exact .pure (.failed (holding.step (by trivial) performed) nofun)
    refine .act_bind rfl fun scene middle _ performed _ => ?_
    refine (stays_takeChunk (holding.step (by trivial) performed) limit chunk).bind
      fun result reached outcome => ?_
    cases outcome with
    | failed holding excused =>
      refine .pure (.failed holding fun sound taken arrived => ?_)
      obtain ⟨later, _, rfl⟩ := Option.map_eq_some_iff.mp arrived
      have beyond := excused sound
      rw [List.length_append]
      omega
    | done taken =>
      obtain ⟨written, wrote, parts⟩ := taken
      have length := congrArg List.length parts
      simp only [List.length_append] at length
      refine (ih wrote.holding).weaken fun deeds result final ended =>
        ⟨ended.1, ?_⟩
      cases ended.2 with
      | done later =>
        obtain ⟨taken, arrived, ⟨more, wroteMore, rest⟩, whole⟩ := later
        refine .done ⟨chunk ++ taken, by simp [received, arrived],
          ⟨written ++ more, wrote.trans wroteMore, ?_⟩, whole⟩
        rw [← List.append_assoc, parts, List.append_assoc, rest, List.append_assoc]
      | failed holding excused =>
        refine .failed holding fun sound taken arrived => ?_
        obtain ⟨later, came, rfl⟩ := Option.map_eq_some_iff.mp arrived
        have beyond := excused sound later came
        have count := wrote.count
        rw [List.length_append]
        omega

end

/-- The bytes that were staged are followed by the body: its first part is in the
file, the rest is to be written still.  A hash is the hash of what is in the
file. -/
structure Deferred.Carries (deferred : Deferred) (key : SessionKey) (node : Nat)
    (staged body written : Bytes) (world : World) : Prop where
  holding : Holding key node (staged ++ written) world
  whole : body = written ++ deferred.tail
  file : deferred.node = node
  place : deferred.tailAt = (staged ++ written).length
  length : deferred.len = (staged ++ body).length
  hash : ∀ hash, deferred.hash = some hash → hash.bytes = staged ++ written

inductive Appended (key : SessionKey) (node : Nat) (staged : Bytes) (body : UploadBody)
    (limit : Nat) (deferTail faultless : Bool) : Except StorageError Deferred → World → Prop where
  | done {world : World} {deferred : Deferred} {taken written : Bytes}
      (arrived : received body = some taken)
      (carries : deferred.Carries key node staged taken written world)
      (immediate : deferTail = false → deferred.tail = []) :
      Appended key node staged body limit deferTail faultless (.ok deferred) world
  | failed {world : World} {error : StorageError} {other : Bytes}
      (holding : Holding key node other world)
      (excused : faultless = true → ∀ taken, received body = some taken → limit < taken.length) :
      Appended key node staged body limit deferTail faultless (.error error) world

theorem stays_setLen (holding : Holding key node bytes world) (length : Nat) :
    Stays env key faultless repo (act (.disk (.setLen node length))) world
      fun _ reached => ∃ other, Holding key node other reached := by
  refine .act rfl fun scene middle response performed sound => ?_
  obtain ⟨between, left, performed⟩ := amid_eq_some performed
  replace holding := holding.beside left
  obtain ⟨after, rfl, outcome⟩ := perform_disk performed
  cases response with
  | ok done =>
    rw [show after = _ from outcome]
    exact ⟨_, holding.overwritten _ _⟩
  | error error =>
    rw [show after = _ from outcome]
    exact ⟨_, holding.settled, holding.file, holding.within, holding.content⟩

theorem stays_appendInner (holding : Holding key node bytes world) (body : UploadBody)
    (limit : Nat) {hash : Option StagedHash} (deferTail : Bool)
    (right : ∀ found, hash = some found → found.bytes = bytes) :
    Stays env key faultless repo (appendInner node bytes.length body limit hash deferTail) world
      (Appended key node bytes body limit deferTail faultless) := by
  refine (stays_takeBody holding limit deferTail body).bind fun result reached outcome => ?_
  cases outcome with
  | done taken =>
    obtain ⟨taken, arrived, ⟨written, wrote, whole⟩, immediate⟩ := taken
    refine .pure (.done arrived ⟨wrote.holding, by simpa using whole, rfl, ?_, ?_, ?_⟩ immediate)
    · rw [wrote.count]
      simp
    · rw [wrote.count, show taken = written ++ _ from by simpa using whole]
      simp [Nat.add_assoc]
    intro found kept
    rw [wrote.hash] at kept
    obtain ⟨seed, seeded, rfl⟩ := Option.map_eq_some_iff.mp kept
    rw [right seed (Option.filter_eq_some_iff.mp seeded).1]
  | failed holding excused =>
    refine ((stays_setLen holding _).runBlocking ?_).bind fun cut final other => ?_
    · rintro _ _ _ _ resumed ⟨other, holding⟩
      exact ⟨other, holding.step (by trivial) resumed⟩
    obtain ⟨other, holding⟩ := other
    have excused : faultless = true → ∀ taken, received body = some taken →
        limit < taken.length := by simpa using excused
    split
    · exact .pure (.failed holding excused)
    · exact .pure (.failed holding excused)

/-! ## The verification -/

/-- The call came to something good, or an operation failed. -/
inductive Unless (faultless : Bool) {Result : Type} (goal : Result → World → Prop) :
    Except StorageError Result → World → Prop where
  | done {world : World} {result : Result} (good : goal result world) :
      Unless faultless goal (.ok result) world
  | failed {world : World} {error : StorageError} (fault : faultless = false) :
      Unless faultless goal (.error error) world

theorem eq_false_of_fault (fault : ¬ scene.choice.error = none)
    (sound : faultless = true → scene.choice.error = none) : faultless = false :=
  Bool.eq_false_iff.mpr fun faulty => fault (sound faulty)

section

variable (holding : Holding key node bytes world)

include holding

theorem stays_openFile :
    Stays env key faultless repo (act (.disk (.openFile key.path))) world
      (Unless faultless fun opened reached => opened = node ∧ Holding key node bytes reached) := by
  refine .act rfl fun scene middle response performed sound => ?_
  obtain ⟨held, between, beside, performed, after, outcome⟩ := holding.look rfl rfl performed
  cases response with
  | ok opened =>
    cases beside.file.symm.trans outcome.1
    exact .done ⟨rfl, held⟩
  | error error =>
    refine .failed (eq_false_of_fault (fun clean => ?_) sound)
    have answer := (alone_act performed clean).2
    simp [Disk.act, beside.file] at answer

theorem stays_read :
    Stays env key faultless repo (act (.disk (.read node))) world
      (Unless faultless fun found reached => found = bytes ∧ Holding key node bytes reached) := by
  refine .act rfl fun scene middle response performed sound => ?_
  obtain ⟨held, between, beside, performed, after, outcome⟩ := holding.look rfl rfl performed
  cases response with
  | ok found => exact .done ⟨outcome.1.trans beside.content, held⟩
  | error error =>
    exact .failed (eq_false_of_fault (fun clean => nomatch (alone_act performed clean).2) sound)

theorem stays_syncDirectory (wanted : Bool) :
    Stays env key faultless repo (syncDirectory wanted) world
      (Unless faultless fun _ reached => Holding key node bytes reached) := by
  rcases wanted with _ | _
  · exact .pure (.done holding)
  refine .act rfl fun scene middle response performed sound => ?_
  obtain ⟨held, between, _, performed, _⟩ := holding.look rfl rfl performed
  cases response with
  | ok done => exact .done held
  | error error =>
    exact .failed (eq_false_of_fault (fun clean => nomatch (alone_act performed clean).2) sound)

end

structure AllWritten (key : SessionKey) (node : Nat) (bytes : Bytes) (hashed : Bool)
    (hash : Option StagedHash) (world : World) : Prop where
  holding : Holding key node bytes world
  right : ∀ found, hash = some found → found.bytes = bytes
  kept : hash.isSome = hashed

variable {blob : BlobKey} {Result : Type} {program : Call Result} {deeds more : Deeds}
  {deferred : Deferred} {result : Except StorageError Unit} {landed : Landed} {size : Nat}

theorem stays_writeTail {staged body written : Bytes}
    (carries : deferred.Carries key node staged body written world) :
    Stays env key faultless repo (writeTail deferred) world
      (Unless faultless (AllWritten key node (staged ++ body) deferred.hash.isSome)) := by
  unfold writeTail
  split
  · rename_i nothing
    have whole : body = written := by
      rw [carries.whole, List.isEmpty_iff.mp nothing, List.append_nil]
    exact .pure (.done ⟨whole ▸ carries.holding, whole ▸ carries.hash, rfl⟩)
  rw [carries.file]
  refine (stays_write carries.holding deferred.tail).bind fun result reached outcome => ?_
  cases outcome with
  | done holding =>
    rw [List.append_assoc, ← carries.whole] at holding
    refine .pure (.done ⟨holding, fun found kept => ?_, by simp⟩)
    obtain ⟨hash, earlier, rfl⟩ := Option.map_eq_some_iff.mp kept
    rw [carries.hash hash earlier, List.append_assoc, ← carries.whole]
  | failed fault holding =>
    exact (stays_setLen holding _).bind fun _ _ _ => .pure (.failed fault)

structure Verified.Of (env : Env) (key : SessionKey) (node : Nat) (algorithm : String)
    (bytes : Bytes) (verified : Verified) (world : World) : Prop where
  holding : Holding key node bytes world
  digest : verified.digest = env.digestOf bytes algorithm
  crc32c : verified.crc32c = env.crc32c bytes
  file : verified.node = node

theorem stays_finishVerify {staged body written : Bytes}
    (carries : deferred.Carries key node staged body written world) (algorithm : String)
    {covers : Bool} (incremental : covers = true → algorithm = "sha256") :
    Stays env key faultless repo (finishVerify env key algorithm deferred covers) world
      (Unless faultless (Verified.Of env key node algorithm (staged ++ body))) := by
  refine (stays_writeTail carries).bind fun hash reached outcome => ?_
  cases outcome with
  | failed fault => exact .pure (.failed fault)
  | done all =>
    refine (stays_openFile all.holding).bind fun opened reached outcome => ?_
    cases outcome with
    | failed fault => exact .pure (.failed fault)
    | done opened =>
      obtain ⟨rfl, holding⟩ := opened
      refine (stays_syncDirectory holding env.commit).bind fun synced reached outcome => ?_
      cases outcome with
      | failed fault => exact .pure (.failed fault)
      | done holding =>
        dsimp only
        split
        · rename_i found filtered
          obtain ⟨kept, covered⟩ := Option.filter_eq_some_iff.mp filtered
          have right := all.right found kept
          refine .pure (.done ⟨holding, ?_, ?_, rfl⟩)
          · rw [right, incremental covered]
          · rw [right]
        refine (stays_read holding).bind fun read reached outcome => ?_
        cases outcome with
        | failed fault => exact .pure (.failed fault)
        | done read =>
          obtain ⟨rfl, holding⟩ := read
          exact .pure (.done ⟨holding, rfl, rfl, rfl⟩)

/-! ## The landing -/

theorem landing_of_performs (performs : program.Performs fun action => lands repo action = false) :
    Amidst env key faultless program world fun deeds _ _ => landing repo deeds = false := by
  refine performs.ensures.weaken fun deeds _ _ every => ?_
  rw [landing, List.any_eq_false]
  exact fun deed member => by simp [every deed member]

theorem landing_bind {Other : Type} {next : Result → Call Other}
    (lands : Amidst env key faultless program world fun deeds _ _ => landing repo deeds = true) :
    Amidst env key faultless (program >>= next) world fun deeds _ _ => landing repo deeds = true :=
  lands.bind fun deeds _ _ landed => by simp [landed]

theorem landing_ensureLayoutBeneath :
    Amidst env key faultless (ensureLayoutBeneath repo) world
      fun deeds _ _ => landing repo deeds = true :=
  Program.Ensures.act_bind fun _ _ _ _ _ => by simp [lands]

/-- A verified blob gets past the verification whatever happens. -/
theorem landing_landVerified (session : SessionKey) (blob : BlobKey) (size : Nat)
    (checksum : Option UInt32) :
    Amidst env key faultless (landVerified env session blob size node checksum) world
      fun deeds landed _ => landing blob.repo deeds = true ∧
        ∀ found, landed = .done found → found = checksum := by
  refine Program.Ensures.and (landing_bind (landing_bind (landing_bind
    landing_ensureLayoutBeneath))) ?_
  refine .bind ((ensures_true _).mpr trivial) fun _ admitted _ _ => ?_
  split
  · exact nofun
  refine .bind ((ensures_true _).mpr trivial) fun _ placed _ _ => ?_
  split
  · exact nofun
  · exact fun found same => (Landed.done.inj same).symm

/-- What `land_blob` came to, for the bytes staged and received. -/
structure Judged (env : Env) (blob : BlobKey) (bytes : Bytes) (checksum : Option UInt32)
    (faultless : Bool) (deeds : Deeds) (landed : Landed) : Prop where
  passed : landing blob.repo deeds = true → Hashes env blob.digest bytes
  passes : faultless = true → Hashes env blob.digest bytes → landing blob.repo deeds = true
  rejects : faultless = true → ¬ Hashes env blob.digest bytes →
    landed = .mismatch (env.digestOf bytes blob.digest.algorithm)
  checksum : ∀ found, landed = .done found → found = checksum

theorem Judged.after {before : Deeds}
    (judged : Judged env blob bytes checksum faultless deeds landed)
    (stayed : landing blob.repo before = false) :
    Judged env blob bytes checksum faultless (before ++ deeds) landed := by
  refine ⟨?_, ?_, judged.rejects, judged.checksum⟩
  · simpa [stayed] using judged.passed
  · simpa [stayed] using judged.passes

theorem judged_landVerified {session : SessionKey} (hashes : Hashes env blob.digest bytes) :
    Amidst env key faultless (landVerified env session blob size node checksum) world
      fun deeds landed _ => Judged env blob bytes checksum faultless deeds landed :=
  (landing_landVerified session blob size checksum).weaken fun _ _ _ ended =>
    ⟨fun _ => hashes, fun _ _ => ended.1, fun _ wrong => absurd hashes wrong, ended.2⟩

theorem judged_landBlob {staged body written : Bytes}
    (carries : deferred.Carries key node staged body written world)
    (hashed : deferred.hash.isSome = true) (algorithm : blob.digest.algorithm = "sha256") :
    Amidst env key faultless (landBlob env key blob size node (some deferred)) world
      fun deeds landed _ => Judged env blob (staged ++ body)
        (some (env.crc32c (staged ++ body))) faultless deeds landed := by
  have tail : Stays env key faultless blob.repo (writeTail deferred) world _ :=
    stays_writeTail carries
  refine .bind tail fun deeds result reached ended => ?_
  obtain ⟨stayed, outcome⟩ := ended
  suffices judged : Amidst env key faultless _ reached fun more landed _ =>
      Judged env blob (staged ++ body) (some (env.crc32c (staged ++ body))) faultless more landed
    from
    judged.weaken fun _ _ _ judged => judged.after stayed
  cases outcome with
  | failed fault =>
    exact ⟨by simp, by simp [fault], by simp [fault], by simp⟩
  | @done _ hash all =>
    rcases hash with _ | hash
    · cases all.kept.trans hashed
    dsimp only
    rw [all.right hash rfl]
    split
    · rename_i different
      have wrong : ¬ Hashes env blob.digest (staged ++ body) := by
        rwa [Hashes, algorithm]
      exact ⟨by simp, fun _ hashes => absurd hashes wrong, fun _ _ => by rw [algorithm], by simp⟩
    rename_i same
    refine judged_landVerified ?_
    rw [Hashes, algorithm]
    exact not_not.mp same

/-! ## The checksum -/

def Recorded (env : Env) (key : SessionKey) (blob : BlobKey) (checksum : BlobChecksum)
    (deeds : Deeds) : Prop :=
  ∃ deed ∈ deeds, ∃ after ∈ amid env key deed.world deed.action deed.choice,
    after.1.metadata.checksum blob.repo.name blob.digest.asString = some checksum

def Unrecorded (blob : BlobKey) (checksum : BlobChecksum) (deeds : Deeds) : Prop :=
  ∃ deed ∈ deeds, deed.action = .metadata (.applyRelaxed (.putChecksum blob.repo.name
    blob.digest.asString checksum.crc32c checksum.size)) ∧ deed.choice.choice.error ≠ none

theorem checksum_putChecksum (reader : JsonReader) (state : State) (repo digest : String)
    (crc32c : UInt32) (size : UInt64) :
    (state.applyInRam reader (.putChecksum repo digest crc32c size)).checksum repo digest =
      some ⟨crc32c, size⟩ := by
  rw [State.checksum_eq, State.repo_applyInRam]
  simp [MetaOp.repo, RepoState.apply]

theorem recorded_recordChecksum (blob : BlobKey) (checksum : BlobChecksum) :
    Amidst env key faultless (recordChecksum blob (some checksum)) world fun deeds _ _ =>
      Recorded env key blob checksum deeds ∨ Unrecorded blob checksum deeds := by
  refine .act_bind fun scene middle found performed _ => ?_
  split
  · refine .act_bind fun later final applied performed _ => ?_
    by_cases sound : later.choice.error = none
    · refine .inl ⟨_, List.mem_cons_of_mem _ List.mem_cons_self, _, performed, ?_⟩
      obtain ⟨between, _, performed⟩ := amid_eq_some performed
      rw [alone_applyRelaxed performed sound]
      exact checksum_putChecksum _ _ _ _ _ _
    · exact .inr ⟨_, List.mem_cons_of_mem _ List.mem_cons_self, rfl, sound⟩
  rename_i same
  refine .inl ⟨_, List.mem_cons_self, _, performed, ?_⟩
  obtain ⟨between, _, performed⟩ := amid_eq_some performed
  obtain ⟨rfl, rfl⟩ := alone_checksum performed
  exact not_not.mp same

theorem Recorded.mono {checksum : BlobChecksum}
    (recorded : Recorded env key blob checksum deeds ∨ Unrecorded blob checksum deeds)
    (contained : deeds ⊆ more) :
    Recorded env key blob checksum more ∨ Unrecorded blob checksum more :=
  recorded.imp (fun ⟨deed, member, after⟩ => ⟨deed, contained member, after⟩)
    fun ⟨deed, member, failed⟩ => ⟨deed, contained member, failed⟩

theorem recorded_blobEntered (blob : BlobKey) (checksum : BlobChecksum) :
    Amidst env key faultless (blobEntered blob (some checksum)) world fun deeds _ _ =>
      Recorded env key blob checksum deeds ∨ Unrecorded blob checksum deeds := by
  refine .act_bind fun _ _ _ _ _ => .act_bind fun _ _ _ _ _ => ?_
  refine (recorded_recordChecksum blob checksum).bind fun deeds _ reached recorded => ?_
  refine ((ensures_true _).mpr trivial).weaken fun more _ _ _ => ?_
  exact Recorded.mono recorded fun deed member =>
    List.mem_cons_of_mem _ (List.mem_cons_of_mem _ (List.mem_append_left _ member))

/-! ## The verdict -/

/-- What `finish_upload` came to, for the bytes staged and received. -/
structure Verdict (env : Env) (key : SessionKey) (blob : BlobKey) (bytes : Bytes)
    (faultless : Bool) (deeds : Deeds) (result : Except StorageError Unit) : Prop where
  passed : landing blob.repo deeds = true → Hashes env blob.digest bytes
  passes : faultless = true → Hashes env blob.digest bytes → landing blob.repo deeds = true
  rejects : faultless = true → ¬ Hashes env blob.digest bytes →
    result = .error (.digestMismatch blob.digest.asString
      (env.digestOf bytes blob.digest.algorithm).asString)
  records : result = .ok () →
    Recorded env key blob ⟨env.crc32c bytes, UInt64.ofNat bytes.length⟩ deeds ∨
      Unrecorded blob ⟨env.crc32c bytes, UInt64.ofNat bytes.length⟩ deeds

theorem Verdict.extend (verdict : Verdict env key blob bytes faultless deeds result)
    (same : landing blob.repo more = landing blob.repo deeds) (contained : deeds ⊆ more) :
    Verdict env key blob bytes faultless more result where
  passed := same ▸ verdict.passed
  passes := same ▸ verdict.passes
  rejects := verdict.rejects
  records done := Recorded.mono (verdict.records done) contained

theorem Verdict.after (before deeds : Deeds) (result : Except StorageError Unit) (_ : World)
    (stayed : landing blob.repo before = false)
    (verdict : Verdict env key blob bytes faultless deeds result) :
    Verdict env key blob bytes faultless (before ++ deeds) result :=
  verdict.extend (by simp [stayed]) (by simp)

/-- Actions that are no look at a marker. -/
abbrev Elsewise (repo : RepositoryName) (action : Action) : Prop := lands repo action = false

theorem elsewise_blobEntered (blob : BlobKey) (checksum : Option BlobChecksum) :
    (blobEntered blob checksum).Performs (Elsewise repo) :=
  (bookkeeping_blobEntered blob checksum).weaken fun action bookkeeping => by
    cases action <;> first | exact bookkeeping.elim | rfl

theorem elsewise_discardSession (session : SessionKey) :
    (discardSession session).Performs (Elsewise repo) := by
  refine .act_bind rfl fun taken => .bind ?_ fun ended => .bind ?_ fun _ =>
    Program.performs_act.mpr rfl
  · unfold endPendingOr
    split
    · exact performs_pure
    refine .bind (.act_bind rfl fun _ => .act_bind rfl fun _ => performs_pure) fun unlinked => ?_
    split <;> exact performs_pure
  cases saysTrue ended with
  | true => exact Program.performs_act.mpr rfl
  | false => exact performs_pure

theorem elsewise_discard (repo : RepositoryName) (session : SessionKey) (error : StorageError) :
    Amidst env key faultless
      (discardSession session >>= fun _ => pure (.error error : Except StorageError Unit)) world
      fun deeds result _ => landing repo deeds = false ∧ result = .error error := by
  refine (landing_of_performs ((elsewise_discardSession session).bind fun _ =>
    performs_pure)).and ?_
  simp

theorem stays_act (spares : Spares key node action) (elsewise : Elsewise repo action)
    (holding : Holding key node bytes world) :
    Stays env key faultless repo (act action) world fun _ => Holding key node bytes :=
  .act elsewise fun _ _ _ performed _ => holding.step spares performed

theorem Judged.verdict (judged : Judged env blob bytes checksum faultless deeds landed)
    (stayed : landing blob.repo more = false)
    (rejects : ∀ actual, landed = .mismatch actual →
      result = .error (.digestMismatch blob.digest.asString actual.asString))
    (records : result = .ok () →
      Recorded env key blob ⟨env.crc32c bytes, UInt64.ofNat bytes.length⟩ more ∨
      Unrecorded blob ⟨env.crc32c bytes, UInt64.ofNat bytes.length⟩ more) :
    Verdict env key blob bytes faultless (deeds ++ more) result := by
  refine ⟨?_, ?_, fun sound wrong => rejects _ (judged.rejects sound wrong),
    fun done => Recorded.mono (records done) (by simp)⟩
  · simpa [stayed] using judged.passed
  · simpa [stayed] using judged.passes

theorem Judged.verdict_of_fails {rest : Call (Except StorageError Unit)}
    (judged : Judged env blob bytes checksum faultless deeds landed) (error : StorageError)
    (elsewise : rest.Performs (Elsewise blob.repo))
    (fails : Amidst env key faultless rest world fun _ result _ => result = .error error)
    (rejects : ∀ actual, landed = .mismatch actual →
      error = .digestMismatch blob.digest.asString actual.asString) :
    Amidst env key faultless rest world fun more result _ =>
      Verdict env key blob bytes faultless (deeds ++ more) result := by
  refine ((landing_of_performs elsewise).and fails).weaken fun more result _ ended => ?_
  obtain ⟨stayed, rfl⟩ := ended
  exact judged.verdict stayed (fun actual mismatch => congrArg _ (rejects actual mismatch)) nofun

theorem verdict_finishLand {held : Bytes} {deferred : Option Deferred} {verified : Option Verified}
    (holding : Holding key node held world)
    (judges : ∀ reached, Holding key node held reached →
      Amidst env key faultless (landBlob env key blob bytes.length node deferred) reached
        fun deeds landed _ => Judged env blob bytes checksum faultless deeds landed)
    (known : checksum.or (verified.map Verified.crc32c) = some (env.crc32c bytes)) :
    Amidst env key faultless (finishLand env key blob bytes.length node deferred verified) world
      fun deeds answer _ => Verdict env key blob bytes faultless deeds answer := by
  refine (stays_act (by trivial) (by rfl) holding).before Verdict.after fun lock _ holding => ?_
  refine (stays_act (by trivial) (by rfl) holding).before Verdict.after fun _ _ holding => ?_
  refine (stays_act (by trivial) (by rfl) holding).before Verdict.after fun _ reached holding => ?_
  have judged : Amidst env key faultless
      (runBlocking (landBlob env key blob bytes.length node deferred)) reached
      fun deeds landed _ => Judged env blob bytes checksum faultless deeds landed := by
    refine (judges reached holding).bind fun deeds landed reached judged =>
      Program.Ensures.act_bind fun _ _ _ _ _ => ?_
    refine ⟨?_, ?_, judged.rejects, judged.checksum⟩
    · simpa [lands] using judged.passed
    · simpa [lands] using judged.passes
  refine judged.bind fun deeds landed reached judged => ?_
  cases landed with
  | done found =>
    dsimp only
    rw [judged.checksum found rfl, known]
    refine (Program.Ensures.and (landing_of_performs ?_) ?_).weaken fun more result _ ended =>
      judged.verdict ended.1 nofun fun _ => ended.2
    · exact .act_bind rfl fun _ => .act_bind rfl fun _ => (elsewise_blobEntered _ _).bind fun _ =>
        .act_bind rfl fun _ => .act_bind rfl fun _ => .act_bind rfl fun _ =>
          .act_bind rfl fun _ => performs_pure
    refine .act_bind fun _ _ _ _ _ => .act_bind fun _ _ _ _ _ => ?_
    refine (recorded_blobEntered blob _).bind fun entered _ reached recorded => ?_
    refine ((ensures_true _).mpr trivial).weaken fun more _ _ _ => ?_
    exact Recorded.mono recorded fun deed member =>
      List.mem_cons_of_mem _ (List.mem_cons_of_mem _ (List.mem_append_left _ member))
  | mismatch actual =>
    refine judged.verdict_of_fails (.digestMismatch blob.digest.asString actual.asString)
      (.act_bind rfl fun _ => .act_bind rfl fun _ => .act_bind rfl fun _ =>
        (elsewise_discardSession _).bind fun _ => .act_bind rfl fun _ =>
          performs_pure) (by simp) ?_
    rintro _ ⟨⟩
    rfl
  | rejected error =>
    exact judged.verdict_of_fails error
      (.act_bind rfl fun _ => .act_bind rfl fun _ => .act_bind rfl fun _ =>
        (elsewise_discardSession _).bind fun _ => .act_bind rfl fun _ =>
          performs_pure) (by simp) nofun
  | failed charged error =>
    exact judged.verdict_of_fails error
      (.act_bind rfl fun _ => .act_bind rfl fun _ => .act_bind rfl fun _ =>
        .act_bind rfl fun _ => .act_bind rfl fun _ => performs_pure) (by simp) nofun

theorem verdict_verifyAndLand {staged body written : Bytes}
    (carries : deferred.Carries key node staged body written world) :
    Amidst env key faultless (verifyAndLand env key blob node deferred) world
      fun deeds answer _ => Verdict env key blob (staged ++ body) faultless deeds answer := by
  dsimp only [verifyAndLand]
  rw [carries.length]
  split
  · rename_i direct
    simp only [Bool.and_eq_true, decide_eq_true_eq] at direct
    obtain ⟨⟨hashed, algorithm⟩, _⟩ := direct
    have kept : deferred.hash.isSome = true := by
      cases found : deferred.hash with
      | none => simp [found] at hashed
      | some hash => rfl
    exact verdict_finishLand carries.holding (fun reached holding => judged_landBlob
      { carries with holding := holding } kept algorithm) (by rfl)
  rename_i indirect
  refine Stays.before ((stays_finishVerify carries _ ?_).runBlocking ?_) Verdict.after
    fun result reached outcome => ?_
  · intro covers
    simp only [Bool.and_eq_true, decide_eq_true_eq] at covers
    exact covers.2
  · rintro _ _ _ _ resumed (verified | fault)
    · exact .done { verified with holding := verified.holding.step (by trivial) resumed }
    · exact .failed fault
  cases outcome with
  | failed fault =>
    exact ⟨by simp, by simp [fault], by simp [fault], by simp⟩
  | @done _ found verified =>
    dsimp only
    split
    · rename_i different
      have wrong : ¬ Hashes env blob.digest (staged ++ body) := by
        rwa [Hashes, ← verified.digest]
      refine (elsewise_discard blob.repo key _).weaken fun deeds result _ ended => ?_
      obtain ⟨stayed, rfl⟩ := ended
      exact ⟨by simp [stayed], fun _ hashes => absurd hashes wrong,
        fun _ _ => by rw [verified.digest], by simp⟩
    rename_i same
    have hashes : Hashes env blob.digest (staged ++ body) := by
      rw [Hashes, ← verified.digest]
      exact not_not.mp same
    rw [verified.file]
    refine verdict_finishLand verified.holding (fun reached _ => judged_landVerified hashes) ?_
    simp [verified.crc32c]

/-- There was a verdict on the bytes staged and received, or the call failed
before. -/
def Decided (env : Env) (key : SessionKey) (blob : BlobKey) (staged : Option Bytes)
    (trailing : UploadBody) (limit maxSize : Nat) (faultless : Bool) (deeds : Deeds)
    (result : Except StorageError Unit) : Prop :=
  (∃ bytes body, staged = some bytes ∧ received trailing = some body ∧
      Verdict env key blob (bytes ++ body) faultless deeds result) ∨
    (landing blob.repo deeds = false ∧ result ≠ .ok () ∧
      (faultless = true → ∀ bytes body, staged = some bytes → received trailing = some body →
        body.length ≤ limit → maxSize < (bytes ++ body).length))

section

variable {blob : BlobKey} {staged : Option Bytes} {trailing : UploadBody} {limit maxSize : Nat}
  {mutex : Nat} {value : Option StagedHash}

theorem Decided.extend {deeds more : Deeds} {result : Except StorageError Unit}
    (decided : Decided env key blob staged trailing limit maxSize faultless deeds result)
    (same : landing blob.repo more = landing blob.repo deeds) (contained : deeds ⊆ more) :
    Decided env key blob staged trailing limit maxSize faultless more result := by
  rcases decided with ⟨bytes, body, found, arrived, verdict⟩ | ⟨stayed, failed, excused⟩
  · exact .inl ⟨bytes, body, found, arrived, verdict.extend same contained⟩
  · exact .inr ⟨same.trans stayed, failed, excused⟩

theorem Decided.after (before deeds : Deeds) (result : Except StorageError Unit) (_ : World)
    (stayed : landing blob.repo before = false)
    (decided : Decided env key blob staged trailing limit maxSize faultless deeds result) :
    Decided env key blob staged trailing limit maxSize faultless (before ++ deeds) result :=
  decided.extend (by simp [stayed]) (by simp)

theorem stays_take (holding : Holding key node bytes world)
    (guarding : Guarding key mutex value world) :
    Stays env key faultless repo (act (.uploads (.take mutex))) world fun taken reached =>
      taken = value ∧ Holding key node bytes reached ∧ Guarding key mutex none reached := by
  refine .act rfl fun scene middle taken performed _ => ?_
  have held := holding.step (by trivial) performed
  obtain ⟨between, left, performed⟩ := amid_eq_some performed
  replace guarding := guarding.beside left
  obtain ⟨uploads, changed, rfl⟩ := perform_uploads performed
  cases changed
  refine ⟨guarding.value, held, guarding.entry, ?_, ?_⟩
  · simpa using guarding.within
  · exact LockMap.value_update guarding.within _ fun _ => rfl

theorem seedHash_right (right : ∀ hash, value = some hash → hash.bytes = bytes)
    (found : StagedHash) (seeded : seedHash value bytes.length = some found) :
    found.bytes = bytes := by
  rcases Option.or_eq_some_iff.mp seeded with kept | ⟨_, fresh⟩
  · exact right found kept
  split at fresh
  · rename_i empty
    cases fresh
    exact (List.eq_nil_of_length_eq_zero empty).symm
  · cases fresh

theorem decided_finishReady (holding : Holding key node bytes world)
    (guarding : Guarding key mutex value world)
    (right : ∀ hash, value = some hash → hash.bytes = bytes) :
    Amidst env key faultless
      (finishReady env key blob mutex node bytes.length maxSize trailing limit) world
      fun deeds answer _ =>
        Decided env key blob (some bytes) trailing limit maxSize faultless deeds answer := by
  refine (stays_take holding guarding).before Decided.after fun taken reached ended => ?_
  obtain ⟨rfl, holding, _⟩ := ended
  refine (stays_appendInner holding trailing limit true ?_).before Decided.after
    fun result reached outcome => ?_
  · exact seedHash_right right
  cases outcome with
  | failed holding excused =>
    refine .inr ⟨rfl, nofun, fun sound found body same arrived short => ?_⟩
    exact absurd (excused sound body arrived) (Nat.not_lt.mpr short)
  | done arrived carries immediate =>
    dsimp only
    split
    · rename_i long
      rw [carries.length] at long
      refine (elsewise_discard blob.repo key _).weaken fun deeds result _ ended =>
        .inr ⟨ended.1, ?_, ?_⟩
      · rw [ended.2]
        nofun
      rintro _ _ body ⟨⟩ came _
      cases arrived.symm.trans came
      exact long
    exact (verdict_verifyAndLand carries).weaken fun _ _ _ verdict =>
      .inl ⟨bytes, _, rfl, arrived, verdict⟩

end

end

end Roci.Filesystem
