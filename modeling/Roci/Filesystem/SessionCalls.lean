import Roci.Filesystem.Protocol

/-!
# The upload calls keep to the rules

Each part of an upload is shown to keep to the rules of a session, with what is
known about the session when it is over: the file that is open, the bytes in it,
and whether the session was ended.
-/

namespace Roci.Filesystem

open Roci.Core Roci.Library Roci.Storage
open Program (performs_act performs_pure)

/-- The call holds the session and has its staging file open, and took the hash
kept with it. -/
structure Notes.Writing (notes : Notes) (key : SessionKey) (mutex node : Nat) : Prop where
  holds : notes.Holds key mutex
  open_ : notes.node = some node
  taken : notes.taken = true
  settled : notes.owes = false
  pending : notes.pending = some false

/-- A hash that is kept covers exactly the bytes in the file. -/
def Notes.Tracks (notes : Notes) (hash : Option StagedHash) : Prop :=
  ∀ found, hash = some found → notes.content = some found.bytes

section

variable {env : Env} {faultless : Bool} {key : SessionKey} {mutex node : Nat} {notes : Notes}

/-! ## Bodies -/

theorem Notes.Writing.write (writing : notes.Writing key mutex node) (data : Bytes)
    (response : Except StorageError Unit) :
    (observe notes (.disk (.write node data)) response).Writing key mutex node := by
  cases response with
  | _ => exact { writing with }

theorem Notes.Writing.setLen (writing : notes.Writing key mutex node) (length : Nat)
    (response : Except StorageError Unit) :
    (observe notes (.disk (.setLen node length)) response).Writing key mutex node :=
  { writing with }

variable {blob : BlobKey} {bytes : Bytes} {deferred : Deferred} {len : Nat}
  {hash : Option StagedHash} {progress : Progress} {Result : Type}

theorem Notes.Tracks.write (tracks : notes.Tracks hash) (data : Bytes) :
    (observe notes (.disk (.write node data)) (.ok ())).Tracks
      (hash.map fun hash => { bytes := hash.bytes ++ data }) := by
  intro found covered
  cases hash with
  | none => cases covered
  | some hash =>
    cases covered
    simp [observe, tracks hash rfl]

def Wrote (key : SessionKey) (mutex node : Nat) (result : Except StorageError Progress)
    (reached : Notes) : Prop :=
  reached.Writing key mutex node ∧ ∀ progress, result = .ok progress → reached.Tracks progress.hash

section

variable (writing : notes.Writing key mutex node) (tracks : notes.Tracks progress.hash)

include writing tracks

theorem obeys_writeHashed (batch : Bytes) :
    Obeys env faultless (writeHashed node progress batch) notes (Wrote key mutex node) := by
  have writes : Obeys env faultless (act (.disk (.write node batch))) notes
      fun result reached => reached = observe notes (.disk (.write node batch)) result :=
    ⟨⟨key, mutex, writing.holds, writing.open_, writing.taken⟩, fun _ _ => rfl⟩
  refine (obeys_runBlocking writes).bind fun result reached same => ?_
  subst same
  cases result with
  | error error => exact ⟨writing.write batch _, nofun⟩
  | ok done =>
    refine ⟨writing.write batch _, fun later equal => ?_⟩
    cases equal
    exact tracks.write batch

theorem obeys_writeBatches (batches : List Bytes) :
    Obeys env faultless (writeBatches node progress batches) notes (Wrote key mutex node) := by
  induction batches generalizing notes progress with
  | nil => exact ⟨writing, fun later equal => by cases equal; exact tracks⟩
  | cons batch rest ih =>
    refine (obeys_writeHashed writing tracks batch).bind fun result reached wrote => ?_
    cases result with
    | error error => exact ⟨wrote.1, nofun⟩
    | ok later => exact ih wrote.1 (wrote.2 later rfl)

theorem obeys_takeChunk (limit : Nat) (chunk : Bytes) :
    Obeys env faultless (takeChunk node limit progress chunk) notes (Wrote key mutex node) := by
  unfold takeChunk
  dsimp only
  split
  · exact ⟨writing, nofun⟩
  refine (obeys_writeBatches writing tracks _).bind fun result reached wrote => ?_
  cases result with
  | error error => exact ⟨wrote.1, nofun⟩
  | ok later =>
    refine ⟨wrote.1, fun last equal => ?_⟩
    cases equal
    exact wrote.2 later rfl

theorem obeys_takeBody (limit : Nat) (deferTail : Bool) (body : UploadBody) :
    Obeys env faultless (takeBody node limit deferTail progress body) notes
      (Wrote key mutex node) := by
  induction body generalizing notes progress with
  | nil =>
    refine .act trivial fun _ _ => ?_
    unfold takeTail
    split
    · exact obeys_writeHashed writing tracks _
    · exact ⟨writing, fun later equal => by cases equal; exact tracks⟩
  | cons chunk rest ih =>
    rcases chunk with error | chunk
    · exact .act trivial fun _ _ => ⟨writing, nofun⟩
    refine .act trivial fun _ _ =>
      (obeys_takeChunk writing tracks limit chunk).bind fun result reached wrote => ?_
    cases result with
    | error error => exact ⟨wrote.1, nofun⟩
    | ok later => exact ih wrote.1 (wrote.2 later rfl)

end

/-- The hash that is passed on covers the file, if there is one. -/
theorem obeys_appendInner (start limit : Nat) (body : UploadBody) (deferTail : Bool)
    (writing : notes.Writing key mutex node) (tracks : notes.Tracks hash) :
    Obeys env faultless (appendInner node start body limit hash deferTail) notes
      fun result reached => reached.Writing key mutex node ∧
        ∀ deferred, result = .ok deferred →
          deferred.node = node ∧ reached.Tracks deferred.hash := by
  unfold appendInner
  have seeded : notes.Tracks (hash.filter fun hash => hash.bytes.length = start) :=
    fun found equal => tracks found (Option.filter_eq_some_iff.mp equal).1
  refine (obeys_takeBody writing seeded limit deferTail body).bind fun result reached wrote => ?_
  cases result with
  | ok progress =>
    refine ⟨wrote.1, fun deferred equal => ?_⟩
    cases equal
    exact ⟨rfl, wrote.2 progress rfl⟩
  | error error =>
    have cuts : Obeys env faultless (act (.disk (.setLen node start))) reached
        fun _ last => last.Writing key mutex node :=
      ⟨⟨key, mutex, wrote.1.holds, wrote.1.open_, wrote.1.taken⟩,
        fun response _ => wrote.1.setLen start response⟩
    refine (obeys_runBlocking cuts).bind fun response last written => ?_
    split <;> exact ⟨written, nofun⟩

theorem obeys_writeTail (writing : notes.Writing key mutex deferred.node)
    (tracks : notes.Tracks deferred.hash) :
    Obeys env faultless (writeTail deferred) notes
      fun result reached => reached.Writing key mutex deferred.node ∧
        ∀ hash, result = .ok hash → reached.Tracks hash := by
  unfold writeTail
  split
  · exact ⟨writing, fun hash equal => by cases equal; exact tracks⟩
  refine .act ⟨key, mutex, writing.holds, writing.open_, writing.taken⟩ fun result _ => ?_
  have written := writing.write deferred.tail result
  cases result with
  | error error =>
    refine .act ⟨key, mutex, written.holds, written.open_, written.taken⟩ fun response _ => ?_
    exact ⟨written.setLen _ response, nofun⟩
  | ok done =>
    refine ⟨written, fun hash equal => ?_⟩
    cases equal
    exact tracks.write deferred.tail

/-! ## Opening a session -/

/-- What is known when a staging file has been prepared. -/
structure Prepared (faultless : Bool) (key : SessionKey) (mutex : Nat)
    (result : Except StorageError Staging) (reached : Notes) : Prop where
  holds : reached.Holds key mutex
  settled : reached.owes = false
  created : faultless = true → reached.pending = some true → reached.node = none
  pending : ∀ staging, result = .ok staging → reached.pending = some false
  ready : ∀ node len, result = .ok (.ready node len) →
    reached.node = some node ∧ (len = 0 → reached.content = some [])

def Notes.locked (key : SessionKey) (mutex : Nat) : Notes where
  lock := some (key, mutex)
  held := true

theorem Notes.locked_isAt (key : SessionKey) (mutex : Nat) :
    (Notes.locked key mutex).isAt key.path = true := by
  simp [Notes.isAt, Notes.locked]

theorem obeys_create (key : SessionKey) (mutex : Nat) :
    Obeys env faultless (prepareStaging key true)
      { Notes.locked key mutex with pending := some true }
      fun result reached => reached.Holds key mutex ∧ reached.owes = false ∧
        ((∃ error, result = .error error) → faultless = true → reached.node = none) ∧
        ∀ staging, result = .ok staging → ∃ node, staging = .ready node 0 ∧
          reached.node = some node ∧ reached.content = some [] := by
  refine .act ⟨key, mutex, ⟨rfl, rfl⟩, rfl, rfl⟩ fun created _ => ?_
  rcases created with error | node
  · exact ⟨⟨rfl, rfl⟩, rfl, fun _ _ => rfl, by simp⟩
  refine .act trivial fun len known => ?_
  cases len with
  | error error =>
    refine ⟨⟨rfl, rfl⟩, rfl, fun _ sound => ?_, by simp⟩
    rw [show faultless = false from known] at sound
    cases sound
  | ok len =>
    have noted : observe (observe { Notes.locked key mutex with pending := some true }
        (.disk (.create key.path)) (.ok node)) (.disk (.fstat node)) (.ok len) =
        { Notes.locked key mutex with
          pending := some true, node := some node, content := some [] } := by
      simp [observe]
    rw [noted]
    refine ⟨⟨rfl, rfl⟩, rfl, by simp, fun staging equal => ?_⟩
    cases equal
    exact ⟨node, rfl, rfl, rfl⟩

theorem obeys_openStaging (key : SessionKey) (mutex : Nat) :
    Obeys env faultless (prepareStaging key false)
      { Notes.locked key mutex with pending := some false } (Prepared faultless key mutex) := by
  have unready : ∀ result, (∀ node len, result ≠ .ok (.ready node len)) → ∀ opened,
      Prepared faultless key mutex result
        { Notes.locked key mutex with pending := some false, node := opened } :=
    fun result excluded opened => ⟨⟨rfl, rfl⟩, rfl, by simp,
      fun _ _ => rfl, fun node len equal => absurd equal (excluded node len)⟩
  refine .act trivial fun found _ => ?_
  split
  · exact unready _ (by simp) none
  · exact unready _ (by simp) none
  · exact unready _ (by simp) none
  refine .act trivial fun opened _ => ?_
  rcases opened with error | node
  · exact unready _ (by simp) none
  have noted : observe { Notes.locked key mutex with pending := some false }
      (.disk (.openFile key.path)) (.ok node) =
      { Notes.locked key mutex with pending := some false, node := some node } := by
    simp [observe, Notes.isAt, Notes.locked]
  change Obeys env faultless _ (observe { Notes.locked key mutex with pending := some false }
      (.disk (.openFile key.path)) (.ok node)) _
  rw [noted]
  refine .act trivial fun len _ => ?_
  rcases len with error | len
  · exact unready _ (by simp) (some node)
  have stored : observe
      { Notes.locked key mutex with pending := some false, node := some node }
      (.disk (.fstat node)) (.ok len) =
      { Notes.locked key mutex with
        pending := some false, node := some node
        content := if len = 0 then some [] else none } := by
    by_cases empty : len = 0
    · simp [observe, empty]
    · simp [observe, empty, Notes.locked]
  rw [stored]
  refine ⟨⟨rfl, rfl⟩, rfl, by simp, fun _ _ => rfl, fun other length equal => ?_⟩
  cases equal
  exact ⟨rfl, fun empty => if_pos empty⟩

theorem obeys_prepareSession (key : SessionKey) (mutex : Nat) :
    Obeys env faultless (prepareSession key) (Notes.locked key mutex)
      (Prepared faultless key mutex) := by
  refine .act trivial fun create _ => ?_
  have noted : observe (Notes.locked key mutex) (.sessions (.isPending key)) create =
      { Notes.locked key mutex with pending := some create } := by
    simp [observe, Notes.locked_isAt]
  rw [noted]
  cases create with
  | true =>
    refine (obeys_runBlocking (obeys_create key mutex)).bind fun result reached made => ?_
    obtain ⟨holds, settled, failed, ready⟩ := made
    rcases result with error | staging
    · exact ⟨holds, settled, fun sound _ => failed ⟨error, rfl⟩ sound, by simp, by simp⟩
    obtain ⟨node, rfl, opened, content⟩ := ready staging rfl
    refine .act ⟨⟨mutex, holds⟩, fun _ => settled⟩ fun answer known => ?_
    refine ⟨holds, ?_, by simp [observe], fun _ _ => rfl, fun other len equal => ?_⟩
    · simp [observe, opened]
    cases equal
    exact ⟨opened, fun _ => content⟩
  | false =>
    refine (obeys_runBlocking (obeys_openStaging key mutex)).bind fun result reached made => ?_
    cases result with
    | _ => exact made

/-! ## Ending a session -/

/-- The call holds a session, and whether the counter is ahead because of it. -/
structure Notes.Owing (notes : Notes) (key : SessionKey) (mutex : Nat) (owed : Bool) : Prop where
  holds : notes.Holds key mutex
  owes : notes.owes = owed
  pending : notes.pending ≠ some true

theorem obeys_endIf {ended : Bool} (owing : notes.Owing key mutex ended) :
    Obeys env faultless (endIf ended) notes fun _ reached => reached.Owing key mutex false := by
  cases ended with
  | false => exact owing
  | true => exact ⟨owing.owes, fun _ _ => ⟨owing.holds, rfl, owing.pending⟩⟩

theorem obeys_unlinkStaging (owing : notes.Owing key mutex false) :
    Obeys env faultless (runBlocking (act (.disk (.unlink key.path)))) notes
      fun result reached => reached.Owing key mutex result.isOk := by
  refine obeys_runBlocking ⟨.inr ⟨key, mutex, owing.holds, rfl, owing.owes, owing.pending⟩,
    fun response _ => ?_⟩
  rcases response with error | done
  · exact owing
  have noted : observe notes (.disk (.unlink key.path)) (.ok ()) =
      { notes with owes := true, node := none, content := none } := by
    simp [observe, (owing.holds.isAt_iff _).mpr rfl]
  exact noted ▸ ⟨owing.holds, rfl, owing.pending⟩

theorem obeys_endPendingOr {taken : Bool} (owing : notes.Owing key mutex taken) :
    Obeys env faultless (endPendingOr key taken) notes
      fun result reached => reached.Owing key mutex (saysTrue result) := by
  unfold endPendingOr
  cases taken with
  | true => exact owing
  | false =>
    refine (obeys_unlinkStaging owing).bind fun result reached ended => ?_
    split <;> exact ended

theorem Notes.Holds.takePending (holds : notes.Holds key mutex) {answer : Bool}
    (unopened : answer = true → notes.node = none) :
    (observe notes (.sessions (.takePending key)) answer).Owing key mutex answer := by
  refine ⟨holds, ?_, nofun⟩
  cases answer with
  | false => rfl
  | true => simp [observe, unopened rfl]

theorem obeys_discardSession (holds : notes.Holds key mutex)
    (pending : notes.pending = some false) (settled : faultless = true → notes.owes = false) :
    Obeys env faultless (discardSession key) notes
      fun _ reached => reached.Owing key mutex false := by
  refine .act ⟨⟨mutex, holds⟩, settled⟩ fun answer known => ?_
  have absent : answer = false := known ⟨mutex, holds⟩ false pending
  subst absent
  have owing := @Notes.Holds.takePending key mutex notes holds false nofun
  refine (obeys_endPendingOr owing).bind fun result reached ended => ?_
  exact (obeys_endIf ended).bind fun _ last done => ⟨trivial, fun _ _ => done⟩

/-! ## Landing -/

theorem Notes.SameSession.writing {first second : Notes} (same : first.SameSession second)
    (writing : first.Writing key mutex node) : second.Writing key mutex node := by
  rw [same]
  exact { writing with }

structure Ended (faultless : Bool) (key : SessionKey) (mutex : Nat) (succeeded : Bool)
    (reached : Notes) : Prop where
  holds : reached.Holds key mutex
  pending : reached.pending = some false
  owed : succeeded = true → reached.owes = true
  settled : succeeded = false → faultless = true → reached.owes = false

theorem Notes.Writing.ended (writing : notes.Writing key mutex node) :
    Ended faultless key mutex false notes :=
  ⟨writing.holds, writing.pending, nofun, fun _ _ => writing.settled⟩

theorem Notes.Writing.gone (writing : notes.Writing key mutex node) :
    Ended faultless key mutex true { notes with owes := true, node := none, content := none } :=
  ⟨writing.holds, writing.pending, fun _ => rfl, nofun⟩

theorem Ended.of_fault {succeeded : Bool} (ended : Ended faultless key mutex true notes)
    (fault : faultless = false) : Ended faultless key mutex succeeded notes :=
  ⟨ended.holds, ended.pending, fun _ => ended.owed rfl, fun _ sound => by
    rw [fault] at sound
    cases sound⟩

section

variable (writing : notes.Writing key mutex node) (content : notes.content = some bytes)
  (hashes : Hashes env blob.digest bytes) (expected : Nat)

include writing content hashes expected

theorem obeys_renameBeneath (sync : Bool) :
    Obeys env faultless (renameBeneath key.path blob.path expected sync) notes
      fun result reached => Ended faultless key mutex result.isOk reached := by
  have opened : notes.node.isSome = true := by
    rw [writing.open_]
    rfl
  refine .act trivial fun found _ => ?_
  rcases found with error | found
  · exact writing.ended
  dsimp only
  split
  · exact writing.ended
  refine .act ⟨key, mutex, writing.holds, rfl, writing.settled, writing.pending, opened,
    blob, rfl, bytes, content, hashes⟩ fun moved known => ?_
  rcases moved with error | moved
  · exact writing.ended
  have gone : Ended faultless key mutex true
    (observe notes (.disk (.rename key.path blob.path)) (.ok moved)) := writing.gone
  cases moved with
  | true =>
    unfold syncDirectory
    dsimp only
    split
    · refine ⟨trivial, fun synced fault => ?_⟩
      cases synced with
      | error error => exact gone.of_fault fault
      | ok done => exact gone
    · exact gone
  | false =>
    exact (obeys_quiet (performs_checkRegular trivial)).weaken fun _ _ same =>
      same ▸ gone.of_fault known

theorem obeys_placeStaged :
    Obeys env faultless (placeStaged env key blob expected) notes
      fun result reached => Ended faultless key mutex result.isOk reached := by
  refine (obeys_dedupeLinkAt blob).bind fun linked reached same => ?_
  have still := same.writing writing
  split
  · refine ⟨.inr ⟨key, mutex, still.holds, rfl, still.settled, ?_⟩, fun response _ => ?_⟩
    · rw [still.pending]
      nofun
    rcases response with error | done
    · exact still.ended
    have noted : observe reached (.disk (.unlink key.path)) (.ok ()) =
        { reached with owes := true, node := none, content := none } := by
      simp [observe, (still.holds.isAt_iff _).mpr rfl]
    exact noted ▸ still.gone
  refine obeys_renameBeneath still ?_ hashes expected _
  rw [same]
  exact content

end

def Landed.isDone : Landed → Bool
  | .done _ => true
  | _ => false

theorem obeys_landVerified (writing : notes.Writing key mutex node)
    (content : notes.content = some bytes) (hashes : Hashes env blob.digest bytes)
    (size expected : Nat) (checksum : Option UInt32) :
    Obeys env faultless (landVerified env key blob size expected checksum) notes
      fun landed reached => Ended faultless key mutex landed.isDone reached := by
  refine (obeys_layoutAndAdmit blob size).bind fun admitted reached same => ?_
  subst same
  cases admitted with
  | error error => exact writing.ended
  | ok charged =>
    refine (obeys_placeStaged writing content hashes expected).bind fun placed last ended => ?_
    cases placed with
    | _ => exact ended

theorem obeys_landBlob (writing : notes.Writing key mutex node) (size expected : Nat)
    {deferred : Option Deferred}
    (covered : ∀ body, deferred = some body → body.node = node ∧ notes.Tracks body.hash ∧
      blob.digest.algorithm = "sha256")
    (checked : deferred = none → ∃ bytes, notes.content = some bytes ∧
      Hashes env blob.digest bytes) :
    Obeys env faultless (landBlob env key blob size expected deferred) notes
      fun landed reached => Ended faultless key mutex landed.isDone reached := by
  rcases deferred with _ | body
  · obtain ⟨bytes, content, hashes⟩ := checked rfl
    exact obeys_landVerified writing content hashes size expected none
  obtain ⟨rfl, tracks, algorithm⟩ := covered body rfl
  refine (obeys_writeTail writing tracks).bind fun result reached wrote => ?_
  rcases result with error | hash
  · exact wrote.1.ended
  rcases hash with _ | hash
  · exact wrote.1.ended
  dsimp only
  split
  · exact wrote.1.ended
  rename_i same
  refine obeys_landVerified wrote.1 (wrote.2 _ rfl hash rfl) ?_ size expected _
  rw [Hashes, algorithm]
  exact not_not.mp same

theorem obeys_finishVerify (algorithm : String) {covers : Bool}
    (writing : notes.Writing key mutex deferred.node) (tracks : notes.Tracks deferred.hash)
    (covered : covers = true → algorithm = "sha256") :
    Obeys env faultless (finishVerify env key algorithm deferred covers) notes
      fun result reached => reached.Writing key mutex deferred.node ∧
        ∀ verified, result = .ok verified → ∃ bytes, reached.content = some bytes ∧
          verified.digest = env.digestOf bytes algorithm := by
  refine (obeys_writeTail writing tracks).bind fun result reached wrote => ?_
  rcases result with error | hash
  · exact ⟨wrote.1, nofun⟩
  obtain ⟨written, follows⟩ := wrote
  refine .act trivial fun opened known => ?_
  rcases opened with error | found
  · exact ⟨written, nofun⟩
  have same : found = deferred.node := known ((written.holds.isAt_iff _).mpr rfl) _ written.open_
  subst same
  have noted : observe reached (.disk (.openFile key.path)) (.ok deferred.node) = reached := by
    simp only [observe, (written.holds.isAt_iff _).mpr rfl, if_true]
    rw [← written.open_]
  rw [noted]
  refine obeys_quiet_bind (performs_syncDirectory trivial _) fun synced => ?_
  rcases synced with error | done
  · exact ⟨written, nofun⟩
  dsimp only
  cases kept : hash.filter fun _ => covers with
  | some hash =>
    obtain ⟨rfl, used⟩ := Option.filter_eq_some_iff.mp kept
    refine ⟨written, fun verified equal => ?_⟩
    cases equal
    exact ⟨hash.bytes, follows _ rfl hash rfl, by rw [covered used]⟩
  | none =>
    refine .act trivial fun read _ => ?_
    rcases read with error | bytes
    · exact ⟨written, nofun⟩
    have stored : observe reached (.disk (.read deferred.node)) (.ok bytes) =
        { reached with content := some bytes } := by
      simp [observe, written.open_]
    rw [stored]
    refine ⟨{ written with }, fun verified equal => ?_⟩
    cases equal
    exact ⟨bytes, rfl, rfl⟩

/-- The lock is held to the end, with the session settled. -/
structure Settled (faultless : Bool) (key : SessionKey) (mutex : Nat) (reached : Notes) :
    Prop where
  holds : reached.Holds key mutex
  settled : faultless = true →
    reached.owes = false ∧ (reached.pending = some true → reached.node = none)

theorem Notes.Owing.settled (owing : notes.Owing key mutex false) :
    Settled faultless key mutex notes :=
  ⟨owing.holds, fun _ => ⟨owing.owes, fun pending => absurd pending owing.pending⟩⟩

theorem Ended.balanced (ended : Ended faultless key mutex false notes) :
    Settled faultless key mutex notes := by
  refine ⟨ended.holds, fun sound => ⟨ended.settled rfl sound, fun pending => ?_⟩⟩
  rw [ended.pending] at pending
  cases pending

theorem Notes.Writing.balanced (writing : notes.Writing key mutex node) :
    Settled faultless key mutex notes :=
  writing.ended.balanced

theorem Prepared.balanced {result : Except StorageError Staging}
    (prepared : Prepared faultless key mutex result notes) : Settled faultless key mutex notes :=
  ⟨prepared.holds, fun sound => ⟨prepared.settled, prepared.created sound⟩⟩

theorem obeys_refuse (lock : Nat) (error : StorageError)
    (ended : Ended faultless key mutex false notes) :
    Obeys env faultless (do
      act (.collector .unpin)
      act (.admissions (.unlock lock))
      act (.admissions (.release blob))
      discardSession key
      act (.admissions (.forget lock))
      pure (.error error)) notes
      fun (_ : Except StorageError Unit) last => Settled faultless key mutex last := by
  refine .act trivial fun _ _ => .act trivial fun _ _ => .act trivial fun _ _ =>
    (obeys_discardSession ended.holds ended.pending (ended.settled rfl)).bind fun _ last done => ?_
  exact .act trivial fun _ _ => done.settled

theorem obeys_finishLand (writing : notes.Writing key mutex node) (size expected : Nat)
    {deferred : Option Deferred} (verified : Option Verified)
    (covered : ∀ body, deferred = some body → body.node = node ∧ notes.Tracks body.hash ∧
      blob.digest.algorithm = "sha256")
    (checked : deferred = none → ∃ bytes, notes.content = some bytes ∧
      Hashes env blob.digest bytes) :
    Obeys env faultless (finishLand env key blob size expected deferred verified) notes
      fun _ => Settled faultless key mutex := by
  refine .act trivial fun lock _ => .act trivial fun _ _ => .act trivial fun _ _ =>
    (obeys_runBlocking (obeys_landBlob writing size expected covered checked)).bind
      fun landed reached ended => ?_
  cases landed with
  | done checksum =>
    refine .act (ended.owed rfl) fun _ _ => ?_
    have owing : Notes.Owing (observe reached (.sessions .endSession) ()) key mutex false :=
      ⟨ended.holds, rfl, fun pending => nomatch ended.pending.symm.trans pending⟩
    refine (obeys_quiet ?_).weaken fun _ last same => same ▸ owing.settled
    exact .act_bind trivial fun _ => quiet_concludeBlob _ _ _
  | failed charged error =>
    refine (obeys_quiet ?_).weaken fun _ last same => same ▸ ended.balanced
    exact .act_bind trivial fun _ => .act_bind trivial fun _ =>
      .act_bind trivial fun _ => .act_bind trivial fun _ =>
        .act_bind trivial fun _ => performs_pure
  | _ => exact obeys_refuse _ _ ended

theorem obeys_verifyAndLand {body : Deferred} (writing : notes.Writing key mutex body.node)
    (tracks : notes.Tracks body.hash) :
    Obeys env faultless (verifyAndLand env key blob node body) notes
      fun _ => Settled faultless key mutex := by
  unfold verifyAndLand
  dsimp only
  split
  · rename_i covers
    simp only [Bool.and_eq_true, decide_eq_true_eq] at covers
    refine obeys_finishLand writing _ _ _ (fun other equal => ?_) nofun
    cases equal
    exact ⟨rfl, tracks, covers.1.2⟩
  refine (obeys_runBlocking (obeys_finishVerify _ writing tracks fun covers => ?_)).bind
    fun result reached verified => ?_
  · simp only [Bool.and_eq_true, decide_eq_true_eq] at covers
    exact covers.2
  rcases result with error | found
  · exact verified.1.balanced
  dsimp only
  split
  · exact (obeys_discardSession verified.1.holds verified.1.pending
      fun _ => verified.1.settled).bind fun _ last done => done.settled
  rename_i same
  refine obeys_finishLand verified.1 _ _ _ (fun other impossible => nomatch impossible) fun _ => ?_
  obtain ⟨bytes, content, digest⟩ := verified.2 found rfl
  exact ⟨bytes, content, digest.symm.trans (not_not.mp same)⟩

/-! ## Whole calls -/

theorem Prepared.take (prepared : Prepared faultless key mutex (.ok (.ready node len)) notes)
    (taken : Option StagedHash) :
    (observe notes (.uploads (.take mutex)) taken).Writing key mutex node ∧
      (observe notes (.uploads (.take mutex)) taken).Tracks (seedHash taken len) := by
  obtain ⟨opened, empty⟩ := prepared.ready node len rfl
  refine ⟨⟨prepared.holds, opened, rfl, prepared.settled, prepared.pending _ rfl⟩, ?_⟩
  intro found seeded
  cases taken with
  | some hash =>
    cases seeded
    rfl
  | none =>
    have zero : len = 0 := by
      by_contra nonzero
      simp [seedHash, nonzero] at seeded
    simp only [seedHash, zero, if_true, Option.none_or] at seeded
    cases seeded
    exact empty zero

theorem Prepared.take_allowed
    (prepared : Prepared faultless key mutex (.ok (.ready node len)) notes) :
    (discipline env faultless).allowed notes (.uploads (.take mutex)) := by
  refine ⟨key, prepared.holds, ?_⟩
  rw [(prepared.ready node len rfl).1]
  rfl

theorem obeys_appendReady (current limit : Nat) (body : UploadBody) (expectedOffset : Option Nat)
    (prepared : Prepared faultless key mutex (.ok (.ready node current)) notes) :
    Obeys env faultless (appendReady mutex node current body expectedOffset limit) notes
      fun _ => Settled faultless key mutex := by
  unfold appendReady
  split
  · exact prepared.balanced
  refine .act prepared.take_allowed fun taken _ => ?_
  obtain ⟨writing, tracks⟩ := prepared.take taken
  refine (obeys_appendInner current limit body false writing tracks).bind
    fun result reached appended => ?_
  rcases result with error | deferred
  · exact appended.1.balanced
  obtain ⟨_, covered⟩ := appended.2 deferred rfl
  have opened : reached.node.isSome = true := by
    rw [appended.1.open_]
    rfl
  refine .act ⟨key, appended.1.holds, appended.1.taken, opened, appended.1.pending, covered⟩
    fun _ _ => { appended.1.balanced with }

theorem obeys_finishReady (current maxSize limit : Nat) (trailing : UploadBody)
    (prepared : Prepared faultless key mutex (.ok (.ready node current)) notes) :
    Obeys env faultless (finishReady env key blob mutex node current maxSize trailing limit) notes
      fun _ => Settled faultless key mutex := by
  refine .act prepared.take_allowed fun taken _ => ?_
  obtain ⟨writing, tracks⟩ := prepared.take taken
  refine (obeys_appendInner current limit trailing true writing tracks).bind
    fun result reached appended => ?_
  rcases result with error | deferred
  · exact appended.1.balanced
  obtain ⟨rfl, covered⟩ := appended.2 deferred rfl
  dsimp only
  split
  · exact (obeys_discardSession appended.1.holds appended.1.pending
      fun _ => appended.1.settled).bind fun _ last done => done.settled
  · exact obeys_verifyAndLand appended.1 covered

theorem obeys_withSession {body : Nat → Call (Except StorageError Result)}
    (obeys : ∀ mutex, Obeys env faultless (body mutex) (Notes.locked key mutex)
      fun _ => Settled faultless key mutex) :
    ObeysStill env faultless (withSession key body) {} := by
  unfold withSession
  split
  · exact rfl
  refine .act rfl fun mutex _ => .act ⟨key, rfl⟩ fun _ _ =>
    (obeys mutex).bind fun result reached settled => ?_
  exact .act ⟨⟨key, settled.holds⟩, settled.settled⟩ fun _ _ => .act trivial fun _ _ => rfl

theorem obeys_beginUpload (repo : RepositoryName) :
    ObeysStill env faultless (beginUpload env repo) {} := by
  refine .act trivial fun drawn _ => ?_
  split
  · exact rfl
  refine .act rfl fun begun _ => ?_
  cases begun with
  | error error => exact rfl
  | ok done => exact .act rfl fun _ _ => rfl

theorem obeys_appendUpload (key : SessionKey) (body : UploadBody) (expectedOffset : Option Nat)
    (limit : Nat) :
    ObeysStill env faultless (appendUpload key body expectedOffset limit) {} := by
  refine obeys_withSession fun mutex => ?_
  refine (obeys_prepareSession key mutex).bind fun result reached prepared => ?_
  have settled : Settled faultless key mutex reached := prepared.balanced
  split
  · exact settled
  · exact .act trivial fun _ _ => settled
  · exact settled
  · exact obeys_appendReady _ limit body expectedOffset prepared

theorem obeys_finishUpload (key : SessionKey) (digest : Digest) (maxSize : Nat)
    (trailing : UploadBody) (limit : Nat) :
    ObeysStill env faultless (finishUpload env key digest maxSize trailing limit) {} := by
  refine obeys_withSession fun mutex => ?_
  refine (obeys_prepareSession key mutex).bind fun result reached prepared => ?_
  have settled : Settled faultless key mutex reached := prepared.balanced
  split
  · exact settled
  · exact .act trivial fun _ _ => settled
  · exact (obeys_discardSession prepared.holds (prepared.pending _ rfl)
      fun _ => prepared.settled).bind fun _ last done => done.settled
  · exact obeys_finishReady _ maxSize limit trailing prepared

theorem obeys_uploadSize (key : SessionKey) : ObeysStill env faultless (uploadSize key) {} := by
  refine .act trivial fun pending _ => ?_
  split
  · exact rfl
  split
  · exact rfl
  refine obeys_quiet_bind (performs_runBlocking (performs_act.mpr trivial) trivial) fun found => ?_
  split <;> exact rfl

theorem obeys_abortUpload (key : SessionKey) : ObeysStill env faultless (abortUpload key) {} := by
  unfold abortUpload
  split
  · exact rfl
  refine .act rfl fun mutex _ => .act ⟨key, rfl⟩ fun _ _ =>
    .act ⟨⟨mutex, rfl, rfl⟩, fun _ => rfl⟩ fun taken _ => ?_
  have owing := @Notes.Holds.takePending key mutex (Notes.locked key mutex) ⟨rfl, rfl⟩ taken
    fun _ => rfl
  refine (obeys_endPendingOr owing).bind fun result reached ended => ?_
  cases result with
  | error error =>
    exact .act ⟨⟨key, ended.holds⟩, ended.settled.settled⟩ fun _ _ =>
      .act trivial fun _ _ => rfl
  | ok removed =>
    refine (obeys_endIf ended).bind fun _ last done => ?_
    exact .act ⟨⟨key, done.holds⟩, done.settled.settled⟩ fun _ _ =>
      .act trivial fun _ _ => .act trivial fun _ _ => rfl

/-! ## Sweeps of sessions -/

theorem obeys_giveBack (owing : notes.Owing key mutex false) :
    Obeys env faultless (do
      act (.uploads (.unlock mutex))
      act (.uploads (.remove key))
      act (.uploads (.forget mutex))) notes fun _ reached => reached = {} :=
  .act ⟨⟨key, owing.holds⟩, owing.settled.settled⟩ fun _ _ =>
    .act trivial fun _ _ => ⟨trivial, fun _ _ => rfl⟩

theorem obeys_sweepExpired (key : SessionKey) : ObeysStill env faultless (sweepExpired key) {} := by
  unfold sweepExpired
  split
  · exact rfl
  refine .act rfl fun mutex _ => .act ⟨key, rfl⟩ fun locked _ => ?_
  rcases locked with _ | _
  · exact ⟨trivial, fun _ _ => rfl⟩
  refine .act ⟨⟨mutex, rfl, rfl⟩, fun _ => rfl⟩ fun taken _ => ?_
  have owing := @Notes.Holds.takePending key mutex (Notes.locked key mutex) ⟨rfl, rfl⟩ taken
    fun _ => rfl
  exact (obeys_endIf owing).bind fun _ _ ended => obeys_giveBack ended

theorem quiet_stillStale (key : SessionKey) : (stillStale key).Performs Quiet := by
  refine (performs_runBlocking (performs_act.mpr trivial) trivial).bind fun found => ?_
  split
  · exact performs_act.mpr trivial
  · exact performs_pure

theorem obeys_unlinkStale (stale : Bool) (owing : notes.Owing key mutex false) :
    Obeys env faultless (unlinkStale key stale) notes
      fun _ reached => reached.Owing key mutex false := by
  cases stale with
  | false => exact owing
  | true => exact (obeys_unlinkStaging owing).bind fun _ _ ended => obeys_endIf ended

theorem obeys_sweepStale (key : SessionKey) : ObeysStill env faultless (sweepStale key) {} := by
  unfold sweepStale
  split
  · exact rfl
  refine .act rfl fun mutex _ => .act ⟨key, rfl⟩ fun locked _ => ?_
  cases locked with
  | false => exact ⟨trivial, fun _ _ => rfl⟩
  | true =>
    refine obeys_quiet_bind (quiet_stillStale key) fun stale => ?_
    have owing : (Notes.locked key mutex).Owing key mutex false := ⟨⟨rfl, rfl⟩, rfl, nofun⟩
    exact (obeys_unlinkStale stale owing).bind fun _ _ ended => obeys_giveBack ended

theorem obeys_forEach {Item : Type} {body : Item → Call Unit}
    (obeys : ∀ item, ObeysStill env faultless (body item) {})
    (items : List Item) :
    ObeysStill env faultless (forEach body items) {} := by
  induction items with
  | nil => exact rfl
  | cons item rest ih =>
    exact (obeys item).bind fun _ _ same => same ▸ ih

theorem obeys_sweepStaleUploads : ObeysStill env faultless sweepStaleUploads {} := by
  refine obeys_quiet_bind (performs_runBlocking (performs_act.mpr trivial) trivial) fun stale => ?_
  refine .act trivial fun expired _ => ?_
  refine (obeys_forEach obeys_sweepExpired expired).bind fun _ reached same => ?_
  rw [same]
  exact obeys_forEach obeys_sweepStale stale

theorem obeys_sweepAt (now : Nat) : ObeysStill env faultless (sweepAt now) {} := by
  refine .act trivial fun ready _ => ?_
  split
  · refine .act trivial fun due _ => (obeys_sweepBatches now _).bind fun _ reached same => ?_
    subst same
    exact obeys_sweepStaleUploads
  · exact rfl

/-! ## All calls -/

theorem obeys_answering {call : Call (Except StorageError Result)} {answer : Result → Answer}
    {post : Notes → Prop} (obeys : Obeys env faultless call {} fun _ reached => post reached) :
    Obeys env faultless (answering call answer) {} fun _ reached => post reached :=
  obeys.bind fun _ _ met => met

theorem obeys_concluding {call : Call Unit} (obeys : ObeysStill env faultless call {}) :
    Obeys env faultless (concluding call) {} fun _ reached => Notes.SameSession {} reached :=
  obeys.bind fun _ _ same => same ▸ rfl

theorem obeys_fresh {program : Call Result} (obeys : ObeysStill env faultless program {}) :
    Obeys env faultless program {} fun _ reached => Notes.SameSession {} reached :=
  obeys.weaken fun _ _ same => same ▸ rfl

/-- Every call keeps to the rules and in the end holds no session. -/
theorem obeys_code (request : Request) :
    Obeys env faultless (code env request) {} fun _ reached => Notes.SameSession {} reached := by
  cases request with
  | beginUpload repo => exact obeys_answering (obeys_fresh (obeys_beginUpload repo))
  | appendUpload key body expectedOffset limit =>
    exact obeys_answering (obeys_fresh (obeys_appendUpload key body expectedOffset limit))
  | uploadSize key => exact obeys_answering (obeys_fresh (obeys_uploadSize key))
  | finishUpload key digest maxSize trailing limit =>
    exact obeys_answering (obeys_fresh (obeys_finishUpload key digest maxSize trailing limit))
  | abortUpload key => exact obeys_answering (obeys_fresh (obeys_abortUpload key))
  | putBlob key data => exact obeys_answering (obeys_putBlob key data)
  | deleteBlob key => exact obeys_answering (obeys_fresh (obeys_deleteBlob key))
  | putManifest tag key mediaType data links =>
    exact obeys_answering (obeys_putManifest tag key mediaType data links)
  | getManifest key => exact obeys_answering (obeys_getManifest key rfl)
  | readBlob key => exact obeys_answering (obeys_readBlob key rfl)
  | deleteManifest key => exact obeys_answering (obeys_deleteManifest key rfl)
  | mountBlob fromRepo toRepo digest =>
    exact obeys_answering (obeys_mountBlob fromRepo toRepo digest)
  | blobExists key => exact obeys_answering (obeys_quiet_after (.refl _) (quiet_lookups key).2)
  | sweepAt now => exact obeys_concluding (obeys_sweepAt now)
  | sweepStaleUploads => exact obeys_concluding obeys_sweepStaleUploads
  | gcConsistencyCheck findings =>
    exact obeys_concluding (obeys_quiet (quiet_gcConsistencyCheck findings))

end

end Roci.Filesystem
