import Roci.Filesystem.Calls

/-!
# The files a call on an upload session works on

The parts of a call that holds a session name the staging file of the session,
and those that land a blob the blob, the marker of its repository and a blob of
the same digest elsewhere.
-/

namespace Roci.Filesystem

open Roci.Core Roci.Library Roci.Storage Roci.Metadata
open Program (performs_act performs_pure)

/-- System calls of a call on a session that lands a blob, if any. -/
def DiskAction.Near (session : SessionKey) (blob : Option BlobKey) : DiskAction → Prop
  | .create path => path = session.path
  | .stat path =>
    path = session.path ∨ ∃ key ∈ blob, path = key.path ∨ path = markerPath key.repo
  | .inode path => path = session.path
  | .openFile path =>
    path = session.path ∨ ∃ key ∈ blob, ∃ source : BlobKey, source.digest = key.digest ∧
      path = source.path
  | .unlink path => path = session.path
  | .rename source target => source = session.path ∧ ∃ key ∈ blob, target = key.path
  | .publish path _ => ∃ key ∈ blob, path = markerPath key.repo
  | .link _ path _ => ∃ key ∈ blob, path = key.path
  | _ => True

def Treads (session : SessionKey) (blob : Option BlobKey) : Action → Prop
  | .disk action => action.Near session blob
  | .uploads (.remove key) => key = session
  | .uploads (.take _) => True
  | .uploads _ => False
  | .sessions (.isPending key) => key = session
  | .sessions (.takePending key) => key = session
  | .sessions .endSession => True
  | .sessions (.isStale key) => key = session
  | .sessions _ => False
  | .listBlobs => False
  | _ => True

/-! ## Bytes -/

section

variable {kind : Action → Prop} {node : Nat} {Result : Type}

theorem performs_runBlocking {job : Call Result} (performs : job.Performs kind)
    (resumes : kind .resume) : (runBlocking job).Performs kind :=
  performs.bind fun _ => .act_bind resumes fun _ => performs_pure

theorem performs_forEach {Item : Type} {body : Item → Call Unit}
    (performs : ∀ item, (body item).Performs kind) (items : List Item) :
    (forEach body items).Performs kind := by
  induction items with
  | nil => exact performs_pure
  | cons item rest ih => exact (performs item).bind fun _ => ih

theorem performs_endIf (ends : kind (.sessions .endSession)) (ended : Bool) :
    (endIf ended).Performs kind := by
  cases ended with
  | true => exact performs_act.mpr ends
  | false => exact performs_pure

section

variable (writes : ∀ data, kind (.disk (.write node data)))

include writes

theorem performs_writeHashed (resumes : kind .resume) (progress : Progress) (batch : Bytes) :
    (writeHashed node progress batch).Performs kind := by
  refine (performs_runBlocking (performs_act.mpr (writes batch)) resumes).bind fun written => ?_
  split <;> exact performs_pure

theorem performs_writeBatches
    (resumes : kind .resume) (progress : Progress) (batches : List Bytes) :
    (writeBatches node progress batches).Performs kind := by
  induction batches generalizing progress with
  | nil => exact performs_pure
  | cons batch rest ih =>
    refine (performs_writeHashed writes resumes progress batch).bind fun written => ?_
    split
    · exact performs_pure
    · exact ih _

theorem performs_takeBody
    (resumes : kind .resume) (waits : kind .nextChunk) (limit : Nat) (deferTail : Bool)
    (progress : Progress) (body : UploadBody) :
    (takeBody node limit deferTail progress body).Performs kind := by
  induction body generalizing progress with
  | nil =>
    refine .act_bind waits fun _ => ?_
    unfold takeTail
    split
    · exact performs_writeHashed writes resumes progress _
    · exact performs_pure
  | cons chunk rest ih =>
    rcases chunk with error | chunk
    · exact .act_bind waits fun _ => performs_pure
    refine .act_bind waits fun _ => .bind ?_ fun taken => ?_
    · dsimp only [takeChunk]
      split
      · exact performs_pure
      exact (performs_writeBatches writes resumes progress _).bind fun _ => performs_pure
    split
    · exact performs_pure
    · exact ih _

theorem performs_appendInner
    (cuts : ∀ length, kind (.disk (.setLen node length))) (resumes : kind .resume)
    (waits : kind .nextChunk) (start : Nat) (body : UploadBody) (limit : Nat)
    (hash : Option StagedHash) (deferTail : Bool) :
    (appendInner node start body limit hash deferTail).Performs kind := by
  refine (performs_takeBody writes resumes waits _ _ _ _).bind fun taken => ?_
  split
  · exact performs_pure
  refine (performs_runBlocking (performs_act.mpr (cuts start)) resumes).bind fun cut => ?_
  split <;> exact performs_pure

end

theorem performs_writeTail (deferred : Deferred)
    (writes : kind (.disk (.write deferred.node deferred.tail)))
    (cuts : kind (.disk (.setLen deferred.node deferred.tailAt))) :
    (writeTail deferred).Performs kind := by
  unfold writeTail
  split
  · exact performs_pure
  refine .act_bind writes fun written => ?_
  split
  · exact .act_bind cuts fun _ => performs_pure
  · exact performs_pure

theorem performs_syncDirectory (syncs : kind (.disk .sync)) (wanted : Bool) :
    (syncDirectory wanted).Performs kind := by
  cases wanted with
  | false => exact performs_pure
  | true => exact performs_act.mpr syncs

theorem performs_checkRegular {path : Path} (looks : kind (.disk (.stat path))) :
    (checkRegular path).Performs kind := by
  refine .act_bind looks fun found => ?_
  split <;> exact performs_pure

theorem performs_concludeLink {target : Path} (looks : kind (.disk (.stat target)))
    (syncs : kind (.disk .sync)) (sync : Bool) (outcome : Promotion × Bool) :
    (concludeLink target sync outcome).Performs kind := by
  unfold concludeLink
  split
  · exact (performs_syncDirectory syncs sync).bind fun _ => performs_pure
  · refine (performs_checkRegular looks).bind fun checked => ?_
    split
    · exact performs_pure
    · exact (performs_syncDirectory syncs sync).bind fun _ => performs_pure
  · exact (performs_checkRegular looks).bind fun _ => performs_pure

theorem performs_mountPromote {source target : Path} (allowCopy sync : Bool)
    (opens : kind (.disk (.openFile source))) (looks : kind (.disk (.stat target)))
    (links : ∀ node, kind (.disk (.link node target allowCopy))) (syncs : kind (.disk .sync)) :
    (mountPromote source target allowCopy sync).Performs kind := by
  refine .act_bind opens fun opened => ?_
  split
  · exact performs_pure
  refine .act_bind looks fun found => ?_
  split
  · exact performs_pure
  · exact performs_pure
  · exact performs_pure
  refine .act_bind (links _) fun linked => ?_
  split
  · exact performs_pure
  · exact performs_concludeLink looks syncs sync _

theorem performs_dedupeLinkAt (env : Env) (blob : BlobKey) (locates : kind (.memory (.locate blob)))
    (opens : ∀ source, kind (.disk (.openFile (BlobKey.path ⟨source, blob.digest⟩))))
    (looks : kind (.disk (.stat blob.path)))
    (links : ∀ node, kind (.disk (.link node blob.path false))) (syncs : kind (.disk .sync)) :
    (dedupeLinkAt env blob).Performs kind := by
  refine .act_bind locates fun located => ?_
  cases located with
  | none => exact performs_pure
  | some source =>
    exact (performs_mountPromote false env.commit (opens source) looks links syncs).bind
      fun _ => performs_pure

theorem performs_ensureMarker (repo : RepositoryName)
    (looks : kind (.disk (.stat (markerPath repo))))
    (publishes : kind (.disk (.publish (markerPath repo) ociLayoutMarker)))
    (syncs : kind (.disk .sync)) : (ensureMarker repo).Performs kind := by
  have layout : (ensureLayoutBeneath repo).Performs kind := by
    refine .act_bind looks fun found => ?_
    split
    · exact performs_pure
    · exact performs_pure
    · exact performs_pure
    refine .act_bind publishes fun published => ?_
    split
    · exact performs_pure
    · exact (performs_syncDirectory syncs _).bind fun _ => performs_pure
    · exact (performs_checkRegular looks).bind fun _ => performs_pure
  refine layout.bind fun created => ?_
  split
  · exact performs_pure
  · exact performs_syncDirectory syncs _

theorem performs_admitAbsent (env : Env) (blob : BlobKey) (size : Nat)
    (finds : kind (.disk (.stat blob.path)))
    (charges : kind (.quota (.admitBytes env.limits blob.repo size))) :
    (admitAbsent env blob size).Performs kind := by
  refine .act_bind finds fun found => ?_
  split
  · exact performs_pure
  · exact performs_pure
  · exact .act_bind charges fun _ => performs_pure

theorem performs_layoutAndAdmit (env : Env) (blob : BlobKey) (size : Nat)
    (looks : kind (.disk (.stat (markerPath blob.repo))))
    (publishes : kind (.disk (.publish (markerPath blob.repo) ociLayoutMarker)))
    (syncs : kind (.disk .sync)) (finds : kind (.disk (.stat blob.path)))
    (charges : kind (.quota (.admitBytes env.limits blob.repo size))) :
    (layoutAndAdmit env blob size).Performs kind := by
  refine (performs_ensureMarker blob.repo looks publishes syncs).bind fun ensured => ?_
  split
  · exact performs_pure
  split
  · exact performs_admitAbsent env blob size finds charges
  · exact performs_pure

def Bookkeeping : Action → Prop
  | .quota _ => True
  | .collector _ => True
  | .memory _ => True
  | .metadata _ => True
  | _ => False

theorem bookkeeping_blobEntered (blob : BlobKey) (checksum : Option BlobChecksum) :
    (blobEntered blob checksum).Performs Bookkeeping := by
  refine .act_bind trivial fun _ => .act_bind trivial fun _ => .bind ?_ fun _ => ?_
  · cases checksum with
    | none => exact performs_pure
    | some found =>
      refine .act_bind trivial fun recorded => ?_
      split
      · exact .act_bind trivial fun _ => performs_pure
      · exact performs_pure
  refine .act_bind trivial fun manifests => ?_
  split
  · refine .act_bind trivial fun mediaType => ?_
    split
    · exact .act_bind trivial fun _ => performs_act.mpr trivial
    · exact performs_pure
  · exact performs_pure

end

/-! ## Sessions -/

section

variable {env : Env} {session : SessionKey} {blob : Option BlobKey} {key : BlobKey} {node : Nat}

theorem Bookkeeping.treads {action : Action} (bookkeeping : Bookkeeping action) :
    Treads session blob action := by
  cases action <;> first | exact bookkeeping.elim | exact trivial

theorem performs_prepareSession {kind : Action → Prop}
    (asks : kind (.sessions (.isPending session))) (makes : kind (.disk (.create session.path)))
    (looks : kind (.disk (.stat session.path))) (opens : kind (.disk (.openFile session.path)))
    (measures : ∀ node, kind (.disk (.fstat node))) (resumes : kind .resume)
    (settles : kind (.sessions (.takePending session))) :
    (prepareSession session).Performs kind := by
  refine .act_bind asks fun create => .bind (performs_runBlocking ?_ resumes) fun staging => ?_
  · cases create with
    | true =>
      refine .act_bind makes fun made => ?_
      split
      · exact performs_pure
      refine .act_bind (measures _) fun length => ?_
      split <;> exact performs_pure
    | false =>
      refine .act_bind looks fun found => ?_
      split
      · exact performs_pure
      · exact performs_pure
      · exact performs_pure
      refine .act_bind opens fun opened => ?_
      split
      · exact performs_pure
      refine .act_bind (measures _) fun length => ?_
      split <;> exact performs_pure
  · split
    · exact performs_pure
    refine .bind ?_ fun _ => performs_pure
    cases create with
    | true => exact .act_bind settles fun _ => performs_pure
    | false => exact performs_pure

theorem treads_prepareSession : (prepareSession session).Performs (Treads session blob) :=
  performs_prepareSession (by rfl) (by rfl) (.inl rfl) (.inl rfl) (fun _ => trivial) trivial
    (by rfl)

theorem treads_endPendingOr (taken : Bool) :
    (endPendingOr session taken).Performs (Treads session blob) := by
  unfold endPendingOr
  split
  · exact performs_pure
  refine .bind (performs_runBlocking (performs_act.mpr (by rfl)) trivial) fun unlinked => ?_
  split <;> exact performs_pure

theorem treads_discardSession : (discardSession session).Performs (Treads session blob) :=
  .act_bind (by rfl) fun taken => (treads_endPendingOr taken).bind fun _ =>
    (performs_endIf trivial _).bind fun _ => performs_act.mpr (by rfl)

theorem treads_renameBeneath (sync : Bool) :
    (renameBeneath session.path key.path node sync).Performs (Treads session (some key)) := by
  refine .act_bind (by rfl) fun found => ?_
  split
  · exact performs_pure
  split
  · exact performs_pure
  refine .act_bind ⟨rfl, key, rfl, rfl⟩ fun moved => ?_
  split
  · exact performs_pure
  · exact performs_syncDirectory trivial _
  · exact performs_checkRegular (.inr ⟨key, rfl, .inl rfl⟩)

theorem treads_placeStaged :
    (placeStaged env session key node).Performs (Treads session (some key)) := by
  refine .bind (performs_dedupeLinkAt env key trivial (fun source => ?_)
    (.inr ⟨key, rfl, .inl rfl⟩) (fun _ => ⟨key, rfl, rfl⟩) trivial) fun linked => ?_
  · exact .inr ⟨key, rfl, ⟨source, key.digest⟩, rfl, rfl⟩
  split
  · exact performs_act.mpr (by rfl)
  · exact treads_renameBeneath _

theorem treads_landVerified (size : Nat) (checksum : Option UInt32) :
    (landVerified env session key size node checksum).Performs (Treads session (some key)) := by
  refine .bind (performs_layoutAndAdmit env key size (.inr ⟨key, rfl, .inr rfl⟩) ⟨key, rfl, rfl⟩
    trivial (.inr ⟨key, rfl, .inl rfl⟩) trivial) fun admitted => ?_
  split
  · exact performs_pure
  refine treads_placeStaged.bind fun placed => ?_
  split <;> exact performs_pure

theorem treads_landBlob (size : Nat) (deferred : Option Deferred) :
    (landBlob env session key size node deferred).Performs (Treads session (some key)) := by
  rcases deferred with _ | deferred
  · exact treads_landVerified size none
  refine (performs_writeTail deferred trivial trivial).bind fun written => ?_
  split
  · exact performs_pure
  · exact performs_pure
  dsimp only
  split
  · exact performs_pure
  · exact treads_landVerified size _

theorem treads_finishVerify (algorithm : String) (deferred : Deferred) (covers : Bool) :
    (finishVerify env session algorithm deferred covers).Performs (Treads session blob) := by
  refine (performs_writeTail deferred trivial trivial).bind fun hash => ?_
  split
  · exact performs_pure
  refine .act_bind (.inl rfl) fun opened => ?_
  split
  · exact performs_pure
  refine (performs_syncDirectory trivial _).bind fun synced => ?_
  split
  · exact performs_pure
  split
  · exact performs_pure
  refine .act_bind trivial fun read => ?_
  split <;> exact performs_pure

theorem treads_finishLand (size : Nat) (deferred : Option Deferred) (verified : Option Verified) :
    (finishLand env session key size node deferred verified).Performs
      (Treads session (some key)) := by
  refine .act_bind trivial fun lock => .act_bind trivial fun _ => .act_bind trivial fun _ =>
    .bind (performs_runBlocking (treads_landBlob size deferred) trivial) fun landed => ?_
  cases landed with
  | done checksum =>
    exact .act_bind trivial fun _ => .act_bind (by rfl) fun _ =>
      ((bookkeeping_blobEntered key _).weaken fun _ => Bookkeeping.treads).bind fun _ =>
        .act_bind trivial fun _ => .act_bind trivial fun _ => .act_bind trivial fun _ =>
          .act_bind trivial fun _ => performs_pure
  | failed charged error =>
    exact .act_bind trivial fun _ => .act_bind trivial fun _ => .act_bind trivial fun _ =>
      .act_bind trivial fun _ => .act_bind trivial fun _ => performs_pure
  | _ =>
    exact .act_bind trivial fun _ => .act_bind trivial fun _ => .act_bind trivial fun _ =>
      treads_discardSession.bind fun _ => .act_bind trivial fun _ => performs_pure

theorem treads_verifyAndLand (deferred : Deferred) :
    (verifyAndLand env session key node deferred).Performs (Treads session (some key)) := by
  dsimp only [verifyAndLand]
  split
  · exact treads_finishLand _ _ _
  refine (performs_runBlocking (treads_finishVerify _ _ _) trivial).bind fun verified => ?_
  split
  · exact performs_pure
  split
  · exact treads_discardSession.bind fun _ => performs_pure
  · exact treads_finishLand _ _ _

theorem treads_finishReady (mutex current maxSize : Nat) (trailing : UploadBody) (limit : Nat) :
    (finishReady env session key mutex node current maxSize trailing limit).Performs
      (Treads session (some key)) := by
  refine .act_bind trivial fun taken => .bind (performs_appendInner (fun _ => trivial)
    (fun _ => trivial) trivial trivial _ _ _ _ _) fun appended => ?_
  split
  · exact performs_pure
  split
  · exact treads_discardSession.bind fun _ => performs_pure
  · exact treads_verifyAndLand _

end

end Roci.Filesystem
