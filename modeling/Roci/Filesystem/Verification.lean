import Roci.Filesystem.Kept

/-!
# Uploads are verified exactly

Whatever appends, aborts and finishes came before, each of which may have failed
at any step, `finish_upload` lands a blob only if the bytes in the staging file
followed by the body of the call have the expected digest; when nothing fails it
lands it exactly then.
-/

namespace Roci.Filesystem

open Roci.Library Roci.Storage
open Program (performs_act performs_pure)

inductive Readied (key : SessionKey) (staged : Option Bytes) (faultless : Bool) :
    Except StorageError Staging → World → Prop where
  | ready {world : World} {node : Nat} {bytes : Bytes} (found : staged = some bytes)
      (holding : Holding key node bytes world) :
      Readied key staged faultless (.ok (.ready node bytes.length)) world
  | failed {world : World} {result : Except StorageError Staging}
      (unready : ∀ node len, result ≠ .ok (.ready node len))
      (excused : faultless = true → staged = none) :
      Readied key staged faultless result world

section

variable {env : Env} {key : SessionKey} {faultless : Bool} {world next : World} {scene : Scene}
  {mutex : Nat} {value : Option StagedHash} {node : Nat} {bytes : Bytes}

theorem LeftAlone.staged (left : LeftAlone key world next) :
    next.staged key = world.staged key := by
  rw [World.staged, World.staged, left.pending, left.file, left.bytes]

theorem staged_of_pending (pending : world.sessions.pending key = true) :
    world.staged key = if (world.disk.files key.path).isNone then some [] else none :=
  if_pos pending

theorem staged_of_settled (settled : world.sessions.pending key = false) :
    world.staged key = world.disk.bytesAt key.path := by
  rw [World.staged, settled]
  rfl

theorem path_ne_own_marker (key : SessionKey) : key.path ≠ markerPath key.repo := by
  intro same
  have lengths := congrArg List.length same
  simp [SessionKey.path, markerPath] at lengths

theorem elsewise_stat (key : SessionKey) : Elsewise key.repo (.disk (.stat key.path)) :=
  decide_eq_false (path_ne_own_marker key)

theorem stays_stat (holding : Holding key node bytes world) :
    Stays env key faultless key.repo (act (.disk (.stat key.path))) world
      (Unless faultless fun found reached =>
        found = some (true, bytes.length) ∧ Holding key node bytes reached) := by
  refine .act (elsewise_stat key) fun scene middle response performed sound => ?_
  obtain ⟨held, between, beside, performed, after, outcome⟩ := holding.look rfl rfl performed
  cases response with
  | ok found =>
    refine .done ⟨?_, held⟩
    rw [outcome.1, beside.file, ← beside.content]
    rfl
  | error error =>
    refine .failed (eq_false_of_fault (fun clean => ?_) sound)
    exact nomatch (alone_stat performed clean).2

theorem stays_fstat (holding : Holding key node bytes world) :
    Stays env key faultless key.repo (act (.disk (.fstat node))) world
      (Unless faultless fun found reached =>
        found = bytes.length ∧ Holding key node bytes reached) := by
  refine .act rfl fun scene middle response performed sound => ?_
  obtain ⟨held, between, beside, performed, after, outcome⟩ := holding.look rfl rfl performed
  cases response with
  | ok found => exact .done ⟨outcome.1.trans (congrArg _ beside.content), held⟩
  | error error =>
    refine .failed (eq_false_of_fault (fun clean => ?_) sound)
    exact nomatch (alone_act performed clean).2

variable {staged : Option Bytes}

theorem Readied.of_fault (error : StorageError) (fault : faultless = false) :
    Readied key staged faultless (.error error) world :=
  .failed nofun fun sound => nomatch fault.symm.trans sound

theorem stays_openStaging (settled : world.sessions.pending key = false)
    (bounded : ∀ node, world.disk.files key.path = some (.regular node) →
      node < world.disk.nodes.length) :
    Stays env key faultless key.repo (prepareStaging key false) world
      (Readied key (world.disk.bytesAt key.path) faultless) := by
  cases known : world.disk.bytesAt key.path with
  | none =>
    refine .act_bind (elsewise_stat key) fun scene middle found performed _ => ?_
    obtain ⟨between, left, performed⟩ := amid_eq_some performed
    have unknown := left.bytes.trans known
    obtain ⟨after, _, outcome⟩ := perform_disk performed
    have failed : ∀ result : Except StorageError Staging,
        (∀ node len, result ≠ .ok (.ready node len)) →
        Stays env key faultless key.repo (pure result) middle (Readied key none faultless) :=
      fun result unready => .pure (.failed unready fun _ => rfl)
    rcases found with error | _ | ⟨_ | _, size⟩
    · exact failed _ nofun
    · exact failed _ nofun
    · exact failed _ nofun
    -- only a regular file is seen as one
    obtain ⟨entry, named, described⟩ := Option.map_eq_some_iff.mp outcome.1.symm
    cases entry with
    | other => cases described
    | regular node =>
      have present := Disk.bytesAt_eq_some.mpr ⟨node, named, rfl⟩
      exact nomatch unknown.symm.trans present
  | some bytes =>
    obtain ⟨node, named, content⟩ := Disk.bytesAt_eq_some.mp known
    have holding : Holding key node bytes world := ⟨settled, named, bounded node named, content⟩
    refine (stays_stat holding).bind fun found reached outcome => ?_
    cases outcome with
    | failed fault => exact .pure (.of_fault _ fault)
    | done seen =>
      obtain ⟨rfl, holding⟩ := seen
      refine (stays_openFile holding).bind fun opened reached outcome => ?_
      cases outcome with
      | failed fault => exact .pure (.of_fault _ fault)
      | done opened =>
        obtain ⟨rfl, holding⟩ := opened
        refine (stays_fstat holding).bind fun length reached outcome => ?_
        cases outcome with
        | failed fault => exact .pure (.of_fault _ fault)
        | done measured =>
          obtain ⟨rfl, holding⟩ := measured
          exact .pure (.ready rfl holding)

theorem stays_createStaging (pending : world.sessions.pending key = true) :
    Stays env key faultless key.repo (prepareStaging key true) world fun result reached =>
      (∃ node, result = .ok (.ready node 0) ∧ world.staged key = some [] ∧
          Filed key node [] reached) ∨
        (∃ error, result = .error error) ∧ (faultless = true → world.staged key = none) := by
  rw [staged_of_pending pending]
  refine .act_bind rfl fun scene middle made performed sound => ?_
  obtain ⟨between, left, performed⟩ := amid_eq_some performed
  rw [← left.file]
  cases made with
  | error error =>
    refine .pure (.inr ⟨⟨error, rfl⟩, fun faulty => ?_⟩)
    have answer := (alone_act performed (sound faulty)).2
    cases named : between.disk.files key.path with
    | none => simp [Disk.act, named] at answer
    | some entry => rfl
  | ok node =>
    obtain ⟨after, rfl, absent, rfl, rfl⟩ := perform_disk performed
    have filed : Filed key between.disk.nodes.length []
        { between.tick scene.choice.clock with disk := between.disk.add key.path [] } :=
      ⟨Disk.files_add_self _ _, by simp [Disk.add], Disk.content_add_new _ _⟩
    rw [absent]
    refine .act_bind rfl fun later final length performed sound => ?_
    have filed := filed.step (by exact ⟨List.not_mem_nil, by simp [DiskAction.written]⟩) performed
    obtain ⟨_, _, performed⟩ := amid_eq_some performed
    cases length with
    | ok length => exact .pure (.inl ⟨_, rfl, rfl, filed⟩)
    | error error =>
      refine .pure (.inr ⟨⟨error, rfl⟩, fun faulty => ?_⟩)
      cases (alone_act performed (sound faulty)).2

theorem Readied.resume {result : Except StorageError Staging}
    (performed : amid env key world .resume scene = some (next, ()))
    (readied : Readied key staged faultless result world) :
    Readied key staged faultless result next := by
  cases readied with
  | ready found holding => exact .ready found (holding.step (by trivial) performed)
  | failed unready excused => exact .failed unready excused

theorem stays_prepareSession
    (bounded : ∀ node, world.disk.files key.path = some (.regular node) →
      node < world.disk.nodes.length) :
    Stays env key faultless key.repo (prepareSession key) world
      (Readied key (world.staged key) faultless) := by
  refine .act_bind rfl fun scene middle create performed _ => ?_
  obtain ⟨between, left, performed⟩ := amid_eq_some performed
  obtain ⟨same, answer⟩ := alone_isPending performed
  have staged : middle.staged key = world.staged key := by
    rw [← left.staged, same]
    rfl
  have pending : middle.sessions.pending key = create := by rw [same, answer]; rfl
  rw [← staged]
  cases create with
  | false =>
    have opened := @stays_openStaging env key faultless middle pending fun node named => by
      rw [same] at named ⊢
      exact (bounded node (left.file ▸ named)).trans_le left.nodes
    rw [staged_of_settled pending]
    refine (opened.runBlocking fun _ _ _ _ => Readied.resume).bind fun result reached readied => ?_
    cases readied with
    | ready found holding => exact .pure (.ready found holding)
    | @failed _ result unready excused =>
      cases result with
      | error error => exact .pure (.failed nofun excused)
      | ok staging => exact .pure (.failed unready excused)
  | true =>
    refine ((stays_createStaging pending).runBlocking fun result _ _ _ performed made => ?_).bind
      fun result reached made => ?_
    · rcases made with ⟨node, ready, found, filed⟩ | failed
      · exact .inl ⟨node, ready, found, filed.step (by trivial) performed⟩
      · exact .inr failed
    rcases made with ⟨node, rfl, found, filed⟩ | ⟨⟨error, rfl⟩, excused⟩
    · refine .act_bind rfl fun scene final answer performed _ => ?_
      have filed := filed.step (by trivial) performed
      obtain ⟨_, _, performed⟩ := amid_eq_some performed
      obtain ⟨rfl, _⟩ := alone_takePending performed
      exact .pure (.ready found ⟨Function.update_self _ _ _, filed⟩)
    · exact .pure (.failed nofun excused)

theorem gentle_prepareSession : (prepareSession key).Performs Gentle :=
  performs_prepareSession trivial trivial trivial trivial (fun _ => trivial) trivial trivial

theorem unlocking_prepareSession : (prepareSession key).Performs Unlocking :=
  performs_prepareSession trivial trivial trivial trivial (fun _ => trivial) trivial trivial

/-! ## The lock of the session -/

theorem Kept.beside (kept : Kept key world) (left : LeftAlone key world next) : Kept key next := by
  refine ⟨fun node named => ?_, fun mutex entry => ?_, fun mutex entry => ?_,
    fun mutex hash entry value => ?_⟩
  · exact (kept.file node (left.file ▸ named)).trans_le left.nodes
  · exact (kept.within mutex (left.entry ▸ entry)).trans_le left.mutexes
  · exact (left.mutex mutex (left.entry ▸ entry)).1.trans (kept.free mutex (left.entry ▸ entry))
  refine (kept.hash mutex hash (left.entry ▸ entry) ?_).beside left
  exact (left.mutex mutex (left.entry ▸ entry)).2.symm.trans value

/-- A call gets hold of the mutex of the session, which is free. -/
structure Got (key : SessionKey) (mutex : Nat) (staged : Option Bytes) (world : World) : Prop where
  attached : Attached (Faithful key) key mutex world
  entry : world.uploads.entries key = some mutex
  staged : world.staged key = staged

theorem Kept.get (kept : Kept key world)
    (performed : amid env key world (.uploads (.get key)) scene = some (next, mutex)) :
    Got key mutex (world.staged key) next ∧ next.uploads.holder mutex = none := by
  obtain ⟨between, left, performed⟩ := amid_eq_some performed
  have beside := kept.beside left
  obtain ⟨rfl, rfl⟩ := alone_get performed
  have found := @LockMap.entries_get_self _ _ between.uploads 0 key _ _
  have value := @LockMap.value_get _ _ between.uploads 0 (between.uploads.get 0 key).2 key _ _
  have holder := @LockMap.holder_get _ _ between.uploads 0 (between.uploads.get 0 key).2 key _ _
  have known : (between.uploads.entries key = some (between.uploads.get 0 key).2) ∨
      (between.uploads.holder (between.uploads.get 0 key).2 = none ∧
        between.uploads.value (between.uploads.get 0 key).2 = none) := by
    cases entry : between.uploads.entries key with
    | some mutex =>
      have stays := @LockMap.entries_get _ _ between.uploads 0 _ key _ _ _ entry
      exact .inl (stays.symm.trans found)
    | none =>
      have fresh : (between.uploads.get 0 key).2 = between.uploads.mutexes.length := by
        simp [LockMap.get, entry]
      refine .inr ⟨by simp [fresh, LockMap.holder], ?_⟩
      simp only [fresh, LockMap.value, List.getElem?_eq_none (Nat.le_refl _)]
      rfl
  refine ⟨⟨⟨beside.file, LockMap.get_lt beside.within, fun other entry => ?_,
    fun hash _ kept => ?_⟩, found, left.staged⟩, ?_⟩
  · exact Option.some.inj (entry.symm.trans found)
  · have old := value.symm.trans kept
    rcases known with entry | ⟨_, none⟩
    · exact beside.hash _ hash entry old
    · cases none.symm.trans old
  refine holder.trans ?_
  rcases known with entry | ⟨free, _⟩
  · exact beside.free _ entry
  · exact free

theorem Got.beside (got : Got key mutex staged world) (left : LeftAlone key world next) :
    Got key mutex staged next :=
  ⟨got.attached.beside left fun _ faithful => faithful.beside left, left.entry.trans got.entry,
    left.staged.trans got.staged⟩

theorem Got.lock (got : Got key mutex staged world)
    (performed : amid env key world (.uploads (.lock mutex)) scene = some (next, ())) :
    Got key mutex staged next := by
  refine ⟨got.attached.gentle (by trivial) performed, ?_, ?_⟩ <;>
  · obtain ⟨between, left, performed⟩ := amid_eq_some performed
    obtain ⟨uploads, changed, rfl⟩ := perform_uploads performed
    simp only [LockMap.perform] at changed
    split at changed
    · cases changed
      first | exact (got.beside left).entry | exact (got.beside left).staged
    · cases changed

variable {id : String} {Result : Type} {rule : World → StagedHash → Prop}

theorem kept_giveBack (result : Result) (attached : Attached (Faithful key) key mutex world) :
    Amidst env key faultless (act (.uploads (.unlock mutex)) >>= fun _ =>
      act (.uploads (.forget mutex)) >>= fun _ => pure result) world
      fun _ _ reached => Kept key reached := by
  refine .act_bind fun scene middle _ performed _ => ?_
  have unlocked := attached.gentle (by trivial) performed
  have free : middle.uploads.holder mutex = none := by
    obtain ⟨between, _, performed⟩ := amid_eq_some performed
    obtain ⟨uploads, changed, rfl⟩ := perform_uploads performed
    cases changed
    exact LockMap.holder_update_none _ fun _ => rfl
  refine .act_bind fun later final _ performed _ => ?_
  have forgotten := unlocked.gentle (by trivial) performed
  refine ⟨forgotten.file, fun other entry => ?_, fun other entry => ?_, fun other hash entry => ?_⟩
  · rw [forgotten.tied other entry]
    exact forgotten.within
  · obtain ⟨between, left, performed⟩ := amid_eq_some performed
    rw [forgotten.tied other entry]
    rw [forgotten.tied other entry] at entry
    obtain ⟨uploads, changed, rfl⟩ := perform_uploads performed
    cases changed
    have same := @LockMap.holder_update_same _ _ between.uploads mutex mutex
      (fun found => { found with users := found.users.erase 0 }) fun _ => rfl
    exact same.trans ((left.mutex mutex (left.entry ▸ entry)).1.trans free)
  rw [forgotten.tied other entry]
  rw [forgotten.tied other entry] at entry
  exact forgotten.hash hash entry

theorem kept_removed (result : Result) (attached : Attached rule key mutex world) :
    Amidst env key faultless (act (.uploads (.unlock mutex)) >>= fun _ =>
      act (.uploads (.remove key)) >>= fun _ =>
        act (.uploads (.forget mutex)) >>= fun _ => pure result) world
      fun _ _ reached => Kept key reached := by
  have unlocks : (act (.uploads (.unlock mutex))).Performs (Own key) := performs_act.mpr trivial
  refine (loose_of_performs unlocks attached).bind fun _ _ reached loose => ?_
  refine .act_bind fun scene middle _ performed _ => ?_
  obtain ⟨bare, gone⟩ := loose.remove performed
  refine .act_bind fun later final _ performed _ => ?_
  obtain ⟨between, left, performed⟩ := amid_eq_some performed
  have forgotten := (bare.beside left fun _ impossible => impossible).step (by trivial) performed
    fun _ impossible => impossible
  obtain ⟨uploads, changed, rfl⟩ := perform_uploads performed
  cases changed
  have absent := left.entry.trans gone
  exact ⟨forgotten.file, fun _ entry => (nomatch absent.symm.trans entry),
    fun _ entry => (nomatch absent.symm.trans entry),
    fun _ _ entry => (nomatch absent.symm.trans entry)⟩

theorem kept_withSession {body : Nat → Call (Except StorageError Result)} (kept : Kept key world)
    (leaves : ∀ mutex reached, Got key mutex (world.staged key) reached →
      Amidst env key faultless (body mutex) reached
        fun _ _ final => Attached (Faithful key) key mutex final) :
    Amidst env key faultless (withSession key body) world fun _ _ reached => Kept key reached := by
  unfold withSession
  split
  · exact kept
  refine .act_bind fun scene middle mutex performed _ => ?_
  obtain ⟨got, _⟩ := kept.get performed
  refine .act_bind fun scene later _ performed _ => ?_
  exact (leaves mutex later (got.lock performed)).bind fun _ result _ attached =>
    kept_giveBack result attached

/-! ## Every call leaves the session as it has to be -/

structure Ready (key : SessionKey) (mutex node : Nat) (bytes : Bytes) (world : World) : Prop where
  holding : Holding key node bytes world
  attached : Attached (Faithful key) key mutex world
  entry : world.uploads.entries key = some mutex

theorem Ready.guarding (ready : Ready key mutex node bytes world) :
    Guarding key mutex (world.uploads.value mutex) world :=
  ⟨ready.entry, ready.attached.within, rfl⟩

theorem Ready.right (ready : Ready key mutex node bytes world) (hash : StagedHash)
    (kept : world.uploads.value mutex = some hash) : hash.bytes = bytes := by
  have faithful := ready.attached.hash hash ready.entry kept
  exact Option.some.inj (faithful.2.symm.trans ready.holding.bytesAt)

theorem prepared (got : Got key mutex staged world) :
    Amidst env key faultless (prepareSession key) world fun deeds result reached =>
      landing key.repo deeds = false ∧ Readied key staged faultless result reached ∧
        Attached (Faithful key) key mutex reached ∧
        reached.uploads.entries key = some mutex := by
  have guarding : Guarding key mutex (world.uploads.value mutex) world :=
    ⟨got.entry, got.attached.within, rfl⟩
  have guarded : Amidst env key faultless (prepareSession key) world fun _ _ reached =>
      Guarding key mutex (world.uploads.value mutex) reached :=
    unlocking_prepareSession.keeps
      (fun _ _ _ _ _ unlocking performed guarding => guarding.step unlocking performed) guarding
  have readied := @stays_prepareSession env key faultless world got.attached.file
  rw [got.staged] at readied
  refine ((Program.Ensures.and readied (faithful_of_performs gentle_prepareSession
    got.attached)).and guarded).weaken fun deeds result reached ended => ?_
  exact ⟨ended.1.1.1, ended.1.1.2, ended.1.2, ended.2.entry⟩

theorem own_endPendingOr (taken : Bool) : (endPendingOr key taken).Performs (Own key) :=
  (@treads_endPendingOr key none taken).weaken fun _ => own_of_treads

theorem bare_discardSession (attached : Attached rule key mutex world) :
    Amidst env key faultless (discardSession key) world
      fun _ _ reached => Attached Bare key mutex reached := by
  have takes : (act (.sessions (.takePending key))).Performs (Own key) := performs_act.mpr trivial
  refine (loose_of_performs takes attached).bind fun _ taken _ loose => ?_
  refine (loose_of_performs (own_endPendingOr taken) loose).bind fun _ ended _ loose => ?_
  refine (loose_of_performs (performs_endIf trivial _) loose).bind fun _ _ _ loose => ?_
  exact fun _ _ _ performed _ => (loose.remove performed).1

theorem Attached.faithful (attached : Attached Bare key mutex world) :
    Attached (Faithful key) key mutex world :=
  attached.weaken fun _ impossible => impossible.elim

theorem kept_finishUpload (digest : Digest) (maxSize : Nat) (trailing : UploadBody) (limit : Nat)
    (kept : Kept key world) :
    Amidst env key faultless (finishUpload env key digest maxSize trailing limit) world
      fun _ _ reached => Kept key reached := by
  refine kept_withSession kept fun mutex reached got => ?_
  refine (prepared got).bind fun _ result reached ended => ?_
  obtain ⟨_, _, attached, _⟩ := ended
  rcases result with error | staging
  · exact attached
  cases staging with
  | missing =>
    exact .act_bind fun _ _ _ performed _ => (attached.remove performed).1.faithful
  | notRegular => exact (bare_discardSession attached).bind fun _ _ _ bare => bare.faithful
  | ready node current =>
    refine .act_bind fun _ middle taken performed _ => ?_
    have rest := (@treads_finishReady env key ⟨key.repo, digest⟩ node mutex current maxSize
      trailing limit).2 taken
    exact (bare_of_performs (rest.weaken fun _ => own_of_treads)
      (attached.take performed)).weaken fun _ _ _ bare => bare.faithful

theorem attached_appendReady (current limit : Nat) (body : UploadBody)
    (expectedOffset : Option Nat) (ready : Ready key mutex node bytes world)
    (length : current = bytes.length) :
    Amidst env key faultless (appendReady mutex node current body expectedOffset limit) world
      fun _ _ reached => Attached (Faithful key) key mutex reached := by
  subst length
  unfold appendReady
  split
  · exact ready.attached
  have bare : Amidst env key faultless (act (.uploads (.take mutex))) world fun _ _ reached =>
      Attached Bare key mutex reached := fun _ _ _ performed _ => ready.attached.take performed
  refine ((@stays_take env key faultless key.repo _ _ _ _ _ ready.holding
    ready.guarding).and bare).bind fun _ taken reached ended => ?_
  obtain ⟨⟨_, rfl, holding, _⟩, bare⟩ := ended
  have inner := @stays_appendInner env key faultless key.repo reached node bytes holding body
    limit (seedHash _ bytes.length) false (seedHash_right ready.right)
  refine (Program.Ensures.and inner (bare_of_performs (performs_appendInner (fun _ => trivial)
    (fun _ => trivial) trivial trivial _ _ _ _ _) bare)).bind fun _ result reached ended => ?_
  obtain ⟨⟨_, outcome⟩, bare⟩ := ended
  cases outcome with
  | failed holding excused => exact bare.faithful
  | done arrived carries immediate =>
    refine .act_bind fun _ _ _ performed _ => ?_
    exact bare.set carries.holding carries.hash performed

theorem kept_appendUpload (body : UploadBody) (expectedOffset : Option Nat) (limit : Nat)
    (kept : Kept key world) :
    Amidst env key faultless (appendUpload key body expectedOffset limit) world
      fun _ _ reached => Kept key reached := by
  refine kept_withSession kept fun mutex reached got => ?_
  refine (prepared got).bind fun _ result reached ended => ?_
  obtain ⟨_, readied, attached, entry⟩ := ended
  rcases result with error | staging
  · exact attached
  cases staging with
  | missing =>
    exact .act_bind fun _ _ _ performed _ => (attached.remove performed).1.faithful
  | notRegular => exact attached
  | ready node current =>
    cases readied with
    | ready found holding =>
      exact attached_appendReady _ limit body expectedOffset ⟨holding, attached, entry⟩ rfl
    | failed unready excused => exact absurd rfl (unready node current)

theorem attached_unlink (attached : Attached (Faithful key) key mutex world) :
    Amidst env key faultless (runBlocking (act (.disk (.unlink key.path)))) world
      fun _ result reached => Attached Loose key mutex reached ∧
        ∀ error, result = .error error → Attached (Faithful key) key mutex reached := by
  refine .act_bind fun scene middle unlinked performed _ =>
    Program.Ensures.act_bind fun later reached _ resumed _ => ?_
  obtain ⟨between, left, performed⟩ := amid_eq_some performed
  have beside := attached.beside left fun _ faithful => faithful.beside left
  have loose := beside.loose.step (by trivial) performed fun _ _ => trivial
  refine ⟨?_, ?_⟩
  · obtain ⟨between, left, resumed⟩ := amid_eq_some resumed
    exact (loose.beside left fun _ _ => trivial).step (by trivial) resumed fun _ _ => trivial
  rintro error rfl
  refine Attached.gentle ?_ (by trivial) resumed
  refine beside.step (by trivial) performed fun hash faithful => ?_
  obtain ⟨after, rfl, outcome⟩ := perform_disk performed
  rw [show after = _ from outcome]
  exact faithful

theorem attached_endPendingOr (taken : Bool) (attached : Attached (Faithful key) key mutex world) :
    Amidst env key faultless (endPendingOr key taken) world fun _ result reached =>
      Attached Loose key mutex reached ∧
        ∀ error, result = .error error → Attached (Faithful key) key mutex reached := by
  unfold endPendingOr
  split
  · exact ⟨attached.loose, nofun⟩
  refine (attached_unlink attached).bind fun _ result reached ended => ?_
  split
  · exact ⟨ended.1, nofun⟩
  · exact ⟨ended.1, nofun⟩
  · exact ⟨ended.1, fun _ _ => ended.2 _ rfl⟩

theorem kept_abortUpload (kept : Kept key world) :
    Amidst env key faultless (abortUpload key) world fun _ _ reached => Kept key reached := by
  unfold abortUpload
  split
  · exact kept
  refine .act_bind fun scene middle mutex performed _ => ?_
  obtain ⟨got, _⟩ := kept.get performed
  refine .act_bind fun scene middle _ performed _ => ?_
  have attached := (got.lock performed).attached
  refine .act_bind fun scene middle taken performed _ => ?_
  refine (attached_endPendingOr taken (attached.gentle (by trivial) performed)).bind
    fun _ result reached ended => ?_
  rcases result with error | removed
  · exact kept_giveBack _ (ended.2 error rfl)
  exact (loose_of_performs (performs_endIf trivial removed) ended.1).bind fun _ _ _ loose =>
    kept_removed _ loose

theorem tryLock_free {locked : Bool} (attached : Attached (Faithful key) key mutex world)
    (entry : world.uploads.entries key = some mutex) (free : world.uploads.holder mutex = none)
    (performed : amid env key world (.uploads (.tryLock mutex)) scene = some (next, locked)) :
    locked = true ∧ Attached (Faithful key) key mutex next := by
  refine ⟨?_, attached.gentle (by trivial) performed⟩
  obtain ⟨between, left, performed⟩ := amid_eq_some performed
  obtain ⟨uploads, changed, rfl⟩ := perform_uploads performed
  have unheld := (left.mutex mutex entry).1.trans free
  simp only [LockMap.perform, unheld] at changed
  cases changed
  rfl

theorem kept_sweepExpired (kept : Kept key world) :
    Amidst env key faultless (sweepExpired key) world fun _ _ reached => Kept key reached := by
  unfold sweepExpired
  split
  · exact kept
  refine .act_bind fun scene middle mutex performed _ => ?_
  obtain ⟨got, free⟩ := kept.get performed
  refine .act_bind fun scene middle locked performed _ => ?_
  obtain ⟨rfl, attached⟩ := tryLock_free got.attached got.entry free performed
  refine .act_bind fun scene middle taken performed _ => ?_
  exact (loose_of_performs (performs_endIf trivial taken)
    (attached.gentle (by trivial) performed)).bind fun _ _ _ loose => kept_removed () loose

theorem own_stillStale : (stillStale key).Performs (Own key) := by
  refine .bind (performs_runBlocking (performs_act.mpr trivial) trivial) fun found => ?_
  split
  · exact performs_act.mpr trivial
  · exact performs_pure

theorem own_unlinkStale (stale : Bool) : (unlinkStale key stale).Performs (Own key) := by
  cases stale with
  | false => exact performs_pure
  | true =>
    exact (performs_runBlocking (performs_act.mpr trivial) trivial).bind
      fun _ => performs_endIf trivial _

theorem kept_sweepStale (kept : Kept key world) :
    Amidst env key faultless (sweepStale key) world fun _ _ reached => Kept key reached := by
  unfold sweepStale
  split
  · exact kept
  refine .act_bind fun scene middle mutex performed _ => ?_
  obtain ⟨got, free⟩ := kept.get performed
  refine .act_bind fun scene middle locked performed _ => ?_
  obtain ⟨rfl, attached⟩ := tryLock_free got.attached got.entry free performed
  refine (loose_of_performs own_stillStale attached).bind fun _ stale _ loose => ?_
  exact (loose_of_performs (own_unlinkStale stale) loose).bind fun _ _ _ loose =>
    kept_removed () loose

def Looks : Action → Prop
  | .sessions (.isPending _) => True
  | .disk (.stat _) => True
  | .resume => True
  | _ => False

theorem Kept.look {action : Action} {response : Response action} (kept : Kept key world)
    (looks : Looks action)
    (performed : amid env key world action scene = some (next, response)) : Kept key next := by
  obtain ⟨between, left, performed⟩ := amid_eq_some performed
  have beside := kept.beside left
  have same : next.disk = between.disk ∧ next.uploads = between.uploads ∧
      next.sessions = between.sessions := by
    cases action with
    | sessions action =>
      cases action with
      | isPending asked =>
        cases performed
        exact ⟨rfl, rfl, rfl⟩
      | _ => exact looks.elim
    | disk action =>
      cases action with
      | stat path =>
        obtain ⟨after, rfl, outcome⟩ := perform_disk performed
        rcases response with error | found
        · exact ⟨outcome, rfl, rfl⟩
        · exact ⟨outcome.2, rfl, rfl⟩
      | _ => exact looks.elim
    | resume =>
      cases performed
      exact ⟨rfl, rfl, rfl⟩
    | _ => exact looks.elim
  cases next
  obtain ⟨rfl, rfl, rfl⟩ := same
  exact { beside with }

theorem kept_uploadSize (kept : Kept key world) :
    Amidst env key faultless (uploadSize key) world fun _ _ reached => Kept key reached := by
  have looks : (uploadSize key).Performs Looks := by
    refine .act_bind trivial fun pending => ?_
    split
    · exact performs_pure
    split
    · exact performs_pure
    refine (performs_runBlocking (performs_act.mpr trivial) trivial).bind fun found => ?_
    split <;> exact performs_pure
  exact looks.keeps (fun _ _ _ _ _ looks performed kept => kept.look looks performed) kept

/-! ## Histories of a session -/

/-- What is done with a session; the sweep comes to each session by itself. -/
inductive SessionCall where
  | append (body : UploadBody) (expectedOffset : Option Nat) (limit : Nat)
  | finish (digest : Digest) (maxSize : Nat) (trailing : UploadBody) (limit : Nat)
  | size
  | abort
  | expire
  | stale

def SessionCall.code (env : Env) (key : SessionKey) : SessionCall → Call Reply
  | .append body expectedOffset limit =>
    answering (appendUpload key body expectedOffset limit) .size
  | .finish digest maxSize trailing limit =>
    answering (finishUpload env key digest maxSize trailing limit) fun _ => .done
  | .size => answering (uploadSize key) .size
  | .abort => answering (abortUpload key) .flag
  | .expire => concluding (sweepExpired key)
  | .stale => concluding (sweepStale key)

/-- Calls on the session one after the other, amid others, whatever fails. -/
abbrev SessionHistory (env : Env) (key : SessionKey) (start : World)
    (turns : List (Turn SessionCall Scene)) (final : World) : Prop :=
  Reaches (serve (amid env key) (SessionCall.code env key)) (fun _ _ => True) start turns final

theorem kept_code (call : SessionCall) (kept : Kept key world) :
    Amidst env key faultless (call.code env key) world fun _ _ reached => Kept key reached := by
  cases call with
  | append body expectedOffset limit =>
    exact (kept_appendUpload body expectedOffset limit kept).bind fun _ _ _ kept => kept
  | finish digest maxSize trailing limit =>
    exact (kept_finishUpload digest maxSize trailing limit kept).bind fun _ _ _ kept => kept
  | size => exact (kept_uploadSize kept).bind fun _ _ _ kept => kept
  | abort => exact (kept_abortUpload kept).bind fun _ _ _ kept => kept
  | expire => exact (kept_sweepExpired kept).bind fun _ _ _ kept => kept
  | stale => exact (kept_sweepStale kept).bind fun _ _ _ kept => kept

/-- Run lemma. -/
theorem kept_of_history {start final : World} {turns : List (Turn SessionCall Scene)}
    (history : SessionHistory env key start turns final) (kept : Kept key start) :
    Kept key final := by
  refine history.invariant (fun world turn next _ served kept => ?_) kept
  obtain ⟨conclusion, carried, rfl⟩ := Option.map_eq_some_iff.mp served
  exact (@kept_code env key false world turn.call kept).sound carried fun _ _ faulty =>
    nomatch faulty

/-! ## The verification -/

theorem decided_finishUpload (safe : safeComponent key.id = .ok id) (digest : Digest)
    (maxSize : Nat) (trailing : UploadBody) (limit : Nat) (kept : Kept key world) :
    Amidst env key faultless (finishUpload env key digest maxSize trailing limit) world
      fun deeds answer _ => Decided env key ⟨key.repo, digest⟩ (world.staged key) trailing limit
        maxSize faultless deeds answer := by
  unfold finishUpload withSession
  rw [safe]
  refine .act_bind fun scene middle mutex performed _ => ?_
  obtain ⟨got, _⟩ := kept.get performed
  refine .act_bind fun scene later _ performed _ => ?_
  have got := got.lock performed
  suffices decided : Amidst env key faultless _ later fun deeds answer _ =>
      Decided env key ⟨key.repo, digest⟩ (world.staged key) trailing limit maxSize faultless
        deeds answer by
    refine .bind decided fun deeds result reached decided => ?_
    refine .act_bind fun _ _ _ _ _ => .act_bind fun _ _ _ _ _ => ?_
    refine decided.extend ?_ ?_
    · simp [lands]
    intro deed member
    simp [member]
  refine .bind (prepared got) fun deeds result reached ended => ?_
  obtain ⟨stayed, readied, attached, entry⟩ := ended
  suffices decided : Amidst env key faultless _ reached fun more answer _ =>
      Decided env key ⟨key.repo, digest⟩ (world.staged key) trailing limit maxSize faultless
        more answer from
    decided.weaken fun more _ _ decided => decided.extend (by simp [stayed]) (by simp)
  cases readied with
  | ready found holding =>
    rw [found]
    have ready : Ready key mutex _ _ reached := ⟨holding, attached, entry⟩
    exact decided_finishReady holding ready.guarding ready.right
  | failed unready excused =>
    -- without a staging file nothing is verified
    have missing : ∀ deeds : Deeds, landing key.repo deeds = false → ∀ error : StorageError,
        Decided env key ⟨key.repo, digest⟩ (world.staged key) trailing limit maxSize faultless
          deeds (.error error) := fun deeds stayed error =>
      .inr ⟨stayed, by simp, fun sound bytes _ found => by cases (excused sound).symm.trans found⟩
    rcases result with error | staging
    · exact missing [] rfl error
    cases staging with
    | missing => exact .act_bind fun _ _ _ _ _ => missing _ rfl _
    | notRegular =>
      refine (elsewise_discard key.repo key _).weaken fun deeds result _ ended => ?_
      rw [ended.2]
      exact missing deeds ended.1 _
    | ready node len => exact absurd rfl (unready node len)

/-! ## A call that is not disturbed comes to an end -/

/-- Others have given back what they held. -/
def World.freed (world : World) : World :=
  { world with
    admissions := { world.admissions with
      mutexes := world.admissions.mutexes.map fun found => { found with holder := none } }
    collector := { world.collector with pins := [], writer := none } }

def Unblocked : Action → Prop
  | .uploads (.lock _) => False
  | .sessions (.insertPending _) => False
  | _ => True

theorem LockMap.perform_isSome {Key Value : Type} [DecidableEq Key] [Inhabited Value]
    (locks : LockMap Key Value) (index : Nat) (action : LockAction Key Value)
    (free : ∀ mutex, action = .lock mutex → locks.holder mutex = none) :
    (locks.perform index action).isSome = true := by
  cases action with
  | lock mutex => simp [LockMap.perform, free mutex rfl]
  | tryLock mutex =>
    simp only [LockMap.perform]
    split <;> rfl
  | _ => rfl

theorem holder_freed (mutex : Nat) : world.freed.admissions.holder mutex = none := by
  cases found : world.admissions.mutexes[mutex]? <;>
    simp [World.freed, LockMap.holder, found]

theorem can_act {action : Action} (unblocked : Unblocked action) :
    ∃ scene next response, amid env key world action scene = some (next, response) ∧
      scene.choice.error = none := by
  have left : LeftAlone key world world.freed :=
    ⟨rfl, rfl, rfl, Nat.le_refl _, rfl, Nat.le_refl _, fun _ _ => ⟨rfl, rfl⟩⟩
  suffices performs : (alone env world.freed action {}).isSome = true by
    obtain ⟨⟨next, response⟩, performed⟩ := Option.isSome_iff_exists.mp performs
    exact ⟨{ others := World.freed }, next, response, (if_pos left).trans performed, rfl⟩
  cases action with
  | uploads action =>
    refine Option.isSome_map.trans (LockMap.perform_isSome _ _ _ ?_)
    rintro mutex rfl
    exact unblocked.elim
  | admissions action =>
    exact Option.isSome_map.trans (LockMap.perform_isSome _ _ _ fun mutex _ => holder_freed mutex)
  | sessions action =>
    refine Option.isSome_map.trans ?_
    cases action with
    | insertPending repo => exact unblocked.elim
    | beginSession limit =>
      simp only [performSession]
      split <;> rfl
    | _ => rfl
  | collector action =>
    refine Option.isSome_map.trans ?_
    cases action with
    | pin =>
      cases enabled : world.collector.enabled <;>
        simp [Collector.perform, World.tick, World.freed, enabled]
    | _ => rfl
  | _ => rfl

theorem can_of_performs {program : Call Result} (performs : program.Performs Unblocked) :
    program.Can (amid env key) world fun deeds _ _ =>
      ∀ deed ∈ deeds, deed.choice.choice.error = none := by
  induction program generalizing world with
  | finish result => exact fun _ impossible => nomatch impossible
  | perform action next ih =>
    obtain ⟨scene, middle, response, performed, sound⟩ := can_act performs.1
    refine ⟨scene, middle, response, performed, ?_⟩
    refine (ih response (performs.2 response)).weaken fun deeds _ _ every => ?_
    exact List.forall_mem_cons.mpr ⟨sound, every⟩

theorem unblocked_of_treads {blob : Option BlobKey} {action : Action}
    (treads : Treads key blob action) : Unblocked action := by
  cases action with
  | uploads action | sessions action => cases action <;> first | exact treads.elim | trivial
  | _ => trivial

theorem can_finishUpload (safe : safeComponent key.id = .ok id) (digest : Digest) (maxSize : Nat)
    (trailing : UploadBody) (limit : Nat) (kept : Kept key world) :
    (finishUpload env key digest maxSize trailing limit).Can (amid env key) world fun deeds _ _ =>
      ∀ deed ∈ deeds, deed.choice.choice.error = none := by
  unfold finishUpload withSession
  rw [safe]
  obtain ⟨scene, middle, mutex, performed, sound⟩ :=
    @can_act env key world (.uploads (.get key)) trivial
  obtain ⟨got, free⟩ := kept.get performed
  refine .act_bind scene performed (.act_bind {} (amid_alone (alone_lock_free free)) ?_)
  have body : ∀ result : Except StorageError Unit,
      (act (.uploads (.unlock mutex)) >>= fun _ => act (.uploads (.forget mutex)) >>= fun _ =>
        (pure result : Call (Except StorageError Unit))).Performs Unblocked := fun result =>
    .act_bind trivial fun _ => .act_bind trivial fun _ => performs_pure
  refine (can_of_performs (Program.Performs.bind (.bind ?_ fun prepared => ?_) body)).weaken
    fun deeds _ _ every => ?_
  · exact (@treads_prepareSession key none).weaken fun _ => unblocked_of_treads
  · rcases prepared with error | staging
    · exact performs_pure
    cases staging with
    | missing => exact .act_bind trivial fun _ => performs_pure
    | notRegular =>
      exact ((@treads_discardSession key none).weaken fun _ => unblocked_of_treads).bind
        fun _ => performs_pure
    | ready node current =>
      exact (treads_finishReady mutex current maxSize trailing limit).weaken
        fun _ => unblocked_of_treads
  simp only [List.forall_mem_cons]
  exact ⟨sound, trivial, every⟩

end

/-! ## Exactness -/

/-- What a run of `finish_upload` tells of the bytes staged and received: it gets
past the verification only if they have the digest, and if no operation failed and
they were not too many it does so exactly then; a success has their checksum and
length on record, unless the append of the record failed. -/
structure VerifiedExactly (env : Env) (key : SessionKey) (digest : Digest) (maxSize : Nat)
    (trailing : UploadBody) (limit : Nat) (staged : Option Bytes)
    (conclusion : Conclusion World Action Scene Response (Except StorageError Unit)) : Prop where
  passed : landing key.repo conclusion.deeds = true →
    ∃ bytes body, staged = some bytes ∧ received trailing = some body ∧
      Hashes env digest (bytes ++ body)
  passes : (∀ deed ∈ conclusion.deeds, deed.choice.choice.error = none) →
    ∀ bytes body, staged = some bytes → received trailing = some body → body.length ≤ limit →
      (bytes ++ body).length ≤ maxSize →
      (landing key.repo conclusion.deeds = true ↔ Hashes env digest (bytes ++ body)) ∧
      (¬ Hashes env digest (bytes ++ body) → conclusion.result =
        .error (.digestMismatch digest.asString
          (env.digestOf (bytes ++ body) digest.algorithm).asString))
  recorded : conclusion.result = .ok () →
    ∃ bytes body, staged = some bytes ∧ received trailing = some body ∧
      (Recorded env key ⟨key.repo, digest⟩
          ⟨env.crc32c (bytes ++ body), UInt64.ofNat (bytes ++ body).length⟩ conclusion.deeds ∨
        Unrecorded ⟨key.repo, digest⟩
          ⟨env.crc32c (bytes ++ body), UInt64.ofNat (bytes ++ body).length⟩ conclusion.deeds)

section

variable {env : Env} {key : SessionKey} {faultless : Bool} {world : World}

theorem verifiedExactly {id : String} (safe : safeComponent key.id = .ok id)
    {digest : Digest} {maxSize : Nat} {trailing : UploadBody} {limit : Nat} {scenes : List Scene}
    {conclusion : Conclusion World Action Scene Response (Except StorageError Unit)}
    (kept : Kept key world)
    (carried : (finishUpload env key digest maxSize trailing limit).carryOut (amid env key) world
      scenes = some conclusion) :
    VerifiedExactly env key digest maxSize trailing limit (world.staged key) conclusion := by
  have decided : ∀ faultless, (∀ deed ∈ conclusion.deeds, Faultless faultless deed) →
      Decided env key ⟨key.repo, digest⟩ (world.staged key) trailing limit maxSize faultless
        conclusion.deeds conclusion.result := fun faultless =>
    (decided_finishUpload safe digest maxSize trailing limit kept).sound carried
  have whatever := decided false fun _ _ faulty => nomatch faulty
  refine ⟨fun passed => ?_, fun sound bytes body found arrived short fits => ?_, fun done => ?_⟩
  · rcases whatever with ⟨bytes, body, found, arrived, verdict⟩ | ⟨stayed, _⟩
    · exact ⟨bytes, body, found, arrived, verdict.passed passed⟩
    · exact nomatch stayed.symm.trans passed
  · rcases decided true fun deed member _ => sound deed member with
      ⟨others, more, also, came, verdict⟩ | ⟨_, _, excused⟩
    · cases found.symm.trans also
      cases arrived.symm.trans came
      exact ⟨⟨verdict.passed, verdict.passes rfl⟩, verdict.rejects rfl⟩
    · exact absurd (excused rfl bytes body found arrived short) (Nat.not_lt.mpr fits)
  rcases whatever with ⟨bytes, body, found, arrived, verdict⟩ | ⟨_, failed, _⟩
  · exact ⟨bytes, body, found, arrived, verdict.records done⟩
  · exact absurd done failed

theorem kept_of_fresh (unknown : world.uploads.entries key = none)
    (bounded : ∀ node, world.disk.files key.path = some (.regular node) →
      node < world.disk.nodes.length) : Kept key world :=
  ⟨bounded, fun _ entry => (nomatch unknown.symm.trans entry),
    fun _ entry => (nomatch unknown.symm.trans entry),
    fun _ _ entry => (nomatch unknown.symm.trans entry)⟩

/-- After any calls on a session, one at a time and whatever failed, a hash kept
with it is the hash of its staging file, and `finish_upload` comes to an end and
verifies the bytes staged and received. -/
theorem finish_upload_verifies_exactly (env : Env) {key : SessionKey} {id : String}
    (safe : safeComponent key.id = .ok id) {start final : World}
    {turns : List (Turn SessionCall Scene)} (unknown : start.uploads.entries key = none)
    (bounded : ∀ node, start.disk.files key.path = some (.regular node) →
      node < start.disk.nodes.length)
    (history : SessionHistory env key start turns final) (digest : Digest) (maxSize : Nat)
    (trailing : UploadBody) (limit : Nat) :
    (∀ mutex hash, final.uploads.entries key = some mutex →
      final.uploads.value mutex = some hash → final.staged key = some hash.bytes) ∧
    (∀ scenes conclusion, (finishUpload env key digest maxSize trailing limit).carryOut
        (amid env key) final scenes = some conclusion →
      VerifiedExactly env key digest maxSize trailing limit (final.staged key) conclusion) ∧
    ∃ scenes conclusion, (finishUpload env key digest maxSize trailing limit).carryOut
        (amid env key) final scenes = some conclusion ∧
      ∀ deed ∈ conclusion.deeds, deed.choice.choice.error = none := by
  have kept := kept_of_history history (kept_of_fresh unknown bounded)
  refine ⟨fun mutex hash entry value => ?_, fun scenes conclusion carried => ?_, ?_⟩
  · obtain ⟨settled, found⟩ := kept.hash mutex hash entry value
    rw [staged_of_settled settled]
    exact found
  · exact verifiedExactly safe kept carried
  · exact (can_finishUpload safe digest maxSize trailing limit kept).exists

end

/-- A session that was begun, with nothing staged. -/
def begunZero : World where
  sessions :=
    { pending := fun key => decide (key = zeroSession), count := 1, issued := [zeroSession] }

def undisturbed (steps : Nat) : List Scene := List.replicate steps { choice := {} }

/-- An append whose write fails, and one that goes well. -/
def letterTurns : List (Turn SessionCall Scene) :=
  [⟨.append [.ok letter] none 10, undisturbed 10 ++
      { choice := { error := some (.io "no space"), amount := 1 } } :: undisturbed 5⟩,
    ⟨.append [.ok letter] none 10, undisturbed 15⟩]

theorem letter_verified :
    ∃ final, SessionHistory twoBodies zeroSession begunZero letterTurns final ∧
      final.staged zeroSession = some letter ∧
      ∃ scenes conclusion, (finishUpload twoBodies zeroSession letterX 10 [] 10).carryOut
          (amid twoBodies zeroSession) final scenes = some conclusion ∧
        landing app conclusion.deeds = true := by
  obtain ⟨final, history, staged⟩ := @exists_run_of_execute _ _
    (serve (amid twoBodies zeroSession) (SessionCall.code twoBodies zeroSession))
    (fun _ _ => True) _ begunZero letterTurns (·.staged zeroSession = some letter) _
    (by decide +kernel)
  have safe : safeComponent zeroSession.id = .ok zeroSession.id := by decide +kernel
  have absent : begunZero.disk.files zeroSession.path = none := rfl
  obtain ⟨_, exact, scenes, conclusion, carried, sound⟩ :=
    finish_upload_verifies_exactly twoBodies safe rfl
      (fun _ present => nomatch absent.symm.trans present) history letterX 10 [] 10
  refine ⟨final, history, staged, scenes, conclusion, carried, ?_⟩
  have hashes : twoBodies.digestOf (letter ++ []) letterX.algorithm = letterX := by decide +kernel
  exact (((exact scenes conclusion carried).passes sound letter [] staged rfl (by decide)
    (by decide +kernel)).1).mpr hashes

end Roci.Filesystem
