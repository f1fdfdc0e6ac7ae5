import Roci.Filesystem.Exact

/-!
# The hash kept with a session

Between two calls on a session the hash kept with it is the hash of the bytes in
its staging file.  A call takes the hash before it writes, and puts one back only
when every write went well; whatever else ends a call leaves none behind.
-/

namespace Roci.Filesystem

open Roci.Library Roci.Storage

/-- The mutex a call holds is the one of the session, unless the session was
removed, and what it protects follows the rule. -/
structure Attached (rule : World → StagedHash → Prop) (key : SessionKey) (mutex : Nat)
    (world : World) : Prop where
  file : ∀ node, world.disk.files key.path = some (.regular node) →
    node < world.disk.nodes.length
  within : mutex < world.uploads.mutexes.length
  tied : ∀ other, world.uploads.entries key = some other → other = mutex
  hash : ∀ hash, world.uploads.entries key = some mutex →
    world.uploads.value mutex = some hash → rule world hash

def Loose (_ : World) (_ : StagedHash) : Prop := True

def Bare (_ : World) (_ : StagedHash) : Prop := False

def Faithful (key : SessionKey) (world : World) (hash : StagedHash) : Prop :=
  world.sessions.pending key = false ∧ world.disk.bytesAt key.path = some hash.bytes

def Own (key : SessionKey) : Action → Prop
  | .disk (.link _ path _) => key.path ≠ path
  | .disk (.rename _ target) => key.path ≠ target
  | .uploads (.get _) => False
  | .uploads (.set _ _) => False
  | _ => True

/-- What a call does that leaves the staging file of a session as it is, if there
is one. -/
def Gentle : Action → Prop
  | .disk (.unlink _) => False
  | .disk (.rename _ _) => False
  | .disk (.link _ _ _) => False
  | .disk (.write _ _) => False
  | .disk (.setLen _ _) => False
  | .sessions (.insertPending _) => False
  | .uploads (.get _) => False
  | .uploads (.set _ _) => False
  | _ => True

/-- A session nobody works on. -/
structure Kept (key : SessionKey) (world : World) : Prop where
  file : ∀ node, world.disk.files key.path = some (.regular node) →
    node < world.disk.nodes.length
  within : ∀ mutex, world.uploads.entries key = some mutex →
    mutex < world.uploads.mutexes.length
  free : ∀ mutex, world.uploads.entries key = some mutex → world.uploads.holder mutex = none
  hash : ∀ mutex hash, world.uploads.entries key = some mutex →
    world.uploads.value mutex = some hash → Faithful key world hash

variable {key : SessionKey} {action : Action}

theorem Gentle.own (gentle : Gentle action) : Own key action := by
  cases action with
  | disk action | uploads action => cases action <;> first | exact gentle.elim | trivial
  | _ => trivial

theorem Disk.Outcome.bounded {disk after : Disk} {action : DiskAction}
    {response : DiskResponse action} (outcome : disk.Outcome after action response)
    (own : Own key (.disk action))
    (bounded : ∀ node, disk.files key.path = some (.regular node) → node < disk.nodes.length)
    (node : Nat) (found : after.files key.path = some (.regular node)) :
    node < after.nodes.length := by
  by_cases unnamed : key.path ∉ action.names
  · rw [outcome.files unnamed] at found
    exact (bounded node found).trans_le outcome.length_le
  rw [not_not] at unnamed
  have traced := outcome.traced {}
  generalize observe {} (.disk action) response = later at traced
  cases traced with
  | created free | published free =>
    rw [List.mem_singleton.mp unnamed, Disk.files_add_self] at found
    cases found
    simp [Disk.add]
  | unlinked present here => cases here
  | removed elsewhere =>
    rw [List.mem_singleton.mp unnamed, Disk.files_setFile_self] at found
    cases found
  | renamed moved =>
    rcases List.mem_pair.mp unnamed with rfl | here
    · rw [Disk.files_setFile_of_ne own, Disk.files_setFile_self] at found
      cases found
    · exact absurd here own
  | linked made => exact absurd (List.mem_singleton.mp unnamed) own
  | _ => exact (bounded node found).trans_le outcome.length_le

/-- Nothing is added to the map, and no value is put into it. -/
structure LockMap.Shrinks {Key Value : Type} (locks after : LockMap Key (Option Value)) : Prop where
  length : after.mutexes.length = locks.mutexes.length
  entries : ∀ key mutex, after.entries key = some mutex → locks.entries key = some mutex
  values : ∀ mutex value, after.value mutex = some value → locks.value mutex = some value

theorem LockMap.kept_of_perform {Key Value : Type} [DecidableEq Key]
    {locks after : LockMap Key (Option Value)} {index : Nat}
    {action : LockAction Key (Option Value)} {response : LockResponse action}
    (performed : locks.perform index action = some (after, response))
    (unasked : ∀ key, action ≠ .get key) (unset : ∀ mutex value, action ≠ .set mutex value) :
    locks.Shrinks after := by
  have updated : ∀ (other : Nat) (change : Mutex (Option Value) → Mutex (Option Value)),
      (∀ found, (change found).value = found.value) →
      locks.Shrinks (locks.update other change) := by
    intro other change unchanged
    refine ⟨LockMap.length_update change, fun _ _ found => found, fun mutex value found => ?_⟩
    rwa [LockMap.value_update_same change unchanged] at found
  have removed : ∀ key, locks.Shrinks (locks.remove key) := by
    intro key
    exact ⟨rfl, fun _ _ found => LockMap.entries_of_remove found, fun _ _ found => found⟩
  have same : locks.Shrinks locks := ⟨rfl, fun _ _ found => found, fun _ _ found => found⟩
  cases action with
  | get key => exact absurd rfl (unasked key)
  | set mutex value => exact absurd rfl (unset mutex value)
  | lock mutex =>
    simp only [LockMap.perform] at performed
    split at performed <;> cases performed
    exact updated mutex _ fun _ => rfl
  | tryLock mutex =>
    simp only [LockMap.perform] at performed
    split at performed <;> cases performed
    · exact updated mutex _ fun _ => rfl
    · exact same
  | unlock mutex | forget mutex =>
    cases performed
    exact updated mutex _ fun _ => rfl
  | remove key =>
    cases performed
    exact removed key
  | release key =>
    cases performed
    split
    · exact removed key
    · exact same
  | take taken =>
    cases performed
    refine ⟨LockMap.length_update _, fun _ _ found => found, fun mutex value found => ?_⟩
    by_cases here : mutex = taken
    · subst here
      cases at_ : locks.mutexes[mutex]? <;> simp [LockMap.value, LockMap.update, at_] at found
    · rwa [LockMap.value_update_of_ne here] at found

variable {response : Response action}

section

variable {env : Env} {key : SessionKey} {faultless : Bool} {world next : World} {scene : Scene}
  {mutex : Nat} {rule weaker : World → StagedHash → Prop}

section

variable (attached : Attached rule key mutex world)

include attached

theorem Attached.weaken
    (implied : ∀ hash, rule world hash → weaker world hash) : Attached weaker key mutex world :=
  { attached with
    hash := fun hash entry value => implied hash (attached.hash hash entry value) }

theorem Attached.loose : Attached Loose key mutex world := attached.weaken fun _ _ => trivial

theorem Attached.beside
    (left : LeftAlone key world next) (kept : ∀ hash, rule world hash → rule next hash) :
    Attached rule key mutex next := by
  refine ⟨fun node found => ?_, attached.within.trans_le left.mutexes, fun other found => ?_,
    fun hash entry value => kept hash (attached.hash hash (left.entry ▸ entry) ?_)⟩
  · exact (attached.file node (left.file ▸ found)).trans_le left.nodes
  · exact attached.tied other (left.entry ▸ found)
  rw [← (left.mutex mutex (left.entry ▸ entry)).2]
  exact value

theorem Attached.step (own : Own key action)
    (performed : alone env world action scene.choice = some (next, response))
    (kept : ∀ hash, rule world hash → rule next hash) : Attached rule key mutex next := by
  cases action with
  | disk action =>
    obtain ⟨after, rfl, outcome⟩ := perform_disk performed
    exact ⟨outcome.bounded own attached.file, attached.within, attached.tied,
      fun hash entry value => kept hash (attached.hash hash entry value)⟩
  | uploads action =>
    obtain ⟨uploads, changed, rfl⟩ := perform_uploads performed
    obtain ⟨length, entries, values⟩ := LockMap.kept_of_perform changed
      (fun _ same => by rw [same] at own; exact own)
      (fun _ _ same => by rw [same] at own; exact own)
    refine ⟨attached.file, ?_, fun other found => attached.tied other (entries key other found),
      fun hash entry value => kept hash (attached.hash hash (entries key mutex entry)
        (values mutex hash value))⟩
    exact attached.within.trans_eq length.symm
  | sessions action =>
    obtain ⟨sessions, changed, rfl⟩ := perform_sessions performed
    exact { attached with
      hash := fun hash entry value => kept hash (attached.hash hash entry value) }
  | _ =>
    obtain ⟨_, rfl⟩ := perform_elsewhere (by trivial) performed
    exact { attached with
      hash := fun hash entry value => kept hash (attached.hash hash entry value) }

end

/-! ## Whole parts of a call -/

theorem own_of_treads {blob : Option BlobKey} (treads : Treads key blob action) :
    Own key action := by
  cases action with
  | disk action =>
    cases action with
    | link node path allowCopy =>
      obtain ⟨target, _, rfl⟩ := treads
      exact key.path_ne_blob target
    | rename source target =>
      obtain ⟨_, target, _, rfl⟩ := treads
      exact key.path_ne_blob target
    | _ => trivial
  | uploads action => cases action <;> first | exact treads.elim | trivial
  | _ => trivial

variable {bytes : Bytes} {Result : Type} {program : Call Result}

theorem attached_of_performs (performs : program.Performs (Own key))
    (stable : ∀ world next hash, rule world hash → rule next hash)
    (attached : Attached rule key mutex world) :
    Amidst env key faultless program world fun _ _ reached => Attached rule key mutex reached := by
  refine performs.keeps (fun world action scene next response own performed attached => ?_) attached
  obtain ⟨between, left, performed⟩ := amid_eq_some performed
  exact (attached.beside left (stable _ _)).step own performed (stable _ _)

theorem loose_of_performs (performs : program.Performs (Own key))
    (attached : Attached rule key mutex world) :
    Amidst env key faultless program world fun _ _ reached => Attached Loose key mutex reached :=
  attached_of_performs performs (fun _ _ _ _ => trivial) attached.loose

theorem bare_of_performs (performs : program.Performs (Own key))
    (attached : Attached Bare key mutex world) :
    Amidst env key faultless program world fun _ _ reached => Attached Bare key mutex reached :=
  attached_of_performs performs (fun _ _ _ impossible => impossible) attached

theorem Faithful.beside {hash : StagedHash} (faithful : Faithful key world hash)
    (left : LeftAlone key world next) : Faithful key next hash :=
  ⟨left.pending.trans faithful.1, left.bytes.trans faithful.2⟩

theorem Disk.Outcome.bytesAt_of_gentle {disk after : Disk} {action : DiskAction}
    {response : DiskResponse action} {path : Path} (outcome : disk.Outcome after action response)
    (gentle : Gentle (.disk action))
    (bounded : ∀ node, disk.files path = some (.regular node) → node < disk.nodes.length)
    (found : disk.bytesAt path = some bytes) : after.bytesAt path = some bytes := by
  obtain ⟨node, named, content⟩ := Disk.bytesAt_eq_some.mp found
  have unwritten : action.written ≠ some node := by
    cases action <;> first | exact gentle.elim | nofun
  have stays : after.files path = some (.regular node) := by
    by_cases unnamed : path ∉ action.names
    · exact (outcome.files unnamed).trans named
    rw [not_not] at unnamed
    have traced := outcome.traced {}
    generalize observe {} (.disk action) response = later at traced
    -- a file that is there is neither made again nor replaced
    cases traced with
    | created free | published free =>
      rw [List.mem_singleton.mp unnamed] at named
      exact nomatch named.symm.trans free
    | _ => first | exact named | exact gentle.elim
  refine Disk.bytesAt_eq_some.mpr ⟨node, stays, ?_⟩
  rw [outcome.content (bounded node named) unwritten, content]

theorem Faithful.step {hash : StagedHash} (faithful : Faithful key world hash)
    (gentle : Gentle action)
    (bounded : ∀ node, world.disk.files key.path = some (.regular node) →
      node < world.disk.nodes.length)
    (performed : alone env world action scene.choice = some (next, response)) :
    Faithful key next hash := by
  cases action with
  | disk action =>
    obtain ⟨after, rfl, outcome⟩ := perform_disk performed
    exact ⟨faithful.1, outcome.bytesAt_of_gentle gentle bounded faithful.2⟩
  | uploads action =>
    obtain ⟨uploads, changed, rfl⟩ := perform_uploads performed
    exact faithful
  | sessions action =>
    obtain ⟨sessions, changed, rfl⟩ := perform_sessions performed
    refine ⟨settled_after changed (.inr ?_) faithful.1, faithful.2⟩
    rintro repo rfl
    exact gentle
  | _ =>
    obtain ⟨_, rfl⟩ := perform_elsewhere (by trivial) performed
    exact faithful

theorem Attached.gentle (attached : Attached (Faithful key) key mutex world)
    (gentle : Gentle action) (performed : amid env key world action scene = some (next, response)) :
    Attached (Faithful key) key mutex next := by
  obtain ⟨between, left, performed⟩ := amid_eq_some performed
  have beside := attached.beside left fun _ faithful => faithful.beside left
  exact beside.step gentle.own performed fun _ faithful =>
    faithful.step gentle beside.file performed

theorem faithful_of_performs (performs : program.Performs Gentle)
    (attached : Attached (Faithful key) key mutex world) :
    Amidst env key faultless program world
      fun _ _ reached => Attached (Faithful key) key mutex reached :=
  performs.keeps (fun _ _ _ _ _ gentle performed attached => attached.gentle gentle performed)
    attached

/-! ## Single actions -/

theorem Attached.take {taken : Option StagedHash} (attached : Attached rule key mutex world)
    (performed : amid env key world (.uploads (.take mutex)) scene = some (next, taken)) :
    Attached Bare key mutex next := by
  obtain ⟨between, left, performed⟩ := amid_eq_some performed
  have loose := attached.loose.beside left fun _ _ => trivial
  have after := loose.step (by trivial) performed fun _ _ => trivial
  refine ⟨after.file, after.within, after.tied, fun hash _ value => ?_⟩
  obtain ⟨uploads, changed, rfl⟩ := perform_uploads performed
  cases changed
  have empty := LockMap.value_update loose.within (fun found => { found with value := none })
    fun _ => rfl
  exact nomatch empty.symm.trans value

theorem Attached.remove (attached : Attached rule key mutex world)
    (performed : amid env key world (.uploads (.remove key)) scene = some (next, ())) :
    Attached Bare key mutex next ∧ next.uploads.entries key = none := by
  obtain ⟨between, left, performed⟩ := amid_eq_some performed
  have loose := attached.loose.beside left fun _ _ => trivial
  have after := loose.step (by trivial) performed fun _ _ => trivial
  have gone : next.uploads.entries key = none := by
    obtain ⟨uploads, changed, rfl⟩ := perform_uploads performed
    cases changed
    exact Function.update_self _ _ _
  refine ⟨⟨after.file, after.within, after.tied, fun hash entry _ => ?_⟩, gone⟩
  exact nomatch gone.symm.trans entry

theorem Attached.set {hash : Option StagedHash} {node : Nat}
    (attached : Attached Bare key mutex world) (holding : Holding key node bytes world)
    (right : ∀ found, hash = some found → found.bytes = bytes)
    (performed : amid env key world (.uploads (.set mutex hash)) scene = some (next, ())) :
    Attached (Faithful key) key mutex next := by
  obtain ⟨between, left, performed⟩ := amid_eq_some performed
  have beside := attached.beside left fun _ impossible => impossible
  have held := holding.beside left
  obtain ⟨uploads, changed, rfl⟩ := perform_uploads performed
  cases changed
  refine ⟨beside.file, ?_, beside.tied, fun found _ value => ?_⟩
  · exact beside.within.trans_eq (LockMap.length_update _).symm
  have stored := LockMap.value_update beside.within (fun found => { found with value := hash })
    fun _ => rfl
  refine ⟨held.settled, ?_⟩
  rw [right found (stored.symm.trans value)]
  exact held.bytesAt

end

end Roci.Filesystem
