import Roci.Filesystem.SessionCount

/-!
# Published blobs have the digest in their name

The bytes of a staging file are written by the one call that holds its session,
and the hash kept with the session covers them whenever nobody writes.  A staging
file has no other name, so nothing is written to a blob, and a rename puts a file
in place whose bytes the call knows to have the digest.

This rests on the lock.  A call that is dropped while a write is under way loses
the lock but not the write, and the write ends up in whatever the file has become.
-/

namespace Roci.Filesystem

open Roci.Library Roci.Storage
open Function (update update_of_ne update_self)

/-- A disk on which every blob has the digest in its name and a staging file no
other name. -/
structure Intact (env : Env) (disk : Disk) : Prop where
  bounded : ∀ path node, disk.files path = some (.regular node) → node < disk.nodes.length
  staging : ∀ (key : SessionKey) path node, disk.files key.path = some (.regular node) →
    disk.files path = some (.regular node) → path = key.path
  blobs : ∀ (blob : BlobKey) node, disk.files blob.path = some (.regular node) →
    Hashes env blob.digest (disk.content node)

namespace Intact

variable {env : Env} {disk : Disk} {path : Path} {node : Nat} {blob : BlobKey} {key : SessionKey}

section

variable (intact : Intact env disk)

include intact

theorem not_blob (staged : disk.files key.path = some (.regular node)) :
    disk.files blob.path ≠ some (.regular node) := fun found =>
  SessionKey.path_ne_blob key blob (intact.staging key blob.path node staged found).symm

theorem setContent (staged : disk.files key.path = some (.regular node)) (data : Bytes) :
    Intact env (disk.setContent node data) where
  bounded path other found := by
    simpa [Disk.setContent] using intact.bounded path other found
  staging := intact.staging
  blobs blob other found := by
    rw [Disk.content_setContent_of_ne]
    · exact intact.blobs blob other found
    rintro rfl
    exact intact.not_blob staged found

theorem unname (path : Path) : Intact env (disk.setFile path none) := by
  have before : ∀ other node, (disk.setFile path none).files other = some (.regular node) →
      disk.files other = some (.regular node) := by
    intro other node found
    by_cases same : other = path
    · rw [same, Disk.files_setFile_self] at found
      cases found
    · rwa [Disk.files_setFile_of_ne same] at found
  exact ⟨fun other node found => intact.bounded other node (before other node found),
    fun key other node staged found => intact.staging key other node (before _ node staged)
      (before other node found),
    fun blob node found => intact.blobs blob node (before _ node found)⟩

/-- A file gets a name: it had none before, or the name is that of a blob and the
file is not staged. -/
theorem name (within : node < disk.nodes.length)
    (alone : ∀ key : SessionKey, disk.files key.path ≠ some (.regular node) ∧
      (key.path = path → ∀ other, disk.files other ≠ some (.regular node)))
    (hashes : ∀ blob : BlobKey, blob.path = path → Hashes env blob.digest (disk.content node)) :
    Intact env (disk.setFile path (some (.regular node))) := by
  have before : ∀ other found, (disk.setFile path (some (.regular node))).files other =
      some (.regular found) → other = path ∧ found = node ∨
        disk.files other = some (.regular found) := by
    intro other found named
    by_cases same : other = path
    · rw [same, Disk.files_setFile_self] at named
      cases named
      exact .inl ⟨same, rfl⟩
    rw [Disk.files_setFile_of_ne same] at named
    exact .inr named
  refine ⟨fun other found named => ?_, fun key other found staged named => ?_,
    fun blob found named => ?_⟩
  · rcases before other found named with ⟨_, rfl⟩ | earlier
    · exact within
    · exact intact.bounded other found earlier
  · rcases before _ found staged with ⟨here, rfl⟩ | earlier
    · rcases before other found named with ⟨also, _⟩ | elsewhere
      · exact also.trans here.symm
      · exact absurd elsewhere ((alone key).2 here other)
    rcases before other found named with ⟨_, rfl⟩ | also
    · exact absurd earlier (alone key).1
    · exact intact.staging key other found earlier also
  rcases before _ found named with ⟨same, rfl⟩ | earlier
  · exact hashes blob same
  · exact intact.blobs blob found earlier

theorem add {data : Bytes}
    (hashes : ∀ blob : BlobKey, blob.path = path → Hashes env blob.digest data) :
    Intact env (disk.add path data) := by
  have length : (disk.nodes ++ [data]).length = disk.nodes.length + 1 := by simp
  have unnamed : ∀ other, disk.files other ≠ some (.regular disk.nodes.length) :=
    fun other found => Nat.lt_irrefl _ (intact.bounded other _ found)
  have grown : Intact env { disk with nodes := disk.nodes ++ [data] } := by
    refine ⟨fun other node found => ?_, intact.staging, fun blob node found => ?_⟩
    · exact length ▸ (intact.bounded other node found).trans (Nat.lt_succ_self _)
    exact (Disk.content_add (intact.bounded _ node found) path data).symm ▸
      intact.blobs blob node found
  refine grown.name (length ▸ Nat.lt_succ_self _) (fun key => ⟨unnamed _, fun _ => unnamed⟩)
    fun blob named => ?_
  exact (Disk.content_add_new path data).symm ▸ hashes blob named

end

end Intact

/-! ## What is known of the bytes of a session -/

/-- A mutex of the session: the one in the map, or one a call refers to. -/
def MutexOf (uploads : LockMap SessionKey (Option StagedHash)) (notes : Nat → Notes)
    (key : SessionKey) (mutex : Nat) : Prop :=
  uploads.entries key = some mutex ∨ ∃ index, (notes index).lock = some (key, mutex)

structure Knows (env : Env) (world : World) (notes : Notes) : Prop where
  unopened : notes.node = none → notes.content = none
  content : ∀ key mutex node bytes, notes.Holds key mutex → notes.node = some node →
    notes.content = some bytes → world.disk.content node = bytes
  taken : ∀ key mutex, notes.Holds key mutex → notes.taken = true →
    world.uploads.value mutex = none
  source : ∀ node (blob : BlobKey), notes.source = some (node, blob.path) →
    node < world.disk.nodes.length ∧
      (∀ key : SessionKey, world.disk.files key.path ≠ some (.regular node)) ∧
      Hashes env blob.digest (world.disk.content node)

/-- A mutex belongs to one session, and a hash kept in it covers the bytes of the
staging file. -/
structure Covered (world : World) (notes : Nat → Notes) : Prop where
  named : ∀ key mutex, world.uploads.entries key = some mutex → key ∈ world.uploads.named
  owner : ∀ first second mutex, MutexOf world.uploads notes first mutex →
    MutexOf world.uploads notes second mutex → first = second
  slots : ∀ key mutex hash, MutexOf world.uploads notes key mutex →
    world.uploads.value mutex = some hash → world.sessions.pending key = false ∧
      ∀ node, world.disk.files key.path = some (.regular node) →
        world.disk.content node = hash.bytes

structure Verifiable (env : Env) (world : World) (notes : Nat → Notes) : Prop where
  guarded : Guarded world notes
  intact : Intact env world.disk
  covered : Covered world notes
  knows : ∀ index, Knows env world (notes index)

theorem knows_idle (env : Env) (world : World) : Knows env world {} where
  unopened _ := rfl
  content _ _ _ _ impossible := nomatch impossible.1
  taken _ _ impossible := nomatch impossible.1
  source _ _ impossible := nomatch impossible

variable {known : Notes}

section

variable {env : Env} {faultless : Bool} {reader : JsonReader} {world next : World}
  {notes : Nat → Notes} {index : Nat} {choice : Choice} {later : Notes}
  {clock mutex : Nat} {key : SessionKey} {sessions : Sessions}

theorem MutexOf.named (guarded : Guarded world notes) (covered : Covered world notes)
    (mutexOf : MutexOf world.uploads notes key mutex) :
    key ∈ world.uploads.named := by
  rcases mutexOf with entry | ⟨index, lock⟩
  · exact covered.named key mutex entry
  · exact ((guarded.sees index).refers key mutex lock).2.1

theorem MutexOf.unique {other : Nat} (guarded : Guarded world notes) (live : world.Live key)
    (mutexOf : MutexOf world.uploads notes key mutex)
    (also : MutexOf world.uploads notes key other) :
    mutex = other := by
  have entered : ∀ {mutex}, MutexOf world.uploads notes key mutex →
      world.uploads.entries key = some mutex := by
    rintro mutex (entry | ⟨index, lock⟩)
    · exact entry
    · exact ((guarded.sees index).refers key mutex lock).2.2.resolve_right live.not_over
  exact Option.some.inj ((entered mutexOf).symm.trans (entered also))

theorem knows_update (actor : Knows env next later)
    (bystanders : ∀ other ≠ index, Knows env next (notes other)) (other : Nat) :
    Knows env next (update notes index later other) :=
  (Function.forall_update_iff notes (p := fun _ notes => Knows env next notes)).mpr
    ⟨actor, bystanders⟩ other

theorem MutexOf.of_update {uploads : LockMap SessionKey (Option StagedHash)}
    (entries : ∀ key mutex, uploads.entries key = some mutex →
      world.uploads.entries key = some mutex)
    (lock : later.lock = none ∨ later.lock = (notes index).lock)
    (mutexOf : MutexOf uploads (update notes index later) key mutex) :
    MutexOf world.uploads notes key mutex := by
  rcases mutexOf with entry | ⟨other, found⟩
  · exact .inl (entries key mutex entry)
  by_cases same : other = index
  · subst same
    rw [update_self] at found
    rcases lock with none | equal
    · rw [none] at found
      cases found
    · exact .inr ⟨other, equal ▸ found⟩
  rw [update_of_ne same] at found
  exact .inr ⟨other, found⟩

/-- No call gets a mutex it did not have, and none is entered. -/
theorem Covered.of_old (covered : Covered world notes)
    (named : next.uploads.named = world.uploads.named)
    (entries : ∀ key mutex, next.uploads.entries key = some mutex →
      world.uploads.entries key = some mutex)
    (lock : later.lock = none ∨ later.lock = (notes index).lock)
    (slots : ∀ key mutex hash, MutexOf world.uploads notes key mutex →
      next.uploads.value mutex = some hash → next.sessions.pending key = false ∧
        ∀ node, next.disk.files key.path = some (.regular node) →
          next.disk.content node = hash.bytes) :
    Covered next (update notes index later) := by
  have before : ∀ {key mutex}, MutexOf next.uploads (update notes index later) key mutex →
      MutexOf world.uploads notes key mutex := fun mutexOf => mutexOf.of_update entries lock
  refine ⟨fun key mutex entry => ?_, fun first second mutex one other =>
    covered.owner first second mutex (before one) (before other),
    fun key mutex hash own => slots key mutex hash (before own)⟩
  rw [named]
  exact covered.named key mutex (entries key mutex entry)

/-! ## Actions on sessions -/

theorem observe_sessions (known : Notes) (action : SessionAction)
    (response : SessionResponse action) :
    ∃ pending owes, observe known (.sessions action) response =
      { known with pending := pending, owes := owes } := by
  cases action with
  | isPending key =>
    simp only [observe]
    split <;> exact ⟨_, _, rfl⟩
  | _ => exact ⟨_, _, rfl⟩

theorem Verifiable.step_sessions {action : SessionAction} {response : SessionResponse action}
    (verifiable : Verifiable env world notes)
    (allowed : (discipline env faultless).allowed (notes index) (.sessions action))
    (performed : perform reader world index (.sessions action) choice = some (next, response)) :
    Verifiable env next (update notes index
      (observe (notes index) (.sessions action) response)) := by
  have guarded := verifiable.guarded.step_sessions allowed performed
  obtain ⟨sessions, changed, rfl⟩ := perform_sessions performed
  obtain ⟨_, _, observed⟩ := observe_sessions (notes index) action response
  have knows := verifiable.knows
  have covered := verifiable.covered
  rw [observed] at guarded ⊢
  refine ⟨guarded, verifiable.intact, covered.of_old rfl (fun _ _ entry => entry) (.inr rfl)
    fun key mutex hash own kept => ?_, knows_update { knows index with }
      fun other _ => { knows other with }⟩
  obtain ⟨finished, bytes⟩ := covered.slots key mutex hash own kept
  have named := own.named verifiable.guarded covered
  exact ⟨settled_after changed (.inl named) finished, bytes⟩

/-! ## Actions on locks -/

section

variable {uploads : LockMap SessionKey (Option StagedHash)} {clock : Nat}

theorem Knows.of_uploads (knows : Knows env world known)
    (values : ∀ key mutex, known.Holds key mutex → world.uploads.value mutex = none →
      uploads.value mutex = none) :
    Knows env { world.tick clock with uploads := uploads } known :=
  { knows with
    taken := fun key mutex holds took => values key mutex holds (knows.taken key mutex holds took) }

theorem knows_fresh (node : known.node = none := by rfl) (content : known.content = none := by rfl)
    (taken : known.taken = false := by rfl) (source : known.source = none := by rfl) :
    Knows env world known where
  unopened _ := content
  content _ _ _ _ _ opened := nomatch node.symm.trans opened
  taken _ _ _ took := nomatch taken.symm.trans took
  source _ _ opened := nomatch source.symm.trans opened

theorem Covered.of_get (covered : Covered world notes) (guarded : Guarded world notes)
    (index : Nat) (key : SessionKey) :
    Covered { world.tick clock with uploads := (world.uploads.get index key).1 }
      (update notes index { lock := some (key, (world.uploads.get index key).2) }) := by
  -- the mutex handed out is an old one of the session, or a new one
  have before : ∀ {other mutex}, MutexOf (world.uploads.get index key).1
      (update notes index { lock := some (key, (world.uploads.get index key).2) })
      other mutex → MutexOf world.uploads notes other mutex ∨
        other = key ∧ mutex = world.uploads.mutexes.length ∧ world.uploads.entries key = none := by
    have asked : MutexOf world.uploads notes key (world.uploads.get index key).2 ∨
        (world.uploads.get index key).2 = world.uploads.mutexes.length ∧
          world.uploads.entries key = none := by
      cases found : world.uploads.entries key with
      | some mutex =>
        have same : (world.uploads.get index key).2 = mutex :=
          Option.some.inj (LockMap.entries_get_self.symm.trans (LockMap.entries_get found))
        exact .inl (.inl (by rw [found, same]))
      | none => exact .inr ⟨by simp [LockMap.get, found], rfl⟩
    rintro other mutex (entry | ⟨holder, lock⟩)
    · by_cases same : other = key
      · subst same
        cases LockMap.entries_get_self.symm.trans entry
        exact asked.imp_right fun fresh => ⟨rfl, fresh.1, fresh.2⟩
      rw [LockMap.entries_get_of_ne same] at entry
      exact .inl (.inl entry)
    by_cases same : holder = index
    · subst same
      rw [update_self] at lock
      cases lock
      exact asked.imp_right fun fresh => ⟨rfl, fresh.1, fresh.2⟩
    rw [update_of_ne same] at lock
    exact .inl (.inr ⟨holder, lock⟩)
  have old : ∀ {other mutex}, MutexOf world.uploads notes other mutex →
      mutex < world.uploads.mutexes.length := by
    rintro other mutex (entry | ⟨holder, lock⟩)
    · exact guarded.bounded other mutex entry
    · exact ((guarded.sees holder).refers other mutex lock).1
  refine ⟨fun other mutex entry => ?_, fun first second mutex one two => ?_,
    fun other mutex hash own kept => ?_⟩
  · rw [LockMap.named_get]
    by_cases same : other = key
    · exact same ▸ List.mem_cons_self
    refine List.mem_cons_of_mem _ (covered.named other mutex ?_)
    exact (LockMap.entries_get_of_ne same).symm.trans entry
  · rcases before one with earlier | ⟨rfl, rfl, _⟩
    · rcases before two with also | ⟨_, rfl, _⟩
      · exact covered.owner first second mutex earlier also
      · exact absurd (old earlier) (Nat.lt_irrefl _)
    rcases before two with also | ⟨rfl, _⟩
    · exact absurd (old also) (Nat.lt_irrefl _)
    · rfl
  have value := LockMap.value_get.symm.trans kept
  rcases before own with earlier | ⟨_, rfl, _⟩
  · exact covered.slots other mutex hash earlier value
  · simp [LockMap.value] at value

theorem Covered.of_set (covered : Covered world notes) {key : SessionKey} {mutex : Nat}
    {value : Option StagedHash} (guarded : Guarded world notes)
    (holds : (notes index).Holds key mutex) (pending : world.sessions.pending key = false)
    (bytes : ∀ hash node, value = some hash → world.disk.files key.path = some (.regular node) →
      world.disk.content node = hash.bytes) (lock : later.lock = (notes index).lock) :
    Covered { world.tick clock with uploads := world.uploads.update mutex fun found =>
        { found with value := value } } (update notes index later) := by
  have within := ((guarded.sees index).refers key mutex holds.1).1
  refine covered.of_old rfl (fun _ _ entry => entry) (.inr lock)
    fun other locked hash own kept => ?_
  by_cases same : locked = mutex
  · subst same
    cases covered.owner other key locked own (.inr ⟨index, holds.1⟩)
    have stored : (world.uploads.update locked fun found => { found with value := value }).value
        locked = value := LockMap.value_update within _ fun _ => rfl
    exact ⟨pending, fun node found => bytes hash node (stored.symm.trans kept) found⟩
  exact covered.slots other locked hash own ((LockMap.value_update_of_ne same _).symm.trans kept)

end

theorem Verifiable.step_uploads {action : LockAction SessionKey (Option StagedHash)}
    {response : LockResponse action} (verifiable : Verifiable env world notes)
    (allowed : (discipline env faultless).allowed (notes index) (.uploads action))
    (guarded : Guarded next (update notes index (observe (notes index) (.uploads action) response)))
    (performed : perform reader world index (.uploads action) choice = some (next, response)) :
    Verifiable env next (update notes index
      (observe (notes index) (.uploads action) response)) := by
  obtain ⟨uploads, changed, rfl⟩ := perform_uploads performed
  have covered := verifiable.covered
  have unchanged : ∀ {mutex} {change : Mutex (Option StagedHash) → Mutex (Option StagedHash)},
      (∀ found, (change found).value = found.value) → ∀ locked,
      (world.uploads.update mutex change).value locked = world.uploads.value locked :=
    fun same _ => LockMap.value_update_same _ same
  -- a change that concerns no value: only what the acting call knows differs
  have valued : (∀ mutex, uploads.value mutex = world.uploads.value mutex) →
      uploads.named = world.uploads.named →
      (∀ key mutex, uploads.entries key = some mutex → world.uploads.entries key = some mutex) →
      ((observe (notes index) (.uploads action) response).lock = none ∨
        (observe (notes index) (.uploads action) response).lock = (notes index).lock) →
      Knows env { world.tick choice.clock with uploads := uploads }
        (observe (notes index) (.uploads action) response) →
      Verifiable env { world.tick choice.clock with uploads := uploads }
        (update notes index (observe (notes index) (.uploads action) response)) := by
    intro values named entries lock actor
    exact ⟨guarded, verifiable.intact,
      covered.of_old named entries lock fun key mutex hash own kept =>
        covered.slots key mutex hash own ((values mutex).symm.trans kept),
      knows_update actor fun other _ => (verifiable.knows other).of_uploads
        fun _ mutex _ absent => (values mutex).trans absent⟩
  cases action with
  | get key =>
    have pair : world.uploads.get index key = (uploads, response) := Option.some.inj changed
    have got := @Covered.of_get world notes choice.clock covered verifiable.guarded index key
    have values : ∀ mutex, (world.uploads.get index key).1.value mutex =
        world.uploads.value mutex := fun _ => LockMap.value_get
    rw [pair] at got values
    exact ⟨guarded, verifiable.intact, got, knows_update knows_fresh fun other _ =>
      (verifiable.knows other).of_uploads fun _ mutex _ absent => (values mutex).trans absent⟩
  | lock mutex =>
    simp only [LockMap.perform] at changed
    split at changed
    · cases changed
      exact valued (unchanged fun _ => rfl) rfl (fun _ _ entry => entry) (.inr rfl) knows_fresh
    · cases changed
  | tryLock mutex =>
    simp only [LockMap.perform] at changed
    split at changed
    · cases changed
      exact valued (unchanged fun _ => rfl) rfl (fun _ _ entry => entry) (.inr rfl) knows_fresh
    cases changed
    exact valued (fun _ => rfl) rfl (fun _ _ entry => entry) (.inl rfl) knows_fresh
  | unlock mutex =>
    cases changed
    exact valued (unchanged fun _ => rfl) rfl (fun _ _ entry => entry) (.inl rfl) (knows_idle env _)
  | forget mutex =>
    cases changed
    have same : ∀ locked, (world.uploads.update mutex fun found =>
        { found with users := found.users.erase index }).value locked =
        world.uploads.value locked := unchanged fun _ => rfl
    exact valued same rfl (fun _ _ entry => entry) (.inr rfl)
      ((verifiable.knows index).of_uploads fun _ locked _ absent => (same locked).trans absent)
  | remove key =>
    cases changed
    exact valued (fun _ => rfl) rfl (fun _ _ entry => LockMap.entries_of_remove entry) (.inr rfl)
      ((verifiable.knows index).of_uploads fun _ _ _ absent => absent)
  | release key => exact allowed.elim
  | take mutex =>
    cases changed
    obtain ⟨key, holds, opened⟩ := allowed
    obtain ⟨node, opened⟩ := Option.isSome_iff_exists.mp opened
    have within := ((verifiable.guarded.sees index).refers key mutex holds.1).1
    have empty : ∀ locked, world.uploads.value locked = none ∨ locked = mutex →
        (world.uploads.update mutex fun found => { found with value := default }).value locked =
          none := by
      intro locked absent
      by_cases same : locked = mutex
      · subst same
        exact LockMap.value_update within _ fun _ => rfl
      rw [LockMap.value_update_of_ne same]
      exact absent.resolve_right same
    have knows := verifiable.knows index
    refine ⟨guarded, verifiable.intact, covered.of_old rfl (fun _ _ entry => entry) (.inr rfl)
      fun named locked hash own kept => covered.slots named locked hash own ?_,
      knows_update ⟨?_, ?_, ?_, knows.source⟩ fun other _ => (verifiable.knows other).of_uploads
        fun _ locked _ absent => empty locked (.inl absent)⟩
    · by_cases same : locked = mutex
      · cases (empty locked (.inr same)).symm.trans kept
      · exact (LockMap.value_update_of_ne same _).symm.trans kept
    · exact fun absent => by cases opened.symm.trans absent
    · intro held locked found bytes also noted kept
      cases also.1.symm.trans holds.1
      cases opened.symm.trans noted
      cases taken : world.uploads.value mutex with
      | some hash =>
        have staged := (verifiable.guarded.sees index).opened key mutex node holds opened
        rw [show (observe (notes index) (.uploads (.take mutex))
          (world.uploads.value mutex)).content = some hash.bytes by simp [observe, taken]] at kept
        cases kept
        exact (covered.slots key mutex hash (.inr ⟨index, holds.1⟩) taken).2 node staged
      | none =>
        refine knows.content key mutex node bytes holds opened ?_
        rw [← kept]
        simp [observe, taken]
    · intro held locked also _
      cases also.1.symm.trans holds.1
      exact empty mutex (.inr rfl)
  | set mutex value =>
    cases changed
    obtain ⟨key, holds, taken, opened, pending, bytes⟩ := allowed
    obtain ⟨node, opened⟩ := Option.isSome_iff_exists.mp opened
    have knows := verifiable.knows index
    have staged := (verifiable.guarded.sees index).opened key mutex node holds opened
    have finished := (verifiable.guarded.sees index).pending key mutex false holds pending
    refine ⟨guarded, verifiable.intact, covered.of_set verifiable.guarded holds finished
      (fun hash found stored named => ?_) rfl,
      knows_update { knows with taken := by simp [observe] }
        fun other different => (verifiable.knows other).of_uploads
          fun held locked also absent => ?_⟩
    · cases staged.symm.trans named
      exact knows.content key mutex node hash.bytes holds opened (bytes hash stored)
    have own := (verifiable.guarded.sees index).holds key mutex holds
    rwa [LockMap.value_update_of_ne (verifiable.guarded.holder_ne (.inr own) different also)]

/-! ## Actions on files -/

/-- No marker is put into an upload directory. -/
def Outside : Action → Prop
  | .disk (.publish path _) => path.dropLast.getLast? ≠ some "uploads"
  | _ => True

theorem Outside.unstaged {action : DiskAction} (outside : Outside (.disk action))
    (key : SessionKey) (path : Path) (data : Bytes) (equal : action = .publish path data) :
    key.path ≠ path := by
  subst equal
  rintro rfl
  exact outside key.getLast?_directory

theorem allowed_written {action : DiskAction} {node : Nat}
    (allowed : (discipline env faultless).allowed known (.disk action))
    (written : action.written = some node) :
    ∃ key mutex, known.Holds key mutex ∧ known.node = some node ∧ known.taken = true := by
  cases action with
  | write other data | setLen other length =>
    cases written
    exact allowed
  | _ => cases written

/-- A staging file was there before, or is new and belongs to a pending session. -/
theorem Guarded.staged_before {action : DiskAction} {response : DiskResponse action} {after : Disk}
    (guarded : Guarded world notes)
    (allowed : (discipline env faultless).allowed (notes index) (.disk action))
    (outside : Outside (.disk action)) (outcome : world.disk.Outcome after action response)
    {entry : Entry} (staged : after.files key.path = some entry) :
    world.disk.files key.path = some entry ∨
      world.sessions.pending key = true ∧ entry = .regular world.disk.nodes.length := by
  have traced := outcome.traced (notes index)
  generalize observe (notes index) (.disk action) response = later at traced
  by_cases named : key.path ∈ action.names
  · cases traced with
    | created free =>
      obtain ⟨held, mutex, holds, pending, rfl⟩ := allowed
      cases SessionKey.path_inj.mp (List.mem_singleton.mp named)
      rw [Disk.files_add_self] at staged
      cases staged
      exact .inr ⟨(guarded.sees index).pending key mutex true holds pending, rfl⟩
    | unlinked present here | removed elsewhere =>
      cases List.mem_singleton.mp named
      rw [Disk.files_setFile_self] at staged
      cases staged
    | renamed found =>
      obtain ⟨held, mutex, holds, rfl, _, _, _, blob, rfl, _⟩ := allowed
      rw [Disk.files_setFile_of_ne (SessionKey.path_ne_blob key blob)] at staged
      simp only [DiskAction.names, List.mem_cons, List.not_mem_nil, or_false,
        SessionKey.path_ne_blob] at named
      rw [named, Disk.files_setFile_self] at staged
      cases staged
    | published free =>
      exact absurd (List.mem_singleton.mp named) (outside.unstaged key _ _ rfl)
    | linked made =>
      obtain ⟨_, target, _, rfl, _⟩ := allowed
      exact absurd (List.mem_singleton.mp named) (SessionKey.path_ne_blob key target)
    | _ => exact .inl staged
  · rw [outcome.files named] at staged
    exact .inl staged

section

variable {action : DiskAction} {response : DiskResponse action} {after : Disk} {node : Nat}
  (verifiable : Verifiable env world notes)
  (allowed : (discipline env faultless).allowed (notes index) (.disk action))
  (outcome : world.disk.Outcome after action response)

include verifiable allowed outcome

/-- The disk stays intact. -/
theorem Verifiable.intact_after : Intact env after := by
  have intact := verifiable.intact
  have knows := verifiable.knows index
  have written : ∀ {node}, action.written = some node → ∀ data,
      Intact env (world.disk.setContent node data) := by
    intro node writes data
    obtain ⟨key, mutex, holds, opened, _⟩ := allowed_written allowed writes
    exact intact.setContent
      ((verifiable.guarded.sees index).opened key mutex node holds opened) data
  have traced := outcome.traced (notes index)
  generalize observe (notes index) (.disk action) response = later at traced
  cases traced with
  | created free =>
    obtain ⟨key, _, _, _, rfl⟩ := allowed
    exact intact.add fun blob same => absurd same (BlobKey.path_ne_session blob key)
  | wrote => exact written rfl _
  | spoiled writes => exact written writes _
  | unlinked present here | removed elsewhere => exact intact.unname _
  | renamed found =>
    obtain ⟨key, mutex, holds, rfl, _, _, opened, blob, rfl, bytes, content, hashes⟩ := allowed
    obtain ⟨node, opened⟩ := Option.isSome_iff_exists.mp opened
    have staged := (verifiable.guarded.sees index).opened key mutex node holds opened
    cases found.symm.trans staged
    refine (intact.unname key.path).name (intact.bounded _ node staged)
      (fun other => ⟨fun named => ?_, fun same => absurd same (SessionKey.path_ne_blob other blob)⟩)
      fun other same => ?_
    · by_cases same : other.path = key.path
      · rw [same, Disk.files_setFile_self] at named
        cases named
      rw [Disk.files_setFile_of_ne same] at named
      exact same (intact.staging key other.path node staged named)
    rw [Disk.content_setFile, knows.content key mutex node bytes holds opened content,
      BlobKey.path_inj.mp same]
    exact hashes
  | published free =>
    refine intact.add fun blob same => ?_
    rcases allowed with ⟨repo, rfl⟩ | ⟨other, rfl, hashes⟩
    · exact absurd same (BlobKey.path_ne_marker blob repo)
    rw [BlobKey.path_inj.mp same]
    exact hashes
  | linked made =>
    obtain ⟨source, target, opened, rfl, digest⟩ := allowed
    obtain ⟨within, unstaged, hashes⟩ := knows.source _ source opened
    rw [digest] at hashes
    have hashes : ∀ blob : BlobKey, blob.path = target.path → Hashes env blob.digest _ :=
      fun blob same => BlobKey.path_inj.mp same ▸ hashes
    rcases made with rfl | rfl
    · exact intact.name within (fun key => ⟨unstaged key, fun same =>
        absurd same (SessionKey.path_ne_blob key target)⟩) hashes
    · exact intact.add hashes
  | _ => exact intact

/-- A staging file is written to by the call that holds its session only. -/
theorem Verifiable.content_after {key : SessionKey}
    (staged : world.disk.files key.path = some (.regular node)) :
    after.content node = world.disk.content node ∨
      ∃ mutex, (notes index).Holds key mutex ∧ (notes index).taken = true := by
  by_cases written : action.written = some node
  · obtain ⟨held, mutex, holds, opened, taken⟩ := allowed_written allowed written
    have found := (verifiable.guarded.sees index).opened held mutex node holds opened
    cases SessionKey.path_inj.mp (verifiable.intact.staging key held.path node staged found)
    exact .inr ⟨mutex, holds, taken⟩
  · exact .inl (outcome.content (verifiable.intact.bounded _ node staged) written)

/-- Nothing is written to a blob that was opened. -/
theorem Verifiable.source_after (outside : Outside (.disk action)) (knows : Knows env world known)
    {blob : BlobKey} (opened : known.source = some (node, blob.path)) :
    node < after.nodes.length ∧
      (∀ key : SessionKey, after.files key.path ≠ some (.regular node)) ∧
      Hashes env blob.digest (after.content node) := by
  obtain ⟨within, unstaged, hashes⟩ := knows.source node blob opened
  refine ⟨within.trans_le outcome.length_le, fun key staged => ?_, ?_⟩
  · rcases verifiable.guarded.staged_before allowed outside outcome staged with found | ⟨_, fresh⟩
    · exact unstaged key found
    cases fresh
    exact Nat.lt_irrefl _ within
  rw [outcome.content within]
  · exact hashes
  intro written
  obtain ⟨key, mutex, holds, noted, _⟩ := allowed_written allowed written
  exact unstaged key ((verifiable.guarded.sees index).opened key mutex node holds noted)

theorem Verifiable.observed_content
    (traced : Traced (notes index) world.disk action response after later) :
    (later.node = none → later.content = none) ∧
    ∀ key mutex node bytes, (notes index).Holds key mutex → later.node = some node →
      later.content = some bytes → after.content node = bytes := by
  have knows := verifiable.knows index
  have within : ∀ {key mutex node}, (notes index).Holds key mutex →
      (notes index).node = some node → node < world.disk.nodes.length := fun holds opened =>
    verifiable.intact.bounded _ _ ((verifiable.guarded.sees index).opened _ _ _ holds opened)
  -- nothing is noted, and nothing is written
  have kept : action.written = none → later.node = (notes index).node →
      later.content = (notes index).content → (later.node = none → later.content = none) ∧
      ∀ key mutex node bytes, (notes index).Holds key mutex → later.node = some node →
        later.content = some bytes → after.content node = bytes := by
    intro unwritten node content
    rw [node, content]
    refine ⟨knows.unopened, fun key mutex node bytes holds opened noted => ?_⟩
    rw [outcome.content (within holds opened) (by rw [unwritten]; nofun)]
    exact knows.content key mutex node bytes holds opened noted
  cases traced with
  | created free =>
    refine ⟨nofun, fun key mutex node bytes _ opened noted => ?_⟩
    cases opened
    cases noted
    exact Disk.content_add_new _ _
  | opened named here =>
    refine ⟨nofun, fun key mutex node bytes holds opened noted => ?_⟩
    cases opened
    rcases before : (notes index).node with _ | earlier
    · exact nomatch (knows.unopened before).symm.trans noted
    have staged := (verifiable.guarded.sees index).opened key mutex earlier holds before
    rw [(holds.isAt_iff _).mp here] at staged
    cases named.symm.trans staged
    exact knows.content key mutex _ bytes holds before noted
  | learned unwritten open_ =>
    refine ⟨fun absent => (nomatch open_.symm.trans absent),
      fun key mutex node bytes _ opened noted => ?_⟩
    cases open_.symm.trans opened
    cases noted
    rfl
  | wrote =>
    obtain ⟨held, locked, also, noted, _⟩ := allowed
    refine ⟨fun absent => (nomatch noted.symm.trans absent),
      fun key mutex node bytes holds opened written => ?_⟩
    cases noted.symm.trans opened
    obtain ⟨before, content, rfl⟩ := Option.map_eq_some_iff.mp written
    rw [Disk.content_setContent (within holds noted),
      knows.content key mutex _ before holds noted content]
  | spoiled written | failed | unlinked present here | renamed found | refused =>
    exact ⟨fun _ => rfl, nofun⟩
  | nothing unwritten => exact kept unwritten rfl rfl
  | _ => exact kept rfl rfl rfl

end

section

variable (verifiable : Verifiable env world notes)

include verifiable

theorem Verifiable.step_disk {action : DiskAction} {response : DiskResponse action}
    (allowed : (discipline env faultless).allowed (notes index) (.disk action))
    (outside : Outside (.disk action))
    (performed : perform reader world index (.disk action) choice = some (next, response)) :
    Verifiable env next (update notes index (observe (notes index) (.disk action) response)) := by
  have guarded := verifiable.guarded.step_disk allowed
    (fun path data equal index key mutex _ => outside.unstaged key path data equal) performed
  obtain ⟨after, rfl, outcome⟩ := perform_disk performed
  obtain ⟨_, _, _, _, observed⟩ := observe_disk (notes index) action response
  have intact := verifiable.intact_after allowed outcome
  have covered := verifiable.covered
  refine ⟨guarded, intact, covered.of_old rfl (fun _ _ entry => entry) (.inr (by rw [observed]))
    fun key mutex hash own kept => ?_, knows_update ?_ fun other different => ?_⟩
  · obtain ⟨finished, bytes⟩ := covered.slots key mutex hash own kept
    refine ⟨finished, fun node staged => ?_⟩
    rcases verifiable.guarded.staged_before allowed outside outcome staged with found | ⟨pending, _⟩
    · rcases verifiable.content_after allowed outcome found with same | ⟨locked, holds, taken⟩
      · exact same.trans (bytes node found)
      -- whoever writes has taken the hash out of the mutex
      have live : world.Live key := .inr (congrArg Option.isSome found)
      cases own.unique verifiable.guarded live (.inr ⟨index, holds.1⟩)
      exact nomatch ((verifiable.knows index).taken key mutex holds taken).symm.trans kept
    · exact nomatch finished.symm.trans pending
  · have traced := outcome.traced (notes index)
    obtain ⟨unopened, content⟩ := verifiable.observed_content allowed outcome traced
    refine ⟨unopened, ?_, ?_, fun node blob opened => ?_⟩
    · rw [observed] at content ⊢
      exact content
    · rw [observed]
      exact (verifiable.knows index).taken
    have before : (notes index).source = some (node, blob.path) → _ :=
      verifiable.source_after allowed outcome outside (verifiable.knows index)
    generalize observe (notes index) (.disk action) response = later at traced opened
    cases traced with
    | found named =>
      cases opened
      exact ⟨verifiable.intact.bounded _ node named,
        fun key staged => verifiable.intact.not_blob staged named,
        verifiable.intact.blobs blob node named⟩
    | _ => exact before opened
  · have knows := verifiable.knows other
    refine ⟨knows.unopened, fun key mutex node bytes holds opened noted => ?_, knows.taken,
      fun node blob opened => verifiable.source_after allowed outcome outside knows opened⟩
    have staged := (verifiable.guarded.sees other).opened key mutex node holds opened
    rcases verifiable.content_after allowed outcome staged with same | ⟨locked, also, _⟩
    · exact same.trans (knows.content key mutex node bytes holds opened noted)
    exact absurd (verifiable.guarded.exclusive (.inr (congrArg Option.isSome staged)) holds also)
      different

/-! ## Runs -/

theorem Verifiable.elsewhere (rest : World) : Verifiable env { rest with
      disk := world.disk, uploads := world.uploads, sessions := world.sessions } notes := by
  have covered := verifiable.covered
  refine ⟨verifiable.guarded.elsewhere rest, verifiable.intact, { covered with }, fun index => ?_⟩
  have knows := verifiable.knows index
  exact { knows with }

/-- Step lemma. -/
theorem Verifiable.keeps {action : Action} {response : Response action}
    (allowed : (discipline env faultless).allowed (notes index) action)
    (parted : Parted world notes action) (outside : Outside action)
    (performed : perform reader world index action choice = some (next, response)) :
    Verifiable env next (update notes index (observe (notes index) action response)) := by
  cases action with
  | disk action => exact verifiable.step_disk allowed outside performed
  | uploads action =>
    exact verifiable.step_uploads allowed (verifiable.guarded.keeps allowed parted performed)
      performed
  | sessions action => exact verifiable.step_sessions allowed performed
  | _ =>
    obtain ⟨rest, rfl⟩ := perform_elsewhere (by trivial) performed
    rw [observe_elsewhere (by trivial), Function.update_eq_self]
    exact verifiable.elsewhere rest

theorem Verifiable.abandon (index : Nat) :
    Verifiable env (world.abandon index) (update notes index {}) := by
  have values : ∀ mutex, (world.abandon index).uploads.value mutex = world.uploads.value mutex :=
    fun _ => LockMap.value_abandon
  have covered := verifiable.covered
  refine ⟨verifiable.guarded.abandon index, verifiable.intact,
    covered.of_old rfl (fun _ _ entry => entry) (.inl rfl) fun key mutex hash own kept =>
      covered.slots key mutex hash own ((values mutex).symm.trans kept),
    knows_update (knows_idle env _) fun other _ => ?_⟩
  have knows := verifiable.knows other
  exact { knows with
    taken := fun key mutex holds took => (values mutex).trans (knows.taken key mutex holds took) }

end

end

/-- The locks exclude, a request is dropped only when none of its jobs is under
way, and no marker is put into an upload directory. -/
def writesGuarded : Conditions World Request Action Response Reply Notes where
  calls _ := True
  actions system index action response :=
    entriesKept.actions system index action response ∧ Outside action
  drops action := action.waits = true

theorem verifiable_preserved (env : Env) :
    (sessionStore env).Preserves writesGuarded (fun _ => discipline env false)
      (fun _ _ reached => Notes.SameSession {} reached) (Verifiable env) where
  codes request _ := obeys_code request
  expects _ _ _ _ _ _ _ performed verifiable _ := verifiable.guarded.expects performed
  keeps _ _ _ _ _ _ condition allowed performed verifiable :=
    verifiable.keeps allowed.choose_spec (parted_of_entriesKept condition.1) condition.2 performed
  drops _ _ _ _ waits _ := .inl (congrArg not waits)
  abandons _ _ _ _ index verifiable := verifiable.abandon index

theorem verifiable_of_unlocked {env : Env} {world : World} (fresh : world.uploads = {})
    (intact : Intact env world.disk) : Verifiable env world fun _ => {} := by
  have none : ∀ key mutex, ¬ MutexOf world.uploads (fun _ => {}) key mutex := by
    rintro key mutex (entry | ⟨_, lock⟩)
    · rw [fresh] at entry
      cases entry
    · cases lock
  exact ⟨⟨fun key mutex entry => absurd (.inl entry) (none key mutex),
    fun index => sees_idle _ index⟩, intact,
    ⟨fun key mutex entry => absurd (.inl entry) (none key mutex),
      fun first _ mutex one => absurd one (none first mutex),
      fun key mutex _ own => absurd own (none key mutex)⟩, fun _ => knows_idle env _⟩

/-- Every blob on disk has the digest in its name. -/
theorem published_blobs_verified (env : Env) {start final : Store}
    {events : List (Event Request Choice)}
    (run : Reaches (sessionStore env).step ((sessionStore env).Permitted writesGuarded)
      start events final)
    (unused : start.threads = []) (fresh : start.world.uploads = {})
    (intact : Intact env start.world.disk) (blob : BlobKey) (bytes : Bytes)
    (published : final.world.disk.bytesAt blob.path = some bytes) :
    env.digestOf bytes blob.digest.algorithm = blob.digest := by
  have verifiable := ((verifiable_preserved env).run run unused
    (verifiable_of_unlocked fresh intact)).holds
  unfold Disk.bytesAt at published
  split at published
  · rename_i node found
    cases published
    exact verifiable.intact.blobs blob node found
  · cases published

/-! ## An upload that is written, and a write that comes late -/

def letterX : Digest where
  algorithm := "sha256"
  hex := "2d711642b726b04401627ca9fbac32f5c8530fb1903cc4db02258717921a4881"
  length_eq := by decide
  digits := by decide

/-- Two bodies, told apart by their hash. -/
def twoBodies : Env where
  reader := JsonText.reader
  crc32c := crc32c
  digestOf data _ := if data = [] then .ofNothing else letterX

theorem intact_empty (env : Env) : Intact env {} where
  bounded _ _ impossible := nomatch impossible
  staging _ _ _ impossible := nomatch impossible
  blobs _ _ impossible := nomatch impossible

instance (action : Action) : Decidable (Outside action) := by
  apply @Action.casesOn _ action <;> intros <;> try exact isTrue trivial
  rename_i action
  apply @DiskAction.casesOn _ action <;> intros <;>
    first | exact isTrue trivial | exact instDecidableNot

instance (system : Store) (index : Nat) (action : Action) (response : Response action) :
    Decidable (writesGuarded.actions system index action response) :=
  inferInstanceAs (Decidable (_ ∧ _))

instance (request : Request) : Decidable (writesGuarded.calls request) := isTrue trivial

instance (action : Action) : Decidable (writesGuarded.drops action) :=
  inferInstanceAs (Decidable (action.waits = true))

def letter : Bytes := utf8 "x"

def appendLetter : Request := .appendUpload zeroSession [.ok letter] none 10

def letterEvents : List (Event Request Choice) :=
  beginZero ++ .start appendLetter :: runs 1 15 ++
    .start (.finishUpload zeroSession letterX 10 [] 10) :: runs 2 36

theorem letter_published :
    ∃ final : Store, Reaches (sessionStore twoBodies).step
        ((sessionStore twoBodies).Permitted writesGuarded) { world := {} } letterEvents final ∧
      final.world.disk.bytesAt (BlobKey.path ⟨app, letterX⟩) = some letter ∧
      twoBodies.digestOf letter "sha256" = letterX := by
  obtain ⟨final, run, published⟩ := @exists_run_of_execute _ _ (sessionStore twoBodies).step
    ((sessionStore twoBodies).Permitted writesGuarded) _ { world := {} } letterEvents
    (·.world.disk.bytesAt (BlobKey.path ⟨app, letterX⟩) = some letter) _ (by decide +kernel)
  exact ⟨final, run, published, published_blobs_verified twoBodies run rfl rfl
    (intact_empty twoBodies) ⟨app, letterX⟩ letter published⟩

/-- The client goes away while the letter is being written.  Before the write
happens, the session, still empty, is finished as the empty blob. -/
def lateWriteEvents : List (Event Request Choice) :=
  beginZero ++ .start appendLetter :: runs 1 10 ++ .drop 1 ::
    .start (finishEmpty zeroSession) :: runs 2 36 ++ runs 1 1

theorem late_write_corrupts_blob :
    ∃ final : Store, Reaches (sessionStore twoBodies).step
        ((sessionStore twoBodies).Permitted .any) { world := {} } lateWriteEvents final ∧
      final.world.disk.bytesAt (BlobKey.path ⟨app, .ofNothing⟩) = some letter ∧
      twoBodies.digestOf letter Digest.ofNothing.algorithm ≠ .ofNothing :=
  exists_run_of_execute (by decide +kernel)

end Roci.Filesystem
