import Roci.Library.Transition
import Roci.Metadata.Store

/-!
# What acknowledged operations are owed

The invariant speaks about every point at which a crash may cut the log: the
log cut there replays a history that contains every durable operation and only
issued ones, in the order they were issued.  It is kept by every event as long
as successful appends go to an intact log.  What it means for a log to replay a
history is a parameter: to contain its operations, or to lead to the same
state, which is what compaction preserves.
-/

namespace Roci.Metadata

open Roci.Library

/-- A way to compare what a log replays with a history of operations. -/
structure Reading where
  Same : List MetaOp → List MetaOp → Prop
  nil : Same [] []
  append : ∀ {replayed history : List MetaOp} (more : List MetaOp),
    Same replayed history → Same (replayed ++ more) (history ++ more)

/-- A reading that further replayed operations do not disturb. -/
def Reading.Extensible (reading : Reading) : Prop :=
  ∀ {replayed longer history : List MetaOp}, replayed <+: longer →
    reading.Same replayed history → reading.Same longer history

/-- The history is replayed in order, possibly among other operations. -/
def Reading.contains : Reading where
  Same replayed history := history.Sublist replayed
  nil := List.Sublist.refl _
  append _ same := same.append (List.Sublist.refl _)

theorem Reading.contains_extensible : Reading.contains.Extensible :=
  fun longer contained => contained.trans longer.sublist

/-- What is replayed leads to the state the history leads to. -/
def Reading.upToState (reader : JsonReader) : Reading where
  Same replayed history :=
    State.Equiv (replayed.foldl (State.applyInRam reader) {})
      (history.foldl (State.applyInRam reader) {})
  nil := State.Equiv.refl _
  append more same := by
    rw [List.foldl_append, List.foldl_append]
    exact same.foldl reader more

/-- Acknowledged, or covered by a completed sync. -/
def Issued.durable (synced : Nat) (entry : Issued) : Bool :=
  entry.acked || entry.ticket.any (· ≤ synced)

/-- Acknowledged, or written by the running process. -/
def Issued.live (entry : Issued) : Bool := entry.acked || entry.ticket.isSome

variable {next : Store}

namespace Store

/-- The operations of the issued entries that pass a test, in order. -/
def select (store : Store) (test : Issued → Bool) : List MetaOp :=
  (store.issued.filter test).map Issued.op

/-- The operations `apply` acknowledged, in append order. -/
def acked (store : Store) : List MetaOp := store.select Issued.acked

/-- The open handle, if any, is on the file at the log path. -/
def Current (store : Store) : Prop := ∀ inode, store.log = some inode → store.logPath = some inode

def Keeps (config : Config) (reading : Reading) (store : Store)
    (bytes : Bytes) (owed : List MetaOp) : Prop :=
  ∃ history, reading.Same (openedOps config.env config.key bytes) history ∧
    owed.Sublist history ∧ history.Sublist (store.issued.map Issued.op)

structure Sound (config : Config) (reading : Reading) (store : Store) :
    Prop where
  cuts : ∀ count, store.logFile.synced.length ≤ count →
    store.Keeps config reading (store.logBytes.take count)
      (store.select (Issued.durable store.synced))
  whole : store.Keeps config reading store.logBytes (store.select Issued.live)
  stale : ¬ store.Current → store.logFile.unsynced = []
  sameHandle : store.syncHandle = store.log
  opened : ∀ inode, store.log = some inode →
    ∃ file, store.files[inode]? = some file ∧ file.content ≠ []
  exists_path : ∀ inode, store.logPath = some inode → inode < store.files.length
  syncedBound : store.synced ≤ store.appended
  tickets : ∀ entry ∈ store.issued, ∀ ticket, entry.ticket = some ticket →
    ticket ≤ store.appended
  waitingBound : ∀ seq ∈ store.waiting, seq ≤ store.appended
  coveredBound : ∀ seq covered, store.committing = some (seq, covered) →
    seq ≤ covered ∧ covered ≤ store.appended

/-! ## Selections -/

theorem select_sublist (store : Store) {weaker stronger : Issued → Bool}
    (implies : ∀ entry, stronger entry = true → weaker entry = true) :
    (store.select stronger).Sublist (store.select weaker) :=
  (List.monotone_filter_right _ implies).map _

theorem select_durable_sublist_live (store : Store) (synced : Nat) :
    (store.select (Issued.durable synced)).Sublist (store.select Issued.live) := by
  apply store.select_sublist
  intro entry durable
  simp only [Issued.durable, Issued.live, Bool.or_eq_true] at durable ⊢
  rcases durable with acked | covered
  · exact .inl acked
  cases ticket : entry.ticket with
  | none => simp [ticket] at covered
  | some number => exact .inr rfl

theorem acked_sublist_durable (store : Store) (synced : Nat) :
    store.acked.Sublist (store.select (Issued.durable synced)) := by
  apply store.select_sublist
  intro entry acked
  simp [Issued.durable, acked]

theorem Keeps.weaken {config : Config} {reading : Reading} {store : Store}
    {bytes : Bytes} {owed less : List MetaOp} (keeps : store.Keeps config reading bytes owed)
    (sublist : less.Sublist owed) : store.Keeps config reading bytes less := by
  obtain ⟨history, same, contained, issued⟩ := keeps
  exact ⟨history, same, sublist.trans contained, issued⟩

theorem Keeps.later {config : Config} {reading : Reading} {store : Store} {bytes : Bytes}
    {owed : List MetaOp} (keeps : store.Keeps config reading bytes owed)
    (issued : (store.issued.map Issued.op).Sublist (next.issued.map Issued.op)) :
    next.Keeps config reading bytes owed := by
  obtain ⟨history, same, contained, known⟩ := keeps
  exact ⟨history, same, contained, known.trans issued⟩

/-- What the next append writes. -/
abbrev added (config : Config) (store : Store) (op : MetaOp) : Bytes :=
  appendedBytes config.env config.key store.logBytes op

/-! ## Appending -/

variable {test : Issued → Bool}

section Append

variable {config : Config} {reading : Reading} {store : Store}
  {owed : List MetaOp} {op : MetaOp} {inode : Nat}

theorem logFile_write (path : store.logPath = some inode) (present : inode < store.files.length)
    (bytes : Bytes) :
    (store.write inode bytes).logFile = store.logFile.write bytes := by
  have found : store.files[inode]? = some store.files[inode] := List.getElem?_eq_getElem present
  simp [logFile, write, path, found]

theorem logBytes_write (path : store.logPath = some inode) (present : inode < store.files.length)
    (bytes : Bytes) :
    (store.write inode bytes).logBytes = store.logBytes ++ bytes := by
  rw [logBytes, logFile_write path present]
  simp [logBytes, LogFile.content, LogFile.write]

theorem Keeps.append (keeps : store.Keeps config reading store.logBytes owed)
    (intact : Intact config.env config.key store.logBytes) (storable : Storable op)
    (issued : next.issued.map Issued.op = store.issued.map Issued.op ++ [op]) (count : Nat) :
    next.Keeps config reading
      (store.logBytes ++ (store.added config op).take count)
      (owed ++ if (store.added config op).length ≤ count
        then [op] else []) := by
  obtain ⟨history, same, contained, known⟩ := keeps
  refine ⟨history ++ if (store.added config op).length ≤ count
    then [op] else [], ?_, contained.append (List.Sublist.refl _), ?_⟩
  · rw [openedOps_append_take config.env config.key intact storable]
    exact reading.append _ same
  rw [issued]
  apply known.append
  split
  · exact List.Sublist.refl _
  · exact List.nil_sublist _

theorem Sound.cuts_append (sound : store.Sound config reading)
    (intact : Intact config.env config.key store.logBytes) (storable : Storable op)
    (issued : next.issued.map Issued.op = store.issued.map Issued.op ++ [op]) (written count : Nat)
    (reached : store.logFile.synced.length ≤ count) :
    next.Keeps config reading
      ((store.logBytes ++ (store.added config op).take written).take count)
      (store.select (Issued.durable store.synced)) := by
  rcases Nat.lt_or_ge store.logBytes.length count with beyond | within
  · rw [List.take_append, List.take_of_length_le beyond.le, List.take_take]
    apply (Keeps.append sound.whole intact storable issued _).weaken
    exact (store.select_durable_sublist_live store.synced).trans (List.sublist_append_left _ _)
  rw [List.take_append_of_le_length within]
  refine (sound.cuts count reached).later ?_
  rw [issued]
  exact List.sublist_append_left _ _

theorem opened_write (sound : store.Sound config reading) (inode : Nat) (bytes : Bytes) :
    ∀ other, store.log = some other →
      ∃ file, (store.write inode bytes).files[other]? = some file ∧ file.content ≠ [] := by
  intro other open'
  obtain ⟨file, found, nonempty⟩ := sound.opened other open'
  by_cases same : inode = other
  · subst same
    refine ⟨file.write bytes, by simp [write, found], ?_⟩
    intro empty
    apply nonempty
    simp only [LogFile.content, LogFile.write, List.append_eq_nil_iff] at empty ⊢
    exact ⟨empty.1, empty.2.1⟩
  · exact ⟨file, by simp [write, same, found], nonempty⟩

theorem issued_reject (op : MetaOp) :
    (store.reject op).issued.map Issued.op = store.issued.map Issued.op ++ [op] := by
  simp [reject]

theorem select_reject (fails : test ⟨op, none, false⟩ = false) :
    (store.reject op).select test = store.select test := by
  simp [select, reject, List.filter_append, fails]

theorem Sound.reject (sound : store.Sound config reading) (op : MetaOp) :
    (store.reject op).Sound config reading := by
  have more : (store.issued.map Issued.op).Sublist ((store.reject op).issued.map Issued.op) := by
    rw [issued_reject]
    exact List.sublist_append_left _ _
  exact { sound with
    cuts := by
      intro count reached
      rw [select_reject rfl]
      exact (sound.cuts count reached).later more
    whole := by
      rw [select_reject rfl]
      exact sound.whole.later more
    tickets := by
      intro entry membership ticket numbered
      rcases List.mem_append.mp membership with earlier | latest
      · exact sound.tickets entry earlier ticket numbered
      rw [List.mem_singleton.mp latest] at numbered
      cases numbered }

theorem Sound.rejected (sound : store.Sound config reading) (path : store.logPath = some inode)
    (current : store.Current) (op : MetaOp) (bytes : Bytes)
    (cuts : ∀ count, store.logFile.synced.length ≤ count →
      ((store.write inode bytes).reject op).Keeps config reading
        ((store.logBytes ++ bytes).take count) (store.select (Issued.durable store.synced)))
    (whole : ((store.write inode bytes).reject op).Keeps config reading
      (store.logBytes ++ bytes) (store.select Issued.live)) :
    ((store.write inode bytes).reject op).Sound config reading := by
  have present := sound.exists_path inode path
  have content : ((store.write inode bytes).reject op).logBytes = store.logBytes ++ bytes :=
    logBytes_write path present bytes
  have file : ((store.write inode bytes).reject op).logFile = store.logFile.write bytes :=
    logFile_write path present bytes
  exact { sound.reject op with
    cuts := by
      intro count reached
      rw [content, select_reject rfl]
      rw [file] at reached
      exact cuts count reached
    whole := by
      rw [content, select_reject rfl]
      exact whole
    stale := fun notCurrent => absurd current notCurrent
    opened := opened_write sound inode bytes
    exists_path := by
      intro other path
      simpa [Store.reject, write] using sound.exists_path other path }

/-- What a write that fails leaves of a record adds nothing to what the log is
read as, or just the operation. -/
def Harmless (config : Config) (reading : Reading) (store : Store) (op : MetaOp)
    (written : Nat) : Prop :=
  ∀ count ≤ written, ∀ history,
    reading.Same (openedOps config.env config.key store.logBytes) history →
      ∃ tail, tail.Sublist [op] ∧ reading.Same (openedOps config.env config.key
        (store.logBytes ++ (store.added config op).take count)) (history ++ tail)

theorem harmless_of_extensible (extensible : reading.Extensible) (written : Nat) :
    store.Harmless config reading op written := by
  intro count _ history same
  refine ⟨[], List.nil_sublist _, ?_⟩
  rw [List.append_nil]
  exact extensible (openedOps_append_extends _ _ _ _) same

theorem Keeps.extend {written : Nat} (harmless : store.Harmless config reading op written)
    (keeps : store.Keeps config reading store.logBytes owed)
    (issued : next.issued.map Issued.op = store.issued.map Issued.op ++ [op]) {count : Nat}
    (within : count ≤ written) :
    next.Keeps config reading (store.logBytes ++ (store.added config op).take count) owed := by
  obtain ⟨history, same, contained, known⟩ := keeps
  obtain ⟨tail, atMost, sameMore⟩ := harmless count within history same
  refine ⟨history ++ tail, sameMore, contained.trans (List.sublist_append_left _ _), ?_⟩
  rw [issued]
  exact known.append atMost

section

variable (sound : store.Sound config reading)

include sound

theorem Sound.reject_written {written : Nat} (harmless : store.Harmless config reading op written)
    (path : store.logPath = some inode) (current : store.Current) :
    ((store.write inode ((store.added config op).take written)).reject op).Sound config
      reading := by
  apply sound.rejected path current
  · intro count reached
    rcases Nat.lt_or_ge store.logBytes.length count with beyond | within
    · rw [List.take_append, List.take_of_length_le beyond.le, List.take_take]
      exact (sound.whole.weaken (store.select_durable_sublist_live store.synced)).extend
        harmless (issued_reject op) (Nat.min_le_right _ _)
    rw [List.take_append_of_le_length within]
    refine (sound.cuts count reached).later ?_
    rw [issued_reject]
    exact List.sublist_append_left _ _
  · exact sound.whole.extend harmless (issued_reject op) le_rfl

theorem Sound.write_elsewhere (elsewhere : store.logPath ≠ some inode) (bytes : Bytes) :
    (store.write inode bytes).Sound config reading := by
  have file : (store.write inode bytes).logFile = store.logFile := by
    rcases path : store.logPath with _ | other
    · simp [logFile, write, path]
    have different : inode ≠ other := by
      rintro rfl
      exact elsewhere path
    simp [logFile, write, path, different]
  exact { sound with
    cuts := by
      rw [logBytes, file]
      exact sound.cuts
    whole := by
      rw [logBytes, file]
      exact sound.whole
    stale := by
      rw [file]
      exact sound.stale
    opened := opened_write sound inode bytes
    exists_path := by
      intro other path
      simpa [write] using sound.exists_path other path }

/-- A successful append to the file at the log path, whose handle is kept. -/
theorem Sound.accept_written
    (path : store.logPath = some inode) (intact : Intact config.env config.key store.logBytes)
    (storable : Storable op) (durable : Bool) :
    ({ store.write inode (store.added config op) with
        log := some inode
        syncHandle := some inode }.accept config op durable).Sound config reading := by
  have present := sound.exists_path inode path
  have nonempty := appendedBytes_ne_nil config.env config.key store.logBytes op
  generalize shape : { store.write inode
      (store.added config op) with
        log := some inode
        syncHandle := some inode }.accept config op durable = next
  have issued : next.issued.map Issued.op = store.issued.map Issued.op ++ [op] := by
    simp [← shape, accept, write]
  have file : next.logFile = store.logFile.write (store.added config op) := by
    rw [← shape]
    exact logFile_write path present _
  have content : next.logBytes = store.logBytes ++ store.added config op := by
    rw [← shape]
    exact logBytes_write path present _
  have durableSame : next.select (Issued.durable next.synced) =
      store.select (Issued.durable store.synced) := by
    have notYet : ¬ store.appended + 1 ≤ store.synced := by
      have := sound.syncedBound
      omega
    simp [← shape, select, accept, write, List.filter_append, Issued.durable, notYet]
  have liveMore : next.select Issued.live = store.select Issued.live ++ [op] := by
    simp [← shape, select, accept, write, List.filter_append, Issued.live]
  have whole := Keeps.append sound.whole intact storable issued (store.added config op).length
  subst shape
  exact {
    cuts := by
      intro count reached
      rw [file] at reached
      have cut := sound.cuts_append intact storable issued
        (store.added config op).length count reached
      rw [content, durableSame]
      rwa [List.take_length] at cut
    whole := by
      rw [content, liveMore]
      rwa [List.take_length, if_pos le_rfl] at whole
    stale := by
      intro notCurrent
      refine absurd ?_ notCurrent
      intro other open'
      cases open'
      exact path
    sameHandle := rfl
    opened := by
      intro other open'
      cases open'
      have found : store.files[inode]? = some store.files[inode] := List.getElem?_eq_getElem present
      refine ⟨store.files[inode].write
        (store.added config op), by simp [accept, write, found],
        ?_⟩
      simp [LogFile.content, LogFile.write, nonempty]
    exists_path := by
      intro other path
      simpa [accept, write] using sound.exists_path other path
    syncedBound := le_trans sound.syncedBound (Nat.le_succ _)
    tickets := by
      intro entry membership ticket numbered
      rcases List.mem_append.mp membership with earlier | latest
      · exact le_trans (sound.tickets entry earlier ticket numbered) (Nat.le_succ _)
      rw [List.mem_singleton.mp latest] at numbered
      cases numbered
      exact le_rfl
    waitingBound := by
      intro seq membership
      simp only [accept] at membership ⊢
      split at membership
      · rcases List.mem_cons.mp membership with rfl | earlier
        · exact le_rfl
        · exact le_trans (sound.waitingBound seq earlier) (Nat.le_succ _)
      · exact le_trans (sound.waitingBound seq membership) (Nat.le_succ _)
    coveredBound := by
      intro seq covered loaded
      obtain ⟨reaches, bounded⟩ := sound.coveredBound seq covered loaded
      exact ⟨reaches, le_trans bounded (Nat.le_succ _)⟩ }

theorem Sound.openLog (closed : store.log = none) :
    store.openLog.1.Sound config reading ∧ store.openLog.1.logPath = some store.openLog.2 ∧
      store.openLog.1.logBytes = store.logBytes ∧ store.openLog.1.log = none := by
  cases path : store.logPath with
  | some inode =>
    simp only [Store.openLog, path]
    exact ⟨sound, trivial, trivial, closed⟩
  | none =>
    have same : store.openLog.1.logFile = store.logFile := by
      simp [Store.openLog, path, logFile]
    have bytes : store.openLog.1.logBytes = store.logBytes := by rw [logBytes, same, logBytes]
    have created : store.openLog.1 = { store with
        files := store.files ++ [{}], logPath := some store.files.length } := by
      simp [Store.openLog, path]
    refine ⟨?_, by simp [Store.openLog, path], bytes, by rw [created]; exact closed⟩
    rw [created] at same bytes ⊢
    exact { sound with
      cuts := by
        intro count reached
        rw [same] at reached
        rw [bytes]
        exact sound.cuts count reached
      whole := by
        rw [bytes]
        exact sound.whole
      stale := by
        intro notCurrent
        refine absurd ?_ notCurrent
        intro other open'
        rw [show _ = store.log from rfl, closed] at open'
        cases open'
      opened := by
        intro other open'
        rw [show _ = store.log from rfl, closed] at open'
        cases open'
      exists_path := by
        intro other named
        cases named
        simp }

theorem Sound.appendedBytes_open
    (open' : store.log = some inode) (path : store.logPath = some inode) (op : MetaOp) :
    store.added config op = encodeRecord config.env config.key op := by
  obtain ⟨file, found, nonempty⟩ := sound.opened inode open'
  have content : store.logBytes ≠ [] := by
    simpa [logBytes, logFile, path, found] using nonempty
  rw [added, appendedBytes, if_neg content]

end

/-- An append that ends as it does leaves something readable behind: a successful
one goes to an intact log through a current handle, and what another one writes to
the file at the log path is harmless. -/
def Lands (config : Config) (reading : Reading) (store : Store) (op : MetaOp) :
    WriteOutcome → Prop
  | .done => Storable op ∧ Intact config.env config.key store.logBytes ∧ store.Current
  | .writeFails written => store.Current → store.Harmless config reading op written
  | _ => True

/-- Step lemma: appends. -/
theorem Sound.append (sound : store.Sound config reading) {durable : Bool} {outcome : WriteOutcome}
    (lands : store.Lands config reading op outcome)
    (stepped : store.append config op durable outcome = some next) : next.Sound config reading := by
  cases closed : store.log with
  | some inode =>
    cases outcome with
    | writeFails written =>
      simp only [Store.append, closed, Option.some.injEq] at stepped
      rw [← stepped]
      by_cases path : store.logPath = some inode
      · have current : store.Current := by
          intro other open'
          rw [closed] at open'
          cases open'
          exact path
        rw [← sound.appendedBytes_open closed path op]
        exact sound.reject_written (lands current) path current
      · exact (sound.write_elsewhere path _).reject op
    | done =>
      obtain ⟨storable, intact, current⟩ := lands
      have path := current inode closed
      have record := sound.appendedBytes_open closed path op
      simp only [Store.append, closed, Option.some.injEq] at stepped
      have handle : store.syncHandle = some inode := sound.sameHandle.trans closed
      have accepted := sound.accept_written path intact storable durable
      rw [← stepped, ← record]
      rwa [show { store.write inode
          (store.added config op) with
            log := some inode, syncHandle := some inode } =
          store.write inode (store.added config op) by
        simp [write, handle, closed]] at accepted
    | _ => simp [Store.append, closed] at stepped
  | none =>
    obtain ⟨opened, path, bytes, stillClosed⟩ := sound.openLog closed
    have current : store.Current := by
      intro inode open'
      rw [closed] at open'
      cases open'
    have openedCurrent : store.openLog.1.Current := by
      intro inode open'
      rw [stillClosed] at open'
      cases open'
    cases outcome with
    | openFails =>
      simp only [Store.append, closed, Option.some.injEq] at stepped
      rw [← stepped]
      exact sound.reject op
    | setupFails =>
      simp only [Store.append, closed, Option.some.injEq] at stepped
      rw [← stepped]
      exact opened.reject op
    | writeFails written =>
      simp only [Store.append, closed, Option.some.injEq] at stepped
      rw [← stepped]
      have harmless := lands current
      rw [Harmless, added, ← bytes] at harmless
      exact opened.reject_written harmless path openedCurrent
    | done =>
      simp only [Store.append, closed, Option.some.injEq] at stepped
      rw [← stepped]
      obtain ⟨storable, intact, _⟩ := lands
      exact opened.accept_written path (bytes ▸ intact) storable durable

end Append

/-! ## Committing -/

section Commit

variable {config : Config} {reading : Reading} {store : Store}

theorem issued_acknowledge (seq : Nat) :
    (store.acknowledge seq).issued.map Issued.op = store.issued.map Issued.op := by
  simp only [Store.acknowledge, List.map_map]
  apply List.map_congr_left
  intro entry _
  simp only [Function.comp_apply]
  split <;> rfl

variable {inode seq : Nat}

theorem select_acknowledge
    (unchanged : ∀ entry : Issued, entry.ticket = some seq →
      test { entry with acked := true } = test entry) :
    (store.acknowledge seq).select test = store.select test := by
  simp only [select, Store.acknowledge, List.filter_map, List.map_map]
  have sameTest : (test ∘ fun entry : Issued =>
      if entry.ticket = some seq then { entry with acked := true } else entry) = test := by
    funext entry
    simp only [Function.comp_apply]
    split
    · exact unchanged entry ‹_›
    · rfl
  rw [sameTest]
  apply List.map_congr_left
  intro entry _
  simp only [Function.comp_apply]
  split <;> rfl

theorem select_live_acknowledge (seq : Nat) :
    (store.acknowledge seq).select Issued.live = store.select Issued.live := by
  apply select_acknowledge
  intro entry numbered
  simp [Issued.live, numbered]

theorem Sound.acknowledge (sound : store.Sound config reading) (covered : seq ≤ store.synced) :
    (store.acknowledge seq).Sound config reading := by
  have durable : (store.acknowledge seq).select (Issued.durable store.synced) =
      store.select (Issued.durable store.synced) := by
    apply select_acknowledge
    intro entry numbered
    simp [Issued.durable, numbered, covered]
  have known : (store.issued.map Issued.op).Sublist
      ((store.acknowledge seq).issued.map Issued.op) := by
    rw [issued_acknowledge]
  exact { sound with
    cuts := by
      intro count reached
      rw [show (store.acknowledge seq).synced = store.synced from rfl, durable]
      exact (sound.cuts count reached).later known
    whole := by
      rw [select_live_acknowledge]
      exact sound.whole.later known
    tickets := by
      intro entry membership ticket numbered
      simp only [Store.acknowledge, List.mem_map] at membership
      obtain ⟨original, present, rfl⟩ := membership
      apply sound.tickets original present ticket
      split at numbered <;> exact numbered
    waitingBound := fun other membership =>
      sound.waitingBound other (List.mem_of_mem_erase membership) }

theorem Sound.load (sound : store.Sound config reading) (stepped : store.load seq = some next) :
    next.Sound config reading := by
  simp only [Store.load] at stepped
  split_ifs at stepped with possible covered
  · cases stepped
    exact sound.acknowledge covered
  cases stepped
  refine { sound with coveredBound := ?_ }
  intro other reach loaded
  cases loaded
  exact ⟨sound.waitingBound seq possible.1, le_rfl⟩

theorem take_logBytes_of_settled (settled : store.logFile.unsynced = []) {count : Nat}
    (reached : store.logFile.synced.length ≤ count) :
    store.logBytes.take count = store.logBytes := by
  apply List.take_of_length_le
  simpa [logBytes, LogFile.content, settled] using reached

theorem content_sync (file : LogFile) : file.sync.content = file.content := by
  simp [LogFile.sync, LogFile.content]

/-- After a sync through the handle, the file at the log path is settled: it is
the synced file, or an image that was synced before it was renamed. -/
theorem Sound.logFile_synchronise (sound : store.Sound config reading)
    (open' : store.log = some inode) (covered : Nat) :
    (store.synchronise inode covered).logFile.unsynced = [] ∧
      (store.synchronise inode covered).logBytes = store.logBytes := by
  by_cases path : store.logPath = some inode
  · have present := sound.exists_path inode path
    have found : store.files[inode]? = some store.files[inode] := List.getElem?_eq_getElem present
    have synced : (store.synchronise inode covered).logFile = store.logFile.sync := by
      simp [logFile, synchronise, path, found]
    rw [logBytes, synced, content_sync]
    exact ⟨rfl, rfl⟩
  have notCurrent : ¬ store.Current := fun current => path (current inode open')
  have same : (store.synchronise inode covered).logFile = store.logFile := by
    simp only [logFile, synchronise]
    rcases named : store.logPath with _ | other
    · rfl
    have different : inode ≠ other := by
      rintro rfl
      exact path named
    simp [different]
  rw [logBytes, same]
  exact ⟨sound.stale notCurrent, rfl⟩

theorem Sound.synchronise (sound : store.Sound config reading) {covered : Nat}
    (open' : store.log = some inode) (bounded : covered ≤ store.appended) :
    (store.synchronise inode covered).Sound config reading := by
  obtain ⟨settled, bytes⟩ := sound.logFile_synchronise open' covered
  exact { sound with
    cuts := by
      intro count reached
      rw [take_logBytes_of_settled settled reached, bytes]
      exact sound.whole.weaken (store.select_durable_sublist_live _)
    whole := by
      rw [bytes]
      exact sound.whole
    stale := fun _ => settled
    opened := by
      intro other named
      obtain ⟨file, found, nonempty⟩ := sound.opened other named
      by_cases same : inode = other
      · subst same
        exact ⟨file.sync, by simp [Store.synchronise, found], by
          rw [content_sync]
          exact nonempty⟩
      · exact ⟨file, by simp [Store.synchronise, same, found], nonempty⟩
    exists_path := by
      intro other named
      simpa [Store.synchronise] using sound.exists_path other named
    syncedBound := max_le sound.syncedBound bounded
    coveredBound := nofun }

theorem Sound.sync (sound : store.Sound config reading) {succeeds : Bool}
    (stepped : store.sync succeeds = some next) : next.Sound config reading := by
  unfold Store.sync at stepped
  split at stepped
  · rename_i seq covered inode loaded handle
    obtain ⟨reaches, bounded⟩ := sound.coveredBound seq covered loaded
    split at stepped
    · cases stepped
      have open' : store.log = some inode := sound.sameHandle ▸ handle
      exact (sound.synchronise open' bounded).acknowledge (le_trans reaches (le_max_right _ _))
    cases stepped
    exact { sound with
      waitingBound := fun other membership =>
        sound.waitingBound other (List.mem_of_mem_erase membership)
      coveredBound := nofun }
  · cases stepped

end Commit

/-! ## Crashing and opening again -/

section Reopen

variable {config : Config} {reading : Reading} {store : Store}

/-- A crash leaves the log cut somewhere behind its synced bytes. -/
theorem afterCrash_eq_take (store : Store) (keep : Nat) :
    store.afterCrash keep = store.logBytes.take (store.logFile.synced.length + keep) := by
  simp [afterCrash, LogFile.crash, LogFile.content, logBytes, List.take_append]

/-- What a crash at any moment owes. -/
theorem Sound.afterCrash (sound : store.Sound config reading) (keep : Nat) :
    store.Keeps config reading (store.afterCrash keep)
      (store.select (Issued.durable store.synced)) := by
  rw [afterCrash_eq_take]
  exact sound.cuts _ (Nat.le_add_right _ _)

theorem logFile_reopen (config : Config) (store : Store) (keep : Nat) (moves : Bool) :
    (store.reopen config keep moves).logFile.unsynced = [] ∧
      openedOps config.env config.key (store.reopen config keep moves).logBytes =
        openedOps config.env config.key (store.afterCrash keep) := by
  by_cases gone :
      ((openInner config.env config.key (store.afterCrash keep)).movedAside && moves) = true
  · have none : (store.reopen config keep moves).logFile = {} := by
      simp [Store.reopen, logFile, gone]
    have moved := openedOps_of_movedAside config.env config.key (Bool.and_eq_true_iff.mp gone).1
    rw [logBytes, none, moved]
    exact ⟨rfl, by simp [openedOps, LogFile.content]⟩
  have kept : (store.reopen config keep moves).logFile = store.logFile.crash keep := by
    have missing : ({} : LogFile).crash keep = {} := by simp [LogFile.crash]
    simp only [Store.reopen, gone, logFile]
    cases store.logPath with
    | none => exact missing.symm
    | some inode => cases found : store.files[inode]? <;> simp [found, missing]
  rw [logBytes, kept]
  exact ⟨rfl, rfl⟩

theorem issued_reopen (config : Config) (store : Store) (keep : Nat) (moves : Bool) :
    (store.reopen config keep moves).issued.map Issued.op = store.issued.map Issued.op := by
  simp [Store.reopen]

/-- The next process knows no tickets: only what was acknowledged is owed. -/
theorem select_reopen (config : Config) (store : Store) (keep : Nat) (moves : Bool)
    (ticketless : ∀ entry : Issued, test { entry with ticket := none } = entry.acked) :
    (store.reopen config keep moves).select test = store.acked := by
  have sameTest : (test ∘ fun entry : Issued => { entry with ticket := none }) =
      Issued.acked := funext ticketless
  simp only [select, Store.reopen, List.filter_map, List.map_map, sameTest, Store.acked]
  rfl

theorem select_live_reopen (config : Config) (store : Store) (keep : Nat) (moves : Bool) :
    (store.reopen config keep moves).select Issued.live = store.acked :=
  select_reopen config store keep moves (by simp [Issued.live])

theorem Sound.reopen (sound : store.Sound config reading) (keep : Nat) (moves : Bool) :
    (store.reopen config keep moves).Sound config reading := by
  obtain ⟨settled, bytes⟩ := logFile_reopen config store keep moves
  have durable : (store.reopen config keep moves).select (Issued.durable 0) = store.acked :=
    select_reopen config store keep moves (by simp [Issued.durable])
  obtain ⟨history, same, contained, known⟩ :=
    (sound.afterCrash keep).weaken (store.acked_sublist_durable store.synced)
  have keeps : (store.reopen config keep moves).Keeps config reading
      (store.reopen config keep moves).logBytes store.acked :=
    ⟨history, by rw [bytes]; exact same, contained, by rw [issued_reopen]; exact known⟩
  exact {
    cuts := by
      intro count reached
      rw [take_logBytes_of_settled settled reached,
        show (store.reopen config keep moves).synced = 0 from rfl, durable]
      exact keeps
    whole := by
      rw [select_live_reopen]
      exact keeps
    stale := fun _ => settled
    sameHandle := rfl
    opened := nofun
    exists_path := by
      intro inode path
      simp only [Store.reopen] at path ⊢
      split at path
      · cases path
      rw [path]
      simpa using sound.exists_path inode path
    syncedBound := le_rfl
    tickets := by
      intro entry membership ticket numbered
      simp only [Store.reopen, List.mem_map] at membership
      obtain ⟨original, _, rfl⟩ := membership
      cases numbered
    waitingBound := nofun
    coveredBound := nofun }

theorem Sound.fresh (config : Config) (reading : Reading) : ({} : Store).Sound config reading := by
  have keeps : ({} : Store).Keeps config reading [] [] := by
    refine ⟨[], ?_, List.Sublist.refl _, List.Sublist.refl _⟩
    simpa [openedOps] using reading.nil
  exact {
    cuts := by
      intro count _
      rw [show ({} : Store).logBytes = [] from rfl, List.take_nil]
      exact keeps
    whole := keeps
    stale := fun _ => rfl
    sameHandle := rfl
    opened := by simp
    exists_path := by simp
    syncedBound := le_rfl
    tickets := by simp
    waitingBound := by simp
    coveredBound := by simp }

end Reopen

end Store

end Roci.Metadata
