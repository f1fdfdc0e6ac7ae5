import Roci.Library.JsonText
import Roci.Library.Records
import Roci.Metadata.Answers
import Roci.Metadata.Codec

/-!
# Framing and replay of the metadata log

A record is the length and CRC32C of its payload, the payload, and under an
HMAC key a tag.  The first record is a header naming the framing; after a
compaction the second one is a generation marker; all others are operations.

A log that is read to its end (`Intact`) can be appended to: the record is
read back behind everything already there.  A record cut short is never read,
and nothing appended behind it is read as what it was.
-/

namespace Roci.Metadata

open Roci.Library

/-- An HMAC key, known by the tags it computes. -/
structure HmacKey where
  tag : Bytes → Bytes
  tag_length : ∀ payload, (tag payload).length = 32

structure Env where
  crc32c : Bytes → UInt32
  reader : JsonReader

def Env.concrete : Env where
  crc32c := Library.crc32c
  reader := JsonText.reader

inductive FramingMode where
  | plain
  | hmacSha256
deriving DecidableEq

def framingMode : Option HmacKey → FramingMode
  | some _ => .hmacSha256
  | none => .plain

/-- `roci-wal` and a zero byte. -/
def headerMagic : Bytes := [0x72, 0x6f, 0x63, 0x69, 0x2d, 0x77, 0x61, 0x6c, 0x00]

def FramingMode.byte : FramingMode → UInt8
  | plain => 0
  | hmacSha256 => 1

def encodeHeader (mode : FramingMode) : Bytes := headerMagic ++ [mode.byte]

def decodeHeader (payload : Bytes) : Option FramingMode :=
  if payload.length < headerMagic.length + 1 then none
  else if payload.take headerMagic.length ≠ headerMagic then none
  else
    match payload[headerMagic.length]? with
    | some 0 => some .plain
    | some 1 => some .hmacSha256
    | _ => none

/-- Bytes of tag behind each payload. -/
def hmacExtra : Option HmacKey → Nat
  | some _ => 32
  | none => 0

def tagOf (key : Option HmacKey) (payload : Bytes) : Bytes :=
  match key with
  | some key => key.tag payload
  | none => []

variable (env : Env) (key : Option HmacKey)

def encodeRecordRaw (payload : Bytes) : Bytes :=
  le32 payload.length ++ le32 (env.crc32c payload).toNat ++ payload ++ tagOf key payload

def encodeRecord (op : MetaOp) : Bytes := encodeRecordRaw env key (serializeOp op)

/-- One record off the front of the log: its payload and what follows. -/
def readRecord (bytes : Bytes) : Option (Bytes × Bytes) := do
  let (len, rest) ← readLe32 bytes
  let (crc, body) ← readLe32 rest
  let payload := body.take len
  if body.length < len + hmacExtra key then none
  else if (env.crc32c payload).toNat ≠ crc then none
  else if (body.drop len).take (hmacExtra key) ≠ tagOf key payload then none
  else some (payload, body.drop (len + hmacExtra key))

inductive LogFramingCheck where
  | compatible
  | incompatible
  | noHeader
deriving DecidableEq

/-- The framing check of the first record.  It looks for the header before it
looks at the tag, so a header of the right mode with a missing or wrong tag is
incompatible rather than absent. -/
def checkLogFraming (bytes : Bytes) : LogFramingCheck :=
  match readLe32 bytes with
  | none => .noHeader
  | some (len, rest) =>
    match readLe32 rest with
    | none => .noHeader
    | some (crc, body) =>
      let payload := body.take len
      if body.length < len then .noHeader
      else if (env.crc32c payload).toNat ≠ crc then .noHeader
      else
        match decodeHeader payload with
        | none => .noHeader
        | some mode =>
          if mode ≠ framingMode key then .incompatible
          else if body.length < len + hmacExtra key then .incompatible
          else if (body.drop len).take (hmacExtra key) ≠ tagOf key payload then .incompatible
          else .compatible

/-- A payload small enough for its 32-bit length. -/
def Fits (payload : Bytes) : Prop := payload.length < 4294967296

instance (payload : Bytes) : Decidable (Fits payload) :=
  inferInstanceAs (Decidable (payload.length < 4294967296))

theorem length_tagOf (payload : Bytes) : (tagOf key payload).length = hmacExtra key := by
  cases key with
  | none => rfl
  | some key => exact key.tag_length payload

/-- The reader accepts exactly the encoded records. -/
theorem readRecord_eq_some_iff (bytes payload rest : Bytes) :
    readRecord env key bytes = some (payload, rest) ↔
      Fits payload ∧ bytes = encodeRecordRaw env key payload ++ rest := by
  have tagLength := length_tagOf key payload
  constructor
  · intro found
    simp only [readRecord, Option.bind_eq_bind, Option.bind_eq_some_iff, Prod.exists] at found
    obtain ⟨len, afterLen, readLen, crc, body, readCrc, found⟩ := found
    obtain ⟨lenFits, rfl⟩ := (readLe32_eq_some_iff _ _ _).mp readLen
    obtain ⟨crcFits, rfl⟩ := (readLe32_eq_some_iff _ _ _).mp readCrc
    split_ifs at found with short wrongCrc wrongTag
    simp only [Option.some.injEq, Prod.mk.injEq] at found
    obtain ⟨rfl, rfl⟩ := found
    simp only [not_not, not_lt] at short wrongCrc wrongTag
    have size : (body.take len).length = len := by
      rw [List.length_take]
      omega
    refine ⟨by rw [Fits, size]; exact lenFits, ?_⟩
    rw [encodeRecordRaw, size, wrongCrc, ← wrongTag]
    simp only [List.append_assoc]
    rw [← List.drop_drop, List.take_append_drop, List.take_append_drop]
  · rintro ⟨fits, rfl⟩
    have readLen := (readLe32_eq_some_iff _ (le32 (env.crc32c payload).toNat ++ payload ++
      tagOf key payload ++ rest) payload.length).mpr ⟨fits, rfl⟩
    have readCrc := (readLe32_eq_some_iff _ (payload ++ tagOf key payload ++ rest)
      (env.crc32c payload).toNat).mpr ⟨(env.crc32c payload).toNat_lt, rfl⟩
    simp only [List.append_assoc] at readLen readCrc
    simp only [readRecord, encodeRecordRaw, List.append_assoc, readLen, readCrc,
      Option.bind_eq_bind, Option.bind_some, List.length_append, List.take_left,
      List.drop_left]
    rw [if_neg (by omega), if_neg (by simp), List.take_left' tagLength, if_neg (by simp),
      ← List.append_assoc, List.drop_left' (by simp [tagLength])]

/-- Records of the log, read one after the other. -/
def walReader : RecordReader UInt8 Bytes where
  read := readRecord env key
  shortens := by
    intro text payload rest found
    obtain ⟨_, rfl⟩ := (readRecord_eq_some_iff env key _ _ _).mp found
    simp only [encodeRecordRaw, List.length_append, length_le32]
    omega
  stable := by
    intro text payload rest more found
    obtain ⟨fits, rfl⟩ := (readRecord_eq_some_iff env key _ _ _).mp found
    exact (readRecord_eq_some_iff env key _ _ _).mpr ⟨fits, List.append_assoc _ _ _⟩

variable {bytes payload : Bytes} {op : MetaOp} {count start : Nat}

theorem readRecord_take (fits : Fits payload)
    (short : count < (encodeRecordRaw env key payload).length) :
    readRecord env key ((encodeRecordRaw env key payload).take count) = none := by
  rcases found : readRecord env key ((encodeRecordRaw env key payload).take count) with _ | pair
  · rfl
  obtain ⟨other, rest⟩ := pair
  have extended := (walReader env key).stable ((encodeRecordRaw env key payload).drop count) found
  have whole := (readRecord_eq_some_iff env key (encodeRecordRaw env key payload)
    payload []).mpr ⟨fits, by simp⟩
  simp only [List.take_append_drop, walReader] at extended
  rw [whole] at extended
  simp only [Option.some.injEq, Prod.mk.injEq] at extended
  have nothing := (List.append_eq_nil_iff.mp extended.2.symm).2
  rw [List.drop_eq_nil_iff] at nothing
  omega

@[simp]
theorem decodeHeader_encodeHeader (mode : FramingMode) :
    decodeHeader (encodeHeader mode) = some mode := by
  cases mode <;> decide

/-- A log is compatible when its first record is readable and is the header of
the configured framing. -/
theorem checkLogFraming_eq_compatible_iff (bytes : Bytes) :
    checkLogFraming env key bytes = .compatible ↔
      ∃ payload rest, readRecord env key bytes = some (payload, rest) ∧
        decodeHeader payload = some (framingMode key) := by
  unfold checkLogFraming readRecord
  rcases readLe32 bytes with _ | first
  · simp
  obtain ⟨len, rest⟩ := first
  simp only [Option.bind_eq_bind, Option.bind_some]
  rcases readLe32 rest with _ | second
  · simp
  obtain ⟨crc, body⟩ := second
  simp only [Option.bind_some]
  cases decoded : decodeHeader (body.take len) with
  | none =>
    split_ifs <;> simp_all
  | some mode =>
    split_ifs <;> simp_all
    all_goals omega

/-! ## Replay -/

/-- What replay makes of a payload. -/
inductive LogEntry where
  | header
  | marker (generation : UInt64)
  | op (operation : MetaOp)
  | unreadable

/-- Only the first record can be a header and only the first two a generation
marker. -/
def logEntry (index : Nat) (payload : Bytes) : LogEntry :=
  if index = 1 ∧ (decodeHeader payload).isSome then .header
  else
    match if index ≤ 2 then generationMarker env.reader payload else none with
    | some generation => .marker generation
    | none =>
      match deserializeOp env.reader payload with
      | some op => .op op
      | none => .unreadable

def logEntries (bytes : Bytes) : List LogEntry :=
  (((walReader env key).records bytes).zipIdx 1).map fun entry => logEntry env entry.2 entry.1

def replayEntry (replayed : State × UInt64) : LogEntry → State × UInt64
  | .op op => (replayed.1.applyInRam env.reader op, replayed.2)
  | .marker generation => (replayed.1, generation)
  | _ => replayed

def replayLog (bytes : Bytes) (state : State) (generation : UInt64) : State × UInt64 :=
  (logEntries env key bytes).foldl (replayEntry env) (state, generation)

def LogEntry.operation? : LogEntry → Option MetaOp
  | .op operation => some operation
  | _ => none

def replayedOps (bytes : Bytes) : List MetaOp :=
  (logEntries env key bytes).filterMap LogEntry.operation?

def legacyOps (bytes : Bytes) : List MetaOp :=
  ((walReader env none).records bytes).filterMap (deserializeOp env.reader)

def replayLegacy (bytes : Bytes) (state : State) : State :=
  (legacyOps env bytes).foldl (State.applyInRam env.reader) state

/-- What opening the engine finds: the replayed state, and whether the log was
moved aside. -/
structure Opened where
  state : State
  generation : UInt64
  movedAside : Bool

def openInner (bytes : Bytes) : Opened :=
  if bytes = [] then ⟨{}, 0, false⟩
  else
    match checkLogFraming env key bytes with
    | .compatible =>
      let replayed := replayLog env key bytes {} 0
      ⟨replayed.1, replayed.2, false⟩
    | .incompatible => ⟨{}, 0, true⟩
    | .noHeader =>
      match key with
      | some _ => ⟨{}, 0, true⟩
      | none => ⟨replayLegacy env bytes {}, 0, false⟩

def openedOps (bytes : Bytes) : List MetaOp :=
  if bytes = [] then []
  else
    match checkLogFraming env key bytes with
    | .compatible => replayedOps env key bytes
    | .incompatible => []
    | .noHeader =>
      match key with
      | some _ => []
      | none => legacyOps env bytes

theorem replayLog_state (bytes : Bytes) (state : State) (generation : UInt64) :
    (replayLog env key bytes state generation).1 =
      (replayedOps env key bytes).foldl (State.applyInRam env.reader) state := by
  unfold replayLog replayedOps
  induction logEntries env key bytes generalizing state generation with
  | nil => rfl
  | cons entry entries ih =>
    cases entry <;>
      simp [List.filterMap_cons, replayEntry, LogEntry.operation?, ih]

theorem openInner_state (bytes : Bytes) :
    (openInner env key bytes).state =
      (openedOps env key bytes).foldl (State.applyInRam env.reader) {} := by
  unfold openInner openedOps
  split
  · rfl
  cases checkLogFraming env key bytes with
  | compatible => exact replayLog_state env key bytes {} 0
  | incompatible => rfl
  | noHeader => cases key <;> rfl

theorem openedOps_of_movedAside (moved : (openInner env key bytes).movedAside = true) :
    openedOps env key bytes = [] := by
  unfold openInner at moved
  unfold openedOps
  split at moved
  · cases moved
  rename_i nonempty
  rw [if_neg nonempty]
  cases checked : checkLogFraming env key bytes with
  | compatible => simp [checked] at moved
  | incompatible => rfl
  | noHeader =>
    cases key with
    | none => simp [checked] at moved
    | some key => rfl

/-! ## Appending to a log -/

/-- An empty log, or one with its header that is read to its end. -/
def Intact (bytes : Bytes) : Prop :=
  bytes = [] ∨
    (checkLogFraming env key bytes = .compatible ∧ (walReader env key).tail bytes = [])

instance (bytes : Bytes) : Decidable (Intact env key bytes) :=
  inferInstanceAs (Decidable (_ ∨ _))

def headerRecord : Bytes := encodeRecordRaw env key (encodeHeader (framingMode key))

/-- The bytes an append writes behind the given contents. -/
def appendedBytes (bytes : Bytes) (op : MetaOp) : Bytes :=
  if bytes = [] then headerRecord env key ++ encodeRecord env key op else encodeRecord env key op

structure Storable (op : MetaOp) : Prop where
  fits : Fits (serializeOp op)
  utf8 : ∀ descriptor, op.descriptor = some descriptor → ValidUtf8 descriptor

theorem storable_iff (op : MetaOp) : Storable op ↔ Fits (serializeOp op) ∧ op.asLogged = op := by
  rw [asLogged_eq_self_iff]
  exact ⟨fun storable => ⟨storable.fits, storable.utf8⟩, fun both => ⟨both.1, both.2⟩⟩

instance (op : MetaOp) : Decidable (Storable op) :=
  decidable_of_iff _ (storable_iff op).symm

theorem compatible_append (compatible : checkLogFraming env key bytes = .compatible)
    (more : Bytes) :
    checkLogFraming env key (bytes ++ more) = .compatible := by
  obtain ⟨payload, rest, found, header⟩ :=
    (checkLogFraming_eq_compatible_iff env key bytes).mp compatible
  exact (checkLogFraming_eq_compatible_iff env key _).mpr
    ⟨payload, rest ++ more, (walReader env key).stable more found, header⟩

theorem records_ne_nil_of_compatible (compatible : checkLogFraming env key bytes = .compatible) :
    1 ≤ ((walReader env key).records bytes).length := by
  obtain ⟨payload, rest, found, _⟩ :=
    (checkLogFraming_eq_compatible_iff env key bytes).mp compatible
  rw [RecordReader.records, RecordReader.scan_of_read (walReader env key) found]
  simp

theorem logEntry_serializeOp {index : Nat} (later : 2 ≤ index) (op : MetaOp) :
    logEntry env index (serializeOp op) = .op op.asLogged := by
  have notFirst : ¬ (index = 1 ∧ (decodeHeader (serializeOp op)).isSome = true) := by
    rintro ⟨first, _⟩
    omega
  rw [logEntry, if_neg notFirst, generationMarker_serializeOp, deserializeOp_serializeOp, ite_self]

theorem map_logEntry_ops (ops : List MetaOp) (later : 2 ≤ start) :
    ((ops.map serializeOp).zipIdx start).map (fun entry => logEntry env entry.2 entry.1) =
      ops.map fun op => .op op.asLogged := by
  induction ops generalizing start with
  | nil => rfl
  | cons op ops ih =>
    simp only [List.map_cons, List.zipIdx_cons]
    rw [logEntry_serializeOp env later, ih (by omega)]

theorem filterMap_logEntry_ops (ops : List MetaOp) (later : 2 ≤ start) :
    ((ops.map serializeOp).zipIdx start).filterMap
      (fun entry => (logEntry env entry.2 entry.1).operation?) = ops.map MetaOp.asLogged := by
  have entries := congrArg (List.filterMap LogEntry.operation?) (map_logEntry_ops env ops later)
  rw [List.filterMap_map, List.filterMap_map] at entries
  exact entries.trans (List.filterMap_eq_map (f := MetaOp.asLogged) ▸ rfl)

theorem read_encodeRecord (fits : Fits (serializeOp op)) :
    readRecord env key (encodeRecord env key op) = some (serializeOp op, []) :=
  (readRecord_eq_some_iff env key _ _ _).mpr ⟨fits, by simp [encodeRecord]⟩

theorem openedOps_append (compatible : checkLogFraming env key bytes = .compatible)
    (complete : (walReader env key).tail bytes = []) (more : Bytes) :
    openedOps env key (bytes ++ more) = openedOps env key bytes ++
      (((walReader env key).records more).zipIdx
        (1 + ((walReader env key).records bytes).length)).filterMap
          fun entry => (logEntry env entry.2 entry.1).operation? := by
  have nonempty : bytes ≠ [] := by
    rintro rfl
    exact absurd (records_ne_nil_of_compatible env key compatible) (by simp)
  have together : bytes ++ more ≠ [] := by simp [nonempty]
  simp only [openedOps, if_neg nonempty, if_neg together, compatible,
    compatible_append env key compatible more, replayedOps, logEntries]
  rw [RecordReader.records_append _ complete, List.zipIdx_append, List.map_append,
    List.filterMap_append, List.filterMap_map, List.filterMap_map]
  rfl

theorem checkLogFraming_append {rest : Bytes}
    (found : readRecord env none bytes = some (payload, rest)) (more : Bytes) :
    checkLogFraming env none (bytes ++ more) = checkLogFraming env none bytes := by
  obtain ⟨fits, rfl⟩ := (readRecord_eq_some_iff env none _ _ _).mp found
  have check : ∀ behind : Bytes,
      checkLogFraming env none (encodeRecordRaw env none payload ++ behind) =
        match decodeHeader payload with
        | none => .noHeader
        | some mode => if mode ≠ framingMode none then .incompatible else .compatible := by
    intro behind
    have readLen := (readLe32_eq_some_iff _ (le32 (env.crc32c payload).toNat ++ payload ++
      behind) payload.length).mpr ⟨fits, rfl⟩
    have readCrc := (readLe32_eq_some_iff _ (payload ++ behind)
      (env.crc32c payload).toNat).mpr ⟨(env.crc32c payload).toNat_lt, rfl⟩
    simp only [List.append_assoc] at readLen
    simp only [checkLogFraming, encodeRecordRaw, tagOf, List.append_nil, List.append_assoc,
      readLen, readCrc, List.take_left]
    have reaches : ¬ payload.length + behind.length < payload.length := by omega
    cases decodeHeader payload <;> simp [hmacExtra, reaches]
  rw [List.append_assoc, check, check]

theorem openedOps_append_extends (bytes more : Bytes) :
    openedOps env key bytes <+: openedOps env key (bytes ++ more) := by
  by_cases empty : bytes = []
  · simp [openedOps, empty]
  have together : bytes ++ more ≠ [] := by simp [empty]
  cases checked : checkLogFraming env key bytes with
  | compatible =>
    simp only [openedOps, if_neg empty, if_neg together, checked,
      compatible_append env key checked more, replayedOps, logEntries]
    obtain ⟨extra, split⟩ := RecordReader.records_append_extends (walReader env key) bytes more
    rw [← split, List.zipIdx_append, List.map_append, List.filterMap_append]
    exact List.prefix_append _ _
  | incompatible => simp [openedOps, empty, checked]
  | noHeader =>
    cases key with
    | some key => simp [openedOps, empty, checked]
    | none =>
      have legacy : openedOps env none bytes = legacyOps env bytes := by
        simp [openedOps, empty, checked]
      rw [legacy]
      rcases found : readRecord env none bytes with _ | pair
      · have nothing := RecordReader.scan_of_stopped (walReader env none) found
        simp [legacyOps, RecordReader.records, nothing]
      obtain ⟨payload, rest⟩ := pair
      have stillChecked := checkLogFraming_append env found more
      simp only [openedOps, if_neg together, stillChecked, checked, legacyOps]
      exact (RecordReader.records_append_extends (walReader env none) bytes more).filterMap _

/-- Appending one record, or any part of it, to an intact log. -/
theorem openedOps_append_record (compatible : checkLogFraming env key bytes = .compatible)
    (complete : (walReader env key).tail bytes = []) (fits : Fits (serializeOp op)) (count : Nat) :
    openedOps env key (bytes ++ (encodeRecord env key op).take count) =
      openedOps env key bytes ++
        if (encodeRecord env key op).length ≤ count then [op.asLogged] else [] := by
  rw [openedOps_append env key compatible complete]
  congr 1
  split
  · rename_i whole
    have single := RecordReader.scan_single (walReader env key) (read_encodeRecord env key fits)
    have later := records_ne_nil_of_compatible env key compatible
    rw [List.take_of_length_le whole, single.1]
    simp only [List.zipIdx_cons, List.zipIdx_nil, List.filterMap_cons, List.filterMap_nil]
    rw [logEntry_serializeOp env (by omega)]
    rfl
  rename_i cutShort
  have stopped := readRecord_take env key fits (not_le.mp cutShort)
  have nothing := RecordReader.scan_of_stopped (walReader env key) stopped
  simp [RecordReader.records, encodeRecord, nothing]

theorem header_fits (mode : FramingMode) : Fits (encodeHeader mode) := by
  cases mode <;> decide

theorem read_headerRecord :
    readRecord env key (headerRecord env key) = some (encodeHeader (framingMode key), []) :=
  (readRecord_eq_some_iff env key _ _ _).mpr ⟨header_fits _, by simp [headerRecord]⟩

theorem headerRecord_compatible : checkLogFraming env key (headerRecord env key) = .compatible :=
  (checkLogFraming_eq_compatible_iff env key _).mpr
    ⟨_, _, read_headerRecord env key, decodeHeader_encodeHeader _⟩

theorem headerRecord_complete : (walReader env key).tail (headerRecord env key) = [] :=
  (RecordReader.scan_single (walReader env key) (read_headerRecord env key)).2

theorem encodeRecordRaw_ne_nil (payload : Bytes) : encodeRecordRaw env key payload ≠ [] := by
  simp [encodeRecordRaw, le32]

theorem headerRecord_ne_nil : headerRecord env key ≠ [] := encodeRecordRaw_ne_nil env key _

theorem appendedBytes_ne_nil (bytes : Bytes) (op : MetaOp) :
    appendedBytes env key bytes op ≠ [] := by
  unfold appendedBytes
  split
  · simp [headerRecord_ne_nil]
  · exact encodeRecordRaw_ne_nil env key _

theorem openedOps_headerRecord : openedOps env key (headerRecord env key) = [] := by
  have single := (RecordReader.scan_single (walReader env key) (read_headerRecord env key)).1
  simp [openedOps, headerRecord_ne_nil, headerRecord_compatible, replayedOps, logEntries,
    single, logEntry, LogEntry.operation?]

theorem openedOps_header_append {ops : List MetaOp} (fits : ∀ op ∈ ops, Fits (serializeOp op)) :
    openedOps env key (headerRecord env key ++ ops.flatMap (encodeRecord env key)) =
      ops.map MetaOp.asLogged := by
  obtain ⟨payloads, _⟩ := RecordReader.scan_flatMap (walReader env key) (encodeRecord env key)
    serializeOp ops fun op membership => read_encodeRecord env key (fits op membership)
  have header := (RecordReader.scan_single (walReader env key) (read_headerRecord env key)).1
  rw [openedOps_append env key (headerRecord_compatible env key) (headerRecord_complete env key),
    openedOps_headerRecord, header, List.nil_append, payloads]
  exact filterMap_logEntry_ops env _ (by simp)

theorem openedOps_header_cut (short : count < (headerRecord env key).length) :
    openedOps env key ((headerRecord env key).take count) = [] := by
  have stopped := readRecord_take env key (header_fits (framingMode key)) short
  unfold openedOps
  split
  · rfl
  cases checked : checkLogFraming env key ((headerRecord env key).take count) with
  | compatible =>
    obtain ⟨payload, rest, found, _⟩ := (checkLogFraming_eq_compatible_iff env key _).mp checked
    rw [headerRecord, stopped] at found
    cases found
  | incompatible => rfl
  | noHeader =>
    cases key with
    | some key => rfl
    | none =>
      have nothing := RecordReader.scan_of_stopped (walReader env none) stopped
      simp [legacyOps, RecordReader.records, headerRecord, nothing]

/-- An append to an intact log, cut anywhere: the operation is replayed as it
was logged, behind the ones already there, when its record is whole, and leaves
no trace when it is not. -/
theorem openedOps_append_cut (intact : Intact env key bytes) (fits : Fits (serializeOp op))
    (count : Nat) :
    openedOps env key (bytes ++ (appendedBytes env key bytes op).take count) =
      openedOps env key bytes ++
        if (appendedBytes env key bytes op).length ≤ count then [op.asLogged] else [] := by
  rcases intact with rfl | ⟨compatible, complete⟩
  · simp only [appendedBytes, if_true, List.nil_append, List.length_append]
    by_cases short : count < (headerRecord env key).length
    · rw [List.take_append_of_le_length short.le, openedOps_header_cut env key short,
        if_neg (by omega)]
      simp [openedOps]
    have split : (headerRecord env key ++ encodeRecord env key op).take count =
        headerRecord env key ++
          (encodeRecord env key op).take (count - (headerRecord env key).length) := by
      rw [List.take_append, List.take_of_length_le (by omega)]
    rw [split, openedOps_append_record env key (headerRecord_compatible env key)
      (headerRecord_complete env key) fits, openedOps_headerRecord]
    simp only [openedOps, if_true, List.nil_append]
    congr 1
    rw [eq_iff_iff]
    omega
  · have nonempty : bytes ≠ [] := by
      rintro rfl
      exact absurd (records_ne_nil_of_compatible env key compatible) (by simp)
    simp only [appendedBytes, if_neg nonempty]
    rw [openedOps_append_record env key compatible complete fits]

theorem openedOps_append_take (intact : Intact env key bytes) (storable : Storable op)
    (count : Nat) :
    openedOps env key (bytes ++ (appendedBytes env key bytes op).take count) =
      openedOps env key bytes ++
        if (appendedBytes env key bytes op).length ≤ count then [op] else [] := by
  rw [openedOps_append_cut env key intact storable.fits,
    (asLogged_eq_self_iff op).mpr storable.utf8]

theorem intact_append (intact : Intact env key bytes) (fits : Fits (serializeOp op)) :
    Intact env key (bytes ++ appendedBytes env key bytes op) := by
  have record := (RecordReader.scan_single (walReader env key) (read_encodeRecord env key fits)).2
  refine .inr ?_
  rcases intact with rfl | ⟨compatible, complete⟩
  · simp only [appendedBytes, if_true, List.nil_append]
    refine ⟨compatible_append env key (headerRecord_compatible env key) _, ?_⟩
    rw [RecordReader.tail_append _ (headerRecord_complete env key), record]
  have nonempty : bytes ≠ [] := by
    rintro rfl
    exact absurd (records_ne_nil_of_compatible env key compatible) (by simp)
  simp only [appendedBytes, if_neg nonempty]
  refine ⟨compatible_append env key compatible _, ?_⟩
  rw [RecordReader.tail_append _ complete, record]

end Roci.Metadata
