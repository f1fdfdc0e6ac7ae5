import Roci.Metadata.Wal

/-!
# A log under an HMAC key

With a key, every payload that is replayed carries a tag of that key.  The same
key also tags headers, generation markers and the fast-restart stamp, but none
of these is read as an operation.  Whatever lies at the log path, an open
applies only operations that were encoded under the key.
-/

namespace Roci.Metadata

open Roci.Library

/-- The body of a fast-restart stamp. -/
structure Stamp where
  formatVersion : UInt32
  binaryVersion : String
  configHash : String
  metadataGeneration : UInt64
  metadataLogLen : UInt64
  presence : List (String × String)
  dedupe : List (String × String)
  quotaPerRepo : List (String × UInt64)
  quotaSessions : UInt64
  gcCandidates : List (String × String)
  gcRoots : List (String × String)
  gcUnsafeRepos : List String

namespace Stamp

def pairs (entries : List (String × String)) : Json :=
  .array (entries.map fun entry => .array [.string entry.1, .string entry.2])

def fields (stamp : Stamp) : List (String × Json) :=
  [("format_version", .number stamp.formatVersion.toUInt64),
    ("binary_version", .string stamp.binaryVersion),
    ("config_hash", .string stamp.configHash),
    ("metadata_generation", .number stamp.metadataGeneration),
    ("metadata_log_len", .number stamp.metadataLogLen),
    ("presence", pairs stamp.presence),
    ("dedupe", pairs stamp.dedupe),
    ("quota_per_repo", .array (stamp.quotaPerRepo.map fun entry =>
      .array [.string entry.1, .number entry.2])),
    ("quota_sessions", .number stamp.quotaSessions),
    ("gc_candidates", pairs stamp.gcCandidates),
    ("gc_roots", pairs stamp.gcRoots),
    ("gc_unsafe_repos", .array (stamp.gcUnsafeRepos.map .string))]

/-- `serde_json::to_vec` of the stamp; `wrap` puts the tag of these bytes behind
them. -/
def body (stamp : Stamp) : Bytes := Json.print (.object stamp.fields)

end Stamp

/-- The payloads the server tags with its key. -/
inductive Tagged (ops : List MetaOp) (stamps : List Stamp) : Bytes → Prop where
  | header : Tagged ops stamps (encodeHeader .hmacSha256)
  | marker (generation : UInt64) : Tagged ops stamps (markerPayload generation)
  | op {op : MetaOp} (encoded : op ∈ ops) : Tagged ops stamps (serializeOp op)
  | stamp {stamp : Stamp} (written : stamp ∈ stamps) : Tagged ops stamps stamp.body

/-- What the JSON reader makes of the payloads that are no operations: a header
is no JSON, a stamp is read back. -/
structure ReadsTagged (reader : JsonReader) (stamps : List Stamp) : Prop where
  header : reader.parse (encodeHeader .hmacSha256) = none
  stamps : ∀ stamp ∈ stamps,
    reader.parse stamp.body = some (Json.object stamp.fields).normal

variable {env : Env} {ops : List MetaOp} {stamps : List Stamp}

theorem opFields_asLogged (op : MetaOp) : opFields op.asLogged = opFields op := by
  cases op with
  | putManifest repo digest mediaType tag references referrer =>
    rcases referrer with _ | ⟨subject, descriptor⟩ <;>
      simp [MetaOp.asLogged, opFields, fromUtf8Lossy_utf8]
  | putReferrer repo subject referrer descriptor =>
    simp [MetaOp.asLogged, opFields, fromUtf8Lossy_utf8]
  | _ => rfl

theorem deserializeOp_marker (reader : JsonReader) (generation : UInt64) :
    deserializeOp reader (markerPayload generation) = none := by
  have parsed := reader.parse_print [("op", .string "gen"), ("gen", .number generation)] (by
    simp [Json.Flat.string, Json.Flat.number])
  rw [deserializeOp, markerPayload_eq_print, parsed]
  simp [opOfJson, Json.get?_ofFields, List.lookup_cons, Json.asStr]

theorem opOfJson_stamp (stamp : Stamp) : opOfJson (Json.object stamp.fields).normal = none := by
  have unnamed : ((Json.object stamp.fields).normal.get? "op") = none := by
    rw [Json.normal, Json.get?_ofFields]
    simp [Stamp.fields, Json.normalFields, List.lookup_cons]
  simp [opOfJson, unnamed]

variable {bytes payload : Bytes} {op : MetaOp}

theorem Tagged.deserialize (reads : ReadsTagged env.reader stamps)
    (tagged : Tagged ops stamps payload) (read : deserializeOp env.reader payload = some op) :
    ∃ encoded ∈ ops, op = encoded.asLogged := by
  cases tagged with
  | header =>
    rw [deserializeOp, reads.header] at read
    cases read
  | marker generation =>
    rw [deserializeOp_marker] at read
    cases read
  | @op encoded known =>
    rw [deserializeOp_serializeOp] at read
    exact ⟨encoded, known, (Option.some.inj read).symm⟩
  | @stamp stamp written =>
    rw [deserializeOp, reads.stamps stamp written, Option.bind_some, opOfJson_stamp] at read
    cases read

theorem Tagged.operation (reads : ReadsTagged env.reader stamps)
    (tagged : Tagged ops stamps payload) {index : Nat}
    (replayed : (logEntry env index payload).operation? = some op) :
    ∃ encoded ∈ ops, op = encoded.asLogged := by
  unfold logEntry at replayed
  split at replayed
  · cases replayed
  split at replayed
  · cases replayed
  split at replayed
  · rename_i found
    cases replayed
    exact tagged.deserialize reads found
  · cases replayed

/-- Wherever a payload is followed by its tag, the server has tagged it. -/
def Unforged (key : HmacKey) (ops : List MetaOp) (stamps : List Stamp) (bytes : Bytes) : Prop :=
  ∀ before payload behind, bytes = before ++ payload ++ key.tag payload ++ behind →
    Tagged ops stamps payload

theorem encodeRecordRaw_of_read {key : Option HmacKey} {rest : Bytes}
    (found : readRecord env key bytes = some (payload, rest)) :
    bytes = encodeRecordRaw env key payload ++ rest :=
  ((readRecord_eq_some_iff env key _ _ _).mp found).2

theorem tagged_of_mem_records {key : HmacKey} (unforged : Unforged key ops stamps bytes)
    (membership : payload ∈ (walReader env (some key)).records bytes) :
    Tagged ops stamps payload := by
  have whole := RecordReader.flatMap_records_append_tail (walReader env (some key))
    (encodeRecordRaw env (some key)) encodeRecordRaw_of_read bytes
  obtain ⟨before, behind, split⟩ := List.append_of_mem membership
  rw [split, List.flatMap_append, List.flatMap_cons] at whole
  refine unforged (before.flatMap (encodeRecordRaw env (some key)) ++ le32 payload.length ++
      le32 (env.crc32c payload).toNat) payload
    (behind.flatMap (encodeRecordRaw env (some key)) ++ (walReader env (some key)).tail bytes) ?_
  nth_rewrite 1 [← whole]
  simp [encodeRecordRaw, tagOf, List.append_assoc]

/-- With a key there is no legacy replay: a log is moved aside or read record by
record. -/
theorem openedOps_some (env : Env) (key : HmacKey) (bytes : Bytes) :
    ((openInner env (some key) bytes).movedAside = true ∧ openedOps env (some key) bytes = []) ∨
      openedOps env (some key) bytes =
        (((walReader env (some key)).records bytes).zipIdx 1).filterMap
          fun entry => (logEntry env entry.2 entry.1).operation? := by
  unfold openInner openedOps
  by_cases empty : bytes = []
  · subst empty
    simp
  simp only [if_neg empty]
  cases checkLogFraming env (some key) bytes with
  | compatible =>
    right
    rw [replayedOps, logEntries, List.filterMap_map]
    rfl
  | _ => exact .inl ⟨rfl, rfl⟩

/-- Whatever bytes lie at the log path, an open with the key applies operations
the server encoded under it and nothing else.  The log is moved aside, or it
consists of records the server tagged, up to bytes that end the replay. -/
theorem opened_ops_were_tagged (env : Env) (key : HmacKey) (ops : List MetaOp)
    (stamps : List Stamp) (reads : ReadsTagged env.reader stamps) (bytes : Bytes)
    (unforged : Unforged key ops stamps bytes) :
    (∃ applied : List MetaOp,
      (openInner env (some key) bytes).state =
        applied.foldl (State.applyInRam env.reader) {} ∧
      ∀ op ∈ applied, ∃ encoded ∈ ops, op = encoded.asLogged ∧
        encodeRecord env (some key) op = encodeRecord env (some key) encoded) ∧
    (((openInner env (some key) bytes).movedAside = true ∧
        (openInner env (some key) bytes).state = {}) ∨
      ∃ (payloads : List Bytes) (rest : Bytes),
        (∀ payload ∈ payloads, Tagged ops stamps payload) ∧
        bytes = payloads.flatMap (encodeRecordRaw env (some key)) ++ rest ∧
        readRecord env (some key) rest = none ∧
        openedOps env (some key) bytes = (payloads.zipIdx 1).filterMap fun entry =>
          (logEntry env entry.2 entry.1).operation?) := by
  have state := openInner_state env (some key) bytes
  have genuine : ∀ payload ∈ (walReader env (some key)).records bytes,
      Tagged ops stamps payload :=
    fun payload membership => tagged_of_mem_records unforged membership
  rcases openedOps_some env key bytes with ⟨moved, nothing⟩ | replayed
  · rw [nothing] at state
    exact ⟨⟨[], state, by simp⟩, .inl ⟨moved, state⟩⟩
  refine ⟨⟨_, state, fun op membership => ?_⟩, .inr ⟨_, _, genuine,
    (RecordReader.flatMap_records_append_tail (walReader env (some key))
      (encodeRecordRaw env (some key)) encodeRecordRaw_of_read bytes).symm,
    RecordReader.read_tail (walReader env (some key)) bytes, replayed⟩⟩
  rw [replayed, List.mem_filterMap] at membership
  obtain ⟨⟨payload, index⟩, listed, entry⟩ := membership
  obtain ⟨encoded, known, rfl⟩ :=
    (genuine payload (List.fst_mem_of_mem_zipIdx listed)).operation reads entry
  refine ⟨encoded, known, rfl, ?_⟩
  rw [encodeRecord, encodeRecord, serializeOp, opFields_asLogged, serializeOp]

/-- One operation and one stamp, tagged by the server. -/
def taggedOp : MetaOp := .deleteBlob "app" "sha256:0a"

def taggedStamp : Stamp where
  formatVersion := 1
  binaryVersion := "0.1.0"
  configHash := "00"
  metadataGeneration := 0
  metadataLogLen := 0
  presence := [("app", "sha256:0a")]
  dedupe := [("sha256:0a", "app")]
  quotaPerRepo := [("app", 9)]
  quotaSessions := 0
  gcCandidates := []
  gcRoots := []
  gcUnsafeRepos := []

theorem reads_taggedStamp : ReadsTagged JsonText.reader [taggedStamp] where
  header := by
    rw [JsonText.reader_parse]
    decide +kernel
  stamps stamp known := by
    cases List.mem_singleton.mp known
    rw [JsonText.reader_parse, Stamp.body,
      JsonText.parse_print_plain (Json.plain_of_isPlain _ (by decide +kernel))]

/-- Tags of the header and of the operation; every other payload has the tag of
32 bytes `0xff`. -/
def witnessKey : HmacKey where
  tag payload :=
    if payload = encodeHeader .hmacSha256 then List.replicate 32 1
    else if payload = serializeOp taggedOp then List.replicate 32 2
    else List.replicate 32 255
  tag_length payload := by split_ifs <;> simp

/-- The log of the one operation opens to that operation. -/
theorem tagged_log_opens :
    ∃ applied : List MetaOp,
      (openInner .concrete (some witnessKey)
        (headerRecord .concrete (some witnessKey) ++
          encodeRecord .concrete (some witnessKey) taggedOp)).state =
        applied.foldl (State.applyInRam JsonText.reader) {} ∧
      ∀ op ∈ applied, ∃ encoded ∈ [taggedOp], op = encoded.asLogged ∧
        encodeRecord .concrete (some witnessKey) op =
          encodeRecord .concrete (some witnessKey) encoded := by
  have unforged : Unforged witnessKey [taggedOp] [taggedStamp]
      (headerRecord .concrete (some witnessKey) ++
        encodeRecord .concrete (some witnessKey) taggedOp) := by
    intro before payload behind split
    by_cases header : payload = encodeHeader .hmacSha256
    · rw [header]
      exact .header
    by_cases op : payload = serializeOp taggedOp
    · rw [op]
      exact .op (by simp)
    have foreign : witnessKey.tag payload = List.replicate 32 255 := by
      simp [witnessKey, header, op]
    have absent : ¬ List.replicate 32 (255 : UInt8) <:+:
        headerRecord .concrete (some witnessKey) ++
          encodeRecord .concrete (some witnessKey) taggedOp := by decide +kernel
    exact (absent ⟨before ++ payload, behind, by rw [split, foreign]⟩).elim
  exact (opened_ops_were_tagged .concrete witnessKey [taggedOp] [taggedStamp]
    reads_taggedStamp _ unforged).1

end Roci.Metadata
