import Roci.Metadata.Wal

/-!
# Replay of a log the engine wrote

A log that was written by appends alone can be cut at any byte: an open then
replays the operations whose records are whole, in order, as they were logged.
The codec itself loses nothing but the ill-formed parts of a descriptor, and no
operation is taken for a header or a generation marker.
-/

namespace Roci.Metadata

open Roci.Library

variable (env : Env) (key : Option HmacKey)

/-- The log after `append_record` was called with each operation in turn. -/
def written : Bytes → List MetaOp → Bytes
  | bytes, [] => bytes
  | bytes, op :: rest => written (bytes ++ appendedBytes env key bytes op) rest

/-- The operations whose whole records lie within the first `count` bytes. -/
def wholeOps (count : Nat) : Bytes → List MetaOp → List MetaOp
  | _, [] => []
  | bytes, op :: rest =>
    let next := bytes ++ appendedBytes env key bytes op
    if next.length ≤ count then op :: wholeOps count next rest else wholeOps count next rest

theorem written_extends (bytes : Bytes) (ops : List MetaOp) :
    bytes <+: written env key bytes ops := by
  induction ops generalizing bytes with
  | nil => exact List.prefix_refl _
  | cons op rest ih =>
    exact (List.prefix_append _ _).trans (ih _)

theorem wholeOps_eq_nil {count : Nat} {bytes : Bytes} (short : count < bytes.length)
    (ops : List MetaOp) : wholeOps env key count bytes ops = [] := by
  induction ops generalizing bytes with
  | nil => rfl
  | cons op rest ih =>
    have longer : count < (bytes ++ appendedBytes env key bytes op).length := by
      rw [List.length_append]
      omega
    rw [wholeOps, if_neg (by omega)]
    exact ih longer

variable {ops : List MetaOp}

/-- Appends to an intact log, the result cut at `count`. -/
theorem openedOps_written_take {count : Nat} {bytes : Bytes} (intact : Intact env key bytes)
    (reached : bytes.length ≤ count) (fits : ∀ op ∈ ops, Fits (serializeOp op)) :
    openedOps env key ((written env key bytes ops).take count) =
      openedOps env key bytes ++ (wholeOps env key count bytes ops).map MetaOp.asLogged := by
  induction ops generalizing bytes with
  | nil =>
    rw [written, List.take_of_length_le reached]
    simp [wholeOps]
  | cons op rest ih =>
    rw [List.forall_mem_cons] at fits
    have cut := openedOps_append_cut env key intact fits.1 (count - bytes.length)
    rw [written, wholeOps]
    by_cases whole : (bytes ++ appendedBytes env key bytes op).length ≤ count
    · have enough : (appendedBytes env key bytes op).length ≤ count - bytes.length := by
        rw [List.length_append] at whole
        omega
      rw [List.take_of_length_le enough, if_pos enough] at cut
      rw [ih (intact_append env key intact fits.1) whole fits.2, cut, if_pos whole]
      simp
    have missing : ¬ (appendedBytes env key bytes op).length ≤ count - bytes.length := by
      rw [List.length_append] at whole
      omega
    obtain ⟨more, extended⟩ :=
      written_extends env key (bytes ++ appendedBytes env key bytes op) rest
    have kept : (written env key (bytes ++ appendedBytes env key bytes op) rest).take count =
        bytes ++ (appendedBytes env key bytes op).take (count - bytes.length) := by
      rw [← extended, List.take_append_of_le_length (by omega), List.take_append,
        List.take_of_length_le reached]
    rw [kept, cut, if_neg missing, if_neg whole,
      wholeOps_eq_nil env key (by omega : count < _) rest]
    simp

/-- A log written by appends and cut anywhere opens to the operations whose
records are whole; a cut inside the header leaves nothing. -/
theorem torn_log_replays_whole_records (ops : List MetaOp)
    (fits : ∀ op ∈ ops, Fits (serializeOp op)) (count : Nat) :
    (openInner env key ((written env key [] ops).take count)).state =
        ((wholeOps env key count [] ops).map MetaOp.asLogged).foldl
          (State.applyInRam env.reader) {} ∧
      (count < (headerRecord env key).length →
        (openInner env key ((written env key [] ops).take count)).state = {}) := by
  have replayed := openedOps_written_take env key (.inl rfl : Intact env key [])
    (Nat.zero_le count) fits
  have state : (openInner env key ((written env key [] ops).take count)).state =
      ((wholeOps env key count [] ops).map MetaOp.asLogged).foldl
        (State.applyInRam env.reader) {} := by
    rw [openInner_state, replayed]
    simp [openedOps]
  refine ⟨state, fun inHeader => ?_⟩
  rw [state]
  rcases ops with _ | ⟨op, rest⟩
  · rfl
  have behind : count < ([] ++ appendedBytes env key [] op).length := by
    simp only [appendedBytes, if_true, List.nil_append, List.length_append]
    omega
  rw [wholeOps, if_neg (by omega), wholeOps_eq_nil env key behind]
  rfl

/-- Two pushes, the second one tagged. -/
def twoPushes : List MetaOp :=
  [.putManifest "app" "sha256:0a" "application/vnd.oci.image.manifest.v1+json" none [] none,
    .putManifest "app" "sha256:0b" "application/vnd.oci.image.manifest.v1+json" (some "v1") []
      none]

/-- The log of two pushes cut inside the second record opens to the first. -/
theorem torn_second_push_is_lost :
    wholeOps .concrete none 160 [] twoPushes = twoPushes.take 1 ∧
      (openInner .concrete none ((written .concrete none [] twoPushes).take 160)).state =
        ((twoPushes.take 1).map MetaOp.asLogged).foldl (State.applyInRam JsonText.reader) {} := by
  have whole : wholeOps .concrete none 160 [] twoPushes = twoPushes.take 1 := by decide +kernel
  have replayed := torn_log_replays_whole_records .concrete none twoPushes (by decide +kernel) 160
  rw [whole] at replayed
  exact ⟨whole, replayed.1⟩

set_option maxRecDepth 4096

/-- A referrer whose descriptor is the byte `0xff`. -/
def lossyReferrer : MetaOp := .putReferrer "app" "sha256:0a" "sha256:0b" [0xff]

/-- The record is whole, and the descriptor still comes back as U+FFFD. -/
theorem whole_record_changes_descriptor :
    wholeOps .concrete none 1000 [] [lossyReferrer] = [lossyReferrer] ∧
      (openInner .concrete none
          ((written .concrete none [] [lossyReferrer]).take 1000)).state.referrersPage
        "app" "sha256:0a" none none 1 = some ⟨[("sha256:0b", [0xef, 0xbf, 0xbd])], false⟩ ∧
      ([lossyReferrer].foldl (State.applyInRam JsonText.reader) {}).referrersPage
        "app" "sha256:0a" none none 1 = some ⟨[("sha256:0b", [0xff])], false⟩ := by
  decide +kernel

/-! ## The codec -/

def framedLog (ops : List MetaOp) : Bytes :=
  headerRecord env key ++ ops.flatMap (encodeRecord env key)

theorem openInner_framedLog (fits : ∀ op ∈ ops, Fits (serializeOp op)) :
    (openInner env key (framedLog env key ops)).state =
      (ops.map MetaOp.asLogged).foldl (State.applyInRam env.reader) {} := by
  rw [openInner_state, framedLog, openedOps_header_append env key fits]

theorem serializeOp_head (op : MetaOp) : ∃ rest, serializeOp op = 0x7b :: rest := by
  rw [serializeOp, Json.print, Json.ofFields, Json.render, utf8_ofList, List.flatMap_cons]
  exact ⟨_, rfl⟩

theorem decodeHeader_serializeOp (op : MetaOp) : decodeHeader (serializeOp op) = none := by
  obtain ⟨rest, opened⟩ := serializeOp_head op
  rw [opened, decodeHeader]
  split
  · rfl
  rw [if_pos]
  simp [headerMagic]

theorem logEntries_framedLog (fits : ∀ op ∈ ops, Fits (serializeOp op)) :
    logEntries env key (framedLog env key ops) = .header :: ops.map fun op => .op op.asLogged := by
  obtain ⟨payloads, _⟩ := RecordReader.scan_flatMap (walReader env key) (encodeRecord env key)
    serializeOp ops fun op membership => read_encodeRecord env key (fits op membership)
  have header := (RecordReader.scan_single (walReader env key) (read_headerRecord env key)).1
  rw [logEntries, framedLog, RecordReader.records_append _ (headerRecord_complete env key),
    header, payloads, List.singleton_append, List.zipIdx_cons, List.map_cons,
    map_logEntry_ops env ops (by omega)]
  simp [logEntry]

theorem replayEntry_ops (ops : List MetaOp) (replayed : State × UInt64) :
    (ops.map LogEntry.op).foldl (replayEntry env) replayed =
      (ops.foldl (State.applyInRam env.reader) replayed.1, replayed.2) := by
  induction ops generalizing replayed with
  | nil => rfl
  | cons op rest ih => exact ih _

/-- Replaying the header and the records of a list of operations applies exactly
that list; an operation comes back from its payload, and its payload is neither
a header nor a generation marker. -/
theorem replay_framedLog (ops : List MetaOp) (storable : ∀ op ∈ ops, Storable op) :
    (∀ state generation, replayLog env key (framedLog env key ops) state generation =
      (ops.foldl (State.applyInRam env.reader) state, generation)) ∧
    replayedOps env key (framedLog env key ops) = ops ∧
    ∀ op : MetaOp,
      ((∀ descriptor, op.descriptor = some descriptor → ValidUtf8 descriptor) →
        deserializeOp env.reader (serializeOp op) = some op) ∧
      decodeHeader (serializeOp op) = none ∧
      generationMarker env.reader (serializeOp op) = none := by
  have logged : ops.map (fun op => LogEntry.op op.asLogged) = ops.map LogEntry.op :=
    List.map_congr_left fun op membership => by
      rw [(asLogged_eq_self_iff op).mpr (storable op membership).utf8]
  have entries := logEntries_framedLog env key fun op membership => (storable op membership).fits
  rw [logged] at entries
  refine ⟨fun state generation => ?_, ?_, fun op => ⟨fun valid => ?_, ?_, ?_⟩⟩
  · rw [replayLog, entries]
    exact replayEntry_ops env ops (state, generation)
  · rw [replayedOps, entries, List.filterMap_cons, List.filterMap_map]
    exact List.filterMap_some
  · rw [deserializeOp_serializeOp, (asLogged_eq_self_iff op).mpr valid]
  · exact decodeHeader_serializeOp op
  · exact generationMarker_serializeOp env.reader op

/-- One operation of every kind. -/
def everyOp : List MetaOp :=
  [.putManifest "app" "sha256:0a" "application/vnd.oci.image.manifest.v1+json" (some "v1")
      ["sha256:0b"] (some ("sha256:0c", utf8 "\x7b\x7d")),
    .putBackrefs "app" "sha256:0a" ["sha256:0b", "sha256:0c"],
    .putReferrer "app" "sha256:0a" "sha256:0d" (utf8 "\x7b\x7d"),
    .putChecksum "app" "sha256:0b" 0xE3069283 9,
    .deleteBlob "app" "sha256:0b",
    .deleteManifest "app" "sha256:0a"]

theorem replay_everyOp :
    (∀ op ∈ everyOp, Storable op) ∧
      replayedOps .concrete none (framedLog .concrete none everyOp) = everyOp := by
  have storable : ∀ op ∈ everyOp, Storable op := by decide +kernel
  exact ⟨storable, (replay_framedLog .concrete none everyOp storable).2.1⟩

end Roci.Metadata
