import Roci.Library.Json
import Roci.Metadata.Op

/-!
# The payload of a log record

An operation is logged as a JSON object.  Descriptor bytes travel as a JSON
string, decoded lossily, so an operation comes back from the log unchanged
exactly when its descriptor is UTF-8.
-/

namespace Roci.Metadata

open Roci.Library

/-- The operation as it comes back from the log. -/
def MetaOp.asLogged : MetaOp → MetaOp
  | putManifest repo digest mediaType tag references referrer =>
    putManifest repo digest mediaType tag references
      (referrer.map fun entry => (entry.1, utf8 (fromUtf8Lossy entry.2)))
  | putReferrer repo subject referrer descriptor =>
    putReferrer repo subject referrer (utf8 (fromUtf8Lossy descriptor))
  | op => op

def stringOrNull : Option String → Json
  | some text => .string text
  | none => .null

def opFields : MetaOp → List (String × Json)
  | .putManifest repo digest mediaType tag references referrer =>
    [("op", .string "put_manifest"), ("repo", .string repo), ("digest", .string digest),
      ("media_type", .string mediaType), ("tag", stringOrNull tag)] ++
    (if references.isEmpty then [] else [("references", .array (references.map .string))]) ++
    (match referrer with
      | some (subject, descriptor) =>
        [("subject", .string subject), ("descriptor", .string (fromUtf8Lossy descriptor))]
      | none => [])
  | .deleteManifest repo digest =>
    [("op", .string "delete_manifest"), ("repo", .string repo), ("digest", .string digest)]
  | .putReferrer repo subject referrer descriptor =>
    [("op", .string "put_referrer"), ("repo", .string repo), ("subject", .string subject),
      ("referrer", .string referrer), ("descriptor", .string (fromUtf8Lossy descriptor))]
  | .putBackrefs repo manifest blobs =>
    [("op", .string "put_backrefs"), ("repo", .string repo),
      ("manifest", .string manifest), ("blobs", .array (blobs.map .string))]
  | .putChecksum repo digest crc32c size =>
    [("op", .string "put_checksum"), ("repo", .string repo), ("digest", .string digest),
      ("crc32c", .number crc32c.toUInt64), ("size", .number size)]
  | .deleteBlob repo digest =>
    [("op", .string "delete_blob"), ("repo", .string repo), ("digest", .string digest)]

def serializeOp (op : MetaOp) : Bytes := Json.print (Json.ofFields (opFields op))

def opOfJson (value : Json) : Option MetaOp :=
  let s (key : String) : Option String := (value.get? key).bind Json.asStr
  let strings (key : String) : List String :=
    match (value.get? key).bind Json.asArray with
    | some items => items.filterMap Json.asStr
    | none => []
  match s "op" with
  | some "put_manifest" => do
      some (.putManifest (← s "repo") (← s "digest") (← s "media_type") (s "tag")
        (strings "references")
        (match s "subject", (s "descriptor").map utf8 with
          | some subject, some descriptor => some (subject, descriptor)
          | _, _ => none))
  | some "delete_manifest" => do
      some (.deleteManifest (← s "repo") (← s "digest"))
  | some "put_referrer" => do
      some (.putReferrer (← s "repo") (← s "subject") (← s "referrer")
        (utf8 (← s "descriptor")))
  | some "put_backrefs" => do
      some (.putBackrefs (← s "repo") (← s "manifest") (strings "blobs"))
  | some "put_checksum" => do
      let repo ← s "repo"
      let digest ← s "digest"
      let crc32c ← (value.get? "crc32c").bind Json.asU64
      if crc32c.toNat < 2 ^ 32 then
        some (.putChecksum repo digest crc32c.toUInt32
          (← (value.get? "size").bind Json.asU64))
      else none
  | some "delete_blob" => do
      some (.deleteBlob (← s "repo") (← s "digest"))
  | _ => none

def deserializeOp (reader : JsonReader) (payload : Bytes) : Option MetaOp :=
  (reader.parse payload).bind opOfJson

def generationMarker (reader : JsonReader) (payload : Bytes) : Option UInt64 := do
  let value ← reader.parse payload
  if (← (← value.get? "op").asStr) = "gen" then (← value.get? "gen").asU64 else none

/-- The marker a compacted log carries after its header. -/
def markerPayload (generation : UInt64) : Bytes :=
  utf8 (String.ofList ("\x7b\"op\":\"gen\",\"gen\":".toList ++
    Nat.toDigits 10 generation.toNat ++ "\x7d".toList))

variable (reader : JsonReader)

theorem opFields_flat (op : MetaOp) : ∀ field ∈ opFields op, field.2.Flat := by
  have nullable : ∀ tag, (stringOrNull tag).Flat := by
    rintro (_ | tag)
    · exact .null
    · exact .string tag
  cases op with
  | putManifest repo digest mediaType tag references referrer =>
    cases referrer <;> simp only [opFields] <;> split <;>
      simp [Json.Flat.string, Json.Flat.strings, nullable]
  | putBackrefs => simp [opFields, Json.Flat.string, Json.Flat.strings]
  | putChecksum => simp [opFields, Json.Flat.string, Json.Flat.number]
  | _ => simp [opFields, Json.Flat.string]

theorem parse_serializeOp (op : MetaOp) :
    reader.parse (serializeOp op) = some (Json.ofFields (opFields op)) :=
  reader.parse_print_ofFields (opFields op) (opFields_flat op)

@[simp]
theorem filterMap_asStr_string (texts : List String) :
    texts.filterMap (Json.asStr ∘ Json.string) = texts := by
  induction texts with
  | nil => rfl
  | cons text texts ih => simp [Json.asStr, ih]

theorem opOfJson_opFields (op : MetaOp) :
    opOfJson (Json.ofFields (opFields op)) = some op.asLogged := by
  cases op with
  | putManifest repo digest mediaType tag references referrer =>
    cases tag <;> cases references <;> rcases referrer with _ | ⟨subject, descriptor⟩ <;>
      simp [opOfJson, Json.get?_ofFields, opFields, MetaOp.asLogged, List.lookup_cons,
        Json.asStr, Json.asArray, stringOrNull]
  | putBackrefs repo manifest blobs =>
    simp [opOfJson, Json.get?_ofFields, opFields, MetaOp.asLogged, List.lookup_cons,
      Json.asStr, Json.asArray]
  | putChecksum repo digest crc32c size =>
    have small := crc32c.toNat_lt
    simp [opOfJson, Json.get?_ofFields, opFields, MetaOp.asLogged, List.lookup_cons,
      Json.asStr, Json.asU64, small]
  | _ =>
    simp [opOfJson, Json.get?_ofFields, opFields, MetaOp.asLogged, List.lookup_cons, Json.asStr]

/-- Logging an operation and reading the record gives it back, up to the lossy
decoding of its descriptor. -/
theorem deserializeOp_serializeOp (op : MetaOp) :
    deserializeOp reader (serializeOp op) = some op.asLogged := by
  rw [deserializeOp, parse_serializeOp, Option.bind_some, opOfJson_opFields]

/-- No logged operation is taken for a compaction marker. -/
theorem generationMarker_serializeOp (op : MetaOp) :
    generationMarker reader (serializeOp op) = none := by
  rw [generationMarker, parse_serializeOp]
  cases op with
  | putManifest repo digest mediaType tag references referrer =>
    cases references <;> rcases referrer with _ | ⟨subject, descriptor⟩ <;>
      simp [Json.get?_ofFields, opFields, List.lookup_cons, Json.asStr]
  | _ => simp [Json.get?_ofFields, opFields, List.lookup_cons, Json.asStr]

theorem markerPayload_eq_print (generation : UInt64) :
    markerPayload generation =
      Json.print (.object [("op", .string "gen"), ("gen", .number generation)]) := by
  simp [markerPayload, Json.print, Json.render, Json.renderFields, Json.quote, Json.escape]

theorem generationMarker_markerPayload (generation : UInt64) :
    generationMarker reader (markerPayload generation) = some generation := by
  have parsed := reader.parse_print [("op", .string "gen"), ("gen", .number generation)] (by
    simp [Json.Flat.string, Json.Flat.number])
  rw [generationMarker, markerPayload_eq_print, parsed]
  simp [Json.get?_ofFields, List.lookup_cons, Json.asStr, Json.asU64]

/-- An operation survives logging exactly when its descriptor is UTF-8. -/
theorem asLogged_eq_self_iff (op : MetaOp) :
    op.asLogged = op ↔ ∀ descriptor, op.descriptor = some descriptor → ValidUtf8 descriptor := by
  cases op with
  | putManifest repo digest mediaType tag references referrer =>
    rcases referrer with _ | ⟨subject, descriptor⟩
    · simp [MetaOp.asLogged, MetaOp.descriptor]
    · simp [MetaOp.asLogged, MetaOp.descriptor, utf8_fromUtf8Lossy_iff]
  | putReferrer repo subject referrer descriptor =>
    simp [MetaOp.asLogged, MetaOp.descriptor, utf8_fromUtf8Lossy_iff]
  | _ => simp [MetaOp.asLogged, MetaOp.descriptor]

end Roci.Metadata
