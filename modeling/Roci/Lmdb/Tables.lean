import Mathlib.Data.Set.List
import Roci.Lmdb.Keys
import Roci.Metadata.State

/-!
# The embedded engine

The second metadata engine keeps ten tables in an embedded database: a byte
ordered map each, two of them with a sorted set of values per key.  An operation
is one transaction over them; a key or a sorted value the database does not
take fails the operation and leaves the tables as they were.
-/

namespace Roci.Lmdb

open Roci.Library Roci.Metadata

/-- The database takes keys, and values of a table with sorted values, of at
most this many bytes. -/
def maxKeySize : Nat := 511

inductive HeedError where
  | badValSize
deriving DecidableEq

structure Tables where
  tags : ByteMap Bytes := ∅
  tagsByDigest : ByteMap Bytes := ∅
  mediaTypes : ByteMap Bytes := ∅
  referrers : ByteMap Bytes := ∅
  referrerTypes : ByteMap Bytes := ∅
  referrersByType : ByteMap Bytes := ∅
  referrersReverse : ByteMap Bytes := ∅
  backrefs : ByteMap ByteSet := ∅
  backrefsReverse : ByteMap ByteSet := ∅
  checksums : ByteMap Bytes := ∅

def KeyFits (key : Bytes) : Prop := 0 < key.length ∧ key.length ≤ maxKeySize

instance (key : Bytes) : Decidable (KeyFits key) := inferInstanceAs (Decidable (_ ∧ _))

variable (table : ByteMap Bytes)

def put (key value : Bytes) : Except HeedError (ByteMap Bytes) :=
  if KeyFits key then .ok (table.insert key value) else .error .badValSize

def putDup (table : ByteMap ByteSet) (key value : Bytes) : Except HeedError (ByteMap ByteSet) :=
  if KeyFits key ∧ value.length ≤ maxKeySize then .ok (table.addValue key value)
  else .error .badValSize

/-! ## Values -/

def le64 (word : UInt64) : Bytes := le32 (word.toNat % 4294967296) ++ le32 (word.toNat / 4294967296)

/-- CRC32C and size, little-endian, in twelve bytes. -/
def encodeChecksum (crc : UInt32) (size : UInt64) : Bytes := le32 crc.toNat ++ le64 size

def decodeChecksum (bytes : Bytes) : Option BlobChecksum :=
  match readLe32 bytes with
  | none => none
  | some (crc, rest) =>
    match readLe32 rest with
    | none => none
    | some (low, rest) =>
      match readLe32 rest with
      | none => none
      | some (high, _) => some ⟨UInt32.ofNat crc, UInt64.ofNat (low + 4294967296 * high)⟩

/-- The value of a tag: its digest, a zero byte and its media type. -/
def tagValue (digest mediaType : Bytes) : Bytes := digest ++ 0 :: mediaType

def splitValue (value : Bytes) : Option (Bytes × Bytes) :=
  match value.span (· ≠ 0) with
  | (_, []) => none
  | (digest, _ :: mediaType) => some (digest, mediaType)

theorem splitValue_tagValue {digest : Bytes} (clean : 0 ∉ digest) (mediaType : Bytes) :
    splitValue (tagValue digest mediaType) = some (digest, mediaType) := by
  have differ : ∀ byte ∈ digest, decide (byte ≠ 0) = true := by
    intro byte membership
    rw [decide_eq_true_eq]
    rintro rfl
    exact clean membership
  have spanned : (digest ++ 0 :: mediaType).span (· ≠ 0) = (digest, 0 :: mediaType) := by
    rw [List.span_eq_takeWhile_dropWhile, List.takeWhile_append_of_pos differ,
      List.dropWhile_append_of_pos differ]
    simp
  simp only [splitValue, tagValue, spanned]

theorem decodeChecksum_encodeChecksum (crc : UInt32) (size : UInt64) :
    decodeChecksum (encodeChecksum crc size) = some ⟨crc, size⟩ := by
  have low : size.toNat % 4294967296 < 4294967296 := Nat.mod_lt _ (by decide)
  have high : size.toNat / 4294967296 < 4294967296 := by
    have bounded := size.toNat_lt
    omega
  have first := (readLe32_eq_some_iff (encodeChecksum crc size) (le64 size) crc.toNat).mpr
    ⟨crc.toNat_lt, rfl⟩
  have second := (readLe32_eq_some_iff (le64 size) (le32 (size.toNat / 4294967296)) _).mpr
    ⟨low, rfl⟩
  have third := (readLe32_eq_some_iff (le32 (size.toNat / 4294967296)) [] _).mpr ⟨high, by simp⟩
  have whole : size.toNat % 4294967296 + 4294967296 * (size.toNat / 4294967296) = size.toNat :=
    Nat.mod_add_div _ _
  simp only [decodeChecksum, first, second, third, whole, UInt32.ofNat_toNat, UInt64.ofNat_toNat]

/-! ## Reading ranges -/

def rangeOwned (low high : Bytes) : List (Bytes × Bytes) := table.range low high

def hasAnyWithPrefix (front : Bytes) : Bool :=
  match prefixSuccessor front with
  | none => false
  | some high => !(table.range front high).isEmpty

def keysWithPrefix (front : Bytes) : List Bytes :=
  match prefixSuccessor front with
  | none => []
  | some high => (table.range front high).map Prod.fst

/-- The keys with a given front are those of its one-part continuations. -/
theorem keysWithPrefix_eq {table : ByteMap Bytes} {entry : List String → Option Bytes}
    (stored : Stored table entry) {front : List String}
    (clean : ∀ part ∈ front, NulFree part) (inhabited : front ≠ [])
    (single : ∀ rest value, entry (front ++ rest) = some value → ∃ name, rest = [name]) :
    ∃ names : List String,
      keysWithPrefix table (keyOf front) = names.map (fun name => keyOf (front ++ [name])) ∧
      ∀ name, name ∈ names ↔ NulFree name ∧ (entry (front ++ [name])).isSome = true := by
  obtain ⟨shared, _, bound⟩ := prefixSuccessor_keyOf inhabited
  have inRange := stored.mem_range_iff clean bound inhabited
  have keys : keysWithPrefix table (keyOf front) =
      (table.range (keyOf front) (shared ++ [1])).map Prod.fst := by
    rw [keysWithPrefix, bound]
  let Listed := { name : String // NulFree name ∧ (entry (front ++ [name])).isSome = true }
  obtain ⟨names, same⟩ : keysWithPrefix table (keyOf front) ∈
      Set.range (List.map fun name : Listed => keyOf (front ++ [name.1])) := by
    rw [Set.range_list_map]
    intro key membership
    rw [keys, List.mem_map] at membership
    obtain ⟨⟨_, value⟩, present, rfl⟩ := membership
    obtain ⟨rest, restClean, equal, found⟩ := (inRange _ value).mp present
    obtain ⟨name, rfl⟩ := single rest value found
    exact ⟨⟨name, restClean name (by simp), by simp [found]⟩, equal.symm⟩
  refine ⟨names.map Subtype.val, by rw [← same, List.map_map]; rfl, fun name => ⟨?_, ?_⟩⟩
  · intro membership
    obtain ⟨listed, _, rfl⟩ := List.mem_map.mp membership
    exact listed.2
  rintro ⟨nameClean, present⟩
  obtain ⟨value, found⟩ := Option.isSome_iff_exists.mp present
  have listed : keyOf (front ++ [name]) ∈ keysWithPrefix table (keyOf front) := by
    rw [keys]
    exact List.mem_map.mpr ⟨_, (inRange _ value).mpr ⟨[name], by simpa, rfl, found⟩, rfl⟩
  rw [← same, List.mem_map] at listed
  obtain ⟨⟨other, otherClean, _⟩, membership, equal⟩ := listed
  rw [keyOf_append, keyOf_append, List.append_cancel_left_eq] at equal
  have parts := @keyOf_injective [other] [name] (by simpa) (by simpa) equal
  simp only [List.cons.injEq, and_true] at parts
  exact List.mem_map.mpr ⟨_, membership, parts⟩

/-! ## Operations -/

variable (reader : JsonReader) (tables : Tables) (repo digest : String)

namespace Tables

def addBackrefsInTxn (repo manifest : String) (blobs : List String) : Except HeedError Tables :=
  blobs.foldlM (fun tables blob => do
    let backrefs ← putDup tables.backrefs (makeKey [utf8 repo, utf8 blob]) (utf8 manifest)
    let backrefsReverse ←
      putDup tables.backrefsReverse (makeKey [utf8 repo, utf8 manifest]) (utf8 blob)
    pure { tables with backrefs, backrefsReverse }) tables

def removeReferrerInTxn (repo subject referrer : String) : Tables :=
  let key := makeKey [utf8 repo, utf8 subject, utf8 referrer]
  let hadType := tables.referrerTypes[key]?
  { tables with
    referrers := tables.referrers.erase key
    referrersReverse :=
      tables.referrersReverse.erase (makeKey [utf8 repo, utf8 referrer, utf8 subject])
    referrerTypes := tables.referrerTypes.erase key
    referrersByType :=
      match hadType with
      | some type =>
        tables.referrersByType.erase (makeKey [utf8 repo, utf8 subject, type, utf8 referrer])
      | none => tables.referrersByType }

def addReferrerInTxn (repo subject referrer : String) (descriptor : Bytes) :
    Except HeedError Tables := do
  let tables := tables.removeReferrerInTxn repo subject referrer
  let key := makeKey [utf8 repo, utf8 subject, utf8 referrer]
  let referrers ← put tables.referrers key descriptor
  let referrersReverse ←
    put tables.referrersReverse (makeKey [utf8 repo, utf8 referrer, utf8 subject]) []
  match artifactTypeOf reader descriptor with
  | none => pure { tables with referrers, referrersReverse }
  | some type => do
      let referrerTypes ← put tables.referrerTypes key (utf8 type)
      let referrersByType ← put tables.referrersByType
        (makeKey [utf8 repo, utf8 subject, utf8 type, utf8 referrer]) []
      pure { tables with referrers, referrersReverse, referrerTypes, referrersByType }

/-- Remove the old reverse entry of a tag that pointed elsewhere. -/
def dropStale (tags tagsByDigest : ByteMap Bytes) (repo tag : String) : ByteMap Bytes :=
  match (tags[makeKey [utf8 repo, utf8 tag]]?).bind splitValue with
  | some (oldDigest, _) => tagsByDigest.erase (makeKey [utf8 repo, oldDigest, utf8 tag])
  | none => tagsByDigest

def putTag (repo digest mediaType tag : String) : Except HeedError Tables := do
  let stale := dropStale tables.tags tables.tagsByDigest repo tag
  let tags ← put tables.tags (makeKey [utf8 repo, utf8 tag])
    (tagValue (utf8 digest) (utf8 mediaType))
  let tagsByDigest ← put stale (makeKey [utf8 repo, utf8 digest, utf8 tag]) []
  pure { tables with tags, tagsByDigest }

/-- An untagged push leaves the tags alone. -/
def putTagged (repo digest mediaType : String) :
    Option String → Except HeedError Tables
  | some tag => tables.putTag repo digest mediaType tag
  | none => pure tables

def dropTag (repo : String) (tables : Tables) (reverseKey : Bytes) : Tables :=
  { tables with
    tags :=
      match splitKey reverseKey with
      | _ :: _ :: tag :: _ => tables.tags.erase (makeKey [utf8 repo, tag])
      | _ => tables.tags
    tagsByDigest := tables.tagsByDigest.erase reverseKey }

def dropReferrer (tables : Tables) (reverseKey : Bytes) : Tables :=
  match splitKey reverseKey with
  | _ :: _ :: subject :: _ =>
    tables.removeReferrerInTxn repo ((fromUtf8 subject).getD "") digest
  | _ => tables

def dropBackref (tables : Tables) (blob : Bytes) : Tables :=
  { tables with
    backrefs := tables.backrefs.dropValue (makeKey [utf8 repo, blob]) (utf8 digest) }

def deleteManifest : Tables :=
  let key := makeKey [utf8 repo, utf8 digest]
  let recorded : Tables :=
    { tables with
      checksums := tables.checksums.erase key
      mediaTypes := tables.mediaTypes.erase key }
  let untagged := (keysWithPrefix recorded.tagsByDigest
    (makePrefix [utf8 repo, utf8 digest])).foldl (dropTag repo) recorded
  let unlisted := (keysWithPrefix untagged.referrersReverse
    (makePrefix [utf8 repo, utf8 digest])).foldl (dropReferrer repo digest) untagged
  let unreferenced := (unlisted.backrefsReverse.values key).toList.foldl
    (dropBackref repo digest) unlisted
  { unreferenced with backrefsReverse := unreferenced.backrefsReverse.erase key }

def applyOp : MetaOp → Except HeedError Tables
  | .putManifest repo digest mediaType tag references referrer => do
      let mediaTypes ←
        put tables.mediaTypes (makeKey [utf8 repo, utf8 digest]) (utf8 mediaType)
      let recorded : Tables := { tables with mediaTypes }
      let tagged ← recorded.putTagged repo digest mediaType tag
      let referenced ← tagged.addBackrefsInTxn repo digest references
      match referrer with
      | some (subject, descriptor) =>
        referenced.addReferrerInTxn reader repo subject digest descriptor
      | none => pure referenced
  | .deleteManifest repo digest => pure (tables.deleteManifest repo digest)
  | .putBackrefs repo manifest blobs => tables.addBackrefsInTxn repo manifest blobs
  | .putReferrer repo subject referrer descriptor =>
    tables.addReferrerInTxn reader repo subject referrer descriptor
  | .putChecksum repo digest crc32c size => do
      let checksums ← put tables.checksums (makeKey [utf8 repo, utf8 digest])
        (encodeChecksum crc32c size)
      pure { tables with checksums }
  | .deleteBlob repo digest =>
    pure { tables with
      checksums := tables.checksums.erase (makeKey [utf8 repo, utf8 digest]) }

def bulkApply (ops : List MetaOp) : Except HeedError Tables := ops.foldlM (applyOp reader) tables

/-! ## Queries -/

def resolveTag (repo tag : String) : Option (String × String) := do
  let value ← tables.tags[makeKey [utf8 repo, utf8 tag]]?
  let (digest, mediaType) ← splitValue value
  let digest ← fromUtf8 digest
  let mediaType ← fromUtf8 mediaType
  pure (digest, mediaType)

def manifestMediaType : Option String :=
  (tables.mediaTypes[makeKey [utf8 repo, utf8 digest]]?).bind fromUtf8

/-- Walk a range while its keys are `mine`, and stop with `more` at the first
one past the limit. -/
def collectPage {Item : Type} (mine : List Bytes → Bool)
    (item : List Bytes → Bytes → Option Item) (limit : Nat) :
    List (Bytes × Bytes) → List Item → Page Item
  | [], items => ⟨items, false⟩
  | (key, value) :: rest, items =>
    let parts := splitKey key
    if !mine parts then ⟨items, false⟩
    else if items.length = limit then ⟨items, true⟩
    else collectPage mine item limit rest (items ++ (item parts value).toList)

/-- A page starts right behind its cursor, or with the first key. -/
def pageStart (front : List Bytes) : Option String → Bytes
  | some cursor => makeKey (front ++ [utf8 cursor]) ++ [0]
  | none => makePrefix front

def tagsPage (repo : String) (last : Option String) (limit : Nat) : Option (Page String) :=
  let front := [utf8 repo]
  if !hasAnyWithPrefix tables.tags (makePrefix front) then none
  else (prefixSuccessor (makePrefix front)).map fun high =>
    collectPage (fun parts => parts[0]? = some (utf8 repo))
      (fun parts _ => parts[1]?.map fromUtf8Lossy) limit
      (rangeOwned tables.tags (pageStart front last) high) []

def untypedPage (repo subject : String) (last : Option String) (limit : Nat) :
    Option (Page Referrer) :=
  let front := [utf8 repo, utf8 subject]
  if !hasAnyWithPrefix tables.referrers (makePrefix front) then none
  else (prefixSuccessor (makePrefix front)).map fun high =>
    collectPage
      (fun parts => 3 ≤ parts.length && parts[0]? = some (utf8 repo) &&
        parts[1]? = some (utf8 subject))
      (fun parts value => parts[2]?.map fun referrer => (fromUtf8Lossy referrer, value)) limit
      (rangeOwned tables.referrers (pageStart front last) high) []

def typedPage (repo subject type : String) (last : Option String) (limit : Nat) :
    Option (Page Referrer) :=
  let front := [utf8 repo, utf8 subject, utf8 type]
  if !hasAnyWithPrefix tables.referrersByType (makePrefix front) then
    if !hasAnyWithPrefix tables.referrers (makePrefix [utf8 repo, utf8 subject]) then none
    else some ⟨[], false⟩
  else (prefixSuccessor (makePrefix front)).map fun high =>
    collectPage
      (fun parts => 4 ≤ parts.length && parts[0]? = some (utf8 repo) &&
        parts[1]? = some (utf8 subject) && parts[2]? = some (utf8 type))
      (fun parts _ =>
        let referrer := (parts[3]?.bind fromUtf8).getD ""
        (tables.referrers[makeKey [utf8 repo, utf8 subject, utf8 referrer]]?).map
          fun descriptor => (referrer, descriptor)) limit
      (rangeOwned tables.referrersByType (pageStart front last) high) []

def referrersPage (repo subject : String) (artifactType last : Option String) (limit : Nat) :
    Option (Page Referrer) :=
  match artifactType with
  | none => tables.untypedPage repo subject last limit
  | some type => tables.typedPage repo subject type last limit

def hasReferrer (repo subject referrer : String) : Bool :=
  (tables.referrers[makeKey [utf8 repo, utf8 subject, utf8 referrer]]?).isSome

def backrefsOf (repo blob : String) : List String :=
  (tables.backrefs.values (makeKey [utf8 repo, utf8 blob])).toList.filterMap fromUtf8

def checksum : Option BlobChecksum :=
  (tables.checksums[makeKey [utf8 repo, utf8 digest]]?).bind decodeChecksum

def addRepo (repos : StringSet) (entry : Bytes × Bytes) : StringSet :=
  match (splitKey entry.1).head?.bind fromUtf8 with
  | some repo => repos.insert repo
  | none => repos

def addRepos (repos : StringSet) (table : ByteMap Bytes) : StringSet :=
  table.toList.foldl addRepo repos

def repoNames : List String := (addRepos (addRepos ∅ tables.mediaTypes) tables.referrers).toList

def manifests (repo : String) : List String :=
  match prefixSuccessor (makePrefix [utf8 repo]) with
  | none => []
  | some high =>
    (rangeOwned tables.mediaTypes (makePrefix [utf8 repo]) high).filterMap fun entry =>
      (splitKey entry.1)[1]?.bind fromUtf8

def tagsSnapshot (repo : String) : List (String × String × String) :=
  match prefixSuccessor (makePrefix [utf8 repo]) with
  | none => []
  | some high =>
    (rangeOwned tables.tags (makePrefix [utf8 repo]) high).filterMap fun entry => do
      let parts := splitKey entry.1
      guard (parts[0]? = some (utf8 repo))
      let tag ← parts[1]?.bind fromUtf8
      let (digest, mediaType) ← splitValue entry.2
      let digest ← fromUtf8 digest
      let mediaType ← fromUtf8 mediaType
      pure (tag, digest, mediaType)

/-- Group a range of referrers by subject, up to the first key of another
repository. -/
def groupReferrers (repo : String) :
    List (Bytes × Bytes) → StringMap (List Referrer) → StringMap (List Referrer)
  | [], groups => groups
  | (key, descriptor) :: rest, groups =>
    match splitKey key with
    | name :: subject :: referrer :: _ =>
      if name = utf8 repo then
        groupReferrers repo rest (groups.upsert (fromUtf8Lossy subject) []
          (· ++ [(fromUtf8Lossy referrer, descriptor)]))
      else groups
    | _ => groups

def referrersSnapshot (repo : String) : List (String × List Referrer) :=
  match prefixSuccessor (makePrefix [utf8 repo]) with
  | none => []
  | some high =>
    (groupReferrers repo (rangeOwned tables.referrers (makePrefix [utf8 repo]) high) ∅).toList

end Tables

end Roci.Lmdb
