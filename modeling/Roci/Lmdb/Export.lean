import Roci.Lmdb.Steps
import Roci.Metadata.Transfer

/-!
# The export of the embedded engine

The tables are walked in key order, entry by entry.  Tables that represent the
contents of a store list each entry once, and the tags of a repository in
order.
-/

namespace Roci.Lmdb

open Roci.Library Roci.Metadata

/-- The text of a part of a key; one that is not UTF-8 counts as empty. -/
def textOf (bytes : Bytes) : String := (fromUtf8 bytes).getD ""

@[simp]
theorem textOf_utf8 (text : String) : textOf (utf8 text) = text := by
  rw [textOf, fromUtf8_utf8, Option.getD_some]

def pairOf (key : Bytes) : Option (String × String) :=
  match splitKey key with
  | repo :: name :: _ => some (textOf repo, textOf name)
  | _ => none

def tripleOf (key : Bytes) : Option (String × String × String) :=
  match splitKey key with
  | repo :: subject :: referrer :: _ => some (textOf repo, textOf subject, textOf referrer)
  | _ => none

theorem pairOf_keyOf {repo name : String} (repoClean : NulFree repo) (nameClean : NulFree name) :
    pairOf (keyOf [repo, name]) = some (repo, name) := by
  rw [pairOf, splitKey_keyOf (by simp [repoClean, nameClean])]
  simp

theorem tripleOf_keyOf {repo subject referrer : String} (repoClean : NulFree repo)
    (subjectClean : NulFree subject) (referrerClean : NulFree referrer) :
    tripleOf (keyOf [repo, subject, referrer]) = some (repo, subject, referrer) := by
  rw [tripleOf, splitKey_keyOf (by simp [repoClean, subjectClean, referrerClean])]
  simp

def tagRecord (entry : Bytes × Bytes) : Option (String × String × String × String) := do
  let (repo, tag) ← pairOf entry.1
  let (digest, mediaType) ← splitValue entry.2
  pure (repo, tag, textOf digest, textOf mediaType)

namespace Tables

variable (tables : Tables)

def exportTags : List (String × String × String × String) := tables.tags.toList.filterMap tagRecord

def exportManifests : List (String × String × String) :=
  tables.mediaTypes.toList.filterMap fun entry => do
    let (repo, digest) ← pairOf entry.1
    guard ((repo, digest) ∉ tables.exportTags.map fun tag => (tag.1, tag.2.2.1))
    pure (repo, digest, textOf entry.2)

def exportBackrefs : List (String × String × String) :=
  tables.backrefs.toList.flatMap fun entry =>
    entry.2.toList.filterMap fun manifest => do
      let (repo, blob) ← pairOf entry.1
      pure (repo, blob, textOf manifest)

def exportReferrers : List (String × String × String × Bytes) :=
  tables.referrers.toList.filterMap fun entry => do
    let (repo, subject, referrer) ← tripleOf entry.1
    pure (repo, subject, referrer, entry.2)

def exportChecksums : List (String × String × BlobChecksum) :=
  tables.checksums.toList.filterMap fun entry => do
    let (repo, digest) ← pairOf entry.1
    let found ← decodeChecksum entry.2
    pure (repo, digest, found)

def exportListing : Listing where
  tags := tables.exportTags
  manifests := tables.exportManifests
  edges := tables.exportBackrefs
  referrers := tables.exportReferrers
  checksums := tables.exportChecksums

def exportImpl : List MetaOp := tables.exportListing.ops

end Tables

variable {table : ByteMap Bytes}

theorem Stored.mem_toList_iff {entry : List String → Option Bytes} (stored : Stored table entry)
    (key value : Bytes) :
    (key, value) ∈ table.toList ↔ ∃ parts : List String, (∀ part ∈ parts, NulFree part) ∧
      key = keyOf parts ∧ entry parts = some value := by
  rw [Std.ExtTreeMap.mem_toList_iff_getElem?_eq_some]
  constructor
  · intro present
    obtain ⟨parts, clean, rfl⟩ := stored.keys key value present
    exact ⟨parts, clean, rfl, by rw [← stored.lookup parts clean, present]⟩
  rintro ⟨parts, clean, rfl, found⟩
  rw [stored.lookup parts clean, found]

theorem PairTable.mem_toList_iff {value : String → String → Option Bytes}
    (represented : PairTable table value) (key bytes : Bytes) :
    (key, bytes) ∈ table.toList ↔
      ∃ repo name, key = keyOf [repo, name] ∧ value repo name = some bytes := by
  rw [represented.stored.mem_toList_iff]
  constructor
  · rintro ⟨parts, _, rfl, found⟩
    unfold pairEntries at found
    split at found
    · exact ⟨_, _, rfl, found⟩
    · cases found
  rintro ⟨repo, name, rfl, found⟩
  have clean := represented.clean repo name bytes found
  exact ⟨[repo, name], by simp [clean], rfl, found⟩

/-- What is read off a table, in terms of what is read off an encoded entry. -/
theorem PairTable.mem_filterMap_iff {Value Item : Type} {field : String → String → Option Value}
    {encode : Value → Bytes}
    (represented : PairTable table fun repo name => (field repo name).map encode)
    {read : Bytes × Bytes → Option Item} {item : Item} (Means : String → String → Value → Prop)
    (reads : ∀ repo name found, field repo name = some found →
      pairOf (keyOf [repo, name]) = some (repo, name) →
      (read (keyOf [repo, name], encode found) = some item ↔ Means repo name found)) :
    item ∈ table.toList.filterMap read ↔
      ∃ repo name found, field repo name = some found ∧ Means repo name found := by
  have means : ∀ repo name found, field repo name = some found →
      (read (keyOf [repo, name], encode found) = some item ↔ Means repo name found) := by
    intro repo name found present
    have clean := represented.clean repo name (encode found) (by rw [present]; rfl)
    exact reads repo name found present (pairOf_keyOf clean.1 clean.2)
  rw [List.mem_filterMap]
  constructor
  · rintro ⟨⟨key, bytes⟩, listed, same⟩
    obtain ⟨repo, name, rfl, stored⟩ := (represented.mem_toList_iff key bytes).mp listed
    obtain ⟨found, present, rfl⟩ := Option.map_eq_some_iff.mp stored
    exact ⟨repo, name, found, present, (means repo name found present).mp same⟩
  rintro ⟨repo, name, found, present, same⟩
  refine ⟨_, (represented.mem_toList_iff _ (encode found)).mpr ⟨repo, name, rfl, ?_⟩,
    (means repo name found present).mpr same⟩
  rw [present]
  rfl

namespace Represents

variable {reader : JsonReader} {tables : Tables} {contents : Contents}
  (represents : Represents reader tables contents)
include represents

theorem mem_exportTags_iff (repo tag digest mediaType : String) :
    (repo, tag, digest, mediaType) ∈ tables.exportTags ↔
      (contents repo).tag tag = some (digest, mediaType) := by
  rw [Tables.exportTags, represents.tags.forward.mem_filterMap_iff fun owner name found =>
    owner = repo ∧ name = tag ∧ found = (digest, mediaType)]
  · simp
  rintro owner name ⟨named, type⟩ found parts
  have value := splitValue_tagValue (represents.tags.digestClean owner name named type found)
  simp [tagRecord, parts, tagEntry, value]

theorem exportTags_ascending : tables.exportTags.Pairwise fun first second =>
    first.1 = second.1 → first.2.1 < second.2.1 := by
  have table := represents.tags.forward
  have read : ∀ key bytes item, (key, bytes) ∈ tables.tags.toList →
      tagRecord (key, bytes) = some item →
        NulFree item.1 ∧ NulFree item.2.1 ∧ key = keyOf [item.1, item.2.1] := by
    intro key bytes item listed same
    obtain ⟨repo, name, rfl, stored⟩ := (table.mem_toList_iff key bytes).mp listed
    have clean := table.clean repo name bytes stored
    simp only [tagRecord, pairOf_keyOf clean.1 clean.2, Option.bind_eq_bind, Option.bind_some,
      Option.bind_eq_some_iff, Option.pure_def, Option.some.injEq] at same
    obtain ⟨_, _, rfl⟩ := same
    exact ⟨clean.1, clean.2, rfl⟩
  have ascending : tables.tags.toList.Pairwise fun first second =>
      first ∈ tables.tags.toList ∧ second ∈ tables.tags.toList ∧ first.1 < second.1 :=
    (ByteMap.keys_ascending tables.tags).imp_of_mem fun first second less =>
      ⟨first, second, less⟩
  rw [Tables.exportTags, List.pairwise_filterMap]
  refine ascending.imp ?_
  rintro ⟨firstKey, firstBytes⟩ ⟨secondKey, secondBytes⟩ ⟨inFirst, inSecond, less⟩
  intro first readFirst second readSecond sameRepo
  obtain ⟨repoClean, firstClean, rfl⟩ := read _ _ _ inFirst readFirst
  obtain ⟨_, secondClean, rfl⟩ := read _ _ _ inSecond readSecond
  have parts := (@keyOf_lt_iff [first.1, first.2.1] [second.1, second.2.1]
    (by simp [repoClean, firstClean]) (by simp [← sameRepo, repoClean, secondClean]) rfl).mp less
  rw [sameRepo, List.cons_lt_cons_iff, List.cons_lt_cons_iff] at parts
  simpa using parts

theorem mem_exportManifests_iff (repo digest mediaType : String) :
    (repo, digest, mediaType) ∈ tables.exportManifests ↔
      (contents repo).mediaType digest = some mediaType ∧ ¬ (contents repo).Tagged digest := by
  have covered : ∀ owner named, (owner, named) ∈
      (tables.exportTags.map fun tag => (tag.1, tag.2.2.1)) ↔ (contents owner).Tagged named := by
    intro owner named
    simp only [List.mem_map, Prod.exists, Prod.mk.injEq, represents.mem_exportTags_iff,
      RepoContents.Tagged]
    constructor
    · rintro ⟨_, tag, _, type, found, rfl, rfl⟩
      exact ⟨tag, type, found⟩
    rintro ⟨tag, type, found⟩
    exact ⟨owner, tag, named, type, found, rfl, rfl⟩
  rw [Tables.exportManifests, represents.mediaTypes.mem_filterMap_iff fun owner named found =>
    ¬ (contents owner).Tagged named ∧ owner = repo ∧ named = digest ∧ found = mediaType]
  · grind
  intro owner named found present parts
  simp only [parts, covered, Option.bind_eq_bind, Option.bind_some, textOf_utf8, Option.pure_def,
    Option.bind_eq_some_iff, Option.guard_eq_some', Option.some.injEq, Prod.mk.injEq, exists_const]

theorem mem_exportBackrefs_iff (repo blob manifest : String) :
    (repo, blob, manifest) ∈ tables.exportBackrefs ↔ (contents repo).edge blob manifest := by
  have values : ∀ key value, (∃ kept, (key, kept) ∈ tables.backrefs.toList ∧ value ∈ kept.toList) ↔
      value ∈ tables.backrefs.values key := by
    intro key value
    simp only [Std.ExtTreeMap.mem_toList_iff_getElem?_eq_some, ByteMap.values,
      Std.ExtTreeSet.mem_toList]
    cases tables.backrefs[key]? <;> simp
  simp only [Tables.exportBackrefs, List.mem_flatMap, List.mem_filterMap]
  constructor
  · rintro ⟨⟨key, kept⟩, listed, value, present, same⟩
    obtain ⟨owner, source, target, edge, rfl, rfl⟩ :=
      (represents.edges.forward key value).mp ((values key value).mp ⟨kept, listed, present⟩)
    have clean := represents.edges.clean owner source target edge
    simp only [pairOf_keyOf clean.1 clean.2.1, Option.bind_eq_bind, Option.bind_some, textOf_utf8,
      Option.pure_def, Option.some.injEq, Prod.mk.injEq] at same
    obtain ⟨rfl, rfl, rfl⟩ := same
    exact edge
  intro edge
  have clean := represents.edges.clean repo blob manifest edge
  obtain ⟨kept, listed, present⟩ := (values _ _).mpr
    ((represents.edges.forward (keyOf [repo, blob]) (utf8 manifest)).mpr
      ⟨repo, blob, manifest, edge, rfl, rfl⟩)
  refine ⟨_, listed, _, present, ?_⟩
  simp [pairOf_keyOf clean.1 clean.2.1]

theorem mem_exportReferrers_iff (repo subject referrer : String) (descriptor : Bytes) :
    (repo, subject, referrer, descriptor) ∈ tables.exportReferrers ↔
      (contents repo).referrer subject referrer = some descriptor := by
  simp only [Tables.exportReferrers, List.mem_filterMap]
  constructor
  · rintro ⟨⟨key, bytes⟩, listed, same⟩
    obtain ⟨parts, _, rfl, stored⟩ :=
      (represents.referrers.referrers.mem_toList_iff key bytes).mp listed
    unfold referrerEntries at stored
    split at stored
    · rename_i _ owner target name _
      have clean := represents.referrers.clean owner target name bytes stored
      simp only [tripleOf_keyOf clean.1 clean.2.1 clean.2.2.1, Option.bind_eq_bind,
        Option.bind_some, Option.pure_def, Option.some.injEq, Prod.mk.injEq] at same
      obtain ⟨rfl, rfl, rfl, rfl⟩ := same
      exact stored
    · cases stored
  intro found
  have clean := represents.referrers.clean repo subject referrer descriptor found
  refine ⟨(keyOf [repo, subject, referrer], descriptor),
    (represents.referrers.referrers.mem_toList_iff _ _).mpr
      ⟨[repo, subject, referrer], by simp [clean], rfl, found⟩, ?_⟩
  simp [tripleOf_keyOf clean.1 clean.2.1 clean.2.2.1]

theorem mem_exportChecksums_iff (repo digest : String) (found : BlobChecksum) :
    (repo, digest, found) ∈ tables.exportChecksums ↔
      (contents repo).checksum digest = some found := by
  rw [Tables.exportChecksums, represents.checksums.mem_filterMap_iff fun owner named recorded =>
    owner = repo ∧ named = digest ∧ recorded = found]
  · simp
  intro owner named recorded present parts
  simp [parts, decodeChecksum_encodeChecksum]

theorem exportListing_complete : tables.exportListing.Complete contents where
  tags := represents.mem_exportTags_iff
  ascending := represents.exportTags_ascending
  manifests := represents.mem_exportManifests_iff
  edges := represents.mem_exportBackrefs_iff
  referrers := represents.mem_exportReferrers_iff
  checksums := represents.mem_exportChecksums_iff

end Represents

end Roci.Lmdb
