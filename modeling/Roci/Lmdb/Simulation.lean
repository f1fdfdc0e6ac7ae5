import Roci.Lmdb.Tables
import Roci.Metadata.Contents

/-!
# The tables hold the contents

The ten tables represent the contents of a store: each entry under the key of
its parts, together with the entries of the reverse tables that lead back to
it.  Every operation on texts without zero bytes keeps it so.
-/

namespace Roci.Lmdb

open Roci.Library Roci.Metadata

variable (reader : JsonReader)

/-- A descriptor whose artifact type, if it has one, has no zero byte. -/
def TypeNulFree (descriptor : Bytes) : Prop :=
  ∀ type, artifactTypeOf reader descriptor = some type → NulFree type

instance (descriptor : Bytes) : Decidable (TypeNulFree reader descriptor) :=
  inferInstanceAs (Decidable (∀ type ∈ artifactTypeOf reader descriptor, NulFree type))

/-! ## One kind of entry at a time -/

/-- Entries under a repository and one more part. -/
def pairEntries (value : String → String → Option Bytes) : List String → Option Bytes
  | [repo, name] => value repo name
  | _ => none

structure PairTable (table : ByteMap Bytes) (value : String → String → Option Bytes) : Prop where
  clean : ∀ repo name found, value repo name = some found → NulFree repo ∧ NulFree name
  stored : Stored table (pairEntries value)

theorem PairTable.set {table : ByteMap Bytes} {value updated : String → String → Option Bytes}
    (represented : PairTable table value) {repo name : String} (repoClean : NulFree repo)
    (nameClean : NulFree name) (found : Option Bytes)
    (same : ∀ other key, updated other key =
      if other = repo ∧ key = name then found else value other key) :
    PairTable (found.elim (table.erase (keyOf [repo, name])) (table.insert (keyOf [repo, name])))
      updated where
  clean other key bytes present := by
    have before := represented.clean other key bytes
    grind
  stored := represented.stored.set [repo, name] (by simp [repoClean, nameClean]) found
    fun other => by
    unfold pairEntries
    split <;> grind

def tagEntry (entry : String × String) : Bytes := tagValue (utf8 entry.1) (utf8 entry.2)

/-- The reverse entry of a tag leads from its digest back to it. -/
def tagsByDigestEntries (tag : String → String → Option (String × String)) :
    List String → Option Bytes
  | [repo, digest, name] => if (tag repo name).map Prod.fst = some digest then some [] else none
  | _ => none

structure TagTables (tags tagsByDigest : ByteMap Bytes)
    (tag : String → String → Option (String × String)) : Prop where
  forward : PairTable tags fun repo name => (tag repo name).map tagEntry
  digestClean : ∀ repo name digest mediaType, tag repo name = some (digest, mediaType) →
    NulFree digest
  reverse : Stored tagsByDigest (tagsByDigestEntries tag)

namespace TagTables

variable {tags tagsByDigest : ByteMap Bytes}
  {tag updated : String → String → Option (String × String)}

theorem reverse_dropStale (represented : TagTables tags tagsByDigest tag) {repo name : String}
    (repoClean : NulFree repo) (nameClean : NulFree name) :
    Stored (Tables.dropStale tags tagsByDigest repo name)
      (tagsByDigestEntries fun other key =>
        if other = repo ∧ key = name then none else tag other key) := by
  have lookup := represented.forward.stored.lookup [repo, name] (by simp [repoClean, nameClean])
  rw [Tables.dropStale, makeKey_two, lookup]
  cases found : tag repo name with
  | none =>
    simp only [pairEntries, found, Option.map_none, Option.bind_none]
    refine represented.reverse.congr fun other => ?_
    unfold tagsByDigestEntries
    split <;> grind
  | some entry =>
    obtain ⟨old, mediaType⟩ := entry
    have oldClean := represented.digestClean repo name old mediaType found
    simp only [pairEntries, found, Option.map_some, Option.bind_some, tagEntry,
      splitValue_tagValue oldClean]
    refine represented.reverse.erase [repo, old, name] (by simp [repoClean, nameClean, oldClean])
      fun other => ?_
    unfold tagsByDigestEntries
    split <;> grind

theorem put (represented : TagTables tags tagsByDigest tag) {repo name digest : String}
    (repoClean : NulFree repo) (nameClean : NulFree name) (digestClean : NulFree digest)
    {mediaType : String} (same : ∀ other key, updated other key =
      if other = repo ∧ key = name then some (digest, mediaType) else tag other key) :
    TagTables (tags.insert (keyOf [repo, name]) (tagEntry (digest, mediaType)))
      ((Tables.dropStale tags tagsByDigest repo name).insert (keyOf [repo, digest, name]) [])
      updated where
  forward := represented.forward.set repoClean nameClean (some _) (by grind)
  digestClean other key found kept present := by
    have before := represented.digestClean other key found kept
    grind
  reverse := by
    refine (represented.reverse_dropStale repoClean nameClean).set [repo, digest, name]
      (by simp [repoClean, nameClean, digestClean]) (some []) fun other => ?_
    unfold tagsByDigestEntries
    split <;> grind

theorem foldl_dropTag {repo digest : String} (repoClean : NulFree repo)
    (digestClean : NulFree digest) (names : List String)
    (namesClean : ∀ name ∈ names, NulFree name) (tables : Tables) :
    (names.map fun name => keyOf [repo, digest, name]).foldl (Tables.dropTag repo) tables =
      { tables with
        tags := ((names.map fun name => [repo, name]).map keyOf).foldl
          Std.ExtTreeMap.erase tables.tags
        tagsByDigest := ((names.map fun name => [repo, digest, name]).map keyOf).foldl
          Std.ExtTreeMap.erase tables.tagsByDigest } := by
  induction names generalizing tables with
  | nil => rfl
  | cons name names ih =>
    rw [List.forall_mem_cons] at namesClean
    have parts : splitKey (keyOf [repo, digest, name]) = [utf8 repo, utf8 digest, utf8 name] :=
      splitKey_keyOf (by simp [repoClean, digestClean, namesClean.1])
    have step : Tables.dropTag repo tables (keyOf [repo, digest, name]) =
        { tables with
          tags := tables.tags.erase (keyOf [repo, name])
          tagsByDigest := tables.tagsByDigest.erase (keyOf [repo, digest, name]) } := by
      simp only [Tables.dropTag, parts]
      rfl
    rw [List.map_cons, List.foldl_cons, step, ih namesClean.2]
    rfl

theorem untag (represented : TagTables tags tagsByDigest tag) {repo digest : String}
    (repoClean : NulFree repo) (digestClean : NulFree digest) {names : List String}
    (listed : ∀ name, name ∈ names ↔ NulFree name ∧ (tag repo name).map Prod.fst = some digest)
    (same : ∀ other name, updated other name =
      if other = repo ∧ name ∈ names then none else tag other name) :
    TagTables
      (((names.map fun name => [repo, name]).map keyOf).foldl Std.ExtTreeMap.erase tags)
      (((names.map fun name => [repo, digest, name]).map keyOf).foldl
        Std.ExtTreeMap.erase tagsByDigest) updated where
  forward := by
    refine ⟨fun other name found present => ?_, represented.forward.stored.eraseAll ?_ ?_⟩
    · have before := represented.forward.clean other name found
      grind
    · simp only [List.mem_map]
      rintro _ ⟨name, membership, rfl⟩
      simp [repoClean, ((listed name).mp membership).1]
    intro other
    unfold pairEntries
    split <;> grind
  digestClean other name found kept present := by
    have before := represented.digestClean other name found kept
    grind
  reverse := by
    refine represented.reverse.eraseAll ?_ ?_
    · simp only [List.mem_map]
      rintro _ ⟨name, membership, rfl⟩
      simp [repoClean, digestClean, ((listed name).mp membership).1]
    intro other
    unfold tagsByDigestEntries
    split <;> grind

end TagTables

variable (referrer : String → String → String → Option Bytes)

def referrersByTypeEntries :
    List String → Option Bytes
  | [repo, subject, type, digest] =>
    if (referrer repo subject digest).bind (artifactTypeOf reader) = some type then some []
    else none
  | _ => none

def referrerEntries :
    List String → Option Bytes
  | [repo, subject, digest] => referrer repo subject digest
  | _ => none

def referrerTypeEntries :
    List String → Option Bytes
  | [repo, subject, digest] =>
    ((referrer repo subject digest).bind (artifactTypeOf reader)).map utf8
  | _ => none

/-- The reverse entry of a referrer leads from it back to its subject. -/
def referrersReverseEntries :
    List String → Option Bytes
  | [repo, digest, subject] => (referrer repo subject digest).map fun _ => []
  | _ => none

structure ReferrerTables (referrers referrerTypes referrersByType referrersReverse : ByteMap Bytes)
    (referrer : String → String → String → Option Bytes) : Prop where
  clean : ∀ repo subject digest descriptor, referrer repo subject digest = some descriptor →
    NulFree repo ∧ NulFree subject ∧ NulFree digest ∧ TypeNulFree reader descriptor
  referrers : Stored referrers (referrerEntries referrer)
  types : Stored referrerTypes (referrerTypeEntries reader referrer)
  byType : Stored referrersByType (referrersByTypeEntries reader referrer)
  reverse : Stored referrersReverse (referrersReverseEntries referrer)

namespace ReferrerTables

variable {reader} {tables : Tables}
  {referrer updated : String → String → String → Option Bytes} {repo subject digest : String}
  (repoClean : NulFree repo) (subjectClean : NulFree subject) (digestClean : NulFree digest)

include repoClean subjectClean digestClean

theorem remove (represented : ReferrerTables reader tables.referrers tables.referrerTypes
      tables.referrersByType tables.referrersReverse referrer)
    (same : ∀ other target name, updated other target name =
      if other = repo ∧ target = subject ∧ name = digest then none
      else referrer other target name) :
    let removed := tables.removeReferrerInTxn repo subject digest
    ReferrerTables reader removed.referrers removed.referrerTypes removed.referrersByType
      removed.referrersReverse updated where
  clean other target name descriptor present := by
    have before := represented.clean other target name descriptor
    grind
  referrers := represented.referrers.erase [repo, subject, digest]
    (by simp [repoClean, subjectClean, digestClean])
    fun other => by unfold referrerEntries; split <;> grind
  types := represented.types.erase [repo, subject, digest]
    (by simp [repoClean, subjectClean, digestClean])
    fun other => by unfold referrerTypeEntries; split <;> grind
  byType := by
    have lookup := represented.types.lookup [repo, subject, digest]
      (by simp [repoClean, subjectClean, digestClean])
    simp only [Tables.removeReferrerInTxn]
    rw [makeKey_three, lookup]
    cases typed : (referrer repo subject digest).bind (artifactTypeOf reader) with
    | none =>
      simp only [referrerTypeEntries, typed, Option.map_none]
      refine represented.byType.congr fun other => ?_
      unfold referrersByTypeEntries
      split <;> grind
    | some type =>
      obtain ⟨descriptor, found, type_eq⟩ := Option.bind_eq_some_iff.mp typed
      have typeClean := (represented.clean repo subject digest descriptor found).2.2.2 type type_eq
      simp only [referrerTypeEntries, typed, Option.map_some]
      refine represented.byType.erase [repo, subject, type, digest]
        (by simp [repoClean, subjectClean, typeClean, digestClean]) fun other => ?_
      unfold referrersByTypeEntries
      split <;> grind
  reverse := represented.reverse.erase [repo, digest, subject]
    (by simp [repoClean, subjectClean, digestClean])
    fun other => by unfold referrersReverseEntries; split <;> grind

theorem add {referrers referrerTypes referrersByType referrersReverse : ByteMap Bytes}
    (represented : ReferrerTables reader referrers referrerTypes referrersByType
      referrersReverse referrer) {descriptor : Bytes}
    (typeClean : TypeNulFree reader descriptor) (absent : referrer repo subject digest = none)
    (same : ∀ other target name, updated other target name =
      if other = repo ∧ target = subject ∧ name = digest then some descriptor
      else referrer other target name) :
    ReferrerTables reader (referrers.insert (keyOf [repo, subject, digest]) descriptor)
      ((artifactTypeOf reader descriptor).elim referrerTypes fun type =>
        referrerTypes.insert (keyOf [repo, subject, digest]) (utf8 type))
      ((artifactTypeOf reader descriptor).elim referrersByType fun type =>
        referrersByType.insert (keyOf [repo, subject, type, digest]) [])
      (referrersReverse.insert (keyOf [repo, digest, subject]) []) updated where
  clean other target name found present := by
    have before := represented.clean other target name found
    grind
  referrers := represented.referrers.set [repo, subject, digest]
    (by simp [repoClean, subjectClean, digestClean]) (some descriptor)
    fun other => by unfold referrerEntries; split <;> grind
  types := by
    cases typed : artifactTypeOf reader descriptor with
    | none =>
      refine represented.types.congr fun other => ?_
      unfold referrerTypeEntries
      split <;> grind
    | some type =>
      refine represented.types.set [repo, subject, digest]
        (by simp [repoClean, subjectClean, digestClean]) (some _) fun other => ?_
      unfold referrerTypeEntries
      split <;> grind
  byType := by
    cases typed : artifactTypeOf reader descriptor with
    | none =>
      refine represented.byType.congr fun other => ?_
      unfold referrersByTypeEntries
      split <;> grind
    | some type =>
      refine represented.byType.set [repo, subject, type, digest]
        (by simp [repoClean, subjectClean, digestClean, typeClean type typed]) (some [])
        fun other => ?_
      unfold referrersByTypeEntries
      split <;> grind
  reverse := represented.reverse.set [repo, digest, subject]
    (by simp [repoClean, subjectClean, digestClean]) (some [])
    fun other => by unfold referrersReverseEntries; split <;> grind

end ReferrerTables

structure EdgeTables (backrefs backrefsReverse : ByteMap ByteSet)
    (edge : String → String → String → Prop) : Prop where
  clean : ∀ repo blob manifest, edge repo blob manifest →
    NulFree repo ∧ NulFree blob ∧ NulFree manifest
  forward : ∀ key value, value ∈ backrefs.values key ↔
    ∃ repo blob manifest, edge repo blob manifest ∧ key = keyOf [repo, blob] ∧
      value = utf8 manifest
  reverse : ∀ key value, value ∈ backrefsReverse.values key ↔
    ∃ repo blob manifest, edge repo blob manifest ∧ key = keyOf [repo, manifest] ∧
      value = utf8 blob

namespace EdgeTables

variable {backrefs backrefsReverse : ByteMap ByteSet}
  {edge updated : String → String → String → Prop} {repo manifest : String}

theorem add (represented : EdgeTables backrefs backrefsReverse edge) {blob : String}
    (repoClean : NulFree repo) (blobClean : NulFree blob) (manifestClean : NulFree manifest)
    (edges : ∀ other source target, updated other source target ↔
      edge other source target ∨ (other = repo ∧ source = blob ∧ target = manifest)) :
    EdgeTables (backrefs.addValue (keyOf [repo, blob]) (utf8 manifest))
      (backrefsReverse.addValue (keyOf [repo, manifest]) (utf8 blob)) updated where
  clean other source target present := by
    rcases (edges other source target).mp present with before | ⟨rfl, rfl, rfl⟩
    · exact represented.clean other source target before
    · exact ⟨repoClean, blobClean, manifestClean⟩
  forward key value := by
    rw [ByteMap.mem_values_addValue, represented.forward]
    grind
  reverse key value := by
    rw [ByteMap.mem_values_addValue, represented.reverse]
    grind

theorem mem_foldl_dropBackref (blobs : List Bytes) (tables : Tables) (repo digest : String)
    (key value : Bytes) :
    value ∈ (blobs.foldl (Tables.dropBackref repo digest) tables).backrefs.values key ↔
      value ∈ tables.backrefs.values key ∧
        ¬ (value = utf8 digest ∧ ∃ blob ∈ blobs, key = makeKey [utf8 repo, blob]) := by
  induction blobs generalizing tables with
  | nil => simp
  | cons blob blobs ih =>
    rw [List.foldl_cons, ih, Tables.dropBackref, ByteMap.mem_values_dropValue]
    grind

theorem unreference (represented : EdgeTables backrefs backrefsReverse edge)
    (repoClean : NulFree repo) (manifestClean : NulFree manifest)
    (edges : ∀ other source target, updated other source target ↔
      edge other source target ∧ ¬ (other = repo ∧ target = manifest))
    {remaining : ByteMap ByteSet}
    (dropped : ∀ key value, value ∈ remaining.values key ↔
      value ∈ backrefs.values key ∧
        ¬ (value = utf8 manifest ∧ ∃ blob ∈ backrefsReverse.values (keyOf [repo, manifest]),
          key = makeKey [utf8 repo, blob])) :
    EdgeTables remaining (backrefsReverse.erase (keyOf [repo, manifest])) updated where
  clean other source target present :=
    represented.clean other source target ((edges other source target).mp present).1
  forward key value := by
    rw [dropped, represented.forward]
    constructor
    · rintro ⟨⟨other, source, target, present, rfl, rfl⟩, kept⟩
      refine ⟨other, source, target, (edges other source target).mpr ⟨present, ?_⟩, rfl, rfl⟩
      rintro ⟨rfl, rfl⟩
      exact kept ⟨rfl, utf8 source, (represented.reverse _ _).mpr
        ⟨other, source, target, present, rfl, rfl⟩, rfl⟩
    rintro ⟨other, source, target, present, rfl, rfl⟩
    obtain ⟨before, different⟩ := (edges other source target).mp present
    refine ⟨⟨other, source, target, before, rfl, rfl⟩, ?_⟩
    rintro ⟨sameTarget, blob, listed, sameKey⟩
    obtain ⟨name, source', target', found, keys, rfl⟩ := (represented.reverse _ _).mp listed
    have cleanEdge := represented.clean other source target before
    have cleanFound := represented.clean name source' target' found
    have same := @keyOf_injective [other, source] [repo, source'] (by simp [cleanEdge])
      (by simp [repoClean, cleanFound]) sameKey
    simp only [List.cons.injEq] at same
    exact different ⟨same.1, utf8_injective sameTarget⟩
  reverse key value := by
    rw [ByteMap.mem_values_erase, represented.reverse]
    constructor
    · rintro ⟨different, other, source, target, present, rfl, rfl⟩
      refine ⟨other, source, target, (edges other source target).mpr ⟨present, ?_⟩, rfl, rfl⟩
      rintro ⟨rfl, rfl⟩
      exact different rfl
    rintro ⟨other, source, target, present, rfl, rfl⟩
    obtain ⟨before, different⟩ := (edges other source target).mp present
    refine ⟨?_, other, source, target, before, rfl, rfl⟩
    intro sameKey
    have cleanEdge := represented.clean other source target before
    have same := @keyOf_injective [other, target] [repo, manifest] (by simp [cleanEdge])
      (by simp [repoClean, manifestClean]) sameKey
    simp only [List.cons.injEq, and_true] at same
    exact different same

end EdgeTables

structure Represents (tables : Tables) (contents : Contents) : Prop where
  tags : TagTables tables.tags tables.tagsByDigest fun repo => (contents repo).tag
  mediaTypes : PairTable tables.mediaTypes fun repo digest =>
    ((contents repo).mediaType digest).map utf8
  referrers : ReferrerTables reader tables.referrers tables.referrerTypes
    tables.referrersByType tables.referrersReverse fun repo => (contents repo).referrer
  edges : EdgeTables tables.backrefs tables.backrefsReverse fun repo => (contents repo).edge
  checksums : PairTable tables.checksums fun repo digest =>
    ((contents repo).checksum digest).map fun sum => encodeChecksum sum.crc32c sum.size

theorem Represents.empty : Represents reader {} fun _ => .nothing where
  tags := ⟨⟨by simp [RepoContents.nothing], Stored.empty.congr fun parts => by
      unfold pairEntries; split <;> rfl⟩, by simp [RepoContents.nothing],
    Stored.empty.congr fun parts => by unfold tagsByDigestEntries; split <;> rfl⟩
  mediaTypes := ⟨by simp [RepoContents.nothing], Stored.empty.congr fun parts => by
    unfold pairEntries; split <;> rfl⟩
  referrers := ⟨by simp [RepoContents.nothing],
    Stored.empty.congr fun parts => by unfold referrerEntries; split <;> rfl,
    Stored.empty.congr fun parts => by unfold referrerTypeEntries; split <;> rfl,
    Stored.empty.congr fun parts => by unfold referrersByTypeEntries; split <;> rfl,
    Stored.empty.congr fun parts => by unfold referrersReverseEntries; split <;> rfl⟩
  edges := ⟨by simp [RepoContents.nothing], by simp [RepoContents.nothing, ByteMap.values],
    by simp [RepoContents.nothing, ByteMap.values]⟩
  checksums := ⟨by simp [RepoContents.nothing], Stored.empty.congr fun parts => by
    unfold pairEntries; split <;> rfl⟩

end Roci.Lmdb
