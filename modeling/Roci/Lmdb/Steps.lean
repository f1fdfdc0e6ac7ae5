import Roci.Library.Fallible
import Roci.Lmdb.Simulation

/-!
# Operations on the tables

Each operation on texts without zero bytes takes tables that represent some
contents to tables that represent the changed contents.  It is refused exactly
when a key or a sorted value it would put is too long.
-/

namespace Roci.Lmdb

open Roci.Library Roci.Metadata

/-! ## Success and refusal -/

theorem put_eq_ok_iff (table : ByteMap Bytes) (key value : Bytes) (result : ByteMap Bytes) :
    put table key value = .ok result ↔ KeyFits key ∧ table.insert key value = result := by
  unfold put
  split <;> simp_all

theorem putDup_eq_ok_iff (table : ByteMap ByteSet) (key value : Bytes) (result : ByteMap ByteSet) :
    putDup table key value = .ok result ↔
      (KeyFits key ∧ value.length ≤ maxKeySize) ∧ table.addValue key value = result := by
  unfold putDup
  split <;> simp_all

/-! ## What an operation leaves alone -/

section Frame

variable {reader : JsonReader} {contents : Contents} {repo : String}
  {change : RepoContents → RepoContents}

theorem TagTables.frame (same : ∀ entries, (change entries).tag = entries.tag := by intro; rfl)
    {tags tagsByDigest : ByteMap Bytes}
    (represented : TagTables tags tagsByDigest fun name => (contents name).tag) :
    TagTables tags tagsByDigest fun name => (contents.update repo change name).tag :=
  (congrArg (TagTables tags tagsByDigest)
    (Contents.update_field RepoContents.tag same contents repo)).mpr represented

theorem PairTable.frame {Value : Type} (field : RepoContents → String → Option Value)
    (same : ∀ entries, field (change entries) = field entries := by intro; rfl)
    {table : ByteMap Bytes} {encode : Value → Bytes}
    (represented : PairTable table fun name key => (field (contents name) key).map encode) :
    PairTable table fun name key =>
      (field (contents.update repo change name) key).map encode :=
  (congrArg (PairTable table) (Contents.update_field
    (fun entries key => (field entries key).map encode)
    (fun entries => by rw [same entries]) contents repo)).mpr represented

theorem ReferrerTables.frame
    (same : ∀ entries, (change entries).referrer = entries.referrer := by intro; rfl)
    {referrers types byType reverse : ByteMap Bytes}
    (represented : ReferrerTables reader referrers types byType reverse
      fun name => (contents name).referrer) :
    ReferrerTables reader referrers types byType reverse
      fun name => (contents.update repo change name).referrer :=
  (congrArg (ReferrerTables reader referrers types byType reverse)
    (Contents.update_field RepoContents.referrer same contents repo)).mpr represented

theorem EdgeTables.frame (same : ∀ entries, (change entries).edge = entries.edge := by intro; rfl)
    {backrefs backrefsReverse : ByteMap ByteSet}
    (represented : EdgeTables backrefs backrefsReverse fun name => (contents name).edge) :
    EdgeTables backrefs backrefsReverse fun name => (contents.update repo change name).edge :=
  (congrArg (EdgeTables backrefs backrefsReverse)
    (Contents.update_field RepoContents.edge same contents repo)).mpr represented

end Frame

/-! ## One change at a time -/

namespace Represents

variable {reader : JsonReader} {tables result : Tables} {contents : Contents} {repo digest : String}

section

variable (represents : Represents reader tables contents) (repoClean : NulFree repo)
  (digestClean : NulFree digest)

include represents repoClean digestClean

theorem setMediaType (mediaType : Option String) :
    Represents reader { tables with
        mediaTypes := (mediaType.map utf8).elim (tables.mediaTypes.erase (keyOf [repo, digest]))
          (tables.mediaTypes.insert (keyOf [repo, digest])) }
      (contents.update repo fun entries => { entries with
        mediaType := fun other =>
          if other = digest then mediaType else entries.mediaType other }) where
  tags := represents.tags.frame
  mediaTypes := represents.mediaTypes.set repoClean digestClean _ (by grind [Contents.update])
  referrers := represents.referrers.frame
  edges := represents.edges.frame
  checksums := represents.checksums.frame RepoContents.checksum

theorem putTag {mediaType tag : String} (tagClean : NulFree tag)
    (done : tables.putTag repo digest mediaType tag = .ok result) :
    Represents reader result
      (contents.update repo fun entries => entries.putTag digest mediaType tag) := by
  simp only [Tables.putTag, bind_eq_ok_iff, put_eq_ok_iff, pure, Except.pure,
    Except.ok.injEq] at done
  obtain ⟨_, ⟨_, rfl⟩, _, ⟨_, rfl⟩, rfl⟩ := done
  exact {
    tags := represents.tags.put repoClean tagClean digestClean
      (by grind [Contents.update, RepoContents.putTag])
    mediaTypes := represents.mediaTypes.frame RepoContents.mediaType
    referrers := represents.referrers.frame
    edges := represents.edges.frame
    checksums := represents.checksums.frame RepoContents.checksum }

theorem setChecksum (checksum : Option BlobChecksum) :
    Represents reader { tables with
        checksums := (checksum.map fun sum => encodeChecksum sum.crc32c sum.size).elim
          (tables.checksums.erase (keyOf [repo, digest]))
          (tables.checksums.insert (keyOf [repo, digest])) }
      (contents.update repo fun entries => { entries with
        checksum := fun other =>
          if other = digest then checksum else entries.checksum other }) where
  tags := represents.tags.frame
  mediaTypes := represents.mediaTypes.frame RepoContents.mediaType
  referrers := represents.referrers.frame
  edges := represents.edges.frame
  checksums := represents.checksums.set repoClean digestClean _ (by grind [Contents.update])

end

variable {manifest subject : String}

section

variable (represents : Represents reader tables contents) (repoClean : NulFree repo)

include represents repoClean

theorem addBackref {blob : String} (manifestClean : NulFree manifest) (blobClean : NulFree blob) :
    Represents reader
      { tables with
        backrefs := tables.backrefs.addValue (keyOf [repo, blob]) (utf8 manifest)
        backrefsReverse := tables.backrefsReverse.addValue (keyOf [repo, manifest]) (utf8 blob) }
      (contents.update repo fun entries => entries.addBackrefs manifest [blob]) where
  tags := represents.tags.frame
  mediaTypes := represents.mediaTypes.frame RepoContents.mediaType
  referrers := represents.referrers.frame
  edges := represents.edges.add repoClean blobClean manifestClean
    (by grind [Contents.update, RepoContents.addBackrefs])
  checksums := represents.checksums.frame RepoContents.checksum

theorem addBackrefs {blobs : List String} (manifestClean : NulFree manifest)
    (blobsClean : ∀ blob ∈ blobs, NulFree blob)
    (done : tables.addBackrefsInTxn repo manifest blobs = .ok result) :
    Represents reader result
      (contents.update repo fun entries => entries.addBackrefs manifest blobs) := by
  unfold Tables.addBackrefsInTxn at done
  induction blobs generalizing tables contents with
  | nil =>
    cases done
    have same : (contents.update repo fun entries => entries.addBackrefs manifest []) =
        contents := by
      funext name
      simp only [Contents.update]
      split
      · ext <;> simp [RepoContents.addBackrefs]
      · rfl
    rwa [same]
  | cons blob blobs ih =>
    rw [List.forall_mem_cons] at blobsClean
    rw [List.foldlM_cons] at done
    simp only [bind_eq_ok_iff, putDup_eq_ok_iff, pure, Except.pure, Except.ok.injEq] at done
    obtain ⟨_, ⟨_, ⟨_, rfl⟩, _, ⟨_, rfl⟩, rfl⟩, rest⟩ := done
    have next := ih (represents.addBackref repoClean manifestClean blobsClean.1) blobsClean.2 rest
    rw [Contents.update_update] at next
    have same : (fun entries : RepoContents =>
        (entries.addBackrefs manifest [blob]).addBackrefs manifest blobs) =
          fun entries => entries.addBackrefs manifest (blob :: blobs) := by
      funext entries
      ext <;> simp [RepoContents.addBackrefs]
      grind
    rwa [same] at next

theorem removeReferrer (subjectClean : NulFree subject) (digestClean : NulFree digest) :
    Represents reader (tables.removeReferrerInTxn repo subject digest)
      (contents.update repo fun entries => entries.removeReferrer subject digest) where
  tags := represents.tags.frame
  mediaTypes := represents.mediaTypes.frame RepoContents.mediaType
  referrers := represents.referrers.remove repoClean subjectClean digestClean
    (by grind [Contents.update, RepoContents.removeReferrer])
  edges := represents.edges.frame
  checksums := represents.checksums.frame RepoContents.checksum

theorem addReferrer {descriptor : Bytes} (subjectClean : NulFree subject)
    (digestClean : NulFree digest) (typeClean : TypeNulFree reader descriptor)
    (done : tables.addReferrerInTxn reader repo subject digest descriptor = .ok result) :
    Represents reader result
      (contents.update repo fun entries => entries.addReferrer subject digest descriptor) := by
  have removed := represents.removeReferrer repoClean subjectClean digestClean
  have same : ∀ other target name, (contents.update repo (fun entries =>
      entries.addReferrer subject digest descriptor) other).referrer target name =
      if other = repo ∧ target = subject ∧ name = digest then some descriptor
      else (contents.update repo (fun entries =>
        entries.removeReferrer subject digest) other).referrer target name := by
    grind [Contents.update, RepoContents.addReferrer, RepoContents.removeReferrer]
  have added := removed.referrers.add repoClean subjectClean digestClean typeClean
    (by simp [Contents.update, RepoContents.removeReferrer]) same
  unfold Tables.addReferrerInTxn at done
  cases typed : artifactTypeOf reader descriptor with
  | none =>
    simp only [typed, bind_eq_ok_iff, put_eq_ok_iff, pure, Except.pure, Except.ok.injEq] at done
    obtain ⟨_, ⟨_, rfl⟩, _, ⟨_, rfl⟩, rfl⟩ := done
    rw [typed] at added
    exact {
      tags := represents.tags.frame
      mediaTypes := represents.mediaTypes.frame RepoContents.mediaType
      referrers := added
      edges := represents.edges.frame
      checksums := represents.checksums.frame RepoContents.checksum }
  | some type =>
    simp only [typed, bind_eq_ok_iff, put_eq_ok_iff, pure, Except.pure, Except.ok.injEq] at done
    obtain ⟨_, ⟨_, rfl⟩, _, ⟨_, rfl⟩, _, ⟨_, rfl⟩, _, ⟨_, rfl⟩, rfl⟩ := done
    rw [typed] at added
    exact {
      tags := represents.tags.frame
      mediaTypes := represents.mediaTypes.frame RepoContents.mediaType
      referrers := added
      edges := represents.edges.frame
      checksums := represents.checksums.frame RepoContents.checksum }

end

/-! ## Deleting a manifest -/

theorem foldl_removeReferrer (entries : RepoContents) (digest : String) (subjects : List String) :
    subjects.foldl (fun entries subject => entries.removeReferrer subject digest) entries =
      { entries with
        referrer := fun subject other =>
          if subject ∈ subjects ∧ other = digest then none
          else entries.referrer subject other } := by
  induction subjects generalizing entries with
  | nil => simp
  | cons subject subjects ih =>
    rw [List.foldl_cons, ih]
    ext target other
    · rfl
    · rfl
    · simp only [RepoContents.removeReferrer, List.mem_cons]
      grind
    · rfl
    · rfl

theorem foldl_dropBackref (repo digest : String) (blobs : List Bytes) (tables : Tables) :
    blobs.foldl (Tables.dropBackref repo digest) tables =
      { tables with
        backrefs := (blobs.foldl (Tables.dropBackref repo digest) tables).backrefs } := by
  induction blobs generalizing tables with
  | nil => rfl
  | cons blob blobs ih =>
    rw [List.foldl_cons, ih]
    rfl

variable (represents : Represents reader tables contents) (repoClean : NulFree repo)
  (digestClean : NulFree digest)

include represents repoClean digestClean

theorem untag :
    Represents reader
      ((keysWithPrefix tables.tagsByDigest (makePrefix [utf8 repo, utf8 digest])).foldl
        (Tables.dropTag repo) tables)
      (contents.update repo fun entries => entries.untag digest) := by
  have frontClean : ∀ part ∈ [repo, digest], NulFree part := by simp [repoClean, digestClean]
  obtain ⟨names, keys, present⟩ := keysWithPrefix_eq represents.tags.reverse frontClean (by simp)
    (by
      rintro (_ | ⟨name, _ | ⟨second, rest⟩⟩) value found
      · cases found
      · exact ⟨name, rfl⟩
      · cases found)
  have listed : ∀ name, name ∈ names ↔
      NulFree name ∧ ((contents repo).tag name).map Prod.fst = some digest := by
    intro name
    rw [present]
    simp only [List.cons_append, List.nil_append, tagsByDigestEntries]
    split <;> simp_all
  rw [makePrefix, makeKey_two, keys]
  simp only [List.cons_append, List.nil_append]
  rw [TagTables.foldl_dropTag repoClean digestClean names
    fun name membership => ((listed name).mp membership).1]
  exact {
    tags := by
      refine represents.tags.untag repoClean digestClean listed fun other name => ?_
      have clean : ∀ entry, (contents other).tag name = some entry → NulFree name := fun _ found =>
        (represents.tags.forward.clean other name _ (congrArg (Option.map tagEntry) found)).2
      grind [Contents.update, RepoContents.untag, Option.map_eq_some_iff]
    mediaTypes := represents.mediaTypes.frame RepoContents.mediaType
    referrers := represents.referrers.frame
    edges := represents.edges.frame
    checksums := represents.checksums.frame RepoContents.checksum }

theorem foldl_dropReferrer (subjects : List String)
    (subjectsClean : ∀ subject ∈ subjects, NulFree subject) :
    Represents reader
      ((subjects.map fun subject => keyOf [repo, digest, subject]).foldl
        (Tables.dropReferrer repo digest) tables)
      (contents.update repo fun entries =>
        subjects.foldl (fun entries subject => entries.removeReferrer subject digest) entries) := by
  induction subjects generalizing tables contents with
  | nil =>
    have same : (contents.update repo fun entries => entries) = contents := by
      funext name
      simp [Contents.update]
    simpa [same] using represents
  | cons subject subjects ih =>
    rw [List.forall_mem_cons] at subjectsClean
    have parts : splitKey (keyOf [repo, digest, subject]) =
        [utf8 repo, utf8 digest, utf8 subject] :=
      splitKey_keyOf (by simp [repoClean, digestClean, subjectsClean.1])
    have step : Tables.dropReferrer repo digest tables (keyOf [repo, digest, subject]) =
        tables.removeReferrerInTxn repo subject digest := by
      simp only [Tables.dropReferrer, parts, fromUtf8_utf8, Option.getD_some]
    have next := ih
      (represents.removeReferrer repoClean subjectsClean.1 digestClean) subjectsClean.2
    rw [Contents.update_update] at next
    rw [List.map_cons, List.foldl_cons, step]
    exact next

theorem unlist :
    Represents reader
      ((keysWithPrefix tables.referrersReverse (makePrefix [utf8 repo, utf8 digest])).foldl
        (Tables.dropReferrer repo digest) tables)
      (contents.update repo fun entries => entries.unlist digest) := by
  have frontClean : ∀ part ∈ [repo, digest], NulFree part := by simp [repoClean, digestClean]
  obtain ⟨subjects, keys, present⟩ :=
    keysWithPrefix_eq represents.referrers.reverse frontClean (by simp) (by
      rintro (_ | ⟨name, _ | ⟨second, rest⟩⟩) value found
      · cases found
      · exact ⟨name, rfl⟩
      · cases found)
  have dropped := represents.foldl_dropReferrer repoClean digestClean subjects
    fun subject membership => ((present subject).mp membership).1
  rw [makePrefix, makeKey_two, keys]
  refine (Contents.update_congr ?_) ▸ dropped
  rw [foldl_removeReferrer]
  apply RepoContents.ext <;> try rfl
  funext subject other
  have clean := represents.referrers.clean repo subject other
  have listed := present subject
  simp only [List.cons_append, List.nil_append, referrersReverseEntries] at listed
  cases found : (contents repo).referrer subject other <;> grind [RepoContents.unlist]

theorem unreference {blobs : List Bytes}
    (listed : ∀ blob, blob ∈ blobs ↔ blob ∈ tables.backrefsReverse.values (keyOf [repo, digest])) :
    Represents reader
      { blobs.foldl (Tables.dropBackref repo digest) tables with
        backrefsReverse := (blobs.foldl (Tables.dropBackref repo digest)
          tables).backrefsReverse.erase (keyOf [repo, digest]) }
      (contents.update repo fun entries => entries.unreference digest) := by
  have dropped := EdgeTables.mem_foldl_dropBackref blobs tables repo digest
  have edges : EdgeTables (blobs.foldl (Tables.dropBackref repo digest) tables).backrefs
      (tables.backrefsReverse.erase (keyOf [repo, digest]))
      fun name => (contents.update repo (fun entries => entries.unreference digest) name).edge := by
    refine represents.edges.unreference repoClean digestClean ?_ ?_
    · intro other source target
      simp only [Contents.update, RepoContents.unreference]
      split <;> simp_all
    intro key value
    simp only [dropped, listed]
  rw [foldl_dropBackref]
  exact {
    tags := represents.tags.frame
    mediaTypes := represents.mediaTypes.frame RepoContents.mediaType
    referrers := represents.referrers.frame
    edges := edges
    checksums := represents.checksums.frame RepoContents.checksum }

theorem deleteManifest :
    Represents reader (tables.deleteManifest repo digest)
      (contents.update repo fun entries => entries.deleteManifest digest) := by
  have recorded := (represents.setChecksum repoClean digestClean none).setMediaType repoClean
    digestClean none
  have dropped := ((recorded.untag repoClean digestClean).unlist repoClean
    digestClean).unreference repoClean digestClean fun blob => Std.ExtTreeSet.mem_toList
  simp only [Contents.update_update] at dropped
  exact dropped

end Represents

/-! ## Whole operations -/

section Operations

variable (reader : JsonReader)

/-- Every text of the operation is without a zero byte; media types are not
part of a key. -/
def OpNulFree : MetaOp → Prop
  | .putManifest repo digest _ tag references referrer =>
    NulFree repo ∧ NulFree digest ∧ (∀ name ∈ tag, NulFree name) ∧
      (∀ blob ∈ references, NulFree blob) ∧
      ∀ entry ∈ referrer, NulFree entry.1 ∧ TypeNulFree reader entry.2
  | .putBackrefs repo manifest blobs =>
    NulFree repo ∧ NulFree manifest ∧ ∀ blob ∈ blobs, NulFree blob
  | .deleteManifest repo digest => NulFree repo ∧ NulFree digest
  | .putReferrer repo subject referrer descriptor =>
    NulFree repo ∧ NulFree subject ∧ NulFree referrer ∧ TypeNulFree reader descriptor
  | .putChecksum repo digest _ _ => NulFree repo ∧ NulFree digest
  | .deleteBlob repo digest => NulFree repo ∧ NulFree digest

instance (op : MetaOp) : Decidable (OpNulFree reader op) := by
  unfold OpNulFree
  split <;> infer_instance

variable {reader} {result tables : Tables}

/-- Step lemma: the tables follow the operation. -/
theorem Represents.applyOp {contents : Contents} {op : MetaOp}
    (represents : Represents reader tables contents) (clean : OpNulFree reader op)
    (done : tables.applyOp reader op = .ok result) :
    Represents reader result (contents.apply op) := by
  cases op with
  | putManifest repo digest mediaType tag references referrer =>
    obtain ⟨repoClean, digestClean, tagClean, referencesClean, referrerClean⟩ := clean
    simp only [Tables.applyOp, bind_eq_ok_iff, put_eq_ok_iff] at done
    obtain ⟨_, ⟨_, rfl⟩, tagged, tagging, referenced, referencing, last⟩ := done
    have recorded := represents.setMediaType repoClean digestClean (some mediaType)
    have afterTag : Represents reader tagged (contents.update repo fun entries =>
        tag.elim (entries.putMediaType digest mediaType)
          fun tag => (entries.putMediaType digest mediaType).putTag digest mediaType tag) := by
      cases tag with
      | none =>
        cases tagging
        exact recorded
      | some tag =>
        have next := recorded.putTag repoClean digestClean (tagClean tag rfl) tagging
        rwa [Contents.update_update] at next
    have afterReferences := afterTag.addBackrefs repoClean digestClean referencesClean referencing
    rw [Contents.update_update] at afterReferences
    rcases referrer with _ | entry
    · cases last
      cases tag <;> exact afterReferences
    obtain ⟨subject, descriptor⟩ := entry
    have subjectClean := referrerClean (subject, descriptor) rfl
    have next := afterReferences.addReferrer repoClean subjectClean.1 digestClean
      subjectClean.2 last
    rw [Contents.update_update] at next
    cases tag <;> exact next
  | deleteManifest repo digest =>
    cases done
    exact represents.deleteManifest clean.1 clean.2
  | putBackrefs repo manifest blobs =>
    exact represents.addBackrefs clean.1 clean.2.1 clean.2.2 done
  | putReferrer repo subject referrer descriptor =>
    exact represents.addReferrer clean.1 clean.2.1 clean.2.2.1 clean.2.2.2 done
  | putChecksum repo digest crc32c size =>
    simp only [Tables.applyOp, bind_eq_ok_iff, put_eq_ok_iff, pure, Except.pure,
      Except.ok.injEq] at done
    obtain ⟨_, ⟨_, rfl⟩, rfl⟩ := done
    exact represents.setChecksum clean.1 clean.2 (some ⟨crc32c, size⟩)
  | deleteBlob repo digest =>
    cases done
    exact represents.setChecksum clean.1 clean.2 none

/-- Run lemma: the tables follow a run of operations. -/
theorem Represents.bulkApply {contents : Contents} {ops : List MetaOp}
    (represents : Represents reader tables contents) (clean : ∀ op ∈ ops, OpNulFree reader op)
    (done : tables.bulkApply reader ops = .ok result) :
    Represents reader result (ops.foldl Contents.apply contents) := by
  unfold Tables.bulkApply at done
  induction ops generalizing tables contents with
  | nil =>
    cases done
    exact represents
  | cons op ops ih =>
    rw [List.forall_mem_cons] at clean
    rw [List.foldlM_cons, bind_eq_ok_iff] at done
    obtain ⟨next, step, rest⟩ := done
    exact ih (represents.applyOp clean.1 step) clean.2 rest

end Operations

end Roci.Lmdb
