import Roci.Lmdb.Answers
import Roci.Metadata.Image

/-!
# The two engines answer alike

An operation is taken by the embedded engine exactly when every key and every
sorted value it puts is short enough.  After any sequence of operations whose
texts have no zero byte and whose keys are short enough, the log engine and the
embedded engine give the same answers.  Only the order in which the log engine
lists subjects is its own: it follows a hash map.
-/

namespace Roci.Lmdb

open Roci.Library Roci.Metadata

/-! ## Which operations are taken -/

def backrefKeys (repo manifest : String) (blobs : List String) : List Bytes :=
  blobs.flatMap fun blob => [keyOf [repo, blob], keyOf [repo, manifest]]

def backrefValues (manifest : String) (blobs : List String) : List Bytes :=
  blobs.flatMap fun blob => [utf8 manifest, utf8 blob]

section

variable (reader : JsonReader)

def referrerKeys (repo subject referrer : String) (descriptor : Bytes) : List Bytes :=
  [keyOf [repo, subject, referrer], keyOf [repo, referrer, subject]] ++
    (artifactTypeOf reader descriptor).toList.map fun type =>
      keyOf [repo, subject, type, referrer]

def putKeys : MetaOp → List Bytes
  | .putManifest repo digest _ tag references referrer =>
    keyOf [repo, digest] ::
      (tag.toList.flatMap fun tag => [keyOf [repo, tag], keyOf [repo, digest, tag]]) ++
      backrefKeys repo digest references ++
      referrer.toList.flatMap fun entry => referrerKeys reader repo entry.1 digest entry.2
  | .putBackrefs repo manifest blobs => backrefKeys repo manifest blobs
  | .putReferrer repo subject referrer descriptor =>
    referrerKeys reader repo subject referrer descriptor
  | .putChecksum repo digest _ _ => [keyOf [repo, digest]]
  | .deleteManifest _ _ => []
  | .deleteBlob _ _ => []

end

def putValues : MetaOp → List Bytes
  | .putManifest _ digest _ _ references _ => backrefValues digest references
  | .putBackrefs _ manifest blobs => backrefValues manifest blobs
  | _ => []

section

variable (tables : Tables)

theorem put_ok_iff (table : ByteMap Bytes) (part : Bytes) (parts : List Bytes) (value : Bytes) :
    (∃ result, put table (makeKey (part :: parts)) value = .ok result) ↔
      (makeKey (part :: parts)).length ≤ maxKeySize := by
  simp [put_eq_ok_iff, KeyFits, makeKey_cons, ← Nat.add_assoc]

theorem putDup_ok_iff (table : ByteMap ByteSet) (part : Bytes) (parts : List Bytes)
    (value : Bytes) :
    (∃ result, putDup table (makeKey (part :: parts)) value = .ok result) ↔
      (makeKey (part :: parts)).length ≤ maxKeySize ∧ value.length ≤ maxKeySize := by
  simp [putDup_eq_ok_iff, KeyFits, makeKey_cons, ← Nat.add_assoc]

theorem pure_ok_iff : (∃ result, (pure tables : Except HeedError Tables) = .ok result) ↔ True :=
  ⟨fun _ => trivial, fun _ => ⟨tables, rfl⟩⟩

theorem addBackrefsInTxn_ok_iff (repo manifest : String) (blobs : List String) :
    (∃ result, tables.addBackrefsInTxn repo manifest blobs = .ok result) ↔
      (∀ key ∈ backrefKeys repo manifest blobs, key.length ≤ maxKeySize) ∧
        ∀ value ∈ backrefValues manifest blobs, value.length ≤ maxKeySize := by
  unfold Tables.addBackrefsInTxn
  induction blobs generalizing tables with
  | nil => simp [backrefKeys, backrefValues, pure, Except.pure]
  | cons blob blobs ih =>
    rw [List.foldlM_cons, exists_bind_ok_iff (exists_bind_ok_iff (putDup_ok_iff _ _ _ _) fun _ =>
      exists_bind_ok_iff (putDup_ok_iff _ _ _ _) fun _ => pure_ok_iff _) ih]
    simp only [backrefKeys, backrefValues, List.flatMap_cons, List.forall_mem_append,
      List.forall_mem_cons, makeKey_two]
    grind

theorem addReferrerInTxn_ok_iff (reader : JsonReader) (repo subject referrer : String)
    (descriptor : Bytes) :
    (∃ result, tables.addReferrerInTxn reader repo subject referrer descriptor = .ok result) ↔
      ∀ key ∈ referrerKeys reader repo subject referrer descriptor, key.length ≤ maxKeySize := by
  simp only [Tables.addReferrerInTxn, referrerKeys, List.forall_mem_append, List.forall_mem_cons]
  cases artifactTypeOf reader descriptor with
  | none =>
    rw [exists_bind_ok_iff (put_ok_iff _ _ _ _) fun _ =>
      exists_bind_ok_iff (put_ok_iff _ _ _ _) fun _ => pure_ok_iff _]
    simp [makeKey_three]
  | some type =>
    rw [exists_bind_ok_iff (put_ok_iff _ _ _ _) fun _ =>
      exists_bind_ok_iff (put_ok_iff _ _ _ _) fun _ =>
        exists_bind_ok_iff (put_ok_iff _ _ _ _) fun _ =>
          exists_bind_ok_iff (put_ok_iff _ _ _ _) fun _ => pure_ok_iff _]
    grind [makeKey_three, makeKey_four]

theorem putTagged_ok_iff (repo digest mediaType : String) (tag : Option String) :
    (∃ result, tables.putTagged repo digest mediaType tag = .ok result) ↔
      ∀ key ∈ tag.toList.flatMap fun tag => [keyOf [repo, tag], keyOf [repo, digest, tag]],
        key.length ≤ maxKeySize := by
  cases tag with
  | none => simp [Tables.putTagged, pure, Except.pure]
  | some tag =>
    rw [Tables.putTagged, Tables.putTag, exists_bind_ok_iff (put_ok_iff _ _ _ _) fun _ =>
      exists_bind_ok_iff (put_ok_iff _ _ _ _) fun _ => pure_ok_iff _]
    simp [makeKey_two, makeKey_three]

end

/-- An operation is taken exactly when every key and every sorted value it puts
is short enough. -/
theorem applyOp_ok_iff (reader : JsonReader) (tables : Tables) (op : MetaOp) :
    (∃ result, tables.applyOp reader op = .ok result) ↔
      (∀ key ∈ putKeys reader op, key.length ≤ maxKeySize) ∧
        ∀ value ∈ putValues op, value.length ≤ maxKeySize := by
  cases op with
  | putManifest repo digest mediaType tag references referrer =>
    simp only [Tables.applyOp, putKeys, putValues, List.forall_mem_append, List.forall_mem_cons]
    rcases referrer with _ | ⟨subject, descriptor⟩
    · rw [exists_bind_ok_iff (put_ok_iff _ _ _ _) fun _ =>
        exists_bind_ok_iff (putTagged_ok_iff _ _ _ _ _) fun _ =>
          exists_bind_ok_iff (addBackrefsInTxn_ok_iff _ _ _ _) fun _ => pure_ok_iff _]
      simp [makeKey_two, and_assoc]
    rw [exists_bind_ok_iff (put_ok_iff _ _ _ _) fun _ =>
      exists_bind_ok_iff (putTagged_ok_iff _ _ _ _ _) fun _ =>
        exists_bind_ok_iff (addBackrefsInTxn_ok_iff _ _ _ _) fun _ =>
          addReferrerInTxn_ok_iff _ _ _ _ _ _]
    grind [makeKey_two]
  | putBackrefs repo manifest blobs => exact addBackrefsInTxn_ok_iff tables repo manifest blobs
  | putReferrer repo subject referrer descriptor =>
    rw [Tables.applyOp, addReferrerInTxn_ok_iff]
    simp [putKeys, putValues]
  | putChecksum repo digest crc32c size =>
    rw [Tables.applyOp, exists_bind_ok_iff (put_ok_iff _ _ _ _) fun _ => pure_ok_iff _]
    simp [putKeys, putValues, makeKey_two]
  | _ => simp [Tables.applyOp, putKeys, putValues, pure, Except.pure]

theorem putValues_short {reader : JsonReader} {op : MetaOp}
    (short : ∀ key ∈ putKeys reader op, key.length ≤ maxKeySize) :
    ∀ value ∈ putValues op, value.length ≤ maxKeySize := by
  have edges : ∀ repo manifest blobs,
      (∀ key ∈ backrefKeys repo manifest blobs, key.length ≤ maxKeySize) →
        ∀ value ∈ backrefValues manifest blobs, value.length ≤ maxKeySize := by
    intro repo manifest blobs keys value membership
    simp only [backrefValues, List.mem_flatMap, List.mem_cons, List.not_mem_nil, or_false]
      at membership
    obtain ⟨blob, present, named⟩ := membership
    have first := keys (keyOf [repo, blob]) (List.mem_flatMap.mpr ⟨blob, present, by simp⟩)
    have second := keys (keyOf [repo, manifest]) (List.mem_flatMap.mpr ⟨blob, present, by simp⟩)
    simp only [keyOf_cons, List.length_append, List.length_cons] at first second
    rcases named with rfl | rfl <;> omega
  cases op with
  | putManifest repo digest mediaType tag references referrer =>
    refine edges repo digest references fun key membership => short key ?_
    simp only [putKeys, List.mem_append]
    exact .inl (.inr membership)
  | putBackrefs repo manifest blobs => exact edges repo manifest blobs short
  | deleteManifest | putReferrer | putChecksum | deleteBlob => simp [putValues]

/-- Operations with short keys are all taken. -/
theorem bulkApply_ok {reader : JsonReader} {ops : List MetaOp} (tables : Tables)
    (short : ∀ op ∈ ops, ∀ key ∈ putKeys reader op, key.length ≤ maxKeySize) :
    ∃ result, tables.bulkApply reader ops = .ok result := by
  unfold Tables.bulkApply
  induction ops generalizing tables with
  | nil => exact ⟨tables, rfl⟩
  | cons op ops ih =>
    rw [List.forall_mem_cons] at short
    obtain ⟨next, step⟩ := (applyOp_ok_iff reader tables op).mpr ⟨short.1, putValues_short short.1⟩
    obtain ⟨result, rest⟩ := ih next short.2
    exact ⟨result, by rw [List.foldlM_cons, bind_eq_ok_iff]; exact ⟨next, step, rest⟩⟩

/-! ## Equal answers -/

/-- The log engine lists the subjects of a repository in the order of a hash
map. -/
def referrersSnapshotIn (order : IterOrder) (state : State) (repo : String) :
    List (String × List Referrer) :=
  order.arrange repo (state.referrersSnapshot repo)

/-- Every query with arguments free of zero bytes has one answer on both
engines, whatever the cursor and the limit. -/
structure AnswersAlike (order : IterOrder) (state : State) (tables : Tables) : Prop where
  resolveTag : ∀ repo tag, NulFree repo → NulFree tag →
    tables.resolveTag repo tag = state.resolveTag repo tag
  manifestMediaType : ∀ repo digest, NulFree repo → NulFree digest →
    tables.manifestMediaType repo digest = state.manifestMediaType repo digest
  tagsPage : ∀ repo last limit, NulFree repo →
    tables.tagsPage repo last limit = state.tagsPage repo last limit
  referrersPage : ∀ repo subject artifactType last limit, NulFree repo → NulFree subject →
    (∀ type ∈ artifactType, NulFree type) →
      tables.referrersPage repo subject artifactType last limit =
        state.referrersPage repo subject artifactType last limit
  hasReferrer : ∀ repo subject referrer, NulFree repo → NulFree subject → NulFree referrer →
    tables.hasReferrer repo subject referrer = state.hasReferrer repo subject referrer
  backrefs : ∀ repo blob, NulFree repo → NulFree blob → ∀ manifest,
    manifest ∈ tables.backrefsOf repo blob ↔ manifest ∈ state.backrefs repo blob
  checksum : ∀ repo digest, NulFree repo → NulFree digest →
    tables.checksum repo digest = state.checksum repo digest
  repoNames : tables.repoNames = state.repoNames
  manifests : ∀ repo, NulFree repo → ∀ digest,
    digest ∈ tables.manifests repo ↔ digest ∈ state.manifests repo
  tagsSnapshot : ∀ repo, NulFree repo → tables.tagsSnapshot repo = state.tagsSnapshot repo
  referrersSnapshot : ∀ repo, NulFree repo →
    (tables.referrersSnapshot repo).Perm (referrersSnapshotIn order state repo)

/-- Tables that represent the contents of a log state answer like it. -/
theorem Represents.answersAlike {reader : JsonReader} {tables : Tables} {state : State}
    (order : IterOrder) (wellFormed : ∀ name, (state.repo name).WellFormed reader)
    (represents : Represents reader tables state.contents) :
    AnswersAlike order state tables where
  resolveTag _ _ := resolveTag_eq represents
  manifestMediaType _ _ := manifestMediaType_eq represents
  tagsPage _ last limit repoClean := tagsPage_eq represents repoClean last limit
  referrersPage repo _ _ last limit repoClean subjectClean typeClean :=
    referrersPage_eq represents (wellFormed repo) repoClean subjectClean typeClean last limit
  hasReferrer _ _ _ := hasReferrer_eq represents
  backrefs _ _ := mem_backrefsOf_iff represents
  checksum _ _ := checksum_eq represents
  repoNames := repoNames_eq represents wellFormed
  manifests repo repoClean digest := by rw [manifests_eq represents repoClean]
  tagsSnapshot _ := tagsSnapshot_eq represents
  referrersSnapshot repo repoClean := by
    rw [referrersSnapshot_eq represents (wellFormed repo) repoClean]
    exact (order.perm repo _).symm

theorem represents_foldl {reader : JsonReader} {ops : List MetaOp} {tables : Tables}
    (clean : ∀ op ∈ ops, OpNulFree reader op)
    (done : ops.foldlM (Tables.applyOp reader) {} = .ok tables) :
    Represents reader tables (ops.foldl (State.applyInRam reader) {}).contents := by
  rw [State.contents_foldl, State.contents_empty]
  exact (Represents.empty reader).bulkApply clean done

/-- The two engines take every operation of the sequence and answer alike
afterwards. -/
theorem engines_answer_alike (reader : JsonReader) (order : IterOrder) (ops : List MetaOp)
    (clean : ∀ op ∈ ops, OpNulFree reader op)
    (short : ∀ op ∈ ops, ∀ key ∈ putKeys reader op, key.length ≤ maxKeySize) :
    ∃ tables, ops.foldlM (Tables.applyOp reader) {} = .ok tables ∧
      AnswersAlike order (ops.foldl (State.applyInRam reader) {}) tables := by
  obtain ⟨tables, done⟩ := bulkApply_ok {} short
  exact ⟨tables, done, (represents_foldl clean done).answersAlike order
    (State.wellFormed_foldl reader ops)⟩

def signedImage : List MetaOp :=
  [.putManifest "app" "sha256:0a" "application/json" (some "v1") ["sha256:0b"] none,
    .putManifest "app" "sha256:0c" "application/json" none []
      (some ("sha256:0a", utf8 "\x7b\"artifactType\":\"sig\"\x7d")),
    .putChecksum "app" "sha256:0b" 7 42]

theorem signedImage_answers_alike :
    ∃ tables, signedImage.foldlM (Tables.applyOp JsonText.reader) {} = .ok tables ∧
      AnswersAlike .sorted (signedImage.foldl (State.applyInRam JsonText.reader) {}) tables :=
  engines_answer_alike JsonText.reader .sorted signedImage (by decide +kernel) (by decide +kernel)

/-- A transaction that fails leaves the tables as they were. -/
def Tables.transact (reader : JsonReader) (tables : Tables) (op : MetaOp) : Tables :=
  (tables.applyOp reader op).toOption.getD tables

/-- After any operations, refused ones among them, the ten tables hold one account
of tags, referrers and edges, the reverse tables exactly what leads back to it, and
the manifest of every tag is recorded. -/
theorem tables_cross_indexed {reader : JsonReader} {ops : List MetaOp}
    (clean : ∀ op ∈ ops, OpNulFree reader op) :
    ∃ contents : Contents, Represents reader (ops.foldl (Tables.transact reader) {}) contents ∧
      ∀ repo, (contents repo).TagsRecorded := by
  refine List.foldlRecOn (motive := fun tables => ∃ contents : Contents,
    Represents reader tables contents ∧ ∀ repo, (contents repo).TagsRecorded) ops _
    ⟨_, .empty reader, fun _ => nofun⟩ ?_
  rintro tables ⟨contents, represents, recorded⟩ op issued
  rw [Tables.transact]
  cases done : tables.applyOp reader op with
  | error error => exact ⟨contents, represents, recorded⟩
  | ok result =>
    exact ⟨_, represents.applyOp (clean op issued) done, Contents.tagsRecorded_apply recorded op⟩

theorem signedImage_cross_indexed :
    ∃ contents : Contents,
      Represents JsonText.reader (signedImage.foldl (Tables.transact JsonText.reader) {}) contents ∧
        ∀ repo, (contents repo).TagsRecorded :=
  tables_cross_indexed (by decide +kernel)

def IterOrder.reversed : IterOrder where
  arrange _ entries := entries.reverse
  perm _ entries := List.reverse_perm entries

/-- A signature that is filed under two subjects. -/
def twoSubjects : List MetaOp :=
  [.putReferrer "app" "sha256:0a" "sha256:0c" (utf8 "\x7b\x7d"),
    .putReferrer "app" "sha256:0b" "sha256:0c" (utf8 "\x7b\x7d")]

/-- Under a hash order that puts the second subject first, the log engine lists
the subjects the other way round. -/
theorem subjects_listed_in_hash_order :
    (∀ op ∈ twoSubjects, OpNulFree JsonText.reader op) ∧
    (∀ op ∈ twoSubjects, ∀ key ∈ putKeys JsonText.reader op, key.length ≤ maxKeySize) ∧
    ((twoSubjects.foldlM (Tables.applyOp JsonText.reader) {}).toOption.map fun tables =>
        (tables.referrersSnapshot "app").map Prod.fst) = some ["sha256:0a", "sha256:0b"] ∧
    ((referrersSnapshotIn IterOrder.reversed
        (twoSubjects.foldl (State.applyInRam JsonText.reader) {}) "app").map Prod.fst) =
      ["sha256:0b", "sha256:0a"] := by
  decide +kernel

end Roci.Lmdb
