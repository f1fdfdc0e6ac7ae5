import Roci.Metadata.Image

/-!
# When compaction preserves the answers

A state survives compaction exactly when, in every repository, the greatest
tag naming a manifest carries the media type recorded for the manifest, and
every referrer descriptor is UTF-8.
-/

namespace Roci.Metadata

open Roci.Library

def RepoState.GreatestTag (self : RepoState) (digest tag mediaType : String) : Prop :=
  self.tags[tag]? = some (digest, mediaType) ∧
    ∀ other otherType, self.tags[other]? = some (digest, otherType) → ¬ tag < other

/-- What compaction keeps of a repository. -/
structure RepoState.Compactable (repoState : RepoState) : Prop where
  mediaTypes : ∀ digest tag mediaType, repoState.GreatestTag digest tag mediaType →
    repoState.mediaTypes[digest]? = some mediaType
  descriptors : ∀ (subject : String) (referrers : SubjectReferrers) (digest : String)
    (artifactType : Option String) (descriptor : Bytes),
    repoState.referrers[subject]? = some referrers →
    referrers.byDigest[digest]? = some (artifactType, descriptor) → ValidUtf8 descriptor

def State.Compactable (state : State) : Prop := ∀ name, (state.repo name).Compactable

theorem RepoState.greatestTag_iff (self : RepoState) (digest tag mediaType : String) :
    self.GreatestTag digest tag mediaType ↔
      self.tags.toList.reverse.find? (fun entry => entry.2.1 = digest) =
        some (tag, digest, mediaType) := by
  rw [StringMap.find?_reverse_toList_eq_some_iff, RepoState.GreatestTag]
  constructor
  · rintro ⟨present, greatest⟩
    refine ⟨present, by simp, ?_⟩
    rintro other ⟨named, otherType⟩ listed same
    simp only [decide_eq_true_eq] at same
    exact greatest other otherType (same ▸ listed)
  rintro ⟨present, _, greatest⟩
  exact ⟨present, fun other otherType listed =>
    greatest other (digest, otherType) listed (by simp)⟩

theorem compactedMediaType_eq_iff (self : RepoState) (digest : String) :
    self.compactedMediaType digest = self.mediaTypes[digest]? ↔
      ∀ tag mediaType, self.GreatestTag digest tag mediaType →
        self.mediaTypes[digest]? = some mediaType := by
  have greatest_iff := self.greatestTag_iff digest
  unfold RepoState.compactedMediaType
  cases found : self.tags.toList.reverse.find? fun entry => entry.2.1 = digest with
  | none =>
    simp only [Option.map_none, Option.none_or, true_iff]
    intro tag mediaType greatest
    rw [greatest_iff, found] at greatest
    cases greatest
  | some entry =>
    obtain ⟨tag, named, mediaType⟩ := entry
    have same : named = digest := by simpa using List.find?_some found
    subst same
    simp only [Option.map_some, Option.some_or]
    constructor
    · intro equal other otherType greatest
      rw [greatest_iff, found] at greatest
      cases greatest
      exact equal.symm
    intro recorded
    exact (recorded tag mediaType ((greatest_iff tag mediaType).mpr found)).symm

theorem relogged_eq_self {reader : JsonReader} {self : SubjectReferrers} (typed : self.Typed reader)
    (valid : ∀ (digest : String) (artifactType : Option String) (descriptor : Bytes),
      self.byDigest[digest]? = some (artifactType, descriptor) → ValidUtf8 descriptor) :
    self.relogged reader = self := by
  apply SubjectReferrers.ext_byDigest
  apply Std.ExtTreeMap.ext_getElem?
  intro digest
  rw [SubjectReferrers.byDigest_relogged]
  rcases found : self.byDigest[digest]? with _ | entry
  · rfl
  obtain ⟨artifactType, descriptor⟩ := entry
  have same := (utf8_fromUtf8Lossy_iff descriptor).mpr (valid digest _ _ found)
  simp only [Option.map_some, same]
  rw [typed digest _ _ found]

/-- A compactable repository comes out of compaction unchanged. -/
theorem Compacted.eq_of_compactable {reader : JsonReader} {before after : RepoState}
    (compacted : Compacted reader before after) (wellFormed : before.WellFormed reader)
    (compactable : before.Compactable) : after = before := by
  have mediaTypes : after.mediaTypes = before.mediaTypes := by
    apply Std.ExtTreeMap.ext_getElem?
    intro digest
    rw [compacted.mediaTypes, compactedMediaType_eq_iff]
    exact compactable.mediaTypes digest
  have referrers : after.referrers = before.referrers := by
    apply Std.ExtTreeMap.ext_getElem?
    intro subject
    rw [compacted.referrers]
    cases found : before.referrers[subject]? with
    | none => rfl
    | some kept =>
      rw [Option.map_some, relogged_eq_self (wellFormed.referrersTyped subject kept found)
        fun digest artifactType descriptor =>
          compactable.descriptors subject kept digest artifactType descriptor found]
  exact RepoState.ext compacted.tags mediaTypes referrers compacted.backrefs compacted.checksums

theorem mem_full_page_iff (self : SubjectReferrers) {limit : Nat}
    (enough : self.byDigest.toList.length ≤ limit) (digest : String) (descriptor : Bytes) :
    (digest, descriptor) ∈ (self.page none none limit).items ↔
      ∃ artifactType, self.byDigest[digest]? = some (artifactType, descriptor) := by
  have all : self.byDigest.toList.filter (fun entry => after none entry.1) =
      self.byDigest.toList := by
    rw [List.filter_eq_self]
    exact fun _ _ => rfl
  simp only [SubjectReferrers.page, all, takePage]
  rw [List.take_of_length_le (by simpa using enough)]
  simp only [List.mem_map, Prod.exists, Prod.mk.injEq,
    Std.ExtTreeMap.mem_toList_iff_getElem?_eq_some]
  constructor
  · rintro ⟨_, artifactType, _, found, rfl, rfl⟩
    exact ⟨artifactType, found⟩
  rintro ⟨artifactType, found⟩
  exact ⟨digest, artifactType, descriptor, found, rfl, rfl⟩

theorem SameAnswers.descriptor_of_descriptor {first second : State}
    (same : SameAnswers first second) {repo subject digest : String}
    {left right : SubjectReferrers}
    (inFirst : (first.repo repo).referrers[subject]? = some left)
    (inSecond : (second.repo repo).referrers[subject]? = some right)
    {artifactType : Option String} {descriptor : Bytes}
    (recorded : right.byDigest[digest]? = some (artifactType, descriptor)) :
    ∃ otherType, left.byDigest[digest]? = some (otherType, descriptor) := by
  have pages := same.referrersPage repo subject none none
    (left.byDigest.toList.length + right.byDigest.toList.length)
  rw [State.referrersPage_eq, State.referrersPage_eq, inFirst, inSecond,
    Option.map_some, Option.map_some, Option.some.injEq] at pages
  rw [← mem_full_page_iff left (Nat.le_add_right _ _), pages,
    mem_full_page_iff right (Nat.le_add_left _ _)]
  exact ⟨artifactType, recorded⟩

section Compaction

variable (order : IterOrder) (env : Env) (key : Option HmacKey)

/-- A well-formed compactable state reads back from its image with the same
maps. -/
theorem equiv_openInner_image {state : State}
    (wellFormed : ∀ name, (state.repo name).WellFormed env.reader)
    (compactable : state.Compactable) (generation : Option UInt64)
    (fits : ∀ op ∈ imageOps order state, Fits (serializeOp op)) :
    State.Equiv (openInner env key (writeLogImage order env key state generation)).state state :=
  fun name => (compacted_openInner order env key state wellFormed generation fits
    name).eq_of_compactable (wellFormed name) (compactable name)

/-- Compaction of a reachable state preserves every answer exactly when the
state is compactable. -/
theorem compaction_preserves_answers_iff (ops : List MetaOp) (generation : Option UInt64)
    (fits : ∀ op ∈ imageOps order (ops.foldl (State.applyInRam env.reader) {}),
      Fits (serializeOp op)) :
    SameAnswers
        (openInner env key (writeLogImage order env key
          (ops.foldl (State.applyInRam env.reader) {}) generation)).state
        (ops.foldl (State.applyInRam env.reader) {}) ↔
      (ops.foldl (State.applyInRam env.reader) {}).Compactable := by
  have wellFormed := State.wellFormed_foldl env.reader ops
  constructor
  · intro same name
    have compacted := compacted_openInner order env key _ wellFormed generation fits name
    constructor
    · intro digest
      rw [← compactedMediaType_eq_iff, ← compacted.mediaTypes digest,
        ← State.manifestMediaType_eq, ← State.manifestMediaType_eq]
      exact same.manifestMediaType name digest
    · intro subject referrers digest artifactType descriptor found recorded
      have after := compacted.referrers subject
      rw [found, Option.map_some] at after
      obtain ⟨otherType, relogged⟩ := same.descriptor_of_descriptor after found recorded
      rw [SubjectReferrers.byDigest_relogged, recorded, Option.map_some] at relogged
      simp only [Option.some.injEq, Prod.mk.injEq] at relogged
      exact ⟨_, relogged.2⟩
  · intro compactable
    exact (equiv_openInner_image order env key wellFormed compactable generation
      fits).sameAnswers

end Compaction

/-- One manifest pushed under two tags with two media types, the greater tag
first. -/
def retaggedOps : List MetaOp :=
  [.putManifest "app" "sha256:0a" "application/vnd.docker.distribution.manifest.v2+json"
      (some "v2") [] none,
    .putManifest "app" "sha256:0a" "application/vnd.oci.image.manifest.v1+json"
      (some "v1") [] none]

/-- Compaction gives the manifest back under the media type of its greater
tag, not the one it was last pushed with. -/
theorem compaction_changes_media_type :
    ∃ ops : List MetaOp,
      (openInner .concrete none (writeLogImage .sorted .concrete none
          (ops.foldl (State.applyInRam JsonText.reader) {}) (some 1))).state.manifestMediaType
            "app" "sha256:0a" =
        some "application/vnd.docker.distribution.manifest.v2+json" ∧
      (ops.foldl (State.applyInRam JsonText.reader) {}).manifestMediaType "app" "sha256:0a" =
        some "application/vnd.oci.image.manifest.v1+json" := by
  refine ⟨retaggedOps, ?_, by decide +kernel⟩
  have compacted := compacted_openInner .sorted .concrete none
    (retaggedOps.foldl (State.applyInRam JsonText.reader) {})
    (State.wellFormed_foldl JsonText.reader retaggedOps) (some 1) (by decide +kernel) "app"
  rw [State.manifestMediaType_eq, compacted.mediaTypes]
  decide +kernel

/-- One manifest pushed under one tag, then listed as a referrer. -/
def signedOps : List MetaOp :=
  [.putManifest "app" "sha256:0a" "application/vnd.oci.image.manifest.v1+json"
      (some "v1") ["sha256:0b"] (some ("sha256:0c", utf8 "signature"))]

theorem signedOps_compactable (reader : JsonReader) :
    (signedOps.foldl (State.applyInRam reader) {}).Compactable := by
  intro name
  rw [State.repo_foldl, State.repo_empty]
  by_cases same : name = "app"
  · subst same
    constructor
    · rintro digest tag mediaType ⟨tagged, _⟩
      have tags : (∅ : StringMap (String × String)).insert "v1"
          ("sha256:0a", "application/vnd.oci.image.manifest.v1+json") =
            ((signedOps.filter (·.repo = "app")).foldl (RepoState.apply reader) {}).tags := rfl
      rw [← tags, StringMap.lookup_insert] at tagged
      split at tagged
      · cases tagged
        exact (StringMap.lookup_insert _ _ _ _).trans (if_pos rfl)
      · simp at tagged
    intro subject referrers digest artifactType descriptor found recorded
    have listed : (∅ : StringMap SubjectReferrers).upsert "sha256:0c" .empty
        (fun kept => kept.insert reader "sha256:0a" (utf8 "signature")) =
          ((signedOps.filter (·.repo = "app")).foldl (RepoState.apply reader) {}).referrers :=
      rfl
    rw [← listed, StringMap.lookup_upsert] at found
    split at found
    · simp only [Option.some.injEq] at found
      subst found
      rw [SubjectReferrers.insert, SubjectReferrers.byDigest_put] at recorded
      split at recorded
      · cases recorded
        exact ⟨_, rfl⟩
      · simp [SubjectReferrers.empty] at recorded
    · simp at found
  · have none : signedOps.filter (·.repo = name) = [] := by
      simp [signedOps, MetaOp.repo, Ne.symm same]
    rw [none]
    constructor <;> simp [RepoState.GreatestTag]

theorem compaction_preserves_signed_manifest :
    SameAnswers
      (openInner .concrete none (writeLogImage .sorted .concrete none
        (signedOps.foldl (State.applyInRam JsonText.reader) {}) (some 1))).state
      (signedOps.foldl (State.applyInRam JsonText.reader) {}) := by
  refine (compaction_preserves_answers_iff .sorted .concrete none signedOps (some 1) ?_).mpr
    (signedOps_compactable JsonText.reader)
  decide +kernel

end Roci.Metadata
