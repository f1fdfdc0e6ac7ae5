import Roci.Metadata.Answers

/-!
# Invariants of reachable metadata states

No operation leaves an empty set of referrers or an empty list of backrefs
behind, an edge is recorded once, and the artifact type kept with a referrer is
the one its descriptor states.  Each is kept by every operation, hence holds in
every state reached from the empty one.
-/

namespace Roci.Metadata

open Roci.Library

variable (reader : JsonReader)

/-- Referrers filed under the artifact type their descriptor states. -/
def SubjectReferrers.Typed (self : SubjectReferrers) : Prop :=
  ∀ (digest : String) (artifactType : Option String) (descriptor : Bytes),
    self.byDigest[digest]? = some (artifactType, descriptor) →
      artifactType = artifactTypeOf reader descriptor

namespace SubjectReferrers

variable {reader}

theorem Typed.empty : (SubjectReferrers.empty).Typed reader := by
  intro digest artifactType descriptor found
  simp [SubjectReferrers.empty] at found

variable {self : SubjectReferrers}

theorem Typed.remove (typed : self.Typed reader) (referrer : String) :
    (self.remove referrer).Typed reader := by
  intro digest artifactType descriptor found
  rw [byDigest_remove] at found
  split at found
  · cases found
  · exact typed digest artifactType descriptor found

theorem Typed.insert (typed : self.Typed reader) (referrer : String) (descriptor : Bytes) :
    (self.insert reader referrer descriptor).Typed reader := by
  intro digest artifactType kept found
  rw [SubjectReferrers.insert, byDigest_put] at found
  split at found
  · cases found
    rfl
  · exact typed digest artifactType kept found

end SubjectReferrers

/-- What holds of the maps of a repository in every reachable state. -/
structure RepoState.WellFormed (repoState : RepoState) : Prop where
  referrersInhabited : ∀ (subject : String) (referrers : SubjectReferrers),
    repoState.referrers[subject]? = some referrers → referrers.byDigest.isEmpty = false
  referrersTyped : ∀ (subject : String) (referrers : SubjectReferrers),
    repoState.referrers[subject]? = some referrers → referrers.Typed reader
  backrefsInhabited : ∀ (blob : String) (manifests : List String),
    repoState.backrefs[blob]? = some manifests → manifests ≠ []
  backrefsDistinct : ∀ (blob : String) (manifests : List String),
    repoState.backrefs[blob]? = some manifests → manifests.Nodup

namespace RepoState

variable {reader}

theorem WellFormed.empty : ({} : RepoState).WellFormed reader where
  referrersInhabited := by simp
  referrersTyped := by simp
  backrefsInhabited := by simp
  backrefsDistinct := by simp

variable {self : RepoState}

section

variable (wellFormed : self.WellFormed reader)

include wellFormed

theorem WellFormed.of_same {other : RepoState}
    (referrers : other.referrers = self.referrers) (backrefs : other.backrefs = self.backrefs) :
    other.WellFormed reader where
  referrersInhabited := by rw [referrers]; exact wellFormed.referrersInhabited
  referrersTyped := by rw [referrers]; exact wellFormed.referrersTyped
  backrefsInhabited := by rw [backrefs]; exact wellFormed.backrefsInhabited
  backrefsDistinct := by rw [backrefs]; exact wellFormed.backrefsDistinct

theorem WellFormed.addBackref (manifest blob : String) :
    WellFormed reader { self with backrefs := addBackref manifest self.backrefs blob } where
  referrersInhabited := wellFormed.referrersInhabited
  referrersTyped := wellFormed.referrersTyped
  backrefsInhabited := by
    intro other manifests found
    simp only [RepoState.addBackref, StringMap.lookup_upsert] at found
    split at found
    · cases found
      split
      · rename_i membership
        exact List.ne_nil_of_mem membership
      · simp
    · exact wellFormed.backrefsInhabited other manifests found
  backrefsDistinct := by
    intro other manifests found
    simp only [RepoState.addBackref, StringMap.lookup_upsert] at found
    split at found
    · cases found
      have distinct : (self.backrefs[blob]?.getD []).Nodup := by
        cases listed : self.backrefs[blob]? with
        | none => exact List.nodup_nil
        | some kept => exact wellFormed.backrefsDistinct blob kept listed
      split
      · exact distinct
      rename_i absent
      exact List.nodup_append.mpr ⟨distinct, by simp, by
        intro member membership other singleton same
        rw [List.mem_singleton] at singleton
        exact absent (singleton ▸ same ▸ membership)⟩
    · exact wellFormed.backrefsDistinct other manifests found

theorem WellFormed.addBackrefs (manifest : String) (blobs : List String) :
    (self.addBackrefs manifest blobs).WellFormed reader := by
  unfold RepoState.addBackrefs
  induction blobs generalizing self with
  | nil => exact wellFormed
  | cons blob blobs ih =>
    exact ih (wellFormed.addBackref manifest blob)

theorem WellFormed.addReferrer (subject referrer : String) (descriptor : Bytes) :
    (self.addReferrer reader subject referrer descriptor).WellFormed reader where
  referrersInhabited := by
    intro other referrers found
    simp only [RepoState.addReferrer, StringMap.lookup_upsert] at found
    split at found
    · cases found
      rw [Bool.eq_false_iff]
      intro empty
      have absent := (StringMap.isEmpty_iff_lookup _).mp empty referrer
      simp [SubjectReferrers.insert, SubjectReferrers.byDigest_put] at absent
    · exact wellFormed.referrersInhabited other referrers found
  referrersTyped := by
    intro other referrers found
    simp only [RepoState.addReferrer, StringMap.lookup_upsert] at found
    split at found
    · cases found
      apply SubjectReferrers.Typed.insert
      cases listed : self.referrers[subject]? with
      | none => exact SubjectReferrers.Typed.empty
      | some kept => exact wellFormed.referrersTyped subject kept listed
    · exact wellFormed.referrersTyped other referrers found
  backrefsInhabited := wellFormed.backrefsInhabited
  backrefsDistinct := wellFormed.backrefsDistinct

theorem WellFormed.deleteManifest (digest : String) :
    (self.deleteManifest digest).WellFormed reader := by
  have referrersKept := @StringMap.lookup_filterMap_ite _ self.referrers (·.remove digest)
    (·.byDigest.isEmpty)
  have backrefsKept := @StringMap.lookup_filterMap_ite _ self.backrefs (·.filter (· ≠ digest))
    (·.isEmpty)
  refine ⟨fun subject referrers found => ?_, fun subject referrers found => ?_,
    fun blob manifests found => ?_, fun blob manifests found => ?_⟩
  · obtain ⟨_, _, _, nonempty⟩ := referrersKept found
    exact nonempty
  · obtain ⟨kept, listed, rfl, _⟩ := referrersKept found
    exact (wellFormed.referrersTyped subject kept listed).remove digest
  · obtain ⟨_, _, _, nonempty⟩ := backrefsKept found
    simpa using nonempty
  obtain ⟨kept, listed, rfl, _⟩ := backrefsKept found
  exact (wellFormed.backrefsDistinct blob kept listed).filter _

/-- Step lemma: every operation keeps the invariant. -/
theorem WellFormed.apply (op : MetaOp) : (self.apply reader op).WellFormed reader := by
  cases op with
  | putManifest repo digest mediaType tag references referrer =>
    have tagged : ∀ tagged : RepoState, tagged.referrers = self.referrers →
        tagged.backrefs = self.backrefs →
        (tagged.addBackrefs digest references).WellFormed reader :=
      fun tagged sameReferrers sameBackrefs =>
        (wellFormed.of_same sameReferrers sameBackrefs).addBackrefs digest references
    cases tag <;> rcases referrer with _ | ⟨subject, descriptor⟩
    · exact tagged _ rfl rfl
    · refine WellFormed.addReferrer ?_ subject digest descriptor
      exact tagged _ rfl rfl
    · exact tagged _ rfl rfl
    refine WellFormed.addReferrer ?_ subject digest descriptor
    exact tagged _ rfl rfl
  | putBackrefs repo manifest blobs => exact wellFormed.addBackrefs manifest blobs
  | deleteManifest repo digest => exact wellFormed.deleteManifest digest
  | putReferrer repo subject referrer descriptor =>
    exact wellFormed.addReferrer subject referrer descriptor
  | _ => exact wellFormed.of_same rfl rfl

end

end RepoState

/-- Run lemma: every repository of a reachable state is well formed. -/
theorem State.wellFormed_foldl (ops : List MetaOp) (name : String) :
    ((ops.foldl (State.applyInRam reader) {}).repo name).WellFormed reader := by
  rw [State.repo_foldl, State.repo_empty]
  suffices general : ∀ self : RepoState, self.WellFormed reader →
      ((ops.filter (·.repo = name)).foldl (RepoState.apply reader) self).WellFormed reader from
    general {} RepoState.WellFormed.empty
  induction ops.filter (·.repo = name) with
  | nil => exact fun self wellFormed => wellFormed
  | cons op rest ih =>
    exact fun self wellFormed => ih _ (wellFormed.apply op)

end Roci.Metadata
