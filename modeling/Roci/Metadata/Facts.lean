import Roci.Metadata.Contents

/-!
# What a repository says about a manifest

Four kinds of facts name a manifest: a tag that resolves to it, its own record,
its entry among the referrers of a subject, and the edges from the blobs it
references.  Each operation changes them as one equation per kind says; deleting
a manifest removes all four.
-/

namespace Roci.Metadata

open Roci.Library

variable (reader : JsonReader)

namespace RepoState

def Tagged (self : RepoState) (tag digest : String) : Prop :=
  ∃ mediaType, self.tags[tag]? = some (digest, mediaType)

def Recorded (self : RepoState) (digest : String) : Prop :=
  ∃ mediaType, self.mediaTypes[digest]? = some mediaType

def Refers (self : RepoState) (subject digest : String) : Prop :=
  ∃ referrers entry, self.referrers[subject]? = some referrers ∧
    referrers.byDigest[digest]? = some entry

def Names (self : RepoState) (digest : String) : Prop :=
  (∃ tag, self.Tagged tag digest) ∨ self.Recorded digest ∨ ∃ subject, self.Refers subject digest

section

variable {self : RepoState} {tag subject digest : String}

theorem tagged_iff_holds : self.Tagged tag digest ↔
    ∃ mediaType, self.contents.Holds (.tag tag digest mediaType) := Iff.rfl

theorem recorded_iff_holds : self.Recorded digest ↔
    ∃ mediaType, self.contents.Holds (.mediaType digest mediaType) := Iff.rfl

theorem mem_manifests_iff {state : State} {repo : String} :
    digest ∈ state.manifests repo ↔ (state.repo repo).Recorded digest := by
  rw [State.manifests_eq, Std.ExtTreeMap.mem_keys, Std.ExtTreeMap.mem_iff_isSome_getElem?,
    Option.isSome_iff_exists, Recorded]

theorem refers_iff_holds : self.Refers subject digest ↔
    ∃ descriptor, self.contents.Holds (.referrer subject digest descriptor) := by
  simp only [Refers, RepoContents.Holds, referrer_eq_some_iff, Prod.exists]
  grind

theorem holds_apply {op : MetaOp} {entry : Entry} : (self.apply reader op).contents.Holds entry ↔
    op.Writes entry ∨ self.contents.Holds entry ∧ ¬ op.Drops entry := by
  rw [contents_apply, RepoContents.holds_apply]

end

theorem refers_addReferrer (self : RepoState) (subject referrer : String) (descriptor : Bytes)
    (other digest : String) :
    (self.addReferrer reader subject referrer descriptor).Refers other digest ↔
      self.Refers other digest ∨ (other = subject ∧ digest = referrer) := by
  change (self.apply reader (.putReferrer "" subject referrer descriptor)).Refers _ _ ↔ _
  simp only [refers_iff_holds, holds_apply, MetaOp.Writes, MetaOp.Drops, Entry.referrer.injEq]
  grind

/-! ## One operation -/

section

variable (self : RepoState) (repo digest mediaType : String) (tag : Option String)
  (references : List String) (referrer : Option (String × Bytes))

include self repo digest mediaType tag references referrer

theorem tagged_putManifest (other named : String) :
    (self.apply reader (.putManifest repo digest mediaType tag references referrer)).Tagged
        other named ↔
      if tag = some other then named = digest else self.Tagged other named := by
  simp only [tagged_iff_holds, holds_apply, MetaOp.Writes, MetaOp.Drops]
  grind

theorem recorded_putManifest (named : String) :
    (self.apply reader (.putManifest repo digest mediaType tag references referrer)).Recorded
        named ↔
      self.Recorded named ∨ named = digest := by
  simp only [recorded_iff_holds, holds_apply, MetaOp.Writes, MetaOp.Drops]
  grind

theorem refers_putManifest (subject named : String) :
    (self.apply reader (.putManifest repo digest mediaType tag references referrer)).Refers
        subject named ↔
      self.Refers subject named ∨
        (named = digest ∧ ∃ descriptor, referrer = some (subject, descriptor)) := by
  simp only [refers_iff_holds, holds_apply, MetaOp.Writes, MetaOp.Drops]
  grind

theorem edge_putManifest (blob manifest : String) :
    (self.apply reader (.putManifest repo digest mediaType tag references referrer)).Edge
        blob manifest ↔
      self.Edge blob manifest ∨ (manifest = digest ∧ blob ∈ references) := by
  change (self.apply reader _).contents.Holds (.edge blob manifest) ↔
    self.contents.Holds (.edge blob manifest) ∨ _
  simp only [holds_apply, MetaOp.Writes, MetaOp.Drops]
  grind

end

theorem tagged_deleteManifest (self : RepoState) (digest tag named : String) :
    (self.deleteManifest digest).Tagged tag named ↔ self.Tagged tag named ∧ named ≠ digest := by
  simp only [tagged_iff_holds, contents_deleteManifest, RepoContents.holds_deleteManifest,
    Entry.About, exists_and_right, ne_eq]

theorem recorded_deleteManifest (self : RepoState) (digest named : String) :
    (self.deleteManifest digest).Recorded named ↔ self.Recorded named ∧ named ≠ digest := by
  simp only [recorded_iff_holds, contents_deleteManifest, RepoContents.holds_deleteManifest,
    Entry.About, exists_and_right, ne_eq]

theorem refers_deleteManifest (self : RepoState) (digest subject named : String) :
    (self.deleteManifest digest).Refers subject named ↔
      self.Refers subject named ∧ named ≠ digest := by
  simp only [refers_iff_holds, contents_deleteManifest, RepoContents.holds_deleteManifest,
    Entry.About, exists_and_right, ne_eq]

theorem not_names_deleteManifest (self : RepoState) (digest : String) :
    ¬ (self.deleteManifest digest).Names digest := by
  rintro (⟨tag, tagged⟩ | recorded | ⟨subject, refers⟩)
  · exact ((tagged_deleteManifest self digest tag digest).mp tagged).2 rfl
  · exact ((recorded_deleteManifest self digest digest).mp recorded).2 rfl
  · exact ((refers_deleteManifest self digest subject digest).mp refers).2 rfl

end RepoState

/-- The operation records `digest` as a manifest or as a referrer. -/
def MetaOp.Creates (digest : String) : MetaOp → Prop
  | .putManifest _ named _ _ _ _ => named = digest
  | .putReferrer _ _ named _ => named = digest
  | _ => False

/-- Step lemma: nothing else names a manifest that was not named before. -/
theorem RepoState.names_of_apply {self : RepoState} {op : MetaOp} {digest : String}
    (named : (self.apply reader op).Names digest) : self.Names digest ∨ op.Creates digest := by
  have origin : ∀ entry, (self.apply reader op).contents.Holds entry →
      self.contents.Holds entry ∨ op.Writes entry :=
    fun entry holds => ((holds_apply reader).mp holds).symm.imp_left And.left
  rcases named with ⟨tag, mediaType, tagged⟩ | ⟨mediaType, recorded⟩ | ⟨subject, refers⟩
  · refine (origin (.tag tag digest mediaType) tagged).imp (fun before => .inl ⟨tag, _, before⟩) ?_
    cases op <;> grind [MetaOp.Writes, MetaOp.Creates]
  · refine (origin (.mediaType digest mediaType) recorded).imp
      (fun before => .inr (.inl ⟨_, before⟩)) ?_
    cases op <;> grind [MetaOp.Writes, MetaOp.Creates]
  obtain ⟨descriptor, found⟩ := refers_iff_holds.mp refers
  refine (origin (.referrer subject digest descriptor) found).imp
    (fun before => .inr (.inr ⟨subject, refers_iff_holds.mpr ⟨_, before⟩⟩)) ?_
  cases op <;> grind [MetaOp.Writes, MetaOp.Creates]

/-- Run lemma: a deleted manifest stays unnamed until it is recorded again. -/
theorem State.not_names_after_delete (before after : List MetaOp) (repo digest : String)
    (start : State)
    (notCreated : ∀ op ∈ after, op.repo = repo → ¬ op.Creates digest) :
    ¬ (((before ++ .deleteManifest repo digest :: after).foldl (State.applyInRam reader)
      start).repo repo).Names digest := by
  rw [List.foldl_append, List.foldl_cons]
  have deleted : ¬ ((((before.foldl (State.applyInRam reader) start).applyInRam reader
      (.deleteManifest repo digest)).repo repo).Names digest) := by
    rw [State.repo_applyInRam,
      if_pos (show repo = (MetaOp.deleteManifest repo digest).repo from rfl)]
    exact RepoState.not_names_deleteManifest _ digest
  generalize (before.foldl (State.applyInRam reader) start).applyInRam reader
    (.deleteManifest repo digest) = state at deleted
  induction after generalizing state with
  | nil => exact deleted
  | cons op rest ih =>
    rw [List.forall_mem_cons] at notCreated
    refine ih notCreated.2 _ ?_
    rw [State.repo_applyInRam]
    split
    · rename_i same
      intro named
      rcases RepoState.names_of_apply reader named with earlier | created
      · exact deleted earlier
      · exact notCreated.1 same.symm created
    · exact deleted

end Roci.Metadata
