import Roci.Library.Json
import Roci.Library.StringMap
import Roci.Metadata.Op

/-!
# The in-memory metadata state

The maps the log engine keeps per repository, the effect of one operation on
them, and the queries.  The referrers of a subject carry the proof that their
index by artifact type lists exactly the referrers of that type, so a state
with a stale index cannot be built.

Hash maps are modelled by their contents in key order.  Where the engine lists
one in its own iteration order the answer is to be read as a set.
-/

namespace Roci.Metadata

open Roci.Library

variable (byType : StringMap StringSet)

def Filed (type digest : String) : Prop := ∃ filed, byType[type]? = some filed ∧ digest ∈ filed

/-- Take `referrer` out of the set filed under `type`, and the set out of the
map when it was the last one. -/
def unfile (type referrer : String) : StringMap StringSet :=
  match byType[type]? with
  | none => byType
  | some filed =>
    let remaining := filed.erase referrer
    if remaining.isEmpty then byType.erase type else byType.insert type remaining

def file (type referrer : String) : StringMap StringSet :=
  byType.upsert type ∅ fun filed => filed.insert referrer

theorem filed_unfile (type referrer other digest : String) :
    Filed (unfile byType type referrer) other digest ↔
      Filed byType other digest ∧ ¬ (other = type ∧ digest = referrer) := by
  unfold unfile Filed
  cases found : byType[type]? with
  | none =>
    by_cases same : other = type
    · subst same
      simp [found]
    · simp [same]
  | some filed =>
    by_cases same : other = type
    · subst same
      by_cases empty : (filed.erase referrer).isEmpty = true
      · have gone := (StringSet.isEmpty_iff_mem _).mp empty digest
        rw [StringSet.mem_erase_iff] at gone
        simp only [empty, if_true, found, StringMap.lookup_erase]
        grind
      have kept := StringSet.mem_erase_iff filed referrer digest
      simp only [empty, found, Option.some.injEq, exists_eq_left']
      grind [StringMap.lookup_insert]
    simp only [same, false_and, not_false_eq_true, and_true]
    split <;> simp only [StringMap.lookup_erase, StringMap.lookup_insert, same, if_false]

theorem filed_file (type referrer other digest : String) :
    Filed (file byType type referrer) other digest ↔
      Filed byType other digest ∨ (other = type ∧ digest = referrer) := by
  unfold file Filed
  rw [StringMap.lookup_upsert]
  by_cases same : other = type
  · subst same
    cases found : byType[other]? <;> simp [or_comm, @eq_comm _ digest referrer]
  · simp [same]

variable (reader : JsonReader)

/-- The `artifactType` member of a descriptor that is a JSON object. -/
def artifactTypeOf (descriptor : Bytes) : Option String :=
  ((reader.parse descriptor).bind (Json.get? "artifactType")).bind Json.asStr

/-- No set is kept once its last member is gone. -/
def NoneEmpty : Prop :=
  ∀ (type : String) (filed : StringSet), byType[type]? = some filed → ∃ digest, digest ∈ filed

theorem NoneEmpty.unfile {byType : StringMap StringSet} (inhabited : NoneEmpty byType)
    (type referrer : String) : NoneEmpty (unfile byType type referrer) := by
  intro other filed found
  unfold Metadata.unfile at found
  split at found
  · exact inhabited other filed found
  rename_i kept _
  by_cases emptied : (kept.erase referrer).isEmpty = true
  · simp only [emptied, if_true, StringMap.lookup_erase] at found
    split at found
    · cases found
    · exact inhabited other filed found
  simp only [if_neg emptied, StringMap.lookup_insert] at found
  split at found
  · cases found
    by_contra none
    exact emptied ((StringSet.isEmpty_iff_mem _).mpr fun digest membership =>
      none ⟨digest, membership⟩)
  · exact inhabited other filed found

theorem NoneEmpty.file {byType : StringMap StringSet} (inhabited : NoneEmpty byType)
    (type referrer : String) : NoneEmpty (file byType type referrer) := by
  intro other filed found
  unfold Metadata.file at found
  rw [StringMap.lookup_upsert] at found
  split at found
  · cases found
    exact ⟨referrer, (StringSet.mem_insert_iff _ _ _).mpr (.inl rfl)⟩
  · exact inhabited other filed found

/-- The referrers of one subject: their descriptors by digest, and the digests
filed by artifact type. -/
structure SubjectReferrers where
  byDigest : StringMap (Option String × Bytes)
  byType : StringMap StringSet
  filed_iff : ∀ type digest, Filed byType type digest ↔
    ∃ descriptor, byDigest[digest]? = some (some type, descriptor)
  inhabited : NoneEmpty byType

variable (self : SubjectReferrers) (artifactType : Option String)

namespace SubjectReferrers

/-- The index is determined by the descriptors it indexes. -/
theorem ext_byDigest {first second : SubjectReferrers}
    (same : first.byDigest = second.byDigest) : first = second := by
  have members : ∀ type digest,
      Filed first.byType type digest ↔ Filed second.byType type digest := by
    intro type digest
    rw [first.filed_iff, second.filed_iff, same]
  have index : first.byType = second.byType := by
    apply Std.ExtTreeMap.ext_getElem?
    intro type
    cases inFirst : first.byType[type]? with
    | none =>
      rcases inSecond : second.byType[type]? with _ | filed
      · rfl
      obtain ⟨digest, membership⟩ := second.inhabited type filed inSecond
      obtain ⟨_, found, _⟩ := (members type digest).mpr ⟨filed, inSecond, membership⟩
      rw [inFirst] at found
      cases found
    | some filed =>
      obtain ⟨digest, membership⟩ := first.inhabited type filed inFirst
      obtain ⟨other, inSecond, _⟩ := (members type digest).mp ⟨filed, inFirst, membership⟩
      rw [inSecond]
      congr 1
      apply Std.ExtTreeSet.ext_mem
      intro member
      have agree := members type member
      simpa [Filed, inFirst, inSecond] using agree
  cases first
  cases second
  simp_all

def empty : SubjectReferrers where
  byDigest := ∅
  byType := ∅
  filed_iff := by simp [Filed]
  inhabited := by simp [NoneEmpty]

def remove (referrer : String) : SubjectReferrers where
  byDigest := self.byDigest.erase referrer
  byType :=
    match self.byDigest[referrer]? with
    | some (some type, _) => unfile self.byType type referrer
    | _ => self.byType
  filed_iff := by
    intro type digest
    rw [StringMap.lookup_erase]
    split
    · rename_i kept descriptor found
      rw [filed_unfile, self.filed_iff]
      by_cases same : digest = referrer
      · subst same
        simp [found, eq_comm]
      · simp [same]
    · rename_i untyped
      rw [self.filed_iff]
      by_cases same : digest = referrer
      · subst same
        simp only [if_true, reduceCtorEq, exists_false, iff_false]
        rintro ⟨descriptor, found⟩
        exact untyped type descriptor found
      · simp [same]
  inhabited := by
    split
    · exact self.inhabited.unfile _ _
    · exact self.inhabited

/-- Record a descriptor under the artifact type found when it was pushed. -/
def put (referrer : String) (artifactType : Option String) (descriptor : Bytes) :
    SubjectReferrers where
  byDigest := (self.remove referrer).byDigest.insert referrer (artifactType, descriptor)
  byType :=
    match artifactType with
    | some type => file (self.remove referrer).byType type referrer
    | none => (self.remove referrer).byType
  filed_iff := by
    intro type digest
    have absent : (self.remove referrer).byDigest[referrer]? = none := by
      simp [remove]
    rw [StringMap.lookup_insert]
    cases artifactType with
    | none =>
      rw [(self.remove referrer).filed_iff]
      by_cases same : digest = referrer
      · subst same
        simp [absent]
      · simp [same]
    | some kept =>
      rw [filed_file, (self.remove referrer).filed_iff]
      by_cases same : digest = referrer
      · subst same
        simp [absent, eq_comm]
      · simp [same]
  inhabited := by
    split
    · exact (self.remove referrer).inhabited.file _ _
    · exact (self.remove referrer).inhabited

def insert (self : SubjectReferrers) (referrer : String) (descriptor : Bytes) : SubjectReferrers :=
  self.put referrer (artifactTypeOf reader descriptor) descriptor

def page (last : Option String) (limit : Nat) : Page Referrer :=
  match artifactType with
  | none =>
    takePage ((self.byDigest.toList.filter fun entry => after last entry.1).map
      fun entry => (entry.1, entry.2.2)) limit
  | some type =>
    match self.byType[type]? with
    | some filed =>
      takePage ((filed.toList.filter (after last)).filterMap fun digest =>
        self.byDigest[digest]?.map fun entry => (digest, entry.2)) limit
    | none => { items := [], more := false }

/-- Every filed digest has a descriptor, so no lookup of `page` fails. -/
theorem isSome_of_filed {type digest : String} (filed : Filed self.byType type digest) :
    self.byDigest[digest]?.isSome = true := by
  obtain ⟨_, found⟩ := (self.filed_iff type digest).mp filed
  rw [found, Option.isSome_some]

theorem byDigest_remove (referrer other : String) :
    (self.remove referrer).byDigest[other]? =
      if other = referrer then none else self.byDigest[other]? :=
  StringMap.lookup_erase _ _ _

theorem byDigest_put (referrer other : String) (artifactType : Option String) (descriptor : Bytes) :
    (self.put referrer artifactType descriptor).byDigest[other]? =
      if other = referrer then some (artifactType, descriptor)
      else self.byDigest[other]? := by
  simp only [put, StringMap.lookup_insert, byDigest_remove]
  split <;> simp_all

/-- The referrers a filter by artifact type leaves, by digest. -/
def listing : List (String × Option String × Bytes) :=
  self.byDigest.toList.filter fun entry => artifactType.all fun type => entry.2.1 = some type

theorem listing_ascending :
    (self.listing artifactType).Pairwise fun first second => first.1 < second.1 :=
  (StringMap.keys_ascending _).filter _

theorem toList_filed (type : String) :
    self.byType[type]?.elim [] (·.toList) = (self.listing (some type)).map Prod.fst := by
  refine @ascending_ext _ (· < ·) (fun _ _ => String.lt_asymm) _ _ ?_
    (List.pairwise_map.mpr (self.listing_ascending _)) fun digest => ?_
  · cases self.byType[type]? with
    | none => exact .nil
    | some filed => exact StringSet.toList_ascending filed
  have filed := self.filed_iff type digest
  cases found : self.byType[type]? <;> simp_all [Filed, listing]

theorem page_eq (artifactType last : Option String) (limit : Nat) :
    self.page artifactType last limit =
      takePage (((self.listing artifactType).filter fun entry => after last entry.1).map
        fun entry => (entry.1, entry.2.2)) limit := by
  rcases artifactType with _ | type
  · simp [page, listing]
  have digests := self.toList_filed type
  rw [page]
  rcases found : self.byType[type]? with _ | filed
  · have nothing : self.listing (some type) = [] := by simpa [found] using digests
    simp [nothing, takePage]
  rw [found] at digests
  simp only [Option.elim_some] at digests
  simp only [digests, List.filter_map, List.filterMap_map]
  rw [← List.filterMap_eq_map]
  congr 1
  refine List.filterMap_congr fun entry member => ?_
  have listed := List.mem_of_mem_filter (List.mem_of_mem_filter member)
  simp [Std.ExtTreeMap.mem_toList_iff_getElem?_eq_some.mp listed]

end SubjectReferrers

inductive ReferrerCall where
  | insert (referrer : String) (descriptor : Bytes)
  | remove (referrer : String)

def SubjectReferrers.perform (self : SubjectReferrers) :
    ReferrerCall → SubjectReferrers
  | .insert referrer descriptor => self.insert reader referrer descriptor
  | .remove referrer => self.remove referrer

/-- After any calls the index by type lists exactly the referrers of each type, every
digest a page looks up is there, and the page is one of the filtered listing. -/
theorem referrer_index_consistent (reader : JsonReader) (calls : List ReferrerCall) :
    let self := calls.foldl (SubjectReferrers.perform reader) .empty
    (∀ type digest, Filed self.byType type digest ↔
      ∃ descriptor, self.byDigest[digest]? = some (some type, descriptor)) ∧
    (∀ type digest, Filed self.byType type digest → self.byDigest[digest]?.isSome = true) ∧
    NoneEmpty self.byType ∧
    ∀ artifactType last limit, self.page artifactType last limit =
      takePage (((self.listing artifactType).filter fun entry => after last entry.1).map
        fun entry => (entry.1, entry.2.2)) limit :=
  ⟨SubjectReferrers.filed_iff _, fun _ _ => SubjectReferrers.isSome_of_filed _,
    SubjectReferrers.inhabited _, SubjectReferrers.page_eq _⟩

@[ext]
structure RepoState where
  tags : StringMap (String × String) := ∅
  mediaTypes : StringMap String := ∅
  referrers : StringMap SubjectReferrers := ∅
  backrefs : StringMap (List String) := ∅
  checksums : StringMap BlobChecksum := ∅

namespace RepoState

def addBackref (manifest : String) (backrefs : StringMap (List String)) (blob : String) :
    StringMap (List String) :=
  backrefs.upsert blob [] fun manifests =>
    if manifest ∈ manifests then manifests else manifests ++ [manifest]

variable (self : RepoState)

def addBackrefs (manifest : String) (blobs : List String) : RepoState :=
  { self with backrefs := blobs.foldl (addBackref manifest) self.backrefs }

def addReferrer (subject referrer : String) (descriptor : Bytes) : RepoState :=
  { self with
    referrers := self.referrers.upsert subject .empty fun referrers =>
      referrers.insert reader referrer descriptor }

def deleteManifest (digest : String) : RepoState where
  checksums := self.checksums.erase digest
  mediaTypes := self.mediaTypes.erase digest
  tags := self.tags.filter fun _ entry => entry.1 ≠ digest
  referrers := self.referrers.filterMap fun _ referrers =>
    let remaining := referrers.remove digest
    if remaining.byDigest.isEmpty then none else some remaining
  backrefs := self.backrefs.filterMap fun _ manifests =>
    let remaining := manifests.filter (· ≠ digest)
    if remaining.isEmpty then none else some remaining

def apply : MetaOp → RepoState
  | .putManifest _ digest mediaType tag references referrer =>
    let recorded : RepoState :=
      { self with mediaTypes := self.mediaTypes.insert digest mediaType }
    let tagged : RepoState :=
      match tag with
      | some tag => { recorded with tags := recorded.tags.insert tag (digest, mediaType) }
      | none => recorded
    let referenced := tagged.addBackrefs digest references
    match referrer with
    | some (subject, descriptor) => referenced.addReferrer reader subject digest descriptor
    | none => referenced
  | .deleteManifest _ digest => self.deleteManifest digest
  | .putBackrefs _ manifest blobs => self.addBackrefs manifest blobs
  | .putReferrer _ subject referrer descriptor =>
    self.addReferrer reader subject referrer descriptor
  | .putChecksum _ digest crc32c size =>
    { self with checksums := self.checksums.insert digest ⟨crc32c, size⟩ }
  | .deleteBlob _ digest => { self with checksums := self.checksums.erase digest }

end RepoState

structure State where
  repos : StringMap RepoState := ∅

namespace State

variable (self : State)

/-- The maps of a repository; one never written to has empty maps. -/
def repo (name : String) : RepoState := self.repos[name]?.getD {}

/-- Every operation changes the maps of the one repository it names, which are
created on first use. -/
def applyInRam (op : MetaOp) : State where
  repos := self.repos.upsert op.repo {} fun repoState => repoState.apply reader op

def resolveTag (repo tag : String) : Option (String × String) :=
  self.repos[repo]?.bind fun repoState => repoState.tags[tag]?

def manifestMediaType (repo digest : String) : Option String :=
  self.repos[repo]?.bind fun repoState => repoState.mediaTypes[digest]?

def tagsPage (repo : String) (last : Option String) (limit : Nat) :
    Option (Page String) :=
  self.repos[repo]?.bind fun repoState =>
    if repoState.tags.isEmpty then none
    else some (takePage (repoState.tags.keys.filter (after last)) limit)

def referrersPage (repo subject : String) (artifactType last : Option String)
    (limit : Nat) : Option (Page Referrer) :=
  self.repos[repo]?.bind fun repoState =>
    repoState.referrers[subject]?.map fun referrers =>
      referrers.page artifactType last limit

def hasReferrer (repo subject referrer : String) : Bool :=
  (self.repos[repo]?.bind fun repoState => repoState.referrers[subject]?).any
    fun referrers => referrers.byDigest.contains referrer

def backrefs (repo blob : String) : List String :=
  (self.repos[repo]?.bind fun repoState => repoState.backrefs[blob]?).getD []

def checksum (repo digest : String) : Option BlobChecksum :=
  self.repos[repo]?.bind fun repoState => repoState.checksums[digest]?

/-- Repositories with a manifest or a referrer, sorted. -/
def repoNames : List String :=
  (self.repos.toList.filter fun entry =>
    !entry.2.mediaTypes.isEmpty || !entry.2.referrers.isEmpty).map Prod.fst

def manifests (repo : String) : List String :=
  match self.repos[repo]? with
  | some repoState => repoState.mediaTypes.keys
  | none => []

def tagsSnapshot (repo : String) : List (String × String × String) :=
  match self.repos[repo]? with
  | some repoState => repoState.tags.toList
  | none => []

def referrersSnapshot (repo : String) : List (String × List Referrer) :=
  match self.repos[repo]? with
  | some repoState =>
    (repoState.referrers.toList.filter fun entry => !entry.2.byDigest.isEmpty).map
      fun entry => (entry.1, entry.2.byDigest.toList.map fun item => (item.1, item.2.2))
  | none => []

end State

end Roci.Metadata
