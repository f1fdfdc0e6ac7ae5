import Roci.Filesystem.Disk
import Roci.Filesystem.Namespaces

/-!
# Finding repositories again

At the start the store walks over its root to find the repositories and their
blobs.  A directory with a layout marker or an index is a repository; the walk
does not enter directories called `blobs` or `uploads` or beginning with a dot,
and it goes fifteen levels down.  The grammar of repository names knows none of
these rules.
-/

namespace Roci.Filesystem

open Roci.Core Roci.Library Roci.Storage

inductive FileType where
  | directory
  | regular
  | symlink
deriving DecidableEq

/-- The directories beneath the root as `read_dir` and `symlink_metadata` show
them. -/
structure Listing where
  readDir : Path → Option (List (String × FileType))
  fileType : Path → Option FileType

/-- A blob that was visited, with the name of its repository and where it lies. -/
structure Visit where
  repo : String
  digest : Digest
  path : Path
deriving DecidableEq

namespace Listing

variable (listing : Listing)

def isFile (path : Path) : Bool := listing.fileType path = some .regular

def isDirectory (path : Path) : Bool := listing.fileType path = some .directory

def subdirectories (path : Path) : List String :=
  (((listing.readDir path).getD []).filter fun entry => entry.2 = .directory).map Prod.fst

end Listing

def skipped (name : String) : Bool :=
  name = "blobs" || name = "uploads" || name.toList.head? = some '.'

def joinNames (path : Path) : String := String.ofList (['/'].intercalate (path.map String.toList))

def splitName (repo : String) : Path := (splitAll '/' repo.toList).map String.ofList

section

variable (listing : Listing)

def repositoryAt (rel : Path) : List String :=
  if !rel.isEmpty && (listing.isFile (rel ++ ["index.json"]) ||
      listing.isFile (rel ++ ["oci-layout"])) then [joinNames rel]
  else []

def walk : Nat → Path → List String
  | 0, _ => []
  | depth + 1, rel =>
    if (listing.readDir rel).isNone then []
    else
      repositoryAt listing rel ++
        ((listing.subdirectories rel).filter fun name => !skipped name).flatMap fun name =>
          walk depth (rel ++ [name])

def discoverRepos : List String := walk listing 16 []

def blobsOfAlgorithm (repo algorithm : String) (directory : Path) : List Visit :=
  ((listing.readDir directory).getD []).filterMap fun entry =>
    if entry.2 = .regular then
      (Digest.parse (algorithm ++ ":" ++ entry.1)).toOption.map fun digest =>
        { repo := repo, digest := digest, path := directory ++ [entry.1] }
    else none

def blobsOfRepo (repo : String) : List Visit :=
  let blobs := splitName repo ++ ["blobs"]
  if listing.isDirectory blobs then
    (listing.subdirectories blobs).flatMap fun algorithm =>
      blobsOfAlgorithm listing repo algorithm (blobs ++ [algorithm])
  else []

def forEachCasBlob : List Visit := (discoverRepos listing).flatMap (blobsOfRepo listing)

end

/-- What the walk leaves at the start: the blobs entered in the presence filter and
the dedupe index, the sizes charged to repositories, and the number of staging
files. -/
structure Seeded where
  presence : List (String × String)
  charges : List (String × Nat)
  sessions : Nat

def seedFromCas (listing : Listing) (trackBytes : Bool) (length : Path → Option Nat) : Seeded where
  presence := (forEachCasBlob listing).map fun visit => (visit.repo, visit.digest.asString)
  charges := (forEachCasBlob listing).filterMap fun visit =>
    if trackBytes && listing.isFile visit.path then (length visit.path).map (visit.repo, ·)
    else none
  sessions := (((discoverRepos listing).filterMap fun repo =>
    listing.readDir (splitName repo ++ ["uploads"])).map List.length).sum

/-- `blob_exists` when nothing else was entered in the filter and the filter errs
about nothing; `recorded` says that the metadata has a checksum of the blob. -/
def Seeded.blobExists (seeded : Seeded) (listing : Listing) (recorded : Bool) (key : BlobKey) :
    Bool :=
  seeded.presence.contains (key.repo.name, key.digest.asString) &&
    (recorded || listing.isFile key.path)

/-- The listing shows the disk: the directories that hold files can be read, and
names are single components. -/
structure Listing.Shows (listing : Listing) (disk : Disk) : Prop where
  regular : ∀ path node, disk.files path = some (.regular node) →
    listing.fileType path = some .regular
  directory : ∀ path rest, rest ≠ [] → (disk.files (path ++ rest)).isSome = true →
    listing.fileType path = some .directory
  lists : ∀ path name rest, (disk.files (path ++ name :: rest)).isSome = true →
    ∃ entries kind, listing.readDir path = some entries ∧ (name, kind) ∈ entries ∧
      listing.fileType (path ++ [name]) = some kind
  single : ∀ path entries, listing.readDir path = some entries →
    ∀ entry ∈ entries, '/' ∉ entry.1.toList

/-- The walk takes a directory with an index or a marker for a repository. -/
def Listing.Marked (listing : Listing) (path : Path) : Prop :=
  listing.isFile (path ++ ["index.json"]) = true ∨ listing.isFile (path ++ ["oci-layout"]) = true

/-- Names the walk comes to. -/
def Discoverable (repo : RepositoryName) : Prop :=
  (repoPath repo).length < 16 ∧ "blobs" ∉ repoPath repo ∧ "uploads" ∉ repoPath repo

instance (repo : RepositoryName) : Decidable (Discoverable repo) :=
  inferInstanceAs (Decidable (_ ∧ _ ∧ _))

/-! ## Names and paths -/

variable {component : String}

theorem splitName_joinNames {path : Path} (some : path ≠ [])
    (single : ∀ name ∈ path, '/' ∉ name.toList) : splitName (joinNames path) = path := by
  unfold splitName joinNames
  rw [String.toList_ofList, splitAll_eq,
    List.splitOn_intercalate _ (by simpa using single) (by simpa using some)]
  simp

theorem joinNames_repoPath (repo : RepositoryName) : joinNames (repoPath repo) = repo.name := by
  unfold joinNames repoPath
  rw [List.map_map, show String.toList ∘ String.ofList = id from funext fun _ => by simp,
    List.map_id, intercalate_splitAll, String.ofList_toList]

theorem head_ne_dot (valid : validateNameComponent component = .ok ()) :
    component.toList.head? ≠ some '.' := by
  intro dotted
  obtain ⟨rest, shape⟩ := List.head?_eq_some_iff.mp dotted
  have bytes : (utf8 component).head? = some 46 := by
    rw [← @String.ofList_toList component, shape, utf8_ofList]
    rfl
  unfold validateNameComponent at valid
  split at valid
  · cases valid
  simp only [bytes] at valid
  split at valid
  · cases valid
  rename_i started
  exact started (by simp [isLowerAlnum])

variable {name : String}

theorem skipped_eq_false {repo : RepositoryName} (discoverable : Discoverable repo)
    (member : name ∈ repoPath repo) : skipped name = false := by
  have first : name ≠ "blobs" := fun same => discoverable.2.1 (same ▸ member)
  have second : name ≠ "uploads" := fun same => discoverable.2.2 (same ▸ member)
  have third := head_ne_dot (validateNameComponent_repoPath repo member)
  simp [skipped, first, second, third]

/-! ## The walk -/

section

variable {listing : Listing} {disk : Disk}

theorem Listing.Shows.mem_subdirectories (shows : listing.Shows disk) {path rest : Path}
    (below : rest ≠ []) (present : (disk.files (path ++ name :: rest)).isSome = true) :
    (listing.readDir path).isNone = false ∧ name ∈ listing.subdirectories path := by
  obtain ⟨entries, kind, read, listed, shown⟩ := shows.lists path name rest present
  have directory := shows.directory (path ++ [name]) rest below (by simpa using present)
  rw [directory] at shown
  cases shown
  refine ⟨by rw [read]; rfl, ?_⟩
  unfold Listing.subdirectories
  rw [read]
  exact List.mem_map.mpr ⟨_, List.mem_filter.mpr ⟨listed, rfl⟩, rfl⟩

theorem Listing.Shows.single_of_mem (shows : listing.Shows disk) {path : Path}
    (member : name ∈ listing.subdirectories path) : '/' ∉ name.toList := by
  unfold Listing.subdirectories at member
  obtain ⟨entry, listed, rfl⟩ := List.mem_map.mp member
  cases read : listing.readDir path with
  | none =>
    rw [read] at listed
    cases listed
  | some entries =>
    rw [read] at listed
    exact shows.single path entries read entry (List.mem_filter.mp listed).1

variable {key : BlobKey} {depth node : Nat} {rel : Path}

theorem mem_repositoryAt :
    name ∈ repositoryAt listing rel ↔ name = joinNames rel ∧ rel ≠ [] ∧ listing.Marked rel := by
  unfold repositoryAt
  split
  · rename_i marked
    simp only [Bool.and_eq_true, Bool.not_eq_true', List.isEmpty_eq_false_iff,
      Bool.or_eq_true] at marked
    rw [List.mem_singleton]
    exact (and_iff_left marked).symm
  rename_i unmarked
  simp only [Bool.and_eq_true, Bool.not_eq_true', List.isEmpty_eq_false_iff,
    Bool.or_eq_true] at unmarked
  exact iff_of_false List.not_mem_nil fun found => unmarked found.2

/-- What the walk finds beneath a directory lies less than `depth` levels down,
behind directories it enters. -/
theorem exists_of_mem_walk (shows : listing.Shows disk) (found : name ∈ walk listing depth rel) :
    ∃ below, name ∈ repositoryAt listing (rel ++ below) ∧ below.length < depth ∧
      ∀ component ∈ below, skipped component = false ∧ '/' ∉ component.toList := by
  induction depth generalizing rel with
  | zero => cases found
  | succ depth ih =>
    unfold walk at found
    split at found
    · cases found
    rcases List.mem_append.mp found with here | deeper
    · exact ⟨[], by simpa using here, by simp, by simp⟩
    obtain ⟨component, entered, inside⟩ := List.mem_flatMap.mp deeper
    obtain ⟨listed, kept⟩ := List.mem_filter.mp entered
    obtain ⟨below, taken, shallow, every⟩ := ih inside
    refine ⟨component :: below, by simpa using taken, by simpa using shallow, ?_⟩
    intro other member
    rcases List.mem_cons.mp member with rfl | later
    · exact ⟨by simpa using kept, shows.single_of_mem listed⟩
    · exact every other later

/-- The walk comes to every directory with a file somewhere below that it can
enter. -/
theorem mem_walk (shows : listing.Shows disk) {below rest : Path}
    (present : (disk.files (rel ++ below ++ rest)).isSome = true) (inside : rest ≠ [])
    (taken : name ∈ repositoryAt listing (rel ++ below)) (shallow : below.length < depth)
    (entered : ∀ component ∈ below, skipped component = false) : name ∈ walk listing depth rel := by
  induction below generalizing depth rel with
  | nil =>
    rcases depth with _ | depth
    · cases shallow
    rw [List.append_nil] at present taken
    obtain ⟨first, others, rfl⟩ := List.exists_cons_of_ne_nil inside
    obtain ⟨entries, _, read, _⟩ := shows.lists rel first others present
    unfold walk
    rw [read, if_neg (by simp)]
    exact List.mem_append_left _ taken
  | cons component below ih =>
    rcases depth with _ | depth
    · cases shallow
    have step : rel ++ component :: below = rel ++ [component] ++ below := by simp
    rw [step] at present taken
    have under : (disk.files (rel ++ component :: (below ++ rest))).isSome = true := by
      simpa using present
    obtain ⟨readable, listed⟩ := shows.mem_subdirectories (by simp [inside]) under
    have deeper : name ∈ walk listing depth (rel ++ [component]) :=
      ih present taken (by simpa using shallow)
        fun other member => entered other (List.mem_cons_of_mem component member)
    unfold walk
    rw [if_neg (by simp [readable])]
    refine List.mem_append_right _ (List.mem_flatMap.mpr ⟨component, ?_, deeper⟩)
    exact List.mem_filter.mpr ⟨listed, by simp [entered component List.mem_cons_self]⟩

/-- The walk finds a repository that has a blob exactly if it comes to its name
and takes its directory for a repository. -/
theorem mem_discoverRepos_iff (shows : listing.Shows disk)
    (stored : disk.files key.path = some (.regular node)) :
    key.repo.name ∈ discoverRepos listing ↔
      Discoverable key.repo ∧ listing.Marked (repoPath key.repo) := by
  constructor
  · intro found
    obtain ⟨below, taken, shallow, every⟩ := exists_of_mem_walk shows found
    rw [List.nil_append] at taken
    obtain ⟨equal, nonempty, marked⟩ := mem_repositoryAt.mp taken
    have path : repoPath key.repo = below := by
      rw [← splitName_joinNames nonempty fun name member => (every name member).2, ← equal]
      rfl
    rw [← path] at shallow every marked
    exact ⟨⟨shallow, fun member => absurd (every _ member).1 (by decide),
      fun member => absurd (every _ member).1 (by decide)⟩, marked⟩
  rintro ⟨discoverable, marked⟩
  refine mem_walk shows (congrArg Option.isSome stored) (by simp) ?_ discoverable.1
    fun component member => skipped_eq_false discoverable member
  exact mem_repositoryAt.mpr ⟨(joinNames_repoPath key.repo).symm, repoPath_ne_nil key.repo, marked⟩

/-- The visit to a blob. -/
def BlobKey.visit (key : BlobKey) : Visit := ⟨key.repo.name, key.digest, key.path⟩

theorem mem_blobsOfRepo (shows : listing.Shows disk)
    (stored : disk.files key.path = some (.regular node)) :
    key.visit ∈ blobsOfRepo listing key.repo.name := by
  have blobs : splitName key.repo.name ++ ["blobs"] = repoPath key.repo ++ ["blobs"] := rfl
  have present : (disk.files (repoPath key.repo ++ ["blobs"] ++ key.digest.algorithm ::
      [key.digest.hex])).isSome = true := by
    rw [List.append_assoc]
    exact congrArg Option.isSome stored
  have directory : listing.isDirectory (repoPath key.repo ++ ["blobs"]) = true :=
    decide_eq_true (shows.directory _ _ (by simp) present)
  obtain ⟨_, algorithm⟩ := shows.mem_subdirectories (by simp) present
  obtain ⟨entries, kind, read, listed, shown⟩ := shows.lists
    (repoPath key.repo ++ ["blobs", key.digest.algorithm]) key.digest.hex []
    (by rw [List.append_assoc]; exact congrArg Option.isSome stored)
  have leaf : repoPath key.repo ++ ["blobs", key.digest.algorithm] ++ [key.digest.hex] =
      key.path := by simp [BlobKey.path]
  rw [leaf, shows.regular _ node stored] at shown
  cases shown
  simp only [blobsOfRepo, blobs, directory, if_true]
  refine List.mem_flatMap.mpr
    ⟨_, algorithm, List.mem_filterMap.mpr ⟨(key.digest.hex, .regular), ?_, ?_⟩⟩
  · rw [List.append_assoc, List.singleton_append, read]
    exact listed
  have parsed : Digest.parse (key.digest.algorithm ++ ":" ++ key.digest.hex) = .ok key.digest :=
    key.digest.parse_asString
  simp [parsed, BlobKey.visit, BlobKey.path, Except.toOption]

/-- A blob is found again by the walk and by what is seeded from it. -/
structure FoundAgain (listing : Listing) (length : Path → Option Nat) (key : BlobKey) : Prop where
  visited : ∃ visit ∈ forEachCasBlob listing, visit.repo = key.repo.name ∧ visit.digest = key.digest
  answered : ∀ recorded, (seedFromCas listing true length).blobExists listing recorded key = true
  charged : ∀ bytes, length key.path = some bytes →
    (key.repo.name, bytes) ∈ (seedFromCas listing true length).charges

/-- A stored blob is found again exactly if the walk comes to the name of its
repository and takes the directory for a repository. -/
theorem stored_blob_found_again_iff (shows : listing.Shows disk)
    (stored : disk.files key.path = some (.regular node)) (length : Path → Option Nat) :
    FoundAgain listing length key ↔ Discoverable key.repo ∧ listing.Marked (repoPath key.repo) := by
  rw [← mem_discoverRepos_iff shows stored]
  constructor
  · rintro ⟨⟨visit, visited, repo, _⟩, _⟩
    obtain ⟨name, found, inside⟩ := List.mem_flatMap.mp visited
    have same : visit.repo = name := by
      simp only [blobsOfRepo] at inside
      split at inside
      · obtain ⟨algorithm, _, listed⟩ := List.mem_flatMap.mp inside
        obtain ⟨entry, _, read⟩ := List.mem_filterMap.mp listed
        split at read
        · obtain ⟨digest, _, rfl⟩ := Option.map_eq_some_iff.mp read
          rfl
        · cases read
      · cases inside
    rwa [← same, repo] at found
  · intro found
    have visited : key.visit ∈ forEachCasBlob listing :=
      List.mem_flatMap.mpr ⟨_, found, mem_blobsOfRepo shows stored⟩
    have regular : listing.isFile key.path = true :=
      decide_eq_true (shows.regular _ node stored)
    refine ⟨⟨key.visit, visited, rfl, rfl⟩, fun recorded => ?_, fun bytes measured => ?_⟩
    · have entered : (key.repo.name, key.digest.asString) ∈
          (seedFromCas listing true length).presence := List.mem_map.mpr ⟨key.visit, visited, rfl⟩
      simp [Seeded.blobExists, entered, regular]
    · refine List.mem_filterMap.mpr ⟨key.visit, visited, ?_⟩
      simp [BlobKey.visit, regular, measured]

end

/-! ## A repository of one component -/

def hexOfNothing : String := Digest.ofNothing.hex

/-- A directory with a marker and the empty blob. -/
def oneBlobListing (name : String) : Listing where
  readDir path :=
    if path = [] then some [(name, .directory)]
    else if path = [name] then some [("blobs", .directory), ("oci-layout", .regular)]
    else if path = [name, "blobs"] then some [("sha256", .directory)]
    else if path = [name, "blobs", "sha256"] then some [(hexOfNothing, .regular)]
    else none
  fileType path :=
    if path ∈ [[name, "oci-layout"], [name, "blobs", "sha256", hexOfNothing]] then some .regular
    else if path ∈ [[], [name], [name, "blobs"], [name, "blobs", "sha256"]] then some .directory
    else none

def oneBlobDisk (name : String) : Disk :=
  (({} : Disk).add [name, "blobs", "sha256", hexOfNothing] []).add [name, "oci-layout"] []

theorem files_oneBlobDisk {path : Path} (found : ((oneBlobDisk name).files path).isSome = true) :
    (path = [name, "oci-layout"] ∨ path = [name, "blobs", "sha256", hexOfNothing]) := by
  unfold oneBlobDisk at found
  by_cases marker : path = [name, "oci-layout"]
  · exact .inl marker
  rw [Disk.files_add_of_ne marker] at found
  by_cases blob : path = [name, "blobs", "sha256", hexOfNothing]
  · exact .inr blob
  rw [Disk.files_add_of_ne blob] at found
  cases found

theorem shows_oneBlob (single : '/' ∉ name.toList) :
    (oneBlobListing name).Shows (oneBlobDisk name) where
  regular path node found := by
    rcases files_oneBlobDisk (by rw [found]; rfl) with rfl | rfl <;> simp [oneBlobListing]
  directory path rest below present := by
    rcases files_oneBlobDisk present with equal | equal <;>
      rcases path with _ | ⟨_, _ | ⟨_, _ | ⟨_, _ | ⟨_, path⟩⟩⟩⟩ <;> simp_all [oneBlobListing]
  lists path name rest present := by
    rcases files_oneBlobDisk present with equal | equal <;>
      rcases path with _ | ⟨_, _ | ⟨_, _ | ⟨_, _ | ⟨_, path⟩⟩⟩⟩ <;> simp_all [oneBlobListing]
  single path entries read := by
    simp only [oneBlobListing] at read
    split_ifs at read <;> cases read <;> simp [single, hexOfNothing, Digest.ofNothing]

def appBlob : BlobKey := ⟨⟨"app", app_valid⟩, .ofNothing⟩

theorem app_blob_found_again :
    FoundAgain (oneBlobListing "app") (fun _ => some 0) appBlob := by
  have stored : (oneBlobDisk "app").files appBlob.path = some (.regular 0) := by decide +kernel
  exact (stored_blob_found_again_iff (shows_oneBlob (by decide)) stored _).mpr
    ⟨by decide +kernel, .inr (by decide +kernel)⟩

def uploadsBlob : BlobKey := ⟨⟨"uploads", by decide +kernel⟩, .ofNothing⟩

theorem uploads_blob_lost :
    (oneBlobListing "uploads").Shows (oneBlobDisk "uploads") ∧
      (oneBlobDisk "uploads").files uploadsBlob.path = some (.regular 0) ∧
      forEachCasBlob (oneBlobListing "uploads") = [] ∧
      (seedFromCas (oneBlobListing "uploads") true fun _ => some 0).blobExists
        (oneBlobListing "uploads") true uploadsBlob = false :=
  ⟨shows_oneBlob (by decide), by decide +kernel, by decide +kernel, by decide +kernel⟩

end Roci.Filesystem
