import Roci.Filesystem.Places
import Roci.Library.FileTree

/-!
# Names that stand in each other's way

The reserved words of the layout are themselves valid components of repository
names, so one repository can be called like a file of another one, or like a
file of the registry.  Two repositories are apart when neither begins with such
a file; then none of their files and directories collide and whatever is done in
one succeeds in the other, and otherwise something fails.
-/

namespace Roci.Storage.Digest

theorem hex_ne (digest : Digest) {word : String}
    (other : word.toList.all (· ∈ lowerHexDigits) = false) : digest.hex ≠ word := by
  intro same
  have digits := digest.digits
  rw [same, other] at digits
  cases digits

end Roci.Storage.Digest

namespace Roci.Filesystem

open Roci.Core Roci.Library Roci.Storage

/-! ## What the store uses -/

/-- The ids of upload sessions: sixteen bytes in hexadecimal form. -/
def isUploadId (id : String) : Bool := id.toList.length = 32 && id.toList.all (· ∈ lowerHexDigits)

inductive LocalFile where
  | blob (digest : Digest)
  | staging (id : String) (issued : isUploadId id = true)
  | index
  | marker

inductive LocalDirectory where
  | home
  | blobs
  | algorithm (digest : Digest)
  | uploads

inductive RegistryFile where
  | metadataLog
  | engineMarker
  | stamp
  /-- The stamp while it is written. -/
  | stampTemp
deriving DecidableEq

inductive FileUse where
  | ofRepo (repo : RepositoryName) (file : LocalFile)
  | registry (file : RegistryFile)

/-- What a path is used for. -/
inductive Use where
  | file (use : FileUse)
  | directory (repo : RepositoryName) (kind : LocalDirectory)

/-- Where a file lies beneath the directory of its repository. -/
def LocalFile.place : LocalFile → Path
  | .blob digest => ["blobs", digest.algorithm, digest.hex]
  | .staging id _ => ["uploads", id]
  | .index => ["index.json"]
  | .marker => ["oci-layout"]

def LocalDirectory.place : LocalDirectory → Path
  | .home => []
  | .blobs => ["blobs"]
  | .algorithm digest => ["blobs", digest.algorithm]
  | .uploads => ["uploads"]

def RegistryFile.name : RegistryFile → String
  | .metadataLog => "roci-meta.log"
  | .engineMarker => "roci-meta.engine"
  | .stamp => ".roci-fast-restart"
  | .stampTemp => ".roci-fast-restart.tmp"

def FileUse.path : FileUse → Path
  | .ofRepo repo file => repoPath repo ++ file.place
  | .registry file => [file.name]

def Use.path : Use → Path
  | .file use => use.path
  | .directory repo kind => repoPath repo ++ kind.place

variable (repo : RepositoryName)

def FileUse.Serves : FileUse → Prop
  | .ofRepo owner _ => owner = repo
  | .registry _ => True

def Use.Serves : Use → Prop
  | .file use => use.Serves repo
  | .directory owner _ => owner = repo

/-- The file is what another use has to have as a directory, or as another
file. -/
def Collides (file : FileUse) (use : Use) : Prop := file.path <+: use.path ∧ use ≠ .file file

/-! ## Repositories that are apart -/

/-- Beginnings of names that lie among the files of a repository or of the
registry. -/
inductive Reserved (repo : RepositoryName) : Path → Prop where
  | index : Reserved repo (repoPath repo ++ ["index.json"])
  | marker : Reserved repo (markerPath repo)
  | staging (id : String) (issued : isUploadId id = true) :
      Reserved repo (SessionKey.path ⟨repo, id⟩)
  | blob (digest : Digest) : Reserved repo (BlobKey.path ⟨repo, digest⟩)
  | metadataLog : Reserved repo ["roci-meta.log"]
  | engineMarker : Reserved repo ["roci-meta.engine"]

def Apart (first second : RepositoryName) : Prop :=
  ∀ reserved, Reserved first reserved → ¬ reserved <+: repoPath second

/-! ## Components -/

variable {component : String}

theorem validateNameComponent_repoPath (member : component ∈ repoPath repo) :
    validateNameComponent component = .ok () := by
  exact validateComponents_eq_ok_iff.mp repo.components_valid component member

theorem repoPath_ne_nil : repoPath repo ≠ [] := by
  unfold repoPath
  rw [Ne, List.map_eq_nil_iff]
  exact splitAll_ne_nil '/' _

theorem not_prefix_repoPath {word : String} {rest : Path}
    (invalid : validateNameComponent word ≠ .ok ()) : ¬ word :: rest <+: repoPath repo := by
  intro before
  exact invalid (validateNameComponent_repoPath repo (before.subset List.mem_cons_self))

/-! ## Collisions -/

theorem prefix_append_cases {Name : Type} {path first second : List Name}
    (before : path <+: first ++ second) :
    path <+: first ∨ ∃ rest, rest ≠ [] ∧ path = first ++ rest ∧ rest <+: second := by
  obtain ⟨behind, equal⟩ := before
  rcases List.append_eq_append_iff.mp equal with ⟨rest, whole, _⟩ | ⟨rest, whole, tail⟩
  · exact .inl ⟨rest, whole.symm⟩
  cases rest with
  | nil => exact .inl (by simp [whole])
  | cons head others => exact .inr ⟨_, by simp, whole, behind, tail.symm⟩

def layoutWords : List String := ["blobs", "uploads", "index.json", "oci-layout"]

theorem not_layoutWord_of_digits {text : String}
    (digits : text.toList.all (· ∈ lowerHexDigits) = true) : text ∉ layoutWords := by
  intro member
  simp only [layoutWords, List.mem_cons, List.not_mem_nil, or_false] at member
  rcases member with rfl | rfl | rfl | rfl <;> exact absurd digits (by decide)

theorem algorithm_not_layoutWord (digest : Digest) : digest.algorithm ∉ layoutWords := by
  rcases digest.algorithm_eq with known | known <;> rw [known] <;> decide

theorem not_layoutWord_of_isUploadId {id : String} (issued : isUploadId id = true) :
    id ∉ layoutWords :=
  not_layoutWord_of_digits (Bool.and_eq_true_iff.mp issued).2

section

variable {first second : RepositoryName} {rest : Path} {word : String}

theorem Apart.not_begins (apart : Apart first second) {file : FileUse}
    (serves : file.Serves first) : ¬ file.path <+: repoPath second := by
  cases file with
  | registry file =>
    cases file with
    | metadataLog => exact apart _ .metadataLog
    | engineMarker => exact apart _ .engineMarker
    | _ => exact not_prefix_repoPath second (by decide +kernel)
  | ofRepo repo file =>
    cases serves
    cases file with
    | blob digest => exact apart _ (.blob digest)
    | staging id issued => exact apart _ (.staging id issued)
    | index => exact apart _ .index
    | marker => exact apart _ .marker

/-- Where something lies beneath the directory of a repository. -/
inductive Place : Path → Prop where
  | file (file : LocalFile) : Place file.place
  | directory (kind : LocalDirectory) : Place kind.place

variable {place : Path}

theorem Place.head (found : Place place) (before : word :: rest <+: place) :
    word ∈ layoutWords := by
  cases found with
  | file file => cases file <;> simp_all [LocalFile.place, layoutWords, List.cons_prefix_cons]
  | directory kind =>
    cases kind <;> simp_all [LocalDirectory.place, layoutWords, List.cons_prefix_cons]

theorem Place.tail (found : Place place) {head : String} {between : Path}
    (before : head :: between ++ word :: rest <+: place) : word ∉ layoutWords := by
  obtain ⟨behind, equal⟩ := before
  cases found with
  | file file =>
    cases file with
    | blob digest =>
      rcases between with _ | ⟨next, _ | ⟨third, between⟩⟩
      · obtain rfl : word = digest.algorithm := by simp_all [LocalFile.place]
        exact algorithm_not_layoutWord digest
      · obtain rfl : word = digest.hex := by simp_all [LocalFile.place]
        exact not_layoutWord_of_digits digest.digits
      · simp [LocalFile.place] at equal
    | staging id issued =>
      rcases between with _ | ⟨next, between⟩
      · obtain rfl : word = id := by simp_all [LocalFile.place]
        exact not_layoutWord_of_isUploadId issued
      · simp [LocalFile.place] at equal
    | _ => simp [LocalFile.place] at equal
  | directory kind =>
    cases kind with
    | algorithm digest =>
      rcases between with _ | ⟨next, between⟩
      · obtain rfl : word = digest.algorithm := by simp_all [LocalDirectory.place]
        exact algorithm_not_layoutWord digest
      · simp [LocalDirectory.place] at equal
    | _ => simp [LocalDirectory.place] at equal

variable (file : LocalFile)

theorem LocalFile.place_cons : ∃ word rest, file.place = word :: rest := by
  cases file <;> exact ⟨_, _, rfl⟩

/-- A file that does not begin another repository's name and lies in the way of
something in it belongs to the same repository. -/
theorem same_of_begins {file : LocalFile} (found : Place place)
    (before : repoPath first ++ file.place <+: repoPath second ++ place)
    (outside : ¬ repoPath first ++ file.place <+: repoPath second) :
    first = second ∧ file.place <+: place := by
  rcases prefix_append_cases before with inside | ⟨rest, nonempty, equal, tail⟩
  · exact absurd inside outside
  obtain ⟨word, rest, rfl⟩ := List.exists_cons_of_ne_nil nonempty
  rcases List.append_eq_append_iff.mp equal with ⟨between, under, split⟩ | ⟨between, longer, split⟩
  · cases between with
    | nil => exact ⟨repoPath_injective (by simpa using under.symm), by simpa [split] using tail⟩
    | cons head others =>
      -- the file reaches into the other repository: a word of the layout behind its first
      have inner : head :: others ++ word :: rest <+: file.place := by
        rw [split]
      exact absurd (found.head tail) ((Place.file file).tail inner)
  cases between with
  | nil =>
    rw [split] at tail
    exact ⟨repoPath_injective (by simpa using longer), tail⟩
  | cons head others =>
    obtain ⟨first, more, shape⟩ := file.place_cons
    have whole : first :: more <+: file.place := by rw [shape]
    have leading := (Place.file file).head whole
    rw [split, shape] at tail
    exact absurd leading (found.tail tail)

theorem eq_of_place_begins {file other : LocalFile} (before : file.place <+: other.place) :
    file = other := by
  cases file <;> cases other <;> simp_all [LocalFile.place, List.cons_prefix_cons]
  rename_i one other
  exact Digest.ext_fields before.1 before.2

theorem not_place_prefix_directory (kind : LocalDirectory) : ¬ file.place <+: kind.place := by
  cases file <;> cases kind <;>
    simp [LocalFile.place, LocalDirectory.place, List.cons_prefix_cons]

theorem RegistryFile.name_injective : Function.Injective RegistryFile.name := by
  intro one other same
  cases one <;> cases other <;> first | rfl | exact absurd same (by decide)

theorem registry_begins {file : RegistryFile} (before : [file.name] <+: repoPath second ++ place) :
    [file.name] <+: repoPath second := by
  obtain ⟨head, others, shape⟩ := List.exists_cons_of_ne_nil (repoPath_ne_nil second)
  rw [shape] at before ⊢
  simp_all [List.cons_prefix_cons]

theorem local_not_prefix_registry (other : RegistryFile) :
    ¬ repoPath first ++ file.place <+: [other.name] := by
  intro before
  have short := before.length_le
  have nonempty := List.length_pos_of_ne_nil (repoPath_ne_nil first)
  have placed : 0 < file.place.length := by cases file <;> simp [LocalFile.place]
  simp only [List.length_append, List.length_singleton] at short
  omega

theorem Apart.not_collides (apart : Apart first second) {file : FileUse} {use : Use}
    (serves : file.Serves first) (other : use.Serves second) : ¬ Collides file use := by
  rintro ⟨before, different⟩
  have outside := apart.not_begins serves
  cases file with
  | registry file =>
    cases use with
    | directory repo kind =>
      cases other
      exact outside (registry_begins before)
    | file use =>
      cases use with
      | ofRepo repo used =>
        cases other
        exact outside (registry_begins before)
      | registry used =>
        have same : file = used :=
          RegistryFile.name_injective (by simpa [Use.path, FileUse.path] using before)
        exact different (by rw [same])
  | ofRepo repo file =>
    cases serves
    cases use with
    | directory repo kind =>
      cases other
      exact not_place_prefix_directory file kind (same_of_begins (.directory kind) before outside).2
    | file use =>
      cases use with
      | ofRepo repo used =>
        cases other
        obtain ⟨rfl, inner⟩ := same_of_begins (.file used) before outside
        exact different (by rw [eq_of_place_begins inner])
      | registry used => exact local_not_prefix_registry file used before

theorem Reserved.exists_file {reserved : Path} (found : Reserved first reserved) :
    ∃ file : FileUse, file.Serves first ∧ file.path = reserved := by
  cases found with
  | index => exact ⟨.ofRepo first .index, rfl, rfl⟩
  | marker => exact ⟨.ofRepo first .marker, rfl, rfl⟩
  | staging id issued => exact ⟨.ofRepo first (.staging id issued), rfl, rfl⟩
  | blob digest => exact ⟨.ofRepo first (.blob digest), rfl, rfl⟩
  | metadataLog => exact ⟨.registry .metadataLog, trivial, rfl⟩
  | engineMarker => exact ⟨.registry .engineMarker, trivial, rfl⟩

end

/-! ## Failing calls -/

variable (used : RepositoryName → Prop)

def FilesOf (path : Path) : Prop :=
  ∃ repo, used repo ∧ ∃ file : FileUse, file.Serves repo ∧ file.path = path

def DirectoriesOf (path : Path) : Prop :=
  ∃ repo, used repo ∧ ∃ kind : LocalDirectory, repoPath repo ++ kind.place = path

theorem FileUse.path_ne_nil (file : FileUse) : file.path ≠ [] := by
  cases file with
  | registry file => simp [FileUse.path]
  | ofRepo repo file => simp [FileUse.path, repoPath_ne_nil]

/-- Repositories that are apart can be used side by side. -/
theorem disjoint_of_apart {used : RepositoryName → Prop}
    (apart : ∀ first second, used first → used second → Apart first second) :
    FileTree.Disjoint (FilesOf used) (DirectoriesOf used) where
  proper := by
    rintro _ ⟨_, _, file, _, rfl⟩
    exact file.path_ne_nil
  directory := by
    rintro _ _ ⟨first, member, file, serves, rfl⟩ ⟨second, other, kind, rfl⟩ before
    exact (apart first second member other).not_collides serves
      (show (Use.directory second kind).Serves second from rfl) ⟨before, nofun⟩
  file := by
    rintro _ _ ⟨first, member, file, serves, rfl⟩ ⟨second, other, used, owned, rfl⟩ before
    by_contra different
    refine (apart first second member other).not_collides serves
      (show (Use.file used).Serves second from owned) ⟨before, ?_⟩
    intro same
    cases same
    exact different rfl

/-- A repository name that begins with a file of another repository or of the
registry stands in its way, and nothing else does: no file of the first is a
place of the second exactly when they are apart; and whatever files and
directories repositories make and remove, nothing fails on account of what
stands there exactly when every two of them are apart. -/
theorem namespaces_apart :
    (∀ first second : RepositoryName, Apart first second ↔
      ∀ (file : FileUse) (use : Use), file.Serves first → use.Serves second →
        ¬ Collides file use) ∧
    ((∀ first second, used first → used second → Apart first second) ↔
      ∀ actions : List (TreeAction String),
        (∀ action ∈ actions, action.Within (FilesOf used) (DirectoriesOf used)) →
        (({} : FileTree String).performAll actions).isSome = true) := by
  refine ⟨fun first second => ⟨fun apart file use => apart.not_collides, ?_⟩,
    fun apart actions => ?_, fun succeeds first second member other reserved found before => ?_⟩
  · intro free reserved found before
    obtain ⟨file, serves, rfl⟩ := found.exists_file
    exact free file (.directory second .home) serves rfl
      ⟨by simpa [Use.path, LocalDirectory.place] using before, nofun⟩
  · exact FileTree.serves_empty.performAll (disjoint_of_apart apart)
  obtain ⟨file, serves, rfl⟩ := found.exists_file
  have fails := FileTree.performAll_blocked file.path_ne_nil before
  have succeeded := succeeds [.placeFile file.path, .makeDirectories (repoPath second)] ?_
  · rw [fails] at succeeded
    cases succeeded
  intro action member'
  simp only [List.mem_cons, List.not_mem_nil, or_false] at member'
  rcases member' with rfl | rfl
  · exact ⟨first, member, file, serves, rfl⟩
  · exact ⟨second, other, .home, by simp [LocalDirectory.place]⟩

/-- A repository, one called like its index, and one called like the metadata
log. -/
def shop : RepositoryName := ⟨"shop", by decide +kernel⟩

def shopIndex : RepositoryName := ⟨"shop/index.json", by decide +kernel⟩

def logName : RepositoryName := ⟨"roci-meta.log", by decide +kernel⟩

/-- A push to `shop/index.json` makes the next tag update of `shop` fail, and a
push to `roci-meta.log` the first append to the metadata log. -/
theorem index_directory_in_the_way :
    Collides (.ofRepo shop .index) (.directory shopIndex .home) ∧
    Collides (.registry .metadataLog) (.directory logName .home) ∧
    (({} : FileTree String).performAll
      [.makeDirectories (repoPath shopIndex),
        .placeFile (FileUse.ofRepo shop .index).path]).isSome =
        false ∧
    (({} : FileTree String).performAll
      [.makeDirectories (repoPath logName),
        .placeFile (FileUse.registry .metadataLog).path]).isSome = false := by
  refine ⟨⟨?_, nofun⟩, ⟨?_, nofun⟩, ?_, ?_⟩ <;> decide +kernel

end Roci.Filesystem
