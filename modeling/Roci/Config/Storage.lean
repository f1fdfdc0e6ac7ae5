import Roci.Core.Grammar
import Roci.Library.Fallible
import Roci.Manifests.Push

/-!
# Backends of a configuration

A configuration names a default backend and one for each subpath, and `validate`
is to keep their namespaces apart.  It compares the components of the root texts
two by two, which tells directories apart only when both roots start at the same
place and have no `..`; it does not compare S3 prefixes at all.
-/

namespace Roci.Config

open Roci.Core Roci.Library Roci.Storage

structure ConfigError where
  field : String
  reason : String
deriving DecidableEq

/-- Whether the host of an endpoint is internal, and which paths are files. -/
structure Surroundings where
  isInternal : String → Bool
  isFile : String → Bool

inductive MetadataEngine where
  | log
  | lmdb
  | redb
deriving DecidableEq

structure S3Config where
  bucket : String
  endpoint : Option String := none
  keyPrefix : String := ""
  allowHttp : Bool := false
  redirectMinSize : Nat := 1024 * 1024
  redirectTtlSecs : Nat := 60
  multipartPartSize : Nat := 16 * 1024 * 1024
  multipartConcurrency : Nat := 8
  caFile : Option String := none

/-- The root of a backend, and where its blobs are if not there. -/
structure SubpathConfig where
  root : String
  s3 : Option S3Config := none

/-- What `validate` reads; the subpaths are in the order of their names. -/
structure StorageConfig extends SubpathConfig where
  root := "./roci-data"
  cacheMaxBytes : Nat := 256 * 1024 * 1024
  smallBlobThreshold : Nat := 100 * 1024
  subpaths : List (String × SubpathConfig) := []
  gcEnabled : Bool := true
  gcDelaySecs : Nat := 3600
  gcIntervalSecs : Nat := 3600
  scrubEnabled : Bool := false
  scrubIntervalSecs : Nat := 24 * 3600
  scrubMaxBytesPerSec : Nat := 64 * 1024 * 1024
  engine : MetadataEngine := .log
  compactThresholdBytes : Nat := 64 * 1024 * 1024
  snapshot : Bool := false
  mapSizeBytes : Nat := 68719476736

def require (holds : Bool) (field reason : String) : Except ConfigError Unit :=
  if holds then .ok () else .error ⟨field, reason⟩

def requireNonzero (field : String) (value : Nat) : Except ConfigError Unit :=
  require (value != 0) field "must be > 0"

variable (env : Surroundings)

def S3Config.validate (config : S3Config) (field : String) :
    Except ConfigError Unit := do
  require (!config.bucket.toList.all Manifests.isWhitespace)
    (field ++ ".bucket") "must not be empty"
  require (!(config.keyPrefix.startsWith "/" || config.keyPrefix.endsWith "/")) (field ++ ".prefix")
    "must not start or end with '/'"
  require (1 ≤ config.redirectTtlSecs && config.redirectTtlSecs ≤ 60)
    (field ++ ".redirect_ttl_secs") "must be within [1, 60]"
  require (5 * 1024 * 1024 ≤ config.multipartPartSize) (field ++ ".multipart_part_size")
    "must be >= 5242880 (the S3 minimum part size)"
  requireNonzero (field ++ ".multipart_concurrency") config.multipartConcurrency
  if let some endpoint := config.endpoint then
    let plaintext := endpoint.startsWith "http://"
    require (plaintext || endpoint.startsWith "https://") (field ++ ".endpoint")
      "must be an http(s) URL"
    require (!(plaintext && !config.allowHttp)) (field ++ ".endpoint")
      "plaintext http:// requires allow_http = true"
    require (!(0 < config.redirectMinSize && env.isInternal endpoint)) (field ++ ".endpoint")
      ("redirect target is a loopback/private/link-local host; " ++
        "set redirect_min_size = 0 to proxy blobs")
  if let some file := config.caFile then
    require (env.isFile file) (field ++ ".ca_file") ("file does not exist: " ++ file)

/-! ## Paths as the standard library sees them -/

/-- The parts of a path that count. -/
def parts (text : String) : List String :=
  ((splitAll '/' text.toList).map String.ofList).filter fun part => part != "" && part != "."

/-- Where a path starts: at the root, at a leading dot, or at a name.  No part of a
path is one of these two texts. -/
def anchor (text : String) : List String :=
  if text.toList.head? = some '/' then ["/"]
  else if (splitAll '/' text.toList).head? = some ['.'] then ["."]
  else []

/-- `Path::components`. -/
def components (text : String) : List String := anchor text ++ parts text

/-- `Path::starts_with`. -/
def startsWith (path base : String) : Bool := (components base).isPrefixOf (components path)

/-- The directory a path names from a working directory, without `.` and `..`. -/
def resolve (directory : List String) (text : String) : List String :=
  (parts text).foldl
    (fun reached part => if part = ".." then reached.dropLast else reached ++ [part])
    (if anchor text = ["/"] then [] else directory)

/-! ## The check -/

def disjointRoots : List (String × String) → Except ConfigError Unit
  | [] => .ok ()
  | first :: rest => do
    rest.forM fun second =>
      require (!(startsWith first.2 second.2 || startsWith second.2 first.2)) second.1
        ("must not equal or nest with " ++ first.1)
    disjointRoots rest

namespace StorageConfig

def validateKnobs (config : StorageConfig) : Except ConfigError Unit := do
  if config.gcEnabled then
    require (config.gcDelaySecs != 0) "storage.gc.delay_secs" "must be > 0 when gc is enabled"
    require (config.gcIntervalSecs != 0) "storage.gc.interval_secs" "must be > 0 when gc is enabled"
  requireNonzero "storage.small_blob_threshold" config.smallBlobThreshold
  require (config.smallBlobThreshold ≤ 8 * 1024 * 1024) "storage.small_blob_threshold"
    "must be <= 8388608 (8 MiB)"
  require (!(0 < config.cacheMaxBytes && config.cacheMaxBytes < config.smallBlobThreshold))
    "storage.small_blob_threshold" "must be <= cache_max_bytes when the cache is enabled"
  if config.scrubEnabled then
    require (config.scrubIntervalSecs != 0) "storage.scrub.interval_secs"
      "must be > 0 when scrub is enabled"
    require (config.scrubMaxBytesPerSec != 0) "storage.scrub.max_bytes_per_sec"
      "must be > 0 when scrub is enabled"
  require (config.engine != .redb) "storage.metadata.engine"
    "the redb engine has been removed; use \"lmdb\" instead — metadata is rebuilt from the layout"
  requireNonzero "storage.metadata.compact_threshold_bytes" config.compactThresholdBytes
  require (!config.snapshot) "storage.metadata.snapshot"
    ("the snapshot option has been removed; " ++
    "use engine = \"lmdb\" for out-of-RAM metadata and fast restart")
  requireNonzero "storage.metadata.map_size_bytes" config.mapSizeBytes

def validateS3 (s3 : Option S3Config) (field : String) :
    Except ConfigError Unit :=
  s3.elim (.ok ()) fun s3 => s3.validate env field

def validate (config : StorageConfig) : Except ConfigError Unit := do
  config.validateKnobs
  validateS3 env config.s3 "storage.s3"
  config.subpaths.forM fun entry => do
    require (isRepoPrefix entry.1) ("storage.subpaths." ++ entry.1)
      "must be a repository-name prefix (`/`-separated `[a-z0-9]+([._-][a-z0-9]+)*` components)"
    validateS3 env entry.2.s3 ("storage.subpaths." ++ entry.1 ++ ".s3")
  disjointRoots (("storage.root", config.root) :: config.subpaths.map fun entry =>
    ("storage.subpaths." ++ entry.1 ++ ".root", entry.2.root))

def backends (config : StorageConfig) : List SubpathConfig :=
  config.toSubpathConfig :: config.subpaths.map Prod.snd

end StorageConfig

/-! ## Backends apart -/

/-- Neither list of components is the beginning of the other. -/
def Unnested {Name : Type} (first second : List Name) : Prop :=
  ¬ first <+: second ∧ ¬ second <+: first

def RootsApart (directory : List String) (first second : SubpathConfig) : Prop :=
  Unnested (resolve directory first.root) (resolve directory second.root)

/-- The components all keys with the prefix begin with. -/
def keyPath (keyPrefix : String) : List (List Char) :=
  if keyPrefix = "" then [] else splitAll '/' keyPrefix.toList

def KeysApart (first second : SubpathConfig) : Prop :=
  ∀ one ∈ first.s3, ∀ other ∈ second.s3, one.endpoint = other.endpoint → one.bucket = other.bucket →
    Unnested (keyPath one.keyPrefix) (keyPath other.keyPrefix)

/-- Both roots start at the same place and go down only. -/
def Comparable (first second : SubpathConfig) : Prop :=
  anchor first.root = anchor second.root ∧ ".." ∉ parts first.root ∧ ".." ∉ parts second.root

instance (first second : SubpathConfig) : Decidable (Comparable first second) :=
  inferInstanceAs (Decidable (_ ∧ _ ∧ _))

theorem require_eq_ok_iff {holds : Bool} {field reason : String} :
    require holds field reason = .ok () ↔ holds = true := by
  cases holds with
  | _ => simp [require]

/-- The roots of a configuration that is accepted are unnested as texts. -/
theorem unnested_of_disjointRoots {roots : List (String × String)}
    (accepted : disjointRoots roots = .ok ()) :
    roots.Pairwise fun first second => Unnested (components first.2) (components second.2) := by
  induction roots with
  | nil => exact .nil
  | cons first rest ih =>
    obtain ⟨_, heads, tails⟩ := (bind_eq_ok_iff _ _ _).mp accepted
    refine .cons (fun second member => ?_) (ih tails)
    have apart := require_eq_ok_iff.mp (forM_eq_ok_iff.mp heads second member)
    simpa [startsWith, Unnested, and_comm, ← Bool.not_eq_true] using apart

theorem resolve_of_downward {directory : List String} {text : String}
    (downward : ".." ∉ parts text) :
    resolve directory text = (if anchor text = ["/"] then [] else directory) ++ parts text := by
  unfold resolve
  generalize (if anchor text = ["/"] then [] else directory) = reached
  revert downward
  generalize parts text = below
  intro downward
  induction below generalizing reached with
  | nil => simp
  | cons part rest ih =>
    rw [List.mem_cons, not_or] at downward
    rw [List.foldl_cons, if_neg (Ne.symm downward.1), ih _ downward.2]
    simp

theorem rootsApart_of_comparable {directory : List String} {first second : SubpathConfig}
    (comparable : Comparable first second)
    (unnested : Unnested (components first.root) (components second.root)) :
    RootsApart directory first second := by
  obtain ⟨sameStart, down, alsoDown⟩ := comparable
  unfold RootsApart Unnested
  rw [resolve_of_downward down, resolve_of_downward alsoDown, sameStart,
    List.prefix_append_right_inj, List.prefix_append_right_inj]
  unfold Unnested components at unnested
  rwa [sameStart, List.prefix_append_right_inj, List.prefix_append_right_inj] at unnested

/-- The backends of an accepted configuration are apart exactly if the roots that
cannot be told apart by their texts are, and the S3 prefixes are. -/
theorem accepted_backends_apart_iff (config : StorageConfig)
    (accepted : config.validate env = .ok ()) (directory : List String) :
    (config.backends.Pairwise fun first second =>
      RootsApart directory first second ∧ KeysApart first second) ↔
    config.backends.Pairwise fun first second =>
      (¬ Comparable first second → RootsApart directory first second) ∧ KeysApart first second := by
  obtain ⟨_, _, accepted⟩ := (bind_eq_ok_iff _ _ _).mp accepted
  obtain ⟨_, _, accepted⟩ := (bind_eq_ok_iff _ _ _).mp accepted
  obtain ⟨_, _, accepted⟩ := (bind_eq_ok_iff _ _ _).mp accepted
  have unnested : config.backends.Pairwise fun first second =>
      Unnested (components first.root) (components second.root) := by
    have same : config.backends.map (components ·.root) = (("storage.root", config.root) ::
        config.subpaths.map fun entry => ("storage.subpaths." ++ entry.1 ++ ".root",
          entry.2.root)).map (components ·.2) := by
      simp [StorageConfig.backends]
    have named := List.pairwise_map.mpr (unnested_of_disjointRoots accepted)
    exact List.pairwise_map.mp (same ▸ named)
  constructor
  · exact List.Pairwise.imp fun apart => ⟨fun _ => apart.1, apart.2⟩
  intro apart
  refine (apart.and unnested).imp fun {first second} both => ⟨?_, both.1.2⟩
  by_cases comparable : Comparable first second
  · exact rootsApart_of_comparable comparable both.2
  · exact both.1.1 comparable

/-- Blobs of the repositories under `team` are kept apart from the others. -/
def teamConfig (root teamRoot : String) : StorageConfig where
  root := root
  subpaths := [("team", { root := teamRoot })]

def nothingInternal : Surroundings := ⟨fun _ => false, fun _ => false⟩

theorem team_backends_apart :
    (teamConfig "/srv/roci" "/srv/team").backends.Pairwise fun first second =>
      RootsApart ["home"] first second ∧ KeysApart first second := by
  refine (accepted_backends_apart_iff nothingInternal _ (by decide +kernel) ["home"]).mpr ?_
  refine .cons (fun second member => ?_) (List.pairwise_singleton _ _)
  cases List.mem_singleton.mp member
  exact ⟨fun incomparable => absurd (by decide +kernel) incomparable, nofun⟩

/-- One bucket for both, with the keys of the second below the prefix of the first. -/
def bucketConfig : StorageConfig where
  s3 := some { bucket := "blobs", keyPrefix := "roci" }
  subpaths := [("team",
    { root := "/srv/team", s3 := some { bucket := "blobs", keyPrefix := "roci/team" } })]

/-- A leading dot hides that two roots are the same, and nested prefixes go
unnoticed. -/
theorem accepted_backends_shared :
    ((teamConfig "data" "./data").validate nothingInternal = .ok () ∧
      resolve ["home"] "data" = resolve ["home"] "./data") ∧
    bucketConfig.validate nothingInternal = .ok () ∧
      ¬ bucketConfig.backends.Pairwise KeysApart := by
  refine ⟨by decide +kernel, by decide +kernel, fun apart => ?_⟩
  have keys := List.rel_of_pairwise_cons apart (.head _)
  exact (keys _ rfl _ rfl rfl rfl).1 (by decide)

end Roci.Config
