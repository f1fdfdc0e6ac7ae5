import Roci.Lmdb.Equivalence
import Roci.Lmdb.Export
import Roci.Metadata.Replay

/-!
# Copies of a store

A migration exports one engine, builds the other from the exported operations
and compares the two before it goes on.  A store built that way, from the
complete export, and found equal by the comparison is a verified copy.
-/

namespace Roci.Migration

open Roci.Library Roci.Metadata Roci.Lmdb

inductive MetadataEngine where
  | log
  | lmdb
deriving DecidableEq

inductive Store where
  | log (state : State)
  | lmdb (tables : Tables)

namespace Store

variable (order : IterOrder)

def resolveTag : Store → String → String → Option (String × String)
  | .log state => state.resolveTag
  | .lmdb tables => tables.resolveTag

def manifestMediaType : Store → String → String → Option String
  | .log state => state.manifestMediaType
  | .lmdb tables => tables.manifestMediaType

def tagsPage : Store → String → Option String → Nat → Option (Page String)
  | .log state => state.tagsPage
  | .lmdb tables => tables.tagsPage

def referrersPage : Store → String → String → Option String → Option String → Nat →
    Option (Page Referrer)
  | .log state => state.referrersPage
  | .lmdb tables => tables.referrersPage

def hasReferrer : Store → String → String → String → Bool
  | .log state => state.hasReferrer
  | .lmdb tables => tables.hasReferrer

def backrefs : Store → String → String → List String
  | .log state => state.backrefs
  | .lmdb tables => tables.backrefsOf

def checksum : Store → String → String → Option BlobChecksum
  | .log state => state.checksum
  | .lmdb tables => tables.checksum

def repos : Store → List String
  | .log state => state.repoNames
  | .lmdb tables => tables.repoNames

/-- The log engine lists manifests in the order of a hash map. -/
def manifests : Store → String → List String
  | .log state => fun repo =>
    (order.arrange repo (state.repo repo).mediaTypes.toList).map Prod.fst
  | .lmdb tables => tables.manifests

def tagsSnapshot : Store → String → List (String × String × String)
  | .log state => state.tagsSnapshot
  | .lmdb tables => tables.tagsSnapshot

def referrersSnapshot : Store → String → List (String × List Referrer)
  | .log state => referrersSnapshotIn order state
  | .lmdb tables => tables.referrersSnapshot

def exportOps : Store → List MetaOp
  | .log state => imageOps order state
  | .lmdb tables => tables.exportImpl

end Store

/-! ## The comparison -/

inductive VerifyError where
  | repos (source dest : List String)
  | manifests (repo : String)
  | tags (repo : String)
  | referrers (repo : String)
deriving DecidableEq

/-- Sort by the first part, and each list of referrers by digest. -/
def sortedReferrers (entries : List (String × List Referrer)) : List (String × List Referrer) :=
  (entries.insertionSort fun first second => first.1 ≤ second.1).map fun entry =>
    (entry.1, entry.2.insertionSort fun first second => first.1 ≤ second.1)

def verifyRepo (order : IterOrder) (source dest : Store) (repo : String) :
    Except VerifyError Unit :=
  if (source.manifests order repo).insertionSort (· ≤ ·) ≠
      (dest.manifests order repo).insertionSort (· ≤ ·) then .error (.manifests repo)
  else if source.tagsSnapshot repo ≠ dest.tagsSnapshot repo then .error (.tags repo)
  else if sortedReferrers (source.referrersSnapshot order repo) ≠
      sortedReferrers (dest.referrersSnapshot order repo) then .error (.referrers repo)
  else .ok ()

/-- The repositories in turn; the first that differs is the error. -/
def verifyRepos (order : IterOrder) (source dest : Store) : List String → Except VerifyError Unit
  | [] => .ok ()
  | repo :: rest =>
    match verifyRepo order source dest repo with
    | .error error => .error error
    | .ok () => verifyRepos order source dest rest

def verifyMigration (order : IterOrder) (source dest : Store) : Except VerifyError Unit :=
  if source.repos ≠ dest.repos then .error (.repos source.repos dest.repos)
  else verifyRepos order source dest source.repos

/-! ## Copies -/

def built (env : Metadata.Env) (key : Option HmacKey) (ops : List MetaOp) :
    MetadataEngine → Except HeedError Store
  | .log => .ok (.log (openInner env key (framedLog env key ops)).state)
  | .lmdb => (({} : Tables).bulkApply env.reader ops).map Store.lmdb

theorem built_lmdb_eq_ok {env : Metadata.Env} {key : Option HmacKey} {ops : List MetaOp}
    {store : Store} (whole : built env key ops .lmdb = .ok store) :
    ∃ tables, ({} : Tables).bulkApply env.reader ops = .ok tables ∧ store = .lmdb tables := by
  rw [built] at whole
  cases applied : ({} : Tables).bulkApply env.reader ops with
  | error error =>
    rw [applied] at whole
    cases whole
  | ok tables =>
    rw [applied] at whole
    exact ⟨tables, rfl, (Except.ok.inj whole).symm⟩

/-- `copy` was built from the complete export of `source` and compared equal. -/
def VerifiedCopy (env : Metadata.Env) (key : Option HmacKey) (source copy : Store) : Prop :=
  ∃ order engine, built env key (source.exportOps order) engine = .ok copy ∧
    verifyMigration order source copy = .ok ()

end Roci.Migration
