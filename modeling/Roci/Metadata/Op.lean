import Roci.Library.Bytes

/-!
# Metadata operations and pages

The mutations a metadata store records and replays, and the cursor pages its
listings return.
-/

namespace Roci.Metadata

open Roci.Library

universe u

inductive MetaOp where
  | putManifest (repo digest mediaType : String) (tag : Option String)
      (references : List String) (referrer : Option (String × Bytes))
  | putBackrefs (repo manifest : String) (blobs : List String)
  | deleteManifest (repo digest : String)
  | putReferrer (repo subject referrer : String) (descriptor : Bytes)
  | putChecksum (repo digest : String) (crc32c : UInt32) (size : UInt64)
  | deleteBlob (repo digest : String)
deriving DecidableEq

def MetaOp.repo : MetaOp → String
  | putManifest repo .. => repo
  | putBackrefs repo .. => repo
  | deleteManifest repo _ => repo
  | putReferrer repo .. => repo
  | putChecksum repo .. => repo
  | deleteBlob repo _ => repo

def MetaOp.descriptor : MetaOp → Option Bytes
  | putManifest _ _ _ _ _ referrer => referrer.map Prod.snd
  | putReferrer _ _ _ descriptor => some descriptor
  | _ => none

structure BlobChecksum where
  crc32c : UInt32
  size : UInt64
deriving DecidableEq

abbrev Referrer := String × Bytes

structure Page (Item : Type u) where
  items : List Item
  more : Bool
deriving DecidableEq

def takePage {Item : Type u} (items : List Item) (limit : Nat) : Page Item where
  items := items.take limit
  more := !(items.drop limit).isEmpty

/-- Keys strictly after the cursor; every key when there is none. -/
def after (last : Option String) (key : String) : Bool :=
  match last with
  | none => true
  | some cursor => decide (cursor < key)

end Roci.Metadata
