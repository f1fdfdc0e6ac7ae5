import Roci.Manifests.Calls

/-!
# The manifest push handler

The handler bounds the body, refuses deep nesting, computes the digest, checks
the media type and the referenced blobs, and hands the manifest with its links
to the store.  The store records it with one metadata operation, which depends
on the request alone.
-/

namespace Roci.Manifests

open Roci.Library Roci.Metadata Roci.Storage Roci.Core
open Program (meets_act meets_bind)

structure Limits where
  maxBody : Nat
  maxManifest : Nat

/-- `read_body_limited` under the smaller of the two caps. -/
def readBody (limits : Limits) (body : Bytes) : Except ApiError Bytes :=
  if body.length ≤ min limits.maxBody limits.maxManifest then .ok body
  else if limits.maxBody ≤ limits.maxManifest then
    .error (.payloadTooLarge "request body too large")
  else .error (.manifestInvalid "manifest exceeds manifest size cap")

def maxJsonDepth : Nat := 32

structure DepthScan where
  depth : Nat := 0
  inString : Bool := false
  escaped : Bool := false

def DepthScan.next (scan : DepthScan) (byte : UInt8) : DepthScan :=
  if scan.inString then
    if scan.escaped then { scan with escaped := false }
    else if byte = 92 then { scan with escaped := true }
    else if byte = 34 then { scan with inString := false }
    else scan
  else if byte = 34 then { scan with inString := true }
  else if byte = 123 || byte = 91 then { scan with depth := scan.depth + 1 }
  else if byte = 125 || byte = 93 then { scan with depth := scan.depth - 1 }
  else scan

def jsonDepthExceeds (limit : Nat) : DepthScan → Bytes → Bool
  | _, [] => false
  | scan, byte :: rest =>
    decide (limit < (scan.next byte).depth) || jsonDepthExceeds limit (scan.next byte) rest

def isDigestRef (reference : String) : Bool := reference.toList.any (· = ':')

variable (env : Env)

/-- The digest of the body, checked against a reference that is a digest; any
other reference is a tag. -/
def contentDigest (reference : String) (body : Bytes) : Except ApiError (Digest × Option String) :=
  if isDigestRef reference then
    match Digest.parse reference with
    | .error error => .error (.storage error)
    | .ok expected =>
      if env.digestOf body expected.algorithm = expected then
        .ok (env.digestOf body expected.algorithm, none)
      else .error (.digestInvalid "manifest digest does not match reference")
  else .ok (env.digestOf body "sha256", some reference)

def isWhitespace (character : Char) : Bool :=
  let code := character.toNat
  (9 ≤ code && code ≤ 13) || code = 32 || code = 0x85 || code = 0xa0 || code = 0x1680 ||
    (0x2000 ≤ code && code ≤ 0x200a) || code = 0x2028 || code = 0x2029 || code = 0x202f ||
    code = 0x205f || code = 0x3000

/-- A media type without its parameters. -/
def bare (text : String) : List Char :=
  (((text.toList.takeWhile (· ≠ ';')).dropWhile isWhitespace).reverse.dropWhile
    isWhitespace).reverse

def checkMediaType (contentType : String) (manifest : Json) : Except ApiError Unit :=
  match manifest.get? "mediaType" with
  | none => .ok ()
  | some mediaType =>
    match mediaType.asStr with
    | none => .error (.manifestInvalid "manifest mediaType is not a string")
    | some bodyType =>
      if bare contentType = bare bodyType then .ok ()
      else .error (.manifestInvalid "Content-Type does not match manifest mediaType")

def checkPresent (blobExists : Digest → Except StorageError Bool) :
    List Digest → Except ApiError Unit
  | [] => .ok ()
  | digest :: rest =>
    match blobExists digest with
    | .error error => .error (.storage error)
    | .ok false => .error (.manifestBlobUnknown
        ("referenced blob " ++ digest.asString ++ " is not present"))
    | .ok true => checkPresent blobExists rest

structure Push where
  tag : Option String
  digest : Digest
  mediaType : String
  body : Bytes
  links : ManifestLinks

/-- The handler of a manifest push, up to the call of the store. -/
def put (limits : Limits) (blobExists : Digest → Except StorageError Bool)
    (reference mediaType : String) (request : Bytes) : Except ApiError Push := do
  let body ← readBody limits request
  if jsonDepthExceeds maxJsonDepth {} body then
    .error (.manifestInvalid "manifest JSON nesting too deep")
  else
    let (digest, tag) ← contentDigest env reference body
    checkMediaType mediaType (parsedBody env.reader body)
    let links ← manifestLinks env.reader mediaType digest body
    checkPresent blobExists links.required
    pure ⟨tag, digest, mediaType, body, links⟩

/-- The operation the store records for a push it does not refuse. -/
def recordedOp (repo : String) (push : Push) : Except StorageError MetaOp := do
  checkTag push.tag
  let referrer ← referrerEntry env push.links
  if env.digestOf push.body push.digest.algorithm = push.digest then
    pure (.putManifest repo push.digest.asString push.mediaType push.tag
      (push.links.references.map Digest.asString) referrer)
  else
    .error (.digestMismatch push.digest.asString
      (env.digestOf push.body push.digest.algorithm).asString)

def pushedOp (limits : Limits) (blobExists : Digest → Except StorageError Bool)
    (repository : RepositoryName) (reference mediaType : String) (request : Bytes) :
    Except ApiError MetaOp := do
  let push ← put env limits blobExists reference mediaType request
  (recordedOp env repository.name push).mapError ApiError.storage

/-! ## The store records that operation and no other -/

theorem recordedOp_of_checks {env : Env} {repo : String} {push : Push}
    {referrer : Option (String × Bytes)} (tagged : checkTag push.tag = .ok ())
    (listed : referrerEntry env push.links = .ok referrer)
    (matched : env.digestOf push.body push.digest.algorithm = push.digest) :
    recordedOp env repo push = .ok (.putManifest repo push.digest.asString push.mediaType push.tag
      (push.links.references.map Digest.asString) referrer) := by
  simp only [recordedOp, tagged, listed, bind, Except.bind]
  rw [if_pos matched]
  rfl

end Roci.Manifests
