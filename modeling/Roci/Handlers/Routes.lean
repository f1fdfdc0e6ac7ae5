import Roci.Handlers.Access
import Roci.Manifests.Push

/-!
# Requests and their handlers

A request is parsed from its path, checked against what the principal may do, and
handed to the handler for its method and path.  A handler is a program whose
actions are the calls of the store and the readings of the access policy in force.
What a response looks like on the wire is left out: no call of the store depends
on it.
-/

namespace Roci.Handlers

open Roci.Core Roci.Library Roci.Storage Roci.Manifests

inductive Method where
  | get
  | head
  | post
  | put
  | patch
  | delete
  | other (name : String)
deriving DecidableEq

/-! ## Paths -/

inductive Parsed where
  | blob (repo : RepositoryName) (digest : Digest)
  | manifestRef (repo : RepositoryName) (reference : String)
  | uploadStart (repo : RepositoryName)
  | uploadSession (repo : RepositoryName) (id : String)
  | tagsList (repo : RepositoryName)
  | referrers (repo : RepositoryName) (digest : Digest)
  | unknown

def segments (rest : String) : List String := (splitAll '/' rest.toList).map String.ofList

/-- The repository named by the segments before a verb, which come last first. -/
def checkedRepo (before : List String) : Except ApiError RepositoryName :=
  RepositoryName.parse (String.ofList (['/'].intercalate (before.reverse.map String.toList)))

def checkedDigest (text : String) : Except ApiError Digest :=
  (Digest.parse text).mapError ApiError.storage

def parsePath (rest : String) : Except ApiError Parsed :=
  match (segments rest).reverse with
  | id :: "uploads" :: "blobs" :: before =>
    (checkedRepo before).map fun repo =>
      if id.isEmpty then .uploadStart repo else .uploadSession repo id
  | "uploads" :: "blobs" :: before => (checkedRepo before).map .uploadStart
  | last :: "blobs" :: before =>
    checkedRepo before >>= fun repo => (checkedDigest last).map (.blob repo)
  | last :: "manifests" :: before => (checkedRepo before).map fun repo => .manifestRef repo last
  | "list" :: "tags" :: before => (checkedRepo before).map .tagsList
  | last :: "referrers" :: before =>
    checkedRepo before >>= fun repo => (checkedDigest last).map (.referrers repo)
  | _ => .ok .unknown

def requiredAction : Method → Parsed → Option (RepositoryName × Action)
  | .get, .blob repo _ => some (repo, .pull)
  | .head, .blob repo _ => some (repo, .pull)
  | .get, .manifestRef repo _ => some (repo, .pull)
  | .head, .manifestRef repo _ => some (repo, .pull)
  | .get, .tagsList repo => some (repo, .pull)
  | .get, .referrers repo _ => some (repo, .pull)
  | .post, .uploadStart repo => some (repo, .push)
  | .get, .uploadSession repo _ => some (repo, .push)
  | .patch, .uploadSession repo _ => some (repo, .push)
  | .put, .uploadSession repo _ => some (repo, .push)
  | .put, .manifestRef repo _ => some (repo, .push)
  | .delete, .blob repo _ => some (repo, .delete)
  | .delete, .manifestRef repo _ => some (repo, .delete)
  | _, _ => none

/-! ## Requests -/

abbrev BodyStream := List (Except StorageError Bytes)

structure UploadQuery where
  digest : Option String := none
  mount : Option String := none
  source : Option String := none

structure TagsQuery where
  n : Option Nat := none
  last : Option String := none

structure ReferrersQuery where
  artifactType : Option String := none
  n : Option Nat := none
  last : Option String := none

/-- A request behind `/v2/`: the query is what each of the three readers makes of
it, and a body that cannot be read is `none`. -/
structure HttpRequest where
  method : Method
  rest : String
  principal : Principal
  uploadQuery : UploadQuery := {}
  tagsQuery : TagsQuery := {}
  referrersQuery : ReferrersQuery := {}
  contentType : Option String := none
  contentRange : Option String := none
  ifNoneMatch : Option String := none
  body : BodyStream := []

structure Config extends Limits where
  maxUpload : Nat
  maxPage : Nat
  deleteEnabled : Bool

/-! ## Calls of the store -/

structure ManifestFound where
  digest : Digest
  mediaType : String
  bytes : Bytes

structure Page (Item : Type) where
  items : List Item
  more : Bool

inductive StorageCall where
  | blobSize (repo : RepositoryName) (digest : Digest)
  | blobExists (repo : RepositoryName) (digest : Digest)
  | openBlob (repo : RepositoryName) (digest : Digest)
  | beginUpload (repo : RepositoryName)
  | appendUpload (repo : RepositoryName) (id : String) (body : BodyStream)
      (expectedOffset : Option Nat) (limit : Nat)
  | uploadSize (repo : RepositoryName) (id : String)
  | abortUpload (repo : RepositoryName) (id : String)
  | mountBlob (source target : RepositoryName) (digest : Digest)
  | finishUpload (repo : RepositoryName) (id : String) (expected : Digest) (maxSize : Nat)
      (trailing : BodyStream) (limit : Nat)
  | deleteBlob (repo : RepositoryName) (digest : Digest)
  | putManifest (repo : RepositoryName) (push : Push)
  | getManifest (repo : RepositoryName) (reference : String)
  | deleteManifest (repo : RepositoryName) (digest : Digest)
  | listTags (repo : RepositoryName) (last : Option String) (limit : Nat)
  | listReferrers (repo : RepositoryName) (subject : Digest) (artifactType last : Option String)
      (limit : Nat)

abbrev StorageAnswer : StorageCall → Type
  | .blobSize _ _ => Nat
  | .blobExists _ _ => Bool
  | .openBlob _ _ => Nat
  | .beginUpload _ => String
  | .appendUpload _ _ _ _ _ => Nat
  | .uploadSize _ _ => Nat
  | .abortUpload _ _ => Bool
  | .mountBlob _ _ _ => Bool
  | .finishUpload _ _ _ _ _ _ => Unit
  | .deleteBlob _ _ => Unit
  | .putManifest _ _ => Unit
  | .getManifest _ _ => ManifestFound
  | .deleteManifest _ _ => Unit
  | .listTags _ _ _ => Page String
  | .listReferrers _ _ _ _ _ => Page (String × Bytes)

/-- A handler calls the store, and reads the policy in force to decide whether a
principal may perform an action on a repository. -/
inductive HandlerAction where
  | policy (principal : Principal) (repo : String) (action : Action)
  | storage (call : StorageCall)

abbrev HandlerAnswer : HandlerAction → Type
  | .policy _ _ _ => Option AccessPolicy
  | .storage call => Except StorageError (StorageAnswer call)

abbrev Handler (Result : Type) := Program HandlerAction HandlerAnswer Result

abbrev storage (call : StorageCall) : Handler (Except StorageError (StorageAnswer call)) :=
  Program.act (HandlerAction.storage call)

/-! ## Responses -/

inductive Refusal where
  | api (error : ApiError)
  | nameUnknown (message : String)
  | blobUnknown (message : String)
  | manifestUnknown (message : String)
  | unsupported (message : String)
  | denied (message : String)
  | unauthenticated (message : String) (challenge : Option String)

inductive HttpResponse where
  | notModified (digest : String)
  | blobHead (digest : Digest) (size : Nat)
  | blobBody (digest : Digest) (size : Nat)
  | manifest (found : ManifestFound) (head : Bool)
  | tags (repo : RepositoryName) (page : Page String) (limit : Nat)
  | referrers (repo : RepositoryName) (subject : Digest) (filter : Option String)
      (page : Page (String × Bytes)) (limit : Nat)
  | uploadProgress (status : Nat) (repo : RepositoryName) (id : String) (received : Nat)
  | rangeNotSatisfiable (repo : RepositoryName) (id : String) (received : Nat)
  | blobCreated (repo : RepositoryName) (digest : Digest)
  | manifestCreated (repo : RepositoryName) (digest : Digest) (subject : Option Digest)
  | accepted

abbrev Response := Except Refusal HttpResponse

def refuse {Result : Type} (error : StorageError) : Except Refusal Result :=
  .error (.api (.storage error))

/-- `NotFound` becomes the refusal given. -/
def notFoundAs (unknown : Refusal) : StorageError → Refusal
  | .notFound => unknown
  | other => .api (.storage other)

def blobUnknown : Refusal := .blobUnknown "blob unknown to registry"

def manifestUnknown : Refusal := .manifestUnknown "manifest unknown to registry"

/-! ## Header values -/

def trimChars (text : List Char) : List Char :=
  ((text.dropWhile isWhitespace).reverse.dropWhile isWhitespace).reverse

/-- `str::parse::<u64>`. -/
def parseU64 (text : List Char) : Option Nat :=
  let digits := if text.head? = some '+' then text.drop 1 else text
  if digits.isEmpty || !digits.all Char.isDigit then none
  else
    let value := digits.foldl (fun value digit => 10 * value + (digit.toNat - 48)) 0
    if value < 2 ^ 64 then some value else none

def rangeStart (contentRange : Option String) : Option Nat :=
  contentRange.bind fun value => parseU64 (trimChars (value.toList.takeWhile (· ≠ '-')))

def tagMatches (digest : String) (tag : List Char) : Bool :=
  let tag := trimChars tag
  tag = ['*'] ||
    let strong := if ['W', '/'].isPrefixOf tag then tag.drop 2 else tag
    ((strong.dropWhile (· = '"')).reverse.dropWhile (· = '"')).reverse = digest.toList

def ifNoneMatchHit (ifNoneMatch : Option String) (digest : String) : Bool :=
  ifNoneMatch.any fun value => (splitAll ',' value.toList).any (tagMatches digest)

/-! ## Authorization -/

/-- `Auth::allows`; a token is judged without the policy. -/
def allows (principal : Principal) (repo : String) (action : Action) : Handler Bool := do
  let policy ← Program.act (HandlerAction.policy principal repo action)
  pure (principal.allowedUnder policy repo action)

def refusalOf (auth : Auth) (principal : Principal) (repo : String) (action : Action) : Refusal :=
  match principal with
  | .token _ _ =>
    .unauthenticated "insufficient scope" (auth.challenge (some (repo, action)) true)
  | .user _ _ _ => .denied "access denied"
  | .anonymous =>
    if auth.hasHeaderMechanism then
      .unauthenticated "authentication required" (auth.challenge (some (repo, action)) false)
    else
      .denied (if auth.mtls then "authentication required: present a trusted client certificate"
        else "anonymous access denied by policy")

def authorize (auth : Auth) (principal : Principal) (repo : String) (action : Action) :
    Handler (Except Refusal Unit) := do
  if ← allows principal repo action then pure (.ok ())
  else pure (.error (refusalOf auth principal repo action))

/-! ## Handlers -/

section

variable (config : Config) (repo : RepositoryName) (digest : Digest)

def blobsGet (head : Bool) (ifNoneMatch : Option String) :
    Handler Response := do
  if ifNoneMatchHit ifNoneMatch digest.asString then
    pure (.ok (.notModified digest.asString))
  else if head then
    match ← storage (.blobSize repo digest) with
    | .error error => pure (.error (notFoundAs blobUnknown error))
    | .ok size => pure (.ok (.blobHead digest size))
  else
    match ← storage (.openBlob repo digest) with
    | .error error => pure (.error (notFoundAs blobUnknown error))
    | .ok size => pure (.ok (.blobBody digest size))

def unsupported : Refusal := .unsupported "the operation is unsupported"

def blobsDelete : Handler Response := do
  if !config.deleteEnabled then pure (.error unsupported)
  else
    match ← storage (.deleteBlob repo digest) with
    | .error error => pure (.error (notFoundAs blobUnknown error))
    | .ok () => pure (.ok .accepted)

variable (reference : String)

def manifestsGet (head : Bool) (ifNoneMatch : Option String) :
    Handler Response := do
  match ← storage (.getManifest repo reference) with
  | .error error => pure (.error (notFoundAs manifestUnknown error))
  | .ok found =>
    if ifNoneMatchHit ifNoneMatch found.digest.asString then
      pure (.ok (.notModified found.digest.asString))
    else pure (.ok (.manifest found head))

def checkReferenced (repo : RepositoryName) : List Digest → Handler (Except Refusal Unit)
  | [] => pure (.ok ())
  | digest :: rest => do
      match ← storage (.blobExists repo digest) with
      | .error error => pure (refuse error)
      | .ok false => pure (.error (.api (.manifestBlobUnknown
          ("referenced blob " ++ digest.asString ++ " is not present"))))
      | .ok true => checkReferenced repo rest

variable (env : Env)

/-- What a push is made of, before the store is asked about it. -/
def readPush (reference : String) (contentType : Option String) (body : BodyStream) :
    Except ApiError Push := do
  let mediaType := contentType.getD Layout.mediaTypeImageManifest
  let body ← match body.mapM Except.toOption with
    | some chunks => readBody config.toLimits chunks.flatten
    | none => .error (if config.maxBody ≤ config.maxManifest then
        .payloadTooLarge "request body too large"
        else .manifestInvalid "manifest exceeds manifest size cap")
  if jsonDepthExceeds maxJsonDepth {} body then
    .error (.manifestInvalid "manifest JSON nesting too deep")
  else
    let (digest, tag) ← contentDigest env reference body
    checkMediaType mediaType (parsedBody env.reader body)
    let links ← manifestLinks env.reader mediaType digest body
    pure ⟨tag, digest, mediaType, body, links⟩

def manifestsPut (repo : RepositoryName) (reference : String) (contentType : Option String)
    (body : BodyStream) : Handler Response := do
  match readPush config env reference contentType body with
  | .error error => pure (.error (.api error))
  | .ok push =>
    match ← checkReferenced repo push.links.required with
    | .error refusal => pure (.error refusal)
    | .ok () =>
      match ← storage (.putManifest repo push) with
      | .error error => pure (refuse error)
      | .ok () =>
        pure (.ok (.manifestCreated repo push.digest (push.links.subject.map Prod.fst)))

def resolveForDelete :
    Handler (Except Refusal Digest) := do
  if isDigestRef reference then
    pure ((Digest.parse reference).mapError fun error => .api (.storage error))
  else
    let found ← storage (.getManifest repo reference)
    pure ((found.map ManifestFound.digest).mapError (notFoundAs manifestUnknown))

def manifestsDelete : Handler Response := do
  if !config.deleteEnabled then pure (.error unsupported)
  else
    match ← resolveForDelete repo reference with
    | .error refusal => pure (.error refusal)
    | .ok digest =>
      match ← storage (.deleteManifest repo digest) with
      | .error error => pure (.error (notFoundAs manifestUnknown error))
      | .ok () => pure (.ok .accepted)

def pageLimit (n : Option Nat) (maxPage : Nat) : Nat := n.elim maxPage (min · maxPage)

def tagsHandler (query : TagsQuery) : Handler Response := do
  let limit := pageLimit query.n config.maxPage
  match ← storage (.listTags repo query.last limit) with
  | .error error => pure (refuse error)
  | .ok page => pure (.ok (.tags repo page limit))

/-- A failing listing is an empty one. -/
def referrersHandler (subject : Digest) (query : ReferrersQuery) :
    Handler Response := do
  let limit := pageLimit query.n config.maxPage
  let page ← storage (.listReferrers repo subject query.artifactType query.last limit)
  pure (.ok (.referrers repo subject query.artifactType (page.toOption.getD ⟨[], false⟩) limit))

def uploadsStatus (id : String) : Handler Response := do
  match ← storage (.uploadSize repo id) with
  | .error error => pure (refuse error)
  | .ok total => pure (.ok (.uploadProgress 204 repo id total))

variable (auth : Option Auth)

/-- A mount, when it is asked for, the source may be read and the digest is
well formed; whether the blob was mounted. -/
def tryMount (principal : Principal) (repo : RepositoryName) (query : UploadQuery) :
    Handler (Option Digest) :=
  match query.mount, query.source with
  | some mount, some source =>
    match RepositoryName.parse source with
    | .error _ => pure none
    | .ok source => do
        let readable ← if auth.isNone then pure true else allows principal source.name .pull
        match readable, Digest.parse mount with
        | true, .ok digest => do
            let mounted ← storage (.mountBlob source repo digest)
            pure (if mounted.toOption.getD false then some digest else none)
        | _, _ => pure none
  | _, _ => pure none

/-- A session is begun, filled and finished; when that fails it is aborted. -/
def uploadMonolithic (body : BodyStream) :
    Handler Response := do
  match ← storage (.beginUpload repo) with
  | .error error => pure (refuse error)
  | .ok id =>
    let appended ← storage (.appendUpload repo id body none (min config.maxBody config.maxUpload))
    let stored ← match appended with
      | .error error => pure (.error error)
      | .ok _ => storage (.finishUpload repo id digest config.maxUpload [] 0)
    match stored with
    | .error error =>
      let _ ← storage (.abortUpload repo id)
      pure (refuse error)
    | .ok () => pure (.ok (.blobCreated repo digest))

def uploadsStart (principal : Principal) (repo : RepositoryName) (query : UploadQuery)
    (body : BodyStream) : Handler Response := do
  match ← tryMount auth principal repo query with
  | some digest => pure (.ok (.blobCreated repo digest))
  | none =>
    match query.digest with
    | some text =>
      match Digest.parse text with
      | .error error => pure (refuse error)
      | .ok digest => uploadMonolithic config repo digest body
    | none =>
      match ← storage (.beginUpload repo) with
      | .error error => pure (refuse error)
      | .ok id => pure (.ok (.uploadProgress 202 repo id 0))

def uploadsPatch (id : String) (contentRange : Option String) (body : BodyStream) :
    Handler Response := do
  match ← storage (.appendUpload repo id body (rangeStart contentRange) config.maxBody) with
  | .error (.rangeNotSatisfiable expected _) => pure (.ok (.rangeNotSatisfiable repo id expected))
  | .error error => pure (refuse error)
  | .ok total =>
    if config.maxUpload < total then
      let _ ← storage (.abortUpload repo id)
      pure (.error (.api (.payloadTooLarge "upload exceeds maximum blob size")))
    else pure (.ok (.uploadProgress 202 repo id total))

def uploadsFinish (id : String) (query : UploadQuery) (body : BodyStream) :
    Handler Response := do
  match query.digest with
  | none => pure (.error (.api (.digestInvalid "missing digest on upload completion")))
  | some text =>
    match Digest.parse text with
    | .error error => pure (refuse error)
    | .ok digest =>
      match ← storage (.finishUpload repo id digest config.maxUpload body config.maxBody) with
      | .error error => pure (refuse error)
      | .ok () => pure (.ok (.blobCreated repo digest))

def route (auth : Option Auth) (request : HttpRequest) : Parsed → Handler Response
  | .blob repo digest =>
    match request.method with
    | .get => blobsGet repo digest false request.ifNoneMatch
    | .head => blobsGet repo digest true request.ifNoneMatch
    | .delete => blobsDelete config repo digest
    | _ => pure (.error nameUnknown)
  | .manifestRef repo reference =>
    match request.method with
    | .get => manifestsGet repo reference false request.ifNoneMatch
    | .head => manifestsGet repo reference true request.ifNoneMatch
    | .put => manifestsPut config env repo reference request.contentType request.body
    | .delete => manifestsDelete config repo reference
    | _ => pure (.error nameUnknown)
  | .uploadStart repo =>
    match request.method with
    | .post =>
      uploadsStart config auth request.principal repo request.uploadQuery request.body
    | _ => pure (.error nameUnknown)
  | .uploadSession repo id =>
    match request.method with
    | .get => uploadsStatus repo id
    | .put => uploadsFinish config repo id request.uploadQuery request.body
    | .patch => uploadsPatch config repo id request.contentRange request.body
    | _ => pure (.error nameUnknown)
  | .tagsList repo =>
    match request.method with
    | .get => tagsHandler config repo request.tagsQuery
    | _ => pure (.error nameUnknown)
  | .referrers repo digest =>
    match request.method with
    | .get => referrersHandler config repo digest request.referrersQuery
    | _ => pure (.error nameUnknown)
  | .unknown => pure (.error nameUnknown)
where
  nameUnknown : Refusal := .nameUnknown "repository name not known to registry"

def guardRequest (request : HttpRequest) (parsed : Parsed) : Handler (Except Refusal Unit) :=
  match auth, requiredAction request.method parsed with
  | some auth, some (repo, action) => authorize auth request.principal repo.name action
  | _, _ => pure (.ok ())

def dispatch (auth : Option Auth) (request : HttpRequest) : Handler Response :=
  match parsePath request.rest with
  | .error error => pure (.error (.api error))
  | .ok parsed => do
      match ← guardRequest auth request parsed with
      | .error refusal => pure (.error refusal)
      | .ok () => route config env auth request parsed

end

end Roci.Handlers
