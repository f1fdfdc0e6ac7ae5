import Roci.Handlers.Routes

/-!
# Authorization precedes storage

The check in front of the handlers and the table of handlers are written apart.
Together they call the store on a repository only after the principal was allowed
what the request does there, whatever the store and the policies answer.
-/

namespace Roci.Handlers

open Roci.Core Roci.Library Roci.Storage Roci.Manifests
open Program (performs_pure)

/-- `Auth::allows` said yes. -/
structure Permission where
  principal : Principal
  repo : String
  action : Action

def observe (granted : List Permission) :
    (action : HandlerAction) → HandlerAnswer action → List Permission
  | .policy principal repo action, policy =>
    if principal.allowedUnder policy repo action then ⟨principal, repo, action⟩ :: granted
    else granted
  | .storage _, _ => granted

/-- The repository a call of the store is on; a mount is on its target. -/
def StorageCall.repo : StorageCall → RepositoryName
  | .blobSize repo _ => repo
  | .blobExists repo _ => repo
  | .openBlob repo _ => repo
  | .beginUpload repo => repo
  | .appendUpload repo _ _ _ _ => repo
  | .uploadSize repo _ => repo
  | .abortUpload repo _ => repo
  | .mountBlob _ target _ => target
  | .finishUpload repo _ _ _ _ _ => repo
  | .deleteBlob repo _ => repo
  | .putManifest repo _ => repo
  | .getManifest repo _ => repo
  | .deleteManifest repo _ => repo
  | .listTags repo _ _ => repo
  | .listReferrers repo _ _ _ _ => repo

def StorageCall.source : StorageCall → Option RepositoryName
  | .mountBlob source _ _ => some source
  | _ => none

/-- What a call does with its repository: a blob is looked up while a manifest is
put, and a manifest is read either for itself or for the tag it is deleted by. -/
def StorageCall.action (method : Method) : StorageCall → Action
  | .blobSize _ _ => .pull
  | .openBlob _ _ => .pull
  | .getManifest _ _ => if method = .delete then .delete else .pull
  | .listTags _ _ _ => .pull
  | .listReferrers _ _ _ _ _ => .pull
  | .deleteBlob _ _ => .delete
  | .deleteManifest _ _ => .delete
  | _ => .push

/-- What the principal of a request is asked for in front of the handlers. -/
def HttpRequest.asked (request : HttpRequest) : Option (RepositoryName × Action) :=
  (parsePath request.rest).toOption.bind (requiredAction request.method)

/-- A call of the store is on the repository the principal was asked for, after
they were allowed what the call does there; a source may be pulled from. -/
structure Permitted (request : HttpRequest) (granted : List Permission) (call : StorageCall) :
    Prop where
  asked : request.asked = some (call.repo, call.action request.method)
  target : ⟨request.principal, call.repo.name, call.action request.method⟩ ∈ granted
  source : ∀ source ∈ call.source, ⟨request.principal, source.name, .pull⟩ ∈ granted

/-- Whatever the answers, the store is called with permission only. -/
def authorization (request : HttpRequest) :
    Discipline HandlerAction HandlerAnswer (List Permission) where
  allowed granted action := ∀ call, action = .storage call → Permitted request granted call
  expected _ _ _ := True

/-! ## Handlers -/

def Serves (method : Method) (repo : RepositoryName) (action : Action) : HandlerAction → Prop
  | .policy _ _ _ => False
  | .storage call => call.repo = repo ∧ call.action method = action ∧ call.source = none

section

variable {config : Config} {env : Env} {method : Method} {repo : RepositoryName}

theorem serves_blobsGet (digest : Digest) (head : Bool) (ifNoneMatch : Option String) :
    (blobsGet repo digest head ifNoneMatch).Performs (Serves method repo .pull) := by
  unfold blobsGet
  split
  · exact performs_pure
  split
  · refine .act_bind ⟨rfl, rfl, rfl⟩ fun answer => ?_
    cases answer <;> exact performs_pure
  refine .act_bind ⟨rfl, rfl, rfl⟩ fun answer => ?_
  cases answer <;> exact performs_pure

theorem serves_blobsDelete (digest : Digest) :
    (blobsDelete config repo digest).Performs (Serves method repo .delete) := by
  unfold blobsDelete
  split
  · exact performs_pure
  refine .act_bind ⟨rfl, rfl, rfl⟩ fun answer => ?_
  cases answer <;> exact performs_pure

theorem serves_manifestsGet (reading : method ≠ .delete) (reference : String) (head : Bool)
    (ifNoneMatch : Option String) :
    (manifestsGet repo reference head ifNoneMatch).Performs (Serves method repo .pull) := by
  refine .act_bind ⟨rfl, if_neg reading, rfl⟩ fun answer => ?_
  cases answer with
  | error error => exact performs_pure
  | ok found => dsimp only; split <;> exact performs_pure

theorem serves_checkReferenced (digests : List Digest) :
    (checkReferenced repo digests).Performs (Serves method repo .push) := by
  induction digests with
  | nil => exact performs_pure
  | cons digest rest ih =>
    refine .act_bind ⟨rfl, rfl, rfl⟩ fun answer => ?_
    rcases answer with error | _ | _
    · exact performs_pure
    · exact performs_pure
    · exact ih

theorem serves_manifestsPut (reference : String) (contentType : Option String) (body : BodyStream) :
    (manifestsPut config env repo reference contentType body).Performs
      (Serves method repo .push) := by
  unfold manifestsPut
  split
  · exact performs_pure
  refine (serves_checkReferenced _).bind fun checked => ?_
  cases checked with
  | error refusal => exact performs_pure
  | ok done =>
    refine .act_bind ⟨rfl, rfl, rfl⟩ fun answer => ?_
    cases answer <;> exact performs_pure

theorem serves_manifestsDelete (reference : String) :
    (manifestsDelete config repo reference).Performs (Serves .delete repo .delete) := by
  have resolves : (resolveForDelete repo reference).Performs (Serves .delete repo .delete) := by
    unfold resolveForDelete
    split
    · exact performs_pure
    · exact .act_bind ⟨rfl, rfl, rfl⟩ fun _ => performs_pure
  unfold manifestsDelete
  split
  · exact performs_pure
  refine resolves.bind fun resolved => ?_
  cases resolved with
  | error refusal => exact performs_pure
  | ok digest =>
    refine .act_bind ⟨rfl, rfl, rfl⟩ fun answer => ?_
    cases answer <;> exact performs_pure

theorem serves_tagsHandler (query : TagsQuery) :
    (tagsHandler config repo query).Performs (Serves method repo .pull) := by
  refine .act_bind ⟨rfl, rfl, rfl⟩ fun answer => ?_
  cases answer <;> exact performs_pure

theorem serves_referrersHandler (subject : Digest) (query : ReferrersQuery) :
    (referrersHandler config repo subject query).Performs (Serves method repo .pull) :=
  .act_bind ⟨rfl, rfl, rfl⟩ fun _ => performs_pure

theorem serves_uploadsStatus (id : String) :
    (uploadsStatus repo id).Performs (Serves method repo .push) := by
  refine .act_bind ⟨rfl, rfl, rfl⟩ fun answer => ?_
  cases answer <;> exact performs_pure

theorem serves_uploadMonolithic (digest : Digest) (body : BodyStream) :
    (uploadMonolithic config repo digest body).Performs (Serves method repo .push) := by
  refine .act_bind ⟨rfl, rfl, rfl⟩ fun begun => ?_
  rcases begun with error | id
  · exact performs_pure
  refine .act_bind ⟨rfl, rfl, rfl⟩ fun appended => ?_
  rcases appended with error | total
  · exact .act_bind ⟨rfl, rfl, rfl⟩ fun _ => performs_pure
  refine .act_bind ⟨rfl, rfl, rfl⟩ fun stored => ?_
  rcases stored with error | done
  · exact .act_bind ⟨rfl, rfl, rfl⟩ fun _ => performs_pure
  · exact performs_pure

theorem serves_uploadsPatch (id : String) (contentRange : Option String) (body : BodyStream) :
    (uploadsPatch config repo id contentRange body).Performs (Serves method repo .push) := by
  refine .act_bind ⟨rfl, rfl, rfl⟩ fun answer => ?_
  rcases answer with error | total
  · cases error <;> exact performs_pure
  dsimp only
  split
  · exact .act_bind ⟨rfl, rfl, rfl⟩ fun _ => performs_pure
  · exact performs_pure

theorem serves_uploadsFinish (id : String) (query : UploadQuery) (body : BodyStream) :
    (uploadsFinish config repo id query body).Performs (Serves method repo .push) := by
  unfold uploadsFinish
  split
  · exact performs_pure
  split
  · exact performs_pure
  refine .act_bind ⟨rfl, rfl, rfl⟩ fun answer => ?_
  cases answer <;> exact performs_pure

/-! ## The mount -/

section

variable {request : HttpRequest} {granted : List Permission} {action : Action}

theorem meets_of_serves {program : Handler Response}
    (serves : program.Performs (Serves request.method repo action))
    (asked : request.asked = some (repo, action))
    (allowed : ⟨request.principal, repo.name, action⟩ ∈ granted) :
    program.Meets observe (authorization request) granted fun _ _ => True := by
  have met : program.Meets observe (authorization request) granted fun _ reached =>
      ⟨request.principal, repo.name, action⟩ ∈ reached := by
    refine serves.meets_keeping (fun granted action serves allowed => ?_) allowed
    cases action with
    | policy principal repo action => exact serves.elim
    | storage call =>
      obtain ⟨rfl, rfl, unsourced⟩ := serves
      refine ⟨?_, fun _ => allowed⟩
      rintro _ ⟨⟩
      exact ⟨asked, allowed, by simp [unsourced]⟩
  exact met.weaken fun _ _ _ => trivial

theorem meets_allows {principal : Principal} {name : String} {action : Action} :
    (allows principal name action).Meets observe (authorization request) granted
      fun answer reached => (∀ permission ∈ granted, permission ∈ reached) ∧
        (answer = true → ⟨principal, name, action⟩ ∈ reached) := by
  refine ⟨nofun, fun policy _ => ?_⟩
  by_cases allowed : principal.allowedUnder policy name action = true
  · rw [observe, if_pos allowed]
    exact ⟨fun permission => List.mem_cons_of_mem _, fun _ => List.mem_cons_self⟩
  rw [observe, if_neg allowed]
  exact ⟨fun permission => id, fun answer => absurd answer allowed⟩

/-- A mount is tried only from a source that may be pulled from. -/
theorem meets_tryMount (auth : Auth) (query : UploadQuery)
    (asked : request.asked = some (repo, .push))
    (allowed : ⟨request.principal, repo.name, .push⟩ ∈ granted) :
    (tryMount (some auth) request.principal repo query).Meets observe (authorization request)
      granted fun _ reached => ⟨request.principal, repo.name, .push⟩ ∈ reached := by
  unfold tryMount
  split
  · split
    · exact allowed
    refine meets_allows.bind fun readable reached noted => ?_
    have kept := noted.1 _ allowed
    dsimp only
    split
    · refine .act ?_ fun mounted _ => kept
      rintro _ ⟨⟩
      refine ⟨asked, kept, ?_⟩
      rintro _ ⟨⟩
      exact noted.2 rfl
    · exact kept
  · exact allowed

theorem meets_uploadsStart (auth : Auth) (query : UploadQuery) (body : BodyStream)
    (asked : request.asked = some (repo, .push))
    (allowed : ⟨request.principal, repo.name, .push⟩ ∈ granted) :
    (uploadsStart config (some auth) request.principal repo query body).Meets observe
      (authorization request) granted fun _ _ => True := by
  refine (meets_tryMount auth query asked allowed).bind fun mounted reached allowed => ?_
  cases mounted with
  | some digest => trivial
  | none =>
    refine meets_of_serves ?_ asked allowed
    dsimp only
    split
    · split
      · exact performs_pure
      · exact serves_uploadMonolithic _ body
    refine .act_bind ⟨rfl, rfl, rfl⟩ fun begun => ?_
    cases begun <;> exact performs_pure

/-! ## Requests -/

theorem route_of_requiredAction_none {auth : Option Auth} {parsed : Parsed}
    (unasked : requiredAction request.method parsed = none) :
    route config env auth request parsed = pure (.error route.nameUnknown) := by
  unfold route
  cases parsed <;> cases method : request.method <;>
    first | rfl | (rw [method] at unasked; cases unasked)

theorem meets_route {auth : Auth} {parsed : Parsed}
    (asks : requiredAction request.method parsed = some (repo, action))
    (asked : request.asked = some (repo, action))
    (allowed : ⟨request.principal, repo.name, action⟩ ∈ granted) :
    (route config env (some auth) request parsed).Meets observe (authorization request) granted
      fun _ _ => True := by
  have serve : ∀ {program : Handler Response},
      program.Performs (Serves request.method repo action) →
      program.Meets observe (authorization request) granted fun _ _ => True :=
    fun serves => meets_of_serves serves asked allowed
  cases method : request.method <;> cases parsed <;> rw [method] at asks <;> cases asks <;>
    simp only [route, method]
  · exact serve (serves_blobsGet _ _ _)
  · exact serve (serves_manifestsGet (by rw [method]; nofun) _ _ _)
  · exact serve (serves_uploadsStatus _)
  · exact serve (serves_tagsHandler _)
  · exact serve (serves_referrersHandler _ _)
  · exact serve (serves_blobsGet _ _ _)
  · exact serve (serves_manifestsGet (by rw [method]; nofun) _ _ _)
  · exact meets_uploadsStart auth _ _ asked allowed
  · exact serve (serves_manifestsPut _ _ _)
  · exact serve (serves_uploadsFinish _ _ _)
  · exact serve (serves_uploadsPatch _ _ _)
  · exact serve (serves_blobsDelete _)
  · exact serve (method ▸ serves_manifestsDelete _)

/-- Every call of the store is made on the repository the principal was asked for,
after `allows` said yes to what the request does there, and a mount besides after
`allows` said yes to pulling from its source.  A request that is asked for nothing
makes no call. -/
theorem storage_called_with_permission (config : Config) (env : Env) (auth : Auth)
    (request : HttpRequest) :
    (dispatch config env (some auth) request).Meets observe (authorization request) []
      fun _ _ => True := by
  unfold dispatch
  rcases parsing : parsePath request.rest with error | parsed
  · trivial
  have asked : request.asked = requiredAction request.method parsed := by
    rw [HttpRequest.asked, parsing]
    rfl
  dsimp only
  unfold guardRequest
  cases asks : requiredAction request.method parsed with
  | none =>
    dsimp only
    rw [route_of_requiredAction_none asks]
    trivial
  | some need =>
    obtain ⟨repo, action⟩ := need
    refine (meets_allows.bind fun answer granted noted => ?_).bind
      fun answer granted (passed : ∀ done, answer = .ok done →
        ⟨request.principal, repo.name, action⟩ ∈ granted) => ?_
    · cases answer with
      | true => exact fun _ _ => noted.2 rfl
      | false => exact nofun
    · cases answer with
      | error refusal => trivial
      | ok done => exact meets_route asks (asked.trans asks) (passed done rfl)

end

end

/-! ## Reading for another purpose -/

def app : RepositoryName := ⟨"app", app_valid⟩

/-- A tag is deleted with a token that only allows deletions. -/
def deleteLatest : HttpRequest where
  method := .delete
  rest := "app/manifests/latest"
  principal := .token none [("app", .of .delete)]

/-- To delete by a tag the manifest is read from a repository that the principal
may not pull from, whatever the policy. -/
theorem deletion_reads_without_pull :
    (∀ policy, deleteLatest.principal.allowedUnder policy "app" .pull = false) ∧
      ∀ (env : Env) (auth : Auth), ∃ next,
        dispatch ⟨⟨10, 10⟩, 10, 10, true⟩ env (some auth) deleteLatest =
            .perform (.policy deleteLatest.principal "app" .delete) next ∧
          (next none).head? = some (.storage (.getManifest app "latest")) := by
  have parsed : parsePath deleteLatest.rest = .ok (.manifestRef app "latest") := by rfl
  have denied : grantsAllow [("app", .of .delete)] "app" .pull = false := by decide +kernel
  refine ⟨fun _ => denied, fun env auth => ?_⟩
  rw [dispatch, parsed]
  exact ⟨_, rfl, rfl⟩

end Roci.Handlers
