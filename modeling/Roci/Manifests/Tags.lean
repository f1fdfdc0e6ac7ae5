import Roci.Manifests.Push

/-!
# Which tags are stored

The handler takes every reference without a colon for a tag and checks no grammar.
What refuses a tag is the store's check that it can be the name of a file.
-/

namespace Roci.Manifests

open Roci.Library Roci.Metadata Roci.Storage Roci.Core

/-- `[a-zA-Z0-9_]`. -/
def isTagStart (character : Char) : Bool := character.isAlphanum || character = '_'

/-- `[a-zA-Z0-9_][a-zA-Z0-9._-]{0,127}`. -/
def isTag (text : String) : Bool :=
  text.toList.head?.any isTagStart && text.toList.length ≤ 128 &&
    text.toList.all fun character => isTagStart character || character = '.' || character = '-'

variable {env : Env} {limits : Limits} {blobExists : Digest → Except StorageError Bool}
  {repository : RepositoryName} {reference mediaType : String} {request : Bytes}

theorem contentDigest_of_tag (tagged : isDigestRef reference = false) :
    contentDigest env reference request = .ok (env.digestOf request "sha256", some reference) := by
  rw [contentDigest, tagged, if_neg Bool.false_ne_true]

theorem tag_of_put {push : Push} (tagged : isDigestRef reference = false)
    (read : put env limits blobExists reference mediaType request = .ok push) :
    push.tag = some reference := by
  simp only [put, contentDigest_of_tag tagged, bind, Except.bind] at read
  split at read
  · cases read
  split at read
  · cases read
  split at read
  · cases read
  split at read
  · cases read
  split at read
  · cases read
  cases read
  rfl

theorem safe_of_pushedOp {op : MetaOp} (tagged : isDigestRef reference = false)
    (pushed : pushedOp env limits blobExists repository reference mediaType request = .ok op) :
    safeComponent reference = .ok reference := by
  unfold pushedOp at pushed
  rcases read : put env limits blobExists reference mediaType request with error | push
  · rw [read] at pushed; cases pushed
  rw [read] at pushed
  change (recordedOp env repository.name push).mapError ApiError.storage = .ok op at pushed
  rw [recordedOp, tag_of_put tagged read, checkTag] at pushed
  unfold safeComponent at pushed ⊢
  split at pushed
  · cases pushed
  rename_i safe
  rw [if_neg safe]

/-- A request that leaves nothing but the tag to object to. -/
theorem pushedOp_of_safe
    (hashes : ∀ body, (env.digestOf body "sha256").algorithm = "sha256")
    (tagged : isDigestRef reference = false) (safe : safeComponent reference = .ok reference) :
    ∃ op, pushedOp env ⟨2, 2⟩ (fun _ => .ok true) repository reference mediaType
      (Json.print (.object [])) = .ok op := by
  generalize printed : Json.print (.object []) = body
  have parsed : parsedBody env.reader body = .object [] := by
    rw [parsedBody, ← printed, env.reader.parse_print [] (List.forall_mem_nil _)]
    rfl
  have short : readBody ⟨2, 2⟩ body = .ok body := by
    rw [← printed]
    decide
  have shallow : jsonDepthExceeds maxJsonDepth {} body = false := by
    rw [← printed]
    decide
  have links : manifestLinks env.reader mediaType (env.digestOf body "sha256") body =
      .ok { references := [], required := [], subject := none } := by
    rw [manifestLinks, parsed]
    rfl
  have read : put env ⟨2, 2⟩ (fun _ => .ok true) reference mediaType body =
      .ok ⟨some reference, env.digestOf body "sha256", mediaType, body,
        { references := [], required := [], subject := none }⟩ := by
    simp only [put, short, shallow, contentDigest_of_tag tagged, parsed, links, bind, Except.bind]
    rfl
  have named : checkTag (some reference) = .ok () := by
    rw [checkTag, safe]
    rfl
  refine ⟨.putManifest repository.name (env.digestOf body "sha256").asString mediaType
    (some reference) [] none, ?_⟩
  unfold pushedOp
  rw [read]
  exact congrArg (Except.mapError ApiError.storage) (@recordedOp_of_checks env _
    ⟨some reference, env.digestOf body "sha256", mediaType, body,
      { references := [], required := [], subject := none }⟩ none named rfl (by rw [hashes]))

/-- Pushes to a reference without a colon store grammatical tags only, exactly if
the reference is one or cannot be the name of a file. -/
theorem stored_tag_grammatical_iff
    (hashes : ∀ body, (env.digestOf body "sha256").algorithm = "sha256")
    (repository : RepositoryName) (reference : String) (tagged : isDigestRef reference = false) :
    (∀ limits blobExists mediaType request op,
      pushedOp env limits blobExists repository reference mediaType request = .ok op →
        isTag reference = true) ↔
      (safeComponent reference = .ok reference → isTag reference = true) := by
  constructor
  · intro grammatical safe
    obtain ⟨op, pushed⟩ := @pushedOp_of_safe env repository reference "" hashes tagged safe
    exact grammatical _ _ _ _ op pushed
  · intro grammatical limits blobExists mediaType request op pushed
    exact grammatical (safe_of_pushedOp tagged pushed)

theorem latest_grammatical :
    isTag "latest" = true ∧ ∀ limits blobExists mediaType op,
      pushedOp objectBodies limits blobExists ⟨"app", by decide⟩ "latest" mediaType
        (Json.print (.object [])) = .ok op → isTag "latest" = true :=
  ⟨by decide, fun limits blobExists mediaType => (stored_tag_grammatical_iff (fun _ => rfl)
    ⟨"app", by decide⟩ "latest" (by decide)).mpr (fun _ => by decide) limits blobExists mediaType _⟩

theorem ungrammatical_tag_stored :
    isTag "-é !" = false ∧ ∃ op,
      pushedOp objectBodies ⟨2, 2⟩ (fun _ => .ok true) ⟨"app", by decide⟩ "-é !" "application/json"
        (Json.print (.object [])) = .ok op :=
  ⟨by decide, pushedOp_of_safe (fun _ => rfl) (by decide) (by decide)⟩

end Roci.Manifests
