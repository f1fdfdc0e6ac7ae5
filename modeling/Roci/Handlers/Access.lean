import Roci.Core.Names

/-!
# Who may do what

A principal is nobody, a user or a bearer token.  A token carries its grants; for
the others the access policy in force decides: the most specific rule whose
pattern matches the repository, and administrators may do everything.  The policy
can be replaced while the server runs, so each decision reads the one in force.
-/

namespace Roci.Handlers

open Roci.Library Roci.Storage

inductive Action where
  | pull
  | push
  | delete
deriving DecidableEq

/-! ## Sets of actions -/

structure ActionSet where
  bits : UInt8
deriving DecidableEq

namespace ActionSet

def none : ActionSet := ⟨0⟩

def all : ActionSet := ⟨7⟩

def of : Action → ActionSet
  | .pull => ⟨1⟩
  | .push => ⟨2⟩
  | .delete => ⟨4⟩

def union (first second : ActionSet) : ActionSet := ⟨first.bits ||| second.bits⟩

def contains (set : ActionSet) (action : Action) : Bool := set.bits &&& (of action).bits != 0

def fromActions (actions : List Action) : ActionSet :=
  actions.foldl (fun set action => set.union (of action)) none

end ActionSet

/-! ## Patterns of repository names -/

inductive Tok where
  | lit (byte : UInt8)
  | star
  | anyTail
  | anyDirs
deriving DecidableEq

/-- The tokens of the components from one on; `separated` when a slash comes
before the next one. -/
def tokenizeComponents : Bool → List (List Char) → List Tok
  | _, [] => []
  | separated, component :: rest =>
    (if separated then [.lit 47] else []) ++
      (if component = ['*', '*'] then
        if rest.isEmpty then [.anyTail] else .anyDirs :: tokenizeComponents false rest
      else
        ((utf8 (String.ofList component)).map fun byte => if byte = 42 then .star else .lit byte) ++
          tokenizeComponents true rest)

def tokenize (pattern : String) : List Tok := tokenizeComponents false (splitAll '/' pattern.toList)

/-- One token: from where the rest of the tokens match, where they match with the
token in front.  Position `j` of a row is the name behind its first `j` bytes;
the flag says whether a directory ends behind the position. -/
def matchRow (token : Tok) : Bytes → List Bool → List Bool × Bool
  | byte :: rest, here :: after =>
    let (row, dirs) := matchRow token rest after
    match token with
    | .lit expected => ((byte = expected && after.headD false) :: row, dirs)
    | .star => ((here || (byte ≠ 47 && row.headD false)) :: row, dirs)
    | .anyTail => ((here || row.headD false) :: row, dirs)
    | .anyDirs =>
      let dirs := dirs || (byte = 47 && after.headD false)
      ((here || dirs) :: row, dirs)
  | _, row =>
    (match token with
      | .lit _ => [false]
      | _ => [row.headD false], false)

def globMatch (tokens : List Tok) (name : Bytes) : Bool :=
  (tokens.foldr (fun token row => (matchRow token name row).1)
    (List.replicate name.length false ++ [true])).headD false

/-! ## The policy -/

structure IdentityPolicy where
  users : List String := []
  groups : List String := []
  actions : List Action

structure RepositoryPolicy where
  pattern : String
  anonymous : List Action := []
  authenticated : List Action := []
  policies : List IdentityPolicy := []

structure AccessControlConfig where
  admins : List String := []
  groups : List (String × List String) := []
  repositories : List RepositoryPolicy := []

structure Rule where
  tokens : List Tok
  literalLen : Nat
  stars : Nat
  anonymous : ActionSet
  authenticated : ActionSet
  policies : List (List String × List String × ActionSet)

structure AccessPolicy where
  admins : List String
  userGroups : String → List String
  rules : List Rule

def Tok.isLit : Tok → Bool
  | .lit _ => true
  | _ => false

def Rule.compile (policy : RepositoryPolicy) : Rule :=
  let tokens := tokenize policy.pattern
  { tokens := tokens
    literalLen := (tokens.filter Tok.isLit).length
    stars := (tokens.filter fun token => !token.isLit).length
    anonymous := .fromActions policy.anonymous
    authenticated := .fromActions policy.authenticated
    policies := policy.policies.map fun identity =>
      (identity.users, identity.groups, .fromActions identity.actions) }

namespace AccessPolicy

def compile (config : AccessControlConfig) : AccessPolicy where
  admins := config.admins
  userGroups user := config.groups.flatMap fun group =>
    (group.2.filter (· = user)).map fun _ => group.1
  rules := config.repositories.map Rule.compile

/-- The rule is more specific: longer literal text, then fewer wildcards. -/
def moreSpecific (rule best : Rule) : Bool :=
  best.literalLen < rule.literalLen ||
    (rule.literalLen = best.literalLen && rule.stars < best.stars)

def winningRule (policy : AccessPolicy) (repo : String) : Option Rule :=
  policy.rules.foldl (fun best rule =>
    if globMatch rule.tokens (utf8 repo) && best.all (moreSpecific rule) then some rule
    else best) none

/-- The actions a user, or nobody, holds on a repository. -/
def grants (policy : AccessPolicy) (name : Option String) (ldapGroups : List String)
    (repo : String) : ActionSet :=
  if name.any (policy.admins.contains ·) then .all
  else
    match policy.winningRule repo, name with
    | none, _ => .none
    | some rule, none => rule.anonymous
    | some rule, some name =>
      (rule.policies.filter fun identity =>
        identity.1.contains name ||
          (policy.userGroups name ++ ldapGroups).any (identity.2.1.contains ·)).foldl
        (fun set identity => set.union identity.2.2) (rule.anonymous.union rule.authenticated)

end AccessPolicy

/-! ## Principals -/

inductive AuthMethod where
  | htpasswd
  | ldap
  | mtls
deriving DecidableEq

inductive Principal where
  | anonymous
  | user (name : String) (ldapGroups : List String) (method : AuthMethod)
  | token (subject : Option String) (grants : List (String × ActionSet))

/-- The comparison that does not stop at the first difference. -/
def ctEq (first second : Bytes) : Bool :=
  first.length = second.length &&
    (first.zip second).foldl (fun found pair => found ||| (pair.1 ^^^ pair.2)) 0 == 0

def grantsAllow (grants : List (String × ActionSet)) (repo : String) (action : Action) : Bool :=
  grants.any fun grant => ctEq (utf8 grant.1) (utf8 repo) && grant.2.contains action

/-- Whether the principal may perform the action on the repository while the
policy is in force. -/
def Principal.allowedUnder (principal : Principal) (policy : Option AccessPolicy) (repo : String)
    (action : Action) : Bool :=
  match principal with
  | .token _ grants => grantsAllow grants repo action
  | .user name ldapGroups _ =>
    policy.all fun policy => (policy.grants (some name) ldapGroups repo).contains action
  | .anonymous => policy.any fun policy => (policy.grants none [] repo).contains action

structure Bearer where
  realm : String
  service : String

/-- What of the configuration decides how a request is refused. -/
structure Auth where
  realm : String
  htpasswd : Bool := false
  ldap : Bool := false
  bearer : Option Bearer := none
  mtls : Bool := false

def Auth.hasHeaderMechanism (auth : Auth) : Bool := auth.htpasswd || auth.ldap || auth.bearer.isSome

def challengeActions : Action → String
  | .pull => "pull"
  | .push => "pull,push"
  | .delete => "delete"

/-- The value of `WWW-Authenticate`. -/
def Auth.challenge (auth : Auth) (scope : Option (String × Action)) (insufficient : Bool) :
    Option String :=
  match auth.bearer with
  | some bearer =>
    some ("Bearer realm=\"" ++ bearer.realm ++ "\",service=\"" ++ bearer.service ++ "\"" ++
      (scope.elim "" fun scope =>
        ",scope=\"repository:" ++ scope.1 ++ ":" ++ challengeActions scope.2 ++ "\"") ++
      (if insufficient then ",error=\"insufficient_scope\"" else ""))
  | none =>
    if auth.hasHeaderMechanism then some ("Basic realm=\"" ++ auth.realm ++ "\"") else none

end Roci.Handlers
