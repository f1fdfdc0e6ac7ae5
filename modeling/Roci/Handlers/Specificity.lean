import Roci.Config.Storage
import Roci.Handlers.Glob
import Roci.Handlers.Policy

/-!
# Narrow and broad rules

A rule is narrower than another if it matches fewer repositories.  The count of
literal bytes and wildcards does not always see that: `*` and `**` have no literal
byte and one wildcard, so the one that stands first in the file decides.
-/

namespace Roci.Handlers

open Roci.Config Roci.Core Roci.Library Roci.Storage

/-! ## Accepted rules -/

def isRepoPattern (text : String) : Bool :=
  !text.isEmpty && (utf8 text).length ≤ 255 && (splitAll '/' text.toList).all fun component =>
    component = ['*', '*'] || (!component.isEmpty && !decide (['*', '*'] <:+: component) &&
      (utf8 (String.ofList component)).all fun byte =>
        isLowerAlnum byte || (utf8 "._-*").contains byte)

def validatePolicies (field : String) : Nat → List IdentityPolicy → Except ConfigError Unit
  | _, [] => .ok ()
  | index, policy :: rest => do
    require (!(policy.actions.isEmpty || (policy.users.isEmpty && policy.groups.isEmpty)))
      (field ++ ".policies[" ++ toString index ++ "]")
      "needs non-empty actions and at least one user or group"
    validatePolicies field (index + 1) rest

def validateRepositories (seen : List String) :
    Nat → List RepositoryPolicy → Except ConfigError Unit
  | _, [] => .ok ()
  | index, policy :: rest => do
    let field := "access_control.repositories[" ++ toString index ++ "]"
    require (isRepoPattern policy.pattern) (field ++ ".pattern")
      "must be `/`-separated components of [a-z0-9._-*], or `**`"
    require (!seen.contains policy.pattern) (field ++ ".pattern") "duplicate pattern"
    validatePolicies field 0 policy.policies
    validateRepositories (policy.pattern :: seen) (index + 1) rest

variable (config : AccessControlConfig)

def AccessControlConfig.validate : Except ConfigError Unit :=
  validateRepositories [] 0 config.repositories

/-! ## Narrow rules -/

end Roci.Handlers
