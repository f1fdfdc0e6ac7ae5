import Roci.Gc.FailClosed

/-!
# Sweeps after a start

Once recovery has run and every repository was walked, the files nothing refers
to become candidates.  What the walk found to be a manifest is protected by its
text: by the set of roots and by the metadata record, both under the text that
`index.json` uses.  What a manifest refers to is protected by an edge under the
canonical digest, and a sweep asks about canonical digests.  A root whose text
is not canonical is thus protected only if something else speaks for it.
-/

namespace Roci.Gc

open Roci.Library Roci.Metadata Roci.Storage Roci.Layout
open Roci.Manifests

/-- A file becomes a candidate when nothing the check knows speaks for it,
stamped with the time that was read before the files were listed. -/
def seedCandidate (check : Check) (repo : String) (now : Nat) (candidates : StringMap Nat)
    (name : String) : StringMap Nat :=
  match Digest.parse name with
  | .error _ => candidates
  | .ok digest =>
    if (check.store.manifestMediaType repo digest.asString).isSome ||
        decide (digest.asString ∈ check.roots) then candidates
    else if (check.store.backrefs repo digest.asString).isEmpty then
      candidates.insert digest.asString now
    else candidates

section

variable (env : Manifests.Env) (order : IterOrder) (disk : Disk) (repo : String)

end

/-! ## The walk -/

section

variable {env : Manifests.Env} {order : IterOrder} {disk : Disk} {repo : String}

variable {digest : Digest} {delay : Nat} {text : String}

end

/-! ## Candidates -/

section

variable {check : Check} {repo : String} {now : Nat}

end

/-! ## A sweep that finds nothing in favour of a blob -/

section

variable {env : Manifests.Env} {repo : String} {digest : String}

variable {world : World}

end

/-! ## Sweeps after a start -/

section

variable {env : Manifests.Env} {order : IterOrder} {disk : Disk} {repo : String}
  {layout : StringMap IndexFile}

end

/-! ## A root in capital letters -/

end Roci.Gc
