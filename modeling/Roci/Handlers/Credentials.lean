import Roci.Handlers.Access
import Roci.Library.ByteMap

/-!
# The cache of successful authentications

An entry is filed under the hash of user, zero byte and password.  A name that
holds a zero byte can so be read as a shorter one with a longer password.
-/

namespace Roci.Handlers

open Roci.Library

structure CachedUser where
  name : String
  ldapGroups : List String
  method : AuthMethod
  expires : Nat

structure CredentialCache where
  ttl : Nat
  map : ByteMap CachedUser := ∅

def CredentialCache.capacity : Nat := 4096

inductive CacheCall where
  | get (now : Nat) (user password : String)
  | insert (now : Nat) (user password : String) (ldapGroups : List String) (method : AuthMethod)

def CacheCall.user : CacheCall → String
  | .get _ user _ => user
  | .insert _ user _ _ _ => user

variable (sha256 : Bytes → Bytes)

def cacheKey (user password : String) : Bytes := sha256 (utf8 user ++ [0] ++ utf8 password)

namespace CredentialCache

section

variable (self : CredentialCache) (now : Nat) (user password : String)

def get : CredentialCache × Option Principal :=
  if self.ttl = 0 then (self, none)
  else
    match self.map[cacheKey sha256 user password]? with
    | none => (self, none)
    | some hit =>
      if hit.expires ≤ now then
        ({ self with map := self.map.erase (cacheKey sha256 user password) }, none)
      else (self, some (.user hit.name hit.ldapGroups hit.method))

def insert (ldapGroups : List String) (method : AuthMethod) : CredentialCache × Principal :=
  let kept := if capacity ≤ self.map.size then ∅ else self.map
  let entry : CachedUser := ⟨user, ldapGroups, method, now + self.ttl⟩
  (if self.ttl = 0 then self
    else { self with map := kept.insert (cacheKey sha256 user password) entry },
    .user user ldapGroups method)

def perform : CacheCall → CredentialCache
  | .get now user password => (self.get sha256 now user password).1
  | .insert now user password ldapGroups method =>
    (self.insert sha256 now user password ldapGroups method).1

end

/-- Every entry was inserted, with the time to live of the cache. -/
def Recorded (ttl : Nat) (calls : List CacheCall) (self : CredentialCache) : Prop :=
  self.ttl = ttl ∧ ∀ key hit, self.map[key]? = some hit →
    ∃ now password, key = cacheKey sha256 hit.name password ∧ hit.expires = now + ttl ∧
      .insert now hit.name password hit.ldapGroups hit.method ∈ calls

variable {sha256} {ttl : Nat} {calls : List CacheCall} {self : CredentialCache}

/-- Step lemma. -/
theorem Recorded.perform (recorded : Recorded sha256 ttl calls self) (call : CacheCall) :
    Recorded sha256 ttl (calls ++ [call]) (self.perform sha256 call) := by
  obtain ⟨same, entries⟩ := recorded
  have earlier : Recorded sha256 ttl (calls ++ [call]) self := by
    refine ⟨same, fun key hit found => ?_⟩
    obtain ⟨now, password, filed, expires, listed⟩ := entries key hit found
    exact ⟨now, password, filed, expires, List.mem_append_left _ listed⟩
  cases call with
  | get now user password =>
    simp only [CredentialCache.perform, get]
    split
    · exact earlier
    split
    · exact earlier
    split
    · refine ⟨same, fun key hit found => earlier.2 key hit ?_⟩
      grind [ByteMap.lookup_erase]
    · exact earlier
  | insert now user password ldapGroups method =>
    simp only [CredentialCache.perform, insert]
    split
    · exact earlier
    refine ⟨same, fun key hit found => ?_⟩
    rw [ByteMap.lookup_insert] at found
    split at found
    · rename_i filed
      cases found
      exact ⟨now, password, filed, by rw [same], by simp⟩
    refine earlier.2 key hit ?_
    split at found
    · simp at found
    · exact found

theorem recorded_foldl (sha256 : Bytes → Bytes) (ttl : Nat) (calls : List CacheCall) :
    Recorded sha256 ttl calls (calls.foldl (CredentialCache.perform sha256) { ttl }) := by
  induction calls using List.reverseRecOn with
  | nil => exact ⟨rfl, by simp⟩
  | append_singleton calls call ih =>
    rw [List.foldl_append]
    exact ih.perform call

/-- In every run whose users hold no zero byte a hit was inserted with just these
credentials, less than the time to live ago, and is named after its user. -/
theorem credentials_returned_as_inserted (injective : Function.Injective sha256)
    (clean : ∀ call ∈ calls, 0 ∉ utf8 call.user) {now : Nat} {user password : String}
    (userClean : 0 ∉ utf8 user) {principal : Principal}
    (hit : ((calls.foldl (perform sha256) { ttl }).get sha256 now user password).2 =
      some principal) :
    ∃ inserted ldapGroups method, now < inserted + ttl ∧
      .insert inserted user password ldapGroups method ∈ calls ∧
      principal = .user user ldapGroups method := by
  have entries := (recorded_foldl sha256 ttl calls).2
  unfold get at hit
  split at hit
  · cases hit
  split at hit
  · cases hit
  split at hit
  · cases hit
  rename_i entry found valid
  cases hit
  obtain ⟨inserted, secret, filed, expires, listed⟩ := entries _ entry found
  have same := injective filed
  simp only [List.append_assoc, List.singleton_append] at same
  obtain ⟨users, secrets⟩ := terminated_inj userClean (clean _ listed) same
  obtain rfl := utf8_injective users
  obtain rfl := utf8_injective secrets
  exact ⟨inserted, entry.ldapGroups, entry.method, by omega, listed, rfl⟩

theorem alice_returned_as_inserted :
    ∃ inserted ldapGroups method, 5 < inserted + 60 ∧
      .insert inserted "alice" "secret" ldapGroups method ∈
        [CacheCall.insert 0 "alice" "secret" [] .htpasswd] ∧
      Principal.user "alice" [] .htpasswd = .user "alice" ldapGroups method :=
  credentials_returned_as_inserted Function.injective_id (by decide) (by decide)
    (rfl : ((List.foldl (perform id) { ttl := 60 }
      [.insert 0 "alice" "secret" [] .htpasswd]).get id 5 "alice" "secret").2 = _)

/-- The entry of user `a` answers a request by the user whose name goes on behind a
zero byte. -/
theorem nul_user_hits_another :
    ((List.foldl (perform id) { ttl := 60 } [.insert 0 "a" "b\x00c" [] .htpasswd]).get id 5
      "a\x00b" "c").2 = some (.user "a" [] .htpasswd) := by
  rfl

end CredentialCache

end Roci.Handlers
