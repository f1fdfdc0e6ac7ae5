import Mathlib.Algebra.Order.BigOperators.Group.Finset
import Roci.Filesystem.World

/-!
# The quota ledger

Each call of the tracker is one critical section or one atomic update, so the
interleavings of its callers are the lists of calls.
-/

namespace Roci.Filesystem

open Roci.Library Roci.Storage

/-- What the tracker counts; its limits never change. -/
structure QuotaTracker extends Quota where
  sessions : Nat := 0

inductive QuotaCall where
  | admitBytes (repo : String) (size : Nat)
  | seed (repo : String) (size : Nat)
  | release (repo : String) (size : Nat)
  | beginSession
  | endSession

namespace QuotaTracker

section

variable (limits : QuotaLimits) (tracker : QuotaTracker) (repo : String) (size : Nat)

def admitBytes : QuotaTracker × Except StorageError Unit :=
  let (bytes, admitted) := tracker.toQuota.admitBytes repo size limits
  ({ tracker with toQuota := bytes }, admitted)

def seed : QuotaTracker :=
  if limits.tracksBytes then { tracker with toQuota := tracker.charge repo size } else tracker

def release : QuotaTracker :=
  if !limits.tracksBytes then tracker
  else { tracker with toQuota := tracker.toQuota.release repo size }

def beginSession : QuotaTracker × Except StorageError Unit :=
  let limit := limits.maxUploadSessions
  if limit = 0 || tracker.sessions < limit then
    ({ tracker with sessions := tracker.sessions + 1 }, .ok ())
  else (tracker, .error (.tooManySessions limit))

def endSession : QuotaTracker := { tracker with sessions := tracker.sessions - 1 }

def perform : QuotaCall → QuotaTracker
  | .admitBytes repo size => (tracker.admitBytes limits repo size).1
  | .seed repo size => tracker.seed limits repo size
  | .release repo size => tracker.release limits repo size
  | .beginSession => (tracker.beginSession limits).1
  | .endSession => tracker.endSession

/-- The sums that the call forms are below `2 ^ 64`. -/
def Fits : QuotaCall → Prop
  | .admitBytes _ size | .seed _ size => tracker.total + size < 2 ^ 64
  | _ => True

/-- The caps that are not zero are kept to. -/
def WithinCaps : Prop :=
  (limits.maxRepoBytes ≠ 0 → tracker.repoBytes repo ≤ limits.maxRepoBytes) ∧
    (limits.maxTotalBytes ≠ 0 → tracker.total ≤ limits.maxTotalBytes)

/-- The total is the sum of what the repositories hold. -/
structure Ledger : Prop where
  balanced : ∃ repos : Finset String, (∀ repo ∉ repos, tracker.repoBytes repo = 0) ∧
    tracker.total = ∑ repo ∈ repos, tracker.repoBytes repo
  capped : limits.maxUploadSessions ≠ 0 → tracker.sessions ≤ limits.maxUploadSessions

end

variable {limits : QuotaLimits} {tracker next : QuotaTracker} {repo : String} {size : Nat}

theorem Ledger.repoBytes_le (ledger : tracker.Ledger limits) (repo : String) :
    tracker.repoBytes repo ≤ tracker.total := by
  obtain ⟨repos, outside, sum⟩ := ledger.balanced
  by_cases listed : repo ∈ repos
  · exact sum ▸ Finset.single_le_sum (fun _ _ => Nat.zero_le _) listed
  · exact outside repo listed ▸ Nat.zero_le _

/-- What one repository gains or loses the total does. -/
theorem Ledger.set (ledger : tracker.Ledger limits) (repo : String) (amount : Nat)
    (bytes : ∀ other, next.repoBytes other =
      if other = repo then amount else tracker.repoBytes other)
    (total : next.total + tracker.repoBytes repo = tracker.total + amount)
    (sessions : next.sessions = tracker.sessions) : next.Ledger limits := by
  obtain ⟨repos, outside, sum⟩ := ledger.balanced
  refine ⟨⟨insert repo repos, by grind, ?_⟩, sessions ▸ ledger.capped⟩
  have before := Finset.sum_insert_of_eq_zero_if_notMem (outside repo)
  have here := Finset.add_sum_erase _ tracker.repoBytes (Finset.mem_insert_self repo repos)
  have there := Finset.add_sum_erase _ next.repoBytes (Finset.mem_insert_self repo repos)
  have others : ∑ other ∈ (insert repo repos).erase repo, next.repoBytes other =
      ∑ other ∈ (insert repo repos).erase repo, tracker.repoBytes other :=
    Finset.sum_congr rfl fun other kept => by rw [bytes, if_neg (Finset.ne_of_mem_erase kept)]
  rw [bytes, if_pos rfl] at there
  omega

theorem repoBytes_charge (quota : Quota) (repo other : String) (size : Nat) :
    (quota.charge repo size).repoBytes other =
      if other = repo then saturatingAdd (quota.repoBytes repo) size
      else quota.repoBytes other := by
  simp only [Quota.charge, Quota.repoBytes, StringMap.lookup_insert]
  split <;> rfl

theorem Ledger.charge (ledger : tracker.Ledger limits) (fits : tracker.total + size < 2 ^ 64) :
    Ledger limits { tracker with toQuota := tracker.charge repo size } := by
  have held := ledger.repoBytes_le repo
  refine ledger.set repo _ (repoBytes_charge _ repo · size) ?_ rfl
  simp only [Quota.charge, saturatingAdd]
  omega

theorem Ledger.release (ledger : tracker.Ledger limits) :
    (tracker.release limits repo size).Ledger limits := by
  have held := ledger.repoBytes_le repo
  unfold QuotaTracker.release
  split
  · exact ledger
  unfold Quota.release
  split
  · exact ledger
  rename_i used found
  have bytes : tracker.repoBytes repo = used := by rw [Quota.repoBytes, found, Option.getD_some]
  refine ledger.set repo (used - min size used) (fun other => ?_) ?_ rfl
  · unfold Quota.repoBytes
    grind [StringMap.lookup_erase, StringMap.lookup_insert]
  · grind

/-- Inversion of an admission. -/
theorem admitBytes_cases (limits : QuotaLimits) (tracker : QuotaTracker) (repo : String)
    (size : Nat) :
    (tracker.admitBytes limits repo size).1 = tracker ∧
      ((tracker.admitBytes limits repo size).2 = .ok () → tracker.WithinCaps limits repo) ∨
    tracker.admitBytes limits repo size =
        ({ tracker with toQuota := tracker.charge repo size }, .ok ()) ∧
      WithinCaps limits { tracker with toQuota := tracker.charge repo size } repo := by
  obtain ⟨bytes, sessions⟩ := tracker
  simp only [admitBytes, Quota.admitBytes, QuotaLimits.tracksBytes, WithinCaps]
  grind [repoBytes_charge, Quota.charge]

/-- Step lemma. -/
theorem Ledger.perform (ledger : tracker.Ledger limits) {call : QuotaCall}
    (fits : tracker.Fits call) : (tracker.perform limits call).Ledger limits := by
  cases call with
  | admitBytes repo size =>
    obtain ⟨unchanged, -⟩ | ⟨charged, -⟩ := tracker.admitBytes_cases limits repo size
    · simpa only [QuotaTracker.perform, unchanged] using ledger
    · simpa only [QuotaTracker.perform, charged] using ledger.charge fits
  | seed repo size =>
    simp only [QuotaTracker.perform, seed]
    split
    · exact ledger.charge fits
    · exact ledger
  | release repo size => exact ledger.release
  | beginSession =>
    simp only [QuotaTracker.perform, beginSession]
    split
    · exact ⟨ledger.balanced, by grind⟩
    · exact ledger
  | endSession => exact ⟨ledger.balanced, fun cap => (Nat.sub_le _ _).trans (ledger.capped cap)⟩

/-- Run lemma, and what the calls answer: a refused admission changes nothing, an
admission keeps to the caps, and a release takes from the total no more than the
repository held. -/
theorem quota_ledger_kept {calls : List QuotaCall}
    (run : Reaches (fun tracker call => some (perform limits tracker call)) Fits {} calls tracker) :
    tracker.Ledger limits ∧ ∀ repo size,
      (∀ error, (tracker.admitBytes limits repo size).2 = .error error →
        (tracker.admitBytes limits repo size).1 = tracker) ∧
      ((tracker.admitBytes limits repo size).2 = .ok () →
        (tracker.admitBytes limits repo size).1.WithinCaps limits repo) ∧
      tracker.total - (tracker.release limits repo size).total ≤ tracker.repoBytes repo := by
  refine ⟨run.invariant (fun tracker call after fits performed ledger => ?_)
    ⟨⟨∅, by simp [Quota.repoBytes]⟩, fun _ => Nat.zero_le _⟩, fun repo size => ⟨?_, ?_, ?_⟩⟩
  · cases performed
    exact ledger.perform fits
  · grind [admitBytes_cases limits tracker repo size]
  · grind [admitBytes_cases limits tracker repo size]
  · grind [release, Quota.release, Quota.repoBytes]

def smallCaps : QuotaLimits where
  maxRepoBytes := 10
  maxTotalBytes := 15
  maxUploadSessions := 1

/-- Two repositories are charged; an admission and a session are refused, and more
is given back than was held. -/
def mixedCalls : List QuotaCall :=
  [.beginSession, .beginSession, .seed "a" 3, .admitBytes "a" 5, .admitBytes "b" 6,
    .admitBytes "b" 5, .release "a" 20, .release "c" 1]

instance (tracker : QuotaTracker) (call : QuotaCall) : Decidable (tracker.Fits call) :=
  match call with
  | .admitBytes _ _ | .seed _ _ => Nat.decLt _ _
  | .release _ _ | .beginSession | .endSession => isTrue trivial

theorem mixedCalls_ledger_kept :
    ∃ tracker, Reaches (fun tracker call => some (perform smallCaps tracker call)) Fits {}
        mixedCalls tracker ∧
      (tracker.sessions = 1 ∧ tracker.repoBytes "a" = 0 ∧ tracker.repoBytes "b" = 6) ∧
      tracker.Ledger smallCaps ∧ (tracker.admitBytes smallCaps "b" 5).1 = tracker ∧
      (tracker.admitBytes smallCaps "a" 9).1.WithinCaps smallCaps "a" ∧
      tracker.total - (tracker.release smallCaps "b" 20).total ≤ tracker.repoBytes "b" := by
  obtain ⟨tracker, run, ⟨counts, refused, admitted⟩⟩ := @exists_run_of_execute _ _
    (fun tracker call => some (perform smallCaps tracker call)) Fits _ {} mixedCalls
    (fun tracker =>
      (tracker.sessions = 1 ∧ tracker.repoBytes "a" = 0 ∧ tracker.repoBytes "b" = 6) ∧
        (tracker.admitBytes smallCaps "b" 5).2 = .error (.quotaExceeded .repository 10 5) ∧
        (tracker.admitBytes smallCaps "a" 9).2 = .ok ()) _ (by decide +kernel)
  obtain ⟨ledger, answers⟩ := quota_ledger_kept run
  exact ⟨tracker, run, counts, ledger, (answers "b" 5).1 _ refused, (answers "a" 9).2.1 admitted,
    (answers "b" 20).2.2⟩

end QuotaTracker

end Roci.Filesystem
