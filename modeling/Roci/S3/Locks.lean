import Roci.Library.Transition
import Mathlib.Data.Set.Basic
import Mathlib.Logic.Function.Basic

/-!
# Locks of the S3 backend

Calls on the S3 backend pin the fence of the collector and lock the admission of
a blob; a sweep takes the fence for itself.  The locks are fair: what asks later
waits behind what waits already.  A push of a manifest asks for a pin while it has
one, so a sweep that asks in between waits for the push, and the push for the sweep.
There is no other way for calls to wait for one another.
-/

namespace Roci.S3

open Roci.Library
open Function (update update_of_ne update_self)

variable {Key : Type}

/-- The fence, and the mutex a call was given for its repository and digest. -/
inductive Lock (Key : Type) where
  | fence
  | admission (mutex : Key)
deriving DecidableEq

inductive Op (Key : Type) where
  | ask (lock : Lock Key) (exclusive : Bool)
  | release (lock : Lock Key)

abbrev Script (Key : Type) := List (Op Key)

/-! ## The calls -/

def pinned : Script Key := [.ask .fence false, .release .fence]

/-- `blob_size` pins while it touches a candidate. -/
def blobSize : Script Key := pinned

/-- How far `put_blob` gets: the content is not that of the digest, `admit_blob`
refuses it, having looked for the blob, or it is admitted. -/
inductive Admission where
  | mismatched
  | refused
  | admitted (tracksBytes : Bool)

def putBlob (mutex : Key) : Admission → Script Key
  | .mismatched => []
  | .refused => .ask (.admission mutex) true :: blobSize ++ [.release (.admission mutex)]
  | .admitted tracksBytes =>
    .ask (.admission mutex) true :: (if tracksBytes then blobSize else []) ++ pinned ++
      [.release (.admission mutex)]

/-- The required blobs `put_manifest` looks at, up to the first that is missing. -/
def verified (required : Nat) : Admission → Script Key
  | .admitted _ => (List.replicate required blobSize).flatten
  | _ => []

/-- `put_manifest` holds a pin around `put_blob` and the look at each required blob. -/
def putManifest (mutex : Key) (admission : Admission) (required : Nat) : Script Key :=
  .ask .fence false ::
    (putBlob mutex admission ++ (verified required admission ++ [.release .fence]))

/-- `gc_sweep` takes the fence once for each batch. -/
def gcSweep : Nat → Script Key
  | 0 => []
  | batches + 1 => .ask .fence true :: .release .fence :: gcSweep batches

inductive Call (Key : Type) where
  | putManifest (mutex : Key) (admission : Admission) (required : Nat)
  | putBlob (mutex : Key) (admission : Admission)
  | blobSize
  | gcSweep (batches : Nat)

namespace Call

def code : Call Key → Script Key
  | .putManifest mutex admission required => S3.putManifest mutex admission required
  | .putBlob mutex admission => S3.putBlob mutex admission
  | .blobSize => S3.blobSize
  | .gcSweep batches => S3.gcSweep batches

def sweeps : Call Key → Bool
  | .gcSweep (_ + 1) => true
  | _ => false

/-- A push of a manifest whose content has its digest: it asks for a pin inside the
one it has. -/
def nests : Call Key → Bool
  | .putManifest _ .mismatched _ => false
  | .putManifest _ _ _ => true
  | _ => false

end Call

/-! ## The locks -/

structure Request (Key : Type) where
  task : Nat
  lock : Lock Key
  exclusive : Bool

/-- The requests in the order they were made, until they are released, and what each
task has left to do. -/
structure System (Key : Type) where
  queue : List (Request Key) := []
  scripts : Nat → Script Key

def start (calls : Nat → Call Key) : System Key := { scripts := fun task => (calls task).code }

def System.entries (system : System Key) (task : Nat) : List (Request Key) :=
  system.queue.filter (·.task = task)

variable [DecidableEq Key]

def Request.conflicts (request other : Request Key) : Bool :=
  decide (request.lock = other.lock) && (request.exclusive || other.exclusive)

/-- Every request of the task was granted: a request is granted once it conflicts
with none that was made before. -/
def Granted (system : System Key) (task : Nat) : Prop :=
  system.queue.Pairwise fun other request =>
    request.task = task → request.conflicts other = false

instance (system : System Key) (task : Nat) : Decidable (Granted system task) :=
  inferInstanceAs (Decidable (system.queue.Pairwise _))

def System.perform (system : System Key) (task : Nat) (rest : Script Key) : Op Key → System Key
  | .ask lock exclusive =>
    ⟨system.queue ++ [⟨task, lock, exclusive⟩], update system.scripts task rest⟩
  | .release lock =>
    ⟨system.queue.eraseP fun request => request.lock = lock && request.task = task,
      update system.scripts task rest⟩

/-- A task that waits for no lock does its next operation. -/
def step (system : System Key) (task : Nat) : Option (System Key) :=
  if Granted system task then
    match system.scripts task with
    | [] => none
    | op :: rest => some (system.perform task rest op)
  else none

/-- The last request of a task, at this position, waits for another one before it. -/
def Behind (system : System Key) (position : Nat) (request other : Request Key) : Prop :=
  system.queue[position]? = some request ∧
    (∀ later next, system.queue[later]? = some next → next.task = request.task →
      later ≤ position) ∧
    (∃ earlier < position, system.queue[earlier]? = some other) ∧
    request.conflicts other = true

def WaitsFor (system : System Key) (first second : Nat) : Prop :=
  ∃ position request other, Behind system position request other ∧
    request.task = first ∧ other.task = second

def Deadlocked (system : System Key) : Prop :=
  ∃ tasks : Set Nat, tasks.Nonempty ∧
    ∀ first ∈ tasks, ∃ second ∈ tasks, WaitsFor system first second

/-! ## What a call asks for while it has a lock -/

section

variable {call : Call Key} {task : Nat} {entries : List (Request Key)} {script : Script Key}

def Op.after (task : Nat) (entries : List (Request Key)) : Op Key → List (Request Key)
  | .ask lock exclusive => entries ++ [⟨task, lock, exclusive⟩]
  | .release lock => entries.eraseP (·.lock = lock)

/-- Only a sweep asks for the fence for itself, only a push of a manifest asks for
something inside a pin, and inside an admission a call asks for pins. -/
def Op.Fits (call : Call Key) (entries : List (Request Key)) : Op Key → Prop
  | .ask lock exclusive =>
    (lock = .fence → exclusive = true → call.sweeps = true) ∧
      ∀ held ∈ entries, (held.lock = .fence → call.nests = true) ∧
        (held.lock ≠ .fence → lock = .fence)
  | .release _ => True

def Obeys (call : Call Key) (task : Nat) : List (Request Key) → Script Key → Prop
  | _, [] => True
  | entries, op :: rest => op.Fits call entries ∧ Obeys call task (op.after task entries) rest

theorem obeys_gcSweep (sweeps : call.sweeps = true) (batches : Nat) :
    Obeys call task [] (gcSweep batches) := by
  induction batches with
  | zero => trivial
  | succ batches ih => simpa [gcSweep, Obeys, Op.Fits, Op.after, sweeps] using ih

theorem obeys_verified (nests : call.nests = true) (required : Nat) :
    Obeys call task [⟨task, .fence, false⟩]
      ((List.replicate required blobSize).flatten ++ [.release .fence]) := by
  induction required with
  | zero => simp [Obeys, Op.Fits]
  | succ required ih =>
    simpa [List.replicate_succ, blobSize, pinned, Obeys, Op.Fits, Op.after, nests] using ih

theorem obeys_code (call : Call Key) (task : Nat) : Obeys call task [] call.code := by
  rcases call with ⟨mutex, _ | _ | tracksBytes, required⟩ | ⟨mutex, _ | _ | ⟨_ | _⟩⟩ | _ |
    ⟨_ | batches⟩
  case gcSweep.succ => exact obeys_gcSweep rfl (batches + 1)
  case putManifest.admitted =>
    have rest : Obeys (.putManifest mutex (.admitted tracksBytes) required) task _ _ :=
      obeys_verified rfl required
    cases tracksBytes <;>
      simpa [Call.code, putManifest, putBlob, verified, blobSize, pinned, Obeys, Op.Fits, Op.after,
        Call.nests] using rest
  all_goals
    simp [Call.code, putManifest, putBlob, verified, blobSize, pinned, gcSweep, Obeys, Op.Fits,
      Op.after, Call.nests]

end

/-! ## What holds along every run -/

section

variable {calls : Nat → Call Key} {system : System Key} {task : Nat} {op : Op Key}
  {rest : Script Key}

theorem entries_perform :
    (system.perform task rest op).entries task = op.after task (system.entries task) := by
  cases op <;> simp [System.perform, System.entries, Op.after, List.eraseP_filter]

theorem entries_perform_of_ne {other : Nat} (apart : other ≠ task) :
    (system.perform task rest op).entries other = system.entries other := by
  cases op with
  | ask lock exclusive => simp [System.perform, System.entries, apart.symm]
  | release lock =>
    simp only [System.perform, System.entries]
    induction system.queue with
    | nil => rfl
    | cons request queue ih =>
      by_cases mine : request.task = task
      · by_cases here : request.lock = lock <;>
          simp [mine, here, apart.symm, ih]
      · simp [List.filter_cons, mine, ih]

structure Orderly (calls : Nat → Call Key) (system : System Key) : Prop where
  obeys : ∀ task, Obeys (calls task) task (system.entries task) (system.scripts task)
  alone : ∀ request ∈ system.queue, request.lock = .fence → request.exclusive = true →
    (calls request.task).sweeps = true
  ordered : system.queue.Pairwise fun held later => held.task = later.task →
    (held.lock = .fence → (calls later.task).nests = true) ∧
      (held.lock ≠ .fence → later.lock = .fence)

namespace Orderly

theorem perform (orderly : Orderly calls system) (left : system.scripts task = op :: rest) :
    Orderly calls (system.perform task rest op) := by
  obtain ⟨fits, obeys⟩ : op.Fits (calls task) (system.entries task) ∧
      Obeys (calls task) task (op.after task (system.entries task)) rest := by
    have obeys := orderly.obeys task
    rwa [left] at obeys
  have obeysNext : ∀ other, Obeys (calls other) other
      ((system.perform task rest op).entries other)
      ((system.perform task rest op).scripts other) := by
    intro other
    have scripts : (system.perform task rest op).scripts = update system.scripts task rest := by
      cases op <;> rfl
    rw [scripts]
    by_cases same : other = task
    · subst same
      rwa [entries_perform, update_self]
    rw [entries_perform_of_ne same, update_of_ne same]
    exact orderly.obeys other
  cases op with
  | ask lock exclusive =>
    refine ⟨obeysNext, fun request member fence alone => ?_, ?_⟩
    · rcases List.mem_append.mp member with earlier | last
      · exact orderly.alone request earlier fence alone
      cases List.mem_singleton.mp last
      exact fits.1 fence alone
    refine List.pairwise_append.mpr ⟨orderly.ordered, List.pairwise_singleton _ _, ?_⟩
    intro held member later last same
    cases List.mem_singleton.mp last
    exact fits.2 held (List.mem_filter.mpr ⟨member, by simpa using same⟩)
  | release lock =>
    exact ⟨obeysNext, fun request member => orderly.alone request (List.mem_of_mem_eraseP member),
      orderly.ordered.sublist List.eraseP_sublist⟩

theorem step {next : System Key} (stepped : S3.step system task = some next)
    (orderly : Orderly calls system) : Orderly calls next := by
  unfold S3.step at stepped
  split at stepped
  · split at stepped
    · cases stepped
    cases stepped
    exact orderly.perform ‹_›
  · cases stepped

variable {tasks : Set Nat} {position : Nat} {request other : Request Key}
  (orderly : Orderly calls system)
  (waits : ∀ first ∈ tasks, ∃ second ∈ tasks, WaitsFor system first second)

include orderly waits

/-- A task that another one waits for waits with that same request, or it has made
another one since. -/
theorem waits_inside (behind : Behind system position request other) (inside : other.task ∈ tasks) :
    (∃ place < position, ∃ another, another.task ∈ tasks ∧ Behind system place other another) ∨
      ∃ place asked another, another.task ∈ tasks ∧ Behind system place asked another ∧
        (other.lock = .fence → (calls other.task).nests = true) ∧
        (other.lock ≠ .fence → asked.lock = .fence) := by
  obtain ⟨_, insideToo, place, asked, another, next, same, rfl⟩ := waits _ inside
  obtain ⟨-, -, ⟨earlier, before, found⟩, -⟩ := behind
  rcases (next.2.1 earlier other found same.symm).lt_or_eq with less | rfl
  · obtain ⟨bound, rfl⟩ := List.getElem?_eq_some_iff.mp found
    obtain ⟨boundNext, asks⟩ := List.getElem?_eq_some_iff.mp next.1
    have ordered := List.pairwise_iff_getElem.mp orderly.ordered _ _ bound boundNext less
    rw [asks] at ordered
    exact .inr ⟨place, asked, another, insideToo, next, same ▸ ordered same.symm⟩
  cases found.symm.trans next.1
  exact .inl ⟨earlier, before, another, insideToo, next⟩

variable (apart : (∀ task, (calls task).nests = false) ∨ ∀ task, (calls task).sweeps = false)

include apart

/-- Among tasks that wait for one another none waits at the fence. -/
theorem fence_not_waited (behind : Behind system position request other)
    (inside : other.task ∈ tasks) : request.lock ≠ .fence := by
  induction position using Nat.strong_induction_on generalizing request other with
  | _ position ih =>
  intro fence
  obtain ⟨found, -, ⟨_, _, foundOther⟩, conflict⟩ := id behind
  obtain ⟨sameLock, alone⟩ : request.lock = other.lock ∧
      (request.exclusive = true ∨ other.exclusive = true) := by
    simpa [Request.conflicts] using conflict
  have pinned := sameLock.symm.trans fence
  rcases orderly.waits_inside waits behind inside with
    ⟨place, sooner, another, insideToo, next⟩ | ⟨_, _, _, _, _, nests, _⟩
  · exact ih place sooner next insideToo pinned
  -- what it waits for is a pin, so it waits for the fence alone
  have sweeps : ∃ task, (calls task).sweeps = true := by
    rcases alone with alone | alone
    · exact ⟨_, orderly.alone request (List.mem_of_getElem? found) fence alone⟩
    · exact ⟨_, orderly.alone other (List.mem_of_getElem? foundOther) pinned alone⟩
  obtain ⟨sweeper, sweeps⟩ := sweeps
  rcases apart with none | none
  · cases (none other.task).symm.trans (nests pinned)
  · cases (none sweeper).symm.trans sweeps

theorem not_waited (behind : Behind system position request other)
    (inside : other.task ∈ tasks) : False := by
  induction position using Nat.strong_induction_on generalizing request other with
  | _ position ih =>
  have admission := orderly.fence_not_waited waits apart behind inside
  have sameLock : request.lock = other.lock := by
    simpa using (Bool.and_eq_true_iff.mp behind.2.2.2).1
  rcases orderly.waits_inside waits behind inside with
    ⟨place, sooner, another, insideToo, next⟩ | ⟨_, asked, another, insideToo, next, -, pins⟩
  · exact ih place sooner next insideToo
  · exact orderly.fence_not_waited waits apart next insideToo (pins (sameLock ▸ admission))

end Orderly

end

/-! ## Calls made side by side -/

theorem step_ask {system : System Key} {task : Nat} {lock : Lock Key} {exclusive : Bool}
    {rest : Script Key} (left : system.scripts task = .ask lock exclusive :: rest)
    (granted : Granted system task) : step system task = some
      ⟨system.queue ++ [⟨task, lock, exclusive⟩], update system.scripts task rest⟩ := by
  simp [step, granted, left, System.perform]

/-- The push pins the fence; the sweep asks for it and is queued; the push asks for a
second pin and is queued behind the sweep, which waits for the first. -/
theorem deadlock_reached {calls : Nat → Call Key} {pusher sweeper : Nat}
    (nests : (calls pusher).nests = true) (sweeps : (calls sweeper).sweeps = true) :
    ∃ tasks system, Reaches step (fun _ _ => True) (start calls) tasks system ∧
      Deadlocked system := by
  obtain ⟨mutex, rest, pushes⟩ : ∃ mutex rest, (calls pusher).code =
      .ask .fence false :: .ask (.admission mutex) true :: .ask .fence false :: rest := by
    rcases called : calls pusher with ⟨mutex, _ | _ | ⟨_ | _⟩, required⟩ | _ | _ | _ <;>
      simp_all [Call.nests, Call.code, putManifest, putBlob, blobSize, pinned]
  obtain ⟨left, collects⟩ : ∃ left, (calls sweeper).code = .ask .fence true :: left := by
    rcases called : calls sweeper with _ | _ | _ | ⟨_ | batches⟩ <;>
      simp_all [Call.sweeps, Call.code, gcSweep]
  have apart : pusher ≠ sweeper := by
    rintro rfl
    simp [pushes] at collects
  refine ⟨[pusher, sweeper, pusher, pusher], _, .cons trivial (step_ask pushes .nil) <|
    .cons trivial (@step_ask _ _ _ sweeper .fence true left ?_ ?_) <|
    .cons trivial (@step_ask _ _ _ pusher (.admission mutex) true
      (.ask .fence false :: rest) ?_ ?_) <|
    .cons trivial (@step_ask _ _ _ pusher .fence false rest ?_ ?_) <| .nil _,
    {pusher, sweeper}, ⟨pusher, .inl rfl⟩, ?_⟩
  · simpa [apart.symm, start] using collects
  · simp [Granted, start]
  · simp [apart]
  · simp [Granted, start, apart.symm]
  · simp
  · simp [Granted, start, apart.symm, Request.conflicts]
  rintro first (rfl | rfl)
  · refine ⟨sweeper, .inr rfl, 3, _, _,
      ⟨rfl, fun later next found _ => ?_, ⟨1, by decide, rfl⟩, rfl⟩, rfl, rfl⟩
    exact Nat.le_of_lt_succ (List.getElem?_eq_some_iff.mp found).1
  refine ⟨pusher, .inl rfl, 1, _, _,
    ⟨rfl, fun later next found same => ?_, ⟨0, by decide, rfl⟩, rfl⟩, rfl, rfl⟩
  rcases later with _ | _ | _ | _ | later
  · decide
  · decide
  · cases found
    exact absurd same apart
  · cases found
    exact absurd same apart
  · cases found

/-- Calls side by side never wait for one another in a circle exactly if no sweep
with something to collect is made along with a push of a manifest. -/
theorem calls_never_deadlock_iff (calls : Nat → Call Key) :
    (∀ tasks system, Reaches step (fun _ _ => True) (start calls) tasks system →
      ¬ Deadlocked system) ↔
      (∀ task, (calls task).nests = false) ∨ ∀ task, (calls task).sweeps = false := by
  constructor
  · intro free
    by_contra both
    obtain ⟨⟨pusher, nests⟩, sweeper, sweeps⟩ : (∃ task, (calls task).nests = true) ∧
        ∃ task, (calls task).sweeps = true := by
      simpa using both
    obtain ⟨tasks, system, run, deadlocked⟩ := deadlock_reached nests sweeps
    exact free tasks system run deadlocked
  · rintro apart tasks system run ⟨waiting, ⟨first, inside⟩, waits⟩
    have orderly : Orderly calls system :=
      run.invariant (fun _ _ _ _ stepped => Orderly.step stepped)
        ⟨fun task => obeys_code (calls task) task, nofun, .nil⟩
    obtain ⟨_, insideToo, _, _, _, behind, -, rfl⟩ := waits first inside
    exact orderly.not_waited waits apart behind insideToo

/-- A push and a sweep side by side. -/
theorem push_and_sweep_deadlock :
    ∃ tasks system, Reaches step (fun _ _ => True)
      (start fun task => if task = 0 then .putManifest () (.admitted false) 0 else .gcSweep 1)
      tasks system ∧ Deadlocked system :=
  @deadlock_reached Unit _ _ 0 1 rfl rfl

end Roci.S3
