import Roci.Library.Interleaving

/-!
# Keyed locks

A `LockMap` hands out one mutex per key and creates it when it is asked for the
first time.  Removing an entry does not touch the mutex: whoever holds or waits
for it goes on, and the next one to ask gets a new mutex.  `release` removes an
entry only when nobody else refers to its mutex.
-/

namespace Roci.Filesystem

/-- A mutex, the call that holds it, the calls that refer to it and the value it
protects. -/
structure Mutex (Value : Type) where
  holder : Option Nat := none
  users : List Nat := []
  value : Value

/-- `named` is not kept by the program: it remembers the keys asked for. -/
structure LockMap (Key Value : Type) where
  entries : Key → Option Nat := fun _ => none
  mutexes : List (Mutex Value) := []
  named : List Key := []

inductive LockAction (Key Value : Type) where
  | get (key : Key)
  | lock (mutex : Nat)
  | tryLock (mutex : Nat)
  | unlock (mutex : Nat)
  /-- The reference to the mutex goes out of scope. -/
  | forget (mutex : Nat)
  | remove (key : Key)
  | release (key : Key)
  /-- Take the value and leave the default one. -/
  | take (mutex : Nat)
  | set (mutex : Nat) (value : Value)

abbrev LockResponse {Key Value : Type} : LockAction Key Value → Type
  | .get _ => Nat
  | .tryLock _ => Bool
  | .take _ => Value
  | _ => Unit

namespace LockMap

variable {Key Value : Type} [DecidableEq Key] [Inhabited Value] (locks : LockMap Key Value)

def update (mutex : Nat) (change : Mutex Value → Mutex Value) : LockMap Key Value :=
  { locks with mutexes := locks.mutexes.modify mutex change }

/-- Add a reference to the mutex of a key, which may be a new one. -/
def get (index : Nat) (key : Key) : LockMap Key Value × Nat :=
  let locks := { locks with named := key :: locks.named }
  match locks.entries key with
  | some mutex =>
    (locks.update mutex fun found => { found with users := index :: found.users }, mutex)
  | none =>
    ({ locks with
        entries := Function.update locks.entries key (some locks.mutexes.length)
        mutexes := locks.mutexes ++ [{ users := [index], value := default }] },
      locks.mutexes.length)

def holder (mutex : Nat) : Option Nat := locks.mutexes[mutex]?.bind Mutex.holder

def value (mutex : Nat) : Value := (locks.mutexes[mutex]?.map Mutex.value).getD default

def remove (key : Key) : LockMap Key Value :=
  { locks with entries := Function.update locks.entries key none }

/-- Whether the map and the caller are the only ones to refer to the mutex. -/
def unshared (key : Key) : Bool :=
  (locks.entries key).any fun mutex =>
    (locks.mutexes[mutex]?.map fun found => found.users.length).getD 0 + 1 ≤ 2

/-- One action of call number `index`; `none` while it has to wait. -/
def perform (index : Nat) (action : LockAction Key Value) :
    Option (LockMap Key Value × LockResponse action) :=
  match action with
  | .get key => some (locks.get index key)
  | .lock mutex =>
    if (locks.holder mutex).isNone then
      some (locks.update mutex fun found => { found with holder := some index }, ())
    else none
  | .tryLock mutex =>
    if (locks.holder mutex).isNone then
      some (locks.update mutex fun found => { found with holder := some index }, true)
    else some (locks, false)
  | .unlock mutex => some (locks.update mutex fun found => { found with holder := none }, ())
  | .forget mutex =>
    some (locks.update mutex fun found => { found with users := found.users.erase index }, ())
  | .remove key => some (locks.remove key, ())
  | .release key => some (if locks.unshared key then locks.remove key else locks, ())
  | .take mutex =>
    some (locks.update mutex fun found => { found with value := default }, locks.value mutex)
  | .set mutex value => some (locks.update mutex fun found => { found with value := value }, ())

/-- A call is dropped: its guards and references are gone. -/
def abandon (index : Nat) : LockMap Key Value :=
  { locks with
    mutexes := locks.mutexes.map fun found =>
      { found with
        holder := if found.holder = some index then none else found.holder
        users := found.users.filter (· ≠ index) } }

end LockMap

/-! ## What an action does to holders, values and entries -/

namespace LockMap

variable {Key Value : Type} {locks : LockMap Key Value} {index mutex other : Nat} {key : Key}

theorem holder_update_of_ne (different : other ≠ mutex) (change : Mutex Value → Mutex Value) :
    (locks.update mutex change).holder other = locks.holder other := by
  simp [holder, update, List.getElem?_modify_ne _ _ (Ne.symm different)]

theorem holder_update (within : mutex < locks.mutexes.length)
    (change : Mutex Value → Mutex Value) {held : Option Nat}
    (changed : ∀ found, (change found).holder = held) :
    (locks.update mutex change).holder mutex = held := by
  simp [holder, update, within, changed]

theorem holder_eq : locks.holder mutex = (locks.mutexes[mutex]?.map Mutex.holder).getD none := by
  cases found : locks.mutexes[mutex]? <;> simp [holder, found]

theorem map_update {Out : Type} (look : Mutex Value → Out) {change : Mutex Value → Mutex Value}
    (unchanged : ∀ found, look (change found) = look found) :
    (locks.update mutex change).mutexes[other]?.map look = locks.mutexes[other]?.map look := by
  rw [update, List.getElem?_modify]
  split <;> simp [Function.comp_def, unchanged]

variable (change : Mutex Value → Mutex Value)

theorem holder_update_same (unchanged : ∀ found, (change found).holder = found.holder) :
    (locks.update mutex change).holder other = locks.holder other := by
  rw [holder_eq, holder_eq, map_update _ unchanged]

theorem holder_update_none (cleared : ∀ found, (change found).holder = none) :
    (locks.update mutex change).holder mutex = none := by
  cases found : locks.mutexes[mutex]? <;> simp [holder, update, found, cleared]

@[simp]
theorem length_update : (locks.update mutex change).mutexes.length = locks.mutexes.length := by
  simp [update]

theorem holder_abandon : (locks.abandon index).holder other =
    if locks.holder other = some index then none else locks.holder other := by
  cases found : locks.mutexes[other]? <;> simp [holder, abandon, found]

variable [Inhabited Value]

theorem value_update_of_ne (different : other ≠ mutex) (change : Mutex Value → Mutex Value) :
    (locks.update mutex change).value other = locks.value other := by
  simp [value, update, List.getElem?_modify_ne _ _ (Ne.symm different)]

theorem value_update (within : mutex < locks.mutexes.length)
    (change : Mutex Value → Mutex Value) {stored : Value}
    (changed : ∀ found, (change found).value = stored) :
    (locks.update mutex change).value mutex = stored := by
  simp [value, update, within, changed]

theorem value_update_same (unchanged : ∀ found, (change found).value = found.value) :
    (locks.update mutex change).value other = locks.value other := by
  rw [value, value, map_update _ unchanged]

theorem value_abandon : (locks.abandon index).value other = locks.value other := by
  cases found : locks.mutexes[other]? <;> simp [value, abandon, found]

variable [DecidableEq Key]

theorem entries_get_self : (locks.get index key).1.entries key = some (locks.get index key).2 := by
  unfold get
  dsimp only
  split
  · rename_i found
    exact found
  · simp

theorem entries_get_of_ne {named : Key} (different : named ≠ key) :
    (locks.get index key).1.entries named = locks.entries named := by
  unfold get
  dsimp only
  split
  · rfl
  · exact Function.update_of_ne different _ _

theorem entries_get {named : Key} (found : locks.entries named = some mutex) :
    (locks.get index key).1.entries named = some mutex := by
  by_cases same : named = key
  · subst same
    simp [get, found, update]
  · rw [entries_get_of_ne same, found]

theorem named_get : (locks.get index key).1.named = key :: locks.named := by
  unfold get
  dsimp only
  split <;> rfl

theorem length_le_get : locks.mutexes.length ≤ (locks.get index key).1.mutexes.length := by
  unfold get
  dsimp only
  split <;> simp [update]

/-- A new mutex looks like none. -/
theorem map_get {Out : Type} (look : Mutex Value → Out)
    (users : ∀ found users, look { found with users := users } = look found) :
    ((locks.get index key).1.mutexes[other]?.map look).getD (look { value := default }) =
      (locks.mutexes[other]?.map look).getD (look { value := default }) := by
  unfold get
  dsimp only
  split
  · exact congrArg (Option.getD · _) (map_update look fun found => users found _)
  rcases Nat.lt_trichotomy other locks.mutexes.length with before | same | beyond
  · simp [List.getElem?_append_left before]
  · simp [same, users { value := default }]
  · rw [List.getElem?_eq_none (by simp; omega), List.getElem?_eq_none (Nat.le_of_lt beyond)]

theorem holder_get : (locks.get index key).1.holder other = locks.holder other := by
  rw [holder_eq, holder_eq]
  exact map_get Mutex.holder fun _ _ => rfl

theorem value_get : (locks.get index key).1.value other = locks.value other :=
  map_get Mutex.value fun _ _ => rfl

omit [Inhabited Value] in
theorem entries_of_remove {named : Key} (found : (locks.remove key).entries named = some mutex) :
    locks.entries named = some mutex := by
  by_cases same : named = key
  · simp [same, remove] at found
  · exact (Function.update_of_ne same _ _).symm.trans found

theorem get_lt (bounded : ∀ mutex, locks.entries key = some mutex →
    mutex < locks.mutexes.length) :
    (locks.get index key).2 < (locks.get index key).1.mutexes.length := by
  unfold get
  dsimp only
  split
  · rename_i found
    simpa [update] using bounded _ found
  · simp

end LockMap

end Roci.Filesystem
