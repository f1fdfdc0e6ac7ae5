import Mathlib.Logic.Function.Basic
import Roci.Library.Transition

/-!
# Interleaved calls over shared state

A call is a program of atomic actions: it performs one, receives the response
and goes on.  Any number of calls run at once, one action at a time, and each
keeps notes of what it has seen and holds.  A call that is dropped while it
waits loses what it holds; an action already handed to the blocking pool is
carried out all the same.

Reasoning is split in two.  A `Discipline` says what a call may do given its
notes, and every call is shown to keep to it by looking at that call alone.  An
invariant of the shared state and of the notes is then shown to survive every
action the discipline admits, without looking at the calls.
-/

namespace Roci.Library

/-- Programs of atomic actions. -/
inductive Program (Action : Type) (Response : Action → Type) (Result : Type) where
  | finish (result : Result)
  | perform (action : Action) (next : Response action → Program Action Response Result)

namespace Program

variable {Action : Type} {Response : Action → Type} {Result Other Notes : Type}

def bind : Program Action Response Result → (Result → Program Action Response Other) →
    Program Action Response Other
  | finish result, next => next result
  | perform action rest, next => perform action fun response => (rest response).bind next

instance : Monad (Program Action Response) where
  pure := finish
  bind := bind

def act (action : Action) : Program Action Response (Response action) := perform action finish

def head? : Program Action Response Result → Option Action
  | finish _ => none
  | perform action _ => some action

end Program

/-- What a call may do given its notes, and which responses it has to reckon
with. -/
structure Discipline (Action : Type) (Response : Action → Type) (Notes : Type) where
  allowed : Notes → Action → Prop
  expected : Notes → (action : Action) → Response action → Prop

namespace Program

variable {Action : Type} {Response : Action → Type} {Result Other Notes : Type}
  (observe : Notes → (action : Action) → Response action → Notes)
  (discipline : Discipline Action Response Notes)

/-- Started with `notes`, the program performs allowed actions only and ends
with a result and notes that satisfy `post`. -/
def Meets : Program Action Response Result → Notes → (Result → Notes → Prop) → Prop
  | finish result, notes, post => post result notes
  | perform action next, notes, post =>
    discipline.allowed notes action ∧ ∀ response, discipline.expected notes action response →
      (next response).Meets (observe notes action response) post

variable {observe} {discipline} {notes : Notes}
  {post : Other → Notes → Prop} {program : Program Action Response Result} {result : Result}

@[simp]
theorem meets_pure {post : Result → Notes → Prop} :
    (pure result : Program Action Response Result).Meets observe discipline notes post ↔
      post result notes := Iff.rfl

variable {action : Action}

@[simp]
theorem meets_act {post : Response action → Notes → Prop} :
    (act action : Program Action Response (Response action)).Meets observe discipline notes post ↔
      discipline.allowed notes action ∧ ∀ response, discipline.expected notes action response →
        post response (observe notes action response) := Iff.rfl

variable {next : Result → Program Action Response Other}

/-- A sequence meets what its second part makes of the end of its first. -/
@[simp]
theorem meets_bind :
    (program >>= next).Meets observe discipline notes post ↔
      program.Meets observe discipline notes fun result reached =>
        (next result).Meets observe discipline reached post := by
  induction program generalizing notes with
  | finish result => exact Iff.rfl
  | perform action rest ih =>
    exact and_congr_right fun _ => forall_congr' fun response =>
      imp_congr_right fun _ => ih response

theorem Meets.weaken {post weaker : Result → Notes → Prop}
    (met : program.Meets observe discipline notes post)
    (implied : ∀ result reached, post result reached → weaker result reached) :
    program.Meets observe discipline notes weaker := by
  induction program generalizing notes with
  | finish result => exact implied _ _ met
  | perform action next ih =>
    exact ⟨met.1, fun response expected =>
      ih response (met.2 response expected)⟩

theorem Meets.bind {middle : Result → Notes → Prop}
    (met : program.Meets observe discipline notes middle)
    (continues : ∀ result reached, middle result reached →
      (next result).Meets observe discipline reached post) :
    (program >>= next).Meets observe discipline notes post :=
  meets_bind.mpr (met.weaken continues)

theorem Meets.act {next : Response action → Program Action Response Other}
    (allowed : discipline.allowed notes action)
    (continues : ∀ response, discipline.expected notes action response →
      (next response).Meets observe discipline (observe notes action response) post) :
    (Program.act action >>= next).Meets observe discipline notes post :=
  ⟨allowed, continues⟩

theorem Meets.allowed {post : Result → Notes → Prop}
    (met : program.Meets observe discipline notes post) (heads : program.head? = some action) :
    discipline.allowed notes action := by
  cases program with
  | finish result => cases heads
  | perform first next =>
    cases heads
    exact met.1

/-- Whatever it is answered, the program performs actions of one kind only. -/
def Performs (kind : Action → Prop) : Program Action Response Result → Prop
  | finish _ => True
  | perform action next => kind action ∧ ∀ response, (next response).Performs kind

variable {kind : Action → Prop}

@[simp]
theorem performs_pure : (pure result : Program Action Response Result).Performs kind := trivial

@[simp]
theorem performs_act :
    (act action : Program Action Response (Response action)).Performs kind ↔ kind action :=
  ⟨fun performs => performs.1, fun fits => ⟨fits, fun _ => trivial⟩⟩

theorem Performs.act_bind {next : Response action → Program Action Response Other}
    (fits : kind action) (continues : ∀ response, (next response).Performs kind) :
    (act action >>= next).Performs kind :=
  ⟨fits, continues⟩

theorem Performs.bind (performs : program.Performs kind)
    (continues : ∀ result, (next result).Performs kind) : (program >>= next).Performs kind := by
  induction program with
  | finish result => exact continues result
  | perform action rest ih =>
    exact ⟨performs.1, fun response => ih response (performs.2 response)⟩

theorem Performs.weaken {weaker : Action → Prop} (performs : program.Performs kind)
    (implied : ∀ action, kind action → weaker action) :
    program.Performs weaker := by
  induction program with
  | finish result => trivial
  | perform action next ih =>
    exact ⟨implied action performs.1, fun response =>
      ih response (performs.2 response)⟩

theorem performs_any (program : Program Action Response Result) :
    program.Performs fun _ => True := by
  induction program with
  | finish result => trivial
  | perform action next ih => exact ⟨trivial, ih⟩

theorem Performs.meets (performs : program.Performs kind)
    (allowed : ∀ notes action, kind action → discipline.allowed notes action) :
    program.Meets observe discipline notes fun _ _ => True := by
  induction program generalizing notes with
  | finish result => trivial
  | perform action next ih =>
    exact ⟨allowed _ _ performs.1, fun response _ =>
      ih response (performs.2 response)⟩

/-- A program of actions of one kind keeps what every such action keeps. -/
theorem Performs.meets_keeping {Fits : Notes → Prop} (performs : program.Performs kind)
    (step : ∀ notes action, kind action → Fits notes → discipline.allowed notes action ∧
      ∀ response, Fits (observe notes action response)) (initially : Fits notes) :
    program.Meets observe discipline notes fun _ reached => Fits reached := by
  induction program generalizing notes with
  | finish result => exact initially
  | perform action next ih =>
    obtain ⟨allowed, kept⟩ := step notes action performs.1 initially
    exact ⟨allowed, fun response _ =>
      ih response (performs.2 response) (kept response)⟩

end Program

/-- Two disciplines at once, the first for a part of the notes. -/
def Discipline.along {Action : Type} {Response : Action → Type} {Notes Part : Type}
    (part : Notes → Part) (first : Discipline Action Response Part)
    (second : Discipline Action Response Notes) : Discipline Action Response Notes where
  allowed notes action := first.allowed (part notes) action ∧ second.allowed notes action
  expected notes action response :=
    first.expected (part notes) action response ∧ second.expected notes action response

theorem Program.Meets.along {Action : Type} {Response : Action → Type}
    {Result Notes Part : Type} {program : Program Action Response Result}
    {observe : Notes → (action : Action) → Response action → Notes}
    {observePart : Part → (action : Action) → Response action → Part}
    {first : Discipline Action Response Part} {second : Discipline Action Response Notes}
    {one : Result → Part → Prop} {other : Result → Notes → Prop} {notes : Notes}
    (part : Notes → Part) (commutes : ∀ notes action response,
      part (observe notes action response) = observePart (part notes) action response)
    (met : program.Meets observePart first (part notes) one)
    (also : program.Meets observe second notes other) :
    program.Meets observe (first.along part second) notes fun result reached =>
      one result (part reached) ∧ other result reached := by
  induction program generalizing notes with
  | finish result => exact ⟨met, also⟩
  | perform action next ih =>
    refine ⟨⟨met.1, also.1⟩, fun response expected => ?_⟩
    refine ih response ?_ (also.2 response expected.2)
    rw [commutes]
    exact met.2 response expected.1

/-- A call under way, with what is left of its program. -/
structure Thread (Call Action : Type) (Response : Action → Type) (Result Notes : Type) where
  call : Call
  program : Program Action Response Result
  notes : Notes
  attached : Bool := true

structure System (World Call Action : Type) (Response : Action → Type) (Result Notes : Type) where
  world : World
  threads : List (Thread Call Action Response Result Notes) := []

def System.mapNotes {World Call Action : Type} {Response : Action → Type}
    {Result Notes Part : Type} (part : Notes → Part)
    (system : System World Call Action Response Result Notes) :
    System World Call Action Response Result Part where
  world := system.world
  threads := system.threads.map fun thread =>
    ⟨thread.call, thread.program, part thread.notes, thread.attached⟩

inductive Event (Call Choice : Type) where
  | start (call : Call)
  | run (thread : Nat) (choice : Choice)
  | drop (thread : Nat)

/-- The meaning of calls and actions.  `choice` stands for everything an action
depends on besides the shared state. -/
structure Machine (World Call Action : Type) (Response : Action → Type)
    (Result Notes Choice : Type) where
  code : Call → Program Action Response Result
  perform : World → Nat → (action : Action) → Choice → Option (World × Response action)
  observe : Notes → (action : Action) → Response action → Notes
  idle : Notes
  /-- What the notes of a dropped call are still good for. -/
  detach : Notes → Notes
  /-- Whether the action is carried out on the blocking pool. -/
  blocking : Action → Bool
  /-- Whether the call may be dropped before the action. -/
  awaits : Action → Bool
  /-- What a dropped call held is released. -/
  abandon : World → Nat → World

namespace Machine

variable {World Call Action : Type} {Response : Action → Type} {Result Notes Choice : Type}
  (machine : Machine World Call Action Response Result Notes Choice)
  (system : System World Call Action Response Result Notes)

def step :
    Event Call Choice → Option (System World Call Action Response Result Notes)
  | .start call =>
    some { system with
      threads := system.threads ++ [⟨call, machine.code call, machine.idle, true⟩] }
  | .run index choice =>
    match system.threads[index]? with
    | some ⟨call, .perform action next, notes, attached⟩ =>
      if attached || machine.blocking action then
        match machine.perform system.world index action choice with
        | some (world, response) =>
          some {
            world := world
            threads := system.threads.set index
              ⟨call, next response, machine.observe notes action response, attached⟩ }
        | none => none
      else none
    | _ => none
  | .drop index =>
    match system.threads[index]? with
    | some ⟨call, .perform action next, notes, true⟩ =>
      if machine.awaits action then
        some {
          world := machine.abandon system.world index
          threads := system.threads.set index
            ⟨call, .perform action next, machine.detach notes, false⟩ }
      else none
    | _ => none

/-- The notes of a call; one not made yet has none. -/
def notesAt (index : Nat) : Notes := (system.threads[index]?).elim machine.idle Thread.notes

def Quiescent : Prop := ∀ thread ∈ system.threads, thread.program.head? = none

instance (system : System World Call Action Response Result Notes) :
    Decidable (Quiescent system) :=
  inferInstanceAs (Decidable (∀ thread ∈ system.threads, thread.program.head? = none))

end Machine

/-- What a run is taken under: conditions on the calls made, on each action
with the response it gets, and on the actions a call is dropped before. -/
structure Conditions (World Call Action : Type) (Response : Action → Type)
    (Result Notes : Type) where
  calls : Call → Prop
  actions : System World Call Action Response Result Notes → Nat → (action : Action) →
    Response action → Prop
  drops : Action → Prop

def Conditions.any {World Call Action : Type} {Response : Action → Type} {Result Notes : Type} :
    Conditions World Call Action Response Result Notes where
  calls _ := True
  actions _ _ _ _ := True
  drops _ := True

namespace Machine

variable {World Call Action : Type} {Response : Action → Type} {Result Notes Choice : Type}
  (machine : Machine World Call Action Response Result Notes Choice)
  (conditions : Conditions World Call Action Response Result Notes)

def Permitted (system : System World Call Action Response Result Notes) :
    Event Call Choice → Prop
  | .start call => conditions.calls call
  | .run index choice =>
    ∀ thread ∈ system.threads[index]?, ∀ action ∈ thread.program.head?,
      ∀ outcome ∈ machine.perform system.world index action choice,
        conditions.actions system index action outcome.2
  | .drop index =>
    ∀ thread ∈ system.threads[index]?, ∀ action ∈ thread.program.head?,
      conditions.drops action

instance [∀ call, Decidable (conditions.calls call)]
    [∀ system index action response,
      Decidable (conditions.actions system index action response)]
    [∀ action, Decidable (conditions.drops action)]
    (system : System World Call Action Response Result Notes) (event : Event Call Choice) :
    Decidable (machine.Permitted conditions system event) :=
  match event with
  | .start call => inferInstanceAs (Decidable (conditions.calls call))
  | .run index choice => inferInstanceAs (Decidable
      (∀ thread ∈ system.threads[index]?, ∀ action ∈ thread.program.head?,
        ∀ outcome ∈ machine.perform system.world index action choice,
          conditions.actions system index action outcome.2))
  | .drop index => inferInstanceAs (Decidable
      (∀ thread ∈ system.threads[index]?, ∀ action ∈ thread.program.head?,
        conditions.drops action))

variable (discipline : Call → Discipline Action Response Notes)
  (post : Call → Result → Notes → Prop)
  (Invariant : World → (Nat → Notes) → Prop)

/-- The call keeps to its discipline, or it was dropped and does not act any more. -/
def Orderly (thread : Thread Call Action Response Result Notes) : Prop :=
  thread.program.Meets machine.observe (discipline thread.call) thread.notes
      (post thread.call) ∨
    (thread.attached = false ∧
      ∃ action, thread.program.head? = some action ∧ machine.blocking action = false)

structure Sound (system : System World Call Action Response Result Notes) : Prop where
  holds : Invariant system.world (machine.notesAt system)
  orderly : ∀ thread ∈ system.threads, machine.Orderly discipline post thread

/-- What has to be shown, call by call and action by action, for the invariant
to hold along every run under the conditions. -/
structure Preserves : Prop where
  codes : ∀ call, conditions.calls call →
    (machine.code call).Meets machine.observe (discipline call) machine.idle (post call)
  expects : ∀ system index action choice world response,
    conditions.actions system index action response →
    machine.perform system.world index action choice = some (world, response) →
    Invariant system.world (machine.notesAt system) →
    ∀ call, (discipline call).expected (machine.notesAt system index) action response
  keeps : ∀ system index action choice world response,
    conditions.actions system index action response →
    (∃ call, (discipline call).allowed (machine.notesAt system index) action) →
    machine.perform system.world index action choice = some (world, response) →
    Invariant system.world (machine.notesAt system) →
    Invariant world (Function.update (machine.notesAt system) index
      (machine.observe (machine.notesAt system index) action response))
  drops : ∀ call action next notes, conditions.drops action →
    (Program.perform action next).Meets machine.observe (discipline call) notes (post call) →
    machine.blocking action = false ∨
      (Program.perform action next).Meets machine.observe (discipline call)
        (machine.detach notes) (post call)
  abandons : ∀ action, conditions.drops action → ∀ world notes index,
    Invariant world notes →
    Invariant (machine.abandon world index)
      (Function.update notes index (machine.detach (notes index)))

variable {machine conditions discipline post Invariant} {events : List (Event Call Choice)}
  {final next start system : System World Call Action Response Result Notes}
  {thread : Thread Call Action Response Result Notes} {event : Event Call Choice}

theorem notesAt_start (call : Call) (program : Program Action Response Result) :
    machine.notesAt { system with
      threads := system.threads ++ [⟨call, program, machine.idle, true⟩] } =
      machine.notesAt system := by
  funext index
  unfold notesAt
  by_cases earlier : index < system.threads.length
  · simp [List.getElem?_append_left earlier]
  rw [List.getElem?_append_right (Nat.not_lt.mp earlier)]
  cases position : index - system.threads.length <;> simp [Nat.not_lt.mp earlier]

theorem notesAt_set {index : Nat} (found : system.threads[index]? = some thread) (world : World)
    (changed : Thread Call Action Response Result Notes) :
    machine.notesAt { world := world, threads := system.threads.set index changed } =
      Function.update (machine.notesAt system) index changed.notes := by
  obtain ⟨within, _⟩ := List.getElem?_eq_some_iff.mp found
  funext other
  by_cases same : other = index
  · subst same
    simp [notesAt, within]
  rw [Function.update_of_ne same]
  simp [notesAt, List.getElem?_set_ne (Ne.symm same)]

theorem notesAt_of_found {index : Nat} (found : system.threads[index]? = some thread) :
    machine.notesAt system index = thread.notes := by
  simp [notesAt, found]

variable (machine) in
theorem notesAt_mapNotes {Part : Type}
    {other : Machine World Call Action Response Result Part Choice} {part : Notes → Part}
    (idle : other.idle = part machine.idle)
    (system : System World Call Action Response Result Notes) :
    other.notesAt (system.mapNotes part) = fun index => part (machine.notesAt system index) := by
  funext index
  cases found : system.threads[index]? <;>
    simp [notesAt, System.mapNotes, found, idle]

theorem forall_notesAt (property : Notes → Prop) (initially : property machine.idle)
    (every : ∀ thread ∈ system.threads, property thread.notes) (index : Nat) :
    property (machine.notesAt system index) := by
  unfold notesAt
  cases found : system.threads[index]? with
  | none => exact initially
  | some thread => exact every thread (List.mem_of_getElem? found)

theorem Sound.set {index : Nat} {changed : Thread Call Action Response Result Notes} {world : World}
    (sound : machine.Sound discipline post Invariant system)
    (found : system.threads[index]? = some thread)
    (holds : Invariant world (Function.update (machine.notesAt system) index changed.notes))
    (orderly : machine.Orderly discipline post changed) :
    machine.Sound discipline post Invariant
      { world := world, threads := system.threads.set index changed } where
  holds := by
    rw [notesAt_set found]
    exact holds
  orderly := by
    intro other membership
    rcases List.mem_or_eq_of_mem_set membership with before | equal
    · exact sound.orderly other before
    subst equal
    exact orderly

theorem Orderly.meets {call : Call} {action : Action}
    {next : Response action → Program Action Response Result} {notes : Notes} {attached : Bool}
    (orderly : machine.Orderly discipline post ⟨call, .perform action next, notes, attached⟩)
    (able : (attached || machine.blocking action) = true) :
    (Program.perform action next).Meets machine.observe (discipline call) notes (post call) := by
  rcases orderly with meets | ⟨detached, _, heads, inert⟩
  · exact meets
  cases heads
  simp only at detached
  rw [detached, inert] at able
  cases able

variable (machine) in
inductive Stepped (system next : System World Call Action Response Result Notes) :
    Event Call Choice → Prop where
  | start (call : Call)
      (started : next = { system with
        threads := system.threads ++ [⟨call, machine.code call, machine.idle, true⟩] }) :
      Stepped system next (.start call)
  | run {index : Nat} {choice : Choice} {call : Call} {action : Action}
      {rest : Response action → Program Action Response Result} {notes : Notes}
      {attached : Bool} {world : World} {response : Response action}
      (found : system.threads[index]? = some ⟨call, .perform action rest, notes, attached⟩)
      (able : (attached || machine.blocking action) = true)
      (performed : machine.perform system.world index action choice = some (world, response))
      (ran : next = {
        world := world
        threads := system.threads.set index
          ⟨call, rest response, machine.observe notes action response, attached⟩ }) :
      Stepped system next (.run index choice)
  | drop {index : Nat} {call : Call} {action : Action}
      {rest : Response action → Program Action Response Result} {notes : Notes}
      (found : system.threads[index]? = some ⟨call, .perform action rest, notes, true⟩)
      (dropped : next = {
        world := machine.abandon system.world index
        threads := system.threads.set index
          ⟨call, .perform action rest, machine.detach notes, false⟩ }) :
      Stepped system next (.drop index)

theorem stepped_of_step (stepped : machine.step system event = some next) :
    machine.Stepped system next event := by
  cases event with
  | start call => exact .start call (Option.some.inj stepped).symm
  | run index choice =>
    simp only [Machine.step] at stepped
    split at stepped
    · rename_i call action rest notes attached found
      split_ifs at stepped with able
      split at stepped
      · rename_i world response performed
        exact .run found able performed (Option.some.inj stepped).symm
      · cases stepped
    · cases stepped
  | drop index =>
    simp only [Machine.step] at stepped
    split at stepped
    · rename_i call action rest notes found
      split_ifs at stepped
      exact .drop found (Option.some.inj stepped).symm
    · cases stepped

theorem permitted_any : machine.Permitted .any system event := by
  cases event with
  | start call => trivial
  | run index choice => exact fun _ _ _ _ _ _ => trivial
  | drop index => exact fun _ _ _ _ => trivial

instance : Decidable (machine.Permitted .any system event) := .isTrue permitted_any

section

variable (preserves : machine.Preserves conditions discipline post Invariant)

include preserves

/-- Step lemma. -/
theorem Preserves.step (permitted : machine.Permitted conditions system event)
    (stepped : machine.step system event = some next)
    (sound : machine.Sound discipline post Invariant system) :
    machine.Sound discipline post Invariant next := by
  cases stepped_of_step stepped with
  | start call started =>
    subst started
    refine ⟨?_, ?_⟩
    · rw [notesAt_start]
      exact sound.holds
    intro thread membership
    rcases List.mem_append.mp membership with before | new
    · exact sound.orderly thread before
    rw [List.mem_singleton] at new
    subst new
    exact .inl (preserves.codes call permitted)
  | run found able performed ran =>
    subst ran
    have condition := permitted _ found _ rfl _ performed
    have noted : machine.notesAt system _ = _ := notesAt_of_found found
    obtain ⟨allowed, continues⟩ := (sound.orderly _ (List.mem_of_getElem? found)).meets able
    have kept := preserves.keeps _ _ _ _ _ _ condition ⟨_, by rw [noted]; exact allowed⟩
      performed sound.holds
    have expected := preserves.expects _ _ _ _ _ _ condition performed sound.holds
    rw [noted] at kept expected
    exact sound.set found kept (.inl (continues _ (expected _)))
  | @drop index _ _ _ _ found dropped =>
    subst dropped
    have condition := permitted _ found _ rfl
    have noted : machine.notesAt system index = _ := notesAt_of_found found
    have released := preserves.abandons _ condition _ _ index sound.holds
    rw [noted] at released
    refine sound.set found released ?_
    have meets := (sound.orderly _ (List.mem_of_getElem? found)).meets (by rfl)
    rcases preserves.drops _ _ _ _ condition meets with inert | still
    · exact .inr ⟨rfl, _, rfl, inert⟩
    · exact .inl still

/-- Run lemma. -/
theorem Preserves.run (run : Reaches machine.step (machine.Permitted conditions) start events final)
    (unused : start.threads = []) (initially : Invariant start.world fun _ => machine.idle) :
    machine.Sound discipline post Invariant final := by
  refine run.invariant (fun _ _ _ permitted stepped => preserves.step permitted stepped) ?_
  refine ⟨?_, ?_⟩
  · have none : machine.notesAt start = fun _ => machine.idle := by
      funext index
      simp [notesAt, unused]
    rw [none]
    exact initially
  · simp [unused]

theorem Preserves.noted {Fits : Call → Notes → Prop} (initially : ∀ call, Fits call machine.idle)
    (kept : ∀ call notes action response, (discipline call).allowed notes action →
      (discipline call).expected notes action response → Fits call notes →
      Fits call (machine.observe notes action response))
    (detached : ∀ call notes, Fits call notes → Fits call (machine.detach notes))
    (run : Reaches machine.step (machine.Permitted conditions) start events final)
    (unused : start.threads = []) (holds : Invariant start.world fun _ => machine.idle) :
    ∀ thread ∈ final.threads, Fits thread.call thread.notes := by
  have step : ∀ system event next, machine.Permitted conditions system event →
      machine.step system event = some next →
      (machine.Sound discipline post Invariant system ∧
        ∀ thread ∈ system.threads, Fits thread.call thread.notes) →
      machine.Sound discipline post Invariant next ∧
        ∀ thread ∈ next.threads, Fits thread.call thread.notes := by
    rintro system event next permitted stepped ⟨sound, fits⟩
    refine ⟨preserves.step permitted stepped sound, ?_⟩
    intro thread membership
    cases stepped_of_step stepped with
    | start call started =>
      subst started
      rcases List.mem_append.mp membership with before | new
      · exact fits thread before
      rw [List.mem_singleton] at new
      subst new
      exact initially call
    | run found able performed ran =>
      subst ran
      rcases List.mem_or_eq_of_mem_set membership with before | rfl
      · exact fits thread before
      have listed := List.mem_of_getElem? found
      have noted : machine.notesAt system _ = _ := notesAt_of_found found
      have expected := preserves.expects _ _ _ _ _ _ (permitted _ found _ rfl _ performed)
        performed sound.holds
      rw [noted] at expected
      exact kept _ _ _ _ ((sound.orderly _ listed).meets able).1 (expected _) (fits _ listed)
    | drop found dropped =>
      subst dropped
      rcases List.mem_or_eq_of_mem_set membership with before | rfl
      · exact fits thread before
      · exact detached _ _ (fits _ (List.mem_of_getElem? found))
  exact (run.invariant step ⟨preserves.run (.nil _) unused holds, by simp [unused]⟩).2

end

theorem Sound.returned (sound : machine.Sound discipline post Invariant system)
    (membership : thread ∈ system.threads) {result : Result}
    (returned : thread.program = .finish result) :
    post thread.call result thread.notes := by
  rcases sound.orderly thread membership with met | ⟨_, _, heads, _⟩
  · rw [returned] at met
    exact met
  rw [returned] at heads
  cases heads

/-- Once every call has returned, each has ended as it should. -/
theorem Sound.quiescent (sound : machine.Sound discipline post Invariant system)
    (returned : Quiescent system) (property : Notes → Prop) (initially : property machine.idle)
    (ended : ∀ call result notes, post call result notes → property notes) (index : Nat) :
    property (machine.notesAt system index) := by
  refine forall_notesAt property initially (fun thread membership => ?_) index
  have finished := returned thread membership
  cases shape : thread.program with
  | finish result => exact ended _ result _ (sound.returned membership shape)
  | perform action next =>
    rw [shape] at finished
    cases finished

end Machine

end Roci.Library
