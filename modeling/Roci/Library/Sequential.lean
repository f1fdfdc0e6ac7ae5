import Roci.Library.Interleaving

/-!
# Calls one at a time

A call that runs alone performs its actions one after the other on a world that
nobody else changes.  `carryOut` runs it, with one choice for each action, and
lists what it did; `Ensures` is its weakest precondition, by recursion on the
program, so that a property of every run is shown by following the program.
-/

namespace Roci.Library

/-- An action that was performed, with the world it was performed in and the
choice it depended on. -/
structure Deed (World Action Choice : Type) (Response : Action → Type) where
  world : World
  action : Action
  choice : Choice
  response : Response action

structure Conclusion (World Action Choice : Type) (Response : Action → Type) (Result : Type) where
  deeds : List (Deed World Action Choice Response) := []
  result : Result
  world : World

namespace Program

variable {World Action Choice : Type} {Response : Action → Type} {Result Other : Type}
  (perform : World → (action : Action) → Choice → Option (World × Response action))

/-- Run the program alone, with one choice for each action. -/
def carryOut : Program Action Response Result → World → List Choice →
    Option (Conclusion World Action Choice Response Result)
  | finish result, world, [] => some { result := result, world := world }
  | finish _, _, _ :: _ => none
  | .perform _ _, _, [] => none
  | .perform action next, world, choice :: choices =>
    match perform world action choice with
    | none => none
    | some (middle, response) =>
      ((next response).carryOut middle choices).map fun conclusion =>
        { conclusion with deeds := ⟨world, action, choice, response⟩ :: conclusion.deeds }

/-- However the program runs alone, as long as every action meets the condition
it ends as `post` says of its deeds, its result and the world. -/
def Ensures (condition : Deed World Action Choice Response → Prop) :
    Program Action Response Result → World →
      (List (Deed World Action Choice Response) → Result → World → Prop) → Prop
  | finish result, world, post => post [] result world
  | .perform action next, world, post =>
    ∀ choice middle response, perform world action choice = some (middle, response) →
      condition ⟨world, action, choice, response⟩ →
      (next response).Ensures condition middle fun deeds =>
        post (⟨world, action, choice, response⟩ :: deeds)

variable {perform} {condition : Deed World Action Choice Response → Prop}
  {world : World}

variable {kind : Action → Prop}
  {first second middle post weaker :
    List (Deed World Action Choice Response) → Result → World → Prop}
  {goal : List (Deed World Action Choice Response) → Other → World → Prop}
  {program : Program Action Response Result} {next : Result → Program Action Response Other}
  {result : Result}

@[simp]
theorem ensures_pure :
    (pure result : Program Action Response Result).Ensures perform condition world post ↔
      post [] result world := Iff.rfl

@[simp]
theorem ensures_bind :
    (program >>= next).Ensures perform condition world goal ↔
      program.Ensures perform condition world fun deeds result reached =>
        (next result).Ensures perform condition reached fun more => goal (deeds ++ more) := by
  induction program generalizing world goal with
  | finish result => exact Iff.rfl
  | perform action rest ih =>
    exact forall_congr' fun choice => forall_congr' fun middle => forall_congr' fun response =>
      imp_congr_right fun _ => imp_congr_right fun _ => ih response

theorem Ensures.weaken (ensures : program.Ensures perform condition world post)
    (implied : ∀ deeds result reached, post deeds result reached → weaker deeds result reached) :
    program.Ensures perform condition world weaker := by
  induction program generalizing world post weaker with
  | finish result => exact implied _ _ _ ensures
  | perform action next ih =>
    exact fun choice middle response performed met => ih response
      (ensures choice middle response performed met) fun deeds => implied (_ :: deeds)

theorem Ensures.bind (ensures : program.Ensures perform condition world middle)
    (continues : ∀ deeds result reached, middle deeds result reached →
      (next result).Ensures perform condition reached fun more => goal (deeds ++ more)) :
    (program >>= next).Ensures perform condition world goal :=
  ensures_bind.mpr (ensures.weaken continues)

theorem Ensures.act_bind {action : Action} {next : Response action → Program Action Response Other}
    (performs : ∀ choice middle response, perform world action choice = some (middle, response) →
      condition ⟨world, action, choice, response⟩ → (next response).Ensures perform condition middle
        fun deeds => goal (⟨world, action, choice, response⟩ :: deeds)) :
    (Program.act action >>= next).Ensures perform condition world goal :=
  performs

theorem Ensures.and (one : program.Ensures perform condition world first)
    (other : program.Ensures perform condition world second) :
    program.Ensures perform condition world fun deeds result reached =>
      first deeds result reached ∧ second deeds result reached := by
  induction program generalizing world first second with
  | finish result => exact ⟨one, other⟩
  | perform action next ih =>
    exact fun choice middle response performed met => ih response
      (one choice middle response performed met) (other choice middle response performed met)

theorem Performs.ensures (performs : program.Performs kind) :
    program.Ensures perform condition world fun deeds _ _ => ∀ deed ∈ deeds, kind deed.action := by
  induction program generalizing world with
  | finish result => exact fun deed member => nomatch member
  | perform action next ih =>
    intro choice middle response performed met
    refine (ih response (performs.2 response)).weaken ?_
    intro deeds result reached every
    exact List.forall_mem_cons.mpr ⟨performs.1, every⟩

theorem Performs.keeps {Invariant : World → Prop} (performs : program.Performs kind)
    (keeps : ∀ world action choice next response, kind action →
      perform world action choice = some (next, response) → Invariant world → Invariant next)
    (initially : Invariant world) :
    program.Ensures perform condition world fun _ _ reached => Invariant reached := by
  induction program generalizing world with
  | finish result => exact initially
  | perform action next ih =>
    intro choice middle response performed met
    exact ih response (performs.2 response)
      (keeps world action choice middle response performs.1 performed initially)

@[simp]
theorem ensures_true (program : Program Action Response Result) :
    program.Ensures perform condition world (fun _ _ _ => True) ↔ True := by
  refine iff_of_true ?_ trivial
  induction program generalizing world with
  | finish result => exact trivial
  | perform action next ih =>
    exact fun choice middle response performed met => ih response

theorem Meets.ensures {Notes : Type} {observe : Notes → (action : Action) → Response action → Notes}
    {discipline : Discipline Action Response Notes} {post : Result → Notes → Prop} {notes : Notes}
    {Invariant : World → Notes → Prop} (met : program.Meets observe discipline notes post)
    (keeps : ∀ world notes action choice next response, discipline.allowed notes action →
      perform world action choice = some (next, response) →
      condition ⟨world, action, choice, response⟩ →
      Invariant world notes →
      discipline.expected notes action response ∧ Invariant next (observe notes action response))
    (initially : Invariant world notes) :
    program.Ensures perform condition world fun _ result reached =>
      ∃ later, post result later ∧ Invariant reached later := by
  induction program generalizing world notes with
  | finish result => exact ⟨notes, met, initially⟩
  | perform action next ih =>
    intro choice middle response performed permitted
    obtain ⟨expected, kept⟩ :=
      keeps world notes action choice middle response met.1 performed permitted initially
    exact ih response (met.2 response expected) kept

variable (perform) in
/-- The program can be run alone so that it ends as `post` says. -/
def Can : Program Action Response Result → World →
    (List (Deed World Action Choice Response) → Result → World → Prop) → Prop
  | finish result, world, post => post [] result world
  | .perform action next, world, post =>
    ∃ choice middle response, perform world action choice = some (middle, response) ∧
      (next response).Can middle fun deeds => post (⟨world, action, choice, response⟩ :: deeds)

@[simp]
theorem can_pure :
    (pure result : Program Action Response Result).Can perform world post ↔ post [] result world :=
  Iff.rfl

theorem Can.weaken (can : program.Can perform world post)
    (implied : ∀ deeds result reached, post deeds result reached → weaker deeds result reached) :
    program.Can perform world weaker := by
  induction program generalizing world post weaker with
  | finish result => exact implied _ _ _ can
  | perform action next ih =>
    obtain ⟨choice, middle, response, performed, continues⟩ := can
    exact ⟨choice, middle, response, performed,
      ih response continues fun deeds => implied (_ :: deeds)⟩

theorem Can.bind (can : program.Can perform world middle)
    (continues : ∀ deeds result reached, middle deeds result reached →
      (next result).Can perform reached fun more => goal (deeds ++ more)) :
    (program >>= next).Can perform world goal := by
  induction program generalizing world middle goal with
  | finish result => exact continues [] result world can
  | perform action rest ih =>
    obtain ⟨choice, reached, response, performed, can⟩ := can
    exact ⟨choice, reached, response, performed,
      ih response can fun deeds => continues (_ :: deeds)⟩

theorem Can.act_bind {action : Action} {middle : World} {response : Response action}
    (choice : Choice) {next : Response action → Program Action Response Other}
    (performed : perform world action choice = some (middle, response))
    (continues : (next response).Can perform middle
      fun deeds => goal (⟨world, action, choice, response⟩ :: deeds)) :
    (Program.act action >>= next).Can perform world goal :=
  ⟨choice, middle, response, performed, continues⟩

theorem Can.exists (can : program.Can perform world post) :
    ∃ choices conclusion, program.carryOut perform world choices = some conclusion ∧
      post conclusion.deeds conclusion.result conclusion.world := by
  induction program generalizing world post with
  | finish result => exact ⟨[], _, rfl, can⟩
  | perform action next ih =>
    obtain ⟨choice, middle, response, performed, continues⟩ := can
    obtain ⟨choices, conclusion, carried, ended⟩ := ih response continues
    refine ⟨choice :: choices, { conclusion with
      deeds := ⟨world, action, choice, response⟩ :: conclusion.deeds }, ?_, ended⟩
    simp only [carryOut, performed, carried]
    rfl

/-- What a run that meets the condition ends in. -/
theorem Ensures.sound {choices : List Choice}
    {conclusion : Conclusion World Action Choice Response Result}
    (ensures : program.Ensures perform condition world post)
    (carried : program.carryOut perform world choices = some conclusion)
    (met : ∀ deed ∈ conclusion.deeds, condition deed) :
    post conclusion.deeds conclusion.result conclusion.world := by
  induction program generalizing world choices conclusion post with
  | finish result =>
    cases choices with
    | nil =>
      cases carried
      exact ensures
    | cons choice choices => cases carried
  | perform action next ih =>
    rcases choices with _ | ⟨choice, choices⟩
    · cases carried
    simp only [carryOut] at carried
    split at carried
    · cases carried
    rename_i middle response performed
    obtain ⟨rest, continued, rfl⟩ := Option.map_eq_some_iff.mp carried
    simp only [List.forall_mem_cons] at met
    have ended : post (_ :: rest.deeds) rest.result rest.world :=
      ih response (ensures choice middle response performed met.1) continued met.2
    exact ended

end Program

/-! ## One call after the other -/

section

variable {World Call Action Choice : Type} {Response : Action → Type} {Result : Type}
  (perform : World → (action : Action) → Choice → Option (World × Response action))
  (code : Call → Program Action Response Result)

structure Turn (Call Choice : Type) where
  call : Call
  choices : List Choice

/-- The call runs to its end. -/
def serve (world : World) (turn : Turn Call Choice) : Option World :=
  ((code turn.call).carryOut perform world turn.choices).map Conclusion.world

/-- Every action of the call meets a condition, which may depend on the call. -/
def Heeds (condition : Call → Deed World Action Choice Response → Prop) (world : World)
    (turn : Turn Call Choice) : Prop :=
  ∀ conclusion ∈ (code turn.call).carryOut perform world turn.choices,
    ∀ deed ∈ conclusion.deeds, condition turn.call deed

variable {perform code} {condition : Call → Deed World Action Choice Response → Prop}

/-- What every call keeps holds after every call of a run. -/
theorem invariant_of_ensures {Invariant : World → Prop} {allowed : Call → Prop}
    (ensures : ∀ call world, allowed call → Invariant world →
      (code call).Ensures perform (condition call) world fun _ _ reached => Invariant reached)
    {start final : World} {turns : List (Turn Call Choice)}
    (run : Reaches (serve perform code)
      (fun world turn => allowed turn.call ∧ Heeds perform code condition world turn)
      start turns final)
    (initially : Invariant start) : Invariant final := by
  refine run.invariant (fun world turn next permitted served holds => ?_) initially
  obtain ⟨conclusion, carried, rfl⟩ := Option.map_eq_some_iff.mp served
  exact (ensures turn.call world permitted.1 holds).sound carried (permitted.2 conclusion carried)

end

end Roci.Library
