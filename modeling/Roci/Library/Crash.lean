import Roci.Library.Interleaving

/-!
# Programs that may stop at any point

A program performs actions on a world of its own and may be cut off between any
two of them.  `Guarded` states, for a program started in a given world, that an
invariant holds before and after every action and that the result is as it
should be; what is guarded may be cut off anywhere.
-/

namespace Roci.Library.Program

universe u

variable {Action : Type} {Response : Action → Type} {Result Other : Type} {World : Type u}
  {Choice : Type}
  (effect : World → (action : Action) → Choice → World × Response action)

/-- How far a program can get: what is left of it, and the world it leaves. -/
inductive Gets : Program Action Response Result → World → Program Action Response Result →
    World → Prop where
  | stay (program : Program Action Response Result) (world : World) :
      Gets program world program world
  | step {action : Action} {rest : Response action → Program Action Response Result}
      {world final : World} {left : Program Action Response Result} (choice : Choice)
      (later : Gets (rest (effect world action choice).2) (effect world action choice).1
        left final) :
      Gets (.perform action rest) world left final

def advance : List Choice → Program Action Response Result → World →
    Program Action Response Result × World
  | choice :: choices, .perform action rest, world =>
    advance choices (rest (effect world action choice).2) (effect world action choice).1
  | _, program, world => (program, world)

theorem gets_advance (choices : List Choice) (program : Program Action Response Result)
    (world : World) :
    Gets effect program world (advance effect choices program world).1
      (advance effect choices program world).2 := by
  induction choices generalizing program world with
  | nil => exact .stay _ _
  | cons choice choices ih =>
    cases program with
    | finish result => exact .stay _ _
    | perform action rest => exact .step choice (ih _ _)

variable (Invariant : World → Prop)

/-- The invariant holds all along, and `post` of the result and the world in
the end. -/
def Guarded : Program Action Response Result → World → (Result → World → Prop) → Prop
  | .finish result, world, post => Invariant world ∧ post result world
  | .perform action rest, world, post => Invariant world ∧ ∀ choice,
      (rest (effect world action choice).2).Guarded (effect world action choice).1 post

variable {effect} {Invariant} {world : World}
  {program : Program Action Response Result} {result : Result} {post : Result → World → Prop}
  {final : World} {next : Result → Program Action Response Other}

theorem Gets.bind {left : Program Action Response Other} {middle : World}
    (first : Gets effect program world (.finish result) middle)
    (second : Gets effect (next result) middle left final) :
    Gets effect (program >>= next) world left final := by
  generalize ended : Program.finish result = reached at first
  induction first with
  | stay program world =>
    subst ended
    exact second
  | step choice _ ih => exact .step choice (ih second ended)

@[simp]
theorem guarded_pure :
    (pure result : Program Action Response Result).Guarded effect Invariant world post ↔
      Invariant world ∧ post result world := Iff.rfl

@[simp]
theorem guarded_act {action : Action} {post : Response action → World → Prop} :
    (act action : Program Action Response (Response action)).Guarded effect Invariant world post ↔
      Invariant world ∧ ∀ choice, Invariant (effect world action choice).1 ∧
        post (effect world action choice).2 (effect world action choice).1 := Iff.rfl

theorem Guarded.now (guarded : program.Guarded effect Invariant world post) : Invariant world := by
  cases program with
  | _ => exact guarded.1

@[simp]
theorem guarded_bind {post : Other → World → Prop} :
    (program >>= next).Guarded effect Invariant world post ↔
      program.Guarded effect Invariant world fun result reached =>
        (next result).Guarded effect Invariant reached post := by
  induction program generalizing world with
  | finish result =>
    exact ⟨fun guarded => ⟨Guarded.now guarded, guarded⟩, fun guarded => guarded.2⟩
  | perform action rest ih =>
    exact and_congr_right fun _ => forall_congr' fun choice =>
      ih (effect world action choice).2

section

variable (guarded : program.Guarded effect Invariant world post)

include guarded

theorem Guarded.weaken {weaker : Result → World → Prop}
    (implied : ∀ result reached, Invariant reached → post result reached → weaker result reached) :
    program.Guarded effect Invariant world weaker := by
  induction program generalizing world with
  | finish result => exact ⟨guarded.1, implied _ _ guarded.1 guarded.2⟩
  | perform action rest ih =>
    exact ⟨guarded.1, fun choice => ih _ (guarded.2 choice)⟩

/-- Wherever a guarded program is cut off, the invariant holds. -/
theorem Guarded.crash {left : Program Action Response Result}
    (gets : Gets effect program world left final) : Invariant final := by
  induction gets with
  | stay program world => exact guarded.now
  | step choice _ ih => exact ih (guarded.2 choice)

theorem Guarded.returns
    (gets : Gets effect program world (.finish result) final) : post result final := by
  generalize ended : Program.finish result = left at gets
  induction gets with
  | stay program world =>
    subst ended
    exact guarded.2
  | step choice _ ih => exact ih (guarded.2 choice) ended

end

end Roci.Library.Program
