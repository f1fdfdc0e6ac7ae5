import Mathlib.Data.List.Basic

/-!
# Runs of a step function

A system is given by a partial step function: `step state event` is `none`
when the event cannot happen in the state.  `Reaches` collects the runs whose
events were all permitted in the state they were taken in; a safety result
about such runs is one step lemma handed to `Reaches.invariant`.
-/

namespace Roci.Library

universe u v

variable {State : Type u} {Event : Type v}

/-- Runs whose events were all `allowed` in the state they were taken in. -/
inductive Reaches (step : State → Event → Option State)
    (allowed : State → Event → Prop) : State → List Event → State → Prop where
  | nil (state : State) : Reaches step allowed state [] state
  | cons {state next final : State} {event : Event} {rest : List Event}
      (permitted : allowed state event)
      (stepped : step state event = some next)
      (remaining : Reaches step allowed next rest final) :
      Reaches step allowed state (event :: rest) final

namespace Reaches

variable {step : State → Event → Option State}
  {allowed : State → Event → Prop} {start final : State} {events : List Event}

/-- What holds at the start and is kept by every allowed step holds at the
end of every run. -/
theorem invariant {Invariant : State → Prop}
    (preserved : ∀ state event next, allowed state event →
      step state event = some next → Invariant state → Invariant next)
    (run : Reaches step allowed start events final)
    (initially : Invariant start) : Invariant final := by
  induction run with
  | nil => exact initially
  | cons permitted stepped _ ih =>
    exact ih (preserved _ _ _ permitted stepped initially)

/-- A run under one side condition is a run under every weaker one. -/
theorem weaken {weaker : State → Event → Prop}
    (implied : ∀ state event, allowed state event → weaker state event)
    (run : Reaches step allowed start events final) :
    Reaches step weaker start events final := by
  induction run with
  | nil => exact .nil _
  | cons permitted stepped _ ih =>
    exact .cons (implied _ _ permitted) stepped ih

/-- A condition that follows in the states of an invariant, and that keeps the
invariant, holds along the run. -/
theorem strengthen {Invariant : State → Prop} {stronger : State → Event → Prop}
    (implied : ∀ state event, allowed state event → Invariant state → stronger state event)
    (preserved : ∀ state event next, stronger state event →
      step state event = some next → Invariant state → Invariant next)
    (run : Reaches step allowed start events final) (initially : Invariant start) :
    Reaches step stronger start events final := by
  induction run with
  | nil => exact .nil _
  | cons permitted stepped _ ih =>
    have holds := implied _ _ permitted initially
    exact .cons holds stepped (ih (preserved _ _ _ holds stepped initially))

end Reaches

def execute (step : State → Event → Option State) :
    State → List Event → Option State
  | state, [] => some state
  | state, event :: rest =>
    match step state event with
    | none => none
    | some next => execute step next rest

section

variable {step : State → Event → Option State} {allowed : State → Event → Prop}
  [∀ state event, Decidable (allowed state event)] {start : State} {events : List Event}

/-- Events that execute one after the other, each allowed where it is taken,
form a run. -/
theorem reaches_of_execute {final : State}
    (executed :
      execute (fun state event => if allowed state event then step state event else none)
        start events = some final) :
    Reaches step allowed start events final := by
  induction events generalizing start with
  | nil =>
    cases executed
    exact .nil _
  | cons event rest ih =>
    by_cases permitted : allowed start event
    · cases stepped : step start event with
      | none => simp [execute, permitted, stepped] at executed
      | some next =>
        simp only [execute, permitted, if_true, stepped] at executed
        exact .cons permitted stepped (ih executed)
    · simp [execute, permitted] at executed

/-- A property found by executing events is one some run ends in. -/
theorem exists_run_of_execute {property : State → Prop} [DecidablePred property]
    (evaluated :
      (execute (fun state event => if allowed state event then step state event else none)
        start events).any (fun final => decide (property final)) = true) :
    ∃ final, Reaches step allowed start events final ∧ property final := by
  obtain ⟨final, executed, holds⟩ := (Option.any_eq_true _ _).mp evaluated
  exact ⟨final, reaches_of_execute executed, of_decide_eq_true holds⟩

end

end Roci.Library
