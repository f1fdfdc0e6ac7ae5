import Mathlib.Data.Finset.Card

/-!
# Walking a graph with a stack

A walk keeps a stack of nodes still to visit and the set of nodes ever pushed.
Visiting a node pushes its children that were never pushed before and updates a
result.  If all children lie in a finite set, a walk with as much fuel as the
stack and the rest of the set are large visits exactly the nodes reachable from
its roots.
-/

namespace Roci.Library

universe u v

variable {Node : Type u} {Result : Type v} [DecidableEq Node]

inductive Reachable (children : Node → List Node) (roots : List Node) : Node → Prop where
  | root {node : Node} (listed : node ∈ roots) : Reachable children roots node
  | child {node next : Node} (reached : Reachable children roots node)
      (listed : next ∈ children node) : Reachable children roots next

/-- What was ever pushed, and the stack. -/
structure Frontier (Node : Type u) where
  seen : List Node
  stack : List Node

variable (frontier : Frontier Node) (nodes : List Node) {visited : List Node}

namespace Frontier

def push (node : Node) : Frontier Node :=
  if node ∈ frontier.seen then frontier
  else { seen := node :: frontier.seen, stack := node :: frontier.stack }

def pushAll : Frontier Node := nodes.foldl push frontier

theorem mem_pushAll (node : Node) :
    (node ∈ (frontier.pushAll nodes).seen ↔ node ∈ frontier.seen ∨ node ∈ nodes) ∧
    (node ∈ (frontier.pushAll nodes).stack ↔
      node ∈ frontier.stack ∨ (node ∈ nodes ∧ node ∉ frontier.seen)) := by
  induction nodes generalizing frontier with
  | nil => simp [pushAll]
  | cons first rest ih =>
    rw [pushAll, List.foldl_cons, ← pushAll, (ih _).1, (ih _).2]
    unfold push
    split <;> grind

/-- What was visited is never pushed again. -/
theorem nodup_pushAll {frontier : Frontier Node} (once : (visited ++ frontier.stack).Nodup)
    (pushed : ∀ node ∈ visited ++ frontier.stack, node ∈ frontier.seen) :
    (visited ++ (frontier.pushAll nodes).stack).Nodup := by
  induction nodes generalizing frontier with
  | nil => exact once
  | cons first rest ih =>
    rw [pushAll, List.foldl_cons, ← pushAll]
    by_cases known : first ∈ frontier.seen
    · rw [push, if_pos known]
      exact ih once pushed
    rw [push, if_neg known]
    refine ih (List.nodup_middle.mpr (List.nodup_cons.mpr ⟨?_, once⟩)) fun node listed => ?_
    · exact fun listed => known (pushed first listed)
    rw [List.perm_middle.mem_iff, List.mem_cons] at listed
    exact List.mem_cons.mpr (listed.imp_right (pushed node))

/-- Nodes on the stack and nodes that may still be pushed. -/
def measure (bound : Finset Node) : Nat :=
  frontier.stack.length + (bound \ frontier.seen.toFinset).card

theorem measure_pushAll {nodes : List Node} {bound : Finset Node}
    (bounded : ∀ node ∈ nodes, node ∈ bound) :
    (frontier.pushAll nodes).measure bound = frontier.measure bound := by
  induction nodes generalizing frontier with
  | nil => rfl
  | cons first rest ih =>
    rw [List.forall_mem_cons] at bounded
    rw [pushAll, List.foldl_cons, ← pushAll, ih _ bounded.2]
    unfold push
    split
    · rfl
    rename_i fresh
    have removed : bound \ (first :: frontier.seen).toFinset =
        (bound \ frontier.seen.toFinset).erase first := by
      ext node
      simp only [List.toFinset_cons, Finset.mem_sdiff, Finset.mem_insert, List.mem_toFinset,
        Finset.mem_erase, not_or]
      tauto
    have present : first ∈ bound \ frontier.seen.toFinset := by
      simpa [bounded.1] using fresh
    have counted := Finset.card_erase_add_one present
    simp only [measure, removed, List.length_cons]
    omega

end Frontier

variable (children : Node → List Node) (visit : Result → Node → Result)

/-- Visit nodes until the stack is empty; `none` when the fuel runs out. -/
def walk : Nat → Frontier Node → Result → Option (List Node × Result)
  | _, { seen, stack := [] }, result => some (seen, result)
  | 0, { stack := _ :: _, .. }, _ => none
  | fuel + 1, { seen, stack := node :: stack }, result =>
    walk fuel (Frontier.pushAll { seen, stack } (children node)) (visit result node)

/-- What a walk has done when it stands at a frontier. -/
structure WalkInvariant (roots visited : List Node) (frontier : Frontier Node) : Prop where
  seen_iff : ∀ node, node ∈ frontier.seen ↔ node ∈ frontier.stack ∨ node ∈ visited
  closed : ∀ node ∈ visited, ∀ next ∈ children node, next ∈ frontier.seen
  reachable : ∀ node ∈ frontier.seen, Reachable children roots node
  roots_seen : ∀ node ∈ roots, node ∈ frontier.seen

variable {children}

theorem WalkInvariant.visit_head {roots seen stack : List Node} {node : Node}
    (invariant : WalkInvariant children roots visited { seen, stack := node :: stack }) :
    WalkInvariant children roots (visited ++ [node])
      (Frontier.pushAll { seen, stack } (children node)) where
  seen_iff := by
    intro other
    have before := invariant.seen_iff other
    rw [(Frontier.mem_pushAll ..).1, (Frontier.mem_pushAll ..).2]
    simp only [List.mem_cons, List.mem_append, List.not_mem_nil, or_false] at before ⊢
    tauto
  closed := by
    intro other membership next listed
    rw [(Frontier.mem_pushAll ..).1]
    rcases List.mem_append.mp membership with earlier | latest
    · exact .inl (invariant.closed other earlier next listed)
    rw [List.mem_singleton.mp latest] at listed
    exact .inr listed
  reachable := by
    intro other membership
    rcases (Frontier.mem_pushAll ..).1.mp membership with earlier | pushed
    · exact invariant.reachable other earlier
    have reached := invariant.reachable node ((invariant.seen_iff node).mpr (.inl (by simp)))
    exact reached.child pushed
  roots_seen := fun other listed =>
    (Frontier.mem_pushAll ..).1.mpr (.inl (invariant.roots_seen other listed))

omit [DecidableEq Node] in
theorem WalkInvariant.visited_iff {roots seen : List Node}
    (invariant : WalkInvariant children roots visited { seen, stack := [] }) (node : Node) :
    node ∈ visited ↔ Reachable children roots node := by
  have done : ∀ other, other ∈ seen ↔ other ∈ visited := by
    intro other
    simpa using invariant.seen_iff other
  constructor
  · exact fun membership => invariant.reachable node ((done node).mpr membership)
  intro reached
  induction reached with
  | root listed => exact (done _).mp (invariant.roots_seen _ listed)
  | child _ listed ih =>
    exact (done _).mp (invariant.closed _ ih _ listed)

theorem walk_finished {roots seen : List Node} (fuel : Nat) (result : Result)
    (invariant : WalkInvariant children roots visited { seen, stack := [] }) :
    ∃ (order : List Node) (final : List Node),
      walk children visit fuel { seen, stack := [] } result =
        some (final, order.foldl visit result) ∧
      (∀ node, node ∈ visited ++ order ↔ Reachable children roots node) ∧
      (∀ node, node ∈ final ↔ Reachable children roots node) ∧
      ((visited ++ []).Nodup → (visited ++ order).Nodup) := by
  refine ⟨[], seen, by simp [walk], ?_, ?_, id⟩
  · simpa using invariant.visited_iff
  intro node
  rw [invariant.seen_iff, ← invariant.visited_iff]
  simp

theorem walk_from {roots : List Node} {bound : Finset Node}
    (bounded : ∀ node, ∀ next ∈ children node, next ∈ bound) {fuel : Nat} {frontier : Frontier Node}
    (result : Result) (invariant : WalkInvariant children roots visited frontier)
    (enough : frontier.measure bound ≤ fuel) :
    ∃ (order : List Node) (final : List Node),
      walk children visit fuel frontier result = some (final, order.foldl visit result) ∧
      (∀ node, node ∈ visited ++ order ↔ Reachable children roots node) ∧
      (∀ node, node ∈ final ↔ Reachable children roots node) ∧
      ((visited ++ frontier.stack).Nodup → (visited ++ order).Nodup) := by
  induction fuel generalizing frontier visited result with
  | zero =>
    obtain ⟨seen, stack⟩ := frontier
    cases stack with
    | nil => exact walk_finished visit _ result invariant
    | cons node stack => simp [Frontier.measure] at enough
  | succ fuel ih =>
    obtain ⟨seen, stack⟩ := frontier
    rcases stack with _ | ⟨node, stack⟩
    · exact walk_finished visit _ result invariant
    have smaller : (Frontier.pushAll { seen, stack } (children node)).measure bound ≤ fuel := by
      rw [Frontier.measure_pushAll _ (bounded node)]
      simp only [Frontier.measure, List.length_cons] at enough ⊢
      omega
    obtain ⟨order, final, walked, visitedAll, seenAll, visitedOnce⟩ :=
      ih (visit result node) invariant.visit_head smaller
    refine ⟨node :: order, final, by simpa [walk] using walked, ?_, seenAll, fun once => ?_⟩
    · intro other
      rw [← visitedAll]
      simp
    rw [List.append_cons] at once ⊢
    refine visitedOnce (Frontier.nodup_pushAll _ once fun other listed => ?_)
    rw [invariant.seen_iff]
    simp only [List.mem_append, List.mem_cons, List.not_mem_nil, or_false] at listed ⊢
    tauto

/-- A walk from its roots visits exactly the reachable nodes, each once. -/
theorem walk_spec {roots listed : List Node}
    (bounded : ∀ node, ∀ next ∈ children node, next ∈ listed) {fuel : Nat} (result : Result)
    (enough : roots.length + listed.length ≤ fuel) :
    ∃ (order : List Node) (seen : List Node),
      walk children visit fuel { seen := roots, stack := roots } result =
        some (seen, order.foldl visit result) ∧
      (∀ node, node ∈ order ↔ Reachable children roots node) ∧
      (∀ node, node ∈ seen ↔ Reachable children roots node) ∧
      (roots.Nodup → order.Nodup) := by
  have initially : WalkInvariant children roots [] { seen := roots, stack := roots } :=
    { seen_iff := by simp
      closed := by simp
      reachable := fun _ listed => .root listed
      roots_seen := fun _ listed => listed }
  have start : (Frontier.mk roots roots).measure listed.toFinset ≤ fuel :=
    calc roots.length + (listed.toFinset \ roots.toFinset).card
      _ ≤ roots.length + listed.toFinset.card :=
        Nat.add_le_add_left (Finset.card_le_card Finset.sdiff_subset) _
      _ ≤ roots.length + listed.length := Nat.add_le_add_left (List.toFinset_card_le _) _
      _ ≤ fuel := enough
  simpa using walk_from visit (fun node next child => List.mem_toFinset.mpr
    (bounded node next child)) result initially start

end Roci.Library
