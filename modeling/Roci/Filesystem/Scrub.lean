import Mathlib.Data.List.Nodup

/-!
# The order of a scrub

A pass visits the blobs of all repositories in turn, one position after the other.
When a blob turns out corrupt, what is left of its repository comes next.
-/

namespace Roci.Filesystem

structure BlobEntry where
  repo : String
  digest : String
  size : Nat

/-- The blobs of one repository, by digest. -/
structure Segment where
  blobs : List BlobEntry

inductive ScrubResult where
  | ok | repaired | corrupt | skipped
deriving DecidableEq

/-- A segment and a position in it. -/
abbrev Stop := Nat × Nat

variable (segments : List Segment)

def staggeredOrder : List Stop :=
  (List.range ((segments.map (·.blobs.length)).max?.getD 0)).flatMap fun round =>
    segments.zipIdx.filterMap fun entry =>
      if round < entry.1.blobs.length then some (entry.2, round) else none

def adaptiveReorder (order : List Stop) (alreadyDone corruptSegment : Nat) : List Stop :=
  let remaining := order.drop alreadyDone
  remaining.filter (·.1 = corruptSegment) ++ remaining.filter (·.1 ≠ corruptSegment)

/-- What is left of the order after a visit. -/
def afterVisit (result : ScrubResult) : List Stop → List Stop
  | [] => []
  | visit :: rest =>
    if result = .corrupt then adaptiveReorder (visit :: rest) 1 visit.1 else rest

theorem afterVisit_perm (result : ScrubResult) (visit : Stop) (rest : List Stop) :
    (afterVisit result (visit :: rest)).Perm rest := by
  rw [afterVisit]
  split
  · simpa [adaptiveReorder] using
      List.filter_append_perm (fun other : Stop => decide (other.1 = visit.1)) rest
  · rfl

section

variable (outcome : Nat → ScrubResult)

/-- The visits of the loop from `pos` on, where the results are `outcome`.  What was
visited stays in front of the order, so only what is left of it is kept. -/
def scrubFrom (pos : Nat) : List Stop → List Stop
  | [] => []
  | visit :: rest => visit :: scrubFrom (pos + 1) (afterVisit (outcome pos) (visit :: rest))
termination_by order => order.length
decreasing_by simp [(afterVisit_perm _ _ _).length_eq]

variable (segments : List Segment)

def scrubPass : List Stop := scrubFrom outcome 0 (staggeredOrder segments)

/-- What is left of the order after so many visits. -/
def remaining : Nat → List Stop
  | 0 => staggeredOrder segments
  | pos + 1 => afterVisit (outcome pos) (remaining pos)

variable {outcome segments}

/-! ## The loop -/

theorem scrubFrom_perm (pos : Nat) (order : List Stop) :
    (scrubFrom outcome pos order).Perm order := by
  fun_induction scrubFrom outcome pos order with
  | case1 => rfl
  | case2 pos visit rest ih => exact (ih.trans (afterVisit_perm _ _ _)).cons visit

theorem drop_scrubPass (pos : Nat) : (scrubPass outcome segments).drop pos =
    scrubFrom outcome pos (remaining outcome segments pos) := by
  induction pos with
  | zero => rfl
  | succ pos ih =>
    rw [← List.tail_drop, ih, remaining]
    cases remaining outcome segments pos with
    | nil => simp [scrubFrom, afterVisit]
    | cons visit rest => rw [scrubFrom, List.tail_cons]

theorem getElem?_scrubPass (pos : Nat) :
    (scrubPass outcome segments)[pos]? = (remaining outcome segments pos).head? := by
  rw [← List.head?_drop, drop_scrubPass]
  cases remaining outcome segments pos <;> simp [scrubFrom]

theorem remaining_of_sound (pos : Nat) (sound : ∀ earlier < pos, outcome earlier ≠ .corrupt) :
    remaining outcome segments pos = (staggeredOrder segments).drop pos := by
  induction pos with
  | zero => rfl
  | succ pos ih =>
    rw [remaining, ih fun earlier before => sound earlier (by omega), ← List.tail_drop]
    cases (staggeredOrder segments).drop pos with
    | nil => rfl
    | cons visit rest => exact if_neg (sound pos (by omega))

/-- The visits of a segment come first. -/
abbrev Drains (segment : Nat) (order : List Stop) : Prop :=
  order.Pairwise fun before after => after.1 = segment → before.1 = segment

theorem drains_afterVisit (visit : Stop) (rest : List Stop) :
    Drains visit.1 (afterVisit .corrupt (visit :: rest)) := by
  refine List.pairwise_append.mpr ⟨List.pairwise_of_forall_mem_list ?_,
    List.pairwise_of_forall_mem_list ?_, ?_⟩ <;> grind

theorem Drains.scrubFrom {segment : Nat} {order : List Stop} (drains : Drains segment order)
    (pos : Nat) : Drains segment (scrubFrom outcome pos order) := by
  fun_induction Filesystem.scrubFrom outcome pos order with
  | case1 => exact drains
  | case2 pos visit rest ih =>
    obtain ⟨head, tail⟩ := List.pairwise_cons.mp drains
    have left := afterVisit_perm (outcome pos) visit rest
    refine List.pairwise_cons.mpr ⟨fun after later => head after
      (left.mem_iff.mp ((scrubFrom_perm _ _).mem_iff.mp later)), ih ?_⟩
    by_cases same : visit.1 = segment
    · by_cases corrupt : outcome pos = .corrupt
      · rw [corrupt, ← same]
        exact drains_afterVisit visit rest
      · rwa [afterVisit, if_neg corrupt]
    refine List.pairwise_of_forall_mem_list fun _ _ after later named => ?_
    exact absurd (head after (left.mem_iff.mp later) named) same

end

/-! ## The whole pass -/

theorem mem_staggeredOrder_iff (index position : Nat) :
    (index, position) ∈ staggeredOrder segments ↔
      ∃ segment ∈ segments[index]?, position < segment.blobs.length := by
  simp only [staggeredOrder, List.mem_flatMap, List.mem_range, List.mem_filterMap]
  constructor
  · rintro ⟨round, _, ⟨segment, _⟩, listed, shown⟩
    split at shown
    · cases shown
      exact ⟨segment, List.mem_zipIdx_iff_getElem?.mp listed, ‹_›⟩
    · cases shown
  rintro ⟨segment, found, within⟩
  exact ⟨position, Nat.lt_of_lt_of_le within (List.le_max?_getD_of_mem
    (List.mem_map_of_mem (List.mem_of_getElem? found))), (segment, index),
    List.mem_zipIdx_iff_getElem?.mpr found, if_pos within⟩

/-- Round by round, and by segment within a round. -/
def Sooner (before after : Stop) : Prop :=
  before.2 < after.2 ∨ before.2 = after.2 ∧ before.1 < after.1

theorem staggeredOrder_sorted :
    (staggeredOrder segments).Pairwise Sooner := by
  refine List.pairwise_flatMap.mpr ⟨fun round _ => ?_, ?_⟩
  · have indexed : segments.zipIdx.Pairwise fun before after => before.2 < after.2 :=
      List.pairwise_map.mp (by rw [List.zipIdx_map_snd]; exact List.pairwise_lt_range')
    exact List.pairwise_filterMap.mpr (indexed.imp (by grind [Sooner]))
  · exact List.pairwise_lt_range.imp (by grind [Sooner])

/-- A pass visits every blob exactly once.  Until one is corrupt it goes round by
round; then what is left of that segment comes first, and the rest in the order it
had. -/
theorem scrub_pass_covers (outcome : Nat → ScrubResult) :
    (scrubPass outcome segments).Nodup ∧
      (∀ index position, (index, position) ∈ scrubPass outcome segments ↔
        ∃ segment ∈ segments[index]?, position < segment.blobs.length) ∧
      (∀ pos, (∀ earlier < pos, outcome earlier ≠ .corrupt) →
        ((scrubPass outcome segments).take (pos + 1)).Pairwise Sooner) ∧
      (∀ pos, (scrubPass outcome segments)[pos]? = (remaining outcome segments pos).head?) ∧
      ∀ pos visit rest, remaining outcome segments pos = visit :: rest →
        (outcome pos ≠ .corrupt → remaining outcome segments (pos + 1) = rest) ∧
        (outcome pos = .corrupt → remaining outcome segments (pos + 1) =
            rest.filter (·.1 = visit.1) ++ rest.filter (·.1 ≠ visit.1) ∧
          Drains visit.1 ((scrubPass outcome segments).drop (pos + 1))) := by
  have sorted := staggeredOrder_sorted segments
  have perm := @scrubFrom_perm outcome 0 (staggeredOrder segments)
  refine ⟨perm.nodup_iff.mpr (sorted.imp (by grind [Sooner])),
    fun index position => perm.mem_iff.trans (mem_staggeredOrder_iff segments index position),
    fun pos sound => ?_, getElem?_scrubPass, fun pos visit rest equal => ?_⟩
  · have kept : (scrubPass outcome segments).take (pos + 1) =
        (staggeredOrder segments).take (pos + 1) := by
      refine List.ext_getElem? fun other => ?_
      simp only [List.getElem?_take]
      split
      · rw [getElem?_scrubPass, remaining_of_sound other fun _ _ => sound _ (by omega),
          List.head?_drop]
      · rfl
    rw [kept]
    exact sorted.sublist (List.take_sublist _ _)
  · rw [drop_scrubPass, remaining, equal]
    refine ⟨fun sound => if_neg sound, fun corrupt => ?_⟩
    rw [corrupt]
    exact ⟨by simp [afterVisit, adaptiveReorder], (drains_afterVisit _ _).scrubFrom _⟩

end Roci.Filesystem
