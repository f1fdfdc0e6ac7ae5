import Roci.Layout.Flush

/-!
# Write-behind never loses an update

The mark of a repository counts from one again after each flush that forgot it,
so equal counts do not by themselves mean that nothing happened.  They do
between a snapshot and the comparison, because only the one background task ever
forgets a mark.  A repository without a mark therefore has an index built from
answers that miss no operation, except for those of calls that have yet to mark
it a second time.
-/

namespace Roci.Layout.Flush

open Roci.Library Roci.Metadata
open Program (meets_act meets_bind)
open Function (forall_update_iff update update_eq_self update_of_ne update_self)

/-! ## Answers and moments -/

section Moments

variable (reader : JsonReader) (start : World)

def storeAt (history : List (Nat × MetaOp)) (moment : Nat) : State :=
  ((history.take moment).map Prod.snd).foldl (State.applyInRam reader) start.store

def Answer.TrueOf (store : State) : Answer → Prop
  | .manifests repo digests => digests = store.manifests repo
  | .mediaType repo digest found => found = store.manifestMediaType repo digest
  | .referrers repo found =>
    ∃ order : IterOrder, found = order.arrange repo (store.referrersSnapshot repo)
  | .tags repo found => found = store.tagsSnapshot repo

/-- The store gave this answer after at least `floor` operations. -/
def Recent (history : List (Nat × MetaOp)) (floor : Nat) (answer : Answer) : Prop :=
  ∃ moment, floor ≤ moment ∧ moment ≤ history.length ∧
    answer.TrueOf (storeAt reader start history moment)

def pieces (repo : String) (answers : Answers) : List Answer :=
  .manifests repo answers.known ::
    (answers.described.map fun entry => .mediaType repo entry.1 entry.2.1) ++
    [.referrers repo answers.referrers, .tags repo answers.tags]

variable {answer : Answer} {answers : Answers} {moment : Nat} {repo : String}

theorem forall_pieces {property : Answer → Prop} :
    (∀ answer ∈ pieces repo answers, property answer) ↔
      property (.manifests repo answers.known) ∧
      (∀ entry ∈ answers.described, property (.mediaType repo entry.1 entry.2.1)) ∧
      property (.referrers repo answers.referrers) ∧ property (.tags repo answers.tags) := by
  simp only [pieces, List.cons_append, List.forall_mem_cons, List.forall_mem_append,
    List.forall_mem_map, List.not_mem_nil, false_implies, implies_true, and_true]

/-- The index was rebuilt from answers that reflect the first `floor`
operations. -/
def Produced (history : List (Nat × MetaOp)) (floor : Nat) (repo : String) (index : Json) : Prop :=
  ∃ answers existing, index = Answers.index reader answers existing ∧
    ∀ answer ∈ pieces repo answers, Recent reader start history floor answer

variable {reader start} {history : List (Nat × MetaOp)} {floor : Nat}

theorem storeAt_append (within : moment ≤ history.length) (more : List (Nat × MetaOp)) :
    storeAt reader start (history ++ more) moment = storeAt reader start history moment := by
  rw [storeAt, List.take_append_of_le_length within]
  rfl

theorem Recent.append (recent : Recent reader start history floor answer)
    (more : List (Nat × MetaOp)) : Recent reader start (history ++ more) floor answer := by
  obtain ⟨moment, above, within, holds⟩ := recent
  refine ⟨moment, above, ?_, ?_⟩
  · rw [List.length_append]
    omega
  rw [storeAt_append within]
  exact holds

theorem Produced.append {index : Json} (produced : Produced reader start history floor repo index)
    (more : List (Nat × MetaOp)) : Produced reader start (history ++ more) floor repo index := by
  obtain ⟨answers, existing, built, recent⟩ := produced
  exact ⟨answers, existing, built, fun answer listed => (recent answer listed).append more⟩

theorem Answer.TrueOf.later (listed : answer ∈ pieces repo answers)
    (holds : answer.TrueOf (storeAt reader start history moment))
    (nothing : ∀ entry ∈ history.drop moment, entry.2.repo ≠ repo) :
    answer.TrueOf (storeAt reader start history history.length) := by
  have same : (storeAt reader start history history.length).repo repo =
      (storeAt reader start history moment).repo repo := by
    have split : (history.take history.length).map Prod.snd =
        (history.take moment).map Prod.snd ++ (history.drop moment).map Prod.snd := by
      rw [← List.map_append, List.take_append_drop, List.take_length]
    rw [storeAt, storeAt, split, List.foldl_append, State.repo_foldl]
    have none : ((history.drop moment).map Prod.snd).filter (·.repo = repo) = [] := by
      rw [List.filter_eq_nil_iff]
      intro op membership
      obtain ⟨entry, later, rfl⟩ := List.mem_map.mp membership
      simpa using nothing entry later
    rw [none]
    rfl
  simp only [pieces, List.cons_append, List.mem_cons, List.mem_append, List.mem_map,
    List.not_mem_nil, or_false] at listed
  rcases listed with rfl | ⟨entry, _, rfl⟩ | rfl | rfl
  · simpa only [Answer.TrueOf, State.manifests_eq, same] using holds
  · simpa only [Answer.TrueOf, State.manifestMediaType_eq, same] using holds
  · simpa only [Answer.TrueOf, State.referrersSnapshot_eq, same] using holds
  · simpa only [Answer.TrueOf, State.tagsSnapshot_eq, same] using holds

theorem find?_key {Value : Type} {entries : List (String × Value)}
    (nodup : (entries.map Prod.fst).Nodup) {entry : String × Value} (listed : entry ∈ entries) :
    entries.find? (·.1 = entry.1) = some entry := by
  induction entries with
  | nil => simp at listed
  | cons head tail ih =>
    rw [List.map_cons, List.nodup_cons] at nodup
    rcases List.mem_cons.mp listed with rfl | later
    · simp
    have different : head.1 ≠ entry.1 := by
      intro same
      exact nodup.1 (same ▸ List.mem_map_of_mem later)
    rw [List.find?_cons_of_neg (by simpa using different)]
    exact ih nodup.2 later

theorem index_of_answers {store : State}
    (hold : ∀ answer ∈ pieces repo answers, answer.TrueOf store) (existing : Option Json) :
    ∃ order sizeLookup, answers.index reader existing =
      indexFromMeta reader order store repo existing sizeLookup := by
  obtain ⟨manifests, mediaTypes, ⟨order, referrers⟩, tags⟩ := forall_pieces.mp hold
  let sizeLookup (digest : String) : Option UInt64 :=
    (answers.described.find? (·.1 = digest)).bind fun entry => entry.2.2
  have nodup : (answers.described.map Prod.fst).Nodup := by
    change answers.known.Nodup
    rw [manifests, State.manifests_eq]
    exact Std.ExtTreeMap.nodup_keys
  have described : answers.described = (store.manifests repo).map fun digest =>
      (digest, store.manifestMediaType repo digest, sizeLookup digest) := by
    rw [← show answers.known = store.manifests repo from manifests, Answers.known, List.map_map]
    nth_rewrite 1 [← List.map_id answers.described]
    refine List.map_congr_left fun entry listed => ?_
    have found := find?_key nodup listed
    simp only [Function.comp_apply, sizeLookup, found, Option.bind_some, id]
    rw [← show entry.2.1 = _ from mediaTypes entry listed]
  refine ⟨order, sizeLookup, ?_⟩
  rw [← Answers.index_ofStore]
  congr 1
  cases answers
  simp only [Answer.TrueOf] at described referrers tags
  rw [Answers.ofStore, described, referrers, tags]

end Moments

/-! ## What the calls may do -/

variable (reader : JsonReader)

/-- Marks and operations in turn, and flushes that write what the answers say and
clear what they have written. -/
def marking (call : Call) : Discipline Action Response Notes where
  allowed notes
    | .mark repo => notes.stage = .idle ∨ notes.stage = .applied repo
    | .apply op => call = .applyMeta op ∧ notes.stage = .marked op.repo
    | .beginFlush => notes.flushing = false
    | .writeIndex repo index =>
      (∃ generation, (repo, generation) ∈ notes.pending) ∧
        ∃ answers existing, index = Answers.index reader answers existing ∧
          ∀ answer ∈ pieces repo answers, answer ∈ notes.seen
    | .clear repo generation =>
      notes.flushing = true ∧ (repo, generation) ∈ notes.pending ∧ repo ∈ notes.wrote
    | .readIndex _ => True
    | .size _ _ => True
    | _ => notes.flushing = true
  expected _
    | .snapshot, snapshot => (snapshot.map Prod.fst).Nodup
    | _, _ => True

/-- A call of `apply_meta` returns after its second mark. -/
def Settled (call : Call) (_ : Bool) (notes : Notes) : Prop :=
  ∀ op, call = .applyMeta op → notes.stage = .done op.repo

section Calls

variable {reader : JsonReader} {call : Call} {notes : Notes}

theorem meets_describe {repo : String} {digests : List String}
    {post : List (String × Option String × Option UInt64) → Notes → Prop}
    (flushing : notes.flushing = true)
    (ends : ∀ described more, described.map Prod.fst = digests →
      (∀ answer ∈ notes.seen, answer ∈ more) →
      (∀ entry ∈ described, Answer.mediaType repo entry.1 entry.2.1 ∈ more) →
      post described { notes with seen := more }) :
    (describe repo digests).Meets observe (marking reader call) notes post := by
  induction digests generalizing notes post with
  | nil => exact ends [] notes.seen rfl (fun _ => id) (by simp)
  | cons digest rest ih =>
    simp only [describe, meets_bind, meets_act]
    refine ⟨flushing, fun mediaType _ => ⟨trivial, fun size _ => ?_⟩⟩
    refine ih flushing fun described more sameDigests kept listed => ?_
    refine ends _ more (by rw [List.map_cons, sameDigests]) ?_ ?_
    · exact fun answer seen => kept answer (List.mem_cons_of_mem _ seen)
    intro entry membership
    rcases List.mem_cons.mp membership with rfl | later
    · exact kept _ List.mem_cons_self
    · exact listed entry later

theorem meets_gather {repo : String} {post : Answers → Notes → Prop}
    (flushing : notes.flushing = true)
    (ends : ∀ answers more, (∀ answer ∈ pieces repo answers, answer ∈ more) →
      post answers { notes with seen := more }) :
    (gather repo).Meets observe (marking reader call) notes post := by
  simp only [gather, meets_bind, meets_act]
  refine ⟨flushing, fun known _ => ?_⟩
  refine meets_describe flushing fun described more sameDigests kept listed => ?_
  refine ⟨flushing, fun referrers _ => ⟨flushing, fun tags _ => ?_⟩⟩
  refine ends ⟨described, referrers, tags⟩ (.tags repo tags :: .referrers repo referrers :: more) ?_
  have known : Answer.manifests repo (Answers.known ⟨described, referrers, tags⟩) ∈ more := by
    rw [Answers.known, sameDigests]
    exact kept _ List.mem_cons_self
  rw [forall_pieces]
  refine ⟨List.mem_cons_of_mem _ (List.mem_cons_of_mem _ known), fun entry membership => ?_, ?_, ?_⟩
  · exact List.mem_cons_of_mem _ (List.mem_cons_of_mem _ (listed entry membership))
  · exact List.mem_cons_of_mem _ List.mem_cons_self
  · exact List.mem_cons_self

variable {post : Unit → Notes → Prop}

theorem meets_flushEntry {repo : String} {generation : UInt64} (flushing : notes.flushing = true)
    (listed : (repo, generation) ∈ notes.pending)
    (ends : ∀ reached : Notes, reached.flushing = true →
      (∀ entry ∈ notes.pending, entry.1 ≠ repo → entry ∈ reached.pending) → post () reached) :
    (flushEntry reader repo generation).Meets observe (marking reader call) notes post := by
  simp only [flushEntry, meets_bind, meets_act]
  refine ⟨trivial, fun existing _ => ?_⟩
  rcases existing with _ | existing
  · exact ends notes flushing fun _ pending _ => pending
  simp only [meets_bind]
  refine meets_gather flushing fun answers more every => ?_
  refine ⟨⟨⟨generation, listed⟩, answers, existing, rfl, every⟩, fun written _ => ?_⟩
  cases written with
  | false => exact ends _ flushing fun _ pending _ => pending
  | true =>
    refine ⟨⟨flushing, listed, List.mem_cons_self⟩, fun _ _ => ?_⟩
    refine ends _ flushing fun entry pending different => ?_
    exact List.mem_filter.mpr ⟨pending, by simpa using different⟩

theorem meets_flushEach {entries : List (String × UInt64)} (nodup : (entries.map Prod.fst).Nodup)
    (flushing : notes.flushing = true) (listed : ∀ entry ∈ entries, entry ∈ notes.pending)
    (ends : ∀ reached : Notes, reached.flushing = true → post () reached) :
    (flushEach reader entries).Meets observe (marking reader call) notes post := by
  induction entries generalizing notes with
  | nil => exact ends notes flushing
  | cons entry rest ih =>
    rw [List.map_cons, List.nodup_cons] at nodup
    simp only [flushEach, meets_bind]
    refine meets_flushEntry flushing (listed entry List.mem_cons_self) ?_
    intro reached still kept
    refine ih nodup.2 still ?_
    intro other later
    refine kept other (listed other (List.mem_cons_of_mem _ later)) ?_
    intro same
    exact nodup.1 (same ▸ List.mem_map_of_mem later)

theorem meets_code (call : Call) :
    (code reader call).Meets observe (marking reader call) {} (Settled call) := by
  cases call with
  | applyMeta op =>
    simp only [code, applyMeta, meets_bind, meets_act]
    refine ⟨.inl rfl, fun _ _ => ⟨⟨rfl, rfl⟩, fun _ _ => ⟨.inr rfl, fun _ _ other same => ?_⟩⟩⟩
    cases same
    rfl
  | flushDirty =>
    simp only [code, flushDirty, meets_bind, meets_act]
    refine ⟨rfl, fun _ _ => ⟨rfl, fun snapshot nodup => ?_⟩⟩
    refine meets_flushEach nodup rfl (fun _ => id) fun reached flushing => ?_
    exact ⟨flushing, fun _ _ _ same => by cases same⟩

end Calls

/-! ## The invariant -/

section Invariant

variable (reader : JsonReader) (start : World)

/-- Operations on the repository after the first `floor` belong to calls that
have yet to mark it again. -/
def Unfinished (history : List (Nat × MetaOp)) (notes : Nat → Notes) (floor : Nat)
    (repo : String) : Prop :=
  ∀ position caller op, floor ≤ position → history[position]? = some (caller, op) →
    op.repo = repo → (notes caller).stage = .applied repo

structure Untouched (world : World) (notes : Nat → Notes) (repo : String) : Prop where
  layout : world.layout[repo]? = start.layout[repo]?
  history : ∀ entry ∈ world.history, entry.2.repo ≠ repo
  unmarked : ∀ index, (notes index).stage.repo? ≠ some repo

def UpToDate (world : World) (notes : Nat → Notes) (repo : String) : Prop :=
  ∃ index floor, world.layout[repo]? = some (.json index) ∧
    Produced reader start world.history floor repo index ∧
    Unfinished world.history notes floor repo

structure Flushing (world : World) (notes : Nat → Notes) (flush : Notes) : Prop where
  resting : flush.flushing = false → flush.pending = [] ∧ flush.seen = [] ∧ flush.wrote = []
  pending : ∀ entry ∈ flush.pending, ∃ generation, world.dirty[entry.1]? = some generation ∧
    entry.2 ≤ generation ∧
    (generation = entry.2 → Unfinished world.history notes world.since entry.1)
  seen : ∀ answer ∈ flush.seen, Recent reader start world.history world.since answer
  wrote : ∀ repo ∈ flush.wrote, ∃ index, world.layout[repo]? = some (.json index) ∧
    Produced reader start world.history world.since repo index

structure Invariant (world : World) (notes : Nat → Notes) : Prop where
  writer : ∀ index, (notes index).flushing = true → world.writer = some index
  flushes : ∀ index, Flushing reader start world notes (notes index)
  clean : ∀ repo : String, world.dirty[repo]? = none →
    Untouched start world notes repo ∨ UpToDate reader start world notes repo
  store : world.store = storeAt reader start world.history world.history.length
  since : world.since ≤ world.history.length

end Invariant

section Steps

variable {reader : JsonReader} {orders : Nat → IterOrder} {start world : World}
  {notes : Nat → Notes} {index : Nat} {changed : Notes}
  {repo : String} {history : List (Nat × MetaOp)}

theorem Unfinished.update {floor : Nat} (unfinished : Unfinished history notes floor repo)
    (kept : (notes index).stage = .applied repo → changed.stage = .applied repo) :
    Unfinished history (update notes index changed) floor repo := by
  intro position caller op above found named
  have before := unfinished position caller op above found named
  by_cases same : caller = index
  · subst same
    rw [update_self]
    exact kept before
  rw [update_of_ne same]
  exact before

variable {op : MetaOp}

theorem Unfinished.append {floor : Nat} (unfinished : Unfinished history notes floor repo)
    (before : (notes index).stage ≠ .applied repo) (after : changed.stage = .applied op.repo) :
    Unfinished (history ++ [(index, op)]) (Function.update notes index changed) floor repo := by
  intro position caller other above found named
  by_cases earlier : position < history.length
  · rw [List.getElem?_append_left earlier] at found
    have kept : Unfinished history (Function.update notes index changed) floor repo :=
      unfinished.update fun applied => absurd applied before
    exact kept position caller other above found named
  rw [List.getElem?_append_right (Nat.not_lt.mp earlier)] at found
  obtain ⟨_, same⟩ := List.getElem?_eq_some_iff.mp found
  rw [List.getElem_singleton, Prod.mk.injEq] at same
  obtain ⟨rfl, rfl⟩ := same
  rw [update_self, after, named]

theorem Flushing.update {flush : Notes} (flushing : Flushing reader start world notes flush)
    (kept : ∀ repo, (notes index).stage = .applied repo → changed.stage = .applied repo) :
    Flushing reader start world (update notes index changed) flush where
  resting := flushing.resting
  pending entry listed := by
    obtain ⟨generation, found, bound, unfinished⟩ := flushing.pending entry listed
    exact ⟨generation, found, bound, fun same => (unfinished same).update (kept entry.1)⟩
  seen := flushing.seen
  wrote := flushing.wrote

theorem Untouched.update (untouched : Untouched start world notes repo)
    (elsewhere : changed.stage.repo? ≠ some repo) :
    Untouched start world (update notes index changed) repo where
  layout := untouched.layout
  history := untouched.history
  unmarked := (forall_update_iff notes fun _ notes => notes.stage.repo? ≠ some repo).mpr
    ⟨elsewhere, fun other _ => untouched.unmarked other⟩

section

variable (invariant : Invariant reader start world notes)

include invariant

theorem Invariant.clean_update {next : World} (unmarked : world.dirty[repo]? = none)
    (layout : next.layout[repo]? = world.layout[repo]?) (history : next.history = world.history)
    (elsewhere : (notes index).stage.repo? ≠ some repo → changed.stage.repo? ≠ some repo)
    (kept : (notes index).stage = .applied repo → changed.stage = .applied repo) :
    Untouched start next (update notes index changed) repo ∨
      UpToDate reader start next (update notes index changed) repo := by
  rcases invariant.clean repo unmarked with
    untouched | ⟨content, floor, found, produced, unfinished⟩
  · have updated := @Untouched.update start world notes index changed repo untouched
      (elsewhere (untouched.unmarked index))
    exact .inl ⟨layout.trans updated.layout, history ▸ updated.history, updated.unmarked⟩
  exact .inr ⟨content, floor, layout.trans found, history ▸ produced,
    history ▸ unfinished.update kept⟩

theorem Invariant.writer_update (flushing : changed.flushing = (notes index).flushing) :
    ∀ other, (update notes index changed other).flushing = true → world.writer = some other :=
  (forall_update_iff notes fun other notes =>
    notes.flushing = true → world.writer = some other).mpr
    ⟨fun busy => invariant.writer index (flushing ▸ busy), fun other _ => invariant.writer other⟩

theorem Invariant.alone
    (busy : (notes index).flushing = true) {other : Nat} (different : other ≠ index) :
    (notes other).flushing = false := by
  cases held : (notes other).flushing with
  | false => rfl
  | true =>
    have mine := invariant.writer index busy
    rw [invariant.writer other held] at mine
    exact absurd (Option.some.inj mine) different

theorem Invariant.learn (writer : Option Nat) (stage : changed.stage = (notes index).stage)
    (holds : ∀ other, (update notes index changed other).flushing = true → writer = some other)
    (found : Flushing reader start world notes changed) :
    Invariant reader start { world with writer := writer } (update notes index changed) := by
  have flushes : ∀ flush, Flushing reader start world notes flush →
      Flushing reader start { world with writer := writer } (update notes index changed) flush := by
    intro flush flushing
    have updated : Flushing reader start world (update notes index changed) flush :=
      flushing.update fun _ => stage.trans
    exact { updated with }
  refine ⟨holds, ?_, ?_, invariant.store, invariant.since⟩
  · exact (forall_update_iff notes _).mpr
      ⟨flushes _ found, fun other _ => flushes _ (invariant.flushes other)⟩
  · exact fun repo unmarked => invariant.clean_update unmarked rfl rfl (stage ▸ id) stage.trans

theorem Invariant.see {answer : Answer}
    (busy : (notes index).flushing = true) (holds : answer.TrueOf world.store) :
    Invariant reader start world (update notes index
      { notes index with seen := answer :: (notes index).seen }) := by
  have flushing := invariant.flushes index
  refine invariant.learn world.writer rfl (invariant.writer_update rfl)
    ⟨?_, flushing.pending, ?_, flushing.wrote⟩
  · exact fun idle => nomatch busy.symm.trans idle
  intro other listed
  rcases List.mem_cons.mp listed with rfl | earlier
  · refine ⟨world.history.length, invariant.since, le_refl _, ?_⟩
    rw [← invariant.store]
    exact holds
  · exact flushing.seen other earlier

theorem Invariant.mark (room : world.dirty[repo]? ≠ some 18446744073709551615)
    (allowed : (notes index).stage = .idle ∨ (notes index).stage = .applied repo) :
    Invariant reader start { world with dirty := world.dirty.upsert repo 0 (· + 1) }
      (update notes index { notes index with stage := (notes index).stage.afterMark repo }) := by
  have elsewhere : ∀ other, other ≠ repo → (notes index).stage ≠ .applied other := by
    intro other different applied
    rcases allowed with idle | mine
    · rw [idle] at applied
      cases applied
    rw [mine] at applied
    cases applied
    exact different rfl
  have flushes : ∀ flush, Flushing reader start world notes flush →
      Flushing reader start { world with dirty := world.dirty.upsert repo 0 (· + 1) }
        (update notes index
          { notes index with stage := (notes index).stage.afterMark repo }) flush := by
    intro flush flushing
    refine ⟨flushing.resting, fun entry listed => ?_, flushing.seen, flushing.wrote⟩
    obtain ⟨generation, found, bound, unfinished⟩ := flushing.pending entry listed
    simp only [StringMap.lookup_upsert]
    by_cases same : entry.1 = repo
    · rw [← same, found] at room
      have unlike : generation.toNat ≠ 18446744073709551615 := fun equal =>
        room (congrArg some (UInt64.toNat_inj.mp equal))
      have above : entry.2 < generation + 1 := by
        have bound := UInt64.le_iff_toNat_le.mp bound
        have size := generation.toNat_lt
        rw [UInt64.lt_iff_toNat_lt, UInt64.toNat_add, UInt64.toNat_one]
        omega
      refine ⟨generation + 1, ?_, UInt64.le_of_lt above, fun equal => ?_⟩
      · rw [if_pos same, ← same, found]
        rfl
      · exact absurd equal (UInt64.ne_of_lt above).symm
    rw [if_neg same]
    exact ⟨generation, found, bound, fun equal => (unfinished equal).update fun applied =>
      absurd applied (elsewhere _ same)⟩
  refine ⟨invariant.writer_update rfl, ?_, ?_, invariant.store, invariant.since⟩
  · have mine := flushes _ (invariant.flushes index)
    exact (forall_update_iff notes _).mpr
      ⟨{ mine with }, fun other _ => flushes _ (invariant.flushes other)⟩
  intro other unmarked
  simp only [StringMap.lookup_upsert] at unmarked
  split at unmarked
  · cases unmarked
  rename_i different
  refine invariant.clean_update unmarked rfl rfl (fun _ => ?_)
    fun applied => absurd applied (elsewhere other different)
  have moved : ((notes index).stage.afterMark repo).repo? = some repo := by
    cases (notes index).stage <;> rfl
  simp only [moved, ne_eq, Option.some.injEq]
  exact Ne.symm different

/-- The operation takes effect between the two marks. -/
theorem Invariant.apply (marked : (notes index).stage = .marked op.repo) :
    Invariant reader start { world with
        store := world.store.applyInRam reader op
        history := world.history ++ [(index, op)] }
      (update notes index { notes index with stage := .applied op.repo }) := by
  have before : ∀ repo, (notes index).stage ≠ .applied repo := by
    intro repo applied
    rw [marked] at applied
    cases applied
  have flushes : ∀ flush, Flushing reader start world notes flush →
      Flushing reader start { world with
          store := world.store.applyInRam reader op
          history := world.history ++ [(index, op)] }
        (update notes index { notes index with stage := .applied op.repo }) flush := by
    intro flush flushing
    refine ⟨flushing.resting, fun entry listed => ?_, fun answer listed => ?_,
      fun repo listed => ?_⟩
    · obtain ⟨generation, found, bound, unfinished⟩ := flushing.pending entry listed
      exact ⟨generation, found, bound, fun equal => (unfinished equal).append (before _) rfl⟩
    · exact (flushing.seen answer listed).append _
    obtain ⟨content, found, produced⟩ := flushing.wrote repo listed
    exact ⟨content, found, produced.append _⟩
  refine ⟨invariant.writer_update rfl, ?_, ?_, ?_, ?_⟩
  · have mine := flushes _ (invariant.flushes index)
    exact (forall_update_iff notes _).mpr
      ⟨{ mine with }, fun other _ => flushes _ (invariant.flushes other)⟩
  · intro repo unmarked
    rcases invariant.clean repo unmarked with untouched | upToDate
    · have different : op.repo ≠ repo := by
        rintro rfl
        exact untouched.unmarked index (by rw [marked]; rfl)
      have updated : Untouched start world
          (update notes index { notes index with stage := .applied op.repo }) repo :=
        untouched.update (by simpa [Stage.repo?] using different)
      refine .inl ⟨updated.layout, ?_, updated.unmarked⟩
      intro entry listed
      rcases List.mem_append.mp listed with earlier | last
      · exact untouched.history entry earlier
      rw [List.mem_singleton] at last
      rw [last]
      exact different
    · obtain ⟨content, floor, found, produced, unfinished⟩ := upToDate
      exact .inr ⟨content, floor, found, produced.append _, unfinished.append (before repo) rfl⟩
  · simp only [List.length_append, List.length_singleton]
    rw [storeAt, List.take_of_length_le (by simp), List.map_append, List.foldl_append,
      invariant.store, storeAt, List.take_length]
    rfl
  simp only [List.length_append]
  exact invariant.since.trans (Nat.le_add_right _ _)

theorem Invariant.applyFailed (marked : (notes index).stage = .marked repo) :
    Invariant reader start world
      (update notes index { notes index with stage := .applied repo }) := by
  have before : ∀ other, (notes index).stage = .applied other →
      Stage.applied repo = .applied other := by
    intro other applied
    rw [marked] at applied
    cases applied
  refine ⟨invariant.writer_update rfl, ?_, ?_, invariant.store, invariant.since⟩
  · have mine : Flushing reader start world (update notes index
        { notes index with stage := .applied repo }) (notes index) :=
      (invariant.flushes index).update before
    exact (forall_update_iff notes _).mpr
      ⟨{ mine with }, fun other _ => (invariant.flushes other).update before⟩
  exact fun other unmarked => invariant.clean_update unmarked rfl rfl
    (fun apart => by rwa [marked] at apart) (before other)

theorem Invariant.beginFlush (free : world.writer = none) :
    Invariant reader start { world with writer := some index }
      (update notes index { notes index with flushing := true }) := by
  have flushing := invariant.flushes index
  refine invariant.learn _ rfl ?_ ⟨nofun, flushing.pending, flushing.seen, flushing.wrote⟩
  exact (forall_update_iff notes fun other notes =>
    notes.flushing = true → some index = some other).mpr
    ⟨fun _ => rfl, fun other _ busy => nomatch free.symm.trans (invariant.writer other busy)⟩

theorem Invariant.endFlush (busy : (notes index).flushing = true) :
    Invariant reader start { world with writer := none }
      (update notes index
        { notes index with flushing := false, pending := [], seen := [], wrote := [] }) := by
  refine invariant.learn _ rfl ?_ ⟨fun _ => ⟨rfl, rfl, rfl⟩, nofun, nofun, nofun⟩
  exact (forall_update_iff notes fun other notes =>
    notes.flushing = true → none = some other).mpr
    ⟨nofun, fun other different held => nomatch (invariant.alone busy different).symm.trans held⟩

theorem Invariant.snapshot (busy : (notes index).flushing = true)
    {snapshot : List (String × UInt64)} (taken : snapshot.Perm world.dirty.toList) :
    Invariant reader start { world with since := world.history.length }
      (update notes index { notes index with pending := snapshot, seen := [], wrote := [] }) := by
  refine ⟨invariant.writer_update rfl, ?_, ?_, invariant.store, le_refl _⟩
  · refine (forall_update_iff notes _).mpr ⟨⟨?_, ?_, nofun, nofun⟩, fun other different => ?_⟩
    · exact fun idle => nomatch busy.symm.trans idle
    · intro entry listed
      have found := Std.ExtTreeMap.mem_toList_iff_getElem?_eq_some.mp (taken.mem_iff.mp listed)
      refine ⟨entry.2, found, UInt64.le_refl _, fun _ position caller op above at_ _ => ?_⟩
      obtain ⟨within, _⟩ := List.getElem?_eq_some_iff.mp at_
      exact absurd above (Nat.not_le.mpr within)
    obtain ⟨pending, seen, wrote⟩ :=
      (invariant.flushes other).resting (invariant.alone busy different)
    exact ⟨fun _ => ⟨pending, seen, wrote⟩, by simp [pending], by simp [seen], by simp [wrote]⟩
  · exact fun repo unmarked => invariant.clean_update unmarked rfl rfl id id

theorem Invariant.writeIndex {content : Json} {wrote : List String}
    (listed : ∃ generation, (repo, generation) ∈ (notes index).pending)
    (produced : Produced reader start world.history world.since repo content)
    (extended : ∀ other ∈ wrote, other = repo ∨ other ∈ (notes index).wrote) :
    Invariant reader start { world with layout := world.layout.insert repo (.json content) }
      (update notes index { notes index with wrote := wrote }) := by
  obtain ⟨taken, listed⟩ := listed
  obtain ⟨generation, marked, _⟩ := (invariant.flushes index).pending _ listed
  have busy : (notes index).flushing = true := by
    cases held : (notes index).flushing with
    | true => rfl
    | false =>
      rw [((invariant.flushes index).resting held).1] at listed
      simp at listed
  have written : ∀ flush, Flushing reader start world notes flush → ∀ other,
      (other = repo ∨ other ∈ flush.wrote) →
      ∃ index, (world.layout.insert repo (.json content))[other]? = some (.json index) ∧
        Produced reader start world.history world.since other index := by
    intro flush flushing other known
    rw [StringMap.lookup_insert]
    by_cases same : other = repo
    · subst same
      exact ⟨content, if_pos rfl, produced⟩
    rw [if_neg same]
    exact flushing.wrote other (known.resolve_left same)
  refine ⟨invariant.writer_update rfl, ?_, ?_, invariant.store, invariant.since⟩
  · have mine := invariant.flushes index
    have kept : Flushing reader start world (update notes index
        { notes index with wrote := wrote }) (notes index) := mine.update fun _ => id
    refine (forall_update_iff notes _).mpr
      ⟨⟨?_, kept.pending, mine.seen, fun other known => ?_⟩, fun other _ => ?_⟩
    · exact fun idle => nomatch busy.symm.trans idle
    · exact written _ mine other (extended other known)
    have theirs := invariant.flushes other
    have updated : Flushing reader start world (update notes index
        { notes index with wrote := wrote }) (notes other) := theirs.update fun _ => id
    exact ⟨theirs.resting, updated.pending, theirs.seen,
      fun known listed => written _ theirs known (.inr listed)⟩
  intro other unmarked
  have different : other ≠ repo := by
    rintro rfl
    change world.dirty[other]? = none at unmarked
    rw [marked] at unmarked
    cases unmarked
  have layout : (world.layout.insert repo (.json content))[other]? = world.layout[other]? := by
    rw [StringMap.lookup_insert, if_neg different]
  exact invariant.clean_update unmarked layout rfl id id

/-- The mark has not moved since the snapshot, so the index misses nothing. -/
theorem Invariant.clear {generation : UInt64} (listed : (repo, generation) ∈ (notes index).pending)
    (wrote : repo ∈ (notes index).wrote) (busy : (notes index).flushing = true)
    (unmoved : world.dirty[repo]? = some generation) :
    Invariant reader start { world with dirty := world.dirty.erase repo }
      (update notes index
        { notes index with pending := (notes index).pending.filter (·.1 ≠ repo) }) := by
  have mine := invariant.flushes index
  have lookup : ∀ other, other ≠ repo → (world.dirty.erase repo)[other]? = world.dirty[other]? := by
    intro other different
    rw [StringMap.lookup_erase, if_neg different]
  have pending : ∀ entry ∈ (notes index).pending.filter (·.1 ≠ repo),
      ∃ generation, (world.dirty.erase repo)[entry.1]? = some generation ∧
        entry.2 ≤ generation ∧ (generation = entry.2 → Unfinished world.history
          (update notes index { notes index with
            pending := (notes index).pending.filter (·.1 ≠ repo) }) world.since entry.1) := by
    intro entry known
    rw [List.mem_filter, decide_eq_true_eq] at known
    obtain ⟨current, found, bound, unfinished⟩ := mine.pending entry known.1
    rw [lookup _ known.2]
    exact ⟨current, found, bound, fun same => (unfinished same).update id⟩
  refine ⟨invariant.writer_update rfl, ?_, ?_, invariant.store, invariant.since⟩
  · refine (forall_update_iff notes _).mpr
      ⟨⟨?_, pending, mine.seen, mine.wrote⟩, fun other different => ?_⟩
    · exact fun idle => nomatch busy.symm.trans idle
    have theirs := invariant.flushes other
    have nothing := (theirs.resting (invariant.alone busy different)).1
    exact ⟨theirs.resting, by simp [nothing], theirs.seen, theirs.wrote⟩
  intro other unmarked
  by_cases same : other = repo
  · subst same
    obtain ⟨content, onDisk, produced⟩ := mine.wrote other wrote
    obtain ⟨current, found, _, unfinished⟩ := mine.pending _ listed
    rw [unmoved] at found
    cases found
    exact .inr ⟨content, world.since, onDisk, produced, (unfinished rfl).update id⟩
  simp only [lookup other same] at unmarked
  exact invariant.clean_update unmarked rfl rfl id id

end

end Steps

/-! ## Every run -/

theorem marking_preserved (orders : Nat → IterOrder) (start : World) :
    (machine reader orders).Preserves .any (marking reader) Settled (Invariant reader start) where
  codes call _ := meets_code call
  expects system index action choice world response _ performed _ _ := by
    cases action with
    | snapshot =>
      cases performed
      have arranged := (orders choice.order).perm "" system.world.dirty.toList
      exact (arranged.map Prod.fst).nodup_iff.mpr (StringMap.nodup_keys_toList _)
    | _ => trivial
  keeps system index action choice world response _ allowed performed invariant := by
    obtain ⟨_, allowed⟩ := allowed
    change perform reader orders system.world index action choice = some (world, response)
      at performed
    change Invariant reader start world (update ((machine reader orders).notesAt system)
      index (observe ((machine reader orders).notesAt system index) action response))
    generalize (machine reader orders).notesAt system = notes at *
    have unnoticed : Invariant reader start system.world (update notes index (notes index)) := by
      rw [update_eq_self]
      exact invariant
    cases action with
    | mark repo =>
      simp only [perform] at performed
      split at performed
      · cases performed
      rename_i room
      cases performed
      exact invariant.mark room allowed
    | apply op =>
      simp only [perform] at performed
      split at performed
      · cases performed
        exact invariant.applyFailed allowed.2
      cases performed
      exact invariant.apply allowed.2
    | beginFlush =>
      simp only [perform] at performed
      split at performed
      · cases performed
        exact invariant.beginFlush (by assumption)
      · cases performed
    | snapshot =>
      cases performed
      exact invariant.snapshot allowed ((orders choice.order).perm _ _)
    | readIndex repo | size repo digest =>
      cases performed
      exact unnoticed
    | referrers repo =>
      cases performed
      exact invariant.see allowed ⟨orders choice.order, rfl⟩
    | writeIndex repo content =>
      obtain ⟨listed, answers, existing, built, every⟩ := allowed
      have produced : Produced reader start system.world.history system.world.since repo content :=
        ⟨answers, existing, built, fun answer known =>
          (invariant.flushes index).seen answer (every answer known)⟩
      simp only [perform] at performed
      split at performed
      · cases performed
        exact unnoticed
      cases fails : choice.fails with
      | true =>
        rw [fails] at performed
        cases performed
        exact invariant.writeIndex listed produced fun _ => .inr
      | false =>
        rw [fails] at performed
        cases performed
        exact invariant.writeIndex listed produced fun _ => List.mem_cons.mp
    | clear repo generation =>
      obtain ⟨busy, listed, wrote⟩ := allowed
      simp only [perform] at performed
      split at performed
      · cases performed
        exact invariant.clear listed wrote busy (by assumption)
      cases performed
      have mine := invariant.flushes index
      refine invariant.learn system.world.writer rfl (invariant.writer_update rfl)
        ⟨fun idle => ?_, fun entry kept => ?_, mine.seen, mine.wrote⟩
      · rw [show (notes index).flushing = false from idle] at busy
        cases busy
      · exact mine.pending entry (List.mem_filter.mp kept).1
    | endFlush =>
      cases performed
      exact invariant.endFlush allowed
    | _ =>
      cases performed
      exact invariant.see allowed rfl
  drops _ _ _ _ _ _ := .inl rfl
  abandons _ _ world notes index invariant := by
    change Invariant reader start world (update notes index (notes index))
    rw [update_eq_self]
    exact invariant

/-- A call that has marked a repository was made for it. -/
def Concerns (call : Call) (notes : Notes) : Prop :=
  ∀ repo, notes.stage = .applied repo → ∃ op, call = .applyMeta op ∧ op.repo = repo

theorem concerns_observe {reader : JsonReader} {call : Call} {notes : Notes} {action : Action}
    {response : Response action} (allowed : (marking reader call).allowed notes action)
    (concerns : Concerns call notes) : Concerns call (observe notes action response) := by
  intro repo applied
  cases action with
  | mark other =>
    cases stage : notes.stage <;> simp [observe, stage, Stage.afterMark] at applied
  | apply op =>
    cases applied
    exact ⟨op, allowed.1, rfl⟩
  | writeIndex other content =>
    cases response with
    | _ => exact concerns repo applied
  | _ => exact concerns repo applied

theorem invariant_start (store : State) (layout : StringMap IndexFile) (dirty : StringMap UInt64) :
    Invariant reader { store, layout, dirty } { store, layout, dirty } fun _ => {} where
  writer _ busy := by cases busy
  flushes _ := ⟨fun _ => ⟨rfl, rfl, rfl⟩, nofun, nofun, nofun⟩
  clean _ _ := .inl ⟨rfl, nofun, nofun⟩
  store := rfl
  since := le_refl _

/-- When a repository has no mark and no call of `apply_meta` on it is running,
its `index.json` is the one the present store gives, or no such call was ever
made and the file is as it was. -/
theorem unmarked_index_current (orders : Nat → IterOrder) (store : State)
    (layout : StringMap IndexFile) (dirty : StringMap UInt64)
    {final : System World Call Action Response Bool Notes} {events : List (Event Call Choice)}
    (run : Reaches (machine reader orders).step (fun _ _ => True)
      { world := { store, layout, dirty } } events final)
    {repo : String} (unmarked : final.world.dirty[repo]? = none)
    (quiet : ∀ thread ∈ final.threads, ∀ op, thread.call = .applyMeta op → op.repo = repo →
      thread.program.head? = none) :
    (∃ order existing sizeLookup, final.world.layout[repo]? =
        some (.json (indexFromMeta reader order final.world.store repo existing sizeLookup))) ∨
      (final.world.layout[repo]? = layout[repo]? ∧
        ∀ thread ∈ final.threads, ∀ op, thread.call = .applyMeta op → op.repo ≠ repo) := by
  have permitted : Reaches (machine reader orders).step ((machine reader orders).Permitted .any) _
    events final := run.weaken fun _ _ _ => Machine.permitted_any
  have preserved := marking_preserved reader orders { store, layout, dirty }
  have sound := preserved.run permitted rfl (invariant_start reader store layout dirty)
  have concerns := preserved.noted (fun _ => nofun)
    (fun _ _ _ _ allowed _ => concerns_observe allowed) (fun _ _ => id) permitted rfl
    (invariant_start reader store layout dirty)
  have ended : ∀ thread ∈ final.threads, ∀ op, thread.call = .applyMeta op → op.repo = repo →
      thread.notes.stage = .done repo := by
    intro thread membership op called named
    have returned := quiet thread membership op called named
    cases program : thread.program with
    | finish result =>
      rw [sound.returned membership program op called, named]
    | perform action rest =>
      rw [program] at returned
      cases returned
  rcases sound.holds.clean repo unmarked with
    untouched | ⟨index, floor, found, produced, unfinished⟩
  · refine .inr ⟨untouched.layout, fun thread membership op called named => ?_⟩
    obtain ⟨position, at_⟩ := List.getElem?_of_mem membership
    have stage := ended thread membership op called named
    have apart := untouched.unmarked position
    rw [Machine.notesAt_of_found at_, stage] at apart
    exact apart rfl
  · have nothing : ∀ moment, floor ≤ moment →
        ∀ entry ∈ final.world.history.drop moment, entry.2.repo ≠ repo := by
      intro moment above entry listed named
      obtain ⟨offset, at_⟩ := List.getElem?_of_mem listed
      rw [List.getElem?_drop] at at_
      have running := unfinished (moment + offset) entry.1 entry.2
        (above.trans (Nat.le_add_right _ _))
        at_ named
      rcases thread : final.threads[entry.1]? with _ | caller
      · rw [Machine.notesAt, thread] at running
        cases running
      have membership := List.mem_of_getElem? thread
      rw [Machine.notesAt_of_found thread] at running
      obtain ⟨op, called, same⟩ := concerns caller membership repo running
      rw [ended caller membership op called same] at running
      cases running
    obtain ⟨answers, existing, built, recent⟩ := produced
    have hold : ∀ answer ∈ pieces repo answers, answer.TrueOf final.world.store := by
      intro answer listed
      obtain ⟨moment, above, _, holds⟩ := recent answer listed
      rw [sound.holds.store]
      exact holds.later listed (nothing moment above)
    obtain ⟨order, sizeLookup, same⟩ := index_of_answers hold existing
    exact .inl ⟨order, existing, sizeLookup, by rw [found, built, same]⟩

def taggedPush : MetaOp := .putManifest "app" "sha256:0a" mediaTypeImageManifest (some "v1") [] none

def runs (thread count : Nat) : List (Event Call Choice) := List.replicate count (.run thread {})

/-- A flush begins between the first mark and the operation, and writes an index
without it; the second mark keeps the repository marked for the next flush. -/
def flushedTwice : List (Event Call Choice) :=
  .start (.applyMeta taggedPush) :: runs 0 1 ++ .start .flushDirty :: runs 1 7 ++ runs 0 2 ++
    runs 1 2 ++ .start .flushDirty :: runs 2 11

/-- After the second flush the index lists what was pushed. -/
theorem flushed_index_current :
    ∃ final, Reaches (machine JsonText.reader fun _ => .sorted).step (fun _ _ => True)
        { world := { store := {}, layout := ∅, dirty := ∅ } } flushedTwice final ∧
      final.world.dirty["app"]? = none ∧ Machine.Quiescent final ∧
      ∃ order existing sizeLookup, final.world.layout["app"]? = some (.json
        (indexFromMeta JsonText.reader order final.world.store "app" existing sizeLookup)) := by
  obtain ⟨final, run, unmarked, returned, thread, membership, called⟩ :=
    @exists_run_of_execute _ _ (machine JsonText.reader fun _ => .sorted).step (fun _ _ => True) _
      { world := { store := {}, layout := ∅, dirty := ∅ } } flushedTwice
      (fun final => final.world.dirty["app"]? = none ∧ Machine.Quiescent final ∧
        ∃ thread ∈ final.threads, thread.call = .applyMeta taggedPush) _ (by decide +kernel)
  rcases unmarked_index_current JsonText.reader (fun _ => .sorted) {} ∅ ∅ run unmarked
    (fun thread membership _ _ _ => returned thread membership) with current | ⟨_, never⟩
  · exact ⟨final, run, unmarked, returned, current⟩
  · exact absurd rfl (never thread membership taggedPush called)

end Roci.Layout.Flush
