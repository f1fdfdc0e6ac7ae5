import Roci.Layout.Recovery
import Roci.Library.Interleaving

/-!
# Writing index.json behind the metadata store

A push or a deletion marks its repository before and after it changes the
metadata store.  One background task takes a snapshot of the marks, rebuilds the
index of each marked repository query by query, writes it, and forgets the mark
if it has not moved.  The store may change between two queries, a write may
fail, and a failed write may have landed.
-/

namespace Roci.Layout

open Roci.Library Roci.Metadata

/-! ## Rebuilding from separate answers -/

/-- What the store answered while an index was rebuilt: media type and size of
each known manifest, the referrers and the tags. -/
structure Answers where
  described : List (String × Option String × Option UInt64)
  referrers : List (String × List Referrer)
  tags : List (String × String × String)

variable (reader : JsonReader) (answers : Answers)

namespace Answers

def ofStore (order : IterOrder) (store : State) (repo : String)
    (sizeLookup : String → Option UInt64) : Answers where
  described := (store.manifests repo).map fun digest =>
    (digest, store.manifestMediaType repo digest, sizeLookup digest)
  referrers := order.arrange repo (store.referrersSnapshot repo)
  tags := store.tagsSnapshot repo

def known : List String := answers.described.map Prod.fst

def baseDescriptors (base : StringMap Obj) : StringMap Obj :=
  let described := answers.described.foldl (fun base entry =>
    base.upsert entry.1 (bareDescriptor entry.1) (describeKnown entry.2.1 entry.2.2)) base
  answers.referrers.foldl (fun base entry =>
    entry.2.foldl (fun base referrer =>
      base.upsert referrer.1 (bareDescriptor referrer.1)
        (mergeReferrer reader entry.1 referrer.2)) base) described

/-- `index_from_meta`, given what the store answered. -/
def index (existing : Option Json) : Json :=
  let sorted := ((existing.map indexManifests).getD []).foldl (sortEntry answers.known) {}
  assembleIndex existing sorted.foreign answers.tags (answers.baseDescriptors reader sorted.base)

theorem index_ofStore (order : IterOrder) (store : State) (repo : String) (existing : Option Json)
    (sizeLookup : String → Option UInt64) :
    (ofStore order store repo sizeLookup).index reader existing =
      indexFromMeta reader order store repo existing sizeLookup := by
  have known : (ofStore order store repo sizeLookup).known = store.manifests repo := by
    simp [known, ofStore, Function.comp_def]
  have base : ∀ start, (ofStore order store repo sizeLookup).baseDescriptors reader start =
      Layout.baseDescriptors reader order store repo sizeLookup start := by
    intro start
    simp [baseDescriptors, Layout.baseDescriptors, ofStore, List.foldl_map]
  simp only [index, indexFromMeta, known, base]
  rfl

end Answers

variable (repo : String)

namespace Flush

/-! ## Shared state and actions -/

/-- The store, the `index.json` files and the marks.  `writer` is the task in the
middle of a flush; `history` lists the operations applied so far, each with the
call it belongs to, and `since` is its length at the last snapshot. -/
structure World where
  store : State
  layout : StringMap IndexFile
  dirty : StringMap UInt64
  writer : Option Nat := none
  history : List (Nat × MetaOp) := []
  since : Nat := 0

inductive Action where
  | mark (repo : String)
  | apply (op : MetaOp)
  | beginFlush
  | snapshot
  | readIndex (repo : String)
  | manifests (repo : String)
  | mediaType (repo digest : String)
  | size (repo digest : String)
  | referrers (repo : String)
  | tags (repo : String)
  | writeIndex (repo : String) (index : Json)
  | clear (repo : String) (generation : UInt64)
  | endFlush

@[reducible]
def Response : Action → Type
  | .apply _ => Bool
  | .snapshot => List (String × UInt64)
  | .readIndex _ => Option (Option Json)
  | .manifests _ => List String
  | .mediaType _ _ => Option String
  | .size _ _ => Option UInt64
  | .referrers _ => List (String × List Referrer)
  | .tags _ => List (String × String × String)
  | .writeIndex _ _ => Bool
  | _ => Unit

/-- What an action depends on besides the shared state: the order hash maps
iterate in, whether it fails and has its effect all the same, and the size found
for a blob. -/
structure Choice where
  order : Nat := 0
  fails : Bool := false
  lands : Bool := false
  size : Option UInt64 := none

abbrev Routine (Result : Type) := Program Action Response Result

abbrev act (action : Action) : Routine (Response action) := Program.act action

def perform (orders : Nat → IterOrder) (world : World) (me : Nat) :
    (action : Action) → Choice → Option (World × Response action)
  -- The generation is a `u64`; a mark that would overflow it does not return.
  | .mark repo, _ =>
    if world.dirty[repo]? = some 18446744073709551615 then none
    else some ({ world with dirty := world.dirty.upsert repo 0 (· + 1) }, ())
  | .apply op, choice =>
    if choice.fails && !choice.lands then some (world, false)
    else
      some ({ world with
        store := world.store.applyInRam reader op
        history := world.history ++ [(me, op)] }, !choice.fails)
  | .beginFlush, _ =>
    if world.writer = none then some ({ world with writer := some me }, ()) else none
  | .snapshot, choice =>
    some ({ world with since := world.history.length },
      (orders choice.order).arrange "" world.dirty.toList)
  | .readIndex repo, choice =>
    some (world,
      if choice.fails then none
      else
        match world.layout[repo]?.getD .absent with
        | .absent => some none
        | .unreadable => none
        | .json index => some (some index))
  | .manifests repo, _ => some (world, world.store.manifests repo)
  | .mediaType repo digest, _ => some (world, world.store.manifestMediaType repo digest)
  | .size _ _, choice => some (world, choice.size)
  | .referrers repo, choice =>
    some (world, (orders choice.order).arrange repo (world.store.referrersSnapshot repo))
  | .tags repo, _ => some (world, world.store.tagsSnapshot repo)
  | .writeIndex repo index, choice =>
    if choice.fails && !choice.lands then some (world, false)
    else some ({ world with layout := world.layout.insert repo (.json index) }, !choice.fails)
  | .clear repo generation, _ =>
    if world.dirty[repo]? = some generation then
      some ({ world with dirty := world.dirty.erase repo }, ())
    else some (world, ())
  | .endFlush, _ => some ({ world with writer := none }, ())

/-! ## The calls -/

/-- `apply_meta`; both callers name the repository of the operation. -/
def applyMeta (op : MetaOp) : Routine Bool := do
  act (.mark op.repo)
  let applied ← act (.apply op)
  act (.mark op.repo)
  pure applied

def describe (repo : String) : List String → Routine (List (String × Option String × Option UInt64))
  | [] => pure []
  | digest :: rest => do
      let mediaType ← act (.mediaType repo digest)
      let size ← act (.size repo digest)
      let others ← describe repo rest
      pure ((digest, mediaType, size) :: others)

/-- The queries of `index_from_meta`. -/
def gather : Routine Answers := do
  let known ← act (.manifests repo)
  let described ← describe repo known
  let referrers ← act (.referrers repo)
  let tags ← act (.tags repo)
  pure { described, referrers, tags }

/-- Flush one repository; an index that cannot be read or written is left for
the next flush. -/
def flushEntry (generation : UInt64) : Routine Unit := do
  let existing ← act (.readIndex repo)
  match existing with
  | none => pure ()
  | some existing =>
    let answers ← gather repo
    let written ← act (.writeIndex repo (answers.index reader existing))
    match written with
    | true => act (.clear repo generation)
    | false => pure ()

def flushEach (reader : JsonReader) : List (String × UInt64) → Routine Unit
  | [] => pure ()
  | entry :: rest => do
      flushEntry reader entry.1 entry.2
      flushEach reader rest

/-- `flush_dirty`.  The background task runs one after the other, so a flush
begins only when none is under way. -/
def flushDirty : Routine Unit := do
  act .beginFlush
  let snapshot ← act .snapshot
  flushEach reader snapshot
  act .endFlush

inductive Call where
  | applyMeta (op : MetaOp)
  | flushDirty
deriving DecidableEq

/-- `apply_meta` reports whether it succeeded. -/
def code : Call → Routine Bool
  | .applyMeta op => applyMeta op
  | .flushDirty => do
      flushDirty reader
      pure true

/-! ## Notes -/

inductive Answer where
  | manifests (repo : String) (digests : List String)
  | mediaType (repo digest : String) (mediaType : Option String)
  | referrers (repo : String) (referrers : List (String × List Referrer))
  | tags (repo : String) (tags : List (String × String × String))

inductive Stage where
  | idle
  | marked (repo : String)
  | applied (repo : String)
  | done (repo : String)
deriving DecidableEq

/-- What a call knows.  A flush keeps the entries it has not cleared, the
answers it got and the repositories it has written. -/
structure Notes where
  stage : Stage := .idle
  flushing : Bool := false
  pending : List (String × UInt64) := []
  seen : List Answer := []
  wrote : List String := []

def Stage.afterMark : Stage → Stage
  | .idle => .marked repo
  | _ => .done repo

def Stage.repo? : Stage → Option String
  | .idle => none
  | .marked repo => some repo
  | .applied repo => some repo
  | .done repo => some repo

def observe (notes : Notes) : (action : Action) → Response action → Notes
  | .mark repo, _ => { notes with stage := notes.stage.afterMark repo }
  | .apply op, _ => { notes with stage := .applied op.repo }
  | .beginFlush, _ => { notes with flushing := true }
  | .snapshot, snapshot => { notes with pending := snapshot, seen := [], wrote := [] }
  | .manifests repo, digests => { notes with seen := .manifests repo digests :: notes.seen }
  | .mediaType repo digest, mediaType =>
    { notes with seen := .mediaType repo digest mediaType :: notes.seen }
  | .referrers repo, referrers => { notes with seen := .referrers repo referrers :: notes.seen }
  | .tags repo, tags => { notes with seen := .tags repo tags :: notes.seen }
  | .writeIndex repo _, true => { notes with wrote := repo :: notes.wrote }
  | .clear repo _, _ => { notes with pending := notes.pending.filter (·.1 ≠ repo) }
  | .endFlush, _ => { notes with flushing := false, pending := [], seen := [], wrote := [] }
  | _, _ => notes

/-- Neither a call of `apply_meta` nor a flush is cut off. -/
def machine (orders : Nat → IterOrder) :
    Machine World Call Action Response Bool Notes Choice where
  code := code reader
  perform := perform reader orders
  observe := observe
  idle := {}
  detach notes := notes
  blocking _ := false
  awaits _ := false
  abandon world _ := world

end Flush

end Roci.Layout
