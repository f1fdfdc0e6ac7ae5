import Mathlib.Data.List.Basic
import Roci.Library.Bytes

/-!
# Streaming a range of a file

The blob is read in chunks from where the last one ended.  How many bytes the
system hands out at a position is arbitrary as long as there are some.
-/

namespace Roci.Storage

open Roci.Library

def fileChunk : Nat := 256 * 1024

/-- A read that failed, by its message. -/
inductive ReadError where
  | unexpectedEof (message : String)
deriving DecidableEq

def tooShort : ReadError := .unexpectedEof "blob file is shorter than its recorded size"

section

variable (short : Nat → Nat) (content : Bytes)

/-- `Read::read_to_end` on at most `limit` bytes.  At a position the system hands
out one byte more than `short` says, or what is left. -/
def readToEnd (position limit : Nat) : Bytes × Nat :=
  let count := min (short position + 1) (min limit (content.length - position))
  if count = 0 then ([], position)
  else
    let (rest, final) := readToEnd (position + count) (limit - count)
    ((content.drop position).take count ++ rest, final)
termination_by limit

/-- The chunk and where the file stands behind it. -/
def readChunk (position : Nat) (seek : Option Nat) (n : Nat) : Except ReadError (Nat × Bytes) :=
  let (buf, final) := readToEnd short content (seek.getD position) n
  if buf.length < n then .error tooShort else .ok (final, buf)

/-- What the stream still yields. -/
def unfoldFrom (pending : Except ReadError (Nat × Bytes)) (remaining : Nat) :
    List (Except ReadError Bytes) :=
  match pending with
  | .error error => [.error error]
  | .ok (position, bytes) =>
    .ok bytes :: if 0 < remaining then
      let n := min fileChunk remaining
      unfoldFrom (readChunk short content position none n) (remaining - n)
    else []
termination_by remaining
decreasing_by
  unfold fileChunk
  omega

def fileStream (start len : Nat) : List (Except ReadError Bytes) :=
  let first := min fileChunk len
  unfoldFrom short content
    (readChunk short content 0 (if 0 < start then some start else none) first) (len - first)

end

variable (short : Nat → Nat) (content : Bytes)

/-- Short reads do not show. -/
theorem readToEnd_eq (position limit : Nat) :
    readToEnd short content position limit =
      ((content.drop position).take limit, position + min limit (content.length - position)) := by
  fun_induction readToEnd short content position limit with
  | case1 position limit count nothing =>
    have done : limit = 0 ∨ content.length ≤ position := by omega
    rcases done with rfl | done
    · simp
    · simp [List.drop_eq_nil_of_le done, done]
  | case2 position limit count some rest final read ih =>
    rw [read, Prod.mk.injEq] at ih
    rw [ih.1, ih.2, ← List.drop_drop, ← List.take_add, Prod.mk.injEq]
    constructor
    · congr 1
      omega
    · omega

theorem readChunk_eq (position : Nat) (seek : Option Nat) (n : Nat) :
    readChunk short content position seek n =
      if 0 < n ∧ content.length < seek.getD position + n then .error tooShort
      else .ok (seek.getD position + n, (content.drop (seek.getD position)).take n) := by
  simp only [readChunk, readToEnd_eq, List.length_take, List.length_drop]
  by_cases ends : 0 < n ∧ content.length < seek.getD position + n
  · rw [if_pos ends, if_pos (by omega)]
  rw [if_neg ends, if_neg (by omega)]
  congr 2
  omega

/-- The items are chunks of the content from the position on, all of the range or,
where the content ends before, those before an error. -/
def Delivers (position len : Nat) (items : List (Except ReadError Bytes)) : Prop :=
  ∃ chunks : List Bytes,
    items = chunks.map .ok ++
      (if 0 < len ∧ content.length < position + len then [.error tooShort] else []) ∧
    (∀ chunk ∈ chunks, chunk.length ≤ fileChunk) ∧
    chunks.flatten <+: (content.drop position).take len ∧
    (position + len ≤ content.length → chunks.flatten = (content.drop position).take len)

theorem delivers_unfoldFrom (position : Nat) (seek : Option Nat) (n remaining : Nat)
    (fits : n ≤ fileChunk) :
    Delivers content (seek.getD position) (n + remaining)
      (unfoldFrom short content (readChunk short content position seek n) remaining) := by
  induction remaining using Nat.strong_induction_on generalizing position seek n with
  | _ remaining ih =>
    generalize at_ : seek.getD position = start
    rw [readChunk_eq, at_, unfoldFrom.eq_def]
    by_cases ends : 0 < n ∧ content.length < start + n
    · rw [if_pos ends]
      exact ⟨[], by simp; omega, by simp, by simp, by omega⟩
    rw [if_neg ends]
    dsimp only
    have bound : ((content.drop start).take n).length ≤ fileChunk :=
      (List.length_take_le _ _).trans fits
    by_cases more : 0 < remaining
    · rw [if_pos more]
      have smaller : remaining - min fileChunk remaining < remaining := by
        unfold fileChunk
        omega
      obtain ⟨chunks, items, bounds, front, whole⟩ :=
        ih _ smaller (start + n) none (min fileChunk remaining) (Nat.min_le_left _ _)
      rw [Option.getD_none, Nat.add_sub_cancel' (Nat.min_le_right _ _)] at items front whole
      rw [← List.drop_drop] at front whole
      refine ⟨(content.drop start).take n :: chunks, ?_, List.forall_mem_cons.mpr ⟨bound, bounds⟩,
        ?_, fun inside => ?_⟩
      · rw [items, List.map_cons, List.cons_append]
        congr 3
        exact propext (by omega)
      · rw [List.flatten_cons, List.take_add]
        exact (List.prefix_append_right_inj _).mpr front
      · rw [List.flatten_cons, List.take_add, whole (by omega)]
    · obtain rfl : remaining = 0 := by omega
      exact ⟨[(content.drop start).take n], by simp; omega, by simpa using bound, by simp, by simp⟩

theorem file_stream_delivers (start len : Nat) :
    Delivers content start len (fileStream short content start len) ∧
      (len = 0 → fileStream short content start len = [.ok []]) := by
  constructor
  · have items := delivers_unfoldFrom short content 0 (if 0 < start then some start else none)
      (min fileChunk len) (len - min fileChunk len) (Nat.min_le_left _ _)
    rw [Nat.add_sub_cancel' (Nat.min_le_right _ _)] at items
    have position : (if 0 < start then some start else none).getD 0 = start := by grind
    rwa [position] at items
  · rintro rfl
    simp [fileStream, unfoldFrom, readChunk_eq]

/-- A range of no bytes behind the end of the file is no error. -/
theorem empty_range_behind_end_delivers : fileStream (fun _ => 0) [] 1 0 = [.ok []] := by
  simp [fileStream, unfoldFrom, readChunk_eq]

end Roci.Storage
