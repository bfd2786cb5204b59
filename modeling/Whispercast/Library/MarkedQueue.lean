import Mathlib.Data.List.Basic

/-!
# Queues with a stack of marks

A queue remembers everything put in since it was last cleared, the position of its head, and a stack
of marked head positions, newest first. Putting in extends the data at the tail, taking out moves
the head, setting a mark pushes the head position, restoring pops a mark and rewinds the head to it,
clearing a mark pops it and keeps the head. The two fields of `MarkedQueue` that are proofs keep every
position inside the data, so no operation below has to check it.
-/

namespace Whispercast.Library

universe u

/-- A queue with a stack of marks. -/
structure MarkedQueue (α : Type u) where
  /-- Everything put in since the queue was last cleared. -/
  data : List α
  /-- Number of elements in front of the head. -/
  head : Nat
  /-- Marked head positions, newest first. -/
  marks : List Nat
  head_le : head ≤ data.length
  marks_le : ∀ m ∈ marks, m ≤ data.length

namespace MarkedQueue

variable {α : Type u}

/-- The queue with nothing in it and no mark set. -/
def empty : MarkedQueue α := ⟨[], 0, [], Nat.le_refl 0, by simp⟩

/-- What can still be taken out, head first. -/
def readable (q : MarkedQueue α) : List α := q.data.drop q.head

/-- What could be taken out after rewinding to position `m`. -/
def readableFrom (q : MarkedQueue α) (m : Nat) : List α := q.data.drop m

/-- Number of elements that can still be taken out. -/
def size (q : MarkedQueue α) : Nat := q.data.length - q.head

/-- Put `xs` in at the tail. -/
def push (q : MarkedQueue α) (xs : List α) : MarkedQueue α where
  data := q.data ++ xs
  head := q.head
  marks := q.marks
  head_le := by
    have := q.head_le
    simp only [List.length_append]
    omega
  marks_le := by
    intro m hm
    have := q.marks_le m hm
    simp only [List.length_append]
    omega

/-- Take `n` elements out at the head, or all of them when there are fewer. -/
def pop (q : MarkedQueue α) (n : Nat) : MarkedQueue α where
  data := q.data
  head := min (q.head + n) q.data.length
  marks := q.marks
  head_le := Nat.min_le_right _ _
  marks_le := q.marks_le

/-- Push the head position on the stack of marks. -/
def markSet (q : MarkedQueue α) : MarkedQueue α where
  data := q.data
  head := q.head
  marks := q.head :: q.marks
  head_le := q.head_le
  marks_le := by
    intro m hm
    rcases List.mem_cons.1 hm with rfl | hm
    · exact q.head_le
    · exact q.marks_le m hm

/-- Drop the newest mark; the head stays. -/
def markClear (q : MarkedQueue α) : MarkedQueue α where
  data := q.data
  head := q.head
  marks := q.marks.tail
  head_le := q.head_le
  marks_le := fun m hm => q.marks_le m (List.mem_of_mem_tail hm)

/-- Drop the newest mark and move the head back to it. -/
def markRestore (q : MarkedQueue α) : MarkedQueue α where
  data := q.data
  head := q.marks.headD q.head
  marks := q.marks.tail
  head_le := by
    cases h : q.marks with
    | nil => exact q.head_le
    | cons m ms => exact q.marks_le m (by simp [h])
  marks_le := fun m hm => q.marks_le m (List.mem_of_mem_tail hm)

variable (q : MarkedQueue α) (xs : List α)

@[simp] theorem push_marks : (q.push xs).marks = q.marks := rfl
@[simp] theorem markSet_marks : q.markSet.marks = q.head :: q.marks := rfl
@[simp] theorem markClear_marks : q.markClear.marks = q.marks.tail := rfl
@[simp] theorem markRestore_marks : q.markRestore.marks = q.marks.tail := rfl

@[simp] theorem empty_readable : (empty : MarkedQueue α).readable = [] := rfl
@[simp] theorem markSet_readable : q.markSet.readable = q.readable := rfl

@[simp] theorem length_readable : q.readable.length = q.size :=
  List.length_drop

@[simp] theorem push_readable : (q.push xs).readable = q.readable ++ xs :=
  List.drop_append_of_le_length q.head_le

theorem push_readableFrom {m : Nat} (hm : m ∈ q.marks) : (q.push xs).readableFrom m = q.readableFrom m ++ xs :=
  List.drop_append_of_le_length (q.marks_le m hm)

@[simp] theorem push_nil : q.push [] = q := by
  rcases q with ⟨-, -, -, -, -⟩
  simp [push]

theorem push_push (ys : List α) : (q.push xs).push ys = q.push (xs ++ ys) := by
  simp [push]

@[simp] theorem pop_readable (n : Nat) : (q.pop n).readable = q.readable.drop n := by
  rw [readable, readable, List.drop_drop]
  by_cases h : q.head + n ≤ q.data.length
  · show q.data.drop (min (q.head + n) q.data.length) = _
    rw [Nat.min_eq_left h]
  · show q.data.drop (min (q.head + n) q.data.length) = _
    rw [Nat.min_eq_right (by omega), List.drop_of_length_le (Nat.le_refl _),
      List.drop_of_length_le (by omega)]

@[simp] theorem pop_zero : q.pop 0 = q := by
  rcases q with ⟨-, -, -, hh, -⟩
  simp [pop, Nat.min_eq_left hh]

/-- Nothing is taken out of a queue with nothing in front of the head. -/
theorem pop_of_readable_nil {q : MarkedQueue α} (hq : q.readable = []) (n : Nat) : q.pop n = q := by
  have hle := List.drop_eq_nil_iff.1 hq
  rcases q with ⟨data, head, _, _, _⟩
  simp only [pop, MarkedQueue.mk.injEq, and_true, true_and]
  change data.length ≤ head at hle
  omega

theorem markRestore_readable {m : Nat} {ms : List Nat}
    (h : q.marks = m :: ms) : q.markRestore.readable = q.readableFrom m := by
  show q.data.drop (q.marks.headD q.head) = q.data.drop m
  rw [h]
  rfl

/-- Behind a mark, a queue can be put back to where it was. -/
theorem markRestore_eq {q q' : MarkedQueue α} (hdata : q'.data = q.data) (hmarks : q'.marks = q.head :: q.marks) :
    q'.markRestore = q := by
  cases q
  cases q'
  cases hdata
  cases hmarks
  rfl

/-- Taking out as many elements as there are leaves nothing. -/
theorem pop_size_readable : (q.pop q.size).readable = [] := by
  rw [pop_readable, ← length_readable, List.drop_length]

end MarkedQueue

end Whispercast.Library
