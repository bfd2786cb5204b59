import Mathlib.Data.List.Basic

/-!
# Run lengths

A table in which equal entries that follow each other are coded as one record with a count, and a cursor that takes one
entry after the other out of it. Records with a count of 0 are skipped. What the cursor takes is the head of the
expansion, and what is behind it is the tail (`next_fst`, `expand_next`).
-/

namespace Whispercast.Library

namespace RunLength

variable {α : Type}

/-- The entries of a table. -/
def expand (records : List (Nat × α)) : List α := records.flatMap fun r => List.replicate r.1 r.2

@[simp] theorem expand_nil : expand ([] : List (Nat × α)) = [] := rfl

@[simp] theorem expand_cons (r : Nat × α) (records : List (Nat × α)) :
    expand (r :: records) = List.replicate r.1 r.2 ++ expand records := List.flatMap_cons

/-- A cursor: the current record, with what is left of its count, and the records behind it. -/
structure Cursor (α : Type) where
  record : Nat × α
  rest : List (Nat × α)

namespace Cursor

/-- The cursor in front of a table, at an empty record. -/
def start (value : α) (records : List (Nat × α)) : Cursor α := ⟨(0, value), records⟩

/-- The entries that are to be taken. -/
def expand (c : Cursor α) : List α := RunLength.expand (c.record :: c.rest)

@[simp] theorem expand_start (value : α) (records : List (Nat × α)) :
    (start value records).expand = RunLength.expand records := by
  simp [start, expand]

/-- Go to the next record while the current one is used up. -/
def settle : Nat × α → List (Nat × α) → Cursor α
  | r, [] => ⟨r, []⟩
  | r, r' :: rest => if r.1 = 0 then settle r' rest else ⟨r, r' :: rest⟩

theorem expand_settle (r : Nat × α) (rest : List (Nat × α)) : (settle r rest).expand = expand ⟨r, rest⟩ := by
  induction rest generalizing r with
  | nil => rfl
  | cons r' rest ih =>
    rw [settle]
    split_ifs with hzero
    · rw [ih]
      simp [expand, hzero]
    · rfl

/-- A settled cursor is used up only at the end. -/
theorem rest_settle {r : Nat × α} {rest : List (Nat × α)} (hzero : (settle r rest).record.1 = 0) :
    (settle r rest).rest = [] := by
  induction rest generalizing r with
  | nil => rfl
  | cons r' rest ih =>
    rw [settle] at hzero ⊢
    split_ifs at hzero ⊢
    · exact ih hzero
    · contradiction

/-- Take an entry; there is none at the end. -/
def next (c : Cursor α) : Option α × Cursor α :=
  let c := settle c.record c.rest
  if 0 < c.record.1 then (some c.record.2, { c with record := (c.record.1 - 1, c.record.2) }) else (none, c)

/-- One step of the cursor is one step in the expansion. -/
theorem next_eq (c : Cursor α) : c.next.1 = c.expand.head? ∧ c.next.2.expand = c.expand.tail := by
  have hsettle := expand_settle c.record c.rest
  have hend : (settle c.record c.rest).record.1 = 0 → (settle c.record c.rest).rest = [] := rest_settle
  rw [next]
  generalize settle c.record c.rest = s at hsettle hend
  obtain ⟨⟨n, v⟩, rest⟩ := s
  rw [show c.expand = expand ⟨(n, v), rest⟩ from hsettle.symm]
  cases n with
  | zero =>
    obtain rfl : rest = [] := hend rfl
    exact ⟨rfl, rfl⟩
  | succ n =>
    rw [if_pos (Nat.succ_pos n)]
    simp [expand, List.replicate_succ]

theorem next_fst (c : Cursor α) : c.next.1 = c.expand.head? := c.next_eq.1

theorem expand_next (c : Cursor α) : c.next.2.expand = c.expand.tail := c.next_eq.2

end Cursor

end RunLength

end Whispercast.Library
