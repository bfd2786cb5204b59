import Mathlib.Algebra.Order.Group.Defs
import Mathlib.Algebra.BigOperators.Group.List.Basic

/-!
# Tilings

Segments of an ordered group that lie end to end. `Tiles a ss b` says that the segments start at `a`, that each
begins where the one before ends, and that the last ends at `b`.
-/

namespace Whispercast.Library.Tiling

variable {α : Type} [AddCommGroup α]

/-- A segment, by its start and its size. -/
structure Segment (α : Type) where
  start : α
  size : α
  deriving DecidableEq

/-- The end of a segment. -/
def Segment.stop (s : Segment α) : α := s.start + s.size

/-- The segments lie end to end from the first point to the second. -/
def Tiles : α → List (Segment α) → α → Prop
  | a, [], b => a = b
  | a, s :: ss, b => s.start = a ∧ Tiles s.stop ss b

@[simp] theorem tiles_nil {a b : α} : Tiles a [] b ↔ a = b := Iff.rfl

variable {ss : List (Segment α)}

@[simp] theorem tiles_cons {a b : α} {s : Segment α} : Tiles a (s :: ss) b ↔ s.start = a ∧ Tiles s.stop ss b := Iff.rfl

/-- A tiling is cut at any of its segments. -/
theorem tiles_append {a b : α} {ts : List (Segment α)} : Tiles a (ss ++ ts) b ↔ ∃ m, Tiles a ss m ∧ Tiles m ts b := by
  induction ss generalizing a with
  | nil => simp
  | cons s ss ih => simp [ih, and_assoc]

/-- A segment that begins where a tiling ends makes it longer. -/
theorem Tiles.concat {a b : α} (h : Tiles a ss b) {s : Segment α} (hs : s.start = b) : Tiles a (ss ++ [s]) s.stop :=
  tiles_append.2 ⟨b, h, hs, rfl⟩

/-- A tiling ends where its last segment does. -/
theorem Tiles.stop_eq {a b : α} (h : Tiles a ss b) {s : Segment α} (hs : ss.getLast? = some s) : s.stop = b := by
  obtain ⟨_, rfl⟩ := List.getLast?_eq_some_iff.1 hs
  obtain ⟨m, -, -, hstop⟩ := tiles_append.1 h
  exact hstop

variable [LinearOrder α] [IsOrderedAddMonoid α]

end Whispercast.Library.Tiling
