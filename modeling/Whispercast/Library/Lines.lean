import Mathlib.Data.List.Basic

/-!
# Texts as lines

A text is a series of lines, each closed by a separator, and a part behind the last separator that is no
line yet. What is proved of a text by taking one line after the other needs two cases only: a text without
a separator, and a line in front of a text (`induction`).
-/

namespace Whispercast.Library

open List

namespace Lines

variable {β : Type} [DecidableEq β] (sep : β)

/-- The complete lines of a text, without their separators, and what is behind the last one. -/
def split : List β → List (List β) × List β
  | [] => ([], [])
  | c :: s =>
    if c = sep then ([] :: (split s).1, (split s).2)
    else
      match split s with
      | ([], tail) => ([], c :: tail)
      | (line :: lines, tail) => ((c :: line) :: lines, tail)

/-- The complete lines of a text. -/
def lines (s : List β) : List (List β) := (split sep s).1

variable {sep} {s t line : List β}

theorem split_of_not_mem (h : sep ∉ s) : split sep s = ([], s) := by
  induction s with
  | nil => rfl
  | cons c s ih =>
    rw [mem_cons, not_or] at h
    rw [split, if_neg (Ne.symm h.1), ih h.2]

theorem split_line (h : sep ∉ line) (s : List β) :
    split sep (line ++ sep :: s) = (line :: (split sep s).1, (split sep s).2) := by
  induction line with
  | nil => rw [nil_append, split, if_pos rfl]
  | cons c line ih =>
    rw [mem_cons, not_or] at h
    rw [cons_append, split, if_neg (Ne.symm h.1), ih h.2]

theorem lines_of_not_mem (h : sep ∉ s) : lines sep s = [] := by
  rw [lines, split_of_not_mem h]

theorem lines_line (h : sep ∉ line) (s : List β) : lines sep (line ++ sep :: s) = line :: lines sep s := by
  rw [lines, split_line h]
  rfl

omit [DecidableEq β] in
/-- The first separator of a text closes its first line. -/
theorem exists_line (h : sep ∈ s) : ∃ line rest, sep ∉ line ∧ s = line ++ sep :: rest := by
  obtain ⟨line, rest, hs, hline⟩ := eq_append_cons_of_mem h
  exact ⟨line, rest, hline, hs⟩

omit [DecidableEq β] in
/-- Induction over a text line by line. -/
theorem induction {motive : List β → Prop} (tail : ∀ s, sep ∉ s → motive s)
    (line : ∀ l s, sep ∉ l → motive s → motive (l ++ sep :: s)) (s : List β) : motive s := by
  induction hlen : s.length using Nat.strongRecOn generalizing s with
  | _ n ih =>
    by_cases hmem : sep ∈ s
    · obtain ⟨l, rest, hl, rfl⟩ := exists_line hmem
      have hlt : rest.length < n := by
        rw [← hlen, length_append, length_cons]
        omega
      exact line l rest hl (ih rest.length hlt rest rfl)
    · exact tail s hmem

omit [DecidableEq β] in
/-- A text has one first line. -/
theorem line_inj {line' s' : List β} (h : sep ∉ line) (h' : sep ∉ line')
    (heq : line ++ sep :: s = line' ++ sep :: s') : line = line' ∧ s = s' := by
  induction line generalizing line' with
  | nil =>
    cases line' with
    | nil => exact ⟨rfl, (List.cons.inj heq).2⟩
    | cons c line' =>
      have hc : sep = c := (List.cons.inj heq).1
      exact absurd (hc ▸ mem_cons_self) h'
  | cons c line ih =>
    rw [mem_cons, not_or] at h
    cases line' with
    | nil => exact absurd (List.cons.inj heq).1.symm h.1
    | cons c' line' =>
      rw [mem_cons, not_or] at h'
      obtain ⟨hc, htail⟩ := List.cons.inj heq
      obtain ⟨hline, hs⟩ := ih h.2 h'.2 htail
      exact ⟨by rw [hc, hline], hs⟩

omit [DecidableEq β] in
/-- A front of a text that does not reach the end of its first line is a front of the line. -/
theorem prefix_of_not_mem {front rest : List β} (h : sep ∉ front) (heq : front ++ rest = line ++ sep :: s) :
    front <+: line := by
  rcases append_eq_append_iff.1 heq with ⟨tail, hline, -⟩ | ⟨tail, hfront, hs⟩
  · exact ⟨tail, hline.symm⟩
  · cases tail with
    | nil =>
      rw [append_nil] at hfront
      exact ⟨[], by rw [hfront, append_nil]⟩
    | cons c tail =>
      have hc : sep = c := (List.cons.inj hs).1
      rw [hfront, ← hc] at h
      exact absurd (by simp) h

theorem lines_ne_nil (h : sep ∈ s) : lines sep s ≠ [] := by
  obtain ⟨_, _, hline, rfl⟩ := exists_line h
  rw [lines_line hline]
  exact cons_ne_nil _ _

theorem not_mem_split_snd (s : List β) : sep ∉ (split sep s).2 := by
  induction s using induction with
  | tail s h => rwa [split_of_not_mem h]
  | line l s h ih => rwa [split_line h]

/-- The lines of the front of a text come first. -/
theorem lines_append (s t : List β) : lines sep (s ++ t) = lines sep s ++ lines sep ((split sep s).2 ++ t) := by
  induction s using induction with
  | tail s h => rw [lines_of_not_mem h, split_of_not_mem h, nil_append]
  | line l s h ih =>
    rw [append_assoc, cons_append, lines_line h, lines_line h, split_line h, ih]
    rfl

end Lines

end Whispercast.Library
