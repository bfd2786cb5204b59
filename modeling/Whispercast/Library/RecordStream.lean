import Mathlib.Data.List.Infix

/-!
# Records in a stream

A stream is made of records, each of them some symbols that carry something. A decoder finds the first record of what
has arrived when all of its symbols are there, and nothing before.
-/

namespace Whispercast.Library

open List

variable {β χ : Type}

/-- The symbols of records. -/
def symbols (records : List (List β × χ)) : List β := records.flatMap Prod.fst

/-- What the records carry that are complete in the first `n` symbols. -/
def completeIn : List (List β × χ) → Nat → List χ
  | [], _ => []
  | (w, c) :: records, n => if w.length ≤ n then c :: completeIn records (n - w.length) else []

/-- A decoder finds records: what they carry, and their length. -/
structure Framed (record : List β → Option (χ × Nat)) (records : List (List β × χ)) : Prop where
  ne_nil : ∀ r ∈ records, r.1 ≠ []
  whole : ∀ r ∈ records, ∀ rest, record (r.1 ++ rest) = some (r.2, r.1.length)
  short : ∀ r ∈ records, ∀ p, p <+: r.1 → p ≠ r.1 → record p = none

variable {record : List β → Option (χ × Nat)} {records done rs : List (List β × χ)} {w l more : List β} {c : χ} {n : Nat}

@[simp] theorem symbols_cons (w : List β) (c : χ) (rs : List (List β × χ)) : symbols ((w, c) :: rs) = w ++ symbols rs :=
  rfl

@[simp] theorem symbols_append (done rs : List (List β × χ)) : symbols (done ++ rs) = symbols done ++ symbols rs :=
  flatMap_append

theorem completeIn_append (done rs : List (List β × χ)) (n : Nat) :
    completeIn (done ++ rs) ((symbols done).length + n) = done.map Prod.snd ++ completeIn rs n := by
  induction done with
  | nil => simp [symbols]
  | cons r done ih =>
    rw [cons_append, completeIn, symbols_cons, length_append, if_pos (by omega), map_cons,
      cons_append, ← ih]
    congr 2
    omega

namespace Framed

theorem tail {r : List β × χ} (h : Framed record (r :: rs)) : Framed record rs :=
  ⟨fun x hx => h.ne_nil x (mem_cons_of_mem _ hx), fun x hx => h.whole x (mem_cons_of_mem _ hx),
    fun x hx => h.short x (mem_cons_of_mem _ hx)⟩

theorem right (h : Framed record (done ++ rs)) : Framed record rs :=
  ⟨fun x hx => h.ne_nil x (mem_append_right _ hx), fun x hx => h.whole x (mem_append_right _ hx),
    fun x hx => h.short x (mem_append_right _ hx)⟩

theorem completeIn_zero (h : Framed record rs) : completeIn rs 0 = [] := by
  cases rs with
  | nil => rfl
  | cons r rs =>
    obtain ⟨w, c⟩ := r
    have hpos := length_pos_iff.2 (h.ne_nil (w, c) mem_cons_self)
    rw [completeIn, if_neg (by dsimp only at hpos; omega)]

/-- The first record is found. -/
theorem found (h : Framed record ((w, c) :: rs)) (hl : l <+: symbols ((w, c) :: rs) ++ more)
    (hlen : w.length ≤ l.length) :
    ∃ l', l = w ++ l' ∧ l' <+: symbols rs ++ more ∧ record l = some (c, w.length) := by
  rw [symbols_cons, append_assoc] at hl
  obtain ⟨l', rfl⟩ := prefix_of_prefix_length_le (prefix_append w _) hl hlen
  exact ⟨l', rfl, (prefix_append_right_inj w).1 hl, h.whole (w, c) mem_cons_self l'⟩

/-- The first record is not complete. -/
theorem missing (h : Framed record ((w, c) :: rs)) (hl : l <+: symbols ((w, c) :: rs) ++ more)
    (hlen : l.length < w.length) : record l = none := by
  rw [symbols_cons, append_assoc] at hl
  have hpre := prefix_of_prefix_length_le hl (prefix_append w _) hlen.le
  refine h.short (w, c) mem_cons_self l hpre fun heq => ?_
  rw [heq] at hlen
  exact Nat.lt_irrefl _ hlen

end Framed

end Whispercast.Library
