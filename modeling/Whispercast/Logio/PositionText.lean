import Mathlib.Data.Prod.Lex
import Whispercast.Logio.LogReader
import Whispercast.Rtsp.FieldRoundTrip

/-!
# Positions as texts, and their order

Model of `LogPos::StrEncode` and `LogPos::StrDecode` (`common/io/logio/logio.h`). A position is before another one when
its file, its block or its record is, in this order.
-/

namespace Whispercast.Logio

open Io Library
open Http (ascii intToString cStr toInt32)
open List Numeral

namespace LogPos

/-- The numbers of a position are `int32`s. -/
def Fits (p : LogPos) : Prop :=
  (-2 ^ 31 ≤ p.file_num_ ∧ p.file_num_ < 2 ^ 31) ∧ (-2 ^ 31 ≤ p.block_num_ ∧ p.block_num_ < 2 ^ 31) ∧
    (-2 ^ 31 ≤ p.record_num_ ∧ p.record_num_ < 2 ^ 31)

instance (p : LogPos) : Decidable p.Fits := inferInstanceAs (Decidable (_ ∧ _))

def strEncode (p : LogPos) : Bytes :=
  ascii "LogPos\x7b" ++ ((ascii "file: " ++ intToString p.file_num_) ++
    [ascii " block: " ++ intToString p.block_num_, ascii " record: " ++ intToString p.record_num_].flatMap
      (fun part => 59 :: part)) ++ ascii "\x7d"

/-- The number of a pair, `strtol` into an `int32`. -/
def numberOf (pair : Bytes × Bytes) : Int := toInt32 (Numeral.strtol 10 (cStr pair.2)).1

/-- `StrDecode`; `none` for false. -/
def strDecode (str : Bytes) : Option LogPos :=
  if str.length ≤ 8 then none
  else
    match (Rtsp.splitString 59 ((str.drop 7).take (str.length - 8))).map (Rtsp.splitFirst 58) with
    | [file, block, record] => some ⟨numberOf file, numberOf block, numberOf record⟩
    | _ => none

/-! ## A position is read as it was written -/

/-- The value of a pair in the text. -/
theorem numberOf_splitFirst {name : Bytes} (hname : 58 ∉ name ∧ 0 ∉ name) {n : Int} (hle : -2 ^ 31 ≤ n)
    (hlt : n < 2 ^ 31) : numberOf (Rtsp.splitFirst 58 (name ++ 58 :: 32 :: intToString n)) = n := by
  have hzero : 0 ∉ intToString n := Http.not_mem_intToString n (by decide)
  have hall : 0 ∉ name ++ 58 :: 32 :: intToString n := by simp [hname.2, hzero]
  have hskip : strtol 10 (32 :: intToString n) = strtol 10 (intToString n) := by
    -- A blank before the number is skipped.
    rw [strtol, strtol, takeWhile_cons_of_pos (by decide), numberAt, numberAt,
      dropWhile_cons_of_pos (by decide)]
  rw [Rtsp.splitFirst_pair hname.1 hall, numberOf, Rtsp.cStr_of_not_mem (by simp [hzero]), hskip,
    Http.strtol_intToString hle hlt, toInt32]
  exact Int.bmod_eq_of_le (by omega) (by omega)

variable {p : LogPos}

theorem strDecode_strEncode (h : p.Fits) : strDecode p.strEncode = some p := by
  have hsemi : ∀ n : Int, 59 ∉ intToString n := by
    intro n hmem
    have hdigit := Http.isDigit_of_mem_intToString hmem (by decide)
    exact absurd hdigit (by decide)
  have hfile : 59 ∉ ascii "file: " ++ intToString p.file_num_ := by
    rw [mem_append, not_or]
    exact ⟨by decide, hsemi _⟩
  have hfile_ne : ascii "file: " ++ intToString p.file_num_ ≠ [] := by simp [ascii]
  have hparts : ∀ part ∈ [ascii " block: " ++ intToString p.block_num_, ascii " record: " ++ intToString p.record_num_],
      part ≠ [] ∧ 59 ∉ part := by
    intro part hpart
    simp only [mem_cons, not_mem_nil, or_false] at hpart
    rcases hpart with rfl | rfl
    · rw [mem_append, not_or]
      exact ⟨by simp [ascii], by decide, hsemi _⟩
    · rw [mem_append, not_or]
      exact ⟨by simp [ascii], by decide, hsemi _⟩
  have hinner : (p.strEncode.drop 7).take (p.strEncode.length - 8) =
      (ascii "file: " ++ intToString p.file_num_) ++
        [ascii " block: " ++ intToString p.block_num_, ascii " record: " ++ intToString p.record_num_].flatMap
          (fun part => 59 :: part) := by
    have hopen : (ascii "LogPos\x7b").length = 7 := by decide
    have hclose : (ascii "\x7d").length = 1 := by decide
    rw [strEncode, append_assoc, drop_left' hopen, length_append, hopen, length_append, hclose]
    exact take_left' (by omega)
  have hlong : ¬ p.strEncode.length ≤ 8 := by
    rw [strEncode]
    simp [ascii]
  have hnumber := fun (name : Bytes) (hname : 58 ∉ name ∧ 0 ∉ name) (n : Int) => numberOf_splitFirst (n := n) hname
  rw [strDecode, if_neg hlong, hinner, Rtsp.splitString_join hfile hfile_ne hparts]
  show some (⟨numberOf (Rtsp.splitFirst 58 (ascii "file" ++ 58 :: 32 :: intToString p.file_num_)),
    numberOf (Rtsp.splitFirst 58 (ascii " block" ++ 58 :: 32 :: intToString p.block_num_)),
    numberOf (Rtsp.splitFirst 58 (ascii " record" ++ 58 :: 32 :: intToString p.record_num_))⟩ : LogPos) = some p
  rw [hnumber _ (by decide) _ h.1.1 h.1.2, hnumber _ (by decide) _ h.2.1.1 h.2.1.2,
    hnumber _ (by decide) _ h.2.2.1 h.2.2.2]

/-- The text of a position is short. -/
theorem length_strEncode (h : p.Fits) : p.strEncode.length < 100 := by
  have hnumber : ∀ n : Int, -2 ^ 31 ≤ n → n < 2 ^ 31 → (intToString n).length ≤ 11 := by
    intro n hle hlt
    have hlen : (numeral 10 n.natAbs).length ≤ 10 :=
      length_numeral_le (by decide) (by decide) (by omega)
    rw [intToString]
    split_ifs
    · exact Nat.succ_le_succ hlen
    · exact Nat.le_succ_of_le hlen
  have hfile := hnumber _ h.1.1 h.1.2
  have hblock := hnumber _ h.2.1.1 h.2.1.2
  have hrecord := hnumber _ h.2.2.1 h.2.2.2
  simp [strEncode, ascii]
  omega

/-! ## The order -/

/-- A position as a tuple in the lexicographic order. -/
def key (p : LogPos) : ℤ ×ₗ ℤ ×ₗ ℤ := toLex (p.file_num_, toLex (p.block_num_, p.record_num_))

instance : Preorder LogPos where
  le p q := p.key ≤ q.key
  lt p q := p.key < q.key
  le_refl p := le_refl p.key
  le_trans _ _ _ h h' := le_trans h h'
  lt_iff_le_not_ge _ _ := lt_iff_le_not_ge

theorem not_le_of_lt {q : LogPos} (h : p < q) : ¬ q ≤ p := (lt_iff_le_not_ge.1 h).2

theorem lt_iff {q : LogPos} : p < q ↔ p.file_num_ < q.file_num_ ∨ p.file_num_ = q.file_num_ ∧
    (p.block_num_ < q.block_num_ ∨ p.block_num_ = q.block_num_ ∧ p.record_num_ < q.record_num_) := by
  show p.key < q.key ↔ _
  rw [key, key, Prod.Lex.toLex_lt_toLex, Prod.Lex.toLex_lt_toLex]

theorem le_iff {q : LogPos} : p ≤ q ↔ p.file_num_ < q.file_num_ ∨ p.file_num_ = q.file_num_ ∧
    (p.block_num_ < q.block_num_ ∨ p.block_num_ = q.block_num_ ∧ p.record_num_ ≤ q.record_num_) := by
  show p.key ≤ q.key ↔ _
  rw [key, key, Prod.Lex.toLex_le_toLex, Prod.Lex.toLex_le_toLex]

instance : DecidableLE LogPos := fun _ _ => decidable_of_iff _ le_iff.symm

/-- A position behind another one is not in a file before. -/
theorem file_le {q : LogPos} (h : p ≤ q) : p.file_num_ ≤ q.file_num_ := by
  rcases le_iff.1 h with hlt | ⟨heq, -⟩
  · exact le_of_lt hlt
  · exact le_of_eq heq

end LogPos

end Whispercast.Logio
