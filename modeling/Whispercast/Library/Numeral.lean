import Mathlib.Data.Nat.Digits.Lemmas
import Mathlib.Data.List.TakeWhile

/-!
# Numbers as text

A natural number is written in a base of at most 36 as its digits, the most significant one first
(`numeral`). `strtol` is the C function of this name where a `long` has 64 bits: it passes over blanks, takes
a sign and, for the base 16, a prefix `0x`, and reads as many digits as there are. With none, it reads 0
and does not complain; a number that is no `long` is cut to the nearest one, and `errno` is set.
-/

namespace Whispercast.Library

open List

namespace Numeral

/-! ## Digits -/

/-- The character of a digit; letters are written in lower case. -/
def digitByte (d : Nat) : UInt8 := if d < 10 then UInt8.ofNat (48 + d) else UInt8.ofNat (87 + d)

/-- The digit that a character stands for, in either case; 36 for one that is no digit. -/
def digitOf (c : UInt8) : Nat :=
  if 48 ≤ c ∧ c ≤ 57 then c.toNat - 48
  else if 97 ≤ c ∧ c ≤ 122 then c.toNat - 87
  else if 65 ≤ c ∧ c ≤ 90 then c.toNat - 55
  else 36

/-- A digit of a number in this base. -/
def isDigit (base : Nat) (c : UInt8) : Bool := digitOf c < base

/-- A number in this base. -/
def numeral (base n : Nat) : List UInt8 :=
  if n = 0 then [48] else (Nat.digits base n).reverse.map digitByte

/-- The number that a series of digits stands for. -/
def value (base : Nat) (s : List UInt8) : Nat := s.foldl (fun acc c => acc * base + digitOf c) 0

/-- A number with zeros in front, for at least so many characters. -/
def padded (base width n : Nat) : List UInt8 :=
  List.replicate (width - (numeral base n).length) 48 ++ numeral base n

theorem digitOf_digitByte {d : Nat} (h : d < 36) : digitOf (digitByte d) = d := by
  have hall : ∀ d : Fin 36, digitOf (digitByte d) = d := by decide
  exact hall ⟨d, h⟩

section Numerals

variable {base n : Nat} (hbase : 1 < base) (hle : base ≤ 36)

include hbase hle

theorem isDigit_of_mem_numeral {c : UInt8} (h : c ∈ numeral base n) : isDigit base c = true := by
  rw [numeral] at h
  by_cases hzero : n = 0
  · rw [if_pos hzero, mem_singleton] at h
    rw [h, isDigit, decide_eq_true_iff]
    exact Nat.lt_of_lt_of_le (by decide : digitOf 48 < 2) hbase
  · rw [if_neg hzero, mem_map] at h
    obtain ⟨d, hd, rfl⟩ := h
    have hlt : d < base := Nat.digits_lt_base hbase (mem_reverse.1 hd)
    rw [isDigit, digitOf_digitByte (Nat.lt_of_lt_of_le hlt hle), decide_eq_true_iff]
    exact hlt

/-- A number is read as it was written. -/
theorem value_numeral : value base (numeral base n) = n := by
  rw [numeral]
  by_cases hzero : n = 0
  · rw [if_pos hzero, hzero, value, foldl_cons, foldl_nil, Nat.zero_mul]
    decide
  · have hdigits : ∀ d ∈ Nat.digits base n, digitOf (digitByte d) = d := fun d hd =>
      digitOf_digitByte (Nat.lt_of_lt_of_le (Nat.digits_lt_base hbase hd) hle)
    rw [if_neg hzero, value, foldl_map, foldl_reverse]
    have hfold : ∀ ds : List Nat, (∀ d ∈ ds, digitOf (digitByte d) = d) →
        ds.foldr (fun d acc => acc * base + digitOf (digitByte d)) 0 = Nat.ofDigits base ds := by
      intro ds hds
      induction ds with
      | nil => rfl
      | cons d ds ih =>
        rw [foldr_cons, ih fun e he => hds e (mem_cons_of_mem _ he), hds d mem_cons_self,
          Nat.ofDigits_cons, Nat.mul_comm, Nat.add_comm]
    rw [hfold _ hdigits, Nat.ofDigits_digits]

omit hbase hle in
theorem numeral_ne_nil : numeral base n ≠ [] := by
  rw [numeral]
  by_cases hzero : n = 0
  · rw [if_pos hzero]
    exact cons_ne_nil _ _
  · rw [if_neg hzero]
    intro hnil
    rw [map_eq_nil_iff, reverse_eq_nil_iff] at hnil
    exact Nat.digits_ne_nil_iff_ne_zero.2 hzero hnil

omit hle in
/-- A number below a power of the base has at most so many digits. -/
theorem length_numeral_le {k : Nat} (hk : 0 < k) (hlt : n < base ^ k) : (numeral base n).length ≤ k := by
  rw [numeral]
  split_ifs
  · exact hk
  · rw [length_map, length_reverse]
    exact (Nat.digits_length_le_iff hbase n).2 hlt

variable {width : Nat}

theorem isDigit_of_mem_padded {c : UInt8} (h : c ∈ padded base width n) : isDigit base c = true := by
  rw [padded, mem_append] at h
  rcases h with h | h
  · rw [eq_of_mem_replicate h, isDigit, decide_eq_true_iff]
    exact Nat.lt_of_lt_of_le (by decide : digitOf 48 < 2) hbase
  · exact isDigit_of_mem_numeral hbase hle h

/-- Zeros in front do not change a number. -/
theorem value_padded (width : Nat) : value base (padded base width n) = n := by
  have hzeros : ∀ k : Nat, (replicate k (48 : UInt8)).foldl (fun acc c => acc * base + digitOf c) 0 = 0 := by
    intro k
    induction k with
    | zero => rfl
    | succ k ih =>
      have hzero : 0 * base + digitOf 48 = 0 := by rw [Nat.zero_mul]; decide
      rw [replicate_succ, foldl_cons, hzero, ih]
  rw [value, padded, foldl_append, hzeros]
  exact value_numeral hbase hle

omit hbase hle in
theorem padded_ne_nil : padded base width n ≠ [] := append_ne_nil_of_right_ne_nil _ numeral_ne_nil

omit hle in
theorem length_padded (hwidth : 0 < width) (hlt : n < base ^ width) : (padded base width n).length = width := by
  have hlen := length_numeral_le hbase hwidth hlt
  rw [padded, length_append, length_replicate]
  omega

omit hle in
/-- A zero more. -/
theorem padded_succ (hwidth : 0 < width) (hlt : n < base ^ width) :
    padded base (width + 1) n = 48 :: padded base width n := by
  have hlen := length_numeral_le hbase hwidth hlt
  rw [padded, padded, Nat.sub_add_comm hlen, replicate_succ, cons_append]

end Numerals

/-! ## strtol -/

def isSpace (c : UInt8) : Bool := c = 32 || (9 ≤ c && c ≤ 13)

/-- The greatest `long`. -/
def longMax : Int := 2 ^ 63 - 1

/-- The least `long`. -/
def longMin : Int := -2 ^ 63

/-- The number at the beginning of a text that has no sign in front. -/
def unsignedAt (base : Nat) (s : List UInt8) : Nat :=
  match s with
  | 48 :: x :: c :: rest =>
    if base = 16 ∧ (x = 120 ∨ x = 88) ∧ isDigit 16 c = true
    then value base ((c :: rest).takeWhile (isDigit base))
    else value base (s.takeWhile (isDigit base))
  | _ => value base (s.takeWhile (isDigit base))

/-- The number at the beginning of a text, of any size; 0 when there is none. -/
def numberAt (base : Nat) (s : List UInt8) : Int :=
  match s.dropWhile isSpace with
  | 45 :: rest => -(unsignedAt base rest : Int)
  | 43 :: rest => unsignedAt base rest
  | rest => unsignedAt base rest

/-- What `strtol` returns, and whether it sets `errno`. The text ends at its first NUL. -/
def strtol (base : Nat) (s : List UInt8) : Int × Bool :=
  let n := numberAt base (s.takeWhile (· ≠ 0))
  if longMax < n then (longMax, true) else if n < longMin then (longMin, true) else (n, false)

theorem takeWhile_isDigit {base : Nat} {ds rest : List UInt8} (hds : ∀ c ∈ ds, isDigit base c = true)
    (hrest : ∀ c ∈ rest.head?, isDigit base c = false) : (ds ++ rest).takeWhile (isDigit base) = ds := by
  rw [takeWhile_append_of_pos hds]
  cases rest with
  | nil => exact append_nil ds
  | cons c rest =>
    have hc : ¬ isDigit base c = true := by
      rw [hrest c rfl]
      exact Bool.false_ne_true
    rw [takeWhile_cons_of_neg hc, append_nil]

/-! ## Texts that begin with a number -/

/-- Blanks, signs and the end of a text are below all digits. -/
theorem digitOf_of_lt {c : UInt8} (h : c < 48) : digitOf c = 36 := by
  have h48 : ¬ (48 ≤ c ∧ c ≤ 57) := fun hc => absurd hc.1 (UInt8.not_le.2 h)
  have h97 : ¬ (97 ≤ c ∧ c ≤ 122) := fun hc =>
    absurd (UInt8.le_trans (by decide : (48 : UInt8) ≤ 97) hc.1) (UInt8.not_le.2 h)
  have h65 : ¬ (65 ≤ c ∧ c ≤ 90) := fun hc =>
    absurd (UInt8.le_trans (by decide : (48 : UInt8) ≤ 65) hc.1) (UInt8.not_le.2 h)
  rw [digitOf, if_neg h48, if_neg h97, if_neg h65]

section Prefix

variable {base : Nat} (hle : base ≤ 36) {c : UInt8} {ds rest : List UInt8}

include hle

theorem le_of_isDigit (hc : isDigit base c = true) : 48 ≤ c := by
  by_contra hlt
  rw [isDigit, digitOf_of_lt (UInt8.not_le.1 hlt), decide_eq_true_iff] at hc
  omega

theorem isSpace_of_isDigit (hc : isDigit base c = true) : isSpace c = false := by
  have hge := le_of_isDigit hle hc
  rw [isSpace, Bool.or_eq_false_iff]
  constructor
  · rw [decide_eq_false_iff_not]
    rintro rfl
    exact absurd hge (by decide)
  · rw [Bool.and_eq_false_iff]
    right
    rw [decide_eq_false_iff_not]
    intro h13
    exact absurd (UInt8.le_trans hge h13) (by decide)

/-- The text up to its first NUL still begins with the digits. -/
theorem takeWhile_ne_zero (hds : ∀ c ∈ ds, isDigit base c = true) :
    (ds ++ rest).takeWhile (· ≠ 0) = ds ++ rest.takeWhile (· ≠ 0) := by
  apply takeWhile_append_of_pos
  intro c hc
  have hge := le_of_isDigit hle (hds c hc)
  rw [decide_eq_true_iff]
  rintro rfl
  exact absurd hge (by decide)

omit hle in
/-- A number is read as far as there are digits, unless a second character `x` makes them a prefix. -/
theorem unsignedAt_digits (hds : ∀ c ∈ ds, isDigit base c = true) (hne : ds ≠ [])
    (hrest : ∀ c ∈ rest.head?, isDigit base c = false)
    (hfront : base = 16 → ∀ c ∈ rest.head?, c ≠ 120 ∧ c ≠ 88) : unsignedAt base (ds ++ rest) = value base ds := by
  have htake := takeWhile_isDigit hds hrest
  unfold unsignedAt
  split
  · rename_i x c tail heq
    split_ifs with hx
    · exfalso
      -- The second character is a digit, or the first one behind the digits.
      have hxne : x ≠ 120 ∧ x ≠ 88 := by
        obtain ⟨d, ds, rfl⟩ := exists_cons_of_ne_nil hne
        rw [cons_append, List.cons.injEq] at heq
        cases ds with
        | nil =>
          have hrest : rest = x :: c :: tail := heq.2
          apply hfront hx.1
          rw [hrest]
          rfl
        | cons e ds =>
          have he : e = x := by
            have htail := heq.2
            rw [cons_append, List.cons.injEq] at htail
            exact htail.1
          have hdigit := hds e (by simp)
          rw [he, hx.1] at hdigit
          constructor
          · rintro rfl
            exact absurd hdigit (by decide)
          · rintro rfl
            exact absurd hdigit (by decide)
      exact hx.2.1.elim hxne.1 hxne.2
    · rw [htake]
  · rw [htake]

section

variable (rest : List UInt8) (hds : ∀ c ∈ ds, isDigit base c = true) (hne : ds ≠ [])
    (hrest : ∀ c ∈ rest.head?, isDigit base c = false) (hfront : base = 16 → ∀ c ∈ rest.head?, c ≠ 120 ∧ c ≠ 88)

include hds hne hrest hfront

theorem numberAt_digits : numberAt base (ds ++ rest) = value base ds := by
  have hunsigned := unsignedAt_digits hds hne hrest hfront
  obtain ⟨d, ds, rfl⟩ := exists_cons_of_ne_nil hne
  have hd := hds d mem_cons_self
  have hge := le_of_isDigit hle hd
  have hdrop : (d :: ds ++ rest).dropWhile isSpace = d :: ds ++ rest := by
    rw [cons_append, dropWhile_cons_of_neg]
    rw [isSpace_of_isDigit hle hd]
    exact Bool.false_ne_true
  rw [numberAt, hdrop]
  split
  · rename_i tail heq
    rw [cons_append, cons.injEq] at heq
    rw [heq.1] at hge
    exact absurd hge (by decide)
  · rename_i tail heq
    rw [cons_append, cons.injEq] at heq
    rw [heq.1] at hge
    exact absurd hge (by decide)
  · rw [hunsigned]

theorem strtol_digits : strtol base (ds ++ rest) =
      if longMax < (value base ds : Int) then (longMax, true) else ((value base ds : Int), false) := by
  have hhead : ∀ c ∈ (rest.takeWhile (· ≠ 0)).head?, c ∈ rest.head? := by
    intro c hc
    cases rest with
    | nil => exact hc
    | cons d rest =>
      by_cases hd : d = 0
      · simp [hd] at hc
      · simpa [hd] using hc
  have hnumber := numberAt_digits hle (rest.takeWhile (· ≠ 0)) hds hne
    (fun c hc => hrest c (hhead c hc)) (fun hb c hc => hfront hb c (hhead c hc))
  have hmin : ¬ ((value base ds : Int) < longMin) := by
    rw [longMin]
    omega
  rw [strtol, takeWhile_ne_zero hle hds, hnumber]
  rw [if_neg hmin]

end

end Prefix

end Numeral

end Whispercast.Library
