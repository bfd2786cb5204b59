import Mathlib.Data.Nat.Log
import Mathlib.Algebra.Order.Ring.Int
import Mathlib.Tactic.Ring

/-!
# Binary64 numbers by their bit patterns

A binary64 number is its 64-bit pattern: sign, eleven bits of exponent with bias 1023, and 52 bits of
fraction. Only what conversions and comparisons need is here: equality, the conversion of an integer
(rounding to nearest, ties to even), and the truncation to a 64-bit integer. An integer whose magnitude
has at most 53 significant bits survives the two conversions.
-/

namespace Whispercast.Library

namespace Binary64

/-! ## Equality -/

/-- The pattern is a NaN: the exponent is all ones and the fraction is not zero. -/
def isNaN (x : UInt64) : Bool := decide (2047 * 2 ^ 52 < x.toNat % 2 ^ 63)

/-- The pattern is one of the two zeros. -/
def isZero (x : UInt64) : Bool := x.toNat % 2 ^ 63 == 0

/-- `x == y` on numbers: a NaN equals nothing, the two zeros are equal. -/
def eq (x y : UInt64) : Bool :=
  !isNaN x && !isNaN y && (x == y || isZero x && isZero y)

/-- A number equals itself unless it is a NaN. -/
theorem eq_self (x : UInt64) : eq x x = !isNaN x := by
  rw [eq, beq_self_eq_true, Bool.true_or, Bool.and_true, Bool.and_self]

/-! ## From integers -/

/-- `a / d` rounded to the nearest integer, ties to even. -/
def roundHalfEven (a d : Nat) : Nat :=
  if d < 2 * (a % d) ∨ (2 * (a % d) = d ∧ a / d % 2 = 1) then a / d + 1 else a / d

/-- The significand of a magnitude whose leading bit is `k`, rounded to 53 bits. -/
def significand (a k : Nat) : Nat :=
  if k ≤ 52 then a * 2 ^ (52 - k) else roundHalfEven a (2 ^ (k - 52))

/-- Exponent and fraction of a magnitude. The leading bit of the significand adds the last one to the
exponent, and so does a carry out of the rounding. -/
def magnitudeBits (a : Nat) : Nat :=
  if a = 0 then 0 else (1022 + a.log2) * 2 ^ 52 + significand a a.log2

/-- The number nearest to an integer. -/
def ofInt (z : Int) : UInt64 :=
  UInt64.ofNat ((if z < 0 then 2 ^ 63 else 0) + magnitudeBits z.natAbs)

/-! ## To integers -/

/-- The magnitude of a number without its fractional part. For infinities and NaNs the formula gives
something beyond every 64-bit integer. -/
def truncMagnitude (n : Nat) : Nat :=
  let e := n / 2 ^ 52 % 2048
  let m := n % 2 ^ 52 + 2 ^ 52
  if e < 1023 then 0
  else if 1075 ≤ e then m * 2 ^ (e - 1075)
  else m / 2 ^ (1075 - e)

/-- Truncation to an integer. -/
def trunc (x : UInt64) : Int :=
  if x.toNat < 2 ^ 63 then (truncMagnitude x.toNat : Int) else -(truncMagnitude x.toNat : Int)

/-- Truncation to a 64-bit integer; what is out of range becomes the least one. -/
def toInt64 (x : UInt64) : Int64 :=
  if -2 ^ 63 ≤ trunc x ∧ trunc x < 2 ^ 63 then Int64.ofInt (trunc x) else Int64.minValue

/-! ## Round trip -/

/-- The magnitude has at most 53 significant bits. -/
def Exact (z : Int) : Prop := ∃ m e : Nat, z.natAbs = m * 2 ^ e ∧ m < 2 ^ 53

/-- Nothing is rounded away: the low bits of an exact magnitude are zero. -/
theorem Exact.dvd {z : Int} (h : Exact z) (hz : z.natAbs ≠ 0) : 2 ^ (z.natAbs.log2 - 52) ∣ z.natAbs := by
  rcases h with ⟨m, e, hme, hm⟩
  have hlt : z.natAbs < 2 ^ (53 + e) := by
    rw [hme, Nat.pow_add]
    exact Nat.mul_lt_mul_of_pos_right hm (Nat.two_pow_pos e)
  have hlog : z.natAbs.log2 < 53 + e := (Nat.log2_lt hz).2 hlt
  have hpow : 2 ^ (z.natAbs.log2 - 52) ∣ 2 ^ e := Nat.pow_dvd_pow 2 (by omega)
  rw [hme] at hpow ⊢
  exact Dvd.dvd.mul_left hpow m

theorem roundHalfEven_of_dvd {a d : Nat} (hd : 0 < d) (h : d ∣ a) : roundHalfEven a d = a / d := by
  rw [roundHalfEven, if_neg (by omega)]

/-- The significand of an exact magnitude has 53 bits and loses nothing. -/
theorem significand_spec {a : Nat} (ha : a ≠ 0) (h : 2 ^ (a.log2 - 52) ∣ a) :
    significand a a.log2 * 2 ^ (a.log2 - 52) = a * 2 ^ (52 - a.log2) ∧
      2 ^ 52 ≤ significand a a.log2 ∧ significand a a.log2 < 2 ^ 53 := by
  have hlow : 2 ^ a.log2 ≤ a := Nat.log2_self_le ha
  have hhigh : a < 2 ^ (a.log2 + 1) := Nat.lt_log2_self
  rw [significand]
  by_cases hk : a.log2 ≤ 52
  · rw [if_pos hk, Nat.sub_eq_zero_of_le hk, Nat.pow_zero, Nat.mul_one]
    refine ⟨rfl, ?_, ?_⟩
    · calc 2 ^ 52 = 2 ^ a.log2 * 2 ^ (52 - a.log2) := by rw [← Nat.pow_add, Nat.add_sub_cancel' hk]
        _ ≤ a * 2 ^ (52 - a.log2) := Nat.mul_le_mul_right _ hlow
    · calc a * 2 ^ (52 - a.log2) < 2 ^ (a.log2 + 1) * 2 ^ (52 - a.log2) :=
            Nat.mul_lt_mul_of_pos_right hhigh (Nat.two_pow_pos _)
        _ = 2 ^ 53 := by rw [← Nat.pow_add]; congr 1; omega
  · have hpos : 0 < 2 ^ (a.log2 - 52) := Nat.two_pow_pos _
    rw [if_neg hk, roundHalfEven_of_dvd hpos h, Nat.sub_eq_zero_of_le (by omega : 52 ≤ a.log2),
      Nat.pow_zero, Nat.mul_one]
    refine ⟨Nat.div_mul_cancel h, ?_, ?_⟩
    · rw [Nat.le_div_iff_mul_le hpos, ← Nat.pow_add]
      calc 2 ^ (52 + (a.log2 - 52)) = 2 ^ a.log2 := by congr 1; omega
        _ ≤ a := hlow
    · rw [Nat.div_lt_iff_lt_mul hpos, ← Nat.pow_add]
      calc a < 2 ^ (a.log2 + 1) := hhigh
        _ = 2 ^ (53 + (a.log2 - 52)) := by congr 1; omega

/-- The fields of a pattern put together from sign, exponent and significand. -/
theorem truncMagnitude_fields {s e sig : Nat} (he : e < 2048) (hlow : 2 ^ 52 ≤ sig)
    (hhigh : sig < 2 ^ 53) (hpos : 1023 ≤ e) :
    truncMagnitude (s * 2 ^ 63 + ((e - 1) * 2 ^ 52 + sig)) =
      if 1075 ≤ e then sig * 2 ^ (e - 1075) else sig / 2 ^ (1075 - e) := by
  have hexp : (s * 2 ^ 63 + ((e - 1) * 2 ^ 52 + sig)) / 2 ^ 52 % 2048 = e := by omega
  have hsig : (s * 2 ^ 63 + ((e - 1) * 2 ^ 52 + sig)) % 2 ^ 52 + 2 ^ 52 = sig := by omega
  rw [truncMagnitude, hexp, hsig, if_neg (by omega)]

/-- The truncation of an exact magnitude is the magnitude. -/
theorem truncMagnitude_magnitudeBits {a : Nat} (s : Nat) (h : 2 ^ (a.log2 - 52) ∣ a)
    (hlt : a.log2 < 1024) : truncMagnitude (s * 2 ^ 63 + magnitudeBits a) = a := by
  by_cases ha : a = 0
  · subst ha
    have hexp : (s * 2 ^ 63 + 0) / 2 ^ 52 % 2048 = 0 := by omega
    have hsig : (s * 2 ^ 63 + 0) % 2 ^ 52 = 0 := by omega
    rw [magnitudeBits, if_pos rfl, truncMagnitude, hexp, hsig, if_pos (by decide)]
  · rcases significand_spec ha h with ⟨heq, hlow, hhigh⟩
    have hfields := truncMagnitude_fields (s := s) (e := 1023 + a.log2) (by omega) hlow hhigh (by omega)
    rw [show 1023 + a.log2 - 1 = 1022 + a.log2 by omega] at hfields
    rw [magnitudeBits, if_neg ha, hfields]
    by_cases hk : 52 ≤ a.log2
    · rw [Nat.sub_eq_zero_of_le hk, Nat.pow_zero, Nat.mul_one] at heq
      rw [if_pos (by omega), show 1023 + a.log2 - 1075 = a.log2 - 52 by omega]
      exact heq
    · rw [Nat.sub_eq_zero_of_le (by omega : a.log2 ≤ 52), Nat.pow_zero, Nat.mul_one] at heq
      rw [if_neg (by omega), show 1075 - (1023 + a.log2) = 52 - a.log2 by omega, heq]
      exact Nat.mul_div_cancel a (Nat.two_pow_pos _)

/-- The exponent and the fraction of a magnitude below `2 ^ 64` leave the sign bit alone. -/
theorem magnitudeBits_lt {a : Nat} (h : 2 ^ (a.log2 - 52) ∣ a) (hlt : a.log2 < 1024) : magnitudeBits a < 2 ^ 63 := by
  by_cases ha : a = 0
  · rw [magnitudeBits, if_pos ha]
    decide
  · have hhigh := (significand_spec ha h).2.2
    rw [magnitudeBits, if_neg ha]
    omega

/-- An exact 64-bit integer survives the conversion to a number and back. -/
theorem toInt64_ofInt {z : Int} (h : Exact z) (hlow : -2 ^ 63 ≤ z) (hhigh : z < 2 ^ 63) :
    toInt64 (ofInt z) = Int64.ofInt z := by
  have hdvd : 2 ^ (z.natAbs.log2 - 52) ∣ z.natAbs := by
    by_cases hz : z.natAbs = 0
    · rw [hz]
      exact Nat.dvd_zero _
    · exact h.dvd hz
  have hlog : z.natAbs.log2 < 1024 := by
    by_cases hz : z.natAbs = 0
    · rw [hz]
      decide
    · have hlog' : z.natAbs.log2 < 64 := (Nat.log2_lt hz).2 (by omega)
      omega
  have hbits := magnitudeBits_lt hdvd hlog
  have htrunc : trunc (ofInt z) = z := by
    by_cases hneg : z < 0
    · have hnat : (ofInt z).toNat = 1 * 2 ^ 63 + magnitudeBits z.natAbs := by
        rw [ofInt, if_pos hneg, UInt64.toNat_ofNat', Nat.one_mul]
        exact Nat.mod_eq_of_lt (by omega)
      rw [trunc, hnat, if_neg (by omega), truncMagnitude_magnitudeBits 1 hdvd hlog]
      omega
    · have hnat : (ofInt z).toNat = 0 * 2 ^ 63 + magnitudeBits z.natAbs := by
        rw [ofInt, if_neg hneg, UInt64.toNat_ofNat', Nat.zero_mul]
        exact Nat.mod_eq_of_lt (by omega)
      rw [trunc, hnat, if_pos (by omega), truncMagnitude_magnitudeBits 0 hdvd hlog]
      omega
  rw [toInt64, htrunc, if_pos ⟨hlow, hhigh⟩]

end Binary64

end Whispercast.Library
