import Mathlib.Tactic.Ring

/-!
# Numbers as bytes

A number of `n` bytes in little-endian order is written down digit by digit in base 256; big-endian order
is the reversed string. Writing takes the number modulo `256 ^ n`, and reading what was written gives
that remainder back.
-/

namespace Whispercast.Library

/-- The `n` low bytes of a number, the least significant one first. -/
def leBytes : Nat → Nat → List UInt8
  | 0, _ => []
  | n + 1, v => UInt8.ofNat v :: leBytes n (v / 256)

/-- The number whose bytes are given, the least significant one first. -/
def leValue : List UInt8 → Nat
  | [] => 0
  | b :: bs => b.toNat + 256 * leValue bs

/-- The `n` low bytes of a number, the most significant one first. -/
def beBytes (n v : Nat) : List UInt8 := (leBytes n v).reverse

/-- The number whose bytes are given, the most significant one first. -/
def beValue (bs : List UInt8) : Nat := leValue bs.reverse

@[simp] theorem leBytes_length (n v : Nat) : (leBytes n v).length = n := by
  induction n generalizing v with
  | zero => rfl
  | succ n ih => rw [leBytes, List.length_cons, ih]

@[simp] theorem beBytes_length (n v : Nat) : (beBytes n v).length = n := by
  rw [beBytes, List.length_reverse, leBytes_length]

theorem leValue_leBytes (n v : Nat) : leValue (leBytes n v) = v % 256 ^ n := by
  induction n generalizing v with
  | zero => rw [leBytes, leValue, Nat.pow_zero, Nat.mod_one]
  | succ n ih =>
    have hbyte : (UInt8.ofNat v).toNat = v % 256 := UInt8.toNat_ofNat'
    rw [leBytes, leValue, hbyte, ih, Nat.pow_succ', Nat.mod_mul]

theorem beValue_beBytes (n v : Nat) : beValue (beBytes n v) = v % 256 ^ n := by
  rw [beValue, beBytes, List.reverse_reverse, leValue_leBytes]

/-- A number that fits in `n` bytes is read back. -/
theorem beValue_beBytes_of_lt {n v : Nat} (h : v < 256 ^ n) : beValue (beBytes n v) = v := by
  rw [beValue_beBytes, Nat.mod_eq_of_lt h]

theorem leValue_leBytes_of_lt {n v : Nat} (h : v < 256 ^ n) : leValue (leBytes n v) = v := by
  rw [leValue_leBytes, Nat.mod_eq_of_lt h]

variable (bs : List UInt8)

/-- The bytes of a number that was read are those that it was read from. -/
theorem leBytes_leValue : leBytes bs.length (leValue bs) = bs := by
  induction bs with
  | nil => rfl
  | cons b bs ih =>
    have hbyte : UInt8.ofNat (b.toNat + 256 * leValue bs) = b := by
      rw [← UInt8.toNat_inj, UInt8.toNat_ofNat', Nat.add_mul_mod_self_left,
        Nat.mod_eq_of_lt (UInt8.toNat_lt b)]
    have hdiv : (b.toNat + 256 * leValue bs) / 256 = leValue bs := by
      have hb : b.toNat < 256 := UInt8.toNat_lt b
      omega
    rw [leValue, List.length_cons, leBytes, hbyte, hdiv, ih]

theorem beBytes_beValue : beBytes bs.length (beValue bs) = bs := by
  have h := leBytes_leValue bs.reverse
  rw [List.length_reverse] at h
  rw [beBytes, beValue, h, List.reverse_reverse]

theorem leValue_lt : leValue bs < 256 ^ bs.length := by
  induction bs with
  | nil => exact Nat.one_pos
  | cons b bs ih =>
    have hb : b.toNat < 256 := UInt8.toNat_lt b
    rw [leValue, List.length_cons, Nat.pow_succ]
    omega

theorem beValue_lt : beValue bs < 256 ^ bs.length := by
  have h := leValue_lt bs.reverse
  rwa [List.length_reverse] at h

end Whispercast.Library
