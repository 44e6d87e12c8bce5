import Mathlib.Data.Nat.Bitwise
import FlatHeap.Host.Machine
import FlatHeap.Proofs.Words
import FlatHeap.Proofs.Host.Signatures

/-!
# Operations on scalars

The scalars are truth values and integers.  Every operation that compiled code performs on them is
exact arithmetic followed by a reduction to the result type, or a conversion that fails outside the
result's range; what each operation gives is stated here once.
-/

namespace FlatHeap

namespace Host

variable {n : Nat}

/-! ## Masks

Bit operations with a mask are arithmetic on the rest modulo a power of two.  The 128 bits they are
carried out on leave room for every operand of 64 bits. -/

lemma ofInt_toNat_128 (a : Int) : ((BitVec.ofInt 128 a).toNat : Int) = a % 2 ^ 128 := by
  have hnn : 0 ≤ a % 2 ^ 128 := Int.emod_nonneg a (by decide)
  rw [BitVec.toNat_ofInt]
  push_cast
  omega

lemma toInt_of_toNat_lt {w : BitVec 128} (h : w.toNat < 2 ^ 127) : w.toInt = w.toNat := by
  rw [BitVec.toInt_eq_toNat_cond, if_pos (by omega)]

lemma emod_two_pow_emod (a : Int) (hn : n ≤ 128) : a % 2 ^ 128 % 2 ^ n = a % 2 ^ n :=
  Int.emod_emod_of_dvd a (pow_dvd_pow 2 hn)

lemma toNat_ofInt_natCast {m : Nat} (h : m < 2 ^ 128) : (BitVec.ofInt 128 (m : Int)).toNat = m := by
  rw [BitVec.ofInt_natCast, BitVec.toNat_ofNat, Nat.mod_eq_of_lt h]

lemma two_pow_le (hn : n ≤ 64) : (2 : Nat) ^ n ≤ 2 ^ 64 :=
  Nat.pow_le_pow_right (by decide) hn

lemma bitAnd_mask (a : Int) (hn : n ≤ 64) : bitAnd a (2 ^ n - 1) = a % 2 ^ n := by
  have hpow := two_pow_le hn
  have hpos : 0 < (2 : Nat) ^ n := by positivity
  have hcast : (2 : Int) ^ n - 1 = ((2 ^ n - 1 : Nat) : Int) := by
    push_cast [Nat.one_le_two_pow]
    ring
  have hand : (BitVec.ofInt 128 a &&& BitVec.ofInt 128 (2 ^ n - 1)).toNat =
      (BitVec.ofInt 128 a).toNat % 2 ^ n := by
    rw [hcast, BitVec.toNat_and, toNat_ofInt_natCast (by omega), Nat.and_two_pow_sub_one_eq_mod]
  have hlt : (BitVec.ofInt 128 a).toNat % 2 ^ n < 2 ^ n := Nat.mod_lt _ hpos
  rw [bitAnd, bitwise, toInt_of_toNat_lt (by omega), hand]
  push_cast
  rw [ofInt_toNat_128, emod_two_pow_emod a (by omega)]

lemma bitAnd_bit (a : Int) (hn : n < 64) :
    bitAnd a (2 ^ n) = if 2 ^ n ≤ a % 2 ^ (n + 1) then 2 ^ n else 0 := by
  have hpow := two_pow_le hn.le
  have hcast : (2 : Int) ^ n = ((2 ^ n : Nat) : Int) := by push_cast; ring
  set w := (BitVec.ofInt 128 a).toNat with hw
  have hand : (BitVec.ofInt 128 a &&& BitVec.ofInt 128 (2 ^ n)).toNat =
      (w.testBit n).toNat * 2 ^ n := by
    rw [hcast, BitVec.toNat_and, toNat_ofInt_natCast (by omega), Nat.and_two_pow, mul_comm]
  have hmod : a % 2 ^ (n + 1) = ((w % 2 ^ (n + 1) : Nat) : Int) := by
    push_cast
    rw [hw, ofInt_toNat_128, emod_two_pow_emod a (by omega)]
  have hsplit : w % 2 ^ (n + 1) = w % 2 ^ n + 2 ^ n * (w / 2 ^ n % 2) := Nat.mod_pow_succ
  have hlow : w % 2 ^ n < 2 ^ n := Nat.mod_lt _ (by positivity)
  have hle : (2 : Int) ^ n ≤ a % 2 ^ (n + 1) ↔ w.testBit n = true := by
    rw [hmod, hcast, Nat.cast_le, hsplit, Nat.testBit_eq_decide_div_mod_eq, decide_eq_true_iff]
    rcases Nat.mod_two_eq_zero_or_one (w / 2 ^ n) with h | h <;> rw [h] <;> simp <;> omega
  rw [bitAnd, bitwise, toInt_of_toNat_lt, hand]
  · cases hb : w.testBit n <;> simp [hle, hb]
  · rw [hand]
    cases w.testBit n <;> simp <;> omega

lemma bitOr_neg {a : Int} (hn : n ≤ 64) (h₀ : 0 ≤ a) (h₁ : a < 2 ^ n) :
    bitOr a (-2 ^ n) = a - 2 ^ n := by
  obtain ⟨m, rfl⟩ := Int.eq_ofNat_of_zero_le h₀
  have hpow := two_pow_le hn
  have hm : m < 2 ^ n := by exact_mod_cast h₁
  have hfull : (2 : Nat) ^ n * 2 ^ (128 - n) = 2 ^ 128 := by
    rw [← pow_add]
    congr 1
    omega
  have hneg : (BitVec.ofInt 128 (-2 ^ n)).toNat = 2 ^ n * (2 ^ (128 - n) - 1) := by
    have h := ofInt_toNat_128 (-2 ^ n)
    have hcast : (2 : Int) ^ n = ((2 ^ n : Nat) : Int) := by push_cast; ring
    have hsub : (-((2 ^ n : Nat) : Int)) % 2 ^ 128 = 2 ^ 128 - ((2 ^ n : Nat) : Int) := by
      rw [← Int.add_emod_right, Int.emod_eq_of_lt] <;> omega
    rw [hcast, hsub] at h
    rw [hcast, Nat.mul_sub, hfull]
    omega
  have hor : (BitVec.ofInt 128 m ||| BitVec.ofInt 128 (-2 ^ n)).toNat =
      m + (2 ^ 128 - 2 ^ n) := by
    rw [BitVec.toNat_or, toNat_ofInt_natCast (by omega), hneg, Nat.or_comm,
      ← Nat.two_pow_add_eq_or_of_lt hm, Nat.mul_sub, hfull]
    omega
  rw [bitOr, bitwise, BitVec.toInt_eq_toNat_cond, hor, if_neg (by omega), Nat.cast_add,
    Nat.cast_sub (by omega)]
  push_cast
  ring

lemma bitOr_bit {a : Int} (hn : n ≤ 64) (h₀ : 0 ≤ a) (h₁ : a < 2 ^ n) :
    bitOr a (2 ^ n) = a + 2 ^ n := by
  obtain ⟨m, rfl⟩ := Int.eq_ofNat_of_zero_le h₀
  have hpow := two_pow_le hn
  have hm : m < 2 ^ n := by exact_mod_cast h₁
  have hcast : (2 : Int) ^ n = ((2 ^ n : Nat) : Int) := by push_cast; ring
  have hor : (BitVec.ofInt 128 m ||| BitVec.ofInt 128 (2 ^ n)).toNat = 2 ^ n + m := by
    have := Nat.two_pow_add_eq_or_of_lt hm 1
    rw [Nat.mul_one] at this
    rw [hcast, BitVec.toNat_or, toNat_ofInt_natCast (by omega), toNat_ofInt_natCast (by omega),
      Nat.or_comm, ← this]
  rw [bitOr, bitwise, toInt_of_toNat_lt (by omega), hor, hcast]
  push_cast
  ring

end Host

end FlatHeap
