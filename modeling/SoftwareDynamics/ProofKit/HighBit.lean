import Mathlib.Algebra.Ring.Nat
import Mathlib.Data.Nat.Log

/-! The highest bit of a number, and the search for it by halves.  The search looks at the upper
half of a window of bits and goes on in it if it is not zero, and else in the lower half. -/

namespace SoftwareDynamics.ProofKit

section Highest

/-- Bit `i` is the highest one that is set. -/
def HighestBit (n i : Nat) : Prop := n.testBit i = true ∧ ∀ j, i < j → n.testBit j = false

theorem highestBit_log2 {n : Nat} (h : n ≠ 0) : HighestBit n n.log2 := by
  refine ⟨Nat.testBit_log2 h, fun j hj => ?_⟩
  apply Nat.testBit_lt_two_pow
  exact (Nat.log2_lt h).mp hj

theorem log2_mono {m n : Nat} (h : m ≤ n) : m.log2 ≤ n.log2 := by
  rw [Nat.log2_eq_log_two, Nat.log2_eq_log_two]
  exact Nat.log_mono_right h

end Highest

section Search

/-- All bits of `n` from `lg` on are in a window of `w` bits, and `n` has a bit there unless the
search is still at its start. -/
structure Window (n lg w : Nat) : Prop where
  fits : n / 2 ^ lg < 2 ^ w
  reached : lg = 0 ∨ 2 ^ lg ≤ n

theorem Window.start {n w : Nat} (h : n < 2 ^ w) : Window n 0 w where
  fits := by rwa [Nat.pow_zero, Nat.div_one]
  reached := .inl rfl

/-- The upper half of the window. -/
theorem Window.upper {n lg w : Nat} (h : Window n lg (2 * w)) (hbit : 2 ^ w ≤ n / 2 ^ lg) :
    Window n (lg + w) w where
  fits := by
    rw [Nat.pow_add, ← Nat.div_div_eq_div_mul]
    apply Nat.div_lt_of_lt_mul
    rw [← Nat.pow_add, ← Nat.two_mul]
    exact h.fits
  reached := by
    refine .inr ?_
    rw [Nat.pow_add, Nat.mul_comm]
    exact (Nat.le_div_iff_mul_le (Nat.two_pow_pos lg)).mp hbit

/-- The lower half of the window. -/
theorem Window.lower {n lg w : Nat} (h : Window n lg (2 * w)) (hbit : n / 2 ^ lg < 2 ^ w) :
    Window n lg w := ⟨hbit, h.reached⟩

/-- A window of one bit has the highest bit. -/
theorem Window.log2_eq {n lg : Nat} (h : Window n lg 1) : n.log2 = lg := by
  have hlt : n < 2 ^ (lg + 1) := by
    rw [Nat.pow_succ]
    exact (Nat.div_lt_iff_lt_mul (Nat.two_pow_pos lg)).mp h.fits |>.trans_eq (Nat.mul_comm _ _)
  rcases Nat.eq_zero_or_pos n with rfl | hpos
  · rcases h.reached with rfl | hle
    · exact Nat.log2_zero
    · exact absurd hle (Nat.not_le_of_lt (Nat.two_pow_pos lg))
  · rw [Nat.log2_eq_iff (Nat.ne_of_gt hpos)]
    refine ⟨?_, hlt⟩
    rcases h.reached with rfl | hle
    · exact hpos
    · exact hle

end Search

section Words

variable {k : Nat}

/-- The bits from `w` to `2 * w`. -/
def upperMask (k w : Nat) : BitVec k := .ofNat k ((2 ^ w - 1) * 2 ^ w)

theorem getLsbD_upperMask {w i : Nat} (hk : 2 * w ≤ k) :
    (upperMask k w).getLsbD i = decide (w ≤ i ∧ i < 2 * w) := by
  rw [upperMask, BitVec.getLsbD_ofNat, Nat.testBit_mul_two_pow, Nat.testBit_two_pow_sub_one]
  by_cases hw : w ≤ i
  · by_cases hi : i < 2 * w
    · simp [hw, hi, show i < k by omega, show i - w < w by omega]
    · simp [hi, show ¬i - w < w by omega]
  · simp [hw]

/-- A word has a bit under the mask where its low bits do not fit below the mask. -/
theorem and_upperMask {w : Nat} (v : BitVec k) (hk : 2 * w ≤ k) :
    v &&& upperMask k w ≠ 0 ↔ 2 ^ w ≤ v.toNat % 2 ^ (2 * w) := by
  constructor
  · intro hne
    by_contra hlt
    apply hne
    apply BitVec.eq_of_getLsbD_eq
    intro i hi
    rw [BitVec.getLsbD_and, getLsbD_upperMask hk]
    by_cases hrange : w ≤ i ∧ i < 2 * w
    · have hlow : v.toNat % 2 ^ (2 * w) < 2 ^ i :=
        Nat.lt_of_lt_of_le (Nat.not_le.mp hlt) (Nat.pow_le_pow_right (by decide) hrange.1)
      have hbit := Nat.testBit_lt_two_pow hlow
      rw [Nat.testBit_mod_two_pow, decide_eq_true hrange.2, Bool.true_and] at hbit
      simp [BitVec.getLsbD, hbit]
    · simp [hrange]
  · intro hle hzero
    obtain ⟨i, hi, hbit⟩ := Nat.exists_ge_and_testBit_of_ge_two_pow hle
    rw [Nat.testBit_mod_two_pow, Bool.and_eq_true_iff, decide_eq_true_iff] at hbit
    have hand := congrArg (fun u : BitVec k => u.getLsbD i) hzero
    simp only [BitVec.getLsbD_and, getLsbD_upperMask hk] at hand
    simp [BitVec.getLsbD, hbit.1, hbit.2, hi] at hand

/-- An arithmetic shift moves the upper half of the low bits to the lower half, whatever sign it
drags in above them. -/
theorem toNat_sshiftRight_mod {w : Nat} (v : BitVec k) (hk : 2 * w ≤ k) :
    (v.sshiftRight w).toNat % 2 ^ w = v.toNat % 2 ^ (2 * w) / 2 ^ w := by
  apply Nat.eq_of_testBit_eq
  intro i
  rw [Nat.testBit_mod_two_pow, Nat.testBit_div_two_pow, Nat.testBit_mod_two_pow]
  by_cases hi : i < w
  · have hshift := BitVec.getLsbD_sshiftRight v w i
    rw [if_pos (show w + i < k by omega)] at hshift
    simp only [BitVec.getLsbD] at hshift
    rw [hshift, Nat.add_comm i w]
    simp [hi, show ¬k ≤ i by omega, show w + i < 2 * w by omega]
  · simp [hi, show ¬i + w < 2 * w by omega]

end Words

end SoftwareDynamics.ProofKit
