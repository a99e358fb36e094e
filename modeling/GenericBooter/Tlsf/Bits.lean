import GenericBooter.Tlsf.Allocator
import Mathlib.Data.Nat.Bitwise

namespace GenericBooter

namespace Tlsf

theorem table_getD (n : Nat) (bound : n < 256) (positive : n ≠ 0) :
    table.getD n 0 = BitVec.ofNat 32 (Nat.log2 n) := by
  have all : ∀ n : Fin 256, n.val ≠ 0 → table.getD n.val 0 = BitVec.ofNat 32 (Nat.log2 n.val) := by
    decide +kernel
  exact all ⟨n, bound⟩ positive

theorem log2_shiftRight (n a : Nat) (large : 2 ^ a ≤ n) : Nat.log2 n = Nat.log2 (n >>> a) + a := by
  have positive := Nat.two_pow_pos a
  rw [Nat.shiftRight_eq_div_pow]
  have nonzero : n / 2 ^ a ≠ 0 := Nat.ne_of_gt (Nat.div_pos large positive)
  have low := Nat.log2_self_le nonzero
  have high := Nat.lt_log2_self (n := n / 2 ^ a)
  rw [Nat.le_div_iff_mul_le positive] at low
  rw [Nat.div_lt_iff_lt_mul positive] at high
  apply (Nat.log2_eq_iff (by omega)).mpr
  rw [Nat.add_right_comm, pow_add 2 (Nat.log2 _) a, pow_add 2 (Nat.log2 _ + 1) a]
  exact ⟨low, high⟩

theorem msBit_shifted (x : Word) (a : Nat) (small : a < 32) (large : 2 ^ a ≤ x.toNat)
    (bound : x.toNat < 2 ^ (a + 8)) :
    table.getD (x >>> BitVec.ofNat 32 a).toNat 0 + BitVec.ofNat 32 a = BitVec.ofNat 32 (Nat.log2 x.toNat) := by
  have positive := Nat.two_pow_pos a
  have amount : (BitVec.ofNat 32 a).toNat = a := by
    rw [BitVec.toNat_ofNat]
    exact Nat.mod_eq_of_lt (by omega)
  have shifted : (x >>> BitVec.ofNat 32 a).toNat = x.toNat >>> a := by
    rw [BitVec.ushiftRight_eq', amount, BitVec.toNat_ushiftRight]
  have index : x.toNat >>> a < 256 := by
    rw [Nat.shiftRight_eq_div_pow, Nat.div_lt_iff_lt_mul positive, Nat.mul_comm]
    rwa [pow_add] at bound
  have nonzero : x.toNat >>> a ≠ 0 := by
    rw [Nat.shiftRight_eq_div_pow]
    exact Nat.ne_of_gt (Nat.div_pos large positive)
  rw [shifted, table_getD _ index nonzero, ← BitVec.ofNat_add, ← log2_shiftRight _ _ large]

theorem msBit_eq (x : Word) (nonzero : x ≠ 0) : msBit x = BitVec.ofNat 32 (Nat.log2 x.toNat) := by
  have positive : 0 < x.toNat := by
    apply Nat.pos_of_ne_zero
    intro zero
    exact nonzero (BitVec.eq_of_toNat_eq zero)
  have bound := x.isLt
  simp only [msBit, BitVec.le_def, BitVec.reduceToNat]
  split
  · split
    · exact msBit_shifted x 0 (by decide) positive (by omega)
    · exact msBit_shifted x 8 (by decide) (by omega) (by omega)
  · split
    · exact msBit_shifted x 16 (by decide) (by omega) (by omega)
    · exact msBit_shifted x 24 (by decide) (by omega) (by omega)

theorem and_neg_eq (x : Word) (nonzero : x ≠ 0) : x &&& -x = BitVec.twoPow 32 x.ctz.toNat := by
  have set := BitVec.getLsbD_true_ctz_of_ne_zero nonzero
  apply BitVec.eq_of_getLsbD_eq
  intro i small
  rw [BitVec.getLsbD_and, BitVec.getLsbD_neg, BitVec.getLsbD_twoPow]
  rcases Nat.lt_trichotomy i x.ctz.toNat with below | rfl | above
  · have clear := BitVec.getLsbD_false_of_lt_ctz below
    simp [clear, Nat.ne_of_gt below]
  · have first : ¬ ∃ j < x.ctz.toNat, x.getLsbD j = true := by
      rintro ⟨j, before, one⟩
      rw [BitVec.getLsbD_false_of_lt_ctz before] at one
      cases one
    simp [set, small, first]
  · have earlier : ∃ j < i, x.getLsbD j = true := ⟨_, above, set⟩
    simp [small, earlier, Nat.ne_of_lt above]

theorem lsBit_eq (x : Word) (nonzero : x ≠ 0) : lsBit x = x.ctz := by
  have small : x.ctz.toNat < 32 := BitVec.lt_def.mp (BitVec.ctz_lt_iff_ne_zero.mpr nonzero)
  have lone := and_neg_eq x nonzero
  have value : (x &&& -x).toNat = 2 ^ x.ctz.toNat := by
    rw [lone, BitVec.toNat_twoPow]
    exact Nat.mod_eq_of_lt (Nat.pow_lt_pow_right (by decide) small)
  have present : x &&& -x ≠ 0 := by
    intro zero
    rw [zero] at value
    exact Nat.ne_of_lt (Nat.two_pow_pos _) value
  change msBit (x &&& -x) = x.ctz
  rw [msBit_eq _ present, value, Nat.log2_two_pow, BitVec.ofNat_toNat, BitVec.setWidth_eq]

theorem lsBit_zero : lsBit 0 = -1 := by decide

theorem lsBit_first (x : Word) (nonzero : x ≠ 0) :
    ∃ k < 32, lsBit x = BitVec.ofNat 32 k ∧ x.getLsbD k = true ∧ ∀ j < k, x.getLsbD j = false := by
  refine ⟨x.ctz.toNat, BitVec.lt_def.mp (BitVec.ctz_lt_iff_ne_zero.mpr nonzero), ?_,
    BitVec.getLsbD_true_ctz_of_ne_zero nonzero, fun j below => BitVec.getLsbD_false_of_lt_ctz below⟩
  rw [lsBit_eq x nonzero, BitVec.ofNat_toNat, BitVec.setWidth_eq]

theorem mask_bit (x : Word) {k j : Nat} (small : k ≤ 32) (inside : j < 32) :
    (x &&& (~~~(0 : Word) <<< BitVec.ofNat 32 k)).getLsbD j = (x.getLsbD j && decide (k ≤ j)) := by
  have amount : (BitVec.ofNat 32 k).toNat = k := by
    rw [BitVec.toNat_ofNat]
    exact Nat.mod_eq_of_lt (by omega)
  rw [BitVec.getLsbD_and, BitVec.shiftLeft_eq', amount, BitVec.getLsbD_shiftLeft]
  by_cases above : k ≤ j
  · have one : (~~~(0 : Word)).getLsbD (j - k) = true := by
      rw [BitVec.getLsbD_not, decide_eq_true (by omega)]
      exact congrArg not BitVec.getLsbD_zero
    rw [one, decide_eq_true inside, decide_eq_false (Nat.not_lt.mpr above), decide_eq_true above]
    rfl
  · rw [decide_eq_true (Nat.lt_of_not_le above), decide_eq_false above, Bool.not_true, Bool.and_false, Bool.false_and]

theorem zero_bit (k : Nat) : (0 : Word).getLsbD k = false := BitVec.getLsbD_zero

end Tlsf

end GenericBooter
