import Mathlib.Data.Nat.Log
import Mathlib.Data.Nat.Bitwise
import Mathlib.Tactic.Ring

namespace Segregated

variable (k j : ℕ)

/-- How many octaves `s` lies above the evenly cut sizes; 0 among these and in the first octave. -/
def scale (s : ℕ) : ℕ := Nat.log2 s - (k + j)

def width (s : ℕ) : ℕ := 2 ^ (scale k j s + j)

/-- The classes counted from the smallest one on. -/
def rank (s : ℕ) : ℕ := scale k j s * 2 ^ k + s / width k j s

variable {k j : ℕ} {r s : ℕ}

theorem width_pos (s : ℕ) : 0 < width k j s := Nat.two_pow_pos _

theorem width_congr (same : scale k j r = scale k j s) : width k j r = width k j s := by
  rw [width, width, same]

theorem scale_of_small (small : s < 2 ^ (k + j)) : scale k j s = 0 := by
  by_cases zero : s = 0
  · subst zero
    simp [scale]
  · exact Nat.sub_eq_zero_of_le (Nat.le_of_lt ((Nat.log2_lt zero).mpr small))

theorem log2_of_large (large : 2 ^ (k + j) ≤ s) : Nat.log2 s = scale k j s + (k + j) := by
  have nonzero : s ≠ 0 := Nat.ne_of_gt (Nat.lt_of_lt_of_le (Nat.two_pow_pos _) large)
  have above := (Nat.le_log2 nonzero).mpr large
  unfold scale
  omega

theorem scale_bounds (large : 2 ^ (k + j) ≤ s) :
    2 ^ k * width k j s ≤ s ∧ s < 2 ^ (k + 1) * width k j s := by
  have nonzero : s ≠ 0 := Nat.ne_of_gt (Nat.lt_of_lt_of_le (Nat.two_pow_pos _) large)
  have low := Nat.log2_self_le nonzero
  have high := Nat.lt_log2_self (n := s)
  rw [log2_of_large large] at low high
  rw [width, ← pow_add, ← pow_add]
  exact ⟨by convert low using 2; ring, by convert high using 2; ring⟩

theorem width_of_small (small : s < 2 ^ (k + j)) : width k j s = 2 ^ j := by
  rw [width, scale_of_small small, zero_add]

theorem lt_double (s : ℕ) : s < 2 ^ (k + 1) * width k j s := by
  rcases Nat.lt_or_ge s (2 ^ (k + j)) with small | large
  · rw [width_of_small small]
    calc s < 2 ^ (k + j) := small
      _ ≤ 2 ^ (k + 1 + j) := Nat.pow_le_pow_right (by decide) (by omega)
      _ = 2 ^ (k + 1) * 2 ^ j := pow_add _ _ _
  · exact (scale_bounds large).2

theorem scale_mono (le : r ≤ s) : scale k j r ≤ scale k j s := by
  apply Nat.sub_le_sub_right
  by_cases zero : r = 0
  · subst zero
    simp
  · exact (Nat.le_log2 (by omega)).mpr (Nat.le_trans (Nat.log2_self_le zero) le)

theorem rank_lt_of_scale_lt (less : scale k j r < scale k j s) : rank k j r < rank k j s := by
  have large : 2 ^ (k + j) ≤ s := by
    by_contra small
    rw [scale_of_small (Nat.lt_of_not_le small)] at less
    exact Nat.not_lt_zero _ less
  have below : r / width k j r < 2 ^ (k + 1) := Nat.div_lt_of_lt_mul (by
    rw [Nat.mul_comm]
    exact lt_double r)
  have above : 2 ^ k ≤ s / width k j s := (Nat.le_div_iff_mul_le (width_pos s)).mpr (scale_bounds large).1
  have step : (scale k j r + 1) * 2 ^ k ≤ scale k j s * 2 ^ k := Nat.mul_le_mul_right _ less
  rw [pow_succ] at below
  rw [Nat.add_mul] at step
  unfold rank
  omega

theorem rank_mono (le : r ≤ s) : rank k j r ≤ rank k j s := by
  rcases Nat.lt_or_eq_of_le (scale_mono (k := k) (j := j) le) with less | same
  · exact Nat.le_of_lt (rank_lt_of_scale_lt less)
  · unfold rank width
    rw [same]
    exact Nat.add_le_add_left (Nat.div_le_div_right le) _

theorem le_of_rank_le (least : width k j r ∣ r) (le : rank k j r ≤ rank k j s) : r ≤ s := by
  by_contra less
  have less := Nat.lt_of_not_le less
  rcases Nat.lt_or_eq_of_le (scale_mono (k := k) (j := j) (Nat.le_of_lt less)) with below | same
  · exact absurd le (Nat.not_le.mpr (rank_lt_of_scale_lt below))
  · have widths : width k j s = width k j r := by rw [width, width, same]
    obtain ⟨q, multiple⟩ := least
    have quotient : s / width k j r < q := Nat.div_lt_of_lt_mul (multiple ▸ less)
    have exact : r / width k j r = q := Nat.div_eq_of_eq_mul_right (width_pos r) multiple
    unfold rank at le
    rw [same, widths, exact] at le
    omega

/-- Adding all but one of the width of the class and clearing the low bits gives the least size of a class
    that is no smaller. -/
def fit (k j s : ℕ) : ℕ := (s + (width k j s - 1)) / width k j s * width k j s

theorem le_fit (s : ℕ) : s ≤ fit k j s := by
  have split := Nat.div_add_mod (s + (width k j s - 1)) (width k j s)
  have small := Nat.mod_lt (s + (width k j s - 1)) (width_pos (k := k) (j := j) s)
  rw [Nat.mul_comm] at split
  unfold fit
  omega

theorem fit_le (s : ℕ) : fit k j s ≤ s + (width k j s - 1) := Nat.div_mul_le_self _ _

theorem fit_lt (s : ℕ) : fit k j s < s + width k j s := by
  have := fit_le (k := k) (j := j) s
  have := width_pos (k := k) (j := j) s
  omega

theorem sum_in_octave (large : 2 ^ (k + j) ≤ s) (inside : s + (width k j s - 1) < 2 ^ (k + 1) * width k j s) :
    scale k j (s + (width k j s - 1)) = scale k j s ∧ scale k j (fit k j s) = scale k j s := by
  have same (x : ℕ) (low : s ≤ x) (high : x < 2 ^ (k + 1) * width k j s) : scale k j x = scale k j s := by
    refine Nat.le_antisymm ?_ (scale_mono low)
    have bound : x < 2 ^ (k + 1 + (scale k j s + j)) := by rwa [pow_add]
    have log : Nat.log2 x < k + 1 + (scale k j s + j) :=
      (Nat.log2_lt (by have := Nat.two_pow_pos (k + j); omega)).mpr bound
    unfold scale at log ⊢
    omega
  exact ⟨same _ (Nat.le_add_right _ _) inside, same _ (le_fit s) (Nat.lt_of_le_of_lt (fit_le s) inside)⟩

theorem sum_next_octave (large : 2 ^ (k + j) ≤ s)
    (outside : 2 ^ (k + 1) * width k j s ≤ s + (width k j s - 1)) :
    scale k j (s + (width k j s - 1)) = scale k j s + 1 ∧ fit k j s = 2 ^ (k + 1) * width k j s := by
  have bounds := scale_bounds large
  have positive := width_pos (k := k) (j := j) s
  have rounded : fit k j s = 2 ^ (k + 1) * width k j s := by
    have quotient : (s + (width k j s - 1)) / width k j s = 2 ^ (k + 1) := by
      apply Nat.div_eq_of_lt_le
      · exact outside
      · rw [Nat.succ_mul]
        omega
    rw [fit, quotient]
  refine ⟨?_, rounded⟩
  have log : Nat.log2 (s + (width k j s - 1)) = k + 1 + (scale k j s + j) := by
    apply (Nat.log2_eq_iff (by omega)).mpr
    rw [pow_add 2 (k + 1), pow_succ 2 (k + 1 + _), pow_add 2 (k + 1)]
    change 2 ^ (k + 1) * width k j s ≤ _ ∧ _ < 2 ^ (k + 1) * width k j s * 2
    refine ⟨outside, ?_⟩
    have : width k j s ≤ 2 ^ (k + 1) * width k j s := Nat.le_mul_of_pos_left _ (Nat.two_pow_pos _)
    omega
  rw [scale, log]
  omega

theorem scale_next (s : ℕ) : scale k j (2 ^ (k + 1) * width k j s) = scale k j s + 1 := by
  rw [scale, width, ← pow_add, Nat.log2_two_pow]
  omega

theorem fit_le_of_dvd {n : ℕ} (multiple : width k j s ∣ n) (le : s ≤ n) : fit k j s ≤ n := by
  obtain ⟨q, rfl⟩ := multiple
  have quotient : (s + (width k j s - 1)) / width k j s < q + 1 := Nat.div_lt_of_lt_mul (by
    have := width_pos (k := k) (j := j) s
    rw [Nat.mul_succ]
    omega)
  rw [fit, Nat.mul_comm]
  exact Nat.mul_le_mul_left _ (Nat.le_of_lt_succ quotient)

theorem fit_of_dvd (multiple : width k j s ∣ s) : fit k j s = s :=
  Nat.le_antisymm (fit_le_of_dvd multiple (Nat.le_refl s)) (le_fit s)

theorem width_dvd_fit (s : ℕ) : width k j (fit k j s) ∣ fit k j s := by
  rcases Nat.lt_or_ge s (2 ^ (k + j)) with small | large
  · have even : 2 ^ j ∣ fit k j s := by
      rw [fit, width_of_small small]
      exact Dvd.intro_left _ rfl
    have below : fit k j s ≤ 2 ^ (k + j) := by
      apply fit_le_of_dvd _ (Nat.le_of_lt small)
      rw [width_of_small small, pow_add]
      exact Dvd.intro_left _ rfl
    have first : scale k j (fit k j s) = 0 := by
      apply Nat.eq_zero_of_le_zero
      have mono := scale_mono (k := k) (j := j) below
      rwa [scale, scale, Nat.log2_two_pow, Nat.sub_self] at mono
    rw [width, first, zero_add]
    exact even
  · rcases Nat.lt_or_ge (s + (width k j s - 1)) (2 ^ (k + 1) * width k j s) with inside | outside
    · rw [width_congr (sum_in_octave large inside).2]
      exact Dvd.intro_left _ rfl
    · rw [(sum_next_octave large outside).2, width, scale_next, width, ← pow_add]
      exact pow_dvd_pow 2 (by omega)

/-- Looking the class of the sum up is looking the class of the size rounded up up. -/
theorem rank_sum (large : 2 ^ (k + j) ≤ s) :
    rank k j (s + (width k j s - 1)) = rank k j (fit k j s) := by
  have positive := width_pos (k := k) (j := j) s
  rcases Nat.lt_or_ge (s + (width k j s - 1)) (2 ^ (k + 1) * width k j s) with inside | outside
  · have scales := sum_in_octave large inside
    have widths : width k j (s + (width k j s - 1)) = width k j s := width_congr scales.1
    have widths' : width k j (fit k j s) = width k j s := width_congr scales.2
    unfold rank
    rw [scales.1, scales.2, widths, widths', fit, Nat.mul_div_cancel _ positive]
  · have scales := sum_next_octave large outside
    have doubled : width k j (s + (width k j s - 1)) = 2 * width k j s := by
      rw [width, scales.1, width]
      ring
    have doubled' : width k j (2 ^ (k + 1) * width k j s) = 2 * width k j s := by
      rw [width, scale_next, width]
      ring
    have halves : 2 ^ (k + 1) * width k j s = 2 ^ k * (2 * width k j s) := by ring
    unfold rank
    rw [scales.1, scales.2, scale_next, doubled, doubled']
    congr 1
    rw [halves, Nat.mul_div_cancel _ (by omega)]
    apply Nat.div_eq_of_lt_le
    · omega
    · have bounds := scale_bounds large
      rw [Nat.succ_mul]
      omega

theorem rank_div (large : 2 ^ (k + j) ≤ s) :
    rank k j s / 2 ^ k = scale k j s + 1 ∧ rank k j s % 2 ^ k = s / width k j s - 2 ^ k := by
  have positive := Nat.two_pow_pos k
  have bounds := scale_bounds large
  have above : 2 ^ k ≤ s / width k j s := (Nat.le_div_iff_mul_le (width_pos s)).mpr bounds.1
  have below : s / width k j s < 2 ^ (k + 1) := Nat.div_lt_of_lt_mul (by
    rw [Nat.mul_comm]
    exact bounds.2)
  rw [pow_succ] at below
  have split : rank k j s = (s / width k j s - 2 ^ k) + (scale k j s + 1) * 2 ^ k := by
    unfold rank
    rw [Nat.add_mul]
    omega
  rw [split, Nat.add_mul_div_right _ _ positive, Nat.add_mul_mod_self_right, Nat.div_eq_of_lt (by omega),
    Nat.mod_eq_of_lt (by omega)]
  omega

theorem rank_of_small (small : s < 2 ^ (k + j)) : rank k j s = s / 2 ^ j := by
  rw [rank, scale_of_small small, width_of_small small, Nat.zero_mul, Nat.zero_add]

theorem rank_lt_iff (n : ℕ) : rank k j s < (n + 1) * 2 ^ k ↔ s < 2 ^ (n + k + j) := by
  rcases Nat.lt_or_ge s (2 ^ (k + j)) with small | large
  · have first : s / 2 ^ j < 2 ^ k := Nat.div_lt_of_lt_mul (by rwa [← pow_add, Nat.add_comm])
    have least : 2 ^ k ≤ (n + 1) * 2 ^ k := Nat.le_mul_of_pos_left _ (Nat.succ_pos n)
    have wide : 2 ^ (k + j) ≤ 2 ^ (n + k + j) := Nat.pow_le_pow_right (by decide) (by omega)
    rw [rank_of_small small]
    exact ⟨fun _ => Nat.lt_of_lt_of_le small wide, fun _ => Nat.lt_of_lt_of_le first least⟩
  · have nonzero : s ≠ 0 := Nat.ne_of_gt (Nat.lt_of_lt_of_le (Nat.two_pow_pos _) large)
    rw [← Nat.div_lt_iff_lt_mul (Nat.two_pow_pos k), (rank_div large).1, ← Nat.log2_lt nonzero, log2_of_large large]
    omega

theorem pow_dvd_fit {n : ℕ} (multiple : 2 ^ n ∣ s) : 2 ^ n ∣ fit k j s := by
  rcases Nat.le_total n (scale k j s + j) with wide | narrow
  · exact Dvd.dvd.mul_left (pow_dvd_pow 2 wide) _
  · rw [fit_of_dvd ((pow_dvd_pow 2 narrow).trans multiple)]
    exact multiple

end Segregated
