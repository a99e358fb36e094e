import GenericBooter.Library.Segregated
import GenericBooter.Machine.Region
import GenericBooter.Tlsf.Bits

namespace GenericBooter

open Segregated

namespace Tlsf

/-- The rows and columns of `matrix` read as one table. -/
def Index.ofRank (rank : Nat) : Index := ⟨BitVec.ofNat 32 (rank / 32), BitVec.ofNat 32 (rank % 32)⟩

def classOf (size : Nat) : Nat := rank 5 2 size

theorem classOf_small {size : Nat} (small : size < 128) : classOf size = size / 4 := rank_of_small small

theorem classOf_lt {size : Nat} : classOf size < 768 ↔ size < 2 ^ 30 := rank_lt_iff 23

theorem shift_eq_width {r : Word} (large : 128 ≤ r.toNat) :
    msBit r - MAX_LOG2_SLI = BitVec.ofNat 32 (scale 5 2 r.toNat + 2) ∧ scale 5 2 r.toNat + 2 < 32 := by
  have nonzero : r ≠ 0 := by
    rintro rfl
    exact absurd large (by decide)
  have log := log2_of_large (k := 5) (j := 2) large
  have bound : Nat.log2 r.toNat < 32 := (Nat.log2_lt (by omega)).mpr r.isLt
  rw [msBit_eq r nonzero, log]
  refine ⟨?_, by omega⟩
  rw [show scale 5 2 r.toNat + (5 + 2) = scale 5 2 r.toNat + 2 + 5 by omega, BitVec.ofNat_add]
  exact add_sub_cancel_right _ _

theorem mapping_large {r : Word} (large : 128 ≤ r.toNat) :
    (⟨msBit r - FLI_OFFSET, (r >>> (msBit r - MAX_LOG2_SLI)) - MAX_SLI⟩ : Index) = Index.ofRank (classOf r.toNat) := by
  obtain ⟨shift, small⟩ := shift_eq_width large
  have division := rank_div (k := 5) (j := 2) large
  have row : msBit r - FLI_OFFSET = BitVec.ofNat 32 (classOf r.toNat / 32) := by
    have up : msBit r = BitVec.ofNat 32 (scale 5 2 r.toNat + 2) + 5 := by
      rw [← shift]
      exact (sub_add_cancel _ _).symm
    have value : classOf r.toNat / 32 + 6 = scale 5 2 r.toNat + 2 + 5 := by
      change rank 5 2 r.toNat / 2 ^ 5 + 6 = _
      rw [division.1]
    rw [up, sub_eq_iff_eq_add]
    exact (BitVec.ofNat_add _ 5).symm.trans ((congrArg (BitVec.ofNat 32) value.symm).trans (BitVec.ofNat_add _ 6))
  have column : (r >>> (msBit r - MAX_LOG2_SLI)) - MAX_SLI = BitVec.ofNat 32 (classOf r.toNat % 32) := by
    have bounds := scale_bounds (k := 5) (j := 2) large
    have above : 32 ≤ r.toNat / width 5 2 r.toNat := (Nat.le_div_iff_mul_le (width_pos _)).mpr bounds.1
    have amount : (BitVec.ofNat 32 (scale 5 2 r.toNat + 2) : Word).toNat = scale 5 2 r.toNat + 2 := by
      rw [BitVec.toNat_ofNat]
      exact Nat.mod_eq_of_lt (by omega)
    have shifted : r >>> BitVec.ofNat 32 (scale 5 2 r.toNat + 2) = BitVec.ofNat 32 (r.toNat / width 5 2 r.toNat) := by
      apply BitVec.eq_of_toNat_eq
      rw [BitVec.ushiftRight_eq', amount, BitVec.toNat_ushiftRight, Nat.shiftRight_eq_div_pow, BitVec.toNat_ofNat]
      exact (Nat.mod_eq_of_lt (Nat.lt_of_le_of_lt (Nat.div_le_self _ _) r.isLt)).symm
    have value : classOf r.toNat % 32 = r.toNat / width 5 2 r.toNat - 32 := division.2
    rw [shift, shifted, value]
    exact BitVec.ofNat_sub_ofNat_of_le _ 32 (by decide) above
  rw [row, column]
  rfl

theorem mapping_small {r : Word} (small : r.toNat < 128) :
    (⟨0, r / (SMALL_BLOCK / MAX_SLI)⟩ : Index) = Index.ofRank (classOf r.toNat) := by
  have quotient : r.toNat / 4 < 32 := Nat.div_lt_of_lt_mul small
  have row : (0 : Word) = BitVec.ofNat 32 (classOf r.toNat / 32) := by
    rw [classOf_small small, Nat.div_eq_of_lt quotient]
    rfl
  have column : r / (SMALL_BLOCK / MAX_SLI) = BitVec.ofNat 32 (classOf r.toNat % 32) := by
    rw [classOf_small small, Nat.mod_eq_of_lt quotient]
    apply BitVec.eq_of_toNat_eq
    rw [BitVec.toNat_udiv, BitVec.toNat_ofNat, Nat.mod_eq_of_lt (by omega)]
    rfl
  rw [Index.ofRank, ← row, column]

theorem mappingInsert_eq (r : Word) : mappingInsert r = Index.ofRank (classOf r.toNat) := by
  unfold mappingInsert
  split
  · rename_i small
    exact mapping_small (BitVec.lt_def.mp small)
  · rename_i large
    exact mapping_large (Nat.le_of_not_lt fun small => large (BitVec.lt_def.mpr small))

def searchSize (size : Nat) : Nat := fit 5 2 size

theorem searchSize_small {size : Nat} (small : size < 128) (multiple : 4 ∣ size) : searchSize size = size := by
  apply fit_of_dvd
  rw [width_of_small small]
  exact multiple

theorem mappingSearch_eq (r : Word) (multiple : 4 ∣ r.toNat) (room : r.toNat + width 5 2 r.toNat ≤ 2 ^ 32) :
    mappingSearch r = (BitVec.ofNat 32 (searchSize r.toNat), Index.ofRank (classOf (searchSize r.toNat))) := by
  unfold mappingSearch
  split
  · rename_i small
    have small := BitVec.lt_def.mp small
    rw [searchSize_small small multiple, mapping_small small, BitVec.ofNat_toNat, BitVec.setWidth_eq]
  · rename_i large
    have large : 128 ≤ r.toNat := Nat.le_of_not_lt fun small => large (BitVec.lt_def.mpr small)
    obtain ⟨shift, small⟩ := shift_eq_width large
    have positive := width_pos (k := 5) (j := 2) r.toNat
    have amount : (BitVec.ofNat 32 (scale 5 2 r.toNat + 2) : Word).toNat = scale 5 2 r.toNat + 2 := by
      rw [BitVec.toNat_ofNat]
      exact Nat.mod_eq_of_lt (by omega)
    have one : (1 : Word) <<< (msBit r - MAX_LOG2_SLI) = BitVec.ofNat 32 (width 5 2 r.toNat) := by
      rw [shift, BitVec.shiftLeft_eq', amount]
      apply BitVec.eq_of_toNat_eq
      rw [BitVec.toNat_shiftLeft, Nat.shiftLeft_eq, BitVec.toNat_ofNat]
      exact congrArg (· % 2 ^ 32) (Nat.one_mul _)
    have ones : (1 : Word) <<< (msBit r - MAX_LOG2_SLI) - 1 = BitVec.ofNat 32 (width 5 2 r.toNat - 1) := by
      rw [one]
      exact BitVec.ofNat_sub_ofNat_of_le _ 1 (by decide) positive
    have sum : (r + BitVec.ofNat 32 (width 5 2 r.toNat - 1)).toNat = r.toNat + (width 5 2 r.toNat - 1) := by
      rw [BitVec.toNat_add, BitVec.toNat_ofNat, Nat.mod_eq_of_lt (a := width 5 2 r.toNat - 1) (by omega)]
      exact Nat.mod_eq_of_lt (by omega)
    have mapped : Index.ofRank (classOf (r + BitVec.ofNat 32 (width 5 2 r.toNat - 1)).toNat) =
        Index.ofRank (classOf (searchSize r.toNat)) := by
      rw [sum]
      exact congrArg Index.ofRank (rank_sum large)
    simp only
    rw [ones, mapping_large (by omega), mapped]
    congr 1
    have low : BitVec.ofNat 32 (width 5 2 r.toNat - 1) = BitVec.ofNat 32 (2 ^ (scale 5 2 r.toNat + 2)) - 1 := by
      rw [← ones, one, width]
    have cleared := mask_clears (r + BitVec.ofNat 32 (width 5 2 r.toNat - 1)) (scale 5 2 r.toNat + 2)
    rw [sum] at cleared
    rw [← low] at cleared
    exact cleared

theorem le_searchSize (size : Nat) : size ≤ searchSize size := le_fit size

theorem searchSize_dvd {size : Nat} (multiple : 8 ∣ size) : 8 ∣ searchSize size := by
  rcases Nat.lt_or_ge size 128 with small | large
  · rw [searchSize_small small (Dvd.dvd.trans (by decide) multiple)]
    exact multiple
  · exact pow_dvd_fit (n := 3) multiple

theorem searchSize_waste {size : Nat} (multiple : 4 ∣ size) (positive : 0 < size) :
    32 * (searchSize size - size) < size := by
  rcases Nat.lt_or_ge size 128 with small | large
  · rw [searchSize_small small multiple]
    omega
  · have bounds := scale_bounds (k := 5) (j := 2) large
    have less := fit_lt (k := 5) (j := 2) size
    unfold searchSize
    omega

theorem searchSize_lt {size : Nat} : searchSize size < 2 ^ 30 ↔ size ≤ 2 ^ 30 - 2 ^ 24 := by
  rcases Nat.lt_or_ge size (2 ^ 29) with small | large
  · have bounds : searchSize size ≤ 2 ^ 29 := by
      apply fit_le_of_dvd _ (Nat.le_of_lt small)
      apply pow_dvd_pow 2
      by_cases zero : size = 0
      · subst zero
        decide
      · have log : Nat.log2 size < 29 := (Nat.log2_lt zero).mpr small
        unfold scale
        omega
    omega
  · rcases Nat.lt_or_ge size (2 ^ 30) with octave | beyond
    · have log : Nat.log2 size = 29 := (Nat.log2_eq_iff (by omega)).mpr ⟨large, octave⟩
      have wide : width 5 2 size = 2 ^ 24 := by rw [width, scale, log]
      constructor
      · intro below
        by_contra above
        have split := Nat.div_add_mod size (2 ^ 24)
        have least : (size + (2 ^ 24 - 1)) / 2 ^ 24 = 64 := by omega
        rw [searchSize, fit, wide, least] at below
        exact absurd below (by decide)
      · intro below
        have fits : searchSize size ≤ 2 ^ 30 - 2 ^ 24 := by
          apply fit_le_of_dvd _ below
          rw [wide]
          decide
        omega
    · have above := le_searchSize size
      omega

/-- The order in which `FIND_SUITABLE_BLOCK` meets the lists. -/
def Index.Before (i i' : Index) : Prop := i.fl < i'.fl ∨ i.fl = i'.fl ∧ i.sl ≤ i'.sl

theorem Index.ofRank_fl {rank : Nat} (bound : rank < 2 ^ 32) : (ofRank rank).fl.toNat = rank / 32 := by
  rw [ofRank, BitVec.toNat_ofNat]
  exact Nat.mod_eq_of_lt (by omega)

theorem Index.ofRank_sl (rank : Nat) : (ofRank rank).sl.toNat = rank % 32 := by
  rw [ofRank, BitVec.toNat_ofNat]
  exact Nat.mod_eq_of_lt (by omega)

theorem Index.before_iff {rank rank' : Nat} (bound : rank < 2 ^ 32) (bound' : rank' < 2 ^ 32) :
    (ofRank rank).Before (ofRank rank') ↔ rank ≤ rank' := by
  rw [Before, BitVec.lt_def, BitVec.le_def, ← BitVec.toNat_inj, ofRank_fl bound, ofRank_fl bound', ofRank_sl,
    ofRank_sl]
  omega

theorem Index.ofRank_in_tables {rank : Nat} (bound : rank < 2 ^ 32) :
    (ofRank rank).fl < 24 ∧ (ofRank rank).sl < 32 ↔ rank < 768 := by
  rw [BitVec.lt_def, BitVec.lt_def, ofRank_fl bound, ofRank_sl]
  change rank / 32 < 24 ∧ rank % 32 < 32 ↔ _
  omega

theorem classOf_word (r : Word) : classOf r.toNat < 2 ^ 32 := by
  have bound : classOf r.toNat < (25 + 1) * 2 ^ 5 := (rank_lt_iff 25).mpr r.isLt
  omega

theorem fits_of_class {size size' : Nat} (le : classOf (searchSize size) ≤ classOf size') : searchSize size ≤ size' :=
  le_of_rank_le (width_dvd_fit size) le

/-- The size that is looked for is at most a 32nd above what is asked for, every block that is filed where the
    search starts or behind it holds that size, and the search starts within the tables exactly when no more
    than 2^30 - 2^24 bytes are asked for. -/
theorem mapping_good_fit (r : Word) (multiple : 8 ∣ r.toNat) (positive : 0 < r.toNat) (room : r.toNat ≤ 0xfc000000) :
    (r ≤ (mappingSearch r).1 ∧ 32 * ((mappingSearch r).1.toNat - r.toNat) < r.toNat) ∧
    (∀ size : Word, (mappingSearch r).2.Before (mappingInsert size) → (mappingSearch r).1 ≤ size) ∧
    ((mappingSearch r).2.fl < 24 ∧ (mappingSearch r).2.sl < 32 ↔ r.toNat ≤ 2 ^ 30 - 2 ^ 24) := by
  have four : 4 ∣ r.toNat := Dvd.dvd.trans (by decide) multiple
  have wide : r.toNat + width 5 2 r.toNat ≤ 2 ^ 32 := by
    have log : Nat.log2 r.toNat < 32 := (Nat.log2_lt (by omega)).mpr r.isLt
    have small : width 5 2 r.toNat ≤ 2 ^ 26 := Nat.pow_le_pow_right (by decide) (by unfold scale; omega)
    omega
  have waste := searchSize_waste four positive
  have above := le_searchSize r.toNat
  have below : searchSize r.toNat < 2 ^ 32 := by
    have less := fit_lt (k := 5) (j := 2) r.toNat
    unfold searchSize
    omega
  have value : (BitVec.ofNat 32 (searchSize r.toNat) : Word).toNat = searchSize r.toNat := by
    rw [BitVec.toNat_ofNat]
    exact Nat.mod_eq_of_lt below
  have small : classOf (searchSize r.toNat) < 2 ^ 32 := by
    have bound := classOf_word (BitVec.ofNat 32 (searchSize r.toNat))
    rwa [value] at bound
  rw [mappingSearch_eq r four wide]
  refine ⟨⟨?_, by rwa [value]⟩, ?_, ?_⟩
  · rw [BitVec.le_def, value]
    exact above
  · intro size before
    rw [mappingInsert_eq, Index.before_iff small (classOf_word size)] at before
    rw [BitVec.le_def, value]
    exact fits_of_class before
  · rw [Index.ofRank_in_tables small, classOf_lt, searchSize_lt]

theorem mapping_good_fit_page :
    (∀ size : Word, (mappingSearch 4104).2.Before (mappingInsert size) → (mappingSearch 4104).1 ≤ size) ∧
      (mappingSearch 4104).1 = 4224 := by
  obtain ⟨_, fits, _⟩ := mapping_good_fit 4104 (by decide) (by decide) (by decide)
  exact ⟨fits, by decide +kernel⟩

end Tlsf

end GenericBooter
