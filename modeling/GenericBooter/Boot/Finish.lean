import GenericBooter.Boot.Delivery

namespace GenericBooter

open ByteMemory

/-- What the region has handed out, the boot-args last, lies below the published top. -/
structure BelowTop (b : Booter) : Prop where
  args : ∀ address, Covers b.prepareFinalizedBootArgs.1 BootArgs.size.toNat address →
    address < b.prepareFinalizedBootArgs.2.bootArgs.topOfKernelData
  others : ∀ address, address < b.platform.kernelRegion.pos →
    address < b.prepareFinalizedBootArgs.2.bootArgs.topOfKernelData

section Rounding

variable (b : Booter)

theorem finalized_positions :
    b.prepareFinalizedBootArgs.1.toNat = roundUp b.platform.kernelRegion.pos.toNat (2 ^ 10) % 2 ^ 32 ∧
      b.prepareFinalizedBootArgs.2.bootArgs.topOfKernelData.toNat =
        roundUp b.platform.kernelRegion.pos.toNat (2 ^ 20) % 2 ^ 32 := by
  have at' := b.platform.kernelRegion.pos_eq
  obtain ⟨args, b', ran⟩ : ∃ args b', b.prepareFinalizedBootArgs = (args, b') := ⟨_, _, rfl⟩
  obtain ⟨start, _, _, _, bootArgs⟩ := prepareFinalizedBootArgs_ok at' ran
  have top : alignUp b.platform.kernelRegion.pos 0x100000 =
      BitVec.ofNat 32 (roundUp b.platform.kernelRegion.pos.toNat (2 ^ 20)) := by
    rw [← alignUp_ofNat _ 20 (by decide), ← at']
    rfl
  rw [ran]
  dsimp only
  rw [start, bootArgs, top, BitVec.toNat_ofNat, BitVec.toNat_ofNat]
  exact ⟨rfl, rfl⟩

theorem args_below_iff : (∀ address, Covers b.prepareFinalizedBootArgs.1 BootArgs.size.toNat address →
    address < b.prepareFinalizedBootArgs.2.bootArgs.topOfKernelData) ↔
      roundUp b.platform.kernelRegion.pos.toNat (2 ^ 10) % 2 ^ 32 + 312 ≤
        roundUp b.platform.kernelRegion.pos.toNat (2 ^ 20) % 2 ^ 32 := by
  obtain ⟨args, top⟩ := finalized_positions b
  have room : roundUp b.platform.kernelRegion.pos.toNat (2 ^ 10) % 2 ^ 32 + 312 ≤ 2 ^ 32 := by
    rw [roundUp, if_neg (by decide)]
    omega
  have place {i : Nat} (bound : i < 312) : (b.prepareFinalizedBootArgs.1 + BitVec.ofNat 32 i).toNat =
      roundUp b.platform.kernelRegion.pos.toNat (2 ^ 10) % 2 ^ 32 + i := by
    rw [BitVec.toNat_add, args, BitVec.toNat_ofNat, Nat.mod_eq_of_lt (b := 2 ^ 32) (by omega : i < 2 ^ 32),
      Nat.mod_eq_of_lt (by omega)]
  constructor
  · intro below
    have last : Covers b.prepareFinalizedBootArgs.1 BootArgs.size.toNat
        (b.prepareFinalizedBootArgs.1 + BitVec.ofNat 32 311) := (covers_add _ _ _ (by decide)).mpr (by decide)
    have less := BitVec.lt_def.mp (below _ last)
    rw [place (by decide), top] at less
    exact less
  · intro fits address covered
    obtain ⟨i, bound, rfl⟩ := covers_exists covered
    have small : i < 312 := bound
    rw [BitVec.lt_def, place small, top]
    omega

/-- The boot-args fit below the top exactly when the position is in no megabyte's last 1023 bytes, on no
    megabyte's border and not in the last megabyte of the address space. -/
theorem belowTop_iff : BelowTop b ↔ 1 ≤ b.platform.kernelRegion.pos.toNat % 2 ^ 20 ∧
    b.platform.kernelRegion.pos.toNat % 2 ^ 20 ≤ 2 ^ 20 - 2 ^ 10 ∧
      b.platform.kernelRegion.pos.toNat < 2 ^ 32 - 2 ^ 20 := by
  have small := b.platform.kernelRegion.pos.isLt
  have args := args_below_iff b
  rw [roundUp, if_neg (by decide), roundUp, if_neg (by decide)] at args
  constructor
  · intro below
    have fits := args.mp below.args
    omega
  · rintro ⟨off, early, low⟩
    refine ⟨args.mpr (by omega), fun address below => ?_⟩
    have less := BitVec.lt_def.mp below
    rw [BitVec.lt_def, (finalized_positions b).2, roundUp, if_neg (by decide)]
    omega

end Rounding

def borderBooter : Booter :=
  { sampleBooter roomy with platform := { (sampleBooter roomy).platform with
    kernelRegion := ⟨0x70001000, 0x70100000⟩ } }

theorem borderBooter_above : borderBooter.prepareFinalizedBootArgs.1 = 0x70100000 ∧
    borderBooter.prepareFinalizedBootArgs.2.bootArgs.topOfKernelData = 0x70100000 ∧ ¬ BelowTop borderBooter := by
  have args : borderBooter.prepareFinalizedBootArgs.1 = 0x70100000 := by decide +kernel
  have top : borderBooter.prepareFinalizedBootArgs.2.bootArgs.topOfKernelData = 0x70100000 := by decide +kernel
  refine ⟨args, top, fun below => ?_⟩
  have first := below.args 0x70100000
  rw [args, top] at first
  revert first
  decide

end GenericBooter
