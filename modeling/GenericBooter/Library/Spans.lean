import GenericBooter.Library.ByteMemory
import Mathlib.Data.Set.BooleanAlgebra
import Mathlib.Order.CompletePartialOrder
import Mathlib.Order.Interval.Set.Basic

namespace ByteMemory

variable {w : Nat} {β : Type*}

def ChangesOnly (s : Set ℕ) (m m' : Store w β) : Prop :=
  ∀ address : BitVec w, address.toNat ∉ s → m' address = m address

variable {s s' : Set ℕ} {m m' m'' : Store w β}

theorem ChangesOnly.refl (s : Set ℕ) (m : Store w β) : ChangesOnly s m m := fun _ _ => rfl

theorem ChangesOnly.trans (first : ChangesOnly s m m') (second : ChangesOnly s m' m'') : ChangesOnly s m m'' :=
  fun address outside => (second address outside).trans (first address outside)

theorem ChangesOnly.mono (subset : s ⊆ s') (changes : ChangesOnly s m m') : ChangesOnly s' m m' :=
  fun address outside => changes address fun member => outside (subset member)

theorem covers_iff (base : BitVec w) (length : Nat) (address : BitVec w) (room : base.toNat + length ≤ 2 ^ w) :
    Covers base length address ↔ address.toNat ∈ Set.Ico base.toNat (base.toNat + length) := by
  have small := base.isLt
  have small' := address.isLt
  rw [Covers, BitVec.toNat_sub, Set.mem_Ico]
  rcases Nat.lt_or_ge address.toNat base.toNat with below | above
  · rw [Nat.mod_eq_of_lt (by omega)]
    omega
  · rw [show 2 ^ w - base.toNat + address.toNat = 2 ^ w + (address.toNat - base.toNat) by omega, Nat.add_mod_left,
      Nat.mod_eq_of_lt (by omega)]
    omega

theorem write_changesOnly (m : Store w β) (base : BitVec w) (data : List β)
    (room : base.toNat + data.length ≤ 2 ^ w) :
    ChangesOnly (Set.Ico base.toNat (base.toNat + data.length)) m (write m base data) :=
  fun address outside => write_outside m base address data ((covers_iff base _ address room).not.mpr outside)

theorem copy_changesOnly (m : Store w β) (source target : BitVec w) (length : Nat)
    (room : target.toNat + length ≤ 2 ^ w) :
    ChangesOnly (Set.Ico target.toNat (target.toNat + length)) m (copy m source target length) :=
  fun address outside => copy_outside m source target address length ((covers_iff target _ address room).not.mpr outside)

theorem fill_changesOnly (m : Store w β) (base : BitVec w) (length : Nat) (value : β)
    (room : base.toNat + length ≤ 2 ^ w) :
    ChangesOnly (Set.Ico base.toNat (base.toNat + length)) m (fill m base length value) :=
  fun address outside => fill_outside m base address length value ((covers_iff base _ address room).not.mpr outside)

end ByteMemory
