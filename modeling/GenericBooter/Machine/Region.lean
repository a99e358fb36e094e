import GenericBooter.Machine.Memory

namespace GenericBooter

open ByteMemory

structure MemoryRegion where
  base : Word
  pos : Word
deriving DecidableEq, Repr

def alignDown (p s : Word) : Word := p &&& ~~~(s - 1)

def alignUp (p s : Word) : Word := alignDown (p + s - 1) s

def memoryRegionReserve (reg : MemoryRegion) (size align : Word) : Word × MemoryRegion :=
  let pos := if align ≠ 0 then alignUp reg.pos align else reg.pos
  (pos, { reg with pos := pos + size })

structure Request where
  size : Word
  align : Word
deriving DecidableEq, Repr

def reserveAll (reg : MemoryRegion) : List Request → List (Word × Word)
  | [] => []
  | request :: later =>
    ((memoryRegionReserve reg request.size request.align).1, request.size) ::
      reserveAll (memoryRegionReserve reg request.size request.align).2 later

/-- The next multiple of `align`, with no machine overflow; 0 asks for no alignment. -/
def roundUp (position align : Nat) : Nat :=
  if align = 0 then position else (position + (align - 1)) / align * align

def Request.advance (request : Request) (position : Nat) : Nat :=
  roundUp position request.align.toNat + request.size.toNat

/-- Where the running position ends when it is counted without wrapping. -/
def runningPosition (position : Nat) (requests : List Request) : Nat :=
  requests.foldl (fun at' request => request.advance at') position

def Request.Aligns (request : Request) : Prop :=
  request.align = 0 ∨ ∃ k, k < 32 ∧ request.align = BitVec.ofNat 32 (2 ^ k)

theorem MemoryRegion.pos_eq (reg : MemoryRegion) : reg.pos = BitVec.ofNat 32 reg.pos.toNat := by
  rw [BitVec.ofNat_toNat, BitVec.setWidth_eq]

theorem roundUp_le (position align : Nat) : position ≤ roundUp position align := by
  unfold roundUp
  split
  · exact Nat.le_refl _
  · rename_i positive
    have split := Nat.div_add_mod (position + (align - 1)) align
    have small := Nat.mod_lt (position + (align - 1)) (Nat.pos_of_ne_zero positive)
    rw [Nat.mul_comm] at split
    omega

theorem advance_le (request : Request) (position : Nat) : position ≤ request.advance position :=
  Nat.le_trans (roundUp_le _ _) (Nat.le_add_right _ _)

theorem runningPosition_le (position : Nat) (requests : List Request) :
    position ≤ runningPosition position requests := by
  induction requests generalizing position with
  | nil => exact Nat.le_refl _
  | cons request later ih => exact Nat.le_trans (advance_le request position) (ih _)

theorem mask_clears (x : Word) (k : Nat) :
    x &&& ~~~(BitVec.ofNat 32 (2 ^ k) - 1) = BitVec.ofNat 32 (x.toNat / 2 ^ k * 2 ^ k) := by
  have ones : BitVec.ofNat 32 (2 ^ k) - 1 = BitVec.ofNat 32 (2 ^ k - 1) :=
    BitVec.ofNat_sub_ofNat_of_le (2 ^ k) 1 (by decide) (Nat.two_pow_pos k)
  apply BitVec.eq_of_getLsbD_eq
  intro i small
  simp only [ones, BitVec.getLsbD_and, BitVec.getLsbD_not, BitVec.getLsbD_ofNat,
    Nat.testBit_two_pow_sub_one, Nat.testBit_mul_two_pow, Nat.testBit_div_two_pow, small,
    decide_true, Bool.true_and, BitVec.testBit_toNat]
  by_cases low : i < k
  · simp [low, Nat.not_le.mpr low]
  · simp [low, Nat.le_of_not_lt low, Nat.sub_add_cancel (Nat.le_of_not_lt low)]

theorem alignUp_ofNat (position k : Nat) (bound : k < 32) :
    alignUp (BitVec.ofNat 32 position) (BitVec.ofNat 32 (2 ^ k)) =
      BitVec.ofNat 32 (roundUp position (2 ^ k)) := by
  have positive := Nat.two_pow_pos k
  have moved : BitVec.ofNat 32 position + BitVec.ofNat 32 (2 ^ k) - 1 =
      BitVec.ofNat 32 (position + (2 ^ k - 1)) := by
    rw [← BitVec.ofNat_add, ← Nat.add_sub_assoc positive]
    exact BitVec.ofNat_sub_ofNat_of_le _ 1 (by decide) (by omega)
  have divides : 2 ^ 32 = 2 ^ (32 - k) * 2 ^ k := by rw [← Nat.pow_add, Nat.sub_add_cancel (by omega)]
  rw [alignUp, alignDown, moved, mask_clears, roundUp, if_neg (by omega), BitVec.toNat_ofNat]
  generalize position + (2 ^ k - 1) = n
  apply BitVec.eq_of_toNat_eq
  rw [BitVec.toNat_ofNat, BitVec.toNat_ofNat]
  have whole : n / 2 ^ k = n / 2 ^ 32 * 2 ^ (32 - k) + n % 2 ^ 32 / 2 ^ k := by
    conv_lhs => rw [← Nat.div_add_mod n (2 ^ 32)]
    rw [divides, Nat.mul_comm, ← Nat.mul_assoc, Nat.add_comm, Nat.add_mul_div_right _ _ positive,
      Nat.add_comm]
  rw [whole, Nat.add_mul, Nat.mul_assoc, ← divides, Nat.add_comm, Nat.add_mul_mod_self_right]

theorem reserve_ofNat (reg : MemoryRegion) (request : Request) (position : Nat)
    (aligns : request.Aligns) (at' : reg.pos = BitVec.ofNat 32 position) :
    memoryRegionReserve reg request.size request.align =
      (BitVec.ofNat 32 (roundUp position request.align.toNat),
        { reg with pos := BitVec.ofNat 32 (request.advance position) }) := by
  have start : (if request.align ≠ 0 then alignUp reg.pos request.align else reg.pos) =
      BitVec.ofNat 32 (roundUp position request.align.toNat) := by
    rcases aligns with none | ⟨k, bound, power⟩
    · rw [none, if_neg (by decide), at']
      rfl
    · have small : 2 ^ k < 2 ^ 32 := Nat.pow_lt_pow_right (by decide) bound
      have positive := Nat.two_pow_pos k
      have value : (BitVec.ofNat 32 (2 ^ k)).toNat = 2 ^ k := by
        rw [BitVec.toNat_ofNat, Nat.mod_eq_of_lt small]
      have nonzero : BitVec.ofNat 32 (2 ^ k) ≠ 0 := by
        intro zero
        rw [zero] at value
        change 0 = 2 ^ k at value
        omega
      rw [power, if_pos nonzero, at', alignUp_ofNat position k bound, value]
  rw [memoryRegionReserve, start, Request.advance, BitVec.ofNat_add, BitVec.ofNat_toNat,
    BitVec.setWidth_eq]

/-- Nothing handed out later overlaps what lies below the current position, as long as the
    running position never passes the top of the address space. -/
theorem reserveAll_above (reg : MemoryRegion) (requests : List Request) (low position length : Nat)
    (aligns : ∀ request ∈ requests, request.Aligns) (at' : reg.pos = BitVec.ofNat 32 position)
    (below : low + length ≤ position) (room : runningPosition position requests ≤ low + 2 ^ 32) :
    ∀ range ∈ reserveAll reg requests, ∀ address,
      Covers (BitVec.ofNat 32 low) length address → ¬ Covers range.1 range.2.toNat address := by
  induction requests generalizing reg position with
  | nil => simp [reserveAll]
  | cons request later ih =>
    have step := reserve_ofNat reg request position (aligns _ List.mem_cons_self) at'
    have reached : roundUp position request.align.toNat + request.size.toNat ≤ low + 2 ^ 32 :=
      Nat.le_trans (runningPosition_le (request.advance position) later) room
    have above := roundUp_le position request.align.toNat
    intro range member address covered
    rw [reserveAll, step] at member
    rcases List.mem_cons.mp member with rfl | member
    · exact covers_apart (Nat.le_trans below above) reached covered
    · exact ih _ (request.advance position)
        (fun other inside => aligns other (List.mem_cons_of_mem _ inside)) rfl
        (Nat.le_trans below (advance_le request position)) room range member address covered

end GenericBooter
