import GenericBooter.Library.Spans
import GenericBooter.Tlsf.Mapping

namespace GenericBooter

open ByteMemory

theorem load32_store32 (address value : Word) (m : Memory) : load32 (store32 address value m) address = value :=
  load32_of_read (read_write m address (wordBytes value) (Nat.le_of_ble_eq_true rfl))

theorem wordBytes_joinWord (b0 b1 b2 b3 : Byte) : wordBytes (joinWord b0 b1 b2 b3) = [b0, b1, b2, b3] := by
  have bounds := And.intro b0.isLt (And.intro b1.isLt (And.intro b2.isLt b3.isLt))
  simp only [wordBytes, List.cons.injEq, and_true, ← BitVec.toNat_inj, joinWord, BitVec.toNat_ofNat,
    BitVec.extractLsb'_toNat, Nat.shiftRight_eq_div_pow]
  omega

theorem store32_load32 (address : Word) (m : Memory) : store32 address (load32 m address) m = m := by
  have value : read m address 4 = wordBytes (load32 m address) := by
    change [m (address + BitVec.ofNat 32 0), _, _, _] = _
    rw [BitVec.add_zero, load32, wordBytes_joinWord]
    rfl
  apply write_same
  intro i bound
  have small : i < (read m address 4).length := by
    rw [read_length]
    exact bound
  rw [← read_getElem m address 4 i small]
  simp only [value]

theorem store32_changesOnly (address value : Word) (m : Memory) (room : address.toNat + 4 ≤ 2 ^ 32) :
    ChangesOnly (Set.Ico address.toNat (address.toNat + 4)) m (store32 address value m) :=
  write_changesOnly m address (wordBytes value) room

theorem load32_keeps {s : Set ℕ} {m m' : Memory} {address : Word} (changes : ChangesOnly s m m')
    (room : address.toNat + 4 ≤ 2 ^ 32) (apart : ∀ i < 4, address.toNat + i ∉ s) :
    load32 m' address = load32 m address := by
  apply load32_congr
  intro i small
  have place : (address + BitVec.ofNat 32 i).toNat = address.toNat + i := by
    rw [BitVec.toNat_add, BitVec.toNat_ofNat, Nat.mod_eq_of_lt (a := i) (by omega)]
    exact Nat.mod_eq_of_lt (by omega)
  exact changes _ (place ▸ apart i small)

namespace Tlsf

instance fieldCount_neZero : NeZero 4 := ⟨by decide⟩

/-- A word of `tlsf_t` by its index, or one of the four words of `bhdr_t`. -/
inductive Cell where
  | control (i : Nat)
  | field (b : Word) (k : Fin 4)
deriving DecidableEq

namespace Cell

variable (tlsf : Word)

def place : Cell → Nat
  | control i => tlsf.toNat + 4 * i
  | field b k => b.toNat + 4 * k

def get (m : Memory) (cell : Cell) : Word := load32 m (BitVec.ofNat 32 (cell.place tlsf))

def put (cell : Cell) (value : Word) (m : Memory) : Memory := store32 (BitVec.ofNat 32 (cell.place tlsf)) value m

/-- `room b` is the number of words that the allocator uses from `b` on. -/
def Valid (room : Word → Nat) : Cell → Prop
  | control i => i < 795
  | field b k => k < room b

def owned (room : Word → Nat) : Set ℕ :=
  Set.Ico tlsf.toNat (tlsf.toNat + 3180) ∪ {n | ∃ b : Word, n ∈ Set.Ico b.toNat (b.toNat + 4 * room b)}

end Cell

structure Placed (tlsf : Word) (room : Word → Nat) : Prop where
  control : tlsf.toNat + 3180 ≤ 2 ^ 32
  above : ∀ b, 0 < room b → tlsf.toNat + 3180 ≤ b.toNat
  below : ∀ b, 0 < room b → b.toNat + 4 * room b ≤ 2 ^ 32
  apart : ∀ b b', 0 < room b → 0 < room b' → b ≠ b' →
    b.toNat + 4 * room b ≤ b'.toNat ∨ b'.toNat + 4 * room b' ≤ b.toNat

variable {tlsf : Word} {room : Word → Nat}

theorem Cell.place_owned {cell : Cell} (valid : cell.Valid room) {i : Nat} (small : i < 4) :
    cell.place tlsf + i ∈ Cell.owned tlsf room := by
  cases cell with
  | control k =>
    have inside : k < 795 := valid
    simp only [Cell.place]
    exact Or.inl ⟨by omega, by omega⟩
  | field b k =>
    have inside : k < room b := valid
    simp only [Cell.place]
    exact Or.inr ⟨b, by omega, by omega⟩

namespace Placed

theorem place_bound (placed : Placed tlsf room) {cell : Cell} (valid : cell.Valid room) :
    cell.place tlsf + 4 ≤ 2 ^ 32 := by
  cases cell with
  | control i =>
    have bound := placed.control
    have inside : i < 795 := valid
    simp only [Cell.place]
    omega
  | field b k =>
    have inside : k < room b := valid
    have bound := placed.below b (by omega)
    simp only [Cell.place]
    omega

theorem place_apart (placed : Placed tlsf room) {cell cell' : Cell} (valid : cell.Valid room)
    (valid' : cell'.Valid room) (other : cell ≠ cell') :
    cell.place tlsf + 4 ≤ cell'.place tlsf ∨ cell'.place tlsf + 4 ≤ cell.place tlsf := by
  cases cell with
  | control i =>
    have inside : i < 795 := valid
    cases cell' with
    | control i' =>
      have distinct : i ≠ i' := fun same => other (congrArg Cell.control same)
      simp only [Cell.place]
      omega
    | field b k =>
      have inside' : k < room b := valid'
      have order := placed.above b (by omega)
      simp only [Cell.place]
      omega
  | field b k =>
    have inside : k < room b := valid
    cases cell' with
    | control i =>
      have inside' : i < 795 := valid'
      have order := placed.above b (by omega)
      simp only [Cell.place]
      omega
    | field b' k' =>
      have inside' : k' < room b' := valid'
      simp only [Cell.place]
      by_cases same : b = b'
      · subst same
        have distinct : k.val ≠ k'.val := fun same => other (congrArg (Cell.field b) (Fin.ext same))
        omega
      · have order := placed.apart b b' (by omega) (by omega) same
        omega

theorem address_toNat (placed : Placed tlsf room) {cell : Cell} (valid : cell.Valid room) :
    (BitVec.ofNat 32 (cell.place tlsf) : Word).toNat = cell.place tlsf := by
  have bound := placed.place_bound valid
  rw [BitVec.toNat_ofNat]
  exact Nat.mod_eq_of_lt (by omega)

theorem get_put (placed : Placed tlsf room) {cell cell' : Cell} (valid : cell.Valid room)
    (valid' : cell'.Valid room) (value : Word) (m : Memory) :
    Cell.get tlsf (Cell.put tlsf cell value m) cell' = if cell' = cell then value else Cell.get tlsf m cell' := by
  split
  · rename_i same
    subst same
    exact load32_store32 _ _ _
  · rename_i other
    have bound := placed.place_bound valid
    have bound' := placed.place_bound valid'
    have apart := placed.place_apart valid valid' (Ne.symm other)
    have changes := store32_changesOnly (BitVec.ofNat 32 (cell.place tlsf)) value m
      (by rw [placed.address_toNat valid]; omega)
    rw [placed.address_toNat valid] at changes
    apply load32_keeps changes
    · rw [placed.address_toNat valid']
      omega
    · intro i small
      rw [placed.address_toNat valid', Set.mem_Ico]
      omega

theorem put_changesOnly (placed : Placed tlsf room) {cell : Cell} (valid : cell.Valid room) (value : Word)
    (m : Memory) : ChangesOnly (Cell.owned tlsf room) m (Cell.put tlsf cell value m) := by
  have bound := placed.place_bound valid
  have changes := store32_changesOnly (BitVec.ofNat 32 (cell.place tlsf)) value m
    (by rw [placed.address_toNat valid]; omega)
  rw [placed.address_toNat valid] at changes
  refine changes.mono fun n member => ?_
  rw [Set.mem_Ico] at member
  have owned : cell.place tlsf + (n - cell.place tlsf) ∈ Cell.owned tlsf room := Cell.place_owned valid (by omega)
  rwa [Nat.add_sub_cancel' member.1] at owned

theorem get_keeps (placed : Placed tlsf room) {s : Set ℕ} {m m' : Memory} (changes : ChangesOnly s m m') {cell : Cell}
    (valid : cell.Valid room) (apart : ∀ i < 4, cell.place tlsf + i ∉ s) :
    Cell.get tlsf m' cell = Cell.get tlsf m cell := by
  have bound := placed.place_bound valid
  apply load32_keeps changes
  · rw [placed.address_toNat valid]
    omega
  · rw [placed.address_toNat valid]
    exact apart

end Placed

/-! The fields as cells. -/

theorem ofNat_toNat_add (b : Word) (n : Nat) : BitVec.ofNat 32 (b.toNat + n) = b + BitVec.ofNat 32 n := by
  rw [BitVec.ofNat_add, BitVec.ofNat_toNat, BitVec.setWidth_eq]

section Fields

variable (tlsf b value : Word) (m : Memory)

theorem prevHdr_cell : Bhdr.prevHdr m b = Cell.get tlsf m (.field b 0) :=
  congrArg (load32 m) ((BitVec.add_zero b).symm.trans (ofNat_toNat_add b 0).symm)

theorem size_cell : Bhdr.size m b = Cell.get tlsf m (.field b 1) := congrArg (load32 m) (ofNat_toNat_add b 4).symm

theorem prev_cell : Bhdr.prev m b = Cell.get tlsf m (.field b 2) := congrArg (load32 m) (ofNat_toNat_add b 8).symm

theorem next_cell : Bhdr.next m b = Cell.get tlsf m (.field b 3) := congrArg (load32 m) (ofNat_toNat_add b 12).symm

theorem setPrevHdr_cell : Bhdr.setPrevHdr b value m = Cell.put tlsf (.field b 0) value m :=
  congrArg (store32 · value m) ((BitVec.add_zero b).symm.trans (ofNat_toNat_add b 0).symm)

theorem setSize_cell : Bhdr.setSize b value m = Cell.put tlsf (.field b 1) value m :=
  congrArg (store32 · value m) (ofNat_toNat_add b 4).symm

theorem setPrev_cell : Bhdr.setPrev b value m = Cell.put tlsf (.field b 2) value m :=
  congrArg (store32 · value m) (ofNat_toNat_add b 8).symm

theorem setNext_cell : Bhdr.setNext b value m = Cell.put tlsf (.field b 3) value m :=
  congrArg (store32 · value m) (ofNat_toNat_add b 12).symm

theorem flBitmapAt_cell : flBitmapAt tlsf = BitVec.ofNat 32 (Cell.place tlsf (.control 2)) :=
  (ofNat_toNat_add tlsf 8).symm

theorem slBitmapAt_cell (fl : Nat) :
    slBitmapAt tlsf (BitVec.ofNat 32 fl) = BitVec.ofNat 32 (Cell.place tlsf (.control (3 + fl))) := by
  rw [Cell.place, ofNat_toNat_add, Nat.mul_add, BitVec.ofNat_add, BitVec.ofNat_mul 4 fl, ← add_assoc]
  rfl

theorem matrixAt_cell (c : Nat) :
    matrixAt tlsf (Index.ofRank c) = BitVec.ofNat 32 (Cell.place tlsf (.control (27 + c))) := by
  have rank : MAX_SLI * BitVec.ofNat 32 (c / 32) + BitVec.ofNat 32 (c % 32) = BitVec.ofNat 32 c := by
    conv_rhs => rw [← Nat.div_add_mod c 32, BitVec.ofNat_add, BitVec.ofNat_mul]
    rfl
  rw [Cell.place, ofNat_toNat_add, Nat.mul_add, BitVec.ofNat_add, BitVec.ofNat_mul 4 c, ← add_assoc, matrixAt,
    Index.ofRank, rank]
  rfl

theorem flBitmap_cell : flBitmap m tlsf = Cell.get tlsf m (.control 2) := congrArg (load32 m) (flBitmapAt_cell tlsf)

theorem slBitmap_cell (fl : Nat) : slBitmap m tlsf (BitVec.ofNat 32 fl) = Cell.get tlsf m (.control (3 + fl)) :=
  congrArg (load32 m) (slBitmapAt_cell tlsf fl)

theorem matrix_cell (c : Nat) : matrix m tlsf (Index.ofRank c) = Cell.get tlsf m (.control (27 + c)) :=
  congrArg (load32 m) (matrixAt_cell tlsf c)

theorem setMatrix_cell (c : Nat) :
    setMatrix tlsf (Index.ofRank c) value m = Cell.put tlsf (.control (27 + c)) value m :=
  congrArg (store32 · value m) (matrixAt_cell tlsf c)

end Fields

theorem bit_of_small (k : Nat) (small : k < 32) :
    (BitVec.ofNat 32 k : Word).sshiftRight 5 = 0 ∧
      (1 : Word) <<< (BitVec.ofNat 32 k &&& 0x1f) = BitVec.twoPow 32 k := by
  have all : ∀ k : Fin 32, (BitVec.ofNat 32 k : Word).sshiftRight 5 = 0 ∧
      (1 : Word) <<< (BitVec.ofNat 32 k &&& 0x1f) = BitVec.twoPow 32 k := by
    decide +kernel
  exact all ⟨k, small⟩

theorem setBit_cell (tlsf : Word) (m : Memory) (cell : Cell) (k : Nat) (small : k < 32) :
    setBit (BitVec.ofNat 32 k) (BitVec.ofNat 32 (cell.place tlsf)) m =
      Cell.put tlsf cell (Cell.get tlsf m cell ||| BitVec.twoPow 32 k) m := by
  obtain ⟨word, bit⟩ := bit_of_small k small
  simp only [setBit, word, bit, mul_zero, add_zero]
  rfl

theorem clearBit_cell (tlsf : Word) (m : Memory) (cell : Cell) (k : Nat) (small : k < 32) :
    clearBit (BitVec.ofNat 32 k) (BitVec.ofNat 32 (cell.place tlsf)) m =
      Cell.put tlsf cell (Cell.get tlsf m cell &&& ~~~BitVec.twoPow 32 k) m := by
  obtain ⟨word, bit⟩ := bit_of_small k small
  simp only [clearBit, word, bit, mul_zero, add_zero]
  rfl

end Tlsf

end GenericBooter
