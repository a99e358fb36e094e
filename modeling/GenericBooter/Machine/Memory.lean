import GenericBooter.Library.ByteMemory

namespace GenericBooter

open ByteMemory

abbrev Byte := BitVec 8
abbrev Word := BitVec 32
abbrev Memory := ByteMemory.Store 32 Byte

inductive Store where
  | bytes (base : Word) (length : Nat)
  | word (base : Word)
deriving DecidableEq, Repr

def Store.base : Store → Word
  | .bytes base _ => base
  | .word base => base

def Store.length : Store → Nat
  | .bytes _ length => length
  | .word _ => 4

def Store.Touches (s : Store) (address : Word) : Prop := Covers s.base s.length address

instance (s : Store) (address : Word) : Decidable (s.Touches address) :=
  inferInstanceAs (Decidable (Covers _ _ _))

/-- Physical memory together with every store made so far, the latest first. -/
structure Machine where
  memory : Memory
  stores : List Store

def wordBytes (value : Word) : List Byte :=
  [value.extractLsb' 0 8, value.extractLsb' 8 8, value.extractLsb' 16 8, value.extractLsb' 24 8]

/-- The booter is built with `__LITTLE_ENDIAN__`. -/
def joinWord (b0 b1 b2 b3 : Byte) : Word :=
  BitVec.ofNat 32 (b0.toNat + 2^8 * b1.toNat + 2^16 * b2.toNat + 2^24 * b3.toNat)

def load32 (m : Memory) (address : Word) : Word :=
  joinWord (m address) (m (address + 1)) (m (address + 2)) (m (address + 3))

namespace Machine

def storeBytes (s : Machine) (target : Word) (data : List Byte) : Machine :=
  ⟨write s.memory target data, .bytes target data.length :: s.stores⟩

def storeWord (s : Machine) (target value : Word) : Machine :=
  ⟨write s.memory target (wordBytes value), .word target :: s.stores⟩

/-- `bcopy` is the overlap-safe `memmove` of bcopy.S, here by its effect on the bytes. -/
def bcopy (s : Machine) (source target length : Word) : Machine :=
  ⟨copy s.memory source target length.toNat, .bytes target length.toNat :: s.stores⟩

def bzero (s : Machine) (block length : Word) : Machine :=
  ⟨fill s.memory block length.toNat 0, .bytes block length.toNat :: s.stores⟩

def Steps (s t : Machine) (made : List Store) : Prop :=
  t.stores = made ++ s.stores ∧
    ∀ address, (∀ store ∈ made, ¬ store.Touches address) → t.memory address = s.memory address

theorem Steps.refl (s : Machine) : Steps s s [] := ⟨rfl, fun _ _ => rfl⟩

theorem Steps.trans {s t u : Machine} {first second : List Store}
    (h : Steps s t first) (h' : Steps t u second) : Steps s u (second ++ first) := by
  refine ⟨by rw [h'.1, h.1, List.append_assoc], ?_⟩
  intro address untouched
  rw [h'.2 address fun store member => untouched store (List.mem_append_left _ member)]
  exact h.2 address fun store member => untouched store (List.mem_append_right _ member)

theorem storeBytes_steps (s : Machine) (target : Word) (data : List Byte) :
    Steps s (s.storeBytes target data) [.bytes target data.length] :=
  ⟨rfl, fun _ untouched => write_outside _ _ _ _ (untouched _ (List.mem_singleton_self _))⟩

theorem storeWord_steps (s : Machine) (target value : Word) :
    Steps s (s.storeWord target value) [.word target] :=
  ⟨rfl, fun _ untouched => write_outside _ _ _ _ (untouched _ (List.mem_singleton_self _))⟩

theorem bcopy_steps (s : Machine) (source target length : Word) :
    Steps s (s.bcopy source target length) [.bytes target length.toNat] :=
  ⟨rfl, fun _ untouched =>
    copy_outside _ _ _ _ _ (untouched _ (List.mem_singleton_self _))⟩

theorem bzero_steps (s : Machine) (block length : Word) :
    Steps s (s.bzero block length) [.bytes block length.toNat] :=
  ⟨rfl, fun _ untouched =>
    fill_outside _ _ _ _ _ (untouched _ (List.mem_singleton_self _))⟩

end Machine

theorem position_ne_zero {position : Nat} (positive : 0 < position) (room : position < 2 ^ 32) :
    BitVec.ofNat 32 position ≠ 0 := by
  intro zero
  have value := congrArg BitVec.toNat zero
  rw [BitVec.toNat_ofNat, Nat.mod_eq_of_lt room] at value
  exact Nat.ne_of_gt positive value

theorem wordBytes_length (value : Word) : (wordBytes value).length = 4 := rfl

theorem load32_congr {m m' : Memory} {address : Word}
    (same : ∀ i < 4, m (address + BitVec.ofNat 32 i) = m' (address + BitVec.ofNat 32 i)) :
    load32 m address = load32 m' address := by
  have h0 := same 0 (by decide)
  rw [BitVec.add_zero] at h0
  rw [load32, load32, h0]
  exact congr (congr (congrArg _ (same 1 (by decide))) (same 2 (by decide))) (same 3 (by decide))

theorem joinWord_wordBytes (value : Word) :
    joinWord (value.extractLsb' 0 8) (value.extractLsb' 8 8) (value.extractLsb' 16 8)
      (value.extractLsb' 24 8) = value := by
  apply BitVec.eq_of_toNat_eq
  have bound := value.isLt
  simp only [joinWord, BitVec.toNat_ofNat, BitVec.extractLsb'_toNat, Nat.shiftRight_eq_div_pow]
  omega

theorem load32_of_read {m : Memory} {address value : Word} (held : read m address 4 = wordBytes value) :
    load32 m address = value := by
  have cells : [m (address + BitVec.ofNat 32 0), m (address + 1), m (address + 2), m (address + 3)] =
    wordBytes value := held
  rw [BitVec.add_zero] at cells
  simp only [wordBytes, List.cons.injEq, and_true] at cells
  obtain ⟨first, second, third, fourth⟩ := cells
  rw [load32, first, second, third, fourth, joinWord_wordBytes]

end GenericBooter
