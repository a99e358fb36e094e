import GenericBooter.Tlsf.FreeLists
import Mathlib.Data.List.Chain

namespace GenericBooter

open ByteMemory

namespace Tlsf

/-- A block; `prev` is the block in front of it if that is free. -/
structure Block where
  addr : Word
  size : Word
  free : Bool
  prev : Option Word
deriving DecidableEq, Repr

def flags (free prevFree : Bool) : Word :=
  (if free then FREE_BLOCK else USED_BLOCK) ||| (if prevFree then PREV_FREE else PREV_USED)

def header (size : Word) (free prevFree : Bool) : Word := size ||| flags free prevFree

section Header

variable {size : Word}

theorem low_bits (aligned : 8 ∣ size.toNat) : size &&& ~~~7 = size := by
  have cleared := mask_clears size 3
  rw [Nat.div_mul_cancel (show 2 ^ 3 ∣ size.toNat from aligned), BitVec.ofNat_toNat, BitVec.setWidth_eq] at cleared
  exact cleared

theorem aligned_and (aligned : 8 ∣ size.toNat) (mask : Word) : size &&& mask = size &&& (~~~7 &&& mask) := by
  rw [← BitVec.and_assoc, low_bits aligned]

theorem header_and (aligned : 8 ∣ size.toNat) (free prevFree : Bool) (mask : Word) :
    header size free prevFree &&& mask = size &&& (~~~7 &&& mask) ||| flags free prevFree &&& mask := by
  rw [header, BitVec.and_or_distrib_right, aligned_and aligned]

theorem header_size (aligned : 8 ∣ size.toNat) (free prevFree : Bool) :
    header size free prevFree &&& BLOCK_SIZE = size := by
  have kept : (~~~7 : Word) &&& BLOCK_SIZE = ~~~7 := by decide
  rw [header_and aligned, kept, low_bits aligned]
  cases free <;> cases prevFree <;> exact BitVec.or_zero

theorem header_flag (aligned : 8 ∣ size.toNat) (free prevFree : Bool) :
    (header size free prevFree &&& FREE_BLOCK ≠ 0 ↔ free = true) ∧
      (header size free prevFree &&& PREV_FREE ≠ 0 ↔ prevFree = true) := by
  have dropped : (~~~7 : Word) &&& FREE_BLOCK = 0 := by decide
  have dropped' : (~~~7 : Word) &&& PREV_FREE = 0 := by decide
  rw [header_and aligned, header_and aligned, dropped, dropped', show size &&& 0 = 0 from BitVec.and_zero]
  cases free <;> cases prevFree <;> decide

theorem header_set (free prevFree : Bool) :
    header size free prevFree ||| FREE_BLOCK = header size true prevFree ∧
      header size free prevFree ||| PREV_FREE = header size free true := by
  have both : flags free prevFree ||| FREE_BLOCK = flags true prevFree ∧
      flags free prevFree ||| PREV_FREE = flags free true := by
    cases free <;> cases prevFree <;> decide
  exact ⟨(BitVec.or_assoc size _ _).trans (congrArg (size ||| ·) both.1),
    (BitVec.or_assoc size _ _).trans (congrArg (size ||| ·) both.2)⟩

theorem header_clear (aligned : 8 ∣ size.toNat) (free prevFree : Bool) :
    header size free prevFree &&& ~~~FREE_BLOCK = header size false prevFree ∧
      header size free prevFree &&& ~~~PREV_FREE = header size free false := by
  have kept : (~~~7 : Word) &&& ~~~FREE_BLOCK = ~~~7 := by decide
  have kept' : (~~~7 : Word) &&& ~~~PREV_FREE = ~~~7 := by decide
  have both : flags free prevFree &&& ~~~FREE_BLOCK = flags false prevFree ∧
      flags free prevFree &&& ~~~PREV_FREE = flags free false := by
    cases free <;> cases prevFree <;> decide
  rw [header_and aligned, header_and aligned, kept, kept', low_bits aligned, both.1, both.2]
  exact ⟨rfl, rfl⟩

theorem header_prevState (aligned : 8 ∣ size.toNat) (free prevFree : Bool) (size' : Word) :
    size' ||| (header size free prevFree &&& PREV_STATE) = header size' false prevFree := by
  have dropped : (~~~7 : Word) &&& PREV_STATE = 0 := by decide
  have kept : 0 ||| flags free prevFree &&& PREV_STATE = flags false prevFree := by
    cases free <;> cases prevFree <;> decide
  rw [header_and aligned, dropped, show size &&& 0 = 0 from BitVec.and_zero, kept]
  rfl

theorem header_fresh (size : Word) : size ||| FREE_BLOCK ||| PREV_USED = header size true false :=
  BitVec.or_assoc size _ _

theorem header_sum (aligned : 8 ∣ size.toNat) (free prevFree : Bool) :
    header size free prevFree = size + flags free prevFree := by
  have apart : (~~~7 : Word) &&& flags free prevFree = 0 := by
    cases free <;> cases prevFree <;> decide
  refine (BitVec.add_eq_or_of_and_eq_zero _ _ ?_).symm
  rw [aligned_and aligned, apart]
  exact BitVec.and_zero

theorem header_add (aligned : 8 ∣ size.toNat) {more : Word} (aligned' : 8 ∣ (size + more).toNat)
    (free prevFree : Bool) : header size free prevFree + more = header (size + more) free prevFree := by
  rw [header_sum aligned, header_sum aligned', add_right_comm]

end Header

def Headed (tlsf : Word) (m : Memory) (b : Block) : Prop :=
  Cell.get tlsf m (.field b.addr 1) = header b.size b.free b.prev.isSome ∧
    ∀ p, b.prev = some p → Cell.get tlsf m (.field b.addr 0) = p

def Tiles (b b' : Block) : Prop := 8 ≤ b.size.toNat ∧ b.addr.toNat + 8 + b.size.toNat = b'.addr.toNat

/-- `b'` is the block behind `b` and says so; of two neighbours one is in use. -/
def Follows (b b' : Block) : Prop :=
  Tiles b b' ∧ 8 ∣ b.size.toNat ∧ b'.prev = (if b.free then some b.addr else none) ∧ ¬ (b.free = true ∧ b'.free = true)

def Below (b b' : Block) : Prop := b.addr.toNat + 8 + b.size.toNat ≤ b'.addr.toNat

def Block.words (b : Block) : Nat := if b.free then 4 else 2

def roomOf (blocks : List Block) (x : Word) : Nat :=
  match blocks.find? (·.addr = x) with
  | some b => b.words
  | none => 0

structure Tiled (tlsf : Word) (finish : Nat) (blocks : List Block) : Prop where
  tiles : blocks.IsChain Tiles
  start : ∀ b ∈ blocks.head?, tlsf.toNat + 3180 ≤ b.addr.toNat
  ends : ∀ b ∈ blocks.getLast?, b.free = false ∧ b.addr.toNat + 8 + b.size.toNat ≤ finish

variable {tlsf : Word} {finish : Nat} {blocks : List Block} {b : Block}

theorem Tiles.below {b b' : Block} (tiles : Tiles b b') : Below b b' := Nat.le_of_eq tiles.2

theorem Below.ne {b b' : Block} (below : Below b b') : b.addr ≠ b'.addr := by
  intro same
  unfold Below at below
  rw [same] at below
  omega

theorem Tiled.pairwise (tiled : Tiled tlsf finish blocks) : blocks.Pairwise Below := by
  have chain : blocks.IsChain Below := tiled.tiles.imp fun _ _ => Tiles.below
  have : IsTrans Block Below := ⟨fun a b c first second => by
    unfold Below at *
    omega⟩
  exact chain.pairwise

theorem Tiled.inside (tiled : Tiled tlsf finish blocks) {b : Block} (member : b ∈ blocks) :
    tlsf.toNat + 3180 ≤ b.addr.toNat ∧ b.addr.toNat + 8 + b.size.toNat ≤ finish := by
  obtain ⟨front, back, rfl⟩ := List.append_of_mem member
  have order := tiled.pairwise
  rw [List.pairwise_append] at order
  constructor
  · cases front with
    | nil => exact tiled.start b rfl
    | cons a rest =>
      have first := tiled.start a rfl
      have above := order.2.2 a List.mem_cons_self b List.mem_cons_self
      unfold Below at above
      omega
  · rcases List.eq_nil_or_concat' back with rfl | ⟨rest, z, rfl⟩
    · exact (tiled.ends b (by rw [List.getLast?_concat]; rfl)).2
    · have last := (tiled.ends z (by rw [← List.cons_append, ← List.append_assoc, List.getLast?_concat]; rfl)).2
      have above := List.rel_of_pairwise_cons order.2.1 (List.mem_append_right rest (List.mem_singleton_self z))
      unfold Below at above
      omega

theorem Tiled.addr_ne_zero (tiled : Tiled tlsf finish blocks) (member : b ∈ blocks) : b.addr ≠ 0 := by
  have above := (tiled.inside member).1
  intro zero
  rw [zero] at above
  change tlsf.toNat + 3180 ≤ 0 at above
  omega

theorem Tiled.apart (tiled : Tiled tlsf finish blocks) {b b' : Block} (member : b ∈ blocks) (member' : b' ∈ blocks)
    (other : b ≠ b') : Below b b' ∨ Below b' b := by
  have order := tiled.pairwise.imp (S := fun b b' => Below b b' ∨ Below b' b) Or.inl
  have : Std.Symm fun b b' => Below b b' ∨ Below b' b := ⟨fun _ _ => Or.symm⟩
  exact order.forall member member' other

theorem Tiled.same (tiled : Tiled tlsf finish blocks) {b b' : Block} (member : b ∈ blocks) (member' : b' ∈ blocks)
    (same : b.addr = b'.addr) : b = b' := by
  by_contra other
  have order := tiled.apart member member' other
  unfold Below at order
  rw [same] at order
  omega

theorem Tiled.words_le (tiled : Tiled tlsf finish blocks) {b : Block} (member : b ∈ blocks) :
    4 * b.words ≤ 8 + b.size.toNat := by
  unfold Block.words
  split
  · rename_i free
    obtain ⟨front, back, rfl⟩ := List.append_of_mem member
    cases back with
    | nil =>
      have used := (tiled.ends b (by rw [List.getLast?_concat]; rfl)).1
      rw [free] at used
      cases used
    | cons n rest =>
      have tiles := (List.isChain_append_cons_cons.mp tiled.tiles).2.1
      have large := tiles.1
      omega
  · omega

theorem roomOf_eq (tiled : Tiled tlsf finish blocks) {b : Block} (member : b ∈ blocks) :
    roomOf blocks b.addr = b.words := by
  unfold roomOf
  have found : blocks.find? (·.addr = b.addr) = some b := by
    obtain ⟨b', first⟩ := Option.isSome_iff_exists.mp
      (List.find?_isSome (p := (·.addr = b.addr)) |>.mpr ⟨b, member, decide_eq_true rfl⟩)
    have same : b'.addr = b.addr := by simpa using List.find?_some first
    rw [first, tiled.same (List.mem_of_find?_eq_some first) member same]
  rw [found]

theorem roomOf_pos {x : Word} (positive : 0 < roomOf blocks x) : ∃ b ∈ blocks, b.addr = x := by
  unfold roomOf at positive
  split at positive
  · rename_i b found
    exact ⟨b, List.mem_of_find?_eq_some found, by simpa using List.find?_some found⟩
  · exact absurd positive (Nat.lt_irrefl 0)

theorem Tiled.placed (tiled : Tiled tlsf finish blocks) (control : tlsf.toNat + 3180 ≤ 2 ^ 32)
    (top : finish ≤ 2 ^ 32) : Placed tlsf (roomOf blocks) where
  control := control
  above := by
    intro x positive
    obtain ⟨b, member, rfl⟩ := roomOf_pos positive
    exact (tiled.inside member).1
  below := by
    intro x positive
    obtain ⟨b, member, rfl⟩ := roomOf_pos positive
    have inside := tiled.inside member
    have words := tiled.words_le member
    rw [roomOf_eq tiled member]
    omega
  apart := by
    intro x x' positive positive' other
    obtain ⟨b, member, rfl⟩ := roomOf_pos positive
    obtain ⟨b', member', rfl⟩ := roomOf_pos positive'
    have words := tiled.words_le member
    have words' := tiled.words_le member'
    rw [roomOf_eq tiled member, roomOf_eq tiled member']
    have order := tiled.apart member member' fun same => other (congrArg Block.addr same)
    unfold Below at order
    omega

end Tlsf

end GenericBooter
