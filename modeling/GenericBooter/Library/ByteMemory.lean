import Mathlib.Data.List.Basic
import Mathlib.Data.BitVec
import Mathlib.Algebra.Group.Basic
import Mathlib.Tactic.Ring

namespace ByteMemory

variable {w : Nat} {β : Type*}

abbrev Store (w : Nat) (β : Type*) := BitVec w → β

/-- The `length` cells from `base` on, taken round the address space. -/
def Covers (base : BitVec w) (length : Nat) (address : BitVec w) : Prop :=
  (address - base).toNat < length

instance (base : BitVec w) (length : Nat) (address : BitVec w) :
    Decidable (Covers base length address) := inferInstanceAs (Decidable (_ < _))

def write (m : Store w β) (base : BitVec w) (data : List β) : Store w β :=
  fun address => data[(address - base).toNat]?.getD (m address)

def read (m : Store w β) (base : BitVec w) (length : Nat) : List β :=
  (List.range length).map fun i => m (base + BitVec.ofNat w i)

def fill (m : Store w β) (base : BitVec w) (length : Nat) (value : β) : Store w β :=
  fun address => if Covers base length address then value else m address

/-- All of the source is read before the first cell is written. -/
def copy (m : Store w β) (source target : BitVec w) (length : Nat) : Store w β :=
  fun address => if Covers target length address then m (source + (address - target)) else m address

theorem add_sub_toNat (base : BitVec w) (i : Nat) (bound : i < 2 ^ w) :
    (base + BitVec.ofNat w i - base).toNat = i := by
  rw [add_sub_cancel_left, BitVec.toNat_ofNat, Nat.mod_eq_of_lt bound]

theorem exists_offset (base address : BitVec w) :
    ∃ i, i < 2 ^ w ∧ address = base + BitVec.ofNat w i := by
  refine ⟨(address - base).toNat, (address - base).isLt, ?_⟩
  rw [BitVec.ofNat_toNat, BitVec.setWidth_eq, add_sub_cancel]

theorem covers_add (base : BitVec w) (length i : Nat) (bound : i < 2 ^ w) :
    Covers base length (base + BitVec.ofNat w i) ↔ i < length := by
  rw [Covers, add_sub_toNat base i bound]

theorem covers_exists {base address : BitVec w} {length : Nat} (covered : Covers base length address) :
    ∃ i, i < length ∧ address = base + BitVec.ofNat w i := by
  refine ⟨(address - base).toNat, covered, ?_⟩
  rw [BitVec.ofNat_toNat, BitVec.setWidth_eq, add_sub_cancel]

theorem add_ofNat (base : BitVec w) (i j : Nat) :
    base + BitVec.ofNat w i + BitVec.ofNat w j = base + BitVec.ofNat w (i + j) := by
  rw [add_assoc, BitVec.ofNat_add]

theorem shifted_offset (base : BitVec w) (i shift : Nat) (small : i < 2 ^ w) (bound : shift ≤ 2 ^ w) :
    (base + BitVec.ofNat w i - (base + BitVec.ofNat w shift)).toNat =
      if shift ≤ i then i - shift else 2 ^ w + i - shift := by
  rw [add_sub_add_left_eq_sub, BitVec.toNat_sub, BitVec.toNat_ofNat, BitVec.toNat_ofNat,
    Nat.mod_eq_of_lt small]
  rcases Nat.lt_or_eq_of_le bound with less | rfl
  · rw [Nat.mod_eq_of_lt less]
    split
    · rw [show 2 ^ w - shift + i = 2 ^ w + (i - shift) by omega, Nat.add_mod_left]
      exact Nat.mod_eq_of_lt (by omega)
    · rw [show 2 ^ w - shift + i = 2 ^ w + i - shift by omega]
      exact Nat.mod_eq_of_lt (by omega)
  · rw [Nat.mod_self, Nat.sub_zero, Nat.add_mod_left, if_neg (by omega)]
    rw [Nat.mod_eq_of_lt small]
    omega

theorem covers_shift (base : BitVec w) (i shift length : Nat) (small : i < 2 ^ w)
    (room : shift + length ≤ 2 ^ w) :
    Covers (base + BitVec.ofNat w shift) length (base + BitVec.ofNat w i) ↔
      shift ≤ i ∧ i < shift + length := by
  rw [Covers, shifted_offset base i shift small (by omega)]
  split <;> omega

theorem covers_inside_iff (base : BitVec w) (shift length size : Nat) (start : shift < 2 ^ w)
    (limit : size < 2 ^ w) :
    (∀ address, Covers (base + BitVec.ofNat w shift) length address → Covers base size address) ↔
      length = 0 ∨ shift + length ≤ size := by
  have reached (i : Nat) (bound : i < length) : Covers (base + BitVec.ofNat w shift) length
      (base + BitVec.ofNat w shift + BitVec.ofNat w i) ∨ 2 ^ w ≤ i := by
    by_cases small : i < 2 ^ w
    · exact Or.inl ((covers_add _ _ i small).mpr bound)
    · exact Or.inr (by omega)
  constructor
  · intro inside
    by_contra outside
    have first : shift < size := by
      have covered := (reached 0 (by omega)).resolve_right (by omega)
      rw [add_ofNat] at covered
      exact (covers_add base size shift start).mp (inside _ covered)
    have last := (reached (size - shift) (by omega)).resolve_right (by omega)
    rw [add_ofNat, Nat.add_sub_cancel' (by omega)] at last
    exact absurd ((covers_add base size size limit).mp (inside _ last)) (Nat.lt_irrefl _)
  · intro fits address covered
    obtain ⟨i, bound, rfl⟩ := covers_exists covered
    rw [add_ofNat]
    exact (covers_add base size (shift + i) (by omega)).mpr (by omega)

theorem covers_apart {first length second length' : Nat} {address : BitVec w}
    (order : first + length ≤ second) (room : second + length' ≤ first + 2 ^ w)
    (covered : Covers (BitVec.ofNat w first) length address) :
    ¬ Covers (BitVec.ofNat w second) length' address := by
  obtain ⟨i, bound, rfl⟩ := covers_exists covered
  have step : BitVec.ofNat w second = BitVec.ofNat w first + BitVec.ofNat w (second - first) := by
    rw [← BitVec.ofNat_add, Nat.add_sub_cancel' (by omega)]
  by_cases small : i < 2 ^ w
  · rw [step, covers_shift _ _ _ _ small (by omega)]
    omega
  · have empty : length' = 0 := by omega
    subst empty
    exact Nat.not_lt_zero _

theorem write_nil (m : Store w β) (base : BitVec w) : write m base [] = m := by
  funext address
  simp [write]

theorem write_outside (m : Store w β) (base address : BitVec w) (data : List β)
    (outside : ¬ Covers base data.length address) : write m base data address = m address := by
  rw [write, List.getElem?_eq_none (Nat.le_of_not_lt outside), Option.getD_none]

theorem write_inside (m : Store w β) (base : BitVec w) (data : List β) (i : Nat)
    (bound : i < data.length) (room : data.length ≤ 2 ^ w) :
    write m base data (base + BitVec.ofNat w i) = data[i] := by
  rw [write, add_sub_toNat base i (by omega), List.getElem?_eq_getElem bound, Option.getD_some]

theorem write_append (m : Store w β) (base : BitVec w) (first second : List β)
    (room : first.length + second.length ≤ 2 ^ w) :
    write (write m base first) (base + BitVec.ofNat w first.length) second =
      write m base (first ++ second) := by
  funext address
  obtain ⟨i, small, rfl⟩ := exists_offset base address
  simp only [write, shifted_offset base i first.length small (by omega), add_sub_toNat base i small]
  by_cases later : first.length ≤ i
  · rw [if_pos later, List.getElem?_append_right later, List.getElem?_eq_none later, Option.getD_none]
  · have absent : second.length ≤ 2 ^ w + i - first.length := by omega
    rw [if_neg later, List.getElem?_append_left (by omega), List.getElem?_eq_none absent, Option.getD_none]

theorem write_patch (m : Store w β) (base : BitVec w) (first old new last : List β)
    (same : old.length = new.length) (room : first.length + (old.length + last.length) ≤ 2 ^ w) :
    write (write m base (first ++ (old ++ last))) (base + BitVec.ofNat w first.length) new =
      write m base (first ++ (new ++ last)) := by
  funext address
  obtain ⟨i, small, rfl⟩ := exists_offset base address
  by_cases inside : Covers (base + BitVec.ofNat w first.length) new.length (base + BitVec.ofNat w i)
  · have range := (covers_shift base i first.length new.length small (by omega)).mp inside
    rw [write, shifted_offset base i first.length small (by omega), if_pos range.1,
      List.getElem?_eq_getElem (by omega), Option.getD_some, write, add_sub_toNat base i small,
      List.getElem?_append_right range.1, List.getElem?_append_left (by omega),
      List.getElem?_eq_getElem (by omega), Option.getD_some]
  · have range := (covers_shift base i first.length new.length small (by omega)).not.mp inside
    rw [write_outside _ _ _ _ inside, write, write, add_sub_toNat base i small]
    congr 1
    rcases Nat.lt_or_ge i first.length with before | after
    · rw [List.getElem?_append_left before, List.getElem?_append_left before]
    · rw [List.getElem?_append_right after, List.getElem?_append_right after,
        List.getElem?_append_right (by omega), List.getElem?_append_right (by omega), same]

theorem write_same (m : Store w β) (base : BitVec w) (data : List β)
    (same : ∀ i (bound : i < data.length), m (base + BitVec.ofNat w i) = data[i]) :
    write m base data = m := by
  funext address
  by_cases inside : Covers base data.length address
  · obtain ⟨i, bound, rfl⟩ := covers_exists inside
    simp only [write, List.getElem?_eq_getElem inside, Option.getD_some]
    have found := same _ inside
    rw [BitVec.ofNat_toNat, BitVec.setWidth_eq, add_sub_cancel] at found
    exact found.symm
  · exact write_outside _ _ _ _ inside

theorem read_length (m : Store w β) (base : BitVec w) (length : Nat) :
    (read m base length).length = length := by simp [read]

theorem read_getElem (m : Store w β) (base : BitVec w) (length i : Nat)
    (bound : i < (read m base length).length) :
    (read m base length)[i] = m (base + BitVec.ofNat w i) := by simp [read]

theorem read_congr (m m' : Store w β) (base : BitVec w) (length : Nat)
    (same : ∀ i < length, m (base + BitVec.ofNat w i) = m' (base + BitVec.ofNat w i)) :
    read m base length = read m' base length := by
  apply List.map_congr_left
  intro i member
  exact same i (List.mem_range.mp member)

theorem read_write (m : Store w β) (base : BitVec w) (data : List β) (room : data.length ≤ 2 ^ w) :
    read (write m base data) base data.length = data := by
  apply List.ext_getElem (read_length _ _ _)
  intro i bound bound'
  rw [read_getElem, write_inside m base data i bound' room]

theorem read_write_part (m : Store w β) (base : BitVec w) (first part last : List β)
    (room : (first ++ (part ++ last)).length ≤ 2 ^ w) :
    read (write m base (first ++ (part ++ last))) (base + BitVec.ofNat w first.length) part.length = part := by
  have size : first.length + part.length ≤ (first ++ (part ++ last)).length := by
    rw [List.length_append, List.length_append]
    omega
  apply List.ext_getElem (read_length _ _ _)
  intro i bound bound'
  rw [read_getElem, add_ofNat, write_inside m base _ (first.length + i) (by omega) room,
    List.getElem_append_right (by omega)]
  simp only [Nat.add_sub_cancel_left]
  exact List.getElem_append_left bound'

theorem read_write_apart (m : Store w β) (base base' : BitVec w) (data : List β) (length : Nat)
    (apart : ∀ address, Covers base length address → ¬ Covers base' data.length address) :
    read (write m base' data) base length = read m base length := by
  apply read_congr
  intro i bound
  apply write_outside
  apply apart
  rw [Covers, add_sub_cancel_left, BitVec.toNat_ofNat]
  exact Nat.lt_of_le_of_lt (Nat.mod_le _ _) bound

theorem read_append (m : Store w β) (base : BitVec w) (first second : Nat) :
    read m base (first + second) =
      read m base first ++ read m (base + BitVec.ofNat w first) second := by
  simp only [read, List.range_add, List.map_append, List.map_map]
  congr 1
  apply List.map_congr_left
  intro i _
  simp only [Function.comp_apply, add_ofNat]

theorem read_part (m : Store w β) (base : BitVec w) {length offset part : Nat} (fits : offset + part ≤ length) :
    ((read m base length).drop offset).take part = read m (base + BitVec.ofNat w offset) part := by
  obtain ⟨rest, rfl⟩ := Nat.exists_eq_add_of_le fits
  rw [Nat.add_assoc, read_append, read_append, List.drop_left' (read_length _ _ _), List.take_left' (read_length _ _ _)]

theorem read_three_writes (m : Store w β) (first second third : Nat) (data data' data'' : List β)
    (order : first + data.length ≤ second) (order' : second + data'.length ≤ third)
    (room : third + data''.length ≤ 2 ^ w) :
    let final := write (write (write m (BitVec.ofNat w first) data) (BitVec.ofNat w second) data')
      (BitVec.ofNat w third) data''
    read final (BitVec.ofNat w first) data.length = data ∧ read final (BitVec.ofNat w second) data'.length = data' ∧
      read final (BitVec.ofNat w third) data''.length = data'' := by
  refine ⟨?_, ?_, read_write _ _ _ (by omega)⟩
  · rw [read_write_apart, read_write_apart, read_write _ _ _ (by omega)]
    · exact fun _ covered => covers_apart order (by omega) covered
    · exact fun _ covered => covers_apart (by omega) (by omega) covered
  · rw [read_write_apart, read_write _ _ _ (by omega)]
    exact fun _ covered => covers_apart order' (by omega) covered

theorem copy_eq_write (m : Store w β) (source target : BitVec w) (length : Nat) :
    copy m source target length = write m target (read m source length) := by
  funext address
  by_cases inside : Covers target length address
  · have bound : (address - target).toNat < (read m source length).length := by
      rw [read_length]
      exact inside
    rw [copy, if_pos inside, write, List.getElem?_eq_getElem bound, Option.getD_some, read_getElem,
      BitVec.ofNat_toNat, BitVec.setWidth_eq]
  · rw [copy, if_neg inside, write_outside]
    rwa [read_length]

theorem fill_eq_write (m : Store w β) (base : BitVec w) (length : Nat) (value : β) :
    fill m base length value = write m base (List.replicate length value) := by
  funext address
  by_cases inside : Covers base length address
  · have bound : (address - base).toNat < (List.replicate length value).length := by
      rw [List.length_replicate]
      exact inside
    rw [fill, if_pos inside, write, List.getElem?_eq_getElem bound, Option.getD_some,
      List.getElem_replicate]
  · rw [fill, if_neg inside, write_outside]
    rwa [List.length_replicate]

theorem copy_outside (m : Store w β) (source target address : BitVec w) (length : Nat)
    (outside : ¬ Covers target length address) : copy m source target length address = m address :=
  if_neg outside

theorem fill_outside (m : Store w β) (base address : BitVec w) (length : Nat) (value : β)
    (outside : ¬ Covers base length address) : fill m base length value address = m address :=
  if_neg outside

theorem write_fill (m : Store w β) (base : BitVec w) (data : List β) (value : β)
    (room : data.length ≤ 2 ^ w) : write (fill m base data.length value) base data = write m base data := by
  have patched := write_patch m base [] (List.replicate data.length value) data []
    (List.length_replicate) (by rw [List.length_replicate]; simpa using room)
  rw [List.append_nil, List.append_nil, List.nil_append, List.nil_append, List.length_nil,
    BitVec.add_zero] at patched
  rw [fill_eq_write]
  exact patched

end ByteMemory
