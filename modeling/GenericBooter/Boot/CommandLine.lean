import GenericBooter.Boot.Darwin

namespace GenericBooter

open ByteMemory

/-- A NUL is stored behind the copy when `n` has come down to 0, and then `s1` is past the counted bytes. -/
def strncpy (s1 s2 : Word) : Nat → Machine → Machine
  | 0, s => s.storeBytes s1 [0]
  | n + 1, s =>
    let c := s.memory s2
    let s := s.storeBytes s1 [c]
    if c = 0 then s else strncpy (s1 + 1) (s2 + 1) n s

def BootArgs.commandLineOffset : Nat := 56

def Atag.payload (atag : Word) : Word := atag + 8

def populateCommandlineInfo (gBootArgs atag : Word) (s : Machine) : Except Stop Machine := do
  let cmdline ← stringAt s.memory (Atag.payload atag)
  if cmdline.length = 1 then .ok s
  else .ok (strncpy (gBootArgs + BitVec.ofNat 32 BootArgs.commandLineOffset) (Atag.payload atag) kBootLineLength s)

def byteStores (target : Word) (count : Nat) : List Store :=
  ((List.range count).map fun i => Store.bytes (target + BitVec.ofNat 32 i) 1).reverse

theorem next_byte (address : Word) (i : Nat) :
    address + 1 + BitVec.ofNat 32 i = address + BitVec.ofNat 32 (i + 1) := by
  rw [Nat.add_comm i 1]
  exact add_ofNat address 1 i

theorem byteStores_succ (target : Word) (count : Nat) :
    byteStores target (count + 1) = byteStores (target + 1) count ++ [.bytes target 1] := by
  rw [byteStores, List.range_succ_eq_map, List.map_cons, List.reverse_cons, List.map_map, BitVec.add_zero, byteStores]
  congr 2
  apply List.map_congr_left
  intro i _
  rw [Function.comp_apply, next_byte]

theorem strncpy_spec {chars : List Byte} (noNul : 0 ∉ chars) (s1 s2 : Word) (n : Nat) (s : Machine)
    (held : read s.memory s2 (chars.length + 1) = chars ++ [0]) (room : n < 2 ^ 32)
    (apart : ∀ i ≤ chars.length, ∀ j < n, s2 + BitVec.ofNat 32 i ≠ s1 + BitVec.ofNat 32 j) :
    strncpy s1 s2 n s = ⟨write s.memory s1 (chars.take n ++ [0]),
      byteStores s1 (min n chars.length + 1) ++ s.stores⟩ := by
  induction n generalizing chars s1 s2 s with
  | zero =>
    rw [strncpy, List.take_zero, Nat.zero_min, byteStores_succ]
    rfl
  | succ n ih =>
    have first : [s.memory s2] ++ read s.memory (s2 + 1) chars.length = chars ++ [0] := by
      rw [← held, Nat.add_comm, read_append, read_one]
      rfl
    cases chars with
    | nil =>
      have nul : s.memory s2 = 0 := (List.cons.inj first).1
      rw [strncpy, nul, if_pos rfl, byteStores_succ]
      rfl
    | cons c chars =>
      rw [List.mem_cons, not_or] at noNul
      obtain ⟨here, rest⟩ := List.cons.inj first
      have nonzero : s.memory s2 ≠ 0 := fun zero => noNul.1 (zero.symm.trans here)
      have kept : read (write s.memory s1 [s.memory s2]) (s2 + 1) (chars.length + 1) = chars ++ [0] := by
        rw [← show read s.memory (s2 + 1) (chars.length + 1) = chars ++ [0] from rest]
        apply read_congr
        intro i bound
        apply write_outside
        intro covered
        obtain ⟨j, single, same⟩ := covers_exists covered
        obtain rfl : j = 0 := Nat.lt_one_iff.mp single
        rw [next_byte] at same
        exact apart (i + 1) (by rw [List.length_cons]; omega) 0 (Nat.succ_pos n) same
      have later := ih noNul.2 (s1 + 1) (s2 + 1) (s.storeBytes s1 [s.memory s2]) kept (by omega) (by
        intro i bound j small
        rw [next_byte, next_byte]
        exact apart (i + 1) (by rw [List.length_cons]; omega) (j + 1) (by omega))
      have joined := write_append s.memory s1 [s.memory s2] (chars.take n ++ [0]) (by
        rw [List.length_append, List.length_take, List.length_singleton, List.length_singleton]
        omega)
      rw [strncpy]
      simp only [nonzero, if_false]
      rw [later, List.length_cons, List.take_succ_cons, Nat.add_min_add_right,
        byteStores_succ s1 (min n chars.length + 1), List.append_assoc, ← here]
      exact congrArg (Machine.mk · _) joined

/-- What the copy is meant to do with a command line: nothing outside the field is touched, and the field ends up with
    as much of the line as it can hold beside a NUL, unless the line is empty. -/
structure CopiesLine (gBootArgs : Word) (line : CString) (s s' : Machine) : Prop where
  inside : ∃ made, s'.stores = made ++ s.stores ∧ ∀ store ∈ made, ∀ address, store.Touches address →
    Covers (gBootArgs + BitVec.ofNat 32 BootArgs.commandLineOffset) kBootLineLength address
  unchanged : ∀ address, ¬ Covers (gBootArgs + BitVec.ofNat 32 BootArgs.commandLineOffset) kBootLineLength address →
    s'.memory address = s.memory address
  held : line.chars ≠ [] → ∃ behind,
    read s'.memory (gBootArgs + BitVec.ofNat 32 BootArgs.commandLineOffset) kBootLineLength =
      line.chars.take (kBootLineLength - 1) ++ 0 :: behind

section Populate

variable {gBootArgs atag : Word} {line : CString} {s : Machine}

theorem populateCommandlineInfo_spec (given : stringAt s.memory (Atag.payload atag) = .ok line.bytes)
    (apart : ∀ address, Covers (Atag.payload atag) line.bytes.length address →
      ¬ Covers gBootArgs BootArgs.size.toNat address) (nonempty : line.chars ≠ []) :
    populateCommandlineInfo gBootArgs atag s = .ok
      ⟨write s.memory (gBootArgs + BitVec.ofNat 32 BootArgs.commandLineOffset)
          (line.chars.take kBootLineLength ++ [0]),
        byteStores (gBootArgs + BitVec.ofNat 32 BootArgs.commandLineOffset)
          (min kBootLineLength line.chars.length + 1) ++ s.stores⟩ := by
  obtain ⟨held, short⟩ := stringFrom_read given
  have length := line.bytes_length
  have some_chars := List.length_pos_iff.mpr nonempty
  have copied := strncpy_spec line.noNul (gBootArgs + BitVec.ofNat 32 BootArgs.commandLineOffset) (Atag.payload atag)
    kBootLineLength s (by rw [← length]; exact held.symm) (by decide) (by
      intro i bound j small same
      apply apart (Atag.payload atag + BitVec.ofNat 32 i)
      · exact (covers_add _ _ i (by omega)).mpr (by omega)
      · rw [same, add_ofNat]
        have field : BootArgs.commandLineOffset + kBootLineLength = BootArgs.size.toNat := rfl
        have size : BootArgs.size.toNat < 2 ^ 32 := by decide
        exact (covers_add _ _ _ (by omega)).mpr (by omega))
  rw [populateCommandlineInfo, given]
  simp only [ok_bind]
  rw [if_neg (by omega), copied]

theorem populateCommandlineInfo_empty (given : stringAt s.memory (Atag.payload atag) = .ok line.bytes)
    (empty : line.chars = []) : populateCommandlineInfo gBootArgs atag s = .ok s := by
  rw [populateCommandlineInfo, given, CString.bytes, empty]
  rfl

theorem mem_byteStores {target : Word} {count : Nat} {store : Store} :
    store ∈ byteStores target count ↔ ∃ i < count, store = .bytes (target + BitVec.ofNat 32 i) 1 := by
  simp only [byteStores, List.mem_reverse, List.mem_map, List.mem_range, eq_comm]

theorem copiesLine_of_short (short : line.chars.length < kBootLineLength) (field : Word) {s' : Machine}
    (field_eq : field = gBootArgs + BitVec.ofNat 32 BootArgs.commandLineOffset)
    (copied : s' = ⟨write s.memory field (line.chars.take kBootLineLength ++ [0]),
      byteStores field (min kBootLineLength line.chars.length + 1) ++ s.stores⟩) :
    CopiesLine gBootArgs line s s' := by
  have limit : kBootLineLength = 256 := rfl
  have size := line.bytes_length
  rw [List.take_of_length_le (by omega), show line.chars ++ [0] = line.bytes from rfl,
    Nat.min_eq_right (by omega)] at copied
  subst copied
  refine ⟨⟨_, rfl, ?_⟩, ?_, fun _ => ?_⟩ <;> rw [← field_eq]
  · intro store member address touched
    obtain ⟨i, bound, rfl⟩ := mem_byteStores.mp member
    obtain ⟨j, single, rfl⟩ := covers_exists touched
    have here : j < 1 := single
    simp only [Store.base, add_ofNat]
    exact (covers_add field _ _ (by omega)).mpr (by omega)
  · intro address outside
    apply write_outside
    exact fun covered => outside (Nat.lt_of_lt_of_le covered (by omega))
  · refine ⟨read (write s.memory field line.bytes) (field + BitVec.ofNat 32 line.bytes.length)
      (kBootLineLength - line.bytes.length), ?_⟩
    have parts := read_append (write s.memory field line.bytes) field line.bytes.length
      (kBootLineLength - line.bytes.length)
    rw [Nat.add_sub_cancel' (by omega), read_write _ _ _ (by omega)] at parts
    rw [parts, List.take_of_length_le (by omega), CString.bytes, List.append_assoc]
    rfl

theorem populateCommandlineInfo_long (given : stringAt s.memory (Atag.payload atag) = .ok line.bytes)
    (apart : ∀ address, Covers (Atag.payload atag) line.bytes.length address →
      ¬ Covers gBootArgs BootArgs.size.toNat address) (long : kBootLineLength ≤ line.chars.length) :
    ¬ ∃ s', populateCommandlineInfo gBootArgs atag s = .ok s' ∧ CopiesLine gBootArgs line s s' := by
  rintro ⟨s', ran', ⟨made, stores, inside⟩, _⟩
  have nonempty : line.chars ≠ [] := by
    intro empty
    rw [empty] at long
    exact absurd long (by decide)
  obtain rfl := Except.ok.inj ((populateCommandlineInfo_spec given apart nonempty).symm.trans ran')
  obtain rfl := List.append_cancel_right stores
  have behind : Store.bytes (gBootArgs + BitVec.ofNat 32 BootArgs.commandLineOffset + BitVec.ofNat 32 kBootLineLength) 1 ∈
      byteStores (gBootArgs + BitVec.ofNat 32 BootArgs.commandLineOffset)
        (min kBootLineLength line.chars.length + 1) :=
    mem_byteStores.mpr ⟨kBootLineLength, by omega, rfl⟩
  have covered := inside _ behind _ (show Covers _ 1 _ by rw [Covers, sub_self]; decide)
  exact absurd ((covers_add _ _ kBootLineLength (by decide)).mp covered) (Nat.lt_irrefl _)

theorem populateCommandlineInfo_copies_iff (given : stringAt s.memory (Atag.payload atag) = .ok line.bytes)
    (apart : ∀ address, Covers (Atag.payload atag) line.bytes.length address →
      ¬ Covers gBootArgs BootArgs.size.toNat address) :
    (∃ s', populateCommandlineInfo gBootArgs atag s = .ok s' ∧ CopiesLine gBootArgs line s s') ↔
      line.chars.length < kBootLineLength := by
  constructor
  · intro copies
    by_contra long
    exact populateCommandlineInfo_long given apart (Nat.le_of_not_lt long) copies
  · intro short
    by_cases empty : line.chars = []
    · refine ⟨s, populateCommandlineInfo_empty given empty, ⟨[], rfl, ?_⟩, fun _ _ => rfl, fun nonempty => ?_⟩
      · exact fun _ none => absurd none List.not_mem_nil
      · exact absurd empty nonempty
    · exact ⟨_, populateCommandlineInfo_spec given apart empty, copiesLine_of_short short _ rfl rfl⟩

end Populate

def lineRam (line : CString) : Machine := ⟨write (fun _ => 0) 0x108 line.bytes, []⟩

theorem lineRam_given (line : CString) (short : line.chars.length < 2 ^ 15) :
    stringAt (lineRam line).memory (Atag.payload 0x100) = .ok line.bytes := by
  have length := line.bytes_length
  apply stringFrom_of_read line.noNul _ (by omega)
  rw [← length]
  exact read_write _ _ _ (by omega)

theorem lineRam_apart (line : CString) (short : line.chars.length < 2 ^ 15) :
    ∀ address, Covers (Atag.payload 0x100) line.bytes.length address → ¬ Covers 0x10000 BootArgs.size.toNat address := by
  intro address covered
  have length := line.bytes_length
  have place : Atag.payload 0x100 = BitVec.ofNat 32 0x108 := rfl
  have place' : (0x10000 : Word) = BitVec.ofNat 32 0x10000 := rfl
  rw [place] at covered
  rw [place']
  exact covers_apart (by omega) (by decide) covered

theorem ramdiskLine_copied : ∃ s', populateCommandlineInfo 0x10000 0x100 (lineRam (ascii "rd=md0")) = .ok s' ∧
    CopiesLine 0x10000 (ascii "rd=md0") (lineRam (ascii "rd=md0")) s' :=
  (populateCommandlineInfo_copies_iff (lineRam_given _ (by decide)) (lineRam_apart _ (by decide))).mpr (by decide)

def longLine : CString := ⟨List.replicate kBootLineLength 0x61, by simp [List.mem_replicate]⟩

theorem longLine_overruns : ¬ ∀ gBootArgs atag line s, stringAt s.memory (Atag.payload atag) = .ok line.bytes →
    (∀ address, Covers (Atag.payload atag) line.bytes.length address →
      ¬ Covers gBootArgs BootArgs.size.toNat address) →
    ∃ s', populateCommandlineInfo gBootArgs atag s = .ok s' ∧ CopiesLine gBootArgs line s s' := by
  intro copies
  have length : longLine.chars.length = 256 := List.length_replicate
  have given := lineRam_given longLine (by omega)
  have apart := lineRam_apart longLine (by omega)
  exact populateCommandlineInfo_long given apart (Nat.le_of_eq length.symm) (copies _ _ _ _ given apart)

end GenericBooter
