import GenericBooter.Tlsf.Pool

namespace GenericBooter

open ByteMemory

def storeWords (base : Word) (m : Memory) : List (Nat × Word) → Memory
  | [] => m
  | (offset, value) :: before => store32 (base + BitVec.ofNat 32 offset) value (storeWords base m before)

section Words

variable {base value : Word} {m : Memory} {before : List (Nat × Word)} {c d n : Nat}

theorem storeWords_outside {words : List (Nat × Word)} (inside : ∀ word ∈ words, word.1 + 4 ≤ n) (room : n ≤ 2 ^ 32)
    {address : Word} (outside : ¬ Covers base n address) : storeWords base m words address = m address := by
  induction words with
  | nil => rfl
  | cons word before ih =>
    have small := inside word List.mem_cons_self
    have kept := ih fun word member => inside word (List.mem_cons_of_mem _ member)
    refine (write_outside _ _ _ _ fun covered => outside ?_).trans kept
    obtain ⟨i, less, rfl⟩ := covers_exists covered
    rw [wordBytes_length] at less
    rw [add_ofNat, covers_add _ _ _ (by omega)]
    omega

theorem load32_stored :
    load32 (storeWords base m ((c, value) :: before)) (base + BitVec.ofNat 32 c) = value :=
  load32_store32 _ _ _

theorem load32_before (apart : c + 4 ≤ d ∨ d + 4 ≤ c) (room : c + 4 ≤ 2 ^ 32) (room' : d + 4 ≤ 2 ^ 32) :
    load32 (storeWords base m ((c, value) :: before)) (base + BitVec.ofNat 32 d) =
      load32 (storeWords base m before) (base + BitVec.ofNat 32 d) := by
  apply load32_congr
  intro i small
  refine write_outside _ _ _ _ ?_
  rw [wordBytes_length, add_ofNat, covers_shift _ _ _ _ (by omega) (by omega)]
  omega

theorem load32_zeroed {length : Nat} (inside : d + 4 ≤ length) (room : length ≤ 2 ^ 32) :
    load32 (storeWords base (fill m base length 0) []) (base + BitVec.ofNat 32 d) = 0 := by
  have zero (i : Nat) (less : i < 4) :
      fill m base length 0 (base + BitVec.ofNat 32 d + BitVec.ofNat 32 i) = 0 := by
    rw [add_ofNat]
    exact if_pos ((covers_add _ _ _ (by omega)).mpr (by omega))
  have first := zero 0 (by decide)
  rw [BitVec.add_zero] at first
  rw [storeWords, load32, first, show fill m base length 0 (base + BitVec.ofNat 32 d + 1) = 0 from zero 1 (by decide),
    show fill m base length 0 (base + BitVec.ofNat 32 d + 2) = 0 from zero 2 (by decide),
    show fill m base length 0 (base + BitVec.ofNat 32 d + 3) = 0 from zero 3 (by decide)]
  rfl

end Words

namespace Tlsf

section Offsets

variable {base value nr : Word} {m : Memory} {before : List (Nat × Word)} {c d : Nat}

theorem setPrevHdr_at : Bhdr.setPrevHdr (base + BitVec.ofNat 32 c) value (storeWords base m before) =
    storeWords base m ((c, value) :: before) := rfl

theorem setSize_at : Bhdr.setSize (base + BitVec.ofNat 32 c) value (storeWords base m before) =
    storeWords base m ((c + 4, value) :: before) := by
  rw [storeWords, ← add_ofNat]
  rfl

theorem setPrev_at : Bhdr.setPrev (base + BitVec.ofNat 32 c) value (storeWords base m before) =
    storeWords base m ((c + 8, value) :: before) := by
  rw [storeWords, ← add_ofNat]
  rfl

theorem setNext_at : Bhdr.setNext (base + BitVec.ofNat 32 c) value (storeWords base m before) =
    storeWords base m ((c + 12, value) :: before) := by
  rw [storeWords, ← add_ofNat]
  rfl

theorem setEnd_at : AreaInfo.setEnd (base + BitVec.ofNat 32 c) value (storeWords base m before) =
    storeWords base m ((c, value) :: before) := rfl

theorem setInfoNext_at : AreaInfo.setNext (base + BitVec.ofNat 32 c) value (storeWords base m before) =
    storeWords base m ((c + 4, value) :: before) := by
  rw [storeWords, ← add_ofNat]
  rfl

theorem size_at : Bhdr.size m (base + BitVec.ofNat 32 c) = load32 m (base + BitVec.ofNat 32 (c + 4)) := by
  rw [← add_ofNat]
  rfl

theorem buffer_at : Bhdr.buffer (base + BitVec.ofNat 32 c) = base + BitVec.ofNat 32 (c + 8) := by
  rw [← add_ofNat]
  rfl

theorem nextBlock_at : getNextBlock (base + BitVec.ofNat 32 c) (BitVec.ofNat 32 d) = base + BitVec.ofNat 32 (c + d) :=
  add_ofNat _ _ _

theorem setBit_at (small : nr.sshiftRight 5 = 0) : setBit nr (base + BitVec.ofNat 32 c) (storeWords base m before) =
    storeWords base m
      ((c, load32 (storeWords base m before) (base + BitVec.ofNat 32 c) ||| (1 : Word) <<< (nr &&& 0x1f)) :: before) := by
  have word : base + BitVec.ofNat 32 c + 4 * nr.sshiftRight 5 = base + BitVec.ofNat 32 c := by
    rw [small, show (4 : Word) * 0 = 0#32 from rfl, BitVec.add_zero]
  rw [setBit, word]
  rfl

end Offsets

section Init

variable {base : Word} {m : Memory}

theorem processArea_words (before : List (Nat × Word)) :
    processArea (base + BitVec.ofNat 32 3184) 0x17ff390 (storeWords base m before) =
      (base + BitVec.ofNat 32 3184, storeWords base m ((3192, base + BitVec.ofNat 32 0x17ffff8) :: (3196, 0) ::
        (0x17ffffc, 2) :: (0x17ffff8, base + BitVec.ofNat 32 3200) :: (3208, 0) :: (3212, 0) :: (3204, 0x17ff370) ::
        (3188, 8) :: before)) := by
  have first : (if areaInfoSize < MIN_BLOCK_SIZE then MIN_BLOCK_SIZE
      else roundupSize areaInfoSize ||| USED_BLOCK ||| PREV_USED) = 8 := by decide
  have second : rounddownSize (0x17ff390 - 3 * BHDR_OVERHEAD - BitVec.ofNat 32 8) ||| USED_BLOCK ||| PREV_USED =
      0x17ff370 := by decide
  have eight : (8 : Word) &&& BLOCK_SIZE = BitVec.ofNat 32 8 := by decide
  have large : (0x17ff370 : Word) &&& BLOCK_SIZE = BitVec.ofNat 32 0x17ff370 := by decide
  simp (disch := decide) only [processArea, first, second, eight, large, setSize_at, size_at, load32_stored,
    load32_before, buffer_at, nextBlock_at, setNext_at, setPrev_at, setPrevHdr_at, setEnd_at, setInfoNext_at,
    Nat.reduceAdd]
  rfl

def areaWords (base : Word) : List (Nat × Word) :=
  [(3192, base + BitVec.ofNat 32 0x17ffff8), (3196, 0), (0x17ffffc, 2), (0x17ffff8, base + BitVec.ofNat 32 3200),
    (3208, 0), (3212, 0), (3204, 0x17ff370), (3188, 8), (0, TLSF_SIGNATURE)]

theorem freeEx_words : ∃ words : List (Nat × Word), (∀ word ∈ words, word.1 + 4 ≤ 0x1800000) ∧
    freeEx (base + BitVec.ofNat 32 3208) base (storeWords base (fill m base 3180 0) (areaWords base)) =
      storeWords base (fill m base 3180 0) words := by
  by_cases null : base + BitVec.ofNat 32 3208 = 0
  · refine ⟨areaWords base, by simp [areaWords], ?_⟩
    rw [freeEx, if_pos null]
  · have place : base + BitVec.ofNat 32 3208 - BHDR_OVERHEAD = base + BitVec.ofNat 32 3200 := by
      rw [add_sub_assoc]
      rfl
    have freed : (0x17ff370 ||| FREE_BLOCK : Word) = 0x17ff371 := by decide
    have large : (0x17ff371 : Word) &&& BLOCK_SIZE = BitVec.ofNat 32 0x17ff370 := by decide
    have filed : mappingInsert (BitVec.ofNat 32 0x17ff370) = ⟨18, 15⟩ := by decide
    have behind : ¬ ((2 : Word) &&& FREE_BLOCK ≠ 0) := by decide
    have before : ¬ ((0x17ff371 : Word) &&& PREV_FREE ≠ 0) := by decide
    have head (m : Memory) : matrix m base ⟨18, 15⟩ = load32 m (base + BitVec.ofNat 32 2472) := by
      rw [← add_ofNat base 108 2364]
      rfl
    have setHead (value : Word) (m : Memory) (words : List (Nat × Word)) :
        setMatrix base ⟨18, 15⟩ value (storeWords base m words) = storeWords base m ((2472, value) :: words) := by
      rw [storeWords, ← add_ofNat base 108 2364]
      rfl
    have row : slBitmapAt base 18 = base + BitVec.ofNat 32 84 := by
      rw [← add_ofNat base 12 72]
      rfl
    have rows : flBitmapAt base = base + BitVec.ofNat 32 8 := rfl
    rw [freeEx, if_neg null]
    simp (disch := decide) only [areaWords, place, setSize_at, size_at, load32_stored, load32_before, freed,
      Nat.reduceAdd, setNext_at, setPrev_at, large, buffer_at, nextBlock_at, behind, before, if_false, filed,
      insertBlock, head, load32_zeroed, ne_eq, not_true_eq_false, setHead, row, rows, setBit_at, setPrevHdr_at]
    refine ⟨_, ?_, rfl⟩
    simp only [List.forall_mem_cons]
    decide

variable {s s' : Allocator}

theorem mallocInit_accepts (nonnull : base ≠ 0) (aligned : base &&& PTR_MASK = 0) :
    ∃ s', s.mallocInit base 0x1800000 = .ok s' := by
  have sized : ¬ (base = 0 ∨ (0x1800000 : Word) = 0 ∨ (0x1800000 : Word) < tlsfSize + BHDR_OVERHEAD * 8) := by
    rw [not_or]
    exact ⟨nonnull, by decide⟩
  rw [Allocator.mallocInit, initMemoryPool, if_neg sized, if_neg (not_not_intro aligned)]
  by_cases signed : signature s.memory base = TLSF_SIGNATURE
  · simp only [if_pos signed]
    exact ⟨_, rfl⟩
  · simp only [if_neg signed]
    exact ⟨_, rfl⟩

/-- Wherever the pool lies, also across the end of the address space. -/
theorem mallocInit_keeps (ran : s.mallocInit base 0x1800000 = .ok s') {address : Word}
    (outside : ¬ Covers base 0x1800000 address) : s'.memory address = s.memory address := by
  rw [Allocator.mallocInit, initMemoryPool] at ran
  split at ran
  · cases ran
  · split at ran
    · cases ran
    · simp only at ran
      split at ran
      · obtain rfl := Except.ok.inj ran
        rfl
      · obtain rfl := Except.ok.inj ran
        obtain ⟨words, inside, freed⟩ := @freeEx_words base s.memory
        have first : getNextBlock base (roundupSize tlsfSize) = base + BitVec.ofNat 32 3184 := by
          rw [show roundupSize tlsfSize = BitVec.ofNat 32 3184 by decide]
          rfl
        have rest : rounddownSize (0x1800000 - tlsfSize) = 0x17ff390 := by decide
        have signed (m : Memory) : store32 base TLSF_SIGNATURE m = storeWords base m [(0, TLSF_SIGNATURE)] := by
          rw [storeWords, storeWords, BitVec.add_zero]
        have eight : (8 : Word) &&& BLOCK_SIZE = BitVec.ofNat 32 8 := by decide
        have area (m : Memory) (value : Word) (words : List (Nat × Word)) :
            store32 (base + 4) value (storeWords base m words) = storeWords base m ((4, value) :: words) := rfl
        have cleared : tlsfSize.toNat = 3180 := rfl
        simp (disch := decide) only [first, rest, signed, processArea_words, buffer_at, size_at, load32_before,
          load32_stored, eight, nextBlock_at, Nat.reduceAdd, cleared]
        rw [← areaWords, freed, area, storeWords_outside (n := 0x1800000) _ (by decide) outside]
        · refine fill_outside _ _ _ _ _ fun covered => outside ?_
          exact Nat.lt_of_lt_of_le covered (by decide)
        · exact List.forall_mem_cons.mpr ⟨(by decide : 4 + 4 ≤ 0x1800000), inside⟩

end Init

end Tlsf

end GenericBooter
