import GenericBooter.Tlsf.Pool

namespace GenericBooter

open ByteMemory

namespace Tlsf

variable {tlsf : Word} {finish : Nat} {m : Memory} {blocks front back mid : List Block} {lists : Nat → List Word}
  {b : Block} {size : Word}

theorem Heap.buffer_ne_zero (heap : Heap tlsf finish m blocks lists) (member : b ∈ blocks) (free : b.free = true) :
    b.addr + 8 ≠ 0 := by
  have inside := heap.layout.tiled.inside member
  have least := heap.layout.least member free
  have top := heap.layout.top
  apply BitVec.toNat_ne.mpr
  rw [BitVec.toNat_add, Nat.mod_eq_of_lt (by change b.addr.toNat + 8 < 2 ^ 32; omega)]
  exact Nat.succ_ne_zero _

theorem inUse_empty (none : inUse mid = []) : ∀ b ∈ mid, b.free = true := by
  intro b member
  by_contra used
  have listed : (b.addr, b.size) ∈ inUse mid := mem_inUse.mpr ⟨b, member, Bool.eq_false_of_not_eq_true used, rfl⟩
  rw [none] at listed
  exact List.not_mem_nil listed

theorem Serves.whole (serves : Serves tlsf finish m []) (room : tlsf.toNat + 3208 < finish) :
    ∃ b z lists, Heap tlsf finish m [areaBlock tlsf, b, z] lists ∧ b.free = true ∧ z.free = false ∧
      b.size.toNat + tlsf.toNat + 3216 = finish := by
  obtain ⟨blocks, lists, heap, same⟩ := serves
  have layout := heap.layout
  have two := same.length_eq
  obtain ⟨a, rest, rfl⟩ := List.exists_cons_of_ne_nil (l := blocks) (by rintro rfl; cases layout.first)
  obtain rfl : a = areaBlock tlsf := Option.some.inj layout.first
  obtain ⟨sentinel, last, empty, used, top⟩ := layout.last
  rcases List.eq_nil_or_concat rest with rfl | ⟨mid, z, rfl⟩
  · rw [inUse_used rfl] at two
    cases two
  · rw [List.concat_eq_append, ← List.cons_append, List.getLast?_concat] at last
    obtain rfl := Option.some.inj last
    rw [List.concat_eq_append, inUse_used rfl, inUse_append, inUse_used used, List.length_cons, List.length_append] at two
    have free := inUse_empty (List.eq_nil_of_length_eq_zero (l := inUse mid) (by change _ + (0 + 1) + 1 = 0 + 1 + 1 at two; omega))
    have follows := layout.follows
    have start := area_start layout.control
    have eight : (areaBlock tlsf).size.toNat = 8 := rfl
    rw [List.concat_eq_append] at follows heap
    rcases mid with - | ⟨b, - | ⟨c, mid⟩⟩
    · obtain ⟨_, place⟩ := (List.isChain_cons_cons.mp follows).1.1
      omega
    · obtain ⟨⟨⟨_, place⟩, _⟩, follows⟩ := List.isChain_cons_cons.mp follows
      obtain ⟨⟨⟨_, place'⟩, _⟩, _⟩ := List.isChain_cons_cons.mp follows
      exact ⟨b, z, lists, heap, free b List.mem_cons_self, used, by omega⟩
    · obtain ⟨_, follows⟩ := List.isChain_cons_cons.mp follows
      obtain ⟨⟨_, _, _, apart⟩, _⟩ := List.isChain_cons_cons.mp follows
      exact absurd ⟨free b List.mem_cons_self, free c (List.mem_cons_of_mem _ List.mem_cons_self)⟩ apart

theorem samplePool_whole : ∃ m b z lists, Heap 0x1000 (poolEnd 0x1000 0x1800000) m [areaBlock 0x1000, b, z] lists ∧
    b.free = true ∧ 0x1000000 ≤ b.size.toNat := by
  obtain ⟨m, serves⟩ := samplePool
  obtain ⟨b, z, lists, heap, free, _, total⟩ := serves.whole (by decide)
  have finish : poolEnd 0x1000 0x1800000 = 0x1801000 := by decide
  have start : (0x1000 : Word).toNat = 0x1000 := rfl
  exact ⟨m, b, z, lists, heap, free, by omega⟩

theorem blockSize_waste (size : Nat) : 32 * blockSize size < 33 * payload size := by
  obtain ⟨multiple, least, _⟩ := payload_facts size
  have waste := searchSize_waste (Dvd.dvd.trans (by decide) multiple) (show 0 < payload size by omega)
  unfold blockSize
  omega

theorem mallocEx_gives_iff (heap : Heap tlsf finish m blocks lists) (bound : size.toNat ≤ 0xfc000000) :
    (mallocEx size tlsf m).1 ≠ 0 ↔ ∃ b ∈ blocks, b.free = true ∧ blockSize size.toNat ≤ b.size.toNat := by
  rcases mallocEx_heap heap bound with ⟨refused, below⟩ | ⟨front, b, n, back, rfl, free, fits, _, result, _⟩
  · refine iff_of_false (not_not.mpr (congrArg Prod.fst refused)) ?_
    rintro ⟨b, member, free, fits⟩
    have less := below b member free
    have least : classOf (blockSize size.toNat) ≤ classOf b.size.toNat := Segregated.rank_mono fits
    omega
  · have member : b ∈ front ++ b :: n :: back := List.mem_append_right _ List.mem_cons_self
    refine iff_of_true ?_ ⟨b, member, free, fits⟩
    rw [result]
    exact heap.buffer_ne_zero member free

theorem mallocEx_good_fit (heap : Heap tlsf finish m blocks lists) (bound : size.toNat ≤ 0xfc000000) :
    (mallocEx size tlsf m = (0, m) ∧ ∀ b ∈ blocks, b.free = true → b.size.toNat < blockSize size.toNat) ∨
    ∃ b ∈ blocks, b.free = true ∧ (mallocEx size tlsf m).1 = b.addr + 8 ∧ blockSize size.toNat ≤ b.size.toNat ∧
      (∀ x ∈ blocks, x.free = true → blockSize size.toNat ≤ x.size.toNat →
        classOf b.size.toNat ≤ classOf x.size.toNat) ∧
      ∃ blocks' lists', Heap tlsf finish (mallocEx size tlsf m).2 blocks' lists' ∧
        ∃ y : Word, (inUse blocks').Perm ((b.addr, y) :: inUse blocks) ∧ size.toNat ≤ y.toNat ∧
          32 * y.toNat < 33 * payload size.toNat + 32 * 15 := by
  rcases mallocEx_heap heap bound with ⟨refused, below⟩ | ⟨front, b, n, back, rfl, free, fits, least, result, ⟨lists', heap'⟩, _⟩
  · refine Or.inl ⟨refused, fun b member free => ?_⟩
    by_contra fits
    have less := below b member free
    have least : classOf (blockSize size.toNat) ≤ classOf b.size.toNat := Segregated.rank_mono (Nat.le_of_not_lt fits)
    omega
  · right
    obtain ⟨_, _, above⟩ := blockSize_facts size.toNat
    have waste := blockSize_waste size.toNat
    have small := b.size.isLt
    refine ⟨b, List.mem_append_right _ List.mem_cons_self, free, result, fits,
      fun x member free' fits' => least x member free' (Segregated.rank_mono fits'), _, lists', heap', ?_⟩
    have before : inUse (front ++ b :: n :: back) = inUse front ++ inUse (n :: back) := by
      rw [inUse_append, inUse_free free]
    by_cases large : blockSize size.toNat + 16 ≤ b.size.toNat
    · have value : (BitVec.ofNat 32 (blockSize size.toNat)).toNat = blockSize size.toNat := by
        rw [BitVec.toNat_ofNat]
        exact Nat.mod_eq_of_lt (by omega)
      refine ⟨BitVec.ofNat 32 (blockSize size.toNat), ?_, by rwa [value], by omega⟩
      rw [takenBlocks, if_pos large, inUse_split, before]
      exact List.perm_middle
    · refine ⟨b.size, ?_, Nat.le_trans above fits, by omega⟩
      rw [takenBlocks, if_neg large, inUse_around, inUse_behind, before]
      exact List.perm_middle

theorem samplePool_good_fit : ∃ m blocks lists, Heap 0x1000 (poolEnd 0x1000 0x1800000) m blocks lists ∧
    ∃ b ∈ blocks, (mallocEx 100 0x1000 m).1 = b.addr + 8 := by
  obtain ⟨m, b, z, lists, heap, free, large⟩ := samplePool_whole
  refine ⟨m, _, lists, heap, ?_⟩
  rcases mallocEx_good_fit heap (show (100 : Word).toNat ≤ 0xfc000000 by decide) with ⟨_, short⟩ | ⟨b', member, _, result, _⟩
  · have less := short b (List.mem_cons_of_mem _ List.mem_cons_self) free
    have need : blockSize (100 : Word).toNat = 104 := by decide +kernel
    omega
  · exact ⟨b', member, result⟩

/-- `calloc_ex` multiplies in 32 bits, so what it asks for is the product without its carry. -/
theorem callocEx_gives_iff (heap : Heap tlsf finish m blocks lists) {nelem elemSize : Word}
    (bound : nelem.toNat * elemSize.toNat % 2 ^ 32 ≤ 0xfc000000) :
    (callocEx nelem elemSize tlsf m).1 ≠ 0 ↔ nelem ≠ 0 ∧ elemSize ≠ 0 ∧
      ∃ b ∈ blocks, b.free = true ∧ blockSize (nelem.toNat * elemSize.toNat % 2 ^ 32) ≤ b.size.toNat := by
  have product : (nelem * elemSize).toNat = nelem.toNat * elemSize.toNat % 2 ^ 32 := BitVec.toNat_mul _ _
  have zero (x : Word) : x ≤ 0 ↔ x = 0 := by
    rw [BitVec.le_def, ← BitVec.toNat_inj]
    exact Nat.le_zero
  rw [← product] at bound ⊢
  rw [← mallocEx_gives_iff heap bound]
  simp only [callocEx, zero]
  by_cases none : nelem = 0 ∨ elemSize = 0
  · rw [if_pos none]
    exact iff_of_false (not_not.mpr rfl) fun given => none.elim given.1 given.2.1
  · rw [if_neg none]
    obtain ⟨some, some'⟩ := not_or.mp none
    by_cases refused : (mallocEx (nelem * elemSize) tlsf m).1 = 0
    · rw [if_pos refused]
      exact iff_of_false (not_not.mpr rfl) fun given => given.2.2 refused
    · rw [if_neg refused]
      exact iff_of_true refused ⟨some, some', refused⟩

theorem samplePool_calloc_wraps : ∃ m blocks lists, Heap 0x1000 (poolEnd 0x1000 0x1800000) m blocks lists ∧
    (callocEx 0x10000 0x10001 0x1000 m).1 ≠ 0 := by
  obtain ⟨m, b, z, lists, heap, free, large⟩ := samplePool_whole
  have need : blockSize ((0x10000 : Word).toNat * (0x10001 : Word).toNat % 2 ^ 32) = 0x10000 := by decide +kernel
  refine ⟨m, _, lists, heap, (callocEx_gives_iff heap (by decide)).mpr ⟨by decide, by decide, b, ?_, free, ?_⟩⟩
  · exact List.mem_cons_of_mem _ List.mem_cons_self
  · rw [need]
    omega

theorem roundup_wraps (huge : 2 ^ 32 - 7 ≤ size.toNat) :
    (if size < MIN_BLOCK_SIZE then MIN_BLOCK_SIZE else roundupSize size) = 0 := by
  have small := size.isLt
  have large : ¬ size < MIN_BLOCK_SIZE := by
    rw [BitVec.lt_def]
    change ¬ size.toNat < 8
    omega
  have sum : (size + MEM_ALIGN).toNat = size.toNat + 7 - 2 ^ 32 := by
    rw [BitVec.toNat_add]
    change (size.toNat + 7) % 2 ^ 32 = _
    omega
  have cleared := mask_clears (size + MEM_ALIGN) 3
  rw [sum, Nat.div_eq_of_lt (by omega), Nat.zero_mul] at cleared
  rw [if_neg large]
  exact cleared

/-- From 2^32 - 7 bytes on `ROUNDUP_SIZE` wraps round to 0, and any free block will do. -/
theorem mallocEx_wraps (heap : Heap tlsf finish m blocks lists) (huge : 2 ^ 32 - 7 ≤ size.toNat)
    (some : ∃ b ∈ blocks, b.free = true) :
    ∃ b ∈ blocks, b.free = true ∧ (mallocEx size tlsf m).1 = b.addr + 8 ∧ b.size.toNat < 2 ^ 30 := by
  obtain ⟨b, member, free⟩ := some
  have start : mappingSearch 0 = (0, Index.ofRank 0) := by decide
  rcases findSuitableBlock_finds heap.filed (show 0 < 768 by decide) with ⟨c, x, ⟨_, _, first, _⟩, found⟩ | ⟨none, _⟩
  · obtain ⟨b', member', free', rfl, _⟩ := (heap.exact c x).mp (List.mem_of_mem_head? first)
    refine ⟨b', member', free', ?_, heap.layout.size_lt member'⟩
    simp only [mallocEx, roundup_wraps huge, start, found, if_neg (heap.layout.tiled.addr_ne_zero member')]
    split <;> rfl
  · have listed := heap.listed member free
    rw [none _ (Nat.zero_le _) (heap.class_lt member)] at listed
    exact absurd listed List.not_mem_nil

theorem samplePool_wraps : ∃ m blocks lists, Heap 0x1000 (poolEnd 0x1000 0x1800000) m blocks lists ∧
    ∃ b ∈ blocks, (mallocEx 0xffffffff 0x1000 m).1 = b.addr + 8 ∧ b.size.toNat < 2 ^ 30 := by
  obtain ⟨m, b, z, lists, heap, free, _⟩ := samplePool_whole
  obtain ⟨b', member, _, result, small⟩ := mallocEx_wraps heap (show 2 ^ 32 - 7 ≤ (0xffffffff : Word).toNat by decide)
    ⟨b, List.mem_cons_of_mem _ List.mem_cons_self, free⟩
  exact ⟨m, _, lists, heap, b', member, result, small⟩

end Tlsf

end GenericBooter
