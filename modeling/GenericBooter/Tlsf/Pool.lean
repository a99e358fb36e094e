import GenericBooter.Tlsf.Calls

namespace GenericBooter

open ByteMemory TwoWay

namespace Tlsf

/-- Where the last header of the area ends that `init_memory_pool` makes of a pool. -/
def poolEnd (memPool memPoolSize : Word) : Nat := memPool.toNat + 3184 + (memPoolSize.toNat - 3180) / 8 * 8

def poolBytes (memPoolSize : Word) : Word := rounddownSize (memPoolSize - tlsfSize) - 32

def poolBlock (memPool memPoolSize : Word) : Block := usedBlock (memPool + 3200) (poolBytes memPoolSize) none

def poolSentinel (memPool memPoolSize : Word) : Block :=
  usedBlock (memPool + 3200 + 8 + poolBytes memPoolSize) 0 none

def areaBlocks (memPool memPoolSize : Word) : List Block :=
  [(areaBlock memPool).roomy, (poolBlock memPool memPoolSize).roomy, poolSentinel memPool memPoolSize]

section Area

variable {memPool memPoolSize : Word} (large : 3244 ≤ memPoolSize.toNat) (small : memPoolSize.toNat < 2 ^ 30)
  (room : poolEnd memPool memPoolSize ≤ 2 ^ 32)

include large small

theorem rounddown_toNat : (rounddownSize (memPoolSize - tlsfSize)).toNat = (memPoolSize.toNat - 3180) / 8 * 8 := by
  have less : (memPoolSize - tlsfSize).toNat = memPoolSize.toNat - 3180 :=
    BitVec.toNat_sub_of_le (BitVec.le_def.mpr (by change 3180 ≤ _; omega))
  have cleared := mask_clears (memPoolSize - tlsfSize) 3
  rw [less] at cleared
  change ((memPoolSize - tlsfSize) &&& ~~~(BitVec.ofNat 32 (2 ^ 3) - 1)).toNat = _
  rw [cleared, BitVec.toNat_ofNat]
  exact Nat.mod_eq_of_lt (by omega)

theorem poolBytes_toNat : (poolBytes memPoolSize).toNat = (memPoolSize.toNat - 3180) / 8 * 8 - 32 := by
  have down := rounddown_toNat large small
  rw [poolBytes, BitVec.toNat_sub_of_le (BitVec.le_def.mpr (by rw [down]; change 32 ≤ _; omega)), down]
  rfl

theorem poolBytes_dvd : 8 ∣ (poolBytes memPoolSize).toNat := by
  rw [poolBytes_toNat large small]
  omega

theorem pool_header :
    rounddownSize (rounddownSize (memPoolSize - tlsfSize) - 3 * BHDR_OVERHEAD - (8 &&& BLOCK_SIZE)) |||
      USED_BLOCK ||| PREV_USED = header (poolBytes memPoolSize) false false := by
  have same : rounddownSize (memPoolSize - tlsfSize) - 3 * BHDR_OVERHEAD - (8 &&& BLOCK_SIZE) = poolBytes memPoolSize :=
    sub_sub _ _ _
  rw [same, rounddownSize, show MEM_ALIGN = 7 from rfl, low_bits (poolBytes_dvd large small)]
  exact BitVec.or_assoc _ _ _

include room

theorem pool_addresses :
    (memPool + 3184).toNat = memPool.toNat + 3184 ∧ (memPool + 3200).toNat = memPool.toNat + 3200 ∧
      (memPool + 3200 + 8 + poolBytes memPoolSize).toNat + 8 = poolEnd memPool memPoolSize := by
  have bytes := poolBytes_toNat large small
  unfold poolEnd at room ⊢
  have first : (memPool + 3184).toNat = memPool.toNat + 3184 := by
    rw [BitVec.toNat_add]
    exact Nat.mod_eq_of_lt (by change memPool.toNat + 3184 < 2 ^ 32; omega)
  have second : (memPool + 3200).toNat = memPool.toNat + 3200 := by
    rw [BitVec.toNat_add]
    exact Nat.mod_eq_of_lt (by change memPool.toNat + 3200 < 2 ^ 32; omega)
  have third : (memPool + 3200 + 8).toNat = memPool.toNat + 3208 := by
    rw [BitVec.toNat_add, second]
    exact Nat.mod_eq_of_lt (by change memPool.toNat + 3200 + 8 < 2 ^ 32; omega)
  refine ⟨first, second, ?_⟩
  rw [BitVec.toNat_add, third, bytes, Nat.mod_eq_of_lt (by omega)]
  omega

theorem pool_layout : Layout memPool (poolEnd memPool memPoolSize)
    [areaBlock memPool, poolBlock memPool memPoolSize, poolSentinel memPool memPoolSize] := by
  have bytes := poolBytes_toNat large small
  obtain ⟨first, second, third⟩ := pool_addresses large small room
  have bound := room
  unfold poolEnd at bound
  refine ⟨by omega, room, by unfold poolEnd; omega, ?_, rfl, _, rfl, rfl, rfl, third⟩
  rw [List.isChain_cons_cons, List.isChain_cons_cons]
  refine ⟨⟨⟨?_, ?_⟩, ?_, rfl, fun both => absurd both.1 Bool.false_ne_true⟩, ⟨⟨?_, ?_⟩, ?_, rfl, fun both => absurd both.1 Bool.false_ne_true⟩,
    List.isChain_singleton _⟩
  · exact Nat.le_refl 8
  · change (memPool + 3184).toNat + 8 + 8 = (memPool + 3200).toNat
    omega
  · exact Nat.dvd_refl 8
  · change 8 ≤ (poolBytes memPoolSize).toNat
    omega
  · change (memPool + 3200).toNat + 8 + (poolBytes memPoolSize).toNat =
      (memPool + 3200 + 8 + poolBytes memPoolSize).toNat
    unfold poolEnd at third
    omega
  · change 8 ∣ (poolBytes memPoolSize).toNat
    omega

end Area

theorem load32_fill (m : Memory) {base address : Word} {length : Nat} (above : base.toNat ≤ address.toNat)
    (below : address.toNat + 4 ≤ base.toNat + length) (room : base.toNat + length ≤ 2 ^ 32) :
    load32 (fill m base length 0) address = 0 := by
  have zero (i : Nat) (less : i < 4) : fill m base length 0 (address + BitVec.ofNat 32 i) = 0 := by
    have place : (address + BitVec.ofNat 32 i).toNat = address.toNat + i := by
      rw [BitVec.toNat_add, BitVec.toNat_ofNat, Nat.mod_eq_of_lt (a := i) (by omega)]
      exact Nat.mod_eq_of_lt (by omega)
    refine if_pos ((covers_iff base length _ room).mpr ?_)
    rw [place, Set.mem_Ico]
    omega
  have first := zero 0 (by decide)
  rw [BitVec.add_zero] at first
  rw [load32, first, show fill m base length 0 (address + 1) = 0 from zero 1 (by decide),
    show fill m base length 0 (address + 2) = 0 from zero 2 (by decide),
    show fill m base length 0 (address + 3) = 0 from zero 3 (by decide)]
  rfl

theorem filed_empty {tlsf : Word} {m : Memory} (cleared : ∀ i < 795, 2 ≤ i → Cell.get tlsf m (.control i) = 0) :
    Filed tlsf m (fun _ => []) where
  threaded := fun c bound => cleared (27 + c) (by omega) (by omega)
  nodup := fun _ _ => List.nodup_nil
  disjoint := fun _ _ _ _ _ => List.disjoint_nil_left _
  rows := by
    intro c bound
    rw [cleared (3 + c / 32) (by omega) (by omega)]
    exact zero_bit _
  columns := by
    intro fl small
    rw [cleared 2 (by decide) (Nat.le_refl 2), show (0 : Word).getLsbD fl = false from zero_bit fl]
    refine (decide_eq_false ?_).symm
    rintro ⟨row, some⟩
    exact some (cleared (3 + fl) (by omega) (by omega))

theorem store_control {memPool : Word} {i : Nat} (address : Word) (place : address = memPool + BitVec.ofNat 32 (4 * i))
    (value : Word) (m : Memory) : store32 address value m = Cell.put memPool (.control i) value m := by
  rw [Cell.put, Cell.place, ofNat_toNat_add, place]

theorem area_middle (memPool : Word) :
    getNextBlock (Bhdr.buffer (memPool + 3184)) (8 &&& BLOCK_SIZE) = memPool + 3200 := by
  rw [getNextBlock, Bhdr.buffer, add_assoc, add_assoc]
  rfl

theorem Heap.put_areaHead {tlsf : Word} {finish : Nat} {m : Memory} {blocks : List Block} {lists : Nat → List Word}
    (heap : Heap tlsf finish m blocks lists) (value : Word) :
    Heap tlsf finish (Cell.put tlsf (.control 1) value m) blocks lists ∧
      ChangesOnly (Set.Ico tlsf.toNat finish) m (Cell.put tlsf (.control 1) value m) := by
  have placed := heap.placed
  have first : (Cell.control 1).Valid (roomOf blocks) := control_valid (by decide)
  have same {x : Word} {k : Fin 4} (valid : (Cell.field x k).Valid (roomOf blocks)) :
      Cell.get tlsf (Cell.put tlsf (.control 1) value m) (.field x k) = Cell.get tlsf m (.field x k) := by
    rw [placed.get_put first valid, if_neg (by simp only [reduceCtorEq, not_false_eq_true])]
  constructor
  · refine ⟨heap.layout, fun x member => (heap.headed x member).keeps fun k small => ?_, heap.filed.congr ?_ ?_, heap.exact⟩
    · exact same (field_valid_two (heap.layout.tiled.two_le member) small)
    · intro i bound above
      rw [placed.get_put first (control_valid bound), if_neg (by rintro ⟨⟩; omega)]
    · intro c bound x member
      have four := heap.members c bound x member
      rw [next_cell tlsf, prev_cell tlsf, next_cell tlsf, prev_cell tlsf, same (field_valid four 3),
        same (field_valid four 2)]
      exact ⟨rfl, rfl⟩
  · refine (placed.put_changesOnly first value m).mono fun n inside => ?_
    have within : n ∈ claimed tlsf finish [] :=
      owned_subset heap.layout heap.layout.tiled (fun _ none => absurd none List.not_mem_nil) inside
    exact ⟨within.1, within.2.1⟩

section Process

variable {memPool memPoolSize : Word} {m : Memory} (large : 3244 ≤ memPoolSize.toNat)
  (small : memPoolSize.toNat < 2 ^ 30) (room : poolEnd memPool memPoolSize ≤ 2 ^ 32)

include large small room

theorem area_tiled : Tiled memPool (poolEnd memPool memPoolSize) (areaBlocks memPool memPoolSize) := by
  have tiled := (pool_layout large small room).tiled
  obtain ⟨tiles, start, ends⟩ := tiled
  rw [List.isChain_cons_cons, List.isChain_cons_cons] at tiles
  refine ⟨List.isChain_cons_cons.mpr ⟨tiles.1, List.isChain_cons_cons.mpr ⟨tiles.2.1, List.isChain_singleton _⟩⟩, ?_, ?_⟩
  · intro x first
    obtain rfl := Option.some.inj first
    exact start (areaBlock memPool) rfl
  · intro x last
    exact ends x last

theorem area_owned : Cell.owned memPool (roomOf (areaBlocks memPool memPoolSize)) ⊆
    Set.Ico memPool.toNat (poolEnd memPool memPoolSize) := by
  intro n inside
  have within : n ∈ claimed memPool (poolEnd memPool memPoolSize) [] :=
    owned_subset (pool_layout large small room) (area_tiled large small room) (fun _ none => absurd none List.not_mem_nil) inside
  exact ⟨within.1, within.2.1⟩

/-- `process_area` leaves the middle block in use, and an end that already says that the block in front is free. -/
theorem processArea_opened (cleared : ∀ i < 795, 2 ≤ i → Cell.get memPool m (.control i) = 0) :
    let area := processArea (memPool + 3184) (rounddownSize (memPoolSize - tlsfSize)) m
    area.1 = memPool + 3184 ∧
      Opened memPool (poolEnd memPool memPoolSize) area.2 [areaBlock memPool] (poolBlock memPool memPoolSize)
        (poolSentinel memPool memPoolSize) [] (fun _ => []) ∧
      Cell.get memPool area.2 (.field (memPool + 3184) 1) = 8 ∧
      Cell.get memPool area.2 (.field (memPool + 3200) 1) = header (poolBytes memPoolSize) false false ∧
      ChangesOnly (Set.Ico memPool.toNat (poolEnd memPool memPoolSize)) m area.2 := by
  have layout := pool_layout large small room
  have tiled := area_tiled large small room
  have placed := layout.placed tiled
  have four (k : Fin 4) : (Cell.field (memPool + 3184) k).Valid (roomOf (areaBlocks memPool memPoolSize)) := field_valid
    (roomOf_eq (b := (areaBlock memPool).roomy) tiled List.mem_cons_self) k
  have four' (k : Fin 4) : (Cell.field (memPool + 3200) k).Valid (roomOf (areaBlocks memPool memPoolSize)) := field_valid
    (roomOf_eq (b := (poolBlock memPool memPoolSize).roomy) tiled (List.mem_cons_of_mem _ List.mem_cons_self)) k
  have two {k : Fin 4} (less : k < 2) : (Cell.field (memPool + 3200 + 8 + poolBytes memPoolSize) k).Valid (roomOf (areaBlocks memPool memPoolSize)) :=
    field_valid_two (tiled.two_le (b := poolSentinel memPool memPoolSize)
      (List.mem_cons_of_mem _ (List.mem_cons_of_mem _ List.mem_cons_self))) less
  have order := tiled.pairwise
  simp only [areaBlocks, List.pairwise_cons, List.forall_mem_cons] at order
  obtain ⟨⟨first, second, _⟩, ⟨third, _⟩, _⟩ := order
  have apart : memPool + 3184 ≠ memPool + 3200 := first.ne
  have apart' : memPool + 3184 ≠ memPool + 3200 + 8 + poolBytes memPoolSize := second.ne
  have apart'' : memPool + 3200 ≠ memPool + 3200 + 8 + poolBytes memPoolSize := third.ne
  have start : (if areaInfoSize < MIN_BLOCK_SIZE then MIN_BLOCK_SIZE
      else roundupSize areaInfoSize ||| USED_BLOCK ||| PREV_USED) = 8 := by decide
  have last : getNextBlock (Bhdr.buffer (memPool + 3200)) (header (poolBytes memPoolSize) false false &&& BLOCK_SIZE) =
      memPool + 3200 + 8 + poolBytes memPoolSize := by
    rw [header_size (poolBytes_dvd large small)]
    rfl
  have info : AreaInfo.setNext (Bhdr.buffer (memPool + 3184)) 0 = Bhdr.setNext (memPool + 3184) 0 := by
    funext m
    rw [AreaInfo.setNext, Bhdr.setNext, Bhdr.buffer, add_assoc]
    rfl
  have info' (value : Word) : AreaInfo.setEnd (Bhdr.buffer (memPool + 3184)) value =
      Bhdr.setPrev (memPool + 3184) value := rfl
  simp only [processArea, start, info, info', setSize_cell memPool, setPrevHdr_cell memPool, setPrev_cell memPool,
    setNext_cell memPool, size_cell memPool, placed.get_put (four 1) (four 1), if_true, area_middle,
    pool_header large small, placed.get_put (four' 1) (four' 1), placed.get_put (four' 2) (four' 1),
    placed.get_put (four' 3) (four' 1), Cell.field.injEq, Fin.reduceEq, and_false, if_false, last]
  set m₁ := Cell.put memPool (.field (memPool + 3200) 1) (header (poolBytes memPoolSize) false false)
    (Cell.put memPool (.field (memPool + 3184) 1) 8 m)
  set m₂ := Cell.put memPool (.field (memPool + 3200) 2) 0 (Cell.put memPool (.field (memPool + 3200) 3) 0 m₁)
  set m₃ := Cell.put memPool (.field (memPool + 3200 + 8 + poolBytes memPoolSize) 1) (0 ||| USED_BLOCK ||| PREV_FREE)
    (Cell.put memPool (.field (memPool + 3200 + 8 + poolBytes memPoolSize) 0) (memPool + 3200) m₂)
  set m₄ := Cell.put memPool (.field (memPool + 3184) 2) (memPool + 3200 + 8 + poolBytes memPoolSize)
    (Cell.put memPool (.field (memPool + 3184) 3) 0 m₃)
  have words {cell : Cell} (valid : cell.Valid (roomOf (areaBlocks memPool memPoolSize))) (notLink : ∀ x k, cell = .field x k → k = 1) :
      Cell.get memPool m₄ cell =
        if cell = .field (memPool + 3200 + 8 + poolBytes memPoolSize) 1 then header 0 false true
        else if cell = .field (memPool + 3200) 1 then header (poolBytes memPoolSize) false false
        else if cell = .field (memPool + 3184) 1 then 8 else Cell.get memPool m cell := by
    have links {x : Word} {k : Fin 4} (other : k ≠ 1) : ¬ cell = .field x k := fun same => other (notLink x k same)
    have none {x : Word} : ¬ cell = .field x 0 := links (by decide)
    have none' {x : Word} : ¬ cell = .field x 2 := links (by decide)
    have none'' {x : Word} : ¬ cell = .field x 3 := links (by decide)
    rw [placed.get_put (four 2) valid, placed.get_put (four 3) valid, placed.get_put (two (by decide)) valid,
      placed.get_put (two (by decide)) valid, placed.get_put (four' 2) valid, placed.get_put (four' 3) valid,
      placed.get_put (four' 1) valid, placed.get_put (four 1) valid]
    simp only [none, none', none'', if_false]
    rfl
  have size {x : Word} (valid : (Cell.field x 1).Valid (roomOf (areaBlocks memPool memPoolSize))) := words valid fun _ _ same => (Cell.field.inj same).2.symm
  have first := size (four 1)
  have second := size (four' 1)
  have third := size (two (by decide))
  simp only [Cell.field.injEq, apart, apart', apart'', and_true, if_true, if_false] at first second third
  refine ⟨trivial, ⟨layout, List.cons_ne_nil _ _, rfl, rfl, ?_, ⟨_, false, poolBytes_dvd large small, second⟩,
    (fun _ link => absurd link.symm (Option.some_ne_none _)), ⟨true, third⟩, ?_, ?_⟩, first, second, ?_⟩
  · intro x member
    obtain rfl := List.mem_singleton.mp member
    exact ⟨first.trans (by decide : (8 : Word) = header 8 false false), fun _ link => absurd link.symm (Option.some_ne_none _)⟩
  · refine filed_empty fun i bound above => ?_
    rw [words (control_valid bound) fun _ _ same => Cell.noConfusion same]
    simp only [reduceCtorEq, if_false]
    exact cleared i bound above
  · intro c x
    refine iff_of_false List.not_mem_nil ?_
    rintro ⟨y, member, free, _⟩
    obtain rfl := List.mem_singleton.mp member
    cases free
  · have put {cell : Cell} (valid : cell.Valid (roomOf (areaBlocks memPool memPoolSize))) (value : Word) (m : Memory) := placed.put_changesOnly valid value m
    have changes := ((put (four 1) 8 m).trans (put (four' 1) _ _)).trans
      ((put (four' 3) 0 m₁).trans (put (four' 2) 0 _))
    have changes' := ((put (two (by decide)) _ m₂).trans (put (two (by decide)) _ _)).trans
      ((put (four 3) 0 m₃).trans (put (four 2) (memPool + 3200 + 8 + poolBytes memPoolSize) _))
    exact (changes.trans changes').mono (area_owned large small room)

theorem initMemoryPool_serves {s : Allocator} (nonnull : memPool ≠ 0) (aligned : memPool &&& PTR_MASK = 0)
    (fresh : signature s.memory memPool ≠ TLSF_SIGNATURE) :
    ∃ result, initMemoryPool memPoolSize memPool s = .ok result ∧ result.2.mp = memPool ∧
      Serves memPool (poolEnd memPool memPoolSize) result.2.memory [] ∧
      ChangesOnly (Set.Ico memPool.toNat (poolEnd memPool memPoolSize)) s.memory result.2.memory := by
  have sized : ¬ (memPool = 0 ∨ memPoolSize = 0 ∨ memPoolSize < tlsfSize + BHDR_OVERHEAD * 8) := by
    rintro (zero | zero | short)
    · exact nonnull zero
    · rw [zero] at large
      exact absurd large (by decide)
    · have less : memPoolSize.toNat < 3244 := BitVec.lt_def.mp short
      omega
  have layout := pool_layout large small room
  have placed := layout.placed (area_tiled large small room)
  obtain ⟨_, _, third⟩ := pool_addresses large small room
  have owned := area_owned large small room
  have beyond : memPool.toNat + 3184 ≤ poolEnd memPool memPoolSize := Nat.le_add_right _ _
  have filled : ChangesOnly (Set.Ico memPool.toNat (poolEnd memPool memPoolSize)) s.memory
      (fill s.memory memPool tlsfSize.toNat 0) := by
    refine (fill_changesOnly s.memory memPool tlsfSize.toNat 0 ?_).mono fun n inside => ?_
    · change memPool.toNat + 3180 ≤ 2 ^ 32
      omega
    · have less : n < memPool.toNat + 3180 := inside.2
      exact ⟨inside.1, by omega⟩
  have signed := store_control (i := 0) memPool (BitVec.add_zero memPool).symm TLSF_SIGNATURE
    (fill s.memory memPool tlsfSize.toNat 0)
  have signing := (placed.put_changesOnly (control_valid (i := 0) (by decide)) TLSF_SIGNATURE
    (fill s.memory memPool tlsfSize.toNat 0)).mono owned
  have cleared : ∀ i < 795, 2 ≤ i → Cell.get memPool
      (Cell.put memPool (.control 0) TLSF_SIGNATURE (fill s.memory memPool tlsfSize.toNat 0)) (.control i) = 0 := by
    intro i bound above
    rw [placed.get_put (control_valid (by decide)) (control_valid bound), if_neg (by rintro ⟨⟩; omega)]
    have place := placed.address_toNat (control_valid bound)
    simp only [Cell.place] at place
    refine load32_fill s.memory ?_ ?_ ?_
    · simp only [Cell.place, place]
      omega
    · simp only [Cell.place, place]
      change _ ≤ memPool.toNat + 3180
      omega
    · change memPool.toNat + 3180 ≤ 2 ^ 32
      omega
  have start : getNextBlock memPool (roundupSize tlsfSize) = memPool + 3184 := rfl
  obtain ⟨first, opened, sized', headed, changes⟩ := processArea_opened large small room cleared
  simp only [initMemoryPool, if_neg sized, if_neg (not_not.mpr aligned), if_neg fresh, signed, start, first,
    size_cell memPool, sized', area_middle]
  set m₂ := (processArea (memPool + 3184) (rounddownSize (memPoolSize - tlsfSize))
    (Cell.put memPool (.control 0) TLSF_SIGNATURE (fill s.memory memPool tlsfSize.toNat 0))).2
  obtain ⟨⟨blocks, lists, heap, rest⟩, changes'⟩ := freeEx_opened opened headed
  change Heap _ _ (freeEx (Bhdr.buffer (memPool + 3200)) memPool m₂) _ _ at heap
  change ChangesOnly _ m₂ (freeEx (Bhdr.buffer (memPool + 3200)) memPool m₂) at changes'
  rw [store_control (i := 1) (memPool + 4) rfl]
  obtain ⟨heap', changes''⟩ := heap.put_areaHead (Bhdr.buffer (memPool + 3184))
  refine ⟨_, rfl, rfl, ⟨blocks, lists, heap', ?_⟩, ?_⟩
  · have place : memPool + 3200 + 8 + poolBytes memPoolSize = BitVec.ofNat 32 (poolEnd memPool memPoolSize - 8) := by
      rw [← third, Nat.add_sub_cancel, BitVec.ofNat_toNat, BitVec.setWidth_eq]
    rw [rest, ← place]
    rfl
  · refine ((filled.trans signing).trans changes).trans (ChangesOnly.trans ?_ changes'')
    exact changes'.mono fun n inside => ⟨inside.1, inside.2.1⟩

end Process

def zeroed : Allocator := ⟨0, fun _ => 0⟩

theorem zeroed_fresh (start : Word) : signature zeroed.memory start ≠ TLSF_SIGNATURE := by
  change joinWord 0 0 0 0 ≠ _
  decide

theorem samplePool : ∃ m, Serves 0x1000 (poolEnd 0x1000 0x1800000) m [] := by
  have large : 3244 ≤ (0x1800000 : Word).toNat := by decide
  have room : poolEnd 0x1000 0x1800000 ≤ 2 ^ 32 := by decide
  obtain ⟨result, _, _, serves, _⟩ := initMemoryPool_serves large (by decide) room (by decide) (by decide) (zeroed_fresh _)
  exact ⟨result.2.memory, serves⟩

theorem Serves.last_byte {tlsf : Word} {finish : Nat} {m : Memory} {live : List (Word × Word)}
    (serves : Serves tlsf finish m live) : m (BitVec.ofNat 32 (finish - 1)) = 0 := by
  obtain ⟨blocks, lists, heap, _⟩ := serves
  obtain ⟨z, last, empty, used, top⟩ := heap.layout.last
  have headed := (heap.headed z (List.mem_of_getLast? last)).1
  have place : z.addr + 4 + 3 = BitVec.ofNat 32 (finish - 1) := by
    have start : z.addr = BitVec.ofNat 32 z.addr.toNat := by rw [BitVec.ofNat_toNat, BitVec.setWidth_eq]
    rw [start, ← top]
    exact (add_ofNat _ _ _).trans (BitVec.ofNat_add _ 7).symm
  rw [← size_cell tlsf, Bhdr.size, load32, place, empty, used] at headed
  have small : (Tlsf.header 0 false z.prev.isSome).toNat < 2 ^ 24 := by
    cases z.prev.isSome <;> decide
  rw [← headed, joinWord, BitVec.toNat_ofNat, Nat.mod_eq_of_lt (by omega)] at small
  exact BitVec.eq_of_toNat_eq (by change _ = 0; omega)

/-- `init_memory_pool` keeps to the pool just when the size leaves less than 4 over a multiple of 8: `sizeof(tlsf_t)`
    is no multiple of 8, and is rounded up for the place of the area but not for its size. -/
theorem initMemoryPool_inside_iff {memPool memPoolSize : Word} (large : 3244 ≤ memPoolSize.toNat)
    (small : memPoolSize.toNat < 2 ^ 30) (room : poolEnd memPool memPoolSize ≤ 2 ^ 32) (nonnull : memPool ≠ 0)
    (aligned : memPool &&& PTR_MASK = 0) :
    (∀ s result, signature s.memory memPool ≠ TLSF_SIGNATURE → initMemoryPool memPoolSize memPool s = .ok result →
      ChangesOnly (Set.Ico memPool.toNat (memPool.toNat + memPoolSize.toNat)) s.memory result.2.memory) ↔
      memPoolSize.toNat % 8 < 4 := by
  have finish : poolEnd memPool memPoolSize = memPool.toNat + 3184 + (memPoolSize.toNat - 3180) / 8 * 8 := rfl
  constructor
  · intro inside
    by_contra larger
    have fresh : signature (fun _ => 255) memPool ≠ TLSF_SIGNATURE := by
      change joinWord 255 255 255 255 ≠ _
      decide
    obtain ⟨result, ran, _, serves, _⟩ := initMemoryPool_serves (s := ⟨0, fun _ => 255⟩) large small room nonnull aligned fresh
    have place : (BitVec.ofNat 32 (poolEnd memPool memPoolSize - 1) : Word).toNat = poolEnd memPool memPoolSize - 1 := by
      rw [BitVec.toNat_ofNat]
      exact Nat.mod_eq_of_lt (by omega)
    have kept := inside ⟨0, fun _ => 255⟩ result fresh ran (BitVec.ofNat 32 (poolEnd memPool memPoolSize - 1)) (by
      rw [place, Set.mem_Ico]
      omega)
    rw [serves.last_byte] at kept
    exact absurd kept (by change ¬ (0 : Byte) = 255; decide)
  · intro fits s result fresh ran
    obtain ⟨result', ran', _, _, changes⟩ := initMemoryPool_serves large small room nonnull aligned fresh
    obtain rfl := Except.ok.inj (ran.symm.trans ran')
    refine changes.mono fun n inside => ⟨inside.1, ?_⟩
    have below := inside.2
    omega

theorem oddPool_overruns : ¬ ∀ s result, signature s.memory 0x1000 ≠ TLSF_SIGNATURE →
    initMemoryPool 0x10004 0x1000 s = .ok result →
    ChangesOnly (Set.Ico 0x1000 (0x1000 + 0x10004)) s.memory result.2.memory := by
  have large : 3244 ≤ (0x10004 : Word).toNat := by decide
  have room : poolEnd 0x1000 0x10004 ≤ 2 ^ 32 := by decide
  exact (initMemoryPool_inside_iff large (by decide) room (by decide) (by decide)).not.mpr (by decide)

end Tlsf

end GenericBooter
