import GenericBooter.Tlsf.Carving

namespace GenericBooter

open ByteMemory TwoWay

namespace Tlsf

variable {tlsf : Word} {finish : Nat} {m m' : Memory} {blocks front back : List Block} {lists : Nat → List Word}
  {b n : Block}

theorem Tiled.others (tiled : Tiled tlsf finish (front ++ b :: back)) {x : Block} (member : x ∈ front ++ back) :
    x.addr ≠ b.addr := by
  have order := tiled.pairwise
  simp only [List.pairwise_append, List.pairwise_cons, List.forall_mem_cons] at order
  rcases List.mem_append.mp member with inFront | inBack
  · exact (order.2.2 x inFront).1.ne
  · exact (order.2.1.1 x inBack).ne.symm

theorem Layout.front_ne_nil (layout : Layout tlsf finish (front ++ b :: back)) (free : b.free = true) : front ≠ [] := by
  rintro rfl
  obtain rfl : b = areaBlock tlsf := Option.some.inj layout.first
  cases free

theorem Layout.free_neighbours (layout : Layout tlsf finish (front ++ b :: back)) (free : b.free = true) :
    b.prev = none ∧ ∃ n rest, back = n :: rest ∧ n.free = false ∧ n.prev = some b.addr := by
  constructor
  · rcases List.eq_nil_or_concat' front with rfl | ⟨rest, a, rfl⟩
    · exact absurd rfl (layout.front_ne_nil free)
    · have chain := layout.follows
      rw [List.append_assoc, List.singleton_append, List.isChain_append_cons_cons] at chain
      obtain ⟨_, _, link, coalesced⟩ := chain.2.1
      have used : a.free = false := Bool.eq_false_of_not_eq_true fun freeToo => coalesced ⟨freeToo, free⟩
      rw [link, used]
      rfl
  · cases back with
    | nil =>
      obtain ⟨z, last, _, used, _⟩ := layout.last
      rw [List.getLast?_concat] at last
      obtain rfl := Option.some.inj last
      exact absurd (used.symm.trans free) Bool.false_ne_true
    | cons n rest =>
      obtain ⟨_, _, link, coalesced⟩ := (List.isChain_append_cons_cons.mp layout.follows).2.1
      rw [free] at link
      exact ⟨n, rest, rfl, Bool.eq_false_of_not_eq_true fun freeToo => coalesced ⟨free, freeToo⟩, link⟩

theorem take_layout (layout : Layout tlsf finish (front ++ b :: n :: back)) (free : b.free = true) :
    Layout tlsf finish (front ++ usedBlock b.addr b.size b.prev :: n.behind none :: back) := by
  have chain := (List.isChain_append.mp layout.follows).2.1
  rw [List.isChain_cons_cons] at chain
  obtain ⟨⟨tiles, aligned, _, _⟩, behind⟩ := chain
  refine layout.replace (layout.front_ne_nil free) rfl rfl (fun used => absurd used Bool.false_ne_true) ?_
    (endsAlike_cons (alike_behind n _))
  refine List.isChain_cons_cons.mpr ⟨⟨⟨tiles.1, tiles.2⟩, aligned, rfl, ?_⟩, chain_back behind (alike_behind n _)⟩
  rintro ⟨used, _⟩
  cases used

theorem Heap.members (heap : Heap tlsf finish m blocks lists) : Members (roomOf blocks) lists :=
  heap.exact.members heap.layout.tiled fun x member free => ⟨x, member, free, rfl⟩

theorem Heap.placed (heap : Heap tlsf finish m blocks lists) : Placed tlsf (roomOf blocks) :=
  heap.layout.placed heap.layout.tiled

theorem Heap.class_lt (heap : Heap tlsf finish m blocks lists) (member : b ∈ blocks) : classOf b.size.toNat < 768 :=
  classOf_lt.mpr (heap.layout.size_lt member)

theorem Heap.listed (heap : Heap tlsf finish m blocks lists) (member : b ∈ blocks) (free : b.free = true) :
    b.addr ∈ lists (classOf b.size.toNat) := (heap.exact _ _).mpr ⟨b, member, free, rfl, rfl⟩

theorem Heap.four (heap : Heap tlsf finish m blocks lists) (member : b ∈ blocks) (free : b.free = true) :
    roomOf blocks b.addr = 4 := by
  rw [roomOf_eq heap.layout.tiled member, Block.words, free]
  rfl

theorem Heap.opened (heap : Heap tlsf finish m (front ++ b :: n :: back) lists) (free : b.free = true)
    (taken : ∀ {cell : Cell}, cell.Valid (roomOf (front ++ b :: n :: back)) →
      Cell.get tlsf m' cell = takenOut tlsf m b.addr (classOf b.size.toNat) cell) :
    Opened tlsf finish m' front (usedBlock b.addr b.size b.prev) (n.behind none) back
      (Function.update lists (classOf b.size.toNat) ((lists (classOf b.size.toNat)).erase b.addr)) := by
  have inside : b ∈ front ++ b :: n :: back := List.mem_append_right _ List.mem_cons_self
  have inside' : n ∈ front ++ b :: n :: back := List.mem_append_right _ (List.mem_cons_of_mem _ List.mem_cons_self)
  have bound := heap.class_lt inside
  have listed := heap.listed inside free
  obtain ⟨n', rest, split, used, link⟩ := (heap.layout.free_neighbours free).2
  obtain ⟨rfl, rfl⟩ := List.cons.inj split
  have headers {x : Block} (member : x ∈ front ++ b :: n :: back) : Headed tlsf m' x := by
    refine (heap.headed x member).keeps fun k small => ?_
    rw [taken (field_valid_two (heap.layout.tiled.two_le member) small), takenOut_header small]
  constructor
  · exact take_layout heap.layout free
  · exact heap.layout.front_ne_nil free
  · rfl
  · exact used
  · intro x member
    apply headers
    rcases List.mem_append.mp member with inFront | inBack
    · exact List.mem_append_left _ inFront
    · exact List.mem_append_right _ (List.mem_cons_of_mem _ (List.mem_cons_of_mem _ inBack))
  · exact ⟨b.size, b.free, heap.layout.aligned inside, (headers inside).1⟩
  · exact (headers inside).2
  · refine ⟨n.prev.isSome, ?_⟩
    rw [← used]
    exact (headers inside').1
  · exact extract_filed heap.filed heap.members bound listed taken
  · have erased := exact_erase heap.exact (heap.filed.nodup _ bound) rfl fun x member => heap.layout.tiled.others member
    exact (exact_used used).mp erased

def payload (size : Nat) : Nat := if size < 8 then 8 else (size + 7) / 8 * 8

theorem payload_facts (size : Nat) : 8 ∣ payload size ∧ 8 ≤ payload size ∧ size ≤ payload size := by
  unfold payload
  split <;> omega

theorem payload_le {size bound : Nat} (multiple : 8 ∣ bound) (least : 8 ≤ bound) (le : size ≤ bound) :
    payload size ≤ bound := by
  unfold payload
  split <;> omega

theorem adjusted_toNat (size : Word) (bound : size.toNat ≤ 2 ^ 32 - 8) :
    (if size < MIN_BLOCK_SIZE then MIN_BLOCK_SIZE else roundupSize size).toNat = payload size.toNat := by
  unfold payload
  by_cases small : size.toNat < 8
  · rw [if_pos small, if_pos (BitVec.lt_def.mpr small)]
    rfl
  · rw [if_neg small, if_neg fun less => small (BitVec.lt_def.mp less)]
    have sum : (size + MEM_ALIGN).toNat = size.toNat + 7 := by
      rw [BitVec.toNat_add]
      exact Nat.mod_eq_of_lt (by change size.toNat + 7 < 2 ^ 32; omega)
    have cleared := mask_clears (size + MEM_ALIGN) 3
    rw [sum] at cleared
    change ((size + MEM_ALIGN) &&& ~~~(BitVec.ofNat 32 (2 ^ 3) - 1)).toNat = _
    rw [cleared, BitVec.toNat_ofNat]
    exact Nat.mod_eq_of_lt (by omega)

/-- The least block that `malloc_ex` takes for `size` bytes. -/
def blockSize (size : Nat) : Nat := searchSize (payload size)

theorem blockSize_facts (size : Nat) : 8 ∣ blockSize size ∧ 8 ≤ blockSize size ∧ size ≤ blockSize size := by
  obtain ⟨aligned, least, above⟩ := payload_facts size
  have up := le_searchSize (payload size)
  exact ⟨searchSize_dvd aligned, Nat.le_trans least up, Nat.le_trans above up⟩

theorem search_eq (size : Word) (bound : size.toNat ≤ 0xfc000000) :
    mappingSearch (if size < MIN_BLOCK_SIZE then MIN_BLOCK_SIZE else roundupSize size) =
      (BitVec.ofNat 32 (blockSize size.toNat), Index.ofRank (classOf (blockSize size.toNat))) ∧
      blockSize size.toNat < 2 ^ 32 := by
  obtain ⟨aligned, least, _⟩ := payload_facts size.toNat
  have value := adjusted_toNat size (by omega)
  have small := payload_le (by decide) (by decide) bound
  have wide : Segregated.width 5 2 (payload size.toNat) ≤ 2 ^ 26 := by
    have log : Nat.log2 (payload size.toNat) < 32 := (Nat.log2_lt (by omega)).mpr (by omega)
    exact Nat.pow_le_pow_right (by decide) (by unfold Segregated.scale; omega)
  have below := Segregated.fit_lt (k := 5) (j := 2) (payload size.toNat)
  constructor
  · rw [mappingSearch_eq _ (by rw [value]; exact Dvd.dvd.trans (by decide) aligned) (by rw [value]; omega), value]
    rfl
  · unfold blockSize searchSize
    omega

def takenBlocks (front : List Block) (b n : Block) (back : List Block) (size : Nat) : List Block :=
  if size + 16 ≤ b.size.toNat then splitBlocks front b n back (BitVec.ofNat 32 size)
  else front ++ usedBlock b.addr b.size b.prev :: n.behind none :: back

section Taken

variable {m₁ : Memory} {lists₁ : Nat → List Word}

theorem take_whole
    (opened : Opened tlsf finish m₁ front (usedBlock b.addr b.size none) (n.behind none) back lists₁)
    (held : Cell.get tlsf m₁ (.field b.addr 1) = header b.size true false)
    (held' : Cell.get tlsf m₁ (.field n.addr 1) = header n.size false true) :
    Heap tlsf finish
        (Bhdr.setSize b.addr (Bhdr.size (Bhdr.setSize n.addr (Bhdr.size m₁ n.addr &&& ~~~PREV_FREE) m₁) b.addr &&&
          ~~~FREE_BLOCK) (Bhdr.setSize n.addr (Bhdr.size m₁ n.addr &&& ~~~PREV_FREE) m₁))
        (front ++ usedBlock b.addr b.size none :: n.behind none :: back) lists₁ ∧
      ChangesOnly (claimed tlsf finish (front ++ n :: back)) m₁
        (Bhdr.setSize b.addr (Bhdr.size (Bhdr.setSize n.addr (Bhdr.size m₁ n.addr &&& ~~~PREV_FREE) m₁) b.addr &&&
          ~~~FREE_BLOCK) (Bhdr.setSize n.addr (Bhdr.size m₁ n.addr &&& ~~~PREV_FREE) m₁)) := by
  have tiled := opened.layout.tiled
  have placed := opened.layout.placed tiled
  have inside : usedBlock b.addr b.size none ∈ front ++ usedBlock b.addr b.size none :: n.behind none :: back :=
    List.mem_append_right _ List.mem_cons_self
  have inside' : n.behind none ∈ front ++ usedBlock b.addr b.size none :: n.behind none :: back :=
    List.mem_append_right _ (List.mem_cons_of_mem _ List.mem_cons_self)
  have first := field_valid_two (tiled.two_le inside) (k := 1) (by decide)
  have second := field_valid_two (tiled.two_le inside') (k := 1) (by decide)
  change (Cell.field b.addr 1).Valid _ at first
  change (Cell.field n.addr 1).Valid _ at second
  have apart : b.addr ≠ n.addr := by
    have order := (List.pairwise_append.mp tiled.pairwise).2.1
    exact (List.rel_of_pairwise_cons order List.mem_cons_self).ne
  have members := opened.exact.members tiled fun x member free =>
    ⟨x, by simp only [List.mem_append, List.mem_cons] at member ⊢; tauto, free, rfl⟩
  have aligned := opened.layout.aligned inside
  have aligned' := opened.layout.aligned inside'
  change 8 ∣ b.size.toNat at aligned
  change 8 ∣ n.size.toNat at aligned'
  simp only [setSize_cell tlsf, size_cell tlsf]
  rw [held', (header_clear aligned' false true).2]
  set m₂ := Cell.put tlsf (.field n.addr 1) (header n.size false false) m₁
  have seen : Cell.get tlsf m₂ (.field b.addr 1) = header b.size true false := by
    rw [placed.get_put second first, held, if_neg fun same => apart (Cell.field.inj same).1]
  rw [seen, (header_clear aligned true false).1]
  have words (x : Word) (k : Fin 4) (valid : (Cell.field x k).Valid
      (roomOf (front ++ usedBlock b.addr b.size none :: n.behind none :: back))) :
      Cell.get tlsf (Cell.put tlsf (.field b.addr 1) (header b.size false false) m₂) (.field x k) =
        if x = b.addr ∧ k = 1 then header b.size false false
        else if x = n.addr ∧ k = 1 then header n.size false false else Cell.get tlsf m₁ (.field x k) := by
    rw [placed.get_put first valid, placed.get_put second valid]
    simp only [Cell.field.injEq]
  refine ⟨opened.close ?_ ?_, ?_⟩
  · exact (opened.filed.put_header members placed (by decide) second _).put_header members placed (by decide) first _
  · intro x member
    have at' (k : Fin 4) (small : k < 2) := words x.addr k (field_valid_two (tiled.two_le member) small)
    have other (kept : x ∈ front ++ back) (not : x.addr ≠ b.addr) (not' : x.addr ≠ n.addr) :
        Headed tlsf (Cell.put tlsf (.field b.addr 1) (header b.size false false) m₂) x := by
      refine (opened.headed x kept).keeps fun k small => ?_
      rw [at' k small]
      simp only [not, not', false_and, if_false]
    have order := tiled.pairwise
    simp only [List.pairwise_append, List.pairwise_cons, List.forall_mem_cons] at order
    simp only [List.mem_append, List.mem_cons] at member
    rcases member with inFront | rfl | rfl | inBack
    · exact other (List.mem_append_left _ inFront) (order.2.2 x inFront).1.ne (order.2.2 x inFront).2.1.ne
    · have here := at' 1 (by decide)
      simp only [usedBlock, and_self, if_true] at here
      exact ⟨here, fun p link => absurd link.symm (Option.some_ne_none _)⟩
    · have here := at' 1 (by decide)
      simp only [Block.behind, apart.symm, and_self, false_and, if_false, if_true] at here
      exact ⟨here.trans (congrArg (header n.size · false) opened.used'.symm), fun p link => absurd link.symm (Option.some_ne_none _)⟩
    · exact other (List.mem_append_right _ inBack) (order.2.1.1.2 x inBack).ne.symm (order.2.1.2.1 x inBack).ne.symm
  · refine ((placed.put_changesOnly second _ m₁).trans (placed.put_changesOnly first _ m₂)).mono ?_
    refine owned_subset opened.layout tiled fun x member => ?_
    simp only [List.mem_append, List.mem_cons] at member
    rcases member with inFront | rfl | inBack
    · exact within_of_mem (List.mem_append_left _ inFront)
    · exact fun used => ⟨_, inside', used, rfl, Nat.le_refl _⟩
    · exact within_of_mem (List.mem_append_right _ (List.mem_cons_of_mem _ (List.mem_cons_of_mem _ inBack)))

/-- The next header says already that what will be in front of it is free: `malloc_ex` does not say it again. -/
theorem take_part {size : Word}
    (opened : Opened tlsf finish m₁ front b n back lists₁)
    (held' : Cell.get tlsf m₁ (.field n.addr 1) = header n.size false true) (aligned : 8 ∣ size.toNat)
    (least : 8 ≤ size.toNat) (fits : size.toNat + 16 ≤ b.size.toNat) :
    splitTail b.addr n.addr size (b.size - size) tlsf m₁ =
      let b2 := getNextBlock (Bhdr.buffer b.addr) size
      let m₂ := Bhdr.setPrevHdr n.addr b2
        (Bhdr.setSize b2 (b.size - size - BHDR_OVERHEAD ||| FREE_BLOCK ||| PREV_USED) m₁)
      let m₃ := insertBlock b2 tlsf (mappingInsert (b.size - size - BHDR_OVERHEAD)) m₂
      Bhdr.setSize b.addr (size ||| (Bhdr.size m₃ b.addr &&& PREV_STATE)) m₃ := by
  have layout := split_layout opened aligned least fits
  have placed := layout.placed layout.tiled
  obtain ⟨_, _, apart, apart'⟩ := split_order opened aligned least fits
  obtain ⟨_, inside, inside'⟩ := split_inside front b n back size
  have first := field_valid_two (layout.tiled.two_le inside) (k := 1) (by decide)
  have second := field_valid_two (layout.tiled.two_le inside') (k := 0) (by decide)
  have third := field_valid_two (layout.tiled.two_le inside') (k := 1) (by decide)
  change (Cell.field (b.addr + 8 + size) 1).Valid _ at first
  change (Cell.field n.addr 0).Valid _ at second
  change (Cell.field n.addr 1).Valid _ at third
  have marked : ∀ m₂, m₂ = Cell.put tlsf (.field n.addr 0) (b.addr + 8 + size)
      (Cell.put tlsf (.field (b.addr + 8 + size) 1) (b.size - size - 8 ||| FREE_BLOCK ||| PREV_USED) m₁) →
      Cell.put tlsf (.field n.addr 1) (Cell.get tlsf m₂ (.field n.addr 1) ||| PREV_FREE) m₂ = m₂ := by
    rintro m₂ rfl
    have kept := placed.get_put second third (b.addr + 8 + size)
      (Cell.put tlsf (.field (b.addr + 8 + size) 1) (b.size - size - 8 ||| FREE_BLOCK ||| PREV_USED) m₁)
    rw [placed.get_put first third] at kept
    simp only [Cell.field.injEq, apart'.symm, Fin.reduceEq, false_and, and_false, if_false, held'] at kept
    rw [kept, (header_set false true).2, ← kept]
    exact store32_load32 _ _
  simp only [splitTail, setSize_cell tlsf, setPrevHdr_cell tlsf, size_cell tlsf, getNextBlock, Bhdr.buffer,
    BHDR_OVERHEAD]
  rw [marked _ rfl]

end Taken

theorem Layout.least (layout : Layout tlsf finish blocks) (member : b ∈ blocks) (free : b.free = true) :
    8 ≤ b.size.toNat := by
  obtain ⟨before, behind, rfl⟩ := List.append_of_mem member
  obtain ⟨n, rest, rfl, _⟩ := (layout.free_neighbours free).2
  exact (List.isChain_append_cons_cons.mp layout.follows).2.1.1.1

theorem Heap.tiny (heap : Heap tlsf finish m blocks lists) {c : Nat} (small : c < 2) : lists c = [] := by
  rw [List.eq_nil_iff_forall_not_mem]
  intro x member
  obtain ⟨b, inside, free, _, same⟩ := (heap.exact c x).mp member
  have least := heap.layout.least inside free
  have above : classOf 8 ≤ classOf b.size.toNat := Segregated.rank_mono least
  rw [classOf_small (by decide)] at above
  omega

theorem Heap.first (heap : Heap tlsf finish m blocks lists) {c : Nat} {x : Word} (bound : c < 768)
    (first : (lists c).head? = some x) :
    Cell.get tlsf m (.control (27 + c)) = x ∧ Cell.get tlsf m (.field x 2) = 0 ∧
      (Cell.get tlsf m (.field x 3) = 0 ∨ roomOf blocks (Cell.get tlsf m (.field x 3)) = 4) := by
  obtain ⟨rest, split⟩ := List.head?_eq_some_iff.mp first
  have chain := heap.filed.threaded c bound
  have links := heap.filed.links bound (List.mem_of_mem_head? first)
  have head := heap.filed.head bound
  rw [split] at chain head
  have at' := threaded_at_head chain
  rw [prev_cell tlsf] at at'
  rw [next_cell tlsf] at links
  exact ⟨head, at'.1, links.1.imp_right (heap.members c bound _)⟩

theorem Heap.found (heap : Heap tlsf finish m (front ++ b :: n :: back) lists) (free : b.free = true)
    (taken : ∀ {cell : Cell}, cell.Valid (roomOf (front ++ b :: n :: back)) →
      Cell.get tlsf m' cell = takenOut tlsf m b.addr (classOf b.size.toNat) cell) :
    Bhdr.size m' b.addr = header b.size true false ∧ Bhdr.size m' n.addr = header n.size false true := by
  have member : b ∈ front ++ b :: n :: back := List.mem_append_right _ List.mem_cons_self
  have member' : n ∈ front ++ b :: n :: back := List.mem_append_right _ (List.mem_cons_of_mem _ List.mem_cons_self)
  obtain ⟨alone, n', rest, split, used, link⟩ := heap.layout.free_neighbours free
  obtain ⟨rfl, rfl⟩ := List.cons.inj split
  have two := heap.layout.tiled.two_le member
  have two' := heap.layout.tiled.two_le member'
  rw [size_cell tlsf, size_cell tlsf, taken (field_valid_two two (by decide)),
    taken (field_valid_two two' (by decide)), takenOut_header (by decide), takenOut_header (by decide),
    (heap.headed b member).1, (heap.headed n member').1, free, used, alone, link]
  exact ⟨rfl, rfl⟩

theorem mallocEx_takes (heap : Heap tlsf finish m (front ++ b :: n :: back) lists) {size : Word}
    (bound : size.toNat ≤ 0xfc000000) (free : b.free = true) (fits : blockSize size.toNat ≤ b.size.toNat)
    (first : (lists (classOf b.size.toNat)).head? = some b.addr)
    (found : findSuitableBlock tlsf (Index.ofRank (classOf (blockSize size.toNat))) m =
      (b.addr, Index.ofRank (classOf b.size.toNat))) :
    (mallocEx size tlsf m).1 = b.addr + 8 ∧
      (∃ lists', Heap tlsf finish (mallocEx size tlsf m).2 (takenBlocks front b n back (blockSize size.toNat)) lists') ∧
      ChangesOnly (claimed tlsf finish (front ++ n :: back)) m (mallocEx size tlsf m).2 := by
  have member : b ∈ front ++ b :: n :: back := List.mem_append_right _ List.mem_cons_self
  have small := heap.class_lt member
  obtain ⟨head, unlinked, next⟩ := heap.first small first
  have four := heap.four member free
  have taken {cell : Cell} (valid : cell.Valid (roomOf (front ++ b :: n :: back))) :=
    extractBlockHdr_get heap.placed four small head unlinked next valid
  obtain ⟨search, word⟩ := search_eq size bound
  obtain ⟨multiple, least, _⟩ := blockSize_facts size.toNat
  set m₁ := extractBlockHdr b.addr tlsf (Index.ofRank (classOf b.size.toNat)) m with removed
  have opened := heap.opened free taken
  have alone := (heap.layout.free_neighbours free).1
  rw [alone] at opened
  obtain ⟨held, held'⟩ := heap.found free taken
  have toFirst : ChangesOnly (claimed tlsf finish (front ++ n :: back)) m m₁ :=
    (extractBlockHdr_changesOnly heap.placed four small next).mono
      (owned_subset heap.layout heap.layout.tiled fun x kept => within_of_mem (mem_around kept))
  have aligned := heap.layout.aligned member
  have place := (List.isChain_append_cons_cons.mp heap.layout.follows).2.1.1.next
  set need := blockSize size.toNat with needed
  have value : (BitVec.ofNat 32 need : Word).toNat = need := by
    rw [BitVec.toNat_ofNat]
    exact Nat.mod_eq_of_lt word
  have left : (b.size - BitVec.ofNat 32 need).toNat = b.size.toNat - need := by
    rw [BitVec.toNat_sub_of_le (BitVec.le_def.mpr (by rw [value]; exact fits)), value]
  simp only [mallocEx, search, found, if_neg (heap.layout.tiled.addr_ne_zero member), ← removed, held,
    header_size aligned, place]
  by_cases large : need + 16 ≤ b.size.toNat
  · have enough : b.size - BitVec.ofNat 32 need ≥ bhdrSize := by
      rw [ge_iff_le, BitVec.le_def, left]
      change 16 ≤ _
      omega
    rw [if_pos enough, takenBlocks, if_pos large]
    rw [← value] at multiple least large
    have cut := take_part opened held' multiple least large
    obtain ⟨after, changes⟩ := splitTail_heap opened multiple least large
    have blocks : splitBlocks front (usedBlock b.addr b.size none) (n.behind none) back (BitVec.ofNat 32 need) =
        splitBlocks front b n back (BitVec.ofNat 32 need) := by
      simp only [splitBlocks, usedBlock, Block.behind, alone]
    rw [blocks] at after
    change splitTail b.addr n.addr _ (b.size - _) tlsf m₁ = _ at cut
    change (∃ lists', Heap tlsf finish (splitTail b.addr n.addr _ (b.size - _) tlsf m₁) _ lists') at after
    change ChangesOnly _ m₁ (splitTail b.addr n.addr _ (b.size - _) tlsf m₁) at changes
    rw [cut] at after changes
    refine ⟨rfl, after, toFirst.trans (changes.mono (claimed_subset fun x kept => ?_))⟩
    simp only [List.mem_append, List.mem_cons] at kept
    rcases kept with inFront | rfl | inBack
    · exact within_of_mem (List.mem_append_left _ inFront)
    · exact fun used => ⟨_, List.mem_append_right _ (List.mem_cons_of_mem _ List.mem_cons_self), used, rfl, Nat.le_refl _⟩
    · exact within_of_mem (List.mem_append_right _ (List.mem_cons_of_mem _ (List.mem_cons_of_mem _ inBack)))
  · have short : ¬ b.size - BitVec.ofNat 32 need ≥ bhdrSize := by
      rw [ge_iff_le, BitVec.le_def, left]
      change ¬ 16 ≤ _
      omega
    rw [if_neg short, takenBlocks, if_neg large, alone]
    rw [size_cell tlsf] at held held'
    obtain ⟨after, changes⟩ := take_whole opened held held'
    exact ⟨rfl, ⟨_, after⟩, toFirst.trans changes⟩

/-- `malloc_ex` takes a block of the least size class that is sure to hold the bytes and is not empty; it refuses
    only when there is none. -/
theorem mallocEx_heap (heap : Heap tlsf finish m blocks lists) {size : Word} (bound : size.toNat ≤ 0xfc000000) :
    (mallocEx size tlsf m = (0, m) ∧
      ∀ x ∈ blocks, x.free = true → classOf x.size.toNat < classOf (blockSize size.toNat)) ∨
    ∃ front b n back, blocks = front ++ b :: n :: back ∧ b.free = true ∧ blockSize size.toNat ≤ b.size.toNat ∧
      (∀ x ∈ blocks, x.free = true → classOf (blockSize size.toNat) ≤ classOf x.size.toNat →
        classOf b.size.toNat ≤ classOf x.size.toNat) ∧
      (mallocEx size tlsf m).1 = b.addr + 8 ∧
      (∃ lists', Heap tlsf finish (mallocEx size tlsf m).2 (takenBlocks front b n back (blockSize size.toNat)) lists') ∧
      ChangesOnly (claimed tlsf finish (front ++ n :: back)) m (mallocEx size tlsf m).2 := by
  obtain ⟨search, word⟩ := search_eq size bound
  have refused (null : (findSuitableBlock tlsf (Index.ofRank (classOf (blockSize size.toNat))) m).1 = 0) :
      mallocEx size tlsf m = (0, m) := by
    simp only [mallocEx, search, null, if_true]
  rcases Nat.lt_or_ge (classOf (blockSize size.toNat)) 768 with inside | beyond
  · rcases findSuitableBlock_finds heap.filed inside with ⟨c, x, ⟨above, small, first, none⟩, found⟩ | ⟨none, null⟩
    · right
      obtain ⟨b, member, free, rfl, rfl⟩ := (heap.exact c x).mp (List.mem_of_mem_head? first)
      obtain ⟨front, behind, rfl⟩ := List.append_of_mem member
      obtain ⟨n, back, rfl, _⟩ := (heap.layout.free_neighbours free).2
      have fits : blockSize size.toNat ≤ b.size.toNat := fits_of_class above
      refine ⟨front, b, n, back, rfl, free, fits, ?_, mallocEx_takes heap bound free fits first found⟩
      intro x inBlocks freeToo least
      by_contra below
      have listed := heap.listed inBlocks freeToo
      rw [none _ least (Nat.lt_of_not_le below)] at listed
      exact List.not_mem_nil listed
    · refine Or.inl ⟨refused null, fun x member free => ?_⟩
      by_contra least
      have listed := heap.listed member free
      rw [none _ (Nat.le_of_not_lt least) (heap.class_lt member)] at listed
      exact List.not_mem_nil listed
  · refine Or.inl ⟨refused ?_, fun x member free => Nat.lt_of_lt_of_le (heap.class_lt member) beyond⟩
    have below : classOf (blockSize size.toNat) < (25 + 1) * 2 ^ 5 := (Segregated.rank_lt_iff 25).mpr word
    exact findSuitableBlock_beyond heap.filed beyond below (heap.tiny (by decide)) (heap.tiny (by decide))

end Tlsf

end GenericBooter
