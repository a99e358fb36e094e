import GenericBooter.Tlsf.Merging

namespace GenericBooter

open ByteMemory

namespace Tlsf

def inUse (blocks : List Block) : List (Word × Word) := (blocks.filter (!·.free)).map fun b => (b.addr, b.size)

section InUse

variable {tlsf : Word} {finish : Nat} {blocks kept kept' : List Block} {b : Block}

theorem inUse_append (kept kept' : List Block) : inUse (kept ++ kept') = inUse kept ++ inUse kept' := by
  rw [inUse, List.filter_append, List.map_append]
  rfl

theorem inUse_used (used : b.free = false) : inUse (b :: blocks) = (b.addr, b.size) :: inUse blocks := by
  rw [inUse, List.filter_cons_of_pos (by rw [used]; rfl)]
  rfl

theorem inUse_free (free : b.free = true) : inUse (b :: blocks) = inUse blocks := by
  rw [inUse, List.filter_cons_of_neg (by rw [free]; decide)]
  rfl

theorem inUse_behind (prev : Option Word) : inUse (b.behind prev :: blocks) = inUse (b :: blocks) := by
  cases free : b.free
  · exact (inUse_used (b := b.behind prev) free).trans (inUse_used free).symm
  · exact (inUse_free (b := b.behind prev) free).trans (inUse_free free).symm

theorem mem_inUse {x : Word × Word} : x ∈ inUse blocks ↔ ∃ b ∈ blocks, b.free = false ∧ (b.addr, b.size) = x := by
  rw [inUse, List.mem_map]
  constructor
  · rintro ⟨b, member, same⟩
    rw [List.mem_filter, Bool.not_eq_true'] at member
    exact ⟨b, member.1, member.2, same⟩
  · rintro ⟨b, member, used, same⟩
    exact ⟨b, List.mem_filter.mpr ⟨member, by rw [used]; rfl⟩, same⟩

theorem inUse_split {front back : List Block} {n : Block} {size : Word} :
    inUse (splitBlocks front b n back size) = inUse front ++ (b.addr, size) :: inUse (n :: back) := by
  rw [splitBlocks, inUse_append, inUse_used rfl, inUse_free rfl, inUse_behind]
  rfl

theorem claimed_inUse (same : inUse kept = inUse kept') : claimed tlsf finish kept' ⊆ claimed tlsf finish kept := by
  refine claimed_subset fun x member used => ?_
  have listed : (x.addr, x.size) ∈ inUse kept' := same ▸ mem_inUse.mpr ⟨x, member, used, rfl⟩
  obtain ⟨y, member', used', pair⟩ := mem_inUse.mp listed
  exact ⟨y, member', used', congrArg Prod.fst pair, Nat.le_of_eq (congrArg (BitVec.toNat ∘ Prod.snd) pair.symm)⟩

end InUse

/-! `free_ex` in three parts. -/

def absorbNext (b tlsf : Word) (m : Memory) : Memory :=
  let tmpB := getNextBlock (Bhdr.buffer b) (Bhdr.size m b &&& BLOCK_SIZE)
  if Bhdr.size m tmpB &&& FREE_BLOCK ≠ 0 then
    let m := extractBlock tmpB tlsf (mappingInsert (Bhdr.size m tmpB &&& BLOCK_SIZE)) m
    Bhdr.setSize b (Bhdr.size m b + ((Bhdr.size m tmpB &&& BLOCK_SIZE) + BHDR_OVERHEAD)) m
  else m

def absorbPrev (b tlsf : Word) (m : Memory) : Word × Memory :=
  let tmpB := Bhdr.prevHdr m b
  if Bhdr.size m b &&& PREV_FREE ≠ 0 then
    let m := extractBlock tmpB tlsf (mappingInsert (Bhdr.size m tmpB &&& BLOCK_SIZE)) m
    (tmpB, Bhdr.setSize tmpB (Bhdr.size m tmpB + ((Bhdr.size m b &&& BLOCK_SIZE) + BHDR_OVERHEAD)) m)
  else (b, m)

def fileWhole (b tlsf : Word) (m : Memory) : Memory :=
  let m := insertBlock b tlsf (mappingInsert (Bhdr.size m b &&& BLOCK_SIZE)) m
  let tmpB := getNextBlock (Bhdr.buffer b) (Bhdr.size m b &&& BLOCK_SIZE)
  Bhdr.setPrevHdr tmpB b (Bhdr.setSize tmpB (Bhdr.size m tmpB ||| PREV_FREE) m)

theorem absorbPrev_fileWhole (b tlsf : Word) (m : Memory) :
    (let merge := Bhdr.size m b &&& PREV_FREE ≠ 0
      let tmpB := Bhdr.prevHdr m b
      let m :=
        if merge then
          let m := extractBlock tmpB tlsf (mappingInsert (Bhdr.size m tmpB &&& BLOCK_SIZE)) m
          Bhdr.setSize tmpB (Bhdr.size m tmpB + ((Bhdr.size m b &&& BLOCK_SIZE) + BHDR_OVERHEAD)) m
        else m
      let b := if merge then tmpB else b
      let m := insertBlock b tlsf (mappingInsert (Bhdr.size m b &&& BLOCK_SIZE)) m
      let tmpB := getNextBlock (Bhdr.buffer b) (Bhdr.size m b &&& BLOCK_SIZE)
      let m := Bhdr.setSize tmpB (Bhdr.size m tmpB ||| PREV_FREE) m
      Bhdr.setPrevHdr tmpB b m) = fileWhole (absorbPrev b tlsf m).1 tlsf (absorbPrev b tlsf m).2 := by
  unfold absorbPrev
  by_cases merge : Bhdr.size m b &&& PREV_FREE ≠ 0
  · simp only [if_pos merge]
    rfl
  · simp only [if_neg merge]
    rfl

theorem freeEx_eq {ptr tlsf : Word} {m : Memory} (nonnull : ptr ≠ 0) :
    freeEx ptr tlsf m =
      let b := ptr - BHDR_OVERHEAD
      let m := Bhdr.setSize b (Bhdr.size m b ||| FREE_BLOCK) m
      let m := absorbNext b tlsf (Bhdr.setNext b 0 (Bhdr.setPrev b 0 m))
      fileWhole (absorbPrev b tlsf m).1 tlsf (absorbPrev b tlsf m).2 := by
  unfold freeEx
  rw [if_neg nonnull]
  exact absorbPrev_fileWhole _ _ _

variable {tlsf : Word} {finish : Nat} {m : Memory} {front back : List Block} {lists : Nat → List Word} {b n : Block}

theorem Layout.next (layout : Layout tlsf finish (front ++ b :: n :: back)) :
    getNextBlock (Bhdr.buffer b.addr) b.size = n.addr ∧ 8 ∣ b.size.toNat :=
  have follows := (List.isChain_append_cons_cons.mp layout.follows).2.1
  ⟨follows.1.next, follows.2.1⟩

theorem header_merge (layout : Layout tlsf finish (front ++ b.merge n :: back)) (aligned : 8 ∣ b.size.toNat)
    (aligned' : 8 ∣ n.size.toNat) (free free' prevFree prevFree' : Bool) :
    header b.size free prevFree + ((header n.size free' prevFree' &&& BLOCK_SIZE) + BHDR_OVERHEAD) =
      header (b.merge n).size free prevFree := by
  rw [header_size aligned']
  exact header_add aligned (layout.aligned (b := b.merge n) (List.mem_append_right _ List.mem_cons_self)) free prevFree

theorem absorbNext_opened (loose : Loose tlsf finish m front b (n :: back) lists)
    (held : Cell.get tlsf m (.field b.addr 1) = header b.size true b.prev.isSome) :
    ∃ b' n' back' lists', Opened tlsf finish (absorbNext b.addr tlsf m) front b' n' back' lists' ∧
      b'.addr = b.addr ∧
      Cell.get tlsf (absorbNext b.addr tlsf m) (.field b'.addr 1) = header b'.size true b'.prev.isSome ∧
      inUse (n' :: back') = inUse (n :: back) ∧
      ChangesOnly (claimed tlsf finish (front ++ n :: back)) m (absorbNext b.addr tlsf m) := by
  obtain ⟨next, aligned⟩ := loose.layout.next
  have inside : n ∈ front ++ n :: back := List.mem_append_right _ List.mem_cons_self
  have aligned' := loose.layout.aligned (mem_around inside)
  have headed := (loose.headed n inside).1
  simp only [absorbNext, setSize_cell tlsf, size_cell tlsf, held, header_size aligned, next, headed,
    (header_flag aligned' n.free n.prev.isSome).1, header_size aligned', mappingInsert_eq]
  cases free : n.free with
  | false =>
    rw [if_neg Bool.false_ne_true]
    exact ⟨b, n, back, lists, loose.opened free, rfl, held, rfl, ChangesOnly.refl _ m⟩
  | true =>
    rw [if_pos rfl]
    obtain ⟨_, p, rest, rfl, _⟩ := by
      have layout := loose.layout
      rw [List.append_cons] at layout
      exact layout.free_neighbours free
    obtain ⟨opened, changes, headers⟩ := loose.forward free
    have inside' : b ∈ front ++ b :: n :: p :: rest := List.mem_append_right _ List.mem_cons_self
    rw [headers b inside' 1 (by decide), headers n (mem_around inside) 1 (by decide), held, headed,
      header_merge opened.layout aligned aligned']
    have fresh : Fresh (b.merge n) 1 (header (b.merge n).size true b.prev.isSome) :=
      ⟨by decide, fun _ => ⟨_, true, opened.layout.aligned (List.mem_append_right _ List.mem_cons_self), rfl⟩⟩
    have used : inUse (p :: rest) = inUse (n :: p :: rest) := (inUse_free free).symm
    refine ⟨b.merge n, p.behind none, rest, _, opened.put_own fresh, rfl, ?_, (inUse_behind none).trans used, ?_⟩
    · exact (put_own_get opened.layout).trans (if_pos rfl)
    · have changes' := changes.mono (claimed_subset fun x kept => within_of_mem (mem_around kept))
      refine changes'.trans ((put_own_changesOnly opened.layout).mono (claimed_inUse ?_))
      rw [inUse_append, inUse_append, inUse_behind, used]

theorem absorbPrev_opened (opened : Opened tlsf finish m front b n back lists)
    (held : Cell.get tlsf m (.field b.addr 1) = header b.size true b.prev.isSome) :
    ∃ front' b' lists', Opened tlsf finish (absorbPrev b.addr tlsf m).2 front' b' n back lists' ∧
      (absorbPrev b.addr tlsf m).1 = b'.addr ∧ b'.prev = none ∧
      Cell.get tlsf (absorbPrev b.addr tlsf m).2 (.field b'.addr 1) = header b'.size true false ∧
      inUse front' = inUse front ∧
      ChangesOnly (claimed tlsf finish (front ++ n :: back)) m (absorbPrev b.addr tlsf m).2 := by
  have inside : b ∈ front ++ b :: n :: back := List.mem_append_right _ List.mem_cons_self
  have aligned := opened.layout.aligned inside
  simp only [absorbPrev, setSize_cell tlsf, size_cell tlsf, prevHdr_cell tlsf, held,
    (header_flag aligned true b.prev.isSome).2]
  obtain ⟨front', a, rfl⟩ := (List.eq_nil_or_concat' front).resolve_left opened.some
  have follows : Follows a b := by
    have chain := opened.layout.follows
    rw [List.append_assoc, List.singleton_append, List.isChain_append_cons_cons] at chain
    exact chain.2.1
  cases link : b.prev with
  | none =>
    rw [if_neg (Option.not_isSome_iff_eq_none.mpr rfl)]
    rw [link] at held
    exact ⟨front' ++ [a], b, lists, opened, rfl, link, held, rfl, ChangesOnly.refl _ m⟩
  | some q =>
    have free : a.free = true := by
      by_contra used
      rw [follows.prev_none.mpr (Bool.eq_false_of_not_eq_true used)] at link
      cases link
    have place : q = a.addr := by
      have same := follows.2.2.1
      rw [link, free] at same
      exact Option.some.inj same
    subst place
    obtain ⟨opened', changes, headers⟩ := opened.backward free
    obtain ⟨_, _, _, alone⟩ := backward_layout opened free
    have member : a ∈ (front' ++ [a]) ++ back := List.mem_append_left _ (List.mem_append_right _ List.mem_cons_self)
    have member' : a ∈ front' ++ a :: b :: n :: back := List.mem_append_right _ List.mem_cons_self
    have member'' : b ∈ front' ++ a :: b :: n :: back :=
      List.mem_append_right _ (List.mem_cons_of_mem _ List.mem_cons_self)
    have headed := (opened.headed a member).1
    have aligned' := opened.layout.aligned (mem_around (mem_around member))
    rw [free, alone] at headed
    rw [if_pos (show (some a.addr).isSome = true from rfl), opened.behind _ link, headed, header_size aligned', mappingInsert_eq, headers a member' 1 (by decide),
      headers b member'' 1 (by decide), headed, held, header_merge opened'.layout aligned' aligned]
    have fresh : Fresh (a.merge b) 1 (header (a.merge b).size true false) := by
      refine ⟨by decide, fun _ => ⟨_, true, opened'.layout.aligned (List.mem_append_right _ List.mem_cons_self), ?_⟩⟩
      rw [show (a.merge b).prev = none from alone]
      rfl
    have same : inUse (front' ++ [a]) = inUse front' := by
      rw [inUse_append, inUse_free free]
      exact List.append_nil _
    refine ⟨front', a.merge b, _, opened'.put_own fresh, rfl, alone, ?_, same.symm, ?_⟩
    · exact (put_own_get opened'.layout).trans (if_pos rfl)
    · have same' : inUse (front' ++ [a] ++ n :: back) = inUse (front' ++ n :: back) := by
        rw [inUse_append, same, inUse_append]
      rw [List.append_cons] at changes
      exact changes.trans ((put_own_changesOnly opened'.layout).mono (claimed_inUse same'))

theorem fileWhole_heap (opened : Opened tlsf finish m front b n back lists) (alone : b.prev = none)
    (held : Cell.get tlsf m (.field b.addr 1) = header b.size true false) :
    (∃ lists', Heap tlsf finish (fileWhole b.addr tlsf m)
      (front ++ freeBlock b.addr b.size :: n.behind (some b.addr) :: back) lists') ∧
      ChangesOnly (claimed tlsf finish (front ++ n :: back)) m (fileWhole b.addr tlsf m) := by
  obtain ⟨next, aligned⟩ := opened.layout.next
  have exact := opened.exact_behind
  have placed := opened.layout.placed (roomy_tiled opened.layout)
  have inside : b ∈ front ++ b :: n :: back := List.mem_append_right _ List.mem_cons_self
  have bound : classOf b.size.toNat < 768 := classOf_lt.mpr (opened.layout.size_lt inside)
  have room := opened.filed.head_room (roomy_members opened.layout exact) bound
  have seen : Bhdr.size (insertBlock b.addr tlsf (Index.ofRank (classOf b.size.toNat)) m) b.addr =
      header b.size true false := by
    rw [size_cell tlsf, insertBlock_header placed (roomy_four opened.layout) bound room (by decide)
      (field_valid_two (roomy_two opened.layout inside) (by decide)), held]
  obtain ⟨heap, changes⟩ := opened.release alone held
  rw [← size_cell] at held
  simp only [fileWhole, held, header_size aligned, mappingInsert_eq, seen, next]
  exact ⟨⟨_, heap⟩, changes⟩

/-- The part of `free_ex` behind the test of the next block. -/
theorem Opened.fileFree (opened : Opened tlsf finish m front b n back lists)
    (held : Cell.get tlsf m (.field b.addr 1) = header b.size true b.prev.isSome) :
    (∃ blocks' lists', Heap tlsf finish
        (fileWhole (absorbPrev b.addr tlsf m).1 tlsf (absorbPrev b.addr tlsf m).2) blocks' lists' ∧
      inUse blocks' = inUse (front ++ n :: back)) ∧
      ChangesOnly (claimed tlsf finish (front ++ n :: back)) m
        (fileWhole (absorbPrev b.addr tlsf m).1 tlsf (absorbPrev b.addr tlsf m).2) := by
  obtain ⟨front', b', lists', opened, place, alone, held, rest, changes⟩ := absorbPrev_opened opened held
  rw [place]
  obtain ⟨⟨lists'', after⟩, changes'⟩ := fileWhole_heap opened alone held
  have same : inUse (front' ++ n :: back) = inUse (front ++ n :: back) := by
    rw [inUse_append, inUse_append, rest]
  refine ⟨⟨_, _, after, ?_⟩, changes.trans (changes'.mono (claimed_inUse same.symm))⟩
  rw [inUse_append, inUse_free rfl, inUse_behind, ← inUse_append, same]

theorem Fresh.mark {free : Bool} (aligned : 8 ∣ b.size.toNat) : Fresh b 1 (header b.size free b.prev.isSome) :=
  ⟨by decide, fun _ => ⟨b.size, free, aligned, rfl⟩⟩

theorem Fresh.link {k : Fin 4} {value : Word} (link : 2 ≤ k) : Fresh b k value := by
  refine ⟨?_, ?_⟩
  · rintro rfl
    exact absurd link (by decide)
  · rintro rfl
    exact absurd link (by decide)

def marked (tlsf : Word) (b : Block) (m : Memory) : Memory :=
  Cell.put tlsf (.field b.addr 3) 0 (Cell.put tlsf (.field b.addr 2) 0
    (Cell.put tlsf (.field b.addr 1) (header b.size true b.prev.isSome) m))

theorem marked_changes (layout : Layout tlsf finish (front ++ b :: n :: back)) :
    ChangesOnly (claimed tlsf finish (front ++ n :: back)) m (marked tlsf b m) ∧
      Cell.get tlsf (marked tlsf b m) (.field b.addr 1) = header b.size true b.prev.isSome := by
  refine ⟨((put_own_changesOnly layout).trans (put_own_changesOnly layout)).trans (put_own_changesOnly layout), ?_⟩
  rw [marked, put_own_get layout, put_own_get layout, put_own_get layout]
  rfl

theorem freeEx_marked (layout : Layout tlsf finish (front ++ b :: n :: back))
    (held : Cell.get tlsf m (.field b.addr 1) = header b.size false b.prev.isSome) :
    freeEx (b.addr + 8) tlsf m =
      fileWhole (absorbPrev b.addr tlsf (absorbNext b.addr tlsf (marked tlsf b m))).1 tlsf
        (absorbPrev b.addr tlsf (absorbNext b.addr tlsf (marked tlsf b m))).2 := by
  have tiles := (List.isChain_append_cons_cons.mp layout.follows).2.1.1
  have nonnull : b.addr + 8 ≠ 0 := by
    have room := n.addr.isLt
    have place := tiles.2
    apply BitVec.toNat_ne.mpr
    rw [BitVec.toNat_add, Nat.mod_eq_of_lt (by change b.addr.toNat + 8 < 2 ^ 32; omega)]
    exact Nat.succ_ne_zero _
  have start : b.addr + 8 - BHDR_OVERHEAD = b.addr := add_sub_cancel_right b.addr 8
  rw [freeEx_eq nonnull]
  simp only [start, setSize_cell tlsf, setPrev_cell tlsf, setNext_cell tlsf, size_cell tlsf, held,
    (header_set false b.prev.isSome).1]
  rfl

/-- `free_ex` gives back exactly the block, and touches nothing that is still in use. -/
theorem freeEx_heap (heap : Heap tlsf finish m (front ++ b :: back) lists) (some : front ≠ []) (behind : back ≠ [])
    (used : b.free = false) :
    (∃ blocks' lists', Heap tlsf finish (freeEx (b.addr + 8) tlsf m) blocks' lists' ∧
      inUse blocks' = inUse (front ++ back)) ∧
      ChangesOnly (claimed tlsf finish (front ++ back)) m (freeEx (b.addr + 8) tlsf m) := by
  obtain ⟨n, back, rfl⟩ := List.exists_cons_of_ne_nil behind
  have inside : b ∈ front ++ b :: n :: back := List.mem_append_right _ List.mem_cons_self
  have headed := (heap.headed b inside).1
  rw [used] at headed
  obtain ⟨changes, held⟩ := marked_changes (m := m) heap.layout
  have loose : Loose tlsf finish (marked tlsf b m) front b (n :: back) lists :=
    (((heap.loose some used).put_own (Fresh.mark (heap.layout.aligned inside))).put_own
      (Fresh.link (by decide))).put_own (Fresh.link (by decide))
  rw [freeEx_marked heap.layout headed]
  obtain ⟨b', n', back', lists', opened, place, held, rest, changes'⟩ := absorbNext_opened loose held
  set m₁ := absorbNext b.addr tlsf (marked tlsf b m)
  rw [← place]
  obtain ⟨⟨blocks', lists'', after, same⟩, changes''⟩ := opened.fileFree held
  have same' : inUse (front ++ n :: back) = inUse (front ++ n' :: back') := by
    rw [inUse_append, inUse_append, rest]
  exact ⟨⟨blocks', lists'', after, same.trans same'.symm⟩,
    (changes.trans changes').trans (changes''.mono (claimed_inUse same'))⟩

theorem freeEx_opened (opened : Opened tlsf finish m front b n back lists)
    (headed : Cell.get tlsf m (.field b.addr 1) = header b.size false b.prev.isSome) :
    (∃ blocks' lists', Heap tlsf finish (freeEx (b.addr + 8) tlsf m) blocks' lists' ∧
      inUse blocks' = inUse (front ++ n :: back)) ∧
      ChangesOnly (claimed tlsf finish (front ++ n :: back)) m (freeEx (b.addr + 8) tlsf m) := by
  have inside : b ∈ front ++ b :: n :: back := List.mem_append_right _ List.mem_cons_self
  have inside' : n ∈ front ++ b :: n :: back := mem_around (List.mem_append_right _ List.mem_cons_self)
  obtain ⟨changes, held⟩ := marked_changes (m := m) opened.layout
  have opened' : Opened tlsf finish (marked tlsf b m) front b n back lists :=
    ((opened.put_own (Fresh.mark (opened.layout.aligned inside))).put_own
      (Fresh.link (by decide))).put_own (Fresh.link (by decide))
  obtain ⟨next, aligned⟩ := opened.layout.next
  obtain ⟨prevFree, seen⟩ := opened'.stale'
  have skipped : absorbNext b.addr tlsf (marked tlsf b m) = marked tlsf b m := by
    simp only [absorbNext, size_cell tlsf, held, header_size aligned, next, seen,
      (header_flag (opened.layout.aligned inside') false prevFree).1, Bool.false_eq_true, if_false]
  rw [freeEx_marked opened.layout headed, skipped]
  obtain ⟨after, changes'⟩ := opened'.fileFree held
  exact ⟨after, changes.trans changes'⟩

end Tlsf

end GenericBooter
