import GenericBooter.Tlsf.Free

namespace GenericBooter

open ByteMemory

namespace Tlsf

variable {tlsf : Word} {finish : Nat} {m : Memory} {front back : List Block} {lists : Nat → List Word}
  {b n : Block} {newSize : Word}

theorem inUse_around {back : List Block} {size : Word} {prev : Option Word} :
    inUse (front ++ usedBlock b.addr size prev :: back) = inUse front ++ (b.addr, size) :: inUse back := by
  rw [inUse_append, inUse_used rfl]
  rfl

theorem claimed_start {x : Block} {back' : List Block} {kept : Word} (used : x.free = false) (place : x.addr = b.addr)
    (fits : kept.toNat ≤ x.size.toNat) (rest : inUse back' = inUse back) :
    claimed tlsf finish (front ++ x :: back') ⊆ claimed tlsf finish (front ++ usedBlock b.addr kept none :: back) := by
  refine claimed_subset fun y member => ?_
  simp only [List.mem_append, List.mem_cons] at member
  rcases member with inFront | rfl | inBack
  · exact within_of_mem (List.mem_append_left _ inFront)
  · exact fun _ => ⟨x, List.mem_append_right _ List.mem_cons_self, used, place, fits⟩
  · intro used'
    obtain ⟨z, member, used'', same⟩ := mem_inUse.mp (rest ▸ mem_inUse.mpr ⟨y, inBack, used', rfl⟩)
    exact ⟨z, List.mem_append_right _ (List.mem_cons_of_mem _ member), used'', congrArg Prod.fst same,
      Nat.le_of_eq (congrArg (BitVec.toNat ∘ Prod.snd) same.symm)⟩

theorem Opened.cut (opened : Opened tlsf finish m front b n back lists) (aligned : 8 ∣ newSize.toNat)
    (least : 8 ≤ newSize.toNat) (fits : newSize.toNat + 16 ≤ b.size.toNat) :
    (∃ blocks' lists', Heap tlsf finish (splitTail b.addr n.addr newSize (b.size - newSize) tlsf m) blocks' lists' ∧
      inUse blocks' = inUse front ++ (b.addr, newSize) :: inUse (n :: back)) ∧
      ChangesOnly (claimed tlsf finish (front ++ usedBlock b.addr newSize b.prev :: n :: back)) m
        (splitTail b.addr n.addr newSize (b.size - newSize) tlsf m) := by
  obtain ⟨⟨lists', heap⟩, changes⟩ := splitTail_heap opened aligned least fits
  exact ⟨⟨_, lists', heap, inUse_split⟩, changes⟩

theorem remainder_iff {total : Word} (fits : newSize.toNat ≤ total.toNat) :
    total - newSize ≥ bhdrSize ↔ newSize.toNat + 16 ≤ total.toNat := by
  rw [ge_iff_le, BitVec.le_def, BitVec.toNat_sub_of_le (BitVec.le_def.mpr fits)]
  change 16 ≤ _ ↔ _
  omega

section InPlace

variable (heap : Heap tlsf finish m (front ++ b :: n :: back) lists) (some : front ≠ []) (used : b.free = false)
  (aligned : 8 ∣ newSize.toNat) (least : 8 ≤ newSize.toNat)

include heap some used aligned least

theorem reallocShrink_heap (fits : newSize.toNat ≤ b.size.toNat) :
    (∃ size' blocks' lists', Heap tlsf finish (reallocShrink b.addr n.addr newSize tlsf m) blocks' lists' ∧
      newSize.toNat ≤ size'.toNat ∧ inUse blocks' = inUse front ++ (b.addr, size') :: inUse (n :: back)) ∧
      ChangesOnly (claimed tlsf finish (front ++ usedBlock b.addr newSize none :: n :: back)) m
        (reallocShrink b.addr n.addr newSize tlsf m) := by
  have loose := heap.loose some used
  have inside : b ∈ front ++ b :: n :: back := List.mem_append_right _ List.mem_cons_self
  have inside' : n ∈ front ++ b :: n :: back := mem_around (List.mem_append_right _ List.mem_cons_self)
  have whole := heap.layout.aligned inside
  have whole' := heap.layout.aligned inside'
  have headed := (heap.headed b inside).1
  have headed' := (heap.headed n inside').1
  simp only [reallocShrink, size_cell tlsf, headed, headed', header_size whole, header_size whole',
    (header_flag whole' n.free n.prev.isSome).1, mappingInsert_eq]
  cases free : n.free with
  | true =>
    have layout := heap.layout
    rw [List.append_cons] at layout
    obtain ⟨_, p, rest, rfl, _⟩ := layout.free_neighbours free
    obtain ⟨opened, changes, headers⟩ := loose.forward free
    obtain ⟨_, sum, _⟩ := forward_layout loose free
    have large := layout.least (List.mem_append_right _ List.mem_cons_self) free
    have enough : newSize.toNat + 16 ≤ (b.merge n).size.toNat := by omega
    rw [free] at headed'
    simp only [headers n inside' 1 (by decide), headed', header_size whole', if_true, layout.next.1]
    change _ ∧ ChangesOnly _ m (if (b.merge n).size - newSize ≥ bhdrSize then splitTail b.addr p.addr newSize
      ((b.merge n).size - newSize) tlsf _ else _)
    rw [if_pos ((remainder_iff (by omega)).mpr enough)]
    obtain ⟨⟨blocks', lists', heap', same⟩, changes'⟩ := opened.cut aligned least enough
    have kept : inUse (p.behind none :: rest) = inUse (n :: p :: rest) := (inUse_behind none).trans (inUse_free free).symm
    refine ⟨⟨newSize, blocks', lists', ?_, Nat.le_refl _, kept ▸ same⟩, ?_⟩
    · change Heap _ _ (if (b.merge n).size - newSize ≥ bhdrSize then _ else _) _ _
      rw [if_pos ((remainder_iff (by omega)).mpr enough)]
      exact heap'
    · exact (changes.mono (claimed_start used rfl fits rfl)).trans
        (changes'.mono (claimed_start (x := usedBlock _ newSize _) rfl rfl (Nat.le_refl _) kept))
  | false =>
    simp only [Bool.false_eq_true, if_false]
    by_cases enough : newSize.toNat + 16 ≤ b.size.toNat
    · rw [if_pos ((remainder_iff fits).mpr enough)]
      obtain ⟨⟨blocks', lists', heap', same⟩, changes⟩ := (loose.opened free).cut aligned least enough
      exact ⟨⟨newSize, blocks', lists', heap', Nat.le_refl _, same⟩,
        changes.mono (claimed_start (x := usedBlock _ newSize _) rfl rfl (Nat.le_refl _) rfl)⟩
    · rw [if_neg fun large => enough ((remainder_iff fits).mp large)]
      refine ⟨⟨b.size, _, lists, heap, fits, ?_⟩, ChangesOnly.refl _ m⟩
      rw [inUse_append, inUse_used used]

theorem reallocGrow_heap (free : n.free = true) (fits : newSize.toNat ≤ b.size.toNat + n.size.toNat) :
    (∃ size' blocks' lists', Heap tlsf finish (reallocGrow b.addr n.addr newSize tlsf m) blocks' lists' ∧
      newSize.toNat ≤ size'.toNat ∧ inUse blocks' = inUse front ++ (b.addr, size') :: inUse (n :: back)) ∧
      ∀ kept : Word, kept.toNat ≤ b.size.toNat → kept.toNat ≤ newSize.toNat →
        ChangesOnly (claimed tlsf finish (front ++ usedBlock b.addr kept none :: n :: back)) m
          (reallocGrow b.addr n.addr newSize tlsf m) := by
  have loose := heap.loose some used
  have inside : b ∈ front ++ b :: n :: back := List.mem_append_right _ List.mem_cons_self
  have inside' : n ∈ front ++ b :: n :: back := mem_around (List.mem_append_right _ List.mem_cons_self)
  have whole := heap.layout.aligned inside
  have whole' := heap.layout.aligned inside'
  have headed := (heap.headed b inside).1
  have headed' := (heap.headed n inside').1
  have layout := heap.layout
  rw [List.append_cons] at layout
  obtain ⟨_, p, rest, rfl, _⟩ := layout.free_neighbours free
  obtain ⟨opened, changes, headers⟩ := loose.forward free
  obtain ⟨_, sum, _⟩ := forward_layout loose free
  have kept' : inUse (p.behind none :: rest) = inUse (n :: p :: rest) := (inUse_behind none).trans (inUse_free free).symm
  rw [used] at headed
  rw [free] at headed'
  simp only [reallocGrow, setSize_cell tlsf, setPrevHdr_cell tlsf, size_cell tlsf, headed', header_size whole',
    mappingInsert_eq, headers b inside 1 (by decide), headers n inside' 1 (by decide), headed]
  have whole₁ := opened.layout.aligned (List.mem_append_right front List.mem_cons_self)
  have joined : header b.size false b.prev.isSome + (n.size + BHDR_OVERHEAD) =
      header (b.merge n).size false b.prev.isSome := header_add whole whole₁ false b.prev.isSome
  rw [joined]
  set m₁ := extractBlock n.addr tlsf (Index.ofRank (classOf n.size.toNat)) m
  have fresh : Fresh (b.merge n) 1 (header (b.merge n).size false b.prev.isSome) :=
    ⟨by decide, fun _ => ⟨_, false, whole₁, rfl⟩⟩
  have opened₂ := opened.put_own fresh
  change Opened tlsf finish (Cell.put tlsf (.field b.addr 1) _ m₁) _ _ _ _ _ at opened₂
  have held₂ : Cell.get tlsf (Cell.put tlsf (.field b.addr 1) (header (b.merge n).size false b.prev.isSome) m₁)
      (.field b.addr 1) = header (b.merge n).size false b.prev.isSome := (put_own_get opened.layout).trans (if_pos rfl)
  have changes₂ := opened.put_header_changesOnly (k := 1) (header (b.merge n).size false b.prev.isSome) (by decide)
  have next : getNextBlock (Bhdr.buffer b.addr) (b.merge n).size = p.addr := opened.layout.next.1
  rw [held₂, header_size whole₁, next]
  set m₂ := Cell.put tlsf (.field b.addr 1) (header (b.merge n).size false b.prev.isSome) m₁
  obtain ⟨opened₃, changes₃, held₃⟩ := opened₂.put_next (k := 0) b.addr (Or.inl rfl)
  obtain ⟨prevFree, seen⟩ := opened₃.stale'
  change Cell.get tlsf (Cell.put tlsf (.field p.addr 0) b.addr m₂) (.field p.addr 1) = header p.size false prevFree at seen
  have whole'' : 8 ∣ p.size.toNat := opened.layout.aligned (b := p.behind none)
    (mem_around (List.mem_append_right _ List.mem_cons_self))
  rw [seen, (header_clear whole'' false prevFree).2]
  set m₃ := Cell.put tlsf (.field p.addr 0) b.addr m₂
  obtain ⟨opened₄, changes₄, held₄⟩ := opened₃.put_next (k := 1) (header p.size false false)
    (Or.inr ⟨rfl, false, rfl⟩)
  set m₄ := Cell.put tlsf (.field p.addr 1) (header p.size false false) m₃
  have held : Cell.get tlsf m₄ (.field b.addr 1) = header (b.merge n).size false b.prev.isSome :=
    held₄.trans (held₃.trans held₂)
  have toFourth {kept : Word} (less : kept.toNat ≤ b.size.toNat) :
      ChangesOnly (claimed tlsf finish (front ++ usedBlock b.addr kept none :: n :: p :: rest)) m m₄ := by
    refine (changes.mono (claimed_start used rfl less rfl)).trans ?_
    exact ((changes₂.trans changes₃).trans changes₄).mono
      (claimed_start (x := b.merge n) rfl rfl (by omega) kept')
  rw [held, header_size whole₁]
  by_cases enough : newSize.toNat + 16 ≤ (b.merge n).size.toNat
  · rw [if_pos ((remainder_iff (by omega)).mpr enough)]
    obtain ⟨⟨blocks', lists', heap', same⟩, changes'⟩ := opened₄.cut aligned least enough
    refine ⟨⟨newSize, blocks', lists', heap', Nat.le_refl _, kept' ▸ same⟩, fun kept less less' => ?_⟩
    exact (toFourth less).trans (changes'.mono (claimed_start (x := usedBlock b.addr newSize b.prev) rfl rfl less' kept'))
  · rw [if_neg fun large => enough ((remainder_iff (by omega)).mp large)]
    refine ⟨⟨(b.merge n).size, _, _, opened₄.close opened₄.filed fun x member => ?_, by omega, ?_⟩,
      fun kept less _ => toFourth less⟩
    · simp only [List.mem_append, List.mem_cons] at member
      rcases member with inFront | rfl | rfl | inBack
      · exact opened₄.headed x (List.mem_append_left _ inFront)
      · exact ⟨held, opened₄.behind⟩
      · have placed := opened₃.layout.placed opened₃.layout.tiled
        have valid := field_valid_two (opened₃.layout.tiled.two_le (b := p.behind none)
          (mem_around (List.mem_append_right _ List.mem_cons_self))) (k := 1) (by decide)
        refine ⟨?_, fun q link => absurd link.symm (Option.some_ne_none _)⟩
        exact (placed.get_put valid valid _ _).trans
          ((if_pos rfl).trans (congrArg (header p.size · false) opened.used'.symm))
      · exact opened₄.headed x (List.mem_append_right _ inBack)
    · rw [inUse_append, inUse_used (b := b.merge n) rfl, kept']
      rfl

end InPlace

end Tlsf

end GenericBooter
