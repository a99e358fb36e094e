import GenericBooter.Tlsf.Realloc

namespace GenericBooter

open ByteMemory

namespace Tlsf

def lent (x : Word × Word) : Set ℕ := Set.Ico (x.1.toNat + 8) (x.1.toNat + 8 + x.2.toNat)

/-- What may be changed when all of `live` is to be left alone. -/
def spared (tlsf : Word) (finish : Nat) (live : List (Word × Word)) : Set ℕ :=
  {n | tlsf.toNat ≤ n ∧ n < finish ∧ ∀ x ∈ live, n ∉ lent x}

/-- Some heap has just the blocks `live` lent out, beside the two that bound the area. -/
def Serves (tlsf : Word) (finish : Nat) (m : Memory) (live : List (Word × Word)) : Prop :=
  ∃ blocks lists, Heap tlsf finish m blocks lists ∧
    (inUse blocks).Perm ((tlsf + 3184, 8) :: (BitVec.ofNat 32 (finish - 8), 0) :: live)

variable {tlsf : Word} {finish : Nat} {m m' : Memory} {blocks front back : List Block} {lists : Nat → List Word}
  {live live' rest : List (Word × Word)} {b : Block} {x : Word × Word}

theorem Serves.perm (serves : Serves tlsf finish m live) (perm : live.Perm live') : Serves tlsf finish m live' := by
  obtain ⟨blocks, lists, heap, same⟩ := serves
  exact ⟨blocks, lists, heap, same.trans ((perm.cons _).cons _)⟩

theorem claimed_spared (subset : ∀ x ∈ live, x ∈ inUse blocks) :
    claimed tlsf finish blocks ⊆ spared tlsf finish live := by
  rintro n ⟨above, below, apart⟩
  refine ⟨above, below, fun x member inside => ?_⟩
  obtain ⟨b, listed, used, rfl⟩ := mem_inUse.mp (subset x member)
  exact apart b listed used inside

theorem spared_subset (subset : ∀ x ∈ live', x ∈ live) : spared tlsf finish live ⊆ spared tlsf finish live' :=
  fun _ inside => ⟨inside.1, inside.2.1, fun x member => inside.2.2 x (subset x member)⟩

theorem inUse_below (tiled : Tiled tlsf finish blocks) :
    (inUse blocks).Pairwise fun x y => x.1.toNat + 8 + x.2.toNat ≤ y.1.toNat :=
  List.pairwise_map.mpr ((tiled.pairwise.sublist List.filter_sublist).imp id)

theorem inUse_nodup (tiled : Tiled tlsf finish blocks) : ((inUse blocks).map Prod.fst).Nodup := by
  refine List.pairwise_map.mpr ((inUse_below tiled).imp fun order same => ?_)
  rw [same] at order
  omega

theorem Layout.ends (layout : Layout tlsf finish blocks) :
    ∃ z, blocks.getLast? = some z ∧ z.addr = BitVec.ofNat 32 (finish - 8) ∧ z.size = 0 ∧ z.free = false := by
  obtain ⟨z, last, empty, used, top⟩ := layout.last
  refine ⟨z, last, ?_, empty, used⟩
  rw [← top, Nat.add_sub_cancel, BitVec.ofNat_toNat, BitVec.setWidth_eq]

theorem Heap.find (heap : Heap tlsf finish m blocks lists)
    (same : (inUse blocks).Perm ((tlsf + 3184, 8) :: (BitVec.ofNat 32 (finish - 8), 0) :: live)) (member : x ∈ live) :
    ∃ front b back, blocks = front ++ b :: back ∧ front ≠ [] ∧ back ≠ [] ∧ b.free = false ∧ (b.addr, b.size) = x := by
  have nodup := (same.map Prod.fst).nodup_iff.mp (inUse_nodup heap.layout.tiled)
  simp only [List.map_cons, List.nodup_cons, List.mem_cons, not_or] at nodup
  obtain ⟨⟨_, first⟩, last, _⟩ := nodup
  have listed : x ∈ inUse blocks := same.mem_iff.mpr (List.mem_cons_of_mem _ (List.mem_cons_of_mem _ member))
  obtain ⟨b, inside, used, rfl⟩ := mem_inUse.mp listed
  have addressed : b.addr ∈ live.map Prod.fst := List.mem_map.mpr ⟨_, member, rfl⟩
  obtain ⟨front, back, rfl⟩ := List.append_of_mem inside
  refine ⟨front, b, back, rfl, ?_, ?_, used, rfl⟩
  · rintro rfl
    obtain rfl : b = areaBlock tlsf := Option.some.inj heap.layout.first
    exact first addressed
  · rintro rfl
    obtain ⟨z, atEnd, place, _⟩ := heap.layout.ends
    rw [List.getLast?_concat] at atEnd
    obtain rfl := Option.some.inj atEnd
    rw [place] at addressed
    exact last addressed

theorem inUse_middle (used : b.free = false) :
    (inUse (front ++ b :: back)).Perm ((b.addr, b.size) :: inUse (front ++ back)) := by
  rw [inUse_append, inUse_used used, inUse_append]
  exact List.perm_middle

theorem Serves.find (serves : Serves tlsf finish m (x :: live)) :
    ∃ front b back lists, Heap tlsf finish m (front ++ b :: back) lists ∧ front ≠ [] ∧ back ≠ [] ∧ b.free = false ∧
      (b.addr, b.size) = x ∧
      (inUse (front ++ back)).Perm ((tlsf + 3184, 8) :: (BitVec.ofNat 32 (finish - 8), 0) :: live) := by
  obtain ⟨blocks, lists, heap, same⟩ := serves
  obtain ⟨front, b, back, rfl, some, behind, used, rfl⟩ := heap.find same List.mem_cons_self
  refine ⟨front, b, back, lists, heap, some, behind, used, rfl, ?_⟩
  have moved := (inUse_middle used).symm.trans same
  refine (List.perm_cons (b.addr, b.size)).mp (moved.trans ?_)
  exact ((List.Perm.swap _ _ _).cons _).trans (List.Perm.swap _ _ _)

theorem mem_of_perm (same : (inUse blocks).Perm ((tlsf + 3184, 8) :: (BitVec.ofNat 32 (finish - 8), 0) :: live)) :
    ∀ x ∈ live, x ∈ inUse blocks :=
  fun _ member => same.mem_iff.mpr (List.mem_cons_of_mem _ (List.mem_cons_of_mem _ member))

theorem chain_align (chain : (b :: back).IsChain Follows) : ∀ x ∈ b :: back, x.addr.toNat % 8 = b.addr.toNat % 8 := by
  induction back generalizing b with
  | nil =>
    intro x member
    rw [List.mem_singleton.mp member]
  | cons n rest ih =>
    rw [List.isChain_cons_cons] at chain
    intro x member
    rcases List.mem_cons.mp member with rfl | member
    · rfl
    · have place := chain.1.1.2
      have aligned := chain.1.2.1
      rw [ih chain.2 x member]
      omega

theorem Layout.between (layout : Layout tlsf finish (front ++ b :: back)) (some : front ≠ []) (behind : back ≠ []) :
    (8 ∣ b.size.toNat ∧ 8 ≤ b.size.toNat) ∧ tlsf.toNat + 3200 ≤ b.addr.toNat ∧
      b.addr.toNat + 16 + b.size.toNat ≤ finish ∧ b.addr.toNat % 8 = tlsf.toNat % 8 := by
  obtain ⟨a, before, rfl⟩ := List.exists_cons_of_ne_nil some
  obtain rfl : a = areaBlock tlsf := Option.some.inj layout.first
  obtain ⟨n, later, rfl⟩ := List.exists_cons_of_ne_nil behind
  have tiles := (List.isChain_append_cons_cons.mp layout.follows).2.1.1
  have start := area_start layout.control
  have order := (List.pairwise_cons.mp layout.tiled.pairwise).1 b (List.mem_append_right _ List.mem_cons_self)
  have inside := (layout.tiled.inside (b := n)
    (List.mem_append_right _ (List.mem_cons_of_mem _ List.mem_cons_self))).2
  have aligned := chain_align layout.follows b
    (List.mem_append_right (areaBlock tlsf :: before) List.mem_cons_self)
  have eight : (areaBlock tlsf).size.toNat = 8 := rfl
  have place := tiles.2
  unfold Below at order
  rw [start] at aligned order
  exact ⟨⟨layout.aligned (List.mem_append_right _ List.mem_cons_self), tiles.1⟩, by omega, by omega, by omega⟩

theorem Serves.apart (serves : Serves tlsf finish m live) :
    (∀ x ∈ live, (8 ∣ x.2.toNat ∧ 8 ≤ x.2.toNat) ∧ tlsf.toNat + 3200 ≤ x.1.toNat ∧
      x.1.toNat + 16 + x.2.toNat ≤ finish ∧ x.1.toNat % 8 = tlsf.toNat % 8) ∧
    live.Pairwise fun x y => Disjoint (lent x) (lent y) := by
  obtain ⟨blocks, lists, heap, same⟩ := serves
  constructor
  · intro x member
    obtain ⟨front, b, back, rfl, some, behind, _, rfl⟩ := heap.find same member
    exact heap.layout.between some behind
  · have order := (inUse_below heap.layout.tiled).imp (S := fun x y => Disjoint (lent x) (lent y)) fun below => by
      rw [Set.disjoint_left]
      intro n first second
      unfold lent at first second
      rw [Set.mem_Ico] at first second
      omega
    have all := (same.pairwise_iff fun {x y} (apart : Disjoint (lent x) (lent y)) => apart.symm).mp order
    exact (List.pairwise_cons.mp (List.pairwise_cons.mp all).2).2

theorem Heap.keeps {s : Set ℕ} (heap : Heap tlsf finish m blocks lists) (changes : ChangesOnly s m m')
    (apart : Disjoint s (Cell.owned tlsf (roomOf blocks))) : Heap tlsf finish m' blocks lists := by
  have placed := heap.placed
  have same {cell : Cell} (valid : cell.Valid (roomOf blocks)) : Cell.get tlsf m' cell = Cell.get tlsf m cell := by
    refine placed.get_keeps changes valid fun i small inside => Set.disjoint_left.mp apart inside ?_
    exact Cell.place_owned valid small
  refine ⟨heap.layout, fun x member => (heap.headed x member).keeps fun k small => ?_, heap.filed.congr ?_ ?_, heap.exact⟩
  · exact same (field_valid_two (heap.layout.tiled.two_le member) small)
  · exact fun i bound _ => same (control_valid bound)
  · intro c bound x member
    have four := heap.members c bound x member
    rw [next_cell tlsf, prev_cell tlsf, next_cell tlsf, prev_cell tlsf, same (field_valid four 3),
      same (field_valid four 2)]
    exact ⟨rfl, rfl⟩

theorem Serves.write (serves : Serves tlsf finish m live) (member : x ∈ live) (changes : ChangesOnly (lent x) m m') :
    Serves tlsf finish m' live := by
  obtain ⟨blocks, lists, heap, same⟩ := serves
  refine ⟨blocks, lists, heap.keeps changes (Set.disjoint_left.mpr fun n inside owned => ?_), same⟩
  obtain ⟨b, listed, used, rfl⟩ := mem_inUse.mp (mem_of_perm same x member)
  have outside : n ∈ claimed tlsf finish [b] := owned_subset heap.layout heap.layout.tiled (fun y here => by
    rw [List.mem_singleton.mp here]
    exact within_of_mem listed) owned
  exact outside.2.2 b List.mem_cons_self used inside

theorem Serves.top (serves : Serves tlsf finish m live) : finish ≤ 2 ^ 32 := by
  obtain ⟨_, _, heap, _⟩ := serves
  exact heap.layout.top

theorem Serves.lent_spared (serves : Serves tlsf finish m (x :: live)) : lent x ⊆ spared tlsf finish live := by
  obtain ⟨bounds, apart⟩ := serves.apart
  have inside := bounds x List.mem_cons_self
  intro n member
  refine ⟨?_, ?_, fun y other => Set.disjoint_left.mp ((List.pairwise_cons.mp apart).1 y other) member⟩
  · unfold lent at member
    rw [Set.mem_Ico] at member
    omega
  · unfold lent at member
    rw [Set.mem_Ico] at member
    omega

theorem Serves.byte_at (serves : Serves tlsf finish m live) (member : x ∈ live) {i : Nat} (less : i < x.2.toNat) :
    (x.1 + 8 + BitVec.ofNat 32 i).toNat = x.1.toNat + 8 + i ∧ (x.1 + 8 + BitVec.ofNat 32 i).toNat ∈ lent x := by
  have inside := serves.apart.1 x member
  have top := serves.top
  have start : (x.1 + 8).toNat = x.1.toNat + 8 := by
    rw [BitVec.toNat_add]
    exact Nat.mod_eq_of_lt (by change x.1.toNat + 8 < 2 ^ 32; omega)
  have place : (x.1 + 8 + BitVec.ofNat 32 i).toNat = x.1.toNat + 8 + i := by
    rw [BitVec.toNat_add, start, BitVec.toNat_ofNat, Nat.mod_eq_of_lt (a := i) (by omega)]
    exact Nat.mod_eq_of_lt (by omega)
  refine ⟨place, ?_⟩
  rw [place]
  exact ⟨by omega, by omega⟩

theorem Serves.untouched (serves : Serves tlsf finish m live) (member : x ∈ live) {m₁ m₂ : Memory}
    (changes : ChangesOnly (spared tlsf finish live) m₁ m₂) {i : Nat} (less : i < x.2.toNat) :
    m₂ (x.1 + 8 + BitVec.ofNat 32 i) = m₁ (x.1 + 8 + BitVec.ofNat 32 i) :=
  changes _ fun inside => inside.2.2 x member (serves.byte_at member less).2

theorem Serves.header (serves : Serves tlsf finish m (x :: live)) : Bhdr.size m x.1 &&& BLOCK_SIZE = x.2 := by
  obtain ⟨front, b, back, lists, heap, _, _, _, rfl, _⟩ := serves.find
  have inside : b ∈ front ++ b :: back := List.mem_append_right _ List.mem_cons_self
  rw [size_cell tlsf, (heap.headed b inside).1]
  exact header_size (heap.layout.aligned inside) _ _

theorem Serves.nonnull (serves : Serves tlsf finish m (x :: live)) : x.1 + 8 ≠ 0 := by
  have inside := serves.apart.1 x List.mem_cons_self
  have top := serves.top
  apply BitVec.toNat_ne.mpr
  rw [BitVec.toNat_add, Nat.mod_eq_of_lt (by change x.1.toNat + 8 < 2 ^ 32; omega)]
  exact Nat.succ_ne_zero _

end Tlsf

end GenericBooter
