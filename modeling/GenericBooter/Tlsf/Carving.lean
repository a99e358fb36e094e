import GenericBooter.Tlsf.Heap

namespace GenericBooter

open ByteMemory

namespace Tlsf

/-- What an operation may change when the blocks `kept` are somebody else's. -/
def claimed (tlsf : Word) (finish : Nat) (kept : List Block) : Set ℕ :=
  {n | tlsf.toNat ≤ n ∧ n < finish ∧
    ∀ x ∈ kept, x.free = false → n ∉ Set.Ico (x.addr.toNat + 8) (x.addr.toNat + 8 + x.size.toNat)}

def Within (x : Block) (blocks : List Block) : Prop :=
  x.free = false → ∃ y ∈ blocks, y.free = false ∧ y.addr = x.addr ∧ x.size.toNat ≤ y.size.toNat

variable {tlsf : Word} {finish : Nat} {m m' : Memory} {blocks kept front back : List Block}
  {lists : Nat → List Word} {b n : Block}

theorem within_of_mem {x : Block} (member : x ∈ blocks) : Within x blocks :=
  fun used => ⟨x, member, used, rfl, Nat.le_refl _⟩

theorem claimed_subset {kept' : List Block} (within : ∀ x ∈ kept, Within x kept') :
    claimed tlsf finish kept' ⊆ claimed tlsf finish kept := by
  rintro n ⟨above, below, apart⟩
  refine ⟨above, below, fun x member used inside => ?_⟩
  obtain ⟨y, member', used', same, smaller⟩ := within x member used
  apply apart y member' used'
  rw [Set.mem_Ico] at inside ⊢
  rw [same]
  omega

theorem owned_subset (layout : Layout tlsf finish kept) (tiled : Tiled tlsf finish blocks)
    (within : ∀ x ∈ front, Within x blocks) : Cell.owned tlsf (roomOf blocks) ⊆ claimed tlsf finish front := by
  have ends (y : Block) (member : y ∈ blocks) : y.addr.toNat + 4 * y.words ≤ finish := by
    have inside := tiled.inside member
    have words := tiled.words_le member
    omega
  have area : tlsf.toNat + 3184 ≤ finish := by
    have inside := layout.tiled.inside (List.mem_of_mem_head? layout.first)
    rw [area_start layout.control] at inside
    omega
  rintro n (control | ⟨a, field⟩)
  · rw [Set.mem_Ico] at control
    refine ⟨control.1, by omega, fun x member used inside => ?_⟩
    obtain ⟨y, member, _, same, _⟩ := within x member used
    have above := (tiled.inside member).1
    rw [Set.mem_Ico, ← same] at inside
    omega
  · rw [Set.mem_Ico] at field
    obtain ⟨y, member, rfl⟩ : ∃ y ∈ blocks, y.addr = a := roomOf_pos (by omega)
    rw [roomOf_eq tiled member] at field
    have above := (tiled.inside member).1
    have below := ends y member
    refine ⟨by omega, by omega, fun x inList used inside => ?_⟩
    obtain ⟨z, member', used', same, smaller⟩ := within x inList used
    rw [Set.mem_Ico, ← same] at inside
    by_cases identical : y = z
    · subst identical
      have two : y.words = 2 := by rw [Block.words, used']; rfl
      omega
    · have order := tiled.apart member member' identical
      have words := tiled.words_le member
      unfold Below at order
      omega

theorem Layout.aligned (layout : Layout tlsf finish blocks) (member : b ∈ blocks) : 8 ∣ b.size.toNat := by
  obtain ⟨before, behind, rfl⟩ := List.append_of_mem member
  cases behind with
  | nil =>
    obtain ⟨z, last, empty, _, _⟩ := layout.last
    rw [List.getLast?_concat] at last
    obtain rfl := Option.some.inj last
    rw [empty]
    decide
  | cons n rest => exact (List.isChain_append_cons_cons.mp layout.follows).2.1.2.1

theorem Exact.members (exact : Exact kept lists) (tiled : Tiled tlsf finish blocks)
    (listed : ∀ x ∈ kept, x.free = true → ∃ y ∈ blocks, y.free = true ∧ y.addr = x.addr) :
    Members (roomOf blocks) lists := by
  intro c _ x member
  obtain ⟨y, inside, free, rfl, _⟩ := (exact c x).mp member
  obtain ⟨z, member, free, same⟩ := listed y inside free
  rw [← same, roomOf_eq tiled member, Block.words, free]
  rfl

/-- The block `b` is in use and its header, like that of `n` behind it, may be out of date. -/
structure Opened (tlsf : Word) (finish : Nat) (m : Memory) (front : List Block) (b n : Block) (back : List Block)
    (lists : Nat → List Word) : Prop where
  layout : Layout tlsf finish (front ++ b :: n :: back)
  some : front ≠ []
  used : b.free = false
  used' : n.free = false
  headed : ∀ x ∈ front ++ back, Headed tlsf m x
  stale : ∃ size free, 8 ∣ size.toNat ∧ Cell.get tlsf m (.field b.addr 1) = header size free b.prev.isSome
  behind : ∀ p, b.prev = Option.some p → Cell.get tlsf m (.field b.addr 0) = p
  stale' : ∃ prevFree, Cell.get tlsf m (.field n.addr 1) = header n.size false prevFree
  filed : Filed tlsf m lists
  exact : Exact (front ++ back) lists

theorem Opened.same (opened : Opened tlsf finish m front b n back lists) : usedBlock b.addr b.size b.prev = b := by
  rw [usedBlock, ← opened.used]

theorem exact_insert {c : Nat} (exact : Exact (front ++ back) lists) (free : b.free = true)
    (same : classOf b.size.toNat = c) :
    Exact (front ++ b :: back) (Function.update lists c (b.addr :: lists c)) := by
  intro c' x
  by_cases here : c' = c
  · subst here
    rw [Function.update_self, List.mem_cons, exact c' x]
    constructor
    · rintro (rfl | ⟨y, member, rest⟩)
      · exact ⟨b, List.mem_append_right _ List.mem_cons_self, free, rfl, same⟩
      · exact ⟨y, by simp only [List.mem_append, List.mem_cons] at member ⊢; tauto, rest⟩
    · rintro ⟨y, member, rest⟩
      simp only [List.mem_append, List.mem_cons] at member
      rcases member with inFront | rfl | inBack
      · exact Or.inr ⟨y, List.mem_append_left _ inFront, rest⟩
      · exact Or.inl rest.2.1.symm
      · exact Or.inr ⟨y, List.mem_append_right _ inBack, rest⟩
  · rw [Function.update_of_ne here, exact c' x]
    constructor
    · rintro ⟨y, member, rest⟩
      exact ⟨y, by simp only [List.mem_append, List.mem_cons] at member ⊢; tauto, rest⟩
    · rintro ⟨y, member, rest⟩
      simp only [List.mem_append, List.mem_cons] at member
      rcases member with inFront | rfl | inBack
      · exact ⟨y, List.mem_append_left _ inFront, rest⟩
      · exact absurd (rest.2.2.symm.trans same) here
      · exact ⟨y, List.mem_append_right _ inBack, rest⟩

theorem exact_erase {c : Nat} (exact : Exact (front ++ b :: back) lists) (nodup : (lists c).Nodup)
    (same : classOf b.size.toNat = c) (others : ∀ x ∈ front ++ back, x.addr ≠ b.addr) :
    Exact (front ++ back) (Function.update lists c ((lists c).erase b.addr)) := by
  have weaken {y : Block} (member : y ∈ front ++ back) : y ∈ front ++ b :: back := by
    rcases List.mem_append.mp member with inFront | inBack
    · exact List.mem_append_left _ inFront
    · exact List.mem_append_right _ (List.mem_cons_of_mem _ inBack)
  intro c' x
  by_cases here : c' = c
  · subst here
    rw [Function.update_self, nodup.mem_erase_iff, exact c' x]
    constructor
    · rintro ⟨other, y, member, free, rfl, rest⟩
      refine ⟨y, ?_, free, rfl, rest⟩
      simp only [List.mem_append, List.mem_cons] at member
      rcases member with inFront | rfl | inBack
      · exact List.mem_append_left _ inFront
      · exact absurd rfl other
      · exact List.mem_append_right _ inBack
    · rintro ⟨y, member, free, rfl, rest⟩
      exact ⟨others y member, y, weaken member, free, rfl, rest⟩
  · rw [Function.update_of_ne here, exact c' x]
    constructor
    · rintro ⟨y, member, rest⟩
      refine ⟨y, ?_, rest⟩
      simp only [List.mem_append, List.mem_cons] at member
      rcases member with inFront | rfl | inBack
      · exact List.mem_append_left _ inFront
      · exact absurd (rest.2.2.symm.trans same) here
      · exact List.mem_append_right _ inBack
    · rintro ⟨y, member, rest⟩
      exact ⟨y, weaken member, rest⟩

theorem exact_used (used : b.free = false) : Exact (front ++ b :: back) lists ↔ Exact (front ++ back) lists := by
  have same (c : Nat) (x : Word) : (∃ y ∈ front ++ b :: back, y.free = true ∧ y.addr = x ∧ classOf y.size.toNat = c) ↔
      ∃ y ∈ front ++ back, y.free = true ∧ y.addr = x ∧ classOf y.size.toNat = c := by
    constructor
    · rintro ⟨y, member, free, rest⟩
      simp only [List.mem_append, List.mem_cons] at member
      rcases member with inFront | rfl | inBack
      · exact ⟨y, List.mem_append_left _ inFront, free, rest⟩
      · exact absurd (used.symm.trans free) Bool.false_ne_true
      · exact ⟨y, List.mem_append_right _ inBack, free, rest⟩
    · rintro ⟨y, member, rest⟩
      exact ⟨y, by simp only [List.mem_append, List.mem_cons] at member ⊢; tauto, rest⟩
  exact forall₂_congr fun c x => iff_congr Iff.rfl (same c x)

theorem Opened.exact_behind (opened : Opened tlsf finish m front b n back lists) : Exact (front ++ n :: back) lists :=
  (exact_used opened.used').mpr opened.exact

theorem Opened.close (opened : Opened tlsf finish m front b n back lists) (filed : Filed tlsf m' lists)
    (headed : ∀ x ∈ front ++ b :: n :: back, Headed tlsf m' x) :
    Heap tlsf finish m' (front ++ b :: n :: back) lists :=
  ⟨opened.layout, headed, filed, (exact_used opened.used).mpr ((exact_used opened.used').mpr opened.exact)⟩

theorem Headed.keeps {x : Block} (headed : Headed tlsf m x)
    (same : ∀ k : Fin 4, k < 2 → Cell.get tlsf m' (.field x.addr k) = Cell.get tlsf m (.field x.addr k)) :
    Headed tlsf m' x := by
  refine ⟨(same 1 (by decide)).trans headed.1, fun p link => ?_⟩
  rw [same 0 (by decide)]
  exact headed.2 p link

theorem field_valid_two {room : Word → Nat} {x : Word} (two : 2 ≤ room x) {k : Fin 4} (small : k < 2) :
    (Cell.field x k).Valid room := by
  change k.val < room x
  have less : k.val < 2 := small
  omega

theorem Tiled.two_le {tlsf : Word} {finish : Nat} {blocks : List Block} (tiled : Tiled tlsf finish blocks)
    (member : b ∈ blocks) : 2 ≤ roomOf blocks b.addr := by
  rw [roomOf_eq tiled member, Block.words]
  split <;> omega

def splitBlocks (front : List Block) (b n : Block) (back : List Block) (size : Word) : List Block :=
  front ++ usedBlock b.addr size b.prev :: freeBlock (b.addr + 8 + size) (b.size - size - 8) ::
    n.behind (some (b.addr + 8 + size)) :: back

theorem split_inside (front : List Block) (b n : Block) (back : List Block) (size : Word) :
    usedBlock b.addr size b.prev ∈ splitBlocks front b n back size ∧
    freeBlock (b.addr + 8 + size) (b.size - size - 8) ∈ splitBlocks front b n back size ∧
    n.behind (some (b.addr + 8 + size)) ∈ splitBlocks front b n back size :=
  ⟨List.mem_append_right _ List.mem_cons_self,
    List.mem_append_right _ (List.mem_cons_of_mem _ List.mem_cons_self),
    List.mem_append_right _ (List.mem_cons_of_mem _ (List.mem_cons_of_mem _ List.mem_cons_self))⟩

theorem split_outside {x : Block} (member : x ∈ front ++ back) : x ∈ splitBlocks front b n back size := by
  rcases List.mem_append.mp member with inFront | inBack
  · exact List.mem_append_left _ inFront
  · exact List.mem_append_right _ (List.mem_cons_of_mem _ (List.mem_cons_of_mem _ (List.mem_cons_of_mem _ inBack)))

section SplitTail

variable {size : Word} (opened : Opened tlsf finish m front b n back lists) (aligned : 8 ∣ size.toNat)
  (least : 8 ≤ size.toNat) (fits : size.toNat + 16 ≤ b.size.toNat)

include opened aligned least fits

theorem split_layout : Layout tlsf finish (splitBlocks front b n back size) := by
  have chain := (List.isChain_append.mp opened.layout.follows).2.1
  rw [← opened.same] at chain
  exact opened.layout.replace opened.some rfl rfl (fun free => absurd free Bool.false_ne_true)
    (split_chain chain opened.used' aligned least fits) (endsAlike_cons (alike_behind n _)).right

theorem split_order :
    (∀ x ∈ front ++ back, x.addr ≠ b.addr ∧ x.addr ≠ b.addr + 8 + size ∧ x.addr ≠ n.addr) ∧
      b.addr ≠ b.addr + 8 + size ∧ b.addr ≠ n.addr ∧ b.addr + 8 + size ≠ n.addr := by
  have order := (split_layout opened aligned least fits).tiled.pairwise
  simp only [splitBlocks, List.pairwise_append, List.pairwise_cons, List.forall_mem_cons] at order
  obtain ⟨_, ⟨⟨split, whole, first⟩, ⟨rest, second⟩, third, _⟩, cross⟩ := order
  refine ⟨fun x member => ?_, split.ne, whole.ne, rest.ne⟩
  rcases List.mem_append.mp member with inFront | inBack
  · obtain ⟨before, before', before'', _⟩ := cross x inFront
    exact ⟨before.ne, before'.ne, before''.ne⟩
  · exact ⟨(first x inBack).ne.symm, (second x inBack).ne.symm, (third x inBack).ne.symm⟩

theorem split_members : Members (roomOf (splitBlocks front b n back size)) lists :=
  opened.exact.members (split_layout opened aligned least fits).tiled
    fun x member free => ⟨x, split_outside member, free, rfl⟩

theorem splitTail_words :
    (∀ (x : Word) (k : Fin 4), k < 2 → (Cell.field x k).Valid (roomOf (splitBlocks front b n back size)) →
      Cell.get tlsf (splitTail b.addr n.addr size (b.size - size) tlsf m) (.field x k) =
        if x = b.addr ∧ k = 1 then header size false b.prev.isSome
        else if x = n.addr ∧ k = 1 then header n.size false true
        else if x = n.addr ∧ k = 0 then b.addr + 8 + size
        else if x = b.addr + 8 + size ∧ k = 1 then header (b.size - size - 8) true false
        else Cell.get tlsf m (.field x k)) ∧
    Filed tlsf (splitTail b.addr n.addr size (b.size - size) tlsf m)
      (Function.update lists (classOf (b.size - size - 8).toNat)
        ((b.addr + 8 + size) :: lists (classOf (b.size - size - 8).toNat))) ∧
    ChangesOnly (Cell.owned tlsf (roomOf (splitBlocks front b n back size))) m
      (splitTail b.addr n.addr size (b.size - size) tlsf m) := by
  have layout := split_layout opened aligned least fits
  have members := split_members opened aligned least fits
  obtain ⟨others, apart, apart', apart''⟩ := split_order opened aligned least fits
  have tiled := layout.tiled
  have placed := layout.placed tiled
  obtain ⟨inside, inside', inside''⟩ := split_inside front b n back size
  set addr := b.addr + 8 + size with place
  have two := tiled.two_le inside
  have two'' := tiled.two_le inside''
  change 2 ≤ roomOf _ b.addr at two
  change 2 ≤ roomOf _ n.addr at two''
  have four : roomOf (splitBlocks front b n back size) addr = 4 := roomOf_eq tiled inside'
  have bound : classOf (b.size - size - 8).toNat < 768 := classOf_lt.mpr (layout.size_lt inside')
  have first := field_valid_two two (k := 1) (by decide)
  have second := field_valid four 1
  have third := field_valid_two two'' (k := 0) (by decide)
  have fourth := field_valid_two two'' (k := 1) (by decide)
  obtain ⟨stale, wasFree, whole, held⟩ := opened.stale
  obtain ⟨prevFree, held'⟩ := opened.stale'
  simp only [splitTail, setSize_cell tlsf, setPrevHdr_cell tlsf, size_cell tlsf, mappingInsert_eq, getNextBlock,
    Bhdr.buffer, BHDR_OVERHEAD, ← place]
  rw [header_fresh]
  set m₁ := Cell.put tlsf (.field addr 1) (header (b.size - size - 8) true false) m
  set m₂ := Cell.put tlsf (.field n.addr 0) addr m₁
  have seen : Cell.get tlsf m₂ (.field n.addr 1) = header n.size false prevFree := by
    rw [placed.get_put third fourth, placed.get_put second fourth, held']
    simp only [Cell.field.injEq, apart''.symm, Fin.reduceEq, false_and, and_false, if_false]
  rw [seen, (header_set false prevFree).2]
  set m₃ := Cell.put tlsf (.field n.addr 1) (header n.size false true) m₂
  have filed₁ := opened.filed.put_header members placed (by decide) second (header (b.size - size - 8) true false)
  have filed₂ := filed₁.put_header members placed (by decide) third addr
  have filed₃ := filed₂.put_header members placed (by decide) fourth (header n.size false true)
  have room := filed₃.head_room members bound
  set m₄ := insertBlock addr tlsf (Index.ofRank (classOf (b.size - size - 8).toNat)) m₃
  have seen' : Cell.get tlsf m₄ (.field b.addr 1) = header stale wasFree b.prev.isSome := by
    rw [insertBlock_header placed four bound room (by decide) first, placed.get_put fourth first,
      placed.get_put third first, placed.get_put second first, held]
    simp only [Cell.field.injEq, apart, apart', false_and, if_false]
  rw [seen', header_prevState whole]
  have fresh : ∀ c < 768, addr ∉ lists c := by
    intro c small member
    obtain ⟨x, member, _, same, _⟩ := (opened.exact c addr).mp member
    exact (others x member).2.1 same
  have filed₄ := insertBlock_filed filed₃ members placed four bound fresh (tiled.addr_ne_zero inside')
  refine ⟨fun x k small valid => ?_, filed₄.put_header (members.insert four) placed (by decide) first _, ?_⟩
  · rw [placed.get_put first valid, insertBlock_header placed four bound room small valid, placed.get_put fourth valid,
      placed.get_put third valid, placed.get_put second valid]
    simp only [Cell.field.injEq]
  · refine ChangesOnly.trans ?_ (placed.put_changesOnly first _ _)
    refine ChangesOnly.trans ?_ (insertBlock_changesOnly placed four bound room)
    refine ChangesOnly.trans ?_ (placed.put_changesOnly fourth _ _)
    exact (placed.put_changesOnly second _ _).trans (placed.put_changesOnly third _ _)

theorem splitTail_heap :
    (∃ lists', Heap tlsf finish (splitTail b.addr n.addr size (b.size - size) tlsf m)
      (splitBlocks front b n back size) lists') ∧
    ChangesOnly (claimed tlsf finish (front ++ usedBlock b.addr size b.prev :: n :: back)) m
      (splitTail b.addr n.addr size (b.size - size) tlsf m) := by
  have layout := split_layout opened aligned least fits
  obtain ⟨others, apart, apart', apart''⟩ := split_order opened aligned least fits
  obtain ⟨words, filed, changes⟩ := splitTail_words opened aligned least fits
  have tiled := layout.tiled
  have headed : ∀ x ∈ splitBlocks front b n back size,
      Headed tlsf (splitTail b.addr n.addr size (b.size - size) tlsf m) x := by
    intro x member
    have at' (k : Fin 4) (small : k < 2) := words x.addr k small (field_valid_two (tiled.two_le member) small)
    have first := at' 0 (by decide)
    have second := at' 1 (by decide)
    have other (inList : x ∈ front ++ back) :
        Headed tlsf (splitTail b.addr n.addr size (b.size - size) tlsf m) x := by
      obtain ⟨not, not', not''⟩ := others x inList
      refine (opened.headed x inList).keeps fun k small => ?_
      rw [at' k small]
      simp only [not, not', not'', false_and, if_false]
    simp only [splitBlocks, List.mem_append, List.mem_cons] at member
    rcases member with inFront | rfl | rfl | rfl | inBack
    · exact other (List.mem_append_left _ inFront)
    · simp only [usedBlock, apart, apart', Fin.reduceEq, and_true, and_false, if_true, if_false] at first second
      exact ⟨second, fun p link => first.trans (opened.behind p link)⟩
    · simp only [freeBlock, apart.symm, apart'', and_true, false_and, if_true, if_false] at second
      exact ⟨second, fun p link => absurd link.symm (Option.some_ne_none _)⟩
    · simp only [Block.behind, apart'.symm, Fin.reduceEq, and_true, and_false, if_true, if_false] at first second
      exact ⟨second.trans (congrArg (header n.size · true) opened.used'.symm),
        fun p link => first.trans (Option.some.inj link)⟩
    · exact other (List.mem_append_right _ inBack)
  have exact : Exact (splitBlocks front b n back size) (Function.update lists (classOf (b.size - size - 8).toNat)
      ((b.addr + 8 + size) :: lists (classOf (b.size - size - 8).toNat))) := by
    have before : Exact (front ++ usedBlock b.addr size b.prev :: n.behind (some (b.addr + 8 + size)) :: back) lists :=
      (exact_used rfl).mpr ((exact_used (b := n.behind (some (b.addr + 8 + size))) opened.used').mpr opened.exact)
    rw [List.append_cons] at before
    have later := exact_insert (b := freeBlock (b.addr + 8 + size) (b.size - size - 8)) before rfl rfl
    rwa [← List.append_cons] at later
  refine ⟨⟨_, layout, headed, filed, exact⟩, changes.mono (owned_subset layout tiled fun x member => ?_)⟩
  obtain ⟨inside, _, behind⟩ := split_inside front b n back size
  simp only [List.mem_append, List.mem_cons] at member
  rcases member with inFront | rfl | rfl | inBack
  · exact within_of_mem (split_outside (List.mem_append_left _ inFront))
  · exact within_of_mem inside
  · exact fun used => ⟨_, behind, used, rfl, Nat.le_refl _⟩
  · exact within_of_mem (split_outside (List.mem_append_right _ inBack))

end SplitTail

end Tlsf

end GenericBooter
