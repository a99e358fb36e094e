import GenericBooter.Tlsf.Malloc

namespace GenericBooter

open ByteMemory

namespace Tlsf

/-- All is in order but the header of the block `b`, which is in use. -/
structure Loose (tlsf : Word) (finish : Nat) (m : Memory) (front : List Block) (b : Block) (back : List Block)
    (lists : Nat → List Word) : Prop where
  layout : Layout tlsf finish (front ++ b :: back)
  some : front ≠ []
  used : b.free = false
  headed : ∀ x ∈ front ++ back, Headed tlsf m x
  stale : ∃ size free, 8 ∣ size.toNat ∧ Cell.get tlsf m (.field b.addr 1) = header size free b.prev.isSome
  behind : ∀ p, b.prev = Option.some p → Cell.get tlsf m (.field b.addr 0) = p
  filed : Filed tlsf m lists
  exact : Exact (front ++ back) lists

def Block.roomy (b : Block) : Block := { b with free := true }

def Block.merge (b n : Block) : Block := ⟨b.addr, b.size + (n.size + 8), false, b.prev⟩

variable {tlsf : Word} {finish : Nat} {m m' : Memory} {blocks front back : List Block} {lists : Nat → List Word}
  {a b n p : Block} {k : Fin 4} {value : Word}

theorem Heap.loose (heap : Heap tlsf finish m (front ++ b :: back) lists) (some : front ≠ []) (used : b.free = false) :
    Loose tlsf finish m front b back lists := by
  have member : b ∈ front ++ b :: back := List.mem_append_right _ List.mem_cons_self
  exact ⟨heap.layout, some, used, fun x kept => heap.headed x (mem_around kept),
    ⟨b.size, b.free, heap.layout.aligned member, (heap.headed b member).1⟩, (heap.headed b member).2, heap.filed,
    (exact_used used).mp heap.exact⟩

theorem Loose.opened (loose : Loose tlsf finish m front b (n :: back) lists) (used : n.free = false) :
    Opened tlsf finish m front b n back lists := by
  refine ⟨loose.layout, loose.some, loose.used, used, ?_, loose.stale, loose.behind, ⟨n.prev.isSome, ?_⟩, loose.filed,
    (exact_used used).mp loose.exact⟩
  · exact fun x kept => loose.headed x (mem_around kept)
  · rw [← used]
    exact (loose.headed n (List.mem_append_right _ List.mem_cons_self)).1

section Roomy

variable (layout : Layout tlsf finish (front ++ b :: n :: back))

include layout

theorem roomy_tiled : Tiled tlsf finish (front ++ b.roomy :: n :: back) := by
  have tiled := layout.tiled
  obtain ⟨before, behind, joint⟩ := List.isChain_append.mp tiled.tiles
  refine ⟨List.isChain_append.mpr ⟨before, ?_, ?_⟩, ?_, ?_⟩
  · rw [List.isChain_cons_cons] at behind ⊢
    exact behind
  · intro x last y first
    obtain rfl := Option.some.inj first
    exact joint x last b rfl
  · intro x first
    cases front with
    | nil =>
      obtain rfl := Option.some.inj first
      exact tiled.start b rfl
    | cons z rest => exact tiled.start x first
  · intro x last
    rw [List.getLast?_append, List.getLast?_cons_cons] at last
    apply tiled.ends x
    rw [List.getLast?_append, List.getLast?_cons_cons]
    exact last

theorem roomy_four : roomOf (front ++ b.roomy :: n :: back) b.addr = 4 :=
  roomOf_eq (b := b.roomy) (roomy_tiled layout) (List.mem_append_right _ List.mem_cons_self)

theorem roomy_two {x : Block} (member : x ∈ front ++ b :: n :: back) :
    2 ≤ roomOf (front ++ b.roomy :: n :: back) x.addr := by
  rcases List.mem_append.mp member with inFront | inBack
  · exact (roomy_tiled layout).two_le (List.mem_append_left _ inFront)
  · rcases List.mem_cons.mp inBack with rfl | inBack
    · rw [roomy_four layout]
      decide
    · exact (roomy_tiled layout).two_le (List.mem_append_right _ (List.mem_cons_of_mem _ inBack))

theorem roomy_members (exact : Exact (front ++ n :: back) lists) :
    Members (roomOf (front ++ b.roomy :: n :: back)) lists :=
  exact.members (roomy_tiled layout) fun x member free => ⟨x, mem_around member, free, rfl⟩

theorem roomy_fresh (exact : Exact (front ++ n :: back) lists) : ∀ c < 768, b.addr ∉ lists c := by
  intro c _ member
  obtain ⟨x, inside, _, same, _⟩ := (exact c _).mp member
  exact layout.tiled.others inside same

theorem owned_roomy : Cell.owned tlsf (roomOf (front ++ b.roomy :: n :: back)) ⊆ claimed tlsf finish (front ++ n :: back) :=
  owned_subset layout (roomy_tiled layout) fun _ kept => within_of_mem (mem_around kept)

theorem put_own_headed {x : Block} (kept : x ∈ front ++ n :: back) (headed : Headed tlsf m x) :
    Headed tlsf (Cell.put tlsf (.field b.addr k) value m) x := by
  have placed := layout.placed (roomy_tiled layout)
  have other := layout.tiled.others kept
  refine headed.keeps fun j small => ?_
  rw [placed.get_put (field_valid (roomy_four layout) k) (field_valid_two (roomy_two layout (mem_around kept)) small),
    if_neg fun same => other (Cell.field.inj same).1]

theorem put_own_filed (filed : Filed tlsf m lists) (exact : Exact (front ++ n :: back) lists) :
    Filed tlsf (Cell.put tlsf (.field b.addr k) value m) lists := by
  have placed := layout.placed (roomy_tiled layout)
  have valid := field_valid (roomy_four layout) k
  apply filed.congr
  · intro i bound _
    rw [placed.get_put valid (control_valid bound), if_neg (by simp only [reduceCtorEq, not_false_eq_true])]
  · intro c bound x member
    have four := roomy_members layout exact c bound x member
    have other : x ≠ b.addr := fun same => roomy_fresh layout exact c bound (same ▸ member)
    rw [next_cell tlsf, prev_cell tlsf, next_cell tlsf, prev_cell tlsf, placed.get_put valid (field_valid four 3),
      placed.get_put valid (field_valid four 2)]
    simp only [Cell.field.injEq, other, false_and, if_false, and_self]

theorem put_own_changesOnly : ChangesOnly (claimed tlsf finish (front ++ n :: back)) m
    (Cell.put tlsf (.field b.addr k) value m) :=
  ((layout.placed (roomy_tiled layout)).put_changesOnly (field_valid (roomy_four layout) k) value m).mono
    (owned_roomy layout)

theorem put_own_get {j : Fin 4} : Cell.get tlsf (Cell.put tlsf (.field b.addr k) value m) (.field b.addr j) =
    if j = k then value else Cell.get tlsf m (.field b.addr j) := by
  rw [(layout.placed (roomy_tiled layout)).get_put (field_valid (roomy_four layout) k)
    (field_valid (roomy_four layout) j)]
  simp only [Cell.field.injEq, true_and]

end Roomy

def Fresh (b : Block) (k : Fin 4) (value : Word) : Prop :=
  k ≠ 0 ∧ (k = 1 → ∃ size free, 8 ∣ size.toNat ∧ value = header size free b.prev.isSome)

theorem Loose.put_own (loose : Loose tlsf finish m front b (n :: back) lists) (fresh : Fresh b k value) :
    Loose tlsf finish (Cell.put tlsf (.field b.addr k) value m) front b (n :: back) lists := by
  refine ⟨loose.layout, loose.some, loose.used, fun x kept => put_own_headed loose.layout kept (loose.headed x kept), ?_,
    fun q link => ?_, put_own_filed loose.layout loose.filed loose.exact, loose.exact⟩
  · rw [put_own_get loose.layout]
    by_cases own : 1 = k
    · obtain ⟨size, free, aligned, same⟩ := fresh.2 own.symm
      exact ⟨size, free, aligned, by rw [if_pos own, same]⟩
    · rw [if_neg own]
      exact loose.stale
  · rw [put_own_get loose.layout, if_neg fresh.1.symm]
    exact loose.behind q link

theorem Opened.put_own (opened : Opened tlsf finish m front b n back lists) (fresh : Fresh b k value) :
    Opened tlsf finish (Cell.put tlsf (.field b.addr k) value m) front b n back lists := by
  have exact := opened.exact_behind
  refine ⟨opened.layout, opened.some, opened.used, opened.used', fun x kept => ?_, ?_, fun q link => ?_, ?_,
    put_own_filed opened.layout opened.filed exact, opened.exact⟩
  · exact put_own_headed opened.layout (mem_around kept) (opened.headed x kept)
  · rw [put_own_get opened.layout]
    by_cases own : 1 = k
    · obtain ⟨size, free, aligned, same⟩ := fresh.2 own.symm
      exact ⟨size, free, aligned, by rw [if_pos own, same]⟩
    · rw [if_neg own]
      exact opened.stale
  · rw [put_own_get opened.layout, if_neg fresh.1.symm]
    exact opened.behind q link
  · obtain ⟨prevFree, held⟩ := opened.stale'
    have inside : n ∈ front ++ n :: back := List.mem_append_right _ List.mem_cons_self
    refine ⟨prevFree, ?_⟩
    rw [(opened.layout.placed (roomy_tiled opened.layout)).get_put (field_valid (roomy_four opened.layout) k)
      (field_valid_two (roomy_two opened.layout (mem_around inside)) (by decide)), held,
      if_neg fun same => opened.layout.tiled.others inside (Cell.field.inj same).1]

theorem Opened.put_next (opened : Opened tlsf finish m front b n back lists) (value : Word)
    (fresh : k = 0 ∨ k = 1 ∧ ∃ prevFree, value = header n.size false prevFree) :
    Opened tlsf finish (Cell.put tlsf (.field n.addr k) value m) front b n back lists ∧
      ChangesOnly (claimed tlsf finish (front ++ b :: n :: back)) m (Cell.put tlsf (.field n.addr k) value m) ∧
      Cell.get tlsf (Cell.put tlsf (.field n.addr k) value m) (.field b.addr 1) = Cell.get tlsf m (.field b.addr 1) := by
  have tiled := opened.layout.tiled
  have placed := opened.layout.placed tiled
  have inside : n ∈ front ++ b :: n :: back := mem_around (List.mem_append_right _ List.mem_cons_self)
  have inside' : b ∈ front ++ b :: n :: back := List.mem_append_right _ List.mem_cons_self
  have less : k < 2 := by
    rcases fresh with rfl | ⟨rfl, _⟩
    · decide
    · decide
  have valid := field_valid_two (tiled.two_le inside) less
  have words {x : Block} (member : x ∈ front ++ b :: n :: back) {j : Fin 4} (small : j < 2) :
      Cell.get tlsf (Cell.put tlsf (.field n.addr k) value m) (.field x.addr j) =
        if x.addr = n.addr ∧ j = k then value else Cell.get tlsf m (.field x.addr j) := by
    rw [placed.get_put valid (field_valid_two (tiled.two_le member) small)]
    simp only [Cell.field.injEq]
  have others {x : Block} (kept : x ∈ (front ++ [b]) ++ back) : x.addr ≠ n.addr := by
    rw [List.append_cons] at tiled
    exact tiled.others kept
  have before : b.addr ≠ n.addr := others (List.mem_append_left _ (List.mem_append_right _ List.mem_cons_self))
  have members := opened.exact.members tiled fun x member free => ⟨x, mem_around (mem_around member), free, rfl⟩
  refine ⟨⟨opened.layout, opened.some, opened.used, opened.used', fun x kept => ?_, ?_, fun q link => ?_, ?_,
    opened.filed.put_header members placed less valid value, opened.exact⟩,
    (placed.put_changesOnly valid value m).mono (owned_subset opened.layout tiled fun x => within_of_mem), ?_⟩
  · have other : x.addr ≠ n.addr := others (by rw [← List.append_cons]; exact mem_around kept)
    refine (opened.headed x kept).keeps fun j small => ?_
    rw [words (mem_around (mem_around kept)) small, if_neg fun both => other both.1]
  · obtain ⟨size, free, aligned, held⟩ := opened.stale
    exact ⟨size, free, aligned, by rw [words inside' (by decide), if_neg fun both => before both.1, held]⟩
  · rw [words inside' (by decide), if_neg fun both => before both.1]
    exact opened.behind q link
  · rw [words inside (by decide)]
    rcases fresh with rfl | ⟨rfl, prevFree, rfl⟩
    · rw [if_neg fun both => absurd both.2 (by decide)]
      exact opened.stale'
    · exact ⟨prevFree, by rw [if_pos ⟨rfl, rfl⟩]⟩
  · rw [words inside' (by decide), if_neg fun both => before both.1]

theorem Opened.put_header_changesOnly (opened : Opened tlsf finish m front b n back lists) (value : Word) (small : k < 2) :
    ChangesOnly (claimed tlsf finish (front ++ b :: n :: back)) m (Cell.put tlsf (.field b.addr k) value m) := by
  have tiled := opened.layout.tiled
  have valid := field_valid_two (tiled.two_le (List.mem_append_right front List.mem_cons_self)) small
  exact ((opened.layout.placed tiled).put_changesOnly valid value m).mono
    (owned_subset opened.layout tiled fun x => within_of_mem)

theorem extract_taken {room : Word → Nat} {x : Word} {c : Nat} (filed : Filed tlsf m lists)
    (members : Members room lists) (placed : Placed tlsf room) (bound : c < 768) (member : x ∈ lists c) :
    (∀ {cell : Cell}, cell.Valid room →
      Cell.get tlsf (extractBlock x tlsf (Index.ofRank c) m) cell = takenOut tlsf m x c cell) ∧
      ChangesOnly (Cell.owned tlsf room) m (extractBlock x tlsf (Index.ofRank c) m) := by
  have links := filed.links bound member
  rw [next_cell tlsf, prev_cell tlsf] at links
  have next := links.1.imp_right (members c bound _)
  have prev := links.2.imp_right (members c bound _)
  have four := members c bound x member
  exact ⟨extractBlock_get placed four bound next prev, extractBlock_changesOnly placed four bound next prev⟩

theorem exact_listed (exact : Exact blocks lists) (member : b ∈ blocks) (free : b.free = true) :
    b.addr ∈ lists (classOf b.size.toNat) := (exact _ _).mpr ⟨b, member, free, rfl, rfl⟩

section Forward

variable (loose : Loose tlsf finish m front b (n :: p :: back) lists) (free : n.free = true)

include loose free

theorem forward_layout : Layout tlsf finish (front ++ b.merge n :: p.behind none :: back) ∧
    (b.merge n).size.toNat = b.size.toNat + (n.size.toNat + 8) ∧ p.free = false := by
  have chain := (List.isChain_append.mp loose.layout.follows).2.1
  have merged := merge_chain chain rfl false fun used => absurd used Bool.false_ne_true
  have order := (List.isChain_cons_cons.mp (List.isChain_cons_cons.mp chain).2).1
  refine ⟨?_, merged.2, Bool.eq_false_of_not_eq_true fun freeToo => order.2.2.2 ⟨free, freeToo⟩⟩
  exact loose.layout.replace loose.some rfl rfl (fun used => absurd used Bool.false_ne_true) merged.1
    (endsAlike_cons (alike_behind p none)).left

theorem Loose.forward :
    Opened tlsf finish (extractBlock n.addr tlsf (Index.ofRank (classOf n.size.toNat)) m) front (b.merge n)
        (p.behind none) back
        (Function.update lists (classOf n.size.toNat) ((lists (classOf n.size.toNat)).erase n.addr)) ∧
      ChangesOnly (claimed tlsf finish (front ++ b :: n :: p :: back)) m
        (extractBlock n.addr tlsf (Index.ofRank (classOf n.size.toNat)) m) ∧
      (∀ x ∈ front ++ b :: n :: p :: back, ∀ k : Fin 4, k < 2 →
        Cell.get tlsf (extractBlock n.addr tlsf (Index.ofRank (classOf n.size.toNat)) m) (.field x.addr k) =
          Cell.get tlsf m (.field x.addr k)) := by
  obtain ⟨layout, _, used⟩ := forward_layout loose free
  have inside : n ∈ front ++ n :: p :: back := List.mem_append_right _ List.mem_cons_self
  have inside' : p ∈ front ++ n :: p :: back := List.mem_append_right _ (List.mem_cons_of_mem _ List.mem_cons_self)
  have bound : classOf n.size.toNat < 768 := classOf_lt.mpr (loose.layout.size_lt (mem_around inside))
  have listed := exact_listed loose.exact inside free
  have tiled := loose.layout.tiled
  have members := loose.exact.members tiled fun x member free => ⟨x, mem_around member, free, rfl⟩
  obtain ⟨taken, changes⟩ := extract_taken loose.filed members (loose.layout.placed tiled) bound listed
  set m' := extractBlock n.addr tlsf (Index.ofRank (classOf n.size.toNat)) m
  have headers (x : Block) (member : x ∈ front ++ b :: n :: p :: back) (k : Fin 4) (small : k < 2) :
      Cell.get tlsf m' (.field x.addr k) = Cell.get tlsf m (.field x.addr k) := by
    rw [taken (field_valid_two (tiled.two_le member) small), takenOut_header small]
  have others {x : Block} (kept : x ∈ front ++ p :: back) : x.addr ≠ n.addr := by
    rw [List.append_cons] at tiled
    refine tiled.others ?_
    rw [List.append_assoc]
    exact mem_around kept
  refine ⟨⟨layout, loose.some, rfl, used, fun x kept => ?_, ?_, fun q link => ?_, ⟨p.prev.isSome, ?_⟩, ?_, ?_⟩,
    changes.mono (owned_subset loose.layout tiled fun x => within_of_mem), headers⟩
  · have kept' : x ∈ front ++ n :: p :: back := mem_around (mem_around kept)
    exact (loose.headed x kept').keeps (headers x (mem_around kept'))
  · obtain ⟨size, free', aligned, held⟩ := loose.stale
    exact ⟨size, free', aligned,
      (headers b (List.mem_append_right _ List.mem_cons_self) 1 (by decide)).trans held⟩
  · exact (headers b (List.mem_append_right _ List.mem_cons_self) 0 (by decide)).trans (loose.behind q link)
  · have held := (loose.headed p inside').1
    rw [used] at held
    exact (headers p (mem_around inside') 1 (by decide)).trans held
  · exact extract_filed loose.filed members bound listed taken
  · exact (exact_used used).mp (exact_erase loose.exact (loose.filed.nodup _ bound) rfl fun x kept => others kept)

end Forward

section Backward

variable (opened : Opened tlsf finish m (front ++ [a]) b n back lists) (free : a.free = true)

include opened free

theorem backward_layout : Layout tlsf finish (front ++ a.merge b :: n :: back) ∧
    (a.merge b).size.toNat = a.size.toNat + (b.size.toNat + 8) ∧ front ≠ [] ∧ a.prev = none := by
  have layout := opened.layout
  rw [← List.append_cons] at layout
  have chain := (List.isChain_append.mp layout.follows).2.1
  have order := (List.isChain_cons_cons.mp (List.isChain_cons_cons.mp chain).2).1
  have merged := merge_chain chain rfl false fun used => absurd used Bool.false_ne_true
  have same : n.behind none = n := by rw [Block.behind, ← order.prev_none.mpr opened.used]
  have some := layout.front_ne_nil free
  have ends : EndsAlike (n :: back) (n.behind none :: back) := endsAlike_cons (alike_behind n none)
  rw [same] at ends
  have chain' := merged.1
  simp only [Bool.false_eq_true, if_false, same] at chain'
  exact ⟨layout.replace some rfl rfl (fun used => absurd used Bool.false_ne_true) chain' ends.left, merged.2, some,
    (layout.free_neighbours free).1⟩

theorem Opened.backward :
    Opened tlsf finish (extractBlock a.addr tlsf (Index.ofRank (classOf a.size.toNat)) m) front (a.merge b) n back
        (Function.update lists (classOf a.size.toNat) ((lists (classOf a.size.toNat)).erase a.addr)) ∧
      ChangesOnly (claimed tlsf finish (front ++ a :: n :: back)) m
        (extractBlock a.addr tlsf (Index.ofRank (classOf a.size.toNat)) m) ∧
      (∀ x ∈ front ++ a :: b :: n :: back, ∀ k : Fin 4, k < 2 →
        Cell.get tlsf (extractBlock a.addr tlsf (Index.ofRank (classOf a.size.toNat)) m) (.field x.addr k) =
          Cell.get tlsf m (.field x.addr k)) := by
  obtain ⟨layout, _, some, alone⟩ := backward_layout opened free
  have whole := opened.layout
  have inside : a ∈ (front ++ [a]) ++ n :: back := List.mem_append_left _ (List.mem_append_right _ List.mem_cons_self)
  have inside' : n ∈ (front ++ [a]) ++ n :: back := List.mem_append_right _ List.mem_cons_self
  have kept' : a ∈ (front ++ [a]) ++ back := List.mem_append_left _ (List.mem_append_right _ List.mem_cons_self)
  have exact := opened.exact_behind
  have bound : classOf a.size.toNat < 768 := classOf_lt.mpr (whole.size_lt (mem_around inside))
  have listed := exact_listed exact inside free
  have members := roomy_members whole exact
  obtain ⟨taken, changes⟩ := extract_taken opened.filed members (whole.placed (roomy_tiled whole)) bound listed
  have changes' := changes.mono (owned_roomy whole)
  rw [← List.append_cons] at changes'
  set m' := extractBlock a.addr tlsf (Index.ofRank (classOf a.size.toNat)) m
  have headers (x : Block) (member : x ∈ (front ++ [a]) ++ b :: n :: back) (k : Fin 4) (small : k < 2) :
      Cell.get tlsf m' (.field x.addr k) = Cell.get tlsf m (.field x.addr k) := by
    rw [taken (field_valid_two (roomy_two whole member) small), takenOut_header small]
  have others {x : Block} (kept : x ∈ front ++ back) : x.addr ≠ a.addr := by
    have tiled := whole.tiled
    rw [← List.append_cons] at tiled
    exact tiled.others (mem_around (mem_around kept))
  have erased : Exact (front ++ back) (Function.update lists (classOf a.size.toNat)
      ((lists (classOf a.size.toNat)).erase a.addr)) := by
    have before := opened.exact
    rw [← List.append_cons] at before
    exact exact_erase before (opened.filed.nodup _ bound) rfl fun x kept => others kept
  have headed := opened.headed a kept'
  refine ⟨⟨layout, some, rfl, opened.used', fun x kept => ?_, ⟨a.size, a.free, whole.aligned (mem_around inside), ?_⟩,
    fun q link => ?_, ?_, extract_filed opened.filed members bound listed taken, erased⟩, changes', ?_⟩
  · have kept' : x ∈ (front ++ [a]) ++ back := by
      rw [← List.append_cons]
      exact mem_around kept
    exact (opened.headed x kept').keeps (headers x (mem_around (mem_around kept')))
  · exact (headers a (mem_around inside) 1 (by decide)).trans headed.1
  · exact (headers a (mem_around inside) 0 (by decide)).trans (headed.2 q link)
  · obtain ⟨prevFree, held⟩ := opened.stale'
    exact ⟨prevFree, (headers n (mem_around inside') 1 (by decide)).trans held⟩
  · intro x member
    rw [List.append_cons] at member
    exact headers x member

end Backward

section Release

variable (opened : Opened tlsf finish m front b n back lists) (alone : b.prev = none)
  (held : Cell.get tlsf m (.field b.addr 1) = header b.size true false)

include opened alone

theorem release_layout : Layout tlsf finish (front ++ freeBlock b.addr b.size :: n.behind (some b.addr) :: back) := by
  have chain := (List.isChain_append.mp opened.layout.follows).2.1
  rw [List.isChain_cons_cons] at chain
  obtain ⟨⟨tiles, aligned, _, _⟩, behind⟩ := chain
  refine opened.layout.replace opened.some rfl alone.symm (fun _ => alone) ?_ (endsAlike_cons (alike_behind n _))
  refine List.isChain_cons_cons.mpr ⟨⟨⟨tiles.1, tiles.2⟩, aligned, rfl, ?_⟩, chain_back behind (alike_behind n _)⟩
  rintro ⟨_, free⟩
  exact absurd (opened.used'.symm.trans free) Bool.false_ne_true

include held

theorem Opened.release :
    let m₁ := insertBlock b.addr tlsf (Index.ofRank (classOf b.size.toNat)) m
    let m₂ := Bhdr.setPrevHdr n.addr b.addr (Bhdr.setSize n.addr (Bhdr.size m₁ n.addr ||| PREV_FREE) m₁)
    Heap tlsf finish m₂ (front ++ freeBlock b.addr b.size :: n.behind (Option.some b.addr) :: back)
        (Function.update lists (classOf b.size.toNat) (b.addr :: lists (classOf b.size.toNat))) ∧
      ChangesOnly (claimed tlsf finish (front ++ n :: back)) m m₂ := by
  have layout := release_layout opened alone
  have whole := opened.layout
  have tiled := roomy_tiled whole
  have placed := whole.placed tiled
  have inside : n ∈ front ++ n :: back := List.mem_append_right _ List.mem_cons_self
  have inside' : b ∈ front ++ b :: n :: back := List.mem_append_right _ List.mem_cons_self
  have exact := opened.exact_behind
  have four := roomy_four whole
  have members := roomy_members whole exact
  have bound : classOf b.size.toNat < 768 := classOf_lt.mpr (whole.size_lt inside')
  have first := field_valid_two (roomy_two whole (mem_around inside)) (k := 0) (by decide)
  have second := field_valid_two (roomy_two whole (mem_around inside)) (k := 1) (by decide)
  have other := whole.tiled.others inside
  have room := opened.filed.head_room members bound
  obtain ⟨prevFree, held'⟩ := opened.stale'
  simp only [setSize_cell tlsf, setPrevHdr_cell tlsf, size_cell tlsf]
  set m₁ := insertBlock b.addr tlsf (Index.ofRank (classOf b.size.toNat)) m
  rw [insertBlock_header placed four bound room (by decide) second, held', (header_set false prevFree).2]
  set m₂ := Cell.put tlsf (.field n.addr 1) (header n.size false true) m₁
  have words {x : Block} (member : x ∈ front ++ b :: n :: back) {k : Fin 4} (small : k < 2) :
      Cell.get tlsf (Cell.put tlsf (.field n.addr 0) b.addr m₂) (.field x.addr k) =
        if x.addr = n.addr ∧ k = 0 then b.addr else if x.addr = n.addr ∧ k = 1 then header n.size false true
        else Cell.get tlsf m (.field x.addr k) := by
    have valid := field_valid_two (roomy_two whole member) small
    rw [placed.get_put first valid, placed.get_put second valid, insertBlock_header placed four bound room small valid]
    simp only [Cell.field.injEq]
  have fresh := roomy_fresh whole exact
  have filed := insertBlock_filed opened.filed members placed four bound fresh (whole.tiled.addr_ne_zero inside')
  have members' := members.insert (c := classOf b.size.toNat) four
  refine ⟨⟨layout, fun x member => ?_, ?_, ?_⟩, ?_⟩
  · have kept (inList : x ∈ front ++ back) (not : x.addr ≠ n.addr) :
        Headed tlsf (Cell.put tlsf (.field n.addr 0) b.addr m₂) x := by
      refine (opened.headed x inList).keeps fun k small => ?_
      rw [words (mem_around (mem_around inList)) small]
      simp only [not, false_and, if_false]
    have order := whole.tiled.pairwise
    simp only [List.pairwise_append, List.pairwise_cons, List.forall_mem_cons] at order
    simp only [List.mem_append, List.mem_cons] at member
    rcases member with inFront | rfl | rfl | inBack
    · exact kept (List.mem_append_left _ inFront) (order.2.2 x inFront).2.1.ne
    · have here := words inside' (k := 1) (by decide)
      simp only [other.symm, false_and, if_false, held] at here
      exact ⟨here, fun q link => absurd link.symm (Option.some_ne_none _)⟩
    · have here := words (mem_around inside) (k := 1) (by decide)
      have here' := words (mem_around inside) (k := 0) (by decide)
      simp only [Fin.reduceEq, and_self, and_false, if_true, if_false] at here here'
      exact ⟨here.trans (congrArg (header n.size · true) opened.used'.symm),
        fun q link => here'.trans (Option.some.inj link)⟩
    · exact kept (List.mem_append_right _ inBack) (order.2.1.2.1 x inBack).ne.symm
  · exact (filed.put_header members' placed (by decide) second _).put_header members' placed (by decide) first _
  · have before : Exact (front ++ n.behind (Option.some b.addr) :: back) lists :=
      (exact_used (b := n.behind (Option.some b.addr)) opened.used').mpr opened.exact
    exact exact_insert (b := freeBlock b.addr b.size) before rfl rfl
  · refine ChangesOnly.mono (owned_roomy whole) ?_
    refine (insertBlock_changesOnly placed four bound room).trans ?_
    exact (placed.put_changesOnly second _ _).trans (placed.put_changesOnly first _ _)

end Release

end Tlsf

end GenericBooter
