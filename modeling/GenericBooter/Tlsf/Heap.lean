import GenericBooter.Tlsf.Blocks

namespace GenericBooter

open ByteMemory

namespace Tlsf

def areaBlock (tlsf : Word) : Block := ⟨tlsf + 3184, 8, false, none⟩

/-- The blocks cut up the area from `tlsf_t` to `finish`; the last one is the sentinel. -/
structure Layout (tlsf : Word) (finish : Nat) (blocks : List Block) : Prop where
  control : tlsf.toNat + 3184 < 2 ^ 32
  top : finish ≤ 2 ^ 32
  small : finish ≤ tlsf.toNat + 2 ^ 30
  follows : blocks.IsChain Follows
  first : blocks.head? = some (areaBlock tlsf)
  last : ∃ z, blocks.getLast? = some z ∧ z.size = 0 ∧ z.free = false ∧ z.addr.toNat + 8 = finish

/-- Exactly the free blocks are filed, each in the list of its size class. -/
def Exact (blocks : List Block) (lists : Nat → List Word) : Prop :=
  ∀ c x, x ∈ lists c ↔ ∃ b ∈ blocks, b.free = true ∧ b.addr = x ∧ classOf b.size.toNat = c

structure Heap (tlsf : Word) (finish : Nat) (m : Memory) (blocks : List Block) (lists : Nat → List Word) : Prop where
  layout : Layout tlsf finish blocks
  headed : ∀ b ∈ blocks, Headed tlsf m b
  filed : Filed tlsf m lists
  exact : Exact blocks lists

variable {tlsf : Word} {finish : Nat} {m m' : Memory} {blocks front back : List Block} {lists : Nat → List Word}
  {b n : Block}

theorem area_start (control : tlsf.toNat + 3184 < 2 ^ 32) : (areaBlock tlsf).addr.toNat = tlsf.toNat + 3184 := by
  change (tlsf + 3184).toNat = _
  rw [BitVec.toNat_add]
  exact Nat.mod_eq_of_lt control

theorem mem_around {x : Block} (member : x ∈ front ++ back) : x ∈ front ++ b :: back :=
  (List.Sublist.append_left (List.sublist_cons_self b back) front).subset member

theorem Tiles.next (tiles : Tiles b n) : getNextBlock (Bhdr.buffer b.addr) b.size = n.addr := by
  have place := tiles.2
  have room := n.addr.isLt
  have eight : (b.addr + 8).toNat = b.addr.toNat + 8 := by
    rw [BitVec.toNat_add]
    exact Nat.mod_eq_of_lt (by change b.addr.toNat + 8 < 2 ^ 32; omega)
  apply BitVec.eq_of_toNat_eq
  rw [getNextBlock, Bhdr.buffer, BitVec.toNat_add, eight, place]
  exact Nat.mod_eq_of_lt room

theorem Layout.tiled (layout : Layout tlsf finish blocks) : Tiled tlsf finish blocks where
  tiles := layout.follows.imp fun _ _ follows => follows.1
  start := by
    intro b first
    rw [layout.first] at first
    obtain rfl := Option.some.inj first
    rw [area_start layout.control]
    omega
  ends := by
    intro b last
    obtain ⟨z, same, empty, used, top⟩ := layout.last
    rw [same] at last
    obtain rfl := Option.some.inj last
    refine ⟨used, ?_⟩
    rw [empty, ← top]
    exact Nat.le_refl _

theorem Layout.placed (layout : Layout tlsf finish blocks) (tiled : Tiled tlsf finish front) :
    Placed tlsf (roomOf front) :=
  tiled.placed (by have := layout.control; omega) layout.top

theorem Layout.size_lt (layout : Layout tlsf finish blocks) (member : b ∈ blocks) : b.size.toNat < 2 ^ 30 := by
  have inside := layout.tiled.inside member
  have small := layout.small
  omega

theorem Follows.prev_none {a b : Block} (follows : Follows a b) : b.prev = none ↔ a.free = false := by
  obtain ⟨_, _, link, _⟩ := follows
  rw [link]
  cases a.free
  · exact iff_of_true rfl rfl
  · exact iff_of_false (Option.some_ne_none _) (fun used => absurd used.symm Bool.false_ne_true)

theorem Follows.onto {a b' : Block} (follows : Follows a b) (addr : b'.addr = b.addr) (prev : b'.prev = b.prev)
    (free : b'.free = true → b.prev = none) : Follows a b' := by
  obtain ⟨tiles, aligned, link, _⟩ := id follows
  refine ⟨⟨tiles.1, addr ▸ tiles.2⟩, aligned, prev.trans link, fun both => ?_⟩
  exact absurd ((follows.prev_none.mp (free both.2)).symm.trans both.1) Bool.false_ne_true

theorem chain_front {rest rest' : List Block} {b' : Block} (chain : (front ++ b :: rest).IsChain Follows)
    (addr : b'.addr = b.addr) (prev : b'.prev = b.prev) (free : b'.free = true → b.prev = none)
    (chain' : (b' :: rest').IsChain Follows) : (front ++ b' :: rest').IsChain Follows := by
  obtain ⟨before, _, joint⟩ := List.isChain_append.mp chain
  refine List.isChain_append.mpr ⟨before, chain', ?_⟩
  intro a last y head
  obtain rfl := Option.some.inj head
  exact Follows.onto (joint a last b rfl) addr prev free

structure Alike (b b' : Block) : Prop where
  addr : b'.addr = b.addr
  size : b'.size = b.size
  free : b'.free = b.free

theorem chain_back {rest : List Block} {n' : Block} (chain : (n :: rest).IsChain Follows) (alike : Alike n n') :
    (n' :: rest).IsChain Follows := by
  rw [List.isChain_cons] at chain ⊢
  refine ⟨fun y head => ?_, chain.2⟩
  have follows := chain.1 y head
  unfold Follows Tiles at follows ⊢
  rwa [alike.addr, alike.size, alike.free]

def EndsAlike (rest rest' : List Block) : Prop :=
  ∃ z z', rest.getLast? = some z ∧ rest'.getLast? = some z' ∧ Alike z z'

theorem endsAlike_cons {n' : Block} (alike : Alike n n') : EndsAlike (n :: back) (n' :: back) := by
  rcases List.eq_nil_or_concat' back with none | ⟨rest, y, rfl⟩
  · subst none
    exact ⟨n, n', rfl, rfl, alike⟩
  · refine ⟨y, y, ?_, ?_, ⟨rfl, rfl, rfl⟩⟩
    · exact List.getLast?_concat (l := n :: rest)
    · exact List.getLast?_concat (l := n' :: rest)

theorem EndsAlike.left {rest rest' : List Block} (ends : EndsAlike rest rest') : EndsAlike (n :: rest) rest' := by
  obtain ⟨z, z', last, last', alike⟩ := ends
  refine ⟨z, z', ?_, last', alike⟩
  rw [List.getLast?_cons, last]
  rfl

theorem EndsAlike.right {rest rest' : List Block} (ends : EndsAlike rest rest') : EndsAlike rest (n :: rest') := by
  obtain ⟨z, z', last, last', alike⟩ := ends
  refine ⟨z, z', last, ?_, alike⟩
  rw [List.getLast?_cons, last']
  rfl

theorem Layout.replace {rest rest' : List Block} {b' : Block} (layout : Layout tlsf finish (front ++ b :: rest))
    (some : front ≠ []) (addr : b'.addr = b.addr) (prev : b'.prev = b.prev) (free : b'.free = true → b.prev = none)
    (chain : (b' :: rest').IsChain Follows) (ends : EndsAlike rest rest') :
    Layout tlsf finish (front ++ b' :: rest') where
  control := layout.control
  top := layout.top
  small := layout.small
  follows := chain_front layout.follows addr prev free chain
  first := by
    rw [← layout.first]
    obtain ⟨a, rest, rfl⟩ := List.exists_cons_of_ne_nil some
    rfl
  last := by
    obtain ⟨y, empty, used, top⟩ := layout.last
    obtain ⟨z, z', last, last', alike⟩ := ends
    have same : z = y := by
      rw [List.getLast?_append, List.getLast?_cons, last] at empty
      exact Option.some.inj empty
    subst same
    refine ⟨z', ?_, alike.size.trans used, alike.free.trans top.1, alike.addr ▸ top.2⟩
    rw [List.getLast?_append, List.getLast?_cons, last']
    rfl

def usedBlock (addr size : Word) (prev : Option Word) : Block := ⟨addr, size, false, prev⟩

def freeBlock (addr size : Word) : Block := ⟨addr, size, true, none⟩

def Block.behind (n : Block) (prev : Option Word) : Block := { n with prev := prev }

theorem alike_behind (n : Block) (prev : Option Word) : Alike n (n.behind prev) := ⟨rfl, rfl, rfl⟩

section Split

variable {addr total size : Word} {prev : Option Word}

theorem split_addr (room : addr.toNat + 8 + total.toNat < 2 ^ 32) (fits : size.toNat + 16 ≤ total.toNat) :
    (addr + 8 + size).toNat = addr.toNat + 8 + size.toNat ∧ (total - size - 8).toNat = total.toNat - size.toNat - 8 := by
  have first : (addr + 8).toNat = addr.toNat + 8 := by
    rw [BitVec.toNat_add]
    exact Nat.mod_eq_of_lt (by change addr.toNat + 8 < 2 ^ 32; omega)
  have less : (total - size).toNat = total.toNat - size.toNat := BitVec.toNat_sub_of_le (BitVec.le_def.mpr (by omega))
  have eight : (8 : Word).toNat = 8 := rfl
  constructor
  · rw [BitVec.toNat_add, first]
    exact Nat.mod_eq_of_lt (by omega)
  · rw [BitVec.toNat_sub_of_le (BitVec.le_def.mpr (by rw [less, eight]; omega)), less, eight]

theorem split_chain (chain : (usedBlock addr total prev :: n :: back).IsChain Follows) (used : n.free = false)
    (aligned : 8 ∣ size.toNat) (least : 8 ≤ size.toNat) (fits : size.toNat + 16 ≤ total.toNat) :
    (usedBlock addr size prev :: freeBlock (addr + 8 + size) (total - size - 8) ::
      n.behind (some (addr + 8 + size)) :: back).IsChain Follows := by
  rw [List.isChain_cons_cons] at chain
  obtain ⟨⟨tiles, whole, _, _⟩, behind⟩ := chain
  have place : addr.toNat + 8 + total.toNat = n.addr.toNat := tiles.2
  have bound := n.addr.isLt
  have room : addr.toNat + 8 + total.toNat < 2 ^ 32 := by omega
  obtain ⟨split, left⟩ := split_addr room fits
  refine List.isChain_cons_cons.mpr ⟨⟨⟨least, split.symm⟩, aligned, rfl, ?_⟩, ?_⟩
  · rintro ⟨free, _⟩
    cases free
  · refine List.isChain_cons_cons.mpr ⟨⟨⟨?_, ?_⟩, ?_, rfl, ?_⟩, chain_back behind (alike_behind n _)⟩
    · change 8 ≤ (total - size - 8).toNat
      omega
    · change (addr + 8 + size).toNat + 8 + (total - size - 8).toNat = n.addr.toNat
      omega
    · change 8 ∣ (total - size - 8).toNat
      have whole : 8 ∣ total.toNat := whole
      omega
    · rintro ⟨_, free⟩
      exact absurd (used.symm.trans free) Bool.false_ne_true

end Split

section Merge

theorem merge_chain (chain : (b :: n :: back).IsChain Follows) {p : Block} (behind : back.head? = some p) (free : Bool)
    (clash : free = true → p.free = false) :
    ((⟨b.addr, b.size + (n.size + 8), free, b.prev⟩ : Block) ::
      p.behind (if free then some b.addr else none) :: back.tail).IsChain Follows ∧
    (b.size + (n.size + 8)).toNat = b.size.toNat + (n.size.toNat + 8) := by
  obtain ⟨rest, rfl⟩ : ∃ rest, back = p :: rest := List.head?_eq_some_iff.mp behind
  rw [List.isChain_cons_cons, List.isChain_cons_cons] at chain
  obtain ⟨⟨tiles, aligned, _, _⟩, ⟨tiles', aligned', _, _⟩, later⟩ := chain
  have place := tiles.2
  have place' := tiles'.2
  have bound := p.addr.isLt
  have inner : (n.size + 8).toNat = n.size.toNat + 8 := by
    rw [BitVec.toNat_add]
    exact Nat.mod_eq_of_lt (by change n.size.toNat + 8 < 2 ^ 32; omega)
  have sum : (b.size + (n.size + 8)).toNat = b.size.toNat + (n.size.toNat + 8) := by
    rw [BitVec.toNat_add, inner]
    exact Nat.mod_eq_of_lt (by omega)
  refine ⟨List.isChain_cons_cons.mpr ⟨⟨⟨?_, ?_⟩, ?_, rfl, ?_⟩, chain_back later (alike_behind p _)⟩, sum⟩
  · change 8 ≤ (b.size + (n.size + 8)).toNat
    omega
  · change b.addr.toNat + 8 + (b.size + (n.size + 8)).toNat = p.addr.toNat
    omega
  · change 8 ∣ (b.size + (n.size + 8)).toNat
    omega
  · rintro ⟨isFree, taken⟩
    exact absurd ((clash isFree).symm.trans taken) Bool.false_ne_true

end Merge

end Tlsf

end GenericBooter
