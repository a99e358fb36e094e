import GenericBooter.Tlsf.Fits
import GenericBooter.Tlsf.Runs

namespace GenericBooter

open ByteMemory Arrays

namespace Tlsf

variable {tlsf : Word} {finish : Nat} {m : Memory} {blocks mid : List Block} {lists : Nat → List Word}
  {live : List (Word × Word)}

theorem covered_by {x z : Block} {rest : List Block} (chain : (x :: rest).IsChain Tiles)
    (last : (x :: rest).getLast? = some z) (full : z.addr.toNat + 8 + z.size.toNat = finish) {n : Nat}
    (above : x.addr.toNat ≤ n) (below : n < finish) :
    ∃ c ∈ x :: rest, c.addr.toNat ≤ n ∧ n < c.addr.toNat + 8 + c.size.toNat := by
  induction rest generalizing x with
  | nil =>
    obtain rfl : x = z := Option.some.inj last
    exact ⟨x, List.mem_cons_self, above, by omega⟩
  | cons y rest ih =>
    obtain ⟨tiles, chain⟩ := List.isChain_cons_cons.mp chain
    have place := tiles.2
    by_cases here : n < y.addr.toNat
    · exact ⟨x, List.mem_cons_self, above, by omega⟩
    · rw [List.getLast?_cons_cons] at last
      obtain ⟨c, member, inside⟩ := ih chain last (Nat.le_of_not_lt here)
      exact ⟨c, List.mem_cons_of_mem _ member, inside⟩

/-- What nothing in use reaches into lies in one free block. -/
theorem Layout.free_over (layout : Layout tlsf finish blocks) (place size : Nat) (above : tlsf.toNat + 3184 ≤ place)
    (below : place < finish)
    (unused : ∀ x ∈ inUse blocks, x.1.toNat + 8 + x.2.toNat ≤ place ∨ place + 8 + size ≤ x.1.toNat) :
    ∃ c ∈ blocks, c.free = true ∧ c.addr.toNat ≤ place ∧ place + size ≤ c.addr.toNat + c.size.toNat := by
  obtain ⟨a, rest, rfl⟩ := List.exists_cons_of_ne_nil (l := blocks) (by rintro rfl; cases layout.first)
  obtain ⟨z, last, empty, used, top⟩ := layout.last
  have full : z.addr.toNat + 8 + z.size.toNat = finish := by
    rw [empty, ← top]
    rfl
  obtain rfl : a = areaBlock tlsf := Option.some.inj layout.first
  have start := area_start layout.control
  obtain ⟨c, member, low, high⟩ := covered_by layout.tiled.tiles last full (start ▸ above) below
  have free : c.free = true := by
    by_contra busy
    have apart := unused _ (mem_inUse.mpr ⟨c, member, Bool.eq_false_of_not_eq_true busy, rfl⟩)
    change c.addr.toNat + 8 + c.size.toNat ≤ place ∨ place + 8 + size ≤ c.addr.toNat at apart
    omega
  refine ⟨c, member, free, low, ?_⟩
  obtain ⟨front, back, split⟩ := List.append_of_mem member
  rw [split] at layout
  obtain ⟨d, behind, rfl, busy, _⟩ := (layout.free_neighbours free).2
  obtain ⟨_, place'⟩ := (List.isChain_append_cons_cons.mp layout.follows).2.1.1
  have listed : d ∈ areaBlock tlsf :: rest := by
    rw [split]
    exact List.mem_append_right _ (List.mem_cons_of_mem _ List.mem_cons_self)
  have apart := unused _ (mem_inUse.mpr ⟨d, listed, busy, rfl⟩)
  change d.addr.toNat + 8 + d.size.toNat ≤ place ∨ place + 8 + size ≤ d.addr.toNat at apart
  omega

theorem Serves.whole_gives_iff (serves : Serves tlsf finish m []) (room : tlsf.toNat + 3208 < finish) {size : Word}
    (bound : size.toNat ≤ 0xfc000000) :
    (mallocEx size tlsf m).1 ≠ 0 ↔ blockSize size.toNat + tlsf.toNat + 3216 ≤ finish := by
  obtain ⟨b, z, lists, heap, free, used, total⟩ := serves.whole room
  rw [mallocEx_gives_iff heap bound]
  constructor
  · rintro ⟨x, member, free', fits⟩
    simp only [List.mem_cons, List.not_mem_nil, or_false] at member
    rcases member with rfl | rfl | rfl
    · cases free'
    · omega
    · rw [used] at free'
      cases free'
  · intro fits
    exact ⟨b, List.mem_cons_of_mem _ List.mem_cons_self, free, by omega⟩

/-- What is given back is part of one free block of a heap that lends out the rest, and the next request that fits this
    block is met. -/
theorem freeEx_makes_room {x : Word × Word} (serves : Serves tlsf finish m (x :: live)) :
    ∃ blocks lists, Heap tlsf finish (freeEx (x.1 + 8) tlsf m) blocks lists ∧
      (inUse blocks).Perm ((tlsf + 3184, 8) :: (BitVec.ofNat 32 (finish - 8), 0) :: live) ∧
      ∃ c ∈ blocks, c.free = true ∧ c.addr.toNat ≤ x.1.toNat ∧ x.1.toNat + x.2.toNat ≤ c.addr.toNat + c.size.toNat ∧
        ∀ size : Word, blockSize size.toNat ≤ c.size.toNat → (mallocEx size tlsf (freeEx (x.1 + 8) tlsf m)).1 ≠ 0 := by
  obtain ⟨front, b, back, lists, heap, some, behind, used, rfl, same⟩ := serves.find
  obtain ⟨⟨blocks', lists', heap', rest⟩, _⟩ := freeEx_heap heap some behind used
  have between := heap.layout.between some behind
  have unused : ∀ x ∈ inUse blocks',
      x.1.toNat + 8 + x.2.toNat ≤ b.addr.toNat ∨ b.addr.toNat + 8 + b.size.toNat ≤ x.1.toNat := by
    intro x listed
    rw [rest] at listed
    obtain ⟨d, member, _, rfl⟩ := mem_inUse.mp listed
    have different := heap.layout.tiled.others member
    refine heap.layout.tiled.apart (mem_around member) (List.mem_append_right _ List.mem_cons_self) ?_
    rintro rfl
    exact different rfl
  obtain ⟨c, member, free, low, high⟩ :=
    heap'.layout.free_over b.addr.toNat b.size.toNat (by omega) (by omega) unused
  refine ⟨blocks', lists', heap', rest ▸ same, c, member, free, low, high, fun size fits => ?_⟩
  obtain ⟨_, _, above⟩ := blockSize_facts size.toNat
  have small := heap'.layout.size_lt member
  exact (mallocEx_gives_iff heap' (by omega)).mpr ⟨c, member, free, fits⟩

theorem samplePool_makes_room : ∃ m p, (mallocEx 100 0x1000 m).1 = p ∧
    (mallocEx 64 0x1000 (freeEx p 0x1000 (mallocEx 100 0x1000 m).2)).1 ≠ 0 := by
  obtain ⟨m, serves⟩ := samplePool
  have need : blockSize (100 : Word).toNat = 104 := by decide +kernel
  have need' : blockSize (64 : Word).toNat = 64 := by decide +kernel
  have finish : poolEnd 0x1000 0x1800000 = 0x1801000 := by decide
  have given : (mallocEx 100 0x1000 m).1 ≠ 0 := by
    refine (serves.whole_gives_iff (by decide) (by decide)).mpr ?_
    rw [need, finish]
    decide
  rcases serves.malloc (show (100 : Word).toNat ≤ 0xfc000000 by decide) with refused | ⟨x, result, enough, serves', _⟩
  · exact absurd (congrArg Prod.fst refused) given
  · obtain ⟨_, _, _, _, c, _, _, low, high, meets⟩ := freeEx_makes_room serves'
    have hundred : (100 : Word).toNat = 100 := rfl
    exact ⟨m, x.1 + 8, result, meets 64 (by omega)⟩

section Pool

variable {start size : Word} {s : Allocator} (large : 3244 ≤ size.toNat) (small : size.toNat < 2 ^ 30)
  (room : poolEnd start size ≤ 2 ^ 32) (nonnull : start ≠ 0) (aligned : start &&& PTR_MASK = 0)
  (fresh : signature s.memory start ≠ TLSF_SIGNATURE)
  {client : Clients.History (Arrays.Request Word Byte) (Answer Word Byte) → Arrays.Request Word Byte}
  (careful : Clients.Careful (Step 0) (Arrays.Request.Legal 0xfc000000) (fun _ => none) client)

include large small room nonnull aligned fresh careful

/-- A client that has given everything back finds the whole pool again, whatever it did before. -/
theorem clients_recover : ∃ s₁, s.mallocInit start size = .ok s₁ ∧ ∀ n live,
    Clients.Allows (Step 0) (fun _ => none) (Clients.serve answer client s₁ n).1 live → (∀ p, live p = none) →
    ∀ request : Word, request.toNat ≤ 0xfc000000 →
      (((Clients.serve answer client s₁ n).2.malloc request).1 ≠ 0 ↔
        blockSize request.toNat ≤ (poolBytes size).toNat) := by
  obtain ⟨s₁, ran, shown⟩ := clients_show large small room nonnull aligned fresh careful
  refine ⟨s₁, ran, fun n live allowed empty request bound => ?_⟩
  obtain ⟨live', allowed', at', _, held, serves, backed⟩ := shown n
  have same : live.sizes = live'.sizes :=
    allowed.determined allowed' Live.sizes fun _ _ _ _ _ _ equal step step' => Step.sizes equal step step'
  obtain rfl : held = [] := by
    refine List.eq_nil_iff_forall_not_mem.mpr fun x member => ?_
    obtain ⟨data, known, _⟩ := backed.arrays x member
    have length := congrFun same (x.1 + 8)
    rw [Live.sizes, Live.sizes, empty, known] at length
    cases length
  have bytes := poolBytes_toNat large small
  have total : poolEnd start size = start.toNat + 3184 + (size.toNat - 3180) / 8 * 8 := rfl
  simp only [Allocator.malloc, tlsfMalloc, at']
  rw [serves.whole_gives_iff (by omega) bound, total, bytes]
  omega

end Pool

theorem sampleClient_recovers : ∃ s₁ p, zeroed.mallocInit 0x1000 0x1800000 = .ok s₁ ∧
    (Clients.serve answer sampleClient s₁ 3).1 =
      [(.free (some p), .none), (.store p 0 [1, 2], .none), (.malloc 16, .pointer p)] ∧
    ((Clients.serve answer sampleClient s₁ 3).2.malloc 0x100000).1 ≠ 0 := by
  obtain ⟨s₁, ran, recovers⟩ := clients_recover samplePool_large (by decide) samplePool_room (by decide) (by decide)
    (zeroed_fresh _) sampleClient_careful
  obtain ⟨s₂, ran', shown⟩ := clients_show samplePool_large (by decide) samplePool_room (by decide) (by decide)
    (zeroed_fresh _) sampleClient_careful
  obtain rfl := Except.ok.inj (ran.symm.trans ran')
  have given : (s₁.malloc 16).1 ≠ 0 :=
    (recovers 0 (fun _ => none) .nil (fun _ => rfl) 16 (by decide)).mpr (by decide +kernel)
  have one : (Clients.serve answer sampleClient s₁ 1).1 = [(.malloc 16, .pointer (s₁.malloc 16).1)] := by
    change [(Arrays.Request.malloc 16, (pointed (s₁.malloc 16)).1)] = _
    rw [pointed, if_neg given]
  have two : (Clients.serve answer sampleClient s₁ 2).1 =
      (.store (s₁.malloc 16).1 0 [1, 2], .none) :: (Clients.serve answer sampleClient s₁ 1).1 := by
    rw [Clients.serve, one]
    rfl
  have three : (Clients.serve answer sampleClient s₁ 3).1 =
      (.free (some (s₁.malloc 16).1), .none) :: (Clients.serve answer sampleClient s₁ 2).1 := by
    rw [Clients.serve, two, one]
    rfl
  rw [two, one] at three
  obtain ⟨live, allowed, _⟩ := shown 3
  have empty : ∀ q, live q = none := by
    have seen := allowed
    rw [three] at seen
    generalize (s₁.malloc 16).1 = p at seen
    rcases seen with - | ⟨- | ⟨- | ⟨- | _, first⟩, second⟩, third⟩
    cases third with
    | refused mayFail => exact mayFail.elim
    | freed =>
      cases second with
      | refused mayFail => exact mayFail.elim
      | stored known fits =>
        cases first with
        | malloc length new =>
          intro q
          by_cases here : q = p
          · rw [here, Function.update_self]
          · rw [Function.update_of_ne here, Function.update_of_ne here, Function.update_of_ne here]
  exact ⟨s₁, _, ran, three, (recovers 3 live allowed empty 0x100000 (by decide)).mpr (by decide +kernel)⟩

end Tlsf

end GenericBooter
