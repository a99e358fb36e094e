import GenericBooter.Tlsf.Recovery

namespace GenericBooter

open ByteMemory

namespace Tlsf

def mallocAll : List Word → Allocator → List Word × Allocator
  | [], s => ([], s)
  | size :: sizes, s =>
    let taken := s.malloc size
    let rest := mallocAll sizes taken.2
    (taken.1 :: rest.1, rest.2)

/-- What the calls return when every block starts where the one before it ends, the first one at `place`. -/
def stacked (place : Word) : List Word → List Word
  | [] => []
  | size :: sizes => (place + 8) :: stacked (place + 8 + BitVec.ofNat 32 (blockSize size.toNat)) sizes

def stackedBytes : List Word → Nat
  | [] => 0
  | size :: sizes => blockSize size.toNat + 8 + stackedBytes sizes

variable {tlsf : Word} {finish : Nat} {blocks front : List Block} {lists : Nat → List Word} {b z : Block} {s : Allocator}
  {sizes : List Word} {size : Word}

theorem only_free {front' back : List Block} {b' n : Block} (used : ∀ x ∈ front, x.free = false) (free : b'.free = true)
    (last : z.free = false) (same : front ++ [b, z] = front' ++ b' :: n :: back) :
    front' = front ∧ b' = b ∧ n = z ∧ back = [] := by
  rcases List.append_eq_append_iff.mp same with ⟨more, rfl, rest⟩ | ⟨more, rfl, rest⟩
  · rcases more with - | ⟨x, - | ⟨y, more⟩⟩
    · simp only [List.nil_append, List.cons.injEq] at rest
      obtain ⟨rfl, rfl, rfl⟩ := rest
      exact ⟨List.append_nil _, rfl, rfl, rfl⟩
    · simp only [List.cons_append, List.nil_append, List.cons.injEq, reduceCtorEq, and_false] at rest
    · have length := congrArg List.length rest
      simp only [List.length_cons, List.length_append, List.length_nil] at length
      omega
  · rcases more with - | ⟨x, more⟩
    · simp only [List.nil_append, List.cons.injEq] at rest
      obtain ⟨rfl, rfl, rfl⟩ := rest
      exact ⟨(List.append_nil _).symm, rfl, rfl, rfl⟩
    · obtain ⟨rfl, _⟩ := List.cons.inj rest
      rw [used _ (List.mem_append_right _ List.mem_cons_self)] at free
      cases free

structure Tail (tlsf : Word) (finish : Nat) (s : Allocator) (b : Block) : Prop where
  mp : s.mp = tlsf
  heap : ∃ front z lists, Heap tlsf finish s.memory (front ++ [b, z]) lists ∧ (∀ x ∈ front, x.free = false) ∧
    z.free = false
  free : b.free = true

def Exhausted (tlsf : Word) (finish : Nat) (s : Allocator) : Prop :=
  s.mp = tlsf ∧ ∃ blocks lists, Heap tlsf finish s.memory blocks lists ∧ ∀ x ∈ blocks, x.free = false

theorem Exhausted.refuses (exhausted : Exhausted tlsf finish s) (bound : size.toNat ≤ 0xfc000000) :
    (s.malloc size).1 = 0 := by
  obtain ⟨at', blocks, lists, heap, used⟩ := exhausted
  rw [Allocator.malloc, tlsfMalloc, at']
  by_contra given
  obtain ⟨b, member, free, _⟩ := (mallocEx_gives_iff heap bound).mp given
  rw [used b member] at free
  cases free

theorem Tail.malloc (tail : Tail tlsf finish s b) (bound : size.toNat ≤ 0xfc000000) :
    ((s.malloc size).1 = 0 ∧ b.size.toNat < blockSize size.toNat) ∨
    (s.malloc size).1 = b.addr + 8 ∧ b.addr + 8 ≠ 0 ∧ blockSize size.toNat ≤ b.size.toNat ∧
      (blockSize size.toNat + 16 ≤ b.size.toNat → Tail tlsf finish (s.malloc size).2
        (freeBlock (b.addr + 8 + BitVec.ofNat 32 (blockSize size.toNat)) (b.size - BitVec.ofNat 32 (blockSize size.toNat) - 8))) ∧
      (b.size.toNat < blockSize size.toNat + 16 → Exhausted tlsf finish (s.malloc size).2) := by
  obtain ⟨at', ⟨front, z, lists, heap, used, last⟩, free⟩ := tail
  have member : b ∈ front ++ [b, z] := List.mem_append_right _ List.mem_cons_self
  simp only [Allocator.malloc, tlsfMalloc, at']
  rcases mallocEx_heap heap bound with ⟨refused, below⟩ | ⟨front', b', n, back, same, free', fits, _, result, ⟨lists', heap'⟩, _⟩
  · left
    refine ⟨congrArg Prod.fst refused, ?_⟩
    by_contra fits
    have less := below b member free
    have least : classOf (blockSize size.toNat) ≤ classOf b.size.toNat := Segregated.rank_mono (Nat.le_of_not_lt fits)
    omega
  · right
    obtain ⟨rfl, rfl, rfl, rfl⟩ := only_free used free' last same
    refine ⟨result, heap.buffer_ne_zero member free, fits, fun large => ⟨rfl, ?_, rfl⟩, fun small => ⟨rfl, _, lists', heap', ?_⟩⟩
    · rw [takenBlocks, if_pos large, splitBlocks, List.append_cons] at heap'
      refine ⟨_, _, lists', heap', fun x listed => ?_, last⟩
      rcases List.mem_append.mp listed with before | here
      · exact used x before
      · rw [List.mem_singleton.mp here]
        rfl
    · rw [takenBlocks, if_neg (Nat.not_le.mpr small)]
      intro x listed
      simp only [List.mem_append, List.mem_cons, List.not_mem_nil, or_false] at listed
      rcases listed with before | rfl | rfl
      · exact used x before
      · rfl
      · exact last

theorem Exhausted.none_given (exhausted : Exhausted tlsf finish s) (bounds : ∀ size ∈ sizes, size.toNat ≤ 0xfc000000) :
    0 ∉ (mallocAll sizes s).1 ↔ sizes = [] := by
  cases sizes with
  | nil => exact iff_of_true List.not_mem_nil rfl
  | cons size sizes =>
    refine iff_of_false (not_not.mpr ?_) (List.cons_ne_nil _ _)
    rw [mallocAll, exhausted.refuses (bounds size List.mem_cons_self)]
    exact List.mem_cons_self

theorem Tail.mallocAll (tail : Tail tlsf finish s b) (bounds : ∀ size ∈ sizes, size.toNat ≤ 0xfc000000) :
    (0 ∉ (Tlsf.mallocAll sizes s).1 ↔ stackedBytes sizes ≤ b.size.toNat + 8) ∧
      (0 ∉ (Tlsf.mallocAll sizes s).1 → (Tlsf.mallocAll sizes s).1 = stacked b.addr sizes) := by
  induction sizes generalizing s b with
  | nil => exact ⟨iff_of_true List.not_mem_nil (Nat.zero_le _), fun _ => rfl⟩
  | cons size sizes ih =>
    have least := (blockSize_facts size.toNat).2.1
    rw [List.forall_mem_cons] at bounds
    simp only [Tlsf.mallocAll, stackedBytes, stacked, List.mem_cons, not_or]
    rcases tail.malloc bounds.1 with ⟨refused, small⟩ | ⟨result, nonnull, fits, later, ended⟩
    · rw [refused]
      exact ⟨iff_of_false (fun given => given.1 rfl) (by omega), fun given => absurd rfl given.1⟩
    · rw [result]
      have first : ¬ 0 = b.addr + 8 := Ne.symm nonnull
      by_cases large : blockSize size.toNat + 16 ≤ b.size.toNat
      · have value : (BitVec.ofNat 32 (blockSize size.toNat)).toNat = blockSize size.toNat := by
          rw [BitVec.toNat_ofNat]
          exact Nat.mod_eq_of_lt (by omega)
        have left : (freeBlock (b.addr + 8 + BitVec.ofNat 32 (blockSize size.toNat))
            (b.size - BitVec.ofNat 32 (blockSize size.toNat) - 8)).size.toNat = b.size.toNat - blockSize size.toNat - 8 := by
          have eight : (8 : Word).toNat = 8 := rfl
          change (b.size - BitVec.ofNat 32 (blockSize size.toNat) - 8).toNat = _
          rw [BitVec.toNat_sub_of_le, BitVec.toNat_sub_of_le, value, eight]
          · rw [BitVec.le_def, value]
            exact fits
          · rw [BitVec.le_def, BitVec.toNat_sub_of_le, value, eight]
            · omega
            · rw [BitVec.le_def, value]
              exact fits
        obtain ⟨rest, places⟩ := ih (later large) bounds.2
        rw [left] at rest
        refine ⟨?_, fun given => congrArg _ (places given.2)⟩
        rw [rest]
        constructor
        · rintro ⟨_, fits'⟩
          omega
        · intro fits'
          exact ⟨first, by omega⟩
      · have none := (ended (Nat.lt_of_not_le large)).none_given bounds.2
        rw [none]
        constructor
        · constructor
          · rintro ⟨_, rfl⟩
            simp only [stackedBytes]
            omega
          · intro fits'
            refine ⟨first, ?_⟩
            cases sizes with
            | nil => rfl
            | cons size' sizes =>
              have least' := (blockSize_facts size'.toNat).2.1
              simp only [stackedBytes] at fits'
              omega
        · rintro ⟨_, rfl⟩
          rfl

/-- From `malloc_init` on, calls of `malloc` with nothing given back between them all succeed just when their blocks
    and headers fit into the pool, and these then lie one behind the other. -/
theorem mallocs_succeed_iff {start poolSize : Word} (large : 3244 ≤ poolSize.toNat) (small : poolSize.toNat < 2 ^ 30)
    (room : poolEnd start poolSize ≤ 2 ^ 32) (nonnull : start ≠ 0) (aligned : start &&& PTR_MASK = 0)
    (fresh : signature s.memory start ≠ TLSF_SIGNATURE) :
    ∃ s₁, s.mallocInit start poolSize = .ok s₁ ∧ ∀ sizes : List Word, (∀ size ∈ sizes, size.toNat ≤ 0xfc000000) →
      (0 ∉ (mallocAll sizes s₁).1 ↔ stackedBytes sizes ≤ (poolBytes poolSize).toNat + 8) ∧
      (0 ∉ (mallocAll sizes s₁).1 → (mallocAll sizes s₁).1 = stacked (start + 3200) sizes) := by
  obtain ⟨result, ran, mp, serves, _⟩ := initMemoryPool_serves large small room nonnull aligned fresh
  have total : poolEnd start poolSize = start.toNat + 3184 + (poolSize.toNat - 3180) / 8 * 8 := rfl
  obtain ⟨b, z, lists, heap, free, last, bytes⟩ := serves.whole (by omega)
  refine ⟨result.2, ?_, fun sizes bounds => ?_⟩
  · rw [Allocator.mallocInit, ran]
    rfl
  · have tail : Tail start (poolEnd start poolSize) result.2 b := by
      refine ⟨mp, ⟨[areaBlock start], z, lists, heap, fun x member => ?_, last⟩, free⟩
      rw [List.mem_singleton.mp member]
      rfl
    have place : b.addr = start + 3200 :=
      (List.isChain_cons_cons.mp heap.layout.follows).1.1.next.symm.trans (area_middle start)
    have held : b.size.toNat = (poolBytes poolSize).toNat := by
      rw [poolBytes_toNat large small]
      omega
    rw [← place, ← held]
    exact tail.mallocAll bounds

theorem samplePool_stacks : ∃ s₁, zeroed.mallocInit 0x1000 0x1800000 = .ok s₁ ∧
    (mallocAll [16, 32, 64] s₁).1 = [0x1c88, 0x1ca0, 0x1cc8] := by
  obtain ⟨s₁, ran, succeed⟩ := mallocs_succeed_iff samplePool_large (by decide) samplePool_room (by decide) (by decide)
    (zeroed_fresh _)
  have bounds : ∀ size ∈ ([16, 32, 64] : List Word), size.toNat ≤ 0xfc000000 := by
    intro size member
    simp only [List.mem_cons, List.not_mem_nil, or_false] at member
    rcases member with rfl | rfl | rfl <;> decide
  obtain ⟨fits, places⟩ := succeed [16, 32, 64] bounds
  refine ⟨s₁, ran, (places (fits.mpr ?_)).trans ?_⟩
  · decide +kernel
  · decide +kernel

end Tlsf

end GenericBooter
