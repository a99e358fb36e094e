import GenericBooter.Tlsf.Service

namespace GenericBooter

open ByteMemory

namespace Tlsf

variable {tlsf : Word} {finish : Nat} {m m' : Memory} {blocks front back : List Block} {lists : Nat → List Word}
  {live : List (Word × Word)} {b n : Block} {x : Word × Word} {size : Word}

theorem Serves.malloc (serves : Serves tlsf finish m live) (bound : size.toNat ≤ 0xfc000000) :
    mallocEx size tlsf m = (0, m) ∨
      ∃ x, (mallocEx size tlsf m).1 = x.1 + 8 ∧ size.toNat ≤ x.2.toNat ∧
        Serves tlsf finish (mallocEx size tlsf m).2 (x :: live) ∧
        ChangesOnly (spared tlsf finish live) m (mallocEx size tlsf m).2 := by
  obtain ⟨blocks, lists, heap, same⟩ := serves
  rcases mallocEx_heap heap bound with ⟨refused, _⟩ | ⟨front, b, n, back, rfl, free, fits, _, result, ⟨lists', heap'⟩, changes⟩
  · exact Or.inl refused
  · right
    obtain ⟨_, _, above⟩ := blockSize_facts size.toNat
    have before : inUse (front ++ n :: back) = inUse (front ++ b :: n :: back) := by
      rw [inUse_append, inUse_append, inUse_free free]
    have changes' : ChangesOnly (spared tlsf finish live) m (mallocEx size tlsf m).2 :=
      changes.mono (claimed_spared fun x member => before ▸ mem_of_perm same x member)
    have taken (size' : Word) : (inUse front ++ (b.addr, size') :: inUse (n :: back)).Perm
        ((tlsf + 3184, 8) :: (BitVec.ofNat 32 (finish - 8), 0) :: (b.addr, size') :: live) := by
      refine List.perm_middle.trans ?_
      rw [← inUse_append, before]
      refine (same.cons _).trans ((List.Perm.swap _ _ _).trans ((List.Perm.swap _ _ _).cons _))
    by_cases large : blockSize size.toNat + 16 ≤ b.size.toNat
    · have small := b.size.isLt
      refine ⟨(b.addr, BitVec.ofNat 32 (blockSize size.toNat)), result, ?_, ⟨_, lists', heap', ?_⟩, changes'⟩
      · change size.toNat ≤ (BitVec.ofNat 32 (blockSize size.toNat)).toNat
        rw [BitVec.toNat_ofNat, Nat.mod_eq_of_lt (by omega)]
        exact above
      · rw [takenBlocks, if_pos large, inUse_split]
        exact taken _
    · refine ⟨(b.addr, b.size), result, Nat.le_trans above fits, ⟨_, lists', heap', ?_⟩, changes'⟩
      rw [takenBlocks, if_neg large, inUse_around, inUse_behind]
      exact taken _

theorem Serves.free (serves : Serves tlsf finish m (x :: live)) :
    Serves tlsf finish (freeEx (x.1 + 8) tlsf m) live ∧
      ChangesOnly (spared tlsf finish live) m (freeEx (x.1 + 8) tlsf m) := by
  obtain ⟨front, b, back, lists, heap, some, behind, used, rfl, same⟩ := serves.find
  obtain ⟨⟨blocks', lists', heap', rest⟩, changes⟩ := freeEx_heap heap some behind used
  exact ⟨⟨blocks', lists', heap', rest ▸ same⟩, changes.mono (claimed_spared (mem_of_perm same))⟩

structure Resized (tlsf : Word) (finish : Nat) (m m' : Memory) (live : List (Word × Word)) (x y : Word × Word)
    (size : Nat) : Prop where
  enough : size ≤ y.2.toNat
  serves : Serves tlsf finish m' (y :: live)
  changes : ChangesOnly (spared tlsf finish live) m m'
  same : ∀ i < x.2.toNat, i < size → m' (y.1 + 8 + BitVec.ofNat 32 i) = m (x.1 + 8 + BitVec.ofNat 32 i)

theorem resized_in_place (serves : Serves tlsf finish m ((b.addr, b.size) :: live))
    (same : (inUse (front ++ back)).Perm ((tlsf + 3184, 8) :: (BitVec.ofNat 32 (finish - 8), 0) :: live))
    {kept size' : Word} (heap : Heap tlsf finish m' blocks lists)
    (rest : inUse blocks = inUse front ++ (b.addr, size') :: inUse back) (enough : size.toNat ≤ size'.toNat)
    (changes : ChangesOnly (claimed tlsf finish (front ++ usedBlock b.addr kept none :: back)) m m')
    (start : ∀ i < b.size.toNat, i < size.toNat → i < kept.toNat) :
    Resized tlsf finish m m' live (b.addr, b.size) (b.addr, size') size.toNat := by
  refine ⟨enough, ⟨blocks, lists, heap, ?_⟩, ?_, ?_⟩
  · rw [rest]
    refine List.perm_middle.trans ?_
    rw [← inUse_append]
    exact (same.cons _).trans ((List.Perm.swap _ _ _).trans ((List.Perm.swap _ _ _).cons _))
  · refine changes.mono ((claimed_subset fun x member => within_of_mem (mem_around member)).trans ?_)
    exact claimed_spared (mem_of_perm same)
  · intro i less less'
    apply changes
    intro inside
    have place : (b.addr + 8 + BitVec.ofNat 32 i).toNat = b.addr.toNat + 8 + i :=
      (serves.byte_at List.mem_cons_self less).1
    refine inside.2.2 (usedBlock b.addr kept none) (List.mem_append_right _ List.mem_cons_self) rfl ?_
    change (b.addr + 8 + BitVec.ofNat 32 i).toNat ∈ Set.Ico (b.addr.toNat + 8) (b.addr.toNat + 8 + kept.toNat)
    have within := start i less less'
    rw [place, Set.mem_Ico]
    omega

theorem reallocMove_resized (serves : Serves tlsf finish m (x :: live)) (bound : size.toNat ≤ 0xfc000000)
    (larger : x.2.toNat < size.toNat) :
    reallocMove (x.1 + 8) size tlsf m = (0, m) ∨
      ∃ y, (reallocMove (x.1 + 8) size tlsf m).1 = y.1 + 8 ∧
        Resized tlsf finish m (reallocMove (x.1 + 8) size tlsf m).2 live x y size.toNat := by
  have start : x.1 + 8 - BHDR_OVERHEAD = x.1 := add_sub_cancel_right x.1 8
  rcases serves.malloc bound with refused | ⟨y, result, enough, serves₁, changes₁⟩
  · left
    simp only [reallocMove, refused, if_true]
  · right
    have nonnull := serves₁.nonnull
    have serves₂ : Serves tlsf finish (mallocEx size tlsf m).2 (x :: y :: live) := serves₁.perm (List.Perm.swap _ _ _)
    have held : ¬ x.2 > size := by
      rw [gt_iff_lt, BitVec.lt_def]
      omega
    simp only [reallocMove, result, if_neg nonnull, start, serves₂.header, if_neg held]
    set m₁ := (mallocEx size tlsf m).2
    have place := (serves₁.byte_at (i := 0) List.mem_cons_self (by omega)).1
    rw [BitVec.add_zero] at place
    have bounds := serves₁.apart.1 y List.mem_cons_self
    have top := serves₁.top
    have changes₂ : ChangesOnly (lent y) m₁ (copy m₁ (x.1 + 8) (y.1 + 8) x.2.toNat) := by
      refine (copy_changesOnly m₁ _ _ _ (by omega)).mono fun n inside => ?_
      rw [place, Set.mem_Ico] at inside
      exact ⟨by omega, by omega⟩
    set m₂ := copy m₁ (x.1 + 8) (y.1 + 8) x.2.toNat with copied
    have serves₃ := serves₂.write (List.mem_cons_of_mem _ List.mem_cons_self) changes₂
    obtain ⟨serves₄, changes₄⟩ := serves₃.free
    refine ⟨y, rfl, enough, serves₄, ?_, fun i less _ => ?_⟩
    · refine (changes₁.mono (spared_subset fun z member => List.mem_cons_of_mem _ member)).trans ?_
      refine (changes₂.mono ?_).trans (changes₄.mono (spared_subset fun z member => List.mem_cons_of_mem _ member))
      exact serves₁.lent_spared.trans (spared_subset fun z member => List.mem_cons_of_mem _ member)
    · rw [serves₄.untouched List.mem_cons_self changes₄ (by omega), ← serves.untouched List.mem_cons_self changes₁ less,
        copied, copy, if_pos ((covers_add _ _ _ (by omega)).mpr less), add_sub_cancel_left]

theorem Serves.realloc (serves : Serves tlsf finish m (x :: live)) (bound : size.toNat ≤ 0xfc000000) (some : size ≠ 0) :
    reallocEx (x.1 + 8) size tlsf m = (0, m) ∨
      ∃ y, (reallocEx (x.1 + 8) size tlsf m).1 = y.1 + 8 ∧
        Resized tlsf finish m (reallocEx (x.1 + 8) size tlsf m).2 live x y size.toNat := by
  obtain ⟨front, b, back, lists, heap, front', behind, used, rfl, same⟩ := serves.find
  obtain ⟨n, back, rfl⟩ := List.exists_cons_of_ne_nil behind
  have inside : b ∈ front ++ b :: n :: back := List.mem_append_right _ List.mem_cons_self
  have inside' : n ∈ front ++ b :: n :: back := mem_around (List.mem_append_right _ List.mem_cons_self)
  have whole := heap.layout.aligned inside
  have whole' := heap.layout.aligned inside'
  have headed := (heap.headed b inside).1
  have headed' := (heap.headed n inside').1
  have start : b.addr + 8 - BHDR_OVERHEAD = b.addr := add_sub_cancel_right b.addr 8
  have value := adjusted_toNat size (by omega)
  obtain ⟨aligned, least, above⟩ := payload_facts size.toNat
  have fits := payload_le (by decide) (by decide) bound
  set newSize := if size < MIN_BLOCK_SIZE then MIN_BLOCK_SIZE else roundupSize size with rounded
  rw [← value] at aligned least above fits
  simp only [reallocEx, if_neg serves.nonnull, if_neg some, ← rounded, start, size_cell tlsf, headed, headed',
    header_size whole, header_size whole', heap.layout.next.1, (header_flag whole' n.free n.prev.isSome).1]
  by_cases small : newSize ≤ b.size
  · right
    rw [if_pos small]
    rw [BitVec.le_def] at small
    obtain ⟨⟨size', blocks', lists', heap', enough, rest⟩, changes⟩ :=
      reallocShrink_heap heap front' used aligned least small
    exact ⟨(b.addr, size'), rfl, resized_in_place serves same heap' rest (Nat.le_trans above enough) changes
      fun i _ less => Nat.lt_of_lt_of_le less above⟩
  · have larger : b.size.toNat < newSize.toNat := BitVec.lt_def.mp (BitVec.not_le.mp small)
    rw [if_neg small]
    by_cases joined : n.free = true ∧ newSize ≤ b.size + n.size
    · right
      rw [if_pos joined]
      obtain ⟨free, fits⟩ := joined
      have sum : (b.size + n.size).toNat = b.size.toNat + n.size.toNat := by
        have first := heap.layout.size_lt inside
        have second := heap.layout.size_lt inside'
        rw [BitVec.toNat_add]
        exact Nat.mod_eq_of_lt (by omega)
      rw [BitVec.le_def, sum] at fits
      obtain ⟨⟨size', blocks', lists', heap', enough, rest⟩, changes⟩ :=
        reallocGrow_heap heap front' used aligned least free fits
      exact ⟨(b.addr, size'), rfl, resized_in_place serves same heap' rest (Nat.le_trans above enough)
        (changes b.size (Nat.le_refl _) (Nat.le_of_lt larger)) fun i less _ => less⟩
    · rw [if_neg joined]
      rcases reallocMove_resized serves fits larger with refused | ⟨y, result, resized⟩
      · exact Or.inl refused
      · exact Or.inr ⟨y, result, Nat.le_trans above resized.enough, resized.serves, resized.changes,
          fun i less less' => resized.same i less (Nat.lt_of_lt_of_le less' above)⟩

theorem Serves.calloc {nelem elemSize : Word} (serves : Serves tlsf finish m live)
    (bound : (nelem * elemSize).toNat ≤ 0xfc000000) :
    callocEx nelem elemSize tlsf m = (0, m) ∨
      ∃ x, (callocEx nelem elemSize tlsf m).1 = x.1 + 8 ∧ (nelem * elemSize).toNat ≤ x.2.toNat ∧
        Serves tlsf finish (callocEx nelem elemSize tlsf m).2 (x :: live) ∧
        ChangesOnly (spared tlsf finish live) m (callocEx nelem elemSize tlsf m).2 ∧
        ∀ i < (nelem * elemSize).toNat, (callocEx nelem elemSize tlsf m).2 (x.1 + 8 + BitVec.ofNat 32 i) = 0 := by
  simp only [callocEx]
  by_cases none : nelem ≤ 0 ∨ elemSize ≤ 0
  · exact Or.inl (if_pos none)
  · rw [if_neg none]
    rcases serves.malloc bound with refused | ⟨x, result, enough, serves₁, changes₁⟩
    · left
      rw [refused, if_pos rfl]
    · right
      rw [result, if_neg serves₁.nonnull]
      set m₁ := (mallocEx (nelem * elemSize) tlsf m).2
      have bounds := serves₁.apart.1 x List.mem_cons_self
      have top := serves₁.top
      have place := (serves₁.byte_at (i := 0) List.mem_cons_self (by omega)).1
      rw [BitVec.add_zero] at place
      have changes₂ : ChangesOnly (lent x) m₁ (fill m₁ (x.1 + 8) (nelem * elemSize).toNat 0) := by
        refine (fill_changesOnly m₁ _ _ 0 (by omega)).mono fun n inside => ?_
        rw [place, Set.mem_Ico] at inside
        exact ⟨by omega, by omega⟩
      refine ⟨x, rfl, enough, serves₁.write List.mem_cons_self changes₂,
        changes₁.trans (changes₂.mono serves₁.lent_spared), fun i less => ?_⟩
      exact if_pos ((covers_add _ _ _ (by omega)).mpr less)

end Tlsf

end GenericBooter
