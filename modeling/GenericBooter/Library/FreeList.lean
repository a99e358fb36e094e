import GenericBooter.Library.Linked

namespace Linked

variable {ι : Type*}

/-- Every cell of `all` is either live or on the free list that starts at `head`, exactly once. -/
def Pool (next : ι → Option ι) (head : Option ι) (live all : Multiset ι) : Prop :=
  ∃ free, Chain next head free ∧ live + (free : Multiset ι) = all

namespace Pool

variable {next next' : ι → Option ι} {head : Option ι} {live all : Multiset ι} {p : ι}

theorem empty_iff : Pool next none live all ↔ live = all := by
  constructor
  · rintro ⟨free, chain, split⟩
    cases free with
    | nil => exact (add_zero live).symm.trans split
    | cons q rest => cases chain.1
  · exact fun equal => ⟨[], rfl, (add_zero live).trans equal⟩

theorem head_mem (pool : Pool next (some p) live all) : p ∈ all := by
  obtain ⟨free, chain, split⟩ := pool
  cases free with
  | nil => cases chain
  | cons q rest =>
    obtain rfl : p = q := Option.some.inj chain.1
    rw [← split]
    exact Multiset.mem_add.mpr (Or.inr List.mem_cons_self)

theorem live_mem (pool : Pool next head live all) (member : p ∈ live) : p ∈ all := by
  obtain ⟨_, _, split⟩ := pool
  exact split ▸ Multiset.mem_add.mpr (Or.inl member)

theorem live_nodup (nodup : all.Nodup) (pool : Pool next head live all) : live.Nodup := by
  obtain ⟨_, _, split⟩ := pool
  rw [← split, Multiset.nodup_add] at nodup
  exact nodup.1

theorem head_notMem (nodup : all.Nodup) (pool : Pool next (some p) live all) : p ∉ live := by
  obtain ⟨free, chain, split⟩ := pool
  rw [← split, Multiset.nodup_add] at nodup
  cases free with
  | nil => cases chain
  | cons q rest =>
    obtain rfl : p = q := Option.some.inj chain.1
    exact fun member => Multiset.disjoint_left.mp nodup.2.2 member List.mem_cons_self

theorem congr (nodup : all.Nodup) (same : ∀ q ∈ all, q ∉ live → next' q = next q)
    (pool : Pool next head live all) : Pool next' head live all := by
  obtain ⟨free, chain, split⟩ := pool
  refine ⟨free, chain_congr (fun q member => ?_) chain, split⟩
  rw [← split, Multiset.nodup_add] at nodup
  refine same q (split ▸ Multiset.mem_add.mpr (Or.inr member)) fun inside => ?_
  exact Multiset.disjoint_left.mp nodup.2.2 inside member

theorem take (pool : Pool next (some p) live all) : Pool next (next p) (p ::ₘ live) all := by
  obtain ⟨free, chain, split⟩ := pool
  cases free with
  | nil => cases chain
  | cons q rest =>
    obtain rfl : p = q := Option.some.inj chain.1
    refine ⟨rest, chain.2, ?_⟩
    rw [← split, Multiset.cons_add, ← Multiset.add_cons, Multiset.cons_coe]

theorem release (nodup : all.Nodup) (pool : Pool next head (p ::ₘ live) all) (link : next' p = head)
    (same : ∀ q ∈ all, q ∉ p ::ₘ live → next' q = next q) : Pool next' (some p) live all := by
  obtain ⟨free, chain, split⟩ := congr nodup same pool
  refine ⟨p :: free, ⟨rfl, link ▸ chain⟩, ?_⟩
  rw [← split, Multiset.cons_add, ← Multiset.add_cons, Multiset.cons_coe]

theorem absent (pool : Pool next head live all) (unlisted : ¬ Listed next head p) (outside : p ∉ live) : p ∉ all := by
  obtain ⟨free, chain, split⟩ := pool
  rw [← split, Multiset.mem_add, not_or]
  exact ⟨outside, fun member => unlisted ((listed_iff chain).mpr (Multiset.mem_coe.mp member))⟩

theorem give (nodup : all.Nodup) (pool : Pool next head live all) (outside : p ∉ all) (link : next' p = head)
    (same : ∀ q ≠ p, next' q = next q) : Pool next' (some p) live (p ::ₘ all) := by
  obtain ⟨free, chain, split⟩ := pool
  have more : Pool next head (p ::ₘ live) (p ::ₘ all) := ⟨free, chain, by rw [Multiset.cons_add, split]⟩
  apply more.release (Multiset.nodup_cons.mpr ⟨outside, nodup⟩) link
  intro q _ other
  rw [Multiset.mem_cons, not_or] at other
  exact same q other.1

theorem grow {fresh : List ι} (pool : Pool next none live all) (chain : Chain next' head fresh) :
    Pool next' head live (all + (fresh : Multiset ι)) :=
  ⟨fresh, chain, by rw [empty_iff.mp pool]⟩

theorem grow_block {next next' : ℕ → Option ℕ} {live : Multiset ℕ} {base count : ℕ}
    (pool : Pool next none live (Multiset.range base)) (positive : 0 < count)
    (linked : ∀ i < count, next' (base + i) = if i + 1 = count then none else some (base + i + 1)) :
    Pool next' (some base) live (Multiset.range (base + count)) := by
  have grown := pool.grow (chain_up next' base count linked)
  rw [if_neg (Nat.ne_of_gt positive)] at grown
  rw [Multiset.range, List.range_add, ← Multiset.coe_add]
  exact grown

end Pool

def Aside (next : ι → Option ι) (head : Option ι) (all : Multiset ι) (within : ι → Prop) : Prop :=
  ∃ aside, Chain next head aside ∧ (all + (aside : Multiset ι)).Nodup ∧ ∀ p ∈ aside, within p

namespace Aside

variable {next next' : ι → Option ι} {head : Option ι} {all : Multiset ι} {within within' : ι → Prop}

theorem empty (nodup : all.Nodup) : Aside next none all within :=
  ⟨[], rfl, (add_zero all).symm ▸ nodup, fun _ member => absurd member List.not_mem_nil⟩

theorem congr (same : ∀ q, q ∉ all → next' q = next q) (aside : Aside next head all within) :
    Aside next' head all within := by
  obtain ⟨cells, chain, nodup, inside⟩ := aside
  refine ⟨cells, chain_congr (fun q member => ?_) chain, nodup, inside⟩
  exact same q fun shared =>
    Multiset.disjoint_left.mp (Multiset.nodup_add.mp nodup).2.2 shared (Multiset.mem_coe.mpr member)

theorem fewer {all' : Multiset ι} (less : all' ≤ all) (aside : Aside next head all within) :
    Aside next head all' within := by
  obtain ⟨cells, chain, nodup, inside⟩ := aside
  exact ⟨cells, chain, Multiset.nodup_of_le (add_le_add_left less _) nodup, inside⟩

theorem give {p : ι} (aside : Aside next head all within) (unlisted : ¬ Listed next head p) (outside : p ∉ all)
    (same : ∀ q ≠ p, next' q = next q) : Aside next' head (p ::ₘ all) within := by
  obtain ⟨cells, chain, nodup, inside⟩ := aside
  have absent : p ∉ cells := fun member => unlisted ((listed_iff chain).mpr member)
  refine ⟨cells, chain_congr (fun q member => same q fun equal => absent (equal ▸ member)) chain, ?_, inside⟩
  rw [Multiset.cons_add, Multiset.nodup_cons, Multiset.mem_add, not_or]
  exact ⟨⟨outside, fun member => absent (Multiset.mem_coe.mp member)⟩, nodup⟩

theorem grow {p : ι} {fresh : List ι} (aside : Aside next head all within) (link : next' p = head)
    (bound : ∀ q ∈ all, within q) (once : (p :: fresh).Nodup) (new : ∀ q ∈ p :: fresh, ¬ within q)
    (same : ∀ q, within q → next' q = next q) (wider : ∀ q, within q → within' q) (more : within' p) :
    Aside next' (some p) (all + (fresh : Multiset ι)) within' := by
  obtain ⟨cells, chain, nodup, inside⟩ := aside
  refine ⟨p :: cells, ⟨rfl, link ▸ chain_congr (fun q member => same q (inside q member)) chain⟩, ?_, ?_⟩
  · have split : all + (fresh : Multiset ι) + (p :: cells : List ι) =
        all + (cells : Multiset ι) + (p :: fresh : List ι) := by
      rw [← Multiset.cons_coe, ← Multiset.cons_coe, Multiset.add_cons, Multiset.add_cons, add_right_comm]
    rw [split]
    refine Multiset.nodup_add.mpr ⟨nodup, Multiset.coe_nodup.mpr once, ?_⟩
    refine Multiset.disjoint_left.mpr fun member member' => new _ (Multiset.mem_coe.mp member') ?_
    rcases Multiset.mem_add.mp member with member | member
    · exact bound _ member
    · exact inside _ (Multiset.mem_coe.mp member)
  · intro q member
    rcases List.mem_cons.mp member with rfl | member
    · exact more
    · exact wider q (inside q member)

end Aside

def Apart (next : ι → Option ι) (head head' : Option ι) (live : Multiset ι) : Prop :=
  ∃ cells cells', Chain next head cells ∧ Chain next head' cells' ∧
    (live + (cells : Multiset ι) + (cells' : Multiset ι)).Nodup

theorem Pool.apart {next : ι → Option ι} {head head' : Option ι} {live all : Multiset ι} {within : ι → Prop}
    (pool : Pool next head live all) (aside : Aside next head' all within) : Apart next head head' live := by
  obtain ⟨free, chain, rfl⟩ := pool
  obtain ⟨cells, chain', nodup, _⟩ := aside
  exact ⟨free, cells, chain, chain', nodup⟩

end Linked
