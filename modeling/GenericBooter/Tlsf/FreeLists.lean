import GenericBooter.Tlsf.Filing

namespace GenericBooter

open ByteMemory TwoWay

namespace Tlsf

/-- The words of `tlsf_t` and the links of the blocks hold the lists. -/
structure Filed (tlsf : Word) (m : Memory) (lists : Nat → List Word) : Prop where
  threaded : ∀ c < 768, Threaded (Bhdr.next m) (Bhdr.prev m) 0 0 (Cell.get tlsf m (.control (27 + c))) (lists c)
  nodup : ∀ c < 768, (lists c).Nodup
  disjoint : ∀ c < 768, ∀ c' < 768, c ≠ c' → (lists c).Disjoint (lists c')
  rows : ∀ c < 768, (Cell.get tlsf m (.control (3 + c / 32))).getLsbD (c % 32) = !(lists c).isEmpty
  columns : ∀ fl < 32, (Cell.get tlsf m (.control 2)).getLsbD fl =
    decide (fl < 24 ∧ Cell.get tlsf m (.control (3 + fl)) ≠ 0)

def Members (room : Word → Nat) (lists : Nat → List Word) : Prop := ∀ c < 768, ∀ b ∈ lists c, room b = 4

variable {tlsf : Word} {room : Word → Nat} {m m' : Memory} {lists : Nat → List Word} {b : Word} {c : Nat}

theorem Members.insert (members : Members room lists) (four : room b = 4) :
    Members room (Function.update lists c (b :: lists c)) := by
  intro c' bound x member
  by_cases same : c' = c
  · subst same
    rw [Function.update_self] at member
    rcases List.mem_cons.mp member with rfl | member
    · exact four
    · exact members c' bound x member
  · rw [Function.update_of_ne same] at member
    exact members c' bound x member

theorem Filed.head (filed : Filed tlsf m lists) (bound : c < 768) :
    Cell.get tlsf m (.control (27 + c)) = (lists c).headD 0 := threaded_head (filed.threaded c bound)

theorem Filed.head_room (filed : Filed tlsf m lists) (members : Members room lists) (bound : c < 768) :
    Cell.get tlsf m (.control (27 + c)) = 0 ∨ room (Cell.get tlsf m (.control (27 + c))) = 4 := by
  rw [filed.head bound]
  exact (headD_mem 0 (lists c)).imp_right (members c bound _)

theorem Filed.nonnull (filed : Filed tlsf m lists) (bound : c < 768) (member : b ∈ lists c) : b ≠ 0 := by
  rintro rfl
  exact threaded_null (filed.threaded c bound) member

theorem Filed.links (filed : Filed tlsf m lists) (bound : c < 768) (member : b ∈ lists c) :
    (Bhdr.next m b = 0 ∨ Bhdr.next m b ∈ lists c) ∧ (Bhdr.prev m b = 0 ∨ Bhdr.prev m b ∈ lists c) := by
  obtain ⟨front, back, split⟩ := List.append_of_mem member
  have chain := filed.threaded c bound
  rw [split] at chain ⊢
  obtain ⟨prev, next⟩ := threaded_at chain
  rw [prev, next]
  constructor
  · exact (headD_mem 0 back).imp_right fun inside => List.mem_append_right front (List.mem_cons_of_mem b inside)
  · exact (getLastD_mem front).imp_right fun inside => List.mem_append_left _ inside

theorem Filed.congr (filed : Filed tlsf m lists)
    (controls : ∀ i < 795, 2 ≤ i → Cell.get tlsf m' (.control i) = Cell.get tlsf m (.control i))
    (links : ∀ c < 768, ∀ b ∈ lists c, Bhdr.next m' b = Bhdr.next m b ∧ Bhdr.prev m' b = Bhdr.prev m b) :
    Filed tlsf m' lists where
  threaded := by
    intro c bound
    rw [controls (27 + c) (by omega) (by omega)]
    exact threaded_congr (fun b member => (links c bound b member).1) (fun b member => (links c bound b member).2)
      (filed.threaded c bound)
  nodup := filed.nodup
  disjoint := filed.disjoint
  rows := by
    intro c bound
    rw [controls (3 + c / 32) (by omega) (by omega)]
    exact filed.rows c bound
  columns := by
    intro fl bound
    rw [controls 2 (by decide) (Nat.le_refl 2), filed.columns fl bound]
    by_cases row : fl < 24
    · rw [controls (3 + fl) (by omega) (by omega)]
    · simp only [row, false_and]

theorem Filed.put_header (filed : Filed tlsf m lists) (members : Members room lists) (placed : Placed tlsf room)
    {x : Word} {k : Fin 4} (small : k < 2) (valid : (Cell.field x k).Valid room) (value : Word) :
    Filed tlsf (Cell.put tlsf (.field x k) value m) lists := by
  have two : 2 ≠ k := (Fin.ne_of_lt small).symm
  have three : 3 ≠ k := (Fin.ne_of_lt (Fin.lt_trans small (by decide))).symm
  apply filed.congr
  · intro i bound _
    rw [placed.get_put valid (control_valid bound), if_neg (by simp only [reduceCtorEq, not_false_eq_true])]
  · intro c bound b member
    have four := members c bound b member
    rw [next_cell tlsf, prev_cell tlsf, next_cell tlsf, prev_cell tlsf, placed.get_put valid (field_valid four 3),
      placed.get_put valid (field_valid four 2)]
    simp only [Cell.field.injEq, two, three, and_false, if_false, and_self]

theorem or_bit (x : Word) {k j : Nat} (small : j < 32) :
    (x ||| BitVec.twoPow 32 k).getLsbD j = (x.getLsbD j || decide (k = j)) := by
  rw [BitVec.getLsbD_or, BitVec.getLsbD_twoPow]
  by_cases same : k = j
  · subst same
    simp only [small, decide_true, Bool.and_self]
  · simp only [same, decide_false, Bool.and_false]

theorem and_not_bit (x : Word) {k j : Nat} (small : j < 32) :
    (x &&& ~~~BitVec.twoPow 32 k).getLsbD j = (x.getLsbD j && !decide (k = j)) := by
  rw [BitVec.getLsbD_and, BitVec.getLsbD_not, BitVec.getLsbD_twoPow]
  by_cases same : k = j
  · subst same
    simp only [small, decide_true, Bool.and_self, Bool.not_true, Bool.and_false]
  · simp only [small, same, decide_true, decide_false, Bool.and_false, Bool.not_false, Bool.and_self]

theorem or_bit_ne_zero (x : Word) {k : Nat} (small : k < 32) : x ||| BitVec.twoPow 32 k ≠ 0 := by
  intro zero
  have bit := or_bit x (k := k) small
  rw [zero, decide_eq_true rfl, Bool.or_true] at bit
  simp at bit

section Insert

variable (filed : Filed tlsf m lists) (members : Members room lists) (placed : Placed tlsf room) (four : room b = 4)
  (bound : c < 768)

include filed members placed four bound

theorem insertBlock_control {i : Nat} (inside : i < 795) :
    Cell.get tlsf (insertBlock b tlsf (Index.ofRank c) m) (.control i) =
      if i = 2 then Cell.get tlsf m (.control 2) ||| BitVec.twoPow 32 (c / 32)
      else if i = 3 + c / 32 then Cell.get tlsf m (.control (3 + c / 32)) ||| BitVec.twoPow 32 (c % 32)
      else if i = 27 + c then b
      else Cell.get tlsf m (.control i) := by
  rw [insertBlock_get placed four bound (filed.head_room members bound) (control_valid inside)]
  simp only [Cell.control.injEq, reduceCtorEq, and_false, if_false]

theorem insertBlock_next {y : Word} (four' : room y = 4) :
    Bhdr.next (insertBlock b tlsf (Index.ofRank c) m) y = if y = b then (lists c).headD 0 else Bhdr.next m y := by
  rw [next_cell tlsf, next_cell tlsf,
    insertBlock_get placed four bound (filed.head_room members bound) (field_valid four' 3), filed.head bound]
  simp only [Cell.field.injEq, reduceCtorEq, and_false, and_true, if_false, Fin.reduceEq]

theorem insertBlock_prev {y : Word} (four' : room y = 4) :
    Bhdr.prev (insertBlock b tlsf (Index.ofRank c) m) y =
      if (lists c).headD 0 ≠ 0 ∧ y = (lists c).headD 0 then b else if y = b then 0 else Bhdr.prev m y := by
  rw [prev_cell tlsf, prev_cell tlsf,
    insertBlock_get placed four bound (filed.head_room members bound) (field_valid four' 2), filed.head bound]
  simp only [Cell.field.injEq, reduceCtorEq, and_false, and_true, if_false, Fin.reduceEq]

theorem insertBlock_filed (fresh : ∀ c < 768, b ∉ lists c) (nonnull : b ≠ 0) :
    Filed tlsf (insertBlock b tlsf (Index.ofRank c) m) (Function.update lists c (b :: lists c)) := by
  have control := fun {i : Nat} => insertBlock_control filed members placed four bound (i := i)
  have next := fun {y : Word} => insertBlock_next filed members placed four bound (y := y)
  have prev := fun {y : Word} => insertBlock_prev filed members placed four bound (y := y)
  constructor
  · intro c' bound'
    rw [control (by omega), if_neg (by omega), if_neg (by omega)]
    by_cases same : c' = c
    · subst same
      rw [if_pos rfl, Function.update_self]
      have chain := filed.threaded c' bound'
      rw [filed.head bound'] at chain
      refine threaded_push chain (filed.nodup c' bound') nonnull ?_ ?_ ?_ ?_
      · rw [next four, if_pos rfl]
      · rw [prev four, if_pos rfl]
        split
        · rename_i listed
          have member := (headD_mem 0 (lists c')).resolve_left listed.1
          exact absurd (listed.2 ▸ member) (fresh c' bound')
        · rfl
      · intro y member
        have other : y ≠ b := fun same => fresh c' bound' (same ▸ member)
        rw [next (members c' bound' y member), if_neg other]
      · intro y member
        have other : y ≠ b := fun same => fresh c' bound' (same ▸ member)
        rw [prev (members c' bound' y member), if_neg other]
        by_cases first : y = (lists c').headD 0
        · rw [if_pos first, if_pos ⟨first ▸ filed.nonnull bound' member, first⟩]
        · rw [if_neg first, if_neg fun both => first both.2]
    · rw [if_neg (by omega), Function.update_of_ne same]
      refine threaded_congr (fun y member => ?_) (fun y member => ?_) (filed.threaded c' bound')
      · have other : y ≠ b := fun same => fresh c' bound' (same ▸ member)
        rw [next (members c' bound' y member), if_neg other]
      · have other : y ≠ b := fun same => fresh c' bound' (same ▸ member)
        rw [prev (members c' bound' y member), if_neg other, if_neg]
        rintro ⟨some, first⟩
        have listed := (headD_mem 0 (lists c)).resolve_left some
        exact filed.disjoint c' bound' c bound same member (first ▸ listed)
  · intro c' bound'
    by_cases same : c' = c
    · subst same
      rw [Function.update_self]
      exact List.nodup_cons.mpr ⟨fresh c' bound', filed.nodup c' bound'⟩
    · rw [Function.update_of_ne same]
      exact filed.nodup c' bound'
  · intro c₁ bound₁ c₂ bound₂ other
    by_cases first : c₁ = c
    · subst first
      rw [Function.update_self, Function.update_of_ne (Ne.symm other)]
      exact List.disjoint_cons_left.mpr ⟨fresh c₂ bound₂, filed.disjoint c₁ bound₁ c₂ bound₂ other⟩
    · rw [Function.update_of_ne first]
      by_cases second : c₂ = c
      · subst second
        rw [Function.update_self]
        exact List.disjoint_cons_right.mpr ⟨fresh c₁ bound₁, filed.disjoint c₁ bound₁ c₂ bound₂ other⟩
      · rw [Function.update_of_ne second]
        exact filed.disjoint c₁ bound₁ c₂ bound₂ other
  · intro c' bound'
    rw [control (by omega), if_neg (by omega)]
    by_cases row : c' / 32 = c / 32
    · rw [if_pos (by omega), or_bit _ (Nat.mod_lt _ (by decide)), ← row, filed.rows c' bound']
      by_cases same : c' = c
      · subst same
        rw [Function.update_self, decide_eq_true rfl, Bool.or_true]
        rfl
      · rw [Function.update_of_ne same, decide_eq_false (by omega), Bool.or_false]
    · have other : c' ≠ c := fun same => row (by rw [same])
      rw [if_neg (by omega), if_neg (by omega), Function.update_of_ne other]
      exact filed.rows c' bound'
  · intro fl small
    rw [control (by decide), if_pos rfl, or_bit _ small, filed.columns fl small]
    by_cases row : fl < 24
    · rw [control (by omega), if_neg (by omega), if_neg (show 3 + fl ≠ 27 + c by omega)]
      by_cases same : fl = c / 32
      · subst same
        rw [if_pos rfl, decide_eq_true rfl, Bool.or_true, decide_eq_true]
        exact ⟨row, or_bit_ne_zero _ (by omega)⟩
      · rw [if_neg (by omega), decide_eq_false (Ne.symm same), Bool.or_false]
    · have other : c / 32 ≠ fl := by omega
      simp only [row, false_and, decide_false, decide_eq_false other, Bool.or_false]

end Insert

section Extract

variable (filed : Filed tlsf m lists) (members : Members room lists) (bound : c < 768) (member : b ∈ lists c)
  (taken : ∀ {cell : Cell}, cell.Valid room → Cell.get tlsf m' cell = takenOut tlsf m b c cell)

include filed bound member in
theorem alone_iff : Cell.get tlsf m (.control (27 + c)) = b ∧ Cell.get tlsf m (.field b 3) = 0 ↔ lists c = [b] := by
  obtain ⟨front, back, split⟩ := List.append_of_mem member
  have chain := filed.threaded c bound
  have nodup := filed.nodup c bound
  have clean := threaded_null chain
  rw [split] at chain nodup clean
  rw [← next_cell, (threaded_at chain).2, threaded_head chain, split]
  constructor
  · rintro ⟨first, last⟩
    have noBack : back = [] := by
      cases back with
      | nil => rfl
      | cons z rest =>
        change z = 0 at last
        exact absurd (List.mem_append_right front (List.mem_cons_of_mem b (last ▸ List.mem_cons_self))) clean
    have noFront : front = [] := by
      cases front with
      | nil => rfl
      | cons y rest =>
        change y = b at first
        exact absurd (first ▸ List.mem_append_right rest List.mem_cons_self) (List.nodup_cons.mp nodup).1
    rw [noFront, noBack]
    rfl
  · intro single
    have length := congrArg List.length single
    simp only [List.length_append, List.length_cons, List.length_nil] at length
    have noFront : front = [] := List.eq_nil_of_length_eq_zero (by omega)
    have noBack : back = [] := List.eq_nil_of_length_eq_zero (by omega)
    rw [noFront, noBack]
    exact ⟨rfl, rfl⟩

section Links

include taken

theorem extract_next {y : Word} (four : room y = 4) (other : y ≠ b) :
    Bhdr.next m' y = if Bhdr.prev m b ≠ 0 ∧ y = Bhdr.prev m b then Bhdr.next m b else Bhdr.next m y := by
  rw [next_cell tlsf, taken (field_valid four 3), prev_cell tlsf, next_cell tlsf, next_cell tlsf]
  simp only [takenOut, Cell.field.injEq, reduceCtorEq, other, false_and, and_false, if_false, and_true, Fin.reduceEq]

theorem extract_prev {y : Word} (four : room y = 4) (other : y ≠ b) :
    Bhdr.prev m' y = if Bhdr.next m b ≠ 0 ∧ y = Bhdr.next m b then Bhdr.prev m b else Bhdr.prev m y := by
  rw [prev_cell tlsf, taken (field_valid four 2), prev_cell tlsf, next_cell tlsf, prev_cell tlsf]
  simp only [takenOut, Cell.field.injEq, reduceCtorEq, other, false_and, and_false, if_false, and_true, Fin.reduceEq]

end Links

include bound taken in
theorem extract_head {c' : Nat} (bound' : c' < 768) :
    Cell.get tlsf m' (.control (27 + c')) =
      if c' = c ∧ Cell.get tlsf m (.control (27 + c)) = b then Bhdr.next m b
      else Cell.get tlsf m (.control (27 + c')) := by
  have apart : 27 + c' ≠ 2 := by omega
  have apart' : 27 + c' ≠ 3 + c / 32 := by omega
  have same : 27 + c' = 27 + c ↔ c' = c := by omega
  rw [taken (control_valid (by omega)), next_cell tlsf]
  simp only [takenOut, Cell.control.injEq, reduceCtorEq, apart, apart', same, false_and, and_false, if_false]
  rw [if_congr and_comm rfl rfl]

include filed bound member taken

theorem extract_row {fl : Nat} (small : fl < 24) :
    Cell.get tlsf m' (.control (3 + fl)) =
      if lists c = [b] ∧ fl = c / 32 then
        Cell.get tlsf m (.control (3 + c / 32)) &&& ~~~BitVec.twoPow 32 (c % 32)
      else Cell.get tlsf m (.control (3 + fl)) := by
  have apart : 3 + fl ≠ 2 := by omega
  have apart' : 3 + fl ≠ 27 + c := by omega
  have same : 3 + fl = 3 + c / 32 ↔ fl = c / 32 := by omega
  rw [taken (control_valid (by omega))]
  simp only [takenOut, Cell.control.injEq, reduceCtorEq, apart, apart', same, alone_iff filed bound member, false_and,
    and_false, if_false]

theorem extract_column :
    Cell.get tlsf m' (.control 2) =
      if lists c = [b] ∧ Cell.get tlsf m (.control (3 + c / 32)) &&& ~~~BitVec.twoPow 32 (c % 32) = 0 then
        Cell.get tlsf m (.control 2) &&& ~~~BitVec.twoPow 32 (c / 32)
      else Cell.get tlsf m (.control 2) := by
  have apart : 2 ≠ 3 + c / 32 := by omega
  have apart' : 2 ≠ 27 + c := by omega
  rw [taken (control_valid (by decide))]
  simp only [takenOut, Cell.control.injEq, reduceCtorEq, apart, apart', alone_iff filed bound member, true_and,
    and_false, if_false]

include members in
theorem extract_filed : Filed tlsf m' (Function.update lists c ((lists c).erase b)) := by
  have next := fun {y : Word} => extract_next taken (y := y)
  have prev := fun {y : Word} => extract_prev taken (y := y)
  have subset (c' : Nat) : Function.update lists c ((lists c).erase b) c' ⊆ lists c' := by
    by_cases same : c' = c
    · subst same
      rw [Function.update_self]
      exact List.erase_subset
    · rw [Function.update_of_ne same]
      exact List.Subset.refl _
  constructor
  · intro c' bound'
    rw [extract_head bound taken bound']
    by_cases same : c' = c
    · subst same
      rw [Function.update_self, if_congr (and_iff_right rfl) rfl rfl]
      obtain ⟨front, back, split⟩ := List.append_of_mem member
      have chain := filed.threaded c' bound'
      have nodup := filed.nodup c' bound'
      have rooms := members c' bound'
      have nonnull := fun {y : Word} (listed : y ∈ lists c') => filed.nonnull bound' listed
      rw [split] at chain nodup rooms nonnull
      have fresh : b ∉ front ++ back := (List.nodup_cons.mp (List.perm_middle.nodup_iff.mp nodup)).1
      have inside {y : Word} (listed : y ∈ front ++ back) : y ∈ front ++ b :: back := by
        rcases List.mem_append.mp listed with before | behind
        · exact List.mem_append_left _ before
        · exact List.mem_append_right front (List.mem_cons_of_mem b behind)
      have erased : (front ++ b :: back).erase b = front ++ back := by
        have absent : b ∉ front := fun listed => fresh (List.mem_append_left _ listed)
        rw [List.erase_append_right _ absent, List.erase_cons_head]
      rw [split, erased]
      apply threaded_unlink chain nodup (threaded_null chain)
      · intro y listed
        have other : y ≠ b := fun same => fresh (same ▸ listed)
        rw [next (rooms y (inside listed)) other]
        refine if_congr (and_iff_right_of_imp ?_) rfl rfl
        rintro rfl
        exact nonnull (inside listed)
      · intro y listed
        have other : y ≠ b := fun same => fresh (same ▸ listed)
        rw [prev (rooms y (inside listed)) other]
        refine if_congr (and_iff_right_of_imp ?_) rfl rfl
        rintro rfl
        exact nonnull (inside listed)
    · rw [if_neg fun both => same both.1, Function.update_of_ne same]
      have apart := filed.disjoint c' bound' c bound same
      obtain ⟨linked, linked'⟩ := filed.links bound member
      refine threaded_congr (fun y listed => ?_) (fun y listed => ?_) (filed.threaded c' bound')
      · have other : y ≠ b := fun same => apart (same ▸ listed) member
        rw [next (members c' bound' y listed) other, if_neg]
        rintro ⟨some, rfl⟩
        exact apart listed (linked'.resolve_left some)
      · have other : y ≠ b := fun same => apart (same ▸ listed) member
        rw [prev (members c' bound' y listed) other, if_neg]
        rintro ⟨some, rfl⟩
        exact apart listed (linked.resolve_left some)
  · intro c' bound'
    by_cases same : c' = c
    · subst same
      rw [Function.update_self]
      exact (filed.nodup c' bound').erase b
    · rw [Function.update_of_ne same]
      exact filed.nodup c' bound'
  · intro c₁ bound₁ c₂ bound₂ other
    exact List.disjoint_of_subset_left (subset c₁)
      (List.disjoint_of_subset_right (subset c₂) (filed.disjoint c₁ bound₁ c₂ bound₂ other))
  · intro c' bound'
    have held := filed.rows c' bound'
    rw [extract_row filed bound member taken (by omega)]
    by_cases same : c' = c
    · subst same
      rw [Function.update_self, if_congr (and_iff_left rfl) rfl rfl]
      by_cases alone : lists c' = [b]
      · rw [if_pos alone, and_not_bit _ (Nat.mod_lt _ (by decide)), alone, decide_eq_true rfl, Bool.not_true,
          Bool.and_false, List.erase_cons_head]
        rfl
      · have more : (lists c').erase b ≠ [] := by
          intro none
          rcases List.erase_eq_nil_iff.mp none with empty | single
          · exact absurd (empty ▸ member) List.not_mem_nil
          · exact alone single
        have some : lists c' ≠ [] := List.ne_nil_of_mem member
        rw [if_neg alone, held, List.isEmpty_eq_false_iff.mpr more, List.isEmpty_eq_false_iff.mpr some]
    · rw [Function.update_of_ne same]
      split
      · rename_i cleared
        rw [← cleared.2, and_not_bit _ (Nat.mod_lt _ (by decide)), decide_eq_false (by omega), held, Bool.not_false,
          Bool.and_true]
      · exact held
  · intro fl small
    have held := filed.columns fl small
    rw [extract_column filed bound member taken]
    by_cases row : fl < 24
    · rw [extract_row filed bound member taken row]
      by_cases same : fl = c / 32
      · subst same
        rw [if_congr (and_iff_left rfl) rfl rfl]
        by_cases alone : lists c = [b]
        · rw [if_pos alone]
          by_cases empty : Cell.get tlsf m (.control (3 + c / 32)) &&& ~~~BitVec.twoPow 32 (c % 32) = 0
          · rw [if_pos ⟨alone, empty⟩, and_not_bit _ small, decide_eq_true rfl, empty]
            simp
          · have full : Cell.get tlsf m (.control (3 + c / 32)) ≠ 0 := by
              intro zero
              rw [zero] at empty
              exact empty (BitVec.zero_and)
            rw [if_neg fun both => empty both.2, held, decide_eq_true ⟨row, full⟩, decide_eq_true ⟨row, empty⟩]
        · rw [if_neg alone, if_neg fun both => alone both.1, held]
      · rw [if_neg (show ¬ (lists c = [b] ∧ fl = c / 32) from fun both => same both.2)]
        split
        · rw [and_not_bit _ small, decide_eq_false (Ne.symm same), held, Bool.not_false, Bool.and_true]
        · exact held
    · have other : c / 32 ≠ fl := by omega
      split
      · rw [and_not_bit _ small, decide_eq_false other, held, Bool.not_false, Bool.and_true]
        simp only [row, false_and]
      · rw [held]
        simp only [row, false_and]

end Extract

section Search

variable {c₀ : Nat}

/-- The first block of the first list from `c₀` on that is not empty. -/
def FirstFrom (lists : Nat → List Word) (c₀ c : Nat) (b : Word) : Prop :=
  c₀ ≤ c ∧ c < 768 ∧ (lists c).head? = some b ∧ ∀ c', c₀ ≤ c' → c' < c → lists c' = []

theorem Filed.empty_iff (filed : Filed tlsf m lists) (bound : c < 768) :
    (Cell.get tlsf m (.control (3 + c / 32))).getLsbD (c % 32) = false ↔ lists c = [] := by
  rw [filed.rows c bound, Bool.not_eq_false', List.isEmpty_iff]

theorem Filed.row_empty (filed : Filed tlsf m lists) {fl : Nat} (small : fl < 24)
    (zero : Cell.get tlsf m (.control (3 + fl)) = 0) : ∀ c, c / 32 = fl → lists c = [] := by
  rintro c rfl
  rw [← filed.empty_iff (by omega), zero]
  exact zero_bit _

theorem Filed.first (filed : Filed tlsf m lists) (bound : c < 768) (some : lists c ≠ []) :
    (lists c).head? = Option.some (matrix m tlsf (Index.ofRank c)) := by
  rw [matrix_cell, filed.head bound]
  cases held : lists c with
  | nil => exact absurd held some
  | cons x rest => rfl

theorem ofRank_eq {fl sl : Nat} (small : sl < 32) :
    Index.ofRank (32 * fl + sl) = ⟨BitVec.ofNat 32 fl, BitVec.ofNat 32 sl⟩ := by
  rw [Index.ofRank, Nat.mul_add_div (by decide), Nat.div_eq_of_lt small, Nat.add_zero, Nat.mul_add_mod,
    Nat.mod_eq_of_lt small]

theorem positive_int {k : Nat} (positive : 0 < k) (small : k < 32) : (0 : Word).slt (BitVec.ofNat 32 k) = true := by
  have all : ∀ k : Fin 32, 0 < k.val → (0 : Word).slt (BitVec.ofNat 32 k.val) = true := by decide +kernel
  exact all ⟨k, small⟩ positive

theorem findSuitableBlock_finds (filed : Filed tlsf m lists) (bound : c₀ < 768) :
    (∃ c b, FirstFrom lists c₀ c b ∧ findSuitableBlock tlsf (Index.ofRank c₀) m = (b, Index.ofRank c)) ∨
      (∀ c, c₀ ≤ c → c < 768 → lists c = []) ∧ (findSuitableBlock tlsf (Index.ofRank c₀) m).1 = 0 := by
  have row : c₀ / 32 < 24 := by omega
  simp only [findSuitableBlock]
  rw [show (Index.ofRank c₀).fl = BitVec.ofNat 32 (c₀ / 32) from rfl,
    show (Index.ofRank c₀).sl = BitVec.ofNat 32 (c₀ % 32) from rfl, slBitmap_cell, flBitmap_cell,
    show BitVec.ofNat 32 (c₀ / 32) + 1 = BitVec.ofNat 32 (c₀ / 32 + 1) from (BitVec.ofNat_add _ 1).symm]
  by_cases here : Cell.get tlsf m (.control (3 + c₀ / 32)) &&& (~~~(0 : Word) <<< BitVec.ofNat 32 (c₀ % 32)) = 0
  · have rest (c : Nat) (above : c₀ ≤ c) (same : c / 32 = c₀ / 32) : lists c = [] := by
      have bit := mask_bit (Cell.get tlsf m (.control (3 + c₀ / 32))) (k := c₀ % 32) (j := c % 32) (by omega) (by omega)
      rw [here, decide_eq_true (by omega), Bool.and_true, zero_bit, ← same] at bit
      exact (filed.empty_iff (by omega)).mp bit.symm
    rw [if_neg (not_not.mpr here)]
    by_cases none : Cell.get tlsf m (.control 2) &&& (~~~(0 : Word) <<< BitVec.ofNat 32 (c₀ / 32 + 1)) = 0
    · right
      rw [none, lsBit_zero, if_neg (by decide)]
      refine ⟨?_, rfl⟩
      intro c above small
      by_cases same : c / 32 = c₀ / 32
      · exact rest c above same
      · have bit := mask_bit (Cell.get tlsf m (.control 2)) (k := c₀ / 32 + 1) (j := c / 32) (by omega) (by omega)
        rw [none, decide_eq_true (by omega), Bool.and_true, zero_bit, filed.columns _ (by omega)] at bit
        have zero : Cell.get tlsf m (.control (3 + c / 32)) = 0 := by
          by_contra nonzero
          exact absurd bit.symm (by simp only [nonzero, not_false_eq_true, ne_eq, and_true]; simp; omega)
        exact filed.row_empty (by omega) zero c rfl
    · left
      obtain ⟨fl, small, found, set, before⟩ := lsBit_first _ none
      rw [mask_bit _ (by omega) small, Bool.and_eq_true, decide_eq_true_eq, filed.columns fl small,
        decide_eq_true_eq] at set
      obtain ⟨⟨inside, nonzero⟩, above⟩ := set
      obtain ⟨sl, small', found', set', before'⟩ := lsBit_first _ nonzero
      rw [found, if_pos (positive_int (by omega) small), slBitmap_cell, found', ← ofRank_eq small']
      have quotient : (32 * fl + sl) / 32 = fl := by omega
      have remainder : (32 * fl + sl) % 32 = sl := by omega
      have some : lists (32 * fl + sl) ≠ [] := by
        intro empty
        have clear := (filed.empty_iff (show 32 * fl + sl < 768 by omega)).mpr empty
        rw [quotient, remainder, set'] at clear
        cases clear
      refine ⟨32 * fl + sl, _, ⟨by omega, by omega, filed.first (by omega) some, ?_⟩, rfl⟩
      intro c above' below
      by_cases same : c / 32 = c₀ / 32
      · exact rest c above' same
      · by_cases last : c / 32 = fl
        · have clear := before' (c % 32) (by omega)
          rw [← last] at clear
          exact (filed.empty_iff (by omega)).mp clear
        · have clear := before (c / 32) (by omega)
          rw [mask_bit _ (by omega) (by omega), decide_eq_true (by omega), Bool.and_true,
            filed.columns _ (by omega)] at clear
          have zero : Cell.get tlsf m (.control (3 + c / 32)) = 0 := by
            by_contra nonzero
            exact of_decide_eq_false clear ⟨by omega, nonzero⟩
          exact filed.row_empty (by omega) zero c rfl
  · left
    rw [if_pos here]
    obtain ⟨sl, small, found, set, before⟩ := lsBit_first _ here
    rw [mask_bit _ (by omega) small, Bool.and_eq_true, decide_eq_true_eq] at set
    rw [found, ← ofRank_eq small]
    have quotient : (32 * (c₀ / 32) + sl) / 32 = c₀ / 32 := by omega
    have remainder : (32 * (c₀ / 32) + sl) % 32 = sl := by omega
    have some : lists (32 * (c₀ / 32) + sl) ≠ [] := by
      intro empty
      have clear := (filed.empty_iff (show 32 * (c₀ / 32) + sl < 768 by omega)).mpr empty
      rw [quotient, remainder, set.1] at clear
      cases clear
    refine ⟨32 * (c₀ / 32) + sl, _, ⟨by omega, by omega, filed.first (by omega) some, ?_⟩, rfl⟩
    intro c above below
    have same : c / 32 = c₀ / 32 := by omega
    have clear := before (c % 32) (by omega)
    rw [mask_bit _ (by omega) (by omega), decide_eq_true (by omega), Bool.and_true, ← same] at clear
    exact (filed.empty_iff (by omega)).mp clear

/-- Beyond the bitmap of the rows `FIND_SUITABLE_BLOCK` reads the first heads of `matrix` instead. -/
theorem findSuitableBlock_beyond (filed : Filed tlsf m lists) (above : 768 ≤ c₀) (below : c₀ < 832)
    (empty : lists 0 = []) (empty' : lists 1 = []) : (findSuitableBlock tlsf (Index.ofRank c₀) m).1 = 0 := by
  have heads : Cell.get tlsf m (.control (3 + c₀ / 32)) = 0 := by
    rcases (by omega : c₀ / 32 = 24 ∨ c₀ / 32 = 25) with row | row
    · rw [row]
      exact (filed.head (c := 0) (by decide)).trans (by rw [empty]; rfl)
    · rw [row]
      exact (filed.head (c := 1) (by decide)).trans (by rw [empty']; rfl)
  have none : Cell.get tlsf m (.control 2) &&& (~~~(0 : Word) <<< BitVec.ofNat 32 (c₀ / 32 + 1)) = 0 := by
    apply BitVec.eq_of_getLsbD_eq
    intro j small
    rw [mask_bit _ (by omega) small, filed.columns j small, show (0 : Word).getLsbD j = false from zero_bit j]
    by_cases row : j < 24
    · rw [decide_eq_false (show ¬ c₀ / 32 + 1 ≤ j by omega), Bool.and_false]
    · simp only [row, false_and, decide_false, Bool.false_and]
  simp only [findSuitableBlock]
  rw [show (Index.ofRank c₀).fl = BitVec.ofNat 32 (c₀ / 32) from rfl,
    show (Index.ofRank c₀).sl = BitVec.ofNat 32 (c₀ % 32) from rfl, slBitmap_cell, flBitmap_cell,
    show BitVec.ofNat 32 (c₀ / 32) + 1 = BitVec.ofNat 32 (c₀ / 32 + 1) from (BitVec.ofNat_add _ 1).symm,
    heads, none, lsBit_zero, show (0 : Word) &&& (~~~(0 : Word) <<< BitVec.ofNat 32 (c₀ % 32)) = 0 from
    BitVec.zero_and, if_neg (by decide), if_neg (by decide)]

end Search

end Tlsf

end GenericBooter
