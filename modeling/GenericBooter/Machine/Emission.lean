import GenericBooter.Machine.Memory

namespace GenericBooter

open ByteMemory

/-- Between `s` and `t` the booter stored only into the place of `bytes` at `base`, and there made
    cleared memory into `bytes`. -/
structure Emitted (s t : Machine) (base : Word) (bytes : List Byte) : Prop where
  steps : ∃ made, Machine.Steps s t made ∧
    ∀ store ∈ made, ∀ address, store.Touches address → Covers base bytes.length address
  written : bytes.length ≤ 2 ^ 32 → (∀ i < bytes.length, s.memory (base + BitVec.ofNat 32 i) = 0) →
    t.memory = write s.memory base bytes

namespace Emitted

variable {s t u : Machine} {base : Word} {first second : List Byte}

theorem stored (s : Machine) (base : Word) (bytes : List Byte) :
    Emitted s (s.storeBytes base bytes) base bytes where
  steps := by
    refine ⟨_, Machine.storeBytes_steps s base bytes, fun store member address touched => ?_⟩
    rw [List.mem_singleton.mp member] at touched
    exact touched
  written _ _ := rfl

theorem word (s : Machine) (base value : Word) :
    Emitted s (s.storeWord base value) base (wordBytes value) where
  steps := by
    refine ⟨_, Machine.storeWord_steps s base value, fun store member address touched => ?_⟩
    rw [List.mem_singleton.mp member] at touched
    exact touched
  written _ _ := rfl

theorem zeros (s : Machine) (base : Word) (count : Nat) : Emitted s s base (List.replicate count 0) where
  steps := ⟨[], Machine.Steps.refl s, fun _ none => absurd none List.not_mem_nil⟩
  written _ cleared := by
    refine (write_same s.memory base _ fun i bound => ?_).symm
    rw [cleared i bound, List.getElem_replicate]

theorem append (here : Emitted s t base first)
    (later : Emitted t u (base + BitVec.ofNat 32 first.length) second) :
    Emitted s u base (first ++ second) where
  steps := by
    obtain ⟨made, steps, inside⟩ := here.steps
    obtain ⟨made', steps', inside'⟩ := later.steps
    refine ⟨made' ++ made, steps.trans steps', fun store member address touched => ?_⟩
    rw [List.length_append]
    rcases List.mem_append.mp member with member | member
    · obtain ⟨i, bound, rfl⟩ := covers_exists (inside' store member address touched)
      rw [add_ofNat, Covers, add_sub_cancel_left, BitVec.toNat_ofNat]
      exact Nat.lt_of_le_of_lt (Nat.mod_le _ _) (by omega)
    · exact Nat.lt_of_lt_of_le (inside store member address touched) (Nat.le_add_right _ _)
  written room cleared := by
    rw [List.length_append] at room cleared
    have memory := here.written (by omega) fun i bound => cleared i (by omega)
    rw [later.written (by omega), memory, write_append _ _ _ _ room]
    intro i bound
    rw [memory, add_ofNat, write_outside _ _ _ _ ((covers_add _ _ _ (by omega)).not.mpr (by omega))]
    exact cleared _ (by omega)

theorem patch {hole : List Byte} {target : Word} (here : Emitted s t base (first ++ (hole ++ second)))
    (length : hole.length = 4) (place : target = base + BitVec.ofNat 32 first.length) (value : Word) :
    Emitted s (t.storeWord target value) base (first ++ (wordBytes value ++ second)) where
  steps := by
    subst place
    obtain ⟨made, steps, inside⟩ := here.steps
    refine ⟨_, steps.trans (Machine.storeWord_steps t _ value), fun store member address touched => ?_⟩
    simp only [List.length_append, length, wordBytes_length] at inside ⊢
    rcases List.mem_append.mp member with member | member
    · rw [List.mem_singleton.mp member] at touched
      obtain ⟨i, bound, rfl⟩ := covers_exists touched
      have bound : i < 4 := bound
      rw [Store.base, add_ofNat, Covers, add_sub_cancel_left, BitVec.toNat_ofNat]
      exact Nat.lt_of_le_of_lt (Nat.mod_le _ _) (by omega)
    · exact inside store member address touched
  written room cleared := by
    simp only [List.length_append, wordBytes_length] at room cleared
    have memory := here.written (by simp only [List.length_append, length]; exact room)
      fun i bound => cleared i (by simp only [List.length_append, length] at bound; exact bound)
    change write t.memory _ _ = _
    rw [memory, place]
    exact write_patch _ _ _ _ _ _ (by rw [length, wordBytes_length])
      (by simp only [length]; omega)

end Emitted

end GenericBooter
