import GenericBooter.Library.ByteMemory

namespace ByteMemory

variable {w : Nat} {β : Type*}

/-- A run of cells at a distance from the beginning of the stretch. -/
structure Patch (β : Type*) where
  offset : Nat
  data : List β

def Patch.Within (patch : Patch β) (size : Nat) : Prop :=
  patch.data = [] ∨ patch.offset + patch.data.length ≤ size

instance (patch : Patch β) (size : Nat) : Decidable (patch.Within size) := inferInstanceAs (Decidable (_ ∨ _))

def Patch.Avoids (patch : Patch β) (offset length : Nat) : Prop :=
  patch.offset + patch.data.length ≤ offset ∨ offset + length ≤ patch.offset

def writeAll (m : Store w β) (base : BitVec w) (patches : List (Patch β)) : Store w β :=
  patches.foldl (fun m patch => write m (base + BitVec.ofNat w patch.offset) patch.data) m

section Write

variable {m : Store w β} {base : BitVec w} {patches : List (Patch β)} {size : Nat}

theorem writeAll_append (m : Store w β) (base : BitVec w) (first second : List (Patch β)) :
    writeAll m base (first ++ second) = writeAll (writeAll m base first) base second := List.foldl_append

theorem writeAll_cons (m : Store w β) (base : BitVec w) (patch : Patch β) (later : List (Patch β)) :
    writeAll m base (patch :: later) =
      writeAll (write m (base + BitVec.ofNat w patch.offset) patch.data) base later := rfl

theorem Patch.covers {patch : Patch β} {i : Nat} (within : patch.Within size) (room : size ≤ 2 ^ w)
    (small : i < 2 ^ w) :
    Covers (base + BitVec.ofNat w patch.offset) patch.data.length (base + BitVec.ofNat w i) ↔
      patch.offset ≤ i ∧ i < patch.offset + patch.data.length := by
  rcases within with empty | fits
  · rw [empty]
    exact ⟨fun covered => absurd covered (Nat.not_lt_zero _), fun inside => by simp at inside; omega⟩
  · exact covers_shift base i patch.offset _ small (by omega)

theorem writeAll_outside (within : ∀ patch ∈ patches, patch.Within size) (room : size ≤ 2 ^ w) {i : Nat}
    (small : i < 2 ^ w) (outside : ∀ patch ∈ patches, patch.Avoids i 1) :
    writeAll m base patches (base + BitVec.ofNat w i) = m (base + BitVec.ofNat w i) := by
  induction patches generalizing m with
  | nil => rfl
  | cons patch later ih =>
    have apart := outside patch List.mem_cons_self
    rw [writeAll_cons, ih (fun other member => within other (List.mem_cons_of_mem _ member))
      fun other member => outside other (List.mem_cons_of_mem _ member)]
    apply write_outside
    rw [Patch.covers (within patch List.mem_cons_self) room small]
    unfold Patch.Avoids at apart
    omega

theorem writeAll_kept {first later : List (Patch β)} {patch : Patch β}
    (within : ∀ other ∈ first ++ patch :: later, other.Within size) (room : size ≤ 2 ^ w) {i : Nat}
    (bound : i < patch.data.length) (apart : ∀ other ∈ later, other.Avoids (patch.offset + i) 1) :
    writeAll m base (first ++ patch :: later) (base + BitVec.ofNat w (patch.offset + i)) = patch.data[i] := by
  have fits : patch.offset + patch.data.length ≤ size := by
    rcases within patch (List.mem_append_right _ List.mem_cons_self) with empty | fits
    · rw [empty] at bound
      exact absurd bound (Nat.not_lt_zero _)
    · exact fits
  rw [writeAll_append, writeAll_cons, writeAll_outside (fun other member => within other
    (List.mem_append_right _ (List.mem_cons_of_mem _ member))) room (by omega) apart, ← add_ofNat]
  exact write_inside _ _ _ i bound (by omega)

theorem Patch.within_iff (patch : Patch β) (base : BitVec w) (start : patch.offset < 2 ^ w) (limit : size < 2 ^ w) :
    (∀ address, Covers (base + BitVec.ofNat w patch.offset) patch.data.length address → Covers base size address) ↔
      patch.Within size := by
  rw [covers_inside_iff base _ _ _ start limit, Within, List.length_eq_zero_iff]

end Write

end ByteMemory
