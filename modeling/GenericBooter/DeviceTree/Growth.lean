import GenericBooter.DeviceTree.Calls

namespace GenericBooter

open Linked

/-- The nodes of `tree` are in `tree'`, and an entry of `tree'` stood at the same node of `tree` or is one of `added`. -/
structure Enlarged (added : Set Attribute) (tree tree' : Forest) : Prop where
  live : liveNodes tree ⊆ liveNodes tree'
  entries : ∀ label ∈ cells tree', ∀ entry ∈ label.2,
    (∃ old ∈ cells tree, old.1 = label.1 ∧ entry ∈ old.2) ∨ entry.2 ∈ added

def Grown (added : Set Attribute) (tree : Forest) (dt : DeviceTree) : Prop :=
  ∃ tree', Represents dt tree' ∧ Enlarged added tree tree'

section Enlarged

variable {added : Set Attribute} {tree tree' tree'' : Forest} {dt dt' : DeviceTree} {n : Nat}

theorem Enlarged.refl (added : Set Attribute) (tree : Forest) : Enlarged added tree tree :=
  ⟨Multiset.Subset.refl _, fun label member _ inside => Or.inl ⟨label, member, rfl, inside⟩⟩

theorem Enlarged.trans (first : Enlarged added tree tree') (second : Enlarged added tree' tree'') :
    Enlarged added tree tree'' := by
  refine ⟨Multiset.Subset.trans first.live second.live, fun label member entry inside => ?_⟩
  rcases second.entries label member entry inside with ⟨old, present, same, held⟩ | new
  · rw [← same]
    exact first.entries old present entry held
  · exact Or.inr new

theorem Grown.refl (added : Set Attribute) (held : Represents dt tree) : Grown added tree dt :=
  ⟨tree, held, Enlarged.refl added tree⟩

theorem Grown.trans (grown : Grown added tree dt)
    (later : ∀ tree', Represents dt tree' → liveNodes tree ⊆ liveNodes tree' → Grown added tree' dt') :
    Grown added tree dt' := by
  obtain ⟨tree', held, enlarged⟩ := grown
  obtain ⟨tree'', held', enlarged'⟩ := later tree' held enlarged.live
  exact ⟨tree'', held', enlarged.trans enlarged'⟩

theorem liveNodes_graft {f : NodeLabel → NodeLabel} (same : ∀ label, (f label).1 = label.1) (young : Forest)
    (held : Represents dt tree) (member : n ∈ liveNodes tree) :
    liveNodes tree ⊆ liveNodes (graft Prod.fst n f young tree) ∧
      liveNodes young ⊆ liveNodes (graft Prod.fst n f young tree) := by
  obtain ⟨entries, slots, layout⟩ := held
  obtain ⟨label, inside, rfl⟩ := Multiset.mem_map.mp member
  obtain ⟨rest, split, grafted⟩ := graft_cells f young layout.liveNodes_nodup inside rfl
  have live : liveNodes (graft Prod.fst label.1 f young tree) =
      label.1 ::ₘ (liveNodes young + rest.map Prod.fst) := by
    rw [liveNodes, grafted, Multiset.map_cons, same, Multiset.map_add, liveNodes]
  have before : liveNodes tree = label.1 ::ₘ rest.map Prod.fst := by
    rw [liveNodes, split, Multiset.map_cons]
  rw [live, before]
  refine ⟨Multiset.cons_subset_cons (Multiset.subset_of_le (Multiset.le_add_left _ _)), ?_⟩
  exact Multiset.Subset.trans (Multiset.subset_of_le (Multiset.le_add_right _ _)) (Multiset.subset_cons _ _)

theorem Enlarged.graft {f : NodeLabel → NodeLabel} {young : Forest} (held : Represents dt tree)
    (member : n ∈ liveNodes tree) (same : ∀ label, (f label).1 = label.1)
    (more : ∀ label, ∀ entry ∈ (f label).2, entry ∈ label.2 ∨ entry.2 ∈ added)
    (new : ∀ label ∈ cells young, ∀ entry ∈ label.2, entry.2 ∈ added) :
    Enlarged added tree (graft Prod.fst n f young tree) := by
  refine ⟨(liveNodes_graft same young held member).1, ?_⟩
  obtain ⟨label, inside, rfl⟩ := Multiset.mem_map.mp member
  obtain ⟨rest, split, grafted⟩ := graft_cells f young held.liveNodes_nodup inside rfl
  intro other present entry held
  rw [grafted, Multiset.mem_cons, Multiset.mem_add] at present
  rcases present with rfl | young | old
  · exact (more label entry held).imp_left fun stood => ⟨label, inside, (same label).symm, stood⟩
  · exact Or.inr (new other young entry held)
  · exact Or.inl ⟨other, split ▸ Multiset.mem_cons_of_mem old, rfl, held⟩

theorem dtAddProperty_grows {name : CString} {length : Word} {value : Value} {result : Option Nat}
    (held : Represents dt tree) (member : n ∈ liveNodes tree) (new : ⟨name, length, value⟩ ∈ added)
    (ran : dtAddProperty dt n name length value = .ok (result, dt')) : Grown added tree dt' := by
  obtain ⟨_, _, ran', held', _⟩ := dtAddProperty_spec name length value held member
  obtain ⟨rfl, rfl⟩ := Prod.mk.inj (Except.ok.inj (ran.symm.trans ran'))
  cases result with
  | none => exact Grown.refl added held'
  | some prop =>
    refine ⟨_, held', Enlarged.graft held member (fun _ => rfl) (fun label entry inside => ?_) fun _ none => ?_⟩
    · rcases List.mem_append.mp inside with old | last
      · exact Or.inl old
      · rw [List.mem_singleton.mp last]
        exact Or.inr new
    · exact absurd none (Multiset.notMem_zero _)

theorem dtAddChild_grows {name : Option CString} {result : Option Nat} (held : Represents dt tree)
    (member : n ∈ liveNodes tree) (new : ∀ text, name = some text → nameAttribute text ∈ added)
    (ran : dtAddChild dt (some n) name = .ok (result, dt')) :
    ∃ tree', Represents dt' tree' ∧ Enlarged added tree tree' ∧ ∀ child, result = some child → child ∈ liveNodes tree' := by
  obtain ⟨_, _, ran', failed, returned, _⟩ := dtAddChild_spec (some n) name held member
  obtain ⟨rfl, rfl⟩ := Prod.mk.inj (Except.ok.inj (ran.symm.trans ran'))
  cases result with
  | none => exact ⟨tree, failed rfl, Enlarged.refl added tree, fun _ given => absurd given.symm (Option.some_ne_none _)⟩
  | some child =>
    obtain ⟨_, props, named, held', _⟩ := returned child rfl
    have own : child ∈ liveNodes (.node (child, props) .nil .nil) :=
      Multiset.mem_map_of_mem Prod.fst (Multiset.mem_cons_self (child, props) _)
    have live := (liveNodes_graft (f := id) (fun _ => rfl) (.node (child, props) .nil .nil) held member).2 own
    refine ⟨_, held', Enlarged.graft held member (fun _ => rfl) (fun _ _ => Or.inl) ?_, fun _ given => ?_⟩
    · intro label lone entry inside
      rw [Multiset.mem_singleton.mp lone] at inside
      rcases named with rfl | ⟨prop, text, given, rfl⟩
      · exact absurd inside List.not_mem_nil
      · rw [List.mem_singleton.mp inside]
        exact new text given
    · exact Option.some.inj given ▸ live

end Enlarged

end GenericBooter
