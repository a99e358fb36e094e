import GenericBooter.Boot.Stage2
import GenericBooter.DeviceTree.Growth

namespace GenericBooter

open Linked

def RamdiskRange (start length : Word) : Set Attribute :=
  {attr | attr.name = ascii "RAMDisk" → attr = ramdiskAttribute start length}

section Calls

variable {added : Set Attribute} {dt dt' : DeviceTree} {tree : Forest} {n : Nat} {entered : Bool}

theorem addPropertyTo_grows {name : CString} {length : Word} {value : Value} (held : Represents dt tree)
    (member : n ∈ liveNodes tree) (new : ⟨name, length, value⟩ ∈ added)
    (ran : addPropertyTo dt (some n) name length value = .ok dt') : Grown added tree dt' := by
  obtain ⟨⟨_, dt₁⟩, made, ran⟩ := bind_eq_ok.mp ran
  obtain rfl := Except.ok.inj ran
  exact dtAddProperty_grows held member new made

theorem createDeviceTreeNode_grows {name : CString} {data : List Byte} (held : Represents dt tree)
    (member : n ∈ liveNodes tree) (new : ⟨name, BitVec.ofNat 32 data.length, bytesValue data⟩ ∈ added)
    (ran : createDeviceTreeNode dt (some n) name data = .ok (entered, dt')) : Grown added tree dt' := by
  unfold createDeviceTreeNode at ran
  simp only at ran
  split at ran
  · obtain ⟨_, rfl⟩ := Prod.mk.inj (Except.ok.inj ran)
    exact Grown.refl added (held.with_malloc _)
  · obtain ⟨dt₁, made, ran⟩ := bind_eq_ok.mp ran
    obtain ⟨_, rfl⟩ := Prod.mk.inj (Except.ok.inj ran)
    exact addPropertyTo_grows (held.with_malloc _) member new made

theorem allocateMemoryRange_grows {name : CString} {start length type : Word} (held : Represents dt tree)
    (member : n ∈ liveNodes tree) (new : ⟨name, 8, bytesValue (wordBytes start ++ wordBytes length)⟩ ∈ added)
    (ran : allocateMemoryRange dt n name start length type = .ok (entered, dt')) : Grown added tree dt' := by
  unfold allocateMemoryRange at ran
  simp only at ran
  split at ran
  · obtain ⟨_, rfl⟩ := Prod.mk.inj (Except.ok.inj ran)
    exact Grown.refl added (held.with_malloc _)
  · split at ran
    · obtain ⟨_, rfl⟩ := Prod.mk.inj (Except.ok.inj ran)
      exact Grown.refl added (held.with_malloc _)
    · obtain ⟨dt₁, made, ran⟩ := bind_eq_ok.mp ran
      obtain ⟨_, rfl⟩ := Prod.mk.inj (Except.ok.inj ran)
      exact addPropertyTo_grows (held.with_malloc _) member new made

theorem createNodes_grows {chosen : Nat} {entries : List (Target × CString × List Byte)} (held : Represents dt tree)
    (member : chosen ∈ liveNodes tree) (nonempty : tree ≠ .nil) (new : ∀ entry ∈ entries, entryAttribute entry ∈ added)
    (ran : createNodes chosen entries dt = .ok dt') : Grown added tree dt' := by
  induction entries generalizing dt tree with
  | nil =>
    obtain rfl := Except.ok.inj ran
    exact Grown.refl added held
  | cons entry later ih =>
    obtain ⟨target, name, data⟩ := entry
    obtain ⟨⟨_, dt₁⟩, made, ran⟩ := bind_eq_ok.mp ran
    have here := new (target, name, data) List.mem_cons_self
    have grown : Grown added tree dt₁ := by
      cases target with
      | chosen => exact createDeviceTreeNode_grows held member here made
      | root =>
        obtain ⟨label, kids, rfl⟩ := held.lone_root nonempty
        rw [represents_root held] at made
        exact createDeviceTreeNode_grows held (label_live (Multiset.mem_cons_self _ _)) here made
    refine grown.trans fun tree' held' live => ?_
    refine ih held' (live member) ?_ (fun entry inside => new entry (List.mem_cons_of_mem _ inside)) ran
    rintro rfl
    exact absurd (live member) (Multiset.notMem_zero _)

end Calls

section Stage

variable {added : Set Attribute} {dt dt' : DeviceTree} {b b' : Booter} {tree : Forest} {memoryMap : Nat}

theorem createMemoryMapNode_grows {chosen : Nat} (held : Represents dt tree) (nonempty : tree ≠ .nil)
    (new : ∀ text, nameAttribute text ∈ added)
    (ran : createMemoryMapNode dt = .ok ((some chosen, some memoryMap), dt')) :
    ∃ tree', Represents dt' tree' ∧ Enlarged added tree tree' ∧ chosen ∈ liveNodes tree' ∧ memoryMap ∈ liveNodes tree' := by
  obtain ⟨label, kids, rfl⟩ := held.lone_root nonempty
  have top : label.1 ∈ liveNodes (.node label kids .nil) := label_live (Multiset.mem_cons_self _ _)
  simp only [createMemoryMapNode, represents_root held, rootOf, bind_eq_ok] at ran
  obtain ⟨⟨first, dt₁⟩, ran₁, ⟨second, dt₂⟩, ran₂, ⟨third, dt₃⟩, ran₃, result⟩ := ran
  obtain ⟨both, rfl⟩ := Prod.mk.inj (Except.ok.inj result)
  obtain ⟨rfl, rfl⟩ := Prod.mk.inj both
  obtain ⟨tree₁, held₁, enlarged₁, own₁⟩ := dtAddChild_grows held top (fun text _ => new text) ran₁
  obtain ⟨tree₂, held₂, enlarged₂, own₂⟩ := dtAddChild_grows held₁ (own₁ chosen rfl) (fun text _ => new text) ran₂
  obtain ⟨tree₃, held₃, enlarged₃, _⟩ :=
    dtAddChild_grows held₂ (enlarged₂.live (enlarged₁.live top)) (fun text _ => new text) ran₃
  refine ⟨tree₃, held₃, (enlarged₁.trans enlarged₂).trans enlarged₃, ?_, ?_⟩
  · exact enlarged₃.live (enlarged₂.live (own₁ chosen rfl))
  · exact enlarged₃.live (own₂ memoryMap rfl)

theorem describeMachine_grows (held : Represents b.dt tree) (nonempty : tree ≠ .nil)
    (new : ∀ text, nameAttribute text ∈ added) (entries : ∀ entry ∈ iBootNodes, entryAttribute entry ∈ added)
    (ran : b.describeMachine = .ok (memoryMap, b')) :
    ∃ tree', Represents b'.dt tree' ∧ Enlarged added tree tree' ∧ memoryMap ∈ liveNodes tree' := by
  simp only [Booter.describeMachine, bind_eq_ok] at ran
  obtain ⟨⟨⟨chosen, map⟩, dt₁⟩, created, ran⟩ := ran
  cases map with
  | none => cases ran
  | some map =>
    cases chosen with
    | none => cases ran
    | some chosen =>
      simp only [bind_eq_ok] at ran
      obtain ⟨dt₂, entered, ran⟩ := ran
      obtain ⟨rfl, rfl⟩ := Prod.mk.inj (Except.ok.inj ran)
      obtain ⟨tree₁, held₁, enlarged₁, below, own⟩ := createMemoryMapNode_grows held nonempty new created
      have some₁ : tree₁ ≠ .nil := by
        rintro rfl
        exact absurd own (Multiset.notMem_zero _)
      obtain ⟨tree₂, held₂, enlarged₂⟩ := createNodes_grows held₁ below some₁ entries entered
      exact ⟨tree₂, held₂, enlarged₁.trans enlarged₂, enlarged₂.live own⟩

/-- Whatever memory there is, stage 2 enters no range under the name but that of the copy. -/
theorem stage2_ranges {start length type : Word} {entered : Bool} (held : Represents b.dt tree) (nonempty : tree ≠ .nil)
    (describe : b.describeMachine = .ok (memoryMap, b'))
    (enter : allocateMemoryRange b'.dt memoryMap (ascii "RAMDisk") start length type = .ok (entered, dt')) :
    Grown (RamdiskRange start length) tree dt' := by
  have other : ascii "name" ≠ ascii "RAMDisk" := by decide
  have named (text : CString) : nameAttribute text ∈ RamdiskRange start length := fun same => absurd same other
  have others : ∀ entry ∈ iBootNodes, entry.2.1 ≠ ascii "RAMDisk" := by decide
  have entries : ∀ entry ∈ iBootNodes, entryAttribute entry ∈ RamdiskRange start length :=
    fun entry inside same => absurd same (others entry inside)
  obtain ⟨tree₁, held₁, enlarged₁, own⟩ := describeMachine_grows held nonempty named entries describe
  have range : ramdiskAttribute start length ∈ RamdiskRange start length := fun _ => rfl
  obtain ⟨tree₂, held₂, enlarged₂⟩ := allocateMemoryRange_grows held₁ own range enter
  exact ⟨tree₂, held₂, enlarged₁.trans enlarged₂⟩

end Stage

end GenericBooter
