import GenericBooter.Boot.Darwin
import GenericBooter.DeviceTree.Calls

namespace GenericBooter

open Linked

/-- True is returned exactly when the property has been put behind the ones of `node`, and false with the tree and the
    counters as they were. -/
def TellsAppended (dt : DeviceTree) (tree : Forest) (node : Nat) (held : Attribute)
    (result : Except Stop (Bool × DeviceTree)) : Prop :=
  ∃ told dt', result = .ok (told, dt') ∧
    (told = true ↔ ∃ prop, Represents dt' (graft Prod.fst node (appendEntry (prop, held)) .nil tree)) ∧
    (told = false → Represents dt' tree ∧ dt'.info = dt.info)

def TellsHung (dt : DeviceTree) (tree : Forest) (parent : Nat) (name : CString)
    (result : Except Stop (Option Nat × DeviceTree)) : Prop :=
  ∃ told dt', result = .ok (told, dt') ∧
    (∀ child, told = some child ↔ child ∉ liveNodes tree ∧
      ∃ prop, Represents dt' (hang (some parent) (.node (child, [(prop, nameAttribute name)]) .nil .nil) tree)) ∧
    (told = none → Represents dt' tree ∧ dt'.info = dt.info)

namespace DeviceTree

def LosesRange (dt : DeviceTree) : Prop :=
  dt.malloc.call.1 ≠ 0 ∧ dt.malloc.call.2.call.1 ≠ 0 ∧
    PropertiesRefused { dt with malloc := dt.malloc.call.2.call.2 }

def LosesEntry (dt : DeviceTree) : Prop :=
  dt.malloc.call.1 ≠ 0 ∧ PropertiesRefused { dt with malloc := dt.malloc.call.2 }

def LosesName (dt : DeviceTree) : Prop := ¬ dt.NodesRefused ∧ dt.readyNode.2.PropertiesRefused

theorem free_loses_nothing {dt : DeviceTree} (free : dt.freeProperties ≠ none) :
    ¬ dt.LosesRange ∧ ¬ dt.LosesEntry ∧ ¬ dt.LosesName :=
  ⟨fun lost => free lost.2.2.1, fun lost => free lost.2.1, fun lost => free ((readyNode_only dt).freeProperties ▸ lost.2.1)⟩

end DeviceTree

section Appending

variable {dt dt' : DeviceTree} {tree : Forest} {node : Nat} {held : Attribute}

theorem appended_ne (shown : Represents dt tree) (member : node ∈ liveNodes tree) (entry : Nat × Attribute) :
    graft Prod.fst node (appendEntry entry) .nil tree ≠ tree := by
  obtain ⟨label, inside, rfl⟩ := Multiset.mem_map.mp member
  intro same
  have more := liveProperties_append entry shown.liveNodes_nodup inside
  rw [same] at more
  have counted := congrArg Multiset.card more
  rw [Multiset.card_cons] at counted
  omega

theorem tellsAppended_false (shown : Represents dt tree) (member : node ∈ liveNodes tree) (malloc : Malloc) :
    TellsAppended dt tree node held (.ok (false, { dt with malloc := malloc })) := by
  have kept := shown.with_malloc malloc
  refine ⟨false, _, rfl, ?_, fun _ => ⟨kept, rfl⟩⟩
  constructor
  · exact fun absurd => by cases absurd
  · rintro ⟨prop, shown'⟩
    exact absurd (shown'.unique kept) (appended_ne shown member _)

theorem tellsAppended_true_iff (shown : Represents dt tree) (member : node ∈ liveNodes tree) (malloc : Malloc) :
    TellsAppended dt tree node held (do
      let dt ← addPropertyTo { dt with malloc := malloc } (some node) held.name held.length held.value
      .ok (true, dt)) ↔ ¬ DeviceTree.PropertiesRefused { dt with malloc := malloc } := by
  have kept := shown.with_malloc malloc
  obtain ⟨refuses, appends⟩ := kept.appendsProperty member held
  constructor
  · rintro ⟨told, dt', ran, truth, _⟩ refused
    rw [addPropertyTo, refuses refused] at ran
    obtain ⟨rfl, rfl⟩ := Prod.mk.inj (Except.ok.inj ran)
    obtain ⟨prop, shown'⟩ := truth.mp rfl
    exact appended_ne shown member _ (shown'.unique (kept.with_malloc _))
  · intro given
    obtain ⟨prop, dt', ran, _, shown', _⟩ := appends given
    refine ⟨true, dt', ?_, iff_of_true rfl ⟨prop, shown'⟩, fun absurd => by cases absurd⟩
    rw [addPropertyTo, ran]
    rfl

theorem allocateMemoryRange_tells_iff (shown : Represents dt tree) (member : node ∈ liveNodes tree)
    (rangeName : CString) (start length type : Word) :
    TellsAppended dt tree node ⟨rangeName, 8, bytesValue (wordBytes start ++ wordBytes length)⟩
      (allocateMemoryRange dt node rangeName start length type) ↔ ¬ dt.LosesRange := by
  simp only [allocateMemoryRange, DeviceTree.LosesRange]
  by_cases first : dt.malloc.call.1 = 0
  · simp only [first, if_true, ne_eq, not_true_eq_false, false_and, not_false_eq_true, iff_true]
    exact tellsAppended_false shown member _
  by_cases second : dt.malloc.call.2.call.1 = 0
  · simp only [first, second, if_true, if_false, ne_eq, not_true_eq_false, false_and, and_false, not_false_eq_true, iff_true]
    exact tellsAppended_false shown member _
  · simp only [first, second, if_false, ne_eq, not_false_eq_true, true_and]
    exact tellsAppended_true_iff shown member _

theorem createDeviceTreeNode_tells_iff (shown : Represents dt tree) (member : node ∈ liveNodes tree)
    (rangeName : CString) (data : List Byte) :
    TellsAppended dt tree node ⟨rangeName, BitVec.ofNat 32 data.length, bytesValue data⟩
      (createDeviceTreeNode dt (some node) rangeName data) ↔ ¬ dt.LosesEntry := by
  simp only [createDeviceTreeNode, DeviceTree.LosesEntry]
  by_cases first : dt.malloc.call.1 = 0
  · simp only [first, if_true, ne_eq, not_true_eq_false, false_and, not_false_eq_true, iff_true]
    exact tellsAppended_false shown member _
  · simp only [first, if_false, ne_eq, not_false_eq_true, true_and]
    exact tellsAppended_true_iff shown member _

end Appending

section Hanging

variable {dt : DeviceTree} {tree : Forest} {parent : Nat}

theorem dtAddChild_tells_iff (shown : Represents dt tree) (member : parent ∈ liveNodes tree) (name : CString) :
    TellsHung dt tree parent name (dtAddChild dt (some parent) (some name)) ↔ ¬ dt.LosesName := by
  obtain ⟨refuses, hangs⟩ := shown.hangsChild member (some name)
  by_cases refused : dt.NodesRefused
  · have kept := shown.with_malloc dt.malloc.call.2
    refine iff_of_true ⟨none, dt.refused, refuses refused, fun child => ?_, fun _ => ⟨kept, rfl⟩⟩ fun loses => loses.1 refused
    constructor
    · exact fun absurd => by cases absurd
    · rintro ⟨_, prop, shown'⟩
      have same := hung_cells shown member (child, [(prop, nameAttribute name)])
      rw [shown'.unique kept] at same
      have counted := congrArg Multiset.card same
      rw [Multiset.card_cons] at counted
      omega
  obtain ⟨child, props, dt', ran, fresh, ⟨without, named⟩, shown', _⟩ := hangs refused
  have label_eq {label : NodeLabel} (shown'' : Represents dt' (hang (some parent) (.node label .nil .nil) tree)) :
      label = (child, props) := by
    have same := congrArg cells (shown'.unique shown'')
    rw [hung_cells shown member, hung_cells shown member, Multiset.cons_inj_left] at same
    exact same.symm
  rw [DeviceTree.LosesName, and_iff_right refused, ran]
  constructor
  · rintro ⟨told, _, result, truth, _⟩ lost
    obtain ⟨rfl, rfl⟩ := Prod.mk.inj (Except.ok.inj result)
    obtain ⟨_, prop, shown''⟩ := (truth child).mp rfl
    cases (without lost).symm.trans (congrArg Prod.snd (label_eq shown'')).symm
  · intro given
    obtain ⟨prop, _, rfl⟩ := named given
    refine ⟨some child, dt', rfl, fun other => ⟨?_, ?_⟩, fun absurd => by cases absurd⟩
    · rintro ⟨⟩
      exact ⟨fresh, prop, shown'⟩
    · rintro ⟨_, prop', shown''⟩
      exact congrArg some (congrArg Prod.fst (label_eq shown'')).symm

end Hanging

/-- Each mutator tells what it did, and does all of it or nothing, unless `malloc` fails when it comes to the entry of
    the property. -/
theorem mutators_tell_iff {dt : DeviceTree} {tree : Forest} {node : Nat} (shown : Represents dt tree)
    (member : node ∈ liveNodes tree) :
    (∀ rangeName start length type,
      TellsAppended dt tree node ⟨rangeName, 8, bytesValue (wordBytes start ++ wordBytes length)⟩
        (allocateMemoryRange dt node rangeName start length type) ↔ ¬ dt.LosesRange) ∧
    (∀ rangeName data,
      TellsAppended dt tree node ⟨rangeName, BitVec.ofNat 32 data.length, bytesValue data⟩
        (createDeviceTreeNode dt (some node) rangeName data) ↔ ¬ dt.LosesEntry) ∧
    ∀ name, TellsHung dt tree node name (dtAddChild dt (some node) (some name)) ↔ ¬ dt.LosesName :=
  ⟨allocateMemoryRange_tells_iff shown member, createDeviceTreeNode_tells_iff shown member,
    dtAddChild_tells_iff shown member⟩

theorem rootOnly_tells : ∃ tree, Represents rootOnly tree ∧
    (∀ start length, TellsAppended rootOnly tree 255 ⟨ascii "RAMDisk", 8, bytesValue (wordBytes start ++ wordBytes length)⟩
      (allocateMemoryRange rootOnly 255 (ascii "RAMDisk") start length kBootDriverTypeInvalid)) ∧
    TellsAppended rootOnly tree 255 ⟨ascii "region-info", 5, bytesValue (ascii "JP/A").bytes⟩
      (createDeviceTreeNode rootOnly (some 255) (ascii "region-info") (ascii "JP/A").bytes) ∧
    TellsHung rootOnly tree 255 (ascii "chosen") (dtAddChild rootOnly (some 255) (some (ascii "chosen"))) := by
  have reachable : DtReachable ⟨fun _ => 0x1000, 0⟩ rootOnly := Relation.ReflTransGen.single (DtStep.start rfl)
  obtain ⟨tree, held⟩ := reachable.represents
  have free : rootOnly.freeProperties ≠ none := by decide +kernel
  obtain ⟨noRange, noEntry, noName⟩ := DeviceTree.free_loses_nothing free
  obtain ⟨range, entry, child⟩ := mutators_tell_iff held (root_live held (show rootOnly.rootNode = some 255 from rfl))
  exact ⟨tree, held, fun start length => (range _ start length _).mpr noRange, (entry _ _).mpr noEntry,
    (child _).mpr noName⟩

def blockless : DeviceTree :=
  okDt (dtInitialize (DeviceTree.bss ⟨fun call => if call % 2 = 0 then 0x1000 else 0, 0⟩))

theorem blockless_tells_untruth : ¬ ∀ malloc dt tree, DtReachable malloc dt → Represents dt tree →
    ∀ node ∈ liveNodes tree, ∀ rangeName data,
      TellsAppended dt tree node ⟨rangeName, BitVec.ofNat 32 data.length, bytesValue data⟩
        (createDeviceTreeNode dt (some node) rangeName data) := by
  intro tells
  have reachable : DtReachable ⟨fun call => if call % 2 = 0 then 0x1000 else 0, 0⟩ blockless :=
    Relation.ReflTransGen.single (DtStep.start rfl)
  obtain ⟨tree, held⟩ := reachable.represents
  have root : 255 ∈ liveNodes tree := root_live held (show blockless.rootNode = some 255 from rfl)
  have told := tells _ _ tree reachable held 255 root (ascii "region-info") (ascii "JP/A").bytes
  have lost : blockless.LosesEntry := ⟨by decide, rfl, rfl⟩
  exact (createDeviceTreeNode_tells_iff held root _ _).mp told lost

end GenericBooter
