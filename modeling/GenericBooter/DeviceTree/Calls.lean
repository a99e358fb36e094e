import GenericBooter.DeviceTree.Runs

namespace GenericBooter

open Linked

/-- The entries in use, the free ones and the ones that record a block, each of them once. -/
structure Separate (dt : DeviceTree) (tree : Forest) : Prop where
  nodes : Apart (fun node => (dt.nodes node).next) dt.freeNodes dt.allocedNodes (liveNodes tree)
  properties : Apart (fun prop => (dt.properties prop).next) dt.freeProperties dt.allocedProperties
    (liveProperties tree)

theorem Represents.separate {dt : DeviceTree} {tree : Forest} (held : Represents dt tree) :
    Separate dt tree := by
  obtain ⟨entries, slots, layout⟩ := held
  exact ⟨layout.nodePool.apart layout.nodeRecords, layout.propertyPool.apart layout.propertyRecords⟩

theorem Represents.liveNodes_nodup {dt : DeviceTree} {tree : Forest} (held : Represents dt tree) :
    (liveNodes tree).Nodup := by
  obtain ⟨_, _, layout⟩ := held
  exact layout.liveNodes_nodup

theorem Represents.liveProperties_nodup {dt : DeviceTree} {tree : Forest} (held : Represents dt tree) :
    (liveProperties tree).Nodup := by
  obtain ⟨_, _, layout⟩ := held
  exact layout.liveProperties_nodup

namespace DeviceTree

def PropertiesRefused (dt : DeviceTree) : Prop := dt.freeProperties = none ∧ dt.malloc.call.1 = 0

def NodesRefused (dt : DeviceTree) : Prop := dt.freeNodes = none ∧ dt.malloc.call.1 = 0

def refused (dt : DeviceTree) : DeviceTree := { dt with malloc := dt.malloc.call.2 }

theorem readyProperty_refused {dt : DeviceTree} (refused : dt.PropertiesRefused) :
    dt.readyProperty = (none, dt.refused) := by
  simp only [readyProperty, refused.1, refused.2, if_true, DeviceTree.refused]

theorem readyProperty_some {dt : DeviceTree} (given : ¬ dt.PropertiesRefused) :
    ∃ prop ready, dt.readyProperty = (some prop, ready) := by
  cases free : dt.freeProperties with
  | some prop => exact ⟨prop, dt, by simp only [readyProperty, free]⟩
  | none =>
    have answer : dt.malloc.call.1 ≠ 0 := fun zero => given ⟨free, zero⟩
    exact ⟨_, _, by simp only [readyProperty, free, answer, if_false]; rfl⟩

theorem readyNode_refused {dt : DeviceTree} (refused : dt.NodesRefused) :
    dt.readyNode = (none, dt.refused) := by
  simp only [readyNode, refused.1, refused.2, if_true, DeviceTree.refused]

theorem readyNode_some {dt : DeviceTree} (given : ¬ dt.NodesRefused) :
    ∃ node ready, dt.readyNode = (some node, ready) := by
  cases free : dt.freeNodes with
  | some node => exact ⟨node, dt, by simp only [readyNode, free]⟩
  | none =>
    have answer : dt.malloc.call.1 ≠ 0 := fun zero => given ⟨free, zero⟩
    exact ⟨_, _, by simp only [readyNode, free, answer, if_false]; rfl⟩

end DeviceTree

theorem dtAddProperty_refused {dt : DeviceTree} (refused : dt.PropertiesRefused) (node : Nat) (name : CString)
    (length : Word) (value : Value) : dtAddProperty dt node name length value = .ok (none, dt.refused) := by
  rw [dtAddProperty, DeviceTree.readyProperty_refused refused]

theorem dtAddChild_refused {dt : DeviceTree} (refused : dt.NodesRefused) (parent : Option Nat)
    (name : Option CString) : dtAddChild dt parent name = .ok (none, dt.refused) := by
  rw [dtAddChild, DeviceTree.readyNode_refused refused]

def HoldsTree (dt : DeviceTree) (tree : Forest) : Prop := Represents dt tree ∧ Separate dt tree

theorem Represents.holdsTree {dt : DeviceTree} {tree : Forest} (held : Represents dt tree) : HoldsTree dt tree :=
  ⟨held, held.separate⟩

def AppendsProperty (dt : DeviceTree) (tree : Forest) (node : Nat) (held : Attribute) : Prop :=
  (dt.PropertiesRefused → dtAddProperty dt node held.name held.length held.value = .ok (none, dt.refused)) ∧
  (¬ dt.PropertiesRefused → ∃ prop dt',
    dtAddProperty dt node held.name held.length held.value = .ok (some prop, dt') ∧
      prop ∉ liveProperties tree ∧ HoldsTree dt' (graft Prod.fst node (appendEntry (prop, held)) .nil tree))

theorem Represents.appendsProperty {dt : DeviceTree} {tree : Forest} {node : Nat} (held : Represents dt tree)
    (inside : node ∈ liveNodes tree) (attr : Attribute) : AppendsProperty dt tree node attr := by
  refine ⟨fun refused => dtAddProperty_refused refused node attr.name attr.length attr.value, fun given => ?_⟩
  obtain ⟨prop, ready, taken⟩ := DeviceTree.readyProperty_some given
  obtain ⟨result, dt', ran, held', _⟩ := dtAddProperty_spec attr.name attr.length attr.value held inside
  have returned := ran
  rw [dtAddProperty, taken] at returned
  obtain ⟨linked, _, returned⟩ := bind_eq_ok.mp returned
  obtain ⟨rfl, _⟩ := Prod.mk.inj (Except.ok.inj returned)
  obtain ⟨label, member, rfl⟩ := Multiset.mem_map.mp inside
  have once := held'.liveProperties_nodup
  rw [withProperty, liveProperties_append _ held.liveNodes_nodup member] at once
  exact ⟨prop, dt', ran, (Multiset.nodup_cons.mp once).1, held'.holdsTree⟩

def ChildProperties (ready : DeviceTree) (tree : Forest) (name : Option CString)
    (props : List (Nat × Attribute)) : Prop :=
  match name with
  | none => props = []
  | some text => (ready.PropertiesRefused → props = []) ∧
    (¬ ready.PropertiesRefused → ∃ prop ∉ liveProperties tree, props = [(prop, nameAttribute text)])

/-- `DT__AddChild` on `parent`: one new node in front of the children of `parent`, unless there is no
    memory. -/
def HangsChild (dt : DeviceTree) (tree : Forest) (parent : Nat) (name : Option CString) : Prop :=
  (dt.NodesRefused → dtAddChild dt (some parent) name = .ok (none, dt.refused)) ∧
  (¬ dt.NodesRefused → ∃ child props dt', dtAddChild dt (some parent) name = .ok (some child, dt') ∧
    child ∉ liveNodes tree ∧ ChildProperties dt.readyNode.2 tree name props ∧
      HoldsTree dt' (hang (some parent) (.node (child, props) .nil .nil) tree))

theorem liveProperties_hang_leaf {parent : Option Nat} {tree : Forest} (node : Nat)
    (nodup : (liveNodes tree).Nodup) (place : Place parent tree) :
    liveProperties (hang parent (leaf node) tree) = liveProperties tree := by
  rw [liveProperties, cells_hang_leaf node nodup place, Multiset.cons_bind, liveProperties]
  exact zero_add _

theorem hung_cells {dt : DeviceTree} {tree : Forest} {parent : Nat} (shown : Represents dt tree)
    (member : parent ∈ liveNodes tree) (label : NodeLabel) :
    cells (hang (some parent) (.node label .nil .nil) tree) = label ::ₘ cells tree := by
  obtain ⟨above, inside, rfl⟩ := Multiset.mem_map.mp member
  obtain ⟨rest, split, grafted⟩ := graft_cells id (.node label .nil .nil) shown.liveNodes_nodup inside rfl
  have alone : cells (.node label .nil .nil : Forest) = {label} := rfl
  rw [hang, grafted, split, id_eq, alone, Multiset.singleton_add, Multiset.cons_swap]

theorem dtAddChild_named {dt : DeviceTree} {tree : Forest} {n : Nat} (name : CString) (held : Represents dt tree)
    (member : n ∈ liveNodes tree) (good : dt.malloc.Succeeds) :
    ∃ child prop dt', dtAddChild dt (some n) (some name) = .ok (some child, dt') ∧ child ∉ liveNodes tree ∧
      dt'.malloc.Succeeds ∧
      Represents dt' (graft Prod.fst n id (.node (child, [(prop, nameAttribute name)]) .nil .nil) tree) := by
  obtain ⟨result, dt', ran, _, returned, succeeds⟩ := dtAddChild_spec (some n) (some name) held member
  obtain ⟨good', given⟩ := succeeds good
  cases result with
  | none => exact absurd rfl given
  | some child =>
    obtain ⟨fresh, props, named, shown, present⟩ := returned child rfl
    rcases named with empty | ⟨prop, text, same, rfl⟩
    · exact absurd empty (present good (Option.some_ne_none name))
    · obtain rfl : name = text := Option.some.inj same
      exact ⟨child, prop, dt', ran, fresh, good', shown⟩

theorem Represents.hangsChild {dt : DeviceTree} {tree : Forest} {parent : Nat} (held : Represents dt tree)
    (inside : parent ∈ liveNodes tree) (name : Option CString) : HangsChild dt tree parent name := by
  refine ⟨fun refused => dtAddChild_refused refused (some parent) name, fun given => ?_⟩
  obtain ⟨node, ready, taken⟩ := DeviceTree.readyNode_some given
  have place : Place (some parent) tree := inside
  obtain ⟨unused, attached, hung⟩ := attachNode_spec held place taken
  have same : (attachNode ready (some parent) node).PropertiesRefused ↔ ready.PropertiesRefused := by
    rw [DeviceTree.PropertiesRefused, attached.freeProperties, attached.malloc]
    rfl
  rw [taken]
  cases name with
  | none =>
    exact ⟨node, [], _, dtAddChild_unnamed (some parent) taken, unused, rfl, hung.holdsTree⟩
  | some text =>
    obtain ⟨refuses, appends⟩ := hung.appendsProperty
      (leaf_live node held.liveNodes_nodup place) (nameAttribute text)
    by_cases none : ready.PropertiesRefused
    · have ran := refuses (same.mpr none)
      refine ⟨node, [], (attachNode ready (some parent) node).refused, ?_, unused,
        ⟨fun _ => rfl, fun some => absurd none some⟩, (hung.with_malloc _).holdsTree⟩
      rw [nameAttribute] at ran
      rw [dtAddChild_text (some parent) text taken, ran, ok_bind]
    · obtain ⟨prop, dt', ran, fresh, held', _⟩ := appends fun refused => none (same.mp refused)
      rw [liveProperties_hang_leaf node held.liveNodes_nodup place] at fresh
      refine ⟨node, [(prop, nameAttribute text)], dt', ?_, unused,
        ⟨fun refused => absurd refused none, fun _ => ⟨prop, fresh, rfl⟩⟩, ?_⟩
      · rw [nameAttribute] at ran
        rw [dtAddChild_text (some parent) text taken, ran, ok_bind]
      · rw [← withProperty_leaf _ place unused]
        exact Represents.holdsTree held'

def StartsTree (dt : DeviceTree) : Prop :=
  ∃ dt', dtInitialize dt = .ok dt' ∧
    (HoldsTree dt' .nil ∨ ∃ root props, NameProperties (some (ascii "/")) props ∧
      HoldsTree dt' (.node (root, props) .nil .nil))

theorem startsTree (dt : DeviceTree) : StartsTree dt := by
  obtain ⟨dt', ran, outcome, _⟩ := dtInitialize_spec dt
  refine ⟨dt', ran, ?_⟩
  rcases outcome with held | ⟨root, props, named, held⟩
  · exact Or.inl held.holdsTree
  · exact Or.inr ⟨root, props, named, held.holdsTree⟩

/-- Whatever calls were made, the heap is a tree, and the next call does to it what it does to a tree. -/
theorem calls_refine {malloc : Malloc} {dt : DeviceTree} (reachable : DtReachable malloc dt) :
    ∃ tree, HoldsTree dt tree ∧ StartsTree dt ∧
      (∀ node ∈ liveNodes tree, ∀ held, AppendsProperty dt tree node held) ∧
      ∀ parent ∈ liveNodes tree, ∀ name, HangsChild dt tree parent name := by
  obtain ⟨tree, held⟩ := reachable.represents
  exact ⟨tree, held.holdsTree, startsTree dt, fun node inside attr => held.appendsProperty inside attr,
    fun parent inside name => held.hangsChild inside name⟩

theorem sampleTree_refines : ∃ tree, HoldsTree sampleTree tree ∧ StartsTree sampleTree ∧
    (∀ node ∈ liveNodes tree, ∀ held, AppendsProperty sampleTree tree node held) ∧
    ∀ parent ∈ liveNodes tree, ∀ name, HangsChild sampleTree tree parent name :=
  calls_refine sampleTree_reachable

def scarce : DeviceTree := okDt (dtInitialize (DeviceTree.bss ⟨fun call => if call = 0 then 0x1000 else 0, 0⟩))

theorem root_live {dt : DeviceTree} {tree : Forest} {root : Nat} (held : Represents dt tree)
    (rooted : dt.rootNode = some root) : root ∈ liveNodes tree := by
  have first := (represents_root held).symm.trans rooted
  cases tree with
  | nil => cases first
  | node label left right =>
    obtain rfl : label.1 = root := Option.some.inj first
    exact label_live (Multiset.mem_cons_self _ _)

theorem scarce_appends_nothing : ¬ ∀ malloc dt tree, DtReachable malloc dt → Represents dt tree →
    ∀ node ∈ liveNodes tree, ∀ name length value, ∃ prop dt',
      dtAddProperty dt node name length value = .ok (some prop, dt') ∧
        Represents dt' (graft Prod.fst node (appendEntry (prop, ⟨name, length, value⟩)) .nil tree) := by
  intro appends
  have reachable : DtReachable ⟨fun call => if call = 0 then 0x1000 else 0, 0⟩ scarce :=
    Relation.ReflTransGen.single (DtStep.start rfl)
  obtain ⟨tree, held⟩ := reachable.represents
  have root : 255 ∈ liveNodes tree := root_live held (show scarce.rootNode = some 255 from rfl)
  obtain ⟨prop, dt', ran, _⟩ := appends _ _ tree reachable held 255 root (ascii "reg") 3 (bytesValue [1, 2, 3])
  have refused : dtAddProperty scarce 255 (ascii "reg") 3 (bytesValue [1, 2, 3]) = .ok (none, scarce.refused) := rfl
  cases (Prod.mk.inj (Except.ok.inj (refused.symm.trans ran))).1

end GenericBooter
