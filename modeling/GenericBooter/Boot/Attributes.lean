import GenericBooter.Boot.Devicetree

namespace GenericBooter

open Linked

section Nodes

variable (attributes : CString → Element → List Attribute)

def Entries.attributesWith : Entries → List Attribute
  | .nil => []
  | .cons _ key value later => attributes key.string value ++ later.attributesWith

mutual

/-- The node of a dict as `Element.node` has it, where `attributes` says which properties the value of a key makes. -/
def Element.nodeWith : Element → PlainTree
  | .dict _ entries _ => .node (entries.attributesWith attributes).reverse entries.childrenWith .nil
  | .emptyDict _ => .node [] .nil .nil
  | _ => .nil

def Element.childrenWith (key : CString) : Element → PlainTree
  | .array _ items _ => if isChildren (some key) then items.nodesWith else .nil
  | _ => .nil

def Entries.childrenWith : Entries → PlainTree
  | .nil => .nil
  | .cons _ key value later => forestAppend (value.childrenWith key.string) later.childrenWith

def Items.nodesWith : Items → PlainTree
  | .nil => .nil
  | .cons value later => forestAppend value.nodeWith later.nodesWith

end

def treeWith (root : Element) : PlainTree :=
  match root.nodeWith attributes with
  | .node attrs kids _ => .node (nameAttribute (ascii "/") :: attrs) kids .nil
  | .nil => .nil

end Nodes

section Everywhere

variable (holds : CString → Element → Prop)

mutual

def Element.Everywhere : Element → Prop
  | .dict _ entries _ => entries.Everywhere
  | _ => True

def Element.EverywhereBelow (key : CString) : Element → Prop
  | .array _ items _ => isChildren (some key) → items.Everywhere
  | _ => True

def Entries.Everywhere : Entries → Prop
  | .nil => True
  | .cons _ key value later => (holds key.string value ∧ value.EverywhereBelow key.string) ∧ later.Everywhere

def Items.Everywhere : Items → Prop
  | .nil => True
  | .cons value later => value.Everywhere ∧ later.Everywhere

end

end Everywhere

section Plain

theorem Entries.attributes_with : ∀ entries : Entries,
    entries.attributes = entries.attributesWith fun key value => value.attributes key
  | .nil => rfl
  | .cons _ key value later => by rw [Entries.attributes, later.attributes_with, Entries.attributesWith]

mutual

theorem Element.node_with : ∀ value : Element, value.node = value.nodeWith fun key value => value.attributes key
  | .dict _ entries _ => by rw [Element.node, Element.nodeWith, entries.attributes_with, entries.children_with]
  | .emptyDict _ | .array .. | .emptyArray _ | .string .. | .integer .. | .data .. | .date .. | .true _ | .false _ => by
    simp only [Element.node, Element.nodeWith]

theorem Element.children_with : ∀ (value : Element) (key : CString),
    value.children key = value.childrenWith (fun key value => value.attributes key) key
  | .array _ items _, key => by rw [Element.children, Element.childrenWith, items.nodes_with]
  | .dict .., _ | .emptyDict _, _ | .emptyArray _, _ | .string .., _ | .integer .., _ | .data .., _ | .date .., _
    | .true _, _ | .false _, _ => by simp only [Element.children, Element.childrenWith]

theorem Entries.children_with : ∀ entries : Entries,
    entries.children = entries.childrenWith fun key value => value.attributes key
  | .nil => by rw [Entries.children, Entries.childrenWith]
  | .cons _ key value later => by
    rw [Entries.children, Entries.childrenWith, value.children_with, later.children_with]

theorem Items.nodes_with : ∀ items : Items, items.nodes = items.nodesWith fun key value => value.attributes key
  | .nil => by rw [Items.nodes, Items.nodesWith]
  | .cons value later => by rw [Items.nodes, Items.nodesWith, value.node_with, later.nodes_with]

end

theorem rootTree_with (root : Element) : rootTree root = treeWith (fun key value => value.attributes key) root := by
  rw [treeWith, ← root.node_with]
  rfl

end Plain

section Agreement

variable {first second : CString → Element → List Attribute}

theorem Element.nodeWith_siblings (value : Element) :
    siblings (value.nodeWith first) = siblings (value.nodeWith second) := by
  cases value <;> simp only [Element.nodeWith, siblings]

theorem Items.nodesWith_siblings : ∀ items : Items, siblings (items.nodesWith first) = siblings (items.nodesWith second)
  | .nil => by rw [Items.nodesWith, Items.nodesWith]
  | .cons value later => by
    have here : siblings (value.nodeWith first) = siblings (value.nodeWith second) := value.nodeWith_siblings
    rw [Items.nodesWith, Items.nodesWith, siblings_forestAppend, siblings_forestAppend, here, later.nodesWith_siblings]

theorem Element.childrenWith_siblings (key : CString) (value : Element) :
    siblings (value.childrenWith first key) = siblings (value.childrenWith second key) := by
  cases value with
  | array _ items _ =>
    rw [Element.childrenWith, Element.childrenWith]
    by_cases marked : isChildren (some key)
    · rw [if_pos marked, if_pos marked, items.nodesWith_siblings]
    · rw [if_neg marked, if_neg marked]
  | _ => simp only [Element.childrenWith]

def Matching (first second : CString → Element → List Attribute) : Prop :=
  ∀ key value, (first key value).length = (second key value).length

mutual

theorem Element.nodeWith_iff (widths : Matching first second) : ∀ value : Element,
    value.nodeWith first = value.nodeWith second ↔ value.Everywhere fun key value => first key value = second key value
  | .dict _ entries _ => by
    rw [Element.nodeWith, Element.nodeWith, Element.Everywhere, ← entries.nodeWith_iff widths]
    constructor
    · intro same
      injection same with attrs kids
      exact ⟨List.reverse_injective attrs, kids⟩
    · rintro ⟨attrs, kids⟩
      rw [attrs, kids]
  | .emptyDict _ | .array .. | .emptyArray _ | .string .. | .integer .. | .data .. | .date .. | .true _ | .false _ => by
    simp only [Element.nodeWith, Element.Everywhere]

theorem Element.childrenWith_iff (widths : Matching first second) : ∀ (value : Element) (key : CString),
    value.childrenWith first key = value.childrenWith second key ↔
      value.EverywhereBelow (fun key value => first key value = second key value) key
  | .array _ items _, key => by
    rw [Element.childrenWith, Element.childrenWith, Element.EverywhereBelow]
    by_cases marked : isChildren (some key)
    · rw [if_pos marked, if_pos marked, items.nodesWith_iff widths]
      exact ⟨fun holds _ => holds, fun holds => holds marked⟩
    · rw [if_neg marked, if_neg marked]
      exact ⟨fun _ absurd => (marked absurd).elim, fun _ => rfl⟩
  | .dict .., _ | .emptyDict _, _ | .emptyArray _, _ | .string .., _ | .integer .., _ | .data .., _ | .date .., _
    | .true _, _ | .false _, _ => by simp only [Element.childrenWith, Element.EverywhereBelow]

theorem Entries.nodeWith_iff (widths : Matching first second) : ∀ entries : Entries,
    entries.attributesWith first = entries.attributesWith second ∧
      entries.childrenWith first = entries.childrenWith second ↔
      entries.Everywhere fun key value => first key value = second key value
  | .nil => by
    simp only [Entries.attributesWith, Entries.childrenWith, Entries.Everywhere, and_self]
  | .cons _ key value later => by
    rw [Entries.attributesWith, Entries.attributesWith, Entries.childrenWith, Entries.childrenWith, Entries.Everywhere,
      ← value.childrenWith_iff widths, ← later.nodeWith_iff widths,
      forestAppend_inj (value.childrenWith_siblings key.string)]
    constructor
    · rintro ⟨attrs, kids, laterKids⟩
      obtain ⟨here, laterAttrs⟩ := List.append_inj attrs (widths key.string value)
      exact ⟨⟨here, kids⟩, laterAttrs, laterKids⟩
    · rintro ⟨⟨here, kids⟩, laterAttrs, laterKids⟩
      rw [here, laterAttrs]
      exact ⟨rfl, kids, laterKids⟩

theorem Items.nodesWith_iff (widths : Matching first second) : ∀ items : Items,
    items.nodesWith first = items.nodesWith second ↔ items.Everywhere fun key value => first key value = second key value
  | .nil => by simp only [Items.nodesWith, Items.Everywhere]
  | .cons value later => by
    rw [Items.nodesWith, Items.nodesWith, Items.Everywhere, forestAppend_inj value.nodeWith_siblings,
      value.nodeWith_iff widths, later.nodesWith_iff widths]

end

theorem treeWith_iff (widths : Matching first second) {root : Element} (node : root.IsNode) :
    treeWith first root = treeWith second root ↔ root.Everywhere fun key value => first key value = second key value := by
  rw [← root.nodeWith_iff widths]
  cases root with
  | dict gap entries last =>
    simp only [treeWith, Element.nodeWith, BinaryTree.node.injEq, List.cons.injEq, true_and, and_true]
  | emptyDict => simp only [treeWith, Element.nodeWith]
  | _ => exact node.elim

end Agreement

end GenericBooter
