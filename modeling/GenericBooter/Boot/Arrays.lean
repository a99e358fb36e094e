import GenericBooter.Boot.Attributes

namespace GenericBooter

open ByteMemory Linked

def Items.encodings : Items → List (List Byte)
  | .nil => []
  | .cons value later => value.bytes :: later.encodings

/-- The bytes are the same whichever end the items are taken from. -/
def Items.Symmetric (items : Items) : Prop := items.encodings.reverse.flatten = items.encodings.flatten

instance (items : Items) : Decidable items.Symmetric := inferInstanceAs (Decidable (_ = _))

def Element.orderedAttributes (key : CString) : Element → List Attribute
  | .string _ text => [stringAttribute key text.string]
  | .integer .. => [integerAttribute key]
  | .array _ items _ => if isChildren (some key) then [] else [arrayAttribute key items.encodings.flatten]
  | _ => []

def Entries.orderedAttributes : Entries → List Attribute
  | .nil => []
  | .cons _ key value later => value.orderedAttributes key.string ++ later.orderedAttributes

mutual

def Element.orderedNode : Element → PlainTree
  | .dict _ entries _ => .node entries.orderedAttributes.reverse entries.orderedChildren .nil
  | .emptyDict _ => .node [] .nil .nil
  | _ => .nil

def Element.orderedChildren (key : CString) : Element → PlainTree
  | .array _ items _ => if isChildren (some key) then items.orderedNodes else .nil
  | _ => .nil

def Entries.orderedChildren : Entries → PlainTree
  | .nil => .nil
  | .cons _ key value later => forestAppend (value.orderedChildren key.string) later.orderedChildren

def Items.orderedNodes : Items → PlainTree
  | .nil => .nil
  | .cons value later => forestAppend value.orderedNode later.orderedNodes

end

def orderedTree (root : Element) : PlainTree :=
  match root.orderedNode with
  | .node attrs kids _ => .node (nameAttribute (ascii "/") :: attrs) kids .nil
  | .nil => .nil

mutual

def Element.Balanced : Element → Prop
  | .dict _ entries _ => entries.Balanced
  | _ => True

def Element.BalancedAt (key : CString) : Element → Prop
  | .array _ items _ => if isChildren (some key) then items.Balanced else items.Symmetric
  | _ => True

def Entries.Balanced : Entries → Prop
  | .nil => True
  | .cons _ key value later => value.BalancedAt key.string ∧ later.Balanced

def Items.Balanced : Items → Prop
  | .nil => True
  | .cons value later => value.Balanced ∧ later.Balanced

end

theorem Items.data_eq (items : Items) : items.data = items.encodings.reverse.flatten := by
  cases items with
  | nil => rfl
  | cons value later =>
    rw [Items.data, later.data_eq, Items.encodings, List.reverse_cons, List.flatten_append, List.flatten_singleton]

theorem arrayAttribute_inj {key : CString} {data data' : List Byte} (same : data.length = data'.length) :
    arrayAttribute key data = arrayAttribute key data' ↔ data = data' := by
  constructor
  · intro equal
    have values := congrArg Attribute.value equal
    have taken := congrArg (Value.take · data.length) values
    change (bytesValue data).take data.length = (bytesValue data').take data.length at taken
    rwa [bytesValue_take, same, bytesValue_take] at taken
  · rintro rfl
    rfl

theorem Items.symmetric_iff (items : Items) (key : CString) :
    arrayAttribute key items.data = arrayAttribute key items.encodings.flatten ↔ items.Symmetric := by
  have same : items.data.length = items.encodings.flatten.length := by
    rw [items.data_eq, List.length_flatten, List.length_flatten, List.map_reverse, List.sum_reverse]
  rw [arrayAttribute_inj same, items.data_eq, Items.Symmetric]

theorem Element.orderedAttributes_length (key : CString) (value : Element) :
    (value.attributes key).length = (value.orderedAttributes key).length := by
  cases value with
  | array _ items _ =>
    rw [Element.attributes, Element.orderedAttributes]
    by_cases marked : isChildren (some key)
    · rw [if_pos marked, if_pos marked]
    · rw [if_neg marked, if_neg marked]
      rfl
  | _ => rfl

section Ordered

theorem Entries.orderedAttributes_with (entries : Entries) :
    entries.orderedAttributes = entries.attributesWith fun key value => value.orderedAttributes key := by
  cases entries with
  | nil => rfl
  | cons _ key value later =>
    rw [Entries.orderedAttributes, later.orderedAttributes_with, Entries.attributesWith]

mutual

theorem Element.orderedNode_with : ∀ value : Element,
    value.orderedNode = value.nodeWith fun key value => value.orderedAttributes key
  | .dict _ entries _ => by
    rw [Element.orderedNode, Element.nodeWith, entries.orderedAttributes_with, entries.orderedChildren_with]
  | .emptyDict _ | .array .. | .emptyArray _ | .string .. | .integer .. | .data .. | .date .. | .true _ | .false _ => by
    simp only [Element.orderedNode, Element.nodeWith]

theorem Element.orderedChildren_with : ∀ (value : Element) (key : CString),
    value.orderedChildren key = value.childrenWith (fun key value => value.orderedAttributes key) key
  | .array _ items _, key => by rw [Element.orderedChildren, Element.childrenWith, items.orderedNodes_with]
  | .dict .., _ | .emptyDict _, _ | .emptyArray _, _ | .string .., _ | .integer .., _ | .data .., _ | .date .., _
    | .true _, _ | .false _, _ => by simp only [Element.orderedChildren, Element.childrenWith]

theorem Entries.orderedChildren_with : ∀ entries : Entries,
    entries.orderedChildren = entries.childrenWith fun key value => value.orderedAttributes key
  | .nil => by rw [Entries.orderedChildren, Entries.childrenWith]
  | .cons _ key value later => by
    rw [Entries.orderedChildren, Entries.childrenWith, value.orderedChildren_with, later.orderedChildren_with]

theorem Items.orderedNodes_with : ∀ items : Items,
    items.orderedNodes = items.nodesWith fun key value => value.orderedAttributes key
  | .nil => by rw [Items.orderedNodes, Items.nodesWith]
  | .cons value later => by
    rw [Items.orderedNodes, Items.nodesWith, value.orderedNode_with, later.orderedNodes_with]

end

theorem orderedTree_with (root : Element) :
    orderedTree root = treeWith (fun key value => value.orderedAttributes key) root := by
  rw [treeWith, ← root.orderedNode_with]
  rfl

end Ordered

mutual

theorem Element.balanced_everywhere : ∀ value : Element, value.Balanced ↔
    value.Everywhere fun key value => value.attributes key = value.orderedAttributes key
  | .dict _ entries _ => by rw [Element.Balanced, Element.Everywhere, entries.balanced_everywhere]
  | .emptyDict _ | .array .. | .emptyArray _ | .string .. | .integer .. | .data .. | .date .. | .true _ | .false _ => by
    simp only [Element.Balanced, Element.Everywhere]

theorem Element.balancedAt_everywhere : ∀ (value : Element) (key : CString), value.BalancedAt key ↔
    value.attributes key = value.orderedAttributes key ∧
      value.EverywhereBelow (fun key value => value.attributes key = value.orderedAttributes key) key
  | .array _ items _, key => by
    rw [Element.attributes, Element.orderedAttributes, Element.EverywhereBelow, Element.BalancedAt]
    by_cases marked : isChildren (some key)
    · rw [if_pos marked, if_pos marked, if_pos marked, items.balanced_everywhere]
      exact ⟨fun balanced => ⟨rfl, fun _ => balanced⟩, fun ⟨_, balanced⟩ => balanced marked⟩
    · rw [if_neg marked, if_neg marked, if_neg marked, List.singleton_inj, items.symmetric_iff key]
      exact ⟨fun symmetric => ⟨symmetric, fun absurd => (marked absurd).elim⟩, fun ⟨symmetric, _⟩ => symmetric⟩
  | .dict .., _ | .emptyDict _, _ | .emptyArray _, _ | .string .., _ | .integer .., _ | .data .., _ | .date .., _
    | .true _, _ | .false _, _ => by
    simp only [Element.attributes, Element.orderedAttributes, Element.EverywhereBelow, Element.BalancedAt, and_self]

theorem Entries.balanced_everywhere : ∀ entries : Entries, entries.Balanced ↔
    entries.Everywhere fun key value => value.attributes key = value.orderedAttributes key
  | .nil => by rw [Entries.Balanced, Entries.Everywhere]
  | .cons _ key value later => by
    rw [Entries.Balanced, Entries.Everywhere, value.balancedAt_everywhere, later.balanced_everywhere]

theorem Items.balanced_everywhere : ∀ items : Items, items.Balanced ↔
    items.Everywhere fun key value => value.attributes key = value.orderedAttributes key
  | .nil => by rw [Items.Balanced, Items.Everywhere]
  | .cons value later => by
    rw [Items.Balanced, Items.Everywhere, value.balanced_everywhere, later.balanced_everywhere]

end

theorem rootTree_ordered_iff {root : Element} (node : root.IsNode) : rootTree root = orderedTree root ↔ root.Balanced := by
  rw [rootTree_with, orderedTree_with, treeWith_iff Element.orderedAttributes_length node, root.balanced_everywhere]

/-- The properties made of the arrays of a property list hold the items in document order exactly when those of each
    array make up the same bytes from its end. -/
theorem prepareDevicetree_ordered_iff {malloc : Malloc} {stack : Nat → Option Nat} {b : Booter} {roots : Multiset Nat}
    (reachable : XmlReachable malloc stack ⟨b.xml, roots⟩) (good : b.dt.malloc.Succeeds) (locals : DevicetreeLocals)
    {image : Word} {payload : TagData}
    (located : getImage3 b.platform.machine.memory b.platform.imagesEnd kImage3TypeXmlDeviceTree = .ok image)
    (present : image ≠ 0)
    (tagged : image3GetTagData b.platform.machine.memory image kImage3TagData locals.deviceTreeData
      locals.deviceTreeSize = .ok payload) (document : Document) (following : List Byte)
    (held : stringAt b.platform.machine.memory payload.data = .ok (document.render ++ (following ++ [0]))) :
    ∃ b' tree, prepareDevicetree locals b = .ok (true, b') ∧ Represents b'.dt tree ∧
      (tree.map contents = orderedTree document.root ↔ document.root.Balanced) := by
  obtain ⟨b', tree, ran, shown, same, _⟩ :=
    prepareDevicetree_completes reachable good locals located present tagged document following held
  exact ⟨b', tree, ran, shown, by rw [same, rootTree_ordered_iff document.describes]⟩

def listDocument (first : Text) (later : List Text) : Document where
  first := sampleHeader
  headers := []
  plist := none
  root := .dict noText (.cons noText textK
    (.array noText (.cons (.string noText first)
      (later.foldr (fun text items => .cons (.string noText text) items) .nil)) noText) .nil) noText
  describes := by
    refine ⟨⟨Items.noConfusion, ?_⟩, trivial⟩
    rw [if_neg (by decide), Items.Plain]
    induction later with
    | nil => trivial
    | cons text later ih => exact ih

def listBooter (document : Document) : Booter :=
  { nestedBooter roomy with platform := { (nestedBooter roomy).platform with
    machine := ⟨write (fun _ => 0) 0x10000 (imageBytes kImage3TypeXmlDeviceTree (document.render ++ [0])), []⟩ } }

def textB : Text := ⟨[0x62], by decide, by decide⟩

def mirrored : Document := listDocument textA [textB, textA]

def ordered : Document := listDocument textA [textB]

theorem mirrored_keeps : ∃ b' tree,
    prepareDevicetree ⟨0, 0, none⟩ (listBooter mirrored) = .ok (true, b') ∧
      Represents b'.dt tree ∧ tree.map contents = orderedTree mirrored.root := by
  have reachable : XmlReachable roomy (fun _ => none) ⟨(listBooter mirrored).xml, 0⟩ :=
    Relation.ReflTransGen.refl
  have located : getImage3 (listBooter mirrored).platform.machine.memory 0x10000
      kImage3TypeXmlDeviceTree = .ok 0x10000 := by decide +kernel
  have tagged : image3GetTagData (listBooter mirrored).platform.machine.memory 0x10000
      kImage3TagData 0 0 =
        .ok ⟨true, 0x10020, BitVec.ofNat 32 (mirrored.render ++ [0]).length⟩ := by
    decide +kernel
  have held : stringAt (listBooter mirrored).platform.machine.memory 0x10020 =
      .ok (mirrored.render ++ ([] ++ [0])) := by decide +kernel
  obtain ⟨b', tree, ran, shown, kept⟩ := prepareDevicetree_ordered_iff reachable roomy_succeeds ⟨0, 0, none⟩ located
    (by decide) tagged mirrored [] held
  have balanced : mirrored.root.Balanced := ⟨by
    rw [Element.BalancedAt, if_neg (by decide)]
    decide, trivial⟩
  exact ⟨b', tree, ran, shown, kept.mpr balanced⟩

theorem ordered_reverses : ∃ b' tree,
    prepareDevicetree ⟨0, 0, none⟩ (listBooter ordered) = .ok (true, b') ∧ Represents b'.dt tree ∧
      tree.map contents = .node [nameAttribute (ascii "/"),
        arrayAttribute (ascii "k") ((ascii "b").bytes ++ (ascii "a").bytes)] .nil .nil ∧
      tree.map contents ≠ orderedTree ordered.root := by
  have reachable : XmlReachable roomy (fun _ => none) ⟨(listBooter ordered).xml, 0⟩ :=
    Relation.ReflTransGen.refl
  have located : getImage3 (listBooter ordered).platform.machine.memory 0x10000
      kImage3TypeXmlDeviceTree = .ok 0x10000 := by decide +kernel
  have tagged : image3GetTagData (listBooter ordered).platform.machine.memory 0x10000
      kImage3TagData 0 0 = .ok ⟨true, 0x10020, BitVec.ofNat 32 (ordered.render ++ [0]).length⟩ := by
    decide +kernel
  have held : stringAt (listBooter ordered).platform.machine.memory 0x10020 =
      .ok (ordered.render ++ ([] ++ [0])) := by decide +kernel
  obtain ⟨b', tree, ran, shown, same, _⟩ := prepareDevicetree_completes reachable roomy_succeeds ⟨0, 0, none⟩ located
    (by decide) tagged ordered [] held
  refine ⟨b', tree, ran, shown, same, fun kept => ?_⟩
  have balanced := (rootTree_ordered_iff ordered.describes).mp (same.symm.trans kept)
  have symmetric := balanced.1
  rw [Element.BalancedAt, if_neg (by decide)] at symmetric
  revert symmetric
  decide

end GenericBooter
