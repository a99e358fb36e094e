import GenericBooter.Boot.Arrays
import GenericBooter.Boot.Delivery

namespace GenericBooter

open ByteMemory Linked

/-- A path finds a node by its first `name` property; a node without one is not found by any. -/
def CalledBy (attrs : List Attribute) (name : CString) : Prop :=
  ∃ held, attrs.find? (fun held => held.name = ascii "name") = some held ∧
    held.value.isString name = true

def SameName (attrs attrs' : List Attribute) : Prop := ∃ name, CalledBy attrs name ∧ CalledBy attrs' name

def tops : PlainTree → List (List Attribute)
  | .nil => []
  | .node attrs _ younger => attrs :: tops younger

def PropertiesDistinct (tree : PlainTree) : Prop := ∀ attrs ∈ cells tree, (attrs.map Attribute.name).Nodup

def SiblingsDistinct : PlainTree → Prop
  | .nil => True
  | .node attrs kids younger =>
    (∀ other ∈ tops younger, ¬ SameName attrs other) ∧ SiblingsDistinct kids ∧ SiblingsDistinct younger

def reservedKeys : List CString := ascii "name" :: (targetAttributes .root iBootNodes).map Attribute.name

/-- The root of a property list uses none of the names that the booter adds to the root. -/
def AvoidsReserved : PlainTree → Prop
  | .nil => True
  | .node attrs kids _ => (∀ held ∈ attrs, held.name ∉ reservedKeys) ∧
      ∀ top ∈ tops kids, ¬ CalledBy top (ascii "chosen") ∧ ¬ CalledBy top (ascii "options")

def Entries.keys : Entries → List CString
  | .nil => []
  | .cons _ key _ later => key.string :: later.keys

mutual

def Element.DistinctKeys : Element → Prop
  | .dict _ entries _ => entries.keys.Nodup ∧ entries.DistinctKeys
  | .array _ items _ => items.DistinctKeys
  | _ => True

def Entries.DistinctKeys : Entries → Prop
  | .nil => True
  | .cons _ _ value later => value.DistinctKeys ∧ later.DistinctKeys

def Items.DistinctKeys : Items → Prop
  | .nil => True
  | .cons value later => value.DistinctKeys ∧ later.DistinctKeys

end

section Strings

theorem isString_bytes (text name : CString) : (bytesValue text.bytes).isString name = true ↔ name = text := by
  rw [Value.isString, decide_eq_true_iff]
  constructor
  · intro same
    have whole := bytesValue_take text.bytes
    -- A look beyond both strings begins with either of them.
    have long := Value.take_add (bytesValue text.bytes) (name.chars.length + 1) text.bytes.length
    have long' := Value.take_add (bytesValue text.bytes) text.bytes.length (name.chars.length + 1)
    rw [same] at long
    rw [whole, Nat.add_comm, long] at long'
    have first := cString_append_zero name.noNul ((Value.drop (bytesValue text.bytes) (name.chars.length + 1)).take
      text.bytes.length)
    have second := cString_append_zero text.noNul ((Value.drop (bytesValue text.bytes) text.bytes.length).take
      (name.chars.length + 1))
    apply CString.ext_chars
    rw [← first, ← second]
    simp only [CString.bytes, List.append_assoc, List.singleton_append] at long'
    exact congrArg (fun buffer => (cString buffer).chars) long'
  · rintro rfl
    rw [← CString.bytes_length]
    exact bytesValue_take name.bytes

theorem calledBy_first (text name : CString) (later : List Attribute) :
    CalledBy (nameAttribute text :: later) name ↔ name = text := by
  have found : (nameAttribute text :: later).find? (fun held => held.name = ascii "name") =
      some (nameAttribute text) := List.find?_cons_of_pos (decide_eq_true rfl)
  unfold CalledBy
  rw [found]
  constructor
  · rintro ⟨held, same, equal⟩
    obtain rfl := Option.some.inj same
    exact (isString_bytes text name).mp equal
  · rintro rfl
    exact ⟨_, rfl, (isString_bytes name name).mpr rfl⟩

theorem sameName_first (text : CString) (later other : List Attribute) :
    SameName (nameAttribute text :: later) other ↔ CalledBy other text := by
  constructor
  · rintro ⟨name, here, there⟩
    rwa [(calledBy_first text name later).mp here] at there
  · intro named
    exact ⟨text, (calledBy_first text text later).mpr rfl, named⟩

end Strings

section Distinct

theorem propertiesDistinct_node {attrs : List Attribute} {kids younger : PlainTree} :
    PropertiesDistinct (.node attrs kids younger) ↔
      (attrs.map Attribute.name).Nodup ∧ PropertiesDistinct kids ∧ PropertiesDistinct younger := by
  simp only [PropertiesDistinct, cells, Multiset.mem_cons, Multiset.mem_add, or_imp, forall_and, forall_eq]

theorem propertiesDistinct_append {first second : PlainTree} :
    PropertiesDistinct (forestAppend first second) ↔ PropertiesDistinct first ∧ PropertiesDistinct second := by
  simp only [PropertiesDistinct, cells_forestAppend, Multiset.mem_add, or_imp, forall_and]

theorem propertiesDistinct_nil : PropertiesDistinct .nil := fun _ member => absurd member (Multiset.notMem_zero _)

theorem Element.names_sublist (key : CString) (value : Element) :
    ((value.attributes key).map Attribute.name).Sublist [key] := by
  cases value with
  | string => exact List.Sublist.refl _
  | integer => exact List.Sublist.refl _
  | array _ items _ =>
    rw [Element.attributes]
    by_cases marked : isChildren (some key)
    · rw [if_pos marked]
      exact List.nil_sublist _
    · rw [if_neg marked]
      exact List.Sublist.refl _
  | _ => exact List.nil_sublist _

theorem Entries.names_sublist (entries : Entries) : (entries.attributes.map Attribute.name).Sublist entries.keys := by
  cases entries with
  | nil => exact List.nil_sublist _
  | cons _ key value later =>
    rw [Entries.attributes, List.map_append, Entries.keys]
    exact (value.names_sublist key.string).append later.names_sublist

mutual

theorem Element.propertiesDistinct : ∀ value : Element, value.DistinctKeys → PropertiesDistinct value.node
  | .dict _ entries _, ⟨keys, below⟩ => by
    rw [Element.node, propertiesDistinct_node]
    have names := keys.sublist entries.names_sublist
    refine ⟨?_, entries.propertiesDistinct below, propertiesDistinct_nil⟩
    rw [List.map_reverse, List.nodup_reverse]
    exact names
  | .emptyDict _, _ => propertiesDistinct_node.mpr ⟨List.nodup_nil, propertiesDistinct_nil, propertiesDistinct_nil⟩
  | .array .., _ | .emptyArray _, _ | .string .., _ | .integer .., _ | .data .., _ | .date .., _ | .true _, _
    | .false _, _ => propertiesDistinct_nil

theorem Element.childrenDistinct : ∀ (value : Element) (key : CString), value.DistinctKeys →
    PropertiesDistinct (value.children key)
  | .array _ items _, key, distinct => by
    rw [Element.children]
    by_cases marked : isChildren (some key)
    · rw [if_pos marked]
      exact items.propertiesDistinct distinct
    · rw [if_neg marked]
      exact propertiesDistinct_nil
  | .dict .., _, _ | .emptyDict _, _, _ | .emptyArray _, _, _ | .string .., _, _ | .integer .., _, _ | .data .., _, _
    | .date .., _, _ | .true _, _, _ | .false _, _, _ => propertiesDistinct_nil

theorem Entries.propertiesDistinct : ∀ entries : Entries, entries.DistinctKeys → PropertiesDistinct entries.children
  | .nil, _ => propertiesDistinct_nil
  | .cons _ key value later, ⟨here, rest⟩ =>
    propertiesDistinct_append.mpr ⟨value.childrenDistinct key.string here, later.propertiesDistinct rest⟩

theorem Items.propertiesDistinct : ∀ items : Items, items.DistinctKeys → PropertiesDistinct items.nodes
  | .nil, _ => propertiesDistinct_nil
  | .cons value later, ⟨here, rest⟩ =>
    propertiesDistinct_append.mpr ⟨value.propertiesDistinct here, later.propertiesDistinct rest⟩

end

end Distinct

section Machine

def RamdiskRanges (ranges : List Attribute) : Prop := ranges = [] ∨ ∃ start length, ranges = [ramdiskAttribute start length]

theorem RamdiskRanges.distinct {ranges : List Attribute} (held : RamdiskRanges ranges) :
    ((nameAttribute (ascii "memory-map") :: ranges).map Attribute.name).Nodup := by
  rcases held with rfl | ⟨start, length, rfl⟩
  · exact List.nodup_singleton _
  · change [ascii "name", ascii "RAMDisk"].Nodup
    decide

theorem reservedKeys_nodup : reservedKeys.Nodup := by decide

theorem chosenKeys_nodup :
    ((nameAttribute (ascii "chosen") :: targetAttributes .chosen iBootNodes).map Attribute.name).Nodup := by
  change (ascii "name" :: (targetAttributes .chosen iBootNodes).map Attribute.name).Nodup
  decide

theorem rootKeys_nodup_iff (attrs : List Attribute) :
    ((nameAttribute (ascii "/") :: attrs ++ targetAttributes .root iBootNodes).map Attribute.name).Nodup ↔
      (attrs.map Attribute.name).Nodup ∧ ∀ held ∈ attrs, held.name ∉ reservedKeys := by
  have order : (nameAttribute (ascii "/") :: attrs ++ targetAttributes .root iBootNodes).map Attribute.name =
      ascii "name" :: (attrs.map Attribute.name ++ (targetAttributes .root iBootNodes).map Attribute.name) := by
    rw [List.cons_append, List.map_cons, List.map_append]
    rfl
  have swap : (ascii "name" :: (attrs.map Attribute.name ++ (targetAttributes .root iBootNodes).map Attribute.name)).Perm
      (attrs.map Attribute.name ++ reservedKeys) := List.perm_middle.symm
  rw [order, swap.nodup_iff, List.nodup_append']
  constructor
  · rintro ⟨names, _, apart⟩
    exact ⟨names, fun held member reserved => apart (List.mem_map_of_mem member) reserved⟩
  · rintro ⟨names, apart⟩
    refine ⟨names, reservedKeys_nodup, fun name member reserved => ?_⟩
    obtain ⟨held, inside, rfl⟩ := List.mem_map.mp member
    exact apart held inside reserved

theorem stage2Tree_distinct_iff {attrs ranges : List Attribute} {kids : PlainTree} (ramdisk : RamdiskRanges ranges)
    (properties : PropertiesDistinct (.node attrs kids .nil)) (siblings : SiblingsDistinct (.node attrs kids .nil)) :
    PropertiesDistinct (stage2Tree ranges (.node (nameAttribute (ascii "/") :: attrs) kids .nil)) ∧
        SiblingsDistinct (stage2Tree ranges (.node (nameAttribute (ascii "/") :: attrs) kids .nil)) ↔
      AvoidsReserved (.node attrs kids .nil) := by
  rw [propertiesDistinct_node] at properties
  obtain ⟨names, below, _⟩ := properties
  obtain ⟨_, belowSiblings, _⟩ := siblings
  have options : ((([nameAttribute (ascii "options")] : List Attribute)).map Attribute.name).Nodup := List.nodup_singleton _
  have different : ¬ CalledBy (nameAttribute (ascii "chosen") :: targetAttributes .chosen iBootNodes) (ascii "options") := by
    rw [calledBy_first]
    decide
  simp only [stage2Tree, propertiesDistinct_node, rootKeys_nodup_iff, AvoidsReserved, SiblingsDistinct, tops,
    List.mem_cons, forall_eq_or_imp, sameName_first, ramdisk.distinct, chosenKeys_nodup, options, different, names, below,
    belowSiblings, propertiesDistinct_nil, List.not_mem_nil, false_implies, implies_true, not_false_eq_true, true_and,
    and_true]
  constructor
  · rintro ⟨apart, noOptions, noChosen⟩
    exact ⟨apart, fun top member => ⟨noChosen top member, noOptions top member⟩⟩
  · rintro ⟨apart, free⟩
    exact ⟨apart, fun top member => (free top member).2, fun top member => (free top member).1⟩

end Machine

section Run

variable {b b' : Booter}

theorem dtFlattenDeviceTree_malloc {dt : DeviceTree} {buffer : Option Word} {m : Machine} {flattened : Flattened}
    (ran : dtFlattenDeviceTree dt buffer m = .ok flattened) : ∃ malloc, flattened.dt = { dt with malloc := malloc } := by
  cases buffer with
  | none =>
    obtain rfl := Except.ok.inj ran
    exact ⟨dt.malloc, rfl⟩
  | some buf =>
    rw [dtFlattenDeviceTree] at ran
    split at ran
    · obtain rfl := Except.ok.inj ran
      exact ⟨dt.malloc, rfl⟩
    · simp only [bind_eq_ok] at ran
      obtain ⟨_, _, ran⟩ := ran
      obtain rfl := Except.ok.inj ran
      by_cases null : buf = 0
      · simp only [if_pos null]
        exact ⟨_, rfl⟩
      · simp only [if_neg null]
        exact ⟨dt.malloc, rfl⟩

theorem flattenDevicetree_represents {tree : Forest} (held : Represents b.dt tree)
    (ran : b.flattenDevicetree = .ok b') : Represents b'.dt tree := by
  unfold Booter.flattenDevicetree at ran
  simp only [bind_eq_ok] at ran
  obtain ⟨sized, sizing, flattened, flat, ran⟩ := ran
  obtain rfl := Except.ok.inj ran
  obtain ⟨malloc, kept⟩ := dtFlattenDeviceTree_malloc sizing
  obtain ⟨malloc', kept'⟩ := dtFlattenDeviceTree_malloc flat
  change Represents flattened.dt tree
  rw [kept', kept]
  exact held.with_malloc malloc'

theorem stage2_describes {before : Forest} (held : Represents b.dt before) (nonempty : before ≠ .nil)
    (good : b.dt.malloc.Succeeds) (staged : b.prepareDevicetreeStage2 = .ok b') :
    ∃ ranges tree, RamdiskRanges ranges ∧ Represents b'.dt tree ∧
      tree.map contents = stage2Tree ranges (before.map contents) := by
  simp only [Booter.prepareDevicetreeStage2, bind_eq_ok] at staged
  obtain ⟨⟨memoryMap, described⟩, describe, entered, enter, flatten⟩ := staged
  obtain ⟨label, kids, rfl⟩ := held.lone_root nonempty
  obtain ⟨nodes, dt₁, ran, described₁⟩ := describeMachine_spec held good
  obtain ⟨rfl, rfl⟩ := Prod.mk.inj (Except.ok.inj (describe.symm.trans ran))
  rcases enterRamdisk_found enter with ⟨_, kept⟩ | ⟨image, payload, found⟩
  · obtain ⟨tree, shown, same⟩ := described₁.tree
    have shown' : Represents entered.dt tree := by
      rw [kept]
      exact shown
    exact ⟨[], tree, Or.inl rfl, flattenDevicetree_represents shown' flatten, same⟩
  · obtain ⟨⟨added, allocated⟩, _⟩ := enterRamdisk_ok found b.platform.kernelRegion.pos_eq enter
    obtain ⟨dt₂, ran₂, described₂⟩ := described₁.addRange (ascii "RAMDisk") _ _ _
    obtain ⟨_, rfl⟩ := Prod.mk.inj (Except.ok.inj (allocated.symm.trans ran₂))
    obtain ⟨tree, shown, same⟩ := described₂.tree
    exact ⟨_, tree, Or.inr ⟨_, _, rfl⟩, flattenDevicetree_represents shown flatten, same⟩

end Run

/-- In the tree that stage 2 makes of a property list names stay distinct exactly when the list uses none of the names
    that the booter adds by itself. -/
theorem finalTree_distinct_iff {malloc : Malloc} {stack : Nat → Option Nat} {b : Booter} {roots : Multiset Nat}
    (reachable : XmlReachable malloc stack ⟨b.xml, roots⟩) (good : b.dt.malloc.Succeeds) (locals : DevicetreeLocals)
    {image : Word} {payload : TagData}
    (located : getImage3 b.platform.machine.memory b.platform.imagesEnd kImage3TypeXmlDeviceTree = .ok image)
    (present : image ≠ 0)
    (tagged : image3GetTagData b.platform.machine.memory image kImage3TagData locals.deviceTreeData
      locals.deviceTreeSize = .ok payload) (document : Document) (following : List Byte)
    (held : stringAt b.platform.machine.memory payload.data = .ok (document.render ++ (following ++ [0])))
    (keys : document.root.DistinctKeys) (siblings : SiblingsDistinct document.root.node) :
    ∃ entered, prepareDevicetree locals b = .ok (true, entered) ∧
      ∀ finished, entered.prepareDevicetreeStage2 = .ok finished → ∃ ranges tree, RamdiskRanges ranges ∧
        Represents finished.dt tree ∧ tree.map contents = stage2Tree ranges (rootTree document.root) ∧
        (PropertiesDistinct (tree.map contents) ∧ SiblingsDistinct (tree.map contents) ↔
          AvoidsReserved document.root.node) := by
  obtain ⟨entered, before, ran, shown, same, good'⟩ :=
    prepareDevicetree_completes reachable good locals located present tagged document following held
  refine ⟨entered, ran, fun finished staged => ?_⟩
  obtain ⟨_, attrs, kids, node, _⟩ := document.root.holds_node document.describes
  have properties := document.root.propertiesDistinct keys
  have root : rootTree document.root = .node (nameAttribute (ascii "/") :: attrs) kids .nil := by
    rw [rootTree, node]
  rw [node] at properties siblings ⊢
  have nonempty : before ≠ .nil := by
    rintro rfl
    rw [root] at same
    cases same
  obtain ⟨ranges, tree, ramdisk, shown', final⟩ := stage2_describes shown nonempty good' staged
  rw [same] at final
  refine ⟨ranges, tree, ramdisk, shown', final, ?_⟩
  rw [final, root]
  exact stage2Tree_distinct_iff ramdisk properties siblings

def stageBooter (document : Document) : Booter :=
  { nestedBooter roomy with platform := { (nestedBooter roomy).platform with
    machine := ⟨write (fun _ => 0) 0x10000 (imageBytes kImage3TypeXmlDeviceTree (document.render ++ [0]) ++
      imageBytes kImage3TypeRamdisk [1, 2, 3, 4]), []⟩ } }

theorem stageBooter_nested :
    getImage3 (stageBooter nestedDocument).platform.machine.memory 0x10000 kImage3TypeXmlDeviceTree = .ok 0x10000 ∧
      image3GetTagData (stageBooter nestedDocument).platform.machine.memory 0x10000 kImage3TagData 0 0 =
        .ok ⟨true, 0x10020, BitVec.ofNat 32 (nestedDocument.render ++ [0]).length⟩ ∧
      stringAt (stageBooter nestedDocument).platform.machine.memory 0x10020 =
        .ok (nestedDocument.render ++ ([] ++ [0])) :=
  ⟨by decide +kernel, by decide +kernel, by decide +kernel⟩

theorem nested_distinct : ∃ entered finished tree,
    prepareDevicetree ⟨0, 0, none⟩ (stageBooter nestedDocument) = .ok (true, entered) ∧
      entered.prepareDevicetreeStage2 = .ok finished ∧ Represents finished.dt tree ∧
      PropertiesDistinct (tree.map contents) ∧ SiblingsDistinct (tree.map contents) := by
  have reachable : XmlReachable roomy (fun _ => none) ⟨(stageBooter nestedDocument).xml, 0⟩ := Relation.ReflTransGen.refl
  obtain ⟨located, tagged, held⟩ := stageBooter_nested
  have keys : nestedDocument.root.DistinctKeys := by
    refine ⟨by decide, ⟨⟨⟨by decide, trivial, trivial⟩, trivial⟩, trivial⟩⟩
  have siblings : SiblingsDistinct nestedDocument.root.node := by
    refine ⟨fun _ none => absurd none List.not_mem_nil, ⟨fun _ none => absurd none List.not_mem_nil, trivial, trivial⟩, trivial⟩
  obtain ⟨entered, ran, stages⟩ := finalTree_distinct_iff reachable roomy_succeeds ⟨0, 0, none⟩ located (by decide) tagged
    nestedDocument [] held keys siblings
  have finishes : (do let entered ← prepareDevicetree ⟨0, 0, none⟩ (stageBooter nestedDocument)
                      entered.2.prepareDevicetreeStage2).isOk = true := by decide +kernel
  rw [ran] at finishes
  obtain ⟨finished, staged⟩ := exists_ok finishes
  obtain ⟨_, tree, _, shown, _, distinct⟩ := stages finished staged
  refine ⟨entered, finished, tree, ran, staged, shown, distinct.mpr ⟨fun _ none => absurd none List.not_mem_nil, ?_⟩⟩
  intro top member
  obtain rfl := List.mem_singleton.mp member
  have nameless {name : CString} : ¬ CalledBy [stringAttribute (ascii "n") (ascii "s")] name := by
    rintro ⟨_, absurd, _⟩
    cases absurd
  exact ⟨nameless, nameless⟩

def titledDocument : Document where
  first := sampleHeader
  headers := []
  plist := none
  root := .dict noText (.cons noText ⟨[0x6e, 0x61, 0x6d, 0x65], by decide, by decide⟩ (.string noText textA) .nil) noText
  describes := ⟨trivial, trivial⟩

theorem titled_repeats : titledDocument.root.DistinctKeys ∧ SiblingsDistinct titledDocument.root.node ∧
    ∃ entered finished tree, prepareDevicetree ⟨0, 0, none⟩ (stageBooter titledDocument) = .ok (true, entered) ∧
      entered.prepareDevicetreeStage2 = .ok finished ∧ Represents finished.dt tree ∧
      ¬ PropertiesDistinct (tree.map contents) := by
  have reachable : XmlReachable roomy (fun _ => none) ⟨(stageBooter titledDocument).xml, 0⟩ := Relation.ReflTransGen.refl
  have located : getImage3 (stageBooter titledDocument).platform.machine.memory 0x10000 kImage3TypeXmlDeviceTree =
      .ok 0x10000 := by decide +kernel
  have tagged : image3GetTagData (stageBooter titledDocument).platform.machine.memory 0x10000 kImage3TagData 0 0 =
      .ok ⟨true, 0x10020, BitVec.ofNat 32 (titledDocument.render ++ [0]).length⟩ := by decide +kernel
  have held : stringAt (stageBooter titledDocument).platform.machine.memory 0x10020 =
      .ok (titledDocument.render ++ ([] ++ [0])) := by decide +kernel
  refine ⟨⟨by decide, trivial, trivial⟩, ⟨fun _ none => absurd none List.not_mem_nil, trivial, trivial⟩, ?_⟩
  obtain ⟨entered, before, ran, shown, same, good⟩ := prepareDevicetree_completes reachable roomy_succeeds ⟨0, 0, none⟩
    located (by decide) tagged titledDocument [] held
  have finishes : (do let entered ← prepareDevicetree ⟨0, 0, none⟩ (stageBooter titledDocument)
                      entered.2.prepareDevicetreeStage2).isOk = true := by decide +kernel
  rw [ran] at finishes
  obtain ⟨finished, staged⟩ := exists_ok finishes
  have nonempty : before ≠ .nil := by
    rintro rfl
    cases same
  obtain ⟨ranges, tree, _, shown', final⟩ := stage2_describes shown nonempty good staged
  refine ⟨entered, finished, tree, ran, staged, shown', fun distinct => ?_⟩
  rw [final, same] at distinct
  have root := (propertiesDistinct_node.mp distinct).1
  have twice := (rootKeys_nodup_iff [stringAttribute (ascii "name") (ascii "a")]).mp root
  exact twice.2 _ (List.mem_singleton_self _) (by decide)

end GenericBooter
