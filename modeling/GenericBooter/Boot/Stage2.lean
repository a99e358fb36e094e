import GenericBooter.Boot.Darwin
import GenericBooter.DeviceTree.Calls

namespace GenericBooter

open Linked

def entryAttribute (entry : Target × CString × List Byte) : Attribute :=
  ⟨entry.2.1, BitVec.ofNat 32 entry.2.2.length, bytesValue entry.2.2⟩

def targetAttributes (target : Target) (entries : List (Target × CString × List Byte)) : List Attribute :=
  (entries.filter fun entry => entry.1 = target).map entryAttribute

def ramdiskAttribute (start length : Word) : Attribute :=
  ⟨ascii "RAMDisk", 8, bytesValue (wordBytes start ++ wordBytes length)⟩

/-- The device tree with the entries of stage 2, where `ranges` are those of `/chosen/memory-map`. -/
def stage2Tree (ranges : List Attribute) : PlainTree → PlainTree
  | .nil => .nil
  | .node attrs kids _ => .node (attrs ++ targetAttributes .root iBootNodes)
      (.node [nameAttribute (ascii "options")] .nil
        (.node (nameAttribute (ascii "chosen") :: targetAttributes .chosen iBootNodes)
          (.node (nameAttribute (ascii "memory-map") :: ranges) .nil .nil) kids)) .nil

structure MachineNodes where
  root : Nat
  chosen : Nat
  memoryMap : Nat
  options : Nat

def machineTree (nodes : MachineNodes) (root chosen memoryMap options : List (Nat × Attribute)) (kids : Forest) : Forest :=
  .node (nodes.root, root) (.node (nodes.options, options) .nil
    (.node (nodes.chosen, chosen) (.node (nodes.memoryMap, memoryMap) .nil .nil) kids)) .nil

def Described (dt : DeviceTree) (nodes : MachineNodes) (kids : Forest) (root chosen memoryMap : List Attribute) : Prop :=
  dt.malloc.Succeeds ∧ ∃ rootProps chosenProps memoryMapProps optionsProps, rootProps.map Prod.snd = root ∧
    chosenProps.map Prod.snd = chosen ∧ memoryMapProps.map Prod.snd = memoryMap ∧
      optionsProps.map Prod.snd = [nameAttribute (ascii "options")] ∧
        Represents dt (machineTree nodes rootProps chosenProps memoryMapProps optionsProps kids)

section Calls

variable {dt : DeviceTree} {n : Nat} {tree : Forest}

theorem Populated.childless {attrs : List Attribute} (populated : Populated dt n tree attrs .nil) :
    dt.malloc.Succeeds ∧ ∃ props, props.map Prod.snd = attrs ∧
      Represents dt (graft Prod.fst n (addEntries props) .nil tree) := by
  obtain ⟨props, young, added, empty, good, shown⟩ := populated
  cases young with
  | nil => exact ⟨good, props, added, shown⟩
  | node => cases empty

theorem createDeviceTreeNode_spec (name : CString) (data : List Byte) (held : Represents dt tree)
    (member : n ∈ liveNodes tree) (good : dt.malloc.Succeeds) :
    ∃ dt', createDeviceTreeNode dt (some n) name data = .ok (true, dt') ∧
      Populated dt' n tree [⟨name, BitVec.ofNat 32 data.length, bytesValue data⟩] .nil := by
  obtain ⟨dt', ran, populated⟩ := addPropertyTo_spec name (BitVec.ofNat 32 data.length) (bytesValue data)
    (held.with_malloc dt.malloc.call.2) member good.later
  refine ⟨dt', ?_, populated⟩
  unfold createDeviceTreeNode
  simp only [if_neg good.answer]
  rw [ran]
  rfl

theorem allocateMemoryRange_spec (name : CString) (start length type : Word) (held : Represents dt tree)
    (member : n ∈ liveNodes tree) (good : dt.malloc.Succeeds) :
    ∃ dt', allocateMemoryRange dt n name start length type = .ok (true, dt') ∧
      Populated dt' n tree [⟨name, 8, bytesValue (wordBytes start ++ wordBytes length)⟩] .nil := by
  obtain ⟨dt', ran, populated⟩ := addPropertyTo_spec name 8 (bytesValue (wordBytes start ++ wordBytes length))
    (held.with_malloc dt.malloc.call.2.call.2) member good.later.later
  refine ⟨dt', ?_, populated⟩
  unfold allocateMemoryRange
  simp only [if_neg good.answer, if_neg good.later.answer]
  rw [ran]
  rfl

end Calls

section Nodes

variable {dt : DeviceTree} {nodes : MachineNodes} {kids : Forest} {root chosen memoryMap options props : List (Nat × Attribute)}

theorem machineTree_live : liveNodes (machineTree nodes root chosen memoryMap options kids) =
    nodes.root ::ₘ nodes.options ::ₘ nodes.chosen ::ₘ nodes.memoryMap ::ₘ liveNodes kids := by
  simp only [liveNodes, machineTree, cells, Multiset.map_cons, zero_add, add_zero, Multiset.cons_add]

theorem machineTree_distinct (held : Represents dt (machineTree nodes root chosen memoryMap options kids)) :
    nodes.root ≠ nodes.options ∧ nodes.root ≠ nodes.chosen ∧ nodes.root ≠ nodes.memoryMap ∧
      nodes.options ≠ nodes.chosen ∧ nodes.options ≠ nodes.memoryMap ∧ nodes.chosen ≠ nodes.memoryMap ∧
        nodes.memoryMap ∉ liveNodes kids := by
  obtain ⟨_, _, layout⟩ := held
  have nodup := layout.liveNodes_nodup
  rw [machineTree_live] at nodup
  simp only [Multiset.nodup_cons, Multiset.mem_cons, not_or] at nodup
  tauto

theorem graft_root : graft Prod.fst nodes.root (addEntries props) .nil
    (machineTree nodes root chosen memoryMap options kids) =
      machineTree nodes (root ++ props) chosen memoryMap options kids := by
  rw [machineTree, graft, if_pos rfl]
  rfl

theorem graft_chosen (held : Represents dt (machineTree nodes root chosen memoryMap options kids)) :
    graft Prod.fst nodes.chosen (addEntries props) .nil (machineTree nodes root chosen memoryMap options kids) =
      machineTree nodes root (chosen ++ props) memoryMap options kids := by
  obtain ⟨_, notRoot, _, notOptions, _⟩ := machineTree_distinct held
  simp only [machineTree, graft, notRoot, notOptions, if_false, if_true, forestAppend, addEntries]

theorem graft_memoryMap (held : Represents dt (machineTree nodes root chosen memoryMap options kids)) :
    graft Prod.fst nodes.memoryMap (addEntries props) .nil (machineTree nodes root chosen memoryMap options kids) =
      machineTree nodes root chosen (memoryMap ++ props) options kids := by
  obtain ⟨_, _, notRoot, _, notOptions, notChosen, outside⟩ := machineTree_distinct held
  have absent : ∀ label ∈ cells kids, label.1 ≠ nodes.memoryMap := fun label member equal =>
    outside (equal ▸ label_live member)
  simp only [machineTree, graft, notRoot, notOptions, notChosen, if_false, if_true, forestAppend, addEntries,
    graft_absent absent]

end Nodes

section Described

variable {dt dt' : DeviceTree} {nodes : MachineNodes} {kids : Forest} {root chosen memoryMap attrs : List Attribute}

theorem Described.rootNode (described : Described dt nodes kids root chosen memoryMap) : dt.rootNode = some nodes.root := by
  obtain ⟨_, _, _, _, _, _, _, _, _, shown⟩ := described
  exact represents_root shown

theorem Described.add (target : Target) (described : Described dt nodes kids root chosen memoryMap)
    (entry : CString × List Byte) :
    ∃ dt', createDeviceTreeNode dt (some (match target with | .chosen => nodes.chosen | .root => nodes.root))
        entry.1 entry.2 = .ok (true, dt') ∧
      Described dt' nodes kids (root ++ targetAttributes .root [(target, entry)])
        (chosen ++ targetAttributes .chosen [(target, entry)]) memoryMap := by
  obtain ⟨good, rootProps, chosenProps, memoryMapProps, optionsProps, rfl, rfl, rfl, named, shown⟩ := described
  cases target with
  | root =>
    have live : nodes.root ∈ liveNodes (machineTree nodes rootProps chosenProps memoryMapProps optionsProps kids) := by
      rw [machineTree_live]
      simp
    obtain ⟨dt', ran, populated⟩ := createDeviceTreeNode_spec entry.1 entry.2 shown live good
    obtain ⟨good', props, added, shown'⟩ := populated.childless
    rw [graft_root] at shown'
    refine ⟨dt', ran, good', rootProps ++ props, chosenProps, memoryMapProps, optionsProps, ?_, ?_, rfl, named, shown'⟩
    · rw [List.map_append, added]
      rfl
    · exact (List.append_nil _).symm
  | chosen =>
    have live : nodes.chosen ∈ liveNodes (machineTree nodes rootProps chosenProps memoryMapProps optionsProps kids) := by
      rw [machineTree_live]
      simp
    obtain ⟨dt', ran, populated⟩ := createDeviceTreeNode_spec entry.1 entry.2 shown live good
    obtain ⟨good', props, added, shown'⟩ := populated.childless
    rw [graft_chosen shown] at shown'
    refine ⟨dt', ran, good', rootProps, chosenProps ++ props, memoryMapProps, optionsProps, ?_, ?_, rfl, named, shown'⟩
    · exact (List.append_nil _).symm
    · rw [List.map_append, added]
      rfl

theorem targetAttributes_cons (target : Target) (entry : Target × CString × List Byte)
    (later : List (Target × CString × List Byte)) :
    targetAttributes target (entry :: later) = targetAttributes target [entry] ++ targetAttributes target later := by
  rw [targetAttributes, targetAttributes, targetAttributes, ← List.map_append, ← List.filter_append]
  rfl

theorem createNodes_spec (entries : List (Target × CString × List Byte))
    (described : Described dt nodes kids root chosen memoryMap) :
    ∃ dt', createNodes nodes.chosen entries dt = .ok dt' ∧
      Described dt' nodes kids (root ++ targetAttributes .root entries) (chosen ++ targetAttributes .chosen entries)
        memoryMap := by
  induction entries generalizing dt root chosen with
  | nil =>
    refine ⟨dt, rfl, ?_⟩
    rwa [targetAttributes, targetAttributes, List.filter_nil, List.filter_nil, List.map_nil, List.append_nil,
      List.append_nil]
  | cons entry later ih =>
    obtain ⟨target, name, data⟩ := entry
    obtain ⟨dt₁, ran₁, described₁⟩ := described.add target (name, data)
    obtain ⟨dt₂, ran₂, described₂⟩ := ih described₁
    rw [List.append_assoc, List.append_assoc, ← targetAttributes_cons, ← targetAttributes_cons] at described₂
    refine ⟨dt₂, ?_, described₂⟩
    cases target with
    | root =>
      rw [createNodes, described.rootNode, ran₁]
      exact ran₂
    | chosen =>
      rw [createNodes, ran₁]
      exact ran₂

theorem Described.addRange (described : Described dt nodes kids root chosen memoryMap) (name : CString)
    (start length type : Word) :
    ∃ dt', allocateMemoryRange dt nodes.memoryMap name start length type = .ok (true, dt') ∧
      Described dt' nodes kids root chosen
        (memoryMap ++ [⟨name, 8, bytesValue (wordBytes start ++ wordBytes length)⟩]) := by
  obtain ⟨good, rootProps, chosenProps, memoryMapProps, optionsProps, rfl, rfl, rfl, named, shown⟩ := described
  have live : nodes.memoryMap ∈ liveNodes (machineTree nodes rootProps chosenProps memoryMapProps optionsProps kids) := by
    rw [machineTree_live]
    simp
  obtain ⟨dt', ran, populated⟩ := allocateMemoryRange_spec name start length type shown live good
  obtain ⟨good', props, added, shown'⟩ := populated.childless
  rw [graft_memoryMap shown] at shown'
  refine ⟨dt', ran, good', rootProps, chosenProps, memoryMapProps ++ props, optionsProps, rfl, rfl, ?_, named, shown'⟩
  rw [List.map_append, added]

end Described

theorem createMemoryMapNode_spec {dt : DeviceTree} {label : NodeLabel} {kids : Forest}
    (held : Represents dt (.node label kids .nil)) (good : dt.malloc.Succeeds) :
    ∃ nodes dt', createMemoryMapNode dt = .ok ((some nodes.chosen, some nodes.memoryMap), dt') ∧
      Described dt' nodes kids (contents label) [nameAttribute (ascii "chosen")]
        [nameAttribute (ascii "memory-map")] := by
  have top : label.1 ∈ liveNodes (.node label kids .nil) := label_live (Multiset.mem_cons_self _ _)
  obtain ⟨chosen, prop, dt₁, ran₁, fresh₁, good₁, shown₁⟩ := dtAddChild_named (ascii "chosen") held top good
  have below : label.1 ≠ chosen := fun equal => fresh₁ (equal ▸ top)
  rw [graft, if_pos rfl] at shown₁
  have under : chosen ∈ liveNodes (.node label (.node (chosen, [(prop, nameAttribute (ascii "chosen"))]) .nil kids) .nil) := by
    simp [liveNodes, cells]
  obtain ⟨memoryMap, prop', dt₂, ran₂, fresh₂, good₂, shown₂⟩ := dtAddChild_named (ascii "memory-map") shown₁ under good₁
  simp only [id_eq, graft, below, forestAppend, if_false, if_true] at shown₂
  have top₂ : label.1 ∈ liveNodes (.node label (.node (chosen, [(prop, nameAttribute (ascii "chosen"))])
      (.node (memoryMap, [(prop', nameAttribute (ascii "memory-map"))]) .nil .nil) kids) .nil) :=
    label_live (Multiset.mem_cons_self _ _)
  obtain ⟨options, prop'', dt₃, ran₃, _, good₃, shown₃⟩ := dtAddChild_named (ascii "options") shown₂ top₂ good₂
  rw [graft, if_pos rfl] at shown₃
  refine ⟨⟨label.1, chosen, memoryMap, options⟩, dt₃, ?_, good₃, label.2, _, _, _, rfl, rfl, rfl, rfl, shown₃⟩
  rw [createMemoryMapNode, represents_root held]
  simp only [rootOf, ran₁, ran₂, ran₃, ok_bind]

theorem describeMachine_spec {b : Booter} {label : NodeLabel} {kids : Forest}
    (held : Represents b.dt (.node label kids .nil)) (good : b.dt.malloc.Succeeds) :
    ∃ nodes dt, b.describeMachine = .ok (nodes.memoryMap, { b with dt := dt }) ∧
      Described dt nodes kids (contents label ++ targetAttributes .root iBootNodes)
        (nameAttribute (ascii "chosen") :: targetAttributes .chosen iBootNodes) [nameAttribute (ascii "memory-map")] := by
  obtain ⟨nodes, dt₁, ran₁, described₁⟩ := createMemoryMapNode_spec held good
  obtain ⟨dt₂, ran₂, described₂⟩ := createNodes_spec iBootNodes described₁
  refine ⟨nodes, dt₂, ?_, described₂⟩
  unfold Booter.describeMachine
  simp only [ran₁, ran₂, ok_bind]

theorem Described.tree {dt : DeviceTree} {nodes : MachineNodes} {kids : Forest} {attrs ranges : List Attribute}
    (described : Described dt nodes kids (attrs ++ targetAttributes .root iBootNodes)
      (nameAttribute (ascii "chosen") :: targetAttributes .chosen iBootNodes)
      (nameAttribute (ascii "memory-map") :: ranges)) :
    ∃ tree, Represents dt tree ∧ tree.map contents = stage2Tree ranges (.node attrs (kids.map contents) .nil) := by
  obtain ⟨_, rootProps, chosenProps, memoryMapProps, optionsProps, root, chosen, memoryMap, options, shown⟩ := described
  refine ⟨_, shown, ?_⟩
  rw [stage2Tree, ← root, ← chosen, ← memoryMap, ← options]
  rfl

theorem describeMachine_tree {b described : Booter} {memoryMap : Nat} {before : Forest} {added : Bool} {dt : DeviceTree}
    {start length type : Word} (held : Represents b.dt before) (nonempty : before ≠ .nil) (good : b.dt.malloc.Succeeds)
    (describe : b.describeMachine = .ok (memoryMap, described))
    (enter : allocateMemoryRange described.dt memoryMap (ascii "RAMDisk") start length type = .ok (added, dt)) :
    ∃ tree, Represents dt tree ∧
      tree.map contents = stage2Tree [ramdiskAttribute start length] (before.map contents) := by
  obtain ⟨label, kids, rfl⟩ := held.lone_root nonempty
  obtain ⟨nodes, dt₁, ran, described₁⟩ := describeMachine_spec held good
  obtain ⟨rfl, rfl⟩ := Prod.mk.inj (Except.ok.inj (describe.symm.trans ran))
  obtain ⟨dt₂, ran₂, described₂⟩ := described₁.addRange (ascii "RAMDisk") start length type
  obtain ⟨_, rfl⟩ := Prod.mk.inj (Except.ok.inj (enter.symm.trans ran₂))
  exact described₂.tree

end GenericBooter
