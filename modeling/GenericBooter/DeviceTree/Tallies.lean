import GenericBooter.DeviceTree.Recycling

namespace GenericBooter

open Linked

section Free

variable {dt : DeviceTree} {tree : Forest} {entries slots : Multiset Nat}

theorem Layout.freeNode {node : Nat} (layout : Layout dt tree entries slots) (given : dt.NodeGiven node)
    (outside : node ∉ liveNodes tree) (bare : dt.Bare node) :
    Layout (dtFreeNode dt node) tree (node ::ₘ entries) slots := by
  obtain ⟨bound, unfree, unrecorded⟩ := given
  have absent := layout.nodePool.absent unfree outside
  have cell := dtFreeNode_nodes dt node
  have next : ∀ other ≠ node, ((dtFreeNode dt node).nodes other).next = (dt.nodes other).next :=
    fun _ distinct => dtFreeNode_next dt distinct
  refine { layout with
    shape := ?_
    nodePool := layout.nodePool.give layout.entriesOnce absent (dtFreeNode_head dt node) next
    nodeRecords := layout.nodeRecords.give unrecorded absent next
    entriesOnce := Multiset.nodup_cons.mpr ⟨absent, layout.entriesOnce⟩
    entriesBound := ?_
    labelled := ?_
    clean := ?_ }
  · apply shape_congr _ layout.shape
    intro other inside
    rw [cells_map] at inside
    exact ⟨by rw [cell], next other fun equal => outside (equal ▸ inside)⟩
  · intro other member
    rcases Multiset.mem_cons.mp member with rfl | member
    · exact bound
    · exact layout.entriesBound other member
  · exact fun label member => (layout.labelled label member).congr (by rw [cell]) (by rw [cell]) fun _ _ => rfl
  · intro other member unused
    rw [cell]
    rcases Multiset.mem_cons.mp member with rfl | member
    · exact bare
    · exact layout.clean other member unused

theorem Layout.freeProperty {prop : Nat} (layout : Layout dt tree entries slots) (given : dt.PropertyGiven prop)
    (outside : prop ∉ liveProperties tree) : Layout (dtFreeProperty dt prop) tree entries (prop ::ₘ slots) := by
  obtain ⟨bound, unfree, unrecorded⟩ := given
  have absent := layout.propertyPool.absent unfree outside
  have link : ((dtFreeProperty dt prop).properties prop).next = dt.freeProperties := by
    simp only [dtFreeProperty, DeviceTree.setProperty, Function.update_self]
  have others : ∀ other ≠ prop, (dtFreeProperty dt prop).properties other = dt.properties other := by
    intro other distinct
    simp only [dtFreeProperty, DeviceTree.setProperty, Function.update_of_ne distinct]
  have next : ∀ other ≠ prop, ((dtFreeProperty dt prop).properties other).next = (dt.properties other).next :=
    fun other distinct => congrArg Property.next (others other distinct)
  refine { layout with
    propertyPool := layout.propertyPool.give layout.slotsOnce absent link next
    propertyRecords := layout.propertyRecords.give unrecorded absent next
    slotsOnce := Multiset.nodup_cons.mpr ⟨absent, layout.slotsOnce⟩
    slotsBound := ?_
    labelled := ?_ }
  · intro other member
    rcases Multiset.mem_cons.mp member with rfl | member
    · exact bound
    · exact layout.slotsBound other member
  · intro label member
    refine (layout.labelled label member).congr rfl rfl fun other inside => ?_
    exact others other fun equal => outside (equal ▸ propertyCells_live member inside)

theorem Layout.forget (layout : Layout dt tree entries slots) :
    Represents { dt with rootNode := none, info := ⟨0, 0, 0⟩ } .nil := by
  obtain ⟨free, chain, split⟩ := layout.nodePool
  obtain ⟨freeSlots, chain', split'⟩ := layout.propertyPool
  have once := layout.entriesOnce
  have once' := layout.slotsOnce
  rw [← split, Multiset.nodup_add] at once
  rw [← split', Multiset.nodup_add] at once'
  have inside : ∀ node ∈ (free : Multiset Nat), node ∈ entries := fun node member =>
    split ▸ Multiset.mem_add.mpr (Or.inr member)
  have inside' : ∀ prop ∈ (freeSlots : Multiset Nat), prop ∈ slots := fun prop member =>
    split' ▸ Multiset.mem_add.mpr (Or.inr member)
  refine ⟨free, freeSlots, {
    shape := rfl
    lone := Nat.zero_le 1
    nodePool := ⟨free, chain, zero_add _⟩
    propertyPool := ⟨freeSlots, chain', zero_add _⟩
    nodeRecords := layout.nodeRecords.fewer (split ▸ Multiset.le_add_left _ _)
    propertyRecords := layout.propertyRecords.fewer (split' ▸ Multiset.le_add_left _ _)
    entriesOnce := once.2.1
    slotsOnce := once'.2.1
    entriesBound := fun node member => layout.entriesBound node (inside node member)
    slotsBound := fun prop member => layout.slotsBound prop (inside' prop member)
    labelled := fun _ member => absurd member (Multiset.notMem_zero _)
    clean := fun node member _ => layout.clean node (inside node member) fun live =>
      Multiset.disjoint_left.mp once.2.2 live member
    info := rfl }⟩

end Free

namespace DeviceTree

def counted (dt : DeviceTree) (info : DtInfo) : DeviceTree := { dt with info := info }

variable (dt : DeviceTree) (info : DtInfo)

theorem readyProperty_counted :
    (dt.counted info).readyProperty = (dt.readyProperty.1, dt.readyProperty.2.counted info) := by
  cases free : dt.freeProperties with
  | some prop => simp only [readyProperty, counted, free]
  | none =>
    simp only [readyProperty, counted, free]
    split <;> rfl

theorem readyNode_counted : (dt.counted info).readyNode = (dt.readyNode.1, dt.readyNode.2.counted info) := by
  cases free : dt.freeNodes with
  | some node => simp only [readyNode, counted, free]
  | none =>
    simp only [readyNode, counted, free]
    split <;> rfl

theorem linkProperty_counted {node prop : Nat} {d : DeviceTree}
    (ran : (dt.counted info).linkProperty node prop = .ok d) :
    ∃ dt', dt.linkProperty node prop = .ok dt' ∧ d = dt'.counted info ∧ dt'.info = dt.info := by
  cases first : (dt.nodes node).properties with
  | none =>
    simp only [linkProperty, counted, first, pure_bind] at ran ⊢
    exact ⟨_, rfl, (Except.ok.inj ran).symm, rfl⟩
  | some head =>
    cases last : (dt.nodes node).lastProp with
    | none =>
      simp only [linkProperty, counted, first, last] at ran
      cases ran
    | some prop' =>
      simp only [linkProperty, counted, first, last, pure_bind] at ran ⊢
      exact ⟨_, rfl, (Except.ok.inj ran).symm, rfl⟩

theorem readyNode_rooted (root : Option Nat) :
    ({ dt with rootNode := root }).readyNode = (dt.readyNode.1, { dt.readyNode.2 with rootNode := root }) := by
  cases free : dt.freeNodes with
  | some node => simp only [readyNode, free]
  | none =>
    simp only [readyNode, free]
    split <;> rfl

theorem totalSize_property (length : Word) :
    (dt.counted { dt.info with
      numProperties := dt.info.numProperties + 1
      totalPropertySize := dt.info.totalPropertySize + roundToLong length }).totalSize =
      dt.totalSize + (DeviceTreeNodeProperty.size + roundToLong length) := by
  simp only [totalSize, counted]
  ring

theorem totalSize_node : (dt.counted { dt.info with numNodes := dt.info.numNodes + 1 }).totalSize =
    dt.totalSize + DeviceTreeNode.size := by
  simp only [totalSize, counted]
  ring

end DeviceTree

open DeviceTree

/-- The same heap but for counters that add up to the same size. -/
def Tallies (dt d : DeviceTree) : Prop := d = dt.counted d.info ∧ d.totalSize = dt.totalSize

section Tallies

variable {dt d d' : DeviceTree}

theorem Tallies.later {dt' : DeviceTree} {info : DtInfo} (size : (dt.counted info).totalSize = dt.totalSize)
    (same : dt'.info = dt.info) : Tallies dt' (dt'.counted info) :=
  ⟨rfl, size.trans (by rw [totalSize, totalSize, same])⟩

theorem dtAddProperty_tallies (tallies : Tallies dt d) {node : Nat} {name : CString} {length : Word} {value : Value}
    {result : Option Nat} (ran : dtAddProperty d node name length value = .ok (result, d')) :
    ∃ dt', dtAddProperty dt node name length value = .ok (result, dt') ∧ Tallies dt' d' := by
  obtain ⟨same, size⟩ := tallies
  have kept := (readyProperty_only dt).info
  rw [same] at size
  rw [same, dtAddProperty, readyProperty_counted] at ran
  rw [dtAddProperty]
  rcases taken : dt.readyProperty with ⟨_ | prop, ready⟩
  · rw [taken] at ran kept
    obtain ⟨rfl, rfl⟩ := Prod.mk.inj (Except.ok.inj ran)
    exact ⟨ready, rfl, Tallies.later size kept⟩
  · rw [taken] at ran kept
    obtain ⟨linked, link, ran⟩ := bind_eq_ok.mp ran
    obtain ⟨rfl, rfl⟩ := Prod.mk.inj (Except.ok.inj ran)
    obtain ⟨dt', link', rfl, info'⟩ := linkProperty_counted (ready.fillProperty prop name length value) d.info link
    have before : Tallies dt' (dt'.counted d.info) := Tallies.later size (info'.trans kept)
    refine ⟨dt'.counted { dt'.info with
      numProperties := dt'.info.numProperties + 1
      totalPropertySize := dt'.info.totalPropertySize + roundToLong length }, ?_, rfl, ?_⟩
    · simp only [link', ok_bind]
      rfl
    · apply (totalSize_property (dt'.counted d.info) length).trans
      rw [totalSize_property dt' length, before.2]

theorem attachNode_totalSize (dt : DeviceTree) (parent : Option Nat) (node : Nat) :
    (attachNode dt parent node).totalSize = dt.totalSize + DeviceTreeNode.size := by
  cases parent with
  | none => exact totalSize_node dt
  | some parent => exact totalSize_node dt

theorem attachNode_tallies {ready : DeviceTree} {info : DtInfo} (tallies : Tallies ready (ready.counted info))
    (parent : Option Nat) (node : Nat) :
    Tallies (attachNode ready parent node) (attachNode (ready.counted info) parent node) := by
  refine ⟨?_, by rw [attachNode_totalSize, attachNode_totalSize, tallies.2]⟩
  cases parent with
  | none => rfl
  | some parent => rfl

theorem dtAddChild_tallies (tallies : Tallies dt d) {parent : Option Nat} {name : Option CString}
    {result : Option Nat} (ran : dtAddChild d parent name = .ok (result, d')) :
    ∃ dt', dtAddChild dt parent name = .ok (result, dt') ∧ Tallies dt' d' := by
  obtain ⟨same, size⟩ := tallies
  have kept := (readyNode_only dt).info
  have taken' := readyNode_counted dt d.info
  rw [← same] at taken'
  rw [same] at size
  rcases taken : dt.readyNode with ⟨_ | node, ready⟩
  · rw [taken] at taken' kept
    rw [dtAddChild, taken'] at ran
    obtain ⟨rfl, rfl⟩ := Prod.mk.inj (Except.ok.inj ran)
    exact ⟨ready, by rw [dtAddChild, taken], Tallies.later size kept⟩
  · rw [taken] at taken' kept
    have attached := attachNode_tallies (Tallies.later size kept) parent node
    cases name with
    | none =>
      obtain ⟨rfl, rfl⟩ := Prod.mk.inj (Except.ok.inj (ran.symm.trans (dtAddChild_unnamed parent taken')))
      exact ⟨attachNode ready parent node, dtAddChild_unnamed parent taken, attached⟩
    | some text =>
      rw [dtAddChild_text parent text taken'] at ran
      obtain ⟨⟨prop, named⟩, added, ran⟩ := bind_eq_ok.mp ran
      obtain ⟨rfl, rfl⟩ := Prod.mk.inj (Except.ok.inj ran)
      obtain ⟨dt', added', tallies'⟩ := dtAddProperty_tallies attached added
      exact ⟨dt', by rw [dtAddChild_text parent text taken, added', ok_bind], tallies'⟩

theorem dtAddChild_rooted (given : ¬ dt.NodesRefused) (root : Option Nat) (name : Option CString) :
    dtAddChild { dt with rootNode := root } none name = dtAddChild dt none name := by
  obtain ⟨node, ready, taken⟩ := readyNode_some given
  rw [dtAddChild, dtAddChild, readyNode_rooted, taken]
  rfl

end Tallies

/-- The heap holds `tree`, but for counters that have gone round. -/
def Recounts (dt : DeviceTree) (tree : Forest) : Prop := ∃ d, Tallies dt d ∧ Represents d tree

section Recounts

variable {dt d dt' : DeviceTree} {tree : Forest}

theorem Represents.recounts (held : Represents dt tree) : Recounts dt tree := ⟨dt, ⟨rfl, rfl⟩, held⟩

theorem Tallies.inTree (tallies : Tallies dt d) (held : Represents d tree) (node : Nat) :
    InTree dt node ↔ node ∈ liveNodes tree := by
  rw [← inTree_iff held, tallies.1]
  exact Iff.rfl

theorem Tallies.property_inTree (tallies : Tallies dt d) (held : Represents d tree) {prop : Nat}
    (live : prop ∈ liveProperties tree) : PropertyInTree dt prop := by
  obtain ⟨label, member, inside⟩ := Multiset.mem_bind.mp live
  refine ⟨label.1, (tallies.inTree held label.1).mpr (label_live member), ?_⟩
  obtain ⟨entries, slots, layout⟩ := held
  have chain := (layout.labelled label member).chain
  rw [tallies.1] at chain
  exact (listed_iff chain).mpr (Multiset.mem_coe.mp inside)

theorem Recounts.refused (held : Recounts dt tree) : Recounts dt.refused tree := by
  obtain ⟨d, ⟨same, size⟩, shown⟩ := held
  refine ⟨d.refused, ⟨?_, size⟩, shown.with_malloc _⟩
  rw [same]
  rfl

theorem Tallies.addChild (tallies : Tallies dt d) (shown : Represents d tree) {parent : Option Nat}
    (place : Place parent tree) (name : Option CString) :
    ∃ result dt' tree', dtAddChild dt parent name = .ok (result, dt') ∧ Recounts dt' tree' := by
  obtain ⟨result, d', ran, failed, returned, _⟩ := dtAddChild_spec parent name shown place
  obtain ⟨dt', ran', tallies'⟩ := dtAddChild_tallies tallies ran
  cases result with
  | none => exact ⟨none, dt', tree, ran', d', tallies', failed rfl⟩
  | some child =>
    obtain ⟨_, _, _, held, _⟩ := returned child rfl
    exact ⟨some child, dt', _, ran', d', tallies', held⟩

/-- A tree that counts as nothing leaves nothing in the counters when it is replaced. -/
theorem Recounts.addChild (held : Recounts dt tree) {parent : Option Nat} {name : Option CString}
    (counted : (DtCall.addChild parent name).Counted dt) :
    ∃ result dt' tree', dtAddChild dt parent name = .ok (result, dt') ∧ Recounts dt' tree' := by
  by_cases refused : dt.NodesRefused
  · exact ⟨none, dt.refused, tree, dtAddChild_refused refused parent name, held.refused⟩
  · obtain ⟨d, tallies, shown⟩ := held
    cases parent with
    | none =>
      obtain ⟨entries, slots, layout⟩ := shown
      have empty : dt.totalSize = 0 := counted.resolve_left refused
      have forgotten : Tallies { dt with rootNode := none } { d with rootNode := none, info := ⟨0, 0, 0⟩ } := by
        refine ⟨?_, empty.symm⟩
        rw [tallies.1]
        rfl
      rw [← dtAddChild_rooted refused none name]
      exact forgotten.addChild layout.forget (show Place none .nil from rfl) name
    | some parent =>
      have inside := (tallies.inTree shown parent).mp (counted.resolve_left refused)
      exact tallies.addChild shown (show Place (some parent) tree from inside) name

theorem Recounts.addProperty (held : Recounts dt tree) {node : Nat} {name : CString} {length : Word} {value : Value}
    (counted : (DtCall.addProperty node name length value).Counted dt) :
    ∃ result dt' tree', dtAddProperty dt node name length value = .ok (result, dt') ∧ Recounts dt' tree' := by
  by_cases refused : dt.PropertiesRefused
  · exact ⟨none, dt.refused, tree, dtAddProperty_refused refused node name length value, held.refused⟩
  · obtain ⟨d, tallies, shown⟩ := held
    have inside := (tallies.inTree shown node).mp (counted.resolve_left refused)
    obtain ⟨result, d', ran, held', _⟩ := dtAddProperty_spec name length value shown inside
    obtain ⟨dt', ran', tallies'⟩ := dtAddProperty_tallies tallies ran
    exact ⟨result, dt', _, ran', d', tallies', held'⟩

theorem Recounts.freeNode (held : Recounts dt tree) {node : Nat} (proper : (DtCall.freeNode node).Proper dt)
    (bare : dt.Bare node) : Recounts (dtFreeNode dt node) tree := by
  obtain ⟨d, tallies, shown⟩ := held
  have outside := mt (tallies.inTree shown node).mpr proper.2
  obtain ⟨entries, slots, layout⟩ := shown
  obtain ⟨given, _⟩ := proper
  refine ⟨dtFreeNode d node, ⟨?_, tallies.2⟩, _, _, layout.freeNode ?_ outside ?_⟩
  · rw [tallies.1]
    rfl
  · rw [tallies.1]
    exact given
  · rw [tallies.1]
    exact bare

theorem Recounts.freeProperty (held : Recounts dt tree) {prop : Nat}
    (proper : (DtCall.freeProperty prop).Proper dt) : Recounts (dtFreeProperty dt prop) tree := by
  obtain ⟨d, tallies, shown⟩ := held
  obtain ⟨given, outside⟩ := proper
  have outside' := mt (tallies.property_inTree shown) outside
  obtain ⟨entries, slots, layout⟩ := shown
  refine ⟨dtFreeProperty d prop, ⟨?_, tallies.2⟩, _, _, layout.freeProperty ?_ outside'⟩
  · rw [tallies.1]
    rfl
  · rw [tallies.1]
    exact given

theorem CountedStep.recounts (step : CountedStep dt dt') (held : Recounts dt tree) : ∃ tree', Recounts dt' tree' := by
  obtain ⟨call, proper, clean, counted, ran⟩ := step
  cases call with
  | addChild parent name =>
    obtain ⟨result, after, tree', added, held'⟩ := held.addChild counted
    simp only [DtCall.run, added, ok_bind] at ran
    exact ⟨tree', Except.ok.inj ran ▸ held'⟩
  | addProperty node name length value =>
    obtain ⟨result, after, tree', added, held'⟩ := held.addProperty counted
    simp only [DtCall.run, added, ok_bind] at ran
    exact ⟨tree', Except.ok.inj ran ▸ held'⟩
  | freeNode node => exact ⟨tree, Except.ok.inj ran ▸ held.freeNode proper clean⟩
  | freeProperty prop => exact ⟨tree, Except.ok.inj ran ▸ held.freeProperty proper⟩

theorem countedRun_recounts {start : DeviceTree} (started : dtInitialize dt = .ok start)
    (run : Relation.ReflTransGen CountedStep start dt') : ∃ tree, Recounts dt' tree := by
  induction run with
  | refl =>
    obtain ⟨_, ran, outcome, _⟩ := dtInitialize_spec dt
    obtain rfl := Except.ok.inj (started.symm.trans ran)
    rcases outcome with held | ⟨_, _, _, held⟩
    · exact ⟨_, held.recounts⟩
    · exact ⟨_, held.recounts⟩
  | tail _ step ih =>
    obtain ⟨tree, held⟩ := ih
    exact step.recounts held

end Recounts

section Flatten

variable (dt : DeviceTree) (info : DtInfo)

theorem flattenProperties_counted (fuel : Nat) (head : Option Nat) (count buffer : Word) (m : Machine) :
    (dt.counted info).flattenProperties fuel head count buffer m = dt.flattenProperties fuel head count buffer m := by
  induction fuel generalizing head count buffer m with
  | zero => rfl
  | succ fuel ih =>
    cases head with
    | none => rfl
    | some prop => exact ih _ _ _ _

theorem flatten_counted (fuel : Nat) :
    (∀ head buffer m, (dt.counted info).flattenNodes fuel head buffer m = dt.flattenNodes fuel head buffer m) ∧
    ∀ head count buffer m,
      (dt.counted info).flattenChildren fuel head count buffer m = dt.flattenChildren fuel head count buffer m := by
  induction fuel with
  | zero => exact ⟨fun _ _ _ => rfl, fun _ _ _ _ => rfl⟩
  | succ fuel ih =>
    obtain ⟨nodes, children⟩ := ih
    refine ⟨fun head buffer m => ?_, fun head count buffer m => ?_⟩
    · cases head with
      | none => rfl
      | some node =>
        simp only [flattenNodes, flattenProperties_counted, children]
        rfl
    · cases head with
      | none => rfl
      | some node =>
        simp only [flattenChildren, nodes, children]
        rfl

end Flatten

theorem Recounts.sizeExact {dt : DeviceTree} {tree : Forest} (held : Recounts dt tree) : SizeExact dt := by
  obtain ⟨d, ⟨same, size⟩, shown⟩ := held
  intro buf m
  obtain ⟨m', ran, _⟩ := flattenNodes_root shown buf m
  rw [← totalSize_eq shown, size] at ran
  rw [same, (flatten_counted dt d.info _).1] at ran
  exact ⟨dt.totalSize, m', rfl, ran⟩

theorem CountedStep.clean {dt dt' : DeviceTree} (step : CountedStep dt dt') : CleanStep dt dt' := by
  obtain ⟨call, proper, clean, _, ran⟩ := step
  exact ⟨call, proper, clean, ran⟩

theorem Represents.root_given {dt : DeviceTree} {tree : Forest} {root : Nat} (held : Represents dt tree)
    (rooted : dt.rootNode = some root) : dt.NodeGiven root ∧ InTree dt root := by
  have live := root_live held rooted
  refine ⟨?_, (inTree_iff held root).mpr live⟩
  obtain ⟨free, records, chain, chain', once⟩ := held.separate.nodes
  obtain ⟨entries, slots, layout⟩ := held
  rw [Multiset.nodup_add, Multiset.nodup_add] at once
  refine ⟨layout.entriesBound root (layout.nodePool.live_mem live), ?_, ?_⟩
  · rw [listed_iff chain]
    exact fun member => Multiset.disjoint_left.mp once.1.2.2 live (Multiset.mem_coe.mpr member)
  · rw [listed_iff chain']
    exact fun member => Multiset.disjoint_left.mp once.2.2 (Multiset.mem_add.mpr (Or.inl live))
      (Multiset.mem_coe.mpr member)

theorem inTree_lone {dt : DeviceTree} {root node : Nat} (rooted : dt.rootNode = some root)
    (childless : (dt.nodes root).children = none) (alone : (dt.nodes root).next = none) (inside : InTree dt node) :
    node = root := by
  obtain ⟨nodes, shape, member⟩ := inside
  have lone : Shape (fun node => (dt.nodes node).children) (fun node => (dt.nodes node).next) dt.rootNode
      (.node root .nil .nil) := ⟨rooted, childless, alone⟩
  rw [shape_unique shape lone] at member
  exact Multiset.mem_singleton.mp member

def withChild : DeviceTree := okChild (dtAddChild rootOnly (some 255) none)

/-- A property so long that the counters come back to zero. -/
def padded : DeviceTree := okChild (dtAddProperty withChild 255 (ascii "pad") 0xffffffa4 fun _ => 0)

def replanted (dt : DeviceTree) : DeviceTree := okChild (dtAddChild dt none (some (ascii "/")))

def released : DeviceTree := dtFreeNode (replanted padded) 254

def reclaimed : DeviceTree := dtFreeProperty released 254

theorem replanted_given {dt : DeviceTree} (sample : dt = withChild ∨ dt = padded) {node : Nat} (above : 252 < node)
    (bound : node < 256) : (replanted dt).NodeGiven node := by
  have linked : ∀ i < 252, ((replanted dt).nodes (i + 1)).next = if i = 0 then none else some i := by
    rcases sample with rfl | rfl
    · decide +kernel
    · decide +kernel
  have blocks : (replanted dt).freeNodes = some 252 ∧ (replanted dt).allocedNodes = some 0 ∧
      (replanted dt).nodeEnd = 256 ∧ ((replanted dt).nodes 0).next = none := by
    rcases sample with rfl | rfl
    · decide +kernel
    · decide +kernel
  obtain ⟨head, record, limit, last⟩ := blocks
  refine ⟨limit.symm ▸ bound, ?_, ?_⟩
  · rw [head]
    exact unlisted_above above linked (by decide)
  · rw [record]
    exact unlisted_last last (by omega)

theorem replanted_inTree {dt : DeviceTree} (sample : dt = withChild ∨ dt = padded) {node : Nat}
    (inside : InTree (replanted dt) node) : node = 253 := by
  have root : (replanted dt).rootNode = some 253 ∧ ((replanted dt).nodes 253).children = none ∧
      ((replanted dt).nodes 253).next = none := by
    rcases sample with rfl | rfl
    · decide +kernel
    · decide +kernel
  exact inTree_lone root.1 root.2.1 root.2.2 inside

theorem padded_run : Relation.ReflTransGen CountedStep rootOnly padded := by
  have reachable : DtReachable ⟨fun _ => 0x1000, 0⟩ rootOnly := Relation.ReflTransGen.single (DtStep.start rfl)
  obtain ⟨tree, held⟩ := reachable.represents
  obtain ⟨given, inside⟩ := held.root_given (show rootOnly.rootNode = some 255 from rfl)
  have child : CountedStep rootOnly withChild :=
    ⟨.addChild (some 255) none, trivial, Or.inr given, Or.inr inside, rfl⟩
  have reachable' := reachable.tail (DtStep.addChild inside (show dtAddChild rootOnly (some 255) none =
    .ok (some 254, withChild) from rfl))
  obtain ⟨tree', held'⟩ := DtReachable.represents reachable'
  obtain ⟨given', inside'⟩ := held'.root_given (show withChild.rootNode = some 255 from rfl)
  have pad : CountedStep withChild padded :=
    ⟨.addProperty 255 (ascii "pad") 0xffffffa4 fun _ => 0, trivial, Or.inr given', Or.inr inside', rfl⟩
  exact (Relation.ReflTransGen.single child).tail pad

theorem released_run : Relation.ReflTransGen CountedStep rootOnly released := by
  have root : CountedStep padded (replanted padded) :=
    ⟨.addChild none (some (ascii "/")), trivial, trivial, Or.inr rfl, rfl⟩
  have node : CountedStep (replanted padded) released := by
    refine ⟨.freeNode 254, ⟨replanted_given (Or.inr rfl) (by decide) (by decide), fun inside => ?_⟩, ?_, trivial, rfl⟩
    · cases replanted_inTree (Or.inr rfl) inside
    · exact ⟨by decide +kernel, by decide +kernel⟩
  exact (padded_run.tail root).tail node

theorem reclaimed_run : Relation.ReflTransGen CountedStep rootOnly reclaimed := by
  have linked : ∀ i < 252, (released.properties (i + 1)).next = if i = 0 then none else some i := by
    decide +kernel
  have head : released.freeProperties = some 252 := by decide +kernel
  have record : released.allocedProperties = some 0 := by decide +kernel
  have only : (released.nodes 253).properties = some 253 := by decide +kernel
  refine released_run.tail ⟨.freeProperty 254, ⟨⟨by decide +kernel, ?_, ?_⟩, ?_⟩, trivial, trivial, rfl⟩
  · rw [head]
    exact unlisted_above (by decide) linked (by decide)
  · rw [record]
    exact unlisted_last (by decide +kernel) (by decide)
  · rintro ⟨node, inside, listed⟩
    have same : node = 253 :=
      inTree_lone (by decide +kernel) (by decide +kernel) (by decide +kernel) inside
    rw [same, only] at listed
    exact unlisted_last (by decide +kernel) (by decide) listed

def stale : DeviceTree := dtFreeNode (dtFreeNode (replanted withChild) 254) 255

theorem stale_run : Relation.ReflTransGen ProperStep rootOnly stale := by
  have given : ∀ node, 252 < node → node < 256 → (replanted withChild).NodeGiven node := fun node above bound =>
    replanted_given (Or.inl rfl) above bound
  have child : ProperStep rootOnly withChild := ⟨.addChild (some 255) none, trivial, rfl⟩
  have root : ProperStep withChild (replanted withChild) := ⟨.addChild none (some (ascii "/")), trivial, rfl⟩
  have first : ProperStep (replanted withChild) (dtFreeNode (replanted withChild) 254) := by
    refine ⟨.freeNode 254, ⟨given 254 (by decide) (by decide), fun inside => ?_⟩, rfl⟩
    cases replanted_inTree (Or.inl rfl) inside
  have second : ProperStep (dtFreeNode (replanted withChild) 254) stale := by
    refine ⟨.freeNode 255, ⟨?_, fun inside => ?_⟩, rfl⟩
    · exact (given 255 (by decide) (by decide)).freeNode (given 254 (by decide) (by decide)) (by decide)
    · have same : 255 = 253 := inTree_lone (by decide +kernel) (by decide +kernel) (by decide +kernel) inside
      cases same
  exact (((Relation.ReflTransGen.single child).tail root).tail first).tail second

/-- Where nodes are freed bare, a child is as good as new. Where, moreover, only what counts as nothing is taken out
    of the tree, the counters tell the size of the tree. -/
theorem recycling_harmless {dt start : DeviceTree} (started : dtInitialize dt = .ok start) :
    (∀ dt', Relation.ReflTransGen CleanStep start dt' → ∀ parent name child after,
      (DtCall.addChild parent name).Clean dt' → dtAddChild dt' parent name = .ok (some child, after) →
        NewChild after child name) ∧
    ∀ dt', Relation.ReflTransGen CountedStep start dt' → SizeExact dt' := by
  constructor
  · intro dt' run parent name child after clean ran
    exact ((cleanRun_bare started run).addChild (clean_parent clean) ran).2 child rfl
  · intro dt' run
    obtain ⟨tree, held⟩ := countedRun_recounts started run
    exact held.sizeExact

theorem reclaimed_harmless : ∃ after, dtAddChild reclaimed (some 253) (some (ascii "b")) = .ok (some 254, after) ∧
    NewChild after 254 (some (ascii "b")) ∧ SizeExact reclaimed := by
  have started : dtInitialize (DeviceTree.bss ⟨fun _ => 0x1000, 0⟩) = .ok rootOnly := rfl
  obtain ⟨new, sizes⟩ := recycling_harmless started
  have clean : Relation.ReflTransGen CleanStep rootOnly reclaimed :=
    Relation.ReflTransGen.mono (fun _ _ step => CountedStep.clean step) _ _ reclaimed_run
  have given : ∀ node, 252 < node → node < 256 → (replanted padded).NodeGiven node := fun node above bound =>
    replanted_given (Or.inr rfl) above bound
  have kept : released.NodeGiven 253 :=
    (given 253 (by decide) (by decide)).freeNode (given 254 (by decide) (by decide)) (by decide)
  refine ⟨okChild (dtAddChild reclaimed (some 253) (some (ascii "b"))), rfl, ?_, sizes reclaimed reclaimed_run⟩
  exact new reclaimed clean (some 253) (some (ascii "b")) 254 _ (Or.inr (kept.freeProperty 254)) rfl

/-- The old root comes back as a child with a child of its own, and the replaced tree is still counted. -/
theorem stale_returned :
    (¬ ∀ dt start, dtInitialize dt = .ok start → ∀ dt', Relation.ReflTransGen ProperStep start dt' →
      ∀ parent name child after, dtAddChild dt' parent name = .ok (some child, after) → NewChild after child name) ∧
    ¬ ∀ dt start, dtInitialize dt = .ok start → ∀ dt', Relation.ReflTransGen ProperStep start dt' → SizeExact dt' := by
  have started : dtInitialize (DeviceTree.bss ⟨fun _ => 0x1000, 0⟩) = .ok rootOnly := rfl
  constructor
  · intro new
    have ran : dtAddChild stale (some 253) (some (ascii "b")) =
        .ok (some 255, okChild (dtAddChild stale (some 253) (some (ascii "b")))) := rfl
    have childless := (new _ _ started stale stale_run (some 253) (some (ascii "b")) 255 _ ran).1
    revert childless
    decide +kernel
  · intro sizes
    obtain ⟨length, m', reported, walked⟩ := sizes _ _ started stale stale_run 0 ⟨fun _ => 0, []⟩
    have total : stale.totalSize = length := congrArg Flattened.length (Except.ok.inj reported)
    have reached : ∃ m', stale.flattenNodes stale.walkLimit stale.rootNode 0 ⟨fun _ => 0, []⟩ = .ok (48, m') := ⟨_, rfl⟩
    obtain ⟨_, ran⟩ := reached
    have same : 48 = 0 + length := congrArg Prod.fst (Except.ok.inj (ran.symm.trans walked))
    rw [← total] at same
    revert same
    decide +kernel

end GenericBooter
