import GenericBooter.DeviceTree.Layout

namespace GenericBooter

open Linked

structure Appended (dt dt' : DeviceTree) (label : NodeLabel) (prop : Nat) (held : Attribute) : Prop where
  rootNode : dt'.rootNode = dt.rootNode
  freeNodes : dt'.freeNodes = dt.freeNodes
  allocedNodes : dt'.allocedNodes = dt.allocedNodes
  allocedProperties : dt'.allocedProperties = dt.allocedProperties
  nodeBlocks : dt'.nodeBlocks = dt.nodeBlocks
  propertyBlocks : dt'.propertyBlocks = dt.propertyBlocks
  malloc : dt'.malloc = dt.malloc
  otherNodes : ∀ node ≠ label.1, dt'.nodes node = dt.nodes node
  children : (dt'.nodes label.1).children = (dt.nodes label.1).children
  next : (dt'.nodes label.1).next = (dt.nodes label.1).next
  first : (dt'.nodes label.1).properties = some ((dt.nodes label.1).properties.getD prop)
  lastProp : (dt'.nodes label.1).lastProp = some prop
  fresh : dt'.properties prop = ⟨held.name, held.length, held.value, none⟩
  last : ∀ q, (label.2.map Prod.fst).getLast? = some q →
    dt'.properties q = { dt.properties q with next := some prop }
  others : ∀ q, q ≠ prop → (label.2.map Prod.fst).getLast? ≠ some q → dt'.properties q = dt.properties q
  freeProperties : dt'.freeProperties = (dt.properties prop).next
  info : dt'.info = { dt.info with
    numProperties := dt.info.numProperties + 1
    totalPropertySize := dt.info.totalPropertySize + roundToLong held.length }

structure PropertiesOnly (dt dt' : DeviceTree) : Prop where
  rootNode : dt'.rootNode = dt.rootNode
  nodes : dt'.nodes = dt.nodes
  freeNodes : dt'.freeNodes = dt.freeNodes
  info : dt'.info = dt.info

structure NodesOnly (dt dt' : DeviceTree) : Prop where
  rootNode : dt'.rootNode = dt.rootNode
  freeProperties : dt'.freeProperties = dt.freeProperties
  info : dt'.info = dt.info

structure KeepsOthers (dt dt' : DeviceTree) (node : Nat) : Prop where
  rootNode : dt'.rootNode = dt.rootNode
  freeNodes : dt'.freeNodes = dt.freeNodes
  others : ∀ other ≠ node, dt'.nodes other = dt.nodes other

theorem readyProperty_only (dt : DeviceTree) : PropertiesOnly dt dt.readyProperty.2 := by
  unfold DeviceTree.readyProperty
  split
  · exact ⟨rfl, rfl, rfl, rfl⟩
  · dsimp only
    split
    · exact ⟨rfl, rfl, rfl, rfl⟩
    · exact ⟨rfl, rfl, rfl, rfl⟩

theorem readyNode_only (dt : DeviceTree) : NodesOnly dt dt.readyNode.2 := by
  unfold DeviceTree.readyNode
  split
  · exact ⟨rfl, rfl, rfl⟩
  · dsimp only
    split
    · exact ⟨rfl, rfl, rfl⟩
    · exact ⟨rfl, rfl, rfl⟩

theorem linkProperty_keeps {dt dt' : DeviceTree} {node prop : Nat} (ran : dt.linkProperty node prop = .ok dt') :
    KeepsOthers dt dt' node := by
  cases first : (dt.nodes node).properties with
  | none =>
    simp only [DeviceTree.linkProperty, first, pure_bind] at ran
    obtain rfl := Except.ok.inj ran
    refine ⟨rfl, rfl, fun other distinct => ?_⟩
    simp only [DeviceTree.setProperty, DeviceTree.setNode, Function.update_of_ne distinct]
  | some head =>
    cases last : (dt.nodes node).lastProp with
    | none =>
      simp only [DeviceTree.linkProperty, first, last] at ran
      cases ran
    | some prop' =>
      simp only [DeviceTree.linkProperty, first, last, pure_bind] at ran
      obtain rfl := Except.ok.inj ran
      refine ⟨rfl, rfl, fun other distinct => ?_⟩
      simp only [DeviceTree.setProperty, DeviceTree.setNode, Function.update_of_ne distinct]

theorem dtAddProperty_keeps {dt dt' : DeviceTree} {node : Nat} {name : CString} {length : Word} {value : Value}
    {result : Option Nat} (ran : dtAddProperty dt node name length value = .ok (result, dt')) :
    KeepsOthers dt dt' node := by
  have only := readyProperty_only dt
  rw [dtAddProperty] at ran
  rcases taken : dt.readyProperty with ⟨_ | prop, ready⟩
  · rw [taken] at ran only
    obtain ⟨_, rfl⟩ := Prod.mk.inj (Except.ok.inj ran)
    exact ⟨only.rootNode, only.freeNodes, fun other _ => congrFun only.nodes other⟩
  · rw [taken] at ran only
    obtain ⟨linked, link, ran⟩ := bind_eq_ok.mp ran
    obtain ⟨_, rfl⟩ := Prod.mk.inj (Except.ok.inj ran)
    have kept := linkProperty_keeps link
    exact ⟨kept.rootNode.trans only.rootNode, kept.freeNodes.trans only.freeNodes, fun other distinct =>
      (kept.others other distinct).trans (congrFun only.nodes other)⟩

theorem chain_head {next : Nat → Option Nat} {head : Option Nat} {props : List Nat}
    (chain : Chain next head props) : head = props.head? := by
  cases props with
  | nil => exact chain
  | cons q rest => exact chain.1

theorem dtAddProperty_ready {dt ready : DeviceTree} {label : NodeLabel} {prop : Nat} (name : CString)
    (length : Word) (value : Value) (taken : dt.readyProperty = (some prop, ready))
    (labelled : Labelled ready label) (fresh : prop ∉ label.2.map Prod.fst) :
    ∃ dt', dtAddProperty dt label.1 name length value = .ok (some prop, dt') ∧
      Appended ready dt' label prop ⟨name, length, value⟩ := by
  have head := chain_head labelled.chain
  unfold dtAddProperty
  rw [taken]
  rcases ends : (label.2.map Prod.fst).getLast? with _ | last
  · have empty : label.2.map Prod.fst = [] := List.getLast?_eq_none_iff.mp ends
    rw [empty] at head
    refine ⟨_, by simp only [DeviceTree.linkProperty, DeviceTree.fillProperty, DeviceTree.setProperty, head,
      List.head?_nil, pure_bind]; rfl, ?_⟩
    constructor <;> simp +contextual [DeviceTree.setNode, head, ends, Function.update_of_ne]
  · have head' : (ready.nodes label.1).properties ≠ none := by
      rw [head]
      exact fun none => by simp_all
    obtain ⟨first, first_eq⟩ := Option.ne_none_iff_exists'.mp head'
    have last_eq := labelled.last last ends
    have other : last ≠ prop := fun equal => fresh (equal ▸ List.mem_of_getLast? ends)
    refine ⟨_, by simp only [DeviceTree.linkProperty, DeviceTree.fillProperty, DeviceTree.setProperty, first_eq,
      last_eq, pure_bind]; rfl, ?_⟩
    constructor <;> simp +contextual [DeviceTree.setNode, first_eq, ends,
      Function.update_of_ne, other, Ne.symm other, eq_comm]

def appendEntry (entry : Nat × Attribute) (label : NodeLabel) : NodeLabel :=
  (label.1, label.2 ++ [entry])

theorem other_label {tree : Forest} {label other : NodeLabel} {rest : Multiset NodeLabel}
    (nodup : (liveNodes tree).Nodup) (split : cells tree = label ::ₘ rest) (member : other ∈ rest) :
    other.1 ≠ label.1 := by
  rw [liveNodes, split, Multiset.map_cons, Multiset.nodup_cons] at nodup
  exact fun equal => nodup.1 (equal ▸ Multiset.mem_map_of_mem Prod.fst member)

theorem other_property {tree : Forest} {label other : NodeLabel} {rest : Multiset NodeLabel} {prop : Nat}
    (nodup : (liveProperties tree).Nodup) (split : cells tree = label ::ₘ rest) (member : other ∈ rest)
    (inside : prop ∈ label.2.map Prod.fst) : prop ∉ other.2.map Prod.fst := by
  rw [liveProperties, split, Multiset.cons_bind, Multiset.nodup_add] at nodup
  exact fun shared => Multiset.disjoint_left.mp nodup.2.2 (Multiset.mem_coe.mpr inside)
    (Multiset.mem_bind.mpr ⟨other, member, Multiset.mem_coe.mpr shared⟩)

theorem treeInfo_append {tree tree' : Forest} {label : NodeLabel} {rest : Multiset NodeLabel}
    {entry : Nat × Attribute} (split : cells tree = label ::ₘ rest)
    (split' : cells tree' = appendEntry entry label ::ₘ rest) :
    treeInfo tree' = { treeInfo tree with
      numProperties := (treeInfo tree).numProperties + 1
      totalPropertySize := (treeInfo tree).totalPropertySize + roundToLong entry.2.length } := by
  have more : attributes tree' = entry.2 ::ₘ attributes tree := by
    rw [attributes, attributes, split, split', Multiset.cons_bind, Multiset.cons_bind, appendEntry,
      List.map_append, ← Multiset.coe_add, add_comm (Multiset.ofList _) (Multiset.ofList _), add_assoc]
    exact Multiset.singleton_add _ _
  simp only [treeInfo, more, split, split', Multiset.card_cons, Multiset.map_cons, Multiset.sum_cons,
    BitVec.ofNat_add, add_comm]
  rfl

theorem liveProperties_append {tree : Forest} {label : NodeLabel} (entry : Nat × Attribute)
    (nodup : (liveNodes tree).Nodup) (member : label ∈ cells tree) :
    liveProperties (graft Prod.fst label.1 (appendEntry entry) .nil tree) = entry.1 ::ₘ liveProperties tree := by
  obtain ⟨rest, split, split'⟩ := graft_cells (appendEntry entry) .nil nodup member rfl
  rw [cells, zero_add] at split'
  rw [liveProperties, liveProperties, split, split', Multiset.cons_bind, Multiset.cons_bind,
    propertyCells, propertyCells, appendEntry, List.map_append, ← Multiset.coe_add,
    add_comm (Multiset.ofList _) (Multiset.ofList _), add_assoc]
  exact Multiset.singleton_add _ _

theorem Appended.layout {dt dt' : DeviceTree} {tree : Forest} {entries slots : Multiset Nat}
    {label : NodeLabel} {prop : Nat} {held : Attribute} (appended : Appended dt dt' label prop held)
    (layout : Layout dt tree entries slots) (member : label ∈ cells tree)
    (head : dt.freeProperties = some prop) :
    Layout dt' (graft Prod.fst label.1 (appendEntry (prop, held)) .nil tree) entries slots := by
  have nodes := layout.liveNodes_nodup
  have props := layout.liveProperties_nodup
  have pool := layout.propertyPool
  rw [head] at pool
  have unused : prop ∉ liveProperties tree := pool.head_notMem layout.slotsOnce
  obtain ⟨rest, split, split'⟩ := graft_cells (appendEntry (prop, held)) .nil nodes member rfl
  rw [cells, zero_add] at split'
  have live : liveNodes (graft Prod.fst label.1 (appendEntry (prop, held)) .nil tree) = liveNodes tree := by
    rw [liveNodes, liveNodes, split, split', Multiset.map_cons, Multiset.map_cons, appendEntry]
  have liveMore := liveProperties_append (prop, held) nodes member
  have links : ∀ node, (dt'.nodes node).children = (dt.nodes node).children ∧
      (dt'.nodes node).next = (dt.nodes node).next := by
    intro node
    by_cases here : node = label.1
    · exact here ▸ ⟨appended.children, appended.next⟩
    · rw [appended.otherNodes node here]
      exact ⟨rfl, rfl⟩
  have lastLive : ∀ q, (label.2.map Prod.fst).getLast? = some q → q ∈ label.2.map Prod.fst :=
    fun q ends => List.mem_of_getLast? ends
  refine {
    shape := ?_
    lone := by rw [siblings_graft]; exact layout.lone
    nodePool := ?_
    propertyPool := ?_
    nodeRecords := ?_
    propertyRecords := ?_
    entriesOnce := layout.entriesOnce
    slotsOnce := layout.slotsOnce
    entriesBound := ?_
    slotsBound := ?_
    labelled := ?_
    clean := ?_
    info := ?_ }
  · rw [map_key_graft (f := appendEntry (prop, held)) tree fun _ => rfl, BinaryTree.map, graft_id, appended.rootNode]
    exact shape_congr (fun node _ => links node) layout.shape
  · rw [live, appended.freeNodes]
    exact layout.nodePool.congr layout.entriesOnce fun node _ _ => (links node).2
  · rw [liveMore, appended.freeProperties]
    refine pool.take.congr layout.slotsOnce fun q _ outside => ?_
    rw [Multiset.mem_cons, not_or] at outside
    rw [appended.others q outside.1 fun ends =>
      outside.2 (propertyCells_live member (lastLive q ends))]
  · rw [appended.allocedNodes, DeviceTree.nodeEnd, appended.nodeBlocks]
    exact layout.nodeRecords.congr fun node _ => (links node).2
  · rw [appended.allocedProperties, DeviceTree.propertyEnd, appended.propertyBlocks]
    refine layout.propertyRecords.congr fun q outside => ?_
    rw [appended.others q (fun equal => outside (equal ▸ pool.head_mem)) fun ends =>
      outside (layout.propertyPool.live_mem (propertyCells_live member (lastLive q ends)))]
  · rw [DeviceTree.nodeEnd, appended.nodeBlocks]
    exact layout.entriesBound
  · rw [DeviceTree.propertyEnd, appended.propertyBlocks]
    exact layout.slotsBound
  · intro other inside
    rw [split'] at inside
    rcases Multiset.mem_cons.mp inside with rfl | inside
    · have own := layout.labelled label member
      have fresh : prop ∉ label.2.map Prod.fst := fun old => unused (propertyCells_live member old)
      have contents : ∀ entry ∈ label.2, (dt'.properties entry.1).held = entry.2 := by
        intro entry old
        have cell := List.mem_map_of_mem (f := Prod.fst) old
        rw [← own.contents entry old]
        by_cases ends : (label.2.map Prod.fst).getLast? = some entry.1
        · rw [appended.last entry.1 ends]
          rfl
        · rw [appended.others entry.1 (fun equal => fresh (equal ▸ cell)) ends]
      have once : (label.2.map Prod.fst).Nodup := by
        rw [liveProperties, split, Multiset.cons_bind, Multiset.nodup_add] at props
        exact Multiset.coe_nodup.mp props.1
      refine ⟨?_, ?_, ?_⟩
      · change Chain _ (dt'.nodes label.1).properties ((label.2 ++ [(prop, held)]).map Prod.fst)
        rw [appended.first, List.map_append]
        rcases ends : (label.2.map Prod.fst).getLast? with _ | last
        · have empty : label.2.map Prod.fst = [] := List.getLast?_eq_none_iff.mp ends
          have chain := own.chain
          rw [empty] at chain ⊢
          rw [show (dt.nodes label.1).properties = none from chain]
          exact ⟨rfl, congrArg Property.next appended.fresh⟩
        · have some_head : (dt.nodes label.1).properties.getD prop ∈ (dt.nodes label.1).properties := by
            rw [chain_head own.chain]
            cases cells_eq : label.2.map Prod.fst with
            | nil => rw [cells_eq] at ends; cases ends
            | cons q rest => rfl
          rw [← some_head]
          refine chain_concat own.chain once ends ?_ (congrArg Property.next appended.fresh) ?_
          · exact congrArg Property.next (appended.last last ends)
          · intro q old other
            rw [appended.others q (fun equal => fresh (equal ▸ old))]
            rw [ends]
            exact fun equal => other (Option.some.inj equal).symm
      · intro entry old
        rcases List.mem_append.mp old with old | new
        · exact contents entry old
        · rw [List.mem_singleton.mp new, appended.fresh]
          rfl
      · intro q ends
        rw [show (appendEntry (prop, held) label).2.map Prod.fst = label.2.map Prod.fst ++ [prop] from
          List.map_append, List.getLast?_concat] at ends
        exact ends ▸ appended.lastProp
    · have kept := appended.otherNodes other.1 (other_label nodes split inside)
      have old : other ∈ cells tree := split ▸ Multiset.mem_cons_of_mem inside
      refine (layout.labelled other old).congr (by rw [kept]) (by rw [kept]) fun q cell => ?_
      refine appended.others q (fun equal => unused (equal ▸ propertyCells_live old cell)) fun ends => ?_
      exact other_property props split inside (lastLive q ends) cell
  · intro node allocated outside
    rw [live] at outside
    have other : node ≠ label.1 := fun equal => outside (equal ▸ label_live member)
    rw [appended.otherNodes node other]
    exact layout.clean node allocated outside
  · rw [treeInfo_append split split', ← layout.info]
    exact appended.info

/-- What `DT__AddChild` does with the free entry `node` before it looks at the name. -/
structure Attached (dt dt' : DeviceTree) (parent : Option Nat) (node : Nat) : Prop where
  rootNode : dt'.rootNode = if parent = none then some node else dt.rootNode
  freeNodes : dt'.freeNodes = (dt.nodes node).next
  allocedNodes : dt'.allocedNodes = dt.allocedNodes
  allocedProperties : dt'.allocedProperties = dt.allocedProperties
  nodeBlocks : dt'.nodeBlocks = dt.nodeBlocks
  properties : dt'.properties = dt.properties
  propertyBlocks : dt'.propertyBlocks = dt.propertyBlocks
  freeProperties : dt'.freeProperties = dt.freeProperties
  malloc : dt'.malloc = dt.malloc
  first : ∀ other, (dt'.nodes other).properties = (dt.nodes other).properties
  lastProp : ∀ other, (dt'.nodes other).lastProp = (dt.nodes other).lastProp
  beside : (dt'.nodes node).next = parent.bind fun parent => (dt.nodes parent).children
  next : ∀ other ≠ node, (dt'.nodes other).next = (dt.nodes other).next
  below : ∀ other, parent = some other → (dt'.nodes other).children = some node
  children : ∀ other, parent ≠ some other → (dt'.nodes other).children = (dt.nodes other).children
  info : dt'.info = { dt.info with numNodes := dt.info.numNodes + 1 }

def attachNode (dt : DeviceTree) (parent : Option Nat) (node : Nat) : DeviceTree :=
  let dt := { dt with freeNodes := (dt.nodes node).next }.linkNode parent node
  { dt with info := { dt.info with numNodes := dt.info.numNodes + 1 } }

theorem attachNode_root (dt : DeviceTree) (node : Nat) : Attached dt (attachNode dt none node) none node := by
  constructor <;> simp +contextual [attachNode, DeviceTree.linkNode, DeviceTree.setNode,
    Function.update_apply, apply_ite]

theorem attachNode_child (dt : DeviceTree) {p node : Nat} (apart : p ≠ node) :
    Attached dt (attachNode dt (some p) node) (some p) node := by
  have nodes (other : Nat) : (attachNode dt (some p) node).nodes other =
      { dt.nodes other with
        next := if other = node then (dt.nodes p).children else (dt.nodes other).next
        children := if other = p then some node else (dt.nodes other).children } := by
    simp only [attachNode, DeviceTree.linkNode, DeviceTree.setNode, Function.update_apply]
    by_cases isParent : other = p
    · rw [if_pos isParent, isParent, if_neg apart, if_neg apart, if_pos rfl]
    · by_cases isNode : other = node
      · rw [if_neg isParent, if_pos isNode, if_pos isNode, if_neg isParent, isNode]
      · rw [if_neg isParent, if_neg isNode, if_neg isNode, if_neg isParent]
  refine {
    rootNode := rfl, freeNodes := rfl, allocedNodes := rfl, allocedProperties := rfl, nodeBlocks := rfl
    properties := rfl, propertyBlocks := rfl, freeProperties := rfl, malloc := rfl, info := rfl
    first := fun other => by rw [nodes]
    lastProp := fun other => by rw [nodes]
    beside := by rw [nodes]; exact if_pos rfl
    next := fun other distinct => by rw [nodes]; exact if_neg distinct
    below := fun other parent => by rw [nodes]; exact if_pos (Option.some.inj parent).symm
    children := fun other distinct => by
      rw [nodes]
      exact if_neg fun equal => distinct (congrArg some equal.symm) }

theorem dtAddChild_unnamed {dt ready : DeviceTree} {node : Nat} (parent : Option Nat)
    (taken : dt.readyNode = (some node, ready)) :
    dtAddChild dt parent none = .ok (some node, attachNode ready parent node) := by
  rw [dtAddChild, taken]
  rfl

theorem dtAddChild_text {dt ready : DeviceTree} {node : Nat} (parent : Option Nat) (text : CString)
    (taken : dt.readyNode = (some node, ready)) : dtAddChild dt parent (some text) =
      dtAddProperty (attachNode ready parent node) node (ascii "name") (BitVec.ofNat 32 (text.chars.length + 1))
        (bytesValue text.bytes) >>= fun added => .ok (some node, added.2) := by
  rw [dtAddChild, taken]
  rfl

def hang (parent : Option Nat) (young tree : Forest) : Forest :=
  match parent with
  | none => young
  | some parent => graft Prod.fst parent id young tree

/-- `DT__AddChild` is given a node of the tree, or no parent when there is no tree yet. -/
def Place (parent : Option Nat) (tree : Forest) : Prop :=
  match parent with
  | none => tree = .nil
  | some parent => parent ∈ liveNodes tree

def leaf (node : Nat) : Forest := .node (node, []) .nil .nil

theorem cells_leaf (node : Nat) : cells (leaf node) = {(node, [])} := rfl

theorem cells_hang_leaf {parent : Option Nat} {tree : Forest} (node : Nat)
    (nodup : (liveNodes tree).Nodup) (place : Place parent tree) :
    cells (hang parent (leaf node) tree) = (node, []) ::ₘ cells tree := by
  cases parent with
  | none =>
    rw [show tree = .nil from place]
    rfl
  | some parent =>
    obtain ⟨label, member, found⟩ := Multiset.mem_map.mp place
    obtain ⟨rest, split, split'⟩ := graft_cells id (leaf node) nodup member found
    rw [hang, split', split, cells_leaf, id_eq, Multiset.singleton_add, Multiset.cons_swap]

theorem Attached.layout {dt dt' : DeviceTree} {tree : Forest} {entries slots : Multiset Nat}
    {parent : Option Nat} {node : Nat} (attached : Attached dt dt' parent node)
    (layout : Layout dt tree entries slots) (head : dt.freeNodes = some node) (place : Place parent tree) :
    node ∉ liveNodes tree ∧ Layout dt' (hang parent (leaf node) tree) entries slots := by
  have nodes := layout.liveNodes_nodup
  have pool := layout.nodePool
  rw [head] at pool
  have unused : node ∉ liveNodes tree := pool.head_notMem layout.entriesOnce
  have blank := layout.clean node pool.head_mem unused
  have split := cells_hang_leaf node nodes place
  have live : liveNodes (hang parent (leaf node) tree) = node ::ₘ liveNodes tree := by
    rw [liveNodes, split, Multiset.map_cons, liveNodes]
  have props : liveProperties (hang parent (leaf node) tree) = liveProperties tree := by
    rw [liveProperties, split, Multiset.cons_bind, liveProperties]
    exact zero_add _
  have held : attributes (hang parent (leaf node) tree) = attributes tree := by
    rw [attributes, split, Multiset.cons_bind, attributes]
    exact zero_add _
  have parentLive : ∀ p, parent = some p → p ≠ node := by
    rintro p rfl rfl
    exact unused place
  have childless : (dt'.nodes node).children = none := by
    rw [attached.children node fun equal => parentLive node equal rfl]
    exact blank.2
  refine ⟨unused, {
    shape := ?_
    lone := ?_
    nodePool := ?_
    propertyPool := by rw [props, attached.freeProperties, attached.properties]; exact layout.propertyPool
    nodeRecords := ?_
    propertyRecords := ?_
    entriesOnce := layout.entriesOnce
    slotsOnce := layout.slotsOnce
    entriesBound := by rw [DeviceTree.nodeEnd, attached.nodeBlocks]; exact layout.entriesBound
    slotsBound := by rw [DeviceTree.propertyEnd, attached.propertyBlocks]; exact layout.slotsBound
    labelled := ?_
    clean := ?_
    info := ?_ }⟩
  · cases parent with
    | none => exact ⟨attached.rootNode, childless, attached.beside⟩
    | some p =>
      rw [hang, map_key_graft (f := id) tree fun _ => rfl, attached.rootNode, if_neg (Option.some_ne_none p)]
      refine shape_graft layout.shape ?_ (attached.below p rfl) attached.beside childless ?_
      · rw [cells_map]
        exact nodes
      · intro other inside
        rw [cells_map] at inside
        refine ⟨attached.next other fun equal => unused (equal ▸ inside), fun distinct => ?_⟩
        exact attached.children other fun equal => distinct (Option.some.inj equal).symm
  · cases parent with
    | none => exact Nat.le_refl 1
    | some p =>
      rw [hang, siblings_graft]
      exact layout.lone
  · rw [live, attached.freeNodes]
    refine pool.take.congr layout.entriesOnce fun other _ outside => ?_
    rw [Multiset.mem_cons, not_or] at outside
    exact attached.next other outside.1
  · rw [attached.allocedNodes, DeviceTree.nodeEnd, attached.nodeBlocks]
    exact layout.nodeRecords.congr fun other outside => attached.next other fun equal =>
      outside (equal ▸ pool.head_mem)
  · rw [attached.allocedProperties, DeviceTree.propertyEnd, attached.propertyBlocks, attached.properties]
    exact layout.propertyRecords
  · intro label inside
    rw [split] at inside
    rcases Multiset.mem_cons.mp inside with rfl | inside
    · have empty : (dt'.nodes node).properties = none := (attached.first node).trans blank.1
      exact ⟨empty, fun _ none => absurd none List.not_mem_nil, fun _ none => absurd none (by simp)⟩
    · refine (layout.labelled label inside).congr (attached.first _) (attached.lastProp _) fun prop _ => ?_
      rw [attached.properties]
  · intro other allocated outside
    rw [live, Multiset.mem_cons, not_or] at outside
    have blank' := layout.clean other allocated outside.2
    refine ⟨(attached.first other).trans blank'.1, ?_⟩
    cases parent with
    | none => exact (attached.children other (Option.some_ne_none other).symm).trans blank'.2
    | some p =>
      have distinct : p ≠ other := fun equal => outside.2 (equal ▸ place)
      exact (attached.children other fun equal => distinct (Option.some.inj equal)).trans blank'.2
  · rw [attached.info, layout.info, treeInfo, treeInfo, held, split, Multiset.card_cons, BitVec.ofNat_add]
    rfl

def withProperty (node : Nat) (held : Attribute) (result : Option Nat) (tree : Forest) : Forest :=
  match result with
  | none => tree
  | some prop => graft Prod.fst node (appendEntry (prop, held)) .nil tree

theorem dtAddProperty_spec {dt : DeviceTree} {tree : Forest} {node : Nat} (name : CString) (length : Word)
    (value : Value) (held : Represents dt tree) (member : node ∈ liveNodes tree) :
    ∃ result dt', dtAddProperty dt node name length value = .ok (result, dt') ∧
      Represents dt' (withProperty node ⟨name, length, value⟩ result tree) ∧
      (dt.malloc.Succeeds → dt'.malloc.Succeeds ∧ result ≠ none) := by
  obtain ⟨entries, slots, layout⟩ := held
  obtain ⟨slots', layout', head, succeeds⟩ := readyProperty_spec layout
  obtain ⟨label, inside, rfl⟩ := Multiset.mem_map.mp member
  rcases taken : dt.readyProperty with ⟨_ | prop, ready⟩
  · rw [taken] at layout' succeeds
    refine ⟨none, ready, by rw [dtAddProperty, taken], ⟨_, _, layout'⟩, fun good => ?_⟩
    exact absurd rfl (succeeds good).2
  · rw [taken] at layout' head succeeds
    have first := head prop rfl
    have pool := layout'.propertyPool
    rw [first] at pool
    have fresh : prop ∉ label.2.map Prod.fst := fun old =>
      pool.head_notMem layout'.slotsOnce (propertyCells_live inside old)
    obtain ⟨dt', ran, appended⟩ :=
      dtAddProperty_ready name length value taken (layout'.labelled label inside) fresh
    refine ⟨some prop, dt', ran, ⟨_, _, appended.layout layout' inside first⟩, fun good => ?_⟩
    exact ⟨appended.malloc ▸ (succeeds good).1, Option.some_ne_none prop⟩

def nameAttribute (name : CString) : Attribute :=
  ⟨ascii "name", BitVec.ofNat 32 (name.chars.length + 1), bytesValue name.bytes⟩

def NameProperties (name : Option CString) (props : List (Nat × Attribute)) : Prop :=
  props = [] ∨ ∃ prop text, name = some text ∧ props = [(prop, nameAttribute text)]

theorem attachNode_spec {dt ready : DeviceTree} {tree : Forest} {parent : Option Nat} {node : Nat}
    (held : Represents dt tree) (place : Place parent tree) (taken : dt.readyNode = (some node, ready)) :
    node ∉ liveNodes tree ∧ Attached ready (attachNode ready parent node) parent node ∧
      Represents (attachNode ready parent node) (hang parent (leaf node) tree) := by
  obtain ⟨entries, slots, layout⟩ := held
  obtain ⟨entries', layout', head, _⟩ := readyNode_spec layout
  rw [taken] at layout' head
  have first := head node rfl
  have pool := layout'.nodePool
  rw [first] at pool
  have unused := pool.head_notMem layout'.entriesOnce
  have attached : Attached ready (attachNode ready parent node) parent node := by
    cases parent with
    | none => exact attachNode_root ready node
    | some p => exact attachNode_child ready fun equal => unused (equal ▸ place)
  obtain ⟨_, hung⟩ := attached.layout layout' first place
  exact ⟨unused, attached, _, _, hung⟩

theorem leaf_live {tree : Forest} {parent : Option Nat} (node : Nat) (nodup : (liveNodes tree).Nodup)
    (place : Place parent tree) : node ∈ liveNodes (hang parent (leaf node) tree) := by
  rw [liveNodes, cells_hang_leaf node nodup place, Multiset.map_cons]
  exact Multiset.mem_cons_self _ _

theorem withProperty_leaf {tree : Forest} {parent : Option Nat} {node prop : Nat} (held : Attribute)
    (place : Place parent tree) (unused : node ∉ liveNodes tree) :
    withProperty node held (some prop) (hang parent (leaf node) tree) =
      hang parent (.node (node, [(prop, held)]) .nil .nil) tree := by
  cases parent with
  | none =>
    rw [withProperty, hang, leaf, graft, if_pos rfl]
    rfl
  | some p =>
    have absent : ∀ a ∈ cells tree, a.1 ≠ node := fun a member equal =>
      unused (equal ▸ label_live member)
    have key : Prod.fst (node, ([] : List (Nat × Attribute))) = node := rfl
    rw [withProperty, hang, leaf, graft_fresh key absent]
    · rfl
    · exact fun a equal same => unused (same ▸ equal ▸ place)
    · exact fun a member => absurd member (Multiset.notMem_zero a)

theorem dtAddChild_spec {dt : DeviceTree} {tree : Forest} (parent : Option Nat) (name : Option CString)
    (held : Represents dt tree) (place : Place parent tree) :
    ∃ result dt', dtAddChild dt parent name = .ok (result, dt') ∧
      (result = none → Represents dt' tree) ∧
      (∀ child, result = some child → child ∉ liveNodes tree ∧
        ∃ props, NameProperties name props ∧
          Represents dt' (hang parent (.node (child, props) .nil .nil) tree) ∧
          (dt.malloc.Succeeds → name ≠ none → props ≠ [])) ∧
      (dt.malloc.Succeeds → dt'.malloc.Succeeds ∧ result ≠ none) := by
  obtain ⟨entries, slots, layout⟩ := id held
  obtain ⟨entries', layout', _, succeeds⟩ := readyNode_spec layout
  rcases taken : dt.readyNode with ⟨_ | node, ready⟩
  · rw [taken] at layout' succeeds
    refine ⟨none, ready, by rw [dtAddChild, taken], fun _ => ⟨_, _, layout'⟩, ?_, ?_⟩
    · exact fun _ equal => absurd equal (Option.some_ne_none _).symm
    · exact fun good => absurd rfl (succeeds good).2
  · rw [taken] at succeeds
    obtain ⟨unused, attached, hung⟩ := attachNode_spec held place taken
    have good' : dt.malloc.Succeeds → (attachNode ready parent node).malloc.Succeeds :=
      fun good => attached.malloc ▸ (succeeds good).1
    cases name with
    | none =>
      refine ⟨some node, attachNode ready parent node, dtAddChild_unnamed parent taken,
        fun equal => absurd equal (Option.some_ne_none _), ?_, fun good => ⟨good' good, Option.some_ne_none _⟩⟩
      rintro child ⟨⟩
      exact ⟨unused, [], Or.inl rfl, hung, fun _ given => absurd rfl given⟩
    | some text =>
      obtain ⟨result, dt', ran, held, succeeds'⟩ := dtAddProperty_spec (ascii "name")
        (BitVec.ofNat 32 (text.chars.length + 1)) (bytesValue text.bytes) hung
        (leaf_live node layout.liveNodes_nodup place)
      refine ⟨some node, dt', ?_, fun equal => absurd equal (Option.some_ne_none _), ?_,
        fun good => ⟨(succeeds' (good' good)).1, Option.some_ne_none _⟩⟩
      · rw [dtAddChild_text parent text taken, ran, ok_bind]
      · rintro child ⟨⟩
        refine ⟨unused, ?_⟩
        cases result with
        | none => exact ⟨[], Or.inl rfl, held, fun good _ => absurd rfl (succeeds' (good' good)).2⟩
        | some prop =>
          rw [withProperty_leaf _ place unused] at held
          exact ⟨[(prop, nameAttribute text)], Or.inr ⟨prop, text, rfl, rfl⟩, held,
            fun _ _ => List.cons_ne_nil _ _⟩

theorem dtInitialize_forgets (dt : DeviceTree) :
    dtInitialize dt = dtInitialize { dt with rootNode := none } := by
  simp only [dtInitialize, dtAddChild, DeviceTree.readyNode]
  by_cases refused : dt.malloc.call.1 = 0
  · simp only [refused, if_true]
    rfl
  · simp only [refused, if_false]
    rfl

theorem cleared_represents (dt : DeviceTree) : Represents { dt with
    rootNode := none
    freeNodes := none
    allocedNodes := none
    freeProperties := none
    allocedProperties := none
    info := ⟨0, 0, 0⟩ } .nil :=
  ⟨0, 0, {
    shape := rfl
    lone := Nat.zero_le 1
    nodePool := Pool.empty_iff.mpr rfl
    propertyPool := Pool.empty_iff.mpr rfl
    nodeRecords := Aside.empty Multiset.nodup_zero
    propertyRecords := Aside.empty Multiset.nodup_zero
    entriesOnce := Multiset.nodup_zero
    slotsOnce := Multiset.nodup_zero
    entriesBound := fun _ member => absurd member (Multiset.notMem_zero _)
    slotsBound := fun _ member => absurd member (Multiset.notMem_zero _)
    labelled := fun _ member => absurd member (Multiset.notMem_zero _)
    clean := fun _ member => absurd member (Multiset.notMem_zero _)
    info := rfl }⟩

theorem dtInitialize_spec (dt : DeviceTree) : ∃ dt', dtInitialize dt = .ok dt' ∧
    (Represents dt' .nil ∨ ∃ root props, NameProperties (some (ascii "/")) props ∧
      Represents dt' (.node (root, props) .nil .nil)) ∧
    (dt.malloc.Succeeds → dt'.malloc.Succeeds ∧ ∃ root prop,
      Represents dt' (.node (root, [(prop, nameAttribute (ascii "/"))]) .nil .nil)) := by
  have cleared := cleared_represents dt
  obtain ⟨result, dt', ran, failed, returned, succeeds⟩ :=
    dtAddChild_spec none (some (ascii "/")) cleared rfl
  have initialized : dtInitialize dt = .ok { dt' with rootNode := result } := by
    rw [dtInitialize_forgets, dtInitialize]
    simp only [ran, ok_bind]
  have same {tree : Forest} (held : Represents dt' tree) (root : rootOf tree = result) :
      { dt' with rootNode := result } = dt' := by
    rw [← root, ← represents_root held]
  cases result with
  | none =>
    have held := failed rfl
    rw [same held rfl] at initialized
    exact ⟨dt', initialized, Or.inl held, fun good => absurd rfl (succeeds good).2⟩
  | some root =>
    obtain ⟨_, props, named, held, full⟩ := returned root rfl
    rw [same held rfl] at initialized
    refine ⟨dt', initialized, Or.inr ⟨root, props, named, held⟩, fun good => ⟨(succeeds good).1, root, ?_⟩⟩
    rcases named with empty | ⟨prop, text, given, rfl⟩
    · exact absurd empty (full good (Option.some_ne_none _))
    · exact ⟨prop, Option.some.inj given ▸ held⟩

end GenericBooter
