import GenericBooter.DeviceTree.Heap
import GenericBooter.Library.FreeList
import Mathlib.Data.BitVec

namespace GenericBooter

open Linked

structure Attribute where
  name : CString
  length : Word
  value : Value

def Property.held (cell : Property) : Attribute := ⟨cell.name, cell.length, cell.value⟩

abbrev NodeLabel := Nat × List (Nat × Attribute)

/-- Children are the left subtree, younger siblings come first on the right spine. -/
abbrev Forest := BinaryTree NodeLabel

def propertyCells (label : NodeLabel) : Multiset Nat := (label.2.map Prod.fst : List Nat)

def liveNodes (tree : Forest) : Multiset Nat := (cells tree).map Prod.fst

def liveProperties (tree : Forest) : Multiset Nat := (cells tree).bind propertyCells

def attributes (tree : Forest) : Multiset Attribute :=
  (cells tree).bind fun label => (label.2.map Prod.snd : List Attribute)

def treeInfo (tree : Forest) : DtInfo where
  numNodes := BitVec.ofNat 32 (cells tree).card
  numProperties := BitVec.ofNat 32 (attributes tree).card
  totalPropertySize := ((attributes tree).map fun held => roundToLong held.length).sum

structure Labelled (dt : DeviceTree) (label : NodeLabel) : Prop where
  chain : Chain (fun prop => (dt.properties prop).next) (dt.nodes label.1).properties
    (label.2.map Prod.fst)
  contents : ∀ entry ∈ label.2, (dt.properties entry.1).held = entry.2
  last : ∀ prop, (label.2.map Prod.fst).getLast? = some prop → (dt.nodes label.1).lastProp = some prop

/-- The heap of device_tree.c holds `tree`; `entries` and `slots` are the node and property entries
    allocated since `DT__Initialize`. -/
structure Layout (dt : DeviceTree) (tree : Forest) (entries slots : Multiset Nat) : Prop where
  shape : Shape (fun node => (dt.nodes node).children) (fun node => (dt.nodes node).next)
    dt.rootNode (tree.map Prod.fst)
  lone : siblings tree ≤ 1
  nodePool : Pool (fun node => (dt.nodes node).next) dt.freeNodes (liveNodes tree) entries
  propertyPool : Pool (fun prop => (dt.properties prop).next) dt.freeProperties
    (liveProperties tree) slots
  nodeRecords : Aside (fun node => (dt.nodes node).next) dt.allocedNodes entries (· < dt.nodeEnd)
  propertyRecords : Aside (fun prop => (dt.properties prop).next) dt.allocedProperties slots
    (· < dt.propertyEnd)
  entriesOnce : entries.Nodup
  slotsOnce : slots.Nodup
  entriesBound : ∀ node ∈ entries, node < dt.nodeEnd
  slotsBound : ∀ prop ∈ slots, prop < dt.propertyEnd
  labelled : ∀ label ∈ cells tree, Labelled dt label
  clean : ∀ node ∈ entries, node ∉ liveNodes tree →
    (dt.nodes node).properties = none ∧ (dt.nodes node).children = none
  info : dt.info = treeInfo tree

def Represents (dt : DeviceTree) (tree : Forest) : Prop := ∃ entries slots, Layout dt tree entries slots

theorem propertyCells_live {tree : Forest} {label : NodeLabel} (member : label ∈ cells tree) {prop : Nat}
    (inside : prop ∈ label.2.map Prod.fst) : prop ∈ liveProperties tree :=
  Multiset.mem_bind.mpr ⟨label, member, Multiset.mem_coe.mpr inside⟩

theorem label_live {tree : Forest} {label : NodeLabel} (member : label ∈ cells tree) :
    label.1 ∈ liveNodes tree := Multiset.mem_map_of_mem Prod.fst member

theorem Labelled.congr {dt dt' : DeviceTree} {label : NodeLabel} (labelled : Labelled dt label)
    (properties : (dt'.nodes label.1).properties = (dt.nodes label.1).properties)
    (last : (dt'.nodes label.1).lastProp = (dt.nodes label.1).lastProp)
    (same : ∀ prop ∈ label.2.map Prod.fst, dt'.properties prop = dt.properties prop) :
    Labelled dt' label where
  chain := by
    rw [properties]
    exact chain_congr (fun prop member => by rw [same prop member]) labelled.chain
  contents entry member := by
    rw [same entry.1 (List.mem_map_of_mem member)]
    exact labelled.contents entry member
  last prop ends := last.trans (labelled.last prop ends)

theorem Labelled.unique {dt : DeviceTree} {label label' : NodeLabel} (own : Labelled dt label)
    (own' : Labelled dt label') (same : label.1 = label'.1) : label = label' := by
  have pairs (held : NodeLabel) (contents : ∀ entry ∈ held.2, (dt.properties entry.1).held = entry.2) :
      held.2 = (held.2.map Prod.fst).map fun prop => (prop, (dt.properties prop).held) := by
    rw [List.map_map]
    apply (List.map_id held.2).symm.trans
    apply List.map_congr_left
    intro entry member
    exact Prod.ext rfl (contents entry member).symm
  have chain := own'.chain
  rw [← same] at chain
  apply Prod.ext same
  rw [pairs label own.contents, pairs label' own'.contents, chain_unique own.chain chain]

theorem Layout.liveNodes_nodup {dt : DeviceTree} {tree : Forest} {entries slots : Multiset Nat}
    (layout : Layout dt tree entries slots) : (liveNodes tree).Nodup :=
  layout.nodePool.live_nodup layout.entriesOnce

theorem Layout.liveProperties_nodup {dt : DeviceTree} {tree : Forest} {entries slots : Multiset Nat}
    (layout : Layout dt tree entries slots) : (liveProperties tree).Nodup :=
  layout.propertyPool.live_nodup layout.slotsOnce

def rootOf : Forest → Option Nat
  | .nil => none
  | .node label _ _ => some label.1

theorem represents_root {dt : DeviceTree} {tree : Forest} (held : Represents dt tree) :
    dt.rootNode = rootOf tree := by
  obtain ⟨entries, slots, layout⟩ := held
  have shape := layout.shape
  cases tree with
  | nil => exact shape
  | node label left right => exact shape.1

theorem Represents.lone_root {dt : DeviceTree} {tree : Forest} (held : Represents dt tree) (nonempty : tree ≠ .nil) :
    ∃ label kids, tree = .node label kids .nil := by
  obtain ⟨_, _, layout⟩ := held
  have lone := layout.lone
  cases tree with
  | nil => exact absurd rfl nonempty
  | node label kids younger =>
    cases younger with
    | nil => exact ⟨label, kids, rfl⟩
    | node other left right =>
      simp only [siblings] at lone
      omega

theorem Represents.unique {dt : DeviceTree} {tree tree' : Forest} (held : Represents dt tree)
    (held' : Represents dt tree') : tree = tree' := by
  obtain ⟨_, _, layout⟩ := held
  obtain ⟨_, _, layout'⟩ := held'
  apply map_injective
  · intro label member label' member' same
    exact (layout.labelled label member).unique (layout'.labelled label' member') same
  · exact shape_unique layout.shape layout'.shape

theorem Represents.with_malloc {dt : DeviceTree} {tree : Forest} (held : Represents dt tree)
    (malloc : Malloc) : Represents { dt with malloc := malloc } tree := by
  obtain ⟨entries, slots, layout⟩ := held
  refine ⟨entries, slots, { layout with labelled := fun label member => ?_ }⟩
  exact (layout.labelled label member).congr rfl rfl fun _ _ => rfl

def blockEntries (base : Nat) : List Nat :=
  ((List.range (kEntriesPerBlock - 1)).map (base + 1 + ·)).reverse

theorem mem_blockEntries {base entry : Nat} :
    entry ∈ blockEntries base ↔ base < entry ∧ entry < base + kEntriesPerBlock := by
  simp only [blockEntries, List.mem_reverse, List.mem_map, List.mem_range, kEntriesPerBlock]
  constructor
  · rintro ⟨i, bound, rfl⟩
    omega
  · exact fun inside => ⟨entry - (base + 1), by omega, by omega⟩

theorem blockEntries_nodup (base : Nat) : (blockEntries base).Nodup :=
  List.nodup_reverse.mpr (List.nodup_range.map fun _ _ equal => Nat.add_left_cancel equal)

theorem grown_nodup {all : Multiset Nat} {limit : Nat} (nodup : all.Nodup)
    (bound : ∀ entry ∈ all, entry < limit) : (all + (blockEntries limit : Multiset Nat)).Nodup := by
  refine Multiset.nodup_add.mpr ⟨nodup, Multiset.coe_nodup.mpr (blockEntries_nodup limit), ?_⟩
  refine Multiset.disjoint_left.mpr fun member fresh => ?_
  have inside := mem_blockEntries.mp (Multiset.mem_coe.mp fresh)
  have old := bound _ member
  omega

theorem block_recorded {next next' : Nat → Option Nat} {alloced : Option Nat} {all : Multiset Nat} {base : Nat}
    (aside : Aside next alloced all (· < base)) (bound : ∀ entry ∈ all, entry < base)
    (linked : ∀ entry, base ≤ entry → entry < base + kEntriesPerBlock →
      next' entry = DeviceTree.freshNext base alloced entry)
    (same : ∀ entry < base, next' entry = next entry) :
    Aside next' (some base) (all + (blockEntries base : Multiset Nat)) (· < base + kEntriesPerBlock) := by
  have inside : base < base + kEntriesPerBlock := Nat.lt_add_of_pos_right (by decide)
  refine aside.grow ?_ bound ?_ ?_ same (fun entry old => lt_trans old inside) inside
  · rw [linked base (Nat.le_refl base) inside, DeviceTree.freshNext, if_pos rfl]
  · refine List.nodup_cons.mpr ⟨fun member => ?_, blockEntries_nodup base⟩
    exact Nat.lt_irrefl base (mem_blockEntries.mp member).1
  · intro entry member
    rcases List.mem_cons.mp member with rfl | member
    · exact Nat.lt_irrefl entry
    · exact Nat.not_lt.mpr (Nat.le_of_lt (mem_blockEntries.mp member).1)

theorem block_chain {next : Nat → Option Nat} {alloced : Option Nat} {base : Nat}
    (linked : ∀ entry, base ≤ entry → entry < base + kEntriesPerBlock →
      next entry = DeviceTree.freshNext base alloced entry) :
    Chain next (some (base + (kEntriesPerBlock - 1))) (blockEntries base) := by
  refine chain_down next base (kEntriesPerBlock - 1) fun i bound => ?_
  have bound' : i < kEntriesPerBlock - 1 := bound
  rw [linked (base + 1 + i) (by omega) (by omega), DeviceTree.freshNext, if_neg (by omega)]
  by_cases first : i = 0
  · rw [if_pos first, if_pos (by omega)]
  · rw [if_neg first, if_neg (by omega)]
    congr 1
    omega

theorem freshNodes_linked (dt : DeviceTree) (node : Nat) (above : dt.nodeEnd ≤ node)
    (below : node < dt.nodeEnd + kEntriesPerBlock) :
    (if dt.nodeEnd ≤ node ∧ node < dt.nodeEnd + kEntriesPerBlock
      then DeviceTree.freshNodes dt.nodeEnd dt.allocedNodes node else dt.nodes node).next =
      DeviceTree.freshNext dt.nodeEnd dt.allocedNodes node :=
  congrArg Node.next (if_pos ⟨above, below⟩)

section Ready

variable {dt : DeviceTree} {tree : Forest} {entries slots : Multiset Nat}

theorem readyProperty_spec (layout : Layout dt tree entries slots) :
    ∃ slots', Layout dt.readyProperty.2 tree entries slots' ∧
      (∀ prop, dt.readyProperty.1 = some prop → dt.readyProperty.2.freeProperties = some prop) ∧
      (dt.malloc.Succeeds → dt.readyProperty.2.malloc.Succeeds ∧ dt.readyProperty.1 ≠ none) := by
  unfold DeviceTree.readyProperty
  cases free : dt.freeProperties with
  | some prop =>
    exact ⟨slots, layout, fun _ equal => free.trans equal, fun succeeds => ⟨succeeds, Option.some_ne_none prop⟩⟩
  | none =>
    have pool := layout.propertyPool
    rw [free] at pool
    by_cases refused : dt.malloc.call.1 = 0
    · simp only [refused, if_true]
      refine ⟨slots, { layout with propertyPool := pool, labelled := ?_ },
        fun _ equal => absurd equal (Option.some_ne_none _).symm, ?_⟩
      · exact fun label member => (layout.labelled label member).congr rfl rfl fun _ _ => rfl
      · exact fun succeeds => absurd refused succeeds.answer
    · simp only [refused, if_false]
      have limit : kEntriesPerBlock * (dt.propertyBlocks + 1) = dt.propertyEnd + kEntriesPerBlock :=
        Nat.mul_succ _ _
      have linked : ∀ prop, dt.propertyEnd ≤ prop → prop < dt.propertyEnd + kEntriesPerBlock →
          (if dt.propertyEnd ≤ prop ∧ prop < dt.propertyEnd + kEntriesPerBlock
            then DeviceTree.freshProperties dt.propertyEnd dt.allocedProperties prop else dt.properties prop).next =
            DeviceTree.freshNext dt.propertyEnd dt.allocedProperties prop :=
        fun prop above below => congrArg Property.next (if_pos ⟨above, below⟩)
      have old : ∀ prop ∈ slots, ¬ (dt.propertyEnd ≤ prop ∧ prop < dt.propertyEnd + kEntriesPerBlock) :=
        fun prop member inside => by have := layout.slotsBound prop member; omega
      refine ⟨slots + (blockEntries dt.propertyEnd : Multiset Nat), { layout with
        propertyPool := ?_
        propertyRecords := ?_
        slotsOnce := grown_nodup layout.slotsOnce layout.slotsBound
        slotsBound := ?_
        labelled := ?_ }, fun _ equal => equal, fun succeeds => ⟨succeeds.later, Option.some_ne_none _⟩⟩
      · exact pool.grow (block_chain linked)
      · simp only [DeviceTree.propertyEnd, limit]
        refine block_recorded layout.propertyRecords layout.slotsBound linked fun prop below => ?_
        exact congrArg Property.next (if_neg fun inside => by omega)
      · intro prop member
        refine lt_of_lt_of_eq ?_ limit.symm
        rcases Multiset.mem_add.mp member with member | member
        · exact Nat.lt_add_right _ (layout.slotsBound prop member)
        · exact (mem_blockEntries.mp (Multiset.mem_coe.mp member)).2
      · refine fun label member => (layout.labelled label member).congr rfl rfl fun prop inside => ?_
        exact if_neg (old prop (layout.propertyPool.live_mem (propertyCells_live member inside)))

theorem readyNode_spec (layout : Layout dt tree entries slots) :
    ∃ entries', Layout dt.readyNode.2 tree entries' slots ∧
      (∀ node, dt.readyNode.1 = some node → dt.readyNode.2.freeNodes = some node) ∧
      (dt.malloc.Succeeds → dt.readyNode.2.malloc.Succeeds ∧ dt.readyNode.1 ≠ none) := by
  unfold DeviceTree.readyNode
  cases free : dt.freeNodes with
  | some node =>
    exact ⟨entries, layout, fun _ equal => free.trans equal, fun succeeds => ⟨succeeds, Option.some_ne_none node⟩⟩
  | none =>
    have pool := layout.nodePool
    rw [free] at pool
    by_cases refused : dt.malloc.call.1 = 0
    · simp only [refused, if_true]
      refine ⟨entries, { layout with nodePool := pool, labelled := ?_ },
        fun _ equal => absurd equal (Option.some_ne_none _).symm, ?_⟩
      · exact fun label member => (layout.labelled label member).congr rfl rfl fun _ _ => rfl
      · exact fun succeeds => absurd refused succeeds.answer
    · simp only [refused, if_false]
      have limit : kEntriesPerBlock * (dt.nodeBlocks + 1) = dt.nodeEnd + kEntriesPerBlock :=
        Nat.mul_succ _ _
      have linked := freshNodes_linked dt
      have old : ∀ node ∈ entries, ¬ (dt.nodeEnd ≤ node ∧ node < dt.nodeEnd + kEntriesPerBlock) :=
        fun node member inside => by have := layout.entriesBound node member; omega
      have live : ∀ node ∈ cells (tree.map Prod.fst), node ∈ entries := fun node member => by
        rw [cells_map] at member
        exact layout.nodePool.live_mem member
      refine ⟨entries + (blockEntries dt.nodeEnd : Multiset Nat), { layout with
        shape := ?_
        nodePool := ?_
        nodeRecords := ?_
        entriesOnce := grown_nodup layout.entriesOnce layout.entriesBound
        entriesBound := ?_
        labelled := ?_
        clean := ?_ }, fun _ equal => equal, fun succeeds => ⟨succeeds.later, Option.some_ne_none _⟩⟩
      · refine shape_congr (fun node member => ?_) layout.shape
        simp only [if_neg (old node (live node member)), and_self]
      · exact pool.grow (block_chain linked)
      · simp only [DeviceTree.nodeEnd, limit]
        refine block_recorded layout.nodeRecords layout.entriesBound linked fun node below => ?_
        exact congrArg Node.next (if_neg fun inside => by omega)
      · intro node member
        refine lt_of_lt_of_eq ?_ limit.symm
        rcases Multiset.mem_add.mp member with member | member
        · exact Nat.lt_add_right _ (layout.entriesBound node member)
        · exact (mem_blockEntries.mp (Multiset.mem_coe.mp member)).2
      · intro label member
        have kept := old label.1 (layout.nodePool.live_mem (label_live member))
        refine (layout.labelled label member).congr ?_ ?_ fun _ _ => rfl
        · simp only [if_neg kept]
        · simp only [if_neg kept]
      · intro node member unused
        rcases Multiset.mem_add.mp member with member | member
        · simp only [if_neg (old node member)]
          exact layout.clean node member unused
        · have inside := mem_blockEntries.mp (Multiset.mem_coe.mp member)
          simp only [if_pos (And.intro (Nat.le_of_lt inside.1) inside.2)]
          exact ⟨rfl, if_neg (Nat.ne_of_gt inside.1)⟩

end Ready

end GenericBooter
