import GenericBooter.DeviceTree.Stores
import GenericBooter.Machine.Emission

namespace GenericBooter

open ByteMemory Linked

theorem card_le_limit {all : Multiset Nat} {limit : Nat} (nodup : all.Nodup)
    (bound : ∀ entry ∈ all, entry < limit) : all.card ≤ limit := by
  have inside : all ≤ Multiset.range limit :=
    (Multiset.le_iff_subset nodup).mpr fun entry member => Multiset.mem_range.mpr (bound entry member)
  exact (Multiset.card_le_card inside).trans_eq (Multiset.card_range limit)

section Bounds

variable {dt : DeviceTree} {tree : Forest} {entries slots : Multiset Nat}

theorem Layout.nodes_le (layout : Layout dt tree entries slots) : tree.numNodes ≤ dt.nodeEnd := by
  rw [← card_cells, ← Multiset.card_map Prod.fst]
  exact card_le_limit layout.liveNodes_nodup fun node member =>
    layout.entriesBound node (layout.nodePool.live_mem member)

theorem Layout.properties_le (layout : Layout dt tree entries slots) {label : NodeLabel}
    (member : label ∈ cells tree) : label.2.length ≤ dt.propertyEnd := by
  obtain ⟨rest, split⟩ := Multiset.exists_cons_of_mem member
  have nodup := layout.liveProperties_nodup
  rw [liveProperties, split, Multiset.cons_bind, Multiset.nodup_add] at nodup
  have count := card_le_limit nodup.1 fun prop inside =>
    layout.slotsBound prop (layout.propertyPool.live_mem (propertyCells_live member (Multiset.mem_coe.mp inside)))
  rwa [propertyCells, Multiset.coe_card, List.length_map] at count

end Bounds

theorem totalSize_forest (tree : Forest) :
    (treeInfo tree).numNodes * DeviceTreeNode.size +
        (treeInfo tree).numProperties * DeviceTreeNodeProperty.size +
        (treeInfo tree).totalPropertySize =
      BitVec.ofNat 32 (flattenedLength (flatTree tree)) := by
  have one : BitVec.ofNat 32 1 = (1 : Word) := rfl
  have props (label : NodeLabel) :
      BitVec.ofNat 32 label.2.length * DeviceTreeNodeProperty.size +
          (label.2.map fun entry => roundToLong entry.2.length).sum =
        BitVec.ofNat 32 ((label.2.map fun entry => entry.2.flat).map FlatProperty.room).sum := by
    induction label.2 with
    | nil => rfl
    | cons entry later ih =>
      simp only [List.length_cons, List.map_cons, List.sum_cons, FlatProperty.room,
        Attribute.flat_length, BitVec.ofNat_add, roundToLong_eq, one] at ih ⊢
      rw [← ih, show DeviceTreeNodeProperty.size = BitVec.ofNat 32 36 from rfl]
      ring
  have parts (label : NodeLabel) (left right : Forest) :
      attributes (.node label left right) =
        (label.2.map Prod.snd : List Attribute) + (attributes left + attributes right) := by
    rw [attributes, cells, Multiset.cons_bind, Multiset.add_bind]
    rfl
  induction tree with
  | nil => rfl
  | node label left right ihl ihr =>
    have here := props label
    simp only [treeInfo, flatTree] at ihl ihr
    simp only [treeInfo, flatTree, parts, cells, Multiset.card_cons, Multiset.card_add, Multiset.map_add,
      Multiset.sum_add, Multiset.coe_card, List.length_map, Multiset.map_coe, Multiset.sum_coe,
      List.map_map, BinaryTree.map, flattenedLength, BitVec.ofNat_add, one] at here ⊢
    rw [← ihl, ← ihr, ← here, show DeviceTreeNode.size = BitVec.ofNat 32 8 from rfl]
    simp only [Function.comp_def]
    ring

theorem totalSize_eq {dt : DeviceTree} {tree : Forest} (held : Represents dt tree) :
    dt.totalSize = BitVec.ofNat 32 (flattenedLength (flatTree tree)) := by
  obtain ⟨entries, slots, layout⟩ := held
  rw [DeviceTree.totalSize, layout.info]
  exact totalSize_forest tree

section Unroll

variable (dt : DeviceTree)

theorem propertiesFrom_spec {head : Option Nat} {props : List (Nat × Attribute)}
    (chain : Chain (fun prop => (dt.properties prop).next) head (props.map Prod.fst))
    (contents : ∀ entry ∈ props, (dt.properties entry.1).held = entry.2) (fuel : Nat)
    (enough : props.length < fuel) : dt.propertiesFrom fuel head = .ok (props.map fun entry => entry.2.flat) := by
  induction props generalizing head fuel with
  | nil =>
    cases fuel with
    | zero => omega
    | succ fuel =>
      rw [show head = none from chain]
      rfl
  | cons entry props ih =>
    cases fuel with
    | zero => omega
    | succ fuel =>
      have later := ih chain.2 (fun other member => contents other (List.mem_cons_of_mem _ member)) fuel
        (by rw [List.length_cons] at enough; omega)
      rw [show head = some entry.1 from chain.1, DeviceTree.propertiesFrom, later,
        contents entry List.mem_cons_self]
      rfl

theorem unrollChildren_spec {forest : Forest} {head : Option Nat}
    (shape : Shape (fun node => (dt.nodes node).children) (fun node => (dt.nodes node).next) head
      (forest.map Prod.fst))
    (labelled : ∀ label ∈ cells forest, Labelled dt label ∧ label.2.length ≤ dt.propertyEnd) (fuel : Nat)
    (enough : 2 * forest.numNodes < fuel) : dt.unrollChildren fuel head = .ok (flatTree forest) := by
  induction forest generalizing head fuel with
  | nil =>
    cases fuel with
    | zero => omega
    | succ fuel =>
      rw [show head = none from shape]
      rfl
  | node label children younger ihc ihy =>
    simp only [BinaryTree.numNodes] at enough
    obtain ⟨fuel, rfl⟩ : ∃ rest, fuel = rest + 2 := ⟨fuel - 2, by omega⟩
    obtain ⟨head_eq, shapeChildren, shapeYounger⟩ := shape
    simp only [cells, Multiset.mem_cons, Multiset.mem_add] at labelled
    obtain ⟨own, short⟩ := labelled label (Or.inl rfl)
    have props := propertiesFrom_spec dt own.chain own.contents (dt.propertyEnd + 1) (by omega)
    have below := ihc shapeChildren (fun other member => labelled other (Or.inr (Or.inl member))) fuel (by omega)
    have beside := ihy shapeYounger (fun other member => labelled other (Or.inr (Or.inr member))) (fuel + 1) (by omega)
    rw [head_eq, DeviceTree.unrollChildren, DeviceTree.unrollNodes, props, below, ok_bind, ok_bind, ok_bind, beside]
    rfl

end Unroll

theorem Represents.unrolls {dt : DeviceTree} {tree : Forest} (held : Represents dt tree) :
    dt.unrollNodes dt.walkLimit dt.rootNode = .ok (flatTree tree) := by
  have root := represents_root held
  obtain ⟨entries, slots, layout⟩ := id held
  cases tree with
  | nil =>
    rw [root]
    rfl
  | node label children younger =>
    have short := layout.nodes_le
    have walked := unrollChildren_spec dt layout.shape
      (fun other member => ⟨layout.labelled other member, layout.properties_le member⟩) (dt.walkLimit + 1)
      (by rw [DeviceTree.walkLimit]; omega)
    have alone : younger = .nil := by
      obtain ⟨_, _, lone⟩ := held.lone_root (by rintro ⟨⟩)
      injection lone
    have last : (dt.nodes label.1).next = none := by
      have beside := layout.shape.2.2
      rw [alone] at beside
      exact beside
    rw [root, rootOf, DeviceTree.unrollChildren, last, bind_eq_ok] at walked
    obtain ⟨top, nodes, rest⟩ := walked
    have same : forestAppend top .nil = flatTree (.node label children younger) := Except.ok.inj rest
    rw [forestAppend_nil] at same
    rw [root, rootOf, nodes, same]

section Emission

variable (base : Word)

theorem property_emitted (m : Machine) (offset : Nat) {prop : FlatProperty} (fits : prop.name.chars.length ≤ 31) :
    Emitted m (m.putAll base (propertyPuts offset prop)) (base + BitVec.ofNat 32 offset) (encodeProperty prop) := by
  have field : (prop.name.bytes ++ List.replicate (32 - prop.name.bytes.length) (0 : Byte)).length = 32 := by
    rw [List.length_append, List.length_replicate, CString.bytes_length]
    omega
  have name := (Emitted.stored m (base + BitVec.ofNat 32 offset) prop.name.bytes).append
    (Emitted.zeros _ _ (32 - prop.name.bytes.length))
  refine name.append ?_
  rw [field, add_ofNat]
  refine (Emitted.word _ _ _).append ?_
  rw [wordBytes_length, add_ofNat]
  exact (Emitted.stored _ _ _).append (Emitted.zeros _ _ _)

theorem properties_emitted (m : Machine) (offset : Nat) {props : List FlatProperty}
    (fits : ∀ prop ∈ props, prop.name.chars.length ≤ 31) :
    Emitted m (m.putAll base (propertiesPuts offset props)) (base + BitVec.ofNat 32 offset)
      (props.flatMap encodeProperty) := by
  induction props generalizing m offset with
  | nil => exact Emitted.zeros m _ 0
  | cons prop later ih =>
    have short := fits prop List.mem_cons_self
    have behind := ih (m.putAll base (propertyPuts offset prop)) (offset + prop.room)
      fun other member => fits other (List.mem_cons_of_mem _ member)
    rw [← encodeProperty_length prop short, ← add_ofNat] at behind
    rw [propertiesPuts, ← encodeProperty_length prop short, putAll_append]
    exact (property_emitted base m offset short).append behind

theorem node_emitted {m m₁ m₂ m₃ : Machine} {buffer nProperties nChildren : Word}
    {props below beside : List Byte} (emitProps : Emitted m m₁ (buffer + DeviceTreeNode.size) props)
    (emitBelow : Emitted (m₁.storeWord buffer nProperties) m₂
      (buffer + DeviceTreeNode.size + BitVec.ofNat 32 props.length) below)
    (emitBeside : Emitted (m₂.storeWord (buffer + 4) nChildren) m₃
      (buffer + DeviceTreeNode.size + BitVec.ofNat 32 props.length + BitVec.ofNat 32 below.length) beside) :
    Emitted m m₃ buffer
      (wordBytes nProperties ++ (wordBytes nChildren ++ (props ++ (below ++ beside)))) := by
  have size : DeviceTreeNode.size = BitVec.ofNat 32 8 := rfl
  simp only [size, add_ofNat] at emitProps emitBelow emitBeside
  have skipped : Emitted m m₁ buffer ([] ++ ([0, 0, 0, 0] ++ ([0, 0, 0, 0] ++ props))) :=
    (Emitted.zeros m buffer 8).append emitProps
  have counted : Emitted m (m₁.storeWord buffer nProperties) buffer
      (wordBytes nProperties ++ ([0, 0, 0, 0] ++ props)) :=
    skipped.patch rfl (BitVec.add_zero buffer).symm nProperties
  have reached : (wordBytes nProperties ++ ([0, 0, 0, 0] ++ props)).length = 8 + props.length := by
    simp only [List.length_append, wordBytes_length, List.length_cons, List.length_nil]
    omega
  have inner : Emitted m m₂ buffer (wordBytes nProperties ++ ([0, 0, 0, 0] ++ props) ++ below) :=
    counted.append (by rw [reached]; exact emitBelow)
  rw [List.append_assoc, List.append_assoc] at inner
  have filled := inner.patch rfl (show buffer + 4 = _ from rfl) nChildren
  have outer : Emitted m m₃ buffer
      (wordBytes nProperties ++ (wordBytes nChildren ++ (props ++ below)) ++ beside) := by
    refine filled.append ?_
    simp only [List.length_append, wordBytes_length]
    rw [show 4 + (4 + (props.length + below.length)) = 8 + props.length + below.length by omega]
    exact emitBeside
  simp only [List.append_assoc] at outer
  exact outer

theorem forest_emitted (m : Machine) (offset : Nat) {tree : FlatTree} (names : NamesFit tree) :
    Emitted m (m.putAll base (forestPuts offset tree)) (base + BitVec.ofNat 32 offset) (encodeForest tree) := by
  induction tree generalizing m offset with
  | nil => exact Emitted.zeros m _ 0
  | node props children younger ihc ihy =>
    simp only [NamesFit, cells, Multiset.mem_cons, Multiset.mem_add] at names
    have short := names props (Or.inl rfl)
    have namesBelow : NamesFit children := fun other member => names other (Or.inr (Or.inl member))
    have namesBeside : NamesFit younger := fun other member => names other (Or.inr (Or.inr member))
    have own := properties_emitted base m (offset + 8) short
    have below := ihc ((m.putAll base (propertiesPuts (offset + 8) props)).storeWord (base + BitVec.ofNat 32 offset)
      (BitVec.ofNat 32 props.length)) (offset + 8 + propertiesRoom props) namesBelow
    have beside := ihy ((((m.putAll base (propertiesPuts (offset + 8) props)).storeWord (base + BitVec.ofNat 32 offset)
      (BitVec.ofNat 32 props.length)).putAll base (forestPuts (offset + 8 + propertiesRoom props) children)).storeWord
        (base + BitVec.ofNat 32 (offset + 4)) (BitVec.ofNat 32 (siblings children)))
      (offset + 8 + propertiesRoom props + flattenedLength children) namesBeside
    rw [propertiesRoom, ← flatMap_encodeProperty_length short] at below beside
    rw [← encodeForest_length namesBelow] at beside
    simp only [← add_ofNat] at own below beside
    have emitted := node_emitted own below beside
    rw [encodeForest, forestPuts, propertiesRoom, ← flatMap_encodeProperty_length short, ← encodeForest_length namesBelow,
      putAll_append, putAll_cons, putAll_append, putAll_cons, Put.run, Put.run, ← add_ofNat base offset 4]
    exact emitted

end Emission

theorem flattenNodes_root {dt : DeviceTree} {tree : Forest} (held : Represents dt tree) (buffer : Word)
    (m : Machine) : ∃ m', dt.flattenNodes dt.walkLimit dt.rootNode buffer m =
        .ok (buffer + BitVec.ofNat 32 (flattenedLength (flatTree tree)), m') ∧
      (NamesFit (flatTree tree) → Emitted m m' buffer (encodeForest (flatTree tree))) := by
  have ran := (dt.flatten_eq buffer dt.walkLimit).1 dt.rootNode 0 m
  simp only [held.unrolls, ok_bind, BitVec.add_zero, Nat.zero_add] at ran
  refine ⟨_, ran, fun names => ?_⟩
  have emitted := forest_emitted buffer m 0 names
  rw [BitVec.add_zero] at emitted
  exact emitted

/-- The whole call: exactly the encoding is put at the buffer, and nothing else is stored. -/
theorem dtFlattenDeviceTree_spec {dt : DeviceTree} {tree : Forest} (held : Represents dt tree)
    (nonempty : tree ≠ .nil) (names : NamesFit (flatTree tree))
    (room : flattenedLength (flatTree tree) < 2 ^ 32) (buf : Word) (m : Machine) :
    ∃ buf' dt' m', dtFlattenDeviceTree dt (some buf) m =
        .ok ⟨some buf', BitVec.ofNat 32 (flattenedLength (flatTree tree)), dt', m'⟩ ∧
      Represents dt' tree ∧ (buf ≠ 0 → buf' = buf ∧ dt' = dt) ∧
      m'.memory = write m.memory buf' (encodeForest (flatTree tree)) ∧
      ∃ made, Machine.Steps m m' made ∧ ∀ store ∈ made, ∀ address, store.Touches address →
        Covers buf' (flattenedLength (flatTree tree)) address := by
  have size := totalSize_eq held
  have length := encodeForest_length names
  have sizeNat : dt.totalSize.toNat = flattenedLength (flatTree tree) := by
    rw [size, BitVec.toNat_ofNat, Nat.mod_eq_of_lt room]
  have nonzero : dt.totalSize ≠ 0 := by
    intro zero
    rw [zero] at sizeNat
    cases tree with
    | nil => exact nonempty rfl
    | node label left right =>
      change 0 = 8 + _ + _ + _ at sizeNat
      omega
  obtain ⟨buf', dt', chosen, held', given, malloc, same⟩ : ∃ buf' dt', (if buf = 0 then
      (dt.malloc.call.1, { dt with malloc := dt.malloc.call.2 }) else (buf, dt)) = (buf', dt') ∧
      Represents dt' tree ∧ (buf ≠ 0 → buf' = buf ∧ dt' = dt) ∧
      dt'.rootNode = dt.rootNode ∧ dt'.totalSize = dt.totalSize := by
    by_cases zero : buf = 0
    · rw [if_pos zero]
      exact ⟨_, _, rfl, held.with_malloc _, fun given => absurd zero given, rfl, rfl⟩
    · rw [if_neg zero]
      exact ⟨_, _, rfl, held, fun _ => ⟨rfl, rfl⟩, rfl, rfl⟩
  obtain ⟨m', ran, emitted⟩ := flattenNodes_root held' buf' (m.bzero buf' dt'.totalSize)
  obtain ⟨⟨made, steps, inside⟩, written⟩ := emitted names
  refine ⟨buf', dt', m', ?_, held', given, ?_, ?_⟩
  · rw [dtFlattenDeviceTree, if_neg nonzero, chosen]
    simp only [ran, ok_bind]
    rw [same, size]
  · have cleared : (m.bzero buf' dt'.totalSize).memory =
        fill m.memory buf' (encodeForest (flatTree tree)).length 0 := by
      rw [length, ← sizeNat, same]
      rfl
    rw [written (by omega), cleared, write_fill _ _ _ _ (by omega)]
    intro i bound
    rw [cleared]
    exact if_pos ((covers_add _ _ _ (by omega)).mpr bound)
  · refine ⟨_, (Machine.bzero_steps m buf' dt'.totalSize).trans steps, fun store member address touched => ?_⟩
    rcases List.mem_append.mp member with member | member
    · rw [← length]
      exact inside store member address touched
    · rw [List.mem_singleton.mp member, same] at touched
      rw [← sizeNat]
      exact touched

end GenericBooter
