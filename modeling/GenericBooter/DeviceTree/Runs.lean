import GenericBooter.DeviceTree.Lookup
import Mathlib.Logic.Relation

namespace GenericBooter

open ByteMemory Linked Reading

def DeviceTree.bss (malloc : Malloc) : DeviceTree where
  info := ⟨0, 0, 0⟩
  rootNode := none
  nodes _ := ⟨none, none, none, none⟩
  nodeBlocks := 0
  freeNodes := none
  allocedNodes := none
  properties _ := ⟨ascii "", 0, fun _ => 0, none⟩
  propertyBlocks := 0
  freeProperties := none
  allocedProperties := none
  malloc := malloc

def InTree (dt : DeviceTree) (node : Nat) : Prop :=
  ∃ nodes, Shape (fun node => (dt.nodes node).children) (fun node => (dt.nodes node).next)
    dt.rootNode nodes ∧ node ∈ cells nodes

theorem inTree_iff {dt : DeviceTree} {tree : Forest} (held : Represents dt tree) (node : Nat) :
    InTree dt node ↔ node ∈ liveNodes tree := by
  obtain ⟨entries, slots, layout⟩ := held
  rw [liveNodes, ← cells_map]
  constructor
  · rintro ⟨nodes, shape, member⟩
    exact shape_unique layout.shape shape ▸ member
  · exact fun member => ⟨_, layout.shape, member⟩

inductive DtStep : DeviceTree → DeviceTree → Prop where
  | start {dt dt'} (ran : dtInitialize dt = .ok dt') : DtStep dt dt'
  | addChild {dt dt' parent name result} (inside : InTree dt parent)
      (ran : dtAddChild dt (some parent) name = .ok (result, dt')) : DtStep dt dt'
  | addProperty {dt dt' node name length value result} (inside : InTree dt node)
      (ran : dtAddProperty dt node name length value = .ok (result, dt')) : DtStep dt dt'
  | findNode {dt dt' path createIfMissing result}
      (ran : dtFindNode dt path createIfMissing = .ok (result, dt')) : DtStep dt dt'

/-- The states any sequence of calls can lead to, for what `malloc` answers along the way. -/
def DtReachable (malloc : Malloc) : DeviceTree → Prop :=
  Relation.ReflTransGen DtStep (DeviceTree.bss malloc)

theorem DtStep.represents {dt dt' : DeviceTree} (step : DtStep dt dt')
    (held : ∃ tree, Represents dt tree) : ∃ tree, Represents dt' tree := by
  obtain ⟨tree, held⟩ := held
  cases step with
  | start ran =>
    obtain ⟨_, ran', outcome, _⟩ := dtInitialize_spec dt
    obtain rfl := Except.ok.inj (ran.symm.trans ran')
    rcases outcome with held | ⟨_, _, _, held⟩
    · exact ⟨_, held⟩
    · exact ⟨_, held⟩
  | @addChild parent name result inside ran =>
    obtain ⟨_, _, ran', failed, returned, _⟩ :=
      dtAddChild_spec (some parent) name held ((inTree_iff held parent).mp inside)
    obtain ⟨rfl, rfl⟩ := Prod.mk.inj (Except.ok.inj (ran.symm.trans ran'))
    cases result with
    | none => exact ⟨_, failed rfl⟩
    | some child =>
      obtain ⟨_, _, _, held, _⟩ := returned child rfl
      exact ⟨_, held⟩
  | @addProperty node name length value _ inside ran =>
    obtain ⟨_, _, ran', held', _⟩ := dtAddProperty_spec name length value held ((inTree_iff held node).mp inside)
    obtain ⟨rfl, rfl⟩ := Prod.mk.inj (Except.ok.inj (ran.symm.trans ran'))
    exact ⟨_, held'⟩
  | @findNode path createIfMissing _ ran =>
    rcases dtFindNode_spec held path createIfMissing with null | ⟨_, _, _, ran', held', _⟩
    · exact absurd (ran.symm.trans null) (by simp)
    · obtain ⟨rfl, rfl⟩ := Prod.mk.inj (Except.ok.inj (ran.symm.trans ran'))
      exact ⟨_, held'⟩

theorem DtReachable.represents {malloc : Malloc} {dt : DeviceTree} (reachable : DtReachable malloc dt) :
    ∃ tree, Represents dt tree := by
  induction reachable with
  | refl => exact ⟨_, cleared_represents (DeviceTree.bss malloc)⟩
  | tail _ step ih => exact step.represents ih

/-- The sizing call reports exactly what `FlattenNodes` advances over, modulo the word size. -/
theorem sizing_call_exact {malloc : Malloc} {dt : DeviceTree} (reachable : DtReachable malloc dt)
    (buf : Word) (m : Machine) :
    ∃ length m', dtFlattenDeviceTree dt none m = .ok ⟨none, length, dt, m⟩ ∧
      dt.flattenNodes dt.walkLimit dt.rootNode buf m = .ok (buf + length, m') := by
  obtain ⟨tree, held⟩ := reachable.represents
  obtain ⟨m', ran, _⟩ := flattenNodes_root held buf m
  rw [← totalSize_eq held] at ran
  exact ⟨dt.totalSize, m', rfl, ran⟩

def okDt (result : Except Stop DeviceTree) : DeviceTree :=
  match result with
  | .ok dt => dt
  | .error _ => DeviceTree.bss ⟨fun _ => 0, 0⟩

def rootOnly : DeviceTree := okDt (dtInitialize (DeviceTree.bss ⟨fun _ => 0x1000, 0⟩))

def namedBy (dt : DeviceTree) (child : Nat) (name : Option CString) : List (Nat × Attribute) :=
  match name, (dt.nodes child).properties with
  | some text, some prop => [(prop, nameAttribute text)]
  | _, _ => []

/-- `DT__Initialize` and then any sequence of `DT__AddChild` and `DT__AddProperty` calls, each of
    which may also find no memory, with the tree that these calls build. -/
inductive Built : DeviceTree → Forest → Prop where
  | start {dt dt' root} (ran : dtInitialize dt = .ok dt') (rooted : dt'.rootNode = some root) :
      Built dt' (.node (root, namedBy dt' root (some (ascii "/"))) .nil .nil)
  | addChild {dt dt' tree parent name child} (before : Built dt tree) (inside : parent ∈ liveNodes tree)
      (ran : dtAddChild dt (some parent) name = .ok (some child, dt')) :
      Built dt' (hang (some parent) (.node (child, namedBy dt' child name) .nil .nil) tree)
  | addChildFailed {dt dt' tree parent name} (before : Built dt tree) (inside : parent ∈ liveNodes tree)
      (ran : dtAddChild dt (some parent) name = .ok (none, dt')) : Built dt' tree
  | addProperty {dt dt' tree node name length value result} (before : Built dt tree)
      (inside : node ∈ liveNodes tree)
      (ran : dtAddProperty dt node name length value = .ok (result, dt')) :
      Built dt' (withProperty node ⟨name, length, value⟩ result tree)

theorem namedBy_eq {dt : DeviceTree} {tree : Forest} {child : Nat} {name : Option CString}
    {props : List (Nat × Attribute)} (held : Represents dt tree) (member : (child, props) ∈ cells tree)
    (named : NameProperties name props) : namedBy dt child name = props := by
  obtain ⟨entries, slots, layout⟩ := held
  have head := chain_head (layout.labelled _ member).chain
  rcases named with rfl | ⟨prop, text, rfl, rfl⟩
  · have none : (dt.nodes child).properties = none := head
    cases name <;> simp only [namedBy, none]
  · have first : (dt.nodes child).properties = some prop := head
    simp only [namedBy, first]

theorem graft_ne_nil {f : NodeLabel → NodeLabel} {young tree : Forest} (node : Nat) (old : tree ≠ .nil) :
    graft Prod.fst node f young tree ≠ .nil := by
  cases tree with
  | nil => exact absurd rfl old
  | node label left right =>
    rw [graft]
    split <;> simp

theorem mem_hang {parent : Option Nat} {child : Nat} {props : List (Nat × Attribute)} {tree : Forest}
    (nodup : (liveNodes tree).Nodup) (place : Place parent tree) :
    (child, props) ∈ cells (hang parent (.node (child, props) .nil .nil) tree) := by
  cases parent with
  | none => exact Multiset.mem_cons_self _ _
  | some parent =>
    obtain ⟨label, inside, found⟩ := Multiset.mem_map.mp place
    obtain ⟨rest, _, split⟩ := graft_cells id (.node (child, props) .nil .nil) nodup inside found
    rw [hang, split]
    exact Multiset.mem_cons_of_mem (Multiset.mem_add.mpr (Or.inl (Multiset.mem_cons_self _ _)))

theorem Built.represents {dt : DeviceTree} {tree : Forest} (built : Built dt tree) :
    Represents dt tree ∧ tree ≠ .nil := by
  induction built with
  | @start dt dt' root ran rooted =>
    obtain ⟨_, ran', outcome, _⟩ := dtInitialize_spec dt
    obtain rfl := Except.ok.inj (ran.symm.trans ran')
    refine ⟨?_, by simp⟩
    rcases outcome with held | ⟨root', props, named, held⟩
    · cases rooted.symm.trans (represents_root held)
    · obtain rfl : root = root' := Option.some.inj (rooted.symm.trans (represents_root held))
      rw [namedBy_eq held (Multiset.mem_cons_self _ _) named]
      exact held
  | @addChild dt dt' tree parent name child before inside ran ih =>
    obtain ⟨result, _, ran', _, returned, _⟩ := dtAddChild_spec (some parent) name ih.1 inside
    obtain ⟨rfl, rfl⟩ := Prod.mk.inj (Except.ok.inj (ran.symm.trans ran'))
    obtain ⟨_, props, named, held, _⟩ := returned child rfl
    obtain ⟨entries, slots, layout⟩ := ih.1
    rw [namedBy_eq held (mem_hang layout.liveNodes_nodup inside) named]
    exact ⟨held, graft_ne_nil parent ih.2⟩
  | @addChildFailed dt dt' tree parent name before inside ran ih =>
    obtain ⟨result, _, ran', failed, _⟩ := dtAddChild_spec (some parent) name ih.1 inside
    obtain ⟨rfl, rfl⟩ := Prod.mk.inj (Except.ok.inj (ran.symm.trans ran'))
    exact ⟨failed rfl, ih.2⟩
  | @addProperty dt dt' tree node name length value result before inside ran ih =>
    obtain ⟨_, _, ran', held, _⟩ := dtAddProperty_spec name length value ih.1 inside
    obtain ⟨rfl, rfl⟩ := Prod.mk.inj (Except.ok.inj (ran.symm.trans ran'))
    refine ⟨held, ?_⟩
    cases result with
    | none => exact ih.2
    | some prop => exact graft_ne_nil node ih.2

theorem encodeTree_reads {tree : FlatTree} (names : NamesFit tree) (root : siblings tree = 1)
    (room : flattenedLength tree < 2 ^ 32) :
    Reads (readForest (encodeForest tree).length 1) (encodeForest tree) tree := by
  have length := encodeForest_length names
  have count := siblings_le_length tree
  have reads := encodeForest_reads names (by omega) (encodeForest tree).length (by omega)
  rw [root] at reads
  exact reads

theorem Represents.one_root {dt : DeviceTree} {tree : Forest} (held : Represents dt tree)
    (nonempty : tree ≠ .nil) : siblings (flatTree tree) = 1 := by
  obtain ⟨label, kids, rfl⟩ := held.lone_root nonempty
  rfl

/-- What `DT__FlattenDeviceTree` writes is the encoding of the tree, reads back as the tree, with no bytes left over, and
    is the encoding of no other tree. `room` says that the buffer is an object of the address space. -/
theorem flattened_decodes {dt : DeviceTree} {tree : Forest} (built : Built dt tree)
    (names : NamesFit (flatTree tree)) (room : flattenedLength (flatTree tree) < 2 ^ 32) (buf : Word)
    (m : Machine) :
    ∃ buf' done, dtFlattenDeviceTree dt (some buf) m = .ok done ∧ done.buffer = some buf' ∧
      (buf ≠ 0 → buf' = buf) ∧
      read done.machine.memory buf' done.length.toNat = encodeForest (flatTree tree) ∧
      readTree (read done.machine.memory buf' done.length.toNat) = some (flatTree tree, []) ∧
      ∀ other, NamesFit other → siblings other = 1 →
        encodeForest other = read done.machine.memory buf' done.length.toNat → other = flatTree tree := by
  obtain ⟨held, nonempty⟩ := built.represents
  obtain ⟨buf', dt', m', ran, _, given, memory, _⟩ :=
    dtFlattenDeviceTree_spec held nonempty names room buf m
  have length := encodeForest_length names
  have reads := encodeTree_reads names (held.one_root nonempty) room
  have bytes : read m'.memory buf' (BitVec.ofNat 32 (flattenedLength (flatTree tree))).toNat =
      encodeForest (flatTree tree) := by
    rw [BitVec.toNat_ofNat, Nat.mod_eq_of_lt room, memory, ← length]
    exact read_write m.memory buf' _ (by omega)
  refine ⟨buf', _, ran, rfl, fun nonzero => (given nonzero).1, bytes, ?_, ?_⟩
  · rw [bytes, readTree]
    exact reads.complete
  · intro other otherNames otherRoot same
    rw [bytes] at same
    have otherLength := encodeForest_length otherNames
    have otherReads := encodeTree_reads otherNames otherRoot (by rw [← otherLength, same, length]; exact room)
    rw [same] at otherReads
    exact otherReads.unique reads

def okChild (result : Except Stop (Option Nat × DeviceTree)) : DeviceTree :=
  match result with
  | .ok (_, dt) => dt
  | .error _ => DeviceTree.bss ⟨fun _ => 0, 0⟩

def sampleTree : DeviceTree :=
  okChild (dtAddProperty (okChild (dtAddChild rootOnly (some 255) (some (ascii "cpus")))) 254
    (ascii "reg") 3 (bytesValue [1, 2, 3]))

def sampleForest : Forest :=
  .node (255, [(255, nameAttribute (ascii "/"))])
    (.node (254, [(254, nameAttribute (ascii "cpus")), (253, ⟨ascii "reg", 3, bytesValue [1, 2, 3]⟩)])
      .nil .nil) .nil

def withCpus : DeviceTree := okChild (dtAddChild rootOnly (some 255) (some (ascii "cpus")))

def cpusForest : Forest :=
  .node (255, [(255, nameAttribute (ascii "/"))]) (.node (254, [(254, nameAttribute (ascii "cpus"))]) .nil .nil) .nil

theorem rootOnly_started : dtInitialize (DeviceTree.bss ⟨fun _ => 0x1000, 0⟩) = .ok rootOnly := rfl

theorem cpus_hung : dtAddChild rootOnly (some 255) (some (ascii "cpus")) = .ok (some 254, withCpus) := rfl

theorem reg_added : dtAddProperty withCpus 254 (ascii "reg") 3 (bytesValue [1, 2, 3]) = .ok (some 253, sampleTree) := rfl

theorem rootOnly_built : Built rootOnly (.node (255, [(255, nameAttribute (ascii "/"))]) .nil .nil) :=
  Built.start rootOnly_started (show rootOnly.rootNode = some 255 from rfl)

theorem root_inside : 255 ∈ liveNodes (.node (255, [(255, nameAttribute (ascii "/"))]) .nil .nil) := by
  simp [liveNodes, cells]

theorem cpus_inside : 254 ∈ liveNodes cpusForest := by simp [cpusForest, liveNodes, cells]

theorem withCpus_built : Built withCpus cpusForest := Built.addChild rootOnly_built root_inside cpus_hung

theorem sampleTree_built : Built sampleTree sampleForest := Built.addProperty withCpus_built cpus_inside reg_added

theorem sampleTree_reachable : DtReachable ⟨fun _ => 0x1000, 0⟩ sampleTree := by
  have root : InTree rootOnly 255 := (inTree_iff rootOnly_built.represents.1 255).mpr root_inside
  have cpus : InTree withCpus 254 := (inTree_iff withCpus_built.represents.1 254).mpr cpus_inside
  apply Relation.ReflTransGen.tail _ (DtStep.addProperty cpus reg_added)
  apply Relation.ReflTransGen.tail _ (DtStep.addChild root cpus_hung)
  exact Relation.ReflTransGen.single (DtStep.start rootOnly_started)

theorem sampleTree_sizes : ∃ length m', dtFlattenDeviceTree sampleTree none ⟨fun _ => 0, []⟩ =
      .ok ⟨none, length, sampleTree, ⟨fun _ => 0, []⟩⟩ ∧
    sampleTree.flattenNodes sampleTree.walkLimit sampleTree.rootNode 0x100 ⟨fun _ => 0, []⟩ =
      .ok (0x100 + length, m') :=
  sizing_call_exact sampleTree_reachable 0x100 ⟨fun _ => 0, []⟩

theorem sampleForest_names : NamesFit (flatTree sampleForest) := by
  intro props member prop inside
  simp only [sampleForest, flatTree, BinaryTree.map, cells, Multiset.mem_cons, Multiset.mem_add,
    Multiset.notMem_zero, or_false] at member
  rcases member with rfl | rfl
  · revert prop
    decide
  · revert prop
    decide

theorem sampleTree_decodes : ∃ buf' done,
    dtFlattenDeviceTree sampleTree (some 0x100) ⟨fun _ => 0xff, []⟩ = .ok done ∧
      read done.machine.memory buf' done.length.toNat = encodeForest (flatTree sampleForest) ∧
      readTree (read done.machine.memory buf' done.length.toNat) = some (flatTree sampleForest, []) := by
  obtain ⟨buf', done, ran, _, _, bytes, reads, _⟩ := flattened_decodes sampleTree_built sampleForest_names
    (by decide) 0x100 ⟨fun _ => 0xff, []⟩
  exact ⟨buf', done, ran, bytes, reads⟩

end GenericBooter
