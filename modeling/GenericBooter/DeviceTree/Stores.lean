import GenericBooter.DeviceTree.Flatten
import GenericBooter.DeviceTree.Format
import GenericBooter.Library.Patches
import GenericBooter.Machine.Region

namespace GenericBooter

open ByteMemory Linked

inductive Put where
  | bytes (offset : Nat) (data : List Byte)
  | word (offset : Nat) (value : Word)

namespace Put

def patch : Put → Patch Byte
  | .bytes offset data => ⟨offset, data⟩
  | .word offset value => ⟨offset, wordBytes value⟩

def store (base : Word) : Put → Store
  | .bytes offset data => .bytes (base + BitVec.ofNat 32 offset) data.length
  | .word offset _ => .word (base + BitVec.ofNat 32 offset)

def run (base : Word) (m : Machine) : Put → Machine
  | .bytes offset data => m.storeBytes (base + BitVec.ofNat 32 offset) data
  | .word offset value => m.storeWord (base + BitVec.ofNat 32 offset) value

theorem touches_iff (put : Put) (base address : Word) : (put.store base).Touches address ↔
    Covers (base + BitVec.ofNat 32 put.patch.offset) put.patch.data.length address := by
  cases put with
  | bytes => rfl
  | word => rfl

end Put

def Machine.putAll (m : Machine) (base : Word) (puts : List Put) : Machine := puts.foldl (Put.run base) m

section PutAll

variable (m : Machine) (base : Word)

theorem putAll_append (first second : List Put) :
    m.putAll base (first ++ second) = (m.putAll base first).putAll base second := List.foldl_append

theorem putAll_cons (put : Put) (later : List Put) :
    m.putAll base (put :: later) = (put.run base m).putAll base later := rfl

theorem putAll_memory (puts : List Put) :
    (m.putAll base puts).memory = writeAll m.memory base (puts.map Put.patch) := by
  induction puts generalizing m with
  | nil => rfl
  | cons put later ih =>
    rw [putAll_cons, ih, List.map_cons, writeAll_cons]
    cases put with
    | bytes => rfl
    | word => rfl

theorem putAll_steps (puts : List Put) : m.Steps (m.putAll base puts) (puts.map (Put.store base)).reverse := by
  induction puts generalizing m with
  | nil => exact Machine.Steps.refl m
  | cons put later ih =>
    have here : m.Steps (put.run base m) [put.store base] := by
      cases put with
      | bytes => exact Machine.storeBytes_steps _ _ _
      | word => exact Machine.storeWord_steps _ _ _
    rw [List.map_cons, List.reverse_cons]
    exact here.trans (ih (put.run base m))

end PutAll

def propertyPuts (offset : Nat) (prop : FlatProperty) : List Put :=
  [.bytes offset prop.name.bytes, .word (offset + 32) (BitVec.ofNat 32 prop.data.length),
    .bytes (offset + 36) prop.data]

def propertiesRoom (props : List FlatProperty) : Nat := (props.map FlatProperty.room).sum

def propertiesPuts (offset : Nat) : List FlatProperty → List Put
  | [] => []
  | prop :: later => propertyPuts offset prop ++ propertiesPuts (offset + prop.room) later

/-- The two words at the head of a node are stored when what they count is behind it. -/
def forestPuts (offset : Nat) : FlatTree → List Put
  | .nil => []
  | .node props children younger =>
    propertiesPuts (offset + 8) props ++ .word offset (BitVec.ofNat 32 props.length) ::
      (forestPuts (offset + 8 + propertiesRoom props) children ++ .word (offset + 4) (BitVec.ofNat 32 (siblings children)) ::
        forestPuts (offset + 8 + propertiesRoom props + flattenedLength children) younger)

theorem flattenedLength_append (first second : FlatTree) :
    flattenedLength (forestAppend first second) = flattenedLength first + flattenedLength second := by
  induction first with
  | nil => exact (Nat.zero_add _).symm
  | node props children younger _ ih =>
    rw [forestAppend, flattenedLength, flattenedLength, ih]
    omega

theorem forestPuts_append (offset : Nat) (first second : FlatTree) :
    forestPuts offset (forestAppend first second) =
      forestPuts offset first ++ forestPuts (offset + flattenedLength first) second := by
  induction first generalizing offset with
  | nil => rfl
  | node props children younger _ ih =>
    rw [forestAppend, forestPuts, forestPuts, ih, flattenedLength, List.append_assoc, List.cons_append,
      List.append_assoc, List.cons_append]
    simp only [propertiesRoom, Nat.add_assoc]

theorem roundToLong_eq (x : Word) : roundToLong x = BitVec.ofNat 32 (x.toNat + padding x.toNat) := by
  have aligned : roundToLong x = alignUp x (BitVec.ofNat 32 (2 ^ 2)) := by
    rw [alignUp, add_sub_assoc]
    rfl
  have rounded := alignUp_ofNat x.toNat 2 (by decide)
  rw [BitVec.ofNat_toNat, BitVec.setWidth_eq] at rounded
  rw [aligned, rounded, roundUp, if_neg (by decide), padding]
  congr 1
  omega

theorem Attribute.flat_length (held : Attribute) : held.flat.data.length = held.length.toNat :=
  Value.take_length _ _

namespace DeviceTree

def propertiesFrom (dt : DeviceTree) : Nat → Option Nat → Except Stop (List FlatProperty)
  | 0, _ => .error .diverges
  | _ + 1, none => .ok []
  | fuel + 1, some prop => do
    let later ← dt.propertiesFrom fuel (dt.properties prop).next
    .ok ((dt.properties prop).held.flat :: later)

mutual

/-- The tree that the encoder walks through, shared parts once for each time they are met. -/
def unrollNodes (dt : DeviceTree) : Nat → Option Nat → Except Stop FlatTree
  | 0, _ => .error .diverges
  | _ + 1, none => .ok .nil
  | fuel + 1, some node => do
    let props ← dt.propertiesFrom (dt.propertyEnd + 1) (dt.nodes node).properties
    let children ← dt.unrollChildren fuel (dt.nodes node).children
    .ok (.node props children .nil)

def unrollChildren (dt : DeviceTree) : Nat → Option Nat → Except Stop FlatTree
  | 0, _ => .error .diverges
  | _ + 1, none => .ok .nil
  | fuel + 1, some node => do
    let tree ← dt.unrollNodes fuel (some node)
    let younger ← dt.unrollChildren fuel (dt.nodes node).next
    .ok (forestAppend tree younger)

end

variable (dt : DeviceTree) (base : Word)

theorem flattenProperties_eq (fuel : Nat) (head : Option Nat) (count : Word) (offset : Nat) (m : Machine) :
    dt.flattenProperties fuel head count (base + BitVec.ofNat 32 offset) m = (do
      let props ← dt.propertiesFrom fuel head
      .ok (count + BitVec.ofNat 32 props.length, base + BitVec.ofNat 32 (offset + propertiesRoom props),
        m.putAll base (propertiesPuts offset props))) := by
  induction fuel generalizing head count offset m with
  | zero => rfl
  | succ fuel ih =>
    cases head with
    | none =>
      have same : count + BitVec.ofNat 32 ([] : List FlatProperty).length = count := BitVec.add_zero count
      simp only [flattenProperties, propertiesFrom, ok_bind, same]
      rfl
    | some prop =>
      have length := (dt.properties prop).held.flat_length
      have advance : base + BitVec.ofNat 32 offset + DeviceTreeNodeProperty.size + roundToLong (dt.properties prop).length =
          base + BitVec.ofNat 32 (offset + (dt.properties prop).held.flat.room) := by
        rw [roundToLong_eq, FlatProperty.room, length, show DeviceTreeNodeProperty.size = BitVec.ofNat 32 36 from rfl,
          add_ofNat, add_ofNat]
        rfl
      have stored : propertyPuts offset (dt.properties prop).held.flat =
          [.bytes offset (dt.properties prop).name.bytes, .word (offset + 32) (dt.properties prop).length,
            .bytes (offset + 36) ((dt.properties prop).value.take (dt.properties prop).length.toNat)] := by
        rw [propertyPuts, length, BitVec.ofNat_toNat, BitVec.setWidth_eq]
        rfl
      rw [flattenProperties, propertiesFrom, advance, ih]
      rcases dt.propertiesFrom fuel (dt.properties prop).next with stop | later
      · rfl
      · have counted : count + 1 + BitVec.ofNat 32 later.length = count + BitVec.ofNat 32 (later.length + 1) := by
          rw [Nat.add_comm, BitVec.ofNat_add, add_assoc]
          rfl
        simp only [ok_bind, propertiesPuts, stored, putAll_append, List.length_cons, propertiesRoom, List.map_cons,
          List.sum_cons, counted, show DeviceTreeNodeProperty.size = BitVec.ofNat 32 36 from rfl,
          show kPropNameLength = BitVec.ofNat 32 32 from rfl, add_ofNat, Nat.add_assoc]
        rfl

theorem unrollNodes_siblings {fuel node : Nat} {tree : FlatTree} (ran : dt.unrollNodes fuel (some node) = .ok tree) :
    siblings tree = 1 := by
  cases fuel with
  | zero => cases ran
  | succ fuel =>
    simp only [unrollNodes, bind_eq_ok] at ran
    obtain ⟨_, _, _, _, made⟩ := ran
    obtain rfl := Except.ok.inj made
    rfl

theorem flatten_eq (fuel : Nat) :
    (∀ (head : Option Nat) (offset : Nat) (m : Machine),
      dt.flattenNodes fuel head (base + BitVec.ofNat 32 offset) m = (do
        let tree ← dt.unrollNodes fuel head
        .ok (base + BitVec.ofNat 32 (offset + flattenedLength tree), m.putAll base (forestPuts offset tree)))) ∧
    ∀ (head : Option Nat) (count : Word) (offset : Nat) (m : Machine),
      dt.flattenChildren fuel head count (base + BitVec.ofNat 32 offset) m = (do
        let forest ← dt.unrollChildren fuel head
        .ok (count + BitVec.ofNat 32 (siblings forest), base + BitVec.ofNat 32 (offset + flattenedLength forest),
          m.putAll base (forestPuts offset forest))) := by
  induction fuel with
  | zero => exact ⟨fun _ _ _ => rfl, fun _ _ _ _ => rfl⟩
  | succ fuel ih =>
    obtain ⟨nodes, children⟩ := ih
    refine ⟨fun head offset m => ?_, fun head count offset m => ?_⟩
    · cases head with
      | none => rfl
      | some node =>
        have size : DeviceTreeNode.size = BitVec.ofNat 32 8 := rfl
        rw [flattenNodes, unrollNodes, size, add_ofNat, flattenProperties_eq]
        rcases dt.propertiesFrom (dt.propertyEnd + 1) (dt.nodes node).properties with stop | props
        · rfl
        · simp only [ok_bind]
          rw [children]
          rcases dt.unrollChildren fuel (dt.nodes node).children with stop | below
          · rfl
          · have four : base + BitVec.ofNat 32 offset + 4 = base + BitVec.ofNat 32 (offset + 4) := add_ofNat base offset 4
            simp only [ok_bind, zero_add, four, forestPuts, putAll_append, putAll_cons, flattenedLength, propertiesRoom,
              Nat.add_zero, Nat.add_assoc]
            rfl
    · cases head with
      | none =>
        have same : count + BitVec.ofNat 32 (siblings (BinaryTree.nil : FlatTree)) = count := BitVec.add_zero count
        simp only [flattenChildren, unrollChildren, ok_bind, same]
        rfl
      | some node =>
        rw [flattenChildren, unrollChildren, nodes]
        rcases ran : dt.unrollNodes fuel (some node) with stop | tree
        · rfl
        · simp only [ok_bind]
          rw [children]
          rcases dt.unrollChildren fuel (dt.nodes node).next with stop | younger
          · rfl
          · simp only [ok_bind, forestPuts_append, putAll_append, flattenedLength_append, siblings_forestAppend,
              unrollNodes_siblings dt ran, BitVec.ofNat_add, add_assoc]
            rfl

end DeviceTree

theorem dtFlattenDeviceTree_cases {dt : DeviceTree} {buf : Word} {m : Machine} {flattened : Flattened}
    (ran : dtFlattenDeviceTree dt (some buf) m = .ok flattened) :
    dt.totalSize = 0 ∧ flattened.machine = m ∨ dt.totalSize ≠ 0 ∧ ∃ buf' dt' tree,
      (buf ≠ 0 → buf' = buf ∧ dt' = dt) ∧ dt'.rootNode = dt.rootNode ∧
        dt'.unrollNodes dt'.walkLimit dt'.rootNode = .ok tree ∧
        flattened.machine = (m.bzero buf' dt'.totalSize).putAll buf' (forestPuts 0 tree) := by
  rw [dtFlattenDeviceTree] at ran
  split at ran
  · rename_i empty
    obtain rfl := Except.ok.inj ran
    exact Or.inl ⟨empty, rfl⟩
  · rename_i nonempty
    obtain ⟨buf', dt', chosen, given, root⟩ : ∃ buf' dt', (if buf = 0 then
        (dt.malloc.call.1, { dt with malloc := dt.malloc.call.2 }) else (buf, dt)) = (buf', dt') ∧
        (buf ≠ 0 → buf' = buf ∧ dt' = dt) ∧ dt'.rootNode = dt.rootNode := by
      by_cases null : buf = 0
      · rw [if_pos null]
        exact ⟨_, _, rfl, fun nonnull => absurd null nonnull, rfl⟩
      · rw [if_neg null]
        exact ⟨_, _, rfl, fun _ => ⟨rfl, rfl⟩, rfl⟩
    have walked := (dt'.flatten_eq buf' dt'.walkLimit).1 dt'.rootNode 0 (m.bzero buf' dt'.totalSize)
    rw [BitVec.add_zero] at walked
    simp only [chosen, walked, bind_eq_ok] at ran
    obtain ⟨_, ⟨tree, unrolled, made⟩, ran⟩ := ran
    obtain rfl := Except.ok.inj made
    obtain rfl := Except.ok.inj ran
    exact Or.inr ⟨nonempty, buf', dt', tree, given, root, unrolled, rfl⟩

end GenericBooter
