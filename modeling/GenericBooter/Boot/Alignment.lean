import GenericBooter.Boot.Delivery

namespace GenericBooter

open ByteMemory Linked

/-- The words stored since `b` by the encoder, if it has been given the range handed out last, are at multiples of 4. -/
def WordsAligned (b b' : Booter) : Prop := ∃ made start length earlier,
  b'.platform.machine.stores = made ++ b.platform.machine.stores ∧
    b'.platform.handedOut = (start, length) :: earlier ∧
    (start ≠ 0 → ∀ base, Store.word base ∈ made → base.toNat % 4 = 0)

theorem room_aligned (prop : FlatProperty) : prop.room % 4 = 0 := by
  rw [FlatProperty.room, padding]
  omega

theorem propertiesRoom_aligned (props : List FlatProperty) : propertiesRoom props % 4 = 0 := by
  induction props with
  | nil => rfl
  | cons prop later ih =>
    have here := room_aligned prop
    rw [propertiesRoom] at ih ⊢
    rw [List.map_cons, List.sum_cons]
    omega

theorem flattenedLength_aligned (tree : FlatTree) : flattenedLength tree % 4 = 0 := by
  induction tree with
  | nil => rfl
  | node props children younger below beside =>
    have here := propertiesRoom_aligned props
    rw [propertiesRoom] at here
    rw [flattenedLength]
    omega

def PutsAligned (puts : List Put) : Prop := ∀ offset value, Put.word offset value ∈ puts → offset % 4 = 0

section Puts

variable {puts puts' : List Put} {offset : Nat}

theorem PutsAligned.append (first : PutsAligned puts) (second : PutsAligned puts') : PutsAligned (puts ++ puts') := by
  intro at' value member
  rcases List.mem_append.mp member with member | member
  · exact first at' value member
  · exact second at' value member

theorem PutsAligned.word (aligned : offset % 4 = 0) (value : Word) (later : PutsAligned puts) :
    PutsAligned (.word offset value :: puts) := by
  intro at' value' member
  rcases List.mem_cons.mp member with same | member
  · obtain ⟨rfl, _⟩ := Put.word.inj same
    exact aligned
  · exact later at' value' member

theorem propertiesPuts_aligned (props : List FlatProperty) (aligned : offset % 4 = 0) :
    PutsAligned (propertiesPuts offset props) := by
  induction props generalizing offset with
  | nil => exact fun _ _ member => absurd member List.not_mem_nil
  | cons prop later ih =>
    have here := room_aligned prop
    have own : PutsAligned (propertyPuts offset prop) := by
      intro at' value member
      simp only [propertyPuts, List.mem_cons, reduceCtorEq, Put.word.injEq, List.not_mem_nil, or_false, false_or] at member
      omega
    exact own.append (ih (by omega))

theorem forestPuts_aligned (tree : FlatTree) (aligned : offset % 4 = 0) : PutsAligned (forestPuts offset tree) := by
  induction tree generalizing offset with
  | nil => exact fun _ _ member => absurd member List.not_mem_nil
  | node props children younger below beside =>
    have room := propertiesRoom_aligned props
    have length := flattenedLength_aligned children
    rw [forestPuts]
    apply (propertiesPuts_aligned props (by omega)).append
    apply PutsAligned.word aligned
    apply (below (by omega)).append
    apply PutsAligned.word (by omega)
    exact beside (by omega)

end Puts

theorem offset_aligned (base : Word) {offset : Nat} (aligned : offset % 4 = 0) :
    (base + BitVec.ofNat 32 offset).toNat % 4 = base.toNat % 4 := by
  rw [BitVec.toNat_add, BitVec.toNat_ofNat]
  omega

theorem mem_putAll_word {base address : Word} {puts : List Put} :
    Store.word address ∈ (puts.map (Put.store base)).reverse ↔
      ∃ offset value, Put.word offset value ∈ puts ∧ address = base + BitVec.ofNat 32 offset := by
  rw [List.mem_reverse, List.mem_map]
  constructor
  · rintro ⟨put, member, same⟩
    cases put with
    | bytes offset data => cases same
    | word offset value => exact ⟨offset, value, member, (Store.word.inj same).symm⟩
  · rintro ⟨offset, value, member, rfl⟩
    exact ⟨_, member, rfl⟩

theorem forestPuts_words_iff (props : List FlatProperty) (children younger : FlatTree) (base : Word) :
    (∀ address, Store.word address ∈ ((forestPuts 0 (.node props children younger)).map (Put.store base)).reverse →
      address.toNat % 4 = 0) ↔ base.toNat % 4 = 0 := by
  constructor
  · intro all
    have first : Put.word 0 (BitVec.ofNat 32 props.length) ∈ forestPuts 0 (.node props children younger) := by
      rw [forestPuts]
      exact List.mem_append_right _ List.mem_cons_self
    have head := all _ (mem_putAll_word.mpr ⟨0, _, first, rfl⟩)
    rwa [BitVec.add_zero] at head
  · intro aligned address member
    obtain ⟨offset, value, inside, rfl⟩ := mem_putAll_word.mp member
    rw [offset_aligned base (forestPuts_aligned _ rfl offset value inside), aligned]

theorem unrollNodes_root {dt : DeviceTree} {fuel : Nat} {tree : FlatTree} (root : dt.rootNode ≠ none)
    (unrolled : dt.unrollNodes fuel dt.rootNode = .ok tree) :
    ∃ props children younger, tree = .node props children younger := by
  obtain ⟨node, shown⟩ := Option.ne_none_iff_exists'.mp root
  rw [shown] at unrolled
  have one := dt.unrollNodes_siblings unrolled
  cases tree with
  | nil => cases one
  | node props children younger => exact ⟨props, children, younger, rfl⟩

theorem flattenDevicetree_words {b b' : Booter} (root : b.dt.rootNode ≠ none) (ran : b.flattenDevicetree = .ok b') :
    ∃ made, b'.platform.machine.stores = made ++ b.platform.machine.stores ∧
      b'.platform.handedOut = (b.platform.kernelRegion.pos, b.dt.totalSize) :: b.platform.handedOut ∧
      (b.platform.kernelRegion.pos ≠ 0 → ((∀ base, Store.word base ∈ made → base.toNat % 4 = 0) ↔
        b.platform.kernelRegion.pos.toNat % 4 = 0 ∨ b.dt.totalSize = 0)) := by
  have at' := b.platform.kernelRegion.pos_eq
  obtain ⟨flattened, flat, rfl⟩ := flattenDevicetree_calls at' ran
  rw [← at'] at flat ⊢
  rcases dtFlattenDeviceTree_cases flat with ⟨empty, same⟩ | ⟨nonempty, buf, dt, tree, given, kept, unrolled, machine⟩
  · refine ⟨[], congrArg Machine.stores same, rfl, fun _ => ?_⟩
    exact ⟨fun _ => Or.inr empty, fun _ _ member => absurd member List.not_mem_nil⟩
  · obtain ⟨props, children, younger, rfl⟩ := unrollNodes_root (by rwa [kept]) unrolled
    have steps := (Machine.bzero_steps b.platform.machine buf dt.totalSize).trans (putAll_steps _ buf
      (forestPuts 0 (.node props children younger)))
    refine ⟨_, (congrArg Machine.stores machine).trans steps.1, rfl, fun placed => ?_⟩
    obtain ⟨rfl, rfl⟩ := given placed
    rw [or_iff_left nonempty, ← forestPuts_words_iff props children younger]
    simp only [List.mem_append, List.mem_singleton, reduceCtorEq, or_false]

section Root

variable {dt dt' : DeviceTree}

theorem addPropertyTo_rootNode {node : Option Nat} {name : CString} {length : Word} {value : Value}
    (ran : addPropertyTo dt node name length value = .ok dt') : dt'.rootNode = dt.rootNode := by
  cases node with
  | some node =>
    obtain ⟨⟨_, dt₁⟩, added, done⟩ := bind_eq_ok.mp ran
    obtain rfl := Except.ok.inj done
    exact (dtAddProperty_keeps added).rootNode
  | none =>
    have ready := (readyProperty_only dt).rootNode
    unfold addPropertyTo at ran
    rcases taken : dt.readyProperty with ⟨_ | prop, dt₁⟩ <;> simp only [taken] at ran ready
    · obtain rfl := Except.ok.inj ran
      exact ready
    · cases ran

theorem dtAddChild_rootNode {parent : Option Nat} {name : Option CString} {result : Option Nat}
    (ran : dtAddChild dt parent name = .ok (result, dt')) :
    dt'.rootNode = if result ≠ none ∧ parent = none then result else dt.rootNode := by
  have ready := (readyNode_only dt).rootNode
  rcases taken : dt.readyNode with ⟨_ | node, dt₁⟩
  · rw [taken] at ready
    rw [dtAddChild, taken] at ran
    obtain ⟨rfl, rfl⟩ := Prod.mk.inj (Except.ok.inj ran)
    simpa using ready
  · rw [taken] at ready
    have linked : (attachNode dt₁ parent node).rootNode = if parent = none then some node else dt.rootNode := by
      cases parent with
      | none => rfl
      | some parent => exact ready
    cases name with
    | none =>
      obtain ⟨rfl, rfl⟩ := Prod.mk.inj (Except.ok.inj (ran.symm.trans (dtAddChild_unnamed parent taken)))
      simpa using linked
    | some name =>
      rw [dtAddChild_text parent name taken] at ran
      obtain ⟨⟨_, dt₂⟩, added, done⟩ := bind_eq_ok.mp ran
      obtain ⟨rfl, rfl⟩ := Prod.mk.inj (Except.ok.inj done)
      rw [(dtAddProperty_keeps added).rootNode]
      simpa using linked

theorem createDeviceTreeNode_rootNode {node : Option Nat} {name : CString} {data : List Byte} {created : Bool}
    (ran : createDeviceTreeNode dt node name data = .ok (created, dt')) : dt'.rootNode = dt.rootNode := by
  unfold createDeviceTreeNode at ran
  simp only at ran
  split at ran
  · obtain ⟨_, rfl⟩ := Prod.mk.inj (Except.ok.inj ran)
    rfl
  · obtain ⟨dt₁, added, done⟩ := bind_eq_ok.mp ran
    obtain ⟨_, rfl⟩ := Prod.mk.inj (Except.ok.inj done)
    have kept := addPropertyTo_rootNode added
    exact kept

theorem allocateMemoryRange_rootNode {memoryMap : Nat} {name : CString} {start length type : Word} {added : Bool}
    (ran : allocateMemoryRange dt memoryMap name start length type = .ok (added, dt')) : dt'.rootNode = dt.rootNode := by
  unfold allocateMemoryRange at ran
  simp only at ran
  split at ran
  · obtain ⟨_, rfl⟩ := Prod.mk.inj (Except.ok.inj ran)
    rfl
  · split at ran
    · obtain ⟨_, rfl⟩ := Prod.mk.inj (Except.ok.inj ran)
      rfl
    · obtain ⟨dt₁, entered, done⟩ := bind_eq_ok.mp ran
      obtain ⟨_, rfl⟩ := Prod.mk.inj (Except.ok.inj done)
      have kept := addPropertyTo_rootNode entered
      exact kept

theorem createNodes_rootNode {chosen : Nat} {entries : List (Target × CString × List Byte)}
    (ran : createNodes chosen entries dt = .ok dt') : dt'.rootNode = dt.rootNode := by
  induction entries generalizing dt with
  | nil =>
    obtain rfl := Except.ok.inj ran
    rfl
  | cons entry later ih =>
    obtain ⟨target, name, data⟩ := entry
    simp only [createNodes, bind_eq_ok] at ran
    obtain ⟨⟨_, dt₁⟩, created, ran⟩ := ran
    exact (ih ran).trans (createDeviceTreeNode_rootNode created)

theorem createMemoryMapNode_root {chosen memoryMap : Option Nat} (ran : createMemoryMapNode dt = .ok ((chosen, memoryMap), dt'))
    (made : chosen ≠ none) : dt'.rootNode ≠ none := by
  simp only [createMemoryMapNode, bind_eq_ok] at ran
  obtain ⟨⟨first, dt₁⟩, ran₁, ⟨second, dt₂⟩, ran₂, ⟨third, dt₃⟩, ran₃, done⟩ := ran
  obtain ⟨ids, rfl⟩ := Prod.mk.inj (Except.ok.inj done)
  obtain ⟨rfl, rfl⟩ := Prod.mk.inj ids
  have root₁ : dt₁.rootNode ≠ none := by
    rw [dtAddChild_rootNode ran₁]
    split
    · exact made
    · rename_i rooted
      exact fun none => rooted ⟨made, none⟩
  have root₂ : dt₂.rootNode ≠ none := by
    rwa [dtAddChild_rootNode ran₂, if_neg fun orphan => made orphan.2]
  rw [dtAddChild_rootNode ran₃]
  split
  · rename_i orphan
    exact orphan.1
  · exact root₂

theorem describeMachine_root {b b' : Booter} {memoryMap : Nat} (ran : b.describeMachine = .ok (memoryMap, b')) :
    b'.dt.rootNode ≠ none := by
  simp only [Booter.describeMachine, bind_eq_ok] at ran
  obtain ⟨⟨⟨_ | chosen, _ | map⟩, dt₁⟩, made, ran⟩ := ran
  · cases ran
  · cases ran
  · cases ran
  · obtain ⟨dt₂, created, done⟩ := bind_eq_ok.mp ran
    obtain ⟨_, rfl⟩ := Prod.mk.inj (Except.ok.inj done)
    have root := createMemoryMapNode_root made (Option.some_ne_none chosen)
    rwa [← createNodes_rootNode created] at root

end Root

structure RamdiskLookup (b : Booter) (image : Word) (payload : TagData) : Prop where
  located : getImage3 b.platform.machine.memory b.platform.imagesEnd kImage3TypeRamdisk = .ok image
  tagged : image3GetTagData b.platform.machine.memory image kImage3TagData b.ramdiskBase b.ramdiskSize = .ok payload

def EndsAligned (b : Booter) (payload : TagData) : Prop :=
  if payload.data = 0 then b.platform.kernelRegion.pos.toNat % 4 = 0 else payload.size.toNat % 4 = 0

theorem enterRamdisk_words {b b' : Booter} {memoryMap : Nat} {image : Word} {payload : TagData}
    (lookup : RamdiskLookup b image payload) (ran : b.enterRamdisk memoryMap = .ok b') :
    b'.dt.rootNode = b.dt.rootNode ∧ (b'.platform.kernelRegion.pos.toNat % 4 = 0 ↔ EndsAligned b payload) ∧
      ∃ made, b'.platform.machine.stores = made ++ b.platform.machine.stores ∧ ∀ base, Store.word base ∉ made := by
  by_cases null : payload.data = 0
  · simp only [Booter.enterRamdisk, lookup.located, lookup.tagged, ok_bind, bind_eq_ok] at ran
    obtain ⟨_, _, ran⟩ := ran
    rw [if_pos null] at ran
    obtain rfl := Except.ok.inj ran
    rw [EndsAligned, if_pos null]
    exact ⟨rfl, Iff.rfl, [], rfl, fun _ => List.not_mem_nil⟩
  · have at' := b.platform.kernelRegion.pos_eq
    have found : RamdiskFound b image payload := ⟨lookup.located, lookup.tagged, null⟩
    obtain ⟨⟨added, allocated⟩, _, platform⟩ := enterRamdisk_ok found at' ran
    have reserved := b.platform.reserve_at ⟨payload.size, 4096⟩ (Or.inr ⟨12, by decide, rfl⟩) at'
    refine ⟨allocateMemoryRange_rootNode allocated, ?_, ?_⟩
    · rw [platform, EndsAligned, if_neg null]
      simp only at reserved ⊢
      rw [reserved]
      have whole : roundUp b.platform.kernelRegion.pos.toNat 4096 % 4 = 0 := by
        rw [roundUp, if_neg (by decide)]
        omega
      change (BitVec.ofNat 32 (roundUp b.platform.kernelRegion.pos.toNat 4096 + payload.size.toNat)).toNat % 4 = 0 ↔ _
      rw [BitVec.toNat_ofNat]
      omega
    · rw [platform]
      refine ⟨[_], rfl, fun base member => ?_⟩
      cases List.mem_singleton.mp member

theorem staged_words_iff {b described entered b' : Booter} {memoryMap : Nat} {image : Word} {payload : TagData}
    (lookup : RamdiskLookup b image payload) (describe : b.describeMachine = .ok (memoryMap, described))
    (enter : described.enterRamdisk memoryMap = .ok entered) (flatten : entered.flattenDevicetree = .ok b') :
    WordsAligned b b' ↔ EndsAligned b payload ∨ entered.dt.totalSize = 0 := by
  have root := describeMachine_root describe
  obtain ⟨dt, rfl⟩ := describeMachine_keeps describe
  have lookup' : RamdiskLookup { b with dt := dt } image payload := ⟨lookup.located, lookup.tagged⟩
  obtain ⟨kept, ends, copied, stores, bytes⟩ := enterRamdisk_words lookup' enter
  have ends : entered.platform.kernelRegion.pos.toNat % 4 = 0 ↔ EndsAligned b payload := ends
  obtain ⟨made, stores', handed, words⟩ := flattenDevicetree_words (by rwa [kept]) flatten
  have all : b'.platform.machine.stores = (made ++ copied) ++ b.platform.machine.stores := by
    rw [stores', stores, List.append_assoc]
  constructor
  · rintro ⟨made', start, length, earlier, total, handed', aligned⟩
    obtain rfl := List.append_cancel_right (total.symm.trans all)
    obtain ⟨same, _⟩ := List.cons.inj (handed'.symm.trans handed)
    obtain ⟨rfl, _⟩ := Prod.mk.inj same
    by_cases null : entered.platform.kernelRegion.pos = 0
    · rw [null] at ends
      exact Or.inl (ends.mp rfl)
    · rw [← ends]
      exact (words null).mp fun base member => aligned null base (List.mem_append_left _ member)
  · intro condition
    refine ⟨made ++ copied, _, _, _, all, handed, fun null base member => ?_⟩
    rw [← ends] at condition
    exact (words null).mpr condition base ((List.mem_append.mp member).resolve_right (bytes base))

/-- Every word of the tree goes to a multiple of 4 exactly when the ramdisk ends at one, or nothing is flattened. -/
theorem stage2_words_aligned_iff {b b' : Booter} {image : Word} {payload : TagData} (lookup : RamdiskLookup b image payload)
    (ran : b.prepareDevicetreeStage2 = .ok b') :
    ∃ memoryMap described entered, b.describeMachine = .ok (memoryMap, described) ∧
      described.enterRamdisk memoryMap = .ok entered ∧ entered.flattenDevicetree = .ok b' ∧
      (WordsAligned b b' ↔ EndsAligned b payload ∨ entered.dt.totalSize = 0) := by
  simp only [Booter.prepareDevicetreeStage2, bind_eq_ok] at ran
  obtain ⟨⟨memoryMap, described⟩, describe, entered, enter, flatten⟩ := ran
  exact ⟨memoryMap, described, entered, describe, enter, flatten, staged_words_iff lookup describe enter flatten⟩

def ramdiskBooter (data : List Byte) : Booter where
  platform := ⟨⟨write (fun _ => 0) 0x10000 (imageBytes kImage3TypeRamdisk data), []⟩, ⟨0x70001000, 0x70002000⟩,
    [(0x70001000, 0x1000)], 0, 0x10000⟩
  xml := Xml.bss roomy fun _ => none
  dt := rootOnly
  bootArgs := ⟨0, 0, kVirtBase, 0x70000000, 0x10000000, 0, ⟨0, 0, 0, 0, 0, 0⟩, 0, 0, 0, Vector.replicate _ 0⟩
  ramdiskBase := 0
  ramdiskSize := 0
  symbolAt := fun _ => 0

theorem fourBytes_aligned : ∃ b', (ramdiskBooter [1, 2, 3, 4]).prepareDevicetreeStage2 = .ok b' ∧
    WordsAligned (ramdiskBooter [1, 2, 3, 4]) b' := by
  have ends : (ramdiskBooter [1, 2, 3, 4]).prepareDevicetreeStage2.isOk = true := by decide +kernel
  obtain ⟨b', ran⟩ := exists_ok ends
  have lookup : RamdiskLookup (ramdiskBooter [1, 2, 3, 4]) 0x10000 ⟨true, 0x10020, 4⟩ :=
    ⟨by decide +kernel, by decide +kernel⟩
  obtain ⟨_, _, _, _, _, _, words⟩ := stage2_words_aligned_iff lookup ran
  have aligned : EndsAligned (ramdiskBooter [1, 2, 3, 4]) ⟨true, 0x10020, 4⟩ := by
    rw [EndsAligned, if_neg (by decide)]
    decide
  exact ⟨b', ran, words.mpr (Or.inl aligned)⟩

theorem fiveBytes_misaligned : ¬ ∀ b b' : Booter, b.prepareDevicetreeStage2 = .ok b' → WordsAligned b b' := by
  intro aligned
  have ends : (ramdiskBooter [1, 2, 3, 4, 5]).prepareDevicetreeStage2.isOk = true := by decide +kernel
  obtain ⟨b', ran⟩ := exists_ok ends
  have words := aligned _ b' ran
  simp only [Booter.prepareDevicetreeStage2, bind_eq_ok] at ran
  obtain ⟨⟨memoryMap, described⟩, describe, entered, enter, flatten⟩ := ran
  have lookup : RamdiskLookup (ramdiskBooter [1, 2, 3, 4, 5]) 0x10000 ⟨true, 0x10020, 5⟩ :=
    ⟨by decide +kernel, by decide +kernel⟩
  have size : (do let machine ← (ramdiskBooter [1, 2, 3, 4, 5]).describeMachine
                  let entered ← machine.2.enterRamdisk machine.1
                  .ok entered.dt.totalSize) = (.ok 992 : Except Stop _) := by decide +kernel
  simp only [describe, enter, ok_bind] at size
  have total := Except.ok.inj size
  rcases (staged_words_iff lookup describe enter flatten).mp words with odd | empty
  · rw [EndsAligned, if_neg (by decide)] at odd
    exact absurd odd (by decide)
  · rw [total] at empty
    exact absurd empty (by decide)

end GenericBooter
