import GenericBooter.Boot.Ranges
import GenericBooter.Tlsf.Allocator

namespace GenericBooter

open ByteMemory Linked

theorem vtophys_phystov (x virt phys : Word) : vtophys (phystov x virt phys) virt phys = x := by
  unfold vtophys phystov
  ring

theorem Platform.reserve_at (p : Platform) (request : Request) {position : Nat} (aligns : request.Aligns)
    (at' : p.kernelRegion.pos = BitVec.ofNat 32 position) :
    p.reserve request.size request.align = (BitVec.ofNat 32 (roundUp position request.align.toNat), { p with
      kernelRegion := { p.kernelRegion with pos := BitVec.ofNat 32 (request.advance position) }
      handedOut := (BitVec.ofNat 32 (roundUp position request.align.toNat), request.size) :: p.handedOut }) := by
  unfold Platform.reserve
  rw [reserve_ofNat p.kernelRegion request position aligns at']

section Loading

variable {b b' : Booter}

theorem enterDocument_keeps {root fuel : Nat} {tag : Option Nat} {text text' : List Byte} {entered : Bool}
    (ran : enterDocument root fuel tag text b = .ok (entered, text', b')) :
    b'.platform = b.platform ∧ b'.bootArgs = b.bootArgs := by
  induction fuel generalizing tag text text' b with
  | zero => cases ran
  | succ fuel ih =>
    rw [enterDocument, bind_eq_ok] at ran
    obtain ⟨⟨parsed, b₁⟩, parse, ran⟩ := ran
    rw [Booter.parseNextTag, bind_eq_ok] at parse
    obtain ⟨p, _, parse⟩ := parse
    obtain ⟨rfl, rfl⟩ := Prod.mk.inj (Except.ok.inj parse)
    rcases lengths : p.length with _ | length
    · simp only [lengths] at ran
      obtain ⟨_, _, rfl⟩ := ran
      exact ⟨rfl, rfl⟩
    · rcases tags : p.tag with _ | tag
      · simp only [lengths, tags, bind_eq_ok] at ran
        obtain ⟨⟨entered', rest, b₂⟩, later, ran⟩ := ran
        obtain ⟨_, _, rfl⟩ := ran
        have kept := ih later
        exact kept
      · simp only [lengths, tags] at ran
        split at ran
        · simp only [bind_eq_ok, Booter.populate, Booter.freeTag] at ran
          obtain ⟨b₂, ⟨dt, _, populated⟩, b₃, ⟨xml, _, freed⟩, ran⟩ := ran
          obtain rfl := Except.ok.inj populated
          obtain rfl := Except.ok.inj freed
          obtain ⟨_, _, rfl⟩ := ran
          exact ⟨rfl, rfl⟩
        · simp only [bind_eq_ok, Booter.freeTag] at ran
          obtain ⟨b₂, ⟨xml, _, freed⟩, ⟨entered', rest, b₃⟩, later, ran⟩ := ran
          obtain rfl := Except.ok.inj freed
          obtain ⟨_, _, rfl⟩ := ran
          have kept := ih later
          exact kept

theorem prepareDevicetree_keeps {locals : DevicetreeLocals} {entered : Bool}
    (ran : prepareDevicetree locals b = .ok (entered, b')) :
    b'.bootArgs = b.bootArgs ∧ ∃ memory, b'.platform = { b.platform with
      machine := { b.platform.machine with memory := memory } } := by
  simp only [prepareDevicetree, bind_eq_ok] at ran
  obtain ⟨image, _, _, _, payload, _, dt, _, ran⟩ := ran
  split at ran
  · cases ran
  · simp only [bind_eq_ok] at ran
    obtain ⟨text, _, ⟨entered', text', b₁⟩, document, ran⟩ := ran
    obtain ⟨_, rfl⟩ := Prod.mk.inj (Except.ok.inj ran)
    obtain ⟨platform, bootArgs⟩ := enterDocument_keeps document
    refine ⟨bootArgs, write b.platform.machine.memory payload.data text', ?_⟩
    simp only [platform]

theorem prepareKernel_reserves {locals : KernelLocals} {p p' : Platform} (ran : prepareKernel locals p = .ok p') :
    ∃ vmsize, p'.kernelRegion = (p.reserve vmsize 0).2.kernelRegion ∧
      p'.handedOut = (p.reserve vmsize 0).2.handedOut := by
  obtain ⟨_, payload, _, result⟩ := prepareKernel_ok ran
  rw [result]
  exact ⟨_, rfl, rfl⟩

theorem loadImages_reserves {locals : DarwinLocals} (ran : loadImages locals b = .ok b') :
    ∃ vmsize, b'.platform.handedOut = [(b.bootArgs.physBase + 0x1000, vmsize)] ∧
      b'.platform.kernelRegion = ⟨b.bootArgs.physBase + 0x1000, b.bootArgs.physBase + 0x1000 + vmsize⟩ ∧
      b'.bootArgs = b.prepareBootArgs.bootArgs := by
  simp only [loadImages, bind_eq_ok] at ran
  obtain ⟨platform, kernel, ⟨entered, b₁⟩, devicetree, _, _, ran⟩ := ran
  obtain rfl := Except.ok.inj ran
  obtain ⟨vmsize, region, handed⟩ := prepareKernel_reserves kernel
  obtain ⟨bootArgs, memory, kept⟩ := prepareDevicetree_keeps devicetree
  refine ⟨vmsize, ?_, ?_, bootArgs⟩
  · rw [kept]
    exact handed
  · rw [kept]
    exact region

end Loading

structure RamdiskFound (b : Booter) (image : Word) (payload : TagData) : Prop where
  located : getImage3 b.platform.machine.memory b.platform.imagesEnd kImage3TypeRamdisk = .ok image
  tagged : image3GetTagData b.platform.machine.memory image kImage3TagData b.ramdiskBase b.ramdiskSize = .ok payload
  nonnull : payload.data ≠ 0

section Steps

variable {b b' : Booter} {position : Nat}

theorem describeMachine_keeps {memoryMap : Nat} (ran : b.describeMachine = .ok (memoryMap, b')) :
    ∃ dt, b' = { b with dt := dt } := by
  simp only [Booter.describeMachine, bind_eq_ok] at ran
  obtain ⟨⟨⟨chosen, map⟩, dt₁⟩, _, ran⟩ := ran
  cases map with
  | none => cases ran
  | some map =>
    cases chosen with
    | none => cases ran
    | some chosen =>
      simp only [bind_eq_ok] at ran
      obtain ⟨dt, _, ran⟩ := ran
      obtain ⟨_, rfl⟩ := Prod.mk.inj (Except.ok.inj ran)
      exact ⟨dt, rfl⟩

theorem enterRamdisk_ok {memoryMap : Nat} {image : Word} {payload : TagData} (found : RamdiskFound b image payload)
    (at' : b.platform.kernelRegion.pos = BitVec.ofNat 32 position) (ran : b.enterRamdisk memoryMap = .ok b') :
    (∃ added, allocateMemoryRange b.dt memoryMap (ascii "RAMDisk") (BitVec.ofNat 32 (roundUp position 4096))
        payload.size kBootDriverTypeInvalid = .ok (added, b'.dt)) ∧ b'.bootArgs = b.bootArgs ∧
      b'.platform = { (b.platform.reserve payload.size 4096).2 with
        machine := b.platform.machine.bcopy payload.data (BitVec.ofNat 32 (roundUp position 4096)) payload.size } := by
  have start : (b.platform.reserve payload.size 4096).1 = BitVec.ofNat 32 (roundUp position 4096) :=
    congrArg Prod.fst (b.platform.reserve_at ⟨payload.size, 4096⟩ (Or.inr ⟨12, by decide, rfl⟩) at')
  unfold Booter.enterRamdisk at ran
  simp only [found.located, ok_bind] at ran
  rw [bind_eq_ok] at ran
  obtain ⟨_, _, ran⟩ := ran
  simp only [found.tagged, ok_bind, if_neg found.nonnull, start] at ran
  rw [bind_eq_ok] at ran
  obtain ⟨⟨added, dt⟩, entered, ran⟩ := ran
  obtain rfl := Except.ok.inj ran
  exact ⟨⟨added, entered⟩, rfl, rfl⟩

theorem enterRamdisk_found {memoryMap : Nat} (ran : b.enterRamdisk memoryMap = .ok b') :
    b'.platform = b.platform ∧ b'.dt = b.dt ∨ ∃ image payload, RamdiskFound b image payload := by
  simp only [Booter.enterRamdisk, bind_eq_ok] at ran
  obtain ⟨image, located, _, _, payload, tagged, ran⟩ := ran
  by_cases null : payload.data = 0
  · rw [if_pos null] at ran
    obtain rfl := Except.ok.inj ran
    exact Or.inl ⟨rfl, rfl⟩
  · exact Or.inr ⟨image, payload, located, tagged, null⟩

theorem dtFlattenDeviceTree_kept {dt : DeviceTree} {buf : Word} {m : Machine} {flattened : Flattened} (given : buf ≠ 0)
    (ran : dtFlattenDeviceTree dt (some buf) m = .ok flattened) : flattened.dt = dt := by
  rw [dtFlattenDeviceTree] at ran
  simp only [if_neg given] at ran
  split at ran
  · obtain rfl := Except.ok.inj ran
    rfl
  · simp only [bind_eq_ok] at ran
    obtain ⟨_, _, ran⟩ := ran
    obtain rfl := Except.ok.inj ran
    rfl

theorem flattenDevicetree_calls (at' : b.platform.kernelRegion.pos = BitVec.ofNat 32 position)
    (ran : b.flattenDevicetree = .ok b') :
    ∃ flattened, dtFlattenDeviceTree b.dt (some (BitVec.ofNat 32 position)) b.platform.machine = .ok flattened ∧
      b' = { b with
        platform := { b.platform with
          kernelRegion := { b.platform.kernelRegion with pos := BitVec.ofNat 32 (position + b.dt.totalSize.toNat) }
          handedOut := (BitVec.ofNat 32 position, b.dt.totalSize) :: b.platform.handedOut
          machine := flattened.machine }
        dt := flattened.dt
        bootArgs := { b.bootArgs with
          deviceTreeLength := flattened.length
          deviceTreeP := phystov (flattened.buffer.getD 0) b.bootArgs.virtBase b.bootArgs.physBase } } := by
  have reserved := b.platform.reserve_at ⟨b.dt.totalSize, 0⟩ (Or.inl rfl) at'
  have start : roundUp position (0 : Word).toNat = position := rfl
  have sizing : dtFlattenDeviceTree b.dt none b.platform.machine =
      .ok ⟨none, b.dt.totalSize, b.dt, b.platform.machine⟩ := rfl
  unfold Booter.flattenDevicetree at ran
  simp only [sizing, ok_bind, reserved, start, bind_eq_ok] at ran
  obtain ⟨flattened, flat, ran⟩ := ran
  exact ⟨flattened, flat, (Except.ok.inj ran).symm⟩

theorem flattenDevicetree_keeps (at' : b.platform.kernelRegion.pos = BitVec.ofNat 32 position)
    (given : BitVec.ofNat 32 position ≠ 0) (ran : b.flattenDevicetree = .ok b') : b'.dt = b.dt := by
  obtain ⟨flattened, flat, rfl⟩ := flattenDevicetree_calls at' ran
  exact dtFlattenDeviceTree_kept given flat

structure FlattenedAt (b b' : Booter) (tree : Forest) (position : Nat) : Prop where
  dt : b'.dt = b.dt
  memory : b'.platform.machine.memory =
    write b.platform.machine.memory (BitVec.ofNat 32 position) (encodeForest (flatTree tree))
  stores : ∃ made, Machine.Steps b.platform.machine b'.platform.machine made ∧ ∀ store ∈ made, ∀ address,
    store.Touches address → Covers (BitVec.ofNat 32 position) (flattenedLength (flatTree tree)) address
  pos : b'.platform.kernelRegion.pos = BitVec.ofNat 32 (position + flattenedLength (flatTree tree))
  handedOut : b'.platform.handedOut =
    (BitVec.ofNat 32 position, BitVec.ofNat 32 (flattenedLength (flatTree tree))) :: b.platform.handedOut
  length : b'.bootArgs.deviceTreeLength = BitVec.ofNat 32 (flattenedLength (flatTree tree))
  address : tree ≠ .nil →
    b'.bootArgs.deviceTreeP = phystov (BitVec.ofNat 32 position) b.bootArgs.virtBase b.bootArgs.physBase
  bases : b'.bootArgs.virtBase = b.bootArgs.virtBase ∧ b'.bootArgs.physBase = b.bootArgs.physBase

theorem flattenDevicetree_ok {tree : Forest} (at' : b.platform.kernelRegion.pos = BitVec.ofNat 32 position)
    (given : BitVec.ofNat 32 position ≠ 0) (finished : Represents b'.dt tree) (names : NamesFit (flatTree tree))
    (room : flattenedLength (flatTree tree) < 2 ^ 32) (ran : b.flattenDevicetree = .ok b') :
    FlattenedAt b b' tree position := by
  obtain ⟨flattened, flat, rfl⟩ := flattenDevicetree_calls at' ran
  have kept := dtFlattenDeviceTree_kept given flat
  have shown : Represents b.dt tree := kept ▸ finished
  have size := totalSize_eq shown
  have sizeNat : b.dt.totalSize.toNat = flattenedLength (flatTree tree) := by
    rw [size, BitVec.toNat_ofNat, Nat.mod_eq_of_lt room]
  rw [sizeNat, size]
  by_cases empty : tree = .nil
  · subst empty
    have zero : b.dt.totalSize = 0 := size
    rw [dtFlattenDeviceTree, if_pos zero] at flat
    obtain rfl := Except.ok.inj flat
    exact ⟨rfl, (write_nil _ _).symm, ⟨[], Machine.Steps.refl _, fun _ member => absurd member List.not_mem_nil⟩, rfl,
      rfl, size, fun absurd => (absurd rfl).elim, rfl, rfl⟩
  · obtain ⟨buf, dt, m, ran, _, placed, memory, stores⟩ :=
      dtFlattenDeviceTree_spec shown empty names room (BitVec.ofNat 32 position) b.platform.machine
    obtain ⟨rfl, rfl⟩ := placed given
    obtain rfl := Except.ok.inj (flat.symm.trans ran)
    exact ⟨rfl, memory, stores, rfl, rfl, rfl, fun _ => rfl, rfl, rfl⟩

theorem prepareFinalizedBootArgs_ok {args : Word} (at' : b.platform.kernelRegion.pos = BitVec.ofNat 32 position)
    (ran : b.prepareFinalizedBootArgs = (args, b')) :
    args = BitVec.ofNat 32 (roundUp position 1024) ∧ b'.dt = b.dt ∧
      b'.platform.machine = b.platform.machine.storeBytes args b'.bootArgs.bytes ∧
      b'.platform.handedOut = (args, BootArgs.size) :: b.platform.handedOut ∧
      b'.bootArgs = { b.bootArgs with topOfKernelData := alignUp b.platform.kernelRegion.pos 0x100000 } := by
  have start : (b.platform.reserve BootArgs.size 1024).1 = BitVec.ofNat 32 (roundUp position 1024) :=
    congrArg Prod.fst (b.platform.reserve_at ⟨BootArgs.size, 1024⟩ (Or.inr ⟨10, by decide, rfl⟩) at')
  obtain ⟨rfl, rfl⟩ := Prod.mk.inj ran
  exact ⟨start, rfl, rfl, rfl, rfl⟩

end Steps

structure RamdiskEntered (b entered : Booter) (payload : TagData) (position : Nat) : Prop where
  machine : entered.platform.machine =
    b.platform.machine.bcopy payload.data (BitVec.ofNat 32 (roundUp position 4096)) payload.size
  pos : entered.platform.kernelRegion.pos = BitVec.ofNat 32 (roundUp position 4096 + payload.size.toNat)
  bootArgs : entered.bootArgs = b.bootArgs
  ranges : ∀ before, Represents b.dt before → before ≠ .nil →
    Grown (RamdiskRange (BitVec.ofNat 32 (roundUp position 4096)) payload.size) before entered.dt
  tree : ∀ before, Represents b.dt before → before ≠ .nil → b.dt.malloc.Succeeds → ∃ tree, Represents entered.dt tree ∧
    tree.map contents = stage2Tree [ramdiskAttribute (BitVec.ofNat 32 (roundUp position 4096)) payload.size]
      (before.map contents)

theorem ramdisk_entered {b described entered : Booter} {memoryMap position : Nat} {image : Word} {payload : TagData}
    (at' : b.platform.kernelRegion.pos = BitVec.ofNat 32 position) (ramdisk : RamdiskFound b image payload)
    (describe : b.describeMachine = .ok (memoryMap, described)) (enter : described.enterRamdisk memoryMap = .ok entered) :
    RamdiskEntered b entered payload position := by
  obtain ⟨dt, rfl⟩ := describeMachine_keeps describe
  have found : RamdiskFound { b with dt := dt } image payload := ⟨ramdisk.located, ramdisk.tagged, ramdisk.nonnull⟩
  obtain ⟨⟨added, allocated⟩, bootArgs, platform⟩ := enterRamdisk_ok found at' enter
  have reserved := b.platform.reserve_at ⟨payload.size, 4096⟩ (Or.inr ⟨12, by decide, rfl⟩) at'
  refine ⟨?_, ?_, bootArgs, ?_, ?_⟩
  · rw [platform]
  · rw [platform]
    exact congrArg (fun reserved => reserved.2.kernelRegion.pos) reserved
  · intro before held nonempty
    exact stage2_ranges held nonempty describe allocated
  · intro before held nonempty good
    exact describeMachine_tree held nonempty good describe allocated

theorem stage2_entered {b flattened : Booter} {image : Word} {payload : TagData} {position : Nat}
    (at' : b.platform.kernelRegion.pos = BitVec.ofNat 32 position) (ramdisk : RamdiskFound b image payload)
    (staged : b.prepareDevicetreeStage2 = .ok flattened) :
    ∃ entered, RamdiskEntered b entered payload position ∧ entered.flattenDevicetree = .ok flattened := by
  simp only [Booter.prepareDevicetreeStage2, bind_eq_ok] at staged
  obtain ⟨⟨memoryMap, described⟩, describe, entered, enter, flatten⟩ := staged
  exact ⟨entered, ramdisk_entered at' ramdisk describe enter, flatten⟩

theorem stage2_tree {b flattened : Booter} {image : Word} {payload : TagData} {before : Forest} {position : Nat}
    (at' : b.platform.kernelRegion.pos = BitVec.ofNat 32 position) (positive : 0 < position)
    (ramdisk : RamdiskFound b image payload) (staged : b.prepareDevicetreeStage2 = .ok flattened)
    (room : roundUp position 4096 + payload.size.toNat < 2 ^ 32) (held : Represents b.dt before)
    (nonempty : before ≠ .nil) (good : b.dt.malloc.Succeeds) :
    ∃ tree, Represents flattened.dt tree ∧ tree.map contents = stage2Tree
      [ramdiskAttribute (BitVec.ofNat 32 (roundUp position 4096)) payload.size] (before.map contents) := by
  obtain ⟨entered, into, flatten⟩ := stage2_entered at' ramdisk staged
  have above := roundUp_le position 4096
  have given := position_ne_zero (by omega) room
  obtain ⟨tree, shown, same⟩ := into.tree before held nonempty good
  refine ⟨tree, ?_, same⟩
  rwa [flattenDevicetree_keeps into.pos given flatten]

theorem stage2_delivers {b flattened b' : Booter} {args image : Word} {payload : TagData} {tree : Forest} {position : Nat}
    (at' : b.platform.kernelRegion.pos = BitVec.ofNat 32 position) (positive : 0 < position)
    (ramdisk : RamdiskFound b image payload) (staged : b.prepareDevicetreeStage2 = .ok flattened)
    (final : flattened.prepareFinalizedBootArgs = (args, b')) (finished : Represents b'.dt tree)
    (names : NamesFit (flatTree tree))
    (room : roundUp (roundUp position 4096 + payload.size.toNat + flattenedLength (flatTree tree)) 1024 +
      BootArgs.size.toNat ≤ 2 ^ 32) :
    (∀ before, Represents b.dt before → before ≠ .nil →
        Enlarged (RamdiskRange (BitVec.ofNat 32 (roundUp position 4096)) payload.size) before tree ∧
          (b.dt.malloc.Succeeds → tree.map contents = stage2Tree
            [ramdiskAttribute (BitVec.ofNat 32 (roundUp position 4096)) payload.size] (before.map contents))) ∧
      read b'.platform.machine.memory (BitVec.ofNat 32 (roundUp position 4096)) payload.size.toNat =
        read b.platform.machine.memory payload.data payload.size.toNat ∧
      read b'.platform.machine.memory (vtophys b'.bootArgs.deviceTreeP b'.bootArgs.virtBase b'.bootArgs.physBase)
        b'.bootArgs.deviceTreeLength.toNat = encodeForest (flatTree tree) ∧
      read b'.platform.machine.memory args BootArgs.size.toNat = b'.bootArgs.bytes := by
  have size : BootArgs.size.toNat = 312 := rfl
  have above := roundUp_le position 4096
  have top := roundUp_le (roundUp position 4096 + payload.size.toNat + flattenedLength (flatTree tree)) 1024
  have same : b'.dt = flattened.dt := (congrArg (fun result => result.2.dt) final).symm
  rw [same] at finished
  obtain ⟨entered, into, flatten⟩ := stage2_entered at' ramdisk staged
  have given : BitVec.ofNat 32 (roundUp position 4096 + payload.size.toNat) ≠ 0 :=
    position_ne_zero (by omega) (by omega)
  have flat := flattenDevicetree_ok into.pos given finished names (by omega) flatten
  obtain ⟨rfl, _, machine, _, published⟩ := prepareFinalizedBootArgs_ok flat.pos final
  have copied : entered.platform.machine.memory = write b.platform.machine.memory
      (BitVec.ofNat 32 (roundUp position 4096)) (read b.platform.machine.memory payload.data payload.size.toNat) := by
    rw [into.machine]
    exact copy_eq_write _ _ _ _
  have length := encodeForest_length names
  have bytes := b'.bootArgs.bytes_length
  have memory : b'.platform.machine.memory = write flattened.platform.machine.memory _ b'.bootArgs.bytes :=
    congrArg Machine.memory machine
  rw [flat.memory, copied] at memory
  have three := read_three_writes b.platform.machine.memory (roundUp position 4096)
    (roundUp position 4096 + payload.size.toNat)
    (roundUp (roundUp position 4096 + payload.size.toNat + flattenedLength (flatTree tree)) 1024)
    (read b.platform.machine.memory payload.data payload.size.toNat) (encodeForest (flatTree tree)) b'.bootArgs.bytes
    (by rw [read_length]) (by omega) (by omega)
  rw [← memory, read_length, length, bytes] at three
  obtain ⟨ramdiskRead, treeRead, argsRead⟩ := three
  refine ⟨?_, ramdiskRead, ?_, argsRead⟩
  · intro before held nonempty
    obtain ⟨grown, shown, enlarged⟩ := into.ranges before held nonempty
    have kept := flattenDevicetree_keeps into.pos given flatten
    rw [← kept] at shown
    refine ⟨finished.unique shown ▸ enlarged, fun good => ?_⟩
    obtain ⟨tree', shown', contents⟩ := stage2_tree at' positive ramdisk staged (by omega) held nonempty good
    rw [finished.unique shown', contents]
  · rw [published]
    change read _ (vtophys flattened.bootArgs.deviceTreeP flattened.bootArgs.virtBase flattened.bootArgs.physBase)
      flattened.bootArgs.deviceTreeLength.toNat = _
    have total : flattened.bootArgs.deviceTreeLength.toNat = flattenedLength (flatTree tree) := by
      rw [flat.length, BitVec.toNat_ofNat, Nat.mod_eq_of_lt (by omega)]
    rw [total]
    by_cases empty : tree = .nil
    · subst empty
      rfl
    · rw [flat.address empty, flat.bases.1, flat.bases.2, vtophys_phystov]
      exact treeRead

/-- Where the running position of `kernel_region` ends when it is counted without wrapping. -/
def lastPosition (physBase : Word) (vmsize ramdisk devicetree : Nat) : Nat :=
  roundUp (roundUp (physBase.toNat + 0x1000 + vmsize) 4096 + ramdisk + devicetree) 1024 + BootArgs.size.toNat

def ramdiskStart (physBase vmsize : Word) : Word :=
  BitVec.ofNat 32 (roundUp (physBase.toNat + 0x1000 + vmsize.toNat) 4096)

theorem flatTree_contents (tree : Forest) :
    flatTree tree = (tree.map contents).map fun attrs => attrs.map Attribute.flat := by
  induction tree with
  | nil => rfl
  | node label left right ihl ihr =>
    simp only [flatTree, BinaryTree.map, contents, List.map_map] at ihl ihr ⊢
    rw [ihl, ihr]
    rfl

theorem loadImages_ok {locals : DarwinLocals} {b loaded : Booter} {p : Platform}
    (kernel : prepareKernel locals.kernel b.clearMemory.prepareBootArgs.platform = .ok p)
    (devicetree : prepareDevicetree locals.devicetree { b.clearMemory.prepareBootArgs with platform := p } =
      .ok (true, loaded)) : loadImages locals b = .ok loaded := by
  unfold loadImages
  simp only [kernel, devicetree, ok_bind]
  rfl

theorem loadImages_builds {locals : DarwinLocals} {b : Booter} {p : Platform} {malloc : Malloc}
    {stack : Nat → Option Nat} {roots : Multiset Nat} {image : Word} {payload : TagData}
    (kernel : prepareKernel locals.kernel b.clearMemory.prepareBootArgs.platform = .ok p)
    (reachable : XmlReachable malloc stack ⟨b.xml, roots⟩) (good : b.dt.malloc.Succeeds)
    (located : getImage3 p.machine.memory p.imagesEnd kImage3TypeXmlDeviceTree = .ok image) (present : image ≠ 0)
    (tagged : image3GetTagData p.machine.memory image kImage3TagData locals.devicetree.deviceTreeData
      locals.devicetree.deviceTreeSize = .ok payload) (document : Document) (following : List Byte)
    (held : stringAt p.machine.memory payload.data = .ok (document.render ++ (following ++ [0]))) :
    ∃ loaded before, loadImages locals b = .ok loaded ∧ Represents loaded.dt before ∧
      before.map contents = rootTree document.root ∧ loaded.dt.malloc.Succeeds := by
  obtain ⟨loaded, before, ran, shown, same, good⟩ := prepareDevicetree_completes
    (b := { b.clearMemory.prepareBootArgs with platform := p }) reachable good locals.devicetree located present tagged
    document following held
  exact ⟨loaded, before, loadImages_ok kernel ran, shown, same, good⟩

theorem startDarwin_stages {locals : DarwinLocals} {b loaded b' : Booter} {args : Word}
    (images : loadImages locals b = .ok loaded) (reached : startDarwin locals b = .ok (args, b')) :
    ∃ flattened, loaded.prepareDevicetreeStage2 = .ok flattened ∧ flattened.prepareFinalizedBootArgs = (args, b') := by
  rw [startDarwin, images] at reached
  simp only [ok_bind, bind_eq_ok] at reached
  obtain ⟨flattened, staged, _, _, final⟩ := reached
  exact ⟨flattened, staged, Except.ok.inj final⟩

def bootImages : Memory := write (fun _ => 0) 0x10000 (imageBytes kImage3TypeKernel sampleKernel ++
  (imageBytes kImage3TypeXmlDeviceTree nestedText ++ imageBytes kImage3TypeRamdisk [1, 2, 3, 4]))

def pooled (m : Memory) : Memory :=
  match (⟨0, m⟩ : Tlsf.Allocator).mallocInit 0x7e800000 0x1800000 with
  | .ok heap => heap.memory
  | .error _ => m

def sampleBooter (malloc : Malloc) : Booter where
  platform := ⟨⟨pooled bootImages, []⟩, ⟨0, 0⟩, [], 0, 0x10000⟩
  xml := Xml.bss malloc fun _ => none
  dt := DeviceTree.bss malloc
  bootArgs := ⟨0, 0, 0, 0x70000000, 0x10000000, 0, ⟨0, 0, 0, 0, 0, 0⟩, 0, 0, 0, Vector.replicate _ 0⟩
  ramdiskBase := 0
  ramdiskSize := 0
  symbolAt := fun _ => 0

def darwinLocals : DarwinLocals := ⟨sampleLocals, ⟨0, 0, none⟩⟩

theorem exists_ok {α : Type} {result : Except Stop α} (ok : result.isOk = true) : ∃ a, result = .ok a := by
  cases result with
  | ok a => exact ⟨a, rfl⟩
  | error stop => cases ok

theorem sampleBooter_loads : ∃ loaded before, loadImages darwinLocals (sampleBooter roomy) = .ok loaded ∧
    Represents loaded.dt before ∧ before.map contents = rootTree nestedDocument.root ∧ loaded.dt.malloc.Succeeds := by
  have found : (do let p ← prepareKernel darwinLocals.kernel (sampleBooter roomy).clearMemory.prepareBootArgs.platform
                   let image ← getImage3 p.machine.memory p.imagesEnd kImage3TypeXmlDeviceTree
                   let payload ← image3GetTagData p.machine.memory 0x100d8 kImage3TagData 0 0
                   let text ← stringAt p.machine.memory 0x100f8
                   .ok (image, payload, text)) =
      (.ok (0x100d8, ⟨true, 0x100f8, BitVec.ofNat 32 nestedText.length⟩,
        nestedDocument.render ++ ((ascii "</plist>").chars ++ [0])) : Except Stop (Word × TagData × List Byte)) := by
    decide +kernel
  simp only [bind_eq_ok] at found
  obtain ⟨p, kernel, image, located, payload, tagged, text, held, found⟩ := found
  obtain ⟨rfl, given⟩ := Prod.mk.inj (Except.ok.inj found)
  obtain ⟨rfl, rfl⟩ := Prod.mk.inj given
  have reachable : XmlReachable roomy (fun _ => none) ⟨(sampleBooter roomy).xml, 0⟩ := Relation.ReflTransGen.refl
  exact loadImages_builds kernel reachable roomy_succeeds located (by decide) tagged nestedDocument
    (ascii "</plist>").chars held

theorem sampleBooter_ramdisk {loaded : Booter} (images : loadImages darwinLocals (sampleBooter roomy) = .ok loaded) :
    RamdiskFound loaded 0x10162 ⟨true, 0x10182, 4⟩ ∧ loaded.platform.handedOut = [(0x70001000, 0x1000)] ∧
      loaded.platform.kernelRegion.pos = BitVec.ofNat 32 0x70002000 ∧
      ∃ args b', startDarwin darwinLocals (sampleBooter roomy) = .ok (args, b') := by
  have found : (do let b ← loadImages darwinLocals (sampleBooter roomy)
                   let image ← getImage3 b.platform.machine.memory b.platform.imagesEnd kImage3TypeRamdisk
                   let payload ← image3GetTagData b.platform.machine.memory 0x10162 kImage3TagData b.ramdiskBase
                     b.ramdiskSize
                   let _ ← startDarwin darwinLocals (sampleBooter roomy)
                   .ok ((image, payload), b.platform.handedOut, b.platform.kernelRegion.pos)) =
      (.ok ((0x10162, ⟨true, 0x10182, 4⟩), [(0x70001000, 0x1000)], 0x70002000) : Except Stop _) := by decide +kernel
  rw [images] at found
  simp only [ok_bind, bind_eq_ok] at found
  obtain ⟨image, located, payload, tagged, ⟨args, b'⟩, reached, found⟩ := found
  obtain ⟨same, reserved⟩ := Prod.mk.inj (Except.ok.inj found)
  obtain ⟨rfl, rfl⟩ := Prod.mk.inj same
  obtain ⟨handed, pos⟩ := Prod.mk.inj reserved
  exact ⟨⟨located, tagged, by decide⟩, handed, pos, args, b', reached⟩

/-- A heap that refuses the string for the name of the range. -/
def refusing : Malloc := ⟨fun call => if call = 25 then 0 else 0x1000, 0⟩

end GenericBooter
