import GenericBooter.Boot.Devicetree
import GenericBooter.DeviceTree.Flatten

namespace GenericBooter

def kBootDriverTypeInvalid : Word := 0

def kBootArgsRevision : BitVec 16 := 1

def kBootArgsVersion2 : BitVec 16 := 2

def kClearedLength : Word := 128 * 1024 * 1024

def halfBytes (value : BitVec 16) : List Byte := [value.extractLsb' 0 8, value.extractLsb' 8 8]

def BootVideo.words (video : BootVideo) : List Word :=
  [video.baseAddr, video.display, video.rowBytes, video.width, video.height, video.depth]

def BootArgs.bytes (bootArgs : BootArgs) : List Byte :=
  halfBytes bootArgs.revision ++ (halfBytes bootArgs.version ++
    (([bootArgs.virtBase, bootArgs.physBase, bootArgs.memSize, bootArgs.topOfKernelData] ++ (bootArgs.video.words ++
      [bootArgs.machineType, bootArgs.deviceTreeP, bootArgs.deviceTreeLength])).flatMap wordBytes ++
        bootArgs.commandLine.toList))

def BootArgs.size : Word := 312

/-- `memory_map` is never null, and `type` is not looked at. -/
def allocateMemoryRange (dt : DeviceTree) (memoryMap : Nat) (rangeName : CString) (start length _type : Word) :
    Except Stop (Bool × DeviceTree) :=
  let (nameBuf, malloc) := dt.malloc.call
  if nameBuf = 0 then .ok (false, { dt with malloc := malloc })
  else
    let (buffer, malloc) := malloc.call
    if buffer = 0 then .ok (false, { dt with malloc := malloc })
    else do
      let dt ← addPropertyTo { dt with malloc := malloc } (some memoryMap) rangeName 8
        (bytesValue (wordBytes start ++ wordBytes length))
      .ok (true, dt)

def createDeviceTreeNode (dt : DeviceTree) (node : Option Nat) (rangeName : CString) (data : List Byte) :
    Except Stop (Bool × DeviceTree) :=
  let (nameBuf, malloc) := dt.malloc.call
  if nameBuf = 0 then .ok (false, { dt with malloc := malloc })
  else do
    let dt ← addPropertyTo { dt with malloc := malloc } node rangeName (BitVec.ofNat 32 data.length) (bytesValue data)
    .ok (true, dt)

/-- `gChosen` and the `memory-map` node; `gOptions` is not used again. -/
def createMemoryMapNode (dt : DeviceTree) : Except Stop ((Option Nat × Option Nat) × DeviceTree) := do
  let root := dt.rootNode
  let (chosen, dt) ← dtAddChild dt root (some (ascii "chosen"))
  let (memoryMap, dt) ← dtAddChild dt chosen (some (ascii "memory-map"))
  let (_, dt) ← dtAddChild dt root (some (ascii "options"))
  .ok ((chosen, memoryMap), dt)

inductive Target where
  | chosen
  | root
deriving DecidableEq

def iBootNodes : List (Target × CString × List Byte) :=
  let one := wordBytes 1
  let chip := wordBytes 0x8900
  let ecid := wordBytes 0xEFBEEFBE ++ wordBytes 0xEFBEEFBE
  [(.chosen, ascii "firmware-version", (ascii "iBoot-1234.56.7").bytes),
    (.root, ascii "platform-name", (ascii "Power Macintosh").bytes),
    (.root, ascii "mlb-serial-number", (ascii "ANTHRSRLNMBR").bytes),
    (.root, ascii "secure-root-prefix", (ascii "md").bytes),
    (.root, ascii "region-info", (ascii "JP/A").bytes),
    (.root, ascii "model-number", (ascii "MB046").bytes),
    (.chosen, ascii "debug-enabled", one),
    (.chosen, ascii "production-cert", one),
    (.chosen, ascii "system-trusted", one),
    (.chosen, ascii "secure-boot", one),
    (.chosen, ascii "gid-aes-key", one),
    (.chosen, ascii "uid-aes-key", one),
    (.chosen, ascii "development-cert", one),
    (.chosen, ascii "chip-id", chip),
    (.chosen, ascii "die-id", ecid),
    (.chosen, ascii "unique-chip-id", ecid),
    (.root, ascii "serial-number", (ascii "SOMESRLNMBR").bytes)]

/-- No result of `CreateDeviceTreeNode` is looked at. -/
def createNodes (chosen : Nat) : List (Target × CString × List Byte) → DeviceTree → Except Stop DeviceTree
  | [], dt => .ok dt
  | (target, name, data) :: later, dt => do
    let node := match target with
      | .chosen => some chosen
      | .root => dt.rootNode
    let (_, dt) ← createDeviceTreeNode dt node name data
    createNodes chosen later dt

namespace Booter

/-- The first part of `prepare_devicetree_stage2`, which returns `memory_map`. -/
def describeMachine (b : Booter) : Except Stop (Nat × Booter) := do
  let ((chosen, memoryMap), dt) ← createMemoryMapNode b.dt
  match memoryMap, chosen with
  | some memoryMap, some chosen => do
    let dt ← createNodes chosen iBootNodes dt
    .ok (memoryMap, { b with dt := dt })
  | _, _ => .error .assertion

def enterRamdisk (memoryMap : Nat) (b : Booter) : Except Stop Booter := do
  let m := b.platform.machine.memory
  let ramdiskImage ← getImage3 m b.platform.imagesEnd kImage3TypeRamdisk
  require (ramdiskImage ≠ 0)
  let payload ← image3GetTagData m ramdiskImage kImage3TagData b.ramdiskBase b.ramdiskSize
  let b := { b with ramdiskBase := payload.data, ramdiskSize := payload.size }
  if b.ramdiskBase = 0 then .ok b
  else do
    let (relocRamdiskBase, platform) := b.platform.reserve b.ramdiskSize 4096
    let machine := platform.machine.bcopy b.ramdiskBase relocRamdiskBase b.ramdiskSize
    let (_, dt) ← allocateMemoryRange b.dt memoryMap (ascii "RAMDisk") relocRamdiskBase b.ramdiskSize
      kBootDriverTypeInvalid
    .ok { b with platform := { platform with machine := machine }, dt := dt }

/-- The rest of `prepare_devicetree_stage2`. -/
def flattenDevicetree (b : Booter) : Except Stop Booter := do
  let sized ← dtFlattenDeviceTree b.dt none b.platform.machine
  let (deviceTreeP, platform) := b.platform.reserve sized.length 0
  let flattened ← dtFlattenDeviceTree sized.dt (some deviceTreeP) sized.machine
  let bootArgs := { b.bootArgs with
    deviceTreeLength := flattened.length
    deviceTreeP := phystov (flattened.buffer.getD 0) b.bootArgs.virtBase b.bootArgs.physBase }
  .ok { b with platform := { platform with machine := flattened.machine }, dt := flattened.dt, bootArgs := bootArgs }

def prepareDevicetreeStage2 (b : Booter) : Except Stop Booter := do
  let (memoryMap, b) ← b.describeMachine
  let b ← b.enterRamdisk memoryMap
  b.flattenDevicetree

/-- The region and the cleared RAM at the beginning of `start_darwin`; the records of stores and of ranges
    begin here. -/
def clearMemory (b : Booter) : Booter :=
  { b with platform := { b.platform with
    kernelRegion := startRegion b.bootArgs.physBase
    handedOut := []
    machine := Machine.bzero ⟨b.platform.machine.memory, []⟩ b.bootArgs.physBase kClearedLength } }

def prepareBootArgs (b : Booter) : Booter :=
  { b with bootArgs := { b.bootArgs with
    revision := kBootArgsRevision
    version := kBootArgsVersion2
    virtBase := kVirtBase } }

def prepareFinalizedBootArgs (b : Booter) : Word × Booter :=
  let b := { b with bootArgs := { b.bootArgs with topOfKernelData := alignUp b.platform.kernelRegion.pos 0x100000 } }
  let (bootArgs, platform) := b.platform.reserve BootArgs.size 1024
  (bootArgs, { b with platform := { platform with machine := platform.machine.storeBytes bootArgs b.bootArgs.bytes } })

end Booter

structure DarwinLocals where
  kernel : KernelLocals
  devicetree : DevicetreeLocals

/-- `start_darwin` up to the call of `prepare_devicetree_stage2`. -/
def loadImages (locals : DarwinLocals) (b : Booter) : Except Stop Booter := do
  let b := b.clearMemory.prepareBootArgs
  let platform ← prepareKernel locals.kernel b.platform
  let (entered, b) ← prepareDevicetree locals.devicetree { b with platform := platform }
  require (entered = true)
  .ok b

/-- Ends at `_locore_jump_to`, with the `args` it is given. -/
def startDarwin (locals : DarwinLocals) (b : Booter) : Except Stop (Word × Booter) := do
  let b ← loadImages locals b
  let b ← b.prepareDevicetreeStage2
  let (args, b) := b.prepareFinalizedBootArgs
  require (args ≠ 0)
  .ok (args, b)

theorem BootArgs.bytes_length (bootArgs : BootArgs) : bootArgs.bytes.length = BootArgs.size.toNat := by
  simp only [BootArgs.bytes, BootVideo.words, halfBytes, List.length_append, List.length_flatMap, List.map_append,
    List.map_cons, List.map_nil, wordBytes_length, List.length_cons, List.length_nil, List.sum_append, List.sum_cons,
    List.sum_nil, Vector.length_toList]
  rfl

end GenericBooter
