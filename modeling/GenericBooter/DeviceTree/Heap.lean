import GenericBooter.Machine.CString
import GenericBooter.Machine.Malloc
import GenericBooter.Machine.Stop

namespace GenericBooter

def kDTMaxEntryNameLength : Nat := 31

def kEntriesPerBlock : Nat := 256

def roundToLong (x : Word) : Word := (x + 3) &&& ~~~3

structure Property where
  name : CString
  length : Word
  value : Value
  next : Option Nat

structure Node where
  properties : Option Nat
  lastProp : Option Nat
  children : Option Nat
  next : Option Nat

structure DtInfo where
  numNodes : Word
  numProperties : Word
  totalPropertySize : Word

structure DeviceTree where
  info : DtInfo
  rootNode : Option Nat
  nodes : Nat → Node
  nodeBlocks : Nat
  freeNodes : Option Nat
  allocedNodes : Option Nat
  properties : Nat → Property
  propertyBlocks : Nat
  freeProperties : Option Nat
  allocedProperties : Option Nat
  malloc : Malloc

namespace DeviceTree

def setNode (dt : DeviceTree) (node : Nat) (cell : Node) : DeviceTree :=
  { dt with nodes := Function.update dt.nodes node cell }

def setProperty (dt : DeviceTree) (prop : Nat) (cell : Property) : DeviceTree :=
  { dt with properties := Function.update dt.properties prop cell }

def nodeEnd (dt : DeviceTree) : Nat := kEntriesPerBlock * dt.nodeBlocks

def propertyEnd (dt : DeviceTree) : Nat := kEntriesPerBlock * dt.propertyBlocks

/-- The `next` fields of a new block: its first entry goes on the list of blocks, the others are
    pushed on the free list, which is empty, one by one. -/
def freshNext (base : Nat) (alloced : Option Nat) (entry : Nat) : Option Nat :=
  if entry = base then alloced
  else if entry = base + 1 then none
  else some (entry - 1)

/-- A zeroed block. The value of its first entry, the address of the block, is left out. -/
def freshProperties (base : Nat) (alloced : Option Nat) (prop : Nat) : Property :=
  ⟨ascii "", 0, fun _ => 0, freshNext base alloced prop⟩

def freshNodes (base : Nat) (alloced : Option Nat) (node : Nat) : Node :=
  ⟨none, none, if node = base then some base else none, freshNext base alloced node⟩

/-- The head of `freeProperties`, after a new block where there was none. -/
def readyProperty (dt : DeviceTree) : Option Nat × DeviceTree :=
  match dt.freeProperties with
  | some prop => (some prop, dt)
  | none =>
    let (buf, malloc) := dt.malloc.call
    if buf = 0 then (none, { dt with malloc := malloc })
    else
      let base := dt.propertyEnd
      (some (base + (kEntriesPerBlock - 1)), { dt with
        malloc := malloc
        propertyBlocks := dt.propertyBlocks + 1
        properties := fun prop => if base ≤ prop ∧ prop < base + kEntriesPerBlock
          then freshProperties base dt.allocedProperties prop else dt.properties prop
        freeProperties := some (base + (kEntriesPerBlock - 1))
        allocedProperties := some base })

def readyNode (dt : DeviceTree) : Option Nat × DeviceTree :=
  match dt.freeNodes with
  | some node => (some node, dt)
  | none =>
    let (buf, malloc) := dt.malloc.call
    if buf = 0 then (none, { dt with malloc := malloc })
    else
      let base := dt.nodeEnd
      (some (base + (kEntriesPerBlock - 1)), { dt with
        malloc := malloc
        nodeBlocks := dt.nodeBlocks + 1
        nodes := fun node => if base ≤ node ∧ node < base + kEntriesPerBlock
          then freshNodes base dt.allocedNodes node else dt.nodes node
        freeNodes := some (base + (kEntriesPerBlock - 1))
        allocedNodes := some base })

def fillProperty (dt : DeviceTree) (prop : Nat) (name : CString) (length : Word) (value : Value) :
    DeviceTree :=
  { dt with freeProperties := (dt.properties prop).next }.setProperty prop
    { dt.properties prop with name := name, length := length, value := value }

/-- Always at the end of the node's list. -/
def linkProperty (dt : DeviceTree) (node prop : Nat) : Except Stop DeviceTree := do
  let dt ← match (dt.nodes node).properties, (dt.nodes node).lastProp with
    | none, _ => pure (dt.setNode node { dt.nodes node with properties := some prop })
    | some _, none => .error .null
    | some _, some last =>
      pure (dt.setProperty last { dt.properties last with next := some prop })
  let dt := dt.setNode node { dt.nodes node with lastProp := some prop }
  pure (dt.setProperty prop { dt.properties prop with next := none })

def linkNode (dt : DeviceTree) (parent : Option Nat) (node : Nat) : DeviceTree :=
  match parent with
  | none => { dt with rootNode := some node }.setNode node { dt.nodes node with next := none }
  | some parent =>
    let dt := dt.setNode node { dt.nodes node with next := (dt.nodes parent).children }
    dt.setNode parent { dt.nodes parent with children := some node }

end DeviceTree

def dtAddProperty (dt : DeviceTree) (node : Nat) (name : CString) (length : Word) (value : Value) :
    Except Stop (Option Nat × DeviceTree) :=
  match dt.readyProperty with
  | (none, dt) => .ok (none, dt)
  | (some prop, dt) => do
    let dt ← (dt.fillProperty prop name length value).linkProperty node prop
    .ok (some prop, { dt with info := { dt.info with
      numProperties := dt.info.numProperties + 1
      totalPropertySize := dt.info.totalPropertySize + roundToLong length } })

def dtAddChild (dt : DeviceTree) (parent : Option Nat) (name : Option CString) :
    Except Stop (Option Nat × DeviceTree) :=
  match dt.readyNode with
  | (none, dt) => .ok (none, dt)
  | (some node, dt) =>
    let dt := { dt with freeNodes := (dt.nodes node).next }.linkNode parent node
    let dt := { dt with info := { dt.info with numNodes := dt.info.numNodes + 1 } }
    match name with
    | none => .ok (some node, dt)
    | some name => do
      -- the result of the call is not looked at
      let (_, dt) ← dtAddProperty dt node (ascii "name") (BitVec.ofNat 32 (name.chars.length + 1))
        (bytesValue name.bytes)
      .ok (some node, dt)

def dtInitialize (dt : DeviceTree) : Except Stop DeviceTree := do
  let (root, dt) ← dtAddChild { dt with
    freeNodes := none
    allocedNodes := none
    freeProperties := none
    allocedProperties := none
    info := ⟨0, 0, 0⟩ } none (some (ascii "/"))
  .ok { dt with rootNode := root }

namespace DeviceTree

def nameFrom (dt : DeviceTree) : Nat → Option Nat → Except Stop Value
  | 0, _ => .error .diverges
  | _ + 1, none => .ok (bytesValue (ascii "(null)").bytes)
  | fuel + 1, some prop =>
    if (dt.properties prop).name = ascii "name" then .ok (dt.properties prop).value
    else dt.nameFrom fuel (dt.properties prop).next

end DeviceTree

def dtGetName (dt : DeviceTree) (node : Nat) : Except Stop Value :=
  dt.nameFrom (dt.propertyEnd + 1) (dt.nodes node).properties

/-- Fills `nameBuf`: the counter is stepped before it is compared. -/
def copyEntryName (i : Nat) : List Byte → List Byte × List Byte
  | [] => ([], [])
  | c :: path =>
    if i + 1 < kDTMaxEntryNameLength ∧ c ≠ 0x2f then
      let (name, rest) := copyEntryName (i + 1) path
      (c :: name, rest)
    else ([], c :: path)

namespace DeviceTree

def findChild (dt : DeviceTree) (nameBuf : CString) : Nat → Option Nat → Except Stop (Option Nat)
  | 0, _ => .error .diverges
  | _ + 1, none => .ok none
  | fuel + 1, some child => do
    let name ← dtGetName dt child
    if name.isString nameBuf then .ok (some child)
    else dt.findChild nameBuf fuel (dt.nodes child).next

end DeviceTree

def findNodeFrom (createIfMissing : Bool) :
    Nat → List Byte → Option Nat → DeviceTree → Except Stop (Option Nat × DeviceTree)
  | 0, _, _, _ => .error .diverges
  | _ + 1, _, none, dt => .ok (none, dt)
  | fuel + 1, path, some node, dt => do
    let (entry, path) := copyEntryName 0 (path.dropWhile (· = 0x2f))
    let nameBuf := cString entry
    if nameBuf.chars = [] then .ok (some node, dt)
    else
      match ← dt.findChild nameBuf (dt.nodeEnd + 1) (dt.nodes node).children with
      | some child => findNodeFrom createIfMissing fuel path (some child) dt
      | none =>
        if createIfMissing then
          let (str, malloc) := dt.malloc.call
          -- `strcpy` into the new string
          if str = 0 then .error .null
          else
            let (child, dt) ← dtAddChild { dt with malloc := malloc } (some node) (some nameBuf)
            findNodeFrom createIfMissing fuel path child dt
        else .ok (none, dt)

def dtFindNode (dt : DeviceTree) (path : CString) (createIfMissing : Bool) :
    Except Stop (Option Nat × DeviceTree) :=
  findNodeFrom createIfMissing (path.chars.length + 1) path.chars dt.rootNode dt

end GenericBooter
