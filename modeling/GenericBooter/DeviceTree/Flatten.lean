import GenericBooter.DeviceTree.Heap

namespace GenericBooter

def kPropNameLength : Word := 32

def DeviceTreeNode.size : Word := 8

def DeviceTreeNodeProperty.size : Word := kPropNameLength + 4

namespace DeviceTree

def flattenProperties (dt : DeviceTree) :
    Nat → Option Nat → Word → Word → Machine → Except Stop (Word × Word × Machine)
  | 0, _, _, _, _ => .error .diverges
  | _ + 1, none, count, buffer, m => .ok (count, buffer, m)
  | fuel + 1, some prop, count, buffer, m =>
    let cell := dt.properties prop
    let m := m.storeBytes buffer cell.name.bytes
    let m := m.storeWord (buffer + kPropNameLength) cell.length
    let buffer := buffer + DeviceTreeNodeProperty.size
    let m := m.storeBytes buffer (cell.value.take cell.length.toNat)
    dt.flattenProperties fuel cell.next (count + 1) (buffer + roundToLong cell.length) m

mutual

def flattenNodes (dt : DeviceTree) :
    Nat → Option Nat → Word → Machine → Except Stop (Word × Machine)
  | 0, _, _, _ => .error .diverges
  | _ + 1, none, buffer, m => .ok (buffer, m)
  | fuel + 1, some node, flatNode, m => do
    let (nProperties, buffer, m) ← dt.flattenProperties (dt.propertyEnd + 1)
      (dt.nodes node).properties 0 (flatNode + DeviceTreeNode.size) m
    let m := m.storeWord flatNode nProperties
    let (nChildren, buffer, m) ← dt.flattenChildren fuel (dt.nodes node).children 0 buffer m
    let m := m.storeWord (flatNode + 4) nChildren
    .ok (buffer, m)

def flattenChildren (dt : DeviceTree) :
    Nat → Option Nat → Word → Word → Machine → Except Stop (Word × Word × Machine)
  | 0, _, _, _, _ => .error .diverges
  | _ + 1, none, count, buffer, m => .ok (count, buffer, m)
  | fuel + 1, some node, count, buffer, m => do
    let (buffer, m) ← dt.flattenNodes fuel (some node) buffer m
    dt.flattenChildren fuel (dt.nodes node).next (count + 1) buffer m

end

/-- More steps than any walk over the allocated nodes can take. -/
def walkLimit (dt : DeviceTree) : Nat := 2 * dt.nodeEnd + 2

def totalSize (dt : DeviceTree) : Word :=
  dt.info.numNodes * DeviceTreeNode.size + dt.info.numProperties * DeviceTreeNodeProperty.size +
    dt.info.totalPropertySize

end DeviceTree

structure Flattened where
  buffer : Option Word
  length : Word
  dt : DeviceTree
  machine : Machine

/-- `buffer` is `*buffer_p`, where a pointer to it is given at all. -/
def dtFlattenDeviceTree (dt : DeviceTree) (buffer : Option Word) (m : Machine) : Except Stop Flattened :=
  match buffer with
  | none => .ok ⟨none, dt.totalSize, dt, m⟩
  | some buf =>
    if dt.totalSize = 0 then .ok ⟨some 0, dt.totalSize, dt, m⟩
    else do
      let (buf, dt) :=
        if buf = 0 then (dt.malloc.call.1, { dt with malloc := dt.malloc.call.2 }) else (buf, dt)
      let m := m.bzero buf dt.totalSize
      let (_, m) ← dt.flattenNodes dt.walkLimit dt.rootNode buf m
      .ok ⟨some buf, dt.totalSize, dt, m⟩

end GenericBooter
