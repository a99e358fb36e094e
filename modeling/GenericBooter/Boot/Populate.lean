import GenericBooter.DeviceTree.Heap
import GenericBooter.Xml.Heap

namespace GenericBooter

def stringLength : Option CString → Except Stop Nat
  | none => .error .null
  | some string => .ok string.chars.length

/-- `(uint32_t) tag->string`, where `symbolAt` says where the symbol of each string lies. -/
def stringWord (symbolAt : CString → Word) : Option CString → Word
  | none => 0
  | some string => symbolAt string

def isChildren : Option CString → Bool
  | none => false
  | some string => string.chars.head? = some 0x40

section Data

variable (xml : Xml) (symbolAt : CString → Word)

/-- The first loop of `ArrayToDeviceTreeData`. -/
def countArray : Nat → Option Nat → Except Stop Nat
  | 0, _ => .error .diverges
  | _ + 1, none => .ok 0
  | fuel + 1, some next => do
    let cnt ← match (xml.tags next).type with
      | .integer => .ok 4
      | .string => do
        let len ← stringLength (xml.tags next).string
        .ok (len + 1)
      | _ => .error .panic
    let more ← countArray fuel (xml.tags next).tagNext
    .ok (cnt + more)

/-- The second one, which skips what it does not know. -/
def copyArray : Nat → Option Nat → Except Stop (List Byte)
  | 0, _ => .error .diverges
  | _ + 1, none => .ok []
  | fuel + 1, some next => do
    let data ← match (xml.tags next).type with
      | .integer => .ok (wordBytes (stringWord symbolAt (xml.tags next).string))
      | .string =>
        match (xml.tags next).string with
        | none => .error .null
        | some string => .ok string.bytes
      | _ => .ok []
    let more ← copyArray fuel (xml.tags next).tagNext
    .ok (data ++ more)

/-- The buffer with its length in `*len`. What `malloc` returns is written to without a look. -/
def arrayToDeviceTreeData (tag : Nat) (malloc : Malloc) : Except Stop ((Word × List Byte) × Malloc) := do
  let fuel := xml.tagCount + 1
  if (xml.tags tag).tag = none then .error .panic
  else if (xml.tags tag).type ≠ .array then .error .panic
  else
    let _ ← countArray xml fuel (xml.tags tag).tag
    let (buf, malloc) := malloc.call
    let data ← copyArray xml symbolAt fuel (xml.tags tag).tag
    if buf = 0 then .error .null else .ok ((BitVec.ofNat 32 data.length, data), malloc)

end Data

def integerToDeviceTreeData (value : Word) (malloc : Malloc) : Except Stop ((Word × List Byte) × Malloc) :=
  let (buf, malloc) := malloc.call
  if buf = 0 then .error .null else .ok ((4, wordBytes value), malloc)

def stringToDeviceTreeData (value : Option CString) (malloc : Malloc) :
    Except Stop ((Word × List Byte) × Malloc) :=
  match value with
  | none => .error .null
  | some string =>
    let (buf, malloc) := malloc.call
    if buf = 0 then .error .null
    else .ok ((BitVec.ofNat 32 (string.chars.length + 1), string.bytes), malloc)

def copyKey (string : Option CString) (malloc : Malloc) : Except Stop (CString × Malloc) := do
  let ((_, name), malloc) ← stringToDeviceTreeData string malloc
  .ok (cString name, malloc)

def addPropertyTo (dt : DeviceTree) (node : Option Nat) (name : CString) (length : Word) (value : Value) :
    Except Stop DeviceTree :=
  match node with
  | some node => do
    let (_, dt) ← dtAddProperty dt node name length value
    .ok dt
  | none =>
    match dt.readyProperty with
    | (none, dt) => .ok dt
    | (some _, _) => .error .null

/-- `pval` is made first, and then the copy of the key. -/
def addData (dt : DeviceTree) (node : Option Nat) (key : Option CString)
    (pval : Malloc → Except Stop ((Word × List Byte) × Malloc)) : Except Stop DeviceTree := do
  let ((plen, pval), malloc) ← pval dt.malloc
  let (name, malloc) ← copyKey key malloc
  addPropertyTo { dt with malloc := malloc } node name plen (bytesValue pval)

section Populate

variable (xml : Xml) (symbolAt : CString → Word)

mutual

def populateDeviceTreeNode : Nat → Nat → Option Nat → DeviceTree → Except Stop DeviceTree
  | 0, _, _, _ => .error .diverges
  | fuel + 1, tag, node, dt =>
    if (xml.tags tag).type ≠ .dict then .error .panic
    else populateKeys fuel (xml.tags tag).tag node dt

/-- The loop of `PopulateDeviceTreeNode`. -/
def populateKeys : Nat → Option Nat → Option Nat → DeviceTree → Except Stop DeviceTree
  | 0, _, _, _ => .error .diverges
  | _ + 1, none, _, dt => .ok dt
  | fuel + 1, some next, node, dt => do
    let key := xml.tags next
    let dt ← match key.tag with
      | none => .ok dt
      | some value =>
        match (xml.tags value).type with
        | .array =>
          if isChildren key.string then walkDeviceTreeNodeChildren fuel value node dt
          else addData dt node key.string (arrayToDeviceTreeData xml symbolAt value)
        | .integer =>
          addData dt node key.string (integerToDeviceTreeData (stringWord symbolAt (xml.tags value).string))
        | .string => addData dt node key.string (stringToDeviceTreeData (xml.tags value).string)
        | _ => .ok dt
    populateKeys fuel key.tagNext node dt

def walkDeviceTreeNodeChildren : Nat → Nat → Option Nat → DeviceTree → Except Stop DeviceTree
  | 0, _, _, _ => .error .diverges
  | fuel + 1, tag, parent, dt =>
    if (xml.tags tag).tag = none then .error .panic
    else if (xml.tags tag).type ≠ .array then .error .panic
    else populateChildren fuel (xml.tags tag).tag parent dt

/-- The loop of `WalkDeviceTreeNodeChildren`. -/
def populateChildren : Nat → Option Nat → Option Nat → DeviceTree → Except Stop DeviceTree
  | 0, _, _, _ => .error .diverges
  | _ + 1, none, _, dt => .ok dt
  | fuel + 1, some next, parent, dt => do
    let (newNode, dt) ← dtAddChild dt parent none
    let dt ← populateDeviceTreeNode fuel next newNode dt
    populateChildren fuel (xml.tags next).tagNext parent dt

end

end Populate

end GenericBooter
