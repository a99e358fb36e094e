import GenericBooter.Machine.CString
import GenericBooter.Machine.Malloc
import GenericBooter.Machine.Stop

namespace GenericBooter

inductive TagType where
  | none
  | dict
  | key
  | string
  | integer
  | data
  | date
  | false
  | true
  | array
deriving DecidableEq, Repr

structure Tag where
  type : TagType
  string : Option CString
  tag : Option Nat
  tagNext : Option Nat

structure Symbol where
  refCount : Int
  string : CString

def kTagsPerBlock : Nat := 0x1000

/-- The statics of xml.c. `stack` is what the uninitialised `TagPtr` locals hold, call by call. -/
structure Xml where
  tags : Nat → Tag
  tagCount : Nat
  tagsFree : Option Nat
  symbols : List Symbol
  malloc : Malloc
  stack : Nat → Option Nat
  frames : Nat

namespace Xml

def setTag (xml : Xml) (tag : Nat) (cell : Tag) : Xml :=
  { xml with tags := Function.update xml.tags tag cell }

def local' (xml : Xml) : Option Nat × Xml := (xml.stack xml.frames, { xml with frames := xml.frames + 1 })

/-- `tag[cnt].tagNext = tag + cnt + 1`, and null for the last one. -/
def freshTags (base : Nat) (tag : Nat) : Tag :=
  ⟨.none, .none, .none, if tag + 1 = base + kTagsPerBlock then .none else some (tag + 1)⟩

end Xml

def newTag (xml : Xml) : Option Nat × Xml :=
  match xml.tagsFree with
  | some tag => (some tag, { xml with tagsFree := (xml.tags tag).tagNext })
  | none =>
    let (block, malloc) := xml.malloc.call
    if block = 0 then (none, { xml with malloc := malloc })
    else
      let base := xml.tagCount
      let tags := fun tag => if base ≤ tag ∧ tag < base + kTagsPerBlock
        then Xml.freshTags base tag else xml.tags tag
      (some base, { xml with
        tags := tags
        tagCount := base + kTagsPerBlock
        tagsFree := (tags base).tagNext
        malloc := malloc })

def findSymbol (string : CString) (symbols : List Symbol) : Option Symbol :=
  symbols.find? fun symbol => symbol.string = string

def addRef (string : CString) (amount : Int) : List Symbol → List Symbol
  | [] => []
  | symbol :: later =>
    if symbol.string = string then { symbol with refCount := symbol.refCount + amount } :: later
    else symbol :: addRef string amount later

/-- The result points at `string` in the table; it is never null. -/
def newSymbol (xml : Xml) (string : CString) : Except Stop Xml :=
  match findSymbol string xml.symbols with
  | some _ => .ok { xml with symbols := addRef string 1 xml.symbols }
  | none =>
    let (block, malloc) := xml.malloc.call
    if block = 0 then .error .panic
    else .ok { xml with symbols := addRef string 1 (⟨0, string⟩ :: xml.symbols), malloc := malloc }

def freeSymbol (xml : Xml) (string : CString) : Xml :=
  match findSymbol string xml.symbols with
  | none => xml
  | some symbol =>
    if symbol.refCount - 1 ≠ 0 then { xml with symbols := addRef string (-1) xml.symbols }
    else { xml with symbols := xml.symbols.eraseP fun symbol => symbol.string = string }

def freeTagString (xml : Xml) (tag : Nat) : Xml :=
  match (xml.tags tag).string with
  | some string => freeSymbol xml string
  | none => xml

def freeTagFrom : Nat → Option Nat → Xml → Except Stop Xml
  | 0, _, _ => .error .diverges
  | _ + 1, none, xml => .ok xml
  | fuel + 1, some tag, xml => do
    let xml := freeTagString xml tag
    let xml ← freeTagFrom fuel (xml.tags tag).tag xml
    let xml ← freeTagFrom fuel (xml.tags tag).tagNext xml
    .ok { xml.setTag tag ⟨.none, none, none, xml.tagsFree⟩ with tagsFree := some tag }

def xmlFreeTag (xml : Xml) (tag : Option Nat) : Except Stop Xml := freeTagFrom (xml.tagCount + 1) tag xml

end GenericBooter
