import GenericBooter.Xml.Heap
import GenericBooter.Xml.Scan

namespace GenericBooter

def kXMLTagPList : List Byte := (ascii "plist ").chars
def kXMLTagDict : CString := ascii "dict"
def kXMLTagKey : CString := ascii "key"
def kXMLTagString : CString := ascii "string"
def kXMLTagInteger : CString := ascii "integer"
def kXMLTagData : CString := ascii "data"
def kXMLTagDate : CString := ascii "date"
def kXMLTagFalse : CString := ascii "false/"
def kXMLTagTrue : CString := ascii "true/"
def kXMLTagArray : CString := ascii "array"

inductive Branch where
  | plist
  | list (type : TagType) (empty : Bool)
  | key
  | string
  | integer
  | data
  | date
  | boolean (type : TagType)
  | other
deriving DecidableEq, Repr

def tagBranch (tagName : CString) : Branch :=
  if kXMLTagPList.isPrefixOf tagName.chars then .plist
  else if tagName = kXMLTagDict then .list .dict false
  else if tagName.chars = kXMLTagDict.chars ++ [0x2f] then .list .dict true
  else if tagName = kXMLTagKey then .key
  else if tagName = kXMLTagString then .string
  else if tagName = kXMLTagInteger then .integer
  else if tagName = kXMLTagData then .data
  else if tagName = kXMLTagDate then .date
  else if tagName = kXMLTagFalse then .boolean .false
  else if tagName = kXMLTagTrue then .boolean .true
  else if tagName = kXMLTagArray then .list .array false
  else if tagName.chars = kXMLTagArray.chars ++ [0x2f] then .list .array true
  else .other

/-- The result (`none` for -1), `*tag`, the text and the statics after a call. -/
structure Parsed where
  length : Option Nat
  tag : Option Nat
  buffer : List Byte
  xml : Xml

/-- The parsers of `<integer>`, `<data>` and `<date>`: the text itself is dropped. -/
def parseTagLeaf (name : CString) (type : TagType) (tag : Option Nat) (buffer : List Byte) (xml : Xml) :
    Except Stop Parsed := do
  let fixed ← fixDataMatchingTag buffer name
  match fixed.length with
  | none => .ok ⟨none, tag, fixed.buffer, xml⟩
  | some length =>
    match newTag xml with
    | (none, xml) => .ok ⟨none, tag, fixed.buffer, xml⟩
    | (some tmpTag, xml) =>
      .ok ⟨some length, some tmpTag, fixed.buffer, xml.setTag tmpTag ⟨type, none, none, none⟩⟩

/-- The string of the tag is `(char *)0`, whatever the text says. -/
def parseTagInteger : Option Nat → List Byte → Xml → Except Stop Parsed := parseTagLeaf kXMLTagInteger .integer

def parseTagData : Option Nat → List Byte → Xml → Except Stop Parsed := parseTagLeaf kXMLTagData .data

def parseTagDate : Option Nat → List Byte → Xml → Except Stop Parsed := parseTagLeaf kXMLTagDate .date

def parseTagString (tag : Option Nat) (buffer : List Byte) (xml : Xml) : Except Stop Parsed := do
  let fixed ← fixDataMatchingTag buffer kXMLTagString
  match fixed.length with
  | none => .ok ⟨none, tag, fixed.buffer, xml⟩
  | some length =>
    match newTag xml with
    | (none, xml) => .ok ⟨none, tag, fixed.buffer, xml⟩
    | (some tmpTag, xml) => do
      let string := cString fixed.buffer
      let xml ← newSymbol xml string
      .ok ⟨some length, some tmpTag, fixed.buffer, xml.setTag tmpTag ⟨.string, some string, none, none⟩⟩

def parseTagBoolean (type : TagType) (tag : Option Nat) (buffer : List Byte) (xml : Xml) : Parsed :=
  match newTag xml with
  | (none, xml) => ⟨none, tag, buffer, xml⟩
  | (some tmpTag, xml) => ⟨some 0, some tmpTag, buffer, xml.setTag tmpTag ⟨type, none, none, none⟩⟩

mutual

/-- `XMLParseNextTag`; `tag` is what `*tag` holds before the call. -/
def parseNextTag : Nat → Option Nat → List Byte → Xml → Except Stop Parsed
  | 0, _, _, _ => .error .diverges
  | fuel + 1, tag, buffer, xml => do
    match ← getNextTag buffer with
    | none => .ok ⟨none, tag, buffer, xml⟩
    | some next =>
      let rest := next.buffer.drop next.length
      let parsed ← match tagBranch (cString (next.buffer.drop next.tag)) with
        | .plist => .ok ⟨some 0, tag, rest, xml⟩
        | .list type empty => parseTagList fuel tag rest type empty xml
        | .key => parseTagKey fuel tag rest xml
        | .string => parseTagString tag rest xml
        | .integer => parseTagInteger tag rest xml
        | .data => parseTagData tag rest xml
        | .date => parseTagDate tag rest xml
        | .boolean type => .ok (parseTagBoolean type tag rest xml)
        | .other => .ok ⟨some 0, none, rest, xml⟩
      .ok { parsed with
        length := parsed.length.map (next.length + ·)
        buffer := next.buffer.take next.length ++ parsed.buffer }

/-- The loop of `ParseTagList`; the result holds `tagList` as its tag. -/
def parseTagItems : Nat → Option Nat → Option Nat → List Byte → Xml → Except Stop Parsed
  | 0, _, _, _, _ => .error .diverges
  | fuel + 1, tmpTag, tagList, buffer, xml => do
    let item ← parseNextTag fuel tmpTag buffer xml
    match item.length, item.tag with
    | none, _ => .ok { item with tag := tagList }
    | some _, none => .ok { item with tag := tagList }
    | some length, some tmpTag =>
      let xml := item.xml.setTag tmpTag { item.xml.tags tmpTag with tagNext := tagList }
      let later ← parseTagItems fuel (some tmpTag) (some tmpTag) (item.buffer.drop length) xml
      .ok { later with
        length := later.length.map (length + ·)
        buffer := item.buffer.take length ++ later.buffer }

def parseTagList : Nat → Option Nat → List Byte → TagType → Bool → Xml → Except Stop Parsed
  | 0, _, _, _, _, _ => .error .diverges
  | fuel + 1, tag, buffer, type, empty, xml => do
    let (tmpTag, xml) := xml.local'
    let items ← if empty then .ok ⟨some 0, none, buffer, xml⟩
      else parseTagItems fuel tmpTag none buffer xml
    match items.length with
    | none => do
      let xml ← xmlFreeTag items.xml items.tag
      .ok ⟨none, tag, items.buffer, xml⟩
    | some pos =>
      match newTag items.xml with
      | (none, xml) => do
        let xml ← xmlFreeTag xml items.tag
        .ok ⟨none, tag, items.buffer, xml⟩
      | (some tmpTag, xml) =>
        .ok ⟨some pos, some tmpTag, items.buffer, xml.setTag tmpTag ⟨type, none, items.tag, none⟩⟩

def parseTagKey : Nat → Option Nat → List Byte → Xml → Except Stop Parsed
  | 0, _, _, _ => .error .diverges
  | fuel + 1, tag, buffer, xml => do
    let fixed ← fixDataMatchingTag buffer kXMLTagKey
    match fixed.length with
    | none => .ok ⟨none, tag, fixed.buffer, xml⟩
    | some length =>
      let (subTag, xml) := xml.local'
      let sub ← parseNextTag fuel subTag (fixed.buffer.drop length) xml
      let buffer := fixed.buffer.take length ++ sub.buffer
      match sub.length with
      | none => .ok ⟨none, tag, buffer, sub.xml⟩
      | some length2 =>
        match newTag sub.xml with
        | (none, xml) => do
          let xml ← xmlFreeTag xml sub.tag
          .ok ⟨none, tag, buffer, xml⟩
        | (some tmpTag, xml) => do
          -- the key's text is read back only now
          let string := cString buffer
          let xml ← newSymbol xml string
          .ok ⟨some (length + length2), some tmpTag, buffer,
            xml.setTag tmpTag ⟨.key, some string, sub.tag, none⟩⟩

end

/-- A call on a text. Each scan for a tag consumes at least two bytes, and at most two other calls are
    nested between it and the next scan. -/
def xmlParseNextTag (tag : Option Nat) (buffer : List Byte) (xml : Xml) : Except Stop Parsed :=
  parseNextTag (2 * buffer.length + 2) tag buffer xml

end GenericBooter
