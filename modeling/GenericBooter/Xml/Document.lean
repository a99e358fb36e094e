import GenericBooter.Xml.Runs

namespace GenericBooter

open Linked

structure Text where
  chars : List Byte
  passes : Passes 0x3c chars

def Text.string (text : Text) : CString := ⟨text.chars, text.passes.1⟩

structure Name where
  name : CString
  inside : 0x3e ∉ name.chars

namespace Name

def dict : Name := ⟨kXMLTagDict, by decide⟩
def emptyDict : Name := ⟨ascii "dict/", by decide⟩
def array : Name := ⟨kXMLTagArray, by decide⟩
def emptyArray : Name := ⟨ascii "array/", by decide⟩
def key : Name := ⟨kXMLTagKey, by decide⟩
def string : Name := ⟨kXMLTagString, by decide⟩
def integer : Name := ⟨kXMLTagInteger, by decide⟩
def data : Name := ⟨kXMLTagData, by decide⟩
def date : Name := ⟨kXMLTagDate, by decide⟩
def true : Name := ⟨kXMLTagTrue, by decide⟩
def false : Name := ⟨kXMLTagFalse, by decide⟩

def close (name : Name) : Name where
  name := ⟨0x2f :: name.name.chars, fun member => name.name.noNul ((List.mem_cons.mp member).resolve_left (by decide))⟩
  inside member := name.inside ((List.mem_cons.mp member).resolve_left (by decide))

end Name

def openTag (gap : Text) (name : Name) : List Byte := gap.chars ++ 0x3c :: (name.name.chars ++ [0x3e])

def closeTag (gap : Text) (name : Name) : List Byte := openTag gap name.close

mutual

/-- A value as it is written, with the text in front of each of its tags. -/
inductive Element where
  | dict (gap : Text) (entries : Entries) (last : Text)
  | array (gap : Text) (items : Items) (last : Text)
  | emptyDict (gap : Text)
  | emptyArray (gap : Text)
  | string (gap text : Text)
  | integer (gap text : Text)
  | data (gap text : Text)
  | date (gap text : Text)
  | true (gap : Text)
  | false (gap : Text)

inductive Entries where
  | nil
  | cons (gap key : Text) (value : Element) (later : Entries)

inductive Items where
  | nil
  | cons (value : Element) (later : Items)

end

mutual

def Element.render : Element → List Byte
  | .dict gap entries last => openTag gap .dict ++ (entries.render ++ closeTag last .dict)
  | .array gap items last => openTag gap .array ++ (items.render ++ closeTag last .array)
  | .emptyDict gap => openTag gap .emptyDict
  | .emptyArray gap => openTag gap .emptyArray
  | .string gap text => openTag gap .string ++ closeTag text .string
  | .integer gap text => openTag gap .integer ++ closeTag text .integer
  | .data gap text => openTag gap .data ++ closeTag text .data
  | .date gap text => openTag gap .date ++ closeTag text .date
  | .true gap => openTag gap .true
  | .false gap => openTag gap .false

def Entries.render : Entries → List Byte
  | .nil => []
  | .cons gap key value later => openTag gap .key ++ (closeTag key .key ++ (value.render ++ later.render))

def Items.render : Items → List Byte
  | .nil => []
  | .cons value later => value.render ++ later.render

end

def sequence : List (TagLabel × TagTree) → TagTree
  | [] => .nil
  | (label, below) :: later => .node label below (sequence later)

def Element.label : Element → TagLabel
  | .dict .. => (.dict, none)
  | .array .. => (.array, none)
  | .emptyDict _ => (.dict, none)
  | .emptyArray _ => (.array, none)
  | .string _ text => (.string, some text.string)
  | .integer .. => (.integer, none)
  | .data .. => (.data, none)
  | .date .. => (.date, none)
  | .true _ => (.true, none)
  | .false _ => (.false, none)

mutual

/-- What hangs below the tag of a value: its entries or items, the last one first. -/
def Element.inner : Element → TagTree
  | .dict _ entries _ => sequence entries.tags.reverse
  | .array _ items _ => sequence items.tags.reverse
  | _ => .nil

def Entries.tags : Entries → List (TagLabel × TagTree)
  | .nil => []
  | .cons _ key value later => ((.key, some key.string), .node value.label value.inner .nil) :: later.tags

def Items.tags : Items → List (TagLabel × TagTree)
  | .nil => []
  | .cons value later => (value.label, value.inner) :: later.tags

end

def Element.tree (value : Element) : TagTree := .node value.label value.inner .nil

section Tags

variable {fuel : Nat} {rest : List Byte}

theorem openTag_append (gap : Text) (name : Name) (rest : List Byte) :
    openTag gap name ++ rest = tagged gap.chars name.name.chars rest := by
  simp [openTag, tagged]

theorem openTag_length (gap : Text) (name : Name) :
    (openTag gap name).length = gap.chars.length + 1 + name.name.chars.length + 1 := by
  simp only [openTag, List.length_append, List.length_cons, List.length_nil]
  omega

def readBranch (fuel : Nat) (rest : List Byte) : Branch → Except Halt (Outcome × Nat)
  | .plist => .ok (.unassigned, 0)
  | .list type empty => readTagList fuel rest type empty
  | .key => readTagKey fuel rest
  | .string => readTagLeaf kXMLTagString (fun text => (.string, some text)) rest
  | .integer => readTagLeaf kXMLTagInteger (fun _ => (.integer, none)) rest
  | .data => readTagLeaf kXMLTagData (fun _ => (.data, none)) rest
  | .date => readTagLeaf kXMLTagDate (fun _ => (.date, none)) rest
  | .boolean type => .ok (.tag (type, none) .nil, 0)
  | .other => .ok (.null, 0)

theorem Name.passes (name : Name) : Passes 0x3e name.name.chars := ⟨name.name.noNul, name.inside⟩

theorem readNextTag_eq (fuel : Nat) (gap : Text) (name : Name) (terminated : 0 ∈ rest) :
    readNextTag (fuel + 1) (openTag gap name ++ rest) = (do
      let (outcome, length) ← readBranch fuel rest (tagBranch name.name)
      .ok (outcome, (openTag gap name).length + length)) := by
  have planted := tagged_planted gap.chars name.name.chars 0x3c terminated
  have behind : (tagged gap.chars name.name.chars rest).drop (gap.chars.length + 1 + name.name.chars.length + 1) = rest := by
    rw [← openTag_append, ← openTag_length, List.drop_left]
  have same : cString ((gap.chars ++ 0x3c :: (name.name.chars ++ 0 :: rest)).drop (gap.chars.length + 1)) = name.name :=
    CString.ext_chars (tagName_eq rest name.passes)
  rw [openTag_append, openTag_length, readNextTag, getNextTag_tagged rest gap.passes name.passes]
  simp only [liftStop, ok_bind, planted.after, behind, same]
  cases tagBranch name.name <;> rfl

theorem readNextTag_openTag (fuel : Nat) (gap : Text) (name : Name) (terminated : 0 ∈ rest) {outcome : Outcome} {length : Nat}
    (read : readBranch fuel rest (tagBranch name.name) = .ok (outcome, length)) :
    readNextTag (fuel + 1) (openTag gap name ++ rest) = .ok (outcome, (openTag gap name).length + length) := by
  rw [readNextTag_eq fuel gap name terminated, read]
  rfl

theorem readTagText_closeTag (text : Text) (name : Name) (rest : List Byte) :
    readTagText name.name (closeTag text name ++ rest) = .ok (text.string, (closeTag text name).length) := by
  have found := fixDataMatchingTag_text name.name rest text.passes name.inside
  have same : cString (text.chars ++ 0 :: (0x2f :: name.name.chars ++ 0 :: rest)) = text.string :=
    CString.ext_chars (cString_append_zero text.passes.1 _)
  rw [closeTag, openTag_append, readTagText, show name.close.name.chars = 0x2f :: name.name.chars from rfl, found]
  simp only [liftStop, ok_bind, same]
  rw [openTag_length, show name.close.name.chars.length = name.name.chars.length + 1 from rfl]
  congr 2
  omega

theorem readTagLeaf_closeTag (text : Text) (name : Name) (label : CString → TagLabel) (rest : List Byte) :
    readTagLeaf name.name label (closeTag text name ++ rest) =
      .ok (.tag (label text.string) .nil, (closeTag text name).length) := by
  rw [readTagLeaf, readTagText_closeTag]
  rfl

theorem readTagItems_closeTag (items : TagTree) (gap : Text) (name : Name) (terminated : 0 ∈ rest)
    (known : tagBranch name.close.name = .other) :
    readTagItems (fuel + 2) items (closeTag gap name ++ rest) = .ok (items, (closeTag gap name).length) := by
  have read := readNextTag_openTag fuel gap name.close terminated (congrArg (readBranch fuel rest) known)
  rw [readTagItems, closeTag, read]
  rfl

theorem closeTag_length (text : Text) (name : Name) :
    (closeTag text name).length = text.chars.length + name.name.chars.length + 3 := by
  rw [closeTag, openTag_length, show name.close.name.chars.length = name.name.chars.length + 1 from rfl]
  omega

theorem closeTag_terminated (gap : Text) (name : Name) (terminated : 0 ∈ rest) : 0 ∈ closeTag gap name ++ rest :=
  List.mem_append_right _ terminated

theorem readNextTag_list {gap last : Text} {name : Name} {type : TagType} {items : TagTree} {inner : List Byte}
    (known : tagBranch name.name = .list type false) (terminated : 0 ∈ rest)
    (read : readTagItems fuel .nil (inner ++ closeTag last name ++ rest) =
      .ok (items, (inner ++ closeTag last name).length)) :
    readNextTag (fuel + 2) (openTag gap name ++ (inner ++ closeTag last name) ++ rest) =
      .ok (.tag (type, none) items, (openTag gap name ++ (inner ++ closeTag last name)).length) := by
  have behind : 0 ∈ inner ++ closeTag last name ++ rest := List.mem_append_right _ terminated
  rw [List.append_assoc, List.length_append]
  refine readNextTag_openTag (fuel + 1) gap name behind ?_
  rw [known, readBranch, readTagList]
  simp only [Bool.false_eq_true, if_false, read, ok_bind]

theorem readNextTag_leaf {gap text : Text} (name : Name) (label : CString → TagLabel) (terminated : 0 ∈ rest)
    (known : ∀ rest, readBranch fuel rest (tagBranch name.name) = readTagLeaf name.name label rest) :
    readNextTag (fuel + 1) (openTag gap name ++ closeTag text name ++ rest) =
      .ok (.tag (label text.string) .nil, (openTag gap name ++ closeTag text name).length) := by
  rw [List.append_assoc, List.length_append]
  refine readNextTag_openTag fuel gap name (closeTag_terminated text name terminated) ?_
  rw [known, readTagLeaf_closeTag]

theorem readNextTag_single {gap : Text} {name : Name} {label : TagLabel} (terminated : 0 ∈ rest)
    (known : readBranch fuel rest (tagBranch name.name) = .ok (.tag label .nil, 0)) :
    readNextTag (fuel + 1) (openTag gap name ++ rest) = .ok (.tag label .nil, (openTag gap name).length) :=
  readNextTag_openTag fuel gap name terminated known

theorem readNextTag_key {value : Element} {rest : List Byte} (gap key : Text)
    (read : readNextTag fuel (value.render ++ rest) = .ok (.tag value.label value.inner, value.render.length))
    (terminated : 0 ∈ rest) :
    readNextTag (fuel + 2) (openTag gap .key ++ (closeTag key .key ++ value.render) ++ rest) =
      .ok (.tag (.key, some key.string) (.node value.label value.inner .nil),
        (openTag gap .key ++ (closeTag key .key ++ value.render)).length) := by
  rw [List.append_assoc, List.length_append]
  have behind : 0 ∈ closeTag key .key ++ value.render ++ rest := List.mem_append_right _ terminated
  refine readNextTag_openTag (fuel + 1) gap .key behind ?_
  rw [show tagBranch Name.key.name = .key by decide, readBranch, readTagKey, List.append_assoc]
  have text := readTagText_closeTag key .key (value.render ++ rest)
  rw [show Name.key.name = kXMLTagKey from rfl] at text
  simp only [text, ok_bind, List.drop_left, read, List.length_append]

theorem readTagItems_item {item inner : List Byte} {label : TagLabel} {below items : TagTree} {done : TagTree}
    (first : readNextTag fuel (item ++ (inner ++ rest)) = .ok (.tag label below, item.length))
    (later : readTagItems fuel (.node label below done) (inner ++ rest) = .ok (items, inner.length)) :
    readTagItems (fuel + 1) done (item ++ inner ++ rest) = .ok (items, (item ++ inner).length) := by
  rw [List.append_assoc, readTagItems, first, List.length_append]
  simp only [ok_bind, List.drop_left, later]

theorem openTag_nonempty (gap : Text) (name : Name) : 1 ≤ (openTag gap name).length := by
  rw [openTag_length]
  omega

theorem Element.render_length (value : Element) : 1 ≤ value.render.length := by
  cases value <;> simp only [Element.render, List.length_append, openTag_length] <;> omega

mutual

theorem Element.reads : ∀ (value : Element) (rest : List Byte), 0 ∈ rest → ∀ fuel, 2 * value.render.length ≤ fuel →
    readNextTag fuel (value.render ++ rest) = .ok (.tag value.label value.inner, value.render.length)
  | .dict gap entries last, rest, terminated, fuel, enough => by
    rw [Element.render, List.length_append, openTag_length] at enough
    obtain ⟨fuel, rfl⟩ : ∃ less, fuel = less + 2 := ⟨fuel - 2, by omega⟩
    have read := entries.reads [] last .dict (by decide) rest terminated fuel (by omega)
    rw [List.append_nil] at read
    simp only [Element.render, Element.label, Element.inner]
    exact readNextTag_list (by decide) terminated read
  | .array gap items last, rest, terminated, fuel, enough => by
    rw [Element.render, List.length_append, openTag_length] at enough
    obtain ⟨fuel, rfl⟩ : ∃ less, fuel = less + 2 := ⟨fuel - 2, by omega⟩
    have read := items.reads [] last .array (by decide) rest terminated fuel (by omega)
    rw [List.append_nil] at read
    simp only [Element.render, Element.label, Element.inner]
    exact readNextTag_list (by decide) terminated read
  | .emptyDict gap, rest, terminated, fuel, enough => by
    rw [Element.render, openTag_length] at enough
    obtain ⟨fuel, rfl⟩ : ∃ less, fuel = less + 2 := ⟨fuel - 2, by omega⟩
    simp only [Element.render, Element.label, Element.inner]
    exact readNextTag_single terminated rfl
  | .emptyArray gap, rest, terminated, fuel, enough => by
    rw [Element.render, openTag_length] at enough
    obtain ⟨fuel, rfl⟩ : ∃ less, fuel = less + 2 := ⟨fuel - 2, by omega⟩
    simp only [Element.render, Element.label, Element.inner]
    exact readNextTag_single terminated rfl
  | .string gap text, rest, terminated, fuel, enough => by
    rw [Element.render, List.length_append, openTag_length] at enough
    obtain ⟨fuel, rfl⟩ : ∃ less, fuel = less + 1 := ⟨fuel - 1, by omega⟩
    simp only [Element.render, Element.label, Element.inner]
    exact readNextTag_leaf .string (fun text => (.string, some text)) terminated fun _ => rfl
  | .integer gap text, rest, terminated, fuel, enough => by
    rw [Element.render, List.length_append, openTag_length] at enough
    obtain ⟨fuel, rfl⟩ : ∃ less, fuel = less + 1 := ⟨fuel - 1, by omega⟩
    simp only [Element.render, Element.label, Element.inner]
    exact readNextTag_leaf .integer (fun _ => (.integer, none)) terminated fun _ => rfl
  | .data gap text, rest, terminated, fuel, enough => by
    rw [Element.render, List.length_append, openTag_length] at enough
    obtain ⟨fuel, rfl⟩ : ∃ less, fuel = less + 1 := ⟨fuel - 1, by omega⟩
    simp only [Element.render, Element.label, Element.inner]
    exact readNextTag_leaf .data (fun _ => (.data, none)) terminated fun _ => rfl
  | .date gap text, rest, terminated, fuel, enough => by
    rw [Element.render, List.length_append, openTag_length] at enough
    obtain ⟨fuel, rfl⟩ : ∃ less, fuel = less + 1 := ⟨fuel - 1, by omega⟩
    simp only [Element.render, Element.label, Element.inner]
    exact readNextTag_leaf .date (fun _ => (.date, none)) terminated fun _ => rfl
  | .true gap, rest, terminated, fuel, enough => by
    rw [Element.render, openTag_length] at enough
    obtain ⟨fuel, rfl⟩ : ∃ less, fuel = less + 1 := ⟨fuel - 1, by omega⟩
    simp only [Element.render, Element.label, Element.inner]
    exact readNextTag_single terminated rfl
  | .false gap, rest, terminated, fuel, enough => by
    rw [Element.render, openTag_length] at enough
    obtain ⟨fuel, rfl⟩ : ∃ less, fuel = less + 1 := ⟨fuel - 1, by omega⟩
    simp only [Element.render, Element.label, Element.inner]
    exact readNextTag_single terminated rfl

theorem Entries.reads : ∀ (entries : Entries) (done : List (TagLabel × TagTree)) (last : Text) (name : Name),
    tagBranch name.close.name = .other → ∀ rest : List Byte, 0 ∈ rest → ∀ fuel,
    2 * (entries.render ++ closeTag last name).length + 1 ≤ fuel →
    readTagItems fuel (sequence done) (entries.render ++ closeTag last name ++ rest) =
      .ok (sequence (entries.tags.reverse ++ done), (entries.render ++ closeTag last name).length)
  | .nil, done, last, name, known, rest, terminated, fuel, enough => by
    rw [List.length_append, closeTag_length] at enough
    obtain ⟨fuel, rfl⟩ : ∃ less, fuel = less + 2 := ⟨fuel - 2, by omega⟩
    exact readTagItems_closeTag _ last name terminated known
  | .cons gap key value later, done, last, name, known, rest, terminated, fuel, enough => by
    simp only [Entries.render, List.length_append, openTag_length, closeTag_length] at enough
    obtain ⟨fuel, rfl⟩ : ∃ less, fuel = less + 3 := ⟨fuel - 3, by omega⟩
    have behind : 0 ∈ later.render ++ closeTag last name ++ rest := List.mem_append_right _ terminated
    have here := readNextTag_key gap key (value.reads _ behind fuel (by omega)) behind
    have next := later.reads (((.key, some key.string), .node value.label value.inner .nil) :: done) last name known rest
      terminated (fuel + 2) (by simp only [List.length_append, closeTag_length]; omega)
    rw [Entries.render, Entries.tags, List.reverse_cons, List.append_assoc _ [_], List.singleton_append,
      ← List.append_assoc (closeTag key .key), ← List.append_assoc (openTag gap .key), List.append_assoc _ later.render]
    exact readTagItems_item here next

theorem Items.reads : ∀ (items : Items) (done : List (TagLabel × TagTree)) (last : Text) (name : Name),
    tagBranch name.close.name = .other → ∀ rest : List Byte, 0 ∈ rest → ∀ fuel,
    2 * (items.render ++ closeTag last name).length + 1 ≤ fuel →
    readTagItems fuel (sequence done) (items.render ++ closeTag last name ++ rest) =
      .ok (sequence (items.tags.reverse ++ done), (items.render ++ closeTag last name).length)
  | .nil, done, last, name, known, rest, terminated, fuel, enough => by
    rw [List.length_append, closeTag_length] at enough
    obtain ⟨fuel, rfl⟩ : ∃ less, fuel = less + 2 := ⟨fuel - 2, by omega⟩
    exact readTagItems_closeTag _ last name terminated known
  | .cons value later, done, last, name, known, rest, terminated, fuel, enough => by
    have some' := value.render_length
    simp only [Items.render, List.length_append, closeTag_length] at enough
    obtain ⟨fuel, rfl⟩ : ∃ less, fuel = less + 1 := ⟨fuel - 1, by omega⟩
    have behind : 0 ∈ later.render ++ closeTag last name ++ rest := List.mem_append_right _ terminated
    have here := value.reads _ behind fuel (by omega)
    have next := later.reads ((value.label, value.inner) :: done) last name known rest terminated fuel
      (by simp only [List.length_append, closeTag_length]; omega)
    rw [Items.render, Items.tags, List.reverse_cons, List.append_assoc _ [_], List.singleton_append,
      List.append_assoc value.render]
    exact readTagItems_item here next

end

end Tags

/-- A call on the text of a value, wherever the text goes on, returns the place behind the value and a
    tree of tags that holds it. -/
theorem element_parses {malloc : Malloc} {stack : Nat → Option Nat} {run : XmlRun}
    (reachable : XmlReachable malloc stack run) (good : run.xml.malloc.Succeeds) (value : Element)
    (following : List Byte) (tag : Option Nat) :
    ∃ p root tags, xmlParseNextTag tag (value.render ++ (following ++ [0])) run.xml = .ok p ∧
      p.length = some value.render.length ∧ p.tag = some root ∧ Rooted p.xml (some root) tags value.tree := by
  obtain ⟨trees, holds⟩ := reachable.holds
  have behind : 0 ∈ following ++ [0] := List.mem_append_right _ List.mem_cons_self
  have read := value.reads _ behind (2 * (value.render ++ (following ++ [0])).length + 2) (by
    rw [List.length_append]
    omega)
  have refines := (refinement (2 * (value.render ++ (following ++ [0])).length + 2)).next tag
    (List.mem_append_right value.render behind) holds.held
  rw [read] at refines
  rcases refines with ⟨bad, _⟩ | ⟨p, ran, total, _, top, tags, some, added⟩
  · exact absurd good bad
  · have rooted := added.rooted
    rw [some] at rooted
    exact ⟨p, top, _, ran, total, some, rooted⟩

def noText : Text := ⟨[], List.not_mem_nil, List.not_mem_nil⟩

def smallDict : Element := .dict noText (.cons noText noText (.emptyArray noText) .nil) noText

theorem roomy_succeeds : roomy.Succeeds := fun _ _ => show (0x1000 : Word) ≠ 0 by decide

theorem smallDict_parses : ∃ p root tags,
    xmlParseNextTag none (smallDict.render ++ ((ascii "<true/>").chars ++ [0])) (Xml.bss roomy fun _ => none) = .ok p ∧
      p.length = some smallDict.render.length ∧ p.tag = some root ∧
      Rooted p.xml (some root) tags (.node (.dict, none)
        (.node (.key, some (ascii "")) (.node (.array, none) .nil .nil) .nil) .nil) :=
  have reachable : XmlReachable roomy (fun _ => none) ⟨Xml.bss roomy fun _ => none, 0⟩ := Relation.ReflTransGen.refl
  element_parses reachable roomy_succeeds smallDict (ascii "<true/>").chars none

end GenericBooter
