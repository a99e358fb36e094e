import GenericBooter.Boot.Description
import GenericBooter.Boot.Kernel
import GenericBooter.DeviceTree.Runs

namespace GenericBooter

open Linked ByteMemory

def kBootLineLength : Nat := 256

structure BootVideo where
  baseAddr : Word
  display : Word
  rowBytes : Word
  width : Word
  height : Word
  depth : Word

structure BootArgs where
  revision : BitVec 16
  version : BitVec 16
  virtBase : Word
  physBase : Word
  memSize : Word
  topOfKernelData : Word
  video : BootVideo
  machineType : Word
  deviceTreeP : Word
  deviceTreeLength : Word
  commandLine : Vector Byte kBootLineLength

/-- The globals and statics of the booter. There is one heap, and `dt.malloc` is its state. -/
structure Booter where
  platform : Platform
  xml : Xml
  dt : DeviceTree
  bootArgs : BootArgs
  ramdiskBase : Word
  ramdiskSize : Word
  symbolAt : CString → Word

def stringFrom (m : Memory) : Nat → Word → Except Stop (List Byte)
  | 0, _ => .error .diverges
  | left + 1, address =>
    if m address = 0 then .ok [0]
    else do
      let rest ← stringFrom m left (address + 1)
      .ok (m address :: rest)

def stringAt (m : Memory) (address : Word) : Except Stop (List Byte) := stringFrom m (2 ^ 32) address

theorem read_one {m : Memory} {base : Word} : read m base 1 = [m base] := by
  change [m (base + BitVec.ofNat 32 0)] = [m base]
  rw [BitVec.add_zero]

theorem stringFrom_read {m : Memory} {base : Word} {left : Nat} {text : List Byte}
    (ran : stringFrom m left base = .ok text) :
    text = read m base text.length ∧ text.length ≤ left := by
  induction left generalizing base text with
  | zero => cases ran
  | succ left ih =>
    rw [stringFrom] at ran
    split at ran
    · rename_i zero
      obtain rfl := Except.ok.inj ran
      refine ⟨?_, Nat.succ_le_succ (Nat.zero_le _)⟩
      rw [List.length_singleton, read_one, zero]
    · obtain ⟨rest, later, ran⟩ := bind_eq_ok.mp ran
      obtain rfl := Except.ok.inj ran
      obtain ⟨same, short⟩ := ih later
      have split := read_append m base 1 rest.length
      rw [read_one, show BitVec.ofNat 32 1 = (1 : Word) from rfl, ← same] at split
      refine ⟨?_, Nat.succ_le_succ short⟩
      rw [List.length_cons, Nat.add_comm, split]
      rfl

theorem stringFrom_of_read {m : Memory} {base : Word} {left : Nat} {chars : List Byte} (noNul : 0 ∉ chars)
    (held : read m base (chars.length + 1) = chars ++ [0]) (enough : chars.length < left) :
    stringFrom m left base = .ok (chars ++ [0]) := by
  induction left generalizing base chars with
  | zero => omega
  | succ left ih =>
    have first : [m base] ++ read m (base + 1) chars.length = chars ++ [0] := by
      rw [← held, Nat.add_comm, read_append, read_one]
      rfl
    rw [stringFrom]
    cases chars with
    | nil => rw [if_pos (List.cons.inj first).1, List.nil_append]
    | cons c chars =>
      rw [List.mem_cons, not_or] at noNul
      obtain ⟨here, rest⟩ := List.cons.inj first
      have nonzero : m base ≠ 0 := fun zero => noNul.1 (zero.symm.trans here)
      rw [List.length_cons] at enough
      rw [if_neg nonzero, ih noNul.2 rest (by omega), ok_bind, here, List.cons_append]

namespace Booter

def parseNextTag (b : Booter) (tag : Option Nat) (text : List Byte) : Except Stop (Parsed × Booter) := do
  let parsed ← xmlParseNextTag tag text { b.xml with malloc := b.dt.malloc }
  .ok (parsed, { b with xml := parsed.xml, dt := { b.dt with malloc := parsed.xml.malloc } })

def freeTag (b : Booter) (tag : Nat) : Except Stop Booter := do
  let xml ← xmlFreeTag b.xml (some tag)
  .ok { b with xml := xml }

def populate (b : Booter) (tag root : Nat) : Except Stop Booter := do
  let dt ← populateDeviceTreeNode b.xml b.symbolAt (3 * b.xml.tagCount + 3) tag (some root) b.dt
  .ok { b with dt := dt }

end Booter

/-- The loop of `prepare_devicetree`, which returns the text as the parser leaves it. -/
def enterDocument (root : Nat) : Nat → Option Nat → List Byte → Booter → Except Stop (Bool × List Byte × Booter)
  | 0, _, _, _ => .error .diverges
  | fuel + 1, tag, text, b => do
    let (parsed, b) ← b.parseNextTag tag text
    match parsed.length, parsed.tag with
    | none, _ => .ok (false, parsed.buffer, b)
    | some length, none => do
      let (entered, rest, b) ← enterDocument root fuel none (parsed.buffer.drop length) b
      .ok (entered, parsed.buffer.take length ++ rest, b)
    | some length, some tag =>
      if (b.xml.tags tag).type = .dict then do
        let b ← b.populate tag root
        let b ← b.freeTag tag
        .ok (true, parsed.buffer, b)
      else do
        let b ← b.freeTag tag
        let (entered, rest, b) ← enterDocument root fuel (some tag) (parsed.buffer.drop length) b
        .ok (entered, parsed.buffer.take length ++ rest, b)

/-- What the stack happens to hold in the locals of `prepare_devicetree`. -/
structure DevicetreeLocals where
  deviceTreeData : Word
  deviceTreeSize : Word
  tag : Option Nat

/-- The parser works in place: the NULs it plants stay within the text and are not among `stores`. -/
def prepareDevicetree (locals : DevicetreeLocals) (b : Booter) : Except Stop (Bool × Booter) := do
  let m := b.platform.machine.memory
  let image ← getImage3 m b.platform.imagesEnd kImage3TypeXmlDeviceTree
  require (image ≠ 0)
  let payload ← image3GetTagData m image kImage3TagData locals.deviceTreeData locals.deviceTreeSize
  let dt ← dtInitialize b.dt
  match dt.rootNode with
  | none => .error .assertion
  | some root => do
    let text ← stringAt m payload.data
    let (entered, text, b) ← enterDocument root (text.length + 1) locals.tag text { b with dt := dt }
    let machine := { b.platform.machine with memory := write m payload.data text }
    .ok (entered, { b with platform := { b.platform with machine := machine } })

structure Header where
  gap : Text
  mark : Byte
  body : List Byte
  marked : mark = 0x3f ∨ mark = 0x21
  passes : Passes 0x3e body

namespace Header

def name (header : Header) : Name where
  name := ⟨header.mark :: header.body, by
    rw [List.mem_cons, not_or]
    refine ⟨fun equal => ?_, header.passes.1⟩
    rcases header.marked with mark | mark <;> rw [mark] at equal <;> exact absurd equal (by decide)⟩
  inside := by
    rw [List.mem_cons, not_or]
    refine ⟨fun equal => ?_, header.passes.2⟩
    rcases header.marked with mark | mark <;> rw [mark] at equal <;> exact absurd equal (by decide)

def render (header : Header) : List Byte := openTag header.gap header.name

end Header

structure PlistTag where
  gap : Text
  body : List Byte
  passes : Passes 0x3e body

namespace PlistTag

def name (plist : PlistTag) : Name where
  name := ⟨kXMLTagPList ++ plist.body, by
    rw [List.mem_append, not_or]
    exact ⟨by decide, plist.passes.1⟩⟩
  inside := by
    rw [List.mem_append, not_or]
    exact ⟨by decide, plist.passes.2⟩

def render (plist : PlistTag) : List Byte := openTag plist.gap plist.name

end PlistTag

structure Document where
  first : Header
  headers : List Header
  plist : Option PlistTag
  root : Element
  describes : root.IsNode

namespace Document

def prolog (headers : List Header) (plist : Option PlistTag) : List Byte :=
  headers.flatMap Header.render ++ (plist.toList.flatMap PlistTag.render)

def render (document : Document) : List Byte :=
  document.first.render ++ (prolog document.headers document.plist ++ document.root.render)

end Document

theorem tagBranch_other {name : CString}
    (first : ∀ c ∈ [0x70, 0x64, 0x6b, 0x73, 0x69, 0x66, 0x74, 0x61], name.chars.head? ≠ some c) :
    tagBranch name = .other := by
  have noPlist : ¬ kXMLTagPList.isPrefixOf name.chars = true := by
    intro isPrefix
    obtain ⟨rest, equal⟩ := List.isPrefixOf_iff_prefix.mp isPrefix
    exact first 0x70 (by decide) (equal ▸ rfl)
  have chars {text : List Byte} {c : Byte} (head : text.head? = some c)
      (known : c ∈ [0x70, 0x64, 0x6b, 0x73, 0x69, 0x66, 0x74, 0x61]) : name.chars ≠ text :=
    fun equal => first c known (equal ▸ head)
  have differs {text : CString} {c : Byte} (head : text.chars.head? = some c)
      (known : c ∈ [0x70, 0x64, 0x6b, 0x73, 0x69, 0x66, 0x74, 0x61]) : name ≠ text :=
    fun equal => chars head known (congrArg CString.chars equal)
  rw [tagBranch, if_neg noPlist, if_neg (differs (c := 0x64) rfl (by decide)),
    if_neg (chars (c := 0x64) rfl (by decide)), if_neg (differs (c := 0x6b) rfl (by decide)),
    if_neg (differs (c := 0x73) rfl (by decide)), if_neg (differs (c := 0x69) rfl (by decide)),
    if_neg (differs (c := 0x64) rfl (by decide)), if_neg (differs (c := 0x64) rfl (by decide)),
    if_neg (differs (c := 0x66) rfl (by decide)), if_neg (differs (c := 0x74) rfl (by decide)),
    if_neg (differs (c := 0x61) rfl (by decide)), if_neg (chars (c := 0x61) rfl (by decide))]

theorem Header.other (header : Header) : tagBranch header.name.name = .other := by
  apply tagBranch_other
  intro c known equal
  obtain rfl : header.mark = c := Option.some.inj equal
  rcases header.marked with mark | mark
  · rw [mark] at known
    exact absurd known (by decide)
  · rw [mark] at known
    exact absurd known (by decide)

theorem PlistTag.branch (plist : PlistTag) : tagBranch plist.name.name = .plist := by
  apply if_pos
  rw [List.isPrefixOf_iff_prefix]
  exact List.prefix_append kXMLTagPList plist.body

section Loop

variable {b : Booter} {live : Multiset Nat} {texts : Multiset CString} {tree : Forest}

/-- Between two calls of the parser: the tags in use, the device tree so far, and memory to be had. -/
structure Waiting (b : Booter) (live : Multiset Nat) (texts : Multiset CString) (tree : Forest) : Prop where
  held : Held b.xml live texts
  shown : Represents b.dt tree
  good : b.dt.malloc.Succeeds

def Completed (b b' : Booter) (target : PlainTree) : Prop :=
  b'.platform = b.platform ∧ b'.bootArgs = b.bootArgs ∧
    ∃ tree, Represents b'.dt tree ∧ tree.map contents = target ∧ b'.dt.malloc.Succeeds

def Enters (root fuel : Nat) (tag : Option Nat) (text : List Byte) (b : Booter) (live : Multiset Nat)
    (texts : Multiset CString) (target : PlainTree) : Prop :=
  ∃ text' b', enterDocument root fuel tag text b = .ok (true, text', b') ∧ Completed b b' target ∧
    Held b'.xml live texts

theorem parseNextTag_reads (waiting : Waiting b live texts tree) {text : List Byte} (terminated : 0 ∈ text)
    {outcome : Outcome} {length : Nat} (read : readNextTag (2 * text.length + 2) text = .ok (outcome, length))
    (tag : Option Nat) :
    ∃ p, b.parseNextTag tag text = .ok (p, { b with xml := p.xml, dt := { b.dt with malloc := p.xml.malloc } }) ∧
      p.length = some length ∧ p.buffer.drop length = text.drop length ∧
      Leaves { b.xml with malloc := b.dt.malloc } p.xml live texts tag p.tag outcome := by
  have held : Held { b.xml with malloc := b.dt.malloc } live texts := ⟨waiting.held.pool, waiting.held.symbols⟩
  have refines := (refinement (2 * text.length + 2)).next tag terminated held
  rw [read] at refines
  rcases refines with ⟨bad, _⟩ | ⟨p, ran, total, planted, leaves⟩
  · exact absurd waiting.good bad
  · refine ⟨p, ?_, total, planted.after, leaves⟩
    rw [Booter.parseNextTag, xmlParseNextTag, ran]
    rfl

theorem enterDocument_skips {root fuel : Nat} {tag : Option Nat} {gap : Text} {name : Name} {rest : List Byte}
    {target : PlainTree} (waiting : Waiting b live texts tree) (terminated : 0 ∈ rest)
    (known : tagBranch name.name = .other ∨ tagBranch name.name = .plist ∧ tag = none)
    (later : ∀ b', b'.platform = b.platform → b'.bootArgs = b.bootArgs → Waiting b' live texts tree →
      Enters root fuel none rest b' live texts target) :
    Enters root (fuel + 1) tag (openTag gap name ++ rest) b live texts target := by
  have behind : 0 ∈ openTag gap name ++ rest := List.mem_append_right _ terminated
  have skipped (outcome : Outcome) (branch : readBranch (2 * (openTag gap name ++ rest).length + 1) rest
      (tagBranch name.name) = .ok (outcome, 0)) (nothing : ∀ {p : Parsed}, Leaves { b.xml with malloc := b.dt.malloc }
        p.xml live texts tag p.tag outcome → p.tag = none ∧ Restored { b.xml with malloc := b.dt.malloc } p.xml live texts) :
      Enters root (fuel + 1) tag (openTag gap name ++ rest) b live texts target := by
    have read := readNextTag_openTag _ gap name terminated branch
    obtain ⟨p, ran, total, after, leaves⟩ := parseNextTag_reads waiting behind read tag
    obtain ⟨null, restored⟩ := nothing leaves
    rw [Nat.add_zero, List.drop_left] at after
    obtain ⟨text', b', entered, completed⟩ := later { b with xml := p.xml, dt := { b.dt with malloc := p.xml.malloc } }
      rfl rfl ⟨restored.held, waiting.shown.with_malloc _, restored.good waiting.good⟩
    refine ⟨p.buffer.take (openTag gap name).length ++ text', b', ?_, completed⟩
    rw [enterDocument, ran]
    simp only [ok_bind, total, null, Nat.add_zero, after, entered]
  rcases known with other | ⟨plist, rfl⟩
  · exact skipped .null (by rw [other]; rfl) id
  · exact skipped .unassigned (by rw [plist]; rfl) id

def rootTree (root : Element) : PlainTree :=
  match root.node with
  | .node attrs kids _ => .node (nameAttribute (ascii "/") :: attrs) kids .nil
  | .nil => .nil

theorem enterDocument_root {root prop fuel : Nat} {tag : Option Nat} {value : Element} {rest : List Byte}
    (waiting : Waiting b live texts (.node (root, [(prop, nameAttribute (ascii "/"))]) .nil .nil))
    (describes : value.IsNode) (terminated : 0 ∈ rest) :
    Enters root (fuel + 1) tag (value.render ++ rest) b live texts (rootTree value) := by
  have behind : 0 ∈ value.render ++ rest := List.mem_append_right _ terminated
  have read := value.reads rest terminated (2 * (value.render ++ rest).length + 2) (by
    rw [List.length_append]
    omega)
  obtain ⟨label, attrs, kids, node, keys⟩ := value.holds_node describes
  rw [label] at read
  obtain ⟨p, ran, total, _, top, tags, given, added⟩ := parseNextTag_reads waiting behind read tag
  rw [given] at added
  obtain ⟨top', left, right, found, same, type, _, below, _⟩ := added.rooted.top
  obtain rfl : top = top' := Option.some.inj found
  injection same with _ same _
  subst same
  have bound := added.held.numNodes_le
  rw [BinaryTree.numNodes] at bound
  have inside : root ∈ liveNodes (.node (root, [(prop, nameAttribute (ascii "/"))]) .nil .nil) :=
    Multiset.mem_map_of_mem Prod.fst (Multiset.mem_cons_self (root, [(prop, nameAttribute (ascii "/"))]) _)
  obtain ⟨dt, entered, props, young, rfl, rfl, good, shown⟩ := (populates p.xml b.symbolAt (3 * p.xml.tagCount + 2)).keys
    keys below (by omega) (by omega) (waiting.shown.with_malloc p.xml.malloc) inside (added.good waiting.good)
  obtain ⟨freed, ran', restored⟩ := added.free
  have populated : populateDeviceTreeNode p.xml b.symbolAt (3 * p.xml.tagCount + 3) top (some root)
      { b.dt with malloc := p.xml.malloc } = .ok dt := by
    rw [populateDeviceTreeNode, if_neg (not_not.mpr type)]
    exact entered
  refine ⟨p.buffer, { b with xml := freed, dt := dt }, ?_, ⟨rfl, rfl, _, shown, ?_, good⟩, restored.held⟩
  · rw [enterDocument, ran]
    simp only [ok_bind, total, given, type, if_true, Booter.populate, populated, Booter.freeTag, ran']
  · rw [graft, if_pos rfl, forestAppend_nil, rootTree, node]
    rfl

theorem enterDocument_prolog {root prop : Nat} {value : Element} {rest : List Byte} (describes : value.IsNode)
    (terminated : 0 ∈ rest) (headers : List Header) (plist : Option PlistTag) (fuel : Nat)
    (enough : headers.length + 2 ≤ fuel)
    (waiting : Waiting b live texts (.node (root, [(prop, nameAttribute (ascii "/"))]) .nil .nil)) :
    Enters root fuel none (Document.prolog headers plist ++ (value.render ++ rest)) b live texts (rootTree value) := by
  have behind : 0 ∈ value.render ++ rest := List.mem_append_right _ terminated
  induction headers generalizing b fuel with
  | nil =>
    obtain ⟨fuel, rfl⟩ : ∃ less, fuel = less + 2 := ⟨fuel - 2, by rw [List.length_nil] at enough; omega⟩
    cases plist with
    | none => exact enterDocument_root waiting describes terminated
    | some plist =>
      have text : Document.prolog [] (some plist) = openTag plist.gap plist.name := List.append_nil _
      rw [text]
      apply enterDocument_skips waiting behind (Or.inr ⟨plist.branch, rfl⟩)
      intro b' platform bootArgs waiting'
      exact enterDocument_root waiting' describes terminated
  | cons header headers ih =>
    obtain ⟨fuel, rfl⟩ : ∃ less, fuel = less + 1 := ⟨fuel - 1, by omega⟩
    have text : Document.prolog (header :: headers) plist = header.render ++ Document.prolog headers plist := by
      rw [Document.prolog, Document.prolog, List.flatMap_cons, List.append_assoc]
    rw [text, List.append_assoc]
    apply enterDocument_skips waiting (List.mem_append_right _ behind) (Or.inl header.other)
    intro b' platform bootArgs waiting'
    rw [List.length_cons] at enough
    exact ih fuel (by omega) waiting'

end Loop

theorem prolog_length (headers : List Header) (plist : Option PlistTag) :
    headers.length ≤ (Document.prolog headers plist).length := by
  rw [Document.prolog, List.length_append]
  induction headers with
  | nil => exact Nat.zero_le _
  | cons header headers ih =>
    have some' := openTag_nonempty header.gap header.name
    rw [List.flatMap_cons, List.length_append, List.length_cons, Header.render]
    omega

section Delivered

variable {malloc : Malloc} {stack : Nat → Option Nat} {b : Booter} {roots : Multiset Nat}
  (reachable : XmlReachable malloc stack ⟨b.xml, roots⟩) (good : b.dt.malloc.Succeeds) (locals : DevicetreeLocals)
  {image : Word} {payload : TagData}
  (located : getImage3 b.platform.machine.memory b.platform.imagesEnd kImage3TypeXmlDeviceTree = .ok image)
  (present : image ≠ 0)
  (tagged : image3GetTagData b.platform.machine.memory image kImage3TagData locals.deviceTreeData
    locals.deviceTreeSize = .ok payload) (document : Document) (following : List Byte)
  (held : stringAt b.platform.machine.memory payload.data = .ok (document.render ++ (following ++ [0])))

include reachable good located present tagged held

theorem prepareDevicetree_restores :
    ∃ b' tree, prepareDevicetree locals b = .ok (true, b') ∧ Represents b'.dt tree ∧
      tree.map contents = rootTree document.root ∧ b'.dt.malloc.Succeeds ∧
      ∀ text, b'.xml.refCount text = b.xml.refCount text := by
  obtain ⟨trees, holds⟩ := reachable.holds
  obtain ⟨dt, initialized, _, succeeds⟩ := dtInitialize_spec b.dt
  obtain ⟨good', root, prop, shown⟩ := succeeds good
  have rooted := represents_root shown
  have behind : 0 ∈ following ++ [0] := List.mem_append_right _ List.mem_cons_self
  have waiting : Waiting { b with dt := dt } (tagsOf trees) (textsOf trees) _ := ⟨holds.held, shown, good'⟩
  have entered : Enters root ((document.render ++ (following ++ [0])).length + 1) locals.tag
      (document.render ++ (following ++ [0])) { b with dt := dt } (tagsOf trees) (textsOf trees)
      (rootTree document.root) := by
    have enough := prolog_length document.headers document.plist
    have some' := openTag_nonempty document.first.gap document.first.name
    have value := document.root.render_length
    rw [Document.render, List.append_assoc, List.append_assoc]
    apply enterDocument_skips waiting
    · exact List.mem_append_right _ (List.mem_append_right _ behind)
    · exact Or.inl document.first.other
    · intro b' platform bootArgs waiting'
      apply enterDocument_prolog document.describes behind document.headers document.plist _ _ waiting'
      simp only [List.length_append, Header.render]
      omega
  obtain ⟨text, b', ran, ⟨_, _, tree, shown', same, good'⟩, kept⟩ := entered
  let machine := { b'.platform.machine with memory := write b.platform.machine.memory payload.data text }
  refine ⟨{ b' with platform := { b'.platform with machine := machine } }, tree, ?_, shown', same, good', fun text => ?_⟩
  · rw [prepareDevicetree]
    simp only [located, ok_bind, require_ok present, tagged, initialized]
    rw [rooted]
    simp only [rootOf, held, ok_bind, ran]
    rfl
  · rw [Xml.refCount, Xml.refCount, kept.symbols.refCount, holds.held.symbols.refCount]

theorem prepareDevicetree_completes :
    ∃ b' tree, prepareDevicetree locals b = .ok (true, b') ∧ Represents b'.dt tree ∧
      tree.map contents = rootTree document.root ∧ b'.dt.malloc.Succeeds := by
  obtain ⟨b', tree, ran, shown, same, good', _⟩ :=
    prepareDevicetree_restores reachable good locals located present tagged document following held
  exact ⟨b', tree, ran, shown, same, good'⟩

end Delivered

/-- With memory to be had the device tree of a property list is built, whatever follows it. -/
theorem prepareDevicetree_builds {malloc : Malloc} {stack : Nat → Option Nat} {b : Booter} {roots : Multiset Nat}
    (reachable : XmlReachable malloc stack ⟨b.xml, roots⟩) (good : b.dt.malloc.Succeeds) (locals : DevicetreeLocals)
    {image : Word} {payload : TagData}
    (located : getImage3 b.platform.machine.memory b.platform.imagesEnd kImage3TypeXmlDeviceTree = .ok image)
    (present : image ≠ 0)
    (tagged : image3GetTagData b.platform.machine.memory image kImage3TagData locals.deviceTreeData
      locals.deviceTreeSize = .ok payload) (document : Document) (following : List Byte)
    (held : stringAt b.platform.machine.memory payload.data = .ok (document.render ++ (following ++ [0]))) :
    ∃ b' tree, prepareDevicetree locals b = .ok (true, b') ∧ Represents b'.dt tree ∧
      tree.map contents = rootTree document.root := by
  obtain ⟨b', tree, ran, shown, same, _⟩ :=
    prepareDevicetree_completes reachable good locals located present tagged document following held
  exact ⟨b', tree, ran, shown, same⟩

def sampleHeader : Header := ⟨noText, 0x3f, [0x78], Or.inl rfl, ⟨by decide, by decide⟩⟩

def textA : Text := ⟨[0x61], by decide, by decide⟩

def textK : Text := ⟨[0x6b], by decide, by decide⟩

def textS : Text := ⟨[0x73], by decide, by decide⟩

def textChildren : Text := ⟨[0x40, 0x63], by decide, by decide⟩

def nestedDocument : Document where
  first := sampleHeader
  headers := []
  plist := some ⟨noText, [0x76], ⟨by decide, by decide⟩⟩
  root := .dict noText (.cons noText textChildren
    (.array noText (.cons (.dict noText (.cons noText ⟨[0x6e], by decide, by decide⟩ (.string noText textS) .nil) noText) .nil)
      noText) .nil) noText
  describes := ⟨⟨Items.noConfusion, ⟨trivial, trivial⟩, trivial⟩, trivial⟩

def nestedText : List Byte := nestedDocument.render ++ ((ascii "</plist>").chars ++ [0])

def nestedBooter (malloc : Malloc) : Booter where
  platform := ⟨⟨write (fun _ => 0) 0x10000 (imageBytes kImage3TypeXmlDeviceTree nestedText), []⟩, startRegion 0x70000000,
    [], 0, 0x10000⟩
  xml := Xml.bss malloc fun _ => none
  dt := DeviceTree.bss malloc
  bootArgs := ⟨0, 0, 0, 0, 0, 0, ⟨0, 0, 0, 0, 0, 0⟩, 0, 0, 0, Vector.replicate _ 0⟩
  ramdiskBase := 0
  ramdiskSize := 0
  symbolAt := fun _ => 0

theorem nestedBooter_builds : ∃ b' tree, prepareDevicetree ⟨0, 0, none⟩ (nestedBooter roomy) = .ok (true, b') ∧
    Represents b'.dt tree ∧ tree.map contents = rootTree nestedDocument.root := by
  have reachable : XmlReachable roomy (fun _ => none) ⟨(nestedBooter roomy).xml, 0⟩ := Relation.ReflTransGen.refl
  have located : getImage3 (nestedBooter roomy).platform.machine.memory (nestedBooter roomy).platform.imagesEnd
      kImage3TypeXmlDeviceTree = .ok 0x10000 := by decide +kernel
  have tagged : image3GetTagData (nestedBooter roomy).platform.machine.memory 0x10000 kImage3TagData 0 0 =
      .ok ⟨true, 0x10020, BitVec.ofNat 32 nestedText.length⟩ := by decide +kernel
  have held : stringAt (nestedBooter roomy).platform.machine.memory 0x10020 =
      .ok (nestedDocument.render ++ ((ascii "</plist>").chars ++ [0])) := by decide +kernel
  exact prepareDevicetree_builds reachable roomy_succeeds ⟨0, 0, none⟩ located (by decide) tagged nestedDocument
    (ascii "</plist>").chars held

theorem nestedBooter_refused :
    ¬ ∃ b', prepareDevicetree ⟨0, 0, none⟩ (nestedBooter ⟨fun _ => 0, 0⟩) = .ok (true, b') := by
  have stops : (prepareDevicetree ⟨0, 0, none⟩ (nestedBooter ⟨fun _ => 0, 0⟩)).isOk = false := by decide +kernel
  rintro ⟨b', ran⟩
  rw [ran] at stops
  cases stops

end GenericBooter
