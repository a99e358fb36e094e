import GenericBooter.Xml.Layout

namespace GenericBooter

open Linked

structure Restored (xml xml' : Xml) (live : Multiset Nat) (texts : Multiset CString) : Prop where
  held : Held xml' live texts
  keeps : Keeps xml xml' live
  good : xml.malloc.Succeeds → xml'.malloc.Succeeds

/-- New tags hold a tree on top of what was in use before. -/
structure Added (xml xml' : Xml) (live : Multiset Nat) (texts : Multiset CString) (root : Option Nat)
    (tags : BinaryTree Nat) (tree : TagTree) : Prop where
  rooted : Rooted xml' root tags tree
  held : Held xml' (cells tags + live) (treeTexts tree + texts)
  keeps : Keeps xml xml' live
  good : xml.malloc.Succeeds → xml'.malloc.Succeeds

/-- What a call that read `outcome` leaves in `*tag`, which held `tag` before. -/
def Leaves (xml xml' : Xml) (live : Multiset Nat) (texts : Multiset CString) (tag root : Option Nat) :
    Outcome → Prop
  | .unassigned => root = tag ∧ Restored xml xml' live texts
  | .null => root = none ∧ Restored xml xml' live texts
  | .tag label below => ∃ top tags, root = some top ∧
      Added xml xml' live texts root (.node top tags .nil) (.node label below .nil)

def Fails (xml : Xml) (live : Multiset Nat) (texts : Multiset CString) (tag : Option Nat)
    (result : Except Stop Parsed) : Prop :=
  (∃ p, result = .ok p ∧ p.length = none ∧ p.tag = tag ∧ Restored xml p.xml live texts) ∨
    (result = .error .panic ∧ ¬ xml.malloc.Succeeds)

/-- The call does what the text says, unless memory runs out. -/
def Refines (xml : Xml) (live : Multiset Nat) (texts : Multiset CString) (tag : Option Nat)
    (buffer : List Byte) (result : Except Stop Parsed) : Except Halt (Outcome × Nat) → Prop
  | .error .fail => Fails xml live texts tag result
  | .error _ => True
  | .ok (outcome, length) =>
    (¬ xml.malloc.Succeeds ∧ Fails xml live texts tag result) ∨
      ∃ p, result = .ok p ∧ p.length = some length ∧ Planted buffer p.buffer length ∧
        Leaves xml p.xml live texts tag p.tag outcome

def FailsItems (xml : Xml) (live : Multiset Nat) (texts : Multiset CString) (result : Except Stop Parsed) : Prop :=
  (∃ p tags items, result = .ok p ∧ p.length = none ∧ Added xml p.xml live texts p.tag tags items) ∨
    (result = .error .panic ∧ ¬ xml.malloc.Succeeds)

def RefinesItems (xml : Xml) (live : Multiset Nat) (texts : Multiset CString) (buffer : List Byte)
    (result : Except Stop Parsed) : Except Halt (TagTree × Nat) → Prop
  | .error .fail => FailsItems xml live texts result
  | .error _ => True
  | .ok (items, length) =>
    (¬ xml.malloc.Succeeds ∧ FailsItems xml live texts result) ∨
      ∃ p tags, result = .ok p ∧ p.length = some length ∧ Planted buffer p.buffer length ∧
        Added xml p.xml live texts p.tag tags items

section Steps

variable {xml xml' xml'' : Xml} {live : Multiset Nat} {texts : Multiset CString}

theorem Restored.refl (held : Held xml live texts) : Restored xml xml live texts :=
  ⟨held, Keeps.refl _ _, id⟩

theorem Restored.trans (first : Restored xml xml' live texts) (second : Restored xml' xml'' live texts) :
    Restored xml xml'' live texts :=
  ⟨second.held, first.keeps.trans second.keeps, fun good => second.good (first.good good)⟩

theorem Added.node {root : Option Nat} {tags : BinaryTree Nat} {below : TagTree} {top : Nat}
    (type : TagType) (string : Option CString) (rooted : Rooted xml' root tags below)
    (held : Held xml' (top ::ₘ (cells tags + live)) ((string.toList : Multiset CString) + treeTexts below + texts))
    (keeps : Keeps xml xml' live) (good : xml.malloc.Succeeds → xml'.malloc.Succeeds) :
    Added xml (xml'.setTag top ⟨type, string, root, none⟩) live texts (some top) (.node top tags .nil)
      (.node (type, string) below .nil) := by
  have nodup := Multiset.nodup_cons.mp held.live_nodup
  rw [Multiset.mem_add, not_or] at nodup
  obtain ⟨⟨notBelow, notLive⟩, _⟩ := nodup
  have same := setTag_same xml' top ⟨type, string, root, none⟩
  have kept := rooted.keep (setTag_keeps xml' notBelow ⟨type, string, root, none⟩) (Multiset.Subset.refl _)
  refine ⟨⟨⟨rfl, ?_, ?_⟩, ?_⟩, ?_, keeps.trans (setTag_keeps xml' notLive _), good⟩
  · beta_reduce
    rw [same]
    exact kept.shape
  · beta_reduce
    rw [same]
    rfl
  · rw [BinaryTree.map, kept.labels, Xml.label, same]
    rfl
  · rw [treeTexts_node, cells, show treeTexts (.nil : TagTree) = 0 from rfl, cells, add_zero, add_zero,
      Multiset.cons_add]
    exact held.setTag (Multiset.mem_cons_self _ _) _

theorem Added.free {root : Option Nat} {tags : BinaryTree Nat} {tree : TagTree}
    (added : Added xml xml' live texts root tags tree) :
    ∃ xml'', xmlFreeTag xml' root = .ok xml'' ∧ Restored xml xml'' live texts := by
  obtain ⟨xml'', ran, held, keeps, malloc⟩ := xmlFreeTag_spec added.rooted added.held
  exact ⟨xml'', ran, held, added.keeps.trans keeps, fun good => malloc ▸ added.good good⟩

theorem Added.takeTag {root : Option Nat} {tags : BinaryTree Nat} {tree : TagTree}
    (added : Added xml xml' live texts root tags tree) :
    ((newTag xml').1 = none → Added xml (newTag xml').2 live texts root tags tree ∧ ¬ xml.malloc.Succeeds) ∧
      ∀ top, (newTag xml').1 = some top → Rooted (newTag xml').2 root tags tree ∧
        Held (newTag xml').2 (top ::ₘ (cells tags + live)) (treeTexts tree + texts) ∧
        Keeps xml (newTag xml').2 live ∧ (xml.malloc.Succeeds → (newTag xml').2.malloc.Succeeds) := by
  obtain ⟨keeps, refused, taken, good⟩ := newTag_spec added.held
  have rooted := added.rooted.keep keeps (Multiset.subset_of_le (Multiset.le_add_right _ _))
  have outer : Keeps xml (newTag xml').2 live :=
    added.keeps.trans (keeps.mono (Multiset.subset_of_le (Multiset.le_add_left _ _)))
  refine ⟨fun none => ?_, fun top some => ?_⟩
  · obtain ⟨held, bad⟩ := refused none
    exact ⟨⟨rooted, held, outer, fun succeeds => good (added.good succeeds)⟩, fun succeeds => bad (added.good succeeds)⟩
  · exact ⟨rooted, (taken top some).2, outer, fun succeeds => good (added.good succeeds)⟩

theorem Restored.added (restored : Restored xml xml' live texts) : Added xml xml' live texts none .nil .nil :=
  ⟨⟨rfl, rfl⟩, by rw [cells, zero_add]; exact (zero_add texts).symm ▸ restored.held, restored.keeps, restored.good⟩

theorem Added.restored (added : Added xml xml' live texts none .nil .nil) : Restored xml xml' live texts := by
  refine ⟨?_, added.keeps, added.good⟩
  have held := added.held
  rw [cells, zero_add, show treeTexts (.nil : TagTree) = 0 from rfl, zero_add] at held
  exact held

theorem refused_refines {root tag : Option Nat} {tags : BinaryTree Nat} {below : TagTree} {buffer buffer' : List Byte}
    {answer : Outcome × Nat} (added : Added xml xml' live texts root tags below) (equal : newTag xml' = (none, xml'')) :
    Refines xml live texts tag buffer (do
      let xml'' ← xmlFreeTag xml'' root
      .ok ⟨none, tag, buffer', xml''⟩) (.ok answer) := by
  obtain ⟨refused, _⟩ := added.takeTag
  rw [equal] at refused
  obtain ⟨kept, bad⟩ := refused rfl
  obtain ⟨freed, ran, restored⟩ := kept.free
  refine Or.inl ⟨bad, Or.inl ⟨⟨none, tag, buffer', freed⟩, ?_, rfl, rfl, restored⟩⟩
  simp only [ran, ok_bind]

theorem node_refines {root tag : Option Nat} {tags : BinaryTree Nat} {below : TagTree} {buffer buffer' : List Byte}
    {length : Nat} (type : TagType) (planted : Planted buffer buffer' length)
    (added : Added xml xml' live texts root tags below) :
    Refines xml live texts tag buffer
      (match newTag xml' with
        | (none, xml'') => do
          let xml'' ← xmlFreeTag xml'' root
          .ok ⟨none, tag, buffer', xml''⟩
        | (some top, xml'') => .ok ⟨some length, some top, buffer', xml''.setTag top ⟨type, none, root, none⟩⟩)
      (.ok (.tag (type, none) below, length)) := by
  obtain ⟨_, taken⟩ := added.takeTag
  rcases equal : newTag xml' with ⟨_ | top, xml''⟩
  · exact refused_refines added equal
  · rw [equal] at taken
    obtain ⟨rooted, held, keeps, good⟩ := taken top rfl
    refine Or.inr ⟨_, rfl, rfl, planted, top, tags, rfl, Added.node type none rooted ?_ keeps good⟩
    rwa [Option.toList_none, Multiset.coe_nil, zero_add]

theorem named_refines {root tag : Option Nat} {tags : BinaryTree Nat} {below : TagTree} {buffer buffer' : List Byte}
    {length : Nat} (type : TagType) (string : CString) (planted : Planted buffer buffer' length)
    (added : Added xml xml' live texts root tags below) :
    Refines xml live texts tag buffer
      (match newTag xml' with
        | (none, xml'') => do
          let xml'' ← xmlFreeTag xml'' root
          .ok ⟨none, tag, buffer', xml''⟩
        | (some top, xml'') => do
          let xml'' ← newSymbol xml'' string
          .ok ⟨some length, some top, buffer', xml''.setTag top ⟨type, some string, root, none⟩⟩)
      (.ok (.tag (type, some string) below, length)) := by
  obtain ⟨_, taken⟩ := added.takeTag
  rcases equal : newTag xml' with ⟨_ | top, xml''⟩
  · exact refused_refines added equal
  · rw [equal] at taken
    obtain ⟨rooted, held, keeps, good⟩ := taken top rfl
    rcases newSymbol_spec string held with ⟨panics, bad⟩ | ⟨interned, ran, held', same, good'⟩
    · have bad' : ¬ xml.malloc.Succeeds := fun succeeds => bad (good succeeds)
      refine Or.inl ⟨bad', Or.inr ⟨?_, bad'⟩⟩
      simp only [panics]
      rfl
    · have later : Keeps xml'' interned (cells tags + live) := fun other _ => by rw [same]
      have rooted' := rooted.keep later (Multiset.subset_of_le (Multiset.le_add_right _ _))
      have keeps' := keeps.trans (later.mono (Multiset.subset_of_le (Multiset.le_add_left _ _)))
      refine Or.inr ⟨⟨some length, some top, buffer', interned.setTag top ⟨type, some string, root, none⟩⟩, ?_, rfl,
        planted, top, tags, rfl, Added.node type (some string) rooted' ?_ keeps' fun succeeds => good' (good succeeds)⟩
      · simp only [ran, ok_bind]
      · rwa [Option.toList_some, Multiset.coe_singleton, add_assoc, Multiset.singleton_add]

theorem parseTagLeaf_refines (name : CString) (type : TagType) (tag : Option Nat) {buffer : List Byte}
    (terminated : 0 ∈ buffer) (held : Held xml live texts) :
    Refines xml live texts tag buffer (parseTagLeaf name type tag buffer xml)
      (readTagLeaf name (fun _ => (type, none)) buffer) := by
  obtain ⟨fixed, ran, sound⟩ := fixDataMatchingTag_cases name terminated
  rw [parseTagLeaf, readTagLeaf, readTagText, ran]
  simp only [liftStop, ok_bind]
  rcases found : fixed.length with _ | length
  · exact Or.inl ⟨⟨none, tag, fixed.buffer, xml⟩, rfl, rfl, rfl, Restored.refl held⟩
  · exact node_refines type (sound length found).1 (Restored.refl held).added

theorem parseTagString_refines (tag : Option Nat) {buffer : List Byte} (terminated : 0 ∈ buffer)
    (held : Held xml live texts) :
    Refines xml live texts tag buffer (parseTagString tag buffer xml)
      (readTagLeaf kXMLTagString (fun text => (.string, some text)) buffer) := by
  obtain ⟨fixed, ran, sound⟩ := fixDataMatchingTag_cases kXMLTagString terminated
  rw [parseTagString, readTagLeaf, readTagText, ran]
  simp only [liftStop, ok_bind]
  rcases found : fixed.length with _ | length
  · exact Or.inl ⟨⟨none, tag, fixed.buffer, xml⟩, rfl, rfl, rfl, Restored.refl held⟩
  · exact named_refines .string (cString fixed.buffer) (sound length found).1 (Restored.refl held).added

theorem parseTagBoolean_refines (type : TagType) (tag : Option Nat) {buffer : List Byte} (terminated : 0 ∈ buffer)
    (held : Held xml live texts) :
    Refines xml live texts tag buffer (.ok (parseTagBoolean type tag buffer xml))
      (.ok (.tag (type, none) .nil, 0)) := by
  have refines : Refines xml live texts tag buffer _ _ :=
    node_refines type (Planted.refl terminated) (Restored.refl held).added
  rw [parseTagBoolean]
  rcases equal : newTag xml with ⟨_ | top, xml'⟩
  · rw [equal] at refines
    exact refines
  · rw [equal] at refines
    exact refines

theorem Added.after (first : Restored xml xml' live texts) {root : Option Nat} {tags : BinaryTree Nat}
    {tree : TagTree} (later : Added xml' xml'' live texts root tags tree) : Added xml xml'' live texts root tags tree :=
  ⟨later.rooted, later.held, first.keeps.trans later.keeps, fun good => later.good (first.good good)⟩

theorem Added.undisturbed {root : Option Nat} {tags : BinaryTree Nat} {tree : TagTree}
    (added : Added xml xml' live texts root tags tree)
    (restored : Restored xml' xml'' (cells tags + live) (treeTexts tree + texts)) :
    Added xml xml'' live texts root tags tree where
  rooted := added.rooted.keep restored.keeps (Multiset.subset_of_le (Multiset.le_add_right _ _))
  held := restored.held
  keeps := added.keeps.trans (restored.keeps.mono (Multiset.subset_of_le (Multiset.le_add_left _ _)))
  good succeeds := restored.good (added.good succeeds)

theorem Added.link {root : Option Nat} {tags tags' : BinaryTree Nat} {items below : TagTree} {top : Nat}
    {label : TagLabel} (added : Added xml xml' live texts root tags items)
    (item : Added xml' xml'' (cells tags + live) (treeTexts items + texts) (some top) (.node top tags' .nil)
      (.node label below .nil)) :
    Added xml (xml''.setTag top { xml''.tags top with tagNext := root }) live texts (some top)
      (.node top tags' tags) (.node label below items) := by
  have held := item.held
  have nodup := held.live_nodup
  rw [cells, cells, add_zero, Multiset.cons_add, Multiset.nodup_cons, Multiset.mem_add, Multiset.mem_add,
    not_or, not_or] at nodup
  obtain ⟨⟨notBelow, notItems, notLive⟩, _⟩ := nodup
  have same := setTag_same xml'' top { xml''.tags top with tagNext := root }
  obtain ⟨⟨_, shapeBelow, _⟩, labelled⟩ := item.rooted
  rw [BinaryTree.map] at labelled
  injection labelled with label_eq below_eq _
  have keptBelow : Rooted xml'' (xml''.tags top).tag tags' below := ⟨shapeBelow, below_eq⟩
  have movedBelow := keptBelow.keep
    (setTag_keeps xml'' notBelow { xml''.tags top with tagNext := root }) (Multiset.Subset.refl _)
  have keptItems := added.rooted.keep item.keeps (Multiset.subset_of_le (Multiset.le_add_right _ _))
  have movedItems := keptItems.keep
    (setTag_keeps xml'' notItems { xml''.tags top with tagNext := root }) (Multiset.Subset.refl _)
  have keeps : Keeps xml xml'' live :=
    added.keeps.trans (item.keeps.mono (Multiset.subset_of_le (Multiset.le_add_left _ _)))
  refine ⟨⟨⟨rfl, ?_, ?_⟩, ?_⟩, ?_, keeps.trans (setTag_keeps xml'' notLive _),
    fun succeeds => item.good (added.good succeeds)⟩
  · beta_reduce
    rw [same]
    exact movedBelow.shape
  · beta_reduce
    rw [same]
    exact movedItems.shape
  · rw [BinaryTree.map, movedBelow.labels, movedItems.labels, Xml.label, same, ← label_eq]
    rfl
  · have inUse : top ∈ cells (.node top tags' .nil) + (cells tags + live) := by
      rw [cells, Multiset.cons_add]
      exact Multiset.mem_cons_self _ _
    have total := held.setTag inUse { xml''.tags top with tagNext := root }
    rw [treeTexts_node, show treeTexts (.nil : TagTree) = 0 from rfl, add_zero, cells, cells, add_zero,
      Multiset.cons_add, ← add_assoc, ← add_assoc, add_assoc _ (treeTexts below)] at total
    rw [treeTexts_node, cells, Multiset.cons_add]
    exact total

theorem Refines.shift {tag : Option Nat} {buffer buffer' : List Byte} {length : Nat}
    (planted : Planted buffer buffer' length) {result : Except Stop Parsed}
    {expected : Except Halt (Outcome × Nat)}
    (refines : Refines xml live texts tag (buffer'.drop length) result expected) :
    Refines xml live texts tag buffer
      (do
        let parsed ← result
        .ok { parsed with
          length := parsed.length.map (length + ·)
          buffer := buffer'.take length ++ parsed.buffer })
      (do
        let (outcome, more) ← expected
        .ok (outcome, length + more)) := by
  have fails : Fails xml live texts tag result → Fails xml live texts tag (do
      let parsed ← result
      .ok { parsed with
        length := parsed.length.map (length + ·)
        buffer := buffer'.take length ++ parsed.buffer }) := by
    rintro (⟨p, rfl, none, same, restored⟩ | ⟨rfl, bad⟩)
    · refine Or.inl ⟨{ p with
        length := p.length.map (length + ·)
        buffer := buffer'.take length ++ p.buffer }, rfl, ?_, same, restored⟩
      rw [none]
      rfl
    · exact Or.inr ⟨rfl, bad⟩
  rcases expected with (_ | _ | _) | ⟨outcome, more⟩
  · exact fails refines
  · trivial
  · trivial
  · rcases refines with ⟨bad, failed⟩ | ⟨p, rfl, total, planted', leaves⟩
    · exact Or.inl ⟨bad, fails failed⟩
    · refine Or.inr ⟨{ p with
        length := p.length.map (length + ·)
        buffer := buffer'.take length ++ p.buffer }, rfl, ?_, planted.chain planted', leaves⟩
      rw [total]
      rfl

theorem FailsItems.refines {buffer : List Byte} {result : Except Stop Parsed}
    (fails : FailsItems xml live texts result) (bad : ¬ xml.malloc.Succeeds)
    (expected : Except Halt (TagTree × Nat)) : RefinesItems xml live texts buffer result expected := by
  rcases expected with (_ | _ | _) | _
  · exact fails
  · trivial
  · trivial
  · exact Or.inl ⟨bad, fails⟩

theorem RefinesItems.shift {buffer buffer' : List Byte} {length : Nat} (planted : Planted buffer buffer' length)
    {result : Except Stop Parsed} {expected : Except Halt (TagTree × Nat)}
    (refines : RefinesItems xml live texts (buffer'.drop length) result expected) :
    RefinesItems xml live texts buffer
      (do
        let parsed ← result
        .ok { parsed with
          length := parsed.length.map (length + ·)
          buffer := buffer'.take length ++ parsed.buffer })
      (do
        let (items, more) ← expected
        .ok (items, length + more)) := by
  have fails : FailsItems xml live texts result → FailsItems xml live texts (do
      let parsed ← result
      .ok { parsed with
        length := parsed.length.map (length + ·)
        buffer := buffer'.take length ++ parsed.buffer }) := by
    rintro (⟨p, tags, items, rfl, none, added⟩ | ⟨rfl, bad⟩)
    · refine Or.inl ⟨{ p with
        length := p.length.map (length + ·)
        buffer := buffer'.take length ++ p.buffer }, tags, items, rfl, ?_, added⟩
      rw [none]
      rfl
    · exact Or.inr ⟨rfl, bad⟩
  rcases expected with (_ | _ | _) | ⟨items, more⟩
  · exact fails refines
  · trivial
  · trivial
  · rcases refines with ⟨bad, failed⟩ | ⟨p, tags, rfl, total, planted', added⟩
    · exact Or.inl ⟨bad, fails failed⟩
    · refine Or.inr ⟨{ p with
        length := p.length.map (length + ·)
        buffer := buffer'.take length ++ p.buffer }, tags, rfl, ?_, planted.chain planted', added⟩
      rw [total]
      rfl

theorem local_restored (held : Held xml live texts) : Restored xml xml.local'.2 live texts :=
  ⟨⟨held.pool, held.symbols⟩, fun _ _ => rfl, id⟩

theorem Fails.refines {tag : Option Nat} {buffer : List Byte} {result : Except Stop Parsed}
    (fails : Fails xml live texts tag result) (bad : ¬ xml.malloc.Succeeds)
    (expected : Except Halt (Outcome × Nat)) : Refines xml live texts tag buffer result expected := by
  rcases expected with (_ | _ | _) | _
  · exact fails
  · trivial
  · trivial
  · exact Or.inl ⟨bad, fails⟩

theorem Fails.bind {tag tag' : Option Nat} {result : Except Stop Parsed} {after : Parsed → Except Stop Parsed}
    (fails : Fails xml' live texts tag' result) (start : Restored xml xml' live texts)
    (gives : ∀ p, p.length = none → ∃ buffer, after p = .ok ⟨none, tag, buffer, p.xml⟩) :
    Fails xml live texts tag (result >>= after) := by
  rcases fails with ⟨p, rfl, none, _, restored⟩ | ⟨rfl, bad⟩
  · obtain ⟨buffer, ran⟩ := gives p none
    exact Or.inl ⟨_, ran, rfl, rfl, start.trans restored⟩
  · exact Or.inr ⟨rfl, fun good => bad (start.good good)⟩

theorem FailsItems.bind {tag : Option Nat} {result : Except Stop Parsed} {after : Parsed → Except Stop Parsed}
    (fails : FailsItems xml live texts result)
    (frees : ∀ p, p.length = none → after p = (do
      let xml ← xmlFreeTag p.xml p.tag
      .ok ⟨none, tag, p.buffer, xml⟩)) :
    Fails xml live texts tag (result >>= after) := by
  rcases fails with ⟨p, tags, items, rfl, none, added⟩ | ⟨rfl, bad⟩
  · obtain ⟨freed, ran, restored⟩ := added.free
    refine Or.inl ⟨⟨Option.none, tag, p.buffer, freed⟩, ?_, rfl, rfl, restored⟩
    rw [ok_bind, frees p none, ran]
    rfl
  · exact Or.inr ⟨rfl, bad⟩

theorem RefinesItems.list {buffer : List Byte} {result : Except Stop Parsed} {expected : Except Halt (TagTree × Nat)}
    (refines : RefinesItems xml live texts buffer result expected) (tag : Option Nat) (type : TagType) :
    Refines xml live texts tag buffer
      (do
        let items ← result
        match items.length with
        | none => do
          let xml ← xmlFreeTag items.xml items.tag
          .ok ⟨none, tag, items.buffer, xml⟩
        | some pos =>
          match newTag items.xml with
          | (none, xml) => do
            let xml ← xmlFreeTag xml items.tag
            .ok ⟨none, tag, items.buffer, xml⟩
          | (some tmpTag, xml) =>
            .ok ⟨some pos, some tmpTag, items.buffer, xml.setTag tmpTag ⟨type, none, items.tag, none⟩⟩)
      (do
        let (items, length) ← expected
        .ok (.tag (type, none) items, length)) := by
  rcases expected with (_ | _ | _) | ⟨items, length⟩
  · exact FailsItems.bind refines fun p none => by simp only [none]
  · trivial
  · trivial
  · rcases refines with ⟨bad, fails⟩ | ⟨p, tags, rfl, total, planted, added⟩
    · exact Fails.refines (FailsItems.bind fails fun p none => by simp only [none]) bad _
    · simp only [ok_bind, total]
      exact node_refines type planted added

end Steps

structure Refinement (fuel : Nat) : Prop where
  next : ∀ {xml : Xml} {live : Multiset Nat} {texts : Multiset CString} (tag : Option Nat) {buffer : List Byte},
    0 ∈ buffer → Held xml live texts →
      Refines xml live texts tag buffer (parseNextTag fuel tag buffer xml) (readNextTag fuel buffer)
  items : ∀ {xml xml' : Xml} {live : Multiset Nat} {texts : Multiset CString} {root : Option Nat}
    {tags : BinaryTree Nat} {items : TagTree} (tmpTag : Option Nat) {buffer : List Byte},
    0 ∈ buffer → Added xml xml' live texts root tags items →
      RefinesItems xml live texts buffer (parseTagItems fuel tmpTag root buffer xml')
        (readTagItems fuel items buffer)
  list : ∀ {xml : Xml} {live : Multiset Nat} {texts : Multiset CString} (tag : Option Nat) {buffer : List Byte}
    (type : TagType) (empty : Bool), 0 ∈ buffer → Held xml live texts →
      Refines xml live texts tag buffer (parseTagList fuel tag buffer type empty xml)
        (readTagList fuel buffer type empty)
  key : ∀ {xml : Xml} {live : Multiset Nat} {texts : Multiset CString} (tag : Option Nat) {buffer : List Byte},
    0 ∈ buffer → Held xml live texts →
      Refines xml live texts tag buffer (parseTagKey fuel tag buffer xml) (readTagKey fuel buffer)

theorem Refinement.zero : Refinement 0 where
  next _ _ _ _ := trivial
  items _ _ _ _ := trivial
  list _ _ _ _ _ _ := trivial
  key _ _ _ _ := trivial

section Induction

variable {fuel : Nat} (ih : Refinement fuel) {xml xml' : Xml} {live : Multiset Nat} {texts : Multiset CString}

include ih

theorem parseNextTag_refines (tag : Option Nat) {buffer : List Byte} (terminated : 0 ∈ buffer)
    (held : Held xml live texts) :
    Refines xml live texts tag buffer (parseNextTag (fuel + 1) tag buffer xml) (readNextTag (fuel + 1) buffer) := by
  rw [parseNextTag, readNextTag]
  rcases getNextTag_cases terminated with none | ⟨before, name, rest, rfl, outside, inside, later⟩
  · simp only [none, liftStop, ok_bind]
    exact Or.inl ⟨⟨Option.none, tag, buffer, xml⟩, rfl, rfl, rfl, Restored.refl held⟩
  · have planted := tagged_planted before name 0x3c later
    have terminated' := planted.rest_terminated
    simp only [getNextTag_tagged rest outside inside, liftStop, ok_bind]
    generalize before ++ 0x3c :: (name ++ 0 :: rest) = buffer' at planted terminated' ⊢
    cases tagBranch (cString (buffer'.drop (before.length + 1))) with
    | plist =>
      have nothing : Refines xml live texts tag _ (.ok ⟨some 0, tag, _, xml⟩) (.ok (.unassigned, 0)) :=
        Or.inr ⟨_, rfl, rfl, Planted.refl terminated', rfl, Restored.refl held⟩
      exact Refines.shift planted nothing
    | list type empty => exact Refines.shift planted (ih.list tag type empty terminated' held)
    | key => exact Refines.shift planted (ih.key tag terminated' held)
    | string => exact Refines.shift planted (parseTagString_refines tag terminated' held)
    | integer => exact Refines.shift planted (parseTagLeaf_refines kXMLTagInteger .integer tag terminated' held)
    | data => exact Refines.shift planted (parseTagLeaf_refines kXMLTagData .data tag terminated' held)
    | date => exact Refines.shift planted (parseTagLeaf_refines kXMLTagDate .date tag terminated' held)
    | boolean type => exact Refines.shift planted (parseTagBoolean_refines type tag terminated' held)
    | other =>
      have nothing : Refines xml live texts tag _ (.ok ⟨some 0, none, _, xml⟩) (.ok (.null, 0)) :=
        Or.inr ⟨_, rfl, rfl, Planted.refl terminated', rfl, Restored.refl held⟩
      exact Refines.shift planted nothing

theorem parseTagItems_refines {root : Option Nat} {tags : BinaryTree Nat} {items : TagTree} (tmpTag : Option Nat)
    {buffer : List Byte} (terminated : 0 ∈ buffer) (added : Added xml xml' live texts root tags items) :
    RefinesItems xml live texts buffer (parseTagItems (fuel + 1) tmpTag root buffer xml')
      (readTagItems (fuel + 1) items buffer) := by
  have item := ih.next tmpTag terminated added.held
  have failed : Fails xml' (cells tags + live) (treeTexts items + texts) tmpTag (parseNextTag fuel tmpTag buffer xml') →
      FailsItems xml live texts (parseTagItems (fuel + 1) tmpTag root buffer xml') := by
    rw [parseTagItems]
    rintro (⟨p, ran, none, _, restored⟩ | ⟨ran, bad⟩)
    · simp only [ran, ok_bind, none]
      exact Or.inl ⟨_, tags, items, rfl, rfl, added.undisturbed restored⟩
    · rw [ran]
      exact Or.inr ⟨rfl, fun good => bad (added.good good)⟩
  have short : ¬ xml'.malloc.Succeeds → ¬ xml.malloc.Succeeds := fun bad good => bad (added.good good)
  rw [readTagItems]
  rcases read : readNextTag fuel buffer with (_ | _ | _) | ⟨outcome, length⟩
  · rw [read] at item
    exact failed item
  · trivial
  · trivial
  · rw [read] at item
    simp only [ok_bind]
    rcases item with ⟨bad, fails⟩ | ⟨p, ran, total, planted, leaves⟩
    · exact (failed fails).refines (short bad) _
    · rw [parseTagItems]
      simp only [ran, ok_bind, total]
      cases outcome with
      | unassigned => trivial
      | null =>
        obtain ⟨null, restored⟩ := leaves
        simp only [null]
        exact Or.inr ⟨_, tags, rfl, rfl, planted, added.undisturbed restored⟩
      | tag label below =>
        obtain ⟨top, tags', some, new⟩ := leaves
        rw [some] at new
        simp only [some]
        rw [← planted.after]
        exact RefinesItems.shift planted (ih.items _ planted.rest_terminated (added.link new))

theorem parseTagList_refines (tag : Option Nat) {buffer : List Byte} (type : TagType) (empty : Bool)
    (terminated : 0 ∈ buffer) (held : Held xml live texts) :
    Refines xml live texts tag buffer (parseTagList (fuel + 1) tag buffer type empty xml)
      (readTagList (fuel + 1) buffer type empty) := by
  have start := (local_restored held).added
  rw [parseTagList, readTagList]
  cases empty with
  | true =>
    have nothing : RefinesItems xml live texts buffer (.ok ⟨some 0, none, buffer, xml.local'.2⟩) (.ok (.nil, 0)) :=
      Or.inr ⟨_, .nil, rfl, rfl, Planted.refl terminated, start⟩
    exact nothing.list tag type
  | false => exact (ih.items xml.local'.1 terminated start).list tag type

theorem parseTagKey_refines (tag : Option Nat) {buffer : List Byte} (terminated : 0 ∈ buffer)
    (held : Held xml live texts) :
    Refines xml live texts tag buffer (parseTagKey (fuel + 1) tag buffer xml) (readTagKey (fuel + 1) buffer) := by
  have start := local_restored held
  obtain ⟨fixed, ran, sound⟩ := fixDataMatchingTag_cases kXMLTagKey terminated
  rw [parseTagKey, readTagKey, readTagText, ran]
  simp only [liftStop, ok_bind]
  rcases found : fixed.length with _ | length
  · exact Or.inl ⟨⟨none, tag, fixed.buffer, xml⟩, rfl, rfl, rfl, Restored.refl held⟩
  · obtain ⟨planted, nul⟩ := sound length found
    simp only [ok_bind, ← planted.after]
    have sub := ih.next xml.local'.1 planted.rest_terminated start.held
    rcases read : readNextTag fuel (fixed.buffer.drop length) with (_ | _ | _) | ⟨outcome, length'⟩
    · rw [read] at sub
      refine Fails.bind sub start fun p none => ?_
      exact ⟨fixed.buffer.take length ++ p.buffer, by simp only [none]⟩
    · trivial
    · trivial
    · rw [read] at sub
      rcases sub with ⟨bad, fails⟩ | ⟨p, ran', total, planted', leaves⟩
      · refine Fails.refines (Fails.bind fails start fun p none => ?_) bad _
        exact ⟨fixed.buffer.take length ++ p.buffer, by simp only [none]⟩
      · simp only [ran', ok_bind, total]
        have text : cString (fixed.buffer.take length ++ p.buffer) = cString fixed.buffer := by
          rw [cString_append nul, ← cString_append nul (fixed.buffer.drop length), List.take_append_drop]
        rw [text]
        cases outcome with
        | unassigned => trivial
        | null =>
          obtain ⟨null, restored⟩ := leaves
          rw [null]
          exact named_refines .key _ (planted.chain planted') (start.trans restored).added
        | tag label below =>
          obtain ⟨top, tags, some, new⟩ := leaves
          exact named_refines .key _ (planted.chain planted') (new.after start)

end Induction

theorem refinement (fuel : Nat) : Refinement fuel := by
  induction fuel with
  | zero => exact Refinement.zero
  | succ fuel ih =>
    exact ⟨parseNextTag_refines ih, parseTagItems_refines ih, parseTagList_refines ih, parseTagKey_refines ih⟩

end GenericBooter
