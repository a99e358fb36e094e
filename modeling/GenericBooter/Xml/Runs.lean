import GenericBooter.Xml.Progress
import GenericBooter.Xml.Refinement
import Mathlib.Logic.Relation

namespace GenericBooter

open Linked

def Agree (result result' : Except Stop Parsed) : Prop :=
  result = result' ∨ ∃ p p', result = .ok p ∧ result' = .ok p' ∧ p.length = none ∧ p'.length = none

theorem Agree.bind {α : Type} (result : Except Stop α) {f f' : α → Except Stop Parsed}
    (agree : ∀ a, Agree (f a) (f' a)) : Agree (result >>= f) (result >>= f') := by
  cases result with
  | error stop => exact Or.inl rfl
  | ok a => exact agree a

theorem Agree.map {result result' : Except Stop Parsed} (agree : Agree result result') (f : Parsed → Parsed)
    (fails : ∀ p, p.length = none → (f p).length = none) :
    Agree (do let p ← result; .ok (f p)) (do let p ← result'; .ok (f p)) := by
  rcases agree with rfl | ⟨p, p', rfl, rfl, none, none'⟩
  · exact Or.inl rfl
  · exact Or.inr ⟨f p, f p', rfl, rfl, fails p none, fails p' none'⟩

section Agree

variable (tag tag' : Option Nat) (buffer : List Byte) (xml : Xml)

theorem agree_failed (buffer' : List Byte) : Agree (.ok ⟨none, tag, buffer', xml⟩) (.ok ⟨none, tag', buffer', xml⟩) :=
  Or.inr ⟨_, _, rfl, rfl, rfl, rfl⟩

theorem parseTagLeaf_agree (name : CString) (type : TagType) :
    Agree (parseTagLeaf name type tag buffer xml) (parseTagLeaf name type tag' buffer xml) := by
  refine Agree.bind _ fun fixed => ?_
  obtain ⟨length, buffer'⟩ := fixed
  cases length with
  | none => exact agree_failed tag tag' xml buffer'
  | some length =>
    rcases newTag xml with ⟨_ | top, xml'⟩
    · exact agree_failed tag tag' xml' buffer'
    · exact Or.inl rfl

theorem parseTagString_agree : Agree (parseTagString tag buffer xml) (parseTagString tag' buffer xml) := by
  refine Agree.bind _ fun fixed => ?_
  obtain ⟨length, buffer'⟩ := fixed
  cases length with
  | none => exact agree_failed tag tag' xml buffer'
  | some length =>
    rcases newTag xml with ⟨_ | top, xml'⟩
    · exact agree_failed tag tag' xml' buffer'
    · exact Or.inl rfl

theorem parseTagBoolean_agree (type : TagType) :
    Agree (.ok (parseTagBoolean type tag buffer xml)) (.ok (parseTagBoolean type tag' buffer xml)) := by
  unfold parseTagBoolean
  rcases newTag xml with ⟨_ | top, xml'⟩
  · exact agree_failed tag tag' xml' buffer
  · exact Or.inl rfl

theorem parseTagList_agree (fuel : Nat) (type : TagType) (empty : Bool) :
    Agree (parseTagList fuel tag buffer type empty xml) (parseTagList fuel tag' buffer type empty xml) := by
  cases fuel with
  | zero => exact Or.inl rfl
  | succ fuel =>
    rw [parseTagList, parseTagList]
    cases empty
    all_goals
      refine Agree.bind _ fun items => ?_
      obtain ⟨_ | pos, root, buffer', xml'⟩ := items
      · exact Agree.bind _ fun xml'' => agree_failed tag tag' xml'' buffer'
      · dsimp only
        rcases newTag xml' with ⟨_ | top, xml''⟩
        · exact Agree.bind _ fun freed => agree_failed tag tag' freed buffer'
        · exact Or.inl rfl

theorem parseTagKey_agree (fuel : Nat) :
    Agree (parseTagKey fuel tag buffer xml) (parseTagKey fuel tag' buffer xml) := by
  cases fuel with
  | zero => exact Or.inl rfl
  | succ fuel =>
    rw [parseTagKey, parseTagKey]
    refine Agree.bind _ fun fixed => ?_
    obtain ⟨length, buffer'⟩ := fixed
    cases length with
    | none => exact agree_failed tag tag' xml buffer'
    | some length =>
      refine Agree.bind _ fun sub => ?_
      obtain ⟨_ | length2, root, later, xml'⟩ := sub
      · exact agree_failed tag tag' xml' (buffer'.take length ++ later)
      · dsimp only
        rcases newTag xml' with ⟨_ | top, xml''⟩
        · exact Agree.bind _ fun freed => agree_failed tag tag' freed (buffer'.take length ++ later)
        · exact Or.inl rfl

theorem parseNextTag_agree (fuel : Nat) (plain : ¬ StartsWithPlist buffer) :
    Agree (parseNextTag fuel tag buffer xml) (parseNextTag fuel tag' buffer xml) := by
  cases fuel with
  | zero => exact Or.inl rfl
  | succ fuel =>
    rw [parseNextTag, parseNextTag]
    rcases scanned : getNextTag buffer with stop | _ | next
    · exact Or.inl rfl
    · exact agree_failed tag tag' xml buffer
    · simp only [ok_bind]
      have shift {result result' : Except Stop Parsed} (agree : Agree result result') :=
        agree.map (fun p => { p with
          length := p.length.map (next.length + ·)
          buffer := next.buffer.take next.length ++ p.buffer }) fun p none => by rw [none]; rfl
      cases branch : tagBranch (cString (next.buffer.drop next.tag)) with
      | plist => exact absurd ⟨next, scanned, branch⟩ plain
      | list type empty => exact shift (parseTagList_agree tag tag' _ xml fuel type empty)
      | key => exact shift (parseTagKey_agree tag tag' _ xml fuel)
      | string => exact shift (parseTagString_agree tag tag' _ xml)
      | integer => exact shift (parseTagLeaf_agree tag tag' _ xml kXMLTagInteger .integer)
      | data => exact shift (parseTagLeaf_agree tag tag' _ xml kXMLTagData .data)
      | date => exact shift (parseTagLeaf_agree tag tag' _ xml kXMLTagDate .date)
      | boolean type => exact shift (parseTagBoolean_agree tag tag' _ xml type)
      | other => exact Or.inl rfl

end Agree

theorem readTagLeaf_assigns {name : CString} {label : CString → TagLabel} {buffer : List Byte} {length : Nat} :
    readTagLeaf name label buffer ≠ .ok (.unassigned, length) := by
  rw [readTagLeaf]
  rcases readTagText name buffer with halt | ⟨text, more⟩
  · exact fun absurd => by cases absurd
  · exact fun absurd => by cases absurd

theorem readTagList_assigns {fuel : Nat} {buffer : List Byte} {type : TagType} {empty : Bool} {length : Nat} :
    readTagList fuel buffer type empty ≠ .ok (.unassigned, length) := by
  cases fuel with
  | zero => exact fun absurd => by cases absurd
  | succ fuel =>
    rw [readTagList]
    cases empty with
    | true => exact fun absurd => by cases absurd
    | false =>
      rcases readTagItems fuel .nil buffer with halt | ⟨items, more⟩
      · exact fun absurd => by cases absurd
      · exact fun absurd => by cases absurd

theorem readTagKey_assigns {fuel : Nat} {buffer : List Byte} {length : Nat} :
    readTagKey fuel buffer ≠ .ok (.unassigned, length) := by
  cases fuel with
  | zero => exact fun absurd => by cases absurd
  | succ fuel =>
    rw [readTagKey]
    rcases readTagText kXMLTagKey buffer with halt | ⟨text, more⟩
    · exact fun absurd => by cases absurd
    · simp only [ok_bind]
      rcases readNextTag fuel (buffer.drop more) with halt | ⟨_ | _ | _, more'⟩
      all_goals exact fun absurd => by cases absurd

theorem readNextTag_unassigned {fuel : Nat} {buffer : List Byte} {length : Nat}
    (read : readNextTag fuel buffer = .ok (.unassigned, length)) : StartsWithPlist buffer := by
  cases fuel with
  | zero => cases read
  | succ fuel =>
    rw [readNextTag] at read
    rcases scanned : getNextTag buffer with stop | _ | next
    · rw [scanned] at read
      cases read
    · rw [scanned] at read
      cases read
    · simp only [scanned, liftStop, ok_bind] at read
      have unshift {result : Except Halt (Outcome × Nat)} (assigns : ∀ length, result ≠ .ok (.unassigned, length))
          (returned : (do let found ← result; .ok (found.1, next.length + found.2)) =
            Except.ok (Outcome.unassigned, length)) : False := by
        rcases result with halt | ⟨outcome, more⟩
        · cases returned
        · cases returned
          exact assigns more rfl
      rcases branch : tagBranch (cString (next.buffer.drop next.tag)) with _ | ⟨type, empty⟩ | _ | _ | _ | _ | _ | _ | _
      · exact ⟨next, scanned, branch⟩
      all_goals rw [branch] at read
      · exact (unshift (fun _ => readTagList_assigns) read).elim
      · exact (unshift (fun _ => readTagKey_assigns) read).elim
      · exact (unshift (fun _ => readTagLeaf_assigns) read).elim
      · exact (unshift (fun _ => readTagLeaf_assigns) read).elim
      · exact (unshift (fun _ => readTagLeaf_assigns) read).elim
      · exact (unshift (fun _ => readTagLeaf_assigns) read).elim
      · cases read
      · cases read

theorem xmlParseNextTag_cases {xml : Xml} {live : Multiset Nat} {texts : Multiset CString} {text : List Byte}
    (held : Held xml live texts) (terminated : 0 ∈ text) (plain : ¬ NestedPlist text) (tag : Option Nat) :
    Fails xml live texts tag (xmlParseNextTag tag text xml) ∨
      ∃ p length outcome, xmlParseNextTag tag text xml = .ok p ∧ p.length = some length ∧
        Leaves xml p.xml live texts tag p.tag outcome ∧ outcome.Named ∧
        (outcome = .unassigned → StartsWithPlist text) := by
  have refines : Refines xml live texts tag text (xmlParseNextTag tag text xml) _ :=
    (refinement (2 * text.length + 2)).next tag terminated held
  have advances := (progress (2 * text.length + 2)).next terminated (Nat.le_add_right _ 2)
  rcases read : readNextTag (2 * text.length + 2) text with (_ | _ | _) | ⟨outcome, length⟩ <;>
    rw [read] at refines advances
  · exact Or.inl refines
  · exact absurd read plain
  · exact advances.elim
  · rcases refines with ⟨_, fails⟩ | ⟨p, ran, total, _, leaves⟩
    · exact Or.inl fails
    · refine Or.inr ⟨p, length, outcome, ran, total, leaves, advances.1, fun unassigned => ?_⟩
      exact readNextTag_unassigned (unassigned ▸ read)

theorem xmlParseNextTag_plist {text : List Byte} (starts : StartsWithPlist text) (tag : Option Nat) (xml : Xml) :
    ∃ p, xmlParseNextTag tag text xml = .ok p ∧ p.length ≠ none ∧ p.tag = tag ∧ p.xml = xml := by
  obtain ⟨next, scanned, branch⟩ := starts
  rw [xmlParseNextTag, parseNextTag]
  simp only [scanned, ok_bind, branch]
  exact ⟨_, rfl, Option.some_ne_none _, rfl, rfl⟩

def Xml.bss (malloc : Malloc) (stack : Nat → Option Nat) : Xml :=
  ⟨fun _ => ⟨.none, none, none, none⟩, 0, none, [], malloc, stack, 0⟩

structure XmlRun where
  xml : Xml
  roots : Multiset Nat

/-- A call on a terminated text in which no nested call reads a `<plist ` tag, or `XMLFreeTag` on a tag
    that was returned. A call on a text that starts with a `<plist ` tag returns nothing of its own. -/
inductive XmlStep : XmlRun → XmlRun → Prop where
  | parsed {xml roots tag text p} (terminated : 0 ∈ text) (plain : ¬ NestedPlist text)
      (first : ¬ StartsWithPlist text) (ran : xmlParseNextTag tag text xml = .ok p) (returned : p.length ≠ none) :
      XmlStep ⟨xml, roots⟩ ⟨p.xml, p.tag.toList + roots⟩
  | skipped {xml roots tag text p} (terminated : 0 ∈ text) (plain : ¬ NestedPlist text)
      (first : StartsWithPlist text) (ran : xmlParseNextTag tag text xml = .ok p) :
      XmlStep ⟨xml, roots⟩ ⟨p.xml, roots⟩
  | failed {xml roots tag text p} (terminated : 0 ∈ text) (plain : ¬ NestedPlist text)
      (ran : xmlParseNextTag tag text xml = .ok p) (failed : p.length = none) :
      XmlStep ⟨xml, roots⟩ ⟨p.xml, roots⟩
  | freed {xml roots root xml'} (member : root ∈ roots) (ran : xmlFreeTag xml (some root) = .ok xml') :
      XmlStep ⟨xml, roots⟩ ⟨xml', roots.erase root⟩

def XmlReachable (malloc : Malloc) (stack : Nat → Option Nat) : XmlRun → Prop :=
  Relation.ReflTransGen XmlStep ⟨Xml.bss malloc stack, 0⟩

structure Returned where
  root : Nat
  tags : BinaryTree Nat
  tree : TagTree

def tagsOf (trees : Multiset Returned) : Multiset Nat := (trees.map fun t => cells t.tags).sum

def textsOf (trees : Multiset Returned) : Multiset CString := (trees.map fun t => treeTexts t.tree).sum

theorem tagsOf_cons (t : Returned) (trees : Multiset Returned) : tagsOf (t ::ₘ trees) = cells t.tags + tagsOf trees := by
  rw [tagsOf, Multiset.map_cons, Multiset.sum_cons, tagsOf]

theorem textsOf_cons (t : Returned) (trees : Multiset Returned) :
    textsOf (t ::ₘ trees) = treeTexts t.tree + textsOf trees := by
  rw [textsOf, Multiset.map_cons, Multiset.sum_cons, textsOf]

theorem tagsOf_subset {t : Returned} {trees : Multiset Returned} (member : t ∈ trees) :
    cells t.tags ⊆ tagsOf trees := by
  obtain ⟨others, rfl⟩ := Multiset.exists_cons_of_mem member
  rw [tagsOf_cons]
  exact Multiset.subset_of_le (Multiset.le_add_right _ _)

structure Holds (run : XmlRun) (trees : Multiset Returned) : Prop where
  roots : run.roots = trees.map Returned.root
  rooted : ∀ t ∈ trees, Rooted run.xml (some t.root) t.tags t.tree
  named : ∀ t ∈ trees, Named t.tree
  held : Held run.xml (tagsOf trees) (textsOf trees)

section Steps

variable {xml xml' : Xml} {roots : Multiset Nat} {trees : Multiset Returned}

theorem Holds.restored (holds : Holds ⟨xml, roots⟩ trees)
    (restored : Restored xml xml' (tagsOf trees) (textsOf trees)) : Holds ⟨xml', roots⟩ trees where
  roots := holds.roots
  rooted t member := (holds.rooted t member).keep restored.keeps (tagsOf_subset member)
  named := holds.named
  held := restored.held

theorem Holds.added (holds : Holds ⟨xml, roots⟩ trees) {root : Nat} {tags : BinaryTree Nat} {tree : TagTree}
    (named : Named tree) (added : Added xml xml' (tagsOf trees) (textsOf trees) (some root) tags tree) :
    Holds ⟨xml', root ::ₘ roots⟩ (⟨root, tags, tree⟩ ::ₘ trees) where
  roots := by rw [Multiset.map_cons, ← holds.roots]
  rooted t member := by
    rcases Multiset.mem_cons.mp member with rfl | member
    · exact added.rooted
    · exact (holds.rooted t member).keep added.keeps (tagsOf_subset member)
  named t member := (Multiset.mem_cons.mp member).elim (fun equal => equal ▸ named) (holds.named t)
  held := by
    rw [tagsOf_cons, textsOf_cons]
    exact added.held

theorem Holds.free (holds : Holds ⟨xml, roots⟩ trees) {root : Nat} (member : root ∈ roots) :
    ∃ xml' rest, xmlFreeTag xml (some root) = .ok xml' ∧ Holds ⟨xml', roots.erase root⟩ rest := by
  rw [show roots = trees.map Returned.root from holds.roots] at member ⊢
  obtain ⟨t, inside, rfl⟩ := Multiset.mem_map.mp member
  obtain ⟨rest, rfl⟩ := Multiset.exists_cons_of_mem inside
  have held := holds.held
  rw [tagsOf_cons, textsOf_cons] at held
  obtain ⟨xml', ran, held', keeps, _⟩ := xmlFreeTag_spec (holds.rooted t inside) held
  refine ⟨xml', rest, ran, ?_, fun other member => ?_, fun other member => ?_, held'⟩
  · rw [Multiset.map_cons, Multiset.erase_cons_head]
  · exact (holds.rooted other (Multiset.mem_cons_of_mem member)).keep keeps (tagsOf_subset member)
  · exact holds.named other (Multiset.mem_cons_of_mem member)

end Steps

theorem failed_restored {xml : Xml} {live : Multiset Nat} {texts : Multiset CString} {text : List Byte}
    (held : Held xml live texts) (terminated : 0 ∈ text) (plain : ¬ NestedPlist text) {tag : Option Nat} {p : Parsed}
    (ran : xmlParseNextTag tag text xml = .ok p) (failed : p.length = none) : Restored xml p.xml live texts := by
  rcases xmlParseNextTag_cases held terminated plain tag with
    (⟨p', ran', _, _, restored⟩ | ⟨panics, _⟩) | ⟨p', length, _, ran', total, _⟩
  · obtain rfl : p = p' := Except.ok.inj (ran.symm.trans ran')
    exact restored
  · cases ran.symm.trans panics
  · obtain rfl : p = p' := Except.ok.inj (ran.symm.trans ran')
    cases failed.symm.trans total

theorem returned_leaves {xml : Xml} {live : Multiset Nat} {texts : Multiset CString} {text : List Byte}
    (held : Held xml live texts) (terminated : 0 ∈ text) (plain : ¬ NestedPlist text) (first : ¬ StartsWithPlist text)
    {tag : Option Nat} {p : Parsed} (ran : xmlParseNextTag tag text xml = .ok p) (returned : p.length ≠ none) :
    (p.tag = none ∧ Restored xml p.xml live texts) ∨ ∃ label below top tags, p.tag = some top ∧
      Named (.node label below .nil) ∧
        Added xml p.xml live texts p.tag (.node top tags .nil) (.node label below .nil) := by
  rcases xmlParseNextTag_cases held terminated plain tag with
    (⟨p', ran', none, _⟩ | ⟨panics, _⟩) | ⟨p', length, outcome, ran', _, leaves, named, starts⟩
  · obtain rfl : p = p' := Except.ok.inj (ran.symm.trans ran')
    exact absurd none returned
  · cases ran.symm.trans panics
  · obtain rfl : p = p' := Except.ok.inj (ran.symm.trans ran')
    cases outcome with
    | unassigned => exact absurd (starts rfl) first
    | null => exact Or.inl leaves
    | tag label below =>
      obtain ⟨top, tags, some, added⟩ := leaves
      exact Or.inr ⟨label, below, top, tags, some, named, added⟩

theorem XmlStep.holds {run run' : XmlRun} {trees : Multiset Returned} (step : XmlStep run run')
    (holds : Holds run trees) : ∃ trees', Holds run' trees' := by
  cases step with
  | @parsed xml roots tag text p terminated plain first ran returned =>
    rcases returned_leaves holds.held terminated plain first ran returned with
      ⟨null, restored⟩ | ⟨label, below, top, tags, some, named, added⟩
    · rw [null]
      exact ⟨trees, (zero_add roots).symm ▸ holds.restored restored⟩
    · rw [some] at added ⊢
      exact ⟨_, holds.added named added⟩
  | @skipped xml roots tag text p _ _ first ran =>
    obtain ⟨p', ran', _, _, same⟩ := xmlParseNextTag_plist first tag xml
    obtain rfl : p = p' := Except.ok.inj (ran.symm.trans ran')
    exact ⟨trees, same.symm ▸ holds⟩
  | @failed xml roots tag text p terminated plain ran failed =>
    exact ⟨trees, holds.restored (failed_restored holds.held terminated plain ran failed)⟩
  | @freed xml roots root xml' member ran =>
    obtain ⟨xml'', rest, ran', holds'⟩ := holds.free member
    obtain rfl : xml' = xml'' := Except.ok.inj (ran.symm.trans ran')
    exact ⟨rest, holds'⟩

theorem bss_holds (malloc : Malloc) (stack : Nat → Option Nat) : Holds ⟨Xml.bss malloc stack, 0⟩ 0 where
  roots := rfl
  rooted t member := absurd member (Multiset.notMem_zero t)
  named t member := absurd member (Multiset.notMem_zero t)
  held := ⟨Pool.empty_iff.mpr rfl, List.nodup_nil, fun _ member => absurd member List.not_mem_nil,
    fun text => ⟨fun member => absurd member (Multiset.notMem_zero text), fun member => absurd member List.not_mem_nil⟩⟩

theorem XmlReachable.holds {malloc : Malloc} {stack : Nat → Option Nat} {run : XmlRun}
    (reachable : XmlReachable malloc stack run) : ∃ trees, Holds run trees := by
  induction reachable with
  | refl => exact ⟨0, bss_holds malloc stack⟩
  | tail _ step ih =>
    obtain ⟨trees, holds⟩ := ih
    exact step.holds holds

def Xml.follow (xml : Xml) : Option Nat → List Bool → Option Nat :=
  Linked.follow (fun tag => (xml.tags tag).tag) (fun tag => (xml.tags tag).tagNext)

def Xml.Free (xml : Xml) (tag : Nat) : Prop :=
  ∃ free, Chain (fun tag => (xml.tags tag).tagNext) xml.tagsFree free ∧ tag ∈ free

/-- The tags reached from `root` are those of the finite tree `tags`, by one path each; none is free. -/
structure FiniteTree (xml : Xml) (root : Option Nat) (tags : BinaryTree Nat) : Prop where
  shape : Shape (fun tag => (xml.tags tag).tag) (fun tag => (xml.tags tag).tagNext) root tags
  once : ∀ tag ∈ cells tags, ∃! path, xml.follow root path = some tag
  taken : ∀ tag ∈ cells tags, ¬ xml.Free tag
  frees : ∃ freed, xmlFreeTag xml root = .ok freed

theorem Rooted.finite {xml : Xml} {root : Option Nat} {tags : BinaryTree Nat} {tree : TagTree} {live : Multiset Nat}
    {texts : Multiset CString} (rooted : Rooted xml root tags tree)
    (held : Held xml (cells tags + live) (treeTexts tree + texts)) : FiniteTree xml root tags where
  shape := rooted.shape
  once tag member := by
    have nodup := held.live_nodup
    rw [Multiset.nodup_add] at nodup
    exact follow_unique rooted.shape nodup.1 member
  taken tag member := by
    rintro ⟨free, chain, inside⟩
    obtain ⟨free', chain', total⟩ := held.pool
    obtain rfl := chain_unique chain chain'
    have nodup := Multiset.nodup_range xml.tagCount
    rw [← total, Multiset.nodup_add] at nodup
    exact Multiset.disjoint_left.mp nodup.2.2 (Multiset.mem_add.mpr (Or.inl member)) inside
  frees := by
    obtain ⟨freed, ran, _⟩ := xmlFreeTag_spec rooted held
    exact ⟨freed, ran⟩

def Xml.Unused (xml : Xml) (tag : Nat) : Prop := xml.Free tag ∨ xml.tagCount ≤ tag

theorem Held.unused {xml : Xml} {live : Multiset Nat} {texts : Multiset CString} (held : Held xml live texts)
    {tag : Nat} (outside : tag ∉ live) : xml.Unused tag := by
  obtain ⟨free, chain, total⟩ := held.pool
  by_cases bound : tag < xml.tagCount
  · have member := Multiset.mem_range.mpr bound
    rw [← total, Multiset.mem_add] at member
    exact Or.inl ⟨free, chain, member.resolve_left outside⟩
  · exact Or.inr (Nat.le_of_not_lt bound)

/-- Whatever `*tag` was, a call that returns a length leaves it null or the root of a tree of new tags. -/
def AssignsTree (xml : Xml) (text : List Byte) : Prop :=
  ∀ tag p, xmlParseNextTag tag text xml = .ok p → p.length ≠ none →
    (∀ tag', xmlParseNextTag tag' text xml = .ok p) ∧
      ∃ tags, FiniteTree p.xml p.tag tags ∧ ∀ tag ∈ cells tags, xml.Unused tag

/-- Every tree that is held stays a tree, and a call on a text in which no nested call reads a `<plist `
    tag assigns a tree exactly when the text does not start with one either. -/
theorem assignsTree_iff {malloc : Malloc} {stack : Nat → Option Nat} {run : XmlRun}
    (reachable : XmlReachable malloc stack run) :
    (∀ root ∈ run.roots, ∃ tags, FiniteTree run.xml (some root) tags) ∧
      ∀ text, 0 ∈ text → ¬ NestedPlist text → (AssignsTree run.xml text ↔ ¬ StartsWithPlist text) := by
  obtain ⟨trees, holds⟩ := reachable.holds
  have held := holds.held
  refine ⟨fun root member => ?_, fun text terminated plain => ⟨fun assigns starts => ?_, fun first tag p ran total => ⟨?_, ?_⟩⟩⟩
  · rw [holds.roots] at member
    obtain ⟨t, inside, rfl⟩ := Multiset.mem_map.mp member
    obtain ⟨rest, rfl⟩ := Multiset.exists_cons_of_mem inside
    rw [tagsOf_cons, textsOf_cons] at held
    exact ⟨t.tags, (holds.rooted t inside).finite held⟩
  · obtain ⟨p, ran, total, same, _⟩ := xmlParseNextTag_plist starts none run.xml
    obtain ⟨p', ran', _, same', _⟩ := xmlParseNextTag_plist starts (some 0) run.xml
    have again := (assigns none p ran total).1 (some 0)
    obtain rfl : p = p' := Except.ok.inj (again.symm.trans ran')
    cases same.symm.trans same'
  · intro tag'
    rcases parseNextTag_agree tag tag' text run.xml (2 * text.length + 2) first with same | ⟨p', _, ran', _, none, _⟩
    · exact same.symm.trans ran
    · obtain rfl : p = p' := Except.ok.inj (ran.symm.trans ran')
      exact absurd none total
  · rcases returned_leaves held terminated plain first ran total with
      ⟨null, restored⟩ | ⟨label, below, top, tags, _, _, added⟩
    · have nothing := restored.added
      rw [null]
      exact ⟨.nil, nothing.rooted.finite nothing.held, fun _ member => absurd member (Multiset.notMem_zero _)⟩
    · refine ⟨_, added.rooted.finite added.held, fun other member => held.unused fun inside => ?_⟩
      have nodup := added.held.live_nodup
      rw [Multiset.nodup_add] at nodup
      exact Multiset.disjoint_left.mp nodup.2.2 member inside

def roomy : Malloc := ⟨fun _ => 0x1000, 0⟩

def okParsed (result : Except Stop Parsed) : Parsed :=
  match result with
  | .ok p => p
  | .error _ => ⟨none, none, [], Xml.bss roomy fun _ => none⟩

theorem okParsed_eq {result : Except Stop Parsed} (ok : result.isOk = true) : result = .ok (okParsed result) := by
  cases result with
  | ok p => rfl
  | error stop => cases ok

def twoStrings : List Byte := (ascii "<array><string>a</string><string>a</string></array>").chars ++ [0]

def twoStringsParsed : Parsed := okParsed (xmlParseNextTag none twoStrings (Xml.bss roomy fun _ => none))

def twoStringsRun : XmlRun := ⟨twoStringsParsed.xml, twoStringsParsed.tag.toList⟩

theorem twoStringsRun_reachable : XmlReachable roomy (fun _ => none) twoStringsRun := by
  have ran : xmlParseNextTag none twoStrings (Xml.bss roomy fun _ => none) = .ok twoStringsParsed :=
    okParsed_eq (by decide +kernel)
  have step : XmlStep ⟨Xml.bss roomy fun _ => none, 0⟩ _ :=
    XmlStep.parsed (by decide +kernel) (by decide +kernel) (by decide +kernel) ran (by decide +kernel)
  rw [add_zero] at step
  exact Relation.ReflTransGen.single step

theorem twoStringsRun_assigns : AssignsTree twoStringsRun.xml twoStrings :=
  ((assignsTree_iff twoStringsRun_reachable).2 twoStrings (by decide +kernel) (by decide +kernel)).mpr (by decide +kernel)

/-- The second item leaves the first one in `tmpTag`, which is then linked to itself. -/
def selfLinked : List Byte := (ascii "<array><true/><plist ></array>").chars ++ [0]

def selfLinkedParsed : Parsed := okParsed (xmlParseNextTag none selfLinked (Xml.bss roomy fun _ => none))

theorem selfLinked_assigns_no_tree : XmlReachable roomy (fun _ => none) ⟨Xml.bss roomy fun _ => none, 0⟩ ∧
    0 ∈ selfLinked ∧ ¬ AssignsTree (Xml.bss roomy fun _ => none) selfLinked := by
  refine ⟨Relation.ReflTransGen.refl, by decide +kernel, fun assigns => ?_⟩
  have ran : xmlParseNextTag none selfLinked (Xml.bss roomy fun _ => none) = .ok selfLinkedParsed :=
    okParsed_eq (by decide +kernel)
  obtain ⟨_, tags, finite, _⟩ := assigns none selfLinkedParsed ran (by decide +kernel)
  have first : selfLinkedParsed.xml.follow selfLinkedParsed.tag [false] = some 0 := by decide +kernel
  have again : selfLinkedParsed.xml.follow selfLinkedParsed.tag [false, true] = some 0 := by decide +kernel
  have same := (finite.once 0 (follow_mem finite.shape first)).unique first again
  cases same

def Xml.Carries (xml : Xml) (text : CString) (tag : Nat) : Prop :=
  ((xml.tags tag).type = .key ∨ (xml.tags tag).type = .string) ∧ (xml.tags tag).string = some text

instance (xml : Xml) (text : CString) (tag : Nat) : Decidable (xml.Carries text tag) :=
  inferInstanceAs (Decidable (_ ∧ _))

def Xml.refCount (xml : Xml) (text : CString) : Option Int := (findSymbol text xml.symbols).map Symbol.refCount

/-- The books of a run: `trees` are the trees of the tags that were returned and not yet freed. -/
structure Accounts (run : XmlRun) (trees : Multiset (Nat × BinaryTree Nat)) : Prop where
  roots : trees.map Prod.fst = run.roots
  shapes : ∀ t ∈ trees, Shape (fun tag => (run.xml.tags tag).tag) (fun tag => (run.xml.tags tag).tagNext) (some t.1) t.2
  partition : ∃ free, Chain (fun tag => (run.xml.tags tag).tagNext) run.xml.tagsFree free ∧
    (trees.map fun t => cells t.2).sum + (free : Multiset Nat) = Multiset.range run.xml.tagCount
  distinct : (run.xml.symbols.map Symbol.string).Nodup
  counted : ∀ symbol ∈ run.xml.symbols, 1 ≤ symbol.refCount ∧
    symbol.refCount = (((trees.map fun t => cells t.2).sum).filter (run.xml.Carries symbol.string)).card
  present : ∀ tag ∈ (trees.map fun t => cells t.2).sum, ∀ text, run.xml.Carries text tag →
    text ∈ run.xml.symbols.map Symbol.string

theorem count_filterMap {α β : Type} [DecidableEq β] (f : α → Option β) (b : β) (s : Multiset α) :
    (s.filterMap f).count b = (s.filter fun a => f a = some b).card := by
  induction s using Multiset.induction with
  | empty => rfl
  | cons a s ih =>
    cases here : f a with
    | none =>
      rw [Multiset.filterMap_cons_none a s here, Multiset.filter_cons_of_neg s (by rw [here]; exact (Option.some_ne_none b).symm), ih]
    | some c =>
      rw [Multiset.filterMap_cons_some f a s here, Multiset.count_cons, ih]
      by_cases equal : b = c
      · rw [if_pos equal, Multiset.filter_cons_of_pos s (by rw [here, equal]), Multiset.card_cons]
      · have other : f a ≠ some b := fun same => equal (Option.some.inj (same.symm.trans here))
        rw [if_neg equal, Multiset.filter_cons_of_neg s other, Nat.add_zero]

theorem Rooted.count {xml : Xml} {root : Option Nat} {tags : BinaryTree Nat} {tree : TagTree}
    (rooted : Rooted xml root tags tree) (named : Named tree) (text : CString) :
    (treeTexts tree).count text = ((cells tags).filter (xml.Carries text)).card := by
  have labels := rooted.labels
  rw [treeTexts, count_filterMap, ← labels, cells_map, Multiset.filter_map, Multiset.card_map]
  congr 1
  refine Multiset.filter_congr fun tag member => ⟨fun same => ⟨?_, same⟩, fun carries => carries.2⟩
  refine named (xml.label tag) ?_ (Option.isSome_iff_exists.mpr ⟨text, same⟩)
  rw [← labels, cells_map]
  exact Multiset.mem_map_of_mem _ member

theorem Holds.count {run : XmlRun} {trees : Multiset Returned} (holds : Holds run trees) (text : CString) :
    (textsOf trees).count text = ((tagsOf trees).filter (run.xml.Carries text)).card := by
  have rooted := holds.rooted
  have named := holds.named
  clear holds
  induction trees using Multiset.induction with
  | empty => rfl
  | cons t trees ih =>
    have here := (rooted t (Multiset.mem_cons_self t trees)).count (named t (Multiset.mem_cons_self t trees)) text
    have later := ih (fun t member => rooted t (Multiset.mem_cons_of_mem member))
      fun t member => named t (Multiset.mem_cons_of_mem member)
    rw [textsOf_cons, tagsOf_cons, Multiset.count_add, Multiset.filter_add, Multiset.card_add, here, later]

theorem Holds.accounts {run : XmlRun} {trees : Multiset Returned} (holds : Holds run trees) :
    Accounts run (trees.map fun t => (t.root, t.tags)) := by
  have total : ((trees.map fun t => (t.root, t.tags)).map fun t => cells t.2).sum = tagsOf trees := by
    rw [Multiset.map_map]
    rfl
  refine ⟨?_, ?_, ?_, holds.held.symbols.distinct, ?_, ?_⟩
  · rw [Multiset.map_map, holds.roots]
    rfl
  · intro t member
    obtain ⟨tree, inside, rfl⟩ := Multiset.mem_map.mp member
    exact (holds.rooted tree inside).shape
  · rw [total]
    exact holds.held.pool
  · intro symbol member
    rw [total, ← holds.count]
    exact ⟨holds.held.symbols.positive member, holds.held.symbols.counted symbol member⟩
  · intro tag member text carries
    rw [total] at member
    rw [← holds.held.symbols.present, ← Multiset.one_le_count_iff_mem, holds.count]
    exact Multiset.card_pos_iff_exists_mem.mpr ⟨tag, Multiset.mem_filter.mpr ⟨member, carries⟩⟩

theorem Counts.refCount {symbols : List Symbol} {texts : Multiset CString} (counts : Counts symbols texts)
    (text : CString) : (findSymbol text symbols).map Symbol.refCount =
      if text ∈ texts then some (texts.count text : Int) else none := by
  cases found : findSymbol text symbols with
  | none => rw [if_neg ((counts.present text).not.mpr (findSymbol_none.mp found))]; rfl
  | some symbol =>
    obtain ⟨inside, rfl⟩ := findSymbol_some found
    rw [if_pos ((counts.present symbol.string).mpr (List.mem_map_of_mem inside)), Option.map_some,
      counts.counted symbol inside]

theorem calls_return {malloc : Malloc} {stack : Nat → Option Nat} {run : XmlRun}
    (reachable : XmlReachable malloc stack run) :
    (∀ tag text, 0 ∈ text → ¬ NestedPlist text → (∃ p, xmlParseNextTag tag text run.xml = .ok p) ∨
      (xmlParseNextTag tag text run.xml = .error .panic ∧ ¬ run.xml.malloc.Succeeds)) ∧
      ∀ root ∈ run.roots, ∃ xml', xmlFreeTag run.xml (some root) = .ok xml' := by
  obtain ⟨trees, holds⟩ := reachable.holds
  constructor
  · intro tag text terminated plain
    rcases xmlParseNextTag_cases holds.held terminated plain tag with (⟨p, ran, _⟩ | panics) | ⟨p, _, _, ran, _⟩
    · exact Or.inl ⟨p, ran⟩
    · exact Or.inr panics
    · exact Or.inl ⟨p, ran⟩
  · intro root member
    obtain ⟨xml', _, ran, _⟩ := holds.free member
    exact ⟨xml', ran⟩

/-- After any run the books balance, and a call that returns -1 leaves them as they were. -/
theorem runs_account {malloc : Malloc} {stack : Nat → Option Nat} {run : XmlRun}
    (reachable : XmlReachable malloc stack run) :
    (∃ trees, Accounts run trees ∧ ∀ tag text p, 0 ∈ text → ¬ NestedPlist text →
      xmlParseNextTag tag text run.xml = .ok p → p.length = none →
        Accounts ⟨p.xml, run.roots⟩ trees ∧
          (∀ tag ∈ (trees.map fun t => cells t.2).sum, p.xml.tags tag = run.xml.tags tag) ∧
          ∀ text, p.xml.refCount text = run.xml.refCount text) ∧
      (run.roots = 0 → run.xml.symbols = []) := by
  obtain ⟨trees, holds⟩ := reachable.holds
  refine ⟨⟨_, holds.accounts, fun tag text p terminated plain ran failed => ?_⟩, fun none => ?_⟩
  · have restored := failed_restored holds.held terminated plain ran failed
    refine ⟨(holds.restored restored).accounts, fun tag member => restored.keeps tag ?_, fun text => ?_⟩
    · rwa [Multiset.map_map] at member
    · rw [Xml.refCount, Xml.refCount, restored.held.symbols.refCount, holds.held.symbols.refCount]
  · have empty : trees = 0 := Multiset.map_eq_zero.mp (holds.roots.symm.trans none)
    refine List.eq_nil_iff_forall_not_mem.mpr fun symbol member => ?_
    have inside := (holds.held.symbols.present symbol.string).mpr (List.mem_map_of_mem member)
    rw [empty] at inside
    exact absurd inside (Multiset.notMem_zero _)

theorem twoStringsRun_accounts : twoStringsRun.xml.refCount (ascii "a") = some 2 ∧ ∃ trees, Accounts twoStringsRun trees := by
  obtain ⟨⟨trees, accounts, _⟩, _⟩ := runs_account twoStringsRun_reachable
  exact ⟨by decide +kernel, trees, accounts⟩

end GenericBooter
