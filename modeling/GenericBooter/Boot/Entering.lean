import GenericBooter.Boot.Devicetree
import GenericBooter.DeviceTree.Growth
import GenericBooter.Xml.Frame

namespace GenericBooter

open Linked

def Kept (dt : DeviceTree) (tree : Forest) : Prop :=
  dt.malloc.Succeeds ∧ ∃ tree', Represents dt tree' ∧ liveNodes tree ⊆ liveNodes tree'

section Mutators

variable {dt dt' : DeviceTree} {tree tree' : Forest} {n : Nat}

theorem Kept.refl (held : Represents dt tree) (good : dt.malloc.Succeeds) : Kept dt tree :=
  ⟨good, tree, held, Multiset.Subset.refl _⟩

theorem Kept.trans (kept : Kept dt tree)
    (later : ∀ tree', Represents dt tree' → liveNodes tree ⊆ liveNodes tree' → dt.malloc.Succeeds → Kept dt' tree') :
    Kept dt' tree := by
  obtain ⟨good, tree', held, live⟩ := kept
  obtain ⟨good', tree'', held', live'⟩ := later tree' held live good
  exact ⟨good', tree'', held', Multiset.Subset.trans live live'⟩

theorem addPropertyTo_kept {name : CString} {length : Word} {value : Value} (held : Represents dt tree)
    (member : n ∈ liveNodes tree) (good : dt.malloc.Succeeds)
    (ran : addPropertyTo dt (some n) name length value = .ok dt') : Kept dt' tree := by
  obtain ⟨dt₁, ran', props, young, _, empty, good', held'⟩ := addPropertyTo_spec name length value held member good
  obtain rfl := Except.ok.inj (ran.symm.trans ran')
  exact ⟨good', _, held', (liveNodes_graft (f := addEntries props) (fun _ => rfl) young held member).1⟩

theorem dtAddChild_kept {result : Option Nat} (held : Represents dt tree) (member : n ∈ liveNodes tree)
    (good : dt.malloc.Succeeds) (ran : dtAddChild dt (some n) none = .ok (result, dt')) :
    dt'.malloc.Succeeds ∧ ∃ child tree', result = some child ∧ Represents dt' tree' ∧ child ∈ liveNodes tree' ∧
      liveNodes tree ⊆ liveNodes tree' := by
  obtain ⟨result', dt₁, ran', _, returned, succeeds⟩ := dtAddChild_spec (some n) none held member
  obtain ⟨rfl, rfl⟩ := Prod.mk.inj (Except.ok.inj (ran.symm.trans ran'))
  obtain ⟨good', given⟩ := succeeds good
  cases result with
  | none => exact absurd rfl given
  | some child =>
    obtain ⟨_, props, _, held', _⟩ := returned child rfl
    obtain ⟨live, own⟩ := liveNodes_graft (f := id) (fun _ => rfl) (.node (child, props) .nil .nil) held member
    have here : child ∈ liveNodes (.node (child, props) .nil .nil) :=
      Multiset.mem_map_of_mem Prod.fst (Multiset.mem_cons_self (child, props) _)
    exact ⟨good', child, _, rfl, held', own here, live⟩

end Mutators

section Data

variable {malloc malloc' : Malloc} {made : Word × List Byte}

theorem arrayToDeviceTreeData_later {xml : Xml} {symbolAt : CString → Word} {tag : Nat}
    (ran : arrayToDeviceTreeData xml symbolAt tag malloc = .ok (made, malloc')) : Malloc.Later malloc malloc' := by
  unfold arrayToDeviceTreeData at ran
  split at ran
  · cases ran
  · split at ran
    · cases ran
    · simp only [bind_eq_ok] at ran
      obtain ⟨_, _, data, _, ran⟩ := ran
      split at ran
      · cases ran
      · obtain ⟨_, rfl⟩ := Prod.mk.inj (Except.ok.inj ran)
        exact Malloc.Later.call malloc

theorem integerToDeviceTreeData_later {value : Word}
    (ran : integerToDeviceTreeData value malloc = .ok (made, malloc')) : Malloc.Later malloc malloc' := by
  unfold integerToDeviceTreeData at ran
  simp only at ran
  split at ran
  · cases ran
  · obtain ⟨_, rfl⟩ := Prod.mk.inj (Except.ok.inj ran)
    exact Malloc.Later.call malloc

theorem stringToDeviceTreeData_later {value : Option CString}
    (ran : stringToDeviceTreeData value malloc = .ok (made, malloc')) : Malloc.Later malloc malloc' := by
  unfold stringToDeviceTreeData at ran
  cases value with
  | none => cases ran
  | some string =>
    simp only at ran
    split at ran
    · cases ran
    · obtain ⟨_, rfl⟩ := Prod.mk.inj (Except.ok.inj ran)
      exact Malloc.Later.call malloc

theorem addData_kept {dt dt' : DeviceTree} {tree : Forest} {n : Nat} {key : Option CString}
    {pval : Malloc → Except Stop ((Word × List Byte) × Malloc)}
    (later : ∀ made malloc', pval dt.malloc = .ok (made, malloc') → Malloc.Later dt.malloc malloc')
    (held : Represents dt tree) (member : n ∈ liveNodes tree) (good : dt.malloc.Succeeds)
    (ran : addData dt (some n) key pval = .ok dt') : Kept dt' tree := by
  simp only [addData, copyKey, bind_eq_ok] at ran
  obtain ⟨⟨made, malloc⟩, valued, ⟨name, malloc'⟩, ⟨⟨copied, malloc''⟩, named, copy⟩, ran⟩ := ran
  obtain ⟨rfl, rfl⟩ := Prod.mk.inj (Except.ok.inj copy)
  have memory := (later made malloc valued).trans (stringToDeviceTreeData_later named)
  exact addPropertyTo_kept (held.with_malloc malloc'') member (memory.succeeds good) ran

end Data

structure Populating (xml : Xml) (symbolAt : CString → Word) (fuel : Nat) : Prop where
  node : ∀ {tag n : Nat} {dt dt' : DeviceTree} {tree : Forest}, Represents dt tree → n ∈ liveNodes tree →
    dt.malloc.Succeeds → populateDeviceTreeNode xml symbolAt fuel tag (some n) dt = .ok dt' → Kept dt' tree
  keys : ∀ {head : Option Nat} {n : Nat} {dt dt' : DeviceTree} {tree : Forest}, Represents dt tree →
    n ∈ liveNodes tree → dt.malloc.Succeeds → populateKeys xml symbolAt fuel head (some n) dt = .ok dt' → Kept dt' tree
  walk : ∀ {tag n : Nat} {dt dt' : DeviceTree} {tree : Forest}, Represents dt tree → n ∈ liveNodes tree →
    dt.malloc.Succeeds → walkDeviceTreeNodeChildren xml symbolAt fuel tag (some n) dt = .ok dt' → Kept dt' tree
  children : ∀ {head : Option Nat} {n : Nat} {dt dt' : DeviceTree} {tree : Forest}, Represents dt tree →
    n ∈ liveNodes tree → dt.malloc.Succeeds → populateChildren xml symbolAt fuel head (some n) dt = .ok dt' →
      Kept dt' tree

section Induction

variable {xml : Xml} {symbolAt : CString → Word} {fuel n : Nat} {dt dt' : DeviceTree} {tree : Forest}

theorem Populating.key (ih : Populating xml symbolAt fuel) {key : Tag} (held : Represents dt tree)
    (member : n ∈ liveNodes tree) (good : dt.malloc.Succeeds) {after : DeviceTree → Except Stop DeviceTree}
    (ran : (match key.tag with
      | none => after dt
      | some value =>
        match (xml.tags value).type with
        | .array => if isChildren key.string then do
            let dt ← walkDeviceTreeNodeChildren xml symbolAt fuel value (some n) dt
            after dt
          else do
            let dt ← addData dt (some n) key.string (arrayToDeviceTreeData xml symbolAt value)
            after dt
        | .integer => do
          let dt ← addData dt (some n) key.string
            (integerToDeviceTreeData (stringWord symbolAt (xml.tags value).string))
          after dt
        | .string => do
          let dt ← addData dt (some n) key.string (stringToDeviceTreeData (xml.tags value).string)
          after dt
        | _ => after dt) = .ok dt') : ∃ dt₁, Kept dt₁ tree ∧ after dt₁ = .ok dt' := by
  have ignored (ran : after dt = .ok dt') : ∃ dt₁, Kept dt₁ tree ∧ after dt₁ = .ok dt' :=
    ⟨dt, Kept.refl held good, ran⟩
  have followed {result : Except Stop DeviceTree} (kept : ∀ dt₁, result = .ok dt₁ → Kept dt₁ tree)
      (ran : (do let dt ← result; after dt) = .ok dt') : ∃ dt₁, Kept dt₁ tree ∧ after dt₁ = .ok dt' := by
    obtain ⟨dt₁, made, ran⟩ := bind_eq_ok.mp ran
    exact ⟨dt₁, kept dt₁ made, ran⟩
  cases value : key.tag with
  | none =>
    rw [value] at ran
    exact ignored ran
  | some value' =>
    simp only [value] at ran
    cases type : (xml.tags value').type with
    | array =>
      simp only [type] at ran
      split at ran
      · exact followed (fun _ => ih.walk held member good) ran
      · exact followed (fun _ => addData_kept (fun _ _ => arrayToDeviceTreeData_later) held member good) ran
    | integer =>
      simp only [type] at ran
      exact followed (fun _ => addData_kept (fun _ _ => integerToDeviceTreeData_later) held member good) ran
    | string =>
      simp only [type] at ran
      exact followed (fun _ => addData_kept (fun _ _ => stringToDeviceTreeData_later) held member good) ran
    | _ =>
      simp only [type] at ran
      exact ignored ran

theorem Populating.step (ih : Populating xml symbolAt fuel) : Populating xml symbolAt (fuel + 1) where
  node held member good ran := by
    rw [populateDeviceTreeNode] at ran
    split at ran
    · cases ran
    · exact ih.keys held member good ran
  keys := by
    intro head n dt dt' tree held member good ran
    cases head with
    | none =>
      obtain rfl := Except.ok.inj ran
      exact Kept.refl held good
    | some next =>
      rw [populateKeys] at ran
      obtain ⟨dt₁, here, later⟩ := ih.key held member good ran
      refine here.trans fun tree' held' live good' => ?_
      exact ih.keys held' (live member) good' later
  walk held member good ran := by
    rw [walkDeviceTreeNodeChildren] at ran
    split at ran
    · cases ran
    · split at ran
      · cases ran
      · exact ih.children held member good ran
  children := by
    intro head n dt dt' tree held member good ran
    cases head with
    | none =>
      obtain rfl := Except.ok.inj ran
      exact Kept.refl held good
    | some next =>
      simp only [populateChildren, bind_eq_ok] at ran
      obtain ⟨⟨newNode, dt₁⟩, added, dt₂, entered, later⟩ := ran
      obtain ⟨good₁, child, tree₁, rfl, held₁, own, live₁⟩ := dtAddChild_kept held member good added
      obtain ⟨good₂, tree₂, held₂, live₂⟩ := ih.node held₁ own good₁ entered
      obtain ⟨good₃, tree₃, held₃, live₃⟩ := ih.children held₂ (live₂ (live₁ member)) good₂ later
      exact ⟨good₃, tree₃, held₃, Multiset.Subset.trans live₁ (Multiset.Subset.trans live₂ live₃)⟩

end Induction

theorem populating (xml : Xml) (symbolAt : CString → Word) (fuel : Nat) : Populating xml symbolAt fuel := by
  induction fuel with
  | zero =>
    constructor
    · rintro _ _ _ _ _ _ _ _ ⟨⟩
    · rintro _ _ _ _ _ _ _ _ ⟨⟩
    · rintro _ _ _ _ _ _ _ _ ⟨⟩
    · rintro _ _ _ _ _ _ _ _ ⟨⟩
  | succ fuel ih => exact ih.step

section Loop

variable {b b' : Booter} {root fuel : Nat} {tag : Option Nat} {text text' : List Byte} {entered : Bool} {tree : Forest}

theorem parseNextTag_framed {p : Parsed} (ran : b.parseNextTag tag text = .ok (p, b')) :
    Framed text { b.xml with malloc := b.dt.malloc } p ∧
      b' = { b with xml := p.xml, dt := { b.dt with malloc := p.xml.malloc } } := by
  rw [Booter.parseNextTag, bind_eq_ok] at ran
  obtain ⟨p', parse, ran⟩ := ran
  obtain ⟨rfl, rfl⟩ := Prod.mk.inj (Except.ok.inj ran)
  exact ⟨xmlParseNextTag_framed parse, rfl⟩

theorem enterDocument_cases (ran : enterDocument root (fuel + 1) tag text b = .ok (entered, text', b')) :
    ∃ p, Framed text { b.xml with malloc := b.dt.malloc } p ∧
      ((text' = p.buffer ∧ b'.dt = { b.dt with malloc := p.xml.malloc }) ∨
        (∃ found, text' = p.buffer ∧ populateDeviceTreeNode p.xml b.symbolAt (3 * p.xml.tagCount + 3) found (some root)
          { b.dt with malloc := p.xml.malloc } = .ok b'.dt) ∨
        ∃ length tag' xml rest, text' = p.buffer.take length ++ rest ∧ enterDocument root fuel tag' (p.buffer.drop length)
          { b with xml := xml, dt := { b.dt with malloc := p.xml.malloc } } = .ok (entered, rest, b')) := by
  rw [enterDocument, bind_eq_ok] at ran
  obtain ⟨⟨p, b₁⟩, parse, ran⟩ := ran
  obtain ⟨framed, rfl⟩ := parseNextTag_framed parse
  refine ⟨p, framed, ?_⟩
  rcases total : p.length with _ | length
  · simp only [total] at ran
    obtain ⟨_, rfl, rfl⟩ := ran
    exact Or.inl ⟨rfl, rfl⟩
  · rcases given : p.tag with _ | found
    · simp only [total, given, bind_eq_ok] at ran
      obtain ⟨⟨entered', rest, b₂⟩, later, ran⟩ := ran
      obtain ⟨rfl, rfl, rfl⟩ := ran
      exact Or.inr (Or.inr ⟨length, none, p.xml, rest, rfl, later⟩)
    · simp only [total, given] at ran
      split at ran
      · simp only [bind_eq_ok, Booter.populate, Booter.freeTag] at ran
        obtain ⟨b₂, ⟨dt, populated, made⟩, b₃, ⟨xml, _, freed⟩, ran⟩ := ran
        obtain rfl := Except.ok.inj made
        obtain rfl := Except.ok.inj freed
        obtain ⟨_, rfl, rfl⟩ := ran
        exact Or.inr (Or.inl ⟨found, rfl, populated⟩)
      · simp only [bind_eq_ok, Booter.freeTag] at ran
        obtain ⟨b₂, ⟨xml, _, freed⟩, ⟨entered', rest, b₃⟩, later, ran⟩ := ran
        obtain rfl := Except.ok.inj freed
        obtain ⟨rfl, rfl, rfl⟩ := ran
        exact Or.inr (Or.inr ⟨length, some found, xml, rest, rfl, later⟩)

theorem enterDocument_erased (ran : enterDocument root fuel tag text b = .ok (entered, text', b')) :
    Erased text text' := by
  induction fuel generalizing tag text text' b with
  | zero => cases ran
  | succ fuel ih =>
    obtain ⟨p, framed, ⟨rfl, _⟩ | ⟨_, rfl, _⟩ | ⟨length, tag', xml, rest, rfl, later⟩⟩ := enterDocument_cases ran
    · exact framed.text
    · exact framed.text
    · exact framed.text.chain (ih later)

theorem enterDocument_kept (held : Represents b.dt tree) (member : root ∈ liveNodes tree) (good : b.dt.malloc.Succeeds)
    (ran : enterDocument root fuel tag text b = .ok (entered, text', b')) : Kept b'.dt tree := by
  induction fuel generalizing tag text text' b with
  | zero => cases ran
  | succ fuel ih =>
    obtain ⟨p, framed, ⟨_, same⟩ | ⟨found, _, populated⟩ | ⟨length, tag', xml, rest, _, later⟩⟩ := enterDocument_cases ran
    · rw [same]
      exact Kept.refl (held.with_malloc p.xml.malloc) (framed.memory.succeeds good)
    · exact (populating _ _ _).node (held.with_malloc p.xml.malloc) member (framed.memory.succeeds good) populated
    · refine ih ?_ ?_ later
      · exact held.with_malloc p.xml.malloc
      · exact framed.memory.succeeds good

end Loop

/-- With memory to be had, the heap stands for a tree when a text has been entered, whatever the text is. -/
theorem prepareDevicetree_represents {locals : DevicetreeLocals} {b b' : Booter} {entered : Bool}
    (good : b.dt.malloc.Succeeds) (ran : prepareDevicetree locals b = .ok (entered, b')) :
    b'.dt.malloc.Succeeds ∧ ∃ tree, Represents b'.dt tree ∧ tree ≠ .nil := by
  simp only [prepareDevicetree, bind_eq_ok] at ran
  obtain ⟨image, _, _, _, payload, _, dt, initialized, ran⟩ := ran
  obtain ⟨dt', initialized', _, succeeds⟩ := dtInitialize_spec b.dt
  obtain rfl := Except.ok.inj (initialized.symm.trans initialized')
  obtain ⟨good', root, prop, shown⟩ := succeeds good
  rw [represents_root shown] at ran
  simp only [rootOf, bind_eq_ok] at ran
  obtain ⟨text, _, ⟨entered', text', b₁⟩, document, ran⟩ := ran
  obtain ⟨_, rfl⟩ := Prod.mk.inj (Except.ok.inj ran)
  have member : root ∈ liveNodes (.node (root, [(prop, nameAttribute (ascii "/"))]) .nil .nil) :=
    Multiset.mem_map_of_mem Prod.fst (Multiset.mem_cons_self (root, [(prop, nameAttribute (ascii "/"))]) _)
  obtain ⟨good'', tree, held, live⟩ := enterDocument_kept shown member good' document
  refine ⟨good'', tree, held, ?_⟩
  rintro rfl
  exact absurd (live member) (Multiset.notMem_zero _)

end GenericBooter
