import GenericBooter.Boot.Populate
import GenericBooter.DeviceTree.Mutators
import GenericBooter.Xml.Layout

namespace GenericBooter

open Linked

/-- A device tree without its entries: the properties of each node, in order. -/
abbrev PlainTree := BinaryTree (List Attribute)

def contents (label : NodeLabel) : List Attribute := label.2.map Prod.snd

def stringAttribute (key text : CString) : Attribute :=
  ⟨key, BitVec.ofNat 32 (text.chars.length + 1), bytesValue text.bytes⟩

def integerAttribute (key : CString) : Attribute := ⟨key, 4, bytesValue (wordBytes 0)⟩

def arrayAttribute (key : CString) (data : List Byte) : Attribute :=
  ⟨key, BitVec.ofNat 32 data.length, bytesValue data⟩

inductive ArrayData : TagTree → List Byte → Prop where
  | nil : ArrayData .nil []
  | integer {below beside data} (later : ArrayData beside data) :
      ArrayData (.node (.integer, none) below beside) (wordBytes 0 ++ data)
  | string {text below beside data} (later : ArrayData beside data) :
      ArrayData (.node (.string, some text) below beside) (text.bytes ++ data)

inductive Provides : CString → TagLabel → TagTree → List Attribute → Prop where
  | string {key text below} : Provides key (.string, some text) below [stringAttribute key text]
  | integer {key below} : Provides key (.integer, none) below [integerAttribute key]
  | array {key items data} (plain : isChildren (some key) = false) (nonempty : items ≠ .nil)
      (held : ArrayData items data) : Provides key (.array, none) items [arrayAttribute key data]
  | other {key type string below} (ignored : type ≠ .array ∧ type ≠ .integer ∧ type ≠ .string) :
      Provides key (type, string) below []

mutual

inductive Keys : TagTree → List Attribute → PlainTree → Prop where
  | nil : Keys .nil [] .nil
  | property {key value below beside attrs attrs' kids} (provides : Provides key value below attrs)
      (later : Keys beside attrs' kids) :
      Keys (.node (.key, some key) (.node value below .nil) beside) (attrs ++ attrs') kids
  | children {key items beside attrs kids young} (marked : isChildren (some key) = true)
      (nonempty : items ≠ .nil) (dicts : Dicts items young) (later : Keys beside attrs kids) :
      Keys (.node (.key, some key) (.node (.array, none) items .nil) beside) attrs (forestAppend kids young)

inductive Dicts : TagTree → PlainTree → Prop where
  | nil : Dicts .nil .nil
  | cons {keys beside attrs kids young} (entries : Keys keys attrs kids) (later : Dicts beside young) :
      Dicts (.node (.dict, none) keys beside) (forestAppend young (.node attrs kids .nil))

end

def addEntries (props : List (Nat × Attribute)) (label : NodeLabel) : NodeLabel := (label.1, label.2 ++ props)

/-- The node `n` of `tree` has got `attrs`, and `kids` in front of its children; nothing else changed. -/
def Populated (dt : DeviceTree) (n : Nat) (tree : Forest) (attrs : List Attribute) (kids : PlainTree) : Prop :=
  ∃ props young, props.map Prod.snd = attrs ∧ young.map contents = kids ∧ dt.malloc.Succeeds ∧
    Represents dt (graft Prod.fst n (addEntries props) young tree)

section Steps

variable {dt dt' : DeviceTree} {n : Nat} {tree : Forest}

theorem addEntries_nil : addEntries [] = id := by
  funext label
  rw [addEntries, List.append_nil]
  rfl

theorem addEntries_comp (props props' : List (Nat × Attribute)) :
    addEntries props' ∘ addEntries props = addEntries (props ++ props') := by
  funext label
  rw [Function.comp_apply, addEntries, addEntries, addEntries, List.append_assoc]

theorem Populated.unchanged (held : Represents dt tree) (good : dt.malloc.Succeeds) :
    Populated dt n tree [] .nil := by
  refine ⟨[], .nil, rfl, rfl, good, ?_⟩
  rwa [addEntries_nil, graft_id]

theorem Populated.trans {attrs attrs' : List Attribute} {kids kids' : PlainTree}
    (first : ∃ props young, props.map Prod.snd = attrs ∧ young.map contents = kids ∧
      Populated dt n (graft Prod.fst n (addEntries props) young tree) attrs' kids') :
    Populated dt n tree (attrs ++ attrs') (forestAppend kids' kids) := by
  obtain ⟨props, young, rfl, rfl, props', young', rfl, rfl, good, held⟩ := first
  refine ⟨props ++ props', forestAppend young' young, List.map_append, map_forestAppend _ _ _, good, ?_⟩
  have kept : ∀ label : NodeLabel, label.1 = n → (addEntries props label).1 = n := fun _ same => same
  rwa [graft_graft kept, addEntries_comp] at held

theorem live_graft (props : List (Nat × Attribute)) (young : Forest) (held : Represents dt tree)
    (member : n ∈ liveNodes tree) : n ∈ liveNodes (graft Prod.fst n (addEntries props) young tree) := by
  obtain ⟨entries, slots, layout⟩ := held
  obtain ⟨label, inside, rfl⟩ := Multiset.mem_map.mp member
  obtain ⟨rest, _, grafted⟩ := graft_cells (addEntries props) young layout.liveNodes_nodup inside rfl
  rw [liveNodes, grafted, Multiset.map_cons]
  exact Multiset.mem_cons_self _ _

theorem addPropertyTo_spec (name : CString) (length : Word) (value : Value) (held : Represents dt tree)
    (member : n ∈ liveNodes tree) (good : dt.malloc.Succeeds) :
    ∃ dt', addPropertyTo dt (some n) name length value = .ok dt' ∧
      Populated dt' n tree [⟨name, length, value⟩] .nil := by
  obtain ⟨result, dt', ran, held', succeeds⟩ := dtAddProperty_spec name length value held member
  obtain ⟨good', given⟩ := succeeds good
  cases result with
  | none => exact absurd rfl given
  | some prop =>
    refine ⟨dt', ?_, [(prop, ⟨name, length, value⟩)], .nil, rfl, rfl, good', held'⟩
    rw [addPropertyTo, ran]
    rfl

theorem stringToDeviceTreeData_ok (text : CString) {malloc : Malloc} (good : malloc.Succeeds) :
    stringToDeviceTreeData (some text) malloc =
      .ok ((BitVec.ofNat 32 (text.chars.length + 1), text.bytes), malloc.call.2) := by
  rw [stringToDeviceTreeData]
  exact if_neg good.answer

theorem copyKey_ok (key : CString) {malloc : Malloc} (good : malloc.Succeeds) :
    copyKey (some key) malloc = .ok (key, malloc.call.2) := by
  have same : cString key.bytes = key := CString.ext_chars (cString_append_zero key.noNul [])
  rw [copyKey, stringToDeviceTreeData_ok key good]
  simp only [ok_bind, same]

theorem addData_spec {key : CString} {length : Word} {data : List Byte}
    {pval : Malloc → Except Stop ((Word × List Byte) × Malloc)} (held : Represents dt tree)
    (member : n ∈ liveNodes tree) (good : dt.malloc.Succeeds)
    (made : pval dt.malloc = .ok ((length, data), dt.malloc.call.2)) :
    ∃ dt', addData dt (some n) (some key) pval = .ok dt' ∧
      Populated dt' n tree [⟨key, length, bytesValue data⟩] .nil := by
  obtain ⟨dt', ran, populated⟩ := addPropertyTo_spec key length (bytesValue data)
    (held.with_malloc dt.malloc.call.2.call.2) member good.later.later
  refine ⟨dt', ?_, populated⟩
  rw [addData, made]
  simp only [ok_bind, copyKey_ok key good.later]
  exact ran

end Steps

section Heap

variable {xml : Xml} {root : Option Nat} {tags : BinaryTree Nat}

theorem Rooted.empty (rooted : Rooted xml root tags .nil) : root = none ∧ tags = .nil := by
  cases tags with
  | nil => exact ⟨rooted.shape, rfl⟩
  | node p left right => cases rooted.labels

theorem Rooted.top {label : TagLabel} {below beside : TagTree} (rooted : Rooted xml root tags (.node label below beside)) :
    ∃ p left right, root = some p ∧ tags = .node p left right ∧ (xml.tags p).type = label.1 ∧
      (xml.tags p).string = label.2 ∧ Rooted xml (xml.tags p).tag left below ∧
      Rooted xml (xml.tags p).tagNext right beside := by
  cases tags with
  | nil => cases rooted.labels
  | node p left right =>
    obtain ⟨top, shapeBelow, shapeBeside⟩ := rooted.shape
    have labels := rooted.labels
    rw [BinaryTree.map] at labels
    injection labels with here below beside
    exact ⟨p, left, right, top, rfl, congrArg Prod.fst here, congrArg Prod.snd here, ⟨shapeBelow, below⟩,
      ⟨shapeBeside, beside⟩⟩

theorem countArray_ok {items : TagTree} {data : List Byte} (held : ArrayData items data)
    (rooted : Rooted xml root tags items) (fuel : Nat) (enough : tags.numNodes < fuel) :
    countArray xml fuel root = .ok data.length := by
  induction held generalizing root tags fuel with
  | nil =>
    obtain ⟨rfl, rfl⟩ := rooted.empty
    obtain ⟨fuel, rfl⟩ := Nat.exists_eq_succ_of_ne_zero (Nat.ne_of_gt enough)
    rfl
  | integer _ ih =>
    obtain ⟨p, left, right, rfl, rfl, type, string, _, beside⟩ := rooted.top
    rw [BinaryTree.numNodes] at enough
    obtain ⟨fuel, rfl⟩ := Nat.exists_eq_succ_of_ne_zero (Nat.ne_of_gt (Nat.zero_lt_of_lt enough))
    rw [countArray, type]
    simp only [ok_bind, ih beside fuel (by omega), List.length_append, wordBytes_length]
  | string _ ih =>
    obtain ⟨p, left, right, rfl, rfl, type, string, _, beside⟩ := rooted.top
    rw [BinaryTree.numNodes] at enough
    obtain ⟨fuel, rfl⟩ := Nat.exists_eq_succ_of_ne_zero (Nat.ne_of_gt (Nat.zero_lt_of_lt enough))
    rw [countArray, type, string]
    simp only [stringLength, ok_bind, ih beside fuel (by omega), List.length_append, CString.bytes_length]

theorem copyArray_ok (symbolAt : CString → Word) {items : TagTree} {data : List Byte} (held : ArrayData items data)
    (rooted : Rooted xml root tags items) (fuel : Nat) (enough : tags.numNodes < fuel) :
    copyArray xml symbolAt fuel root = .ok data := by
  induction held generalizing root tags fuel with
  | nil =>
    obtain ⟨rfl, rfl⟩ := rooted.empty
    obtain ⟨fuel, rfl⟩ := Nat.exists_eq_succ_of_ne_zero (Nat.ne_of_gt enough)
    rfl
  | integer _ ih =>
    obtain ⟨p, left, right, rfl, rfl, type, string, _, beside⟩ := rooted.top
    rw [BinaryTree.numNodes] at enough
    obtain ⟨fuel, rfl⟩ := Nat.exists_eq_succ_of_ne_zero (Nat.ne_of_gt (Nat.zero_lt_of_lt enough))
    rw [copyArray, type, string]
    simp only [ok_bind, ih beside fuel (by omega), stringWord]
  | string _ ih =>
    obtain ⟨p, left, right, rfl, rfl, type, string, _, beside⟩ := rooted.top
    rw [BinaryTree.numNodes] at enough
    obtain ⟨fuel, rfl⟩ := Nat.exists_eq_succ_of_ne_zero (Nat.ne_of_gt (Nat.zero_lt_of_lt enough))
    rw [copyArray, type, string]
    simp only [ok_bind, ih beside fuel (by omega)]

theorem rooted_some {tree : TagTree} (rooted : Rooted xml root tags tree) (nonempty : tree ≠ .nil) : root ≠ none := by
  cases tree with
  | nil => exact absurd rfl nonempty
  | node label below beside =>
    obtain ⟨p, _, _, rfl, _⟩ := rooted.top
    exact Option.some_ne_none p

theorem arrayToDeviceTreeData_ok (symbolAt : CString → Word) {items : TagTree} {data : List Byte} {value : Nat}
    (type : (xml.tags value).type = .array) (nonempty : items ≠ .nil) (held : ArrayData items data)
    (rooted : Rooted xml (xml.tags value).tag tags items) (bound : tags.numNodes ≤ xml.tagCount) {malloc : Malloc}
    (good : malloc.Succeeds) : arrayToDeviceTreeData xml symbolAt value malloc =
      .ok ((BitVec.ofNat 32 data.length, data), malloc.call.2) := by
  have enough : tags.numNodes < xml.tagCount + 1 := Nat.lt_succ_of_le bound
  rw [arrayToDeviceTreeData, if_neg (rooted_some rooted nonempty), if_neg (not_not.mpr type),
    countArray_ok held rooted _ enough, copyArray_ok symbolAt held rooted _ enough]
  exact if_neg good.answer

theorem Provides.addsData (symbolAt : CString → Word) {key : CString} {label : TagLabel} {below : TagTree}
    {attrs : List Attribute} {value : Nat} {dt : DeviceTree} {n : Nat} {tree : Forest}
    (provides : Provides key label below attrs) (type : (xml.tags value).type = label.1)
    (string : (xml.tags value).string = label.2) (rooted : Rooted xml (xml.tags value).tag tags below)
    (bound : tags.numNodes ≤ xml.tagCount) (held : Represents dt tree) (member : n ∈ liveNodes tree)
    (good : dt.malloc.Succeeds) (walk : Except Stop DeviceTree) (after : DeviceTree → Except Stop DeviceTree) :
    ∃ dt', Populated dt' n tree attrs .nil ∧ (match (xml.tags value).type with
      | .array => if isChildren (some key) then walk
        else do
          let dt ← addData dt (some n) (some key) (arrayToDeviceTreeData xml symbolAt value)
          after dt
      | .integer => do
        let dt ← addData dt (some n) (some key)
          (integerToDeviceTreeData (stringWord symbolAt (xml.tags value).string))
        after dt
      | .string => do
        let dt ← addData dt (some n) (some key) (stringToDeviceTreeData (xml.tags value).string)
        after dt
      | _ => after dt) = after dt' := by
  have adds {length : Word} {data : List Byte} {pval : Malloc → Except Stop ((Word × List Byte) × Malloc)}
      (made : pval dt.malloc = .ok ((length, data), dt.malloc.call.2)) :
      ∃ dt', Populated dt' n tree [⟨key, length, bytesValue data⟩] .nil ∧
        (do let dt ← addData dt (some n) (some key) pval; after dt) = after dt' := by
    obtain ⟨dt', ran, populated⟩ := addData_spec held member good made
    exact ⟨dt', populated, by rw [ran]; rfl⟩
  cases provides with
  | string =>
    rename_i text
    rw [type, string]
    exact adds (stringToDeviceTreeData_ok text good)
  | integer =>
    rw [type, string]
    exact adds (if_neg good.answer)
  | array plain nonempty data =>
    have made := arrayToDeviceTreeData_ok symbolAt type nonempty data rooted bound good
    rw [type]
    simp only [plain]
    exact adds made
  | other ignored =>
    rename_i kind _
    obtain ⟨notArray, notInteger, notString⟩ := ignored
    rw [type]
    cases kind
    all_goals first | contradiction | exact ⟨dt, Populated.unchanged held good, rfl⟩

end Heap

structure Populates (xml : Xml) (symbolAt : CString → Word) (fuel : Nat) : Prop where
  keys : ∀ {root : Option Nat} {tags : BinaryTree Nat} {keys : TagTree} {attrs : List Attribute} {kids : PlainTree}
    {dt : DeviceTree} {n : Nat} {tree : Forest}, Keys keys attrs kids → Rooted xml root tags keys →
      tags.numNodes ≤ xml.tagCount → 3 * tags.numNodes + 1 ≤ fuel → Represents dt tree → n ∈ liveNodes tree →
        dt.malloc.Succeeds → ∃ dt', populateKeys xml symbolAt fuel root (some n) dt = .ok dt' ∧
          Populated dt' n tree attrs kids
  children : ∀ {root : Option Nat} {tags : BinaryTree Nat} {dicts : TagTree} {young : PlainTree}
    {dt : DeviceTree} {n : Nat} {tree : Forest}, Dicts dicts young → Rooted xml root tags dicts →
      tags.numNodes ≤ xml.tagCount → 3 * tags.numNodes + 1 ≤ fuel → Represents dt tree → n ∈ liveNodes tree →
        dt.malloc.Succeeds → ∃ dt', populateChildren xml symbolAt fuel root (some n) dt = .ok dt' ∧
          Populated dt' n tree [] young

theorem Populates.zero (xml : Xml) (symbolAt : CString → Word) : Populates xml symbolAt 0 where
  keys _ _ _ enough := absurd enough (Nat.not_succ_le_zero _)
  children _ _ _ enough := absurd enough (Nat.not_succ_le_zero _)

section Induction

variable {xml : Xml} {symbolAt : CString → Word} {dt : DeviceTree} {n : Nat} {tree : Forest} {root : Option Nat}
  {tags : BinaryTree Nat}

theorem hung_live (shown : Represents dt tree) (member : n ∈ liveNodes tree) (child : Nat) :
    child ∈ liveNodes (hang (some n) (leaf child) tree) := by
  obtain ⟨entries, slots, layout⟩ := shown
  have place : Place (some n) tree := member
  rw [liveNodes, cells_hang_leaf child layout.liveNodes_nodup place, Multiset.map_cons]
  exact Multiset.mem_cons_self _ _

/-- What is entered into a new child is there as if the child had come with it. -/
theorem graft_hung {child : Nat} (props : List (Nat × Attribute)) (young : Forest) (fresh : child ∉ liveNodes tree)
    (member : n ∈ liveNodes tree) :
    graft Prod.fst child (addEntries props) young (hang (some n) (.node (child, []) .nil .nil) tree) =
      graft Prod.fst n (addEntries []) (.node (child, props) young .nil) tree := by
  have absent : ∀ label ∈ cells tree, label.1 ≠ child := fun label inside equal =>
    fresh (equal ▸ label_live inside)
  have apart : ∀ label : NodeLabel, label.1 = n → (id label).1 ≠ child := fun label here equal =>
    fresh (equal ▸ here ▸ member)
  have key : Prod.fst (child, ([] : List (Nat × Attribute))) = child := rfl
  have outside : ∀ label ∈ cells (.nil : Forest), label.1 ≠ child := fun _ inside => absurd inside (Multiset.notMem_zero _)
  rw [hang, graft_fresh key absent apart outside, forestAppend_nil, addEntries_nil]
  rfl

theorem populateKeys_spec {fuel : Nat} (ih : ∀ less ≤ fuel, Populates xml symbolAt less) {keys : TagTree}
    {attrs : List Attribute} {kids : PlainTree} (held : Keys keys attrs kids) (rooted : Rooted xml root tags keys)
    (bound : tags.numNodes ≤ xml.tagCount) (enough : 3 * tags.numNodes + 1 ≤ fuel + 1) (shown : Represents dt tree)
    (member : n ∈ liveNodes tree) (good : dt.malloc.Succeeds) :
    ∃ dt', populateKeys xml symbolAt (fuel + 1) root (some n) dt = .ok dt' ∧ Populated dt' n tree attrs kids := by
  cases held with
  | nil =>
    obtain ⟨rfl, rfl⟩ := rooted.empty
    exact ⟨dt, rfl, Populated.unchanged shown good⟩
  | property provides later =>
    obtain ⟨p, left, right, rfl, rfl, _, string, below, beside⟩ := rooted.top
    obtain ⟨q, inner, _, value, rfl, type, text, under, _⟩ := below.top
    simp only [BinaryTree.numNodes] at bound enough
    obtain ⟨dt₁, ⟨props, young, rfl, empty, good₁, shown₁⟩, ran₁⟩ := provides.addsData symbolAt type text under
      (by omega) shown member good _ fun dt => populateKeys xml symbolAt fuel (xml.tags p).tagNext (some n) dt
    obtain ⟨dt₂, ran₂, populated⟩ := (ih fuel (Nat.le_refl fuel)).keys later beside (by omega) (by omega) shown₁
      (live_graft props young shown member) good₁
    have total := Populated.trans ⟨props, young, rfl, empty, populated⟩
    rw [forestAppend_nil] at total
    refine ⟨dt₂, ?_, total⟩
    rw [populateKeys]
    simp only [value, string, ok_bind]
    exact ran₁.trans ran₂
  | children marked nonempty dicts later =>
    obtain ⟨p, left, right, rfl, rfl, _, string, below, beside⟩ := rooted.top
    obtain ⟨q, inner, _, value, rfl, type, _, under, _⟩ := below.top
    simp only [BinaryTree.numNodes] at bound enough
    obtain ⟨fuel, rfl⟩ : ∃ less, fuel = less + 1 := ⟨fuel - 1, by omega⟩
    obtain ⟨dt₁, ran₁, props, young, empty, rfl, good₁, shown₁⟩ := (ih fuel (Nat.le_succ fuel)).children dicts under
      (by omega) (by omega) shown member good
    obtain ⟨dt₂, ran₂, populated⟩ := (ih (fuel + 1) (Nat.le_refl _)).keys later beside (by omega) (by omega) shown₁
      (live_graft props young shown member) good₁
    refine ⟨dt₂, ?_, Populated.trans ⟨props, young, empty, rfl, populated⟩⟩
    have walked : walkDeviceTreeNodeChildren xml symbolAt (fuel + 1) q (some n) dt = .ok dt₁ := by
      rw [walkDeviceTreeNodeChildren, if_neg (rooted_some under nonempty), if_neg (not_not.mpr type), ran₁]
    rw [populateKeys]
    simp only [value, string, type, marked, if_true, walked, ok_bind]
    exact ran₂

theorem populateChildren_spec {fuel : Nat} (ih : ∀ less ≤ fuel, Populates xml symbolAt less) {dicts : TagTree}
    {young : PlainTree} (held : Dicts dicts young) (rooted : Rooted xml root tags dicts)
    (bound : tags.numNodes ≤ xml.tagCount) (enough : 3 * tags.numNodes + 1 ≤ fuel + 1) (shown : Represents dt tree)
    (member : n ∈ liveNodes tree) (good : dt.malloc.Succeeds) :
    ∃ dt', populateChildren xml symbolAt (fuel + 1) root (some n) dt = .ok dt' ∧ Populated dt' n tree [] young := by
  cases held with
  | nil =>
    obtain ⟨rfl, rfl⟩ := rooted.empty
    exact ⟨dt, rfl, Populated.unchanged shown good⟩
  | cons entries later =>
    obtain ⟨p, left, right, rfl, rfl, type, _, below, beside⟩ := rooted.top
    simp only [BinaryTree.numNodes] at bound enough
    obtain ⟨fuel, rfl⟩ : ∃ less, fuel = less + 1 := ⟨fuel - 1, by omega⟩
    obtain ⟨result, dt₁, ran₁, _, returned, succeeds⟩ := dtAddChild_spec (some n) none shown member
    obtain ⟨good₁, given⟩ := succeeds good
    cases result with
    | none => exact absurd rfl given
    | some child =>
      obtain ⟨fresh, props, named, shown₁, _⟩ := returned child rfl
      obtain rfl : props = [] := by
        rcases named with empty | ⟨_, _, absurd, _⟩
        · exact empty
        · cases absurd
      obtain ⟨dt₂, ran₂, props, young, rfl, rfl, good₂, shown₂⟩ := (ih fuel (Nat.le_succ fuel)).keys entries below
        (by omega) (by omega) shown₁ (hung_live shown member child) good₁
      rw [graft_hung props young fresh member] at shown₂
      have next := (ih (fuel + 1) (Nat.le_refl _)).children later beside (by omega) (by omega) shown₂
        (live_graft [] _ shown member) good₂
      obtain ⟨dt₃, ran₃, populated⟩ := next
      refine ⟨dt₃, ?_, Populated.trans ⟨[], .node (child, props) young .nil, rfl, rfl, populated⟩⟩
      rw [populateChildren, ran₁]
      simp only [ok_bind]
      rw [populateDeviceTreeNode, if_neg (not_not.mpr type), ran₂]
      exact ran₃

theorem populates (xml : Xml) (symbolAt : CString → Word) (fuel : Nat) : Populates xml symbolAt fuel := by
  induction fuel using Nat.strong_induction_on with
  | h fuel ih =>
    cases fuel with
    | zero => exact Populates.zero xml symbolAt
    | succ fuel =>
      have less : ∀ less ≤ fuel, Populates xml symbolAt less := fun less bound => ih less (Nat.lt_succ_of_le bound)
      exact ⟨populateKeys_spec less, populateChildren_spec less⟩

end Induction

end GenericBooter
