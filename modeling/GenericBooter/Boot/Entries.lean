import GenericBooter.Boot.Population

namespace GenericBooter

open Linked

def SpelledTag (named : CString → Prop) (label : TagLabel) : Prop :=
  match label.1 with
  | .key => ∃ text, label.2 = some text ∧ named text
  | .string => ∃ text, label.2 = some text
  | _ => label.2 = none

def Spelled (named : CString → Prop) : TagTree → Prop
  | .nil => True
  | .node label below beside =>
    SpelledTag named label ∧ (label.1 = .string → below = .nil) ∧ Spelled named below ∧ Spelled named beside

def PlainItems : TagTree → Prop
  | .nil => True
  | .node label _ beside => (label.1 = .integer ∨ label.1 = .string) ∧ PlainItems beside

mutual

/-- The loop of `PopulateDeviceTreeNode` gets to the end of these entries. -/
def Completes : TagTree → Prop
  | .nil => True
  | .node label below beside => EntryCompletes label below ∧ Completes beside

def EntryCompletes (label : TagLabel) : TagTree → Prop
  | .nil => True
  | .node value items _ =>
    value.1 = .array → items ≠ .nil ∧ if isChildren label.2 then ChildrenComplete items else PlainItems items

def ChildrenComplete : TagTree → Prop
  | .nil => True
  | .node label below beside => (label.1 = .dict ∧ Completes below) ∧ ChildrenComplete beside

end

mutual

/-- Up to the first panic, each entry that a property is made for is a key. -/
def Keyed : TagTree → Prop
  | .nil => True
  | .node label below beside => EntryKeyed label below ∧ (EntryCompletes label below → Keyed beside)

def EntryKeyed (label : TagLabel) : TagTree → Prop
  | .nil => True
  | .node value items _ =>
    match value.1 with
    | .array => if isChildren label.2 then ChildrenKeyed items else items ≠ .nil ∧ PlainItems items → label.1 = .key
    | .integer => label.1 = .key
    | .string => label.1 = .key
    | _ => True

def ChildrenKeyed : TagTree → Prop
  | .nil => True
  | .node label below beside =>
    (label.1 = .dict → Keyed below) ∧ (label.1 = .dict ∧ Completes below → ChildrenKeyed beside)

end

section Entry

variable {label : TagLabel} (string : Option CString) (items more : TagTree)

theorem entry_children (marked : isChildren label.2 = true) :
    (EntryKeyed label (.node (.array, string) items more) ↔ ChildrenKeyed items) ∧
      (EntryCompletes label (.node (.array, string) items more) ↔ items ≠ .nil ∧ ChildrenComplete items) := by
  constructor
  · simp only [EntryKeyed, marked, if_true]
  · simp only [EntryCompletes, marked, if_true, true_implies]

theorem entry_array (plain : isChildren label.2 = false) :
    (EntryKeyed label (.node (.array, string) items more) ↔ (items ≠ .nil ∧ PlainItems items → label.1 = .key)) ∧
      (EntryCompletes label (.node (.array, string) items more) ↔ items ≠ .nil ∧ PlainItems items) := by
  constructor
  · simp only [EntryKeyed, plain, Bool.false_eq_true, if_false]
  · simp only [EntryCompletes, plain, Bool.false_eq_true, if_false, true_implies]

theorem entry_other {kind : TagType} (other : kind ≠ .array) :
    EntryCompletes label (.node (kind, string) items more) ↔ True :=
  iff_true_intro fun absurd => (other absurd).elim

end Entry

def AllNamed (named : CString → Prop) (attrs : List Attribute) (kids : PlainTree) : Prop :=
  (∀ attr ∈ attrs, named attr.name) ∧ ∀ props ∈ cells kids, ∀ attr ∈ props, named attr.name

/-- What a call makes of entries: it uses a null pointer if they are not keyed, else it panics if they cannot be
    completed, else it adds properties with names that `named` allows. -/
structure Meets (named : CString → Prop) (keyed completes : Prop) (n : Nat) (tree : Forest)
    (result : Except Stop DeviceTree) : Prop where
  null : ¬ keyed → result = .error .null
  panic : keyed → ¬ completes → result = .error .panic
  ok : keyed → completes → ∃ dt attrs kids, result = .ok dt ∧ Populated dt n tree attrs kids ∧ AllNamed named attrs kids

section Meets

variable {named : CString → Prop} {keyed keyed' completes completes' : Prop} {dt : DeviceTree} {n : Nat} {tree : Forest}

theorem AllNamed.append {attrs attrs' : List Attribute} {kids kids' : PlainTree} (first : AllNamed named attrs kids)
    (second : AllNamed named attrs' kids') : AllNamed named (attrs ++ attrs') (forestAppend kids' kids) := by
  constructor
  · intro attr member
    exact (List.mem_append.mp member).elim (first.1 attr) (second.1 attr)
  · intro props member
    rw [cells_forestAppend, Multiset.mem_add] at member
    exact member.elim (second.2 props) (first.2 props)

theorem AllNamed.child {attrs : List Attribute} {kids : PlainTree} (all : AllNamed named attrs kids) :
    AllNamed named [] (.node attrs kids .nil) := by
  refine ⟨fun _ member => absurd member List.not_mem_nil, fun props member => ?_⟩
  rw [cells, cells, add_zero, Multiset.mem_cons] at member
  rcases member with rfl | member
  · exact all.1
  · exact all.2 props member

theorem allNamed_nothing : AllNamed named [] .nil :=
  ⟨fun _ member => absurd member List.not_mem_nil, fun _ member => absurd member (Multiset.notMem_zero _)⟩

theorem Meets.unchanged (held : Represents dt tree) (good : dt.malloc.Succeeds) :
    Meets named True True n tree (.ok dt) where
  null absurd := (absurd trivial).elim
  panic _ absurd := (absurd trivial).elim
  ok _ _ := ⟨dt, [], .nil, rfl, Populated.unchanged held good, allNamed_nothing⟩

theorem Meets.panics (none : ¬ completes) : Meets named True completes n tree (.error .panic) where
  null absurd := (absurd trivial).elim
  panic _ _ := rfl
  ok _ absurd := (none absurd).elim

theorem Meets.congr {result : Except Stop DeviceTree} (meets : Meets named keyed completes n tree result)
    (sameKeyed : keyed' ↔ keyed) (sameCompletes : completes' ↔ completes) :
    Meets named keyed' completes' n tree result := by
  rwa [sameKeyed, sameCompletes]

theorem Meets.bind {result : Except Stop DeviceTree} {after : DeviceTree → Except Stop DeviceTree}
    (held : Represents dt tree) (member : n ∈ liveNodes tree) (first : Meets named keyed completes n tree result)
    (later : ∀ dt' tree', Represents dt' tree' → n ∈ liveNodes tree' → dt'.malloc.Succeeds →
      Meets named keyed' completes' n tree' (after dt')) :
    Meets named (keyed ∧ (completes → keyed')) (completes ∧ completes') n tree (result >>= after) := by
  have followed (here : keyed) (done : completes) : ∃ dt' attrs kids, result = .ok dt' ∧ AllNamed named attrs kids ∧
      ∃ props young, props.map Prod.snd = attrs ∧ young.map contents = kids ∧
        Meets named keyed' completes' n (graft Prod.fst n (addEntries props) young tree) (after dt') := by
    obtain ⟨dt', attrs, kids, rfl, ⟨props, young, rfl, rfl, good, held'⟩, all⟩ := first.ok here done
    exact ⟨dt', _, _, rfl, all, props, young, rfl, rfl, later dt' _ held' (live_graft props young held member) good⟩
  constructor
  · intro notKeyed
    by_cases here : keyed
    · obtain ⟨done, behind⟩ : completes ∧ ¬ keyed' := by
        by_contra whole
        exact notKeyed ⟨here, fun done => by_contra fun behind => whole ⟨done, behind⟩⟩
      obtain ⟨dt', _, _, rfl, _, _, _, _, _, meets⟩ := followed here done
      exact meets.null behind
    · rw [first.null here]
      rfl
  · rintro ⟨here, behind⟩ incomplete
    by_cases done : completes
    · obtain ⟨dt', _, _, rfl, _, _, _, _, _, meets⟩ := followed here done
      exact meets.panic (behind done) fun rest => incomplete ⟨done, rest⟩
    · rw [first.panic here done]
      rfl
  · rintro ⟨here, behind⟩ ⟨done, rest⟩
    obtain ⟨dt', attrs, kids, rfl, all, props, young, same, same', meets⟩ := followed here done
    obtain ⟨dt'', attrs', kids', ran, populated, all'⟩ := meets.ok (behind done) rest
    exact ⟨dt'', _, _, ran, Populated.trans ⟨props, young, same, same', populated⟩, all.append all'⟩

end Meets

section Data

variable {named : CString → Prop} {xml : Xml} {root : Option Nat} {tags : BinaryTree Nat} {dt : DeviceTree} {n : Nat}
  {tree : Forest}

theorem Spelled.data {items : TagTree} (spelled : Spelled named items) (plain : PlainItems items) :
    ∃ data, ArrayData items data := by
  induction items with
  | nil => exact ⟨[], ArrayData.nil⟩
  | node label below beside _ ih =>
    obtain ⟨tag, _, _, rest⟩ := spelled
    obtain ⟨type, more⟩ := plain
    obtain ⟨data, held⟩ := ih rest more
    obtain ⟨kind, string⟩ := label
    rcases type with rfl | rfl
    · obtain rfl : string = none := tag
      exact ⟨_, held.integer⟩
    · obtain ⟨text, rfl⟩ : ∃ text, string = some text := tag
      exact ⟨_, held.string⟩

theorem countArray_panics {items : TagTree} (spelled : Spelled named items) (mixed : ¬ PlainItems items)
    (rooted : Rooted xml root tags items) (fuel : Nat) (enough : tags.numNodes < fuel) :
    countArray xml fuel root = .error .panic := by
  induction items generalizing root tags fuel with
  | nil => exact (mixed trivial).elim
  | node label below beside _ ih =>
    obtain ⟨p, left, right, rfl, rfl, type, string, _, behind⟩ := rooted.top
    rw [BinaryTree.numNodes] at enough
    obtain ⟨fuel, rfl⟩ := Nat.exists_eq_succ_of_ne_zero (Nat.ne_of_gt (Nat.zero_lt_of_lt enough))
    obtain ⟨tag, _, _, rest⟩ := spelled
    obtain ⟨kind, text⟩ := label
    have less : right.numNodes < fuel := by omega
    have later (plain : kind = .integer ∨ kind = .string) : countArray xml fuel (xml.tags p).tagNext = .error .panic :=
      ih rest (fun more => mixed ⟨plain, more⟩) behind fuel less
    rw [countArray, type, string]
    cases kind with
    | integer =>
      rw [later (Or.inl rfl)]
      rfl
    | string =>
      obtain ⟨text, rfl⟩ : ∃ string, text = some string := tag
      rw [later (Or.inr rfl)]
      rfl
    | _ => rfl

theorem arrayToDeviceTreeData_panics (symbolAt : CString → Word) {items : TagTree} {value : Nat}
    (type : (xml.tags value).type = .array) (spelled : Spelled named items) (bad : ¬ (items ≠ .nil ∧ PlainItems items))
    (rooted : Rooted xml (xml.tags value).tag tags items) (bound : tags.numNodes ≤ xml.tagCount) (malloc : Malloc) :
    arrayToDeviceTreeData xml symbolAt value malloc = .error .panic := by
  rw [arrayToDeviceTreeData]
  by_cases empty : items = .nil
  · subst empty
    exact if_pos rooted.empty.1
  · have mixed : ¬ PlainItems items := fun plain => bad ⟨empty, plain⟩
    rw [if_neg (rooted_some rooted empty), if_neg (not_not.mpr type),
      countArray_panics spelled mixed rooted _ (Nat.lt_succ_of_le bound)]
    rfl

theorem SpelledTag.addsData {label : TagLabel} (spelled : SpelledTag named label) (bare : label.1 ≠ .string)
    (held : Represents dt tree) (member : n ∈ liveNodes tree) (good : dt.malloc.Succeeds) {length : Word}
    {data : List Byte} {pval : Malloc → Except Stop ((Word × List Byte) × Malloc)}
    (made : pval dt.malloc = .ok ((length, data), dt.malloc.call.2)) :
    Meets named (label.1 = .key) True n tree (addData dt (some n) label.2 pval) where
  null keyless := by
    have none : label.2 = none := by
      obtain ⟨kind, string⟩ := label
      cases kind with
      | key => exact (keyless rfl).elim
      | string => exact (bare rfl).elim
      | _ => exact spelled
    rw [addData, made, none]
    rfl
  panic _ absurd := (absurd trivial).elim
  ok key _ := by
    obtain ⟨kind, string⟩ := label
    obtain rfl : kind = .key := key
    obtain ⟨text, rfl, allowed⟩ : ∃ text, string = some text ∧ named text := spelled
    obtain ⟨dt', ran, populated⟩ := addData_spec held member good made
    refine ⟨dt', _, _, ran, populated, fun attr inside => ?_, fun _ inside => absurd inside (Multiset.notMem_zero _)⟩
    obtain rfl := List.mem_singleton.mp inside
    exact allowed

end Data

structure Meeting (named : CString → Prop) (xml : Xml) (symbolAt : CString → Word) (fuel : Nat) : Prop where
  keys : ∀ {root : Option Nat} {tags : BinaryTree Nat} {keys : TagTree} {dt : DeviceTree} {n : Nat} {tree : Forest},
    Spelled named keys → Rooted xml root tags keys → tags.numNodes ≤ xml.tagCount → 3 * tags.numNodes + 1 ≤ fuel →
      Represents dt tree → n ∈ liveNodes tree → dt.malloc.Succeeds →
        Meets named (Keyed keys) (Completes keys) n tree (populateKeys xml symbolAt fuel root (some n) dt)
  children : ∀ {root : Option Nat} {tags : BinaryTree Nat} {dicts : TagTree} {dt : DeviceTree} {n : Nat} {tree : Forest},
    Spelled named dicts → Rooted xml root tags dicts → tags.numNodes ≤ xml.tagCount → 3 * tags.numNodes + 1 ≤ fuel →
      Represents dt tree → n ∈ liveNodes tree → dt.malloc.Succeeds →
        Meets named (ChildrenKeyed dicts) (ChildrenComplete dicts) n tree
          (populateChildren xml symbolAt fuel root (some n) dt)

section Induction

variable {named : CString → Prop} {xml : Xml} {symbolAt : CString → Word} {fuel : Nat} {root : Option Nat}
  {tags : BinaryTree Nat} {dt : DeviceTree} {n : Nat} {tree : Forest}

theorem Meeting.walk (ih : ∀ less ≤ fuel, Meeting named xml symbolAt less) {items : TagTree} {value : Nat}
    (type : (xml.tags value).type = .array) (spelled : Spelled named items)
    (rooted : Rooted xml (xml.tags value).tag tags items) (bound : tags.numNodes ≤ xml.tagCount)
    (enough : 3 * tags.numNodes + 2 ≤ fuel) (held : Represents dt tree) (member : n ∈ liveNodes tree)
    (good : dt.malloc.Succeeds) :
    Meets named (ChildrenKeyed items) (items ≠ .nil ∧ ChildrenComplete items) n tree
      (walkDeviceTreeNodeChildren xml symbolAt fuel value (some n) dt) := by
  obtain ⟨fuel, rfl⟩ : ∃ less, fuel = less + 1 := ⟨fuel - 1, by omega⟩
  rw [walkDeviceTreeNodeChildren]
  by_cases empty : items = .nil
  · subst empty
    rw [if_pos rooted.empty.1]
    exact Meets.panics fun absurd => absurd.1 rfl
  · rw [if_neg (rooted_some rooted empty), if_neg (not_not.mpr type)]
    rw [and_iff_right empty]
    exact (ih fuel (Nat.le_succ fuel)).children spelled rooted bound (by omega) held member good

theorem Meeting.entry (ih : ∀ less ≤ fuel, Meeting named xml symbolAt less) {label value : TagLabel}
    {items more : TagTree} {q : Nat} (tag : SpelledTag named label) (bare : label.1 ≠ .string) (type : (xml.tags q).type = value.1)
    (string : (xml.tags q).string = value.2) (spelled : Spelled named (.node value items more))
    (rooted : Rooted xml (xml.tags q).tag tags items) (bound : tags.numNodes ≤ xml.tagCount)
    (enough : 3 * tags.numNodes + 2 ≤ fuel) (held : Represents dt tree) (member : n ∈ liveNodes tree)
    (good : dt.malloc.Succeeds) (after : DeviceTree → Except Stop DeviceTree) :
    ∃ result, Meets named (EntryKeyed label (.node value items more)) (EntryCompletes label (.node value items more)) n
      tree result ∧ (match (xml.tags q).type with
        | .array => if isChildren label.2 then do
            let dt ← walkDeviceTreeNodeChildren xml symbolAt fuel q (some n) dt
            after dt
          else do
            let dt ← addData dt (some n) label.2 (arrayToDeviceTreeData xml symbolAt q)
            after dt
        | .integer => do
          let dt ← addData dt (some n) label.2 (integerToDeviceTreeData (stringWord symbolAt (xml.tags q).string))
          after dt
        | .string => do
          let dt ← addData dt (some n) label.2 (stringToDeviceTreeData (xml.tags q).string)
          after dt
        | _ => after dt) = result >>= after := by
  obtain ⟨kind, text⟩ := value
  obtain ⟨tagValue, _, spelledItems, _⟩ := spelled
  have adds {length : Word} {data : List Byte} {pval : Malloc → Except Stop ((Word × List Byte) × Malloc)}
      (made : pval dt.malloc = .ok ((length, data), dt.malloc.call.2)) :
      Meets named (label.1 = .key) True n tree (addData dt (some n) label.2 pval) :=
    tag.addsData bare held member good made
  cases kind with
  | array =>
    rw [type]
    cases marked : isChildren label.2 with
    | true =>
      obtain ⟨keyed, completes⟩ := entry_children text items more marked
      exact ⟨_, (Meeting.walk ih type spelledItems rooted bound enough held member good).congr keyed completes, rfl⟩
    | false =>
      obtain ⟨keyed, completes⟩ := entry_array text items more marked
      refine ⟨addData dt (some n) label.2 (arrayToDeviceTreeData xml symbolAt q), ?_, rfl⟩
      by_cases plain : items ≠ .nil ∧ PlainItems items
      · obtain ⟨data, inside⟩ := spelledItems.data plain.2
        have made := arrayToDeviceTreeData_ok symbolAt type plain.1 inside rooted bound good
        exact (adds made).congr (keyed.trans (imp_iff_right plain)) (completes.trans (iff_true_intro plain))
      · have vacuous := keyed.trans (iff_true_intro fun absurd => (plain absurd).elim)
        rw [addData, arrayToDeviceTreeData_panics symbolAt type spelledItems plain rooted bound dt.malloc]
        exact (Meets.panics id).congr vacuous (completes.trans (iff_false_intro plain))
  | integer =>
    rw [type]
    exact ⟨_, (adds (if_neg good.answer)).congr Iff.rfl (entry_other text items more (by decide)), rfl⟩
  | string =>
    obtain ⟨string', rfl⟩ : ∃ string, text = some string := tagValue
    rw [type, string]
    exact ⟨_, (adds (stringToDeviceTreeData_ok string' good)).congr Iff.rfl (entry_other _ items more (by decide)), rfl⟩
  | _ =>
    rw [type]
    exact ⟨.ok dt, (Meets.unchanged held good).congr Iff.rfl (entry_other text items more (by decide)), rfl⟩

theorem Meeting.keys_step (ih : ∀ less ≤ fuel, Meeting named xml symbolAt less) {keys : TagTree}
    (spelled : Spelled named keys) (rooted : Rooted xml root tags keys) (bound : tags.numNodes ≤ xml.tagCount)
    (enough : 3 * tags.numNodes + 1 ≤ fuel + 1) (held : Represents dt tree) (member : n ∈ liveNodes tree)
    (good : dt.malloc.Succeeds) :
    Meets named (Keyed keys) (Completes keys) n tree (populateKeys xml symbolAt (fuel + 1) root (some n) dt) := by
  cases keys with
  | nil =>
    rw [rooted.empty.1]
    exact Meets.unchanged held good
  | node label below beside =>
    obtain ⟨p, left, right, rfl, rfl, _, string, inner, behind⟩ := rooted.top
    obtain ⟨tag, bare, spelled, rest⟩ := spelled
    simp only [BinaryTree.numNodes] at bound enough
    have later (dt' : DeviceTree) (tree' : Forest) (held' : Represents dt' tree') (member' : n ∈ liveNodes tree')
        (good' : dt'.malloc.Succeeds) : Meets named (Keyed beside) (Completes beside) n tree'
          (populateKeys xml symbolAt fuel (xml.tags p).tagNext (some n) dt') :=
      (ih fuel (Nat.le_refl fuel)).keys rest behind (by omega) (by omega) held' member' good'
    rw [Keyed, Completes, populateKeys]
    cases below with
    | nil =>
      have first : Meets named (EntryKeyed label .nil) (EntryCompletes label .nil) n tree (.ok dt) :=
        Meets.unchanged held good
      simp only [inner.empty.1]
      exact first.bind held member later
    | node value items more =>
      obtain ⟨q, under, above, given, rfl, type, text, listed, _⟩ := inner.top
      have named' : label.1 ≠ .string := fun equal => by cases bare equal
      rw [BinaryTree.numNodes] at bound enough
      obtain ⟨result, entry, same⟩ := Meeting.entry ih tag named' type text spelled listed (by omega)
        (by omega) held member good fun dt => populateKeys xml symbolAt fuel (xml.tags p).tagNext (some n) dt
      have whole := entry.bind held member later
      rw [← same] at whole
      simp only [given, string, ok_bind]
      exact whole

theorem Meets.hung {child : Nat} {keyed completes : Prop} {result : Except Stop DeviceTree}
    (fresh : child ∉ liveNodes tree) (member : n ∈ liveNodes tree) (meets : Meets named keyed completes child
      (hang (some n) (.node (child, []) .nil .nil) tree) result) : Meets named keyed completes n tree result where
  null := meets.null
  panic := meets.panic
  ok here done := by
    obtain ⟨dt', attrs, kids, rfl, ⟨props, young, rfl, rfl, good, held⟩, all⟩ := meets.ok here done
    rw [graft_hung props young fresh member] at held
    exact ⟨dt', [], _, rfl, ⟨[], .node (child, props) young .nil, rfl, rfl, good, held⟩, all.child⟩

theorem Meeting.children_step (ih : ∀ less ≤ fuel, Meeting named xml symbolAt less) {dicts : TagTree}
    (spelled : Spelled named dicts) (rooted : Rooted xml root tags dicts) (bound : tags.numNodes ≤ xml.tagCount)
    (enough : 3 * tags.numNodes + 1 ≤ fuel + 1) (held : Represents dt tree) (member : n ∈ liveNodes tree)
    (good : dt.malloc.Succeeds) :
    Meets named (ChildrenKeyed dicts) (ChildrenComplete dicts) n tree
      (populateChildren xml symbolAt (fuel + 1) root (some n) dt) := by
  cases dicts with
  | nil =>
    rw [rooted.empty.1]
    exact Meets.unchanged held good
  | node label below beside =>
    obtain ⟨p, left, right, rfl, rfl, type, _, inner, behind⟩ := rooted.top
    obtain ⟨_, _, spelled, rest⟩ := spelled
    simp only [BinaryTree.numNodes] at bound enough
    obtain ⟨fuel, rfl⟩ : ∃ less, fuel = less + 1 := ⟨fuel - 1, by omega⟩
    have later (dt' : DeviceTree) (tree' : Forest) (held' : Represents dt' tree') (member' : n ∈ liveNodes tree')
        (good' : dt'.malloc.Succeeds) : Meets named (ChildrenKeyed beside) (ChildrenComplete beside) n tree'
          (populateChildren xml symbolAt (fuel + 1) (xml.tags p).tagNext (some n) dt') :=
      (ih (fuel + 1) (Nat.le_refl _)).children rest behind (by omega) (by omega) held' member' good'
    obtain ⟨result, dt₁, ran, _, returned, succeeds⟩ := dtAddChild_spec (some n) none held member
    obtain ⟨good₁, given⟩ := succeeds good
    cases result with
    | none => exact absurd rfl given
    | some child =>
      obtain ⟨fresh, props, unnamed, held₁, _⟩ := returned child rfl
      obtain rfl : props = [] := by
        rcases unnamed with empty | ⟨_, _, absurd, _⟩
        · exact empty
        · cases absurd
      have entered : Meets named (label.1 = .dict → Keyed below) (label.1 = .dict ∧ Completes below) n tree
          (populateDeviceTreeNode xml symbolAt (fuel + 1) p (some child) dt₁) := by
        rw [populateDeviceTreeNode, type]
        by_cases dict : label.1 = .dict
        · rw [if_neg (not_not.mpr dict)]
          have keys := (ih fuel (Nat.le_succ fuel)).keys spelled inner (by omega) (by omega) held₁
            (hung_live held member child) good₁
          exact (keys.hung fresh member).congr (imp_iff_right dict) (and_iff_right dict)
        · rw [if_pos dict]
          exact (Meets.panics fun absurd => dict absurd.1).congr (iff_true_intro fun absurd => (dict absurd).elim) Iff.rfl
      rw [ChildrenKeyed, ChildrenComplete, populateChildren, ran]
      exact entered.bind held member later

theorem meeting (named : CString → Prop) (xml : Xml) (symbolAt : CString → Word) (fuel : Nat) :
    Meeting named xml symbolAt fuel := by
  induction fuel using Nat.strong_induction_on with
  | h fuel ih =>
    cases fuel with
    | zero =>
      constructor
      · intro _ _ _ _ _ _ _ _ _ enough
        exact absurd enough (Nat.not_succ_le_zero _)
      · intro _ _ _ _ _ _ _ _ _ enough
        exact absurd enough (Nat.not_succ_le_zero _)
    | succ fuel =>
      have less : ∀ less ≤ fuel, Meeting named xml symbolAt less := fun less bound => ih less (Nat.lt_succ_of_le bound)
      exact ⟨Meeting.keys_step less, Meeting.children_step less⟩

end Induction

end GenericBooter
