import GenericBooter.Boot.Devicetree
import GenericBooter.Boot.Entries
import GenericBooter.DeviceTree.Calls
import GenericBooter.Xml.Grammar

namespace GenericBooter

open Linked

def KeyIn (consumed : List Byte) (text : CString) : Prop :=
  ∃ before gap name content behind, consumed = before ++ (openTag gap name ++ content ++ behind) ∧
    tagBranch name.name = .key ∧ Content kXMLTagKey content text

theorem KeyIn.within {inner : List Byte} {text : CString} (key : KeyIn inner text) (front back : List Byte) :
    KeyIn (front ++ (inner ++ back)) text := by
  obtain ⟨before, gap, name, content, behind, rfl, known, inside⟩ := key
  refine ⟨front ++ before, gap, name, content, behind ++ back, ?_, known, inside⟩
  simp only [List.append_assoc]

section Spelling

variable {named : CString → Prop}

def Branch.Fits : Branch → Prop
  | .list type _ => type = .dict ∨ type = .array
  | .boolean type => type = .false ∨ type = .true
  | _ => True

theorem Branch.fits_ite {condition : Prop} [Decidable condition] {first second : Branch} (here : first.Fits)
    (there : second.Fits) : (if condition then first else second).Fits := by
  split
  · exact here
  · exact there

theorem tagBranch_fits (name : CString) : (tagBranch name).Fits := by
  unfold tagBranch
  repeat' apply Branch.fits_ite
  all_goals first | exact trivial | exact Or.inl rfl | exact Or.inr rfl

theorem tagBranch_list {name : CString} {type : TagType} {empty : Bool} (known : tagBranch name = .list type empty) :
    type = .dict ∨ type = .array := by
  have fits := tagBranch_fits name
  rwa [known] at fits

theorem tagBranch_boolean {name : CString} {type : TagType} (known : tagBranch name = .boolean type) :
    type = .false ∨ type = .true := by
  have fits := tagBranch_fits name
  rwa [known] at fits

theorem Spelled.leaf {type : TagType} (blank : SpelledTag named (type, none)) :
    Spelled named (.node (type, none) .nil .nil) :=
  ⟨blank, fun _ => rfl, trivial, trivial⟩

mutual

theorem Stands.spelled : ∀ {consumed : List Byte} {label : TagLabel} {below : TagTree}, Stands consumed label below →
    (∀ text, KeyIn consumed text → named text) → Spelled named (.node label below .nil)
  | _, _, _, .boolean gap name known, _ => by
    rcases tagBranch_boolean known with rfl | rfl
    · exact Spelled.leaf rfl
    · exact Spelled.leaf rfl
  | _, _, _, .empty gap name known, _ => by
    rcases tagBranch_list known with rfl | rfl
    · exact Spelled.leaf rfl
    · exact Spelled.leaf rfl
  | _, _, _, .string gap name known inside, _ => ⟨⟨_, rfl⟩, fun _ => rfl, trivial, trivial⟩
  | _, _, _, .integer gap name known inside, _ => Spelled.leaf rfl
  | _, _, _, .data gap name known inside, _ => Spelled.leaf rfl
  | _, _, _, .date gap name known inside, _ => Spelled.leaf rfl
  | _, _, _, @Stands.list gap name _ body _ known inside, all => by
    have below := inside.spelled (fun text key => all text (by
      have within := key.within (openTag gap name) []
      rwa [List.append_nil] at within)) [] trivial
    rw [List.append_nil] at below
    rcases tagBranch_list known with rfl | rfl
    · exact ⟨rfl, nofun, below, trivial⟩
    · exact ⟨rfl, nofun, below, trivial⟩
  | _, _, _, @Stands.key gap name content value text _ _ known inside next, all => by
    have here : KeyIn (openTag gap name ++ (content ++ value)) text :=
      ⟨[], gap, name, content, value, by simp only [List.nil_append, List.append_assoc], known, inside⟩
    have below := next.spelled (fun text key => all text (by
      have within := key.within (openTag gap name ++ content) []
      rwa [List.append_nil, List.append_assoc] at within))
    exact ⟨⟨text, rfl, all text here⟩, nofun, below, trivial⟩
  | _, _, _, @Stands.bareKey gap gap' name other content text known inside unknown, all => by
    have here : KeyIn (openTag gap name ++ (content ++ openTag gap' other)) text :=
      ⟨[], gap, name, content, openTag gap' other, by simp only [List.nil_append, List.append_assoc], known, inside⟩
    exact ⟨⟨text, rfl, all text here⟩, fun _ => rfl, trivial, trivial⟩

theorem StandsList.spelled : ∀ {consumed : List Byte} {items : List (TagLabel × TagTree)}, StandsList consumed items →
    (∀ text, KeyIn consumed text → named text) → ∀ done, Spelled named (sequence done) →
      Spelled named (sequence (items.reverse ++ done))
  | _, _, .ends gap other unknown, _, done, front => front
  | _, _, @StandsList.item first later label below _ here rest, all, done, front => by
    have item := here.spelled (fun text key => all text (key.within [] later))
    obtain ⟨tag, bare, inner, _⟩ := item
    rw [List.reverse_cons, List.append_assoc]
    apply rest.spelled
    · intro text key
      apply all text
      have within := key.within first []
      rwa [List.append_nil] at within
    · exact ⟨tag, bare, inner, front⟩

end

theorem Spelled.inside {allowed : CString → Prop} : ∀ {tree : TagTree}, Spelled named tree →
    (∀ text, (.key, some text) ∈ cells tree → allowed text) → Spelled (fun text => named text ∧ allowed text) tree
  | .nil, _, _ => trivial
  | .node label below beside, ⟨tag, bare, inner, rest⟩, all => by
    have within := inner.inside fun text member => all text (by
      rw [cells, Multiset.mem_cons, Multiset.mem_add]
      exact Or.inr (Or.inl member))
    have behind := rest.inside fun text member => all text (by
      rw [cells, Multiset.mem_cons, Multiset.mem_add]
      exact Or.inr (Or.inr member))
    refine ⟨?_, bare, within, behind⟩
    obtain ⟨kind, string⟩ := label
    cases kind with
    | key =>
      obtain ⟨text, rfl, allowed⟩ : ∃ text, string = some text ∧ named text := tag
      exact ⟨text, rfl, allowed, all text (by rw [cells]; exact Multiset.mem_cons_self _ _)⟩
    | _ => exact tag

end Spelling

section Returned

variable {b b' : Booter} {live : Multiset Nat} {texts : Multiset CString} {tag : Option Nat} {text : List Byte}
  {p : Parsed} {length top n : Nat}

theorem parseNextTag_stands (held : Held b.xml live texts) (good : b.dt.malloc.Succeeds) (terminated : 0 ∈ text)
    (plain : ¬ NestedPlist text) (first : ¬ StartsWithPlist text) (ran : b.parseNextTag tag text = .ok (p, b'))
    (total : p.length = some length) (found : p.tag = some top) :
    b'.dt = { b.dt with malloc := b'.xml.malloc } ∧
      ∃ consumed rest label below tags, text = consumed ++ rest ∧ consumed.length = length ∧ 0 ∈ rest ∧
        Stands consumed label below ∧ Added { b.xml with malloc := b.dt.malloc } b'.xml live texts (some top)
          (.node top tags .nil) (.node label below .nil) := by
  rw [Booter.parseNextTag, bind_eq_ok] at ran
  obtain ⟨p', ran, returned⟩ := ran
  obtain ⟨rfl, rfl⟩ := Prod.mk.inj (Except.ok.inj returned)
  have held' : Held { b.xml with malloc := b.dt.malloc } live texts := ⟨held.pool, held.symbols⟩
  have refines := (refinement (2 * text.length + 2)).next tag terminated held'
  have advances := (progress (2 * text.length + 2)).next terminated (Nat.le_add_right _ 2)
  refine ⟨rfl, ?_⟩
  change parseNextTag _ tag text _ = .ok p' at ran
  rcases read : readNextTag (2 * text.length + 2) text with (_ | _ | _) | ⟨outcome, size⟩ <;>
    rw [read] at refines advances
  · rcases refines with ⟨_, ran', none, _⟩ | ⟨panics, _⟩
    · obtain rfl := Except.ok.inj (ran.symm.trans ran')
      cases none.symm.trans total
    · cases ran.symm.trans panics
  · exact absurd read plain
  · exact advances.elim
  · rcases refines with ⟨bad, _⟩ | ⟨_, ran', total', _, leaves⟩
    · exact absurd good bad
    · obtain rfl := Except.ok.inj (ran.symm.trans ran')
      obtain rfl : size = length := Option.some.inj (total'.symm.trans total)
      obtain ⟨consumed, rest, split, size, last, stands⟩ := (sound _).next terminated read
      cases outcome with
      | unassigned => exact absurd (readNextTag_unassigned read) first
      | null => cases leaves.1.symm.trans found
      | tag label below =>
        obtain ⟨top', tags, given, added⟩ := leaves
        obtain rfl : top' = top := Option.some.inj (given.symm.trans found)
        rw [given] at added
        exact ⟨consumed, rest, label, below, tags, split, size, last, stands, added⟩

theorem populate_result {result : Except Stop DeviceTree}
    (entered : populateDeviceTreeNode b.xml b.symbolAt (3 * b.xml.tagCount + 3) top (some n) b.dt = result) :
    b.populate top n = result >>= fun dt => .ok { b with dt := dt } := by
  rw [Booter.populate, entered]

/-- With memory to be had the populator panics or completes on a dict exactly when the dict is keyed: else it uses the
    string that an array or a dict does not have. What it adds has the name of a key. -/
theorem populate_keyed_iff {malloc : Malloc} {stack : Nat → Option Nat} {roots : Multiset Nat} {tree : Forest}
    (reachable : XmlReachable malloc stack ⟨b.xml, roots⟩) (good : b.dt.malloc.Succeeds) (shown : Represents b.dt tree)
    (member : n ∈ liveNodes tree) (terminated : 0 ∈ text) (plain : ¬ NestedPlist text) (first : ¬ StartsWithPlist text)
    (ran : b.parseNextTag tag text = .ok (p, b')) (total : p.length = some length) (found : p.tag = some top)
    (dict : (b'.xml.tags top).type = .dict) :
    ∃ consumed rest below, text = consumed ++ rest ∧ consumed.length = length ∧ 0 ∈ rest ∧
      Stands consumed (.dict, none) below ∧
      ((∃ b'', b'.populate top n = .ok b'') ∨ b'.populate top n = .error .panic ↔ Keyed below) ∧
      ∀ b'', b'.populate top n = .ok b'' → ∃ attrs kids, Populated b''.dt n tree attrs kids ∧
        AllNamed (fun name => KeyIn consumed name ∧ (.key, some name) ∈ cells below) attrs kids := by
  obtain ⟨trees, holds⟩ := reachable.holds
  obtain ⟨moved, consumed, rest, label, below, tags, split, size, last, stands, added⟩ :=
    parseNextTag_stands holds.held good terminated plain first ran total found
  obtain ⟨_, left, right, given, same, type, _, inner, _⟩ := added.rooted.top
  obtain rfl := Option.some.inj given
  injection same with _ same _
  subst same
  have bound := added.held.numNodes_le
  rw [BinaryTree.numNodes] at bound
  obtain ⟨spelled, _, inside, _⟩ := stands.spelled (fun _ key => key)
  obtain ⟨kind, string⟩ := label
  obtain rfl : kind = .dict := type.symm.trans dict
  obtain rfl : string = none := spelled
  have kept : Represents b'.dt tree := moved ▸ shown.with_malloc b'.xml.malloc
  have roomy' : b'.dt.malloc.Succeeds := moved ▸ added.good good
  have meets := (meeting (fun name => KeyIn consumed name ∧ (.key, some name) ∈ cells below) b'.xml b'.symbolAt
    (3 * b'.xml.tagCount + 2)).keys (inside.inside fun _ member => member) inner (by omega) (by omega) kept member roomy'
  have entered : populateDeviceTreeNode b'.xml b'.symbolAt (3 * b'.xml.tagCount + 3) top (some n) b'.dt =
      populateKeys b'.xml b'.symbolAt (3 * b'.xml.tagCount + 2) (b'.xml.tags top).tag (some n) b'.dt := by
    rw [populateDeviceTreeNode, if_neg (not_not.mpr dict)]
  rw [← entered] at meets
  have nulls (keyless : ¬ Keyed below) : b'.populate top n = .error .null := populate_result (meets.null keyless)
  have panics (keyed : Keyed below) (incomplete : ¬ Completes below) : b'.populate top n = .error .panic :=
    populate_result (meets.panic keyed incomplete)
  refine ⟨consumed, rest, below, split, size, last, stands, ⟨fun ends => ?_, fun keyed => ?_⟩, fun b'' ran' => ?_⟩
  · by_contra keyless
    rw [nulls keyless] at ends
    rcases ends with ⟨_, absurd⟩ | absurd
    · cases absurd
    · cases absurd
  · by_cases completes : Completes below
    · obtain ⟨dt, _, _, done, _⟩ := meets.ok keyed completes
      exact Or.inl ⟨_, populate_result done⟩
    · exact Or.inr (panics keyed completes)
  · have keyed : Keyed below := by
      by_contra keyless
      cases ran'.symm.trans (nulls keyless)
    have completes : Completes below := by
      by_contra incomplete
      cases ran'.symm.trans (panics keyed incomplete)
    obtain ⟨dt, attrs, kids, done, populated, all⟩ := meets.ok keyed completes
    obtain rfl := Except.ok.inj (ran'.symm.trans (populate_result done))
    exact ⟨attrs, kids, populated, all⟩

end Returned

def rootedBooter : Booter := { nestedBooter roomy with dt := { rootOnly with malloc := roomy } }

theorem rootedBooter_ready : ∃ tree, Represents rootedBooter.dt tree ∧ 255 ∈ liveNodes tree := by
  obtain ⟨dt, ran, _, succeeds⟩ := dtInitialize_spec (DeviceTree.bss roomy)
  have same : rootOnly = dt := by
    change okDt (dtInitialize (DeviceTree.bss roomy)) = dt
    rw [ran]
    rfl
  obtain ⟨_, root, prop, shown⟩ := succeeds roomy_succeeds
  rw [← same] at shown
  exact ⟨_, shown.with_malloc roomy, root_live shown (show rootOnly.rootNode = some 255 from rfl)⟩

def textParsed (text : List Byte) : Parsed :=
  okParsed (xmlParseNextTag none text { rootedBooter.xml with malloc := rootedBooter.dt.malloc })

def textBooter (text : List Byte) : Booter :=
  { rootedBooter with
    xml := (textParsed text).xml
    dt := { rootedBooter.dt with malloc := (textParsed text).xml.malloc } }

theorem parseNextTag_textParsed {text : List Byte}
    (ok : (xmlParseNextTag none text { rootedBooter.xml with malloc := rootedBooter.dt.malloc }).isOk = true) :
    rootedBooter.parseNextTag none text = .ok (textParsed text, textBooter text) := by
  rw [Booter.parseNextTag, okParsed_eq ok]
  rfl

def keyedDict : Element :=
  .dict noText (.cons noText textK (.string noText textA) .nil) noText

def keyedText : List Byte := (ascii "<dict><key>k</key><string>a</string></dict>").chars ++ [0]

theorem keyedText_populates : (textParsed keyedText).tag = some 2 ∧
    ((∃ b'', (textBooter keyedText).populate 2 255 = .ok b'') ∨ (textBooter keyedText).populate 2 255 = .error .panic) := by
  have reachable : XmlReachable roomy (fun _ => none) ⟨rootedBooter.xml, 0⟩ := Relation.ReflTransGen.refl
  obtain ⟨tree, shown, member⟩ := rootedBooter_ready
  have found : (textParsed keyedText).tag = some 2 := by decide +kernel
  obtain ⟨consumed, rest, below, split, size, last, stands, ends, _⟩ := populate_keyed_iff reachable roomy_succeeds shown
    member (show 0 ∈ keyedText by decide) (by decide +kernel) (by decide +kernel)
    (parseNextTag_textParsed (by decide +kernel)) (show (textParsed keyedText).length = some 43 by decide +kernel)
    found (by decide +kernel)
  -- The text stands for one tree only.
  have text : keyedText = keyedDict.render ++ [0] := by decide
  have read := stands.reads rest last 100 (by omega)
  rw [← split, text, keyedDict.reads [0] List.mem_cons_self 100 (by decide)] at read
  obtain ⟨outcome, _⟩ := Prod.mk.inj (Except.ok.inj read)
  injection outcome with _ inner
  have keyed : Keyed below := by
    rw [← inner]
    exact ⟨rfl, fun _ => trivial⟩
  exact ⟨found, ends.mpr keyed⟩

def stopOf {α : Type} : Except Stop α → Option Stop
  | .ok _ => none
  | .error stop => some stop

theorem stopOf_eq {α : Type} {result : Except Stop α} {stop : Stop} (stopped : stopOf result = some stop) :
    result = .error stop := by
  cases result with
  | ok a => cases stopped
  | error stop' =>
    obtain rfl := Option.some.inj stopped
    rfl

def keylessText : List Byte := (ascii "<dict><array><string>a</string></array></dict>").chars ++ [0]

theorem keylessText_uses_null : XmlReachable roomy (fun _ => none) ⟨rootedBooter.xml, 0⟩ ∧
    (∃ tree, Represents rootedBooter.dt tree ∧ 255 ∈ liveNodes tree) ∧
    rootedBooter.parseNextTag none keylessText = .ok (textParsed keylessText, textBooter keylessText) ∧
    (textParsed keylessText).length = some 46 ∧ (textParsed keylessText).tag = some 2 ∧
    ((textBooter keylessText).xml.tags 2).type = .dict ∧ (textBooter keylessText).populate 2 255 = .error .null := by
  refine ⟨Relation.ReflTransGen.refl, rootedBooter_ready, parseNextTag_textParsed (by decide +kernel), ?_, ?_, ?_, ?_⟩
  · decide +kernel
  · decide +kernel
  · decide +kernel
  · exact stopOf_eq (by decide +kernel)

end GenericBooter
