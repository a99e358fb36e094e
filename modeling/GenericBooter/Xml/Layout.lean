import GenericBooter.Library.FreeList
import GenericBooter.Xml.Reading
import Mathlib.Data.Multiset.Filter
import Mathlib.Data.Multiset.Count

namespace GenericBooter

open Linked

structure Counts (symbols : List Symbol) (texts : Multiset CString) : Prop where
  distinct : (symbols.map Symbol.string).Nodup
  counted : ∀ symbol ∈ symbols, symbol.refCount = texts.count symbol.string
  present : ∀ text, text ∈ texts ↔ text ∈ symbols.map Symbol.string

theorem addRef_strings (string : CString) (amount : Int) (symbols : List Symbol) :
    (addRef string amount symbols).map Symbol.string = symbols.map Symbol.string := by
  induction symbols with
  | nil => rfl
  | cons symbol later ih =>
    rw [addRef]
    split
    · rfl
    · rw [List.map_cons, List.map_cons, ih]

theorem mem_addRef {string : CString} {amount : Int} {symbols : List Symbol}
    (distinct : (symbols.map Symbol.string).Nodup) {symbol : Symbol}
    (member : symbol ∈ addRef string amount symbols) : ∃ old ∈ symbols, symbol.string = old.string ∧
      symbol.refCount = old.refCount + if old.string = string then amount else 0 := by
  induction symbols with
  | nil => exact absurd member List.not_mem_nil
  | cons first later ih =>
    rw [List.map_cons, List.nodup_cons] at distinct
    rw [addRef] at member
    split at member
    · rename_i here
      rcases List.mem_cons.mp member with rfl | member
      · exact ⟨first, List.mem_cons_self, rfl, by rw [if_pos here]⟩
      · refine ⟨symbol, List.mem_cons_of_mem _ member, rfl, ?_⟩
        have other : symbol.string ≠ string := fun equal =>
          distinct.1 (by rw [here, ← equal]; exact List.mem_map_of_mem member)
        rw [if_neg other, add_zero]
    · rename_i other
      rcases List.mem_cons.mp member with rfl | member
      · exact ⟨symbol, List.mem_cons_self, rfl, by rw [if_neg other, add_zero]⟩
      · obtain ⟨old, inside, same⟩ := ih distinct.2 member
        exact ⟨old, List.mem_cons_of_mem _ inside, same⟩

theorem eraseP_strings (string : CString) (symbols : List Symbol) :
    (symbols.eraseP fun symbol => symbol.string = string).map Symbol.string =
      (symbols.map Symbol.string).erase string := by
  induction symbols with
  | nil => rfl
  | cons symbol later ih =>
    rw [List.eraseP_cons, List.map_cons, List.erase_cons]
    by_cases here : symbol.string = string
    · simp [here]
    · simp [here, ih]

theorem findSymbol_none {string : CString} {symbols : List Symbol} :
    findSymbol string symbols = none ↔ string ∉ symbols.map Symbol.string := by
  simp only [findSymbol, List.find?_eq_none, decide_eq_true_eq, List.mem_map, not_exists, not_and]

theorem findSymbol_some {string : CString} {symbols : List Symbol} {symbol : Symbol}
    (found : findSymbol string symbols = some symbol) : symbol ∈ symbols ∧ symbol.string = string :=
  ⟨List.mem_of_find?_eq_some found, by simpa using List.find?_some found⟩

namespace Counts

variable {symbols : List Symbol} {texts : Multiset CString} {string : CString}

theorem found (counts : Counts symbols (string ::ₘ texts)) : ∃ symbol, findSymbol string symbols = some symbol := by
  have inside := (counts.present string).mp (Multiset.mem_cons_self string texts)
  rcases missing : findSymbol string symbols with _ | symbol
  · exact absurd inside (findSymbol_none.mp missing)
  · exact ⟨symbol, rfl⟩

theorem again (counts : Counts symbols texts) (known : string ∈ symbols.map Symbol.string) :
    Counts (addRef string 1 symbols) (string ::ₘ texts) where
  distinct := (addRef_strings string 1 symbols).symm ▸ counts.distinct
  counted symbol member := by
    obtain ⟨old, inside, same, count⟩ := mem_addRef counts.distinct member
    rw [count, same, counts.counted old inside, Multiset.count_cons]
    push_cast
    rfl
  present text := by
    rw [addRef_strings, Multiset.mem_cons, counts.present]
    exact ⟨fun member => member.elim (fun equal => equal ▸ known) id, Or.inr⟩

theorem first (counts : Counts symbols texts) (unknown : string ∉ symbols.map Symbol.string) :
    Counts (addRef string 1 (⟨0, string⟩ :: symbols)) (string ::ₘ texts) where
  distinct := by
    rw [addRef_strings, List.map_cons, List.nodup_cons]
    exact ⟨unknown, counts.distinct⟩
  counted symbol member := by
    rw [addRef, if_pos rfl] at member
    rcases List.mem_cons.mp member with rfl | member
    · rw [Multiset.count_cons_self, Multiset.count_eq_zero_of_notMem ((counts.present string).not.mpr unknown)]
      rfl
    · have other : symbol.string ≠ string := fun equal =>
        unknown (equal ▸ List.mem_map_of_mem member)
      rw [counts.counted symbol member, Multiset.count_cons_of_ne other]
  present text := by
    rw [addRef_strings, Multiset.mem_cons, List.map_cons, List.mem_cons, counts.present]

theorem positive (counts : Counts symbols texts) {symbol : Symbol} (member : symbol ∈ symbols) :
    1 ≤ symbol.refCount := by
  have inside := (counts.present symbol.string).mpr (List.mem_map_of_mem member)
  have count := Multiset.one_le_count_iff_mem.mpr inside
  rw [counts.counted symbol member]
  exact_mod_cast count

theorem less (counts : Counts symbols (string ::ₘ texts)) {symbol : Symbol}
    (found : findSymbol string symbols = some symbol) (shared : symbol.refCount - 1 ≠ 0) :
    Counts (addRef string (-1) symbols) texts where
  distinct := (addRef_strings string (-1) symbols).symm ▸ counts.distinct
  counted other member := by
    obtain ⟨old, inside, same, count⟩ := mem_addRef counts.distinct member
    rw [count, same, counts.counted old inside, Multiset.count_cons]
    push_cast
    split <;> omega
  present text := by
    obtain ⟨inside, rfl⟩ := findSymbol_some found
    have count := counts.counted symbol inside
    rw [Multiset.count_cons_self] at count
    rw [addRef_strings, ← counts.present, Multiset.mem_cons]
    refine ⟨Or.inr, fun member => member.elim (fun equal => ?_) id⟩
    rw [equal]
    exact Multiset.one_le_count_iff_mem.mp (by omega)

theorem last (counts : Counts symbols (string ::ₘ texts)) {symbol : Symbol}
    (found : findSymbol string symbols = some symbol) (alone : symbol.refCount - 1 = 0) :
    Counts (symbols.eraseP fun symbol => symbol.string = string) texts := by
  obtain ⟨inside, rfl⟩ := findSymbol_some found
  have count := counts.counted symbol inside
  rw [Multiset.count_cons_self] at count
  have gone : symbol.string ∉ texts := Multiset.count_eq_zero.mp (by omega)
  have strings := eraseP_strings symbol.string symbols
  refine ⟨?_, ?_, ?_⟩
  · rw [strings]
    exact counts.distinct.erase _
  · intro other member
    have kept := List.mem_of_mem_eraseP member
    have distinct : other.string ≠ symbol.string := by
      intro equal
      have := List.mem_map_of_mem (f := Symbol.string) member
      rw [strings, equal] at this
      exact (List.Nodup.not_mem_erase counts.distinct) this
    rw [counts.counted other kept, Multiset.count_cons_of_ne distinct]
  · intro text
    rw [strings, counts.distinct.mem_erase_iff, ← counts.present, Multiset.mem_cons]
    constructor
    · exact fun member => ⟨fun equal => gone (equal ▸ member), Or.inr member⟩
    · exact fun ⟨other, member⟩ => member.resolve_left other

end Counts

/-- The tags of `live` are in use, every other allocated tag is free, and the symbol table counts
    `texts`. -/
structure Held (xml : Xml) (live : Multiset Nat) (texts : Multiset CString) : Prop where
  pool : Pool (fun tag => (xml.tags tag).tagNext) xml.tagsFree live (Multiset.range xml.tagCount)
  symbols : Counts xml.symbols texts

def Keeps (xml xml' : Xml) (live : Multiset Nat) : Prop := ∀ tag ∈ live, xml'.tags tag = xml.tags tag

theorem Keeps.refl (xml : Xml) (live : Multiset Nat) : Keeps xml xml live := fun _ _ => rfl

theorem Keeps.trans {xml xml' xml'' : Xml} {live : Multiset Nat} (first : Keeps xml xml' live)
    (second : Keeps xml' xml'' live) : Keeps xml xml'' live :=
  fun tag member => (second tag member).trans (first tag member)

theorem Keeps.mono {xml xml' : Xml} {live live' : Multiset Nat} (keeps : Keeps xml xml' live')
    (less : live ⊆ live') : Keeps xml xml' live := fun tag member => keeps tag (less member)

theorem setTag_same (xml : Xml) (tag : Nat) (cell : Tag) : (xml.setTag tag cell).tags tag = cell :=
  Function.update_self _ _ _

theorem setTag_other (xml : Xml) {tag other : Nat} (distinct : other ≠ tag) (cell : Tag) :
    (xml.setTag tag cell).tags other = xml.tags other := Function.update_of_ne distinct _ _

namespace Held

variable {xml : Xml} {live : Multiset Nat} {texts : Multiset CString}

theorem live_nodup (held : Held xml live texts) : live.Nodup :=
  held.pool.live_nodup (Multiset.nodup_range _)

theorem setTag (held : Held xml live texts) {tag : Nat} (member : tag ∈ live) (cell : Tag) :
    Held (xml.setTag tag cell) live texts where
  pool := by
    refine held.pool.congr (Multiset.nodup_range _) fun other _ outside => ?_
    have distinct : other ≠ tag := fun equal => outside (equal ▸ member)
    exact congrArg Tag.tagNext (setTag_other xml distinct cell)
  symbols := held.symbols

end Held

theorem setTag_keeps (xml : Xml) {live : Multiset Nat} {tag : Nat} (outside : tag ∉ live) (cell : Tag) :
    Keeps xml (xml.setTag tag cell) live := by
  intro other member
  have distinct : other ≠ tag := fun equal => outside (equal ▸ member)
  exact setTag_other xml distinct cell

theorem newTag_spec {xml : Xml} {live : Multiset Nat} {texts : Multiset CString} (held : Held xml live texts) :
    Keeps xml (newTag xml).2 live ∧
      ((newTag xml).1 = none → Held (newTag xml).2 live texts ∧ ¬ xml.malloc.Succeeds) ∧
      (∀ tag, (newTag xml).1 = some tag → tag ∉ live ∧ Held (newTag xml).2 (tag ::ₘ live) texts) ∧
      (xml.malloc.Succeeds → (newTag xml).2.malloc.Succeeds) := by
  have pool := held.pool
  unfold newTag
  cases free : xml.tagsFree with
  | some tag =>
    rw [free] at pool
    dsimp only
    refine ⟨fun _ _ => rfl, fun equal => absurd equal (Option.some_ne_none _), ?_, id⟩
    rintro _ ⟨⟩
    exact ⟨pool.head_notMem (Multiset.nodup_range _), ⟨pool.take, held.symbols⟩⟩
  | none =>
    rw [free] at pool
    by_cases refused : xml.malloc.call.1 = 0
    · simp only [refused, if_true]
      exact ⟨fun _ _ => rfl, fun _ => ⟨⟨pool, held.symbols⟩, fun good => good.answer refused⟩,
        fun _ equal => absurd equal (Option.some_ne_none _).symm, fun good => good.later⟩
    · simp only [refused, if_false]
      have old : ∀ tag ∈ live, ¬ (xml.tagCount ≤ tag ∧ tag < xml.tagCount + kTagsPerBlock) := by
        intro tag member inside
        have := Multiset.mem_range.mp (pool.live_mem member)
        omega
      refine ⟨fun tag member => if_neg (old tag member), fun equal => absurd equal (Option.some_ne_none _),
        ?_, fun good => good.later⟩
      rintro _ ⟨⟩
      have fresh : xml.tagCount ∉ live := fun member => by
        have := Multiset.mem_range.mp (pool.live_mem member)
        omega
      refine ⟨fresh, ?_, held.symbols⟩
      have positive : 0 < kTagsPerBlock := Nat.succ_pos 4095
      have linked : ∀ i < kTagsPerBlock, (if xml.tagCount ≤ xml.tagCount + i ∧
          xml.tagCount + i < xml.tagCount + kTagsPerBlock then Xml.freshTags xml.tagCount (xml.tagCount + i)
          else xml.tags (xml.tagCount + i)).tagNext =
            if i + 1 = kTagsPerBlock then none else some (xml.tagCount + i + 1) := by
        intro i bound
        rw [if_pos ⟨by omega, by omega⟩, Xml.freshTags]
        simp only [Nat.add_assoc, Nat.add_left_cancel_iff]
      have grown : Pool (fun tag => (if xml.tagCount ≤ tag ∧ tag < xml.tagCount + kTagsPerBlock
          then Xml.freshTags xml.tagCount tag else xml.tags tag).tagNext) (some xml.tagCount) live _ :=
        pool.grow_block positive linked
      exact grown.take

theorem newSymbol_spec {xml : Xml} {live : Multiset Nat} {texts : Multiset CString} (string : CString)
    (held : Held xml live texts) :
    (newSymbol xml string = .error .panic ∧ ¬ xml.malloc.Succeeds) ∨
      ∃ xml', newSymbol xml string = .ok xml' ∧ Held xml' live (string ::ₘ texts) ∧
        xml'.tags = xml.tags ∧ (xml.malloc.Succeeds → xml'.malloc.Succeeds) := by
  unfold newSymbol
  cases found : findSymbol string xml.symbols with
  | some symbol =>
    obtain ⟨inside, rfl⟩ := findSymbol_some found
    exact Or.inr ⟨_, rfl, ⟨held.pool, held.symbols.again (List.mem_map_of_mem inside)⟩, rfl, id⟩
  | none =>
    by_cases refused : xml.malloc.call.1 = 0
    · simp only [refused, if_true]
      exact Or.inl ⟨trivial, fun good => good.answer refused⟩
    · simp only [refused, if_false]
      exact Or.inr ⟨_, rfl, ⟨held.pool, held.symbols.first (findSymbol_none.mp found)⟩, rfl,
        fun good => good.later⟩

theorem freeSymbol_spec {xml : Xml} {live : Multiset Nat} {texts : Multiset CString} {string : CString}
    (held : Held xml live (string ::ₘ texts)) : Held (freeSymbol xml string) live texts ∧
      (freeSymbol xml string).tags = xml.tags ∧ (freeSymbol xml string).malloc = xml.malloc := by
  obtain ⟨symbol, found⟩ := held.symbols.found
  unfold freeSymbol
  rw [found]
  dsimp only
  by_cases shared : symbol.refCount - 1 ≠ 0
  · rw [if_pos shared]
    exact ⟨⟨held.pool, held.symbols.less found shared⟩, rfl, rfl⟩
  · rw [if_neg shared]
    exact ⟨⟨held.pool, held.symbols.last found (not_not.mp shared)⟩, rfl, rfl⟩

def Xml.label (xml : Xml) (tag : Nat) : TagLabel := ((xml.tags tag).type, (xml.tags tag).string)

def treeTexts (tree : TagTree) : Multiset CString := (cells tree).filterMap Prod.snd

/-- The tags `tags` reached from `root` by `tag` and `tagNext` hold `tree`. -/
structure Rooted (xml : Xml) (root : Option Nat) (tags : BinaryTree Nat) (tree : TagTree) : Prop where
  shape : Shape (fun tag => (xml.tags tag).tag) (fun tag => (xml.tags tag).tagNext) root tags
  labels : tags.map xml.label = tree

theorem Rooted.keep {xml xml' : Xml} {root : Option Nat} {tags : BinaryTree Nat} {tree : TagTree}
    {live : Multiset Nat} (rooted : Rooted xml root tags tree) (keeps : Keeps xml xml' live)
    (inside : cells tags ⊆ live) : Rooted xml' root tags tree where
  shape := shape_congr (fun tag member => by rw [keeps tag (inside member)]; exact ⟨rfl, rfl⟩) rooted.shape
  labels := by
    rw [← rooted.labels]
    refine map_congr fun tag member => ?_
    rw [Xml.label, Xml.label, keeps tag (inside member)]

theorem treeTexts_node (label : TagLabel) (below beside : TagTree) :
    treeTexts (.node label below beside) =
      (label.2.toList : Multiset CString) + (treeTexts below + treeTexts beside) := by
  rw [treeTexts, cells, ← Multiset.singleton_add, Multiset.filterMap_add, Multiset.filterMap_add]
  congr 1

theorem freeTagString_spec {xml : Xml} {live : Multiset Nat} {tag : Nat}
    {first second texts : Multiset CString}
    (held : Held xml live (((xml.label tag).2.toList : Multiset CString) + (first + second) + texts)) :
    Held (freeTagString xml tag) live (first + (second + texts)) ∧
      (freeTagString xml tag).tags = xml.tags ∧ (freeTagString xml tag).malloc = xml.malloc := by
  rw [show (xml.label tag).2 = (xml.tags tag).string from rfl] at held
  unfold freeTagString
  cases here : (xml.tags tag).string with
  | none =>
    rw [here, Option.toList_none, Multiset.coe_nil, zero_add, add_assoc] at held
    exact ⟨held, rfl, rfl⟩
  | some string =>
    rw [here, Option.toList_some, Multiset.coe_singleton, Multiset.singleton_add, Multiset.cons_add,
      add_assoc] at held
    exact freeSymbol_spec held

theorem freeTagFrom_spec {xml : Xml} {root : Option Nat} {tags : BinaryTree Nat} {tree : TagTree}
    {live : Multiset Nat} {texts : Multiset CString} (rooted : Rooted xml root tags tree)
    (held : Held xml (cells tags + live) (treeTexts tree + texts)) (fuel : Nat)
    (enough : tags.numNodes < fuel) :
    ∃ xml', freeTagFrom fuel root xml = .ok xml' ∧ Held xml' live texts ∧ Keeps xml xml' live ∧
      xml'.malloc = xml.malloc := by
  induction tags generalizing xml root tree live texts fuel with
  | nil =>
    obtain ⟨shape, rfl⟩ := rooted
    cases fuel with
    | zero => omega
    | succ fuel =>
      rw [show root = none from shape]
      refine ⟨xml, rfl, ?_, Keeps.refl _ _, rfl⟩
      rwa [cells, zero_add, BinaryTree.map, treeTexts, cells, Multiset.filterMap_zero, zero_add] at held
  | node tag below beside ihb ihn =>
    obtain ⟨⟨root_eq, shapeBelow, shapeBeside⟩, rfl⟩ := rooted
    simp only [BinaryTree.numNodes] at enough
    cases fuel with
    | zero => omega
    | succ fuel =>
      rw [BinaryTree.map, treeTexts_node, cells] at held
      obtain ⟨held₁, tags₁, malloc₁⟩ := freeTagString_spec held
      have keeps₁ (live : Multiset Nat) : Keeps xml (freeTagString xml tag) live := fun other _ => by rw [tags₁]
      have rootedBelow : Rooted (freeTagString xml tag) ((freeTagString xml tag).tags tag).tag below (below.map xml.label) := by
        rw [tags₁]
        exact Rooted.keep ⟨shapeBelow, rfl⟩ (keeps₁ _) (Multiset.Subset.refl _)
      have split : tag ::ₘ (cells below + cells beside) + live =
          cells below + (cells beside + tag ::ₘ live) := by
        rw [Multiset.cons_add, Multiset.add_cons, Multiset.add_cons, add_assoc]
      rw [split] at held₁
      obtain ⟨xml₂, ran₂, held₂, keeps₂, malloc₂⟩ := ihb rootedBelow held₁ fuel (by omega)
      have kept : xml₂.tags tag = xml.tags tag := by
        rw [← tags₁]
        exact keeps₂ tag (Multiset.mem_add.mpr (Or.inr (Multiset.mem_cons_self _ _)))
      have rootedBeside : Rooted xml₂ (xml₂.tags tag).tagNext beside (beside.map xml.label) := by
        rw [kept]
        exact Rooted.keep ⟨shapeBeside, rfl⟩ ((keeps₁ _).trans keeps₂)
          (Multiset.subset_of_le (Multiset.le_add_right _ _))
      obtain ⟨xml₃, ran₃, held₃, keeps₃, malloc₃⟩ := ihn rootedBeside held₂ fuel (by omega)
      have fresh : tag ∉ live := (Multiset.nodup_cons.mp held₃.live_nodup).1
      refine ⟨{ xml₃.setTag tag ⟨.none, none, none, xml₃.tagsFree⟩ with tagsFree := some tag }, ?_,
        ⟨?_, held₃.symbols⟩, ?_, ?_⟩
      · rw [root_eq, freeTagFrom]
        simp only [ran₂, ran₃, ok_bind]
      · refine held₃.pool.release (Multiset.nodup_range _) ?_ fun other _ outside => ?_
        · exact congrArg Tag.tagNext (setTag_same _ _ _)
        · have distinct : other ≠ tag := fun equal => outside (equal ▸ Multiset.mem_cons_self _ _)
          exact congrArg Tag.tagNext (setTag_other _ distinct _)
      · have outer : Keeps (freeTagString xml tag) xml₂ live := keeps₂.mono
          (Multiset.subset_of_le ((Multiset.le_cons_self _ _).trans (Multiset.le_add_left _ _)))
        have inner : Keeps xml₂ xml₃ live := keeps₃.mono (Multiset.subset_of_le (Multiset.le_cons_self _ _))
        exact (((keeps₁ live).trans outer).trans inner).trans (setTag_keeps xml₃ fresh _)
      · exact malloc₃.trans (malloc₂.trans malloc₁)

theorem Held.numNodes_le {xml : Xml} {tags : BinaryTree Nat} {live : Multiset Nat} {texts : Multiset CString}
    (held : Held xml (cells tags + live) texts) : tags.numNodes ≤ xml.tagCount := by
  obtain ⟨free, _, total⟩ := held.pool
  have count := congrArg Multiset.card total
  rw [Multiset.card_add, Multiset.card_add, card_cells, Multiset.card_range] at count
  omega

theorem xmlFreeTag_spec {xml : Xml} {root : Option Nat} {tags : BinaryTree Nat} {tree : TagTree}
    {live : Multiset Nat} {texts : Multiset CString} (rooted : Rooted xml root tags tree)
    (held : Held xml (cells tags + live) (treeTexts tree + texts)) :
    ∃ xml', xmlFreeTag xml root = .ok xml' ∧ Held xml' live texts ∧ Keeps xml xml' live ∧
      xml'.malloc = xml.malloc :=
  freeTagFrom_spec rooted held _ (Nat.lt_succ_of_le held.numNodes_le)

end GenericBooter
