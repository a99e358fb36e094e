import GenericBooter.Boot.Entering
import GenericBooter.Boot.Names
import GenericBooter.DeviceTree.Records

namespace GenericBooter

open Linked

def ShortNames (tree : PlainTree) : Prop := ∀ attrs ∈ cells tree, ∀ held ∈ attrs, held.name.chars.length ≤ 31

section Names

theorem shortNames_node {attrs : List Attribute} {kids younger : PlainTree} :
    ShortNames (.node attrs kids younger) ↔
      (∀ held ∈ attrs, held.name.chars.length ≤ 31) ∧ ShortNames kids ∧ ShortNames younger := by
  simp only [ShortNames, cells, Multiset.mem_cons, Multiset.mem_add, or_imp, forall_and, forall_eq]

theorem namesFit_iff (tree : Forest) : NamesFit (flatTree tree) ↔ ShortNames (tree.map contents) := by
  have flattened (attrs : List Attribute) : (∀ prop ∈ attrs.map Attribute.flat, prop.name.chars.length ≤ 31) ↔
      ∀ held ∈ attrs, held.name.chars.length ≤ 31 := List.forall_mem_map
  rw [flatTree_contents, NamesFit, ShortNames, cells_map]
  simp only [Multiset.mem_map, forall_exists_index, and_imp, forall_apply_eq_imp_iff₂, flattened]

theorem shortNames_stage2Tree {ranges attrs : List Attribute} {kids : PlainTree} (ramdisk : RamdiskRanges ranges) :
    ShortNames (stage2Tree ranges (.node attrs kids .nil)) ↔ ShortNames (.node attrs kids .nil) := by
  have root : ∀ held ∈ targetAttributes .root iBootNodes, held.name.chars.length ≤ 31 := by decide
  have chosen : ∀ held ∈ nameAttribute (ascii "chosen") :: targetAttributes .chosen iBootNodes,
      held.name.chars.length ≤ 31 := by decide
  have options : ∀ held ∈ [nameAttribute (ascii "options")], held.name.chars.length ≤ 31 := by decide
  have memoryMap : ∀ held ∈ nameAttribute (ascii "memory-map") :: ranges, held.name.chars.length ≤ 31 := by
    rcases ramdisk with rfl | ⟨start, length, rfl⟩
    · decide
    · have range : (ramdiskAttribute start length).name.chars.length = 7 := rfl
      rw [List.forall_mem_cons, List.forall_mem_singleton, range]
      exact ⟨by decide, by decide⟩
  have both : (∀ held ∈ attrs ++ targetAttributes .root iBootNodes, held.name.chars.length ≤ 31) ↔
      ∀ held ∈ attrs, held.name.chars.length ≤ 31 :=
    ⟨fun all held member => all held (List.mem_append_left _ member),
      fun own => List.forall_mem_append.mpr ⟨own, root⟩⟩
  rw [stage2Tree]
  simp only [shortNames_node, both]
  constructor
  · rintro ⟨own, ⟨_, _, _, _, below⟩, none⟩
    exact ⟨own, below, none⟩
  · rintro ⟨own, below, none⟩
    exact ⟨own, ⟨options, none, chosen, ⟨memoryMap, none, none⟩, below⟩, none⟩

theorem shortNames_rootTree {root : Element} (describes : root.IsNode) :
    ShortNames (rootTree root) ↔ ShortNames root.node := by
  obtain ⟨_, attrs, kids, node, _⟩ := root.holds_node describes
  have name : (nameAttribute (ascii "/")).name.chars.length ≤ 31 := by decide
  rw [rootTree, node]
  rw [shortNames_node, shortNames_node, List.forall_mem_cons, and_iff_right name]

end Names

/-- Flattening keeps to its buffer and to its records exactly when no key that has become a property is too long;
    what stage 2 adds does not matter. -/
theorem finalTree_flattens_iff {locals : DevicetreeLocals} {b entered finished : Booter} (good : b.dt.malloc.Succeeds)
    (accepted : prepareDevicetree locals b = .ok (true, entered))
    (staged : entered.prepareDevicetreeStage2 = .ok finished) :
    ∃ before tree, Represents entered.dt before ∧ Represents finished.dt tree ∧
      (∀ buf ≠ 0, ∀ m, (∃ done, FlattensTo finished.dt tree buf m done) ↔
        ShortNames (before.map contents) ∧ flattenedLength (flatTree tree) < 2 ^ 32) ∧
      ∀ {malloc : Malloc} {stack : Nat → Option Nat} {roots : Multiset Nat} {image : Word} {payload : TagData}
        (document : Document) (following : List Byte), XmlReachable malloc stack ⟨b.xml, roots⟩ →
        getImage3 b.platform.machine.memory b.platform.imagesEnd kImage3TypeXmlDeviceTree = .ok image → image ≠ 0 →
        image3GetTagData b.platform.machine.memory image kImage3TagData locals.deviceTreeData locals.deviceTreeSize =
          .ok payload →
        stringAt b.platform.machine.memory payload.data = .ok (document.render ++ (following ++ [0])) →
          (ShortNames (before.map contents) ↔ ShortNames document.root.node) := by
  obtain ⟨good', before, shown, nonempty⟩ := prepareDevicetree_represents good accepted
  obtain ⟨ranges, tree, ramdisk, shown', final⟩ := stage2_describes shown nonempty good' staged
  obtain ⟨label, kids, rfl⟩ := shown.lone_root nonempty
  have some' : tree ≠ .nil := by
    rintro rfl
    cases final
  refine ⟨_, tree, shown, shown', fun buf nonnull m => ?_, ?_⟩
  · rw [flattensTo_iff shown' some' nonnull, namesFit_iff, final]
    exact and_congr_left' (shortNames_stage2Tree ramdisk)
  · intro malloc stack roots image payload document following reachable located present tagged held
    obtain ⟨b', tree', ran, shown'', same, _⟩ :=
      prepareDevicetree_completes reachable good locals located present tagged document following held
    obtain ⟨_, rfl⟩ := Prod.mk.inj (Except.ok.inj (accepted.symm.trans ran))
    rw [shown.unique shown'', same]
    exact shortNames_rootTree document.describes

theorem nested_flattens : ∃ entered finished tree,
    prepareDevicetree ⟨0, 0, none⟩ (stageBooter nestedDocument) = .ok (true, entered) ∧
      entered.prepareDevicetreeStage2 = .ok finished ∧ Represents finished.dt tree ∧
      ∀ buf ≠ 0, ∀ m, ∃ done, FlattensTo finished.dt tree buf m done := by
  have reachable : XmlReachable roomy (fun _ => none) ⟨(stageBooter nestedDocument).xml, 0⟩ := Relation.ReflTransGen.refl
  obtain ⟨located, tagged, held⟩ := stageBooter_nested
  obtain ⟨entered, before, ran, shown, same, good⟩ := prepareDevicetree_completes reachable roomy_succeeds ⟨0, 0, none⟩
    located (by decide) tagged nestedDocument [] held
  have flat : (do let entered ← prepareDevicetree ⟨0, 0, none⟩ (stageBooter nestedDocument)
                  let b ← entered.2.prepareDevicetreeStage2
                  let tree ← b.dt.unrollNodes b.dt.walkLimit b.dt.rootNode
                  .ok (flattenedLength tree)) = (.ok 1040 : Except Stop Nat) := by decide +kernel
  simp only [ran, ok_bind, bind_eq_ok] at flat
  obtain ⟨finished, staged, unrolled, walked, flat⟩ := flat
  obtain ⟨before', tree, _, shown', iff, keys⟩ := finalTree_flattens_iff roomy_succeeds ran staged
  obtain rfl := Except.ok.inj (shown'.unrolls.symm.trans walked)
  have short : ShortNames nestedDocument.root.node := by
    unfold ShortNames
    decide +kernel
  have room : flattenedLength (flatTree tree) < 2 ^ 32 := by
    rw [Except.ok.inj flat]
    decide
  exact ⟨entered, finished, tree, ran, staged, shown', fun buf nonnull m => (iff buf nonnull m).mpr
    ⟨(keys nestedDocument [] reachable located (by decide) tagged held).mpr short, room⟩⟩

def overlongDocument : Document where
  first := sampleHeader
  headers := []
  plist := none
  root := .dict noText (.cons noText textChildren
    (.array noText (.cons (.dict noText (.cons noText ⟨List.replicate 60 0x61, by decide, by decide⟩
      (.string noText textS) .nil) noText) .nil) noText) .nil) noText
  describes := ⟨⟨Items.noConfusion, ⟨trivial, trivial⟩, trivial⟩, trivial⟩

theorem overlong_overruns : ∃ entered finished tree,
    prepareDevicetree ⟨0, 0, none⟩ (stageBooter overlongDocument) = .ok (true, entered) ∧
      entered.prepareDevicetreeStage2 = .ok finished ∧ Represents finished.dt tree ∧
      (∃ put ∈ forestPuts 0 (flatTree tree), ¬ put.patch.Within (flattenedLength (flatTree tree))) ∧
      ∀ buf ≠ 0, ∀ m, ¬ ∃ done, FlattensTo finished.dt tree buf m done := by
  have reachable : XmlReachable roomy (fun _ => none) ⟨(stageBooter overlongDocument).xml, 0⟩ := Relation.ReflTransGen.refl
  have located : getImage3 (stageBooter overlongDocument).platform.machine.memory 0x10000 kImage3TypeXmlDeviceTree =
      .ok 0x10000 := by decide +kernel
  have tagged : image3GetTagData (stageBooter overlongDocument).platform.machine.memory 0x10000 kImage3TagData 0 0 =
      .ok ⟨true, 0x10020, BitVec.ofNat 32 (overlongDocument.render ++ [0]).length⟩ := by decide +kernel
  have held : stringAt (stageBooter overlongDocument).platform.machine.memory 0x10020 =
      .ok (overlongDocument.render ++ ([] ++ [0])) := by decide +kernel
  obtain ⟨entered, before, ran, shown, same, good⟩ := prepareDevicetree_completes reachable roomy_succeeds ⟨0, 0, none⟩
    located (by decide) tagged overlongDocument [] held
  have overruns : (do let entered ← prepareDevicetree ⟨0, 0, none⟩ (stageBooter overlongDocument)
                      let b ← entered.2.prepareDevicetreeStage2
                      let tree ← b.dt.unrollNodes b.dt.walkLimit b.dt.rootNode
                      .ok (decide (∃ put ∈ forestPuts 0 tree, ¬ put.patch.Within (flattenedLength tree)))) =
      (.ok true : Except Stop Bool) := by decide +kernel
  simp only [ran, ok_bind, bind_eq_ok] at overruns
  obtain ⟨finished, staged, unrolled, walked, overruns⟩ := overruns
  have nonempty : before ≠ .nil := by
    rintro rfl
    cases same
  obtain ⟨ranges, tree, ramdisk, shown', final⟩ := stage2_describes shown nonempty good staged
  have some' : tree ≠ .nil := by
    rintro rfl
    rw [same] at final
    cases final
  have long : ¬ ShortNames (rootTree overlongDocument.root) := by
    unfold ShortNames
    decide +kernel
  obtain rfl := Except.ok.inj (shown'.unrolls.symm.trans walked)
  refine ⟨entered, finished, tree, ran, staged, shown', of_decide_eq_true (Except.ok.inj overruns),
    fun buf nonnull m flattens => long ?_⟩
  have names := ((flattensTo_iff shown' some' nonnull m).mp flattens).1
  rw [namesFit_iff, final, same] at names
  exact (shortNames_stage2Tree ramdisk).mp names

end GenericBooter
