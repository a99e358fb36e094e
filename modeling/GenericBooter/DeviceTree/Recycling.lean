import GenericBooter.DeviceTree.Calls

namespace GenericBooter

open Linked

def dtFreeProperty (dt : DeviceTree) (prop : Nat) : DeviceTree :=
  { dt.setProperty prop { dt.properties prop with next := dt.freeProperties } with freeProperties := some prop }

def dtFreeNode (dt : DeviceTree) (node : Nat) : DeviceTree :=
  { dt.setNode node { dt.nodes node with next := dt.freeNodes } with freeNodes := some node }

namespace DeviceTree

def NodeGiven (dt : DeviceTree) (node : Nat) : Prop :=
  node < dt.nodeEnd ∧ ¬ Listed (fun node => (dt.nodes node).next) dt.freeNodes node ∧
    ¬ Listed (fun node => (dt.nodes node).next) dt.allocedNodes node

def PropertyGiven (dt : DeviceTree) (prop : Nat) : Prop :=
  prop < dt.propertyEnd ∧ ¬ Listed (fun prop => (dt.properties prop).next) dt.freeProperties prop ∧
    ¬ Listed (fun prop => (dt.properties prop).next) dt.allocedProperties prop

def Bare (dt : DeviceTree) (node : Nat) : Prop :=
  (dt.nodes node).properties = none ∧ (dt.nodes node).children = none

end DeviceTree

def PropertyInTree (dt : DeviceTree) (prop : Nat) : Prop :=
  ∃ node, InTree dt node ∧ Listed (fun prop => (dt.properties prop).next) (dt.nodes node).properties prop

inductive DtCall where
  | addChild (parent : Option Nat) (name : Option CString)
  | addProperty (node : Nat) (name : CString) (length : Word) (value : Value)
  | freeNode (node : Nat)
  | freeProperty (prop : Nat)

namespace DtCall

def run (dt : DeviceTree) : DtCall → Except Stop DeviceTree
  | .addChild parent name => do
    let (_, dt) ← dtAddChild dt parent name
    .ok dt
  | .addProperty node name length value => do
    let (_, dt) ← dtAddProperty dt node name length value
    .ok dt
  | .freeNode node => .ok (dtFreeNode dt node)
  | .freeProperty prop => .ok (dtFreeProperty dt prop)

/-- Nothing is freed that is linked in the tree, and nothing twice. -/
def Proper (dt : DeviceTree) : DtCall → Prop
  | .freeNode node => dt.NodeGiven node ∧ ¬ InTree dt node
  | .freeProperty prop => dt.PropertyGiven prop ∧ ¬ PropertyInTree dt prop
  | _ => True

/-- Nothing is added to an entry that is not handed out, unless there is no memory, and a node is freed bare. -/
def Clean (dt : DeviceTree) : DtCall → Prop
  | .addChild none _ => True
  | .addChild (some parent) _ => dt.NodesRefused ∨ dt.NodeGiven parent
  | .addProperty node _ _ _ => dt.PropertiesRefused ∨ dt.NodeGiven node
  | .freeNode node => dt.Bare node
  | .freeProperty _ => True

/-- What is counted is added to the tree, and a tree that is replaced counts as nothing. -/
def Counted (dt : DeviceTree) : DtCall → Prop
  | .addChild none _ => dt.NodesRefused ∨ dt.totalSize = 0
  | .addChild (some parent) _ => dt.NodesRefused ∨ InTree dt parent
  | .addProperty node _ _ _ => dt.PropertiesRefused ∨ InTree dt node
  | _ => True

end DtCall

def ProperStep (dt dt' : DeviceTree) : Prop := ∃ call : DtCall, call.Proper dt ∧ call.run dt = .ok dt'

def CleanStep (dt dt' : DeviceTree) : Prop :=
  ∃ call : DtCall, call.Proper dt ∧ call.Clean dt ∧ call.run dt = .ok dt'

def CountedStep (dt dt' : DeviceTree) : Prop :=
  ∃ call : DtCall, call.Proper dt ∧ call.Clean dt ∧ call.Counted dt ∧ call.run dt = .ok dt'

def SizeExact (dt : DeviceTree) : Prop :=
  ∀ buf m, ∃ length m', dtFlattenDeviceTree dt none m = .ok ⟨none, length, dt, m⟩ ∧
    dt.flattenNodes dt.walkLimit dt.rootNode buf m = .ok (buf + length, m')

def NewChild (dt : DeviceTree) (child : Nat) (name : Option CString) : Prop :=
  (dt.nodes child).children = none ∧ ∃ props, NameProperties name props ∧ Labelled dt (child, props)

def FreeNodesBare (dt : DeviceTree) : Prop :=
  ∃ free, Chain (fun node => (dt.nodes node).next) dt.freeNodes free ∧ free.Nodup ∧ ∀ node ∈ free, dt.Bare node

section New

variable {dt dt' ready : DeviceTree} {parent result : Option Nat} {node : Nat}

theorem clean_parent {name : Option CString} (clean : (DtCall.addChild parent name).Clean dt) :
    dt.NodesRefused ∨ ∀ other, parent = some other → dt.NodeGiven other := by
  cases parent with
  | none => exact Or.inr fun _ equal => absurd equal (Option.some_ne_none _).symm
  | some p => exact clean.imp_right fun given other equal => Option.some.inj equal ▸ given

theorem FreeNodesBare.congr (bare : FreeNodesBare dt) (head : dt'.freeNodes = dt.freeNodes)
    (same : ∀ node, Listed (fun node => (dt.nodes node).next) dt.freeNodes node → dt'.nodes node = dt.nodes node) :
    FreeNodesBare dt' := by
  obtain ⟨free, chain, once, blank⟩ := bare
  have kept : ∀ node ∈ free, dt'.nodes node = dt.nodes node := fun node member =>
    same node ((listed_iff chain).mpr member)
  refine ⟨free, ?_, once, fun node member => ?_⟩
  · rw [head]
    exact chain_congr (fun node member => by rw [kept node member]) chain
  · rw [DeviceTree.Bare, kept node member]
    exact blank node member

theorem FreeNodesBare.readyNode (bare : FreeNodesBare dt) (taken : dt.readyNode = (some node, ready)) :
    FreeNodesBare ready ∧ ready.freeNodes = some node ∧
      ∀ other, dt.NodeGiven other → ¬ Listed (fun node => (ready.nodes node).next) ready.freeNodes other := by
  unfold DeviceTree.readyNode at taken
  cases free : dt.freeNodes with
  | some first =>
    simp only [free] at taken
    obtain ⟨equal, rfl⟩ := Prod.mk.inj taken
    exact ⟨bare, free.trans equal, fun other given => given.2.1⟩
  | none =>
    by_cases refused : dt.malloc.call.1 = 0
    · simp only [free, refused, if_true] at taken
      cases (Prod.mk.inj taken).1
    · simp only [free, refused, if_false] at taken
      obtain ⟨equal, rfl⟩ := Prod.mk.inj taken
      have chain := block_chain (freshNodes_linked dt)
      refine ⟨⟨_, chain, blockEntries_nodup _, fun node member => ?_⟩, equal, fun other given listed => ?_⟩
      · have inside := mem_blockEntries.mp member
        simp only [DeviceTree.Bare, if_pos (And.intro (Nat.le_of_lt inside.1) inside.2)]
        exact ⟨rfl, if_neg (Nat.ne_of_gt inside.1)⟩
      · have inside := mem_blockEntries.mp ((listed_iff chain).mp listed)
        exact absurd given.1 (Nat.not_lt.mpr (Nat.le_of_lt inside.1))

theorem FreeNodesBare.attached (bare : FreeNodesBare ready) (head : ready.freeNodes = some node)
    (attached : Attached ready dt parent node)
    (outside : ∀ other, parent = some other → ¬ Listed (fun node => (ready.nodes node).next) ready.freeNodes other) :
    FreeNodesBare dt ∧ ¬ Listed (fun node => (dt.nodes node).next) dt.freeNodes node ∧ dt.Bare node := by
  obtain ⟨free, chain, once, blank⟩ := bare
  have blank' : ∀ other ∈ free, dt.Bare other := fun other member =>
    ⟨(attached.first other).trans (blank other member).1, (attached.children other fun equal =>
      outside other equal ((listed_iff chain).mpr member)).trans (blank other member).2⟩
  cases free with
  | nil => cases head.symm.trans chain
  | cons first rest =>
    obtain rfl : node = first := Option.some.inj (head.symm.trans chain.1)
    obtain ⟨absent, once⟩ := List.nodup_cons.mp once
    have later : Chain (fun node => (dt.nodes node).next) dt.freeNodes rest := by
      rw [attached.freeNodes]
      exact chain_congr (fun other member => attached.next other fun equal => absent (equal ▸ member)) chain.2
    refine ⟨⟨rest, later, once, fun other member => blank' other (List.mem_cons_of_mem _ member)⟩, ?_, ?_⟩
    · exact fun listed => absent ((listed_iff later).mp listed)
    · exact blank' node List.mem_cons_self

theorem FreeNodesBare.addProperty (bare : FreeNodesBare dt)
    (outside : ¬ Listed (fun node => (dt.nodes node).next) dt.freeNodes node) {name : CString} {length : Word}
    {value : Value} (ran : dtAddProperty dt node name length value = .ok (result, dt')) : FreeNodesBare dt' := by
  have kept := dtAddProperty_keeps ran
  exact bare.congr kept.freeNodes fun other listed => kept.others other fun equal => outside (equal ▸ listed)

theorem bare_labelled (bare : dt.Bare node) : Labelled dt (node, []) where
  chain := bare.1
  contents _ member := absurd member List.not_mem_nil
  last _ ends := absurd ends (by simp)

theorem dtAddProperty_bare (bare : dt.Bare node) {name : CString} {length : Word} {value : Value}
    (ran : dtAddProperty dt node name length value = .ok (result, dt')) : (dt'.nodes node).children = none ∧
      Labelled dt' (node, (result.map fun prop => (prop, ⟨name, length, value⟩)).toList) := by
  have bare' : dt.readyProperty.2.Bare node := by
    rw [DeviceTree.Bare, (readyProperty_only dt).nodes]
    exact bare
  rcases taken : dt.readyProperty with ⟨_ | prop, ready⟩
  · rw [taken] at bare'
    rw [dtAddProperty, taken] at ran
    obtain ⟨rfl, rfl⟩ := Prod.mk.inj (Except.ok.inj ran)
    exact ⟨bare'.2, bare_labelled bare'⟩
  · rw [taken] at bare'
    obtain ⟨_, ran', appended⟩ := dtAddProperty_ready name length value taken (bare_labelled bare') List.not_mem_nil
    obtain ⟨rfl, rfl⟩ := Prod.mk.inj (Except.ok.inj (ran.symm.trans ran'))
    refine ⟨appended.children.trans bare'.2, ⟨?_, congrArg Property.next appended.fresh⟩, ?_, ?_⟩
    · rw [appended.first, bare'.1]
      rfl
    · intro entry member
      obtain rfl := List.mem_singleton.mp member
      rw [appended.fresh]
      rfl
    · intro last ends
      obtain rfl : prop = last := Option.some.inj ends
      exact appended.lastProp

theorem FreeNodesBare.addChild (bare : FreeNodesBare dt)
    (given : dt.NodesRefused ∨ ∀ other, parent = some other → dt.NodeGiven other) {name : Option CString}
    (ran : dtAddChild dt parent name = .ok (result, dt')) :
    FreeNodesBare dt' ∧ ∀ child, result = some child → NewChild dt' child name := by
  by_cases refused : dt.NodesRefused
  · obtain ⟨rfl, rfl⟩ := Prod.mk.inj (Except.ok.inj (ran.symm.trans (dtAddChild_refused refused parent name)))
    exact ⟨bare, fun _ equal => absurd equal (Option.some_ne_none _).symm⟩
  · obtain ⟨node, ready, taken⟩ := DeviceTree.readyNode_some refused
    obtain ⟨bare', head, kept⟩ := bare.readyNode taken
    have outside : ∀ other, parent = some other →
        ¬ Listed (fun node => (ready.nodes node).next) ready.freeNodes other := by
      intro other equal
      exact kept other (given.resolve_left refused other equal)
    have attached : Attached ready (attachNode ready parent node) parent node := by
      cases parent with
      | none => exact attachNode_root ready node
      | some p =>
        refine attachNode_child ready fun equal => outside p rfl ?_
        rw [head, equal]
        exact Listed.here node
    obtain ⟨later, unlisted, blank⟩ := bare'.attached head attached outside
    cases name with
    | none =>
      obtain ⟨rfl, rfl⟩ := Prod.mk.inj (Except.ok.inj (ran.symm.trans (dtAddChild_unnamed parent taken)))
      refine ⟨later, ?_⟩
      rintro child ⟨⟩
      exact ⟨blank.2, [], Or.inl rfl, bare_labelled blank⟩
    | some text =>
      rw [dtAddChild_text parent text taken] at ran
      obtain ⟨⟨prop, named⟩, added, ran⟩ := bind_eq_ok.mp ran
      obtain ⟨rfl, rfl⟩ := Prod.mk.inj (Except.ok.inj ran)
      obtain ⟨childless, held⟩ := dtAddProperty_bare blank added
      refine ⟨later.addProperty unlisted added, ?_⟩
      rintro child ⟨⟩
      refine ⟨childless, _, ?_, held⟩
      cases prop with
      | none => exact Or.inl rfl
      | some prop => exact Or.inr ⟨prop, text, rfl, rfl⟩

theorem dtFreeNode_nodes (dt : DeviceTree) (node other : Nat) : (dtFreeNode dt node).nodes other =
    { dt.nodes other with next := if other = node then dt.freeNodes else (dt.nodes other).next } := by
  simp only [dtFreeNode, DeviceTree.setNode, Function.update_apply]
  by_cases here : other = node
  · rw [if_pos here, if_pos here, here]
  · rw [if_neg here, if_neg here]

theorem dtFreeNode_head (dt : DeviceTree) (node : Nat) : ((dtFreeNode dt node).nodes node).next = dt.freeNodes := by
  rw [dtFreeNode_nodes]
  exact if_pos rfl

theorem dtFreeNode_next (dt : DeviceTree) {node other : Nat} (distinct : other ≠ node) :
    ((dtFreeNode dt node).nodes other).next = (dt.nodes other).next := by
  rw [dtFreeNode_nodes]
  exact if_neg distinct

theorem DeviceTree.NodeGiven.freeNode {other : Nat} (given : dt.NodeGiven other) (freed : dt.NodeGiven node)
    (distinct : other ≠ node) : (dtFreeNode dt node).NodeGiven other := by
  obtain ⟨below, unfree, unrecorded⟩ := given
  refine ⟨below, fun listed => ?_, fun listed => ?_⟩
  · have found : other = node ∨ Listed (fun node => (dt.nodes node).next) dt.freeNodes other := by
      refine listed.invariant (fun q => q = node ∨ Listed (fun node => (dt.nodes node).next) dt.freeNodes q) ?_ ?_
      · exact fun q head => Or.inl (Option.some.inj head).symm
      · intro q q' holds link
        by_cases here : q = node
        · rw [here, dtFreeNode_head] at link
          rw [link]
          exact Or.inr (Listed.here q')
        · rw [dtFreeNode_next dt here] at link
          exact Or.inr ((holds.resolve_left here).next link)
    exact found.elim distinct unfree
  · refine unrecorded (listed.invariant (Listed (fun node => (dt.nodes node).next) dt.allocedNodes) ?_ ?_)
    · intro q head
      rw [show dt.allocedNodes = some q from head]
      exact Listed.here q
    · intro q q' holds link
      have apart : q ≠ node := fun equal => freed.2.2 (equal ▸ holds)
      rw [dtFreeNode_next dt apart] at link
      exact holds.next link

theorem DeviceTree.NodeGiven.freeProperty (given : dt.NodeGiven node) (prop : Nat) :
    (dtFreeProperty dt prop).NodeGiven node := given

theorem FreeNodesBare.freeNode (bare : FreeNodesBare dt) (given : dt.NodeGiven node) (blank : dt.Bare node) :
    FreeNodesBare (dtFreeNode dt node) := by
  obtain ⟨free, chain, once, held⟩ := bare
  have absent : node ∉ free := fun member => given.2.1 ((listed_iff chain).mpr member)
  have later : Chain (fun other => ((dtFreeNode dt node).nodes other).next)
      ((dtFreeNode dt node).nodes node).next free := by
    rw [dtFreeNode_head]
    exact chain_congr (fun other member => dtFreeNode_next dt fun equal => absent (equal ▸ member)) chain
  refine ⟨node :: free, ⟨rfl, later⟩, List.nodup_cons.mpr ⟨absent, once⟩, fun other member => ?_⟩
  rw [DeviceTree.Bare, dtFreeNode_nodes]
  rcases List.mem_cons.mp member with rfl | member
  · exact blank
  · exact held other member

theorem CleanStep.freeNodesBare (step : CleanStep dt dt') (bare : FreeNodesBare dt) : FreeNodesBare dt' := by
  obtain ⟨call, proper, clean, ran⟩ := step
  cases call with
  | addChild parent name =>
    obtain ⟨⟨result, after⟩, added, same⟩ := bind_eq_ok.mp ran
    obtain rfl := Except.ok.inj same
    exact (bare.addChild (clean_parent clean) added).1
  | addProperty node name length value =>
    obtain ⟨⟨result, after⟩, added, same⟩ := bind_eq_ok.mp ran
    obtain rfl := Except.ok.inj same
    by_cases refused : dt.PropertiesRefused
    · rw [dtAddProperty_refused refused] at added
      obtain ⟨_, rfl⟩ := Prod.mk.inj (Except.ok.inj added)
      exact bare
    · exact bare.addProperty (clean.resolve_left refused).2.1 added
  | freeNode node =>
    obtain rfl := Except.ok.inj ran
    exact bare.freeNode proper.1 clean
  | freeProperty prop =>
    obtain rfl := Except.ok.inj ran
    exact bare

theorem dtInitialize_bare (ran : dtInitialize dt = .ok dt') : FreeNodesBare dt' := by
  obtain ⟨⟨root, after⟩, added, same⟩ := bind_eq_ok.mp ran
  obtain rfl := Except.ok.inj same
  have cleared : FreeNodesBare { dt with
      freeNodes := none
      allocedNodes := none
      freeProperties := none
      allocedProperties := none
      info := ⟨0, 0, 0⟩ } :=
    ⟨[], rfl, List.nodup_nil, fun _ member => absurd member List.not_mem_nil⟩
  exact (cleared.addChild (Or.inr fun _ equal => absurd equal (Option.some_ne_none _).symm) added).1

theorem cleanRun_bare (started : dtInitialize dt = .ok ready) (run : Relation.ReflTransGen CleanStep ready dt') :
    FreeNodesBare dt' := by
  induction run with
  | refl => exact dtInitialize_bare started
  | tail _ step ih => exact step.freeNodesBare ih

end New

end GenericBooter
