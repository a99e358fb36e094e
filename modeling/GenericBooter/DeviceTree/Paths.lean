import GenericBooter.DeviceTree.Calls

namespace GenericBooter

open Linked

def reached : List CString → Subtree → Option Subtree
  | [], sub => some sub
  | name :: names, sub => (firstNamed name sub.2).bind (reached names)

def entryNames : Nat → List Byte → List CString
  | 0, _ => []
  | fuel + 1, path =>
    let (entry, path) := copyEntryName 0 (path.dropWhile (· = 0x2f))
    if (cString entry).chars = [] then [] else cString entry :: entryNames fuel path

def pathNames (path : CString) : List CString := entryNames (path.chars.length + 1) path.chars

section Lookup

variable {dt : DeviceTree} {tree : Forest}

theorem findNodeFrom_reached (createIfMissing : Bool) (shown : Represents dt tree) (fuel : Nat) (path : List Byte)
    (enough : path.length < fuel) {sub found : Subtree} (inside : Within sub tree)
    (there : reached (entryNames fuel path) sub = some found) :
    findNodeFrom createIfMissing fuel path (some sub.1.1) dt = .ok (some found.1.1, dt) := by
  induction fuel generalizing path sub with
  | zero => omega
  | succ fuel ih =>
    rw [findNodeFrom]
    rw [entryNames] at there
    by_cases last : (cString (copyEntryName 0 (path.dropWhile (· = 0x2f))).1).chars = []
    · simp only [last, if_true] at there ⊢
      rw [Option.some.inj there]
    · have shorter := entry_consumes last
      simp only [last, if_false] at there ⊢
      obtain ⟨child, first, later⟩ := Option.bind_eq_some_iff.mp there
      simp only [findChild_within shown _ inside, first, ok_bind, Option.map_some]
      apply ih _ (by omega) (inside.below (firstNamed_within first)) later

theorem findNodeFrom_missing (shown : Represents dt tree) (fuel : Nat) (path : List Byte)
    (enough : path.length < fuel) {sub : Subtree} (inside : Within sub tree)
    (missing : reached (entryNames fuel path) sub = none) :
    findNodeFrom false fuel path (some sub.1.1) dt = .ok (none, dt) := by
  induction fuel generalizing path sub with
  | zero => omega
  | succ fuel ih =>
    rw [findNodeFrom]
    rw [entryNames] at missing
    by_cases last : (cString (copyEntryName 0 (path.dropWhile (· = 0x2f))).1).chars = []
    · simp only [last, if_true] at missing
      cases missing
    · have shorter := entry_consumes last
      simp only [last, if_false, reached] at missing ⊢
      rw [findChild_within shown _ inside]
      cases first : firstNamed (cString (copyEntryName 0 (path.dropWhile (· = 0x2f))).1) sub.2 with
      | none => rfl
      | some child =>
        rw [first] at missing
        exact ih _ (by omega) (inside.below (firstNamed_within first)) missing

end Lookup

section Growth

def Subtree.graft (p : Nat) (young : Forest) (sub : Subtree) : Subtree :=
  (sub.1, if sub.1.1 = p then forestAppend young sub.2 else Linked.graft Prod.fst p id young sub.2)

variable {p : Nat} {young : Forest}

theorem Subtree.graft_absent {sub : Subtree} (here : sub.1.1 ≠ p) (below : ∀ label ∈ cells sub.2, label.1 ≠ p) :
    sub.graft p young = sub := by
  rw [Subtree.graft, if_neg here, Linked.graft_absent below]

theorem firstNamed_graft (name : CString) {row : Forest} (once : (liveNodes row).Nodup) :
    firstNamed name (graft Prod.fst p id young row) = (firstNamed name row).map (Subtree.graft p young) := by
  induction row with
  | nil => rfl
  | node label kids later _ ih =>
    rw [liveNodes, cells, Multiset.map_cons, Multiset.nodup_cons, Multiset.map_add, Multiset.nodup_add] at once
    obtain ⟨outside, _, onceLater, _⟩ := once
    by_cases here : label.1 = p
    · rw [graft, if_pos here, id_eq, firstNamed, firstNamed]
      split
      · simp only [Option.map_some, Subtree.graft, here, if_true]
      · cases first : firstNamed name later with
        | none => rfl
        | some sub =>
          have inside := firstNamed_within first
          have absent : ∀ other ∈ sub.1 ::ₘ cells sub.2, other.1 ≠ p := by
            rintro other member rfl
            apply outside
            rw [here]
            exact Multiset.mem_add.mpr (Or.inr (Multiset.mem_map_of_mem _ (Multiset.mem_of_le inside.cells_le member)))
          rw [Option.map_some, Subtree.graft_absent (absent sub.1 (Multiset.mem_cons_self _ _))
            fun other member => absent other (Multiset.mem_cons_of_mem member)]
    · rw [graft, if_neg here, firstNamed, firstNamed, ih onceLater]
      split
      · simp only [Option.map_some, Subtree.graft, here, if_false]
      · rfl

theorem reached_within {names : List CString} {sub here : Subtree} (there : reached names sub = some here) :
    here = sub ∨ Within here sub.2 := by
  induction names generalizing sub with
  | nil => exact Or.inl (Option.some.inj there).symm
  | cons name names ih =>
    obtain ⟨child, first, later⟩ := Option.bind_eq_some_iff.mp there
    have inside := firstNamed_within first
    rcases ih later with rfl | below
    · exact Or.inr inside
    · exact Or.inr (inside.below below)

theorem reached_graft (young : Forest) {names : List CString} {sub here : Subtree}
    (once : ((sub.1 ::ₘ cells sub.2).map Prod.fst).Nodup) (there : reached names sub = some here) :
    reached names (sub.graft here.1.1 young) = some (here.graft here.1.1 young) := by
  induction names generalizing sub with
  | nil => rw [reached, Option.some.inj there]
  | cons name names ih =>
    obtain ⟨child, first, later⟩ := Option.bind_eq_some_iff.mp there
    have inside := firstNamed_within first
    rw [Multiset.map_cons, Multiset.nodup_cons] at once
    have deeper : Within here sub.2 := by
      rcases reached_within later with rfl | below
      · exact inside
      · exact inside.below below
    have other : sub.1.1 ≠ here.1.1 := fun equal => once.1 (equal ▸ deeper.live)
    rw [reached, Subtree.graft, if_neg other, firstNamed_graft name once.2, first]
    apply ih _ later
    exact Multiset.nodup_of_le (Multiset.map_le_map inside.cells_le) once.2

def line : List NodeLabel → Forest
  | [] => .nil
  | label :: made => .node label (line made) .nil

def MadeFor (tree : Forest) : List NodeLabel → List CString → Prop :=
  List.Forall₂ fun label name => label.1 ∉ liveNodes tree ∧
    ∃ prop ∉ liveProperties tree, label.2 = [(prop, nameAttribute name)]

theorem named_isString (prop : Nat) (name : CString) : (nameOf [(prop, nameAttribute name)]).isString name := by
  have held : nameOf [(prop, nameAttribute name)] = bytesValue name.bytes := if_pos rfl
  rw [held, Value.isString, ← name.bytes_length, bytesValue_take]
  exact decide_eq_true rfl

theorem reached_line {tree : Forest} {made : List NodeLabel} {names : List CString} (fresh : MadeFor tree made names)
    (label : NodeLabel) (kids : Forest) : ∃ below,
      reached names (label, forestAppend (line made) kids) = some (made.getLastD label, below) := by
  induction fresh generalizing label kids with
  | nil => exact ⟨kids, rfl⟩
  | @cons top name made names first _ ih =>
    obtain ⟨_, prop, _, named⟩ := first
    obtain ⟨below, ends⟩ := ih top .nil
    rw [forestAppend_nil] at ends
    refine ⟨below, ?_⟩
    rw [List.getLastD_cons, ← ends, reached, line, forestAppend, firstNamed, named, if_pos (named_isString prop name)]
    rfl

/-- `names` lead from `sub` to the node `n` of `tree'`, which is `tree` with a new node for each name
    that leads nowhere, hung in front of the children of the last node they lead to. -/
def Extends (tree tree' : Forest) (sub : Subtree) (names : List CString) (n : Nat) : Prop :=
  ∃ found missing here made, names = found ++ missing ∧ reached found sub = some here ∧
    (∀ name ∈ missing.head?, firstNamed name here.2 = none) ∧ MadeFor tree made missing ∧
    tree' = graft Prod.fst here.1.1 id (line made) tree ∧ n = (made.getLastD here.1).1

theorem MadeFor.weaken {tree tree' : Forest} {made : List NodeLabel} {names : List CString}
    (kept : cells tree ≤ cells tree') (fresh : MadeFor tree' made names) : MadeFor tree made names := by
  obtain ⟨more, split⟩ := Multiset.le_iff_exists_add.mp kept
  apply fresh.imp
  rintro label name ⟨newNode, prop, newProp, named⟩
  rw [liveNodes, split, Multiset.map_add, Multiset.mem_add, not_or] at newNode
  rw [liveProperties, split, Multiset.add_bind, Multiset.mem_add, not_or] at newProp
  exact ⟨newNode.1, prop, newProp.1, named⟩

theorem cells_le_graft {tree : Forest} : cells tree ≤ cells (graft Prod.fst p id young tree) := by
  induction tree with
  | nil => exact le_refl _
  | node label kids later ihKids ihLater =>
    rw [graft]
    split
    · rw [cells, cells, cells_forestAppend, add_assoc]
      exact Multiset.cons_le_cons _ (Multiset.le_add_left _ _)
    · exact Multiset.cons_le_cons _ (add_le_add ihKids ihLater)

theorem Within.append {sub : Subtree} {row : Forest} (inside : Within sub row) (later : Forest) :
    Within sub (forestAppend row later) := by
  induction row with
  | nil => exact absurd inside id
  | node label kids younger _ ih =>
    rcases inside with same | inside | inside
    · exact Or.inl same
    · exact Or.inr (Or.inl inside)
    · exact Or.inr (Or.inr (ih inside))

theorem within_graft {tree : Forest} (live : p ∈ liveNodes tree) {sub : Subtree} (inside : Within sub young) :
    Within sub (graft Prod.fst p id young tree) := by
  induction tree with
  | nil => exact absurd live (Multiset.notMem_zero _)
  | node label kids later ihKids ihLater =>
    rw [graft]
    split
    · exact Or.inr (Or.inl (inside.append kids))
    · rename_i other
      rw [liveNodes, cells, Multiset.map_cons, Multiset.map_add, Multiset.mem_cons, Multiset.mem_add] at live
      rcases live.resolve_left (Ne.symm other) with live | live
      · exact Or.inr (Or.inl (ihKids live))
      · exact Or.inr (Or.inr (ihLater live))

theorem hung_fresh {dt dt' : DeviceTree} {tree : Forest} {parent child prop : Nat} {held : Attribute}
    (shown : Represents dt tree) (live : parent ∈ liveNodes tree)
    (grown : Represents dt' (hang (some parent) (.node (child, [(prop, held)]) .nil .nil) tree)) :
    prop ∉ liveProperties tree := by
  have once := grown.liveProperties_nodup
  rw [liveProperties, hung_cells shown live, Multiset.cons_bind] at once
  exact (Multiset.nodup_cons.mp once).1

theorem findNodeFrom_grows {dt : DeviceTree} {tree : Forest} (shown : Represents dt tree) (memory : dt.malloc.Succeeds)
    (fuel : Nat) (path : List Byte) (enough : path.length < fuel) {sub : Subtree} (inside : Within sub tree) :
    ∃ n dt' tree', findNodeFrom true fuel path (some sub.1.1) dt = .ok (some n, dt') ∧ Represents dt' tree' ∧
      Extends tree tree' sub (entryNames fuel path) n := by
  induction fuel generalizing dt tree path sub with
  | zero => omega
  | succ fuel ih =>
    rw [findNodeFrom, entryNames]
    by_cases last : (cString (copyEntryName 0 (path.dropWhile (· = 0x2f))).1).chars = []
    · simp only [last, if_true]
      refine ⟨sub.1.1, dt, tree, rfl, shown, [], [], sub, [], rfl, rfl, ?_, .nil, (graft_id _ _).symm, rfl⟩
      exact fun name member => by cases member
    have shorter := entry_consumes last
    simp only [last, if_false, findChild_within shown _ inside, ok_bind]
    generalize cString (copyEntryName 0 (path.dropWhile (· = 0x2f))).1 = name
    generalize (copyEntryName 0 (path.dropWhile (· = 0x2f))).2 = rest at shorter ⊢
    cases first : firstNamed name sub.2 with
    | some child =>
      obtain ⟨n, dt', tree', ran, shown', found, missing, here, made, split, there, others⟩ :=
        ih shown memory rest (by omega) (inside.below (firstNamed_within first))
      refine ⟨n, dt', tree', ran, shown', name :: found, missing, here, made, ?_, ?_, others⟩
      · rw [split, List.cons_append]
      · rw [reached, first]
        exact there
    | none =>
      simp only [Option.map_none, memory.answer, if_true, if_false]
      obtain ⟨child, prop, dt₁, added, newChild, memory₁, grown⟩ :=
        dtAddChild_named name (shown.with_malloc dt.malloc.call.2) inside.live memory.later
      have newProp := hung_fresh shown inside.live grown
      have below : Within ((child, [(prop, nameAttribute name)]), .nil)
          (hang (some sub.1.1) (.node (child, [(prop, nameAttribute name)]) .nil .nil) tree) :=
        within_graft inside.live (Or.inl rfl)
      obtain ⟨n, dt', tree', ran, shown', found, missing, here, made, split, there, _, fresh, rfl, ends⟩ :=
        ih grown memory₁ rest (by omega) below
      -- nothing is found below a node that was just made
      cases found with
      | cons other found => cases there
      | nil =>
        obtain rfl := Option.some.inj there
        refine ⟨n, dt', _, ?_, shown', [], name :: missing, sub, (child, [(prop, nameAttribute name)]) :: made,
          ?_, rfl, ?_, ?_, ?_, ?_⟩
        · simp only [added, ok_bind]
          exact ran
        · rw [split, List.nil_append, List.nil_append]
        · rintro other ⟨⟩
          exact first
        · exact .cons ⟨newChild, prop, newProp, rfl⟩ (fresh.weaken cells_le_graft)
        · apply (graft_fresh rfl ?_ ?_ ?_).trans
          · rw [forestAppend_nil, line, id_eq]
          · intro label member equal
            have equal' : label.1 = child := equal
            exact newChild (equal' ▸ label_live member)
          · intro label equal same
            have equal' : sub.1.1 = child := equal.symm.trans same
            exact newChild (equal' ▸ inside.live)
          · exact fun label member => absurd member (Multiset.notMem_zero _)
        · rw [ends, List.getLastD_cons]

theorem reached_append (found missing : List CString) (sub : Subtree) :
    reached (found ++ missing) sub = (reached found sub).bind (reached missing) := by
  induction found generalizing sub with
  | nil => rfl
  | cons name found ih =>
    rw [List.cons_append, reached, reached, Option.bind_assoc]
    congr
    exact funext ih

theorem Extends.leads {tree' kids : Forest} {root : NodeLabel} {names : List CString} {n : Nat}
    (extended : Extends (.node root kids .nil) tree' (root, kids) names n)
    (once : (liveNodes (.node root kids .nil)).Nodup) : ∃ kids' label below,
      tree' = .node root kids' .nil ∧ reached names (root, kids') = some (label, below) ∧ label.1 = n := by
  obtain ⟨found, missing, here, made, rfl, there, _, fresh, rfl, rfl⟩ := extended
  rw [liveNodes, cells, cells, add_zero] at once
  have moved := reached_graft (line made) once there
  obtain ⟨below, ends⟩ := reached_line fresh here.1 here.2
  refine ⟨(Subtree.graft here.1.1 (line made) (root, kids)).2, made.getLastD here.1, below, ?_, ?_, rfl⟩
  · rw [graft, Subtree.graft]
    split
    · rfl
    · rfl
  · rw [reached_append]
    apply (congrArg (Option.bind · (reached missing)) moved).trans
    rw [Subtree.graft, if_pos rfl]
    exact ends

/-- Once `DT__FindNode` has returned a node with creation on, that node is found again with nothing added, and what
    was added is a line of new nodes for the names that led nowhere. -/
theorem findNode_again {dt dt' : DeviceTree} {tree : Forest} {path : CString} {n : Nat} (shown : Represents dt tree)
    (memory : dt.malloc.Succeeds) (ran : dtFindNode dt path true = .ok (some n, dt')) :
    (∃ root kids tree', tree = .node root kids .nil ∧ Represents dt' tree' ∧
      Extends tree tree' (root, kids) (pathNames path) n) ∧
    dtFindNode dt' path false = .ok (some n, dt') ∧ dtFindNode dt' path true = .ok (some n, dt') ∧
    ∀ m after, dtFindNode dt path false = .ok (some m, after) → dt' = dt := by
  have nonempty : tree ≠ .nil := by
    rintro rfl
    rw [dtFindNode, represents_root shown] at ran
    cases ran
  obtain ⟨root, kids, rfl⟩ := shown.lone_root nonempty
  have rooted : dt.rootNode = some root.1 := represents_root shown
  have top : Within (root, kids) (.node root kids .nil) := Or.inl rfl
  have enough : path.chars.length < path.chars.length + 1 := Nat.lt_succ_self _
  obtain ⟨n', after', tree', grew, shown', extended⟩ := findNodeFrom_grows shown memory _ path.chars enough top
  simp only [dtFindNode, rooted] at ran ⊢
  obtain ⟨same, rfl⟩ := Prod.mk.inj (Except.ok.inj (ran.symm.trans grew))
  obtain rfl := Option.some.inj same
  refine ⟨⟨root, kids, tree', rfl, shown', extended⟩, ?_⟩
  obtain ⟨kids', label, below, rfl, again, rfl⟩ := extended.leads shown.liveNodes_nodup
  have inside : Within (root, kids') (.node root kids' .nil) := Or.inl rfl
  rw [show dt'.rootNode = some root.1 from represents_root shown']
  refine ⟨?_, ?_, fun m after found => ?_⟩
  · exact findNodeFrom_reached false shown' _ _ enough inside again
  · exact findNodeFrom_reached true shown' _ _ enough inside again
  · cases there : reached (pathNames path) (root, kids) with
    | none => cases found.symm.trans (findNodeFrom_missing shown _ _ enough top there)
    | some sub =>
      have unchanged := findNodeFrom_reached true shown _ _ enough top there
      exact (Prod.mk.inj (Except.ok.inj (ran.symm.trans unchanged))).2

end Growth

def withCore : DeviceTree := okChild (dtFindNode rootOnly (ascii "/cpus//cpu0") true)

theorem withCore_again : dtFindNode withCore (ascii "/cpus//cpu0") false = .ok (some 253, withCore) ∧
    dtFindNode withCore (ascii "/cpus//cpu0") true = .ok (some 253, withCore) := by
  have reachable : DtReachable ⟨fun _ => 0x1000, 0⟩ rootOnly := Relation.ReflTransGen.single (DtStep.start rfl)
  obtain ⟨tree, shown⟩ := reachable.represents
  have memory : rootOnly.malloc.Succeeds := fun _ _ => show (0x1000 : Word) ≠ 0 by decide
  have ran : dtFindNode rootOnly (ascii "/cpus//cpu0") true = .ok (some 253, withCore) := rfl
  obtain ⟨_, again, again', _⟩ := findNode_again shown memory ran
  exact ⟨again, again'⟩

end GenericBooter
