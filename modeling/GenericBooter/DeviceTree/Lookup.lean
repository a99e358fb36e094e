import GenericBooter.DeviceTree.Encoding
import GenericBooter.DeviceTree.Mutators

namespace GenericBooter

open Linked

def nameOf : List (Nat × Attribute) → Value
  | [] => bytesValue (ascii "(null)").bytes
  | entry :: later => if entry.2.name = ascii "name" then entry.2.value else nameOf later

theorem nameFrom_spec (dt : DeviceTree) {head : Option Nat} {props : List (Nat × Attribute)}
    (chain : Chain (fun prop => (dt.properties prop).next) head (props.map Prod.fst))
    (contents : ∀ entry ∈ props, (dt.properties entry.1).held = entry.2) (fuel : Nat)
    (enough : props.length < fuel) : dt.nameFrom fuel head = .ok (nameOf props) := by
  induction props generalizing head fuel with
  | nil =>
    cases fuel with
    | zero => omega
    | succ fuel =>
      rw [show head = none from chain]
      rfl
  | cons entry props ih =>
    cases fuel with
    | zero => omega
    | succ fuel =>
      have cell := contents entry List.mem_cons_self
      rw [show head = some entry.1 from chain.1, DeviceTree.nameFrom, nameOf,
        show (dt.properties entry.1).name = entry.2.name from congrArg Attribute.name cell,
        show (dt.properties entry.1).value = entry.2.value from congrArg Attribute.value cell]
      split
      · rfl
      · exact ih chain.2 (fun other member => contents other (List.mem_cons_of_mem _ member)) fuel
          (by rw [List.length_cons] at enough; omega)

theorem dtGetName_spec {dt : DeviceTree} {tree : Forest} (held : Represents dt tree) {label : NodeLabel}
    (member : label ∈ cells tree) : dtGetName dt label.1 = .ok (nameOf label.2) := by
  obtain ⟨entries, slots, layout⟩ := held
  have own := layout.labelled label member
  exact nameFrom_spec dt own.chain own.contents _ (Nat.lt_succ_of_le (layout.properties_le member))

abbrev Subtree := NodeLabel × Forest

def Within (sub : Subtree) : Forest → Prop
  | .nil => False
  | .node label kids later => sub = (label, kids) ∨ Within sub kids ∨ Within sub later

theorem Within.below {sub above : Subtree} {tree : Forest} (inside : Within above tree)
    (under : Within sub above.2) : Within sub tree := by
  induction tree with
  | nil => exact inside
  | node label kids later ihKids ihLater =>
    rcases inside with rfl | inside | inside
    · exact Or.inr (Or.inl under)
    · exact Or.inr (Or.inl (ihKids inside))
    · exact Or.inr (Or.inr (ihLater inside))

theorem Within.cells_le {sub : Subtree} {tree : Forest} (inside : Within sub tree) :
    sub.1 ::ₘ cells sub.2 ≤ cells tree := by
  induction tree with
  | nil => exact absurd inside id
  | node label kids later ihKids ihLater =>
    rw [cells]
    rcases inside with rfl | inside | inside
    · exact Multiset.cons_le_cons _ (Multiset.le_add_right _ _)
    · apply (ihKids inside).trans
      exact (Multiset.le_add_right _ _).trans (Multiset.le_cons_self _ _)
    · apply (ihLater inside).trans
      exact (Multiset.le_add_left _ _).trans (Multiset.le_cons_self _ _)

theorem Within.member {sub : Subtree} {tree : Forest} (inside : Within sub tree) : sub.1 ∈ cells tree :=
  Multiset.mem_of_le inside.cells_le (Multiset.mem_cons_self _ _)

theorem Within.live {sub : Subtree} {tree : Forest} (inside : Within sub tree) : sub.1.1 ∈ liveNodes tree :=
  label_live inside.member

theorem Within.shape {sub : Subtree} {tree : Forest} {left right : Nat → Option Nat} {root : Option Nat}
    (inside : Within sub tree) (shape : Shape left right root (tree.map Prod.fst)) :
    Shape left right (left sub.1.1) (sub.2.map Prod.fst) := by
  induction tree generalizing root with
  | nil => exact absurd inside id
  | node label kids later ihKids ihLater =>
    rcases inside with rfl | inside | inside
    · exact shape.2.1
    · exact ihKids inside shape.2.1
    · exact ihLater inside shape.2.2

def firstNamed (name : CString) : Forest → Option Subtree
  | .nil => none
  | .node label kids later =>
    if (nameOf label.2).isString name then some (label, kids) else firstNamed name later

theorem firstNamed_within {name : CString} {row : Forest} {sub : Subtree} (first : firstNamed name row = some sub) :
    Within sub row := by
  induction row with
  | nil => cases first
  | node label kids later _ ih =>
    rw [firstNamed] at first
    split at first
    · exact Or.inl (Option.some.inj first).symm
    · exact Or.inr (Or.inr (ih first))

theorem live_within {tree : Forest} {n : Nat} (live : n ∈ liveNodes tree) : ∃ sub, Within sub tree ∧ sub.1.1 = n := by
  obtain ⟨label, member, rfl⟩ := Multiset.mem_map.mp live
  clear live
  induction tree with
  | nil => exact absurd member (Multiset.notMem_zero label)
  | node top kids later ihKids ihLater =>
    rw [cells, Multiset.mem_cons, Multiset.mem_add] at member
    rcases member with rfl | member | member
    · exact ⟨(label, kids), Or.inl rfl, rfl⟩
    · obtain ⟨sub, inside, same⟩ := ihKids member
      exact ⟨sub, Or.inr (Or.inl inside), same⟩
    · obtain ⟨sub, inside, same⟩ := ihLater member
      exact ⟨sub, Or.inr (Or.inr inside), same⟩

section Children

variable {dt : DeviceTree} {tree : Forest}

theorem findChild_first (shown : Represents dt tree) (name : CString) {head : Option Nat} {row : Forest}
    (shape : Shape (fun node => (dt.nodes node).children) (fun node => (dt.nodes node).next) head
      (row.map Prod.fst))
    (held : ∀ label ∈ cells row, label ∈ cells tree) (fuel : Nat) (enough : row.numNodes < fuel) :
    dt.findChild name fuel head = .ok ((firstNamed name row).map fun sub => sub.1.1) := by
  induction row generalizing head fuel with
  | nil =>
    cases fuel with
    | zero => omega
    | succ fuel =>
      rw [show head = none from shape]
      rfl
  | node label kids later _ ih =>
    simp only [BinaryTree.numNodes] at enough
    cases fuel with
    | zero => omega
    | succ fuel =>
      simp only [cells, Multiset.mem_cons, Multiset.mem_add] at held
      rw [show head = some label.1 from shape.1, DeviceTree.findChild, firstNamed]
      simp only [dtGetName_spec shown (held label (Or.inl rfl)), ok_bind]
      split
      · rfl
      · apply ih shape.2.2 (fun other below => held other (Or.inr (Or.inr below)))
        omega

theorem findChild_within (shown : Represents dt tree) (name : CString) {sub : Subtree} (inside : Within sub tree) :
    dt.findChild name (dt.nodeEnd + 1) (dt.nodes sub.1.1).children =
      .ok ((firstNamed name sub.2).map fun sub => sub.1.1) := by
  obtain ⟨entries, slots, layout⟩ := id shown
  have below : cells sub.2 ≤ cells tree := (Multiset.le_cons_self _ _).trans inside.cells_le
  apply findChild_first shown name (inside.shape layout.shape)
  · exact fun label member => Multiset.mem_of_le below member
  · have few := Multiset.card_le_card below
    rw [card_cells, card_cells] at few
    have := layout.nodes_le
    omega

end Children

theorem copyEntryName_length (i : Nat) (path : List Byte) :
    (copyEntryName i path).1.length + (copyEntryName i path).2.length = path.length := by
  induction path generalizing i with
  | nil => rfl
  | cons c path ih =>
    rw [copyEntryName]
    split
    · have later := ih (i + 1)
      simp only [List.length_cons]
      omega
    · simp

theorem entry_consumes {path : List Byte} (named : (cString (copyEntryName 0 (path.dropWhile (· = 0x2f))).1).chars ≠ []) :
    (copyEntryName 0 (path.dropWhile (· = 0x2f))).2.length < path.length := by
  have total := copyEntryName_length 0 (path.dropWhile (· = 0x2f))
  have skipped := List.length_dropWhile_le (· = 0x2f) path
  have nonempty : (copyEntryName 0 (path.dropWhile (· = 0x2f))).1 ≠ [] := by
    intro empty
    rw [empty] at named
    exact named rfl
  have := List.length_pos_iff.mpr nonempty
  omega

/-- A lookup leaves a tree behind, and what it finds is in that tree. It only stops short when the
    string of a created node cannot be allocated. -/
theorem findNodeFrom_spec (createIfMissing : Bool) {dt : DeviceTree} {tree : Forest}
    (held : Represents dt tree) (fuel : Nat) (path : List Byte) (enough : path.length < fuel)
    (node : Option Nat) (live : ∀ n, node = some n → n ∈ liveNodes tree) :
    findNodeFrom createIfMissing fuel path node dt = .error .null ∨
      ∃ result dt' tree', findNodeFrom createIfMissing fuel path node dt = .ok (result, dt') ∧
        Represents dt' tree' ∧ ∀ n, result = some n → n ∈ liveNodes tree' := by
  induction fuel generalizing dt tree path node with
  | zero => omega
  | succ fuel ih =>
    cases node with
    | none => exact Or.inr ⟨none, dt, tree, rfl, held, fun _ equal => by cases equal⟩
    | some node =>
      have inside := live node rfl
      rw [findNodeFrom]
      by_cases last : (cString (copyEntryName 0 (path.dropWhile (· = 0x2f))).1).chars = []
      · simp only [last, if_true]
        exact Or.inr ⟨some node, dt, tree, rfl, held, live⟩
      · have shorter := entry_consumes last
        obtain ⟨sub, within, rfl⟩ := live_within inside
        simp only [last, if_false, findChild_within held (cString (copyEntryName 0 (path.dropWhile (· = 0x2f))).1) within,
          ok_bind]
        cases first : firstNamed (cString (copyEntryName 0 (path.dropWhile (· = 0x2f))).1) sub.2 with
        | some child =>
          simp only [Option.map_some]
          exact ih held _ (by omega) (some child.1.1) fun n equal =>
            Option.some.inj equal ▸ (within.below (firstNamed_within first)).live
        | none =>
          by_cases create : createIfMissing = true
          · by_cases refused : dt.malloc.call.1 = 0
            · simp only [Option.map_none, create, refused, if_true]
              exact Or.inl trivial
            · simp only [Option.map_none, create, refused, if_true, if_false]
              obtain ⟨result, dt', added, failed, returned, _⟩ := dtAddChild_spec (some sub.1.1)
                (some (cString (copyEntryName 0 (path.dropWhile (· = 0x2f))).1))
                (held.with_malloc dt.malloc.call.2) (show Place (some sub.1.1) tree from inside)
              simp only [added, ok_bind]
              cases result with
              | none =>
                have empty : ∀ n, (none : Option Nat) = some n → n ∈ liveNodes tree := fun _ equal => by cases equal
                have later := ih (failed rfl) (copyEntryName 0 (path.dropWhile (· = 0x2f))).2 (by omega) none empty
                rw [create] at later
                exact later
              | some child =>
                obtain ⟨_, props, _, grown, _⟩ := returned child rfl
                have there : ∀ n, some child = some n →
                    n ∈ liveNodes (hang (some sub.1.1) (.node (child, props) .nil .nil) tree) := by
                  rintro n ⟨⟩
                  obtain ⟨entries, slots, layout⟩ := id held
                  obtain ⟨label, place, found⟩ := Multiset.mem_map.mp inside
                  obtain ⟨rest, _, split⟩ := graft_cells id (.node (child, props) .nil .nil)
                    layout.liveNodes_nodup place found
                  rw [liveNodes, hang, split]
                  simp [cells]
                have later := ih grown (copyEntryName 0 (path.dropWhile (· = 0x2f))).2 (by omega) (some child) there
                rw [create] at later
                exact later
          · simp only [Option.map_none, create]
            exact Or.inr ⟨none, dt, tree, rfl, held, fun _ equal => by cases equal⟩

theorem dtFindNode_spec {dt : DeviceTree} {tree : Forest} (held : Represents dt tree) (path : CString)
    (createIfMissing : Bool) : dtFindNode dt path createIfMissing = .error .null ∨
      ∃ result dt' tree', dtFindNode dt path createIfMissing = .ok (result, dt') ∧
        Represents dt' tree' ∧ ∀ n, result = some n → n ∈ liveNodes tree' := by
  refine findNodeFrom_spec createIfMissing held _ _ (Nat.lt_succ_self _) _ fun n root => ?_
  rw [represents_root held] at root
  cases tree with
  | nil => cases root
  | node label left right => exact Option.some.inj root ▸ label_live (Multiset.mem_cons_self label _)

end GenericBooter
