import GenericBooter.DeviceTree.Paths

namespace GenericBooter

open Linked

def components (path : List Byte) : List (List Byte) := (path.splitOn 0x2f).filter (· ≠ [])

def pieceLength : Nat := kDTMaxEntryNameLength - 1

/-- A component as `nameBuf` gets to hold it: a piece of 30 bytes is taken off as long as more is left. -/
def entryPieces (name : List Byte) : List (List Byte) :=
  if name.length ≤ pieceLength then [name] else name.take pieceLength :: entryPieces (name.drop pieceLength)
termination_by name.length
decreasing_by
  rw [List.length_drop]
  have : 0 < pieceLength := by decide
  omega

def componentNames (path : CString) : List CString := (components path.chars).map cString

def pieceNames (path : CString) : List CString := ((components path.chars).flatMap entryPieces).map cString

section Pieces

theorem components_slash (path : List Byte) : components (0x2f :: path) = components path := by
  rw [components, List.splitOn_cons_eq_if_modifyHead, if_pos (by decide), List.filter_cons_of_neg (by decide)]
  rfl

theorem components_skip (path : List Byte) : components (path.dropWhile (· = 0x2f)) = components path := by
  induction path with
  | nil => rfl
  | cons c path ih =>
    by_cases slash : c = 0x2f
    · rw [List.dropWhile_cons, if_pos (decide_eq_true slash), ih, slash, components_slash]
    · rw [List.dropWhile_cons, if_neg (by simpa using slash)]

theorem components_name {name rest : List Byte} (nonempty : name ≠ []) (plain : 0x2f ∉ name)
    (ends : ∀ c ∈ rest.head?, c = 0x2f) : components (name ++ rest) = name :: components rest := by
  cases rest with
  | nil =>
    rw [List.append_nil, components, List.splitOn_eq_singleton plain]
    exact List.filter_cons_of_pos (decide_eq_true nonempty)
  | cons c rest =>
    obtain rfl : c = 0x2f := ends c rfl
    rw [components_slash, components, List.splitOn_append_cons_of_beq name rest (by decide),
      List.splitOn_eq_singleton plain]
    exact List.filter_cons_of_pos (decide_eq_true nonempty)

theorem copyEntryName_pieces {name rest : List Byte} (plain : 0x2f ∉ name) (ends : ∀ c ∈ rest.head?, c = 0x2f)
    (i : Nat) : copyEntryName i (name ++ rest) = (name.take (pieceLength - i), name.drop (pieceLength - i) ++ rest) := by
  induction name generalizing i with
  | nil =>
    cases rest with
    | nil => rw [List.nil_append, copyEntryName, List.take_nil, List.drop_nil, List.nil_append]
    | cons c rest =>
      obtain rfl : c = 0x2f := ends c rfl
      rw [List.nil_append, copyEntryName, if_neg (by simp), List.take_nil, List.drop_nil, List.nil_append]
  | cons c name ih =>
    rw [List.mem_cons, not_or] at plain
    rw [List.cons_append, copyEntryName]
    by_cases room : i + 1 < kDTMaxEntryNameLength
    · have more : pieceLength - i = pieceLength - (i + 1) + 1 := by
        rw [pieceLength]
        omega
      rw [if_pos ⟨room, Ne.symm plain.1⟩, ih plain.2, more, List.take_succ_cons, List.drop_succ_cons]
    · have full : pieceLength - i = 0 := by
        rw [pieceLength]
        omega
      rw [if_neg fun both => room both.1, full]
      rfl

theorem cString_chars {chars : List Byte} (noNul : 0 ∉ chars) : (cString chars).chars = chars := by
  apply List.takeWhile_eq_self_iff.mpr
  exact fun c member => decide_eq_true fun zero => noNul (zero ▸ member)

theorem skipped_split (path : List Byte) : ∃ name rest, path.dropWhile (· = 0x2f) = name ++ rest ∧ 0x2f ∉ name ∧
    (∀ c ∈ rest.head?, c = 0x2f) ∧ (name = [] → rest = []) := by
  refine ⟨(path.dropWhile (· = 0x2f)).takeWhile (· ≠ 0x2f), (path.dropWhile (· = 0x2f)).dropWhile (· ≠ 0x2f),
    List.takeWhile_append_dropWhile.symm, fun member => ?_, fun c first => ?_, fun none => ?_⟩
  · have other := List.mem_takeWhile_imp member
    simp at other
  · have slash := List.head?_dropWhile_not (· ≠ 0x2f) (path.dropWhile (· = 0x2f))
    rw [Option.mem_def.mp first] at slash
    simpa using slash
  · have slash := List.head?_dropWhile_not (· = 0x2f) path
    cases skipped : path.dropWhile (· = 0x2f) with
    | nil => rfl
    | cons c later =>
      rw [skipped] at slash none
      simp_all

theorem entryNames_piece {name rest path : List Byte} (fuel : Nat) (split : path.dropWhile (· = 0x2f) = name ++ rest)
    (plain : 0x2f ∉ name) (ends : ∀ c ∈ rest.head?, c = 0x2f) (noNul : 0 ∉ name ++ rest) (nonempty : name ≠ []) :
    entryNames (fuel + 1) path =
      cString (name.take pieceLength) :: entryNames fuel (name.drop pieceLength ++ rest) := by
  have taken : (cString (name.take pieceLength)).chars = name.take pieceLength :=
    cString_chars fun member => noNul (List.mem_append_left rest (List.mem_of_mem_take member))
  have more : name.take pieceLength ≠ [] := by
    rw [Ne, List.take_eq_nil_iff, not_or]
    exact ⟨by decide, nonempty⟩
  rw [entryNames, split, copyEntryName_pieces plain ends, Nat.sub_zero]
  simp only [taken, more, if_false]

theorem entryNames_pieces (fuel : Nat) (path : List Byte) (noNul : 0 ∉ path) (enough : path.length < fuel) :
    entryNames fuel path = ((components path).flatMap entryPieces).map cString := by
  induction fuel generalizing path with
  | zero => omega
  | succ fuel ih =>
    obtain ⟨name, rest, split, plain, ends, first⟩ := skipped_split path
    have shorter : name.length + rest.length ≤ path.length := by
      have skipped := List.length_dropWhile_le (· = 0x2f) path
      rw [split, List.length_append] at skipped
      exact skipped
    have noNul' : 0 ∉ name ++ rest := by
      rw [← split]
      exact fun member => noNul ((List.dropWhile_sublist _).subset member)
    by_cases empty : name = []
    · obtain rfl := first empty
      rw [← components_skip path, entryNames, split, empty]
      rfl
    · have positive := List.length_pos_iff.mpr empty
      rw [← components_skip path, entryNames_piece fuel split plain ends noNul' empty, split,
        components_name empty plain ends, List.flatMap_cons, List.map_append, entryPieces]
      by_cases whole : name.length ≤ pieceLength
      · rw [if_pos whole, List.take_of_length_le whole, List.drop_of_length_le whole, List.nil_append,
          ih rest (fun member => noNul' (List.mem_append_right name member)) (by omega)]
        rfl
      · have left : name.drop pieceLength ≠ [] := by
          rw [Ne, List.drop_eq_nil_iff]
          exact whole
        have plain' : 0x2f ∉ name.drop pieceLength := fun member => plain (List.mem_of_mem_drop member)
        have noNul'' : 0 ∉ name.drop pieceLength ++ rest := by
          rw [List.mem_append, not_or] at noNul' ⊢
          exact ⟨fun member => noNul'.1 (List.mem_of_mem_drop member), noNul'.2⟩
        have shorter' : (name.drop pieceLength ++ rest).length < fuel := by
          rw [List.length_append, List.length_drop]
          have : 0 < pieceLength := by decide
          omega
        rw [if_neg whole, ih _ noNul'' shorter', components_name left plain' ends, List.flatMap_cons, List.map_append]
        rfl

theorem pathNames_pieces (path : CString) : pathNames path = pieceNames path :=
  entryNames_pieces _ path.chars path.noNul (Nat.lt_succ_self _)

end Pieces

section Depth

theorem Within.apart {child child' : Subtree} {row : Forest} {name name' : CString} (once : (liveNodes row).Nodup)
    (first : firstNamed name row = some child) (first' : firstNamed name' row = some child') {n : Nat}
    (inside : n ∈ (child.1 ::ₘ cells child.2).map Prod.fst) (inside' : n ∈ (child'.1 ::ₘ cells child'.2).map Prod.fst) :
    child = child' := by
  induction row with
  | nil => cases first
  | node label kids later _ ih =>
    rw [liveNodes, cells, ← Multiset.cons_add, Multiset.map_add, Multiset.nodup_add] at once
    obtain ⟨_, onceLater, apart⟩ := once
    have behind {sub : Subtree} (within : Within sub later) (member : n ∈ (sub.1 ::ₘ cells sub.2).map Prod.fst) :
        n ∉ (label ::ₘ cells kids).map Prod.fst := fun shared =>
      Multiset.disjoint_left.mp apart shared (Multiset.mem_of_le (Multiset.map_le_map within.cells_le) member)
    rw [firstNamed] at first first'
    split at first
    · obtain rfl := Option.some.inj first
      split at first'
      · exact Option.some.inj first'
      · exact absurd inside (behind (firstNamed_within first') inside')
    · split at first'
      · obtain rfl := Option.some.inj first'
        exact absurd inside' (behind (firstNamed_within first) inside)
      · exact ih onceLater first first'

theorem reached_member {names : List CString} {sub here : Subtree} (there : reached names sub = some here) :
    here.1.1 ∈ (sub.1 ::ₘ cells sub.2).map Prod.fst := by
  rw [Multiset.map_cons, Multiset.mem_cons]
  rcases reached_within there with rfl | within
  · exact Or.inl rfl
  · exact Or.inr within.live

theorem reached_depth {names names' : List CString} {sub here here' : Subtree}
    (once : ((sub.1 ::ₘ cells sub.2).map Prod.fst).Nodup) (there : reached names sub = some here)
    (there' : reached names' sub = some here') (same : here.1.1 = here'.1.1) : names.length = names'.length := by
  induction names generalizing sub names' with
  | nil =>
    obtain rfl := Option.some.inj there
    cases names' with
    | nil => rfl
    | cons name' names' =>
      obtain ⟨child, first, later⟩ := Option.bind_eq_some_iff.mp there'
      rw [Multiset.map_cons, Multiset.nodup_cons] at once
      have below := Multiset.mem_of_le (Multiset.map_le_map (firstNamed_within first).cells_le) (reached_member later)
      exact absurd (same ▸ below) once.1
  | cons name names ih =>
    obtain ⟨child, first, later⟩ := Option.bind_eq_some_iff.mp there
    rw [Multiset.map_cons, Multiset.nodup_cons] at once
    have inside := (firstNamed_within first).cells_le
    cases names' with
    | nil =>
      obtain rfl := Option.some.inj there'
      have below := Multiset.mem_of_le (Multiset.map_le_map inside) (reached_member later)
      exact absurd (same ▸ below) once.1
    | cons name' names' =>
      obtain ⟨child', first', later'⟩ := Option.bind_eq_some_iff.mp there'
      obtain rfl := Within.apart once.2 first first' (reached_member later) (same ▸ reached_member later')
      have onceChild := Multiset.nodup_of_le (Multiset.map_le_map inside) once.2
      rw [List.length_cons, List.length_cons, ih onceChild later later']

end Depth

section Whole

def leadsTo (names : List CString) : Forest → Option Nat
  | .nil => none
  | .node root kids _ => (reached names (root, kids)).map fun sub => sub.1.1

def FindsWhole (dt : DeviceTree) (tree : Forest) (path : CString) : Prop :=
  dtFindNode dt path false = .ok (leadsTo (componentNames path) tree, dt)

variable {dt : DeviceTree} {tree : Forest} {path : CString}

theorem dtFindNode_pieces (shown : Represents dt tree) (path : CString) :
    dtFindNode dt path false = .ok (leadsTo (pieceNames path) tree, dt) := by
  rw [dtFindNode, represents_root shown]
  cases tree with
  | nil => rfl
  | node root kids later =>
    have top : Within (root, kids) (.node root kids later) := Or.inl rfl
    have enough : path.chars.length < path.chars.length + 1 := Nat.lt_succ_self _
    rw [leadsTo, ← pathNames_pieces]
    cases there : reached (pathNames path) (root, kids) with
    | none => exact findNodeFrom_missing shown _ _ enough top there
    | some sub => exact findNodeFrom_reached false shown _ _ enough top there

theorem entryPieces_positive (name : List Byte) : 1 ≤ (entryPieces name).length := by
  rw [entryPieces]
  split
  · exact Nat.le_refl 1
  · exact Nat.le_add_left 1 _

theorem entryPieces_cut {name : List Byte} (long : pieceLength < name.length) : 2 ≤ (entryPieces name).length := by
  rw [entryPieces, if_neg (Nat.not_le.mpr long), List.length_cons]
  exact Nat.succ_le_succ (entryPieces_positive _)

theorem length_flatMap_pieces (names : List (List Byte)) : names.length ≤ (names.flatMap entryPieces).length ∧
    ((∃ name ∈ names, pieceLength < name.length) → names.length < (names.flatMap entryPieces).length) := by
  induction names with
  | nil =>
    refine ⟨Nat.le_refl 0, ?_⟩
    rintro ⟨_, member, _⟩
    exact absurd member List.not_mem_nil
  | cons name names ih =>
    rw [List.flatMap_cons, List.length_append, List.length_cons]
    have here := entryPieces_positive name
    refine ⟨by omega, ?_⟩
    rintro ⟨other, member, long⟩
    rcases List.mem_cons.mp member with rfl | member
    · have := entryPieces_cut long
      omega
    · have := ih.2 ⟨other, member, long⟩
      omega

theorem flatMap_pieces_short {names : List (List Byte)} (short : ∀ name ∈ names, name.length ≤ pieceLength) :
    names.flatMap entryPieces = names := by
  have single : ∀ name ∈ names, entryPieces name = [name] := by
    intro name member
    rw [entryPieces, if_pos (short name member)]
  rw [List.flatMap_congr single]
  exact List.flatMap_singleton' names

theorem leadsTo_length (shown : Represents dt tree) {names names' : List CString} {n : Nat}
    (there : leadsTo names tree = some n) (there' : leadsTo names' tree = some n) : names.length = names'.length := by
  have nonempty : tree ≠ .nil := by
    rintro rfl
    cases there
  obtain ⟨root, kids, rfl⟩ := shown.lone_root nonempty
  have once := shown.liveNodes_nodup
  rw [liveNodes, cells, cells, add_zero] at once
  obtain ⟨sub, reach, rfl⟩ := Option.map_eq_some_iff.mp there
  obtain ⟨sub', reach', same⟩ := Option.map_eq_some_iff.mp there'
  exact reached_depth once reach reach' same.symm

/-- With components of at most 31 bytes a lookup takes each for one name exactly when none of them has 31 bytes, or
    the tree holds nothing at the path, neither with its components whole nor with those of 31 bytes cut in two. -/
theorem dtFindNode_whole_iff (shown : Represents dt tree)
    (short : ∀ name ∈ components path.chars, name.length ≤ kDTMaxEntryNameLength) :
    FindsWhole dt tree path ↔ (∀ name ∈ components path.chars, name.length ≠ kDTMaxEntryNameLength) ∨
      (leadsTo (componentNames path) tree = none ∧ leadsTo (pieceNames path) tree = none) := by
  rw [FindsWhole, dtFindNode_pieces shown path]
  constructor
  · intro found
    obtain ⟨same, _⟩ := Prod.mk.inj (Except.ok.inj found)
    by_contra failing
    obtain ⟨cut, there⟩ := not_or.mp failing
    simp only [not_forall, not_not] at cut
    obtain ⟨name, member, full⟩ := cut
    cases whole : leadsTo (componentNames path) tree with
    | none => exact there ⟨whole, same.trans whole⟩
    | some n =>
      have level := leadsTo_length shown whole (same.trans whole)
      have long : pieceLength < name.length := full ▸ Nat.lt_succ_self pieceLength
      have deeper := (length_flatMap_pieces (components path.chars)).2 ⟨name, member, long⟩
      rw [componentNames, pieceNames, List.length_map, List.length_map] at level
      omega
  · rintro (none | ⟨whole, cut⟩)
    · have within : ∀ name ∈ components path.chars, name.length ≤ pieceLength := by
        intro name member
        have below := lt_of_le_of_ne (short name member) (none name member)
        exact Nat.le_of_lt_succ below
      rw [pieceNames, flatMap_pieces_short within]
      rfl
    · rw [whole, cut]

theorem withCore_whole : ∃ tree, Represents withCore tree ∧ FindsWhole withCore tree (ascii "/cpus//cpu0") := by
  have reachable : DtReachable ⟨fun _ => 0x1000, 0⟩ withCore :=
    (Relation.ReflTransGen.single (DtStep.start rfl)).tail
      (show DtStep rootOnly withCore from DtStep.findNode (show dtFindNode rootOnly (ascii "/cpus//cpu0") true =
        .ok (some 253, withCore) from rfl))
  obtain ⟨tree, shown⟩ := reachable.represents
  have short : ∀ name ∈ components (ascii "/cpus//cpu0").chars, name.length < kDTMaxEntryNameLength := by decide
  refine ⟨tree, shown, (dtFindNode_whole_iff shown fun name member => (short name member).le).mpr (Or.inl ?_)⟩
  exact fun name member => (short name member).ne

def longestName : CString := ⟨List.replicate kDTMaxEntryNameLength 0x61, by decide⟩

def withLongest : DeviceTree := okChild (dtAddChild rootOnly (some 255) (some longestName))

theorem longest_missed : ¬ ∀ dt tree path, Represents dt tree →
    (∀ name ∈ components path.chars, name.length ≤ kDTMaxEntryNameLength) → FindsWhole dt tree path := by
  intro finds
  have started : dtInitialize (DeviceTree.bss ⟨fun _ => 0x1000, 0⟩) = .ok rootOnly := rfl
  have root : Built rootOnly (.node (255, [(255, nameAttribute (ascii "/"))]) .nil .nil) :=
    Built.start started (show rootOnly.rootNode = some 255 from rfl)
  have hung : dtAddChild rootOnly (some 255) (some longestName) = .ok (some 254, withLongest) := rfl
  have child : Built withLongest (.node (255, [(255, nameAttribute (ascii "/"))])
      (.node (254, [(254, nameAttribute longestName)]) .nil .nil) .nil) :=
    Built.addChild root (by simp [liveNodes, cells]) hung
  have found := finds _ _ longestName child.represents.1 (by decide)
  have missed : dtFindNode withLongest longestName false = .ok (none, withLongest) := rfl
  have there : leadsTo (componentNames longestName) (.node (255, [(255, nameAttribute (ascii "/"))])
      (.node (254, [(254, nameAttribute longestName)]) .nil .nil) .nil) = some 254 := by decide
  rw [FindsWhole, missed, there] at found
  cases (Prod.mk.inj (Except.ok.inj found)).1

end Whole

end GenericBooter
