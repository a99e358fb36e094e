import Mathlib.Algebra.BigOperators.Group.Multiset.Basic
import Mathlib.Data.Multiset.Bind
import Mathlib.Data.Multiset.Range
import Mathlib.Data.Tree.Basic

namespace Linked

variable {ι α β : Type*}

def Chain (next : ι → Option ι) : Option ι → List ι → Prop
  | head, [] => head = none
  | head, p :: rest => head = some p ∧ Chain next (next p) rest

theorem chain_congr {next next' : ι → Option ι} {head : Option ι} {cells : List ι}
    (same : ∀ p ∈ cells, next' p = next p) (chain : Chain next head cells) :
    Chain next' head cells := by
  induction cells generalizing head with
  | nil => exact chain
  | cons p rest ih =>
    refine ⟨chain.1, ?_⟩
    rw [same p List.mem_cons_self]
    exact ih (fun q member => same q (List.mem_cons_of_mem p member)) chain.2

theorem chain_unique {next : ι → Option ι} {head : Option ι} {cells cells' : List ι}
    (chain : Chain next head cells) (chain' : Chain next head cells') : cells = cells' := by
  induction cells generalizing head cells' with
  | nil =>
    cases cells' with
    | nil => rfl
    | cons q rest => exact absurd (chain.symm.trans chain'.1) (Option.some_ne_none q).symm
  | cons p rest ih =>
    cases cells' with
    | nil => exact absurd (chain'.symm.trans chain.1) (Option.some_ne_none p).symm
    | cons q rest' =>
      obtain rfl : p = q := Option.some.inj (chain.1.symm.trans chain'.1)
      rw [ih chain.2 chain'.2]

theorem chain_concat {next next' : ι → Option ι} {head : Option ι} {cells : List ι} {last p : ι}
    (chain : Chain next head cells) (nodup : cells.Nodup) (ends : cells.getLast? = some last)
    (linked : next' last = some p) (stop : next' p = none)
    (same : ∀ q ∈ cells, q ≠ last → next' q = next q) : Chain next' head (cells ++ [p]) := by
  induction cells generalizing head with
  | nil => cases ends
  | cons q rest ih =>
    refine ⟨chain.1, ?_⟩
    rw [List.nodup_cons] at nodup
    cases rest with
    | nil =>
      obtain rfl : q = last := Option.some.inj ends
      exact ⟨linked, stop⟩
    | cons q' rest =>
      have ends' : (q' :: rest).getLast? = some last := ends
      have other : q ≠ last := fun equal =>
        nodup.1 (equal ▸ List.mem_of_getLast? ends')
      rw [same q List.mem_cons_self other]
      exact ih chain.2 nodup.2 ends' fun r member => same r (List.mem_cons_of_mem q member)

theorem chain_down (next : ℕ → Option ℕ) (base count : ℕ)
    (linked : ∀ i < count, next (base + 1 + i) = if i = 0 then none else some (base + i)) :
    Chain next (if count = 0 then none else some (base + count))
      ((List.range count).map (base + 1 + ·)).reverse := by
  induction count with
  | zero => exact rfl
  | succ count ih =>
    rw [List.range_succ, List.map_append, List.reverse_append]
    have top : base + (count + 1) = base + 1 + count := by omega
    refine ⟨by rw [if_neg (Nat.succ_ne_zero count), top], ?_⟩
    rw [linked count (Nat.lt_succ_self count)]
    exact ih fun i bound => linked i (Nat.lt_succ_of_lt bound)

theorem chain_up (next : ℕ → Option ℕ) (base count : ℕ)
    (linked : ∀ i < count, next (base + i) = if i + 1 = count then none else some (base + i + 1)) :
    Chain next (if count = 0 then none else some base) ((List.range count).map (base + ·)) := by
  induction count generalizing base with
  | zero => exact rfl
  | succ count ih =>
    rw [List.range_succ_eq_map, List.map_cons, List.map_map]
    refine ⟨if_neg (Nat.succ_ne_zero count), ?_⟩
    have later := ih (base + 1) fun i bound => by
      have next_eq := linked (i + 1) (Nat.succ_lt_succ bound)
      rw [show base + 1 + i = base + (i + 1) by omega, next_eq]
      simp only [Nat.add_right_cancel_iff]
    have first : next base = if count = 0 then none else some (base + 1) := by
      have link := linked 0 (Nat.succ_pos count)
      simpa only [Nat.add_zero, Nat.zero_add, Nat.right_eq_add] using link
    have shifted : (base + ·) ∘ Nat.succ = (base + 1 + ·) := by
      funext i
      exact (Nat.succ_add_eq_add_succ base i).symm
    rw [Nat.add_zero, first, shifted]
    exact later

inductive Listed (next : ι → Option ι) : Option ι → ι → Prop where
  | here (p : ι) : Listed next (some p) p
  | later {p q : ι} (behind : Listed next (next p) q) : Listed next (some p) q

theorem listed_iff {next : ι → Option ι} {head : Option ι} {cells : List ι} {p : ι} (chain : Chain next head cells) :
    Listed next head p ↔ p ∈ cells := by
  constructor
  · intro listed
    induction listed generalizing cells with
    | here p =>
      cases cells with
      | nil => cases chain
      | cons q rest =>
        obtain rfl : p = q := Option.some.inj chain.1
        exact List.mem_cons_self
    | later behind ih =>
      cases cells with
      | nil => cases chain
      | cons q rest =>
        cases chain.1
        exact List.mem_cons_of_mem _ (ih chain.2)
  · intro member
    induction cells generalizing head with
    | nil => exact absurd member List.not_mem_nil
    | cons q rest ih =>
      obtain ⟨rfl, chain⟩ := chain
      rcases List.mem_cons.mp member with rfl | member
      · exact .here p
      · exact .later (ih chain member)

theorem unlisted_above {next : ℕ → Option ℕ} {count cell : ℕ} (above : count < cell)
    (linked : ∀ i < count, next (i + 1) = if i = 0 then none else some i) (positive : count ≠ 0) :
    ¬ Listed next (some count) cell := by
  have chain := chain_down next 0 count fun i bound => by
    rw [Nat.zero_add, Nat.zero_add, Nat.add_comm 1 i]
    exact linked i bound
  rw [if_neg positive, Nat.zero_add] at chain
  rw [listed_iff chain]
  intro member
  obtain ⟨i, bound, rfl⟩ := List.mem_map.mp (List.mem_reverse.mp member)
  have := List.mem_range.mp bound
  omega

theorem unlisted_last {next : ι → Option ι} {last p : ι} (ends : next last = none) (other : p ≠ last) :
    ¬ Listed next (some last) p := by
  have chain : Chain next (some last) [last] := ⟨rfl, ends⟩
  rw [listed_iff chain]
  exact fun member => other (List.mem_singleton.mp member)

theorem Listed.next {next : ι → Option ι} {head : Option ι} {p q : ι} (listed : Listed next head p)
    (link : next p = some q) : Listed next head q := by
  induction listed with
  | here p =>
    apply Listed.later
    rw [link]
    exact Listed.here q
  | later _ ih => exact Listed.later (ih link)

theorem Listed.invariant {next : ι → Option ι} {head : Option ι} {p : ι} (holds : ι → Prop)
    (start : ∀ q, head = some q → holds q) (step : ∀ q q', holds q → next q = some q' → holds q')
    (listed : Listed next head p) : holds p := by
  induction listed with
  | here p => exact start p rfl
  | later behind ih => exact ih fun q' link => step _ q' (start _ rfl) link

def cells : BinaryTree α → Multiset α
  | .nil => 0
  | .node a left right => a ::ₘ (cells left + cells right)

theorem cells_map (f : α → β) (t : BinaryTree α) : cells (t.map f) = (cells t).map f := by
  induction t with
  | nil => rfl
  | node a left right ihl ihr =>
    rw [BinaryTree.map, cells, cells, ihl, ihr, Multiset.map_cons, Multiset.map_add]

theorem card_cells (t : BinaryTree α) : (cells t).card = t.numNodes := by
  induction t with
  | nil => rfl
  | node a left right ihl ihr =>
    rw [cells, Multiset.card_cons, Multiset.card_add, ihl, ihr, BinaryTree.numNodes]

theorem map_congr {f g : α → β} {t : BinaryTree α} (same : ∀ a ∈ cells t, f a = g a) :
    t.map f = t.map g := by
  induction t with
  | nil => rfl
  | node a left right ihl ihr =>
    simp only [cells, Multiset.mem_cons, Multiset.mem_add] at same
    rw [BinaryTree.map, BinaryTree.map, same a (Or.inl rfl), ihl fun b member => same b (Or.inr (Or.inl member)),
      ihr fun b member => same b (Or.inr (Or.inr member))]

theorem map_injective {f : α → β} {t t' : BinaryTree α}
    (injective : ∀ a ∈ cells t, ∀ a' ∈ cells t', f a = f a' → a = a') (same : t.map f = t'.map f) : t = t' := by
  induction t generalizing t' with
  | nil =>
    cases t' with
    | nil => rfl
    | node a left right => cases same
  | node a left right ihl ihr =>
    cases t' with
    | nil => cases same
    | node a' left' right' =>
      simp only [cells, Multiset.mem_cons, Multiset.mem_add] at injective
      injection same with here below beside
      rw [injective a (Or.inl rfl) a' (Or.inl rfl) here,
        ihl (fun b member b' member' => injective b (Or.inr (Or.inl member)) b' (Or.inr (Or.inl member'))) below,
        ihr (fun b member b' member' => injective b (Or.inr (Or.inr member)) b' (Or.inr (Or.inr member'))) beside]

/-- `t` is the tree of the cells reached from `root` by the two links. -/
def Shape (left right : ι → Option ι) : Option ι → BinaryTree ι → Prop
  | root, .nil => root = none
  | root, .node p l r => root = some p ∧ Shape left right (left p) l ∧ Shape left right (right p) r

theorem shape_congr {left right left' right' : ι → Option ι} {root : Option ι} {t : BinaryTree ι}
    (same : ∀ p ∈ cells t, left' p = left p ∧ right' p = right p) (shape : Shape left right root t) :
    Shape left' right' root t := by
  induction t generalizing root with
  | nil => exact shape
  | node p l r ihl ihr =>
    simp only [cells, Multiset.mem_cons, Multiset.mem_add] at same
    refine ⟨shape.1, ?_, ?_⟩
    · rw [(same p (Or.inl rfl)).1]
      exact ihl (fun q member => same q (Or.inr (Or.inl member))) shape.2.1
    · rw [(same p (Or.inl rfl)).2]
      exact ihr (fun q member => same q (Or.inr (Or.inr member))) shape.2.2

theorem shape_unique {left right : ι → Option ι} {root : Option ι} {t t' : BinaryTree ι}
    (shape : Shape left right root t) (shape' : Shape left right root t') : t = t' := by
  induction t generalizing root t' with
  | nil =>
    cases t' with
    | nil => rfl
    | node q l r => exact absurd (shape.symm.trans shape'.1) (Option.some_ne_none q).symm
  | node p l r ihl ihr =>
    cases t' with
    | nil => exact absurd (shape'.symm.trans shape.1) (Option.some_ne_none p).symm
    | node q l' r' =>
      obtain rfl : p = q := Option.some.inj (shape.1.symm.trans shape'.1)
      rw [ihl shape.2.1 shape'.2.1, ihr shape.2.2 shape'.2.2]

/-- The cell at the end of a path of links: `false` takes the left one, `true` the right one. -/
def follow (left right : ι → Option ι) : Option ι → List Bool → Option ι
  | root, [] => root
  | none, _ :: _ => none
  | some p, turn :: path => follow left right (if turn then right p else left p) path

theorem follow_none (left right : ι → Option ι) (path : List Bool) : follow left right none path = none := by
  cases path <;> rfl

theorem follow_mem {left right : ι → Option ι} {root : Option ι} {t : BinaryTree ι} {path : List Bool} {p : ι}
    (shape : Shape left right root t) (reached : follow left right root path = some p) : p ∈ cells t := by
  induction t generalizing root path with
  | nil =>
    obtain rfl : root = none := shape
    rw [follow_none] at reached
    cases reached
  | node q l r ihl ihr =>
    obtain ⟨rfl, below, beside⟩ := shape
    rw [cells, Multiset.mem_cons, Multiset.mem_add]
    rcases path with _ | ⟨_ | _, path⟩
    · exact Or.inl (Option.some.inj reached).symm
    · exact Or.inr (Or.inl (ihl below reached))
    · exact Or.inr (Or.inr (ihr beside reached))

theorem follow_unique {left right : ι → Option ι} {root : Option ι} {t : BinaryTree ι} {p : ι}
    (shape : Shape left right root t) (nodup : (cells t).Nodup) (member : p ∈ cells t) :
    ∃! path, follow left right root path = some p := by
  induction t generalizing root with
  | nil => exact absurd member (Multiset.notMem_zero p)
  | node q l r ihl ihr =>
    obtain ⟨rfl, below, beside⟩ := shape
    rw [cells, Multiset.nodup_cons, Multiset.mem_add, not_or, Multiset.nodup_add] at nodup
    obtain ⟨⟨notBelow, notBeside⟩, nodupl, nodupr, apart⟩ := nodup
    rw [cells, Multiset.mem_cons, Multiset.mem_add] at member
    rcases member with rfl | member | member
    · refine ⟨[], rfl, fun path reached => ?_⟩
      rcases path with _ | ⟨_ | _, path⟩
      · rfl
      · exact absurd (follow_mem below reached) notBelow
      · exact absurd (follow_mem beside reached) notBeside
    · obtain ⟨path, reached, unique⟩ := ihl below nodupl member
      refine ⟨false :: path, reached, fun other reached' => ?_⟩
      rcases other with _ | ⟨_ | _, other⟩
      · exact absurd (Option.some.inj reached' ▸ member) notBelow
      · rw [unique other reached']
      · exact absurd (follow_mem beside reached') (Multiset.disjoint_left.mp apart member)
    · obtain ⟨path, reached, unique⟩ := ihr beside nodupr member
      refine ⟨true :: path, reached, fun other reached' => ?_⟩
      rcases other with _ | ⟨_ | _, other⟩
      · exact absurd (Option.some.inj reached' ▸ member) notBeside
      · exact absurd member (Multiset.disjoint_left.mp apart (follow_mem below reached'))
      · rw [unique other reached']

def forestAppend (first second : BinaryTree α) : BinaryTree α :=
  match first with
  | .nil => second
  | .node a left right => .node a left (forestAppend right second)

def siblings : BinaryTree α → ℕ
  | .nil => 0
  | .node _ _ right => siblings right + 1

theorem cells_forestAppend (first second : BinaryTree α) :
    cells (forestAppend first second) = cells first + cells second := by
  induction first with
  | nil => exact (zero_add _).symm
  | node a left right _ ih =>
    rw [forestAppend, cells, ih, cells, Multiset.cons_add, add_assoc]

theorem forestAppend_nil (forest : BinaryTree α) : forestAppend forest .nil = forest := by
  induction forest with
  | nil => rfl
  | node a left right _ ih => rw [forestAppend, ih]

theorem siblings_forestAppend (first second : BinaryTree α) :
    siblings (forestAppend first second) = siblings first + siblings second := by
  induction first with
  | nil => exact (Nat.zero_add _).symm
  | node a left right _ ih =>
    rw [forestAppend, siblings, siblings, ih]
    omega

theorem forestAppend_inj {first second first' second' : BinaryTree α} (same : siblings first = siblings first') :
    forestAppend first second = forestAppend first' second' ↔ first = first' ∧ second = second' := by
  constructor
  · intro equal
    induction first generalizing first' with
    | nil =>
      cases first' with
      | nil => exact ⟨rfl, equal⟩
      | node a left right => cases same
    | node a left right _ ih =>
      cases first' with
      | nil => cases same
      | node a' left' right' =>
        injection equal with top below beside
        obtain ⟨here, later⟩ := ih (Nat.succ.inj same) beside
        rw [top, below, here]
        exact ⟨rfl, later⟩
  · rintro ⟨rfl, rfl⟩
    rfl

theorem forestAppend_assoc (first second third : BinaryTree α) :
    forestAppend (forestAppend first second) third =
      forestAppend first (forestAppend second third) := by
  induction first with
  | nil => rfl
  | node a left right _ ih => rw [forestAppend, forestAppend, forestAppend, ih]

theorem map_forestAppend (f : α → β) (first second : BinaryTree α) :
    (forestAppend first second).map f = forestAppend (first.map f) (second.map f) := by
  induction first with
  | nil => rfl
  | node a left right _ ih => rw [forestAppend, BinaryTree.map, BinaryTree.map, forestAppend, ih]

section Graft

variable [DecidableEq ι] (key : α → ι)

/-- Changes the label of the cell with key `p` and puts `young` before its children. -/
def graft (p : ι) (f : α → α) (young : BinaryTree α) : BinaryTree α → BinaryTree α
  | .nil => .nil
  | .node a left right =>
    if key a = p then .node (f a) (forestAppend young left) right
    else .node a (graft p f young left) (graft p f young right)

variable {key} {p : ι} {f : α → α} {young : BinaryTree α}

theorem graft_absent {t : BinaryTree α} (absent : ∀ a ∈ cells t, key a ≠ p) :
    graft key p f young t = t := by
  induction t with
  | nil => rfl
  | node a left right ihl ihr =>
    simp only [cells, Multiset.mem_cons, Multiset.mem_add] at absent
    rw [graft, if_neg (absent a (Or.inl rfl)), ihl fun b member => absent b (Or.inr (Or.inl member)),
      ihr fun b member => absent b (Or.inr (Or.inr member))]

theorem graft_cells (f : α → α) (young : BinaryTree α) {t : BinaryTree α} (nodup : ((cells t).map key).Nodup) {a : α} (member : a ∈ cells t)
    (found : key a = p) : ∃ rest, cells t = a ::ₘ rest ∧
      cells (graft key p f young t) = f a ::ₘ (cells young + rest) := by
  induction t with
  | nil => exact absurd member (Multiset.notMem_zero a)
  | node b left right ihl ihr =>
    rw [cells, Multiset.map_cons, Multiset.map_add, Multiset.nodup_cons, Multiset.nodup_add,
      Multiset.mem_add, not_or] at nodup
    obtain ⟨⟨outLeft, outRight⟩, nodupLeft, nodupRight, apart⟩ := nodup
    rw [graft]
    by_cases here : key b = p
    · obtain rfl : a = b := by
        rcases Multiset.mem_cons.mp member with rfl | member
        · rfl
        · rw [← here] at found
          rcases Multiset.mem_add.mp member with member | member
          · exact absurd (found ▸ Multiset.mem_map_of_mem key member) outLeft
          · exact absurd (found ▸ Multiset.mem_map_of_mem key member) outRight
      refine ⟨cells left + cells right, rfl, ?_⟩
      rw [if_pos here, cells, cells_forestAppend, add_assoc]
    · have other : a ≠ b := fun equal => here (equal ▸ found)
      rw [cells, Multiset.mem_cons, Multiset.mem_add] at member
      rw [if_neg here, cells, cells]
      rcases member.resolve_left other with member | member
      · have absent : ∀ c ∈ cells right, key c ≠ p := fun c inside equal =>
          Multiset.disjoint_left.mp apart (found ▸ Multiset.mem_map_of_mem key member)
            (equal ▸ Multiset.mem_map_of_mem key inside)
        obtain ⟨rest, split, grafted⟩ := ihl nodupLeft member
        refine ⟨b ::ₘ (rest + cells right), ?_, ?_⟩
        · rw [split, Multiset.cons_add, Multiset.cons_swap]
        · rw [grafted, graft_absent absent, Multiset.cons_add, Multiset.cons_swap,
            Multiset.add_cons, add_assoc]
      · have absent : ∀ c ∈ cells left, key c ≠ p := fun c inside equal =>
          Multiset.disjoint_left.mp apart (equal ▸ Multiset.mem_map_of_mem key inside)
            (found ▸ Multiset.mem_map_of_mem key member)
        obtain ⟨rest, split, grafted⟩ := ihr nodupRight member
        refine ⟨b ::ₘ (cells left + rest), ?_, ?_⟩
        · rw [split, Multiset.add_cons, Multiset.cons_swap]
        · rw [grafted, graft_absent absent, Multiset.add_cons, Multiset.cons_swap,
            Multiset.add_cons, add_left_comm]

theorem graft_graft {t : BinaryTree α} {f' : α → α} {young' : BinaryTree α}
    (kept : ∀ a, key a = p → key (f a) = p) :
    graft key p f' young' (graft key p f young t) =
      graft key p (f' ∘ f) (forestAppend young' young) t := by
  induction t with
  | nil => rfl
  | node a left right ihl ihr =>
    by_cases here : key a = p
    · rw [graft, if_pos here, graft, if_pos (kept a here), graft, if_pos here, forestAppend_assoc,
        Function.comp_apply]
    · rw [graft, if_neg here, graft, if_neg here, graft, if_neg here, ihl, ihr]

theorem graft_fresh {t : BinaryTree α} {q : ι} {g : α → α} {b : α} {below younger : BinaryTree α}
    (fresh : key b = q) (absent : ∀ a ∈ cells t, key a ≠ q) (kept : ∀ a, key a = p → key (f a) ≠ q)
    (outside : ∀ a ∈ cells young, key a ≠ q) :
    graft key q g below (graft key p f (.node b younger young) t) =
      graft key p f (.node (g b) (forestAppend below younger) young) t := by
  induction t with
  | nil => rfl
  | node a left right ihl ihr =>
    simp only [cells, Multiset.mem_cons, Multiset.mem_add] at absent
    have outLeft : ∀ c ∈ cells left, key c ≠ q := fun c member => absent c (Or.inr (Or.inl member))
    have outRight : ∀ c ∈ cells right, key c ≠ q := fun c member => absent c (Or.inr (Or.inr member))
    by_cases here : key a = p
    · have later : ∀ c ∈ cells (forestAppend young left), key c ≠ q := by
        rw [cells_forestAppend]
        intro c member
        rcases Multiset.mem_add.mp member with member | member
        · exact outside c member
        · exact outLeft c member
      rw [graft, if_pos here, graft, if_neg (kept a here), forestAppend, graft, if_pos fresh,
        graft_absent outRight, graft, if_pos here, forestAppend]
    · rw [graft, if_neg here, graft, if_neg (absent a (Or.inl rfl)), ihl outLeft, ihr outRight,
        graft, if_neg here]

theorem map_key_graft (t : BinaryTree α) (kept : ∀ a, key (f a) = key a) :
    (graft key p f young t).map key = graft id p id (young.map key) (t.map key) := by
  induction t with
  | nil => rfl
  | node a left right ihl ihr =>
    by_cases here : key a = p
    · rw [graft, if_pos here, BinaryTree.map, BinaryTree.map, graft, id_eq, if_pos here, kept,
        map_forestAppend]
    · rw [graft, if_neg here, BinaryTree.map, BinaryTree.map, graft, id_eq, if_neg here, ihl, ihr]

theorem graft_id (p : ι) (t : BinaryTree α) : graft key p id .nil t = t := by
  induction t with
  | nil => rfl
  | node a left right ihl ihr =>
    rw [graft, ihl, ihr, forestAppend, id_eq]
    split <;> rfl

theorem siblings_graft (t : BinaryTree α) : siblings (graft key p f young t) = siblings t := by
  induction t with
  | nil => rfl
  | node a left right _ ih =>
    rw [graft]
    split
    · rfl
    · exact congrArg (· + 1) ih

theorem shape_graft {left right left' right' : ι → Option ι} {root : Option ι} {t : BinaryTree ι}
    {q : ι} (shape : Shape left right root t) (nodup : (cells t).Nodup) (below : left' p = some q)
    (beside : right' q = left p) (childless : left' q = none)
    (same : ∀ c ∈ cells t, right' c = right c ∧ (c ≠ p → left' c = left c)) :
    Shape left' right' root (graft id p id (.node q .nil .nil) t) := by
  induction t generalizing root with
  | nil => exact shape
  | node a l r ihl ihr =>
    obtain ⟨root_eq, shapeLeft, shapeRight⟩ := shape
    simp only [cells, Multiset.nodup_cons, Multiset.nodup_add, Multiset.mem_cons, Multiset.mem_add,
      not_or] at nodup same
    obtain ⟨⟨outLeft, outRight⟩, nodupLeft, nodupRight, _⟩ := nodup
    by_cases here : a = p
    · have others : ∀ c ∈ cells l + cells r, left' c = left c ∧ right' c = right c := by
        intro c member
        have other : c ≠ p := by
          rintro rfl
          rcases Multiset.mem_add.mp member with member | member
          · exact outLeft (here ▸ member)
          · exact outRight (here ▸ member)
        have kept := same c (Or.inr (Multiset.mem_add.mp member))
        exact ⟨kept.2 other, kept.1⟩
      rw [graft, id_eq, if_pos here, forestAppend, forestAppend]
      subst here
      refine ⟨root_eq, ⟨below, childless, ?_⟩, ?_⟩
      · rw [beside]
        exact shape_congr (fun c member => others c (Multiset.mem_add.mpr (Or.inl member))) shapeLeft
      · rw [(same a (Or.inl rfl)).1]
        exact shape_congr (fun c member => others c (Multiset.mem_add.mpr (Or.inr member))) shapeRight
    · have kept := same a (Or.inl rfl)
      rw [graft, id_eq, if_neg here]
      refine ⟨root_eq, ?_, ?_⟩
      · rw [kept.2 here]
        exact ihl shapeLeft nodupLeft fun c member => same c (Or.inr (Or.inl member))
      · rw [kept.1]
        exact ihr shapeRight nodupRight fun c member => same c (Or.inr (Or.inr member))

end Graft

end Linked
