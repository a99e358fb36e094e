import GenericBooter.Boot.Population
import GenericBooter.Xml.Document

namespace GenericBooter

open Linked

def Element.bytes : Element → List Byte
  | .integer .. => wordBytes 0
  | .string _ text => text.string.bytes
  | _ => []

/-- The bytes of a plain array, the last item first. -/
def Items.data : Items → List Byte
  | .nil => []
  | .cons value later => later.data ++ value.bytes

def Items.Plain : Items → Prop
  | .nil => True
  | .cons (.integer ..) later => later.Plain
  | .cons (.string ..) later => later.Plain
  | .cons .. => False

def Element.attributes (key : CString) : Element → List Attribute
  | .string _ text => [stringAttribute key text.string]
  | .integer .. => [integerAttribute key]
  | .array _ items _ => if isChildren (some key) then [] else [arrayAttribute key items.data]
  | _ => []

def Entries.attributes : Entries → List Attribute
  | .nil => []
  | .cons _ key value later => value.attributes key.string ++ later.attributes

mutual

def Element.IsNode : Element → Prop
  | .dict _ entries _ => entries.Enter
  | .emptyDict _ => True
  | _ => False

/-- As the value of `key` it can be entered: an array holds dicts under an `@` key and integers and
    strings under any other, and is not empty. -/
def Element.Enters (key : CString) : Element → Prop
  | .array _ items _ => items ≠ .nil ∧ if isChildren (some key) then items.AreNodes else items.Plain
  | .emptyArray _ => False
  | _ => True

def Entries.Enter : Entries → Prop
  | .nil => True
  | .cons _ key value later => value.Enters key.string ∧ later.Enter

def Items.AreNodes : Items → Prop
  | .nil => True
  | .cons value later => value.IsNode ∧ later.AreNodes

end

mutual

/-- The node of a dict: its properties come in reverse, its children in document order. -/
def Element.node : Element → PlainTree
  | .dict _ entries _ => .node entries.attributes.reverse entries.children .nil
  | .emptyDict _ => .node [] .nil .nil
  | _ => .nil

def Element.children (key : CString) : Element → PlainTree
  | .array _ items _ => if isChildren (some key) then items.nodes else .nil
  | _ => .nil

def Entries.children : Entries → PlainTree
  | .nil => .nil
  | .cons _ key value later => forestAppend (value.children key.string) later.children

def Items.nodes : Items → PlainTree
  | .nil => .nil
  | .cons value later => forestAppend value.node later.nodes

end

section Lists

variable {first second : TagTree}

theorem sequence_append (first second : List (TagLabel × TagTree)) :
    sequence (first ++ second) = forestAppend (sequence first) (sequence second) := by
  induction first with
  | nil => rfl
  | cons item first ih =>
    obtain ⟨label, below⟩ := item
    rw [List.cons_append, sequence, sequence, forestAppend, ih]

theorem sequence_nil {list : List (TagLabel × TagTree)} (nonempty : list ≠ []) : sequence list ≠ .nil := by
  cases list with
  | nil => exact absurd rfl nonempty
  | cons item list => exact fun absurd => by cases absurd

theorem ArrayData.append {data data' : List Byte} (held : ArrayData first data) (held' : ArrayData second data') :
    ArrayData (forestAppend first second) (data ++ data') := by
  induction held with
  | nil => exact held'
  | integer _ ih =>
    rw [List.append_assoc]
    exact ArrayData.integer ih
  | string _ ih =>
    rw [List.append_assoc]
    exact ArrayData.string ih

theorem Keys.append {attrs attrs' : List Attribute} {kids kids' : PlainTree} (held : Keys first attrs kids)
    (held' : Keys second attrs' kids') :
    Keys (forestAppend first second) (attrs ++ attrs') (forestAppend kids' kids) := by
  induction first generalizing attrs kids with
  | nil =>
    cases held
    rw [forestAppend_nil]
    exact held'
  | node label below beside _ ih =>
    cases held with
    | property provides later =>
      rw [List.append_assoc]
      exact Keys.property provides (ih later)
    | children marked nonempty dicts later =>
      rw [← forestAppend_assoc]
      exact Keys.children marked nonempty dicts (ih later)

theorem Dicts.append {young young' : PlainTree} (held : Dicts first young) (held' : Dicts second young') :
    Dicts (forestAppend first second) (forestAppend young' young) := by
  induction first generalizing young with
  | nil =>
    cases held
    rw [forestAppend_nil]
    exact held'
  | node label below beside _ ih =>
    cases held with
    | cons entries later =>
      rw [← forestAppend_assoc]
      exact Dicts.cons entries (ih later)

end Lists

theorem Items.tags_nonempty {items : Items} (nonempty : items ≠ .nil) : sequence items.tags.reverse ≠ .nil := by
  cases items with
  | nil => exact absurd rfl nonempty
  | cons value later =>
    apply sequence_nil
    rw [Items.tags, List.reverse_cons]
    exact List.append_ne_nil_of_right_ne_nil _ (List.cons_ne_nil _ _)

theorem Items.arrayData : ∀ items : Items, items.Plain → ArrayData (sequence items.tags.reverse) items.data
  | .nil, _ => ArrayData.nil
  | .cons value later, plain => by
    rw [Items.tags, List.reverse_cons, sequence_append, Items.data]
    cases value with
    | integer => exact (later.arrayData plain).append (ArrayData.integer ArrayData.nil)
    | string _ text =>
      have one : ArrayData (sequence [((.string, some text.string), .nil)]) (text.string.bytes ++ []) :=
        ArrayData.string ArrayData.nil
      rw [List.append_nil] at one
      exact (later.arrayData plain).append one
    | _ => exact plain.elim

theorem Keys.single {key : CString} {value : TagLabel} {below : TagTree} {attrs : List Attribute}
    (provides : Provides key value below attrs) :
    Keys (.node (.key, some key) (.node value below .nil) .nil) attrs .nil := by
  have one := Keys.property provides Keys.nil
  rwa [List.append_nil] at one

mutual

theorem Element.holds_node : ∀ value : Element, value.IsNode → value.label = (.dict, none) ∧
    ∃ attrs kids, value.node = .node attrs kids .nil ∧ Keys value.inner attrs kids
  | .dict _ entries _, enter => ⟨rfl, _, _, rfl, entries.holds_keys enter⟩
  | .emptyDict _, _ => ⟨rfl, _, _, rfl, Keys.nil⟩
  | .array .., absurd | .emptyArray _, absurd | .string .., absurd | .integer .., absurd | .data .., absurd
  | .date .., absurd | .true _, absurd | .false _, absurd => absurd.elim

theorem Element.holds_key : ∀ (value : Element) (key : CString), value.Enters key →
    Keys (.node (.key, some key) (.node value.label value.inner .nil) .nil) (value.attributes key).reverse
      (value.children key)
  | .array _ items _, key, ⟨nonempty, contents⟩ => by
    rw [Element.attributes, Element.children]
    by_cases marked : isChildren (some key) = true
    · rw [if_pos marked] at contents ⊢
      rw [if_pos marked]
      exact Keys.children marked (Items.tags_nonempty nonempty) (items.holds_dicts contents) Keys.nil
    · rw [if_neg marked] at contents ⊢
      rw [if_neg marked]
      apply Keys.single
      exact Provides.array (eq_false_of_ne_true marked) (Items.tags_nonempty nonempty) (items.arrayData contents)
  | .string .., _, _ => Keys.single Provides.string
  | .integer .., _, _ => Keys.single Provides.integer
  | .dict .., _, _ | .emptyDict _, _, _ | .data .., _, _ | .date .., _, _ | .true _, _, _ | .false _, _, _ =>
    Keys.single (Provides.other (by decide))

theorem Entries.holds_keys : ∀ entries : Entries, entries.Enter →
    Keys (sequence entries.tags.reverse) entries.attributes.reverse entries.children
  | .nil, _ => Keys.nil
  | .cons _ key value later, ⟨enters, rest⟩ => by
    rw [Entries.tags, List.reverse_cons, sequence_append, Entries.attributes, List.reverse_append, Entries.children]
    exact (later.holds_keys rest).append (value.holds_key key.string enters)

theorem Items.holds_dicts : ∀ items : Items, items.AreNodes → Dicts (sequence items.tags.reverse) items.nodes
  | .nil, _ => Dicts.nil
  | .cons value later, ⟨node, rest⟩ => by
    obtain ⟨label, attrs, kids, same, keys⟩ := value.holds_node node
    rw [Items.tags, List.reverse_cons, sequence_append, Items.nodes, label, same]
    exact (later.holds_dicts rest).append (Dicts.cons keys Dicts.nil)

end

end GenericBooter
