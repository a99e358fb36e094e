import GenericBooter.Boot.Arrays
import Mathlib.Data.Nat.Digits.Defs

namespace GenericBooter

open Linked

def decimalValue (chars : List Byte) : Nat := Nat.ofDigits 10 (chars.reverse.map fun c => c.toNat - 0x30)

def IsDecimal (chars : List Byte) : Prop := chars ≠ [] ∧ ∀ c ∈ chars, 0x30 ≤ c.toNat ∧ c.toNat ≤ 0x39

instance (chars : List Byte) : Decidable (IsDecimal chars) := inferInstanceAs (Decidable (_ ∧ _))

def Text.number (text : Text) : Option Word :=
  if IsDecimal text.chars ∧ decimalValue text.chars < 2 ^ 32 then some (BitVec.ofNat 32 (decimalValue text.chars))
  else none

section Decimal

def decimalDigits (n : Nat) : List Nat := if n = 0 then [0] else Nat.digits 10 n

theorem decimalDigits_small {n d : Nat} (member : d ∈ decimalDigits n) : d < 10 := by
  rw [decimalDigits] at member
  split at member
  · rw [List.mem_singleton.mp member]
    decide
  · exact Nat.digits_lt_base (by decide) member

theorem ofDigits_decimalDigits (n : Nat) : Nat.ofDigits 10 (decimalDigits n) = n := by
  rw [decimalDigits]
  split
  · rename_i zero
    rw [zero]
    rfl
  · exact Nat.ofDigits_digits 10 n

theorem decimalDigits_nonempty (n : Nat) : decimalDigits n ≠ [] := by
  rw [decimalDigits]
  split
  · exact List.cons_ne_nil _ _
  · rename_i positive
    exact Nat.digits_ne_nil_iff_ne_zero.mpr positive

def digitByte (d : Nat) : Byte := BitVec.ofNat 8 (0x30 + d)

theorem digitByte_toNat {d : Nat} (small : d < 10) : (digitByte d).toNat = 0x30 + d := by
  rw [digitByte, BitVec.toNat_ofNat]
  omega

theorem digitByte_other {d : Nat} (small : d < 10) {c : Byte} (other : c.toNat < 0x30 ∨ 0x39 < c.toNat) :
    digitByte d ≠ c := by
  intro equal
  have value := digitByte_toNat small
  rw [equal] at value
  omega

def decimalChars (n : Nat) : List Byte := ((decimalDigits n).map digitByte).reverse

theorem decimalChars_digit {n : Nat} {c : Byte} (member : c ∈ decimalChars n) : ∃ d < 10, c = digitByte d := by
  obtain ⟨d, inside, rfl⟩ := List.mem_map.mp (List.mem_reverse.mp member)
  exact ⟨d, decimalDigits_small inside, rfl⟩

def decimal (n : Word) : Text where
  chars := decimalChars n.toNat
  passes := by
    constructor
    · intro member
      obtain ⟨d, small, equal⟩ := decimalChars_digit member
      exact digitByte_other small (Or.inl (by decide)) equal.symm
    · intro member
      obtain ⟨d, small, equal⟩ := decimalChars_digit member
      exact digitByte_other small (Or.inr (by decide)) equal.symm

theorem decimalChars_isDecimal (n : Nat) : IsDecimal (decimalChars n) := by
  refine ⟨?_, fun c member => ?_⟩
  · rw [decimalChars, ne_eq, List.reverse_eq_nil_iff, List.map_eq_nil_iff]
    exact decimalDigits_nonempty n
  · obtain ⟨d, small, rfl⟩ := decimalChars_digit member
    rw [digitByte_toNat small]
    omega

theorem decimalValue_decimalChars (n : Nat) : decimalValue (decimalChars n) = n := by
  have digit : ∀ d ∈ decimalDigits n, (digitByte d).toNat - 0x30 = d := by
    intro d member
    rw [digitByte_toNat (decimalDigits_small member)]
    omega
  have digits : ((decimalDigits n).map digitByte).map (fun c => c.toNat - 0x30) = decimalDigits n := by
    rw [List.map_map]
    exact (List.map_congr_left digit).trans (List.map_id _)
  rw [decimalValue, decimalChars, List.reverse_reverse, digits, ofDigits_decimalDigits]

theorem number_decimal (n : Word) : (decimal n).number = some n := by
  have value : decimalValue (decimal n).chars = n.toNat := decimalValue_decimalChars n.toNat
  rw [Text.number, if_pos ⟨decimalChars_isDecimal n.toNat, by rw [value]; exact n.isLt⟩, value, BitVec.ofNat_toNat,
    BitVec.setWidth_eq]

end Decimal

/-- The bytes that should stand for an item of a plain array. -/
def Element.valuedBytes : Element → List Byte
  | .integer _ text => wordBytes (text.number.getD 0)
  | value => value.bytes

def Items.valuedData : Items → List Byte
  | .nil => []
  | .cons value later => later.valuedData ++ value.valuedBytes

def Element.valuedAttributes (key : CString) : Element → List Attribute
  | .integer _ text => [arrayAttribute key (wordBytes (text.number.getD 0))]
  | .array _ items _ => if isChildren (some key) then [] else [arrayAttribute key items.valuedData]
  | value => value.attributes key

def valuedTree (root : Element) : PlainTree := treeWith (fun key value => value.valuedAttributes key) root

def Element.Zero : Element → Prop
  | .integer _ text => text.number.getD 0 = 0
  | _ => True

/-- Of the numbers of 32 bits, written in decimal, that is 0 alone. -/
theorem Element.zero_decimal (gap : Text) (n : Word) : (Element.integer gap (decimal n)).Zero ↔ n = 0 := by
  rw [Element.Zero, number_decimal, Option.getD_some]

def Items.Zero : Items → Prop
  | .nil => True
  | .cons value later => value.Zero ∧ later.Zero

def Element.ZeroAt (key : CString) : Element → Prop
  | .array _ items _ => ¬ isChildren (some key) → items.Zero
  | value => value.Zero

section Values

theorem wordBytes_inj {value value' : Word} : wordBytes value = wordBytes value' ↔ value = value' := by
  constructor
  · intro same
    injection same with b0 rest
    injection rest with b1 rest
    injection rest with b2 rest
    injection rest with b3
    rw [← joinWord_wordBytes value, ← joinWord_wordBytes value', b0, b1, b2, b3]
  · rintro rfl
    rfl

theorem Element.valuedBytes_length (value : Element) : value.bytes.length = value.valuedBytes.length := by
  cases value <;> rfl

theorem Element.valuedBytes_iff (value : Element) : value.bytes = value.valuedBytes ↔ value.Zero := by
  cases value with
  | integer _ text => exact wordBytes_inj.trans eq_comm
  | _ => exact iff_of_true rfl trivial

theorem Items.valuedData_length (items : Items) : items.data.length = items.valuedData.length := by
  cases items with
  | nil => rfl
  | cons value later =>
    rw [Items.data, Items.valuedData, List.length_append, List.length_append, later.valuedData_length,
      value.valuedBytes_length]

theorem Items.valuedData_iff (items : Items) : items.data = items.valuedData ↔ items.Zero := by
  cases items with
  | nil => exact iff_of_true rfl trivial
  | cons value later =>
    rw [Items.data, Items.valuedData, Items.Zero, ← value.valuedBytes_iff, ← later.valuedData_iff]
    constructor
    · intro same
      exact (List.append_inj same later.valuedData_length).symm
    · rintro ⟨here, rest⟩
      rw [here, rest]

theorem Element.valuedAttributes_length (key : CString) (value : Element) :
    (value.attributes key).length = (value.valuedAttributes key).length := by
  cases value with
  | array _ items _ =>
    rw [Element.attributes, Element.valuedAttributes]
    by_cases marked : isChildren (some key)
    · rw [if_pos marked, if_pos marked]
    · rw [if_neg marked, if_neg marked]
      rfl
  | _ => rfl

theorem Element.valuedAttributes_iff (key : CString) (value : Element) :
    value.attributes key = value.valuedAttributes key ↔ value.ZeroAt key := by
  cases value with
  | integer _ text =>
    change [arrayAttribute key (wordBytes 0)] = [arrayAttribute key (wordBytes (text.number.getD 0))] ↔ _
    have same : (wordBytes 0).length = (wordBytes (text.number.getD 0)).length := rfl
    rw [List.singleton_inj, arrayAttribute_inj same, wordBytes_inj]
    exact eq_comm
  | array _ items _ =>
    rw [Element.attributes, Element.valuedAttributes, Element.ZeroAt]
    by_cases marked : isChildren (some key)
    · rw [if_pos marked, if_pos marked]
      exact iff_of_true rfl fun plain => (plain marked).elim
    · rw [if_neg marked, if_neg marked, List.singleton_inj, arrayAttribute_inj items.valuedData_length,
        items.valuedData_iff]
      exact ⟨fun zero _ => zero, fun zero => zero marked⟩
  | _ => exact iff_of_true rfl trivial

end Values

theorem rootTree_valued_iff {root : Element} (node : root.IsNode) :
    rootTree root = valuedTree root ↔ root.Everywhere fun key value => value.ZeroAt key := by
  have widths : Matching (fun key value => value.attributes key) fun key value => value.valuedAttributes key :=
    Element.valuedAttributes_length
  rw [rootTree_with, valuedTree, treeWith_iff widths node]
  simp only [Element.valuedAttributes_iff]

/-- The properties made of the integers of a property list hold their numbers exactly when each of them is 0. The symbols
    are counted as before in any case. -/
theorem prepareDevicetree_valued_iff {malloc : Malloc} {stack : Nat → Option Nat} {b : Booter} {roots : Multiset Nat}
    (reachable : XmlReachable malloc stack ⟨b.xml, roots⟩) (good : b.dt.malloc.Succeeds) (locals : DevicetreeLocals)
    {image : Word} {payload : TagData}
    (located : getImage3 b.platform.machine.memory b.platform.imagesEnd kImage3TypeXmlDeviceTree = .ok image)
    (present : image ≠ 0)
    (tagged : image3GetTagData b.platform.machine.memory image kImage3TagData locals.deviceTreeData
      locals.deviceTreeSize = .ok payload) (document : Document) (following : List Byte)
    (held : stringAt b.platform.machine.memory payload.data = .ok (document.render ++ (following ++ [0]))) :
    ∃ b' tree, prepareDevicetree locals b = .ok (true, b') ∧ Represents b'.dt tree ∧
      (tree.map contents = valuedTree document.root ↔
        document.root.Everywhere fun key value => value.ZeroAt key) ∧
      ∀ text, b'.xml.refCount text = b.xml.refCount text := by
  obtain ⟨b', tree, ran, shown, same, _, counted⟩ :=
    prepareDevicetree_restores reachable good locals located present tagged document following held
  exact ⟨b', tree, ran, shown, by rw [same, rootTree_valued_iff document.describes], counted⟩

def integerDocument (text : Text) : Document where
  first := sampleHeader
  headers := []
  plist := none
  root := .dict noText (.cons noText textK (.integer noText text) .nil) noText
  describes := ⟨trivial, trivial⟩

def text0 : Text := ⟨[0x30], by decide, by decide⟩

def text1 : Text := ⟨[0x31], by decide, by decide⟩

theorem integerDocument_keeps : ∃ b' tree,
    prepareDevicetree ⟨0, 0, none⟩ (listBooter (integerDocument text0)) = .ok (true, b') ∧ Represents b'.dt tree ∧
      tree.map contents = valuedTree (integerDocument text0).root ∧
      ∀ text, b'.xml.refCount text = (listBooter (integerDocument text0)).xml.refCount text := by
  have reachable : XmlReachable roomy (fun _ => none) ⟨(listBooter (integerDocument text0)).xml, 0⟩ :=
    Relation.ReflTransGen.refl
  have located : getImage3 (listBooter (integerDocument text0)).platform.machine.memory 0x10000
      kImage3TypeXmlDeviceTree = .ok 0x10000 := by decide +kernel
  have tagged : image3GetTagData (listBooter (integerDocument text0)).platform.machine.memory 0x10000
      kImage3TagData 0 0 =
        .ok ⟨true, 0x10020, BitVec.ofNat 32 ((integerDocument text0).render ++ [0]).length⟩ := by
    decide +kernel
  have held : stringAt (listBooter (integerDocument text0)).platform.machine.memory 0x10020 =
      .ok ((integerDocument text0).render ++ ([] ++ [0])) := by decide +kernel
  obtain ⟨b', tree, ran, shown, kept, counted⟩ := prepareDevicetree_valued_iff reachable roomy_succeeds ⟨0, 0, none⟩
    located (by decide) tagged (integerDocument text0) [] held
  have zero : text0.number.getD 0 = 0 := by decide
  exact ⟨b', tree, ran, shown, kept.mpr ⟨⟨zero, trivial⟩, trivial⟩, counted⟩

theorem integerDocument_loses : text1.number = some 1 ∧ ∃ b' tree,
    prepareDevicetree ⟨0, 0, none⟩ (listBooter (integerDocument text1)) = .ok (true, b') ∧ Represents b'.dt tree ∧
      tree.map contents = .node [nameAttribute (ascii "/"), arrayAttribute (ascii "k") [0, 0, 0, 0]] .nil .nil ∧
      tree.map contents ≠ valuedTree (integerDocument text1).root := by
  have located : getImage3 (listBooter (integerDocument text1)).platform.machine.memory 0x10000
      kImage3TypeXmlDeviceTree = .ok 0x10000 := by decide +kernel
  have tagged : image3GetTagData (listBooter (integerDocument text1)).platform.machine.memory 0x10000
      kImage3TagData 0 0 =
        .ok ⟨true, 0x10020, BitVec.ofNat 32 ((integerDocument text1).render ++ [0]).length⟩ := by
    decide +kernel
  have held : stringAt (listBooter (integerDocument text1)).platform.machine.memory 0x10020 =
      .ok ((integerDocument text1).render ++ ([] ++ [0])) := by decide +kernel
  have reachable : XmlReachable roomy (fun _ => none) ⟨(listBooter (integerDocument text1)).xml, 0⟩ :=
    Relation.ReflTransGen.refl
  obtain ⟨b', tree, ran, shown, same, _⟩ := prepareDevicetree_completes reachable roomy_succeeds ⟨0, 0, none⟩ located
    (by decide) tagged (integerDocument text1) [] held
  refine ⟨by decide, b', tree, ran, shown, same, fun kept => ?_⟩
  obtain ⟨⟨zero, _⟩, _⟩ := (rootTree_valued_iff (integerDocument text1).describes).mp (same.symm.trans kept)
  revert zero
  change ¬ text1.number.getD 0 = 0
  decide

end GenericBooter
