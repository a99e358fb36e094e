import GenericBooter.DeviceTree.Layout
import GenericBooter.Library.Reader

namespace GenericBooter

open Linked Reading

structure FlatProperty where
  name : CString
  data : List Byte
deriving DecidableEq

abbrev FlatTree := BinaryTree (List FlatProperty)

def Attribute.flat (held : Attribute) : FlatProperty := ⟨held.name, held.value.take held.length.toNat⟩

def flatTree (tree : Forest) : FlatTree := tree.map fun label => label.2.map fun entry => entry.2.flat

def padding (length : Nat) : Nat := (length + 3) / 4 * 4 - length

def encodeProperty (prop : FlatProperty) : List Byte :=
  (prop.name.bytes ++ List.replicate (32 - prop.name.bytes.length) 0) ++
    (wordBytes (BitVec.ofNat 32 prop.data.length) ++
      (prop.data ++ List.replicate (padding prop.data.length) 0))

def encodeForest : FlatTree → List Byte
  | .nil => []
  | .node props children younger =>
    wordBytes (BitVec.ofNat 32 props.length) ++ (wordBytes (BitVec.ofNat 32 (siblings children)) ++
      (props.flatMap encodeProperty ++ (encodeForest children ++ encodeForest younger)))

def NamesFit (tree : FlatTree) : Prop :=
  ∀ props ∈ cells tree, ∀ prop ∈ props, prop.name.chars.length ≤ 31

def FlatProperty.room (prop : FlatProperty) : Nat := 36 + (prop.data.length + padding prop.data.length)

def flattenedLength : FlatTree → Nat
  | .nil => 0
  | .node props children younger =>
    8 + (props.map FlatProperty.room).sum + flattenedLength children + flattenedLength younger

def readWord : Reader Byte Word :=
  Reader.bind (Reader.take 4) fun bytes input =>
    match bytes with
    | [b0, b1, b2, b3] => some (joinWord b0 b1 b2 b3, input)
    | _ => none

def readProperty : Reader Byte FlatProperty :=
  Reader.bind (Reader.take 32) fun field =>
  Reader.bind readWord fun length =>
  Reader.bind (Reader.bind (Reader.take length.toNat) fun data =>
    Reader.bind (Reader.take (padding length.toNat)) fun _ => Reader.pure data) fun data =>
  Reader.pure ⟨cString field, data⟩

def readForest : Nat → Nat → Reader Byte FlatTree
  | _, 0 => Reader.pure .nil
  | 0, _ + 1 => fun _ => none
  | fuel + 1, count + 1 =>
    Reader.bind readWord fun nProperties =>
    Reader.bind readWord fun nChildren =>
    Reader.bind (Reader.replicate readProperty nProperties.toNat) fun props =>
    Reader.bind (readForest fuel nChildren.toNat) fun children =>
    Reader.bind (readForest fuel count) fun younger =>
    Reader.pure (.node props children younger)

/-- A flattened tree is one node; every node takes up room. -/
def readTree : Reader Byte FlatTree := fun input => readForest input.length 1 input

theorem wordBytes_reads (value : Word) : Reads readWord (wordBytes value) value := by
  intro rest
  have taken := Reads.take (wordBytes value) rest
  rw [wordBytes_length] at taken
  rw [readWord, Reader.bind, taken]
  exact congrArg (fun word => some (word, rest)) (joinWord_wordBytes value)

theorem encodeProperty_length (prop : FlatProperty) (fits : prop.name.chars.length ≤ 31) :
    (encodeProperty prop).length = prop.room := by
  simp only [FlatProperty.room, encodeProperty, List.length_append, List.length_replicate, wordBytes_length,
    CString.bytes_length]
  omega

theorem flatMap_encodeProperty_length {props : List FlatProperty}
    (fits : ∀ prop ∈ props, prop.name.chars.length ≤ 31) :
    (props.flatMap encodeProperty).length = (props.map FlatProperty.room).sum := by
  rw [List.length_flatMap]
  exact congrArg List.sum (List.map_congr_left fun prop member => encodeProperty_length prop (fits prop member))

theorem encodeForest_length {tree : FlatTree} (names : NamesFit tree) :
    (encodeForest tree).length = flattenedLength tree := by
  induction tree with
  | nil => rfl
  | node props children younger ihc ihy =>
    simp only [NamesFit, cells, Multiset.mem_cons, Multiset.mem_add] at names
    simp only [encodeForest, List.length_append, wordBytes_length, flattenedLength,
      flatMap_encodeProperty_length (names props (Or.inl rfl)),
      ihc fun other member => names other (Or.inr (Or.inl member)),
      ihy fun other member => names other (Or.inr (Or.inr member))]
    omega

theorem encodeProperty_reads {prop : FlatProperty} (fits : prop.name.chars.length ≤ 31)
    (small : prop.data.length < 2 ^ 32) : Reads readProperty (encodeProperty prop) prop := by
  have field : (prop.name.bytes ++ List.replicate (32 - prop.name.bytes.length) 0).length = 32 := by
    rw [List.length_append, List.length_replicate, CString.bytes_length]
    omega
  have name : cString (prop.name.bytes ++ List.replicate (32 - prop.name.bytes.length) 0) = prop.name := by
    apply CString.ext_chars
    rw [CString.bytes, List.append_assoc]
    exact cString_append_zero prop.name.noNul _
  have taken := Reads.take (prop.name.bytes ++ List.replicate (32 - prop.name.bytes.length) 0)
  rw [field] at taken
  refine taken.bind ((wordBytes_reads _).bind ?_)
  rw [BitVec.toNat_ofNat, Nat.mod_eq_of_lt small]
  have zeros := Reads.take (List.replicate (padding prop.data.length) (0 : Byte))
  rw [List.length_replicate] at zeros
  have value : Reads (Reader.bind (Reader.take prop.data.length) fun data =>
      Reader.bind (Reader.take (padding prop.data.length)) fun _ => Reader.pure data)
      (prop.data ++ List.replicate (padding prop.data.length) 0) prop.data :=
    (Reads.take prop.data).bind (zeros.map fun _ => prop.data)
  have result := value.map fun data => ({ name := prop.name, data := data } : FlatProperty)
  rw [name]
  exact result

theorem encodeForest_bounds {props : List FlatProperty} {children younger : FlatTree}
    (room : (encodeForest (.node props children younger)).length < 2 ^ 32) :
    (props.flatMap encodeProperty).length < 2 ^ 32 ∧ (encodeForest children).length < 2 ^ 32 ∧
      (encodeForest younger).length < 2 ^ 32 := by
  simp only [encodeForest, List.length_append, wordBytes_length] at room
  omega

theorem siblings_le_length (forest : FlatTree) : 8 * forest.numNodes ≤ (encodeForest forest).length ∧
    siblings forest ≤ forest.numNodes := by
  induction forest with
  | nil => exact ⟨Nat.le_refl 0, Nat.le_refl 0⟩
  | node props children younger ihc ihy =>
    simp only [encodeForest, List.length_append, wordBytes_length, BinaryTree.numNodes, siblings]
    omega

theorem flatMap_encodeProperty_le (props : List FlatProperty) :
    props.length ≤ (props.flatMap encodeProperty).length ∧
      ∀ prop ∈ props, prop.data.length ≤ (props.flatMap encodeProperty).length := by
  induction props with
  | nil => exact ⟨Nat.le_refl 0, fun _ none => absurd none List.not_mem_nil⟩
  | cons prop props ih =>
    have here : 1 + prop.data.length ≤ (encodeProperty prop).length := by
      simp only [encodeProperty, List.length_append, CString.bytes_length]
      omega
    rw [List.flatMap_cons, List.length_append, List.length_cons]
    refine ⟨by omega, fun other member => ?_⟩
    rcases List.mem_cons.mp member with rfl | member
    · omega
    · exact Nat.le_add_left_of_le (ih.2 other member)

theorem encodeForest_reads {forest : FlatTree} (names : NamesFit forest)
    (room : (encodeForest forest).length < 2 ^ 32) (fuel : Nat) (enough : forest.numNodes ≤ fuel) :
    Reads (readForest fuel (siblings forest)) (encodeForest forest) forest := by
  induction forest generalizing fuel with
  | nil =>
    cases fuel with
    | zero => exact Reads.pure _
    | succ fuel => exact Reads.pure _
  | node props children younger ihc ihy =>
    obtain ⟨roomProps, roomChildren, roomYounger⟩ := encodeForest_bounds room
    simp only [NamesFit, cells, Multiset.mem_cons, Multiset.mem_add] at names
    simp only [BinaryTree.numNodes] at enough
    cases fuel with
    | zero => omega
    | succ fuel =>
      have sizes := flatMap_encodeProperty_le props
      have count := siblings_le_length children
      have nProperties : (BitVec.ofNat 32 props.length).toNat = props.length := by
        rw [BitVec.toNat_ofNat, Nat.mod_eq_of_lt (by omega)]
      have nChildren : (BitVec.ofNat 32 (siblings children)).toNat = siblings children := by
        rw [BitVec.toNat_ofNat, Nat.mod_eq_of_lt (by omega)]
      have propsRead : Reads (Reader.replicate readProperty props.length)
          (props.flatMap encodeProperty) props := Reads.replicate fun prop member =>
        encodeProperty_reads (names props (Or.inl rfl) prop member)
          (Nat.lt_of_le_of_lt (sizes.2 prop member) roomProps)
      have childrenRead := ihc (fun other member => names other (Or.inr (Or.inl member))) roomChildren
        fuel (by omega)
      have youngerRead := ihy (fun other member => names other (Or.inr (Or.inr member))) roomYounger
        fuel (by omega)
      refine (wordBytes_reads _).bind ((wordBytes_reads _).bind ?_)
      rw [nProperties, nChildren]
      exact propsRead.bind (childrenRead.bind (youngerRead.map (BinaryTree.node props children)))

theorem readWord_length {input rest : List Byte} {value : Word} (read : readWord input = some (value, rest)) :
    input.length = 4 + rest.length := by
  obtain ⟨bytes, later, taken, read⟩ := Reader.bind_some.mp read
  have length := (Reader.take_some taken).2
  split at read
  · obtain ⟨_, rfl⟩ := Prod.mk.inj (Option.some.inj read)
    exact length
  · cases read

theorem readProperty_length {input rest : List Byte} {prop : FlatProperty}
    (read : readProperty input = some (prop, rest)) : input.length = prop.room + rest.length := by
  obtain ⟨field, behind, name, read⟩ := Reader.bind_some.mp read
  obtain ⟨length, behind', counted, read⟩ := Reader.bind_some.mp read
  obtain ⟨data, behind'', valued, read⟩ := Reader.bind_some.mp read
  obtain ⟨rfl, rfl⟩ := Prod.mk.inj (Option.some.inj read)
  obtain ⟨taken, padded, value, valued⟩ := Reader.bind_some.mp valued
  obtain ⟨zeros, behind, skipped, valued⟩ := Reader.bind_some.mp valued
  obtain ⟨rfl, rfl⟩ := Prod.mk.inj (Option.some.inj valued)
  have first := Reader.take_some name
  have second := readWord_length counted
  have third := Reader.take_some value
  have fourth := Reader.take_some skipped
  simp only [FlatProperty.room, third.1]
  omega

theorem readForest_length {fuel count : Nat} {input rest : List Byte} {forest : FlatTree}
    (read : readForest fuel count input = some (forest, rest)) :
    input.length = flattenedLength forest + rest.length := by
  induction fuel generalizing count input rest forest with
  | zero =>
    cases count with
    | zero =>
      obtain ⟨rfl, rfl⟩ := Prod.mk.inj (Option.some.inj read)
      exact (Nat.zero_add _).symm
    | succ count => cases read
  | succ fuel ih =>
    cases count with
    | zero =>
      obtain ⟨rfl, rfl⟩ := Prod.mk.inj (Option.some.inj read)
      exact (Nat.zero_add _).symm
    | succ count =>
      obtain ⟨nProperties, _, first, read⟩ := Reader.bind_some.mp read
      obtain ⟨nChildren, _, second, read⟩ := Reader.bind_some.mp read
      obtain ⟨props, _, third, read⟩ := Reader.bind_some.mp read
      obtain ⟨children, _, below, read⟩ := Reader.bind_some.mp read
      obtain ⟨younger, _, beside, read⟩ := Reader.bind_some.mp read
      obtain ⟨rfl, rfl⟩ := Prod.mk.inj (Option.some.inj read)
      have head := readWord_length first
      have head' := readWord_length second
      have own := Reader.replicate_some readProperty_length third
      have under := ih below
      have behind := ih beside
      rw [flattenedLength]
      omega

end GenericBooter
