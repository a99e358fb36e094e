import GenericBooter.DeviceTree.Runs

namespace GenericBooter

open ByteMemory Linked Reading

def propertyRecords (offset : Nat) : List FlatProperty → List (Nat × FlatProperty)
  | [] => []
  | prop :: later => (offset, prop) :: propertyRecords (offset + prop.room) later

def records (offset : Nat) : FlatTree → List (Nat × FlatProperty)
  | .nil => []
  | .node props children younger =>
    propertyRecords (offset + 8) props ++ (records (offset + 8 + propertiesRoom props) children ++
      records (offset + 8 + propertiesRoom props + flattenedLength children) younger)

structure RecordHolds (m : Memory) (base : Word) (offset : Nat) (prop : FlatProperty) : Prop where
  terminated : 0 ∈ read m (base + BitVec.ofNat 32 offset) 32
  name : cString (read m (base + BitVec.ofNat 32 offset) 32) = prop.name
  length : load32 m (base + BitVec.ofNat 32 (offset + 32)) = BitVec.ofNat 32 prop.data.length
  value : read m (base + BitVec.ofNat 32 (offset + 36)) prop.data.length = prop.data

/-- Flattening `tree` into the buffer at `buf` stores within the buffer only, and leaves every record for a
    reader to find. -/
structure FlattensTo (dt : DeviceTree) (tree : Forest) (buf : Word) (m : Machine) (done : Flattened) : Prop where
  ran : dtFlattenDeviceTree dt (some buf) m = .ok done
  within : ∃ made, done.machine.stores = made ++ m.stores ∧ ∀ store ∈ made, ∀ address, store.Touches address →
    Covers buf dt.totalSize.toNat address
  records : ∀ record ∈ records 0 (flatTree tree), RecordHolds done.machine.memory buf record.1 record.2
  decodes : readTree (read done.machine.memory buf dt.totalSize.toNat) = some (flatTree tree, [])

section Place

variable {tree : FlatTree} {offset : Nat} {record : Nat × FlatProperty}

theorem propertyRecords_place {props : List FlatProperty} (member : record ∈ propertyRecords offset props) :
    offset ≤ record.1 ∧ record.1 + record.2.room ≤ offset + propertiesRoom props := by
  induction props generalizing offset with
  | nil => exact absurd member List.not_mem_nil
  | cons prop later ih =>
    have total : propertiesRoom (prop :: later) = prop.room + propertiesRoom later := List.sum_cons
    rcases List.mem_cons.mp member with rfl | member
    · rw [total, ← Nat.add_assoc]
      exact ⟨Nat.le_refl _, Nat.le_add_right _ _⟩
    · have place := ih member
      omega

theorem records_place (member : record ∈ records offset tree) :
    offset + 8 ≤ record.1 ∧ record.1 + record.2.room ≤ offset + flattenedLength tree := by
  induction tree generalizing offset with
  | nil => exact absurd member List.not_mem_nil
  | node props children younger ihc ihy =>
    rw [records, List.mem_append, List.mem_append] at member
    rw [flattenedLength, ← propertiesRoom]
    rcases member with own | below | beside
    · have place := propertyRecords_place own
      omega
    · have place := ihc below
      omega
    · have place := ihy beside
      omega

theorem mem_propertyRecords (offset : Nat) {props : List FlatProperty} {prop : FlatProperty} (member : prop ∈ props) :
    ∃ place, (place, prop) ∈ propertyRecords offset props := by
  induction props generalizing offset with
  | nil => exact absurd member List.not_mem_nil
  | cons first later ih =>
    rcases List.mem_cons.mp member with rfl | member
    · exact ⟨offset, List.mem_cons_self⟩
    · obtain ⟨place, inside⟩ := ih (offset + first.room) member
      exact ⟨place, List.mem_cons_of_mem _ inside⟩

theorem propertyRecords_mem {props : List FlatProperty} (member : record ∈ propertyRecords offset props) :
    record.2 ∈ props := by
  induction props generalizing offset with
  | nil => exact absurd member List.not_mem_nil
  | cons prop later ih =>
    rcases List.mem_cons.mp member with rfl | member
    · exact List.mem_cons_self
    · exact List.mem_cons_of_mem _ (ih member)

theorem records_mem (member : record ∈ records offset tree) : ∃ props ∈ cells tree, record.2 ∈ props := by
  induction tree generalizing offset with
  | nil => exact absurd member List.not_mem_nil
  | node props children younger ihc ihy =>
    simp only [cells, Multiset.mem_cons, Multiset.mem_add]
    rw [records, List.mem_append, List.mem_append] at member
    rcases member with own | below | beside
    · exact ⟨props, Or.inl rfl, propertyRecords_mem own⟩
    · obtain ⟨other, node, inside⟩ := ihc below
      exact ⟨other, Or.inr (Or.inl node), inside⟩
    · obtain ⟨other, node, inside⟩ := ihy beside
      exact ⟨other, Or.inr (Or.inr node), inside⟩

theorem mem_records (offset : Nat) {props : List FlatProperty} {prop : FlatProperty} (node : props ∈ cells tree)
    (member : prop ∈ props) : ∃ place, (place, prop) ∈ records offset tree := by
  induction tree generalizing offset with
  | nil => exact absurd node (Multiset.notMem_zero _)
  | node own children younger ihc ihy =>
    rw [cells, Multiset.mem_cons, Multiset.mem_add] at node
    simp only [records, List.mem_append]
    rcases node with rfl | below | beside
    · obtain ⟨place, inside⟩ := mem_propertyRecords (offset + 8) member
      exact ⟨place, Or.inl inside⟩
    · obtain ⟨place, inside⟩ := ihc (offset + 8 + propertiesRoom own) below
      exact ⟨place, Or.inr (Or.inl inside)⟩
    · obtain ⟨place, inside⟩ := ihy (offset + 8 + propertiesRoom own + flattenedLength children) beside
      exact ⟨place, Or.inr (Or.inr inside)⟩

end Place

section Order

variable {tree : FlatTree} {offset : Nat} {put : Put} {record : Nat × FlatProperty}

theorem propertyPuts_place {prop : FlatProperty} (member : put ∈ propertyPuts offset prop) :
    offset ≤ put.patch.offset ∧ put.patch.offset ≤ offset + prop.room := by
  simp only [propertyPuts, List.mem_cons, List.not_mem_nil, or_false] at member
  rw [FlatProperty.room]
  rcases member with rfl | rfl | rfl <;> simp only [Put.patch] <;> omega

theorem propertiesPuts_place {props : List FlatProperty} (member : put ∈ propertiesPuts offset props) :
    offset ≤ put.patch.offset ∧ put.patch.offset ≤ offset + propertiesRoom props := by
  induction props generalizing offset with
  | nil => exact absurd member List.not_mem_nil
  | cons prop later ih =>
    have total : propertiesRoom (prop :: later) = prop.room + propertiesRoom later := List.sum_cons
    rcases List.mem_append.mp member with own | behind
    · have place := propertyPuts_place own
      omega
    · have place := ih behind
      omega

theorem forestPuts_place (member : put ∈ forestPuts offset tree) :
    offset ≤ put.patch.offset ∧ put.patch.offset ≤ offset + flattenedLength tree := by
  induction tree generalizing offset with
  | nil => exact absurd member List.not_mem_nil
  | node props children younger ihc ihy =>
    simp only [forestPuts, List.mem_append, List.mem_cons] at member
    rw [flattenedLength, ← propertiesRoom]
    rcases member with own | rfl | below | rfl | beside
    · have place := propertiesPuts_place own
      omega
    · simp only [Put.patch]
      omega
    · have place := ihc below
      omega
    · simp only [Put.patch]
      omega
    · have place := ihy beside
      omega

theorem propertiesPuts_name {props : List FlatProperty} (member : record ∈ propertyRecords offset props) :
    ∃ first later, propertiesPuts offset props = first ++ .bytes record.1 record.2.name.bytes :: later ∧
      ∀ other ∈ later, record.1 + 32 ≤ other.patch.offset := by
  induction props generalizing offset with
  | nil => exact absurd member List.not_mem_nil
  | cons prop later ih =>
    rcases List.mem_cons.mp member with rfl | member
    · refine ⟨[], [.word (offset + 32) (BitVec.ofNat 32 prop.data.length), .bytes (offset + 36) prop.data] ++
        propertiesPuts (offset + prop.room) later, rfl, fun other inside => ?_⟩
      rw [FlatProperty.room] at inside
      rcases List.mem_append.mp inside with own | behind
      · simp only [List.mem_cons, List.not_mem_nil, or_false] at own
        rcases own with rfl | rfl <;> simp only [Put.patch] <;> omega
      · have place := propertiesPuts_place behind
        omega
    · obtain ⟨first, behind, split, above⟩ := ih member
      exact ⟨propertyPuts offset prop ++ first, behind, by rw [propertiesPuts, split, List.append_assoc], above⟩

theorem forestPuts_name (member : record ∈ records offset tree) :
    ∃ first later, forestPuts offset tree = first ++ .bytes record.1 record.2.name.bytes :: later ∧
      ∀ other ∈ later, other.patch.Avoids record.1 32 := by
  induction tree generalizing offset with
  | nil => exact absurd member List.not_mem_nil
  | node props children younger ihc ihy =>
    have head (count : Word) (inside : offset + 8 ≤ record.1) (distance : Nat) (small : distance ≤ 4) :
        (Put.word (offset + distance) count).patch.Avoids record.1 32 := by
      refine Or.inl ?_
      simp only [Put.patch, wordBytes_length]
      omega
    have above {other : Put} {place : Nat} (start : place ≤ other.patch.offset) (behind : record.1 + 32 ≤ place) :
        other.patch.Avoids record.1 32 := Or.inr (Nat.le_trans behind start)
    have room : 36 ≤ record.2.room := Nat.le_add_right 36 _
    rw [records, List.mem_append, List.mem_append] at member
    rcases member with own | below | beside
    · obtain ⟨first, later, split, behind⟩ := propertiesPuts_name own
      have place := propertyRecords_place own
      refine ⟨first, later ++ _, by rw [forestPuts, split, List.append_assoc]; rfl, fun other inside => ?_⟩
      simp only [List.mem_append, List.mem_cons] at inside
      rcases inside with inside | rfl | inside | rfl | inside
      · exact Or.inr (behind other inside)
      · exact head _ (by omega) 0 (by decide)
      · exact above (forestPuts_place inside).1 (by omega)
      · exact head _ (by omega) 4 (by decide)
      · exact above (forestPuts_place inside).1 (by omega)
    · obtain ⟨first, later, split, behind⟩ := ihc below
      have place := records_place below
      refine ⟨propertiesPuts (offset + 8) props ++ .word offset (BitVec.ofNat 32 props.length) :: first, later ++ _,
        by rw [forestPuts, split, List.append_assoc, List.append_assoc]; rfl, fun other inside => ?_⟩
      simp only [List.mem_append, List.mem_cons] at inside
      rcases inside with inside | rfl | inside
      · exact behind other inside
      · exact head _ (by omega) 4 (by decide)
      · exact above (forestPuts_place inside).1 (by omega)
    · obtain ⟨first, later, split, behind⟩ := ihy beside
      refine ⟨propertiesPuts (offset + 8) props ++ .word offset (BitVec.ofNat 32 props.length) ::
        (forestPuts (offset + 8 + propertiesRoom props) children ++
          .word (offset + 4) (BitVec.ofNat 32 (siblings children)) :: first), later, ?_, behind⟩
      rw [forestPuts, split, List.append_assoc, List.cons_append, List.append_assoc, List.cons_append]

end Order

section Fitting

variable {tree : FlatTree} {offset : Nat} {record : Nat × FlatProperty}

theorem encodeProperties_split {props : List FlatProperty} (fits : ∀ prop ∈ props, prop.name.chars.length ≤ 31)
    (member : record ∈ propertyRecords offset props) : ∃ first last,
      props.flatMap encodeProperty = first ++ (encodeProperty record.2 ++ last) ∧ offset + first.length = record.1 := by
  induction props generalizing offset with
  | nil => exact absurd member List.not_mem_nil
  | cons prop later ih =>
    rcases List.mem_cons.mp member with rfl | member
    · exact ⟨[], later.flatMap encodeProperty, rfl, rfl⟩
    · obtain ⟨first, last, split, place⟩ := ih (fun other inside => fits other (List.mem_cons_of_mem _ inside)) member
      refine ⟨encodeProperty prop ++ first, last, ?_, ?_⟩
      · rw [List.flatMap_cons, split, List.append_assoc]
      · rw [List.length_append, encodeProperty_length prop (fits prop List.mem_cons_self)]
        omega

theorem encodeForest_split (names : NamesFit tree) (member : record ∈ records offset tree) : ∃ first last,
    encodeForest tree = first ++ (encodeProperty record.2 ++ last) ∧ offset + first.length = record.1 := by
  induction tree generalizing offset with
  | nil => exact absurd member List.not_mem_nil
  | node props children younger ihc ihy =>
    simp only [NamesFit, cells, Multiset.mem_cons, Multiset.mem_add] at names
    have short := names props (Or.inl rfl)
    have namesBelow : NamesFit children := fun other inside => names other (Or.inr (Or.inl inside))
    have namesBeside : NamesFit younger := fun other inside => names other (Or.inr (Or.inr inside))
    have length := flatMap_encodeProperty_length short
    have lengthBelow := encodeForest_length namesBelow
    rw [records, propertiesRoom, List.mem_append, List.mem_append] at member
    rw [encodeForest]
    rcases member with own | below | beside
    · obtain ⟨first, last, split, place⟩ := encodeProperties_split short own
      refine ⟨wordBytes (BitVec.ofNat 32 props.length) ++ (wordBytes (BitVec.ofNat 32 (siblings children)) ++ first),
        last ++ (encodeForest children ++ encodeForest younger), by rw [split]; simp only [List.append_assoc], ?_⟩
      simp only [List.length_append, wordBytes_length]
      omega
    · obtain ⟨first, last, split, place⟩ := ihc namesBelow below
      refine ⟨wordBytes (BitVec.ofNat 32 props.length) ++ (wordBytes (BitVec.ofNat 32 (siblings children)) ++
        (props.flatMap encodeProperty ++ first)), last ++ encodeForest younger,
        by rw [split]; simp only [List.append_assoc], ?_⟩
      simp only [List.length_append, wordBytes_length]
      omega
    · obtain ⟨first, last, split, place⟩ := ihy namesBeside beside
      refine ⟨wordBytes (BitVec.ofNat 32 props.length) ++ (wordBytes (BitVec.ofNat 32 (siblings children)) ++
        (props.flatMap encodeProperty ++ (encodeForest children ++ first))), last,
        by rw [split]; simp only [List.append_assoc], ?_⟩
      simp only [List.length_append, wordBytes_length]
      omega

theorem recordHolds_written (m : Memory) (base : Word) {prop : FlatProperty} {first last : List Byte}
    (fits : prop.name.chars.length ≤ 31) (room : (first ++ (encodeProperty prop ++ last)).length ≤ 2 ^ 32) :
    RecordHolds (write m base (first ++ (encodeProperty prop ++ last))) base first.length prop := by
  have width : (prop.name.bytes ++ List.replicate (32 - prop.name.bytes.length) 0).length = 32 := by
    rw [List.length_append, List.length_replicate, CString.bytes_length]
    omega
  generalize named : prop.name.bytes ++ List.replicate (32 - prop.name.bytes.length) (0 : Byte) = field at width
  have bytes : first ++ (encodeProperty prop ++ last) = first ++ (field ++ (wordBytes (BitVec.ofNat 32 prop.data.length) ++
      (prop.data ++ (List.replicate (padding prop.data.length) 0 ++ last)))) := by
    rw [encodeProperty, named]
    simp only [List.append_assoc]
  rw [bytes] at room ⊢
  have name := read_write_part m base first field _ room
  have length := read_write_part m base (first ++ field) (wordBytes (BitVec.ofNat 32 prop.data.length))
    (prop.data ++ (List.replicate (padding prop.data.length) 0 ++ last)) (by rw [List.append_assoc]; exact room)
  have value := read_write_part m base (first ++ (field ++ wordBytes (BitVec.ofNat 32 prop.data.length))) prop.data
    (List.replicate (padding prop.data.length) 0 ++ last) (by simp only [List.append_assoc]; exact room)
  simp only [List.append_assoc, List.length_append, width, wordBytes_length] at name length value
  refine ⟨?_, ?_, load32_of_read length, value⟩
  · rw [name, ← named, CString.bytes]
    exact List.mem_append_left _ (List.mem_append_right _ (List.mem_singleton_self _))
  · rw [name, ← named, CString.bytes, List.append_assoc]
    exact CString.ext_chars (cString_append_zero prop.name.noNul _)

end Fitting

section Call

variable {dt : DeviceTree} {tree : Forest} {buf : Word}

theorem Represents.totalSize_toNat (held : Represents dt tree) (room : flattenedLength (flatTree tree) < 2 ^ 32) :
    dt.totalSize.toNat = flattenedLength (flatTree tree) := by
  rw [totalSize_eq held, BitVec.toNat_ofNat, Nat.mod_eq_of_lt room]

theorem dtFlattenDeviceTree_puts (held : Represents dt tree) (nonempty : tree ≠ .nil)
    (room : flattenedLength (flatTree tree) < 2 ^ 32) (nonnull : buf ≠ 0) (m : Machine) :
    dtFlattenDeviceTree dt (some buf) m = .ok ⟨some buf, dt.totalSize, dt,
      (m.bzero buf dt.totalSize).putAll buf (forestPuts 0 (flatTree tree))⟩ := by
  have nonzero : dt.totalSize ≠ 0 := by
    intro zero
    have size := held.totalSize_toNat room
    rw [zero] at size
    cases tree with
    | nil => exact nonempty rfl
    | node label left right =>
      change 0 = 8 + _ + _ + _ at size
      omega
  have ran := (dt.flatten_eq buf dt.walkLimit).1 dt.rootNode 0 (m.bzero buf dt.totalSize)
  simp only [held.unrolls, ok_bind, BitVec.add_zero] at ran
  rw [dtFlattenDeviceTree, if_neg nonzero, if_neg nonnull]
  simp only [ran, ok_bind]

theorem FlattensTo.machine {m : Machine} {done : Flattened} (flattens : FlattensTo dt tree buf m done)
    (held : Represents dt tree) (nonempty : tree ≠ .nil) (room : flattenedLength (flatTree tree) < 2 ^ 32)
    (nonnull : buf ≠ 0) :
    done.machine = (m.bzero buf dt.totalSize).putAll buf (forestPuts 0 (flatTree tree)) := by
  have ran := flattens.ran
  rw [dtFlattenDeviceTree_puts held nonempty room nonnull] at ran
  exact congrArg Flattened.machine (Except.ok.inj ran).symm

theorem FlattensTo.puts_within {m : Machine} {done : Flattened} (flattens : FlattensTo dt tree buf m done)
    (held : Represents dt tree) (nonempty : tree ≠ .nil) (room : flattenedLength (flatTree tree) < 2 ^ 32)
    (nonnull : buf ≠ 0) {put : Put} (member : put ∈ forestPuts 0 (flatTree tree)) :
    put.patch.Within (flattenedLength (flatTree tree)) := by
  obtain ⟨made, stores, inside⟩ := flattens.within
  rw [flattens.machine held nonempty room nonnull, (putAll_steps _ _ _).1] at stores
  have all : ((forestPuts 0 (flatTree tree)).map (Put.store buf)).reverse ++ [.bytes buf dt.totalSize.toNat] = made := by
    have equal : ((forestPuts 0 (flatTree tree)).map (Put.store buf)).reverse ++ [.bytes buf dt.totalSize.toNat] ++
        m.stores = made ++ m.stores := by
      rw [← stores, List.append_assoc]
      rfl
    exact List.append_cancel_right equal
  have place := (forestPuts_place member).2
  rw [Nat.zero_add] at place
  rw [← Patch.within_iff put.patch buf (by omega) room, ← held.totalSize_toNat room]
  intro address covered
  refine inside (put.store buf) ?_ address ((put.touches_iff buf address).mpr covered)
  rw [← all]
  exact List.mem_append_left _ (List.mem_reverse.mpr (List.mem_map_of_mem member))

theorem FlattensTo.room {m : Machine} {done : Flattened} (flattens : FlattensTo dt tree buf m done) :
    flattenedLength (flatTree tree) < 2 ^ 32 := by
  have length := readForest_length flattens.decodes
  rw [read_length, List.length_nil] at length
  have bound := dt.totalSize.isLt
  omega

end Call

/-- Flattening a tree keeps to its buffer and to its records exactly when every name fits into the field for it and the
    whole into the address space. -/
theorem flattensTo_iff {dt : DeviceTree} {tree : Forest} (held : Represents dt tree) (nonempty : tree ≠ .nil)
    {buf : Word} (nonnull : buf ≠ 0) (m : Machine) :
    (∃ done, FlattensTo dt tree buf m done) ↔ NamesFit (flatTree tree) ∧ flattenedLength (flatTree tree) < 2 ^ 32 := by
  constructor
  · rintro ⟨done, flattens⟩
    have room := flattens.room
    refine ⟨fun props node prop member => ?_, room⟩
    by_contra long
    obtain ⟨place, inside⟩ := mem_records 0 node member
    obtain ⟨first, later, split, behind⟩ := forestPuts_name inside
    have spot := records_place inside
    have bytes := prop.name.bytes_length
    have within : ∀ other ∈ first.map Put.patch ++ (Put.bytes place prop.name.bytes).patch :: later.map Put.patch,
        other.Within (flattenedLength (flatTree tree)) := by
      rw [← List.map_cons, ← List.map_append, ← split]
      intro other shared
      obtain ⟨put, met, rfl⟩ := List.mem_map.mp shared
      exact flattens.puts_within held nonempty room nonnull met
    have kept (i : Nat) (bound : i < 32) :
        done.machine.memory (buf + BitVec.ofNat 32 place + BitVec.ofNat 32 i) = prop.name.chars[i] := by
      rw [flattens.machine held nonempty room nonnull, putAll_memory, split, List.map_append, List.map_cons, add_ofNat]
      refine (writeAll_kept within (by omega) (i := i) (show i < prop.name.bytes.length by omega) ?_).trans ?_
      · intro other shared
        obtain ⟨put, met, rfl⟩ := List.mem_map.mp shared
        have apart := behind put met
        simp only [Patch.Avoids, Put.patch] at apart ⊢
        omega
      · exact List.getElem_append_left (by omega)
    obtain ⟨i, small, zero⟩ := List.mem_map.mp (flattens.records _ inside).terminated
    rw [List.mem_range] at small
    rw [kept i small] at zero
    exact prop.name.noNul (zero ▸ List.getElem_mem _)
  · rintro ⟨names, room⟩
    have size := held.totalSize_toNat room
    have length := encodeForest_length names
    obtain ⟨buf', dt', m', ran, _, given, memory, made, steps, inside⟩ :=
      dtFlattenDeviceTree_spec held nonempty names room buf m
    obtain ⟨rfl, rfl⟩ := given nonnull
    rw [← totalSize_eq held] at ran
    refine ⟨_, ran, ⟨made, steps.1, ?_⟩, ?_, ?_⟩
    · rw [size]
      exact inside
    · intro record member
      obtain ⟨first, last, encoded, place⟩ := encodeForest_split names member
      obtain ⟨props, node, own⟩ := records_mem member
      rw [Nat.zero_add] at place
      change RecordHolds m'.memory _ _ _
      rw [memory, encoded, ← place]
      exact recordHolds_written m.memory buf' (names props node record.2 own) (by rw [← encoded]; omega)
    · have reads := encodeTree_reads names (held.one_root nonempty) room
      change readTree (read m'.memory _ _) = _
      rw [size, memory, ← length, read_write _ _ _ (by omega), readTree]
      exact reads.complete

end GenericBooter
