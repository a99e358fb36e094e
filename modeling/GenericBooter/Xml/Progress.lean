import GenericBooter.Xml.Reading

namespace GenericBooter

open Linked

def Named (tree : TagTree) : Prop := ∀ label ∈ cells tree, label.2.isSome → label.1 = .key ∨ label.1 = .string

theorem named_nil : Named .nil := fun _ member => absurd member (Multiset.notMem_zero _)

theorem named_node {label : TagLabel} {below beside : TagTree} :
    Named (.node label below beside) ↔
      (label.2.isSome → label.1 = .key ∨ label.1 = .string) ∧ Named below ∧ Named beside := by
  simp only [Named, cells, Multiset.mem_cons, Multiset.mem_add, or_imp, forall_and, forall_eq]

def Outcome.Named : Outcome → Prop
  | .tag label below => GenericBooter.Named (.node label below .nil)
  | _ => True

/-- The call is not stuck, and past what it has read the text is terminated as before. -/
def Advances {α : Type} (good : α → Prop) (least : Nat) (buffer : List Byte) : Except Halt (α × Nat) → Prop
  | .error (.stop _) => False
  | .error _ => True
  | .ok (result, length) => good result ∧ least ≤ length ∧ 0 ∈ buffer.drop length

section Calls

variable {α β : Type} {good : α → Prop} {good' : β → Prop} {least length : Nat} {buffer : List Byte}

theorem Advances.mono {less : Nat} {result : Except Halt (α × Nat)} (advances : Advances good least buffer result)
    (bound : less ≤ least) : Advances good less buffer result := by
  rcases result with (_ | _ | _) | ⟨a, more⟩
  · trivial
  · trivial
  · exact advances
  · exact ⟨advances.1, bound.trans advances.2.1, advances.2.2⟩

theorem Advances.shift {result : Except Halt (α × Nat)} (advances : Advances good least (buffer.drop length) result)
    {f : α → β} (keeps : ∀ a, good a → good' (f a)) :
    Advances good' (length + least) buffer (do
      let (a, more) ← result
      .ok (f a, length + more)) := by
  rcases result with (_ | _ | _) | ⟨a, more⟩
  · trivial
  · trivial
  · exact advances
  · obtain ⟨holds, enough, terminated⟩ := advances
    rw [List.drop_drop] at terminated
    exact ⟨keeps a holds, Nat.add_le_add_left enough length, terminated⟩

end Calls

theorem readTagText_advances (name : CString) {buffer : List Byte} (terminated : 0 ∈ buffer) :
    Advances (fun _ => True) 0 buffer (readTagText name buffer) := by
  obtain ⟨fixed, ran, sound⟩ := fixDataMatchingTag_cases name terminated
  rw [readTagText, ran]
  simp only [liftStop, ok_bind]
  rcases found : fixed.length with _ | length
  · trivial
  · exact ⟨trivial, Nat.zero_le _, (sound length found).1.terminated⟩

theorem readTagLeaf_advances (name : CString) {label : CString → TagLabel} {buffer : List Byte}
    (terminated : 0 ∈ buffer)
    (named : ∀ text, (label text).2.isSome → (label text).1 = .key ∨ (label text).1 = .string) :
    Advances Outcome.Named 0 buffer (readTagLeaf name label buffer) := by
  have advances := readTagText_advances name terminated
  rw [readTagLeaf]
  rcases read : readTagText name buffer with (_ | _ | _) | ⟨text, length⟩ <;> rw [read] at advances
  · trivial
  · trivial
  · exact advances
  · exact ⟨named_node.mpr ⟨named text, named_nil, named_nil⟩, advances.2⟩

structure Progress (fuel : Nat) : Prop where
  next : ∀ {buffer : List Byte}, 0 ∈ buffer → 2 * buffer.length ≤ fuel →
    Advances Outcome.Named 2 buffer (readNextTag fuel buffer)
  items : ∀ {items : TagTree} {buffer : List Byte}, Named items → 0 ∈ buffer → 2 * buffer.length + 1 ≤ fuel →
    Advances Named 0 buffer (readTagItems fuel items buffer)
  list : ∀ {buffer : List Byte} (type : TagType) (empty : Bool), 0 ∈ buffer → 2 * buffer.length + 2 ≤ fuel →
    Advances Outcome.Named 0 buffer (readTagList fuel buffer type empty)
  key : ∀ {buffer : List Byte}, 0 ∈ buffer → 2 * buffer.length + 1 ≤ fuel →
    Advances Outcome.Named 0 buffer (readTagKey fuel buffer)

theorem Progress.zero : Progress 0 where
  next terminated enough := absurd enough (by have := List.length_pos_of_mem terminated; omega)
  items _ _ enough := absurd enough (Nat.not_succ_le_zero _)
  list _ _ _ enough := absurd enough (Nat.not_succ_le_zero _)
  key _ enough := absurd enough (Nat.not_succ_le_zero _)

section Induction

variable {fuel : Nat} (ih : Progress fuel) {buffer : List Byte}

include ih

theorem readNextTag_advances (terminated : 0 ∈ buffer) (enough : 2 * buffer.length ≤ fuel + 1) :
    Advances Outcome.Named 2 buffer (readNextTag (fuel + 1) buffer) := by
  rw [readNextTag]
  rcases getNextTag_cases terminated with none | ⟨before, name, rest, rfl, outside, inside, later⟩
  · simp only [none, liftStop, ok_bind]
    trivial
  · have planted := tagged_planted before name 0x3c later
    have terminated' := planted.terminated
    have size := tagged_length before name rest
    simp only [getNextTag_tagged rest outside inside, liftStop, ok_bind, planted.after]
    have shorter : ((tagged before name rest).drop (before.length + 1 + name.length + 1)).length + 2 ≤
        (tagged before name rest).length := by
      rw [List.length_drop]
      omega
    have after (result : Except Halt (Outcome × Nat)) (advances : Advances Outcome.Named 0
        ((tagged before name rest).drop (before.length + 1 + name.length + 1)) result) :=
      (advances.shift (f := id) fun _ named => named).mono (by omega : 2 ≤ _)
    cases tagBranch _ with
    | plist => exact after (.ok (.unassigned, 0)) ⟨trivial, Nat.zero_le _, terminated'⟩
    | list type empty => exact after _ (ih.list type empty terminated' (by omega))
    | key => exact after _ (ih.key terminated' (by omega))
    | string => exact after _ (readTagLeaf_advances _ terminated' fun _ _ => Or.inr rfl)
    | integer => exact after _ (readTagLeaf_advances _ terminated' fun _ absurd => by cases absurd)
    | data => exact after _ (readTagLeaf_advances _ terminated' fun _ absurd => by cases absurd)
    | date => exact after _ (readTagLeaf_advances _ terminated' fun _ absurd => by cases absurd)
    | boolean type =>
      have named : Named (.node (type, none) .nil .nil) :=
        named_node.mpr ⟨fun absurd => (by cases absurd), named_nil, named_nil⟩
      exact after (.ok (.tag (type, none) .nil, 0)) ⟨named, Nat.zero_le _, terminated'⟩
    | other => exact after (.ok (.null, 0)) ⟨trivial, Nat.zero_le _, terminated'⟩

theorem readTagItems_advances {items : TagTree} (named : Named items) (terminated : 0 ∈ buffer)
    (enough : 2 * buffer.length + 1 ≤ fuel + 1) :
    Advances Named 0 buffer (readTagItems (fuel + 1) items buffer) := by
  have advances := ih.next terminated (by omega)
  rw [readTagItems]
  rcases read : readNextTag fuel buffer with (_ | _ | _) | ⟨outcome, length⟩ <;> rw [read] at advances
  · trivial
  · trivial
  · exact advances
  · obtain ⟨good, least, terminated'⟩ := advances
    simp only [ok_bind]
    cases outcome with
    | unassigned => trivial
    | null => exact ⟨named, Nat.zero_le _, terminated'⟩
    | tag label below =>
      obtain ⟨here, inside, _⟩ := named_node.mp good
      have size := List.length_pos_of_mem terminated'
      rw [List.length_drop] at size
      have later := ih.items (named_node.mpr ⟨here, inside, named⟩) terminated' (by rw [List.length_drop]; omega)
      exact (later.shift (f := id) fun _ named => named).mono (Nat.zero_le _)

theorem readTagList_advances (type : TagType) (empty : Bool) (terminated : 0 ∈ buffer)
    (enough : 2 * buffer.length + 2 ≤ fuel + 1) :
    Advances Outcome.Named 0 buffer (readTagList (fuel + 1) buffer type empty) := by
  have plain {items : TagTree} (named : Named items) : Named (.node (type, none) items .nil) :=
    named_node.mpr ⟨fun absurd => (by cases absurd), named, named_nil⟩
  rw [readTagList]
  cases empty with
  | true => exact ⟨plain named_nil, Nat.zero_le _, terminated⟩
  | false =>
    have advances := ih.items named_nil terminated (by omega)
    rcases read : readTagItems fuel .nil buffer with (_ | _ | _) | ⟨items, length⟩ <;> rw [read] at advances
    · trivial
    · trivial
    · exact advances
    · exact ⟨plain advances.1, Nat.zero_le _, advances.2.2⟩

theorem readTagKey_advances (terminated : 0 ∈ buffer) (enough : 2 * buffer.length + 1 ≤ fuel + 1) :
    Advances Outcome.Named 0 buffer (readTagKey (fuel + 1) buffer) := by
  have advances := readTagText_advances kXMLTagKey terminated
  rw [readTagKey]
  rcases read : readTagText kXMLTagKey buffer with (_ | _ | _) | ⟨text, length⟩ <;> rw [read] at advances
  · trivial
  · trivial
  · exact advances
  · obtain ⟨_, _, terminated'⟩ := advances
    have sub := ih.next terminated' (by rw [List.length_drop]; omega)
    simp only [ok_bind]
    rcases read' : readNextTag fuel (buffer.drop length) with (_ | _ | _) | ⟨outcome, length'⟩ <;> rw [read'] at sub
    · trivial
    · trivial
    · exact sub
    · obtain ⟨good, _, terminated''⟩ := sub
      rw [List.drop_drop] at terminated''
      cases outcome with
      | unassigned => trivial
      | null =>
        exact ⟨named_node.mpr ⟨fun _ => Or.inl rfl, named_nil, named_nil⟩, Nat.zero_le _, terminated''⟩
      | tag label below =>
        exact ⟨named_node.mpr ⟨fun _ => Or.inl rfl, good, named_nil⟩, Nat.zero_le _, terminated''⟩

end Induction

theorem progress (fuel : Nat) : Progress fuel := by
  induction fuel with
  | zero => exact Progress.zero
  | succ fuel ih =>
    exact ⟨readNextTag_advances ih, readTagItems_advances ih, readTagList_advances ih, readTagKey_advances ih⟩

end GenericBooter
