import GenericBooter.Xml.Document

namespace GenericBooter

open Linked

/-- What is read up to the end tag of `name`. Other tags on the way are skipped, and the string stops where the first
    of them is closed. -/
inductive Content (name : CString) : List Byte → CString → Prop where
  | ends (text : Text) {tag : Name} (closes : tag.name.chars = 0x2f :: name.chars) :
      Content name (openTag text tag) text.string
  | skips (text : Text) {tag : Name} {later : List Byte} {string : CString}
      (other : tag.name.chars ≠ 0x2f :: name.chars) (rest : Content name later string) :
      Content name (openTag text tag ++ later) (cString (text.chars ++ 0x3c :: tag.name.chars))

mutual

inductive Stands : List Byte → TagLabel → TagTree → Prop where
  | boolean (gap : Text) (name : Name) {type : TagType} (known : tagBranch name.name = .boolean type) :
      Stands (openTag gap name) (type, none) .nil
  | string (gap : Text) (name : Name) {content : List Byte} {text : CString}
      (known : tagBranch name.name = .string) (inside : Content kXMLTagString content text) :
      Stands (openTag gap name ++ content) (.string, some text) .nil
  | integer (gap : Text) (name : Name) {content : List Byte} {text : CString}
      (known : tagBranch name.name = .integer) (inside : Content kXMLTagInteger content text) :
      Stands (openTag gap name ++ content) (.integer, none) .nil
  | data (gap : Text) (name : Name) {content : List Byte} {text : CString}
      (known : tagBranch name.name = .data) (inside : Content kXMLTagData content text) :
      Stands (openTag gap name ++ content) (.data, none) .nil
  | date (gap : Text) (name : Name) {content : List Byte} {text : CString}
      (known : tagBranch name.name = .date) (inside : Content kXMLTagDate content text) :
      Stands (openTag gap name ++ content) (.date, none) .nil
  | empty (gap : Text) (name : Name) {type : TagType} (known : tagBranch name.name = .list type true) :
      Stands (openTag gap name) (type, none) .nil
  | list (gap : Text) (name : Name) {type : TagType} {body : List Byte} {items : List (TagLabel × TagTree)}
      (known : tagBranch name.name = .list type false) (inside : StandsList body items) :
      Stands (openTag gap name ++ body) (type, none) (sequence items.reverse)
  | key (gap : Text) (name : Name) {content value : List Byte} {text : CString} {label : TagLabel} {below : TagTree}
      (known : tagBranch name.name = .key) (inside : Content kXMLTagKey content text)
      (next : Stands value label below) :
      Stands (openTag gap name ++ (content ++ value)) (.key, some text) (.node label below .nil)
  /-- The tag behind the key stands for nothing, and is taken for the key's value. -/
  | bareKey (gap gap' : Text) (name other : Name) {content : List Byte} {text : CString}
      (known : tagBranch name.name = .key) (inside : Content kXMLTagKey content text)
      (unknown : tagBranch other.name = .other) :
      Stands (openTag gap name ++ (content ++ openTag gap' other)) (.key, some text) .nil

/-- Elements in a row, and behind them any tag that stands for nothing. -/
inductive StandsList : List Byte → List (TagLabel × TagTree) → Prop where
  | ends (gap : Text) (other : Name) (unknown : tagBranch other.name = .other) : StandsList (openTag gap other) []
  | item {first later : List Byte} {label : TagLabel} {below : TagTree} {items : List (TagLabel × TagTree)}
      (here : Stands first label below) (rest : StandsList later items) :
      StandsList (first ++ later) ((label, below) :: items)

end

def Outcome.ReadFrom (consumed : List Byte) : Outcome → Prop
  | .unassigned => ∃ gap name, tagBranch name.name = .plist ∧ consumed = openTag gap name
  | .null => ∃ gap name, tagBranch name.name = .other ∧ consumed = openTag gap name
  | .tag label below => Stands consumed label below

section Tags

variable {rest : List Byte}

theorem getNextTag_openTag {buffer : List Byte} (terminated : 0 ∈ buffer) :
    getNextTag buffer = .ok none ∨ ∃ gap name rest, buffer = openTag gap name ++ rest ∧ 0 ∈ rest := by
  rcases getNextTag_cases terminated with none | ⟨before, name, rest, rfl, outside, inside, later⟩
  · exact Or.inl none
  · refine Or.inr ⟨⟨before, outside⟩, ⟨⟨name, inside.1⟩, inside.2⟩, rest, ?_, later⟩
    rw [openTag_append]

end Tags

section Contents

variable {name : CString}

theorem fixDataMatchingTagFrom_openTag (fuel : Nat) (text : Text) (tag : Name) {rest : List Byte} :
    fixDataMatchingTagFrom name (fuel + 1) (openTag text tag ++ rest) =
      if tag.name.chars = 0x2f :: name.chars then
        .ok ⟨some (openTag text tag).length, text.chars ++ 0 :: (tag.name.chars ++ 0 :: rest)⟩
      else (do
        let later ← fixDataMatchingTagFrom name fuel rest
        .ok ⟨later.length.map ((openTag text tag).length + ·),
          text.chars ++ 0x3c :: (tag.name.chars ++ 0 :: later.buffer)⟩) := by
  have front : (text.chars ++ 0x3c :: (tag.name.chars ++ 0 :: rest)).take
      (text.chars.length + 1 + tag.name.chars.length + 1) = text.chars ++ 0x3c :: (tag.name.chars ++ [0]) := by
    have shape : text.chars ++ 0x3c :: (tag.name.chars ++ 0 :: rest) =
        text.chars ++ 0x3c :: (tag.name.chars ++ [0]) ++ rest := by simp
    rw [shape, List.take_left' (by simp; omega)]
  have behind : (text.chars ++ 0x3c :: (tag.name.chars ++ 0 :: rest)).drop
      (text.chars.length + 1 + tag.name.chars.length + 1) = rest := by
    have shape : text.chars ++ 0x3c :: (tag.name.chars ++ 0 :: rest) =
        text.chars ++ 0x3c :: (tag.name.chars ++ [0]) ++ rest := by simp
    rw [shape, List.drop_left' (by simp; omega)]
  have planted : (text.chars ++ 0x3c :: (tag.name.chars ++ 0 :: rest)).set text.chars.length 0 =
      text.chars ++ 0 :: (tag.name.chars ++ 0 :: rest) := by
    rw [List.set_append_right _ _ (Nat.le_refl _), Nat.sub_self, List.set_cons_zero]
  rw [openTag_append, openTag_length, fixDataMatchingTagFrom, getNextTag_tagged rest text.passes tag.passes]
  simp only [ok_bind, tagName_eq rest tag.passes, planted, front, behind, List.append_assoc, List.cons_append,
    List.nil_append]

theorem cString_planted (text : Text) (rest : List Byte) : cString (text.chars ++ 0 :: rest) = text.string :=
  CString.ext_chars (cString_append_zero text.passes.1 rest)

theorem cString_skipped (text : Text) (tag : Name) (rest : List Byte) :
    cString (text.chars ++ 0x3c :: (tag.name.chars ++ 0 :: rest)) = cString (text.chars ++ 0x3c :: tag.name.chars) := by
  have noNul : 0 ∉ text.chars ++ 0x3c :: tag.name.chars := by
    rw [List.mem_append, List.mem_cons, not_or, not_or]
    exact ⟨text.passes.1, by decide, tag.name.noNul⟩
  have long := cString_append_zero noNul rest
  rw [List.append_assoc, List.cons_append] at long
  apply CString.ext_chars
  rw [long]
  symm
  exact List.takeWhile_eq_self_iff.mpr fun c member => decide_eq_true fun zero => noNul (zero ▸ member)

theorem fixDataMatchingTagFrom_sound (fuel : Nat) {buffer planted : List Byte} {length : Nat} (terminated : 0 ∈ buffer)
    (fixed : fixDataMatchingTagFrom name fuel buffer = .ok ⟨some length, planted⟩) :
    ∃ content rest, buffer = content ++ rest ∧ content.length = length ∧ 0 ∈ rest ∧
      Content name content (cString planted) := by
  induction fuel generalizing buffer planted length with
  | zero => cases fixed
  | succ fuel ih =>
    rcases getNextTag_openTag terminated with none | ⟨text, tag, rest, rfl, later⟩
    · rw [fixDataMatchingTagFrom, none] at fixed
      cases fixed
    · rw [fixDataMatchingTagFrom_openTag] at fixed
      by_cases closes : tag.name.chars = 0x2f :: name.chars
      · rw [if_pos closes] at fixed
        cases fixed
        refine ⟨openTag text tag, rest, rfl, rfl, later, ?_⟩
        rw [cString_planted]
        exact Content.ends text closes
      · rw [if_neg closes, bind_eq_ok] at fixed
        obtain ⟨⟨behind, plantedLater⟩, ran, fixed⟩ := fixed
        cases behind with
        | none => cases fixed
        | some behind =>
          cases fixed
          obtain ⟨content, rest, rfl, rfl, last, inside⟩ := ih later ran
          refine ⟨openTag text tag ++ content, rest, (List.append_assoc _ _ _).symm, List.length_append, last, ?_⟩
          rw [cString_skipped]
          exact Content.skips text closes inside

theorem Content.fixed {content : List Byte} {string : CString} (held : Content name content string) (rest : List Byte)
    (fuel : Nat) (enough : content.length < fuel) : ∃ planted,
      fixDataMatchingTagFrom name fuel (content ++ rest) = .ok ⟨some content.length, planted⟩ ∧
        cString planted = string := by
  induction held generalizing fuel with
  | ends text closes =>
    obtain ⟨fuel, rfl⟩ : ∃ less, fuel = less + 1 := ⟨fuel - 1, by omega⟩
    rw [fixDataMatchingTagFrom_openTag, if_pos closes]
    exact ⟨_, rfl, cString_planted text _⟩
  | skips text other _ ih =>
    obtain ⟨fuel, rfl⟩ : ∃ less, fuel = less + 1 := ⟨fuel - 1, by omega⟩
    rw [List.length_append, openTag_length] at enough
    obtain ⟨planted, ran, _⟩ := ih fuel (by omega)
    rw [List.append_assoc, fixDataMatchingTagFrom_openTag, if_neg other, ran, List.length_append]
    exact ⟨_, rfl, cString_skipped text _ _⟩

theorem readTagText_sound {buffer : List Byte} {text : CString} {length : Nat} (terminated : 0 ∈ buffer)
    (read : readTagText name buffer = .ok (text, length)) :
    ∃ content rest, buffer = content ++ rest ∧ content.length = length ∧ 0 ∈ rest ∧ Content name content text := by
  obtain ⟨fixed, ran, _⟩ := fixDataMatchingTag_cases name terminated
  rw [readTagText, ran] at read
  obtain ⟨total, planted⟩ := fixed
  cases total with
  | none => cases read
  | some total =>
    cases read
    exact fixDataMatchingTagFrom_sound _ terminated ran

theorem Content.read {content : List Byte} {string : CString} (held : Content name content string) (rest : List Byte) :
    readTagText name (content ++ rest) = .ok (string, content.length) := by
  obtain ⟨planted, ran, same⟩ := held.fixed rest ((content ++ rest).length + 1) (by
    rw [List.length_append]
    omega)
  rw [readTagText, fixDataMatchingTag, ran]
  simp only [liftStop, ok_bind, same]

end Contents

structure Sound (fuel : Nat) : Prop where
  next : ∀ {buffer : List Byte} {outcome : Outcome} {length : Nat}, 0 ∈ buffer →
    readNextTag fuel buffer = .ok (outcome, length) →
      ∃ consumed rest, buffer = consumed ++ rest ∧ consumed.length = length ∧ 0 ∈ rest ∧ outcome.ReadFrom consumed
  items : ∀ {buffer : List Byte} {done : List (TagLabel × TagTree)} {items : TagTree} {length : Nat}, 0 ∈ buffer →
    readTagItems fuel (sequence done) buffer = .ok (items, length) →
      ∃ consumed rest list, buffer = consumed ++ rest ∧ consumed.length = length ∧ 0 ∈ rest ∧
        StandsList consumed list ∧ items = sequence (list.reverse ++ done)
  list : ∀ {buffer : List Byte} {type : TagType} {outcome : Outcome} {length : Nat}, 0 ∈ buffer →
    readTagList fuel buffer type false = .ok (outcome, length) →
      ∃ consumed rest items, buffer = consumed ++ rest ∧ consumed.length = length ∧ 0 ∈ rest ∧
        StandsList consumed items ∧ outcome = .tag (type, none) (sequence items.reverse)
  key : ∀ {buffer : List Byte} {outcome : Outcome} {length : Nat}, 0 ∈ buffer →
    readTagKey fuel buffer = .ok (outcome, length) →
      ∃ content value rest text, buffer = content ++ value ++ rest ∧ (content ++ value).length = length ∧ 0 ∈ rest ∧
        Content kXMLTagKey content text ∧
          ((∃ label below, Stands value label below ∧ outcome = .tag (.key, some text) (.node label below .nil)) ∨
            ∃ gap other, tagBranch other.name = .other ∧ value = openTag gap other ∧
              outcome = .tag (.key, some text) .nil)

theorem Sound.zero : Sound 0 where
  next _ read := by cases read
  items _ read := by cases read
  list _ read := by cases read
  key _ read := by cases read

section Soundness

variable {fuel : Nat} (ih : Sound fuel) {buffer : List Byte} {outcome : Outcome} {length : Nat}

include ih

theorem readNextTag_sound (terminated : 0 ∈ buffer) (read : readNextTag (fuel + 1) buffer = .ok (outcome, length)) :
    ∃ consumed rest, buffer = consumed ++ rest ∧ consumed.length = length ∧ 0 ∈ rest ∧ outcome.ReadFrom consumed := by
  rcases getNextTag_openTag terminated with none | ⟨gap, name, rest, rfl, later⟩
  · rw [readNextTag, none] at read
    cases read
  · rw [readNextTag_eq fuel gap name later, bind_eq_ok] at read
    obtain ⟨⟨result, more⟩, branch, equal⟩ := read
    obtain ⟨rfl, rfl⟩ := Prod.mk.inj (Except.ok.inj equal)
    -- A tag with nothing behind it that belongs to it.
    have alone (stands : result.ReadFrom (openTag gap name)) (none : more = 0) :
        ∃ consumed rest', openTag gap name ++ rest = consumed ++ rest' ∧
          consumed.length = (openTag gap name).length + more ∧ 0 ∈ rest' ∧ result.ReadFrom consumed :=
      ⟨_, rest, rfl, by rw [none, Nat.add_zero], later, stands⟩
    have followed {body rest' : List Byte} (split : rest = body ++ rest') (size : body.length = more) (last : 0 ∈ rest')
        (stands : result.ReadFrom (openTag gap name ++ body)) :
        ∃ consumed rest', openTag gap name ++ rest = consumed ++ rest' ∧
          consumed.length = (openTag gap name).length + more ∧ 0 ∈ rest' ∧ result.ReadFrom consumed :=
      ⟨openTag gap name ++ body, rest', by rw [split, List.append_assoc], by rw [List.length_append, size], last, stands⟩
    have leaf {kind : CString} {label : CString → TagLabel} (ran : readTagLeaf kind label rest = .ok (result, more))
        (stands : ∀ content text, Content kind content text → Stands (openTag gap name ++ content) (label text) .nil) :
        ∃ consumed rest', openTag gap name ++ rest = consumed ++ rest' ∧
          consumed.length = (openTag gap name).length + more ∧ 0 ∈ rest' ∧ result.ReadFrom consumed := by
      rw [readTagLeaf, bind_eq_ok] at ran
      obtain ⟨⟨text, size⟩, textRead, equal⟩ := ran
      obtain ⟨rfl, rfl⟩ := Prod.mk.inj (Except.ok.inj equal)
      obtain ⟨content, rest', split, same, last, inside⟩ := readTagText_sound later textRead
      exact followed split same last (stands content text inside)
    cases known : tagBranch name.name with
    | plist =>
      rw [known] at branch
      obtain ⟨rfl, rfl⟩ := Prod.mk.inj (Except.ok.inj branch)
      exact alone ⟨gap, name, known, rfl⟩ rfl
    | list type empty =>
      rw [known] at branch
      cases empty with
      | true =>
        cases fuel with
        | zero => cases branch
        | succ fuel =>
          rw [readBranch, readTagList] at branch
          obtain ⟨rfl, rfl⟩ := Prod.mk.inj (Except.ok.inj branch)
          exact alone (Stands.empty gap name known) rfl
      | false =>
        obtain ⟨body, rest', items, split, size, last, inside, rfl⟩ := ih.list later branch
        exact followed split size last (Stands.list gap name known inside)
    | key =>
      rw [known] at branch
      obtain ⟨content, value, rest', text, split, size, last, inside, next⟩ := ih.key later branch
      rcases next with ⟨label, below, stands, rfl⟩ | ⟨gap', other, unknown, rfl, rfl⟩
      · exact followed split size last (Stands.key gap name known inside stands)
      · exact followed split size last (Stands.bareKey gap gap' name other known inside unknown)
    | string =>
      rw [known, readBranch] at branch
      exact leaf branch fun _ _ inside => Stands.string gap name known inside
    | integer =>
      rw [known, readBranch] at branch
      exact leaf branch fun _ _ inside => Stands.integer gap name known inside
    | data =>
      rw [known, readBranch] at branch
      exact leaf branch fun _ _ inside => Stands.data gap name known inside
    | date =>
      rw [known, readBranch] at branch
      exact leaf branch fun _ _ inside => Stands.date gap name known inside
    | boolean type =>
      rw [known] at branch
      obtain ⟨rfl, rfl⟩ := Prod.mk.inj (Except.ok.inj branch)
      exact alone (Stands.boolean gap name known) rfl
    | other =>
      rw [known] at branch
      obtain ⟨rfl, rfl⟩ := Prod.mk.inj (Except.ok.inj branch)
      exact alone ⟨gap, name, known, rfl⟩ rfl

theorem readTagItems_sound {done : List (TagLabel × TagTree)} {items : TagTree} (terminated : 0 ∈ buffer)
    (read : readTagItems (fuel + 1) (sequence done) buffer = .ok (items, length)) :
    ∃ consumed rest list, buffer = consumed ++ rest ∧ consumed.length = length ∧ 0 ∈ rest ∧
      StandsList consumed list ∧ items = sequence (list.reverse ++ done) := by
  rw [readTagItems, bind_eq_ok] at read
  obtain ⟨⟨result, size⟩, first, read⟩ := read
  obtain ⟨consumed, rest, rfl, rfl, later, stands⟩ := ih.next terminated first
  cases result with
  | unassigned => cases read
  | null =>
    obtain ⟨rfl, rfl⟩ := Prod.mk.inj (Except.ok.inj read)
    obtain ⟨gap, other, unknown, rfl⟩ := stands
    exact ⟨_, rest, [], rfl, rfl, later, StandsList.ends gap other unknown, rfl⟩
  | tag label below =>
    simp only [List.drop_left, bind_eq_ok] at read
    obtain ⟨⟨items', size⟩, behind, read⟩ := read
    obtain ⟨rfl, rfl⟩ := Prod.mk.inj (Except.ok.inj read)
    obtain ⟨body, rest', list, rfl, rfl, last, inside, rfl⟩ := ih.items later (show readTagItems fuel (sequence ((label, below) :: done)) _ = _ from behind)
    refine ⟨consumed ++ body, rest', (label, below) :: list, (List.append_assoc _ _ _).symm, List.length_append, last,
      StandsList.item stands inside, ?_⟩
    rw [List.reverse_cons, List.append_assoc]
    rfl

theorem readTagList_sound {type : TagType} (terminated : 0 ∈ buffer)
    (read : readTagList (fuel + 1) buffer type false = .ok (outcome, length)) :
    ∃ consumed rest items, buffer = consumed ++ rest ∧ consumed.length = length ∧ 0 ∈ rest ∧
      StandsList consumed items ∧ outcome = .tag (type, none) (sequence items.reverse) := by
  rw [readTagList, if_neg Bool.false_ne_true, bind_eq_ok] at read
  obtain ⟨⟨items, size⟩, inner, read⟩ := read
  obtain ⟨rfl, rfl⟩ := Prod.mk.inj (Except.ok.inj read)
  obtain ⟨consumed, rest, list, split, size, last, inside, rfl⟩ := ih.items terminated (show readTagItems fuel (sequence []) buffer = _ from inner)
  rw [List.append_nil]
  exact ⟨consumed, rest, list, split, size, last, inside, rfl⟩

theorem readTagKey_sound (terminated : 0 ∈ buffer) (read : readTagKey (fuel + 1) buffer = .ok (outcome, length)) :
    ∃ content value rest text, buffer = content ++ value ++ rest ∧ (content ++ value).length = length ∧ 0 ∈ rest ∧
      Content kXMLTagKey content text ∧
        ((∃ label below, Stands value label below ∧ outcome = .tag (.key, some text) (.node label below .nil)) ∨
          ∃ gap other, tagBranch other.name = .other ∧ value = openTag gap other ∧
            outcome = .tag (.key, some text) .nil) := by
  rw [readTagKey, bind_eq_ok] at read
  obtain ⟨⟨text, size⟩, textRead, read⟩ := read
  obtain ⟨content, rest, rfl, rfl, later, inside⟩ := readTagText_sound terminated textRead
  simp only [List.drop_left, bind_eq_ok] at read
  obtain ⟨⟨result, size⟩, next, read⟩ := read
  obtain ⟨value, rest', rfl, rfl, last, stands⟩ := ih.next later next
  have split : content ++ (value ++ rest') = content ++ value ++ rest' := (List.append_assoc _ _ _).symm
  cases result with
  | unassigned => cases read
  | null =>
    obtain ⟨rfl, rfl⟩ := Prod.mk.inj (Except.ok.inj read)
    obtain ⟨gap, other, unknown, same⟩ := stands
    exact ⟨content, value, rest', text, split, List.length_append, last, inside, Or.inr ⟨gap, other, unknown, same, rfl⟩⟩
  | tag label below =>
    obtain ⟨rfl, rfl⟩ := Prod.mk.inj (Except.ok.inj read)
    exact ⟨content, value, rest', text, split, List.length_append, last, inside, Or.inl ⟨label, below, stands, rfl⟩⟩

end Soundness

theorem sound (fuel : Nat) : Sound fuel := by
  induction fuel with
  | zero => exact Sound.zero
  | succ fuel ih => exact ⟨readNextTag_sound ih, readTagItems_sound ih, readTagList_sound ih, readTagKey_sound ih⟩

section Completeness

theorem readNextTag_content {gap : Text} {name : Name} {kind : CString} {content : List Byte} {text : CString} {rest : List Byte}
    {fuel : Nat} (label : CString → TagLabel) (terminated : 0 ∈ rest) (inside : Content kind content text)
    (known : readBranch fuel (content ++ rest) (tagBranch name.name) = readTagLeaf kind label (content ++ rest)) :
    readNextTag (fuel + 1) (openTag gap name ++ content ++ rest) =
      .ok (.tag (label text) .nil, (openTag gap name ++ content).length) := by
  rw [List.append_assoc, readNextTag_eq fuel gap name (List.mem_append_right _ terminated), known, readTagLeaf,
    inside.read rest, List.length_append]
  rfl

theorem Stands.nonempty {consumed : List Byte} {label : TagLabel} {below : TagTree} (stands : Stands consumed label below) :
    1 ≤ consumed.length := by
  cases stands
  all_goals
    simp only [List.length_append, openTag_length]
    omega

mutual

theorem Stands.reads : ∀ {consumed : List Byte} {label : TagLabel} {below : TagTree}, Stands consumed label below →
    ∀ rest : List Byte, 0 ∈ rest → ∀ fuel, 2 * consumed.length ≤ fuel →
      readNextTag fuel (consumed ++ rest) = .ok (.tag label below, consumed.length)
  | _, _, _, .boolean gap name known, rest, terminated, fuel, enough => by
    rw [openTag_length] at enough
    obtain ⟨fuel, rfl⟩ : ∃ less, fuel = less + 1 := ⟨fuel - 1, by omega⟩
    rw [readNextTag_eq fuel gap name terminated, known]
    rfl
  | _, _, _, .empty gap name known, rest, terminated, fuel, enough => by
    rw [openTag_length] at enough
    obtain ⟨fuel, rfl⟩ : ∃ less, fuel = less + 2 := ⟨fuel - 2, by omega⟩
    rw [readNextTag_eq (fuel + 1) gap name terminated, known]
    rfl
  | _, _, _, .string gap _ known inside, rest, terminated, fuel, enough => by
    rw [List.length_append, openTag_length] at enough
    obtain ⟨fuel, rfl⟩ : ∃ less, fuel = less + 1 := ⟨fuel - 1, by omega⟩
    exact readNextTag_content (fun text => (.string, some text)) terminated inside (by rw [known]; rfl)
  | _, _, _, .integer gap _ known inside, rest, terminated, fuel, enough => by
    rw [List.length_append, openTag_length] at enough
    obtain ⟨fuel, rfl⟩ : ∃ less, fuel = less + 1 := ⟨fuel - 1, by omega⟩
    exact readNextTag_content (fun _ => (.integer, none)) terminated inside (by rw [known]; rfl)
  | _, _, _, .data gap _ known inside, rest, terminated, fuel, enough => by
    rw [List.length_append, openTag_length] at enough
    obtain ⟨fuel, rfl⟩ : ∃ less, fuel = less + 1 := ⟨fuel - 1, by omega⟩
    exact readNextTag_content (fun _ => (.data, none)) terminated inside (by rw [known]; rfl)
  | _, _, _, .date gap _ known inside, rest, terminated, fuel, enough => by
    rw [List.length_append, openTag_length] at enough
    obtain ⟨fuel, rfl⟩ : ∃ less, fuel = less + 1 := ⟨fuel - 1, by omega⟩
    exact readNextTag_content (fun _ => (.date, none)) terminated inside (by rw [known]; rfl)
  | _, _, _, @Stands.list gap name _ body _ known inside, rest, terminated, fuel, enough => by
    rw [List.length_append, openTag_length] at enough
    obtain ⟨fuel, rfl⟩ : ∃ less, fuel = less + 2 := ⟨fuel - 2, by omega⟩
    have items := inside.reads [] rest terminated fuel (by omega)
    rw [List.append_nil] at items
    rw [List.append_assoc, readNextTag_eq (fuel + 1) gap name (List.mem_append_right _ terminated), known, readBranch,
      readTagList, if_neg Bool.false_ne_true, show (BinaryTree.nil : TagTree) = sequence [] from rfl, items, List.length_append]
    rfl
  | _, _, _, @Stands.key gap name content value _ _ _ known inside next, rest, terminated, fuel,
      enough => by
    rw [List.length_append, List.length_append, openTag_length] at enough
    obtain ⟨fuel, rfl⟩ : ∃ less, fuel = less + 2 := ⟨fuel - 2, by omega⟩
    have read := next.reads rest terminated fuel (by omega)
    have behind : 0 ∈ content ++ value ++ rest := List.mem_append_right _ terminated
    rw [List.append_assoc (openTag gap name), readNextTag_eq (fuel + 1) gap name behind, known, readBranch, readTagKey,
      List.append_assoc content, inside.read (value ++ rest)]
    simp only [ok_bind, List.drop_left, read, List.length_append]
  | _, _, _, @Stands.bareKey gap gap' name other content _ known inside unknown, rest, terminated,
      fuel, enough => by
    rw [List.length_append, List.length_append, openTag_length, openTag_length] at enough
    obtain ⟨fuel, rfl⟩ : ∃ less, fuel = less + 3 := ⟨fuel - 3, by omega⟩
    have read := readNextTag_eq fuel gap' other terminated
    rw [unknown] at read
    have behind : 0 ∈ content ++ openTag gap' other ++ rest := List.mem_append_right _ terminated
    rw [List.append_assoc (openTag gap name), readNextTag_eq (fuel + 2) gap name behind, known, readBranch, readTagKey,
      List.append_assoc content, inside.read (openTag gap' other ++ rest)]
    simp only [ok_bind, List.drop_left, read, readBranch, List.length_append, Nat.add_zero]

theorem StandsList.reads : ∀ {consumed : List Byte} {items : List (TagLabel × TagTree)}, StandsList consumed items →
    ∀ (done : List (TagLabel × TagTree)) (rest : List Byte), 0 ∈ rest → ∀ fuel, 2 * consumed.length + 1 ≤ fuel →
      readTagItems fuel (sequence done) (consumed ++ rest) = .ok (sequence (items.reverse ++ done), consumed.length)
  | _, _, .ends gap other unknown, done, rest, terminated, fuel, enough => by
    rw [openTag_length] at enough
    obtain ⟨fuel, rfl⟩ : ∃ less, fuel = less + 2 := ⟨fuel - 2, by omega⟩
    rw [readTagItems, readNextTag_eq fuel gap other terminated, unknown]
    rfl
  | _, _, @StandsList.item first later label below _ here rest', done, rest, terminated,
      fuel, enough => by
    rw [List.length_append] at enough
    obtain ⟨fuel, rfl⟩ : ∃ less, fuel = less + 1 := ⟨fuel - 1, by omega⟩
    have behind : 0 ∈ later ++ rest := List.mem_append_right _ terminated
    have read := here.reads (later ++ rest) behind fuel (by omega)
    have nonempty := here.nonempty
    have items := rest'.reads ((label, below) :: done) rest terminated fuel (by omega)
    rw [List.append_assoc, readTagItems, read]
    simp only [ok_bind, List.drop_left]
    rw [show BinaryTree.node label below (sequence done) = sequence ((label, below) :: done) from rfl, items,
      List.reverse_cons, List.append_assoc, List.length_append]
    rfl

end

end Completeness

/-- What a call makes of an opening `<dict>` or `<array>` where no `<plist ` tag is nested: one tag for each element up
    to the first tag that stands for nothing, whichever that is. Every such text is accepted. -/
theorem list_reads {malloc : Malloc} {stack : Nat → Option Nat} {run : XmlRun}
    (reachable : XmlReachable malloc stack run) (gap : Text) (name : Name) {type : TagType}
    (opens : tagBranch name.name = .list type false) (tag : Option Nat) {rest : List Byte} (terminated : 0 ∈ rest) :
    (¬ NestedPlist (openTag gap name ++ rest) → ∀ p length,
      xmlParseNextTag tag (openTag gap name ++ rest) run.xml = .ok p → p.length = some length →
        ∃ root tags body items behind, p.tag = some root ∧ rest = body ++ behind ∧
          length = (openTag gap name ++ body).length ∧ StandsList body items ∧
            Rooted p.xml (some root) tags (.node (type, none) (sequence items.reverse) .nil)) ∧
    (run.xml.malloc.Succeeds → ∀ body items behind, rest = body ++ behind → 0 ∈ behind → StandsList body items →
      ∃ p root tags, xmlParseNextTag tag (openTag gap name ++ rest) run.xml = .ok p ∧
        p.length = some (openTag gap name ++ body).length ∧ p.tag = some root ∧
          Rooted p.xml (some root) tags (.node (type, none) (sequence items.reverse) .nil)) := by
  obtain ⟨trees, holds⟩ := reachable.holds
  have behind : 0 ∈ openTag gap name ++ rest := List.mem_append_right _ terminated
  have refines := (refinement (2 * (openTag gap name ++ rest).length + 2)).next tag behind holds.held
  have advances := (progress (2 * (openTag gap name ++ rest).length + 2)).next behind (Nat.le_add_right _ 2)
  constructor
  · intro plain p length ran total
    change parseNextTag _ tag _ run.xml = .ok p at ran
    rcases read : readNextTag (2 * (openTag gap name ++ rest).length + 2) (openTag gap name ++ rest) with
      (_ | _ | _) | ⟨outcome, size⟩ <;> rw [read] at refines advances
    · rcases refines with ⟨p', ran', none, _⟩ | ⟨panics, _⟩
      · obtain rfl := Except.ok.inj (ran.symm.trans ran')
        cases none.symm.trans total
      · cases ran.symm.trans panics
    · exact absurd read plain
    · exact advances.elim
    · rcases refines with ⟨_, ⟨p', ran', none, _⟩ | ⟨panics, _⟩⟩ | ⟨p', ran', total', _, leaves⟩
      · obtain rfl := Except.ok.inj (ran.symm.trans ran')
        cases none.symm.trans total
      · cases ran.symm.trans panics
      · obtain rfl := Except.ok.inj (ran.symm.trans ran')
        obtain rfl : size = length := Option.some.inj (total'.symm.trans total)
        rw [readNextTag_eq _ gap name terminated, opens, bind_eq_ok] at read
        obtain ⟨⟨result, more⟩, branch, equal⟩ := read
        obtain ⟨rfl, rfl⟩ := Prod.mk.inj (Except.ok.inj equal)
        obtain ⟨body, rest', items, split, rfl, _, inside, rfl⟩ := (sound _).list terminated branch
        obtain ⟨root, tags, top, added⟩ := leaves
        have rooted := added.rooted
        rw [top] at rooted
        exact ⟨root, _, body, items, rest', top, split, (List.length_append).symm, inside, rooted⟩
  · rintro good body items rest' rfl last inside
    have stands := Stands.list gap name opens inside
    have read := stands.reads rest' last (2 * (openTag gap name ++ (body ++ rest')).length + 2) (by
      simp only [List.length_append]
      omega)
    rw [List.append_assoc] at read
    rw [read] at refines
    rcases refines with ⟨bad, _⟩ | ⟨p, ran, total, _, root, tags, top, added⟩
    · exact absurd good bad
    · have rooted := added.rooted
      rw [top] at rooted
      exact ⟨p, root, _, ran, total, top, rooted⟩

def twoStringsInside : List Byte := (ascii "<string>a</string><string>a</string></array>").chars ++ [0]

theorem twoStrings_reads : ∃ root tags items, twoStringsParsed.tag = some root ∧
    StandsList (ascii "<string>a</string><string>a</string></array>").chars items ∧
      Rooted twoStringsParsed.xml (some root) tags (.node (.array, none) (sequence items.reverse) .nil) := by
  have reachable : XmlReachable roomy (fun _ => none) ⟨Xml.bss roomy fun _ => none, 0⟩ := Relation.ReflTransGen.refl
  have text : openTag noText Name.array ++ twoStringsInside = twoStrings := by decide
  have plain : ¬ NestedPlist (openTag noText Name.array ++ twoStringsInside) := by decide +kernel
  have ran : xmlParseNextTag none (openTag noText Name.array ++ twoStringsInside) (Xml.bss roomy fun _ => none) =
      .ok twoStringsParsed := by
    rw [text]
    exact okParsed_eq (by decide +kernel)
  have total : twoStringsParsed.length = some 51 := by decide +kernel
  obtain ⟨sound, _⟩ := list_reads reachable noText Name.array rfl none (show 0 ∈ twoStringsInside by decide)
  obtain ⟨root, tags, body, items, behind, top, split, size, inside, rooted⟩ := sound plain _ _ ran total
  have whole : (ascii "<string>a</string><string>a</string></array>").chars = body := by
    have length : body.length = 44 := by
      rw [List.length_append] at size
      have front : (openTag noText Name.array).length = 7 := by decide
      omega
    exact List.append_inj_left split (by rw [length]; decide)
  rw [whole]
  exact ⟨root, tags, items, top, inside, rooted⟩

/-- The end tag of the dict is taken for the value of the key, and that of an array for the end of the dict. -/
def wrongEnd : List Byte := (ascii "<dict><key>a</key></dict></array>").chars

def wrongEndParsed : Parsed := okParsed (xmlParseNextTag none (wrongEnd ++ [0]) (Xml.bss roomy fun _ => none))

theorem wrongEnd_accepted : ¬ NestedPlist (wrongEnd ++ [0]) ∧
    xmlParseNextTag none (wrongEnd ++ [0]) (Xml.bss roomy fun _ => none) = .ok wrongEndParsed ∧
      wrongEndParsed.length = some wrongEnd.length ∧
      (∃ root, wrongEndParsed.tag = some root ∧ (wrongEndParsed.xml.tags root).type = .dict) ∧
        ¬ (ascii "</dict>").chars <:+ wrongEnd := by
  refine ⟨by decide +kernel, okParsed_eq (by decide +kernel), by decide +kernel, ?_, by decide⟩
  obtain ⟨root, top⟩ := Option.isSome_iff_exists.mp (show wrongEndParsed.tag.isSome = true by decide +kernel)
  have dict : wrongEndParsed.tag.map (fun root => (wrongEndParsed.xml.tags root).type) = some .dict := by decide +kernel
  rw [top] at dict
  exact ⟨root, top, Option.some.inj dict⟩

end GenericBooter
