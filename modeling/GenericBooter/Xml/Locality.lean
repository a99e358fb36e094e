import GenericBooter.Xml.Runs

namespace GenericBooter

/-- The indices a scan looks at, the one that ends it included. -/
def scanIndices (stop : Byte) : List Byte → List Nat
  | [] => [0]
  | c :: rest => 0 :: if c = 0 ∨ c = stop then [] else (scanIndices stop rest).map (1 + ·)

def stringIndices (buffer : List Byte) : List Nat := scanIndices 0 buffer

def behind (start : Nat) (indices : List Nat) : List Nat := indices.map (start + ·)

/-- The NUL is planted at the last one. -/
def getNextTagIndices (buffer : List Byte) : List Nat :=
  scanIndices 0x3c buffer ++ match scanTo 0x3c buffer with
    | .error _ => []
    | .ok cnt => if buffer.getD cnt 0 = 0 then [] else behind (cnt + 1) (scanIndices 0x3e (buffer.drop (cnt + 1)))

def tagNameIndices (next : NextTag) : List Nat := behind next.tag (stringIndices (next.buffer.drop next.tag))

def fixDataIndicesFrom (tag : CString) : Nat → List Byte → List Nat
  | 0, _ => []
  | fuel + 1, buffer =>
    getNextTagIndices buffer ++ match getNextTag buffer with
      | .ok (some next) => tagNameIndices next ++
        if (cString (next.buffer.drop next.tag)).chars = 0x2f :: tag.chars then [next.start]
        else behind next.length (fixDataIndicesFrom tag fuel (next.buffer.drop next.length))
      | _ => []

def fixDataIndices (tag : CString) (buffer : List Byte) : List Nat := fixDataIndicesFrom tag (buffer.length + 1) buffer

def tagStringIndices (buffer : List Byte) (xml : Xml) : List Nat :=
  fixDataIndices kXMLTagString buffer ++ match fixDataMatchingTag buffer kXMLTagString with
    | .ok ⟨some _, text⟩ => if (newTag xml).1.isSome then stringIndices text else []
    | _ => []

mutual

def nextTagIndices : Nat → List Byte → Xml → List Nat
  | 0, _, _ => []
  | fuel + 1, buffer, xml =>
    getNextTagIndices buffer ++ match getNextTag buffer with
      | .ok (some next) =>
        let rest := next.buffer.drop next.length
        tagNameIndices next ++ behind next.length (match tagBranch (cString (next.buffer.drop next.tag)) with
          | .list _ empty => tagListIndices fuel rest empty xml
          | .key => tagKeyIndices fuel rest xml
          | .string => tagStringIndices rest xml
          | .integer => fixDataIndices kXMLTagInteger rest
          | .data => fixDataIndices kXMLTagData rest
          | .date => fixDataIndices kXMLTagDate rest
          | .plist | .boolean _ | .other => [])
      | _ => []

def tagItemsIndices : Nat → Option Nat → Option Nat → List Byte → Xml → List Nat
  | 0, _, _, _, _ => []
  | fuel + 1, tmpTag, tagList, buffer, xml =>
    nextTagIndices fuel buffer xml ++ match parseNextTag fuel tmpTag buffer xml with
      | .ok ⟨some length, some tmpTag, text, xml⟩ =>
        behind length (tagItemsIndices fuel (some tmpTag) (some tmpTag) (text.drop length)
          (xml.setTag tmpTag { xml.tags tmpTag with tagNext := tagList }))
      | _ => []

def tagListIndices : Nat → List Byte → Bool → Xml → List Nat
  | 0, _, _, _ => []
  | fuel + 1, buffer, empty, xml =>
    if empty then [] else tagItemsIndices fuel xml.local'.1 none buffer xml.local'.2

def tagKeyIndices : Nat → List Byte → Xml → List Nat
  | 0, _, _ => []
  | fuel + 1, buffer, xml =>
    fixDataIndices kXMLTagKey buffer ++ match fixDataMatchingTag buffer kXMLTagKey with
      | .ok ⟨some length, text⟩ =>
        behind length (nextTagIndices fuel (text.drop length) xml.local'.2) ++
          match parseNextTag fuel xml.local'.1 (text.drop length) xml.local'.2 with
          | .ok ⟨some _, _, later, xml⟩ =>
            if (newTag xml).1.isSome then stringIndices (text.take length ++ later) else []
          | _ => []
      | _ => []

end

def xmlParseNextTagIndices (buffer : List Byte) (xml : Xml) : List Nat :=
  nextTagIndices (2 * buffer.length + 2) buffer xml

def Inside (buffer : List Byte) (indices : List Nat) : Prop := ∀ i ∈ indices, i < buffer.length

section Inside

variable {buffer text : List Byte} {length : Nat} {indices indices' : List Nat}

theorem inside_nil : Inside buffer [] := fun _ member => absurd member List.not_mem_nil

theorem Inside.append (first : Inside buffer indices) (second : Inside buffer indices') :
    Inside buffer (indices ++ indices') := List.forall_mem_append.mpr ⟨first, second⟩

theorem Inside.behind (inside : Inside (text.drop length) indices) (size : text.length = buffer.length) :
    Inside buffer (behind length indices) := by
  intro i member
  obtain ⟨j, member', rfl⟩ := List.mem_map.mp member
  have bound := inside j member'
  rw [List.length_drop] at bound
  omega

theorem scanIndices_inside (stop : Byte) (terminated : 0 ∈ buffer) : Inside buffer (scanIndices stop buffer) := by
  induction buffer with
  | nil => exact absurd terminated List.not_mem_nil
  | cons c rest ih =>
    rw [scanIndices]
    intro i member
    rcases List.mem_cons.mp member with rfl | later
    · exact Nat.succ_pos _
    · split at later
      · exact absurd later List.not_mem_nil
      · rename_i goesOn
        obtain ⟨j, member', rfl⟩ := List.mem_map.mp later
        have bound := ih ((List.mem_cons.mp terminated).resolve_left fun zero => goesOn (Or.inl zero.symm)) j member'
        rw [List.length_cons]
        omega

theorem getNextTagIndices_inside (terminated : 0 ∈ buffer) : Inside buffer (getNextTagIndices buffer) := by
  rw [getNextTagIndices]
  apply (scanIndices_inside 0x3c terminated).append
  obtain ⟨before, c, after, rfl, outside, ends, later⟩ := scanTo_splits 0x3c terminated
  rw [scanTo_passes outside c after ends]
  have open' : (before ++ c :: after).getD before.length 0 = c := by simp
  have name : (before ++ c :: after).drop (before.length + 1) = after := by simp [List.drop_append]
  simp only [open']
  split
  · exact inside_nil
  · rename_i other
    have planted := scanIndices_inside 0x3e (later other)
    rw [← name] at planted
    exact planted.behind rfl

theorem getNextTag_planted {next : NextTag} (terminated : 0 ∈ buffer) (ran : getNextTag buffer = .ok (some next)) :
    Planted buffer next.buffer next.length ∧ 2 ≤ next.length ∧ 0 ∈ next.buffer.drop next.tag ∧
      next.start < buffer.length := by
  rcases getNextTag_cases terminated with none | ⟨before, name, rest, rfl, outside, inside, later⟩
  · rw [none] at ran
    cases ran
  · rw [getNextTag_tagged rest outside inside] at ran
    obtain rfl := Option.some.inj (Except.ok.inj ran)
    have size := tagged_length before name rest
    refine ⟨tagged_planted before name 0x3c later, ?_, ?_, ?_⟩
    · simp only
      omega
    · simp [List.drop_append]
    · simp only
      omega

theorem tagNameIndices_inside {next : NextTag} (terminated : 0 ∈ buffer) (ran : getNextTag buffer = .ok (some next)) :
    Inside buffer (tagNameIndices next) := by
  obtain ⟨planted, _, named, _⟩ := getNextTag_planted terminated ran
  exact (scanIndices_inside 0 named).behind planted.size

theorem fixDataIndicesFrom_inside (tag : CString) (fuel : Nat) (terminated : 0 ∈ buffer) :
    Inside buffer (fixDataIndicesFrom tag fuel buffer) := by
  induction fuel generalizing buffer with
  | zero => exact inside_nil
  | succ fuel ih =>
    rw [fixDataIndicesFrom]
    apply (getNextTagIndices_inside terminated).append
    rcases ran : getNextTag buffer with stop | _ | next
    · exact inside_nil
    · exact inside_nil
    · obtain ⟨planted, _, _, start⟩ := getNextTag_planted terminated ran
      apply (tagNameIndices_inside terminated ran).append
      split
      · intro i member
        rwa [List.mem_singleton.mp member]
      · exact (ih planted.rest_terminated).behind planted.size

theorem fixDataIndices_inside (tag : CString) (terminated : 0 ∈ buffer) : Inside buffer (fixDataIndices tag buffer) :=
  fixDataIndicesFrom_inside tag _ terminated

theorem tagStringIndices_inside (xml : Xml) (terminated : 0 ∈ buffer) : Inside buffer (tagStringIndices buffer xml) := by
  rw [tagStringIndices]
  apply (fixDataIndices_inside kXMLTagString terminated).append
  obtain ⟨⟨_ | length, text⟩, ran, sound⟩ := fixDataMatchingTag_cases kXMLTagString terminated <;> rw [ran]
  · exact inside_nil
  · obtain ⟨planted, named⟩ := sound length rfl
    simp only
    split
    · have strings := scanIndices_inside 0 (List.mem_of_mem_take named)
      intro i member
      rw [← planted.size]
      exact strings i member
    · exact inside_nil

end Inside

section Beyond

variable {buffer : List Byte}

theorem scanTo_beyond {stop : Byte} {cnt : Nat} (ran : scanTo stop buffer = .ok cnt) (beyond : List Byte) :
    scanTo stop (buffer ++ beyond) = .ok cnt ∧ cnt < buffer.length := by
  induction buffer generalizing cnt with
  | nil => cases ran
  | cons c rest ih =>
    rw [scanTo] at ran
    rw [List.cons_append, scanTo, List.length_cons]
    split at ran
    · rename_i ends
      obtain rfl := Except.ok.inj ran
      rw [if_pos ends]
      exact ⟨rfl, Nat.succ_pos _⟩
    · rename_i goesOn
      obtain ⟨less, ran', done⟩ := bind_eq_ok.mp ran
      obtain rfl := Except.ok.inj done
      obtain ⟨ran'', bound⟩ := ih ran'
      rw [if_neg goesOn, ran'']
      exact ⟨rfl, Nat.succ_lt_succ bound⟩

theorem getD_beyond {i : Nat} (bound : i < buffer.length) (beyond : List Byte) :
    (buffer ++ beyond).getD i 0 = buffer.getD i 0 := by
  rw [List.getD_eq_getElem?_getD, List.getD_eq_getElem?_getD, List.getElem?_append_left bound]

def NextTag.beyond (next : NextTag) (beyond : List Byte) : NextTag := { next with buffer := next.buffer ++ beyond }

def Fixed.beyond (fixed : Fixed) (beyond : List Byte) : Fixed := { fixed with buffer := fixed.buffer ++ beyond }

def Parsed.beyond (p : Parsed) (beyond : List Byte) : Parsed := { p with buffer := p.buffer ++ beyond }

theorem getNextTag_beyond {result : Option NextTag} (ran : getNextTag buffer = .ok result) (beyond : List Byte) :
    getNextTag (buffer ++ beyond) = .ok (result.map fun next => next.beyond beyond) := by
  simp only [getNextTag, bind_eq_ok] at ran
  obtain ⟨cnt, scanned, ran⟩ := ran
  obtain ⟨scanned', bound⟩ := scanTo_beyond scanned beyond
  simp only [getNextTag, scanned', ok_bind, getD_beyond bound]
  split at ran
  · rename_i none
    obtain rfl := Except.ok.inj ran
    rw [if_pos none]
    rfl
  · rename_i opened
    obtain ⟨more, scanned₂, ran⟩ := bind_eq_ok.mp ran
    obtain ⟨scanned₂', bound₂⟩ := scanTo_beyond scanned₂ beyond
    rw [List.length_drop] at bound₂
    have bound' : cnt + 1 + more < buffer.length := by omega
    rw [if_neg opened, List.drop_append_of_le_length (by omega), scanned₂']
    simp only [ok_bind, getD_beyond bound']
    split at ran
    · rename_i none
      obtain rfl := Except.ok.inj ran
      rw [if_pos none]
      rfl
    · rename_i closed
      obtain rfl := Except.ok.inj ran
      rw [if_neg closed, List.set_append_left _ _ bound']
      rfl

theorem cString_drop_beyond {i : Nat} (named : 0 ∈ buffer.drop i) (beyond : List Byte) :
    cString ((buffer ++ beyond).drop i) = cString (buffer.drop i) := by
  have bound := List.length_pos_of_mem named
  rw [List.length_drop] at bound
  rw [List.drop_append_of_le_length (by omega), cString_append named]

theorem fixDataMatchingTagFrom_beyond (tag : CString) {fuel : Nat} {fixed : Fixed} (terminated : 0 ∈ buffer)
    (ran : fixDataMatchingTagFrom tag fuel buffer = .ok fixed) (more : Nat) (beyond : List Byte) :
    fixDataMatchingTagFrom tag (fuel + more) (buffer ++ beyond) = .ok (fixed.beyond beyond) := by
  induction fuel generalizing buffer fixed with
  | zero => cases ran
  | succ fuel ih =>
    rw [fixDataMatchingTagFrom] at ran
    obtain ⟨result, scanned, ran⟩ := bind_eq_ok.mp ran
    rw [Nat.add_right_comm, fixDataMatchingTagFrom, getNextTag_beyond scanned]
    cases result with
    | none =>
      obtain rfl := Except.ok.inj ran
      rfl
    | some next =>
      obtain ⟨planted, _, named, start⟩ := getNextTag_planted terminated scanned
      have inside := planted.inside
      simp only at ran
      simp only [ok_bind, Option.map_some, NextTag.beyond, cString_drop_beyond named]
      split at ran
      · rename_i found
        obtain rfl := Except.ok.inj ran
        rw [if_pos found, List.set_append_left _ _ (by rw [planted.size]; exact start)]
        rfl
      · rename_i other
        obtain ⟨later, ran', done⟩ := bind_eq_ok.mp ran
        obtain rfl := Except.ok.inj done
        have size := planted.size
        rw [if_neg other, List.drop_append_of_le_length (by omega), List.take_append_of_le_length (by omega),
          ih planted.rest_terminated ran']
        simp only [ok_bind, Fixed.beyond, List.append_assoc]

theorem fixDataMatchingTag_beyond {tag : CString} {fixed : Fixed} (terminated : 0 ∈ buffer)
    (ran : fixDataMatchingTag buffer tag = .ok fixed) (beyond : List Byte) :
    fixDataMatchingTag (buffer ++ beyond) tag = .ok (fixed.beyond beyond) := by
  rw [fixDataMatchingTag, List.length_append, Nat.add_right_comm]
  exact fixDataMatchingTagFrom_beyond tag terminated ran _ beyond

end Beyond

def Returns (least : Nat) (buffer : List Byte) (p : Parsed) : Prop :=
  ∀ pos, p.length = some pos → Planted buffer p.buffer pos ∧ least ≤ pos

/-- The call returns as it should, and `wider`, which it is with more behind the text, returns the same. -/
def Stays (least : Nat) (buffer : List Byte) (result : Except Stop Parsed)
    (wider : Nat → List Byte → Except Stop Parsed) : Prop :=
  ∀ p, result = .ok p → Returns least buffer p ∧ ∀ more beyond, wider more beyond = .ok (p.beyond beyond)

section Calls

variable {buffer text : List Byte} {length least : Nat} {tag : Option Nat} {xml : Xml}

theorem Returns.failed {p : Parsed} (failed : p.length = none) : Returns least buffer p := by
  intro pos total
  rw [failed] at total
  cases total

theorem Stays.returned {p : Parsed} {wider : Nat → List Byte → Except Stop Parsed} (returns : Returns least buffer p)
    (wide : ∀ more beyond, wider more beyond = .ok (p.beyond beyond)) : Stays least buffer (.ok p) wider := by
  rintro _ ⟨⟩
  exact ⟨returns, wide⟩

theorem Stays.shift {result : Except Stop Parsed} {wider : Nat → List Byte → Except Stop Parsed}
    (here : Planted buffer text length) (stays : Stays least (text.drop length) result wider) :
    Stays (length + least) buffer
      (do
        let parsed ← result
        .ok { parsed with length := parsed.length.map (length + ·), buffer := text.take length ++ parsed.buffer })
      (fun more beyond => do
        let parsed ← wider more beyond
        .ok { parsed with length := parsed.length.map (length + ·), buffer := text.take length ++ parsed.buffer }) := by
  intro p ran
  obtain ⟨parsed, called, done⟩ := bind_eq_ok.mp ran
  obtain rfl := Except.ok.inj done
  obtain ⟨returns, wide⟩ := stays parsed called
  constructor
  · intro pos total
    obtain ⟨part, equal, rfl⟩ := Option.map_eq_some_iff.mp total
    obtain ⟨planted, enough⟩ := returns part equal
    exact ⟨here.chain planted, Nat.add_le_add_left enough length⟩
  · intro more beyond
    simp only [wide, ok_bind, Parsed.beyond, List.append_assoc]

theorem parseTagLeaf_stays (name : CString) (type : TagType) (terminated : 0 ∈ buffer) :
    Stays 0 buffer (parseTagLeaf name type tag buffer xml)
      (fun _ beyond => parseTagLeaf name type tag (buffer ++ beyond) xml) := by
  obtain ⟨fixed, ran, sound⟩ := fixDataMatchingTag_cases name terminated
  have wide (beyond : List Byte) := fixDataMatchingTag_beyond terminated ran beyond
  simp only [parseTagLeaf, ran, wide, ok_bind, Fixed.beyond]
  cases found : fixed.length with
  | none => exact Stays.returned (Returns.failed rfl) fun _ _ => rfl
  | some length =>
    rcases newTag xml with ⟨_ | top, xml'⟩
    · exact Stays.returned (Returns.failed rfl) fun _ _ => rfl
    · refine Stays.returned ?_ fun _ _ => rfl
      rintro _ ⟨⟩
      exact ⟨(sound length found).1, Nat.zero_le _⟩

theorem parseTagString_stays (terminated : 0 ∈ buffer) :
    Stays 0 buffer (parseTagString tag buffer xml) (fun _ beyond => parseTagString tag (buffer ++ beyond) xml) := by
  obtain ⟨fixed, ran, sound⟩ := fixDataMatchingTag_cases kXMLTagString terminated
  have wide (beyond : List Byte) := fixDataMatchingTag_beyond terminated ran beyond
  simp only [parseTagString, ran, wide, ok_bind, Fixed.beyond]
  cases found : fixed.length with
  | none => exact Stays.returned (Returns.failed rfl) fun _ _ => rfl
  | some length =>
    obtain ⟨planted, named⟩ := sound length found
    rcases newTag xml with ⟨_ | top, xml'⟩
    · exact Stays.returned (Returns.failed rfl) fun _ _ => rfl
    · simp only [cString_append (List.mem_of_mem_take named)]
      intro p shown
      obtain ⟨interned, ran', done⟩ := bind_eq_ok.mp shown
      obtain rfl := Except.ok.inj done
      simp only [ran', ok_bind]
      refine ⟨?_, fun _ _ => rfl⟩
      rintro _ ⟨⟩
      exact ⟨planted, Nat.zero_le _⟩

theorem parseTagBoolean_stays (type : TagType) (terminated : 0 ∈ buffer) :
    Stays 0 buffer (.ok (parseTagBoolean type tag buffer xml))
      (fun _ beyond => .ok (parseTagBoolean type tag (buffer ++ beyond) xml)) := by
  simp only [parseTagBoolean]
  rcases newTag xml with ⟨_ | top, xml'⟩
  · exact Stays.returned (Returns.failed rfl) fun _ _ => rfl
  · refine Stays.returned ?_ fun _ _ => rfl
    rintro _ ⟨⟩
    exact ⟨Planted.refl terminated, Nat.zero_le _⟩

theorem Stays.listed {result : Except Stop Parsed} {wider : Nat → List Byte → Except Stop Parsed} (type : TagType)
    (stays : Stays 0 buffer result wider) :
    let finish := fun items : Parsed => match items.length with
      | none => do
        let xml ← xmlFreeTag items.xml items.tag
        Except.ok (⟨none, tag, items.buffer, xml⟩ : Parsed)
      | some pos =>
        match newTag items.xml with
        | (none, xml) => do
          let xml ← xmlFreeTag xml items.tag
          .ok ⟨none, tag, items.buffer, xml⟩
        | (some tmpTag, xml) =>
          .ok ⟨some pos, some tmpTag, items.buffer, xml.setTag tmpTag ⟨type, none, items.tag, none⟩⟩
    Stays 0 buffer (result >>= finish) (fun more beyond => wider more beyond >>= finish) := by
  intro finish p ran
  obtain ⟨items, called, ran⟩ := bind_eq_ok.mp ran
  obtain ⟨returns, wide⟩ := stays items called
  simp only [wide, ok_bind]
  simp only [finish, Parsed.beyond] at ran ⊢
  cases total : items.length with
  | none =>
    rw [total] at ran
    obtain ⟨xml, freed, done⟩ := bind_eq_ok.mp ran
    obtain rfl := Except.ok.inj done
    simp only [freed, ok_bind]
    exact ⟨Returns.failed rfl, fun _ _ => trivial⟩
  | some pos =>
    rw [total] at ran
    rcases taken : newTag items.xml with ⟨_ | top, xml'⟩ <;> simp only [taken] at ran ⊢
    · obtain ⟨xml, freed, done⟩ := bind_eq_ok.mp ran
      obtain rfl := Except.ok.inj done
      simp only [freed, ok_bind]
      exact ⟨Returns.failed rfl, fun _ _ => trivial⟩
    · obtain rfl := Except.ok.inj ran
      refine ⟨?_, fun _ _ => rfl⟩
      rintro _ ⟨⟩
      exact returns pos total

end Calls

structure Staying (fuel : Nat) : Prop where
  next : ∀ {buffer : List Byte} (tag : Option Nat) (xml : Xml), 0 ∈ buffer →
    Stays 2 buffer (parseNextTag fuel tag buffer xml)
      (fun more beyond => parseNextTag (fuel + more) tag (buffer ++ beyond) xml)
  items : ∀ {buffer : List Byte} (tmpTag tagList : Option Nat) (xml : Xml), 0 ∈ buffer →
    Stays 0 buffer (parseTagItems fuel tmpTag tagList buffer xml)
      (fun more beyond => parseTagItems (fuel + more) tmpTag tagList (buffer ++ beyond) xml)
  list : ∀ {buffer : List Byte} (tag : Option Nat) (type : TagType) (empty : Bool) (xml : Xml), 0 ∈ buffer →
    Stays 0 buffer (parseTagList fuel tag buffer type empty xml)
      (fun more beyond => parseTagList (fuel + more) tag (buffer ++ beyond) type empty xml)
  key : ∀ {buffer : List Byte} (tag : Option Nat) (xml : Xml), 0 ∈ buffer →
    Stays 0 buffer (parseTagKey fuel tag buffer xml)
      (fun more beyond => parseTagKey (fuel + more) tag (buffer ++ beyond) xml)

section Induction

variable {fuel : Nat} (ih : Staying fuel) {buffer : List Byte} (terminated : 0 ∈ buffer)

include ih terminated

theorem parseNextTag_stays (tag : Option Nat) (xml : Xml) :
    Stays 2 buffer (parseNextTag (fuel + 1) tag buffer xml)
      (fun more beyond => parseNextTag (fuel + 1 + more) tag (buffer ++ beyond) xml) := by
  rcases scanned : getNextTag buffer with stop | _ | next
  · rw [parseNextTag, scanned]
    rintro _ ⟨⟩
  · simp only [Nat.add_right_comm fuel 1, parseNextTag, scanned, getNextTag_beyond scanned, ok_bind, Option.map_none]
    exact Stays.returned (Returns.failed rfl) fun _ _ => rfl
  · obtain ⟨planted, least, named, _⟩ := getNextTag_planted terminated scanned
    have rest := planted.rest_terminated
    have inside : next.length ≤ next.buffer.length := by
      rw [planted.size]
      exact planted.inside
    have mono {result : Except Stop Parsed} {wider : Nat → List Byte → Except Stop Parsed}
        (stays : Stays (next.length + 0) buffer result wider) : Stays 2 buffer result wider := by
      intro p ran
      obtain ⟨returns, wide⟩ := stays p ran
      exact ⟨fun pos total => ⟨(returns pos total).1, least.trans (returns pos total).2⟩, wide⟩
    have kept (assigned : Option Nat) : Stays 0 (next.buffer.drop next.length)
        (.ok ⟨some 0, assigned, next.buffer.drop next.length, xml⟩)
        (fun _ beyond => .ok ⟨some 0, assigned, next.buffer.drop next.length ++ beyond, xml⟩) := by
      refine Stays.returned ?_ fun _ _ => rfl
      rintro _ ⟨⟩
      exact ⟨Planted.refl rest, Nat.zero_le _⟩
    simp only [Nat.add_right_comm fuel 1, parseNextTag, scanned, getNextTag_beyond scanned, ok_bind, Option.map_some,
      NextTag.beyond, cString_drop_beyond named, List.drop_append_of_le_length inside,
      List.take_append_of_le_length inside]
    apply mono
    cases tagBranch (cString (next.buffer.drop next.tag)) with
    | plist => exact Stays.shift planted (kept tag)
    | list type empty => exact Stays.shift planted (ih.list tag type empty xml rest)
    | key => exact Stays.shift planted (ih.key tag xml rest)
    | string => exact Stays.shift planted (parseTagString_stays rest)
    | integer => exact Stays.shift planted (parseTagLeaf_stays _ _ rest)
    | data => exact Stays.shift planted (parseTagLeaf_stays _ _ rest)
    | date => exact Stays.shift planted (parseTagLeaf_stays _ _ rest)
    | boolean type => exact Stays.shift planted (parseTagBoolean_stays type rest)
    | other => exact Stays.shift planted (kept none)

theorem parseTagItems_stays (tmpTag tagList : Option Nat) (xml : Xml) :
    Stays 0 buffer (parseTagItems (fuel + 1) tmpTag tagList buffer xml)
      (fun more beyond => parseTagItems (fuel + 1 + more) tmpTag tagList (buffer ++ beyond) xml) := by
  intro p ran
  rw [parseTagItems] at ran
  obtain ⟨item, called, ran⟩ := bind_eq_ok.mp ran
  obtain ⟨returns, wide⟩ := ih.next tmpTag xml terminated item called
  simp only [Nat.add_right_comm fuel 1, parseTagItems, wide, ok_bind, Parsed.beyond]
  rcases item with ⟨_ | length, top, text, xml'⟩
  · obtain rfl := Except.ok.inj ran
    exact ⟨Returns.failed rfl, fun _ _ => rfl⟩
  · obtain ⟨planted, _⟩ := returns length rfl
    cases top with
    | none =>
      obtain rfl := Except.ok.inj ran
      refine ⟨?_, fun _ _ => rfl⟩
      rintro _ ⟨⟩
      exact ⟨planted, Nat.zero_le _⟩
    | some top =>
      have inside : length ≤ text.length := by
        rw [planted.size]
        exact planted.inside
      have later := Stays.shift planted (ih.items (some top) (some top)
        (xml'.setTag top { xml'.tags top with tagNext := tagList }) planted.rest_terminated)
      simp only [List.drop_append_of_le_length inside, List.take_append_of_le_length inside]
      obtain ⟨returns', wide'⟩ := later p ran
      exact ⟨fun pos total => ⟨(returns' pos total).1, Nat.zero_le _⟩, wide'⟩

theorem parseTagList_stays (tag : Option Nat) (type : TagType) (empty : Bool) (xml : Xml) :
    Stays 0 buffer (parseTagList (fuel + 1) tag buffer type empty xml)
      (fun more beyond => parseTagList (fuel + 1 + more) tag (buffer ++ beyond) type empty xml) := by
  simp only [Nat.add_right_comm fuel 1, parseTagList]
  cases empty with
  | true =>
    have items : Stays 0 buffer (.ok ⟨some 0, none, buffer, xml.local'.2⟩)
        (fun _ beyond => .ok ⟨some 0, none, buffer ++ beyond, xml.local'.2⟩) := by
      refine Stays.returned ?_ fun _ _ => rfl
      rintro _ ⟨⟩
      exact ⟨Planted.refl terminated, Nat.zero_le _⟩
    exact items.listed type
  | false => exact (ih.items xml.local'.1 none xml.local'.2 terminated).listed type

theorem parseTagKey_stays (tag : Option Nat) (xml : Xml) :
    Stays 0 buffer (parseTagKey (fuel + 1) tag buffer xml)
      (fun more beyond => parseTagKey (fuel + 1 + more) tag (buffer ++ beyond) xml) := by
  obtain ⟨⟨_ | length, text⟩, ran, sound⟩ := fixDataMatchingTag_cases kXMLTagKey terminated
  all_goals
    have wide (beyond : List Byte) := fixDataMatchingTag_beyond terminated ran beyond
    simp only [Nat.add_right_comm fuel 1, parseTagKey, ran, wide, ok_bind, Fixed.beyond]
  · exact Stays.returned (Returns.failed rfl) fun _ _ => rfl
  · obtain ⟨planted, named⟩ := sound length rfl
    have inside : length ≤ text.length := by
      rw [planted.size]
      exact planted.inside
    simp only [List.drop_append_of_le_length inside, List.take_append_of_le_length inside]
    intro p shown
    obtain ⟨sub, called, shown⟩ := bind_eq_ok.mp shown
    obtain ⟨returns, wide'⟩ := ih.next xml.local'.1 xml.local'.2 planted.rest_terminated sub called
    have string (beyond : List Byte) : cString (text.take length ++ (sub.buffer ++ beyond)) =
        cString (text.take length ++ sub.buffer) := by
      rw [← List.append_assoc]
      exact cString_append (List.mem_append_left _ named) beyond
    simp only [wide', ok_bind, Parsed.beyond, string]
    cases total : sub.length with
    | none =>
      rw [total] at shown
      obtain rfl := Except.ok.inj shown
      exact ⟨Returns.failed rfl, fun _ _ => by simp⟩
    | some length' =>
      rw [total] at shown
      rcases taken : newTag sub.xml with ⟨_ | top, xml'⟩ <;> simp only [taken] at shown ⊢
      · obtain ⟨xml, freed, done⟩ := bind_eq_ok.mp shown
        obtain rfl := Except.ok.inj done
        simp only [freed, ok_bind]
        exact ⟨Returns.failed rfl, fun _ _ => by simp⟩
      · obtain ⟨xml, interned, done⟩ := bind_eq_ok.mp shown
        obtain rfl := Except.ok.inj done
        simp only [interned, ok_bind]
        refine ⟨?_, fun _ _ => by simp⟩
        rintro _ ⟨⟩
        exact ⟨planted.chain (returns length' total).1, Nat.zero_le _⟩

end Induction

theorem staying (fuel : Nat) : Staying fuel := by
  induction fuel with
  | zero =>
    refine ⟨?_, ?_, ?_, ?_⟩
    · rintro _ _ _ _ _ ⟨⟩
    · rintro _ _ _ _ _ _ ⟨⟩
    · rintro _ _ _ _ _ _ _ ⟨⟩
    · rintro _ _ _ _ _ ⟨⟩
  | succ fuel ih =>
    exact ⟨fun tag xml terminated => parseNextTag_stays ih terminated tag xml,
      fun tmpTag tagList xml terminated => parseTagItems_stays ih terminated tmpTag tagList xml,
      fun tag type empty xml terminated => parseTagList_stays ih terminated tag type empty xml,
      fun tag xml terminated => parseTagKey_stays ih terminated tag xml⟩

structure Bounded (fuel : Nat) : Prop where
  next : ∀ {buffer : List Byte} (xml : Xml), 0 ∈ buffer → Inside buffer (nextTagIndices fuel buffer xml)
  items : ∀ {buffer : List Byte} (tmpTag tagList : Option Nat) (xml : Xml), 0 ∈ buffer →
    Inside buffer (tagItemsIndices fuel tmpTag tagList buffer xml)
  list : ∀ {buffer : List Byte} (empty : Bool) (xml : Xml), 0 ∈ buffer →
    Inside buffer (tagListIndices fuel buffer empty xml)
  key : ∀ {buffer : List Byte} (xml : Xml), 0 ∈ buffer → Inside buffer (tagKeyIndices fuel buffer xml)

section Induction

variable {fuel : Nat} (ih : Bounded fuel) {buffer : List Byte} (terminated : 0 ∈ buffer)

include ih terminated

theorem nextTagIndices_inside (xml : Xml) : Inside buffer (nextTagIndices (fuel + 1) buffer xml) := by
  rw [nextTagIndices]
  apply (getNextTagIndices_inside terminated).append
  rcases scanned : getNextTag buffer with stop | _ | next
  · exact inside_nil
  · exact inside_nil
  · have planted := (getNextTag_planted terminated scanned).1
    have rest := planted.rest_terminated
    apply (tagNameIndices_inside terminated scanned).append
    apply Inside.behind _ planted.size
    cases tagBranch (cString (next.buffer.drop next.tag)) with
    | list type empty => exact ih.list empty xml rest
    | key => exact ih.key xml rest
    | string => exact tagStringIndices_inside xml rest
    | integer => exact fixDataIndices_inside _ rest
    | data => exact fixDataIndices_inside _ rest
    | date => exact fixDataIndices_inside _ rest
    | plist => exact inside_nil
    | boolean type => exact inside_nil
    | other => exact inside_nil

theorem tagItemsIndices_inside (tmpTag tagList : Option Nat) (xml : Xml) :
    Inside buffer (tagItemsIndices (fuel + 1) tmpTag tagList buffer xml) := by
  rw [tagItemsIndices]
  apply (ih.next xml terminated).append
  rcases called : parseNextTag fuel tmpTag buffer xml with stop | ⟨_ | length, _ | top, text, xml'⟩
  · exact inside_nil
  · exact inside_nil
  · exact inside_nil
  · exact inside_nil
  · have planted := (((staying fuel).next tmpTag xml terminated _ called).1 length rfl).1
    exact (ih.items (some top) (some top) _ planted.rest_terminated).behind planted.size

theorem tagListIndices_inside (empty : Bool) (xml : Xml) : Inside buffer (tagListIndices (fuel + 1) buffer empty xml) := by
  rw [tagListIndices]
  split
  · exact inside_nil
  · exact ih.items xml.local'.1 none xml.local'.2 terminated

theorem tagKeyIndices_inside (xml : Xml) : Inside buffer (tagKeyIndices (fuel + 1) buffer xml) := by
  rw [tagKeyIndices]
  apply (fixDataIndices_inside kXMLTagKey terminated).append
  obtain ⟨⟨_ | length, text⟩, ran, sound⟩ := fixDataMatchingTag_cases kXMLTagKey terminated <;> rw [ran]
  · exact inside_nil
  · obtain ⟨planted, named⟩ := sound length rfl
    have rest := planted.rest_terminated
    apply ((ih.next xml.local'.2 rest).behind planted.size).append
    rcases called : parseNextTag fuel xml.local'.1 (text.drop length) xml.local'.2 with
      stop | ⟨_ | length', top, later, xml'⟩
    · exact inside_nil
    · exact inside_nil
    · simp only
      split
      · have whole := planted.chain (((staying fuel).next _ _ rest _ called).1 length' rfl).1
        have strings := scanIndices_inside 0 (List.mem_append_left later named)
        intro i member
        rw [← whole.size]
        exact strings i member
      · exact inside_nil

end Induction

theorem bounded (fuel : Nat) : Bounded fuel := by
  induction fuel with
  | zero => exact ⟨fun _ _ => inside_nil, fun _ _ _ _ => inside_nil, fun _ _ _ => inside_nil, fun _ _ => inside_nil⟩
  | succ fuel ih =>
    exact ⟨fun xml terminated => nextTagIndices_inside ih terminated xml,
      fun tmpTag tagList xml terminated => tagItemsIndices_inside ih terminated tmpTag tagList xml,
      fun empty xml terminated => tagListIndices_inside ih terminated empty xml,
      fun xml terminated => tagKeyIndices_inside ih terminated xml⟩

/-- A call on a text looks at no byte behind its NUL and changes none, and the bytes from its result on are the old
    ones. -/
theorem xmlParseNextTag_inside {text : CString} {tag : Option Nat} {xml : Xml} {p : Parsed}
    (ran : xmlParseNextTag tag text.bytes xml = .ok p) :
    (∀ i ∈ xmlParseNextTagIndices text.bytes xml, i ≤ text.chars.length) ∧
      (∀ beyond, xmlParseNextTag tag (text.bytes ++ beyond) xml = .ok (p.beyond beyond)) ∧
      ∀ pos, p.length = some pos → 2 ≤ pos ∧ pos ≤ text.chars.length ∧
        p.buffer.drop pos = text.chars.drop pos ++ [0] := by
  have terminated : 0 ∈ text.bytes := List.mem_append_right _ (List.mem_singleton_self 0)
  have size := text.bytes_length
  obtain ⟨returns, wide⟩ := (staying _).next tag xml terminated p ran
  refine ⟨?_, ?_, ?_⟩
  · intro i member
    have inside := (bounded _).next xml terminated i member
    omega
  · intro beyond
    have fuel : 2 * (text.bytes ++ beyond).length + 2 = 2 * text.bytes.length + 2 + 2 * beyond.length := by
      rw [List.length_append]
      omega
    rw [xmlParseNextTag, fuel]
    exact wide _ beyond
  · intro pos total
    obtain ⟨planted, least⟩ := returns pos total
    have ends := List.length_pos_of_mem planted.terminated
    rw [List.length_drop] at ends
    have bound : pos ≤ text.chars.length := by omega
    refine ⟨least, bound, ?_⟩
    rw [planted.after, CString.bytes, List.drop_append_of_le_length bound]

def unendingList : CString := ascii "<array><true/><plist ></array><dict/>"

def unendingParsed : Parsed := okParsed (xmlParseNextTag none unendingList.bytes (Xml.bss roomy fun _ => none))

theorem unendingList_inside :
    xmlParseNextTag none unendingList.bytes (Xml.bss roomy fun _ => none) = .ok unendingParsed ∧
      (∀ i ∈ xmlParseNextTagIndices unendingList.bytes (Xml.bss roomy fun _ => none), i ≤ 37) ∧
      unendingParsed.length = some 30 ∧ unendingParsed.buffer.drop 30 = (ascii "<dict/>").bytes := by
  have ran : xmlParseNextTag none unendingList.bytes (Xml.bss roomy fun _ => none) = .ok unendingParsed :=
    okParsed_eq (by decide +kernel)
  obtain ⟨inside, _, returns⟩ := xmlParseNextTag_inside ran
  have total : unendingParsed.length = some 30 := by decide +kernel
  exact ⟨ran, inside, total, (returns 30 total).2.2⟩

end GenericBooter
