import GenericBooter.Xml.Parse
import Mathlib.Data.List.Forall2

namespace GenericBooter

/-- Some bytes have become NULs. -/
def Erased (buffer buffer' : List Byte) : Prop := List.Forall₂ (fun c c' => c' = c ∨ c' = 0) buffer buffer'

namespace Erased

variable {buffer buffer' buffer'' : List Byte}

theorem refl (buffer : List Byte) : Erased buffer buffer := List.forall₂_same.mpr fun _ _ => Or.inl rfl

theorem trans (first : Erased buffer buffer') (second : Erased buffer' buffer'') : Erased buffer buffer'' := by
  induction first generalizing buffer'' with
  | nil => exact second
  | cons here _ ih =>
    cases second with
    | cons here' later =>
      refine List.Forall₂.cons ?_ (ih later)
      rcases here' with rfl | zero
      · exact here
      · exact Or.inr zero

theorem set (buffer : List Byte) (i : Nat) : Erased buffer (buffer.set i 0) := by
  induction buffer generalizing i with
  | nil => exact List.Forall₂.nil
  | cons c later ih =>
    cases i with
    | zero => exact List.Forall₂.cons (Or.inr rfl) (refl later)
    | succ i => exact List.Forall₂.cons (Or.inl rfl) (ih i)

theorem chain {length : Nat} (first : Erased buffer buffer') (second : Erased (buffer'.drop length) buffer'') :
    Erased buffer (buffer'.take length ++ buffer'') := by
  have whole : Erased (buffer'.take length ++ buffer'.drop length) (buffer'.take length ++ buffer'') :=
    List.rel_append (refl (buffer'.take length)) second
  rw [List.take_append_drop] at whole
  exact first.trans whole

theorem length_eq (erased : Erased buffer buffer') : buffer'.length = buffer.length := List.Forall₂.length_eq erased |>.symm

theorem getElem (erased : Erased buffer buffer') {i : Nat} (bound : i < buffer.length) (bound' : i < buffer'.length) :
    buffer'[i] = buffer[i] ∨ buffer'[i] = 0 := List.Forall₂.get erased bound bound'

end Erased

def Malloc.Later (malloc malloc' : Malloc) : Prop := malloc'.answers = malloc.answers ∧ malloc.calls ≤ malloc'.calls

namespace Malloc.Later

variable {malloc malloc' malloc'' : Malloc}

theorem refl (malloc : Malloc) : Later malloc malloc := ⟨rfl, Nat.le_refl _⟩

theorem trans (first : Later malloc malloc') (second : Later malloc' malloc'') : Later malloc malloc'' :=
  ⟨second.1.trans first.1, first.2.trans second.2⟩

theorem call (malloc : Malloc) : Later malloc malloc.call.2 := ⟨rfl, Nat.le_succ _⟩

theorem succeeds (later : Later malloc malloc') (good : malloc.Succeeds) : malloc'.Succeeds := by
  intro call bound
  rw [later.1]
  exact good call (later.2.trans bound)

end Malloc.Later

theorem getNextTag_erased {buffer : List Byte} {next : NextTag} (ran : getNextTag buffer = .ok (some next)) :
    Erased buffer next.buffer := by
  simp only [getNextTag, bind_eq_ok] at ran
  obtain ⟨cnt, _, ran⟩ := ran
  split at ran
  · cases ran
  · simp only [bind_eq_ok] at ran
    obtain ⟨more, _, ran⟩ := ran
    split at ran
    · cases ran
    · obtain rfl := Option.some.inj (Except.ok.inj ran)
      exact Erased.set _ _

theorem fixDataMatchingTagFrom_erased (tag : CString) {fuel : Nat} {buffer : List Byte} {fixed : Fixed}
    (ran : fixDataMatchingTagFrom tag fuel buffer = .ok fixed) : Erased buffer fixed.buffer := by
  induction fuel generalizing buffer fixed with
  | zero => cases ran
  | succ fuel ih =>
    simp only [fixDataMatchingTagFrom, bind_eq_ok] at ran
    obtain ⟨_ | next, scanned, ran⟩ := ran
    · obtain rfl := Except.ok.inj ran
      exact Erased.refl _
    · have here := getNextTag_erased scanned
      simp only at ran
      split at ran
      · obtain rfl := Except.ok.inj ran
        exact here.trans (Erased.set _ _)
      · simp only [bind_eq_ok] at ran
        obtain ⟨later, ran', ran⟩ := ran
        obtain rfl := Except.ok.inj ran
        exact here.chain (ih ran')

theorem fixDataMatchingTag_erased {tag : CString} {buffer : List Byte} {fixed : Fixed}
    (ran : fixDataMatchingTag buffer tag = .ok fixed) : Erased buffer fixed.buffer :=
  fixDataMatchingTagFrom_erased tag ran

theorem newTag_later (xml : Xml) : Malloc.Later xml.malloc (newTag xml).2.malloc := by
  unfold newTag
  split
  · exact Malloc.Later.refl _
  · simp only
    split
    · exact Malloc.Later.call _
    · exact Malloc.Later.call _

theorem newSymbol_later {xml xml' : Xml} {string : CString} (ran : newSymbol xml string = .ok xml') :
    Malloc.Later xml.malloc xml'.malloc := by
  unfold newSymbol at ran
  split at ran
  · obtain rfl := Except.ok.inj ran
    exact Malloc.Later.refl _
  · simp only at ran
    split at ran
    · cases ran
    · obtain rfl := Except.ok.inj ran
      exact Malloc.Later.call _

theorem freeTagString_malloc (xml : Xml) (tag : Nat) : (freeTagString xml tag).malloc = xml.malloc := by
  unfold freeTagString freeSymbol
  split
  · split
    · rfl
    · split <;> rfl
  · rfl

theorem freeTagFrom_malloc {fuel : Nat} {tag : Option Nat} {xml xml' : Xml} (ran : freeTagFrom fuel tag xml = .ok xml') :
    xml'.malloc = xml.malloc := by
  induction fuel generalizing tag xml xml' with
  | zero => cases ran
  | succ fuel ih =>
    cases tag with
    | none =>
      obtain rfl := Except.ok.inj ran
      rfl
    | some tag =>
      simp only [freeTagFrom, bind_eq_ok] at ran
      obtain ⟨below, ranBelow, beside, ranBeside, ran⟩ := ran
      obtain rfl := Except.ok.inj ran
      have same := (ih ranBeside).trans (ih ranBelow)
      rw [freeTagString_malloc] at same
      exact same

theorem xmlFreeTag_malloc {tag : Option Nat} {xml xml' : Xml} (ran : xmlFreeTag xml tag = .ok xml') :
    xml'.malloc = xml.malloc := freeTagFrom_malloc ran

structure Framed (buffer : List Byte) (xml : Xml) (p : Parsed) : Prop where
  text : Erased buffer p.buffer
  memory : Malloc.Later xml.malloc p.xml.malloc

def Frames (buffer : List Byte) (xml : Xml) (result : Except Stop Parsed) : Prop :=
  ∀ p, result = .ok p → Framed buffer xml p

section Calls

variable {buffer : List Byte} {xml xml' : Xml} {tag : Option Nat} {text : List Byte} {length : Nat}

theorem Frames.failed (erased : Erased buffer text) (later : Malloc.Later xml.malloc xml'.malloc) :
    Frames buffer xml (.ok ⟨none, tag, text, xml'⟩) := by
  rintro _ ⟨⟩
  exact ⟨erased, later⟩

theorem Frames.freed (root : Option Nat) (erased : Erased buffer text) (later : Malloc.Later xml.malloc xml'.malloc) :
    Frames buffer xml (do
      let xml' ← xmlFreeTag xml' root
      .ok ⟨none, tag, text, xml'⟩) := by
  intro p ran
  obtain ⟨freed, ran', done⟩ := bind_eq_ok.mp ran
  obtain rfl := Except.ok.inj done
  refine ⟨erased, ?_⟩
  rw [show freed.malloc = xml'.malloc from xmlFreeTag_malloc ran']
  exact later

theorem Frames.taken (root : Option Nat) {type : TagType} (erased : Erased buffer text) (later : Malloc.Later xml.malloc xml'.malloc) :
    Frames buffer xml (match newTag xml' with
      | (none, xml'') => do
        let xml'' ← xmlFreeTag xml'' root
        .ok ⟨none, tag, text, xml''⟩
      | (some top, xml'') => .ok ⟨some length, some top, text, xml''.setTag top ⟨type, none, root, none⟩⟩) := by
  have more := later.trans (newTag_later xml')
  rcases taken : newTag xml' with ⟨_ | top, xml''⟩ <;> rw [taken] at more
  · exact Frames.freed root erased more
  · rintro _ ⟨⟩
    exact ⟨erased, more⟩

theorem Frames.named (root : Option Nat) {type : TagType} {string : CString} (erased : Erased buffer text)
    (later : Malloc.Later xml.malloc xml'.malloc) :
    Frames buffer xml (match newTag xml' with
      | (none, xml'') => do
        let xml'' ← xmlFreeTag xml'' root
        .ok ⟨none, tag, text, xml''⟩
      | (some top, xml'') => do
        let xml'' ← newSymbol xml'' string
        .ok ⟨some length, some top, text, xml''.setTag top ⟨type, some string, root, none⟩⟩) := by
  have more := later.trans (newTag_later xml')
  rcases taken : newTag xml' with ⟨_ | top, xml''⟩ <;> rw [taken] at more
  · exact Frames.freed root erased more
  · intro p ran
    obtain ⟨interned, ran', done⟩ := bind_eq_ok.mp ran
    obtain rfl := Except.ok.inj done
    have interns := newSymbol_later ran'
    exact ⟨erased, more.trans interns⟩

theorem parseTagLeaf_frames (name : CString) (type : TagType) : Frames buffer xml (parseTagLeaf name type tag buffer xml) := by
  rw [parseTagLeaf]
  rcases ran : fixDataMatchingTag buffer name with stop | fixed
  · rintro _ ⟨⟩
  · have erased := fixDataMatchingTag_erased ran
    simp only [ok_bind]
    rcases found : fixed.length with _ | length
    · exact Frames.failed erased (Malloc.Later.refl _)
    · exact Frames.taken none erased (Malloc.Later.refl _)

theorem parseTagString_frames : Frames buffer xml (parseTagString tag buffer xml) := by
  rw [parseTagString]
  rcases ran : fixDataMatchingTag buffer kXMLTagString with stop | fixed
  · rintro _ ⟨⟩
  · have erased := fixDataMatchingTag_erased ran
    simp only [ok_bind]
    rcases found : fixed.length with _ | length
    · exact Frames.failed erased (Malloc.Later.refl _)
    · exact Frames.named none erased (Malloc.Later.refl _)

theorem parseTagBoolean_frames (type : TagType) : Frames buffer xml (.ok (parseTagBoolean type tag buffer xml)) := by
  have more := newTag_later xml
  rintro _ ⟨⟩
  rw [parseTagBoolean]
  rcases taken : newTag xml with ⟨_ | top, xml''⟩ <;> rw [taken] at more
  · exact ⟨Erased.refl _, more⟩
  · exact ⟨Erased.refl _, more⟩

theorem Frames.shift {result : Except Stop Parsed} (erased : Erased buffer text)
    (frames : Frames (text.drop length) xml result) :
    Frames buffer xml (do
      let parsed ← result
      .ok { parsed with length := parsed.length.map (length + ·), buffer := text.take length ++ parsed.buffer }) := by
  intro p ran
  obtain ⟨parsed, called, done⟩ := bind_eq_ok.mp ran
  obtain rfl := Except.ok.inj done
  have framed := frames parsed called
  exact ⟨erased.chain framed.text, framed.memory⟩

theorem Frames.listed {result : Except Stop Parsed} (tag : Option Nat) (type : TagType)
    (frames : Frames buffer xml result) :
    Frames buffer xml (do
      let items ← result
      match items.length with
      | none => do
        let xml ← xmlFreeTag items.xml items.tag
        .ok ⟨none, tag, items.buffer, xml⟩
      | some pos =>
        match newTag items.xml with
        | (none, xml) => do
          let xml ← xmlFreeTag xml items.tag
          .ok ⟨none, tag, items.buffer, xml⟩
        | (some tmpTag, xml) =>
          .ok ⟨some pos, some tmpTag, items.buffer, xml.setTag tmpTag ⟨type, none, items.tag, none⟩⟩) := by
  intro p ran
  obtain ⟨items, called, ran⟩ := bind_eq_ok.mp ran
  have framed := frames items called
  cases total : items.length with
  | none =>
    rw [total] at ran
    exact Frames.freed items.tag framed.text framed.memory p ran
  | some pos =>
    rw [total] at ran
    exact Frames.taken items.tag framed.text framed.memory p ran

end Calls

structure Framing (fuel : Nat) : Prop where
  next : ∀ tag buffer xml, Frames buffer xml (parseNextTag fuel tag buffer xml)
  items : ∀ tmpTag tagList buffer xml, Frames buffer xml (parseTagItems fuel tmpTag tagList buffer xml)
  list : ∀ tag buffer type empty xml, Frames buffer xml (parseTagList fuel tag buffer type empty xml)
  key : ∀ tag buffer xml, Frames buffer xml (parseTagKey fuel tag buffer xml)

section Induction

variable {fuel : Nat} (ih : Framing fuel)

include ih

theorem parseNextTag_frames (tag : Option Nat) (buffer : List Byte) (xml : Xml) :
    Frames buffer xml (parseNextTag (fuel + 1) tag buffer xml) := by
  rw [parseNextTag]
  rcases scanned : getNextTag buffer with stop | _ | next
  · rintro _ ⟨⟩
  · exact Frames.failed (Erased.refl _) (Malloc.Later.refl _)
  · have erased := getNextTag_erased scanned
    have kept (assigned : Option Nat) (rest : List Byte) : Frames rest xml (.ok ⟨some 0, assigned, rest, xml⟩) := by
      rintro _ ⟨⟩
      exact ⟨Erased.refl _, Malloc.Later.refl _⟩
    simp only [ok_bind]
    cases tagBranch (cString (next.buffer.drop next.tag)) with
    | plist => exact Frames.shift erased (kept tag _)
    | list type empty => exact Frames.shift erased (ih.list _ _ _ _ _)
    | key => exact Frames.shift erased (ih.key _ _ _)
    | string => exact Frames.shift erased parseTagString_frames
    | integer => exact Frames.shift erased (parseTagLeaf_frames _ _)
    | data => exact Frames.shift erased (parseTagLeaf_frames _ _)
    | date => exact Frames.shift erased (parseTagLeaf_frames _ _)
    | boolean type => exact Frames.shift erased (parseTagBoolean_frames type)
    | other => exact Frames.shift erased (kept none _)

theorem parseTagItems_frames (tmpTag tagList : Option Nat) (buffer : List Byte) (xml : Xml) :
    Frames buffer xml (parseTagItems (fuel + 1) tmpTag tagList buffer xml) := by
  intro p ran
  simp only [parseTagItems, bind_eq_ok] at ran
  obtain ⟨item, called, ran⟩ := ran
  have framed := ih.next _ _ _ item called
  split at ran
  · obtain rfl := Except.ok.inj ran
    exact ⟨framed.text, framed.memory⟩
  · obtain rfl := Except.ok.inj ran
    exact ⟨framed.text, framed.memory⟩
  · simp only [bind_eq_ok] at ran
    obtain ⟨later, called', ran⟩ := ran
    obtain rfl := Except.ok.inj ran
    have behind := ih.items _ _ _ _ later called'
    exact ⟨framed.text.chain behind.text, framed.memory.trans behind.memory⟩

theorem parseTagList_frames (tag : Option Nat) (buffer : List Byte) (type : TagType) (empty : Bool) (xml : Xml) :
    Frames buffer xml (parseTagList (fuel + 1) tag buffer type empty xml) := by
  rw [parseTagList]
  cases empty with
  | true =>
    have items : Frames buffer xml (.ok ⟨some 0, none, buffer, xml.local'.2⟩) := by
      rintro _ ⟨⟩
      exact ⟨Erased.refl _, Malloc.Later.refl _⟩
    exact Frames.listed tag type items
  | false =>
    have items : Frames buffer xml (parseTagItems fuel xml.local'.1 none buffer xml.local'.2) := by
      intro p ran
      have framed := ih.items _ _ _ _ p ran
      exact ⟨framed.text, framed.memory⟩
    exact Frames.listed tag type items

theorem parseTagKey_frames (tag : Option Nat) (buffer : List Byte) (xml : Xml) :
    Frames buffer xml (parseTagKey (fuel + 1) tag buffer xml) := by
  intro p ran
  simp only [parseTagKey, bind_eq_ok] at ran
  obtain ⟨fixed, scanned, ran⟩ := ran
  have erased := fixDataMatchingTag_erased scanned
  cases total : fixed.length with
  | none =>
    rw [total] at ran
    exact Frames.failed erased (Malloc.Later.refl _) p ran
  | some length =>
    rw [total] at ran
    obtain ⟨sub, called, ran⟩ := bind_eq_ok.mp ran
    have framed := ih.next _ _ _ sub called
    have text := erased.chain framed.text
    have memory : Malloc.Later xml.malloc sub.xml.malloc := framed.memory
    cases total' : sub.length with
    | none =>
      rw [total'] at ran
      exact Frames.failed text memory p ran
    | some length' =>
      rw [total'] at ran
      exact Frames.named sub.tag text memory p ran

end Induction

theorem framing (fuel : Nat) : Framing fuel := by
  induction fuel with
  | zero =>
    refine ⟨?_, ?_, ?_, ?_⟩
    · rintro _ _ _ _ ⟨⟩
    · rintro _ _ _ _ _ ⟨⟩
    · rintro _ _ _ _ _ _ ⟨⟩
    · rintro _ _ _ _ ⟨⟩
  | succ fuel ih =>
    exact ⟨parseNextTag_frames ih, parseTagItems_frames ih, parseTagList_frames ih, parseTagKey_frames ih⟩

theorem xmlParseNextTag_framed {tag : Option Nat} {buffer : List Byte} {xml : Xml} {p : Parsed}
    (ran : xmlParseNextTag tag buffer xml = .ok p) : Framed buffer xml p := (framing _).next tag buffer xml p ran

end GenericBooter
