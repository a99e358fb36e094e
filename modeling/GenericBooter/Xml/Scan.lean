import GenericBooter.Machine.CString
import GenericBooter.Machine.Stop

namespace GenericBooter

def scanTo (stop : Byte) : List Byte → Except Stop Nat
  | [] => .error .bounds
  | c :: rest =>
    if c = 0 ∨ c = stop then .ok 0
    else do
      let cnt ← scanTo stop rest
      .ok (cnt + 1)

structure NextTag where
  tag : Nat
  start : Nat
  length : Nat
  buffer : List Byte
deriving DecidableEq, Repr

/-- `none` is the result -1; nothing has been planted then. -/
def getNextTag (buffer : List Byte) : Except Stop (Option NextTag) := do
  let cnt ← scanTo 0x3c buffer
  if buffer.getD cnt 0 = 0 then .ok none
  else
    let more ← scanTo 0x3e (buffer.drop (cnt + 1))
    let cnt2 := cnt + 1 + more
    if buffer.getD cnt2 0 = 0 then .ok none
    else .ok (some ⟨cnt + 1, cnt, cnt2 + 1, buffer.set cnt2 0⟩)

structure Fixed where
  length : Option Nat
  buffer : List Byte
deriving DecidableEq, Repr

def fixDataMatchingTagFrom (tag : CString) : Nat → List Byte → Except Stop Fixed
  | 0, _ => .error .diverges
  | fuel + 1, buffer => do
    match ← getNextTag buffer with
    | none => .ok ⟨none, buffer⟩
    | some next =>
      let endTag := cString (next.buffer.drop next.tag)
      if endTag.chars = 0x2f :: tag.chars then .ok ⟨some next.length, next.buffer.set next.start 0⟩
      else
        let later ← fixDataMatchingTagFrom tag fuel (next.buffer.drop next.length)
        .ok ⟨later.length.map (next.length + ·), next.buffer.take next.length ++ later.buffer⟩

def fixDataMatchingTag (buffer : List Byte) (tag : CString) : Except Stop Fixed :=
  fixDataMatchingTagFrom tag (buffer.length + 1) buffer

def Passes (stop : Byte) (text : List Byte) : Prop := 0 ∉ text ∧ stop ∉ text

theorem scanTo_passes {stop : Byte} {text : List Byte} (passes : Passes stop text) (c : Byte)
    (rest : List Byte) (ends : c = 0 ∨ c = stop) : scanTo stop (text ++ c :: rest) = .ok text.length := by
  induction text with
  | nil => exact if_pos ends
  | cons d text ih =>
    obtain ⟨noNul, noStop⟩ := passes
    rw [List.mem_cons, not_or] at noNul noStop
    rw [List.cons_append, scanTo, if_neg (by rintro (h | h) <;> simp_all), ih ⟨noNul.2, noStop.2⟩]
    rfl

theorem scanTo_splits (stop : Byte) {buffer : List Byte} (terminated : 0 ∈ buffer) :
    ∃ text c rest, buffer = text ++ c :: rest ∧ Passes stop text ∧ (c = 0 ∨ c = stop) ∧
      (c ≠ 0 → 0 ∈ rest) := by
  induction buffer with
  | nil => exact absurd terminated List.not_mem_nil
  | cons d buffer ih =>
    by_cases ends : d = 0 ∨ d = stop
    · refine ⟨[], d, buffer, rfl, ⟨List.not_mem_nil, List.not_mem_nil⟩, ends, fun other => ?_⟩
      exact (List.mem_cons.mp terminated).resolve_left other.symm
    · rw [not_or] at ends
      obtain ⟨text, c, rest, split, passes, ends', later⟩ :=
        ih ((List.mem_cons.mp terminated).resolve_left (Ne.symm ends.1))
      refine ⟨d :: text, c, rest, by rw [split, List.cons_append], ?_, ends', later⟩
      simp only [Passes, List.mem_cons, not_or]
      exact ⟨⟨Ne.symm ends.1, passes.1⟩, ⟨Ne.symm ends.2, passes.2⟩⟩

def tagged (before name rest : List Byte) : List Byte := before ++ 0x3c :: (name ++ 0x3e :: rest)

theorem getNextTag_tagged {before name : List Byte} (rest : List Byte) (outside : Passes 0x3c before)
    (inside : Passes 0x3e name) : getNextTag (tagged before name rest) =
      .ok (some ⟨before.length + 1, before.length, before.length + 1 + name.length + 1,
        before ++ 0x3c :: (name ++ 0 :: rest)⟩) := by
  have open' : (tagged before name rest).getD before.length 0 = 0x3c := by
    simp [tagged, List.getD_eq_getElem?_getD]
  have after : (tagged before name rest).drop (before.length + 1) = name ++ 0x3e :: rest := by
    simp [tagged, List.drop_append]
  have close : (tagged before name rest).getD (before.length + 1 + name.length) 0 = 0x3e := by
    rw [List.getD_eq_getElem?_getD, ← List.getElem?_drop, after]
    simp
  have planted : (tagged before name rest).set (before.length + 1 + name.length) 0 =
      before ++ 0x3c :: (name ++ 0 :: rest) := by
    rw [tagged, List.set_append_right _ _ (by omega),
      show before.length + 1 + name.length - before.length = name.length + 1 by omega, List.set_cons_succ,
      List.set_append_right _ _ (Nat.le_refl _), Nat.sub_self, List.set_cons_zero]
  have first : scanTo 0x3c (tagged before name rest) = .ok before.length :=
    scanTo_passes outside 0x3c _ (Or.inr rfl)
  have second : scanTo 0x3e (name ++ 0x3e :: rest) = .ok name.length :=
    scanTo_passes inside 0x3e rest (Or.inr rfl)
  simp only [getNextTag, first, ok_bind, open', after, second, close, planted]
  rfl

theorem getNextTag_cases {buffer : List Byte} (terminated : 0 ∈ buffer) :
    getNextTag buffer = .ok none ∨ ∃ before name rest, buffer = tagged before name rest ∧
      Passes 0x3c before ∧ Passes 0x3e name ∧ 0 ∈ rest := by
  obtain ⟨before, c, after, rfl, outside, ends, later⟩ := scanTo_splits 0x3c terminated
  by_cases last : c = 0
  · have first := scanTo_passes outside c after ends
    left
    simp only [getNextTag, first, ok_bind]
    simp [last]
  · obtain rfl := ends.resolve_left last
    obtain ⟨name, d, rest, rfl, inside, ends', later'⟩ := scanTo_splits 0x3e (later last)
    by_cases last' : d = 0
    · left
      have first := scanTo_passes outside 0x3c (name ++ d :: rest) (Or.inr rfl)
      have second := scanTo_passes inside d rest ends'
      have after : (before ++ 0x3c :: (name ++ d :: rest)).drop (before.length + 1) = name ++ d :: rest := by
        simp [List.drop_append]
      have close : (before ++ 0x3c :: (name ++ d :: rest)).getD (before.length + 1 + name.length) 0 = 0 := by
        rw [List.getD_eq_getElem?_getD, ← List.getElem?_drop, after]
        simp [last']
      simp only [getNextTag, first, ok_bind, after, second, close]
      simp
    · obtain rfl := ends'.resolve_left last'
      exact Or.inr ⟨before, name, rest, rfl, outside, inside, later' last'⟩

structure Planted (buffer buffer' : List Byte) (length : Nat) : Prop where
  size : buffer'.length = buffer.length
  inside : length ≤ buffer.length
  after : buffer'.drop length = buffer.drop length
  terminated : 0 ∈ buffer.drop length

theorem tagged_length (before name rest : List Byte) :
    (tagged before name rest).length = before.length + 1 + name.length + 1 + rest.length := by
  simp only [tagged, List.length_append, List.length_cons]
  omega

theorem tagged_planted (before name : List Byte) {rest : List Byte} (c : Byte) (terminated : 0 ∈ rest) :
    Planted (tagged before name rest) (before ++ c :: (name ++ 0 :: rest))
      (before.length + 1 + name.length + 1) where
  size := by
    rw [tagged_length]
    simp only [List.length_append, List.length_cons]
    omega
  inside := by
    rw [tagged_length]
    omega
  after := by
    have shape (c d : Byte) : before ++ c :: (name ++ d :: rest) = (before ++ c :: name ++ [d]) ++ rest := by simp
    rw [tagged, shape, shape, List.drop_left' (by simp; omega), List.drop_left' (by simp; omega)]
  terminated := by
    have shape : tagged before name rest = (before ++ 0x3c :: name ++ [0x3e]) ++ rest := by simp [tagged]
    rw [shape, List.drop_left' (by simp; omega)]
    exact terminated

theorem tagName_eq {before name : List Byte} (rest : List Byte) (inside : Passes 0x3e name) :
    (cString ((before ++ 0x3c :: (name ++ 0 :: rest)).drop (before.length + 1))).chars = name := by
  rw [List.drop_append, List.drop_of_length_le (by omega), List.nil_append, Nat.add_sub_cancel_left,
    List.drop_succ_cons, List.drop_zero]
  exact cString_append_zero inside.1 rest

theorem Planted.chain {buffer buffer' buffer'' : List Byte} {length length' : Nat}
    (here : Planted buffer buffer' length) (later : Planted (buffer'.drop length) buffer'' length') :
    Planted buffer (buffer'.take length ++ buffer'') (length + length') := by
  have inside := here.inside
  have inside' := later.inside
  have size := here.size
  have size' := later.size
  have front : (buffer'.take length).length = length := by rw [List.length_take]; omega
  rw [List.length_drop] at inside' size'
  refine ⟨?_, by omega, ?_, ?_⟩
  · rw [List.length_append, front]
    omega
  · rw [List.drop_append, front, Nat.add_sub_cancel_left, List.drop_of_length_le (by omega), List.nil_append,
      later.after, here.after, List.drop_drop]
  · have ends := later.terminated
    rwa [here.after, List.drop_drop] at ends

theorem Planted.refl {buffer : List Byte} (terminated : 0 ∈ buffer) : Planted buffer buffer 0 :=
  ⟨rfl, Nat.zero_le _, rfl, terminated⟩

theorem Planted.rest_terminated {buffer buffer' : List Byte} {length : Nat}
    (planted : Planted buffer buffer' length) : 0 ∈ buffer'.drop length :=
  planted.after ▸ planted.terminated

theorem fixDataMatchingTagFrom_cases (tag : CString) (fuel : Nat) {buffer : List Byte}
    (terminated : 0 ∈ buffer) (enough : buffer.length < fuel) :
    ∃ fixed, fixDataMatchingTagFrom tag fuel buffer = .ok fixed ∧
      ∀ length, fixed.length = some length → Planted buffer fixed.buffer length ∧
        0 ∈ fixed.buffer.take length := by
  induction fuel generalizing buffer with
  | zero => omega
  | succ fuel ih =>
    rw [fixDataMatchingTagFrom]
    rcases getNextTag_cases terminated with none | ⟨before, name, rest, rfl, outside, inside, later⟩
    · simp only [none, ok_bind]
      exact ⟨_, rfl, fun _ absurd => by cases absurd⟩
    · simp only [getNextTag_tagged rest outside inside, ok_bind]
      split
      · refine ⟨_, rfl, ?_⟩
        rintro _ ⟨⟩
        have planted : (before ++ 0x3c :: (name ++ 0 :: rest)).set before.length 0 =
            before ++ 0 :: (name ++ 0 :: rest) := by
          rw [List.set_append_right _ _ (Nat.le_refl _), Nat.sub_self, List.set_cons_zero]
        rw [planted]
        refine ⟨tagged_planted before name 0 later, ?_⟩
        rw [List.take_append, Nat.add_assoc, Nat.add_assoc, Nat.add_sub_cancel_left]
        exact List.mem_append_right _ (by rw [Nat.add_comm]; exact List.mem_cons_self)
      · have here := tagged_planted before name 0x3c later
        have shorter : ((before ++ 0x3c :: (name ++ 0 :: rest)).drop
            (before.length + 1 + name.length + 1)).length < fuel := by
          rw [List.length_drop, here.size, tagged_length]
          rw [tagged_length] at enough
          omega
        obtain ⟨fixed, ran, sound⟩ := ih here.rest_terminated shorter
        simp only [ran, ok_bind]
        refine ⟨_, rfl, fun length total => ?_⟩
        obtain ⟨part, equal, rfl⟩ := Option.map_eq_some_iff.mp total
        obtain ⟨planted, nul⟩ := sound part equal
        refine ⟨here.chain planted, ?_⟩
        have front : ((before ++ 0x3c :: (name ++ 0 :: rest)).take
            (before.length + 1 + name.length + 1)).length = before.length + 1 + name.length + 1 := by
          rw [List.length_take, here.size]
          exact Nat.min_eq_left here.inside
        rw [List.take_append, front, Nat.add_sub_cancel_left]
        exact List.mem_append_right _ nul

theorem fixDataMatchingTag_cases (tag : CString) {buffer : List Byte} (terminated : 0 ∈ buffer) :
    ∃ fixed, fixDataMatchingTag buffer tag = .ok fixed ∧
      ∀ length, fixed.length = some length → Planted buffer fixed.buffer length ∧
        0 ∈ fixed.buffer.take length :=
  fixDataMatchingTagFrom_cases tag _ terminated (Nat.lt_succ_self _)

theorem fixDataMatchingTag_text (tag : CString) {text : List Byte} (rest : List Byte)
    (outside : Passes 0x3c text) (inside : 0x3e ∉ tag.chars) :
    fixDataMatchingTag (tagged text (0x2f :: tag.chars) rest) tag =
      .ok ⟨some (text.length + tag.chars.length + 3), text ++ 0 :: (0x2f :: tag.chars ++ 0 :: rest)⟩ := by
  have name : Passes 0x3e (0x2f :: tag.chars) := by
    constructor
    · rw [List.mem_cons, not_or]
      exact ⟨by decide, tag.noNul⟩
    · rw [List.mem_cons, not_or]
      exact ⟨by decide, inside⟩
  have planted : (text ++ 0x3c :: (0x2f :: tag.chars ++ 0 :: rest)).set text.length 0 =
      text ++ 0 :: (0x2f :: tag.chars ++ 0 :: rest) := by
    rw [List.set_append_right _ _ (Nat.le_refl _), Nat.sub_self, List.set_cons_zero]
  rw [fixDataMatchingTag, fixDataMatchingTagFrom, getNextTag_tagged rest outside name]
  simp only [ok_bind]
  rw [if_pos (tagName_eq rest name), planted]
  congr 3
  simp only [List.length_cons]
  omega

end GenericBooter
