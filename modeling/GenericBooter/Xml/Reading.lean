import GenericBooter.Library.Linked
import GenericBooter.Xml.Parse

namespace GenericBooter

open Linked

abbrev TagLabel := TagType × Option CString

/-- `tag` is the left link, `tagNext` the right one. -/
abbrev TagTree := BinaryTree TagLabel

/-- What a call that returns a length leaves in `*tag`. -/
inductive Outcome where
  | unassigned
  | null
  | tag (label : TagLabel) (below : TagTree)

inductive Halt where
  | fail
  /-- A nested call left its out-parameter unassigned. -/
  | stale
  | stop (reason : Stop)

def liftStop {α : Type} : Except Stop α → Except Halt α
  | .ok a => .ok a
  | .error reason => .error (.stop reason)

def readTagText (name : CString) (buffer : List Byte) : Except Halt (CString × Nat) := do
  let fixed ← liftStop (fixDataMatchingTag buffer name)
  match fixed.length with
  | none => .error .fail
  | some length => .ok (cString fixed.buffer, length)

def readTagLeaf (name : CString) (label : CString → TagLabel) (buffer : List Byte) :
    Except Halt (Outcome × Nat) := do
  let (text, length) ← readTagText name buffer
  .ok (.tag (label text) .nil, length)

mutual

def readNextTag : Nat → List Byte → Except Halt (Outcome × Nat)
  | 0, _ => .error (.stop .diverges)
  | fuel + 1, buffer => do
    match ← liftStop (getNextTag buffer) with
    | none => .error .fail
    | some next =>
      let rest := next.buffer.drop next.length
      let (outcome, length) ← match tagBranch (cString (next.buffer.drop next.tag)) with
        | .plist => .ok (.unassigned, 0)
        | .list type empty => readTagList fuel rest type empty
        | .key => readTagKey fuel rest
        | .string => readTagLeaf kXMLTagString (fun text => (.string, some text)) rest
        | .integer => readTagLeaf kXMLTagInteger (fun _ => (.integer, none)) rest
        | .data => readTagLeaf kXMLTagData (fun _ => (.data, none)) rest
        | .date => readTagLeaf kXMLTagDate (fun _ => (.date, none)) rest
        | .boolean type => .ok (.tag (type, none) .nil, 0)
        | .other => .ok (.null, 0)
      .ok (outcome, next.length + length)

def readTagItems : Nat → TagTree → List Byte → Except Halt (TagTree × Nat)
  | 0, _, _ => .error (.stop .diverges)
  | fuel + 1, items, buffer => do
    let (outcome, length) ← readNextTag fuel buffer
    match outcome with
    | .unassigned => .error .stale
    | .null => .ok (items, length)
    | .tag label below =>
      let (items, length') ← readTagItems fuel (.node label below items) (buffer.drop length)
      .ok (items, length + length')

def readTagList : Nat → List Byte → TagType → Bool → Except Halt (Outcome × Nat)
  | 0, _, _, _ => .error (.stop .diverges)
  | fuel + 1, buffer, type, empty => do
    let (items, length) ← if empty then .ok (.nil, 0) else readTagItems fuel .nil buffer
    .ok (.tag (type, none) items, length)

def readTagKey : Nat → List Byte → Except Halt (Outcome × Nat)
  | 0, _ => .error (.stop .diverges)
  | fuel + 1, buffer => do
    let (text, length) ← readTagText kXMLTagKey buffer
    let (outcome, length') ← readNextTag fuel (buffer.drop length)
    match outcome with
    | .unassigned => .error .stale
    | .null => .ok (.tag (.key, some text) .nil, length + length')
    | .tag label below => .ok (.tag (.key, some text) (.node label below .nil), length + length')

end

/-- Some `<plist ` tag is read by a nested call. -/
def NestedPlist (buffer : List Byte) : Prop := readNextTag (2 * buffer.length + 2) buffer = .error .stale

instance (buffer : List Byte) : Decidable (NestedPlist buffer) :=
  match read : readNextTag (2 * buffer.length + 2) buffer with
  | .error .stale => .isTrue read
  | .error .fail => .isFalse fun stale => by cases read.symm.trans stale
  | .error (.stop _) => .isFalse fun stale => by cases read.symm.trans stale
  | .ok _ => .isFalse fun stale => by cases read.symm.trans stale

def StartsWithPlist (buffer : List Byte) : Prop :=
  ∃ next, getNextTag buffer = .ok (some next) ∧ tagBranch (cString (next.buffer.drop next.tag)) = .plist

instance (buffer : List Byte) : Decidable (StartsWithPlist buffer) :=
  match scanned : getNextTag buffer with
  | .ok (some next) =>
    decidable_of_iff (tagBranch (cString (next.buffer.drop next.tag)) = .plist) (by
      refine ⟨fun branch => ⟨next, scanned, branch⟩, fun ⟨next', scanned', branch⟩ => ?_⟩
      obtain rfl : next = next' := Option.some.inj (Except.ok.inj (scanned.symm.trans scanned'))
      exact branch)
  | .ok none => .isFalse fun ⟨_, scanned', _⟩ => by cases scanned.symm.trans scanned'
  | .error _ => .isFalse fun ⟨_, scanned', _⟩ => by cases scanned.symm.trans scanned'

end GenericBooter
