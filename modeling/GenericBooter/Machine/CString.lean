import GenericBooter.Machine.Memory
import Mathlib.Data.List.TakeWhile

namespace GenericBooter

structure CString where
  chars : List Byte
  noNul : 0 ∉ chars
deriving DecidableEq

theorem takeWhile_noNul (buffer : List Byte) : 0 ∉ buffer.takeWhile (· ≠ 0) := fun member => by
  have nonzero := List.mem_takeWhile_imp member
  simp at nonzero

def cString (buffer : List Byte) : CString := ⟨buffer.takeWhile (· ≠ 0), takeWhile_noNul buffer⟩

def ascii (text : String) : CString :=
  cString (text.toList.map fun c => BitVec.ofNat 8 c.toNat)

def CString.bytes (s : CString) : List Byte := s.chars ++ [0]

theorem CString.bytes_length (s : CString) : s.bytes.length = s.chars.length + 1 := by
  rw [bytes, List.length_append, List.length_singleton]

theorem CString.ext_chars {s t : CString} (same : s.chars = t.chars) : s = t := by
  cases s
  cases t
  simp_all

theorem cString_append_zero {chars : List Byte} (noNul : 0 ∉ chars) (rest : List Byte) :
    (cString (chars ++ 0 :: rest)).chars = chars := by
  have nonzero : ∀ c ∈ chars, decide (c ≠ 0) = true := fun c member =>
    decide_eq_true fun zero => noNul (zero ▸ member)
  simp only [cString]
  rw [List.takeWhile_append_of_pos nonzero, List.takeWhile_cons_of_neg (by simp), List.append_nil]

theorem cString_append {first : List Byte} (ends : 0 ∈ first) (second : List Byte) :
    cString (first ++ second) = cString first := by
  apply CString.ext_chars
  simp only [cString]
  induction first with
  | nil => exact absurd ends List.not_mem_nil
  | cons c first ih =>
    rw [List.cons_append, List.takeWhile_cons, List.takeWhile_cons]
    split
    · rename_i nonzero
      have other : (0 : Byte) ≠ c := fun equal => by simp [← equal] at nonzero
      rw [ih ((List.mem_cons.mp ends).resolve_left other)]
    · rfl

/-- What lies behind a data pointer, by distance from it. -/
abbrev Value := Nat → Byte

def bytesValue (data : List Byte) : Value := fun i => data.getD i 0

def Value.take (value : Value) (length : Nat) : List Byte := (List.range length).map value

def Value.isString (value : Value) (s : CString) : Bool := value.take (s.chars.length + 1) = s.bytes

theorem Value.take_length (value : Value) (length : Nat) : (value.take length).length = length := by
  simp [Value.take]

def Value.drop (value : Value) (start : Nat) : Value := fun i => value (start + i)

theorem Value.take_add (value : Value) (first second : Nat) :
    value.take (first + second) = value.take first ++ (value.drop first).take second := by
  rw [Value.take, List.range_add, List.map_append, List.map_map]
  rfl

theorem bytesValue_take (data : List Byte) : (bytesValue data).take data.length = data := by
  apply List.ext_getElem (Value.take_length _ _)
  intro i _ bound
  simp [Value.take, bytesValue, bound]

end GenericBooter
