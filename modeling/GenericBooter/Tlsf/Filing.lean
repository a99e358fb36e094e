import GenericBooter.Library.TwoWay
import GenericBooter.Tlsf.Cells

namespace GenericBooter

open ByteMemory TwoWay

namespace Tlsf

variable {tlsf : Word} {room : Word → Nat}

theorem control_valid {i : Nat} (bound : i < 795) : (Cell.control i).Valid room := bound

theorem field_valid {b : Word} (four : room b = 4) (k : Fin 4) : (Cell.field b k).Valid room := by
  change k.val < room b
  omega

theorem control_distinct (c : Nat) : 2 ≠ 3 + c / 32 ∧ 2 ≠ 27 + c ∧ 3 + c / 32 ≠ 27 + c := by omega

theorem Placed.get_putIf (placed : Placed tlsf room) {p : Prop} [Decidable p] {cell cell' : Cell}
    (valid : p → cell.Valid room) (valid' : cell'.Valid room) (value : Word) (m : Memory) :
    Cell.get tlsf (if p then Cell.put tlsf cell value m else m) cell' =
      if p ∧ cell' = cell then value else Cell.get tlsf m cell' := by
  split
  · rename_i holds
    rw [placed.get_put (valid holds) valid']
    simp only [holds, true_and]
  · rename_i fails
    rw [if_neg fun both => fails both.1]

theorem Placed.putIf_changesOnly (placed : Placed tlsf room) {p : Prop} [Decidable p] {cell : Cell}
    (valid : p → cell.Valid room) (value : Word) (m : Memory) :
    ChangesOnly (Cell.owned tlsf room) m (if p then Cell.put tlsf cell value m else m) := by
  split
  · rename_i holds
    exact placed.put_changesOnly (valid holds) value m
  · exact ChangesOnly.refl _ m

section Effects

variable {b : Word} {c : Nat} {m : Memory}

theorem insertBlock_get (placed : Placed tlsf room) (four : room b = 4) (bound : c < 768)
    (filed : Cell.get tlsf m (.control (27 + c)) = 0 ∨ room (Cell.get tlsf m (.control (27 + c))) = 4)
    {cell : Cell} (valid : cell.Valid room) :
    Cell.get tlsf (insertBlock b tlsf (Index.ofRank c) m) cell =
      if cell = .control 2 then Cell.get tlsf m (.control 2) ||| BitVec.twoPow 32 (c / 32)
      else if cell = .control (3 + c / 32) then
        Cell.get tlsf m (.control (3 + c / 32)) ||| BitVec.twoPow 32 (c % 32)
      else if cell = .control (27 + c) then b
      else if Cell.get tlsf m (.control (27 + c)) ≠ 0 ∧ cell = .field (Cell.get tlsf m (.control (27 + c))) 2 then b
      else if cell = .field b 3 then Cell.get tlsf m (.control (27 + c))
      else if cell = .field b 2 then 0
      else Cell.get tlsf m cell := by
  have row : (Cell.control 2).Valid room := control_valid (by decide)
  have column : (Cell.control (3 + c / 32)).Valid room := control_valid (by omega)
  have head : (Cell.control (27 + c)).Valid room := control_valid (by omega)
  have prev := field_valid four 2
  have next := field_valid four 3
  obtain ⟨apart, apart', apart''⟩ := control_distinct c
  simp only [insertBlock, setPrev_cell tlsf, setNext_cell tlsf, matrix_cell, setMatrix_cell]
  simp only [Index.ofRank, slBitmapAt_cell, flBitmapAt_cell,
    setBit_cell tlsf _ _ _ (Nat.mod_lt c (by decide : 32 > 0)), setBit_cell tlsf _ _ _ (show c / 32 < 32 by omega)]
  by_cases none : Cell.get tlsf m (.control (27 + c)) = 0
  · simp only [placed.get_put, row, column, head, prev, next, valid, none, reduceCtorEq, Cell.control.injEq, apart,
      apart', apart'', if_false, ne_eq, not_true_eq_false, false_and]
  · have back := field_valid (filed.resolve_left none) 2
    simp only [placed.get_put, row, column, head, prev, next, back, valid, none, reduceCtorEq, Cell.control.injEq,
      apart, apart', apart'', if_false, ne_eq, not_false_eq_true, true_and, if_true]

theorem insertBlock_changesOnly (placed : Placed tlsf room) (four : room b = 4) (bound : c < 768)
    (filed : Cell.get tlsf m (.control (27 + c)) = 0 ∨ room (Cell.get tlsf m (.control (27 + c))) = 4) :
    ChangesOnly (Cell.owned tlsf room) m (insertBlock b tlsf (Index.ofRank c) m) := by
  have row : (Cell.control 2).Valid room := control_valid (by decide)
  have column : (Cell.control (3 + c / 32)).Valid room := control_valid (by omega)
  have head : (Cell.control (27 + c)).Valid room := control_valid (by omega)
  have prev := field_valid four 2
  have next := field_valid four 3
  simp only [insertBlock, setPrev_cell tlsf, setNext_cell tlsf, matrix_cell, setMatrix_cell]
  simp only [Index.ofRank, slBitmapAt_cell, flBitmapAt_cell,
    setBit_cell tlsf _ _ _ (Nat.mod_lt c (by decide : 32 > 0)), setBit_cell tlsf _ _ _ (show c / 32 < 32 by omega),
    placed.get_put, head, prev, next, reduceCtorEq, if_false]
  have start := (placed.put_changesOnly prev 0 m).trans (placed.put_changesOnly next
    (Cell.get tlsf m (.control (27 + c))) _)
  refine ChangesOnly.trans ?_ (placed.put_changesOnly row _ _)
  refine ChangesOnly.trans ?_ (placed.put_changesOnly column _ _)
  refine ChangesOnly.trans ?_ (placed.put_changesOnly head _ _)
  split
  · rename_i some
    exact start.trans (placed.put_changesOnly (field_valid (filed.resolve_left some) 2) _ _)
  · exact start

theorem clearBits_get (placed : Placed tlsf room) (bound : c < 768) {cell : Cell} (valid : cell.Valid room) :
    Cell.get tlsf (clearBits tlsf (Index.ofRank c) m) cell =
      if cell = .control 2 ∧
          Cell.get tlsf m (.control (3 + c / 32)) &&& ~~~BitVec.twoPow 32 (c % 32) = 0 then
        Cell.get tlsf m (.control 2) &&& ~~~BitVec.twoPow 32 (c / 32)
      else if cell = .control (3 + c / 32) then
        Cell.get tlsf m (.control (3 + c / 32)) &&& ~~~BitVec.twoPow 32 (c % 32)
      else Cell.get tlsf m cell := by
  have row : (Cell.control 2).Valid room := control_valid (by decide)
  have column : (Cell.control (3 + c / 32)).Valid room := control_valid (by omega)
  obtain ⟨apart, _, _⟩ := control_distinct c
  simp only [clearBits, Index.ofRank, slBitmapAt_cell, flBitmapAt_cell, slBitmap_cell,
    clearBit_cell tlsf _ _ _ (Nat.mod_lt c (by decide : 32 > 0)), clearBit_cell tlsf _ _ _ (show c / 32 < 32 by omega)]
  by_cases empty : Cell.get tlsf m (.control (3 + c / 32)) &&& ~~~BitVec.twoPow 32 (c % 32) = 0
  · simp only [placed.get_put, row, column, valid, empty, Cell.control.injEq, apart, if_true, if_false, and_true]
  · simp only [placed.get_put, row, column, valid, empty, if_true, if_false, and_false]

theorem clearBits_changesOnly (placed : Placed tlsf room) (bound : c < 768) :
    ChangesOnly (Cell.owned tlsf room) m (clearBits tlsf (Index.ofRank c) m) := by
  have row : (Cell.control 2).Valid room := control_valid (by decide)
  have column : (Cell.control (3 + c / 32)).Valid room := control_valid (by omega)
  simp only [clearBits, Index.ofRank, slBitmapAt_cell, flBitmapAt_cell, slBitmap_cell,
    clearBit_cell tlsf _ _ _ (Nat.mod_lt c (by decide : 32 > 0)), clearBit_cell tlsf _ _ _ (show c / 32 < 32 by omega)]
  split
  · exact (placed.put_changesOnly column _ _).trans (placed.put_changesOnly row _ _)
  · exact placed.put_changesOnly column _ _

def takenOut (tlsf : Word) (m : Memory) (b : Word) (c : Nat) (cell : Cell) : Word :=
  let next := Cell.get tlsf m (.field b 3)
  let prev := Cell.get tlsf m (.field b 2)
  let row := Cell.get tlsf m (.control (3 + c / 32)) &&& ~~~BitVec.twoPow 32 (c % 32)
  let alone := Cell.get tlsf m (.control (27 + c)) = b ∧ next = 0
  if cell = .field b 3 then 0
  else if cell = .field b 2 then 0
  else if alone ∧ cell = .control 2 ∧ row = 0 then Cell.get tlsf m (.control 2) &&& ~~~BitVec.twoPow 32 (c / 32)
  else if alone ∧ cell = .control (3 + c / 32) then row
  else if Cell.get tlsf m (.control (27 + c)) = b ∧ cell = .control (27 + c) then next
  else if prev ≠ 0 ∧ cell = .field prev 3 then next
  else if next ≠ 0 ∧ cell = .field next 2 then prev
  else Cell.get tlsf m cell

theorem extractBlock_get (placed : Placed tlsf room) (four : room b = 4) (bound : c < 768)
    (behind : Cell.get tlsf m (.field b 3) = 0 ∨ room (Cell.get tlsf m (.field b 3)) = 4)
    (front : Cell.get tlsf m (.field b 2) = 0 ∨ room (Cell.get tlsf m (.field b 2)) = 4)
    {cell : Cell} (valid : cell.Valid room) :
    Cell.get tlsf (extractBlock b tlsf (Index.ofRank c) m) cell = takenOut tlsf m b c cell := by
  have head : (Cell.control (27 + c)).Valid room := control_valid (by omega)
  have row : (Cell.control (3 + c / 32)).Valid room := control_valid (by omega)
  have total : (Cell.control 2).Valid room := control_valid (by decide)
  have prev := field_valid four 2
  have next := field_valid four 3
  obtain ⟨apart, apart', apart''⟩ := control_distinct c
  simp only [extractBlock, setPrev_cell tlsf, setNext_cell tlsf, prev_cell tlsf, next_cell tlsf, matrix_cell,
    setMatrix_cell]
  set m₁ := if Cell.get tlsf m (.field b 3) ≠ 0 then
    Cell.put tlsf (.field (Cell.get tlsf m (.field b 3)) 2) (Cell.get tlsf m (.field b 2)) m else m with first
  have get₁ (cell' : Cell) (valid' : cell'.Valid room) : Cell.get tlsf m₁ cell' = _ :=
    placed.get_putIf (fun some => field_valid (behind.resolve_left some) 2) valid' _ m
  have prev₁ := get₁ _ prev
  have next₁ := get₁ _ next
  simp only [Cell.field.injEq, Fin.reduceEq, and_false, if_false, ite_self] at prev₁ next₁
  rw [prev₁, next₁]
  set m₂ := if Cell.get tlsf m (.field b 2) ≠ 0 then
    Cell.put tlsf (.field (Cell.get tlsf m (.field b 2)) 3) (Cell.get tlsf m (.field b 3)) m₁ else m₁ with second
  have get₂ (cell' : Cell) (valid' : cell'.Valid room) : Cell.get tlsf m₂ cell' = _ :=
    placed.get_putIf (fun some => field_valid (front.resolve_left some) 3) valid' _ m₁
  have next₂ := get₂ _ next
  have head₂ := get₂ _ head
  have row₂ := get₂ _ row
  have total₂ := get₂ _ total
  simp only [get₁ _ next, get₁ _ head, get₁ _ row, get₁ _ total, Cell.field.injEq, Fin.reduceEq, reduceCtorEq,
    and_false, if_false, and_true, ite_self] at next₂ head₂ row₂ total₂
  rw [next₂, head₂]
  by_cases first : Cell.get tlsf m (.control (27 + c)) = b
  · simp only [first, if_true, placed.get_put head head]
    by_cases last : Cell.get tlsf m (.field b 3) = 0
    · simp only [last, if_true]
      rw [placed.get_put next valid, placed.get_put prev valid, clearBits_get placed bound valid]
      simp only [takenOut, placed.get_put head row, placed.get_put head total, placed.get_put head valid, row₂, total₂,
        Cell.control.injEq, apart', apart'', if_false, get₂ _ valid, get₁ _ valid, first, last, true_and, ne_eq]
    · simp only [last, if_false]
      rw [placed.get_put next valid, placed.get_put prev valid, placed.get_put head valid, get₂ _ valid, get₁ _ valid]
      simp only [takenOut, first, last, true_and, false_and, and_false, if_false, ne_eq]
  · simp only [first, if_false]
    rw [placed.get_put next valid, placed.get_put prev valid, get₂ _ valid, get₁ _ valid]
    simp only [takenOut, first, false_and, if_false, ne_eq]

theorem extractBlock_changesOnly (placed : Placed tlsf room) (four : room b = 4) (bound : c < 768)
    (behind : Cell.get tlsf m (.field b 3) = 0 ∨ room (Cell.get tlsf m (.field b 3)) = 4)
    (front : Cell.get tlsf m (.field b 2) = 0 ∨ room (Cell.get tlsf m (.field b 2)) = 4) :
    ChangesOnly (Cell.owned tlsf room) m (extractBlock b tlsf (Index.ofRank c) m) := by
  have head : (Cell.control (27 + c)).Valid room := control_valid (by omega)
  have prev := field_valid four 2
  have next := field_valid four 3
  simp only [extractBlock, setPrev_cell tlsf, setNext_cell tlsf, prev_cell tlsf, next_cell tlsf, matrix_cell,
    setMatrix_cell]
  set m₁ := if Cell.get tlsf m (.field b 3) ≠ 0 then
    Cell.put tlsf (.field (Cell.get tlsf m (.field b 3)) 2) (Cell.get tlsf m (.field b 2)) m else m with first
  have get₁ (cell' : Cell) (valid' : cell'.Valid room) : Cell.get tlsf m₁ cell' = _ :=
    placed.get_putIf (fun some => field_valid (behind.resolve_left some) 2) valid' _ m
  have prev₁ := get₁ _ prev
  simp only [ite_self] at prev₁
  rw [prev₁]
  have toFirst : ChangesOnly (Cell.owned tlsf room) m m₁ :=
    placed.putIf_changesOnly (fun some => field_valid (behind.resolve_left some) 2) _ m
  have toSecond := toFirst.trans (placed.putIf_changesOnly (p := Cell.get tlsf m (.field b 2) ≠ 0)
    (fun some => field_valid (front.resolve_left some) 3) (Cell.get tlsf m₁ (.field b 3)) m₁)
  refine ChangesOnly.trans ?_ (placed.put_changesOnly next _ _)
  refine ChangesOnly.trans ?_ (placed.put_changesOnly prev _ _)
  refine ChangesOnly.trans toSecond ?_
  generalize (if Cell.get tlsf m (.field b 2) ≠ 0 then _ else m₁) = m₂
  split
  · have toThird := placed.put_changesOnly head (Cell.get tlsf m₂ (.field b 3)) m₂
    split
    · exact toThird.trans (clearBits_changesOnly placed bound)
    · exact toThird
  · exact ChangesOnly.refl _ _

theorem extractBlockHdr_get (placed : Placed tlsf room) (four : room b = 4) (bound : c < 768)
    (head : Cell.get tlsf m (.control (27 + c)) = b) (front : Cell.get tlsf m (.field b 2) = 0)
    (behind : Cell.get tlsf m (.field b 3) = 0 ∨ room (Cell.get tlsf m (.field b 3)) = 4)
    {cell : Cell} (valid : cell.Valid room) :
    Cell.get tlsf (extractBlockHdr b tlsf (Index.ofRank c) m) cell = takenOut tlsf m b c cell := by
  have slot : (Cell.control (27 + c)).Valid room := control_valid (by omega)
  have row : (Cell.control (3 + c / 32)).Valid room := control_valid (by omega)
  have total : (Cell.control 2).Valid room := control_valid (by decide)
  have prev := field_valid four 2
  have next := field_valid four 3
  obtain ⟨_, apart', apart''⟩ := control_distinct c
  simp only [extractBlockHdr, setPrev_cell tlsf, setNext_cell tlsf, next_cell tlsf, matrix_cell, setMatrix_cell,
    placed.get_put slot slot, if_true]
  rw [placed.get_put next valid, placed.get_put prev valid]
  by_cases last : Cell.get tlsf m (.field b 3) = 0
  · simp only [last, ne_eq, not_true_eq_false, if_false, clearBits_get placed bound valid, placed.get_put slot row,
      placed.get_put slot total, placed.get_put slot valid, Cell.control.injEq, apart', apart'', takenOut, head, front,
      true_and, and_true, false_and]
  · have back := field_valid (behind.resolve_left last) 2
    simp only [last, ne_eq, not_false_eq_true, if_true, placed.get_put back valid, placed.get_put slot valid, takenOut,
      head, front, and_false, not_true_eq_false, false_and, if_false, true_and]
    by_cases slotted : cell = .control (27 + c)
    · subst slotted
      simp only [reduceCtorEq, if_false, if_true]
    · simp only [slotted, if_false]

theorem extractBlockHdr_changesOnly (placed : Placed tlsf room) (four : room b = 4) (bound : c < 768)
    (behind : Cell.get tlsf m (.field b 3) = 0 ∨ room (Cell.get tlsf m (.field b 3)) = 4) :
    ChangesOnly (Cell.owned tlsf room) m (extractBlockHdr b tlsf (Index.ofRank c) m) := by
  have slot : (Cell.control (27 + c)).Valid room := control_valid (by omega)
  simp only [extractBlockHdr, setPrev_cell tlsf, setNext_cell tlsf, next_cell tlsf, matrix_cell, setMatrix_cell,
    placed.get_put slot slot, if_true]
  refine ChangesOnly.trans ?_ (placed.put_changesOnly (field_valid four 3) _ _)
  refine ChangesOnly.trans ?_ (placed.put_changesOnly (field_valid four 2) _ _)
  refine ChangesOnly.trans (placed.put_changesOnly slot (Cell.get tlsf m (.field b 3)) m) ?_
  split
  · rename_i some
    exact placed.put_changesOnly (field_valid (behind.resolve_left some) 2) _ _
  · exact clearBits_changesOnly placed bound

theorem insertBlock_header (placed : Placed tlsf room) (four : room b = 4) (bound : c < 768)
    (filed : Cell.get tlsf m (.control (27 + c)) = 0 ∨ room (Cell.get tlsf m (.control (27 + c))) = 4)
    {x : Word} {k : Fin 4} (small : k < 2) (valid : (Cell.field x k).Valid room) :
    Cell.get tlsf (insertBlock b tlsf (Index.ofRank c) m) (.field x k) = Cell.get tlsf m (.field x k) := by
  have two : k ≠ 2 := Fin.ne_of_lt small
  have three : k ≠ 3 := Fin.ne_of_lt (Fin.lt_trans small (by decide))
  rw [insertBlock_get placed four bound filed valid]
  simp only [Cell.field.injEq, reduceCtorEq, two, three, and_false, if_false]

theorem takenOut_header {x : Word} {k : Fin 4} (small : k < 2) :
    takenOut tlsf m b c (.field x k) = Cell.get tlsf m (.field x k) := by
  have two : k ≠ 2 := Fin.ne_of_lt small
  have three : k ≠ 3 := Fin.ne_of_lt (Fin.lt_trans small (by decide))
  simp only [takenOut, Cell.field.injEq, reduceCtorEq, two, three, false_and, and_false, if_false]

end Effects

end Tlsf

end GenericBooter
