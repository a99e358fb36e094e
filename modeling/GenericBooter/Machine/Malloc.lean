import GenericBooter.Machine.Memory

namespace GenericBooter

/-- The heap as its callers see it: what each call of `malloc` in turn returns, zero when it fails. -/
structure Malloc where
  answers : Nat → Word
  calls : Nat

def Malloc.call (heap : Malloc) : Word × Malloc :=
  (heap.answers heap.calls, { heap with calls := heap.calls + 1 })

def Malloc.Succeeds (heap : Malloc) : Prop := ∀ call ≥ heap.calls, heap.answers call ≠ 0

theorem Malloc.Succeeds.answer {heap : Malloc} (succeeds : heap.Succeeds) : heap.call.1 ≠ 0 :=
  succeeds heap.calls (Nat.le_refl _)

theorem Malloc.Succeeds.later {heap : Malloc} (succeeds : heap.Succeeds) : heap.call.2.Succeeds :=
  fun call bound => succeeds call (Nat.le_of_succ_le bound)

end GenericBooter
