namespace GenericBooter

inductive Stop where
  /-- `assert` failed: `__assert_func` panics and hangs. -/
  | assertion
  | panic
  /-- A null pointer is used as a string, a node or a buffer. -/
  | null
  /-- An index past the end of the object is used. -/
  | bounds
  | diverges
deriving DecidableEq, Repr

def require (condition : Prop) [Decidable condition] : Except Stop Unit :=
  if condition then .ok () else .error .assertion

theorem bind_eq_ok {ε α β : Type} {x : Except ε α} {f : α → Except ε β} {b : β} :
    x >>= f = .ok b ↔ ∃ a, x = .ok a ∧ f a = .ok b := by
  cases x with
  | error stop => simp [bind, Except.bind]
  | ok a => simp [bind, Except.bind]

theorem ok_bind {ε α β : Type} (a : α) (f : α → Except ε β) : Except.ok a >>= f = f a := rfl

theorem require_eq_ok {condition : Prop} [Decidable condition] {result : Unit} :
    require condition = .ok result ↔ condition := by
  unfold require
  split <;> simp [*]

theorem require_ok {condition : Prop} [Decidable condition] (holds : condition) :
    require condition = .ok () := if_pos holds

end GenericBooter
