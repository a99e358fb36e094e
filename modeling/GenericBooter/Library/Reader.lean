import Mathlib.Algebra.GroupWithZero.Nat
import Mathlib.Data.List.Basic

namespace Reading

variable {σ α β γ : Type}

abbrev Reader (σ α : Type) := List σ → Option (α × List σ)

namespace Reader

def pure (a : α) : Reader σ α := fun input => some (a, input)

def bind (r : Reader σ α) (next : α → Reader σ β) : Reader σ β := fun input =>
  match r input with
  | none => none
  | some (a, rest) => next a rest

def take (n : ℕ) : Reader σ (List σ) := fun input =>
  if n ≤ input.length then some (input.take n, input.drop n) else none

def replicate (r : Reader σ α) : ℕ → Reader σ (List α)
  | 0 => pure []
  | n + 1 => bind r fun a => bind (replicate r n) fun rest => pure (a :: rest)

variable {r : Reader σ α} {next : α → Reader σ β} {input rest : List σ}

theorem bind_some {b : β} : bind r next input = some (b, rest) ↔
    ∃ a later, r input = some (a, later) ∧ next a later = some (b, rest) := by
  rw [bind]
  rcases r input with _ | ⟨a, later⟩
  · constructor
    · rintro ⟨⟩
    · rintro ⟨_, _, ⟨⟩, _⟩
  · constructor
    · exact fun read => ⟨a, later, rfl, read⟩
    · rintro ⟨_, _, ⟨⟩, read⟩
      exact read

theorem take_some {n : ℕ} {taken : List σ} (read : take n input = some (taken, rest)) :
    taken.length = n ∧ input.length = n + rest.length := by
  rw [take] at read
  split at read
  · obtain ⟨rfl, rfl⟩ := Prod.mk.inj (Option.some.inj read)
    rw [List.length_take, List.length_drop]
    omega
  · cases read

theorem replicate_some {size : α → ℕ} (each : ∀ {input a rest}, r input = some (a, rest) → input.length = size a + rest.length)
    {n : ℕ} {items : List α} (read : replicate r n input = some (items, rest)) :
    input.length = (items.map size).sum + rest.length := by
  induction n generalizing input items with
  | zero =>
    obtain ⟨rfl, rfl⟩ := Prod.mk.inj (Option.some.inj read)
    exact (Nat.zero_add _).symm
  | succ n ih =>
    obtain ⟨a, later, here, read⟩ := bind_some.mp read
    obtain ⟨others, later', behind, read⟩ := bind_some.mp read
    obtain ⟨rfl, rfl⟩ := Prod.mk.inj (Option.some.inj read)
    have first := each here
    have second := ih behind
    rw [List.map_cons, List.sum_cons]
    omega

end Reader

/-- Whatever follows `bytes`, the reader takes exactly them and yields `a`. -/
def Reads (r : Reader σ α) (bytes : List σ) (a : α) : Prop :=
  ∀ rest, r (bytes ++ rest) = some (a, rest)

namespace Reads

theorem pure (a : α) : Reads (Reader.pure a : Reader σ α) [] a := fun _ => rfl

theorem bind {r : Reader σ α} {next : α → Reader σ β} {first second : List σ} {a : α} {b : β}
    (here : Reads r first a) (later : Reads (next a) second b) :
    Reads (Reader.bind r next) (first ++ second) b := by
  intro rest
  rw [Reader.bind, List.append_assoc, here (second ++ rest)]
  exact later rest

theorem take (bytes : List σ) : Reads (Reader.take bytes.length) bytes bytes := by
  intro rest
  rw [Reader.take, if_pos (by rw [List.length_append]; omega), List.take_left, List.drop_left]

theorem map {r : Reader σ α} (f : α → β) {bytes : List σ} {a : α} (here : Reads r bytes a) :
    Reads (Reader.bind r fun a => Reader.pure (f a)) bytes (f a) := by
  have both : Reads (Reader.bind r fun a => Reader.pure (f a)) (bytes ++ []) (f a) :=
    here.bind (pure (f a))
  rw [List.append_nil] at both
  exact both

theorem replicate {r : Reader σ α} {encode : α → List σ} {items : List α}
    (each : ∀ a ∈ items, Reads r (encode a) a) :
    Reads (Reader.replicate r items.length) (items.flatMap encode) items := by
  induction items with
  | nil => exact pure []
  | cons a items ih =>
    have later := ih fun b member => each b (List.mem_cons_of_mem a member)
    rw [List.flatMap_cons]
    exact (each a List.mem_cons_self).bind (later.map (a :: ·))

theorem complete {r : Reader σ α} {bytes : List σ} {a : α} (reads : Reads r bytes a) :
    r bytes = some (a, []) := by
  have here := reads []
  rw [List.append_nil] at here
  exact here

theorem unique {r : Reader σ α} {bytes : List σ} {a b : α} (reads : Reads r bytes a)
    (reads' : Reads r bytes b) : a = b :=
  congrArg Prod.fst (Option.some.inj (reads.complete.symm.trans reads'.complete))

end Reads

end Reading
