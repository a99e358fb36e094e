import Mathlib.Logic.Function.Iterate
import Mathlib.SetTheory.Cardinal.Finite

namespace Search

variable {σ α : Type*}

def search (stop : σ → Option α) (next : σ → σ) : ℕ → σ → Option α
  | 0, _ => none
  | fuel + 1, s =>
    match stop s with
    | some a => some a
    | none => search stop next fuel (next s)

/-- The search from `s` looks at `t`. -/
def Visits (stop : σ → Option α) (next : σ → σ) (s t : σ) : Prop :=
  ∃ k, next^[k] s = t ∧ ∀ j < k, stop (next^[j] s) = none

def Answers (stop : σ → Option α) (next : σ → σ) (s : σ) (a : α) : Prop :=
  ∃ t, Visits stop next s t ∧ stop t = some a

variable {stop : σ → Option α} {next : σ → σ} {s t : σ} {a b : α}

theorem Visits.start : Visits stop next s s := ⟨0, rfl, fun _ none => absurd none (Nat.not_lt_zero _)⟩

theorem Visits.step (visits : Visits stop next s t) (passes : stop t = none) : Visits stop next s (next t) := by
  obtain ⟨k, rfl, before⟩ := visits
  refine ⟨k + 1, Function.iterate_succ_apply' next k s, fun j bound => ?_⟩
  rcases Nat.lt_succ_iff_lt_or_eq.mp bound with less | rfl
  · exact before j less
  · exact passes

theorem Visits.later (passes : stop s = none) (visits : Visits stop next (next s) t) : Visits stop next s t := by
  obtain ⟨k, rfl, before⟩ := visits
  refine ⟨k + 1, rfl, fun j bound => ?_⟩
  cases j with
  | zero => exact passes
  | succ j => exact before j (Nat.lt_of_succ_lt_succ bound)

theorem Visits.invariant (holds : σ → Prop) (visits : Visits stop next s t) (first : holds s)
    (carried : ∀ u, Visits stop next s u → holds u → stop u = none → holds (next u)) : holds t := by
  obtain ⟨k, rfl, before⟩ := visits
  induction k with
  | zero => exact first
  | succ k ih =>
    have earlier : ∀ j < k, stop (next^[j] s) = none := fun j bound => before j (Nat.lt_succ_of_lt bound)
    rw [Function.iterate_succ_apply']
    exact carried _ ⟨k, rfl, earlier⟩ (ih earlier) (before k (Nat.lt_succ_self k))

theorem Visits.cases (visits : Visits stop next s t) : t = s ∨ stop s = none ∧ Visits stop next (next s) t := by
  obtain ⟨k, rfl, before⟩ := visits
  cases k with
  | zero => exact Or.inl rfl
  | succ k => exact Or.inr ⟨before 0 (Nat.succ_pos k), k, rfl, fun j bound => before (j + 1) (Nat.succ_lt_succ bound)⟩

theorem answers_here (found : stop s = some a) : Answers stop next s b ↔ b = a := by
  constructor
  · rintro ⟨t, visits, answer⟩
    rcases visits.cases with rfl | ⟨passes, _⟩
    · exact Option.some.inj (answer.symm.trans found)
    · cases found.symm.trans passes
  · rintro rfl
    exact ⟨s, Visits.start, found⟩

theorem answers_later (passes : stop s = none) : Answers stop next s a ↔ Answers stop next (next s) a := by
  constructor
  · rintro ⟨t, visits, answer⟩
    rcases visits.cases with rfl | ⟨_, visits⟩
    · cases passes.symm.trans answer
    · exact ⟨t, visits, answer⟩
  · rintro ⟨t, visits, answer⟩
    exact ⟨t, visits.later passes, answer⟩

theorem search_congr {stop' : σ → Option α} {next' : σ → σ} {fuel : ℕ}
    (same : ∀ t, Visits stop next s t → stop' t = stop t ∧ next' t = next t) :
    search stop' next' fuel s = search stop next fuel s := by
  induction fuel generalizing s with
  | zero => rfl
  | succ fuel ih =>
    obtain ⟨stops, goes⟩ := same s Visits.start
    rw [search, search, stops]
    cases passes : stop s with
    | some a => rfl
    | none =>
      dsimp only
      rw [goes]
      exact ih fun t visits => same t (visits.later passes)

theorem search_some_iff {fuel : ℕ} : search stop next fuel s = some a ↔
    ∃ k < fuel, stop (next^[k] s) = some a ∧ ∀ j < k, stop (next^[j] s) = none := by
  induction fuel generalizing s with
  | zero => simp [search]
  | succ fuel ih =>
    rw [search]
    cases here : stop s with
    | some b =>
      constructor
      · intro found
        exact ⟨0, Nat.succ_pos fuel, here.trans found, fun _ none => absurd none (Nat.not_lt_zero _)⟩
      · rintro ⟨k, _, found, before⟩
        cases k with
        | zero => exact here.symm.trans found
        | succ k => cases here.symm.trans (before 0 (Nat.succ_pos k))
    | none =>
      dsimp only
      rw [ih]
      constructor
      · rintro ⟨k, bound, found, before⟩
        refine ⟨k + 1, Nat.succ_lt_succ bound, found, fun j less => ?_⟩
        cases j with
        | zero => exact here
        | succ j => exact before j (Nat.lt_of_succ_lt_succ less)
      · rintro ⟨k, bound, found, before⟩
        cases k with
        | zero => cases here.symm.trans found
        | succ k =>
          exact ⟨k, Nat.lt_of_succ_lt_succ bound, found, fun j less => before (j + 1) (Nat.succ_lt_succ less)⟩

theorem first_answer_bound [Finite σ] {k : ℕ} (answers : stop (next^[k] s) ≠ none)
    (first : ∀ j < k, stop (next^[j] s) = none) : k < Nat.card σ := by
  have distinct {i j : ℕ} (less : i < j) (bound : j ≤ k) : next^[i] s ≠ next^[j] s := by
    intro same
    have shorter : next^[k - j + i] s = next^[k] s := by
      rw [Function.iterate_add_apply, same, ← Function.iterate_add_apply, Nat.sub_add_cancel bound]
    have passes := first (k - j + i) (by omega)
    rw [shorter] at passes
    exact answers passes
  have injective : Function.Injective fun i : Fin (k + 1) => next^[i.val] s := by
    intro i j same
    rcases Nat.lt_trichotomy i.val j.val with less | equal | less
    · exact absurd same (distinct less (Nat.le_of_lt_succ j.isLt))
    · exact Fin.ext equal
    · exact absurd same.symm (distinct less (Nat.le_of_lt_succ i.isLt))
  have count := Nat.card_le_card_of_injective _ injective
  rw [Nat.card_fin] at count
  exact count

theorem search_card_iff [Finite σ] : search stop next (Nat.card σ) s = some a ↔ Answers stop next s a := by
  rw [search_some_iff]
  constructor
  · rintro ⟨k, _, answer, before⟩
    exact ⟨_, ⟨k, rfl, before⟩, answer⟩
  · rintro ⟨_, ⟨k, rfl, before⟩, answer⟩
    exact ⟨k, first_answer_bound (by rw [answer]; exact Option.some_ne_none a) before, answer, before⟩

theorem answers_iff_exists : (∃ a, Answers stop next s a) ↔ ∃ k, stop (next^[k] s) ≠ none := by
  constructor
  · rintro ⟨a, _, ⟨k, rfl, _⟩, answer⟩
    exact ⟨k, by rw [answer]; exact Option.some_ne_none a⟩
  · classical
    intro ends
    obtain ⟨a, answer⟩ := Option.ne_none_iff_exists'.mp (Nat.find_spec ends)
    exact ⟨a, _, ⟨_, rfl, fun j less => not_not.mp (Nat.find_min ends less)⟩, answer⟩

theorem answers_of_rising {rank : σ → ℕ} {bound : ℕ} (bounded : ∀ t, rank t ≤ bound)
    (rises : ∀ t, Visits stop next s t → stop t = none → rank t < rank (next t)) : ∃ a, Answers stop next s a := by
  rw [answers_iff_exists]
  by_contra endless
  have passes (k : ℕ) : stop (next^[k] s) = none := not_not.mp fun ends => endless ⟨k, ends⟩
  have high (k : ℕ) : k ≤ rank (next^[k] s) := by
    induction k with
    | zero => exact Nat.zero_le _
    | succ k ih =>
      have step := rises _ ⟨k, rfl, fun j _ => passes j⟩ (passes k)
      rw [Function.iterate_succ_apply']
      exact Nat.succ_le_of_lt (Nat.lt_of_le_of_lt ih step)
  exact absurd (high (bound + 1)) (Nat.not_le_of_lt (Nat.lt_succ_of_le (bounded _)))

end Search
