import Mathlib.Data.List.Basic
import Mathlib.Data.List.Nodup

namespace TwoWay

variable {α : Type*} {next prev next' prev' : α → α} {null : α}

/-- `cells` are met from `head` on; the first of them points back at `before`. -/
def Threaded (next prev : α → α) (null : α) : α → α → List α → Prop
  | _, head, [] => head = null
  | before, head, x :: rest => head = x ∧ x ≠ null ∧ prev x = before ∧ Threaded next prev null x (next x) rest

theorem threaded_congr {before head : α} {cells : List α} (nexts : ∀ x ∈ cells, next' x = next x)
    (prevs : ∀ x ∈ cells, prev' x = prev x) (threaded : Threaded next prev null before head cells) :
    Threaded next' prev' null before head cells := by
  induction cells generalizing before head with
  | nil => exact threaded
  | cons x rest ih =>
    obtain ⟨first, nonnull, back, behind⟩ := threaded
    refine ⟨first, nonnull, (prevs x List.mem_cons_self).trans back, ?_⟩
    rw [nexts x List.mem_cons_self]
    exact ih (fun y member => nexts y (List.mem_cons_of_mem x member))
      (fun y member => prevs y (List.mem_cons_of_mem x member)) behind

theorem threaded_head {before head : α} {cells : List α} (threaded : Threaded next prev null before head cells) :
    head = cells.headD null := by
  cases cells with
  | nil => exact threaded
  | cons x rest => exact threaded.1

theorem threaded_null {before head : α} {cells : List α} (threaded : Threaded next prev null before head cells) :
    null ∉ cells := by
  induction cells generalizing before head with
  | nil => exact List.not_mem_nil
  | cons x rest ih =>
    intro member
    rcases List.mem_cons.mp member with same | member
    · exact threaded.2.1 same.symm
    · exact ih threaded.2.2.2 member

theorem threaded_at {before head x : α} {front back : List α}
    (threaded : Threaded next prev null before head (front ++ x :: back)) :
    prev x = front.getLastD before ∧ next x = back.headD null := by
  induction front generalizing before head with
  | nil => exact ⟨threaded.2.2.1, threaded_head threaded.2.2.2⟩
  | cons y rest ih =>
    have inner := ih threaded.2.2.2
    cases rest with
    | nil => exact inner
    | cons z rest => exact inner

theorem threaded_at_head {before head x : α} {back : List α}
    (threaded : Threaded next prev null before head (x :: back)) : prev x = before ∧ next x = back.headD null :=
  ⟨threaded.2.2.1, threaded_head threaded.2.2.2⟩

theorem headD_mem (null : α) (cells : List α) : cells.headD null = null ∨ cells.headD null ∈ cells := by
  cases cells with
  | nil => exact Or.inl rfl
  | cons x rest => exact Or.inr List.mem_cons_self

theorem getLastD_mem (cells : List α) : cells.getLastD null = null ∨ cells.getLastD null ∈ cells := by
  rcases List.eq_nil_or_concat' cells with rfl | ⟨front, x, rfl⟩
  · exact Or.inl rfl
  · right
    rw [List.getLastD_concat]
    exact List.mem_append_right front List.mem_cons_self

variable [DecidableEq α]

theorem threaded_push {head x : α} {cells : List α} (threaded : Threaded next prev null null head cells)
    (nodup : cells.Nodup) (nonnull : x ≠ null) (first : next' x = head) (back : prev' x = null)
    (nexts : ∀ y ∈ cells, next' y = next y) (prevs : ∀ y ∈ cells, prev' y = if y = head then x else prev y) :
    Threaded next' prev' null null x (x :: cells) := by
  refine ⟨rfl, nonnull, back, ?_⟩
  rw [first]
  cases cells with
  | nil => exact threaded
  | cons y rest =>
    obtain ⟨rfl, here, _, behind⟩ := threaded
    refine ⟨rfl, here, by rw [prevs head List.mem_cons_self, if_pos rfl], ?_⟩
    rw [nexts head List.mem_cons_self]
    refine threaded_congr (fun z member => nexts z (List.mem_cons_of_mem head member)) (fun z member => ?_) behind
    have other : z ≠ head := fun same => (List.nodup_cons.mp nodup).1 (same ▸ member)
    rw [prevs z (List.mem_cons_of_mem head member), if_neg other]

theorem threaded_unlink {before head x : α} {front back : List α}
    (threaded : Threaded next prev null before head (front ++ x :: back)) (nodup : (front ++ x :: back).Nodup)
    (outside : before ∉ front ++ x :: back)
    (nexts : ∀ y ∈ front ++ back, next' y = if y = prev x then next x else next y)
    (prevs : ∀ y ∈ front ++ back, prev' y = if y = next x then prev x else prev y) :
    Threaded next' prev' null before (if head = x then next x else head) (front ++ back) := by
  induction front generalizing before head with
  | nil =>
    obtain ⟨rfl, _, at', behind⟩ := threaded
    rw [if_pos rfl]
    cases back with
    | nil => exact behind
    | cons z rest =>
      obtain ⟨second, nonnull, _, later⟩ := behind
      have apart : ∀ y ∈ z :: rest, y ≠ prev head := by
        rintro y member rfl
        exact outside (at' ▸ List.mem_cons_of_mem head member)
      have fresh := (List.nodup_cons.mp (List.nodup_cons.mp nodup).2).1
      refine ⟨second, nonnull, by rw [prevs z List.mem_cons_self, if_pos second.symm, at'], ?_⟩
      rw [nexts z List.mem_cons_self, if_neg (apart z List.mem_cons_self)]
      refine threaded_congr (fun y member => ?_) (fun y member => ?_) later
      · have member := List.mem_cons_of_mem z member
        rw [nexts y member, if_neg (apart y member)]
      · have other : y ≠ next head := fun same => fresh (second ▸ same ▸ member)
        rw [prevs y (List.mem_cons_of_mem z member), if_neg other]
  | cons y rest ih =>
    have links := threaded_at threaded
    obtain ⟨rfl, nonnull, at', behind⟩ := threaded
    obtain ⟨fresh, nodup⟩ := List.nodup_cons.mp nodup
    have other : head ≠ x := fun same => fresh (same ▸ List.mem_append_right rest List.mem_cons_self)
    have unseen : head ≠ next x := by
      intro same
      rw [links.2] at same
      rcases headD_mem null back with none | member
      · exact nonnull (same.trans none)
      · exact fresh (same ▸ List.mem_append_right rest (List.mem_cons_of_mem x member))
    have turn : head = prev x ↔ next head = x := by
      cases rest with
      | nil => exact iff_of_true links.1.symm behind.1
      | cons z rest =>
        refine iff_of_false ?_ ?_
        · intro same
          have last : prev x = (z :: rest).getLast (List.cons_ne_nil z rest) := by
            rw [links.1, List.getLastD_cons, List.getLastD_cons, List.getLast_eq_getLastD]
          apply fresh
          rw [same, last]
          exact List.mem_append_left _ (List.getLast_mem _)
        · intro same
          apply (List.nodup_cons.mp nodup).1
          rw [← behind.1, same]
          exact List.mem_append_right rest List.mem_cons_self
    rw [if_neg other]
    refine ⟨rfl, nonnull, by rw [prevs head List.mem_cons_self, if_neg unseen, at'], ?_⟩
    rw [nexts head List.mem_cons_self]
    have inner := ih behind nodup fresh (fun z member => nexts z (List.mem_cons_of_mem head member))
      (fun z member => prevs z (List.mem_cons_of_mem head member))
    rw [if_congr turn rfl rfl]
    exact inner

end TwoWay
