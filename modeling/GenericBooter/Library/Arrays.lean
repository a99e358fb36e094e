import Mathlib.Data.List.Basic
import Mathlib.Logic.Function.Basic

namespace Arrays

variable {P β : Type*}

abbrev Live (P β : Type*) := P → Option (List β)

inductive Request (P β : Type*) where
  | malloc (size : Nat)
  | calloc (count size : Nat)
  | realloc (p : Option P) (size : Nat)
  | free (p : Option P)
  | load (p : P) (offset length : Nat)
  | store (p : P) (offset : Nat) (data : List β)

inductive Answer (P β : Type*) where
  | none
  | pointer (p : P)
  | bytes (data : List β)

/-- What may be asked: only arrays that there are are named, and only what is in them. -/
def Request.Legal (limit : Nat) (live : Live P β) : Request P β → Prop
  | malloc size => size ≤ limit
  | calloc count size => count * size ≤ limit
  | realloc p size => size ≤ limit ∧ ∀ q, p = some q → live q ≠ none
  | free p => ∀ q, p = some q → live q ≠ none
  | load p offset length => ∃ data, live p = some data ∧ offset + length ≤ data.length
  | store p offset new => ∃ data, live p = some data ∧ offset + new.length ≤ data.length

def patch (data : List β) (offset : Nat) (new : List β) : List β :=
  data.take offset ++ (new ++ data.drop (offset + new.length))

def Live.sizes (live : Live P β) (p : P) : Option Nat := (live p).map List.length

def Request.MayFail : Request P β → Prop
  | malloc _ => True
  | calloc _ _ => True
  | realloc p size => p = Option.none ∨ size ≠ 0
  | _ => False

variable [DecidableEq P]

/-- What may be answered, and what arrays there are after it. Of a new array only the length is known. -/
inductive Step (zero : β) (live : Live P β) : Request P β → Answer P β → Live P β → Prop
  | refused {request : Request P β} : request.MayFail → Step zero live request .none live
  | malloc {p : P} {size : Nat} {data : List β} : data.length = size → live p = none →
      Step zero live (.malloc size) (.pointer p) (Function.update live p (some data))
  | calloc {p : P} {count size : Nat} : live p = none →
      Step zero live (.calloc count size) (.pointer p) (Function.update live p (some (List.replicate (count * size) zero)))
  | started {p : P} {size : Nat} {data : List β} : data.length = size → live p = none →
      Step zero live (.realloc none size) (.pointer p) (Function.update live p (some data))
  | resized {p p' : P} {size : Nat} {old data : List β} : data.length = size → live p = some old →
      p' = p ∨ live p' = none → (∀ i < old.length, i < size → data[i]? = old[i]?) →
      Step zero live (.realloc (some p) size) (.pointer p')
        (Function.update (Function.update live p none) p' (some data))
  | dropped {p : P} : Step zero live (.realloc (some p) 0) .none (Function.update live p none)
  | freed {p : P} : Step zero live (.free (some p)) .none (Function.update live p none)
  | nothing : Step zero live (.free none) .none live
  | loaded {p : P} {data bytes : List β} {offset length : Nat} : live p = some data → offset + length ≤ data.length →
      (data.drop offset).take length = bytes → Step zero live (.load p offset length) (.bytes bytes) live
  | stored {p : P} {data new : List β} {offset : Nat} : live p = some data → offset + new.length ≤ data.length →
      Step zero live (.store p offset new) .none (Function.update live p (some (patch data offset new)))

theorem patch_length {data new : List β} {offset : Nat} (fits : offset + new.length ≤ data.length) :
    (patch data offset new).length = data.length := by
  simp only [patch, List.length_append, List.length_take, List.length_drop]
  omega

theorem Live.sizes_update (live : Live P β) (p q : P) (data : Option (List β)) :
    Live.sizes (Function.update live p data) q = if q = p then data.map List.length else live.sizes q := by
  unfold sizes
  rw [Function.update_apply]
  split <;> rfl

variable {zero : β} {live live' next next' : Live P β} {request : Request P β} {answer : Answer P β}

theorem Step.sizes (same : live.sizes = live'.sizes) (first : Step zero live request answer next)
    (second : Step zero live' request answer next') : next.sizes = next'.sizes := by
  funext q
  cases first with
  | refused mayFail =>
    cases second with
    | refused => exact congrFun same q
    | dropped => exact absurd rfl (mayFail.resolve_left (Option.some_ne_none _))
    | freed => exact mayFail.elim
    | nothing => exact congrFun same q
    | stored => exact mayFail.elim
  | malloc length =>
    cases second with
    | malloc length' => rw [Live.sizes_update, Live.sizes_update, same, Option.map_some, Option.map_some, length, length']
  | calloc =>
    cases second with
    | calloc => rw [Live.sizes_update, Live.sizes_update, same]
  | started length =>
    cases second with
    | started length' => rw [Live.sizes_update, Live.sizes_update, same, Option.map_some, Option.map_some, length, length']
  | resized length =>
    cases second with
    | resized length' =>
      simp only [Live.sizes_update, same, Option.map_some, length, length']
  | dropped =>
    cases second with
    | refused mayFail => exact absurd rfl (mayFail.resolve_left (Option.some_ne_none _))
    | dropped => rw [Live.sizes_update, Live.sizes_update, same]
  | freed =>
    cases second with
    | refused mayFail => exact mayFail.elim
    | freed => rw [Live.sizes_update, Live.sizes_update, same]
  | nothing =>
    cases second with
    | refused => exact congrFun same q
    | nothing => exact congrFun same q
  | loaded =>
    cases second with
    | loaded => exact congrFun same q
  | @stored p _ _ _ known fits =>
    cases second with
    | refused mayFail => exact mayFail.elim
    | stored known' fits' =>
      have length := congrFun same p
      simp only [Live.sizes, known, known', Option.map_some, Option.some.injEq] at length
      rw [Live.sizes_update, Live.sizes_update, same, Option.map_some, Option.map_some, patch_length fits,
        patch_length fits', length]

end Arrays
