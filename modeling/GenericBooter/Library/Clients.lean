import Mathlib.Logic.Basic

namespace Clients

variable {Request Answer State Spec : Type*}

abbrev History (Request Answer : Type*) := List (Request × Answer)

/-- The first `n` requests of a client that goes by what it has been answered. -/
def serve (run : Request → State → Answer × State) (client : History Request Answer → Request) (start : State) :
    Nat → History Request Answer × State
  | 0 => ([], start)
  | n + 1 =>
    let before := serve run client start n
    let after := run (client before.1) before.2
    ((client before.1, after.1) :: before.1, after.2)

/-- The histories that the specification allows, and what each leads to. -/
inductive Allows (step : Spec → Request → Answer → Spec → Prop) (start : Spec) : History Request Answer → Spec → Prop
  | nil : Allows step start [] start
  | cons {history : History Request Answer} {spec spec' : Spec} {request : Request} {answer : Answer} :
      Allows step start history spec → step spec request answer spec' →
      Allows step start ((request, answer) :: history) spec'

def Made (client : History Request Answer → Request) : History Request Answer → Prop
  | [] => True
  | entry :: history => entry.1 = client history ∧ Made client history

/-- Whatever the specification may have answered so far, the next request is one it has rules for. -/
def Careful (step : Spec → Request → Answer → Spec → Prop) (legal : Spec → Request → Prop) (start : Spec)
    (client : History Request Answer → Request) : Prop :=
  ∀ history spec, Made client history → Allows step start history spec → legal spec (client history)

variable {run : Request → State → Answer × State} {step : Spec → Request → Answer → Spec → Prop}
  {legal : Spec → Request → Prop} {represents : State → Spec → Prop}

theorem serve_made (client : History Request Answer → Request) (start : State) (n : Nat) :
    Made client (serve run client start n).1 := by
  induction n with
  | zero => trivial
  | succ n ih => exact ⟨rfl, ih⟩

theorem serve_allowed {client : History Request Answer → Request} {start : State} {spec : Spec}
    (simulates : ∀ state spec request, represents state spec → legal spec request →
      ∃ spec', step spec request (run request state).1 spec' ∧ represents (run request state).2 spec')
    (represented : represents start spec) (careful : Careful step legal spec client) (n : Nat) :
    ∃ spec', Allows step spec (serve run client start n).1 spec' ∧ represents (serve run client start n).2 spec' := by
  induction n with
  | zero => exact ⟨spec, .nil, represented⟩
  | succ n ih =>
    obtain ⟨reached, allowed, represented⟩ := ih
    have good := careful _ _ (serve_made client start n) allowed
    obtain ⟨spec', stepped, represented⟩ := simulates _ _ _ represented good
    exact ⟨spec', .cons allowed stepped, represented⟩

theorem Allows.determined {κ : Type*} {start : Spec} {history : History Request Answer} {spec spec' : Spec}
    (first : Allows step start history spec) (second : Allows step start history spec') (seen : Spec → κ)
    (stepped : ∀ before before' after after' request answer, seen before = seen before' →
      step before request answer after → step before' request answer after' → seen after = seen after') :
    seen spec = seen spec' := by
  induction first generalizing spec' with
  | nil =>
    cases second with
    | nil => rfl
  | cons _ step ih =>
    cases second with
    | cons before step' => exact stepped _ _ _ _ _ _ (ih before) step step'

end Clients
