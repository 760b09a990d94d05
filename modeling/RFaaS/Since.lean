/-
This file is the part of the run library that speaks about one call of a thread
that takes turns with others. What such a call answers may be too late to be
about the present; it can still say that there was a moment of the run with some
property, and that ever since another one has held. And a call that gets closer
to its end with every turn of its own thread is answered after so many of them,
whatever the others do in between.
-/

import RFaaS.Transition
import Mathlib.Data.List.Induction
import Mathlib.Data.Nat.Basic

namespace Transition

variable {State Event : Type*} {step : State → Event → State}

theorem Always.append_singleton {property : State → Prop} {state : State}
    {events : List Event} {event : Event} (always : Always step property state events)
    (last : property (run step state (events ++ [event]))) :
    Always step property state (events ++ [event]) := by
  induction events generalizing state with
  | nil => exact ⟨always, last⟩
  | cons first rest inductionHypothesis => exact ⟨always.1, inductionHypothesis always.2 last⟩

/-- There was a moment of the run, and since then `stays` has held. -/
def Since (step : State → Event → State) (moment stays : State → Prop) (state : State)
    (events : List Event) : Prop :=
  ∃ first second, events = first ++ second ∧ moment (run step state first) ∧
    Always step stays (run step state first) second

/-- A situation that only arises at such a moment, and that ends when `stays` ends. -/
theorem since_of_arises {invariant moment stays situation : State → Prop} {state : State}
    (initially : invariant state)
    (preserved : ∀ state event, invariant state → invariant (step state event))
    (notYet : ¬situation state)
    (arises : ∀ state event, invariant state → situation (step state event) →
      situation state ∨ moment (step state event))
    (lasts : ∀ state, situation state → stays state) {events : List Event}
    (now : situation (run step state events)) : Since step moment stays state events := by
  induction events using List.reverseRecOn with
  | nil => exact absurd now notYet
  | append_singleton events event inductionHypothesis =>
    have last : run step state (events ++ [event]) = step (run step state events) event :=
      run_append ..
    have kept : invariant (run step state events) := run_stable preserved events initially
    rcases arises _ event kept (last ▸ now) with earlier | moment
    · obtain ⟨first, second, rfl, moment, always⟩ := inductionHypothesis earlier
      refine ⟨first, second ++ [event], List.append_assoc .., moment, ?_⟩
      refine always.append_singleton (lasts _ ?_)
      rw [← run_append, ← List.append_assoc]
      exact now
    · exact ⟨events ++ [event], [], (List.append_nil _).symm, last ▸ moment, lasts _ now⟩

/-! ### Answers that are due -/

/-- A call is answered within as many turns as its rank says, if every event answers it or lets it
go on, and the turns of its own thread lower the rank. -/
theorem answered_within {due : State → Prop} {condition : State → Event → Prop}
    {rank answers : State → Nat} {turn : Event → Bool}
    (grows : ∀ state event, answers state ≤ answers (step state event))
    (left : ∀ state, due state → 0 < rank state)
    (closer : ∀ state event, due state → condition state event →
      answers state < answers (step state event) ∨
        due (step state event) ∧ rank (step state event) + (turn event).toNat ≤ rank state)
    {state : State} {events : List Event} (initially : due state)
    (along : Along step condition state events) (turns : rank state ≤ events.countP turn) :
    answers state < answers (run step state events) := by
  induction events generalizing state with
  | nil => exact absurd (left state initially) (Nat.not_lt.mpr turns)
  | cons event rest inductionHypothesis =>
    rcases closer state event initially along.1 with answered | ⟨still, less⟩
    · exact Nat.lt_of_lt_of_le answered (le_run answers grows (step state event) rest)
    · refine Nat.lt_of_le_of_lt (grows state event) (inductionHypothesis still along.2 ?_)
      rw [List.countP_cons] at turns
      cases kind : turn event with
      | false =>
        rw [kind, if_neg Bool.false_ne_true] at turns
        rw [kind, Bool.toNat_false] at less
        omega
      | true =>
        rw [kind, if_pos rfl] at turns
        rw [kind, Bool.toNat_true] at less
        omega

end Transition
