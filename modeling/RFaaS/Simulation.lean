/-
This file is the part of the run library that compares a machine with one whose
steps are larger. An event of the first machine stands for some events of the
second, none of them if it only prepares what a later one completes; which ones
may depend on the state. What one event keeps between the two machines then holds
at the end of every run, and the run of the second machine can be written down.
-/

import RFaaS.Transition

namespace Transition

variable {State Event Other OtherEvent : Type*} {step : State → Event → State}
  {other : Other → OtherEvent → Other}

/-- The events that a run stands for. -/
def translated (step : State → Event → State) (translate : State → Event → List OtherEvent) :
    State → List Event → List OtherEvent
  | _, [] => []
  | state, event :: rest =>
    translate state event ++ translated step translate (step state event) rest

/-- A relation that every event keeps, on the one side by its step and on the other side by the
steps that it stands for, is kept by a run. -/
theorem run_simulates {relation : State → Other → Prop} {condition : State → Event → Prop}
    {translate : State → Event → List OtherEvent}
    (kept : ∀ state partner event, relation state partner → condition state event →
      relation (step state event) (run other partner (translate state event)))
    {state : State} {partner : Other} {events : List Event} (initially : relation state partner)
    (along : Along step condition state events) :
    relation (run step state events)
      (run other partner (translated step translate state events)) := by
  induction events generalizing state partner with
  | nil => exact initially
  | cons event rest inductionHypothesis =>
    rw [translated, run_append]
    exact inductionHypothesis (kept state partner event initially along.1) along.2

/-- A machine that is another one in different words runs like it. -/
theorem run_renamed (view : State → Other) (name : Event → OtherEvent)
    (own : ∀ state event, view (step state event) = other (view state) (name event))
    (state : State) (events : List Event) :
    view (run step state events) = run other (view state) (events.map name) := by
  induction events generalizing state with
  | nil => rfl
  | cons event rest inductionHypothesis =>
    rw [run_cons, inductionHypothesis, own, List.map_cons, run_cons]

end Transition
