/-
This file is the run library. A component is a total step function on its
state: an event that is not enabled leaves the state as it is. A run is a list
of events. The file has the two ways in which one speaks about a run (a
condition on every step, a property of every state) and the rules that reduce
each of them to one step: an invariant that every step preserves, and a
condition that is exactly what one step needs to keep a property.
-/

import Mathlib.Data.List.Basic
import Mathlib.Order.Basic

namespace Transition

open List

variable {State Event : Type*} (step : State → Event → State)

/-- The state a run ends in. -/
def run (state : State) (events : List Event) : State := events.foldl step state

/-- Every step of the run meets `condition`, read on the state before the step. -/
def Along (condition : State → Event → Prop) : State → List Event → Prop
  | _, [] => True
  | state, event :: rest => condition state event ∧ Along condition (step state event) rest

/-- Every state of the run, the first and the last included, has `property`. -/
def Always (property : State → Prop) : State → List Event → Prop
  | state, [] => property state
  | state, event :: rest => property state ∧ Always property (step state event) rest

@[simp] theorem run_nil (state : State) : run step state [] = state := rfl

@[simp] theorem run_cons (state : State) (event : Event) (rest : List Event) :
    run step state (event :: rest) = run step (step state event) rest := rfl

theorem run_append (state : State) (first second : List Event) :
    run step state (first ++ second) = run step (run step state first) second :=
  foldl_append

@[simp] theorem along_nil (condition : State → Event → Prop) (state : State) :
    Along step condition state [] := trivial

@[simp] theorem along_cons (condition : State → Event → Prop) (state : State) (event : Event)
    (rest : List Event) :
    Along step condition state (event :: rest) ↔
      condition state event ∧ Along step condition (step state event) rest := Iff.rfl

instance decidableAlong (condition : State → Event → Prop)
    [∀ state event, Decidable (condition state event)] (state : State) (events : List Event) :
    Decidable (Along step condition state events) :=
  match events with
  | [] => .isTrue trivial
  | event :: rest =>
    haveI := decidableAlong condition (step state event) rest
    inferInstanceAs (Decidable (condition state event ∧
      Along step condition (step state event) rest))

variable {step}

variable {condition : State → Event → Prop} {state : State} {events : List Event}
  {property invariant : State → Prop}

theorem along_append {first second : List Event} :
    Along step condition state (first ++ second) ↔
      Along step condition state first ∧ Along step condition (run step state first) second := by
  induction first generalizing state with
  | nil => simp
  | cons event rest inductionHypothesis =>
    simp only [cons_append, along_cons, run_cons, inductionHypothesis, and_assoc]

theorem Along.mono {weak strong : State → Event → Prop}
    (implies : ∀ state event, strong state event → weak state event)
    (along : Along step strong state events) : Along step weak state events := by
  induction events generalizing state with
  | nil => trivial
  | cons event rest inductionHypothesis =>
    exact ⟨implies _ _ along.1, inductionHypothesis along.2⟩

theorem Along.and {first second : State → Event → Prop} (left : Along step first state events)
    (right : Along step second state events) :
    Along step (fun state event => first state event ∧ second state event) state events := by
  induction events generalizing state with
  | nil => trivial
  | cons event rest inductionHypothesis =>
    exact ⟨⟨left.1, right.1⟩, inductionHypothesis left.2 right.2⟩

/-- A part of the state that takes its own steps runs as if it were alone. -/
theorem run_project {Part : Type*} {part : Part → Event → Part} (project : State → Part)
    (own : ∀ state event, project (step state event) = part (project state) event)
    (state : State) (events : List Event) :
    project (run step state events) = run part (project state) events := by
  induction events generalizing state with
  | nil => rfl
  | cons event rest inductionHypothesis =>
    rw [run_cons, run_cons, inductionHypothesis, own]

/-- Two machines that every event leaves in relation are in relation after every run. -/
theorem run_related {Other : Type*} {other : Other → Event → Other}
    {relation : State → Other → Prop}
    (kept : ∀ state partner event, relation state partner →
      relation (step state event) (other partner event)) {partner : Other}
    (initially : relation state partner) (events : List Event) :
    relation (run step state events) (run other partner events) := by
  induction events generalizing state partner with
  | nil => exact initially
  | cons event rest inductionHypothesis =>
    exact inductionHypothesis (kept state partner event initially)

/-- Events that change nothing and that no condition restricts can be left out. -/
theorem run_filter {relevant : Event → Bool}
    (idle : ∀ state event, relevant event = false → step state event = state) (state : State)
    (events : List Event) : run step state (events.filter relevant) = run step state events := by
  induction events generalizing state with
  | nil => rfl
  | cons event rest inductionHypothesis =>
    cases kind : relevant event with
    | true => rw [filter_cons_of_pos kind, run_cons, run_cons, inductionHypothesis]
    | false =>
      rw [filter_cons_of_neg (by simp [kind]), run_cons, idle state event kind,
        inductionHypothesis]

theorem along_filter {relevant : Event → Bool}
    (idle : ∀ state event, relevant event = false → step state event = state)
    (free : ∀ state event, relevant event = false → condition state event) :
    Along step condition state (events.filter relevant) ↔ Along step condition state events := by
  induction events generalizing state with
  | nil => exact Iff.rfl
  | cons event rest inductionHypothesis =>
    cases kind : relevant event with
    | true => rw [filter_cons_of_pos kind, along_cons, along_cons, inductionHypothesis]
    | false =>
      rw [filter_cons_of_neg (by simp [kind]), along_cons, idle state event kind,
        inductionHypothesis, and_iff_right (free state event kind)]

theorem run_of_idle (idle : ∀ event ∈ events, step state event = state) :
    run step state events = state := by
  induction events with
  | nil => rfl
  | cons event rest inductionHypothesis =>
    rw [run_cons, idle event mem_cons_self,
      inductionHypothesis fun later member => idle later (mem_cons_of_mem _ member)]

/-- Events that change nothing meet a condition one after the other if they all meet it now. -/
theorem along_of_idle (idle : ∀ event ∈ events, step state event = state) :
    Along step condition state events ↔ ∀ event ∈ events, condition state event := by
  induction events with
  | nil => simp
  | cons event rest inductionHypothesis =>
    rw [along_cons, idle event mem_cons_self, forall_mem_cons,
      inductionHypothesis fun later member => idle later (mem_cons_of_mem _ member)]

/-- The invariant rule: what every step of the run preserves holds at its end. -/
theorem run_invariant {invariant : State → Prop} {condition : State → Event → Prop}
    (preserved : ∀ state event, invariant state → condition state event →
      invariant (step state event))
    {state : State} {events : List Event} (initially : invariant state)
    (along : Along step condition state events) : invariant (run step state events) := by
  induction events generalizing state with
  | nil => exact initially
  | cons event rest inductionHypothesis =>
    exact inductionHypothesis (preserved state event initially along.1) along.2

/-- What an invariant of the run and the condition imply of a step holds of all its steps. -/
theorem Along.of_invariant {invariant : State → Prop} {condition property : State → Event → Prop}
    (preserved : ∀ state event, invariant state → condition state event →
      invariant (step state event))
    (implies : ∀ state event, invariant state → condition state event → property state event)
    {state : State} {events : List Event} (initially : invariant state)
    (along : Along step condition state events) : Along step property state events := by
  induction events generalizing state with
  | nil => trivial
  | cons event rest inductionHypothesis =>
    exact ⟨implies state event initially along.1,
      inductionHypothesis (preserved state event initially along.1) along.2⟩

/-- What every step preserves, whatever the event, holds at the end of every run. -/
theorem run_stable {invariant : State → Prop}
    (preserved : ∀ state event, invariant state → invariant (step state event))
    {state : State} (events : List Event) (initially : invariant state) :
    invariant (run step state events) := by
  induction events generalizing state with
  | nil => exact initially
  | cons event rest inductionHypothesis =>
    exact inductionHypothesis (preserved state event initially)

/-- A quantity that no step lowers is not lowered by a run. -/
theorem le_run {Quantity : Type*} [Preorder Quantity] (quantity : State → Quantity)
    (grows : ∀ state event, quantity state ≤ quantity (step state event)) (state : State)
    (events : List Event) : quantity state ≤ quantity (run step state events) := by
  induction events generalizing state with
  | nil => exact le_rfl
  | cons event rest inductionHypothesis =>
    exact (grows state event).trans (inductionHypothesis (step state event))

/-- A quantity that no step lowers stays below a bound after every step of a run exactly if it
does at the end. -/
theorem along_le_iff {Quantity : Type*} [Preorder Quantity] {quantity : State → Quantity}
    (grows : ∀ state event, quantity state ≤ quantity (step state event)) {bound : Quantity}
    (initially : quantity state ≤ bound) :
    Along step (fun state event => quantity (step state event) ≤ bound) state events ↔
      quantity (run step state events) ≤ bound := by
  induction events generalizing state with
  | nil => exact iff_of_true trivial initially
  | cons event rest inductionHypothesis =>
    constructor
    · intro along
      exact (inductionHypothesis along.1).mp along.2
    · intro last
      have next := (le_run quantity grows (step state event) rest).trans last
      exact ⟨next, (inductionHypothesis next).mpr last⟩

theorem Always.first (always : Always step property state events) : property state := by
  cases events with
  | nil => exact always
  | cons event rest => exact always.1

theorem Always.last (always : Always step property state events) :
    property (run step state events) := by
  induction events generalizing state with
  | nil => exact always
  | cons event rest inductionHypothesis => exact inductionHypothesis always.2

theorem Always.mono {weak strong : State → Prop} (implies : ∀ state, strong state → weak state)
    (always : Always step strong state events) : Always step weak state events := by
  induction events generalizing state with
  | nil => exact implies _ always
  | cons event rest inductionHypothesis =>
    exact ⟨implies _ always.1, inductionHypothesis always.2⟩

theorem Always.and {first second : State → Prop} (left : Always step first state events)
    (right : Always step second state events) :
    Always step (fun state => first state ∧ second state) state events := by
  induction events generalizing state with
  | nil => exact ⟨left, right⟩
  | cons event rest inductionHypothesis =>
    exact ⟨⟨left.1, right.1⟩, inductionHypothesis left.2 right.2⟩

/-- A property that holds at the end of every prefix of a run holds all along it. -/
theorem always_of_prefixes
    (holds : ∀ first second, events = first ++ second → property (run step state first)) :
    Always step property state events := by
  induction events generalizing state with
  | nil => exact holds [] [] rfl
  | cons event rest inductionHypothesis =>
    refine ⟨holds [] _ rfl, inductionHypothesis fun first second split => ?_⟩
    exact holds (event :: first) second (by rw [split, cons_append])

/-- What an invariant of the run implies holds all along it. -/
theorem always_of_invariant {invariant property : State → Prop} {condition : State → Event → Prop}
    (preserved : ∀ state event, invariant state → condition state event →
      invariant (step state event))
    (implies : ∀ state, invariant state → property state) {state : State} {events : List Event}
    (initially : invariant state) (along : Along step condition state events) :
    Always step property state events := by
  induction events generalizing state with
  | nil => exact implies state initially
  | cons event rest inductionHypothesis =>
    exact ⟨implies state initially,
      inductionHypothesis (preserved state event initially along.1) along.2⟩

/-- Events that meet a condition in every state meet it all along a run. -/
theorem along_of_forall (all : ∀ event ∈ events, ∀ state, condition state event) (state : State) :
    Along step condition state events := by
  induction events generalizing state with
  | nil => trivial
  | cons event rest inductionHypothesis =>
    exact ⟨all event mem_cons_self state,
      inductionHypothesis (fun later member => all later (mem_cons_of_mem _ member)) _⟩

/-- What an invariant implies that every step keeps holds all along every run. -/
theorem always_of_stable (preserved : ∀ state event, invariant state → invariant (step state event))
    (implies : ∀ state, invariant state → property state) (events : List Event)
    (initially : invariant state) : Always step property state events :=
  always_of_invariant (fun state event kept _ => preserved state event kept) implies initially
    (show Along step (fun _ _ => True) state events from
      along_of_forall (fun _ _ _ => trivial) state)

/-- When a step can lead to a state with the property only if it meets the condition, every step
of a run meets the condition if the property holds all along it. -/
theorem Always.along (preserved : ∀ state event, invariant state → invariant (step state event))
    (forces : ∀ state event, invariant state → property (step state event) →
      condition state event) (initially : invariant state)
    (always : Always step property state events) : Along step condition state events := by
  induction events generalizing state with
  | nil => trivial
  | cons event rest inductionHypothesis =>
    exact ⟨forces state event initially always.2.first,
      inductionHypothesis (preserved state event initially) always.2⟩

/-- The exactness rule. When, on states that have both the invariant and the property, a step
keeps the property exactly if it meets the condition, then the property holds all along a run
exactly if every step of the run meets the condition. -/
theorem always_iff_along {discipline condition : State → Event → Prop}
    (preserved : ∀ state event, invariant state → discipline state event →
      invariant (step state event))
    (exact_step : ∀ state event, invariant state → discipline state event → property state →
      (property (step state event) ↔ condition state event)) (initially : invariant state)
    (start : property state) (disciplined : Along step discipline state events) :
    Always step property state events ↔ Along step condition state events := by
  induction events generalizing state with
  | nil => exact ⟨fun _ => trivial, fun _ => start⟩
  | cons event rest inductionHypothesis =>
    have next := exact_step state event initially disciplined.1 start
    have tail : property (step state event) →
        (Always step property (step state event) rest ↔
          Along step condition (step state event) rest) := fun kept =>
      inductionHypothesis (preserved state event initially disciplined.1) kept disciplined.2
    constructor
    · intro always
      have kept : property (step state event) := always.2.first
      exact ⟨next.mp kept, (tail kept).mp always.2⟩
    · intro along
      have kept : property (step state event) := next.mpr along.1
      exact ⟨start, (tail kept).mpr along.2⟩

/-- The exactness rule for two conditions on steps, the second of which keeps an invariant under
which both say the same. -/
theorem along_iff_along {property condition : State → Event → Prop}
    (preserved : ∀ state event, invariant state → condition state event →
      invariant (step state event))
    (exact_step : ∀ state event, invariant state → (property state event ↔ condition state event))
    (initially : invariant state) :
    Along step property state events ↔ Along step condition state events := by
  induction events generalizing state with
  | nil => exact Iff.rfl
  | cons event rest inductionHypothesis =>
    rw [along_cons, along_cons, exact_step state event initially]
    exact and_congr_right fun met => inductionHypothesis (preserved state event initially met)

/-- The exactness rule for an invariant that every step keeps. -/
theorem always_iff_along_of_stable {invariant property : State → Prop}
    {condition : State → Event → Prop}
    (preserved : ∀ state event, invariant state → invariant (step state event))
    (exact_step : ∀ state event, invariant state → property state →
      (property (step state event) ↔ condition state event))
    {state : State} {events : List Event} (initially : invariant state)
    (start : property state) :
    Always step property state events ↔ Along step condition state events := by
  have unrestricted : Along step (fun _ _ => True) state events :=
    along_of_forall (fun _ _ _ => trivial) state
  exact always_iff_along (fun state event kept _ => preserved state event kept)
    (fun state event kept _ => exact_step state event kept) initially start unrestricted

/-- A stronger property that a step cannot lose without losing the weaker one holds all along a
run if the weaker one does. -/
theorem Always.strengthen {invariant weak strong : State → Prop}
    (preserved : ∀ state event, invariant state → invariant (step state event))
    (keeps : ∀ state event, invariant state → strong state → weak (step state event) →
      strong (step state event)) (initially : invariant state) (start : strong state)
    (always : Always step weak state events) : Always step strong state events := by
  induction events generalizing state with
  | nil => exact start
  | cons event rest inductionHypothesis =>
    have next := keeps state event initially start always.2.first
    exact ⟨start, inductionHypothesis (preserved state event initially) next always.2⟩

/-! ### Progress -/

/-- A rank that every counted event lowers and that no event raises has fallen by their number,
or is zero. -/
theorem run_countdown {invariant : State → Prop} {rank : State → Nat} {counted : Event → Bool}
    (preserved : ∀ state event, invariant state → invariant (step state event))
    (falls : ∀ state event, invariant state →
      rank (step state event) ≤ rank state - (counted event).toNat)
    {state : State} (initially : invariant state) (events : List Event) :
    rank (run step state events) ≤ rank state - events.countP counted := by
  induction events generalizing state with
  | nil => exact Nat.le_refl _
  | cons event rest inductionHypothesis =>
    have first := falls state event initially
    have later := inductionHypothesis (preserved state event initially)
    rw [run_cons, countP_cons]
    cases isCounted : counted event with
    | false =>
      rw [isCounted, Bool.toNat_false] at first
      rw [if_neg Bool.false_ne_true]
      omega
    | true =>
      rw [isCounted, Bool.toNat_true] at first
      rw [if_pos rfl]
      omega

/-- The goal is reached whatever happens, provided that something happens as long as something
can: every event that changes the state leads closer, and until the goal there is one. -/
inductive Inevitable (step : State → Event → State) (goal : State → Prop) : State → Prop
  | now {state : State} (here : goal state) : Inevitable step goal state
  | later {state : State} (moves : ∃ event, step state event ≠ state)
      (next : ∀ event, step state event ≠ state → Inevitable step goal (step state event)) :
      Inevitable step goal state

section Inevitable

variable {goal invariant : State → Prop}

/-- A goal is inevitable if every change before it lowers a rank, and there is always one. -/
theorem Inevitable.of_rank {rank : State → Nat}
    (preserved : ∀ state event, invariant state → invariant (step state event))
    (moves : ∀ state, invariant state → ¬goal state → ∃ event, step state event ≠ state)
    (falls : ∀ state event, invariant state → ¬goal state → step state event ≠ state →
      rank (step state event) < rank state)
    {state : State} (initially : invariant state) : Inevitable step goal state := by
  induction bound : rank state using Nat.strongRecOn generalizing state with
  | ind amount inductionHypothesis =>
    by_cases here : goal state
    · exact .now here
    · refine .later (moves state initially here) fun event change => ?_
      have fewer := falls state event initially here change
      rw [bound] at fewer
      exact inductionHypothesis _ fewer (preserved state event initially) rfl

/-- A goal that lasts stays inevitable along a run. -/
theorem Inevitable.run (lasts : ∀ state event, goal state → goal (step state event))
    {state : State} (inevitable : Inevitable step goal state) (events : List Event) :
    Inevitable step goal (run step state events) := by
  induction events generalizing state with
  | nil => exact inevitable
  | cons event rest inductionHypothesis =>
    refine inductionHypothesis ?_
    cases inevitable with
    | now here => exact .now (lasts state event here)
    | later moves next =>
      by_cases same : step state event = state
      · rw [same]
        exact .later moves next
      · exact next event same

/-- What no event leads out of keeps a goal away. -/
theorem Inevitable.not_of_invariant
    (preserved : ∀ state event, invariant state → invariant (step state event))
    (away : ∀ state, invariant state → ¬goal state) {state : State}
    (initially : invariant state) : ¬Inevitable step goal state := by
  intro inevitable
  induction inevitable with
  | now here => exact away _ initially here
  | later moves next inductionHypothesis =>
    obtain ⟨event, change⟩ := moves
    exact inductionHypothesis event change (preserved _ event initially)

end Inevitable

/-! ### Progress under fair schedules -/

section Progress

variable {Party : Type*} {invariant : State → Prop} {condition : State → Event → Prop}

/-- A rank that no step raises, and that the event of one party lowers as long as it is positive:
`helper` names that party, which stays the same until the rank falls. -/
structure Ranked (step : State → Event → State) (invariant : State → Prop)
    (condition : State → Event → Prop) (rank : State → Nat) (helper : State → Party)
    (party : Event → Option Party) : Prop where
  preserved : ∀ state event, invariant state → condition state event →
    invariant (step state event)
  falls : ∀ state event, invariant state → condition state event →
    rank (step state event) < rank state ∨
      rank (step state event) = rank state ∧
        (0 < rank state → helper (step state event) = helper state ∧
          party event ≠ some (helper state))

variable {rank : State → Nat} {helper : State → Party} {party : Event → Option Party}

section

variable (ranked : Ranked step invariant condition rank helper party)
include ranked

theorem Ranked.run_le {state : State} {events : List Event} (initially : invariant state)
    (along : Along step condition state events) : rank (run step state events) ≤ rank state := by
  induction events generalizing state with
  | nil => exact Nat.le_refl _
  | cons event rest inductionHypothesis =>
    have kept := ranked.preserved state event initially along.1
    have first : rank (step state event) ≤ rank state := by
      rcases ranked.falls state event initially along.1 with fewer | ⟨same, _⟩
      · exact Nat.le_of_lt fewer
      · exact Nat.le_of_eq same
    exact Nat.le_trans (inductionHypothesis kept along.2) first

/-- A round in which every party takes part lowers a positive rank. -/
theorem Ranked.run_lt {state : State} {round : List Event} (initially : invariant state)
    (along : Along step condition state round) (positive : 0 < rank state)
    (all : ∃ event ∈ round, party event = some (helper state)) :
    rank (run step state round) < rank state := by
  induction round generalizing state with
  | nil =>
    obtain ⟨event, member, _⟩ := all
    cases member
  | cons event rest inductionHypothesis =>
    have kept := ranked.preserved state event initially along.1
    rcases ranked.falls state event initially along.1 with fewer | ⟨same, waits⟩
    · rw [run_cons]
      exact Nat.lt_of_le_of_lt (ranked.run_le kept along.2) fewer
    · obtain ⟨unchanged, other⟩ := waits positive
      rw [run_cons, ← same]
      refine inductionHypothesis kept along.2 (by rw [same]; exact positive) ?_
      obtain ⟨later, member, helps⟩ := all
      rcases mem_cons.mp member with rfl | inRest
      · exact absurd helps other
      · exact ⟨later, inRest, by rw [unchanged]; exact helps⟩

/-- Every round in which all parties take part lowers the rank by one, until it is zero. -/
theorem Ranked.run_rounds {state : State} {rounds : List (List Event)} (initially : invariant state)
    (along : Along step condition state rounds.flatten)
    (fair : ∀ round ∈ rounds, ∀ member, ∃ event ∈ round, party event = some member) :
    rank (run step state rounds.flatten) ≤ rank state - rounds.length := by
  induction rounds generalizing state with
  | nil => exact Nat.le_refl _
  | cons round rest inductionHypothesis =>
    rw [flatten_cons, along_append] at along
    rw [flatten_cons, run_append, length_cons]
    have kept : invariant (run step state round) :=
      run_invariant ranked.preserved initially along.1
    have later := inductionHypothesis kept along.2
      fun other member => fair other (mem_cons_of_mem _ member)
    rcases Nat.eq_zero_or_pos (rank state) with zero | positive
    · have bound := ranked.run_le initially along.1
      omega
    · have fewer := ranked.run_lt initially along.1 positive
        (fair round mem_cons_self (helper state))
      omega

end

end Progress

end Transition
