/-
This file shows that the queue is wait-free: a call is answered after a fixed
number of accesses of its own thread, whatever the other thread does in between
and wherever it stops. It also says which answer belongs to which call, which is
what the blocking queue builds on.
-/

import RFaaS.QueueFifo

namespace RFaaS

namespace ReaderWriterQueue

open Transition Response

variable {α : Type*}

/-! ### The producer -/

/-- The element that the call is about. -/
def Producer.element? : Producer α → Option α
  | .idle => none
  | .check _ element | .reload _ element _ _ _ | .construct element _ _ _ | .publish element _ _
  | .full _ element _ | .advance element _ | .constructNext element _ _
  | .publishNext element _ _ | .allocate element _ | .link element _ _ | .moveOn element _ =>
    some element

/-- The accesses that the call still makes at most. -/
def Producer.rank : Producer α → Nat
  | .idle => 0
  | .publish .. | .moveOn .. => 1
  | .construct .. | .publishNext .. | .link .. => 2
  | .constructNext .. | .allocate .. => 3
  | .advance .. => 4
  | .full .. => 5
  | .reload .. => 6
  | .check .. => 7

variable {producer : Producer α}

/-- An access answers the call, with its own element, or leads closer to the answer. -/
theorem Producer.step_closer (maxBlockSize : Nat) (malloc : Bool) (queue : Queue α) {element : α}
    (calls : producer.element? = some element) :
    (producer.step maxBlockSize malloc queue).2 = (.idle, some (.enqueued element)) ∨
      (producer.step maxBlockSize malloc queue).2 = (.idle, some (.refused element)) ∨
      (producer.step maxBlockSize malloc queue).2.2 = none ∧
        (producer.step maxBlockSize malloc queue).2.1.element? = some element ∧
        (producer.step maxBlockSize malloc queue).2.1.rank < producer.rank := by
  fun_cases Producer.step maxBlockSize malloc queue producer <;> cases calls <;>
    simp [element?, rank]

/-! ### The consumer -/

/-- The call that the consumer is in. -/
def Consumer.call? : Consumer α → Option Call
  | .idle => none
  | .start call | .reload call _ _ | .compare call _ | .recheck call | .follow call _
  | .inspect call _ | .shift call _ _ | .take call _ _ | .release call _ _ _ => some call

/-- The accesses that the call still makes at most. -/
def Consumer.rank : Consumer α → Nat
  | .idle => 0
  | .release .. => 1
  | .take .. => 2
  | .shift .. => 3
  | .inspect .. => 4
  | .follow .. => 5
  | .recheck .. => 6
  | .compare .. => 7
  | .reload .. => 8
  | .start .. => 9

/-- An access answers the call, or leads closer to the answer. -/
theorem Sound.consumer_closer {capacity : Nat} {queue : Queue α} {consumer : Consumer α}
    {log : List (Response α)} {call : Call}
    (sound : Sound capacity ⟨queue, producer, consumer, log⟩) (calls : consumer.call? = some call) :
    (∃ element, (consumer.step queue).2 = (.idle, some (call.answer element))) ∨
      (consumer.step queue).2 = (.idle, some (.empty call)) ∨
      (consumer.step queue).2.2 = none ∧ (consumer.step queue).2.1.call? = some call ∧
        (consumer.step queue).2.1.rank < consumer.rank := by
  obtain ⟨occupied, spare, contents, inv⟩ := sound
  fun_cases Consumer.step queue consumer with
  | case14 begun frontBlock blockFront missing =>
    -- there is an element where the consumer takes one
    obtain ⟨element, rest, -, found⟩ := Consumer.take_spec inv
    cases missing.symm.trans found
  | case15 _ _ element | case17 _ _ _ element =>
    cases calls
    exact .inl ⟨element, rfl⟩
  | _ => cases calls <;> simp [Consumer.call?, Consumer.rank]

/-! ### Every call is answered -/

/-- The answers to the producer. -/
def Response.toProducer : Response α → Bool
  | .enqueued _ | .refused _ => true
  | _ => false

def Event.produces : Event α → Bool
  | .produce _ => true
  | _ => false

def Event.consumes : Event α → Bool
  | .consume => true
  | _ => false

theorem log_prefix_step (maxBlockSize : Nat) (state : State α) (event : Event α) :
    state.log <+: (step maxBlockSize state event).log := by
  obtain ⟨queue, producer, consumer, log⟩ := state
  cases event with
  | enqueue => cases producer <;> exact List.prefix_rfl
  | produce malloc => exact List.prefix_append ..
  | call begun => cases consumer <;> exact List.prefix_rfl
  | consume => exact List.prefix_append ..

theorem Producer.rank_le (producer : Producer α) : producer.rank ≤ 7 := by
  cases producer <;> simp [rank]

theorem Consumer.rank_le (consumer : Consumer α) : consumer.rank ≤ 9 := by
  cases consumer <;> simp [rank]

theorem Producer.rank_pos (calls : producer ≠ .idle) : 0 < producer.rank := by
  cases producer with
  | idle => exact absurd rfl calls
  | _ => simp [rank]

theorem Consumer.rank_pos {consumer : Consumer α} (calls : consumer ≠ .idle) :
    0 < consumer.rank := by
  cases consumer with
  | idle => exact absurd rfl calls
  | _ => simp [rank]

theorem Producer.element?_eq_some (calls : producer ≠ .idle) :
    ∃ element, producer.element? = some element := by
  cases producer with
  | idle => exact absurd rfl calls
  | _ => exact ⟨_, rfl⟩

theorem Consumer.call?_eq_some {consumer : Consumer α} (calls : consumer ≠ .idle) :
    ∃ call, consumer.call? = some call := by
  cases consumer with
  | idle => exact absurd rfl calls
  | _ => exact ⟨_, rfl⟩

theorem producer_closer (maxBlockSize : Nat) (state : State α) (event : Event α)
    (calls : state.producer ≠ .idle) :
    state.log.countP toProducer <
        (step maxBlockSize state event).log.countP toProducer ∨
      (step maxBlockSize state event).producer ≠ .idle ∧
        (step maxBlockSize state event).producer.rank + event.produces.toNat ≤
          state.producer.rank := by
  obtain ⟨queue, producer, consumer, log⟩ := state
  cases event with
  | enqueue =>
    cases producer with
    | idle => exact absurd rfl calls
    | _ => exact .inr ⟨calls, Nat.le_refl _⟩
  | call begun => cases consumer <;> exact .inr ⟨calls, Nat.le_refl _⟩
  | consume => exact .inr ⟨calls, Nat.le_refl _⟩
  | produce malloc =>
    obtain ⟨element, about⟩ := Producer.element?_eq_some calls
    change log.countP toProducer <
        (log ++ (producer.step maxBlockSize malloc queue).2.2.toList).countP toProducer ∨
      (producer.step maxBlockSize malloc queue).2.1 ≠ .idle ∧ _
    rcases Producer.step_closer maxBlockSize malloc queue about with
      answer | answer | ⟨-, still, less⟩
    · left
      simp [answer, toProducer]
    · left
      simp [answer, toProducer]
    · right
      refine ⟨?_, less⟩
      intro idle
      rw [idle] at still
      cases still

theorem Sound.consumer_event {capacity maxBlockSize : Nat} {state : State α}
    (sound : Sound capacity state) (event : Event α) (calls : state.consumer ≠ .idle) :
    state.log.countP (!toProducer ·) <
        (step maxBlockSize state event).log.countP (!toProducer ·) ∨
      (step maxBlockSize state event).consumer ≠ .idle ∧
        (step maxBlockSize state event).consumer.rank + event.consumes.toNat ≤
          state.consumer.rank := by
  obtain ⟨queue, producer, consumer, log⟩ := state
  cases event with
  | enqueue => cases producer <;> exact .inr ⟨calls, Nat.le_refl _⟩
  | produce malloc => exact .inr ⟨calls, Nat.le_refl _⟩
  | call begun =>
    cases consumer with
    | idle => exact absurd rfl calls
    | _ => exact .inr ⟨calls, Nat.le_refl _⟩
  | consume =>
    obtain ⟨call, about⟩ := Consumer.call?_eq_some calls
    change log.countP (!toProducer ·) <
        (log ++ (consumer.step queue).2.2.toList).countP (!toProducer ·) ∨
      (consumer.step queue).2.1 ≠ .idle ∧ _
    rcases sound.consumer_closer about with ⟨element, answer⟩ | answer | ⟨-, still, less⟩
    · left
      cases call <;> simp [answer, Call.answer, toProducer]
    · left
      simp [answer, toProducer]
    · right
      refine ⟨?_, less⟩
      intro idle
      rw [idle] at still
      cases still

/-- A call is answered within seven accesses of the producer, or nine of the consumer, however
these are mixed with what the other thread does. -/
theorem calls_answered {maxBlockSize size : Nat} (power : ∃ exponent, maxBlockSize = 2 ^ exponent)
    (wide : 2 ≤ maxBlockSize) (positive : 0 < size) (fits : size < 2 ^ 63)
    (events later : List (Event α)) :
    let before := run (step maxBlockSize) (State.make maxBlockSize size) events
    let after := run (step maxBlockSize) (State.make maxBlockSize size) (events ++ later)
    (before.producer ≠ .idle → 7 ≤ later.countP Event.produces →
      before.log.countP toProducer < after.log.countP toProducer) ∧
    (before.consumer ≠ .idle → 9 ≤ later.countP Event.consumes →
      before.log.countP (!toProducer ·) < after.log.countP (!toProducer ·)) := by
  intro before after
  have sound : Sound size before := sound_run power wide positive fits events
  have grows : ∀ (counted : Response α → Bool) state event,
      state.log.countP counted ≤ (step maxBlockSize state event).log.countP counted :=
    fun counted state event => (log_prefix_step maxBlockSize state event).sublist.countP_le
  have free : Along (step maxBlockSize) (fun _ _ => True) before later :=
    along_of_forall (fun _ _ _ => trivial) before
  have reached : after = run (step maxBlockSize) before later := run_append ..
  rw [reached]
  refine ⟨fun calls turns => ?_, fun calls turns => ?_⟩
  · exact answered_within (grows _) (fun _ => Producer.rank_pos)
      (fun state event calls _ => producer_closer maxBlockSize state event calls) calls free
      (Nat.le_trans before.producer.rank_le turns)
  · refine @answered_within _ _ _ (fun state => Sound size state ∧ state.consumer ≠ .idle) _ _ _ _
      (grows _) (fun _ due => Consumer.rank_pos due.2) (fun state event due _ => ?_) _ _
      ⟨sound, calls⟩ free (Nat.le_trans before.consumer.rank_le turns)
    refine (due.1.consumer_event event due.2).imp id ?_
    rintro ⟨still, less⟩
    exact ⟨⟨sound_step wide state event due.1, still⟩, less⟩

theorem calls_answered_first :
    (run (step 512) (State.make 512 15) ([.enqueue .canAlloc 7] : List (Event Nat))).log.countP
        toProducer <
      (run (step 512) (State.make 512 15) ([.enqueue .canAlloc 7] ++
        List.replicate 7 (.produce true) : List (Event Nat))).log.countP toProducer :=
  (calls_answered ⟨9, rfl⟩ (by decide) (by decide) (by decide) _ _).1 (by decide +kernel)
    (by decide)

/-! ### What an answer says about the elements -/

theorem Sound.legal {capacity : Nat} {state : State α} (sound : Sound capacity state) :
    Legal [] state.log state.pending := by
  obtain ⟨occupied, spare, contents, inv⟩ := sound
  rw [State.pending_eq inv.legal]
  exact inv.legal

/-- What is answered is right about the elements that were there before it. -/
theorem Sound.answered {capacity : Nat} {state next : State α} (after : Sound capacity next)
    {more : List (Response α)} (logged : next.log = state.log ++ more) :
    Legal state.pending more next.pending := by
  have legal := after.legal
  rw [logged] at legal
  obtain ⟨middle, first, second⟩ := legal_append.mp legal
  rw [State.pending_eq first]
  exact second

end ReaderWriterQueue

end RFaaS
