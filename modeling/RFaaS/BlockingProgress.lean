/-
This file shows that no consumer of the blocking queue waits for an element that
is there. Once an element has been counted and the producer has sent the wake-up
that goes with it, a call that wants an element comes back with one after a fixed
number of its own accesses: a few to get past the semaphore, where time-outs only
send it round the long way, and those of the lock-free queue after it.
-/

import RFaaS.BlockingQueue

namespace RFaaS

namespace BlockingReaderWriterQueue

open Transition ReaderWriterQueue State Response

variable {α : Type*}

/-! ### The list of elements is what the calls have left -/

theorem Atomic.unique {contents next other : List α} {response : Response α}
    (first : Atomic contents response next) (second : Atomic contents response other) :
    next = other := by
  cases first <;> cases second <;> rfl

theorem Legal.last {log : List (Response α)} {response : Response α} {next : List α}
    (legal : Legal (log ++ [response]) next) :
    ∃ contents, Legal log contents ∧ Atomic contents response next := by
  generalize whole : log ++ [response] = history at legal
  cases legal with
  | nil => exact absurd whole (by simp)
  | snoc before atomic =>
    obtain ⟨rfl, same⟩ := List.append_inj' whole rfl
    cases same
    exact ⟨_, before, atomic⟩

theorem Legal.eq_nil {contents : List α} (legal : Legal [] contents) : contents = [] := by
  generalize whole : ([] : List (Response α)) = history at legal
  cases legal with
  | nil => rfl
  | snoc => exact absurd whole (by simp)

theorem Legal.unique {log : List (Response α)} {contents other : List α}
    (first : Legal log contents) (second : Legal log other) : contents = other := by
  induction log using List.reverseRecOn generalizing contents other with
  | nil => rw [first.eq_nil, second.eq_nil]
  | append_singleton log response inductionHypothesis =>
    obtain ⟨before, firstBefore, firstAtomic⟩ := first.last
    obtain ⟨otherBefore, secondBefore, secondAtomic⟩ := second.last
    cases inductionHypothesis firstBefore secondBefore
    exact firstAtomic.unique secondAtomic

/-! ### An element that is due -/

/-- The consumer wants an element, there is one, and no wake-up is still to be sent. -/
structure Fed (capacity : Nat) (state : State α) : Prop where
  inOrder : ∃ units contents, Inv capacity state units contents ∧ contents ≠ []
  sent : state.sema.signaller.owes = 0
  wants : ∃ call, call ≠ .peek ∧ (state.dequeuer = .sema call ∨ state.dequeuer = .inner call)

/-- The accesses that the call still needs at most. -/
def State.rank (state : State α) : Nat :=
  match state.dequeuer with
  | .idle => 0
  | .sema _ => state.sema.waiter.rank + 9
  | .inner _ => state.inner.consumer.rank

/-- The answers that bring an element. -/
def Response.brings : Response α → Bool
  | .removed _ _ => true
  | _ => false

def Event.consumes : Event α → Bool
  | .consume _ => true
  | _ => false

section Fed

variable {capacity maxBlockSize : Nat} {state : State α}

/-- What the producer does leaves a consumer that is due where it is. -/
theorem Fed.of_same (fed : Fed capacity state) {next : State α} {units : Int}
    {contents : List α} (inv : Inv capacity next units contents) (some : contents ≠ [])
    (sent : next.sema.signaller.owes = 0) (dequeuer : next.dequeuer = state.dequeuer)
    (waiter : next.sema.waiter = state.sema.waiter)
    (consumer : next.inner.consumer = state.inner.consumer) :
    Fed capacity next ∧ next.rank = state.rank := by
  refine ⟨⟨⟨units, contents, inv, some⟩, sent, dequeuer ▸ fed.wants⟩, ?_⟩
  rw [rank, rank, dequeuer, waiter, consumer]

theorem Fed.enqueue (fed : Fed capacity state) (wide : 2 ≤ maxBlockSize) (mode : AllocationMode)
    (element : α) :
    Fed capacity (step maxBlockSize state (.enqueue mode element)) ∧
      (step maxBlockSize state (.enqueue mode element)).rank = state.rank := by
  obtain ⟨units, contents, inv, some⟩ := fed.inOrder
  have kept := inv.enqueue wide mode element
  obtain ⟨⟨queue, producer, consumer, history⟩, sema, enqueuer, dequeuer, log, sound⟩ := state
  refine fed.of_same kept some ?_ ?_ ?_ ?_
  · cases enqueuer <;> exact fed.sent
  · cases enqueuer <;> rfl
  · cases enqueuer <;> rfl
  · cases enqueuer with
    | idle => cases producer <;> rfl
    | _ => rfl

/-- A signal that comes when there are units already does not find the waiter asleep. -/
theorem Fed.count_nonneg (fed : Fed capacity state) : ¬state.sema.sema.count < 0 := by
  obtain ⟨⟨units, contents, inv, some⟩, -, ⟨call, removes, point⟩⟩ := fed
  have fits := inv.dequeuer
  have length := inv.length
  have positive := List.length_pos_iff.mpr some
  rw [inv.sema.count_neg_iff]
  rintro ⟨waits, zero⟩
  rcases point with point | point
  · rw [point] at length
    change (contents.length : Int) = units + 0 at length
    omega
  · rw [point] at fits
    rw [fits.2.1] at waits
    cases waits

/-- The producer does not move the consumer. -/
theorem produce_frame (malloc : Bool) (state : State α) :
    (state.produce maxBlockSize malloc).dequeuer = state.dequeuer ∧
      (state.produce maxBlockSize malloc).sema.waiter = state.sema.waiter ∧
      (state.produce maxBlockSize malloc).inner.consumer = state.inner.consumer := by
  have waiter : (LightweightSemaphore.step state.sema (.signal 1)).waiter = state.sema.waiter := by
    rw [LightweightSemaphore.step]
    split <;> rfl
  fun_cases produce maxBlockSize malloc state with
  | case3 => exact ⟨rfl, waiter, rfl⟩
  | _ => exact ⟨rfl, rfl, rfl⟩

section

variable (fed : Fed capacity state)
include fed

theorem Fed.sent_produce (malloc : Bool) :
    (state.produce maxBlockSize malloc).sema.signaller.owes = 0 := by
  have sent := fed.sent
  have unseen := fed.count_nonneg
  obtain ⟨units, contents, inv, -⟩ := fed.inOrder
  have fits := inv.enqueuer
  obtain ⟨inner, ⟨counters, signaller, waiter, history⟩, enqueuer, dequeuer, log, sound⟩ := state
  cases enqueuer with
  | idle => exact sent
  | inner =>
    obtain rfl : signaller = .idle := fits.2
    simp only [produce]
    split
    · rfl
    · split <;> rfl
  | signal element =>
    rcases fits.2 with rfl | rfl
    · exact congrArg LightweightSemaphore.Signaller.owes (if_neg unseen)
    · cases sent

theorem Fed.produce (wide : 2 ≤ maxBlockSize) (malloc : Bool) :
    Fed capacity (step maxBlockSize state (.produce malloc)) ∧
      (step maxBlockSize state (.produce malloc)).rank = state.rank := by
  obtain ⟨units, contents, inv, some⟩ := fed.inOrder
  obtain ⟨left, more, kept⟩ := inv.produce wide malloc
  obtain ⟨dequeuer, waiter, consumer⟩ := @produce_frame _ maxBlockSize malloc state
  exact fed.of_same kept (List.append_ne_nil_of_left_ne_nil some more) (fed.sent_produce malloc)
    dequeuer waiter consumer

/-- In the semaphore every access of the consumer gets it a unit or closer to one. -/
theorem Fed.consume_sema {call : Call} (wide : 2 ≤ maxBlockSize)
    (failed : Bool) (point : state.dequeuer = .sema call) :
    Fed capacity (step maxBlockSize state (.consume failed)) ∧
      (step maxBlockSize state (.consume failed)).rank < state.rank := by
  obtain ⟨⟨units, contents, inv, some⟩, sent, -⟩ := fed
  obtain ⟨inner, sema, enqueuer, dequeuer, log, sound⟩ := state
  obtain rfl : dequeuer = .sema call := point
  obtain ⟨removes, idle, calls⟩ := inv.dequeuer
  have length : (contents.length : Int) = units + 0 := inv.length
  have positive := List.length_pos_iff.mpr some
  have due : LightweightSemaphore.Due sema := ⟨⟨units, inv.sema, by omega⟩, sent, calls⟩
  have closer := LightweightSemaphore.Waiter.step_due due failed
  rw [step]
  rcases LightweightSemaphore.Waiter.step_answer calls failed sema.sema with
    answer | answer | ⟨silent, still⟩
  · rw [consume, answer]
    have kept := inv.consume_acquired wide answer
    refine ⟨⟨⟨units - 1, contents, kept, some⟩, sent, ⟨call, removes, .inr rfl⟩⟩, ?_⟩
    have start : (ReaderWriterQueue.step maxBlockSize inner (.call call.innerCall)).consumer =
        .start call.innerCall := by
      rw [ReaderWriterQueue.step, show inner.consumer = .idle from idle]
    change (ReaderWriterQueue.step maxBlockSize inner (.call call.innerCall)).consumer.rank <
      sema.waiter.rank + 9
    rw [start]
    exact Nat.lt_add_of_pos_left due.rank_pos
  · rw [answer] at closer
    rcases closer with served | ⟨none, -⟩
    · cases served
    · cases none
  · rw [consume, silent]
    rcases closer with served | ⟨-, -, closer⟩
    · rw [silent] at served
      cases served
    · have kept := inv.consume_waiting silent still
      refine ⟨⟨⟨units, contents, kept, some⟩, sent, ⟨call, removes, .inl rfl⟩⟩, ?_⟩
      exact Nat.add_lt_add_right closer 9

/-- In the inner queue every access of the consumer gets it the element or closer to it. -/
theorem Fed.consume_inner {call : Call} (wide : 2 ≤ maxBlockSize)
    (failed : Bool) (point : state.dequeuer = .inner call) (removes : call ≠ .peek) :
    state.log.countP brings <
        (step maxBlockSize state (.consume failed)).log.countP brings ∨
      Fed capacity (step maxBlockSize state (.consume failed)) ∧
        (step maxBlockSize state (.consume failed)).rank < state.rank := by
  obtain ⟨⟨units, contents, inv, some⟩, sent, -⟩ := fed
  obtain ⟨inner, sema, enqueuer, dequeuer, log, sound⟩ := state
  obtain rfl : dequeuer = .inner call := point
  obtain ⟨about, -, -⟩ := inv.dequeuer
  rw [step]
  rcases inv.inner.consumer_closer about with ⟨element, answer⟩ | answer | ⟨silent, still, closer⟩
  · left
    rw [consume, answer]
    cases call with
    | peek => exact absurd rfl removes
    | _ =>
      change log.countP brings <
        (log ++ [removed _ element]).countP brings
      simp [brings]
  · exact absurd answer (inv.not_empty removes)
  · right
    rw [consume, silent]
    have kept := inv.consume_silent wide silent still
    exact ⟨⟨⟨units, contents, kept, some⟩, sent, ⟨call, removes, .inr rfl⟩⟩, closer⟩

/-- Every event brings the consumer its element, or leaves it due and not further away. -/
theorem Fed.closer (wide : 2 ≤ maxBlockSize) (event : Event α) :
    state.log.countP brings <
        (step maxBlockSize state event).log.countP brings ∨
      Fed capacity (step maxBlockSize state event) ∧
        (step maxBlockSize state event).rank + event.consumes.toNat ≤ state.rank := by
  cases event with
  | enqueue mode element => exact .inr ((fed.enqueue wide mode element).imp id Nat.le_of_eq)
  | produce malloc => exact .inr ((fed.produce wide malloc).imp id Nat.le_of_eq)
  | call other =>
    obtain ⟨call, removes, point⟩ := fed.wants
    have same : step maxBlockSize state (.call other) = state := by
      rcases point with point | point <;> rw [step, point]
    rw [same]
    exact .inr ⟨fed, Nat.le_refl _⟩
  | consume failed =>
    obtain ⟨call, removes, point | point⟩ := fed.wants
    · exact .inr (fed.consume_sema wide failed point)
    · exact fed.consume_inner wide failed point removes

theorem Fed.rank_pos : 0 < state.rank := by
  obtain ⟨units, contents, inv, -⟩ := fed.inOrder
  obtain ⟨call, -, point | point⟩ := fed.wants
  · rw [rank, point]
    exact Nat.add_pos_right _ (by decide)
  · have fits := inv.dequeuer
    rw [point] at fits
    rw [rank, point]
    refine Consumer.rank_pos ?_
    intro idle
    have about := fits.1
    rw [idle] at about
    cases about

theorem Fed.rank_le : state.rank ≤ 13 := by
  obtain ⟨call, -, point | point⟩ := fed.wants
  · rw [rank, point]
    exact Nat.add_le_add_right (LightweightSemaphore.Waiter.rank_le _) 9
  · rw [rank, point]
    exact Nat.le_trans (Consumer.rank_le _) (by decide)

end

end Fed

theorem log_prefix_step (maxBlockSize : Nat) (state : State α) (event : Event α) :
    state.log <+: (step maxBlockSize state event).log := by
  fun_cases step maxBlockSize state event with
  | case3 malloc =>
    fun_cases produce maxBlockSize malloc state with
    | case5 element => dsimp only; split <;> simp
    | _ => simp
  | case4 call => cases call <;> exact List.prefix_rfl
  | case6 failed => fun_cases consume maxBlockSize failed state <;> simp
  | _ => exact List.prefix_rfl

/-- A call that wants an element when there is one comes back with one within thirteen of its own
accesses, provided that the producer is not about to send a wake-up. -/
theorem consumer_served {maxBlockSize size : Nat}
    (power : ∃ exponent, maxBlockSize = 2 ^ exponent) (wide : 2 ≤ maxBlockSize)
    (positive : 0 < size) (fits : size < 2 ^ 63) {events later : List (Event α)}
    (wants : ∃ call, call ≠ .peek ∧
      ((run (step maxBlockSize) (make maxBlockSize size) events).dequeuer = .sema call ∨
        (run (step maxBlockSize) (make maxBlockSize size) events).dequeuer = .inner call))
    (sent : (run (step maxBlockSize) (make maxBlockSize size) events).sema.signaller ≠ .post)
    {contents : List α}
    (legal : Legal (run (step maxBlockSize) (make maxBlockSize size) events).log contents)
    (some : contents ≠ []) (turns : 13 ≤ later.countP Event.consumes) :
    (run (step maxBlockSize) (make maxBlockSize size) events).log.countP brings <
      (run (step maxBlockSize) (make maxBlockSize size) (events ++ later)).log.countP
        brings := by
  obtain ⟨units, held, inv⟩ := inOrder_run power wide positive fits events
  cases inv.legal.unique legal
  have fed : Fed size (run (step maxBlockSize) (make maxBlockSize size) events) :=
    ⟨⟨units, contents, inv, some⟩, LightweightSemaphore.Signaller.owes_eq_zero sent, wants⟩
  rw [run_append]
  exact answered_within
    (fun state event => (log_prefix_step maxBlockSize state event).sublist.countP_le)
    (fun state fed => fed.rank_pos) (fun state event fed _ => fed.closer wide event) fed
    (along_of_forall (fun _ _ _ => trivial) _) (Nat.le_trans fed.rank_le turns)

/-- An element is counted, and then asked for. -/
def offer : List (Event Nat) :=
  .enqueue .canAlloc 7 :: List.replicate 4 (.produce true) ++ [.call .waitDequeue]

theorem consumer_served_first :
    (run (step 512) (make 512 15) offer).log.countP brings <
      (run (step 512) (make 512 15)
        (offer ++ List.replicate 13 (.consume false))).log.countP brings := by
  refine @consumer_served Nat 512 15 ⟨9, rfl⟩ (by decide) (by decide) (by decide) _ _
    ⟨.waitDequeue, by decide, .inl (by decide +kernel)⟩ (by decide +kernel) [7] ?_ (by decide)
    (by decide)
  rw [show (run (step 512) (make 512 15) offer).log = [] ++ [.enqueued 7] by
    decide +kernel]
  exact .snoc .nil (.enqueued 7)

end BlockingReaderWriterQueue

end RFaaS
