/-
This file says what the users of the blocking queue see of it. For the producer a
call stands between the element it offers and the moment at which the element is
counted; for the consumer it stands open until it is answered. An access of one
of the two leaves the call of the other as it is. When no allocation fails, what
is offered is counted.
-/

import RFaaS.BlockingProgress

namespace RFaaS

/-! ### A producer that may allocate -/

namespace ReaderWriterQueue

variable {α : Type*}

/-- The call is one of `enqueue` or `emplace`. -/
def Producer.Allocating : Producer α → Prop
  | .check mode _ | .reload mode _ _ _ _ | .full mode _ _ => mode = .canAlloc
  | _ => True

/-- If there is memory, a call that may allocate goes on like that and does not refuse. -/
theorem Producer.Allocating.step {producer : Producer α} (allocating : producer.Allocating)
    (maxBlockSize : Nat) (queue : Queue α) :
    (producer.step maxBlockSize true queue).2.1.Allocating ∧
      ∀ element, (producer.step maxBlockSize true queue).2.2 ≠ some (.refused element) := by
  fun_cases Producer.step maxBlockSize true queue producer <;> simp_all [Allocating]

end ReaderWriterQueue

namespace BlockingReaderWriterQueue

open Transition ReaderWriterQueue

variable {α : Type*} {capacity maxBlockSize : Nat} {state : State α} {units : Int}
  {contents : List α}

/-! ### What the producer sees -/

/-- The element that the producer offers and that is not counted yet. -/
def State.offered (state : State α) : Option α :=
  match state.enqueuer with
  | .idle => none
  | .inner => state.inner.producer.element?
  | .signal element => if state.sema.signaller = .post then none else some element

theorem offered_of_idle (idle : state.enqueuer = .idle) : state.offered = none := by
  rw [State.offered, idle]

/-- What decides about the call of the producer. -/
structure SameOffer (state next : State α) : Prop where
  enqueuer : next.enqueuer = state.enqueuer
  producer : next.inner.producer = state.inner.producer
  signaller : next.sema.signaller = state.sema.signaller

theorem SameOffer.offered {next : State α} (same : SameOffer state next) :
    next.offered = state.offered := by
  rw [State.offered, State.offered, same.enqueuer, same.producer, same.signaller]

theorem Inv.offers (inv : Inv capacity state units contents) (idle : state.enqueuer = .idle)
    (element : α) :
    (step maxBlockSize state (.enqueue .canAlloc element)).offered = some element ∧
      (step maxBlockSize state (.enqueue .canAlloc element)).inner.producer.Allocating ∧
      (step maxBlockSize state (.enqueue .canAlloc element)).log = state.log ∧
      (step maxBlockSize state (.enqueue .canAlloc element)).dequeuer = state.dequeuer := by
  have fits := inv.enqueuer
  obtain ⟨⟨queue, producer, consumer, history⟩, sema, enqueuer, dequeuer, log, sound⟩ := state
  obtain rfl : enqueuer = .idle := idle
  obtain rfl : producer = .idle := fits.1
  exact ⟨rfl, rfl, rfl, rfl⟩

/-- An access of the producer counts the element that it offers, or goes on. -/
theorem Inv.counts (inv : Inv capacity state units contents)
    (allocating : state.inner.producer.Allocating) :
    (step maxBlockSize state (.produce true)).inner.producer.Allocating ∧
      ((step maxBlockSize state (.produce true)).log = state.log ∧
          (step maxBlockSize state (.produce true)).offered = state.offered ∨
        ∃ element, state.offered = some element ∧
          (step maxBlockSize state (.produce true)).offered = none ∧
          (step maxBlockSize state (.produce true)).log = state.log ++ [.enqueued element]) := by
  have fits := inv.enqueuer
  change (state.produce maxBlockSize true).inner.producer.Allocating ∧
    ((state.produce maxBlockSize true).log = state.log ∧
        (state.produce maxBlockSize true).offered = state.offered ∨
      ∃ element, state.offered = some element ∧
        (state.produce maxBlockSize true).offered = none ∧
        (state.produce maxBlockSize true).log = state.log ++ [.enqueued element])
  obtain ⟨inner, ⟨counters, signaller, waiter, history⟩, enqueuer, dequeuer, log, sound⟩ := state
  cases enqueuer with
  | idle => exact ⟨allocating, .inl ⟨rfl, rfl⟩⟩
  | inner =>
    obtain ⟨goesOn, accepts⟩ := Producer.Allocating.step allocating maxBlockSize inner.queue
    obtain ⟨element, about⟩ := Producer.element?_eq_some fits.1
    obtain rfl : signaller = .idle := fits.2
    rcases Producer.step_closer maxBlockSize true inner.queue about with
      answer | answer | ⟨silent, still, -⟩
    · rw [State.produce, answer]
      refine ⟨goesOn, .inl ⟨rfl, ?_⟩⟩
      exact about.symm
    · exact absurd (congrArg Prod.snd answer) (accepts element)
    · rw [State.produce, silent]
      exact ⟨goesOn, .inl ⟨rfl, still.trans about.symm⟩⟩
  | signal element =>
    rcases fits.2 with rfl | rfl
    · refine ⟨allocating, .inr ⟨element, rfl, ?_, rfl⟩⟩
      by_cases asleep : counters.count < 0
      all_goals
        simp [State.produce, State.offered, LightweightSemaphore.step,
          LightweightSemaphore.Signaller.step, asleep]
    · exact ⟨allocating, .inl ⟨rfl, rfl⟩⟩

/-! ### What the consumer sees -/

/-- The consumer is in this call. -/
def State.Calls (state : State α) (call : Call) : Prop :=
  state.dequeuer = .sema call ∨ state.dequeuer = .inner call

theorem signaller_call (sema : LightweightSemaphore.State) (call : LightweightSemaphore.Call) :
    (LightweightSemaphore.step sema (.call call)).signaller = sema.signaller := by
  obtain ⟨counters, signaller, waiter, history⟩ := sema
  cases waiter <;> rfl

theorem sameOffer_call (call : Call) : SameOffer state (step maxBlockSize state (.call call)) := by
  obtain ⟨⟨queue, producer, consumer, past⟩, ⟨counters, signaller, waiter, history⟩, enqueuer,
    dequeuer, log, sound⟩ := state
  cases dequeuer with
  | idle =>
    cases call with
    | peek => cases consumer <;> exact ⟨rfl, rfl, rfl⟩
    | _ => cases waiter <;> exact ⟨rfl, rfl, rfl⟩
  | _ => exact ⟨rfl, rfl, rfl⟩

theorem begins_call (idle : state.dequeuer = .idle) {call : Call} (waits : call ≠ .peek) :
    (step maxBlockSize state (.call call)).Calls call ∧
      (step maxBlockSize state (.call call)).log = state.log := by
  obtain ⟨inner, sema, enqueuer, dequeuer, log, sound⟩ := state
  obtain rfl : dequeuer = .idle := idle
  cases call with
  | peek => exact absurd rfl waits
  | _ => exact ⟨.inl rfl, rfl⟩

theorem sameOffer_consume (failed : Bool) :
    SameOffer state (step maxBlockSize state (.consume failed)) := by
  have producer (call : ReaderWriterQueue.Call) : (ReaderWriterQueue.step maxBlockSize state.inner
      (.call call)).producer = state.inner.producer := by
    rw [ReaderWriterQueue.step]
    split <;> rfl
  change SameOffer state (state.consume maxBlockSize failed)
  fun_cases State.consume maxBlockSize failed state with
  | case3 => exact ⟨rfl, producer _, rfl⟩
  | case4 => exact ⟨rfl, rfl, signaller_call ..⟩
  | _ => exact ⟨rfl, rfl, rfl⟩

/-- An access of a consumer that wants an element goes on with the call, brings an element or says
that there is none. `wait_dequeue` does not say that. -/
theorem Inv.answers (inv : Inv capacity state units contents) {call : Call}
    (waits : call ≠ .peek) (calls : state.Calls call) (failed : Bool) :
    (step maxBlockSize state (.consume failed)).log = state.log ∧
        (step maxBlockSize state (.consume failed)).Calls call ∨
      (step maxBlockSize state (.consume failed)).dequeuer = .idle ∧
        ((∃ element, (step maxBlockSize state (.consume failed)).log =
            state.log ++ [.removed call element]) ∨
          (step maxBlockSize state (.consume failed)).log = state.log ++ [.empty call]) := by
  have fits := inv.dequeuer
  change (state.consume maxBlockSize failed).log = state.log ∧
      (state.consume maxBlockSize failed).Calls call ∨
    (state.consume maxBlockSize failed).dequeuer = .idle ∧
      ((∃ element, (state.consume maxBlockSize failed).log =
          state.log ++ [.removed call element]) ∨
        (state.consume maxBlockSize failed).log = state.log ++ [.empty call])
  obtain ⟨inner, sema, enqueuer, dequeuer, log, sound⟩ := state
  rcases calls with rfl | rfl
  · obtain ⟨-, -, waiting⟩ := fits
    rcases LightweightSemaphore.Waiter.step_answer waiting failed sema.sema with
      answer | answer | ⟨silent, -⟩
    · rw [State.consume, answer]
      exact .inl ⟨rfl, .inr rfl⟩
    · rw [State.consume, answer]
      cases call with
      | waitDequeue => exact .inl ⟨rfl, .inl rfl⟩
      | _ => exact .inr ⟨rfl, .inr rfl⟩
    · rw [State.consume, silent]
      exact .inl ⟨rfl, .inl rfl⟩
  · obtain ⟨about, -, -⟩ := fits
    rcases inv.inner.consumer_closer about with ⟨element, answer⟩ | answer | ⟨silent, -, -⟩
    · rw [State.consume, answer]
      cases call with
      | peek => exact absurd rfl waits
      | _ => exact .inr ⟨rfl, .inl ⟨element, rfl⟩⟩
    · exact absurd answer (inv.not_empty waits)
    · rw [State.consume, silent]
      exact .inl ⟨rfl, .inr rfl⟩

/-! ### What the answers do to the list of elements -/

/-- The answer that an access has given. -/
def State.answer (state next : State α) : Option (Response α) :=
  (next.log.drop state.log.length).head?

theorem answer_eq_none {next : State α} (silent : next.log = state.log) :
    state.answer next = none := by
  rw [State.answer, silent, List.drop_length, List.head?_nil]

theorem answer_eq_some {next : State α} {response : Response α}
    (answered : next.log = state.log ++ [response]) : state.answer next = some response := by
  rw [State.answer, answered, List.drop_left, List.head?_cons]

/-- The element that an answer brings. -/
def Response.element? : Response α → Option α
  | .removed _ element => some element
  | _ => none

/-- A call that is answered has taken the first element, if there was one. -/
theorem Legal.taken {log : List (Response α)} {before after : List α} (legal : Legal log before)
    {call : Call} (waits : call ≠ .peek) {response : Response α}
    (kind : (∃ element, response = .removed call element) ∨ response = .empty call)
    (later : Legal (log ++ [response]) after) :
    response.element? = before.head? ∧ after = before.tail := by
  obtain ⟨contents, earlier, atomic⟩ := later.last
  cases legal.unique earlier
  rcases kind with ⟨element, rfl⟩ | rfl
  · cases atomic
    exact ⟨rfl, rfl⟩
  · cases atomic with
    | empty => exact ⟨rfl, rfl⟩
    | unseen => exact absurd rfl waits

theorem Legal.added {log : List (Response α)} {before after : List α} (legal : Legal log before)
    {element : α} (later : Legal (log ++ [.enqueued element]) after) :
    after = before ++ [element] := by
  obtain ⟨contents, earlier, atomic⟩ := later.last
  cases legal.unique earlier
  cases atomic
  rfl

end BlockingReaderWriterQueue

end RFaaS
