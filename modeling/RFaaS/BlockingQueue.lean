/-
This file models the blocking queue, which is what the managers hand work from
thread to thread with: the lock-free queue, and the semaphore that counts its
elements. Each of the two is only right about itself, and between the accesses to
the one and to the other they disagree. The file shows that the calls that wait
for the semaphore never see this: for them the two together are one queue that a
call changes in one step, a call that comes back without an element was made when
there was none, and `assert(success)` holds.

`peek` does not ask the semaphore, so it may show an element that is not counted
yet, which the next `try_dequeue` does not get. What it shows is still what the
next call that gets an element gets, and it shows nothing only if the inner queue
was empty at some moment of the call.
-/

import RFaaS.LightweightSemaphore
import RFaaS.QueueProgress

namespace RFaaS

namespace BlockingReaderWriterQueue

open Transition ReaderWriterQueue List

variable {α : Type*}

/-! ### Calls and answers -/

/-- The calls of the consumer. -/
inductive Call where
  | tryDequeue
  | waitDequeue
  | waitDequeueTimed (timeoutUsecs : Int)
  | pop
  | peek
  deriving DecidableEq, Repr

/-- How the call waits for the semaphore. -/
def Call.semaCall : Call → Option LightweightSemaphore.Call
  | .tryDequeue => some .tryWait
  | .waitDequeue => some (.wait (-1))
  | .waitDequeueTimed timeoutUsecs => some (.wait timeoutUsecs)
  | .pop => some .tryWait
  | .peek => none

/-- The call of the inner queue that follows. -/
def Call.innerCall : Call → ReaderWriterQueue.Call
  | .pop => .pop
  | .peek => .peek
  | _ => .tryDequeue

/-- What a call has done. -/
inductive Response (α : Type*) where
  | enqueued (element : α)
  | refused
  | removed (call : Call) (element : α)
  | peeked (element : α)
  | empty (call : Call)
  deriving DecidableEq, Repr

/-! ### The two threads -/

/-- Where the producer is in `enqueue` or `try_enqueue`. -/
inductive Enqueuer (α : Type*) where
  | idle
  | inner
  | signal (element : α)
  deriving DecidableEq, Repr

/-- Where the consumer is in its call. -/
inductive Dequeuer where
  | idle
  | sema (call : Call)
  | inner (call : Call)
  deriving DecidableEq, Repr

/-- The inner queue and the semaphore, each with its threads, and where these are outside of
them. `sound` is false once an `assert(success)` has failed. -/
structure State (α : Type*) where
  inner : ReaderWriterQueue.State α
  sema : LightweightSemaphore.State
  enqueuer : Enqueuer α
  dequeuer : Dequeuer
  log : List (Response α)
  sound : Bool

inductive Event (α : Type*) where
  | enqueue (mode : AllocationMode) (element : α)
  | produce (malloc : Bool)
  | call (call : Call)
  | consume (failed : Bool)
  deriving DecidableEq, Repr

/-- The next access of the producer: in `inner_enqueue`, and after it in `signal`. -/
def State.produce (maxBlockSize : Nat) (malloc : Bool) (state : State α) : State α :=
  match state.enqueuer with
  | .idle => state
  | .inner =>
    let answer := (state.inner.producer.step maxBlockSize malloc state.inner.queue).2.2
    let inner := ReaderWriterQueue.step maxBlockSize state.inner (.produce malloc)
    match answer with
    | none => { state with inner }
    | some response =>
      match response.added with
      | some element =>
        { state with
          inner
          sema := LightweightSemaphore.step state.sema (.signal 1)
          enqueuer := .signal element }
      | none => { state with inner, enqueuer := .idle, log := state.log ++ [.refused] }
  | .signal element =>
    let answer := (state.sema.signaller.step state.sema.sema).2.2
    let sema := LightweightSemaphore.step state.sema .produce
    { state with
      sema
      enqueuer := if sema.signaller = .idle then .idle else .signal element
      log := if answer.isSome then state.log ++ [.enqueued element] else state.log }

/-- A call of the consumer begins with the semaphore, except for `peek`. -/
def State.call (maxBlockSize : Nat) (state : State α) (call : Call) : State α :=
  match call.semaCall with
  | some semaCall =>
    { state with
      sema := LightweightSemaphore.step state.sema (.call semaCall)
      dequeuer := .sema call }
  | none =>
    { state with
      inner := ReaderWriterQueue.step maxBlockSize state.inner (.call call.innerCall)
      dequeuer := .inner call }

/-- The next access of the consumer. `wait_dequeue` calls `wait` again if it failed. -/
def State.consume (maxBlockSize : Nat) (failed : Bool) (state : State α) : State α :=
  match state.dequeuer with
  | .idle => state
  | .sema call =>
    let answer := (state.sema.waiter.step failed state.sema.sema).2.2
    let sema := LightweightSemaphore.step state.sema (.consume failed)
    match answer with
    | none => { state with sema }
    | some .acquired =>
      { state with
        sema
        inner := ReaderWriterQueue.step maxBlockSize state.inner (.call call.innerCall)
        dequeuer := .inner call }
    | some _ =>
      match call with
      | .waitDequeue =>
        { state with sema := LightweightSemaphore.step sema (.call (.wait (-1))) }
      | _ => { state with sema, dequeuer := .idle, log := state.log ++ [.empty call] }
  | .inner call =>
    let answer := (state.inner.consumer.step state.inner.queue).2.2
    let inner := ReaderWriterQueue.step maxBlockSize state.inner .consume
    match answer with
    | none => { state with inner }
    | some (.peeked element) =>
      { state with inner, dequeuer := .idle, log := state.log ++ [.peeked element] }
    | some response =>
      match response.removed with
      | some element =>
        { state with inner, dequeuer := .idle, log := state.log ++ [.removed call element] }
      | none =>
        { state with
          inner
          dequeuer := .idle
          log := state.log ++ [.empty call]
          sound := state.sound && decide (call = .peek) }

/-- One step of one of the threads. A thread that is in a call does not begin another. -/
def step (maxBlockSize : Nat) (state : State α) : Event α → State α
  | .enqueue mode element =>
    match state.enqueuer with
    | .idle =>
      { state with
        inner := ReaderWriterQueue.step maxBlockSize state.inner (.enqueue mode element)
        enqueuer := .inner }
    | _ => state
  | .produce malloc => state.produce maxBlockSize malloc
  | .call call =>
    match state.dequeuer with
    | .idle => state.call maxBlockSize call
    | _ => state
  | .consume failed => state.consume maxBlockSize failed

def State.make (maxBlockSize size : Nat) : State α where
  inner := .make maxBlockSize size
  sema := .make
  enqueuer := .idle
  dequeuer := .idle
  log := []
  sound := true

def State.sizeApprox (state : State α) : Nat := state.sema.sema.availableApprox

/-! ### What the queue is for -/

/-- A call other than `peek` changes the list of elements in one step, and comes back without an
element only when there is none. An answer of `peek` leaves the list as it is. It is not judged by
the list, in which the element that it shows may not be counted yet. -/
inductive Atomic : List α → Response α → List α → Prop
  | enqueued {contents : List α} (element : α) :
      Atomic contents (.enqueued element) (contents ++ [element])
  | refused {contents : List α} : Atomic contents .refused contents
  | removed {contents : List α} (call : Call) (element : α) :
      Atomic (element :: contents) (.removed call element) contents
  | empty {call : Call} (waits : call ≠ .peek) : Atomic [] (.empty call) []
  | peeked {contents : List α} (element : α) : Atomic contents (.peeked element) contents
  | unseen {contents : List α} : Atomic contents (.empty .peek) contents

/-- What the calls have done is what they do to a list of elements one after the other. -/
inductive Legal : List (Response α) → List α → Prop
  | nil : Legal [] []
  | snoc {log : List (Response α)} {contents next : List α} {response : Response α}
      (legal : Legal log contents) (atomic : Atomic contents response next) :
      Legal (log ++ [response]) next

/-- The answers of `peek`. -/
def Response.peeks : Response α → Bool
  | .peeked _ | .empty .peek => true
  | _ => false

/-- The answers of the other calls alone make a history of the list. -/
theorem Legal.others {log : List (Response α)} {contents : List α} (legal : Legal log contents) :
    Legal (log.filter fun response => !response.peeks) contents := by
  induction legal with
  | nil => exact .nil
  | @snoc log contents next response earlier atomic inductionHypothesis =>
    rw [filter_append]
    have judged (other : response.peeks = false) : Legal (log.filter (fun response =>
        !response.peeks) ++ [response].filter fun response => !response.peeks) next := by
      simpa [other] using inductionHypothesis.snoc atomic
    cases atomic with
    | peeked | unseen => simpa [Response.peeks] using inductionHypothesis
    | @empty call waits => exact judged (by cases call <;> simp_all [Response.peeks])
    | _ => exact judged rfl

/-- The element that an answer shows. -/
def Response.shown : Response α → Option α
  | .removed _ element | .peeked element => some element
  | _ => none

/-- What `peek` has shown and no call has taken since. A call that shows or takes an element while
one is shown shows or takes this one. -/
inductive Showing : List (Response α) → Option α → Prop
  | nil : Showing [] none
  | peeked {log : List (Response α)} {shown : Option α} {element : α} (showing : Showing log shown)
      (same : ∀ other ∈ shown, other = element) :
      Showing (log ++ [.peeked element]) (some element)
  | removed {log : List (Response α)} {shown : Option α} {element : α} (call : Call)
      (showing : Showing log shown) (same : ∀ other ∈ shown, other = element) :
      Showing (log ++ [.removed call element]) none
  | other {log : List (Response α)} {shown : Option α} {response : Response α}
      (showing : Showing log shown) (silent : response.shown = none) :
      Showing (log ++ [response]) shown

/-- What `peek` shows is the first element of the inner queue until it is taken. -/
def Foreseen (log : List (Response α)) (pending : List α) : Prop :=
  ∃ shown, Showing log shown ∧ ∀ element ∈ shown, pending.head? = some element

namespace Foreseen

variable {log : List (Response α)} {pending : List α} {element : α}

section

variable (foreseen : Foreseen log pending)
include foreseen

theorem append (more : List α) :
    Foreseen log (pending ++ more) := by
  obtain ⟨shown, showing, first⟩ := foreseen
  refine ⟨shown, showing, fun element member => ?_⟩
  rw [head?_append, first element member]
  rfl

theorem other {response : Response α}
    (silent : response.shown = none) : Foreseen (log ++ [response]) pending := by
  obtain ⟨shown, showing, first⟩ := foreseen
  exact ⟨shown, showing.other silent, first⟩

/-- What is shown is the first element, so it is what is shown or taken next. -/
theorem same (front : pending.head? = some element) :
    ∃ shown, Showing log shown ∧ ∀ other ∈ shown, other = element := by
  obtain ⟨shown, showing, first⟩ := foreseen
  exact ⟨shown, showing, fun other member =>
    Option.some.inj ((first other member).symm.trans front)⟩

theorem peeked (front : pending.head? = some element) :
    Foreseen (log ++ [.peeked element]) pending := by
  obtain ⟨shown, showing, same⟩ := foreseen.same front
  exact ⟨some element, showing.peeked same, fun _ member => Option.some.inj member ▸ front⟩

end

theorem removed (foreseen : Foreseen log (element :: pending)) (call : Call) :
    Foreseen (log ++ [.removed call element]) pending := by
  obtain ⟨shown, showing, same⟩ := foreseen.same rfl
  exact ⟨none, showing.removed call same, nofun⟩

end Foreseen

/-! ### The invariant -/

/-- An element that is in the inner queue and has not been counted yet. -/
def State.uncounted (state : State α) : List α :=
  match state.enqueuer with
  | .signal element => if state.sema.signaller = .post then [] else [element]
  | _ => []

/-- An element that has been counted off and is still in the inner queue. -/
def Dequeuer.holds : Dequeuer → Int
  | .inner call => if call = .peek then 0 else 1
  | _ => 0

theorem Dequeuer.holds_nonneg (dequeuer : Dequeuer) : 0 ≤ dequeuer.holds := by
  cases dequeuer with
  | inner call =>
    rw [holds]
    split <;> decide
  | _ => exact Int.le_refl 0

def Enqueuer.Fits (inner : ReaderWriterQueue.State α) (sema : LightweightSemaphore.State) :
    Enqueuer α → Prop
  | .idle => inner.producer = .idle ∧ sema.signaller = .idle
  | .inner => inner.producer ≠ .idle ∧ sema.signaller = .idle
  | .signal _ => inner.producer = .idle ∧ (sema.signaller = .add 1 ∨ sema.signaller = .post)

def Dequeuer.Fits (inner : ReaderWriterQueue.State α) (sema : LightweightSemaphore.State) :
    Dequeuer → Prop
  | .idle => inner.consumer = .idle ∧ sema.waiter = .idle
  | .sema call => call ≠ .peek ∧ inner.consumer = .idle ∧ sema.waiter ≠ .idle
  | .inner call => inner.consumer.call? = some call.innerCall ∧ sema.waiter = .idle ∧
      (call ≠ .peek → ¬Vain inner)

/-- The inner queue holds the elements of the queue and the one that is not counted yet. The units
of the semaphore are those elements, except for one that the consumer is about to fetch. -/
structure Inv (capacity : Nat) (state : State α) (units : Int) (contents : List α) : Prop where
  inner : Sound capacity state.inner
  sema : LightweightSemaphore.Inv state.sema units
  enqueuer : state.enqueuer.Fits state.inner state.sema
  dequeuer : state.dequeuer.Fits state.inner state.sema
  pending : state.inner.pending = contents ++ state.uncounted
  length : (contents.length : Int) = units + state.dequeuer.holds
  legal : Legal state.log contents
  foreseen : Foreseen state.log state.inner.pending
  sound : state.sound = true

/-! ### What the parts do -/

section Parts

variable {capacity maxBlockSize : Nat} {inner : ReaderWriterQueue.State α}
  (sound : Sound capacity inner) (wide : 2 ≤ maxBlockSize)

include sound wide

/-- What an access of the producer answers is what happens to the elements. -/
theorem produced (malloc : Bool) :
    ReaderWriterQueue.Legal inner.pending
      (inner.producer.step maxBlockSize malloc inner.queue).2.2.toList
      (ReaderWriterQueue.step maxBlockSize inner (.produce malloc)).pending :=
  (sound_step wide inner (.produce malloc) sound).answered rfl

/-- What an access of the consumer answers is what happens to the elements. -/
theorem consumed :
    ReaderWriterQueue.Legal inner.pending (inner.consumer.step inner.queue).2.2.toList
      (ReaderWriterQueue.step maxBlockSize inner .consume).pending :=
  (sound_step wide inner .consume sound).answered rfl

/-- As long as there is an element, no event makes the consumer's search a vain one. -/
theorem not_vain (event : ReaderWriterQueue.Event α) (found : ¬Vain inner)
    (some : (ReaderWriterQueue.step maxBlockSize inner event).pending ≠ []) :
    ¬Vain (ReaderWriterQueue.step maxBlockSize inner event) := by
  intro vain
  rcases vain_arises wide inner event sound vain with before | nothing
  · exact found before
  · exact some nothing

end Parts

theorem uncounted_of_eq {state next : State α} (enqueuer : next.enqueuer = state.enqueuer)
    (signaller : next.sema.signaller = state.sema.signaller) :
    next.uncounted = state.uncounted := by
  rw [State.uncounted, State.uncounted, enqueuer, signaller]

namespace Inv

variable {capacity maxBlockSize : Nat} {state : State α} {units : Int} {contents : List α}

section

variable (inv : Inv capacity state units contents)
include inv

/-- An element that the consumer is about to fetch is there. -/
theorem contents_ne_nil {call : Call}
    (fetches : state.dequeuer = .inner call) (removes : call ≠ .peek) : contents ≠ [] := by
  have length := inv.length
  have nonneg := inv.sema.nonneg
  rw [fetches, Dequeuer.holds, if_neg removes] at length
  intro nothing
  rw [nothing, length_nil] at length
  omega

/-- What an event of the producer leaves to the consumer. -/
theorem dequeuer_of_eq {inner : ReaderWriterQueue.State α} {sema : LightweightSemaphore.State}
    (consumer : inner.consumer = state.inner.consumer) (waiter : sema.waiter = state.sema.waiter)
    (found : ¬Vain state.inner → state.inner.pending ≠ [] → ¬Vain inner) :
    state.dequeuer.Fits inner sema := by
  have fits := inv.dequeuer
  cases point : state.dequeuer with
  | idle =>
    rw [point] at fits
    exact ⟨consumer.trans fits.1, waiter.trans fits.2⟩
  | sema call =>
    rw [point] at fits
    exact ⟨fits.1, consumer.trans fits.2.1, waiter ▸ fits.2.2⟩
  | inner call =>
    rw [point] at fits
    refine ⟨consumer ▸ fits.1, waiter.trans fits.2.1, fun removes => found (fits.2.2 removes) ?_⟩
    rw [inv.pending]
    exact append_ne_nil_of_left_ne_nil (inv.contents_ne_nil point removes) _

/-- What an event of the consumer leaves to the producer. -/
theorem enqueuer_of_eq {inner : ReaderWriterQueue.State α} {sema : LightweightSemaphore.State}
    (producer : inner.producer = state.inner.producer)
    (signaller : sema.signaller = state.sema.signaller) : state.enqueuer.Fits inner sema := by
  have fits := inv.enqueuer
  cases point : state.enqueuer <;> rw [point] at fits <;>
    simpa [Enqueuer.Fits, producer, signaller] using fits

/-! ### The producer -/

theorem enqueue (wide : 2 ≤ maxBlockSize) (mode : AllocationMode) (element : α) :
    Inv capacity (step maxBlockSize state (.enqueue mode element)) units contents := by
  obtain ⟨inner, sema, enqueuer, dequeuer, log, sound⟩ := state
  cases enqueuer with
  | inner => exact inv
  | signal other => exact inv
  | idle =>
    obtain ⟨idle, quiet⟩ : inner.producer = .idle ∧ sema.signaller = .idle := inv.enqueuer
    have begun : ReaderWriterQueue.step maxBlockSize inner (.enqueue mode element) =
        { inner with producer := .check mode element } := by
      rw [ReaderWriterQueue.step, idle]
    have kept := sound_step wide inner (.enqueue mode element) inv.inner
    change Inv capacity ⟨ReaderWriterQueue.step maxBlockSize inner (.enqueue mode element), sema,
      .inner, dequeuer, log, sound⟩ units contents
    rw [begun] at kept ⊢
    exact { inv with
      inner := kept
      enqueuer := ⟨by simp, quiet⟩
      dequeuer := inv.dequeuer_of_eq rfl rfl fun found _ => found }

end

variable {inner : ReaderWriterQueue.State α} {sema : LightweightSemaphore.State}
  {enqueuer : Enqueuer α} {dequeuer : Dequeuer} {log : List (Response α)} {sound : Bool}

theorem produced_inner {malloc : Bool}
    (inv : Inv capacity ⟨inner, sema, .inner, dequeuer, log, sound⟩ units contents)
    (wide : 2 ≤ maxBlockSize) {counter : LightweightSemaphore.State}
    (counts : LightweightSemaphore.Inv counter units) (waiter : counter.waiter = sema.waiter)
    {next : Enqueuer α} {answers : List (Response α)}
    (fits : next.Fits (ReaderWriterQueue.step maxBlockSize inner (.produce malloc)) counter)
    (more : inner.pending ++ (⟨inner, counter, next, dequeuer, log, sound⟩ : State α).uncounted =
      (ReaderWriterQueue.step maxBlockSize inner (.produce malloc)).pending)
    (legal : Legal answers contents) (foreseen : Foreseen answers inner.pending) :
    Inv capacity ⟨ReaderWriterQueue.step maxBlockSize inner (.produce malloc), counter, next,
      dequeuer, answers, sound⟩ units contents := by
  have pending : inner.pending = contents ++ [] := inv.pending
  have kept := foreseen.append (⟨inner, counter, next, dequeuer, log, sound⟩ : State α).uncounted
  rw [more] at kept
  rw [pending, append_nil] at more
  exact { inv with
    inner := sound_step wide inner (.produce malloc) inv.inner
    sema := counts
    enqueuer := fits
    dequeuer := inv.dequeuer_of_eq rfl waiter fun found some =>
      not_vain inv.inner wide _ found <| by
        rw [← more]
        exact append_ne_nil_of_left_ne_nil (append_nil contents ▸ pending ▸ some) _
    pending := more.symm
    legal := legal
    foreseen := kept }

/-- The element is in the inner queue and not yet counted. -/
theorem produce_enqueued {malloc : Bool} {element : α}
    (inv : Inv capacity ⟨inner, sema, .inner, dequeuer, log, sound⟩ units contents)
    (wide : 2 ≤ maxBlockSize)
    (answer : (inner.producer.step maxBlockSize malloc inner.queue).2 =
      (.idle, some (.enqueued element))) :
    Inv capacity ⟨ReaderWriterQueue.step maxBlockSize inner (.produce malloc),
      LightweightSemaphore.step sema (.signal 1), .signal element, dequeuer, log, sound⟩
      units contents := by
  have quiet : sema.signaller = .idle := inv.enqueuer.2
  have begun : LightweightSemaphore.step sema (.signal 1) = { sema with signaller := .add 1 } := by
    rw [LightweightSemaphore.step, quiet]
  have kept := inv.sema.signal (show (0 : Int) < 1 by decide)
  have more := produced inv.inner wide malloc
  rw [answer] at more
  change LightweightSemaphore.Inv (LightweightSemaphore.step sema (.signal 1)) units at kept
  rw [begun] at kept ⊢
  exact inv.produced_inner wide kept rfl ⟨congrArg Prod.fst answer, .inl rfl⟩ more inv.legal
    inv.foreseen

/-- The element is counted. If the consumer has gone to sleep it is to be woken up. -/
theorem produce_signal {malloc : Bool} {element : α} {counters : LightweightSemaphore.Semaphore}
    {waiter : LightweightSemaphore.Waiter} {history : List LightweightSemaphore.Response}
    (inv : Inv capacity ⟨inner, ⟨counters, .add 1, waiter, history⟩, .signal element, dequeuer, log,
      sound⟩ units contents) :
    Inv capacity (State.produce maxBlockSize malloc
      ⟨inner, ⟨counters, .add 1, waiter, history⟩, .signal element, dequeuer, log, sound⟩)
      (units + 1) (contents ++ [element]) := by
  have idle : inner.producer = .idle := inv.enqueuer.1
  have pending : inner.pending = contents ++ [element] := inv.pending
  have length : (contents.length : Int) = units + dequeuer.holds := inv.length
  have longer : ((contents ++ [element]).length : Int) = units + 1 + dequeuer.holds := by
    rw [length_append, length_singleton]
    omega
  let counted := LightweightSemaphore.step ⟨counters, .add 1, waiter, history⟩ .produce
  have next : counted.signaller = if counters.count < 0 then .post else .idle := rfl
  change Inv capacity ⟨inner, counted, if counted.signaller = .idle then .idle else .signal element,
    dequeuer, log ++ [.enqueued element], sound⟩ _ _
  have kept : dequeuer.Fits inner counted := inv.dequeuer_of_eq rfl rfl fun found _ => found
  by_cases asleep : counters.count < 0
  · rw [if_pos asleep] at next
    rw [next, if_neg (by decide)]
    exact ⟨inv.inner, inv.sema.add, ⟨idle, .inr next⟩, kept,
      by simp [State.uncounted, next, pending], longer, inv.legal.snoc (.enqueued element),
      inv.foreseen.other rfl, inv.sound⟩
  · rw [if_neg asleep] at next
    rw [next, if_pos rfl]
    exact ⟨inv.inner, inv.sema.add, ⟨idle, next⟩, kept, by simp [State.uncounted, pending],
      longer, inv.legal.snoc (.enqueued element), inv.foreseen.other rfl, inv.sound⟩

theorem produce_post {malloc : Bool} {element : α} {counters : LightweightSemaphore.Semaphore}
    {waiter : LightweightSemaphore.Waiter} {history : List LightweightSemaphore.Response}
    (inv : Inv capacity ⟨inner, ⟨counters, .post, waiter, history⟩, .signal element, dequeuer, log,
      sound⟩ units contents) :
    Inv capacity (State.produce maxBlockSize malloc
      ⟨inner, ⟨counters, .post, waiter, history⟩, .signal element, dequeuer, log, sound⟩)
      units contents :=
  { inv with
    sema := inv.sema.post
    enqueuer := ⟨inv.enqueuer.1, rfl⟩
    dequeuer := inv.dequeuer_of_eq rfl rfl fun found _ => found }

theorem produce (inv : Inv capacity state units contents) (wide : 2 ≤ maxBlockSize)
    (malloc : Bool) :
    ∃ units more, Inv capacity (step maxBlockSize state (.produce malloc)) units
      (contents ++ more) := by
  have unchanged : ∀ units, Inv capacity (state.produce maxBlockSize malloc) units contents →
      ∃ units more, Inv capacity (state.produce maxBlockSize malloc) units (contents ++ more) :=
    fun units kept => ⟨units, [], (append_nil contents).symm ▸ kept⟩
  change ∃ units more, Inv capacity (state.produce maxBlockSize malloc) units (contents ++ more)
  obtain ⟨inner, sema, enqueuer, dequeuer, log, sound⟩ := state
  cases enqueuer with
  | idle => exact unchanged units inv
  | inner =>
    obtain ⟨element, about⟩ := Producer.element?_eq_some inv.enqueuer.1
    refine unchanged units ?_
    rcases Producer.step_closer maxBlockSize malloc inner.queue about with
      answer | answer | ⟨silent, still, -⟩
    · rw [State.produce, answer]
      exact inv.produce_enqueued wide answer
    · have same := produced inv.inner wide malloc
      rw [answer] at same
      rw [State.produce, answer]
      exact inv.produced_inner wide inv.sema rfl ⟨congrArg Prod.fst answer, inv.enqueuer.2⟩
        ((append_nil _).trans same) (inv.legal.snoc .refused) (inv.foreseen.other rfl)
    · have same := produced inv.inner wide malloc
      rw [silent] at same
      have calls : (inner.producer.step maxBlockSize malloc inner.queue).2.1 ≠ .idle := by
        intro idle
        rw [idle] at still
        cases still
      rw [State.produce, silent]
      exact inv.produced_inner wide inv.sema rfl ⟨calls, inv.enqueuer.2⟩
        ((append_nil _).trans same) inv.legal inv.foreseen
  | signal element =>
    obtain ⟨counters, signaller, waiter, history⟩ := sema
    rcases inv.enqueuer.2 with rfl | rfl
    · exact ⟨_, _, inv.produce_signal⟩
    · exact unchanged units inv.produce_post

/-! ### The consumer -/

theorem begin_wait (inv : Inv capacity ⟨inner, sema, enqueuer, dequeuer, log, sound⟩ units contents)
    (idle : inner.consumer = .idle) (quiet : sema.waiter = .idle)
    (released : dequeuer.holds = 0) {call : Call} (removes : call ≠ .peek)
    (semaCall : LightweightSemaphore.Call) :
    Inv capacity ⟨inner, LightweightSemaphore.step sema (.call semaCall), enqueuer, .sema call, log,
      sound⟩ units contents := by
  have begun : LightweightSemaphore.step sema (.call semaCall) =
      { sema with waiter := .load semaCall } := by
    rw [LightweightSemaphore.step, quiet]
  have kept := inv.sema.call semaCall
  rw [begun] at kept ⊢
  exact { inv with
    sema := kept
    enqueuer := inv.enqueuer_of_eq rfl rfl
    dequeuer := ⟨removes, idle, by simp⟩
    length := inv.length.trans (congrArg (units + ·) released) }

theorem begin_inner (inv : Inv capacity ⟨inner, sema, enqueuer, dequeuer, log, sound⟩ units
      contents) (wide : 2 ≤ maxBlockSize) (idle : inner.consumer = .idle)
    {next : LightweightSemaphore.State} {left : Int} (counted : LightweightSemaphore.Inv next left)
    (signaller : next.signaller = sema.signaller) (quiet : next.waiter = .idle) {call : Call}
    (length : (contents.length : Int) = left + (Dequeuer.inner call).holds) :
    Inv capacity ⟨ReaderWriterQueue.step maxBlockSize inner (.call call.innerCall), next, enqueuer,
      .inner call, log, sound⟩ left contents := by
  have begun : ReaderWriterQueue.step maxBlockSize inner (.call call.innerCall) =
      { inner with consumer := .start call.innerCall } := by
    rw [ReaderWriterQueue.step, idle]
  have kept := sound_step wide inner (.call call.innerCall) inv.inner
  rw [begun] at kept ⊢
  refine { inv with
    inner := kept
    sema := counted
    enqueuer := inv.enqueuer_of_eq rfl signaller
    dequeuer := ⟨rfl, quiet, fun _ => ?_⟩
    pending := inv.pending.trans (congrArg (contents ++ ·) (uncounted_of_eq rfl signaller.symm))
    length := length }
  rintro ⟨other, point⟩
  cases point

theorem call (inv : Inv capacity state units contents) (wide : 2 ≤ maxBlockSize) (call : Call) :
    Inv capacity (step maxBlockSize state (.call call)) units contents := by
  obtain ⟨inner, sema, enqueuer, dequeuer, log, sound⟩ := state
  cases dequeuer with
  | sema | inner => exact inv
  | idle =>
    obtain ⟨idle, quiet⟩ : inner.consumer = .idle ∧ sema.waiter = .idle := inv.dequeuer
    cases call with
    | peek => exact inv.begin_inner wide idle inv.sema rfl quiet inv.length
    | _ => exact inv.begin_wait idle quiet rfl (by simp) _

/-- A unit that is taken off the semaphore is an element to be fetched. -/
theorem consume_acquired {call : Call} {failed : Bool}
    (inv : Inv capacity ⟨inner, sema, enqueuer, .sema call, log, sound⟩ units contents)
    (wide : 2 ≤ maxBlockSize)
    (answer : (sema.waiter.step failed sema.sema).2 = (.idle, some .acquired)) :
    Inv capacity ⟨ReaderWriterQueue.step maxBlockSize inner (.call call.innerCall),
      LightweightSemaphore.step sema (.consume failed), enqueuer, .inner call, log, sound⟩
      (units - 1) contents := by
  obtain ⟨removes, idle, -⟩ := inv.dequeuer
  have counter : LightweightSemaphore.Inv sema units := inv.sema
  obtain ⟨left, counted, taken⟩ := counter.consume_answer failed
  rw [answer] at taken
  change (if 0 < units then some (units - 1) else none) = some left at taken
  split at taken
  · cases taken
    have length : (contents.length : Int) = units + 0 := inv.length
    refine inv.begin_inner wide idle counted rfl (congrArg Prod.fst answer) ?_
    rw [length, Dequeuer.holds, if_neg removes]
    omega
  · cases taken

/-- A call that is turned away by the semaphore was made when there was no element. -/
theorem consume_denied {call : Call} {failed : Bool}
    (inv : Inv capacity ⟨inner, sema, enqueuer, .sema call, log, sound⟩ units contents)
    (answer : (sema.waiter.step failed sema.sema).2 = (.idle, some .denied)) :
    contents = [] ∧
      Inv capacity ⟨inner, LightweightSemaphore.step sema (.consume failed), enqueuer, .idle, log,
        sound⟩ units contents := by
  obtain ⟨-, idle, -⟩ := inv.dequeuer
  have counter : LightweightSemaphore.Inv sema units := inv.sema
  obtain ⟨left, counted, turned⟩ := counter.consume_answer failed
  rw [answer] at turned
  change (if units = 0 then some units else none) = some left at turned
  split at turned
  · rename_i zero
    cases turned
    have length : (contents.length : Int) = units + 0 := inv.length
    refine ⟨eq_nil_of_length_eq_zero (by omega), ?_⟩
    exact { inv with
      sema := counted
      enqueuer := inv.enqueuer_of_eq rfl rfl
      dequeuer := ⟨idle, congrArg Prod.fst answer⟩ }
  · cases turned

theorem consume_waiting {call : Call} {failed : Bool}
    (inv : Inv capacity ⟨inner, sema, enqueuer, .sema call, log, sound⟩ units contents)
    (silent : (sema.waiter.step failed sema.sema).2.2 = none)
    (calls : (sema.waiter.step failed sema.sema).2.1 ≠ .idle) :
    Inv capacity ⟨inner, LightweightSemaphore.step sema (.consume failed), enqueuer, .sema call,
      log, sound⟩ units contents := by
  obtain ⟨removes, idle, -⟩ := inv.dequeuer
  have counter : LightweightSemaphore.Inv sema units := inv.sema
  obtain ⟨left, counted, same⟩ := counter.consume_answer failed
  rw [silent] at same
  cases same
  exact { inv with
    sema := counted
    enqueuer := inv.enqueuer_of_eq rfl rfl
    dequeuer := ⟨removes, idle, calls⟩ }

theorem consume_silent {call : Call}
    (inv : Inv capacity ⟨inner, sema, enqueuer, .inner call, log, sound⟩ units contents)
    (wide : 2 ≤ maxBlockSize) (silent : (inner.consumer.step inner.queue).2.2 = none)
    (still : (inner.consumer.step inner.queue).2.1.call? = some call.innerCall) :
    Inv capacity ⟨ReaderWriterQueue.step maxBlockSize inner .consume, sema, enqueuer, .inner call,
      log, sound⟩ units contents := by
  obtain ⟨-, quiet, found⟩ := inv.dequeuer
  have pending : inner.pending = contents ++ _ := inv.pending
  have same : inner.pending = (ReaderWriterQueue.step maxBlockSize inner .consume).pending := by
    have answered := consumed inv.inner wide
    rwa [silent] at answered
  refine { inv with
    inner := sound_step wide inner .consume inv.inner
    enqueuer := inv.enqueuer_of_eq rfl rfl
    dequeuer := ⟨still, quiet, fun removes => ?_⟩
    pending := same.symm.trans inv.pending
    foreseen := same ▸ inv.foreseen }
  refine not_vain inv.inner wide .consume (found removes) ?_
  rw [← same, pending]
  exact append_ne_nil_of_left_ne_nil (inv.contents_ne_nil rfl removes) _

theorem end_inner {call : Call}
    (inv : Inv capacity ⟨inner, sema, enqueuer, .inner call, log, sound⟩ units contents)
    (wide : 2 ≤ maxBlockSize) (idle : (inner.consumer.step inner.queue).2.1 = .idle)
    {rest : List α} {response : Response α}
    (pending : (ReaderWriterQueue.step maxBlockSize inner .consume).pending = rest ++
      (⟨inner, sema, enqueuer, .inner call, log, sound⟩ : State α).uncounted)
    (length : (rest.length : Int) = units) (atomic : Atomic contents response rest)
    (foreseen : Foreseen (log ++ [response])
      (ReaderWriterQueue.step maxBlockSize inner .consume).pending) :
    Inv capacity ⟨ReaderWriterQueue.step maxBlockSize inner .consume, sema, enqueuer, .idle,
      log ++ [response], sound⟩ units rest :=
  { inner := sound_step wide inner .consume inv.inner
    sema := inv.sema
    enqueuer := inv.enqueuer_of_eq rfl rfl
    dequeuer := ⟨idle, inv.dequeuer.2.1⟩
    pending := pending
    length := length.trans (Int.add_zero units).symm
    legal := inv.legal.snoc atomic
    foreseen := foreseen
    sound := inv.sound }

/-- The element that is fetched is the first one. -/
theorem consume_removed {call : Call} {element : α} {response : ReaderWriterQueue.Response α}
    (inv : Inv capacity ⟨inner, sema, enqueuer, .inner call, log, sound⟩ units contents)
    (wide : 2 ≤ maxBlockSize) (removes : call ≠ .peek)
    (answer : (inner.consumer.step inner.queue).2 = (.idle, some response))
    (takes : response.removed = some element) :
    ∃ rest, Inv capacity ⟨ReaderWriterQueue.step maxBlockSize inner .consume, sema, enqueuer, .idle,
      log ++ [.removed call element], sound⟩ units rest := by
  have legal := consumed inv.inner wide
  rw [answer] at legal
  obtain ⟨more, before, after⟩ : ∃ more, inner.pending = element :: more ∧
      more = (ReaderWriterQueue.step maxBlockSize inner .consume).pending := by
    cases response with
    | dequeued | popped => cases takes; exact legal
    | _ => cases takes
  have pending : inner.pending = contents ++ _ := inv.pending
  cases contents with
  | nil => exact absurd rfl (inv.contents_ne_nil rfl removes)
  | cons first rest =>
    rw [before] at pending
    obtain ⟨rfl, rfl⟩ := cons_eq_cons.mp pending
    have foreseen : Foreseen log inner.pending := inv.foreseen
    rw [before] at foreseen
    refine ⟨rest, inv.end_inner wide (congrArg Prod.fst answer) after.symm ?_
      (.removed call element) (after ▸ foreseen.removed call)⟩
    have length := inv.length
    rw [length_cons, Dequeuer.holds, if_neg removes] at length
    omega

theorem consume_peek {seen : Response α}
    (inv : Inv capacity ⟨inner, sema, enqueuer, .inner .peek, log, sound⟩ units contents)
    (wide : 2 ≤ maxBlockSize) (idle : (inner.consumer.step inner.queue).2.1 = .idle)
    (same : inner.pending = (ReaderWriterQueue.step maxBlockSize inner .consume).pending)
    (atomic : Atomic contents seen contents) (foreseen : Foreseen (log ++ [seen]) inner.pending) :
    Inv capacity ⟨ReaderWriterQueue.step maxBlockSize inner .consume, sema, enqueuer, .idle,
      log ++ [seen], sound⟩ units contents := by
  have length : (contents.length : Int) = units + 0 := inv.length
  exact inv.end_inner wide idle (same.symm.trans inv.pending)
    (length.trans (Int.add_zero units)) atomic (same ▸ foreseen)

theorem consume_peeked {element : α}
    (inv : Inv capacity ⟨inner, sema, enqueuer, .inner .peek, log, sound⟩ units contents)
    (wide : 2 ≤ maxBlockSize)
    (answer : (inner.consumer.step inner.queue).2 = (.idle, some (.peeked element))) :
    Inv capacity ⟨ReaderWriterQueue.step maxBlockSize inner .consume, sema, enqueuer, .idle,
      log ++ [.peeked element], sound⟩ units contents := by
  have legal := consumed inv.inner wide
  rw [answer] at legal
  obtain ⟨more, first, same⟩ := legal
  have front : inner.pending.head? = some element := by rw [first]; rfl
  exact inv.consume_peek wide (congrArg Prod.fst answer) same (.peeked element)
    (inv.foreseen.peeked front)

/-- The inner queue is never found empty by a consumer that has got a unit. -/
theorem not_empty {call : Call}
    (inv : Inv capacity ⟨inner, sema, enqueuer, .inner call, log, sound⟩ units contents)
    (removes : call ≠ .peek) {found : ReaderWriterQueue.Call} :
    (inner.consumer.step inner.queue).2 ≠ (.idle, some (.empty found)) := by
  intro answer
  obtain ⟨-, -, notVain⟩ := inv.dequeuer
  exact notVain removes ⟨found, Consumer.step_eq_empty (congrArg Prod.snd answer)⟩

theorem consume (inv : Inv capacity state units contents) (wide : 2 ≤ maxBlockSize)
    (failed : Bool) :
    ∃ units contents, Inv capacity (step maxBlockSize state (.consume failed)) units contents := by
  change ∃ units contents, Inv capacity (state.consume maxBlockSize failed) units contents
  obtain ⟨inner, sema, enqueuer, dequeuer, log, sound⟩ := state
  cases dequeuer with
  | idle => exact ⟨units, contents, inv⟩
  | sema call =>
    obtain ⟨removes, idle, calls⟩ := inv.dequeuer
    rcases LightweightSemaphore.Waiter.step_answer calls failed sema.sema with
      answer | answer | ⟨silent, still⟩
    · rw [State.consume, answer]
      exact ⟨_, _, inv.consume_acquired wide answer⟩
    · obtain ⟨rfl, turned⟩ := inv.consume_denied answer
      rw [State.consume, answer]
      cases call with
      | waitDequeue => exact ⟨_, _, turned.begin_wait idle turned.dequeuer.2 rfl removes _⟩
      | _ => exact ⟨_, _, { turned with
          legal := turned.legal.snoc (.empty removes)
          foreseen := turned.foreseen.other rfl }⟩
    · rw [State.consume, silent]
      exact ⟨_, _, inv.consume_waiting silent still⟩
  | inner call =>
    obtain ⟨about, -, -⟩ := inv.dequeuer
    rcases inv.inner.consumer_closer about with ⟨element, answer⟩ | answer | ⟨silent, still, -⟩
    · cases call with
      | peek =>
        rw [State.consume, answer]
        exact ⟨_, _, inv.consume_peeked wide answer⟩
      | _ =>
        obtain ⟨rest, kept⟩ := inv.consume_removed wide (by simp) answer rfl
        rw [State.consume, answer]
        exact ⟨_, rest, kept⟩
    · by_cases peeks : call = .peek
      · subst peeks
        have same := consumed inv.inner wide
        rw [answer] at same
        rw [State.consume, answer]
        refine ⟨_, _, { inv.consume_peek wide (congrArg Prod.fst answer) same .unseen
          (inv.foreseen.other rfl) with sound := ?_ }⟩
        exact Bool.and_eq_true_iff.mpr ⟨inv.sound, rfl⟩
      · exact absurd answer (inv.not_empty peeks)
    · rw [State.consume, silent]
      exact ⟨_, _, inv.consume_silent wide silent still⟩

/-! ### The size -/

theorem sizeApprox_le (inv : Inv capacity state units contents) :
    state.sizeApprox ≤ contents.length := by
  have most := inv.sema.availableApprox_le
  have length := inv.length
  have held := state.dequeuer.holds_nonneg
  rw [State.sizeApprox]
  omega

theorem sizeApprox_eq (inv : Inv capacity state units contents) (idle : state.dequeuer = .idle) :
    state.sizeApprox = contents.length := by
  have fits := inv.dequeuer
  have length := inv.length
  rw [idle] at fits length
  have available := inv.sema.availableApprox_eq fits.2
  change (contents.length : Int) = units + 0 at length
  rw [State.sizeApprox]
  omega

end Inv

/-! ### Every interleaving -/

section Runs

variable {maxBlockSize size : Nat}

/-- The invariant, without the names of its witnesses. -/
def InOrder (capacity : Nat) (state : State α) : Prop :=
  ∃ units contents, Inv capacity state units contents

theorem inOrder_make (power : ∃ exponent, maxBlockSize = 2 ^ exponent) (wide : 2 ≤ maxBlockSize)
    (positive : 0 < size) (fits : size < 2 ^ 63) :
    InOrder size (State.make maxBlockSize size : State α) :=
  ⟨0, [], {
    inner := sound_make power wide positive fits
    sema := LightweightSemaphore.inv_make
    enqueuer := ⟨rfl, rfl⟩
    dequeuer := ⟨rfl, rfl⟩
    pending := rfl
    length := rfl
    legal := .nil
    foreseen := ⟨none, .nil, nofun⟩
    sound := rfl }⟩

theorem inOrder_step {capacity : Nat} (wide : 2 ≤ maxBlockSize) (state : State α)
    (event : Event α) (inOrder : InOrder capacity state) :
    InOrder capacity (step maxBlockSize state event) := by
  obtain ⟨units, contents, inv⟩ := inOrder
  cases event with
  | enqueue mode element => exact ⟨_, _, inv.enqueue wide mode element⟩
  | produce malloc =>
    obtain ⟨units, more, kept⟩ := inv.produce wide malloc
    exact ⟨units, _, kept⟩
  | call call => exact ⟨_, _, inv.call wide call⟩
  | consume failed => exact inv.consume wide failed

theorem inOrder_run (power : ∃ exponent, maxBlockSize = 2 ^ exponent) (wide : 2 ≤ maxBlockSize)
    (positive : 0 < size) (fits : size < 2 ^ 63) (events : List (Event α)) :
    InOrder size (run (step maxBlockSize) (State.make maxBlockSize size) events) :=
  run_stable (inOrder_step wide) events (inOrder_make power wide positive fits)

end Runs

/-! ### The calls of `peek` -/

/-- An event is one of the inner queue, or leaves it as it is. -/
theorem step_inner (maxBlockSize : Nat) (state : State α) (event : Event α) :
    (step maxBlockSize state event).inner = state.inner ∨ ∃ inner,
      (step maxBlockSize state event).inner =
        ReaderWriterQueue.step maxBlockSize state.inner inner := by
  cases event with
  | enqueue mode element =>
    rw [step]
    split
    · exact .inr ⟨.enqueue mode element, rfl⟩
    · exact .inl rfl
  | produce malloc =>
    rw [step]
    fun_cases State.produce maxBlockSize malloc state <;>
      first | exact .inl rfl | exact .inr ⟨.produce malloc, rfl⟩
  | call call =>
    rw [step]
    split
    · fun_cases State.call maxBlockSize state call <;>
        first | exact .inl rfl | exact .inr ⟨.call call.innerCall, rfl⟩
    · exact .inl rfl
  | consume failed =>
    rw [step]
    fun_cases State.consume maxBlockSize failed state <;>
      first | exact .inl rfl | exact .inr ⟨.consume, rfl⟩ | exact .inr ⟨.call _, rfl⟩

/-- Only `peek` looks for an element in vain. -/
theorem peeks_of_vain {capacity : Nat} {state : State α} (inOrder : InOrder capacity state)
    (vain : Vain state.inner) : state.dequeuer = .inner .peek := by
  obtain ⟨units, contents, inv⟩ := inOrder
  have fits := inv.dequeuer
  obtain ⟨found, point⟩ := vain
  cases place : state.dequeuer with
  | idle =>
    rw [place] at fits
    cases point.symm.trans fits.1
  | sema call =>
    rw [place] at fits
    cases point.symm.trans fits.2.1
  | inner call =>
    rw [place] at fits
    by_contra other
    exact fits.2.2 (fun peeks => other (congrArg _ peeks)) ⟨found, point⟩

/-- A call of `peek` that comes back without an element has looked for it in vain. -/
theorem vain_of_empty {capacity maxBlockSize : Nat} {state : State α}
    (inOrder : InOrder capacity state) {failed : Bool}
    (answered : (step maxBlockSize state (.consume failed)).log = state.log ++ [.empty .peek]) :
    Vain state.inner := by
  obtain ⟨units, contents, inv⟩ := inOrder
  have fits := inv.dequeuer
  change (state.consume maxBlockSize failed).log = state.log ++ [.empty .peek] at answered
  obtain ⟨inner, sema, enqueuer, dequeuer, log, sound⟩ := state
  cases dequeuer with
  | idle => simp [State.consume] at answered
  | sema call =>
    obtain ⟨waits, -, calls⟩ := fits
    rcases LightweightSemaphore.Waiter.step_answer calls failed sema.sema with
      answer | answer | ⟨silent, -⟩
    · simp [State.consume, answer] at answered
    · cases call <;> simp [State.consume, answer] at answered waits
    · simp [State.consume, silent] at answered
  | inner call =>
    obtain ⟨about, -, -⟩ := fits
    rcases inv.inner.consumer_closer about with ⟨element, answer⟩ | answer | ⟨silent, -, -⟩
    · cases call <;> simp [State.consume, answer, Call.innerCall, ReaderWriterQueue.Call.answer,
        ReaderWriterQueue.Response.removed] at answered
    · exact ⟨_, Consumer.step_eq_empty (congrArg Prod.snd answer)⟩
    · simp [State.consume, silent] at answered

/-- `peek` answers that there is nothing only if the inner queue was empty at a moment of the
call. -/
theorem peek_empty {maxBlockSize size : Nat} (power : ∃ exponent, maxBlockSize = 2 ^ exponent)
    (wide : 2 ≤ maxBlockSize) (positive : 0 < size) (fits : size < 2 ^ 63)
    {events : List (Event α)} {failed : Bool}
    (answered : (run (step maxBlockSize) (State.make maxBlockSize size)
        (events ++ [.consume failed])).log =
      (run (step maxBlockSize) (State.make maxBlockSize size) events).log ++ [.empty .peek]) :
    Since (step maxBlockSize) (fun state => state.inner.pending = [])
      (fun state => state.dequeuer = .inner .peek) (State.make maxBlockSize size) events := by
  have inOrder := inOrder_run power wide positive fits events
  refine @since_of_arises _ _ _ (InOrder size) _ _ (fun state => InOrder size state ∧
    Vain state.inner) _ (inOrder_make power wide positive fits) (inOrder_step wide) ?_ ?_ ?_ events
    ⟨inOrder, ?_⟩
  · rintro ⟨-, call, point⟩
    cases point
  · rintro state event kept ⟨-, vain⟩
    rcases step_inner maxBlockSize state event with same | ⟨inner, same⟩
    · exact .inl ⟨kept, same ▸ vain⟩
    · rw [same] at vain ⊢
      obtain ⟨units, contents, inv⟩ := kept
      exact (vain_arises wide state.inner inner inv.inner vain).imp_left fun before =>
        ⟨⟨units, contents, inv⟩, before⟩
  · exact fun state situation => peeks_of_vain situation.1 situation.2
  · rw [run_append] at answered
    exact vain_of_empty inOrder answered

/-- Whatever the interleaving of the accesses, the calls other than `peek` do what they do to a list
of elements one after the other, and no assertion fails. While the consumer is in no call, the size
is that of the list. An element that `peek` shows is the one that is shown or taken next, and `peek`
shows none only if the inner queue was empty at a moment of the call. -/
theorem queue_linearizable {maxBlockSize size : Nat}
    (power : ∃ exponent, maxBlockSize = 2 ^ exponent) (wide : 2 ≤ maxBlockSize)
    (positive : 0 < size) (fits : size < 2 ^ 63) (events : List (Event α)) :
    let state := run (step maxBlockSize) (State.make maxBlockSize size) events
    (∃ contents, Legal (state.log.filter fun response => !response.peeks) contents ∧
      contents <+: state.inner.pending ∧ state.sizeApprox ≤ contents.length ∧
      (state.dequeuer = .idle → state.sizeApprox = contents.length)) ∧
      Foreseen state.log state.inner.pending ∧
      (∀ failed, (run (step maxBlockSize) (State.make maxBlockSize size)
          (events ++ [.consume failed])).log = state.log ++ [.empty .peek] →
        Since (step maxBlockSize) (fun state => state.inner.pending = [])
          (fun state => state.dequeuer = .inner .peek) (State.make maxBlockSize size) events) ∧
      state.sound = true ∧ state.inner.queue.sound = true ∧ state.sema.sema.sound = true := by
  obtain ⟨units, contents, inv⟩ := inOrder_run power wide positive fits events
  obtain ⟨occupied, spare, stored, inner⟩ := inv.inner
  exact ⟨⟨contents, inv.legal.others, ⟨_, inv.pending.symm⟩, inv.sizeApprox_le, inv.sizeApprox_eq⟩,
    inv.foreseen, fun failed answered => peek_empty power wide positive fits answered, inv.sound,
    inner.sound, inv.sema.sound⟩

/-- A call of `peek` that sees an element before it is counted, a call that comes before that, and
one that comes after it. -/
def handover : List (Event Nat) :=
  [.enqueue .canAlloc 7, .produce true, .produce true, .produce true, .call .peek] ++
    replicate 4 (.consume false) ++ [.call .tryDequeue, .consume false, .produce true,
    .call (.waitDequeueTimed 5)] ++ replicate 6 (.consume false)

theorem queue_linearizable_handover :
    (run (step 512) (State.make 512 15) handover).log =
      [.peeked 7, .empty .tryDequeue, .enqueued 7, .removed (.waitDequeueTimed 5) 7] ∧
    Foreseen (run (step 512) (State.make 512 15) handover).log
      (run (step 512) (State.make 512 15) handover).inner.pending ∧
    (run (step 512) (State.make 512 15) handover).sound = true := by
  obtain ⟨-, foreseen, -, sound, -⟩ :=
    @queue_linearizable Nat 512 15 ⟨9, rfl⟩ (by decide) (by decide) (by decide) handover
  exact ⟨by decide +kernel, foreseen, sound⟩

end BlockingReaderWriterQueue

end RFaaS
