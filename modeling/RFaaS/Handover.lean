/-
This file is about the two threads of a manager. The listener hears of
connections and hands them over; the other thread handles them between its other
work. The models of the managers have a list in between, to which the one adds and
from which the other takes in one step. The code has the blocking queue there, and
both threads take many steps for that, in any interleaving.

Here the components are given by what their threads do outside of the queue. With
the queue between them they do what they do with a list: the steps of the one
machine are written down in terms of the other. What an element is added by is
the moment at which it is counted, and what it is taken by is the end of the call.
-/

import RFaaS.QueueCalls
import RFaaS.Simulation

namespace RFaaS

namespace Handover

open Transition BlockingReaderWriterQueue

/-- `Manager::POLLING_TIMEOUT_MS`, of both managers. -/
def pollingTimeoutMs : Int := 100

/-- `_check_queue`: how the queue is asked. -/
def checkQueue (sleep : Bool) : Call :=
  if sleep then .waitDequeueTimed (pollingTimeoutMs * 1000) else .tryDequeue

theorem checkQueue_ne_peek (sleep : Bool) : checkQueue sleep ≠ .peek := by
  cases sleep <;> decide

variable {Listener Worker Input Chance External Operation : Type*}

/-- What two threads with a queue between them do outside of the queue. -/
structure Component (Listener Worker Input Chance External Operation : Type*) where
  /-- What the listener does on an input before it calls the queue, and what it hands over. -/
  announce : Listener → Input → Listener × Option Operation
  /-- What it does after that. -/
  conclude : Listener → Input → Listener
  /-- Whether the next step of the worker asks the queue, and if it then sleeps. -/
  checks : Worker → Option Bool
  /-- The next step of the worker, with what the queue has answered. -/
  work : Worker → Chance → Option Operation → Worker
  /-- What the surroundings do to the worker. -/
  external : Worker → External → Worker
  /-- The worker has used a null pointer. -/
  halted : Worker → Bool
  checks_external : ∀ worker event, checks (external worker event) = checks worker

/-! ### The list between the threads -/

structure AtomicState (Listener Worker Operation : Type*) where
  listener : Listener
  worker : Worker
  queue : List Operation

inductive AtomicEvent (Input Chance External : Type*) where
  | arrives (input : Input)
  | thread (chance : Chance)
  | external (event : External)

namespace Component

variable (component : Component Listener Worker Input Chance External Operation)

/-- The listener adds to the list in one step, and the worker takes from it in one step. -/
def atomicStep (state : AtomicState Listener Worker Operation)
    (event : AtomicEvent Input Chance External) : AtomicState Listener Worker Operation :=
  if component.halted state.worker then state
  else
    match event with
    | .arrives input =>
      { state with
        listener := component.conclude (component.announce state.listener input).1 input
        queue := state.queue ++ (component.announce state.listener input).2.toList }
    | .thread chance =>
      match component.checks state.worker with
      | none => { state with worker := component.work state.worker chance none }
      | some _ =>
        { state with
          worker := component.work state.worker chance state.queue.head?
          queue := state.queue.tail }
    | .external event => { state with worker := component.external state.worker event }

end Component

/-! ### The queue between the threads -/

/-- `pending` is the input for which the listener is in a call of the queue. -/
structure System (Listener Worker Input Operation : Type*) where
  listener : Listener
  pending : Option Input
  worker : Worker
  queue : State Operation

inductive Event (Input Chance External : Type*) where
  | arrives (input : Input)
  | produce (malloc : Bool)
  | thread (chance : Chance) (failed : Bool)
  | external (event : External)

namespace Component

variable (component : Component Listener Worker Input Chance External Operation)
  (maxBlockSize : Nat)

/-- The listener hears of something. In a call it does not listen. -/
def arrives (system : System Listener Worker Input Operation) (input : Input) :
    System Listener Worker Input Operation :=
  match system.pending with
  | some _ => system
  | none =>
    match component.announce system.listener input with
    | (listener, none) => { system with listener := component.conclude listener input }
    | (listener, some operation) =>
      { system with
        listener
        pending := some input
        queue := BlockingReaderWriterQueue.step maxBlockSize system.queue
          (.enqueue .canAlloc operation) }

/-- The next access of the listener. It listens again when its call has returned. -/
def produce (system : System Listener Worker Input Operation) (malloc : Bool) :
    System Listener Worker Input Operation :=
  let queue := BlockingReaderWriterQueue.step maxBlockSize system.queue (.produce malloc)
  match system.pending, queue.enqueuer with
  | some input, .idle =>
    { system with
      listener := component.conclude system.listener input
      pending := none
      queue }
  | _, _ => { system with queue }

/-- The next step of the worker, which is an access if it is in a call. -/
def thread (system : System Listener Worker Input Operation) (chance : Chance) (failed : Bool) :
    System Listener Worker Input Operation :=
  match system.queue.dequeuer with
  | .idle =>
    match component.checks system.worker with
    | none => { system with worker := component.work system.worker chance none }
    | some sleep =>
      { system with
        queue := BlockingReaderWriterQueue.step maxBlockSize system.queue
          (.call (checkQueue sleep)) }
  | _ =>
    let queue := BlockingReaderWriterQueue.step maxBlockSize system.queue (.consume failed)
    match system.queue.answer queue with
    | none => { system with queue }
    | some response =>
      { system with
        queue
        worker := component.work system.worker chance response.element? }

def step (system : System Listener Worker Input Operation)
    (event : Event Input Chance External) : System Listener Worker Input Operation :=
  if component.halted system.worker then system
  else
    match event with
    | .arrives input => component.arrives maxBlockSize system input
    | .produce malloc => component.produce maxBlockSize system malloc
    | .thread chance failed => component.thread maxBlockSize system chance failed
    | .external event => { system with worker := component.external system.worker event }

/-! ### One in terms of the other -/

/-- The steps with the list that a step with the queue stands for. -/
def translate (system : System Listener Worker Input Operation) :
    Event Input Chance External → List (AtomicEvent Input Chance External)
  | .arrives input =>
    match system.pending, (component.announce system.listener input).2 with
    | none, none => [.arrives input]
    | _, _ => []
  | .produce malloc =>
    match system.pending,
      system.queue.answer (BlockingReaderWriterQueue.step maxBlockSize system.queue
        (.produce malloc)) with
    | some input, some _ => [.arrives input]
    | _, _ => []
  | .thread chance failed =>
    match system.queue.dequeuer with
    | .idle =>
      match component.checks system.worker with
      | none => [.thread chance]
      | some _ => []
    | _ =>
      match system.queue.answer (BlockingReaderWriterQueue.step maxBlockSize system.queue
        (.consume failed)) with
      | none => []
      | some _ => [.thread chance]
  | .external event => [.external event]

end Component

/-! ### What relates the two -/

/-- Where the listener is, and what the listener of the other machine has done by then: it hands
over at the moment at which the queue counts the element. -/
inductive Listens (component : Component Listener Worker Input Chance External Operation)
    (queue : State Operation) (listener before : Listener) : Option Input → Prop
  | idle (idle : queue.enqueuer = .idle) (same : before = listener) :
      Listens component queue listener before none
  | offers {input : Input} {operation : Operation} (offered : queue.offered = some operation)
      (announced : component.announce before input = (listener, some operation)) :
      Listens component queue listener before (some input)
  | counted {input : Input} (offered : queue.offered = none) (busy : queue.enqueuer ≠ .idle)
      (concluded : before = component.conclude listener input) :
      Listens component queue listener before (some input)

/-- Where the worker is: a call goes with the step that asks. -/
def Asks (component : Component Listener Worker Input Chance External Operation)
    (queue : State Operation) (worker : Worker) : Prop :=
  queue.dequeuer = .idle ∨
    ∃ sleep, component.checks worker = some sleep ∧ queue.Calls (checkQueue sleep)

/-- A system with the queue and one with the list that have come equally far. -/
structure Follows (component : Component Listener Worker Input Chance External Operation)
    (capacity : Nat) (system : System Listener Worker Input Operation)
    (state : AtomicState Listener Worker Operation) : Prop where
  inOrder : InOrder capacity system.queue
  legal : Legal system.queue.log state.queue
  allocating : system.queue.inner.producer.Allocating
  worker : state.worker = system.worker
  asks : Asks component system.queue system.worker
  listens : Listens component system.queue system.listener state.listener system.pending

section Follows

variable {component : Component Listener Worker Input Chance External Operation}
  {capacity maxBlockSize : Nat} {system : System Listener Worker Input Operation}
  {state : AtomicState Listener Worker Operation}

theorem Listens.of_sameOffer {queue next : State Operation} {listener before : Listener}
    {pending : Option Input} (listens : Listens component queue listener before pending)
    (same : SameOffer queue next) : Listens component next listener before pending := by
  cases listens with
  | idle idle before => exact .idle (same.enqueuer.trans idle) before
  | offers offered announced => exact .offers (same.offered.trans offered) announced
  | counted offered busy concluded =>
    exact .counted (same.offered.trans offered) (same.enqueuer ▸ busy) concluded

theorem Asks.of_eq {queue next : State Operation} {worker : Worker}
    (asks : Asks component queue worker) (same : next.dequeuer = queue.dequeuer) :
    Asks component next worker := by
  unfold Asks State.Calls at asks ⊢
  rw [same]
  exact asks

theorem Follows.arrives (follows : Follows component capacity system state)
    (wide : 2 ≤ maxBlockSize) (running : component.halted system.worker = false) (input : Input) :
    Follows component capacity (component.arrives maxBlockSize system input)
      (run component.atomicStep state
        (component.translate maxBlockSize system (.arrives input))) := by
  obtain ⟨listener, pending, worker, queue⟩ := system
  obtain ⟨before, same, elements⟩ := state
  obtain rfl : same = worker := follows.worker
  cases pending with
  | some earlier => exact follows
  | none =>
    cases follows.listens with
    | idle idle same =>
      obtain rfl : before = listener := same
      obtain ⟨units, contents, inv⟩ := follows.inOrder
      cases announced : component.announce before input with
      | mk announcing handed =>
        simp only [Component.arrives, Component.translate, announced]
        cases handed with
        | none =>
          have stepped : component.atomicStep ⟨before, same, elements⟩ (.arrives input) =
              ⟨component.conclude announcing input, same, elements⟩ := by
            simp [Component.atomicStep, running, announced]
          change Follows component capacity ⟨component.conclude announcing input, none, same, queue⟩
            (component.atomicStep ⟨before, same, elements⟩ (.arrives input))
          rw [stepped]
          exact { follows with listens := .idle idle rfl }
        | some operation =>
          obtain ⟨offered, allocating, log, dequeuer⟩ :=
            @Inv.offers _ _ maxBlockSize _ _ _ inv idle operation
          exact {
            inOrder := ⟨_, _, inv.enqueue wide .canAlloc operation⟩
            legal := log ▸ follows.legal
            allocating := allocating
            worker := rfl
            asks := follows.asks.of_eq dequeuer
            listens := .offers offered announced }

theorem produce_eq {listener : Listener} {input : Input} {worker : Worker}
    {queue : State Operation} {malloc : Bool} {next : State Operation}
    (stepped : step maxBlockSize queue (.produce malloc) = next) :
    component.produce maxBlockSize ⟨listener, some input, worker, queue⟩ malloc =
      match next.enqueuer with
      | .idle => ⟨component.conclude listener input, none, worker, next⟩
      | _ => ⟨listener, some input, worker, next⟩ := by
  rw [Component.produce, stepped]
  cases next.enqueuer <;> rfl

/-- An access of the listener, after which its element is offered or counted. -/
theorem Follows.produced {listener before after : Listener} {input : Input} {worker : Worker}
    {queue : State Operation} {elements contents : List Operation}
    (follows : Follows component capacity ⟨listener, some input, worker, queue⟩
      ⟨before, worker, elements⟩)
    (wide : 2 ≤ maxBlockSize) {next : State Operation}
    (stepped : step maxBlockSize queue (.produce true) = next)
    (allocating : next.inner.producer.Allocating) (legal : Legal next.log contents)
    (offers : (∃ operation, next.offered = some operation ∧
        component.announce after input = (listener, some operation)) ∨
      next.offered = none ∧ after = component.conclude listener input) :
    Follows component capacity
      (component.produce maxBlockSize ⟨listener, some input, worker, queue⟩ true)
      ⟨after, worker, contents⟩ := by
  have inOrder := inOrder_step wide queue (.produce true) follows.inOrder
  have dequeuer := (@produce_frame _ maxBlockSize true queue).1
  change (step maxBlockSize queue (.produce true)).dequeuer = queue.dequeuer at dequeuer
  rw [stepped] at inOrder dequeuer
  have asks : Asks component next worker := follows.asks.of_eq dequeuer
  rw [produce_eq stepped]
  rcases offers with ⟨operation, offered, announced⟩ | ⟨counted, concluded⟩
  · cases point : next.enqueuer with
    | idle =>
      rw [offered_of_idle point] at offered
      cases offered
    | _ => exact ⟨inOrder, legal, allocating, rfl, asks, .offers offered announced⟩
  · cases point : next.enqueuer with
    | idle => exact ⟨inOrder, legal, allocating, rfl, asks, .idle point concluded⟩
    | _ =>
      exact ⟨inOrder, legal, allocating, rfl, asks, .counted counted (by simp [point]) concluded⟩

theorem Follows.produce (follows : Follows component capacity system state)
    (wide : 2 ≤ maxBlockSize) (running : component.halted system.worker = false) :
    Follows component capacity (component.produce maxBlockSize system true)
      (run component.atomicStep state
        (component.translate maxBlockSize system (.produce true))) := by
  obtain ⟨listener, pending, worker, queue⟩ := system
  obtain ⟨before, same, elements⟩ := state
  obtain rfl : same = worker := follows.worker
  obtain ⟨units, contents, inv⟩ := follows.inOrder
  cases pending with
  | none =>
    -- the listener is in no call, and the queue has nothing to do for it
    cases follows.listens with
    | idle idle _ =>
      have unchanged : step maxBlockSize queue (.produce true) = queue := by
        change queue.produce maxBlockSize true = queue
        rw [State.produce, idle]
      simp only [Component.produce, Component.translate, unchanged]
      exact follows
  | some input =>
    obtain ⟨allocating, ⟨silent, offered⟩ | ⟨operation, offers, counted, answered⟩⟩ :=
      @Inv.counts _ _ maxBlockSize _ _ _ inv follows.allocating
    · simp only [Component.translate, answer_eq_none silent]
      refine follows.produced wide rfl allocating (silent ▸ follows.legal) ?_
      rw [offered]
      cases follows.listens with
      | offers offers announced => exact .inl ⟨_, offers, announced⟩
      | counted counted busy concluded => exact .inr ⟨counted, concluded⟩
    · -- at the access that counts the element the other machine makes its step
      obtain ⟨later, held, kept⟩ := inOrder_step wide queue (.produce true) follows.inOrder
      have legal := kept.legal
      rw [answered] at legal
      rw [follows.legal.added legal] at kept
      have announced : component.announce before input = (listener, some operation) := by
        cases follows.listens with
        | offers offered announced =>
          cases offers.symm.trans offered
          exact announced
        | counted none => cases offers.symm.trans none
      have stepped : component.atomicStep ⟨before, same, elements⟩ (.arrives input) =
          ⟨component.conclude listener input, same, elements ++ [operation]⟩ := by
        simp [Component.atomicStep, running, announced]
      simp only [Component.translate, answer_eq_some answered, run_cons, run_nil, stepped]
      exact follows.produced wide rfl allocating kept.legal (.inr ⟨counted, rfl⟩)

/-! ### The worker -/

theorem thread_eq (calls : system.queue.dequeuer ≠ .idle) (chance : Chance) (failed : Bool)
    {answer : Option (Response Operation)}
    (answered : system.queue.answer (step maxBlockSize system.queue (.consume failed)) = answer) :
    component.thread maxBlockSize system chance failed =
        { system with
          queue := step maxBlockSize system.queue (.consume failed)
          worker := match answer with
            | none => system.worker
            | some response => component.work system.worker chance response.element? } ∧
      component.translate maxBlockSize system (.thread chance failed) =
        match answer with
        | none => []
        | some _ => [.thread chance] := by
  rw [Component.thread, Component.translate]
  split
  · rename_i idle
    exact absurd idle calls
  · simp only [answered]
    cases answer <;> exact ⟨rfl, rfl⟩

section

variable (follows : Follows component capacity system state)
include follows

theorem Follows.thread_idle
    (wide : 2 ≤ maxBlockSize) (running : component.halted system.worker = false)
    (idle : system.queue.dequeuer = .idle) (chance : Chance) (failed : Bool) :
    Follows component capacity (component.thread maxBlockSize system chance failed)
      (run component.atomicStep state
        (component.translate maxBlockSize system (.thread chance failed))) := by
  obtain ⟨listener, pending, worker, queue⟩ := system
  obtain ⟨before, same, elements⟩ := state
  obtain rfl : same = worker := follows.worker
  change queue.dequeuer = .idle at idle
  cases checks : component.checks same with
  | none =>
    have stepped : component.atomicStep ⟨before, same, elements⟩ (.thread chance) =
        ⟨before, component.work same chance none, elements⟩ := by
      simp [Component.atomicStep, running, checks]
    simp only [Component.thread, Component.translate, idle, checks, run_cons, run_nil, stepped]
    exact { follows with
      worker := rfl
      asks := .inl idle }
  | some sleep =>
    have offer := @sameOffer_call _ maxBlockSize queue (checkQueue sleep)
    obtain ⟨calls, log⟩ :=
      @begins_call _ maxBlockSize queue idle (checkQueue sleep) (checkQueue_ne_peek sleep)
    simp only [Component.thread, Component.translate, idle, checks, run_nil]
    exact {
      inOrder := inOrder_step wide queue (.call (checkQueue sleep)) follows.inOrder
      legal := log ▸ follows.legal
      allocating := offer.producer ▸ follows.allocating
      worker := rfl
      asks := .inr ⟨sleep, checks, calls⟩
      listens := follows.listens.of_sameOffer offer }

/-- At the access that answers the call the other machine makes its step. -/
theorem Follows.thread_calls
    (wide : 2 ≤ maxBlockSize) (running : component.halted system.worker = false) {sleep : Bool}
    (checks : component.checks system.worker = some sleep)
    (calls : system.queue.Calls (checkQueue sleep)) (chance : Chance) (failed : Bool) :
    Follows component capacity (component.thread maxBlockSize system chance failed)
      (run component.atomicStep state
        (component.translate maxBlockSize system (.thread chance failed))) := by
  obtain ⟨listener, pending, worker, queue⟩ := system
  obtain ⟨before, same, elements⟩ := state
  obtain rfl : same = worker := follows.worker
  obtain ⟨units, contents, inv⟩ := follows.inOrder
  have offer := @sameOffer_consume _ maxBlockSize queue failed
  have inOrder := inOrder_step wide queue (.consume failed) follows.inOrder
  have listens := follows.listens.of_sameOffer offer
  have allocating : (step maxBlockSize queue (.consume failed)).inner.producer.Allocating :=
    offer.producer ▸ follows.allocating
  have busy : queue.dequeuer ≠ .idle := by
    rcases calls with point | point
    all_goals
      rw [point]
      exact Dequeuer.noConfusion
  rcases @Inv.answers _ _ maxBlockSize _ _ _ inv _ (checkQueue_ne_peek sleep) calls failed with
    ⟨silent, still⟩ | ⟨idle, answered⟩
  · obtain ⟨goesOn, nothing⟩ := @thread_eq _ _ _ _ _ _ component maxBlockSize
      ⟨listener, pending, same, queue⟩ busy chance failed _ (answer_eq_none silent)
    rw [goesOn, nothing]
    exact ⟨inOrder, silent ▸ follows.legal, allocating, rfl, .inr ⟨sleep, checks, still⟩, listens⟩
  · obtain ⟨response, kind, logged⟩ : ∃ response : Response Operation,
        ((∃ element, response = .removed (checkQueue sleep) element) ∨
          response = .empty (checkQueue sleep)) ∧
        (step maxBlockSize queue (.consume failed)).log = queue.log ++ [response] := by
      rcases answered with ⟨element, removed⟩ | empty
      · exact ⟨_, .inl ⟨element, rfl⟩, removed⟩
      · exact ⟨_, .inr rfl, empty⟩
    obtain ⟨acts, once⟩ := @thread_eq _ _ _ _ _ _ component maxBlockSize
      ⟨listener, pending, same, queue⟩ busy chance failed _ (answer_eq_some logged)
    obtain ⟨newUnits, newContents, newInv⟩ := inOrder
    have later := newInv.legal
    rw [logged] at later
    obtain ⟨first, rest⟩ := follows.legal.taken (checkQueue_ne_peek sleep) kind later
    have stepped : component.atomicStep ⟨before, same, elements⟩ (.thread chance) =
        ⟨before, component.work same chance response.element?, newContents⟩ := by
      simp [Component.atomicStep, running, checks, first, rest]
    rw [acts, once, run_cons, run_nil, stepped]
    exact ⟨⟨_, _, newInv⟩, newInv.legal, allocating, rfl, .inl idle, listens⟩

theorem Follows.thread (wide : 2 ≤ maxBlockSize) (running : component.halted system.worker = false)
    (chance : Chance) (failed : Bool) :
    Follows component capacity (component.thread maxBlockSize system chance failed)
      (run component.atomicStep state
        (component.translate maxBlockSize system (.thread chance failed))) := by
  rcases follows.asks with idle | ⟨sleep, checks, calls⟩
  · exact follows.thread_idle wide running idle chance failed
  · exact follows.thread_calls wide running checks calls chance failed

theorem Follows.external (running : component.halted system.worker = false) (event : External) :
    Follows component capacity
      { system with worker := component.external system.worker event }
      (component.atomicStep state (.external event)) := by
  have stepped : component.atomicStep state (.external event) =
      { state with worker := component.external state.worker event } := by
    rw [Component.atomicStep, follows.worker, running]
    rfl
  rw [stepped]
  refine { follows with
    worker := by rw [follows.worker]
    asks := ?_ }
  rcases follows.asks with idle | ⟨sleep, checks, calls⟩
  · exact .inl idle
  · exact .inr ⟨sleep, (component.checks_external _ _).trans checks, calls⟩

end

/-! ### Every interleaving -/

/-- No allocation fails. -/
def Event.Allocates : Event Input Chance External → Prop
  | .produce malloc => malloc = true
  | _ => True

theorem Follows.step (follows : Follows component capacity system state)
    (wide : 2 ≤ maxBlockSize) {event : Event Input Chance External}
    (allocates : event.Allocates) :
    Follows component capacity (component.step maxBlockSize system event)
      (run component.atomicStep state (component.translate maxBlockSize system event)) := by
  cases running : component.halted system.worker with
  | true =>
    have halts : component.step maxBlockSize system event = system := if_pos running
    have stuck : ∀ event, component.atomicStep state event = state := fun event =>
      if_pos (follows.worker ▸ running)
    rw [halts, run_of_idle fun event _ => stuck event]
    exact follows
  | false =>
    have awake : ¬component.halted system.worker = true := by simp [running]
    have stepped : component.step maxBlockSize system event = _ := if_neg awake
    rw [stepped]
    cases event with
    | arrives input => exact follows.arrives wide running input
    | produce malloc =>
      obtain rfl : malloc = true := allocates
      exact follows.produce wide running
    | thread chance failed => exact follows.thread wide running chance failed
    | external event => exact follows.external running event

/-- The system when its threads start. -/
def System.make (maxBlockSize size : Nat) (listener : Listener) (worker : Worker) :
    System Listener Worker Input Operation where
  listener := listener
  pending := none
  worker := worker
  queue := .make maxBlockSize size

/-- With the queue the threads do what they do with a list. -/
theorem follows_run (component : Component Listener Worker Input Chance External Operation)
    {size : Nat} (power : ∃ exponent, maxBlockSize = 2 ^ exponent) (wide : 2 ≤ maxBlockSize)
    (positive : 0 < size) (fits : size < 2 ^ 63) (listener : Listener) (worker : Worker)
    {events : List (Event Input Chance External)}
    (allocates : ∀ event ∈ events, event.Allocates) :
    Follows component size
      (run (component.step maxBlockSize) (.make maxBlockSize size listener worker) events)
      (run component.atomicStep ⟨listener, worker, []⟩
        (translated (component.step maxBlockSize) (component.translate maxBlockSize)
          (.make maxBlockSize size listener worker) events)) := by
  have initially : Follows component size
      (.make maxBlockSize size listener worker : System Listener Worker Input Operation)
      ⟨listener, worker, []⟩ := {
    inOrder := inOrder_make power wide positive fits
    legal := .nil
    allocating := trivial
    worker := rfl
    asks := .inl rfl
    listens := .idle rfl rfl }
  exact run_simulates (fun system state event follows allocates => follows.step wide allocates)
    initially (along_of_forall (fun event member _ => allocates event member) _)

/-- The steps with the list that a run with the queue stands for, in their order. -/
def Component.serialized (component : Component Listener Worker Input Chance External Operation)
    (maxBlockSize : Nat) (system : System Listener Worker Input Operation)
    (events : List (Event Input Chance External)) : List (AtomicEvent Input Chance External) :=
  translated (component.step maxBlockSize) (component.translate maxBlockSize) system events

/-- A machine that is the component with the list, in different words. -/
structure Component.Shows (component : Component Listener Worker Input Chance External Operation)
    {Machine MachineEvent : Type*} (machine : Machine → MachineEvent → Machine)
    (view : AtomicState Listener Worker Operation → Machine)
    (name : AtomicEvent Input Chance External → MachineEvent) : Prop where
  halts : ∀ state event, component.halted state.worker = true →
    machine (view state) (name event) = view state
  arrives : ∀ listener worker queue input, component.halted worker ≠ true →
    machine (view ⟨listener, worker, queue⟩) (name (.arrives input)) =
      view ⟨component.conclude (component.announce listener input).1 input, worker,
        queue ++ (component.announce listener input).2.toList⟩
  thread : ∀ listener worker queue chance, component.halted worker ≠ true →
    machine (view ⟨listener, worker, queue⟩) (name (.thread chance)) =
      match component.checks worker with
      | none => view ⟨listener, component.work worker chance none, queue⟩
      | some _ => view ⟨listener, component.work worker chance queue.head?, queue.tail⟩
  external : ∀ listener worker queue event, component.halted worker ≠ true →
    machine (view ⟨listener, worker, queue⟩) (name (.external event)) =
      view ⟨listener, component.external worker event, queue⟩

section Shows

variable {Machine MachineEvent : Type*} {machine : Machine → MachineEvent → Machine}
  {view : AtomicState Listener Worker Operation → Machine}
  {name : AtomicEvent Input Chance External → MachineEvent}

theorem Component.Shows.step (shows : component.Shows machine view name)
    (state : AtomicState Listener Worker Operation) (event : AtomicEvent Input Chance External) :
    view (component.atomicStep state event) = machine (view state) (name event) := by
  obtain ⟨listener, worker, queue⟩ := state
  by_cases halted : component.halted worker = true
  · rw [shows.halts _ event halted]
    exact congrArg view (if_pos halted)
  · have stepped : component.atomicStep ⟨listener, worker, queue⟩ event = _ := if_neg halted
    rw [stepped]
    cases event with
    | arrives input => rw [shows.arrives _ _ _ _ halted]
    | thread chance =>
      rw [shows.thread _ _ _ _ halted]
      dsimp only
      cases component.checks worker <;> rfl
    | external event => rw [shows.external _ _ _ _ halted]

/-- In that order of its events the machine has the worker that the component with the queue has,
and what the queue holds. -/
theorem serializable (shows : component.Shows machine view name)
    {size : Nat} (power : ∃ exponent, maxBlockSize = 2 ^ exponent) (wide : 2 ≤ maxBlockSize)
    (positive : 0 < size) (fits : size < 2 ^ 63) (listener : Listener) (worker : Worker)
    {events : List (Event Input Chance External)}
    (allocates : ∀ event ∈ events, event.Allocates) :
    let system := run (component.step maxBlockSize) (.make maxBlockSize size listener worker) events
    ∃ reached contents,
      run machine (view ⟨listener, worker, []⟩) ((component.serialized maxBlockSize
          (.make maxBlockSize size listener worker) events).map name) =
        view ⟨reached, system.worker, contents⟩ ∧
      Legal system.queue.log contents ∧ (system.pending = none → reached = system.listener) := by
  intro system
  have follows := follows_run component power wide positive fits listener worker allocates
  have renamed := run_renamed view name shows.step ⟨listener, worker, []⟩
    (component.serialized maxBlockSize (.make maxBlockSize size listener worker) events)
  rw [Component.serialized] at renamed ⊢
  generalize run component.atomicStep _ _ = atomic at follows renamed
  refine ⟨atomic.listener, atomic.queue, renamed.symm.trans ?_, follows.legal, fun idle => ?_⟩
  · rw [← follows.worker]
  · have listens := follows.listens
    rw [idle] at listens
    cases listens with
    | idle _ same => exact same

end Shows

end Follows

end Handover

end RFaaS
