/-
This file is about the two threads of the resource manager that have to do with
clients, with the queue between them: `listen_rdma`, and the thread of
`process_clients` or `process_events_sleep`. As for the executor manager, the
threads with the lock-free queue do what the model does, where the queue is a
list. Here the listener accepts a connection only when it has handed it over.
-/

import RFaaS.Handover
import RFaaS.ResourceManager

namespace RFaaS

namespace ResourceManager

open Transition BlockingReaderWriterQueue

/-! ### The parts of the manager -/

/-- What the listener has for itself: `_client_id`, and the connections that it has accepted. -/
structure ListenState where
  clientId : Int
  accepted : List Connection

/-- What the thread for clients works on. Of its fields, those of the listener and the queue are
not used. `clientCount` is the local variable `client_count` of `process_clients`. -/
structure ThreadState where
  manager : Manager
  clientCount : Int

/-- The events of clients that the listener polls. -/
inductive Input
  | requested (connection : Connection)
  | disconnected (connection : Connection)

/-- The events that concern neither thread's part in the handover. -/
inductive External
  | message (completion : WorkCompletion)
  | store (op : StoreOp)
  | shutdown

def External.toEvent : External → Event
  | .message completion => .message completion
  | .store op => .store op
  | .shutdown => .shutdown

def eventOf : Handover.AtomicEvent Input (List Channel) External → Event
  | .arrives (.requested connection) => .requested connection
  | .arrives (.disconnected connection) => .disconnected connection
  | .thread ready => .thread ready
  | .external event => event.toEvent

/-- The manager that has these parts. -/
def Manager.assemble (manager : Manager) (listen : ListenState) (queue : List Operation) :
    Manager :=
  { manager with
    clientId := listen.clientId
    accepted := listen.accepted
    clientQueue := queue }

/-- `listen_rdma`, up to the call of `enqueue`. -/
def ListenState.announce (listen : ListenState) : Input → ListenState × Option Operation
  | .requested connection =>
    ({ listen with clientId := listen.clientId + 1 },
      some (.connect ⟨some connection, listen.clientId⟩))
  | .disconnected connection => (listen, some (.disconnect connection))

/-- `listen_rdma`, after the call. -/
def ListenState.conclude (listen : ListenState) : Input → ListenState
  | .requested connection => { listen with accepted := connection :: listen.accepted }
  | .disconnected _ => listen

/-- `process_clients` sleeps in `_check_queue` while it has no clients. -/
def ThreadState.checks (thread : ThreadState) : Option Bool :=
  match thread.manager.phase with
  | .pollQueue => some (decide (thread.clientCount = 0))
  | .sleepQueue _ => some false
  | _ => none

/-- A step of the thread, for which the queue is what it has been answered. -/
def ThreadState.work (thread : ThreadState) (ready : List Channel) (answer : Option Operation) :
    ThreadState where
  manager := { thread.manager with clientQueue := answer.toList }.threadStep ready
  clientCount := match thread.manager.phase, answer with
    | .pollQueue, some (.connect _) => thread.clientCount + 1
    | .pollQueue, some (.disconnect _) => thread.clientCount - 1
    | _, _ => thread.clientCount

def ThreadState.external (thread : ThreadState) (event : External) : ThreadState :=
  { thread with manager := thread.manager.step event.toEvent }

theorem Manager.phase_external (manager : Manager) (event : External) :
    (manager.step event.toEvent).phase = manager.phase := by
  unfold step
  split
  · rfl
  · cases event <;> rfl

/-- `listen_rdma` and the thread for clients, with `_client_queue` between them. -/
def threads :
    Handover.Component ListenState ThreadState Input (List Channel) External Operation where
  announce := ListenState.announce
  conclude := ListenState.conclude
  checks := ThreadState.checks
  work := ThreadState.work
  external := ThreadState.external
  halted := fun thread => thread.manager.fault
  checks_external := fun thread event => by
    rw [ThreadState.checks, ThreadState.external, Manager.phase_external, ThreadState.checks]

/-! ### The thread for clients keeps to its part -/

namespace Manager

section Assemble

variable (manager : Manager) (listen : ListenState) (queue : List Operation)

@[simp] theorem clients_assemble : (manager.assemble listen queue).clients = manager.clients := rfl

@[simp] theorem fault_assemble : (manager.assemble listen queue).fault = manager.fault := rfl

theorem handleClientConnection_assemble (client : Client) :
    (manager.assemble listen queue).handleClientConnection client =
      (manager.handleClientConnection client).assemble listen queue := by
  cases held : client.connection with
  | none => simp only [handleClientConnection, held]; rfl
  | some connection =>
    cases found : manager.clients.lookup connection.qpNum <;>
      (simp only [handleClientConnection, held, clients_assemble, found]; rfl)

theorem handleClientDisconnection_assemble (connection : Connection) :
    (manager.assemble listen queue).handleClientDisconnection connection =
      (manager.handleClientDisconnection connection).assemble listen queue := by
  cases found : manager.clients.lookup connection.qpNum <;>
    (simp only [handleClientDisconnection, clients_assemble, found]; rfl)

theorem handleOperation_assemble (operation : Operation) :
    (manager.assemble listen queue).handleOperation operation =
      (manager.handleOperation operation).assemble listen queue := by
  cases operation with
  | connect client => exact manager.handleClientConnection_assemble listen queue client
  | disconnect connection =>
    exact manager.handleClientDisconnection_assemble listen queue connection

theorem handleClientMessage_assemble (completion : WorkCompletion) :
    (manager.assemble listen queue).handleClientMessage completion =
      (manager.handleClientMessage completion).assemble listen queue := by
  by_cases success : completion.success = true
  · cases found : manager.clients.lookup completion.qpNum with
    | none => simp only [handleClientMessage, if_pos success, clients_assemble, found]
    | some element =>
      cases held : element.client.connection with
      | none => simp only [handleClientMessage, if_pos success, clients_assemble, found, held]; rfl
      | some =>
        simp only [handleClientMessage, if_pos success, clients_assemble, found, held]
        split <;> rfl
  · simp only [handleClientMessage, if_neg success]

/-- A step on the whole manager is one on the part of the thread: it uses the first entry of the
queue and leaves what the listener has. -/
def Apart (thread : ThreadState) (ready : List Channel) : Prop :=
  (thread.manager.assemble listen queue).threadStep ready =
    match thread.checks with
    | none => (thread.work ready none).manager.assemble listen queue
    | some _ => (thread.work ready queue.head?).manager.assemble listen queue.tail

theorem threadStep_assemble (thread : ThreadState) (ready : List Channel) :
    Apart listen queue thread ready := by
  -- with the phase in a variable of its own, every step computes
  suffices general : ∀ (manager : Manager) (phase : Phase),
      Apart listen queue ⟨{ manager with phase := phase }, thread.clientCount⟩ ready from
    general thread.manager thread.manager.phase
  intro manager phase
  cases phase with
  | pollQueue =>
    cases queue with
    | nil => rfl
    | cons operation rest =>
      exact handleOperation_assemble
        { manager with clientQueue := [], phase := .pollQueue } listen rest operation
  | sleepQueue resume =>
    cases queue with
    | nil => cases resume <;> rfl
    | cons operation rest =>
      exact handleOperation_assemble
        { manager with clientQueue := [], phase := .sleepQueue resume } listen rest operation
  | pollMessages messages =>
    cases messages with
    | nil => rfl
    | cons completion rest =>
      exact handleClientMessage_assemble
        { manager with clientQueue := [], phase := .pollMessages rest } listen queue completion
  | sleepMessages messages later =>
    cases messages with
    | nil => rfl
    | cons completion rest =>
      exact handleClientMessage_assemble
        { manager with clientQueue := [], phase := .sleepMessages rest later } listen queue
        completion
  | pollSends pointers | sleepSends pointers => cases pointers <;> rfl
  | sleepEvents channels =>
    cases channels with
    | nil => rfl
    | cons channel rest => cases channel <;> rfl
  | _ => rfl

theorem step_external (event : External) (running : manager.fault ≠ true) :
    (manager.assemble listen queue).step event.toEvent =
      (manager.step event.toEvent).assemble listen queue := by
  simp only [step, fault_assemble, Bool.eq_false_iff.mpr running]
  cases event <;> rfl

end Assemble

end Manager

/-! ### The order of the model -/

/-- The manager that is made up of the parts of the two threads and a list. -/
def view (state : Handover.AtomicState ListenState ThreadState Operation) : Manager :=
  state.worker.manager.assemble state.listener state.queue

/-- The manager is its threads with a list between them. -/
theorem shows_step : threads.Shows Manager.step view eventOf where
  halts := fun _ _ faulty => if_pos faulty
  arrives := fun listen thread queue input running => by
    cases input <;> exact if_neg running
  thread := fun listen thread queue ready running => by
    have apart : Manager.Apart listen queue thread ready :=
      Manager.threadStep_assemble listen queue thread ready
    refine (if_neg running).trans (apart.trans ?_)
    change _ = match thread.checks with | none => _ | some _ => _
    cases thread.checks <;> rfl
  external := fun listen thread queue event running => Manager.step_external _ _ _ event running

/-- Both threads at the start of one of the loops, with a new queue. -/
def startThreads (loop : Loop) (maxBlockSize size : Nat) :
    Handover.System ListenState ThreadState Input Operation :=
  .make maxBlockSize size ⟨0, []⟩ ⟨.start loop, 0⟩

/-- The events of the model that a run of the two threads stands for, in their order. -/
def serialized (maxBlockSize : Nat)
    (system : Handover.System ListenState ThreadState Input Operation)
    (events : List (Handover.Event Input (List Channel) External)) : List Event :=
  (threads.serialized maxBlockSize system events).map eventOf

/-- Whatever the interleaving of the accesses to the queue, the thread for clients has done what it
does in the model, where the queue is a list that is changed in one step, and that list is what
the calls have left in the queue. -/
theorem client_threads_serializable (loop : Loop) {maxBlockSize size : Nat}
    (power : ∃ exponent, maxBlockSize = 2 ^ exponent) (wide : 2 ≤ maxBlockSize)
    (positive : 0 < size) (fits : size < 2 ^ 63)
    {events : List (Handover.Event Input (List Channel) External)}
    (allocates : ∀ event ∈ events, event.Allocates) :
    let system := run (threads.step maxBlockSize) (startThreads loop maxBlockSize size) events
    ∃ listen contents,
      run Manager.step (.start loop)
          (serialized maxBlockSize (startThreads loop maxBlockSize size) events) =
        system.worker.manager.assemble listen contents ∧
      Legal system.queue.log contents ∧ (system.pending = none → listen = system.listener) :=
  Handover.serializable shows_step power wide positive fits ⟨0, []⟩ ⟨.start loop, 0⟩ allocates

/-- A client connects while the thread sleeps in the queue, which then takes it. -/
def firstClient : List (Handover.Event Input (List Channel) External) :=
  [.arrives (.requested ⟨0, 7⟩), .thread [] false, .thread [] false, .produce true, .produce true,
    .produce true, .produce true] ++ List.replicate 7 (.thread [] false)

theorem client_threads_serializable_first :
    (run (threads.step 512) (startThreads .processClients 512 15)
      firstClient).worker.manager.clients.keys = [7] ∧
    ∃ listen contents,
      run Manager.step (.start .processClients)
          (serialized 512 (startThreads .processClients 512 15) firstClient) =
        (run (threads.step 512) (startThreads .processClients 512 15)
          firstClient).worker.manager.assemble listen contents := by
  refine ⟨by decide +kernel, ?_⟩
  obtain ⟨listen, contents, same, -⟩ := @client_threads_serializable .processClients 512 15
    ⟨9, rfl⟩ (by decide) (by decide) (by decide) firstClient
    (by simp [firstClient, Handover.Event.Allocates])
  exact ⟨listen, contents, same⟩

end ResourceManager

end RFaaS
