/-
This file is about the two threads of the executor manager with the queue between
them. The model of the manager takes an entry from the queue in one step and adds
one in one step. With the accesses of the lock-free queue in place of that, the
manager does nothing else: whatever the interleaving, there is an order of the
events of the model in which it comes to the same state, and the file says which.

For that the manager is taken apart into what the listener has for itself, the
queue, and the rest, which is what the manager thread works on. Neither thread
looks at what the other has for itself.
-/

import RFaaS.ExecutorManager
import RFaaS.Handover

namespace RFaaS

namespace ExecutorManager

open Transition BlockingReaderWriterQueue Manager

/-! ### The parts of the manager -/

/-- The variables of `listen`; the number of clients made so far is a ghost. -/
structure ListenState where
  clientsToConnect : List UInt32
  made : Nat

/-- What the manager thread works on. Of its fields, those of the listener and the queue are not
used. `connCount` is the local variable `conn_count` of `poll_rdma`. -/
structure ThreadState where
  manager : Manager
  connCount : Nat

/-- The events that the listener polls. -/
inductive Input
  | requested (connection : Connection) (temporaryMemory queueMemory : Int32)
  | disconnected (connection : Connection)

/-- The events that concern neither thread's part in the handover. -/
inductive External
  | message (completion : WorkCompletion)
  | leaseAllocation (lease : Lease)
  | account (qpNum : UInt32) (hotPollingTime executionTime : UInt64)
  | exit (pid : Int)
  | shutdown

def External.toEvent : External → Event
  | .message completion => .message completion
  | .leaseAllocation lease => .leaseAllocation lease
  | .account qpNum hotPollingTime executionTime => .account qpNum hotPollingTime executionTime
  | .exit pid => .exit pid
  | .shutdown => .shutdown

def eventOf : Handover.AtomicEvent Input Chance External → Event
  | .arrives (.requested connection temporaryMemory queueMemory) =>
    .requested connection temporaryMemory queueMemory
  | .arrives (.disconnected connection) => .disconnected connection
  | .thread chance => .thread chance
  | .external event => event.toEvent

/-- The manager that has these parts. -/
def Manager.assemble (manager : Manager) (listen : ListenState) (queue : List Operation) :
    Manager :=
  { manager with
    clientsToConnect := listen.clientsToConnect
    made := listen.made
    clientQueue := queue }

/-- `listen`, up to the call of `emplace`. -/
def ListenState.announce (listen : ListenState) : Input → ListenState × Option Operation
  | .requested connection temporaryMemory queueMemory =>
    if 0 < connection.privateData then
      if connection.privateData ∈ listen.clientsToConnect then
        (listen, some (.connect (.executor connection)))
      else (listen, none)
    else
      let client := Client.construct connection.qpNum.toInt32 connection true listen.made
      let temporary := client.moveConstruct temporaryMemory
      let queued := temporary.moveConstruct queueMemory
      (⟨connection.qpNum :: listen.clientsToConnect, listen.made + 1⟩,
        some (.connect (.client queued)))
  | .disconnected connection => (listen, some (.disconnect connection))

/-- `listen`, after the call. -/
def ListenState.conclude (listen : ListenState) : Input → ListenState
  | .requested _ _ _ => listen
  | .disconnected connection =>
    { listen with clientsToConnect := listen.clientsToConnect.filter (· ≠ connection.qpNum) }

/-- Both loops call `_check_queue` in a loop of its own; only `poll_rdma` sleeps in it, as soon as
there has been a connection. -/
def ThreadState.checks (thread : ThreadState) : Option Bool :=
  match thread.manager.phase with
  | .pollQueue => some (decide (0 < thread.connCount))
  | .sleepQueue _ => some false
  | _ => none

/-- A step of the manager thread, for which the queue is what it has been answered. -/
def ThreadState.work (thread : ThreadState) (chance : Chance) (answer : Option Operation) :
    ThreadState where
  manager := { thread.manager with clientQueue := answer.toList }.threadStep chance
  connCount := match thread.manager.phase, answer with
    | .pollQueue, some (.connect _) => thread.connCount + 1
    | _, _ => thread.connCount

def ThreadState.external (thread : ThreadState) (event : External) : ThreadState :=
  { thread with manager := thread.manager.step event.toEvent }

theorem Manager.phase_account (manager : Manager) (qpNum : UInt32)
    (hotPollingTime executionTime : UInt64) :
    (manager.account qpNum hotPollingTime executionTime).phase = manager.phase := by
  rw [account]
  split <;> rfl

theorem Manager.phase_external (manager : Manager) (event : External) :
    (manager.step event.toEvent).phase = manager.phase := by
  unfold step
  split
  · rfl
  · cases event with
    | account => exact phase_account ..
    | _ => rfl

/-- `listen` and the manager thread, with `_client_queue` between them. -/
def threads : Handover.Component ListenState ThreadState Input Chance External Operation where
  announce := ListenState.announce
  conclude := ListenState.conclude
  checks := ThreadState.checks
  work := ThreadState.work
  external := ThreadState.external
  halted := fun thread => thread.manager.fault
  checks_external := fun thread event => by
    rw [ThreadState.checks, ThreadState.external, phase_external, ThreadState.checks]

/-! ### The manager thread keeps to its part -/

namespace Manager

section Assemble

variable (manager : Manager) (listen : ListenState) (queue : List Operation)

@[simp] theorem clients_assemble : (manager.assemble listen queue).clients = manager.clients := rfl

@[simp] theorem fault_assemble : (manager.assemble listen queue).fault = manager.fault := rfl

@[simp] theorem result_assemble : (manager.assemble listen queue).result = manager.result := rfl

@[simp] theorem leases_assemble : (manager.assemble listen queue).leases = manager.leases := rfl

@[simp] theorem exited_assemble : (manager.assemble listen queue).exited = manager.exited := rfl

theorem eraseClient_assemble (qpNum : UInt32) :
    (manager.assemble listen queue).eraseClient qpNum =
      (manager.eraseClient qpNum).assemble listen queue := by
  cases found : manager.clients.lookup qpNum with
  | none => simp only [eraseClient, clients_assemble, found]
  | some client =>
    simp only [eraseClient, clients_assemble, found]
    rfl

theorem eraseAll_assemble (keys : List UInt32) :
    keys.foldl eraseClient (manager.assemble listen queue) =
      (keys.foldl eraseClient manager).assemble listen queue := by
  induction keys generalizing manager with
  | nil => rfl
  | cons qpNum rest inductionHypothesis =>
    rw [List.foldl_cons, List.foldl_cons, eraseClient_assemble, inductionHypothesis]

theorem handleConnections_assemble (nodeMemory : Int32) :
    (manager.assemble listen queue).handleConnections nodeMemory =
      (manager.handleConnections nodeMemory).assemble listen queue := by
  simp only [handleConnections, result_assemble, clients_assemble]
  split
  · split
    · rfl
    · split <;> rfl
  · split <;> rfl

theorem disable_assemble (qpNum : UInt32) (client : Client) (now : Int) :
    (manager.assemble listen queue).disable qpNum client now =
      (manager.disable qpNum client now).assemble listen queue := rfl

theorem handleClientMessage_assemble (completion : WorkCompletion) (chance : Chance) :
    (manager.assemble listen queue).handleClientMessage completion chance =
      (manager.handleClientMessage completion chance).assemble listen queue := by
  cases found : manager.clients.lookup completion.qpNum with
  | none => simp only [handleClientMessage, clients_assemble, found]
  | some client =>
    by_cases success : completion.success = true
    · by_cases lease : 0 ≤ completion.request.leaseId
      · simp only [handleClientMessage, clients_assemble, found, if_pos success, processClient,
          if_pos lease, leases_assemble]
        cases (manager.leases.emplace completion.request.leaseId
          ⟨completion.request.leaseId, completion.request.cores, 512⟩).lookup
            completion.request.leaseId <;> rfl
      · simp only [handleClientMessage, clients_assemble, found, if_pos success, processClient,
          if_neg lease, disable_assemble, eraseClient_assemble]
    · simp only [handleClientMessage, clients_assemble, found, if_neg success]

theorem checkExecutor_assemble (now : Int) (removals : List UInt32) (qpNum : UInt32) :
    checkExecutor now (manager.assemble listen queue, removals) qpNum =
      ((checkExecutor now (manager, removals) qpNum).1.assemble listen queue,
        (checkExecutor now (manager, removals) qpNum).2) := by
  cases found : manager.clients.lookup qpNum with
  | none => simp only [checkExecutor, clients_assemble, found]
  | some client =>
    by_cases active : client.active = true
    · cases running : client.executor with
      | none => simp only [checkExecutor, clients_assemble, found, if_pos active, running]
      | some executor =>
        by_cases gone : executor.pid ∈ manager.exited
        · simp only [checkExecutor, clients_assemble, found, if_pos active, running,
            exited_assemble, gone, if_true, disable_assemble]
        · simp only [checkExecutor, clients_assemble, found, if_pos active, running,
            exited_assemble, gone, if_false]
    · simp only [checkExecutor, clients_assemble, found, if_neg active]

theorem checkAll_assemble (now : Int) (removals keys : List UInt32) :
    keys.foldl (checkExecutor now) (manager.assemble listen queue, removals) =
      ((keys.foldl (checkExecutor now) (manager, removals)).1.assemble listen queue,
        (keys.foldl (checkExecutor now) (manager, removals)).2) := by
  induction keys generalizing manager removals with
  | nil => rfl
  | cons qpNum rest inductionHypothesis =>
    rw [List.foldl_cons, checkExecutor_assemble, inductionHypothesis, List.foldl_cons]

theorem checkExecutors_assemble (now : Int) :
    (manager.assemble listen queue).checkExecutors now =
      (manager.checkExecutors now).assemble listen queue := by
  rw [checkExecutors, clients_assemble, checkAll_assemble]
  exact eraseAll_assemble _ listen queue _

/-- A step on the whole manager is one on the part of the manager thread: it uses the first entry
of the queue and leaves what the listener has. -/
def Apart (thread : ThreadState) (chance : Chance) : Prop :=
  (thread.manager.assemble listen queue).threadStep chance =
    match thread.checks with
    | none => (thread.work chance none).manager.assemble listen queue
    | some _ => (thread.work chance queue.head?).manager.assemble listen queue.tail

/-- The part of the manager thread when the queue has been answered. -/
def answered (manager : Manager) (shutdown : Bool) (phase : Phase)
    (disconnections : List Connection) : Manager :=
  { manager with
    clientQueue := []
    shutdown := shutdown
    phase := phase
    disconnections := disconnections }

theorem threadStep_assemble (thread : ThreadState) (chance : Chance) :
    Apart listen queue thread chance := by
  -- with what decides about a step in variables of their own, every step computes
  suffices general : ∀ (manager : Manager) (shutdown : Bool) (phase : Phase)
      (disconnections : List Connection), Apart listen queue ⟨{ manager with
        shutdown := shutdown
        phase := phase
        disconnections := disconnections }, thread.connCount⟩ chance from
    general thread.manager thread.manager.shutdown thread.manager.phase
      thread.manager.disconnections
  intro manager shutdown phase disconnections
  cases phase with
  | pollTop =>
    cases shutdown with
    | true =>
      exact congrArg (fun cleared : Manager => { cleared with phase := .stopped })
        (eraseAll_assemble (manager.answered true .pollTop disconnections) listen queue
          manager.clients.keys)
    | false => rfl
  | pollQueue =>
    cases queue with
    | nil => rfl
    | cons operation rest =>
      cases operation with
      | connect message =>
        exact handleConnections_assemble { manager.answered shutdown .pollQueue disconnections with
          result := assignResult manager.result chance.resultMemory message } listen rest
          chance.nodeMemory
      | disconnect connection =>
        exact eraseClient_assemble { manager.answered shutdown .pollQueue disconnections with
          result := .executor connection } listen rest connection.qpNum
  | pollMessages messages =>
    cases messages with
    | nil => rfl
    | cons completion rest =>
      exact handleClientMessage_assemble
        (manager.answered shutdown (.pollMessages rest) disconnections) listen queue completion
        chance
  | pollCheck =>
    exact checkExecutors_assemble (manager.answered shutdown .pollTop disconnections) listen queue
      chance.now
  | sleepTop =>
    cases shutdown with
    | true => rfl
    | false =>
      by_cases quiet : chance.ready = [] <;>
        simp [Apart, threadStep, ThreadState.checks, ThreadState.work, assemble, quiet]
  | sleepEvents channels =>
    cases channels with
    | nil => rfl
    | cons channel rest => cases channel <;> rfl
  | sleepQueue resume =>
    cases queue with
    | nil => cases resume <;> rfl
    | cons operation rest =>
      cases operation with
      | connect message =>
        exact handleConnections_assemble
          { manager.answered shutdown (.sleepQueue resume) disconnections with
            result := assignResult manager.result chance.resultMemory message } listen rest
          chance.nodeMemory
      | disconnect => rfl
  | sleepMessages messages ready =>
    cases messages with
    | nil => rfl
    | cons completion rest =>
      exact handleClientMessage_assemble
        (manager.answered shutdown (.sleepMessages rest ready) disconnections) listen queue
        completion chance
  | sleepLeases leases ready => cases leases <;> rfl
  | sleepDisconnections =>
    cases disconnections with
    | nil => rfl
    | cons connection rest =>
      exact eraseClient_assemble (manager.answered shutdown .sleepDisconnections rest) listen queue
        connection.qpNum
  | stopped => rfl

theorem step_external (event : External) (running : manager.fault ≠ true) :
    (manager.assemble listen queue).step event.toEvent =
      (manager.step event.toEvent).assemble listen queue := by
  simp only [step, fault_assemble, Bool.eq_false_iff.mpr running]
  cases event with
  | account qpNum =>
    simp only [External.toEvent, account, clients_assemble]
    cases manager.clients.lookup qpNum <;> rfl
  | _ => rfl

end Assemble

/-- The listener does to its own part and to the queue what it does to the manager. -/
theorem requested_assemble (manager : Manager) (listen : ListenState) (queue : List Operation)
    (connection : Connection) (temporaryMemory queueMemory : Int32) :
    (manager.assemble listen queue).requested connection temporaryMemory queueMemory =
      manager.assemble (listen.announce (.requested connection temporaryMemory queueMemory)).1
        (queue ++ (listen.announce
          (.requested connection temporaryMemory queueMemory)).2.toList) := by
  by_cases executor : 0 < connection.privateData
  · by_cases known : connection.privateData ∈ listen.clientsToConnect <;>
      simp [requested, ListenState.announce, executor, known, assemble]
  · simp [requested, ListenState.announce, executor, assemble]

end Manager

/-! ### The order of the model -/

/-- The manager that is made up of the parts of the two threads and a list. -/
def view (state : Handover.AtomicState ListenState ThreadState Operation) : Manager :=
  state.worker.manager.assemble state.listener state.queue

/-- The manager is its threads with a list between them. -/
theorem shows_step : threads.Shows step view eventOf where
  halts := fun _ _ faulty => if_pos faulty
  arrives := fun listen thread queue input running => by
    cases input with
    | requested =>
      exact (if_neg running).trans (requested_assemble ..)
    | disconnected => exact if_neg running
  thread := fun listen thread queue chance running => by
    have apart : Apart listen queue thread chance :=
      threadStep_assemble listen queue thread chance
    refine (if_neg running).trans (apart.trans ?_)
    change _ = match thread.checks with | none => _ | some _ => _
    cases thread.checks <;> rfl
  external := fun listen thread queue event running => step_external _ _ _ event running

/-- Both threads at the start of one of the loops, with a new queue. -/
def startThreads (loop : Loop) (maxBlockSize size : Nat) :
    Handover.System ListenState ThreadState Input Operation :=
  .make maxBlockSize size ⟨[], 0⟩ ⟨.start loop, 0⟩

/-- The events of the model that a run of the two threads stands for, in their order. -/
def serialized (maxBlockSize : Nat)
    (system : Handover.System ListenState ThreadState Input Operation)
    (events : List (Handover.Event Input Chance External)) : List Event :=
  (threads.serialized maxBlockSize system events).map eventOf

/-- Whatever the interleaving of the accesses to the queue, the manager thread has done what it
does in the model, where the queue is a list that is changed in one step, and that list is what
the calls have left in the queue. -/
theorem threads_serializable (loop : Loop) {maxBlockSize size : Nat}
    (power : ∃ exponent, maxBlockSize = 2 ^ exponent) (wide : 2 ≤ maxBlockSize)
    (positive : 0 < size) (fits : size < 2 ^ 63)
    {events : List (Handover.Event Input Chance External)}
    (allocates : ∀ event ∈ events, event.Allocates) :
    let system := run (threads.step maxBlockSize) (startThreads loop maxBlockSize size) events
    ∃ listen contents,
      run step (.start loop)
          (serialized maxBlockSize (startThreads loop maxBlockSize size) events) =
        system.worker.manager.assemble listen contents ∧
      Legal system.queue.log contents ∧ (system.pending = none → listen = system.listener) :=
  Handover.serializable shows_step power wide positive fits ⟨[], 0⟩ ⟨.start loop, 0⟩ allocates

/-- A client connects while the manager thread polls, which then takes it from the queue. -/
def firstClient : List (Handover.Event Input Chance External) :=
  [.arrives (.requested ⟨⟨0, 7⟩, 0⟩ 0 0), .thread ⟨1, 0, 0, 0, []⟩ false, .produce true,
    .produce true, .produce true, .produce true] ++
  List.replicate 7 (.thread ⟨1, 0, 0, 0, []⟩ false)

theorem threads_serializable_client :
    (run (threads.step 512) (startThreads .pollRdma 512 100)
      firstClient).worker.manager.clients.keys = [7] ∧
    ∃ listen contents,
      run step (.start .pollRdma)
          (serialized 512 (startThreads .pollRdma 512 100) firstClient) =
        (run (threads.step 512) (startThreads .pollRdma 512 100)
          firstClient).worker.manager.assemble listen contents := by
  refine ⟨by decide +kernel, ?_⟩
  obtain ⟨listen, contents, same, -⟩ := @threads_serializable .pollRdma 512 100 ⟨9, rfl⟩
    (by decide) (by decide) (by decide) firstClient
    (by simp [firstClient, Handover.Event.Allocates])
  exact ⟨listen, contents, same⟩

end ExecutorManager

end RFaaS
