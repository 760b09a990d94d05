/-
This file models the executor manager (`server/executor_manager/manager.cpp`,
`client.cpp`, `executor_process.cpp`): the listener thread that turns
connection events into entries of a queue, the handlers of the manager thread,
and the two loops that the manager thread can run, `poll_rdma` and
`_process_events_sleep`.

The system is one step function. The listener, the network, the executor
processes and the resource manager act through events of their own; the manager
thread acts through the event `thread`, which makes the next step of its loop.
What a step cannot know (the pid that `fork` returns, the clock, the channels
that `epoll` reports, the contents of uninitialised memory) comes with the
event. Log lines and the receive queues of the clients are left out.
-/

import RFaaS.Messages
import RFaaS.Executors
import RFaaS.Transition

namespace RFaaS

namespace ExecutorManager

/-! ### Clients -/

/-- `rdmalib::Connection` on the side of the executor manager. The private data of a connection
from an executor are the queue pair number of its client; those of a client are 0. -/
structure Connection extends RFaaS.Connection where
  privateData : UInt32
  deriving DecidableEq

/-- `ProcessExecutor`; `connections` are the first `connections_len` entries of its array.
Times are in microseconds. -/
structure ActiveExecutor where
  pid : Int
  cores : Int
  connections : List Connection
  allocationFinished : Int
  deriving DecidableEq

/-- `ActiveExecutor::add_executor`. -/
def ActiveExecutor.addExecutor (executor : ActiveExecutor) (connection : Connection) :
    ActiveExecutor :=
  { executor with connections := executor.connections ++ [connection] }

/-- `executor_manager::Accounting`, the words that executors add to remotely. -/
structure Accounting where
  hotPollingTime : UInt64
  executionTime : UInt64
  deriving DecidableEq

/-- `executor_manager::Client`. Three fields are ghosts: `serial` tells clients apart, `served` is
the lease id of the last request that was answered `ALLOCATED`, and `node` is what the memory held
in which the map built the client. -/
structure Client where
  connection : Option Connection
  executor : Option ActiveExecutor
  accounting : Accounting
  allocationTime : UInt32
  active : Bool
  id : Int32
  serial : Nat
  served : Option Int32
  node : Int32
  deriving DecidableEq

namespace Client

/-- `Client::Client(id, conn, pd, active)`. -/
def construct (id : Int32) (connection : Connection) (active : Bool) (serial : Nat) : Client where
  connection := some connection
  executor := none
  accounting := ⟨0, 0⟩
  allocationTime := 0
  active := active
  id := id
  serial := serial
  served := none
  node := 0

/-- `Client(Client &&)`. The member `_id` is not initialised: it is what the memory held. -/
def moveConstruct (memory : Int32) (obj : Client) : Client := { obj with id := memory }

/-- `operator=(Client &&)`. The member `_id` is not assigned. -/
def moveAssign (this obj : Client) : Client := { obj with id := this.id }

/-- What both moves leave in their argument. -/
def movedFrom (obj : Client) : Client := { obj with connection := none, executor := none }

/-- The microseconds since the executor was allocated, added in 32 bits. -/
def chargeAllocation (client : Client) (executor : ActiveExecutor) (now : Int) : Client :=
  { client with
    allocationTime := client.allocationTime + UInt32.ofInt (now - executor.allocationFinished) }

end Client

/-! ### The manager -/

/-- `msg_t`: a new executor for a client, or a new client. -/
inductive Message
  | executor (connection : Connection)
  | client (client : Client)

/-- An entry of `_client_queue`. -/
inductive Operation
  | connect (message : Message)
  | disconnect (connection : Connection)

/-- `executor_manager::Lease`. -/
structure Lease where
  id : Int32
  cores : Int
  memory : Int
  deriving DecidableEq

/-- A work completion on the shared receive queue, with the request that the handler reads from
the slot. -/
structure WorkCompletion where
  qpNum : UInt32
  success : Bool
  request : AllocationRequest
  deriving DecidableEq

/-- The message is the final one of a client. -/
def WorkCompletion.Final (completion : WorkCompletion) : Prop :=
  completion.success = true ∧ ¬ 0 ≤ completion.request.leaseId

instance (completion : WorkCompletion) : Decidable completion.Final :=
  inferInstanceAs (Decidable (_ ∧ _))

/-- A message sent to the resource manager, with the ghosts of the client it was sent for. -/
structure Notice where
  serial : Nat
  served : Option Int32
  node : Int32
  message : LeaseDeallocation
  deriving DecidableEq

/-- The two channels of the sleeping loop. -/
inductive Channel
  | clients
  | resourceManager
  deriving DecidableEq

/-- Where the manager thread is in its loop. -/
inductive Phase
  | pollTop
  | pollQueue
  | pollMessages (rest : List WorkCompletion)
  | pollCheck
  | sleepTop
  | sleepEvents (rest : List Channel)
  | sleepQueue (resume : Option (List Channel))
  | sleepMessages (rest : List WorkCompletion) (ready : List Channel)
  | sleepLeases (rest : List Lease) (ready : List Channel)
  | sleepDisconnections
  | stopped

/-- The messages that the manager thread has polled and not handled yet. -/
def Phase.batch : Phase → List WorkCompletion
  | .pollMessages rest => rest
  | .sleepMessages rest _ => rest
  | _ => []

/-- The announcements that the manager thread has polled and not handled yet. -/
def Phase.announcements : Phase → List Lease
  | .sleepLeases rest _ => rest
  | _ => []

/-- The thread is in the sleeping loop, or has left its loop. -/
def Phase.sleeps : Phase → Bool
  | .pollTop | .pollQueue | .pollMessages _ | .pollCheck => false
  | _ => true

/-- The two loops of the manager thread. -/
inductive Loop
  | pollRdma
  | processEventsSleep
  deriving DecidableEq

/-- `executor_manager::Manager` with its threads and its surroundings. `result` is the static
variable of `_check_queue`; `fault` is set when a null pointer is used. The last four fields are
ghosts: the answers to clients, the messages to the resource manager, the clients taken out of
`_clients` as they were then, and the number of clients made so far. -/
structure Manager where
  clientsToConnect : List UInt32
  clientQueue : List Operation
  result : Message
  clients : Table UInt32 Client
  leases : Table Int32 Lease
  hasResMgr : Bool
  shutdown : Bool
  phase : Phase
  disconnections : List Connection
  completions : List WorkCompletion
  leaseMessages : List Lease
  exited : List Int
  fault : Bool
  responses : List (Nat × LeaseStatus)
  sent : List Notice
  removed : List Client
  made : Nat

/-- What the manager thread cannot know before it makes a step. -/
structure Chance where
  pid : Int
  now : Int
  resultMemory : Int32
  nodeMemory : Int32
  ready : List Channel

/-- The events of the system. -/
inductive Event
  | requested (connection : Connection) (temporaryMemory queueMemory : Int32)
  | disconnected (connection : Connection)
  | message (completion : WorkCompletion)
  | leaseAllocation (lease : Lease)
  | account (qpNum : UInt32) (hotPollingTime executionTime : UInt64)
  | exit (pid : Int)
  | shutdown
  | thread (chance : Chance)

namespace Manager

/-- `Poller::_wc_size`. -/
def pollSize : Nat := 64

/-- A manager that is connected to a resource manager, at the start of one of its loops. -/
def start (loop : Loop) : Manager where
  clientsToConnect := []
  clientQueue := []
  result := .executor ⟨⟨0, 0⟩, 0⟩
  clients := ∅
  leases := ∅
  hasResMgr := true
  shutdown := false
  phase := match loop with
    | .pollRdma => .pollTop
    | .processEventsSleep => .sleepTop
  disconnections := []
  completions := []
  leaseMessages := []
  exited := []
  fault := false
  responses := []
  sent := []
  removed := []
  made := 0

/-! ### The listener -/

/-- `listen`, on a connection request. The private data decide whether an executor or a client
connects. The client is moved into a temporary variant and from there into the queue. -/
def requested (manager : Manager) (connection : Connection)
    (temporaryMemory queueMemory : Int32) : Manager :=
  if 0 < connection.privateData then
    if connection.privateData ∈ manager.clientsToConnect then
      { manager with
        clientQueue := manager.clientQueue ++ [.connect (.executor connection)] }
    else manager
  else
    let client := Client.construct connection.qpNum.toInt32 connection true manager.made
    let temporary := client.moveConstruct temporaryMemory
    let queued := temporary.moveConstruct queueMemory
    { manager with
      clientsToConnect := connection.qpNum :: manager.clientsToConnect
      clientQueue := manager.clientQueue ++ [.connect (.client queued)]
      made := manager.made + 1 }

/-- `listen`, on the end of a connection. -/
def disconnected (manager : Manager) (connection : Connection) : Manager :=
  { manager with
    clientQueue := manager.clientQueue ++ [.disconnect connection]
    clientsToConnect := manager.clientsToConnect.filter (· ≠ connection.qpNum) }

/-! ### The handlers of the manager thread -/

/-- `_clients.erase(it)`. -/
def eraseClient (manager : Manager) (qpNum : UInt32) : Manager :=
  match manager.clients.lookup qpNum with
  | none => manager
  | some client =>
    { manager with
      clients := manager.clients.erase qpNum
      removed := manager.removed ++ [client] }

/-- Assignment through the reference to a client in `_clients`. -/
def setClient (manager : Manager) (qpNum : UInt32) (client : Client) : Manager :=
  { manager with clients := manager.clients.insert qpNum client }

/-- `Client::disable`, on the client that `_clients` has under `qpNum`. The process of its
executor is terminated and waited for. -/
def disable (manager : Manager) (qpNum : UInt32) (client : Client) (now : Int) : Manager :=
  let charged := match client.executor with
    | none => client
    | some executor => client.chargeAllocation executor now
  let notice : Notice := ⟨client.serial, client.served, client.node, {
    leaseId := client.id
    allocationTime := charged.allocationTime.toUInt64
    hotPollingTime := client.accounting.hotPollingTime
    executionTime := client.accounting.executionTime }⟩
  { manager.setClient qpNum { charged with connection := none, executor := none, active := false }
    with
    exited := (client.executor.map ActiveExecutor.pid).toList ++ manager.exited
    sent := if manager.hasResMgr then manager.sent ++ [notice] else manager.sent }

/-- The assignment of a dequeued message to the static variable, alternative by alternative. -/
def assignResult (result : Message) (memory : Int32) : Message → Message
  | .executor connection => .executor connection
  | .client obj =>
    match result with
    | .executor _ => .client (obj.moveConstruct memory)
    | .client this => .client (this.moveAssign obj)

/-- `_handle_connections`, on the static variable. A client is moved into a new node of the map;
when its queue pair number is taken, the node is destroyed. -/
def handleConnections (manager : Manager) (nodeMemory : Int32) : Manager :=
  match manager.result with
  | .executor connection =>
    match manager.clients.lookup connection.privateData with
    | none => manager
    | some client =>
      match client.executor with
      | none => { manager with fault := true }
      | some executor =>
        manager.setClient connection.privateData
          { client with executor := some (executor.addExecutor connection) }
  | .client client =>
    match client.connection with
    | none => { manager with fault := true }
    | some connection =>
      { manager with
        clients := manager.clients.emplace connection.qpNum
          { client.moveConstruct nodeMemory with node := nodeMemory }
        result := .client client.movedFrom }

/-- `_handle_disconnections`. -/
def handleDisconnections (manager : Manager) (connection : Connection) : Manager :=
  manager.eraseClient connection.qpNum

/-- `_process_client`, on the client that `_clients` has under `qpNum`. The pid that `fork` returns
is that of a running process, also if an earlier process had it. The answer `false` asks the
caller to erase the client. -/
def processClient (manager : Manager) (qpNum : UInt32) (client : Client)
    (request : AllocationRequest) (chance : Chance) : Bool × Manager :=
  if 0 ≤ request.leaseId then
    let leased := { manager with
      leases := manager.leases.emplace request.leaseId ⟨request.leaseId, request.cores, 512⟩ }
    match leased.leases.lookup request.leaseId with
    | none =>
      (true, { leased with responses := leased.responses ++ [(client.serial, .unknown)] })
    | some lease =>
      let executor : ActiveExecutor := ⟨chance.pid, lease.cores, [], chance.now⟩
      (true, { leased.setClient qpNum
          { client with executor := some executor, served := some request.leaseId } with
        exited := leased.exited.filter (· ≠ chance.pid)
        responses := leased.responses ++ [(client.serial, .allocated)] })
  else (false, manager.disable qpNum client chance.now)

/-- `_handle_client_message`. -/
def handleClientMessage (manager : Manager) (completion : WorkCompletion) (chance : Chance) :
    Manager :=
  match manager.clients.lookup completion.qpNum with
  | none => manager
  | some client =>
    if completion.success then
      match manager.processClient completion.qpNum client completion.request chance with
      | (true, next) => next
      | (false, next) => next.eraseClient completion.qpNum
    else manager

/-- `_handle_res_mgr_message`. -/
def handleResMgrMessage (manager : Manager) (lease : Lease) : Manager :=
  { manager with leases := manager.leases.emplace lease.id lease }

/-- One round of `_check_executors`: the client is disabled when its process no longer runs. The
executor is dropped first, so `disable` neither charges again nor kills. -/
def checkExecutor (now : Int) (checked : Manager × List UInt32) (qpNum : UInt32) :
    Manager × List UInt32 :=
  match checked.1.clients.lookup qpNum with
  | none => checked
  | some client =>
    if client.active then
      match client.executor with
      | none => checked
      | some executor =>
        if executor.pid ∈ checked.1.exited then
          (checked.1.disable qpNum
            { client.chargeAllocation executor now with executor := none } now,
            checked.2 ++ [qpNum])
        else checked
    else checked

/-- `_check_executors`, and the erasure of the removals that follows it. -/
def checkExecutors (manager : Manager) (now : Int) : Manager :=
  let (checked, removals) :=
    manager.clients.keys.foldl (checkExecutor now) (manager, [])
  removals.foldl eraseClient checked

/-- `_clients.clear()`. -/
def clearClients (manager : Manager) : Manager :=
  manager.clients.keys.foldl eraseClient manager

/-! ### The loops -/

/-- The next step of the manager thread. -/
def threadStep (manager : Manager) (chance : Chance) : Manager :=
  match manager.phase with
  | .pollTop =>
    if manager.shutdown then { manager.clearClients with phase := .stopped }
    else { manager with phase := .pollQueue }
  | .pollQueue =>
    match manager.clientQueue with
    | [] =>
      { manager with
        phase := .pollMessages (manager.completions.take pollSize)
        completions := manager.completions.drop pollSize }
    | .connect message :: rest =>
      { manager with
        clientQueue := rest
        result := assignResult manager.result chance.resultMemory message }.handleConnections
        chance.nodeMemory
    | .disconnect connection :: rest =>
      { manager with clientQueue := rest, result := .executor connection }.handleDisconnections
        connection
  | .pollMessages [] => { manager with phase := .pollCheck }
  | .pollMessages (completion :: rest) =>
    { manager with phase := .pollMessages rest }.handleClientMessage completion chance
  | .pollCheck => { manager with phase := .pollTop }.checkExecutors chance.now
  | .sleepTop =>
    if manager.shutdown then { manager with phase := .stopped }
    else if chance.ready = [] then { manager with phase := .sleepQueue none }
    else { manager with phase := .sleepEvents chance.ready }
  | .sleepEvents [] => { manager with phase := .sleepDisconnections }
  | .sleepEvents (.clients :: rest) => { manager with phase := .sleepQueue (some rest) }
  | .sleepEvents (.resourceManager :: rest) =>
    { manager with
      phase := .sleepLeases (manager.leaseMessages.take pollSize) rest
      leaseMessages := manager.leaseMessages.drop pollSize }
  | .sleepQueue resume =>
    match manager.clientQueue with
    | [] =>
      match resume with
      | none => { manager with phase := .sleepDisconnections }
      | some ready =>
        { manager with
          phase := .sleepMessages (manager.completions.take pollSize) ready
          completions := manager.completions.drop pollSize }
    | .connect message :: rest =>
      { manager with
        clientQueue := rest
        result := assignResult manager.result chance.resultMemory message }.handleConnections
        chance.nodeMemory
    | .disconnect connection :: rest =>
      { manager with
        clientQueue := rest
        result := .executor connection
        disconnections := manager.disconnections ++ [connection] }
  | .sleepMessages [] ready => { manager with phase := .sleepEvents ready }
  | .sleepMessages (completion :: rest) ready =>
    { manager with phase := .sleepMessages rest ready }.handleClientMessage completion chance
  | .sleepLeases [] ready => { manager with phase := .sleepEvents ready }
  | .sleepLeases (lease :: rest) ready =>
    { manager with phase := .sleepLeases rest ready }.handleResMgrMessage lease
  | .sleepDisconnections =>
    match manager.disconnections with
    | [] => { manager with phase := .sleepTop }
    | connection :: rest =>
      { manager with disconnections := rest }.handleDisconnections connection
  | .stopped => manager

/-- Executors add to the accounting words of their client. -/
def account (manager : Manager) (qpNum : UInt32) (hotPollingTime executionTime : UInt64) :
    Manager :=
  match manager.clients.lookup qpNum with
  | none => manager
  | some client =>
    manager.setClient qpNum { client with accounting :=
      ⟨client.accounting.hotPollingTime + hotPollingTime,
        client.accounting.executionTime + executionTime⟩ }

/-- One event. Nothing happens after a fault. -/
def step (manager : Manager) (event : Event) : Manager :=
  if manager.fault then manager
  else
    match event with
    | .requested connection temporaryMemory queueMemory =>
      manager.requested connection temporaryMemory queueMemory
    | .disconnected connection => manager.disconnected connection
    | .message completion => { manager with completions := manager.completions ++ [completion] }
    | .leaseAllocation lease => { manager with leaseMessages := manager.leaseMessages ++ [lease] }
    | .account qpNum hotPollingTime executionTime =>
      manager.account qpNum hotPollingTime executionTime
    | .exit pid => { manager with exited := pid :: manager.exited }
    | .shutdown => { manager with shutdown := true }
    | .thread chance => manager.threadStep chance

/-! ### Small facts about the handlers -/

theorem eraseClient_of_found {manager : Manager} {qpNum : UInt32} {client : Client}
    (found : manager.clients.lookup qpNum = some client) :
    manager.eraseClient qpNum =
      { manager with
        clients := manager.clients.erase qpNum
        removed := manager.removed ++ [client] } := by
  simp only [eraseClient, found]

theorem eraseClient_of_absent {manager : Manager} {qpNum : UInt32}
    (absent : manager.clients.lookup qpNum = none) : manager.eraseClient qpNum = manager := by
  simp only [eraseClient, absent]

variable (manager : Manager)

theorem lookup_eraseClient (qpNum other : UInt32) :
    (manager.eraseClient qpNum).clients.lookup other =
      if other = qpNum then none else manager.clients.lookup other := by
  cases found : manager.clients.lookup qpNum with
  | none =>
    rw [eraseClient_of_absent found]
    split
    · rename_i same
      rw [same, found]
    · rfl
  | some client =>
    rw [eraseClient_of_found found]
    exact Table.lookup_erase_eq qpNum other manager.clients

/-- Erasing clients changes nothing but `_clients` and the record of it. -/
theorem eraseAll_same (keys : List UInt32) :
    ∃ clients removed,
      keys.foldl eraseClient manager = { manager with clients := clients, removed := removed } := by
  induction keys generalizing manager with
  | nil => exact ⟨manager.clients, manager.removed, rfl⟩
  | cons qpNum rest inductionHypothesis =>
    obtain ⟨clients, removed, later⟩ := inductionHypothesis (manager.eraseClient qpNum)
    refine ⟨clients, removed, later.trans ?_⟩
    unfold eraseClient
    split <;> rfl

theorem eraseAll_queue (keys : List UInt32) :
    (keys.foldl eraseClient manager).clientQueue = manager.clientQueue := by
  obtain ⟨_, _, same⟩ := eraseAll_same manager keys
  rw [same]

theorem lookup_eraseAll (keys : List UInt32) (other : UInt32) :
    (keys.foldl eraseClient manager).clients.lookup other =
      if other ∈ keys then none else manager.clients.lookup other := by
  induction keys generalizing manager with
  | nil => rfl
  | cons qpNum rest inductionHypothesis =>
    rw [List.foldl_cons, inductionHypothesis, lookup_eraseClient]
    by_cases same : other = qpNum <;> by_cases later : other ∈ rest <;> simp [same, later]

theorem assignResult_client (result : Message) (memory : Int32) (obj : Client) :
    ∃ id, assignResult result memory (.client obj) = .client { obj with id := id } := by
  cases result with
  | executor => exact ⟨memory, rfl⟩
  | client this => exact ⟨this.id, rfl⟩

/-! ### The rules of the manager thread -/

/-- `_process_client` takes a request with a negative id for the final message of a client. -/
theorem processClient_eq_false_iff (qpNum : UInt32) (client : Client)
    (request : AllocationRequest) (chance : Chance) :
    (manager.processClient qpNum client request chance).1 = false ↔ ¬ 0 ≤ request.leaseId := by
  unfold processClient
  split
  · rename_i lease
    refine iff_of_false ?_ (not_not_intro lease)
    dsimp only
    split <;> exact Bool.noConfusion
  · rename_i lease
    exact iff_of_true rfl lease

/-- What the handler of a client's message can do: ignore the message, answer that the lease is
unknown, serve the lease, or disable and erase the client. -/
theorem handleClientMessage_rule {property : Manager → Prop} (manager : Manager)
    (completion : WorkCompletion) (chance : Chance) (ignores : property manager)
    (refuses : ∀ leases responses,
      property { manager with leases := leases, responses := responses })
    (serves : ∀ client executor leases exited responses,
      manager.clients.lookup completion.qpNum = some client →
      property { manager.setClient completion.qpNum
          { client with
            executor := some executor
            served := some completion.request.leaseId } with
        leases := leases
        exited := exited
        responses := responses })
    (leaves : ∀ client, manager.clients.lookup completion.qpNum = some client →
      completion.Final → property ((manager.disable completion.qpNum client chance.now).eraseClient
        completion.qpNum)) :
    property (manager.handleClientMessage completion chance) := by
  unfold handleClientMessage
  split
  · exact ignores
  · rename_i client found
    split
    · rename_i success
      by_cases lease : 0 ≤ completion.request.leaseId
      · simp only [processClient, if_pos lease]
        split <;> rename_i same <;> split at same <;> cases same
        · exact refuses _ _
        · exact serves client _ _ _ _ found
      · simp only [processClient, if_neg lease]
        exact leaves client found ⟨success, lease⟩
    · exact ignores

/-- The clients that the manager thread, in a given phase, takes out of `_clients` without
disabling them: those of ended connections, and all of them when the polling loop ends. -/
def droppedIn (manager : Manager) : Phase → List UInt32
  | .pollTop => if manager.shutdown then manager.clients.keys else []
  | .pollQueue =>
    match manager.clientQueue with
    | .disconnect connection :: _ => [connection.qpNum]
    | _ => []
  | .sleepDisconnections =>
    match manager.disconnections with
    | connection :: _ => [connection.qpNum]
    | [] => []
  | _ => []

/-- What a step leaves of the place in the loop: the messages that wait, polled or not, stay in
their order, they are polled only when the queue is empty, and the sleeping loop goes on. -/
structure Moves (manager : Manager) (phase : Phase) (completions : List WorkCompletion) : Prop where
  total : phase.batch ++ completions = manager.phase.batch ++ manager.completions
  polled : phase.batch = manager.phase.batch ∨ manager.clientQueue = []
  sleeps : manager.phase.sleeps → phase.sleeps

theorem Moves.refl : manager.Moves manager.phase manager.completions :=
  ⟨rfl, Or.inl rfl, id⟩

/-- What a step of the manager thread can do. A property of the state after the step and of the
clients dropped by it holds if it holds in each of these cases. -/
theorem threadStep_rule {property : Manager → List UInt32 → Prop} (manager : Manager)
    (chance : Chance)
    (moves : ∀ phase disconnections completions leaseMessages,
      manager.Moves phase completions ∧ phase.announcements ++ leaseMessages =
        manager.phase.announcements ++ manager.leaseMessages →
      property { manager with
        phase := phase
        disconnections := disconnections
        completions := completions
        leaseMessages := leaseMessages } [])
    (connects : ∀ message rest, manager.clientQueue = .connect message :: rest →
      property ({ manager with
        clientQueue := rest
        result := assignResult manager.result chance.resultMemory message }.handleConnections
        chance.nodeMemory) [])
    (defers : ∀ connection rest, manager.clientQueue = .disconnect connection :: rest →
      property { manager with
        clientQueue := rest
        result := .executor connection
        disconnections := manager.disconnections ++ [connection] } [])
    (disconnects : ∀ connection rest, manager.clientQueue = .disconnect connection :: rest →
      property ({ manager with
        clientQueue := rest, result := .executor connection }.handleDisconnections connection)
        [connection.qpNum])
    (disconnectsLate : ∀ connection rest, manager.disconnections = connection :: rest →
      property ({ manager with disconnections := rest }.handleDisconnections connection)
        [connection.qpNum])
    (answers : ∀ phase completion, manager.phase.batch = completion :: phase.batch →
      (manager.phase.sleeps → phase.sleeps) →
      property ({ manager with phase := phase }.handleClientMessage completion chance) [])
    (learns : ∀ phase lease, manager.Moves phase manager.completions ∧
      manager.phase.announcements = lease :: phase.announcements →
      property ({ manager with phase := phase }.handleResMgrMessage lease) [])
    (checks : manager.phase = .pollCheck →
      property ({ manager with phase := .pollTop }.checkExecutors chance.now) [])
    (clears : manager.phase = .pollTop →
      property { manager.clearClients with phase := .stopped } manager.clients.keys) :
    property (manager.threadStep chance) (manager.droppedIn manager.phase) := by
  have same : ∀ next : Phase, next.batch = manager.phase.batch →
      (manager.phase.sleeps → next.sleeps) → manager.Moves next manager.completions :=
    fun next batch sleeps => ⟨by rw [batch], Or.inl batch, sleeps⟩
  have polls : ∀ next : Phase, manager.clientQueue = [] → manager.phase.batch = [] →
      next.batch = manager.completions.take pollSize → (manager.phase.sleeps → next.sleeps) →
      manager.Moves next (manager.completions.drop pollSize) := by
    intro next empty none taken sleeps
    refine ⟨?_, Or.inr empty, sleeps⟩
    rw [taken, none, List.take_append_drop, List.nil_append]
  unfold threadStep
  split <;> rename_i phase <;> rw [congrArg manager.droppedIn phase] <;>
    rw [phase] at same polls moves answers learns
  · -- `pollTop`
    unfold droppedIn
    split
    · exact clears phase
    · exact moves .pollQueue _ _ _ ⟨same _ rfl id, rfl⟩
  · -- `pollQueue`
    split
    · rename_i head
      have none : manager.droppedIn .pollQueue = [] := by simp only [droppedIn, head]
      rw [none]
      exact moves _ _ _ _ ⟨polls _ head rfl rfl id, rfl⟩
    · rename_i message rest head
      have none : manager.droppedIn .pollQueue = [] := by simp only [droppedIn, head]
      rw [none]
      exact connects message rest head
    · rename_i connection rest head
      have one : manager.droppedIn .pollQueue = [connection.qpNum] := by
        simp only [droppedIn, head]
      rw [one]
      exact disconnects connection rest head
  · exact moves .pollCheck _ _ _ ⟨same _ rfl id, rfl⟩
  · exact answers _ _ rfl id
  · exact checks phase
  · -- `sleepTop`
    split
    · exact moves .stopped _ _ _ ⟨same _ rfl fun _ => rfl, rfl⟩
    · split
      · exact moves (.sleepQueue none) _ _ _ ⟨same _ rfl fun _ => rfl, rfl⟩
      · exact moves (.sleepEvents chance.ready) _ _ _ ⟨same _ rfl fun _ => rfl, rfl⟩
  · exact moves .sleepDisconnections _ _ _ ⟨same _ rfl fun _ => rfl, rfl⟩
  · exact moves _ _ _ _ ⟨same _ rfl fun _ => rfl, rfl⟩
  · exact moves _ _ _ _ ⟨same _ rfl fun _ => rfl, List.take_append_drop _ _⟩
  · -- `sleepQueue`
    split
    · rename_i head
      split
      · exact moves .sleepDisconnections _ _ _ ⟨same _ rfl fun _ => rfl, rfl⟩
      · exact moves _ _ _ _ ⟨polls _ head rfl rfl fun _ => rfl, rfl⟩
    · rename_i message rest head
      exact connects message rest head
    · rename_i connection rest head
      exact defers connection rest head
  · exact moves _ _ _ _ ⟨same _ rfl fun _ => rfl, rfl⟩
  · exact answers _ _ rfl fun _ => rfl
  · exact moves _ _ _ _ ⟨same _ rfl fun _ => rfl, rfl⟩
  · exact learns _ _ ⟨same _ rfl fun _ => rfl, rfl⟩
  · -- `sleepDisconnections`
    split
    · rename_i ended
      have none : manager.droppedIn .sleepDisconnections = [] := by simp only [droppedIn, ended]
      rw [none]
      exact moves .sleepTop _ _ _ ⟨same _ rfl fun _ => rfl, rfl⟩
    · rename_i connection rest ended
      have one : manager.droppedIn .sleepDisconnections = [connection.qpNum] := by
        simp only [droppedIn, ended]
      rw [one]
      exact disconnectsLate connection rest ended
  · exact moves _ _ _ _ ⟨.refl manager, by rw [phase]⟩

end Manager

end ExecutorManager

end RFaaS
