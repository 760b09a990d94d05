/-
This file models the clients of the resource manager
(`server/resource_manager/manager.cpp`, `client.cpp`): the listener that turns
connection events into entries of a queue, the handlers of connections,
disconnections and messages, and the two loops that run them, `process_clients`
and `process_events_sleep`.

The handler of a message stores pointers to clients in `poll_send`, and both
loops follow these pointers later on. A pointer into a map is the number of the
element it refers to: an element keeps its number as long as it is in the map,
also when another client is assigned to it. What a pointer that is followed
refers to is left to the properties; the loops go on in any case.

The threads for executors and the HTTP server act through the event `store`. The
number of clients, which only decides whether the queue is waited for, the list
`removals`, which nothing is ever added to, and the confirmation of a connection,
on which the listener closes clients with an unknown key, are left out.
-/

import RFaaS.Credits

namespace RFaaS

namespace ResourceManager

/-- `resource_manager::Client`. The connection is null in a client that was moved from or
disabled. -/
structure Client where
  connection : Option Connection
  clientId : Int
  deriving DecidableEq

/-- An element of `_clients`. -/
structure Element where
  node : Nat
  client : Client
  deriving DecidableEq

/-- An entry of `_client_queue`. -/
inductive Operation
  | connect (client : Client)
  | disconnect (connection : Connection)
  deriving DecidableEq

/-- A work completion on the shared receive queue, with the request in its slot. -/
structure WorkCompletion where
  qpNum : UInt32
  success : Bool
  request : LeaseRequest

/-- The two channels of the sleeping loop. -/
inductive Channel
  | clients
  | executors

/-- Where the thread is in its loop. -/
inductive Phase
  | pollTop
  | pollQueue
  | pollMessages (rest : List WorkCompletion)
  | pollSends (rest : List Nat)
  | sleepTop
  | sleepEvents (rest : List Channel)
  | sleepQueue (resume : Option (List Channel))
  | sleepMessages (rest : List WorkCompletion) (ready : List Channel)
  | sleepSends (rest : List Nat)
  | stopped

/-- The two loops that handle clients. -/
inductive Loop
  | processClients
  | processEventsSleep

/-- `resource_manager::Manager`, as far as it handles clients. `fault` is set when a null pointer is
used. The last six fields are ghosts: the answers to clients, the connections that were accepted,
the number of elements made, the elements erased, the connections deleted, and those among them that
were deleted after the final message of their client. -/
structure Manager where
  clientQueue : List Operation
  clients : Table UInt32 Element
  clientId : Int
  executorData : ExecutorDB
  shutdown : Bool
  phase : Phase
  pollSend : List Nat
  completions : List WorkCompletion
  fault : Bool
  answers : List (UInt32 × Option (ExecutorRef × LeaseResponse))
  accepted : List Connection
  nodes : Nat
  removed : List Nat
  deleted : List Connection
  finished : List Connection

/-- The events of the system; `ready` are the channels that `epoll` reports. -/
inductive Event
  | requested (connection : Connection)
  | disconnected (connection : Connection)
  | message (completion : WorkCompletion)
  | store (op : StoreOp)
  | shutdown
  | thread (ready : List Channel)

namespace Manager

def start (loop : Loop) : Manager where
  clientQueue := []
  clients := ∅
  clientId := 0
  executorData := .empty
  shutdown := false
  phase := match loop with
    | .processClients => .pollTop
    | .processEventsSleep => .sleepTop
  pollSend := []
  completions := []
  fault := false
  answers := []
  accepted := []
  nodes := 0
  removed := []
  deleted := []
  finished := []

/-! ### The listener -/

/-- `listen_rdma`, on the request of a client. -/
def requested (manager : Manager) (connection : Connection) : Manager :=
  { manager with
    clientQueue := manager.clientQueue ++ [.connect ⟨some connection, manager.clientId⟩]
    clientId := manager.clientId + 1
    accepted := connection :: manager.accepted }

/-- `listen_rdma`, on the end of a client's connection. -/
def disconnected (manager : Manager) (connection : Connection) : Manager :=
  { manager with clientQueue := manager.clientQueue ++ [.disconnect connection] }

/-! ### The handlers -/

/-- `_handle_client_connection`. `insert_or_assign` makes a new element, or moves the client into
the one that is there; the connection that was in it is lost. -/
def handleClientConnection (manager : Manager) (client : Client) : Manager :=
  match client.connection with
  | none => { manager with fault := true }
  | some connection =>
    match manager.clients.lookup connection.qpNum with
    | none =>
      { manager with
        clients := manager.clients.insert connection.qpNum ⟨manager.nodes, client⟩
        nodes := manager.nodes + 1 }
    | some element =>
      { manager with
        clients := manager.clients.insert connection.qpNum ⟨element.node, client⟩ }

/-- `_clients.erase(it)` with the destructor of the client. -/
def eraseClient (manager : Manager) (qpNum : UInt32) (element : Element) : Manager :=
  { manager with
    clients := manager.clients.erase qpNum
    removed := manager.removed ++ [element.node]
    deleted := manager.deleted ++ element.client.connection.toList }

/-- `_handle_client_disconnection`. The log line behind the erasure reads the id from the element
that was erased. -/
def handleClientDisconnection (manager : Manager) (connection : Connection) : Manager :=
  let unregistered := { manager with
    executorData := manager.executorData.step (.removeExecutor connection.qpNum) }
  match unregistered.clients.lookup connection.qpNum with
  | none => unregistered
  | some element => unregistered.eraseClient connection.qpNum element

/-- `_handle_client_message`. A request is answered, and the client is stored to be polled later; a
final message disables and erases the client. -/
def handleClientMessage (manager : Manager) (completion : WorkCompletion) : Manager :=
  if completion.success then
    match manager.clients.lookup completion.qpNum with
    | none => manager
    | some element =>
      match element.client.connection with
      | none => { manager with fault := true }
      | some connection =>
        if 0 < completion.request.cores then
          let opened :=
            manager.executorData.openLease completion.request.cores completion.request.memory
          { manager with
            executorData := opened.2
            answers := manager.answers ++ [(completion.qpNum, opened.1)]
            pollSend := manager.pollSend ++ [element.node] }
        else
          { manager.eraseClient completion.qpNum element with
            finished := manager.finished ++ [connection] }
  else manager

/-! ### The loops -/

/-- An entry is taken from the queue. -/
def handleOperation (manager : Manager) : Operation → Manager
  | .connect client => manager.handleClientConnection client
  | .disconnect connection => manager.handleClientDisconnection connection

/-- The next step of the thread. -/
def threadStep (manager : Manager) (ready : List Channel) : Manager :=
  match manager.phase with
  | .pollTop => { manager with phase := if manager.shutdown then .stopped else .pollQueue }
  | .pollQueue =>
    match manager.clientQueue with
    | [] =>
      { manager with
        phase := .pollMessages (manager.completions.take ExecutorManager.Manager.pollSize)
        completions := manager.completions.drop ExecutorManager.Manager.pollSize }
    | operation :: rest => { manager with clientQueue := rest }.handleOperation operation
  | .pollMessages [] => { manager with phase := .pollSends manager.pollSend }
  | .pollMessages (completion :: rest) =>
    { manager with phase := .pollMessages rest }.handleClientMessage completion
  | .pollSends [] => { manager with phase := .pollTop, pollSend := [] }
  | .pollSends (_ :: rest) => { manager with phase := .pollSends rest }
  | .sleepTop => { manager with phase := if manager.shutdown then .stopped else .sleepEvents ready }
  -- All channels are done. The queue is emptied once more, and only then the clients are polled.
  | .sleepEvents [] => { manager with phase := .sleepQueue none }
  | .sleepEvents (.clients :: rest) => { manager with phase := .sleepQueue (some rest) }
  | .sleepEvents (.executors :: rest) => { manager with phase := .sleepEvents rest }
  | .sleepQueue resume =>
    match manager.clientQueue with
    | [] =>
      match resume with
      | none => { manager with phase := .sleepSends manager.pollSend }
      | some rest =>
        { manager with
          phase :=
            .sleepMessages (manager.completions.take ExecutorManager.Manager.pollSize) rest
          completions := manager.completions.drop ExecutorManager.Manager.pollSize }
    | operation :: rest => { manager with clientQueue := rest }.handleOperation operation
  | .sleepMessages [] rest => { manager with phase := .sleepEvents rest }
  | .sleepMessages (completion :: rest) later =>
    { manager with phase := .sleepMessages rest later }.handleClientMessage completion
  | .sleepSends [] => { manager with phase := .sleepTop, pollSend := [] }
  | .sleepSends (_ :: rest) => { manager with phase := .sleepSends rest }
  | .stopped => manager

/-- One event. Nothing happens after a fault. -/
def step (manager : Manager) (event : Event) : Manager :=
  if manager.fault then manager
  else
    match event with
    | .requested connection => manager.requested connection
    | .disconnected connection => manager.disconnected connection
    | .message completion => { manager with completions := manager.completions ++ [completion] }
    | .store op => { manager with executorData := manager.executorData.step op }
    | .shutdown => { manager with shutdown := true }
    | .thread ready => manager.threadStep ready

/-- The pointer that the thread follows in its next step. -/
def polledIn (manager : Manager) : Option Nat :=
  match manager.phase with
  | .pollSends (pointer :: _) | .sleepSends (pointer :: _) => some pointer
  | _ => none

/-- The connection whose end the thread handles in its next step. -/
def endedIn (manager : Manager) : Option Connection :=
  match manager.phase, manager.clientQueue with
  | .pollQueue, .disconnect connection :: _ => some connection
  | .sleepQueue _, .disconnect connection :: _ => some connection
  | _, _ => none

/-- The message that the thread handles in its next step. -/
def messageIn (manager : Manager) : Option WorkCompletion :=
  match manager.phase with
  | .pollMessages (completion :: _) | .sleepMessages (completion :: _) _ => some completion
  | _ => none

end Manager

/-! ### What the thread does -/

/-- The pointers that are followed from here on. -/
def Phase.followed : Phase → List Nat
  | .pollSends rest | .sleepSends rest => rest
  | _ => []

namespace Manager

/-- A turn of the thread: it goes on in its loop, where it follows the pointers in `poll_send` one
after the other, or handles an entry of the queue or a message. -/
inductive Turns (manager : Manager) : Manager → Prop
  | goes {phase : Phase} {completions : List WorkCompletion}
      (follows : phase.followed = [] ∨ phase.followed = manager.pollSend ∨
        phase.followed = manager.phase.followed.tail) :
      Turns manager { manager with phase := phase, completions := completions }
  | clears {phase : Phase} (idle : phase.followed = []) :
      Turns manager { manager with phase := phase, pollSend := [] }
  | takes {operation : Operation} {rest : List Operation} {phase : Phase}
      (head : manager.clientQueue = operation :: rest)
      (turn : ∀ connection, operation = .disconnect connection →
        manager.endedIn = some connection)
      (idle : phase.followed = []) :
      Turns manager
        ({ manager with clientQueue := rest, phase := phase }.handleOperation operation)
  | hears {completion : WorkCompletion} {phase : Phase}
      (turn : manager.messageIn = some completion) (idle : phase.followed = []) :
      Turns manager ({ manager with phase := phase }.handleClientMessage completion)

/-- The thread goes on when the queue is empty. -/
theorem Turns.drained {manager : Manager} {phase : Phase} {completions : List WorkCompletion}
    (empty : manager.clientQueue = [])
    (follows : phase.followed = [] ∨ phase.followed = manager.pollSend ∨
      phase.followed = manager.phase.followed.tail) :
    Turns manager
      { manager with clientQueue := [], phase := phase, completions := completions } := by
  rw [← empty]
  exact .goes follows

theorem threadStep_turns (manager : Manager) (ready : List Channel) :
    Turns manager (manager.threadStep ready) := by
  unfold threadStep
  cases current : manager.phase with
  | pollTop | sleepTop =>
    refine .goes (Or.inl ?_)
    cases manager.shutdown <;> rfl
  | pollQueue =>
    dsimp only
    cases head : manager.clientQueue with
    | nil => exact .drained head (Or.inl rfl)
    | cons operation rest =>
      refine .takes head (fun connection same => ?_) rfl
      rw [endedIn, current, head, same]
  | pollMessages rest =>
    cases rest with
    | nil => exact .goes (Or.inr (Or.inl rfl))
    | cons completion rest => exact .hears (by rw [messageIn, current]) rfl
  | pollSends rest | sleepSends rest =>
    cases rest with
    | nil => exact .clears rfl
    | cons pointer rest =>
      refine .goes (Or.inr (Or.inr ?_))
      rw [current]
      rfl
  | sleepEvents rest =>
    cases rest with
    | nil => exact .goes (Or.inl rfl)
    | cons channel rest => cases channel <;> exact .goes (Or.inl rfl)
  | sleepQueue resume =>
    dsimp only
    cases head : manager.clientQueue with
    | nil =>
      cases resume with
      | none => exact .drained head (Or.inr (Or.inl rfl))
      | some rest => exact .drained head (Or.inl rfl)
    | cons operation rest =>
      refine .takes head (fun connection same => ?_) rfl
      rw [endedIn, current, head, same]
  | sleepMessages rest later =>
    cases rest with
    | nil => exact .goes (Or.inl rfl)
    | cons completion rest => exact .hears (by rw [messageIn, current]) rfl
  | stopped =>
    refine .goes (Or.inl ?_)
    rw [current]
    rfl

/-- The thread handles messages and entries of the queue where it is in its loop. -/
@[simp] theorem handleOperation_phase (manager : Manager) (operation : Operation) :
    (manager.handleOperation operation).phase = manager.phase := by
  cases operation with
  | connect client =>
    simp only [handleOperation, handleClientConnection]
    split
    · rfl
    · split <;> rfl
  | disconnect =>
    simp only [handleOperation, handleClientDisconnection]
    split <;> rfl

@[simp] theorem handleClientMessage_phase (manager : Manager) (completion : WorkCompletion) :
    (manager.handleClientMessage completion).phase = manager.phase := by
  unfold handleClientMessage
  split
  · split
    · rfl
    · split
      · rfl
      · split <;> rfl
  · rfl

end Manager

end ResourceManager

end RFaaS
