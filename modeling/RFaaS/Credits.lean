/-
This file is about the count of receives (`RecvWorkCompletions::_requests`) on
the connections of the two managers. Their messages come out of one shared
completion queue, are polled in batches, and every handler counts one receive
down and refills by hand: `_handle_message` and `_handle_client_message` of the
resource manager and `_process_client` of the executor manager
(`server/resource_manager/manager.cpp`, `server/executor_manager/manager.cpp`).

The first half is about any handler: a desk has connections, a completion queue
and a handler that counts on what it finds under a queue pair number. The count
is right all along a run exactly if every handler finds the connection that its
message came from. The second half gives the three handlers.
-/

import RFaaS.ExecutorDB
import RFaaS.ExecutorManager
import RFaaS.RecvQueue
import RFaaS.Slots
import Mathlib.Data.List.Count

namespace RFaaS

open Transition Function List ExecutorManager

/-! ### Connections and a handler -/

/-- What a handler does with a message: the connection on which it counts, whether the connection
of the message ends, and the server afterwards. -/
structure Handled (Server : Type) where
  credits : Option Connection
  ends : Bool
  server : Server

/-- A message with the connection it came from. The handler sees the queue pair number only. -/
structure Delivery (Message : Type) where
  connection : Connection
  message : Message

/-- A thread of a manager with its connections. `known` are all connections there ever were and
`served` those that have not ended. -/
structure Desk (Server Message : Type) where
  server : Server
  ports : Connection → Port
  known : List Connection
  served : List Connection
  completions : List (Delivery Message)
  polled : List (Delivery Message)

/-- What can happen at a desk; `Op` are the other operations on the server. -/
inductive DeskEvent (Op Message : Type)
  /-- The listener accepts a connection and posts its receives. -/
  | accept (connection : Connection)
  | close (connection : Connection)
  | operate (op : Op)
  | arrive (connection : Connection) (message : Message)
  | poll (count : Nat)
  | handle

namespace Desk

variable {Server Op Message : Type}

def start (size : Nat) (server : Server) : Desk Server Message where
  server := server
  ports := fun _ => Port.closed size
  known := []
  served := []
  completions := []
  polled := []

/-- How a desk is run: the size of the receive queues, the buffer and the stride of their
receives, the operations and the handler. `finds` is whether there is an object under a queue pair
number, and the connection of the object; `final` are the messages that end their connection. -/
structure Setup (Server Op Message : Type) where
  size : Nat
  buffer : Buffer
  stride : Option Nat
  operate : Server → Op → Server
  handler : Server → UInt32 → Message → Handled Server
  finds : Server → UInt32 → Option (Option Connection)
  final : Message → Bool
  counts : ∀ server qpNum message, (handler server qpNum message).credits =
    if final message then none else (finds server qpNum).join
  ends : ∀ server qpNum message, (handler server qpNum message).ends =
    (final message && (finds server qpNum).isSome)

/-- The handler runs for the oldest completion that was polled. -/
def handle (setup : Setup Server Op Message) (desk : Desk Server Message) : Desk Server Message :=
  match desk.polled with
  | [] => desk
  | delivery :: rest =>
    let handled := setup.handler desk.server delivery.connection.qpNum delivery.message
    { desk with
      server := handled.server
      ports := match handled.credits with
        | none => desk.ports
        | some connection =>
          update desk.ports connection (desk.ports connection).credit
      served := if handled.ends then desk.served.filter (· ≠ delivery.connection) else desk.served
      polled := rest }

/-- A message on a connection. If no receive is posted, it stays with its sender. -/
def arrive (desk : Desk Server Message) (connection : Connection) (message : Message) :
    Desk Server Message :=
  let port := desk.ports connection
  if connection ∉ desk.known ∨ port.posted = 0 then desk
  else
    { desk with
      ports := update desk.ports connection port.arrive
      completions := desk.completions ++ [⟨connection, message⟩] }

def step (setup : Setup Server Op Message) (desk : Desk Server Message) :
    DeskEvent Op Message → Desk Server Message
  | .accept connection =>
    if connection ∈ desk.known then desk
    else
      { desk with
        ports := update desk.ports connection
          (Port.open_ setup.size setup.buffer setup.stride)
        known := connection :: desk.known
        served := connection :: desk.served }
  | .close connection => { desk with served := desk.served.filter (· ≠ connection) }
  | .operate op => { desk with server := setup.operate desk.server op }
  | .arrive connection message => desk.arrive connection message
  | .poll count =>
    { desk with
      completions := desk.completions.drop (min count Endpoint.pollSize)
      polled := desk.polled ++ desk.completions.take (min count Endpoint.pollSize) }
  | .handle => desk.handle setup

/-- The number of completions of a connection that no handler has run for. -/
def unhandled (desk : Desk Server Message) (connection : Connection) : Nat :=
  ((desk.polled ++ desk.completions).map Delivery.connection).count connection

/-- On every connection the count is the number of receives that are posted or have a completion
that is not handled. It is at most the size, and at least the refill threshold. -/
def Credited (size : Nat) (desk : Desk Server Message) : Prop :=
  ∀ connection ∈ desk.served, (desk.ports connection).Counts size (desk.unhandled connection)

/-- The handler that runs next finds an object under the queue pair number of its message, and
unless the message is final, the object has the connection of the message. For a message whose
connection has ended, it finds no connection that has not. -/
def Attributed (setup : Setup Server Op Message) (desk : Desk Server Message) :
    DeskEvent Op Message → Prop
  | .handle => ∀ delivery ∈ desk.polled.head?, ∀ connection ∈ desk.served,
    match setup.finds desk.server delivery.connection.qpNum with
    | none => connection ≠ delivery.connection
    | some found => setup.final delivery.message = true ∨
      (found = some connection ↔ connection = delivery.connection)
  | _ => True

/-! ### The count is right -/

/-- What every event keeps. -/
structure Sound (size : Nat) (desk : Desk Server Message) : Prop where
  sized : ∀ connection, (desk.ports connection).queue.Sized size
  unknown : ∀ connection, connection ∉ desk.known → desk.unhandled connection = 0
  served : ∀ connection ∈ desk.served, connection ∈ desk.known

variable {setup : Setup Server Op Message} {desk : Desk Server Message}

theorem start_sound (size : Nat) (server : Server) :
    (start size server : Desk Server Message).Sound size where
  sized := fun _ => Port.closed_sized size
  unknown := fun _ _ => rfl
  served := fun _ member => nomatch member

theorem handle_idle (none : desk.polled = []) : desk.handle setup = desk := by
  unfold handle
  rw [none]

/-- No message can be received on the connection. -/
def Shut (desk : Desk Server Message) (connection : Connection) : Prop :=
  connection ∉ desk.known ∨ (desk.ports connection).posted = 0

theorem arrive_eq {connection : Connection} (receives : ¬desk.Shut connection) (message : Message) :
    desk.arrive connection message =
      { desk with
        ports := update desk.ports connection
          (desk.ports connection).arrive
        completions := desk.completions ++ [⟨connection, message⟩] } := if_neg receives

theorem unhandled_arrive (desk : Desk Server Message) {connection : Connection}
    (receives : ¬desk.Shut connection)
    (message : Message) (other : Connection) :
    (desk.arrive connection message).unhandled other =
      desk.unhandled other + if connection = other then 1 else 0 := by
  rw [arrive_eq receives]
  unfold unhandled
  dsimp only
  rw [← append_assoc, map_append, count_append, map_singleton,
    count_singleton]
  simp only [beq_iff_eq]

theorem unhandled_poll (desk : Desk Server Message) (count : Nat) (connection : Connection) :
    (desk.step setup (.poll count)).unhandled connection = desk.unhandled connection := by
  unfold step unhandled
  dsimp only
  rw [append_assoc, take_append_drop]

theorem unhandled_handle {delivery : Delivery Message} {rest : List (Delivery Message)}
    (next : desk.polled = delivery :: rest) (connection : Connection) :
    desk.unhandled connection = (desk.handle setup).unhandled connection +
      if delivery.connection = connection then 1 else 0 := by
  unfold handle unhandled
  rw [next, cons_append, map_cons, count_cons]
  simp only [beq_iff_eq]

theorem ports_handle {delivery : Delivery Message} {rest : List (Delivery Message)}
    (next : desk.polled = delivery :: rest) (connection : Connection) :
    (desk.handle setup).ports connection =
      if (setup.handler desk.server delivery.connection.qpNum delivery.message).credits =
        some connection then (desk.ports connection).credit else desk.ports connection := by
  unfold handle
  rw [next]
  dsimp only
  cases (setup.handler desk.server delivery.connection.qpNum delivery.message).credits with
  | none => rw [if_neg (Option.some_ne_none connection).symm]
  | some credited =>
    dsimp only
    by_cases same : credited = connection
    · rw [same, if_pos rfl, update_self]
    · rw [if_neg (fun equal => same (Option.some.inj equal)),
        update_of_ne (fun equal => same equal.symm)]

/-- The connection of a final message ends, if there is an object for it. -/
theorem mem_served_handle {delivery : Delivery Message} {rest : List (Delivery Message)}
    (next : desk.polled = delivery :: rest) {connection : Connection} :
    connection ∈ (desk.handle setup).served ↔ connection ∈ desk.served ∧
      (setup.final delivery.message = true →
        (setup.finds desk.server delivery.connection.qpNum).isSome = true →
        connection ≠ delivery.connection) := by
  unfold handle
  rw [next]
  dsimp only
  rw [setup.ends, ← and_imp, ← Bool.and_eq_true]
  split
  · rename_i ends
    rw [mem_filter, decide_eq_true_iff, forall_prop_of_true ends]
  · rename_i goesOn
    rw [forall_prop_of_false goesOn, and_true]

/-- By the connection on which the handler counts. -/
theorem attributed_iff {delivery : Delivery Message} {rest : List (Delivery Message)}
    (next : desk.polled = delivery :: rest) :
    desk.Attributed setup .handle ↔ ∀ connection ∈ (desk.handle setup).served,
      ((setup.handler desk.server delivery.connection.qpNum delivery.message).credits =
        some connection ↔ connection = delivery.connection) := by
  simp only [Attributed, next, head?_cons, Option.mem_some_iff, forall_eq',
    mem_served_handle next, setup.counts]
  refine forall_congr' fun connection => ?_
  cases setup.finds desk.server delivery.connection.qpNum <;>
    cases setup.final delivery.message <;> simp

/-- A step keeps the count right exactly if the handler counts on the right connection. -/
theorem credited_handle (sound : desk.Sound setup.size) (credited : desk.Credited setup.size) :
    (desk.handle setup).Credited setup.size ↔ desk.Attributed setup .handle := by
  cases next : desk.polled with
  | nil =>
    rw [handle_idle next]
    exact iff_of_true credited fun _ member => by rw [next] at member; cases member
  | cons delivery rest =>
    have exact_at (connection : Connection) (member : connection ∈ (desk.handle setup).served) :
        ((desk.handle setup).ports connection).Counts setup.size
            ((desk.handle setup).unhandled connection) ↔
          ((setup.handler desk.server delivery.connection.qpNum delivery.message).credits =
            some connection ↔ connection = delivery.connection) := by
      have counts := credited connection ((mem_served_handle next).mp member).1
      have fewer := @unhandled_handle _ _ _ setup desk _ _ next connection
      rw [ports_handle next connection, @eq_comm _ connection]
      by_cases credits : (setup.handler desk.server delivery.connection.qpNum
          delivery.message).credits = some connection
      · rw [if_pos credits, Port.credit_counts (sound.sized connection) counts]
        by_cases own : delivery.connection = connection
        · rw [if_pos own] at fewer
          exact iff_of_true fewer.symm (iff_of_true credits own)
        · rw [if_neg own] at fewer
          exact iff_of_false (by omega) fun same => own (same.mp credits)
      · rw [if_neg credits, counts.unique]
        by_cases own : delivery.connection = connection
        · rw [if_pos own] at fewer
          exact iff_of_false (by omega) fun same => credits (same.mpr own)
        · rw [if_neg own] at fewer
          exact iff_of_true fewer.symm (iff_of_false credits own)
    rw [attributed_iff next]
    exact forall₂_congr exact_at

theorem Sound.step (sound : desk.Sound setup.size) (event : DeskEvent Op Message) :
    (desk.step setup event).Sound setup.size := by
  cases event with
  | accept connection =>
    unfold Desk.step
    dsimp only
    split
    · exact sound
    · refine ⟨fun other => ?_, fun other unknown => ?_, fun other member => ?_⟩
      · by_cases same : other = connection
        · rw [same]
          dsimp only
          rw [update_self]
          exact (Port.open_spec setup.size setup.buffer setup.stride).1
        · dsimp only
          rw [update_of_ne same]
          exact sound.sized other
      · exact sound.unknown other fun old => unknown (mem_cons_of_mem _ old)
      · rcases mem_cons.mp member with new | old
        · rw [new]
          exact mem_cons_self
        · exact mem_cons_of_mem _ (sound.served other old)
  | close =>
    exact ⟨sound.sized, sound.unknown,
      fun other member => sound.served other (mem_filter.mp member).1⟩
  | operate op => exact ⟨sound.sized, sound.unknown, sound.served⟩
  | arrive connection message =>
    show (desk.arrive connection message).Sound setup.size
    by_cases shut : desk.Shut connection
    · rw [show desk.arrive connection message = desk from if_pos shut]
      exact sound
    · have delivered := arrive_eq shut message
      refine ⟨fun other => ?_, fun other unknown => ?_, by rw [delivered]; exact sound.served⟩
      · rw [delivered]
        by_cases same : other = connection
        · rw [same]
          dsimp only
          rw [update_self]
          exact sound.sized connection
        · dsimp only
          rw [update_of_ne same]
          exact sound.sized other
      · have stranger : other ∉ desk.known := by
          rw [delivered] at unknown
          exact unknown
        have different : connection ≠ other := fun same =>
          stranger (same ▸ Decidable.not_not.mp (not_or.mp shut).1)
        rw [unhandled_arrive desk shut message other, sound.unknown other stranger,
          if_neg different]
  | poll count =>
    exact ⟨sound.sized, fun other unknown =>
      (unhandled_poll desk count other).trans (sound.unknown other unknown), sound.served⟩
  | handle =>
    show (desk.handle setup).Sound setup.size
    cases next : desk.polled with
    | nil =>
      rw [handle_idle next]
      exact sound
    | cons delivery rest =>
      have known : (desk.handle setup).known = desk.known := by
        unfold handle
        rw [next]
      refine ⟨fun other => ?_, fun other unknown => ?_, fun other member => ?_⟩
      · rw [ports_handle next other]
        split
        · exact Port.credit_sized (sound.sized other)
        · exact sound.sized other
      · have before := sound.unknown other (known ▸ unknown)
        rw [unhandled_handle next other] at before
        exact Nat.eq_zero_of_add_eq_zero_right before
      · rw [known]
        exact sound.served other ((mem_served_handle next).mp member).1

theorem Credited.arrive (credited : desk.Credited setup.size) (connection : Connection)
    (message : Message) : (desk.arrive connection message).Credited setup.size := by
  by_cases shut : desk.Shut connection
  · rw [show desk.arrive connection message = desk from if_pos shut]
    exact credited
  · intro other member
    rw [unhandled_arrive desk shut message other]
    rw [arrive_eq shut] at member ⊢
    have counts := credited other member
    by_cases same : other = connection
    · rw [same] at counts ⊢
      have posted := (not_or.mp shut).2
      dsimp only
      rw [update_self, if_pos rfl]
      refine ⟨?_, counts.most, counts.least⟩
      have requests := counts.requests
      dsimp only [Port.arrive]
      omega
    · dsimp only
      rw [update_of_ne same, if_neg (fun equal => same equal.symm)]
      exact counts

theorem Credited.accept (sound : desk.Sound setup.size) (credited : desk.Credited setup.size)
    (connection : Connection) : (desk.step setup (.accept connection)).Credited setup.size := by
  unfold Desk.step
  dsimp only
  split
  · exact credited
  · rename_i stranger
    intro other member
    show (update desk.ports connection _ other).Counts setup.size (desk.unhandled other)
    rcases mem_cons.mp member with new | old
    · rw [new, update_self, sound.unknown connection stranger]
      exact (Port.open_spec setup.size setup.buffer setup.stride).2
    · have different : other ≠ connection := fun same => stranger (same ▸ sound.served other old)
      rw [update_of_ne different]
      exact credited other old

/-- A step keeps the count right exactly if a handler counts on the right connection. -/
theorem credited_step (sound : desk.Sound setup.size) (credited : desk.Credited setup.size)
    (event : DeskEvent Op Message) :
    (desk.step setup event).Credited setup.size ↔ desk.Attributed setup event := by
  cases event with
  | handle => exact credited_handle sound credited
  | accept connection => exact iff_of_true (Credited.accept sound credited connection) trivial
  | close =>
    exact iff_of_true (fun other member => credited other (mem_filter.mp member).1) trivial
  | operate op => exact iff_of_true credited trivial
  | arrive connection message =>
    exact iff_of_true (credited.arrive connection message) trivial
  | poll count =>
    refine iff_of_true (fun connection member => ?_) trivial
    rw [unhandled_poll desk count connection]
    exact credited connection member

/-- The count is right all along a run exactly if every handler finds the connection that its
message came from. -/
theorem always_credited_iff (setup : Setup Server Op Message) (server : Server)
    (events : List (DeskEvent Op Message)) :
    Always (step setup) (Credited setup.size) (start setup.size server) events ↔
      Along (step setup) (Attributed setup) (start setup.size server) events :=
  always_iff_along_of_stable (fun _ event sound => Sound.step sound event)
    (fun _ event sound credited => credited_step sound credited event)
    (start_sound setup.size server) fun _ member => nomatch member

end Desk

/-! ### The three handlers -/

namespace ResourceManager

/-- A message of an executor manager, by its type. -/
inductive ExecutorMessage
  | nodeRegistration (nodeName : String)
  | leaseDeallocation (message : LeaseDeallocation)
  | unknown (type : UInt32)

/-- `_handle_message`. The executor is looked up before the message is acted on, and its
connection is read afterwards. -/
def handleMessage (db : ExecutorDB) (qpNum : UInt32) (message : ExecutorMessage) :
    Handled ExecutorDB :=
  match db.executors.byConn.lookup qpNum with
  | none => ⟨none, false, db⟩
  | some exec =>
    let next := match message with
      | .nodeRegistration nodeName => db.step (.registerExecutor qpNum nodeName)
      | .leaseDeallocation message => db.step (.closeLease message)
      | .unknown _ => db
    ⟨(next.executors.objects exec).connection, false, next⟩

/-- The handler counts on the connection that the executor had before it acted on the message. -/
theorem handleMessage_credits (db : ExecutorDB) (qpNum : UInt32) (message : ExecutorMessage) :
    (handleMessage db qpNum message).credits = ((db.executors.byConn.lookup qpNum).map fun exec =>
      (db.executors.objects exec).connection).join := by
  unfold handleMessage
  cases found : db.executors.byConn.lookup qpNum with
  | none => rfl
  | some exec =>
    dsimp only [Option.map_some, Option.join_some]
    cases message with
    | nodeRegistration nodeName =>
      dsimp only [ExecutorDB.step, Executors.registerExecutor]
      rw [found]
      dsimp only
      split
      · rfl
      · -- a merge copies the connection and leaves it where it was
        dsimp only
        rw [Executors.merge_objects]
        exact ite_self _
    | leaseDeallocation message =>
      dsimp only [ExecutorDB.step, ExecutorDB.closeLease]
      split
      · rfl
      · split
        · rfl
        · rw [Executors.store_objects]
          split
          · rename_i here
            rw [here]
            rfl
          · rfl
    | unknown type => rfl

/-- The thread for clients: the store, and the connections of `_clients`. -/
structure Clients where
  db : ExecutorDB
  clients : Table UInt32 Connection

inductive ClientOp
  | connect (connection : Connection)
  | disconnect (connection : Connection)
  | store (op : StoreOp)

/-- `_handle_client_connection`, `_handle_client_disconnection`, and what other threads do to the
store. -/
def Clients.operate (server : Clients) : ClientOp → Clients
  | .connect connection =>
    { server with clients := server.clients.insert connection.qpNum connection }
  | .disconnect connection =>
    { db := server.db.step (.removeExecutor connection.qpNum)
      clients := server.clients.erase connection.qpNum }
  | .store op => { server with db := server.db.step op }

/-- `LeaseRequest`. -/
structure LeaseRequest where
  cores : Int
  memory : Int

/-- `_handle_client_message`. A request without cores ends the connection. -/
def handleClientMessage (server : Clients) (qpNum : UInt32) (request : LeaseRequest) :
    Handled Clients :=
  match server.clients.lookup qpNum with
  | none => ⟨none, false, server⟩
  | some connection =>
    if 0 < request.cores then
      ⟨some connection, false,
        { server with db := server.db.step (.openLease request.cores request.memory) }⟩
    else ⟨none, true, { server with clients := server.clients.erase qpNum }⟩

end ResourceManager

namespace ExecutorManager

/-- `_handle_client_message` with `_process_client`. Both answers to a lease request count on the
connection of the client. -/
def handleRequest (manager : Manager) (qpNum : UInt32) (request : AllocationRequest × Chance) :
    Handled Manager :=
  match manager.clients.lookup qpNum with
  | none => ⟨none, false, manager⟩
  | some client =>
    { credits :=
        if 0 ≤ request.1.leaseId then client.connection.map Connection.toConnection else none
      ends := decide (request.1.leaseId < 0)
      server := manager.handleClientMessage ⟨qpNum, true, request.1⟩ request.2 }

end ExecutorManager

namespace Desk

/-- The desk of the thread for executors in the resource manager. -/
def executors (size : Nat) (buffer : Buffer) (stride : Option Nat) :
    Setup ExecutorDB StoreOp ResourceManager.ExecutorMessage where
  size := size
  buffer := buffer
  stride := stride
  operate := ExecutorDB.step
  handler := ResourceManager.handleMessage
  finds := fun db qpNum =>
    (db.executors.byConn.lookup qpNum).map fun exec => (db.executors.objects exec).connection
  final := fun _ => false
  counts := ResourceManager.handleMessage_credits
  ends := fun db qpNum _ => by
    unfold ResourceManager.handleMessage
    cases db.executors.byConn.lookup qpNum <;> rfl

/-- The desk of the thread for clients in the resource manager. -/
def clients (size : Nat) (buffer : Buffer) (stride : Option Nat) :
    Setup ResourceManager.Clients ResourceManager.ClientOp ResourceManager.LeaseRequest where
  size := size
  buffer := buffer
  stride := stride
  operate := ResourceManager.Clients.operate
  handler := ResourceManager.handleClientMessage
  finds := fun server qpNum => (server.clients.lookup qpNum).map some
  final := fun request => decide (request.cores ≤ 0)
  counts := fun server qpNum request => by
    unfold ResourceManager.handleClientMessage
    cases server.clients.lookup qpNum with
    | none => exact (ite_self none).symm
    | some => by_cases asks : 0 < request.cores <;> simp [asks, ← Int.not_lt]
  ends := fun server qpNum request => by
    unfold ResourceManager.handleClientMessage
    cases server.clients.lookup qpNum with
    | none => exact (Bool.and_false _).symm
    | some => by_cases asks : 0 < request.cores <;> simp [asks, ← Int.not_lt]

/-- The desk of the manager thread in the executor manager. -/
def requests (size : Nat) (buffer : Buffer) (stride : Option Nat) :
    Setup Manager Event
      (AllocationRequest × Chance) where
  size := size
  buffer := buffer
  stride := stride
  operate := Manager.step
  handler := handleRequest
  finds := fun manager qpNum => (manager.clients.lookup qpNum).map fun client =>
    client.connection.map Connection.toConnection
  final := fun request => decide (request.1.leaseId < 0)
  counts := fun manager qpNum request => by
    unfold handleRequest
    cases manager.clients.lookup qpNum with
    | none => exact (ite_self none).symm
    | some client => by_cases ends : request.1.leaseId < 0 <;> simp [ends]
  ends := fun manager qpNum request => by
    unfold handleRequest
    cases manager.clients.lookup qpNum with
    | none => exact (Bool.and_false _).symm
    | some client => exact (Bool.and_true _).symm

/-- The receive credits of the managers: with each of the three handlers, the count is right on
every connection all along a run exactly if every handler finds, under the queue pair number of
its message, the connection that the message came from. -/
theorem receive_credits_iff (size : Nat) (buffer : Buffer) (stride : Option Nat) :
    (∀ db events,
      Always (step (executors size buffer stride)) (Credited size) (start size db) events ↔
        Along (step (executors size buffer stride)) (Attributed (executors size buffer stride))
          (start size db) events) ∧
    (∀ server events,
      Always (step (clients size buffer stride)) (Credited size) (start size server) events ↔
        Along (step (clients size buffer stride)) (Attributed (clients size buffer stride))
          (start size server) events) ∧
    (∀ manager events,
      Always (step (requests size buffer stride)) (Credited size) (start size manager) events ↔
        Along (step (requests size buffer stride)) (Attributed (requests size buffer stride))
          (start size manager) events) :=
  ⟨fun db events => always_credited_iff (executors size buffer stride) db events,
    fun server events => always_credited_iff (clients size buffer stride) server events,
    fun manager events => always_credited_iff (requests size buffer stride) manager events⟩

/-- Two connections register one node name, and the first one sends another message. -/
def twins : List (DeskEvent StoreOp ResourceManager.ExecutorMessage) :=
  [.accept ⟨1, 11⟩, .operate (.connectExecutor ⟨1, 11⟩), .accept ⟨2, 12⟩,
    .operate (.connectExecutor ⟨2, 12⟩), .arrive ⟨1, 11⟩ (.nodeRegistration "node"),
    .arrive ⟨2, 12⟩ (.nodeRegistration "node"), .arrive ⟨1, 11⟩ (.unknown 0), .poll 64, .handle,
    .handle, .handle]

/-- The last message of the first connection is counted on the second one. The first one is left
with 31 receives and a count of 32, and the second one with 33 receives. -/
theorem credit_misattributed :
    let setup := executors 32 (Buffer.allocate 1152 1 0 0) (some 36)
    let desk := run (step setup) (start 32 ExecutorDB.empty) twins
    (⟨1, 11⟩ ∈ desk.served ∧ desk.unhandled ⟨1, 11⟩ = 0 ∧
      (desk.ports ⟨1, 11⟩).queue.requests = 32 ∧ (desk.ports ⟨1, 11⟩).posted = 31 ∧
      (desk.ports ⟨2, 12⟩).queue.requests = 32 ∧ (desk.ports ⟨2, 12⟩).posted = 33) ∧
    ¬ Always (step setup) (Credited 32) (start 32 ExecutorDB.empty) twins := by
  have facts : let setup := executors 32 (Buffer.allocate 1152 1 0 0) (some 36)
      let desk := run (step setup) (start 32 ExecutorDB.empty) twins
      ⟨1, 11⟩ ∈ desk.served ∧ desk.unhandled ⟨1, 11⟩ = 0 ∧
        (desk.ports ⟨1, 11⟩).queue.requests = 32 ∧ (desk.ports ⟨1, 11⟩).posted = 31 ∧
        (desk.ports ⟨2, 12⟩).queue.requests = 32 ∧ (desk.ports ⟨2, 12⟩).posted = 33 := by
    decide +kernel
  refine ⟨facts, fun always => ?_⟩
  obtain ⟨served, none, requests, posted, _⟩ := facts
  have same := (always.last _ served).requests
  rw [requests, posted, none] at same
  cases same

end Desk

end RFaaS
