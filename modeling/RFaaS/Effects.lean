/-
This file says what the executor manager does outside of its own tables: which
connections it dereferences and deletes, which processes it forks, kills and
waits for, what it answers, and which clients leave `_clients`. The effects of
a handler are listed in the order of the source, read off the state in which the
handler is entered; they are observed, and change nothing.

`Happens` is the inversion of one step: everything that an event can do to the
queue and to the clients, together with its effects. The properties of whole
runs that the files behind this one are about are derived from it.
-/

import RFaaS.ExecutorManager

namespace RFaaS

open List

namespace ExecutorManager

/-- An effect of a handler. Clients are named by their serial numbers. -/
inductive Effect
  | use (connection : Connection)
  | delete (connection : Connection)
  | fork (serial : Nat) (lease : Lease) (pid : Int)
  | kill (serial : Nat) (pid : Int)
  | wait (serial : Nat) (pid : Int)
  | answer (serial : Nat) (status : LeaseStatus)
  | adopt (executor : Option ActiveExecutor) (connection : Connection)
  | leave (serial : Nat)
  deriving DecidableEq

/-! ### Destructors -/

/-- `ActiveExecutor::~ActiveExecutor`. -/
def ActiveExecutor.destroyEffects (executor : ActiveExecutor) : List Effect :=
  executor.connections.map .delete

namespace Client

/-- A connection is closed and deleted. -/
def closeEffects (client : Client) : List Effect :=
  client.connection.toList.flatMap fun connection => [.use connection, .delete connection]

/-- `executor.reset`, on the executor there is. -/
def resetEffects (client : Client) : List Effect :=
  client.executor.toList.flatMap ActiveExecutor.destroyEffects

/-- `Client::~Client`, and then the destructor of the member `executor`. -/
def destroyEffects (client : Client) : List Effect := client.closeEffects ++ client.resetEffects

/-- The calls of `kill` and `waitpid` for the process of the executor. -/
def killEffects (client : Client) : List Effect :=
  client.executor.toList.flatMap fun executor =>
    [.kill client.serial executor.pid, .wait client.serial executor.pid]

/-- Accesses through the member `connection`. -/
def useEffects (client : Client) : List Effect := client.connection.toList.map .use

/-- `Client::disable`. -/
def disableEffects (client : Client) : List Effect :=
  client.useEffects ++ client.killEffects ++ client.resetEffects ++ client.closeEffects

/-- The process of the client's executor is found to run no more. -/
def finished (exited : List Int) (client : Client) : Bool :=
  client.active && client.executor.any fun executor => executor.pid ∈ exited

/-- The call of `waitpid` that asks for the state of the executor's process. -/
def waitEffects (client : Client) : List Effect :=
  if client.active then
    client.executor.toList.map fun executor => .wait client.serial executor.pid
  else []

/-- The round of `_check_executors` for one client. -/
def checkEffects (exited : List Int) (client : Client) : List Effect :=
  client.waitEffects ++
    if client.finished exited then
      client.resetEffects ++ ({ client with executor := none } : Client).disableEffects
    else []

end Client

/-! ### Handlers -/

namespace Manager

/-- The lease that `_process_client` finds after it has inserted one of its own. -/
def leaseFor (manager : Manager) (request : AllocationRequest) : Option Lease :=
  (manager.leases.emplace request.leaseId ⟨request.leaseId, request.cores, 512⟩).lookup
    request.leaseId

/-- `_process_client`. -/
def processClientEffects (manager : Manager) (client : Client) (request : AllocationRequest)
    (chance : Chance) : List Effect :=
  if 0 ≤ request.leaseId then
    match manager.leaseFor request with
    | none => client.useEffects ++ [.answer client.serial .unknown]
    | some lease =>
      -- The process is forked before `reset` destroys the executor that the client has.
      client.useEffects ++ .fork client.serial lease chance.pid :: client.resetEffects ++
        client.useEffects ++ [.answer client.serial .allocated]
  else client.disableEffects

/-- `_handle_client_message`. The client that is erased has been disabled, so its destructor does
nothing. -/
def handleClientMessageEffects (manager : Manager) (completion : WorkCompletion)
    (chance : Chance) : List Effect :=
  match manager.clients.lookup completion.qpNum with
  | none => []
  | some client =>
    if completion.success then
      manager.processClientEffects client completion.request chance ++
        if 0 ≤ completion.request.leaseId then [] else [.leave client.serial]
    else []

/-- `_handle_connections`. A client whose queue pair number is taken is destroyed. -/
def handleConnectionsEffects (manager : Manager) : Message → List Effect
  | .executor connection =>
    .use connection ::
      match manager.clients.lookup connection.privateData with
      | none => [.delete connection]
      | some client => [.adopt client.executor connection]
  | .client client =>
    client.useEffects ++
      match client.connection.bind fun connection => manager.clients.lookup connection.qpNum with
      | none => []
      | some _ => client.destroyEffects

/-- `_handle_disconnections`. -/
def handleDisconnectionsEffects (manager : Manager) (connection : Connection) : List Effect :=
  .use connection ::
    match manager.clients.lookup connection.qpNum with
    | none => []
    | some client => .leave client.serial :: client.destroyEffects

/-- `_check_executors`, and the erasure of the removals that follows it. -/
def checkExecutorsEffects (manager : Manager) : List Effect :=
  (manager.clients.entries.flatMap fun entry => entry.2.checkEffects manager.exited) ++
    (manager.clients.entries.filter fun entry => entry.2.finished manager.exited).map
      fun entry => .leave entry.2.serial

/-- `_clients.clear()`. -/
def clearClientsEffects (manager : Manager) : List Effect :=
  manager.clients.entries.flatMap fun entry => .leave entry.2.serial :: entry.2.destroyEffects

/-- The next step of the manager thread. -/
def threadEffects (manager : Manager) (chance : Chance) : List Effect :=
  match manager.phase with
  | .pollTop => if manager.shutdown then manager.clearClientsEffects else []
  | .pollQueue =>
    match manager.clientQueue with
    | [] => []
    | .connect message :: _ => manager.handleConnectionsEffects message
    | .disconnect connection :: _ => manager.handleDisconnectionsEffects connection
  | .pollMessages (completion :: _) => manager.handleClientMessageEffects completion chance
  | .pollCheck => manager.checkExecutorsEffects
  | .sleepQueue _ =>
    match manager.clientQueue with
    | .connect message :: _ => manager.handleConnectionsEffects message
    | _ => []
  | .sleepMessages (completion :: _) _ => manager.handleClientMessageEffects completion chance
  | .sleepDisconnections =>
    match manager.disconnections with
    | [] => []
    | connection :: _ => manager.handleDisconnectionsEffects connection
  | _ => []

/-- The connection whose end the manager thread handles in its next step. -/
def endedIn (manager : Manager) : Option Connection :=
  match manager.phase with
  | .pollQueue =>
    match manager.clientQueue with
    | .disconnect connection :: _ => some connection
    | _ => none
  | .sleepDisconnections => manager.disconnections.head?
  | _ => none

/-- The message that the manager thread handles in its next step. -/
def messageIn (manager : Manager) : Option WorkCompletion :=
  match manager.phase with
  | .pollMessages (completion :: _) => some completion
  | .sleepMessages (completion :: _) _ => some completion
  | _ => none

theorem messageIn_eq (manager : Manager) : manager.messageIn = manager.phase.batch.head? := by
  unfold messageIn
  cases manager.phase with
  | pollMessages rest | sleepMessages rest => cases rest <;> rfl
  | _ => rfl

/-- The request that the manager thread serves in its next step, and the client it is from. -/
def requestIn (manager : Manager) : Option (Client × AllocationRequest) :=
  manager.messageIn.bind fun completion =>
    if completion.success ∧ 0 ≤ completion.request.leaseId then
      (manager.clients.lookup completion.qpNum).map fun client => (client, completion.request)
    else none

/-- The client whose final message the manager thread handles in its next step. -/
def finalIn (manager : Manager) : Option Client :=
  manager.messageIn.bind fun completion =>
    if completion.Final then manager.clients.lookup completion.qpNum else none

/-- The clients that leave in the next step of the manager thread without a final message: those of
an ended connection, all of them when the polling loop ends, and those whose process
`_check_executors` takes for finished. -/
def abandonedIn (manager : Manager) : List Client :=
  match manager.phase with
  | .pollTop => if manager.shutdown then manager.clients.entries.map Sigma.snd else []
  | .pollQueue =>
    match manager.clientQueue with
    | .disconnect connection :: _ => (manager.clients.lookup connection.qpNum).toList
    | _ => []
  | .pollCheck =>
    (manager.clients.entries.filter fun entry => entry.2.finished manager.exited).map Sigma.snd
  | .sleepDisconnections =>
    match manager.disconnections with
    | connection :: _ => (manager.clients.lookup connection.qpNum).toList
    | [] => []
  | _ => []

/-- One event. The listener looks at every connection it gets, and deletes those that it
rejects. -/
def effects (manager : Manager) (event : Event) : List Effect :=
  if manager.fault then []
  else
    match event with
    | .requested connection _ _ =>
      if 0 < connection.privateData ∧ connection.privateData ∉ manager.clientsToConnect then
        [.use connection, .delete connection]
      else [.use connection]
    | .disconnected connection => [.use connection]
    | .thread chance => manager.threadEffects chance
    | _ => []

/-- The connection whose end the listener passes on, or the manager thread handles. -/
def handledEnd (manager : Manager) (event : Event) : Option Connection :=
  if manager.fault then none
  else
    match event with
    | .disconnected connection => some connection
    | .thread _ => manager.endedIn
    | _ => none

/-! ### What one event can do -/

/-- What an event does to the queue, to the clients and to the mark of a null pointer, the
connection whose end it is about, and its effects. -/
inductive Happens (manager : Manager) (event : Event) : List Operation →
    Table UInt32 Client → Bool → Option Connection → List Effect → Prop
  /-- Nothing happens to the clients. -/
  | rests : Happens manager event manager.clientQueue manager.clients manager.fault none []
  /-- An executor of an unknown client is rejected. -/
  | rejected {connection temporaryMemory queueMemory}
      (arrival : event = .requested connection temporaryMemory queueMemory) :
      Happens manager event manager.clientQueue manager.clients manager.fault none
        [.use connection, .delete connection]
  /-- An executor is accepted. -/
  | accepted {connection temporaryMemory queueMemory}
      (arrival : event = .requested connection temporaryMemory queueMemory)
      (positive : 0 < connection.privateData) :
      Happens manager event (manager.clientQueue ++ [.connect (.executor connection)])
        manager.clients manager.fault none [.use connection]
  /-- A client is accepted. -/
  | joined {connection temporaryMemory queueMemory client}
      (arrival : event = .requested connection temporaryMemory queueMemory)
      (own : client.connection = some connection) (idle : client.executor = none)
      (serial : client.serial = manager.made) (active : client.active = true)
      (fresh : ¬ 0 < connection.privateData) :
      Happens manager event (manager.clientQueue ++ [.connect (.client client)])
        manager.clients manager.fault none [.use connection]
  /-- The listener passes the end of a connection on. -/
  | ended {connection} (arrival : event = .disconnected connection) :
      Happens manager event (manager.clientQueue ++ [.disconnect connection])
        manager.clients manager.fault (some connection) [.use connection]
  /-- The accounting words of a client change. -/
  | accounted {qpNum client accounting} (found : manager.clients.lookup qpNum = some client) :
      Happens manager event manager.clientQueue
        (manager.clients.insert qpNum { client with accounting := accounting }) manager.fault none
        []
  /-- The end of a connection is put off. -/
  | deferred {connection rest} (head : manager.clientQueue = .disconnect connection :: rest) :
      Happens manager event rest manager.clients manager.fault none []
  /-- The client of an executor is gone. -/
  | unmatched {connection rest}
      (head : manager.clientQueue = .connect (.executor connection) :: rest)
      (absent : manager.clients.lookup connection.privateData = none) :
      Happens manager event rest manager.clients manager.fault none
        [.use connection, .delete connection]
  /-- The client of an executor has no executor. -/
  | orphaned {connection rest client}
      (head : manager.clientQueue = .connect (.executor connection) :: rest)
      (found : manager.clients.lookup connection.privateData = some client)
      (idle : client.executor = none) :
      Happens manager event rest manager.clients true none [.use connection, .adopt none connection]
  /-- A connection of an executor is added. -/
  | adopted {connection rest client executor}
      (head : manager.clientQueue = .connect (.executor connection) :: rest)
      (found : manager.clients.lookup connection.privateData = some client)
      (busy : client.executor = some executor) :
      Happens manager event rest
        (manager.clients.insert connection.privateData
          { client with executor := some (executor.addExecutor connection) })
        manager.fault none [.use connection, .adopt (some executor) connection]
  /-- A client without a connection is dequeued. -/
  | hollow {client rest} (head : manager.clientQueue = .connect (.client client) :: rest)
      (closed : client.connection = none) : Happens manager event rest manager.clients true none []
  /-- A client is entered. -/
  | entered {client rest connection id node}
      (head : manager.clientQueue = .connect (.client client) :: rest)
      (own : client.connection = some connection)
      (absent : manager.clients.lookup connection.qpNum = none) :
      Happens manager event rest
        (manager.clients.insert connection.qpNum { client with id := id, node := node })
        manager.fault none client.useEffects
  /-- The queue pair number of a client is taken. -/
  | clashed {client rest connection other}
      (head : manager.clientQueue = .connect (.client client) :: rest)
      (own : client.connection = some connection)
      (found : manager.clients.lookup connection.qpNum = some other) :
      Happens manager event rest manager.clients manager.fault none
        (client.useEffects ++ client.destroyEffects)
  /-- The end of a connection is handled, and it is the connection of no client. -/
  | passed {connection rest}
      (queue : rest = manager.clientQueue ∨ manager.clientQueue = .disconnect connection :: rest)
      (absent : manager.clients.lookup connection.qpNum = none) :
      Happens manager event rest manager.clients manager.fault (some connection) [.use connection]
  /-- The end of a connection is handled, and its client is erased. -/
  | dropped {connection rest client}
      (queue : rest = manager.clientQueue ∨ manager.clientQueue = .disconnect connection :: rest)
      (found : manager.clients.lookup connection.qpNum = some client) :
      Happens manager event rest (manager.clients.erase connection.qpNum) manager.fault
        (some connection) (.use connection :: .leave client.serial :: client.destroyEffects)
  /-- A request is served. -/
  | served {qpNum client lease chance} {request : AllocationRequest}
      (turn : event = .thread chance) (asked : manager.requestIn = some (client, request))
      (found : manager.clients.lookup qpNum = some client)
      (present : manager.leaseFor request = some lease) :
      Happens manager event manager.clientQueue
        (manager.clients.insert qpNum { client with
          executor := some ⟨chance.pid, lease.cores, [], chance.now⟩
          served := some request.leaseId })
        manager.fault none
        (client.useEffects ++ .fork client.serial lease chance.pid :: client.resetEffects ++
          client.useEffects ++ [.answer client.serial .allocated])
  /-- A final message is handled. -/
  | left {qpNum client} (found : manager.clients.lookup qpNum = some client) :
      Happens manager event manager.clientQueue (manager.clients.erase qpNum) manager.fault none
        (client.disableEffects ++ [.leave client.serial])
  /-- The executors are checked. -/
  | checked {after} (kept : ∀ qpNum, after.lookup qpNum =
        (manager.clients.lookup qpNum).filter fun client => !client.finished manager.exited) :
      Happens manager event manager.clientQueue after manager.fault none
        manager.checkExecutorsEffects
  /-- All clients are erased. -/
  | cleared {after} (gone : ∀ qpNum, after.lookup qpNum = none) :
      Happens manager event manager.clientQueue after manager.fault none
        manager.clearClientsEffects

/-- What the listener adds to the queue. -/
inductive Enqueued (manager : Manager) (event : Event) : Operation → Prop
  | executor {connection temporaryMemory queueMemory}
      (arrival : event = .requested connection temporaryMemory queueMemory)
      (positive : 0 < connection.privateData) :
      Enqueued manager event (.connect (.executor connection))
  | client {connection temporaryMemory queueMemory client}
      (arrival : event = .requested connection temporaryMemory queueMemory)
      (own : client.connection = some connection) (idle : client.executor = none)
      (serial : client.serial = manager.made) (active : client.active = true)
      (fresh : ¬ 0 < connection.privateData) :
      Enqueued manager event (.connect (.client client))
  | disconnection {connection} (arrival : event = .disconnected connection) :
      Enqueued manager event (.disconnect connection)

/-- Where a client comes from that is registered after a step. -/
inductive Became (manager : Manager) (queue : List Operation) (effects : List Effect)
    (qpNum : UInt32) (client : Client) : Prop
  | kept {old} (was : manager.clients.lookup qpNum = some old)
      (serial : client.serial = old.serial) (executor : client.executor = old.executor)
  | entered {queued connection} (head : manager.clientQueue = .connect (.client queued) :: queue)
      (own : queued.connection = some connection) (key : qpNum = connection.qpNum)
      (serial : client.serial = queued.serial) (executor : client.executor = queued.executor)
  | adopted {old executor connection}
      (head : manager.clientQueue = .connect (.executor connection) :: queue)
      (key : qpNum = connection.privateData) (was : manager.clients.lookup qpNum = some old)
      (serial : client.serial = old.serial) (busy : old.executor = some executor)
      (grown : client.executor = some (executor.addExecutor connection))
      (effect : .adopt (some executor) connection ∈ effects)
  | served {old lease pid now} (was : manager.clients.lookup qpNum = some old)
      (serial : client.serial = old.serial) (forked : .fork client.serial lease pid ∈ effects)
      (executor : client.executor = some ⟨pid, lease.cores, [], now⟩)

section Inversion

variable {manager : Manager} {event : Event} {queue : List Operation}
  {clients : Table UInt32 Client} {fault : Bool} {ended : Option Connection}
  {effects : List Effect}

section

variable (happens : Happens manager event queue clients fault ended effects)
include happens

/-- The listener adds to the queue, and the manager thread takes entries from it. -/
theorem Happens.queue_cases :
    (∃ operation, Enqueued manager event operation ∧ queue = manager.clientQueue ++ [operation]) ∨
      queue <:+ manager.clientQueue := by
  have taken : ∀ first, manager.clientQueue = first :: queue → queue <:+ manager.clientQueue :=
    fun first head => head ▸ suffix_cons first queue
  have ended : ∀ connection,
      queue = manager.clientQueue ∨ manager.clientQueue = .disconnect connection :: queue →
      queue <:+ manager.clientQueue := by
    rintro connection (rfl | head)
    · exact suffix_rfl
    · exact taken _ head
  cases happens with
  | accepted arrival positive => exact Or.inl ⟨_, .executor arrival positive, rfl⟩
  | joined arrival own idle serial active fresh =>
    exact Or.inl ⟨_, .client arrival own idle serial active fresh, rfl⟩
  | ended arrival => exact Or.inl ⟨_, .disconnection arrival, rfl⟩
  | deferred head | unmatched head | orphaned head | adopted head | hollow head | entered head
  | clashed head => exact Or.inr (taken _ head)
  | passed same | dropped same => exact Or.inr (ended _ same)
  | _ => exact Or.inr suffix_rfl

/-- An entry of the queue was there before a step, or the listener added it. -/
theorem Happens.mem_queue {operation : Operation} (member : operation ∈ queue) :
    operation ∈ manager.clientQueue ∨ Enqueued manager event operation := by
  rcases happens.queue_cases with ⟨new, enqueued, rfl⟩ | suffix
  · rcases mem_append.mp member with old | last
    · exact Or.inl old
    · rw [mem_singleton.mp last]
      exact Or.inr enqueued
  · exact Or.inl (suffix.subset member)

theorem Happens.became
    {qpNum : UInt32} {client : Client} (found : clients.lookup qpNum = some client) :
    Became manager queue effects qpNum client := by
  cases happens with
  | accounted old =>
    rcases Table.lookup_insert_eq_some.mp found with ⟨rfl, rfl⟩ | ⟨_, same⟩
    · exact .kept old rfl rfl
    · exact .kept same rfl rfl
  | adopted head old busy =>
    rcases Table.lookup_insert_eq_some.mp found with ⟨rfl, rfl⟩ | ⟨_, same⟩
    · exact .adopted head rfl old rfl busy rfl (by simp)
    · exact .kept same rfl rfl
  | entered head own absent =>
    rcases Table.lookup_insert_eq_some.mp found with ⟨rfl, rfl⟩ | ⟨_, same⟩
    · exact .entered head own rfl rfl rfl
    · exact .kept same rfl rfl
  | served turn asked old present =>
    rcases Table.lookup_insert_eq_some.mp found with ⟨rfl, rfl⟩ | ⟨_, same⟩
    · exact .served old rfl (by simp) rfl
    · exact .kept same rfl rfl
  | dropped | left => exact .kept (Table.lookup_erase_eq_some.mp found).2 rfl rfl
  | checked remaining =>
    rw [remaining] at found
    exact .kept (Option.filter_eq_some_iff.mp found).1 rfl rfl
  | cleared gone =>
    rw [gone] at found
    cases found
  | _ => exact .kept found rfl rfl

end

end Inversion

/-! ### The check of the executors -/

/-- The loop of `_check_executors` after the keys `seen`: it has collected the clients whose
process runs no more, and changed no others. -/
structure Scanned (manager : Manager) (seen : List UInt32) (checked : Manager × List UInt32) :
    Prop where
  clientQueue : checked.1.clientQueue = manager.clientQueue
  fault : checked.1.fault = manager.fault
  exited : checked.1.exited = manager.exited
  others : ∀ qpNum ∉ checked.2, checked.1.clients.lookup qpNum = manager.clients.lookup qpNum
  removals : ∀ qpNum, qpNum ∈ checked.2 ↔
    qpNum ∈ seen ∧ (manager.clients.lookup qpNum).any (Client.finished manager.exited) = true

theorem Scanned.skip {manager : Manager} {seen : List UInt32} {checked : Manager × List UInt32}
    (scanned : Scanned manager seen checked) {qpNum : UInt32}
    (runs : (manager.clients.lookup qpNum).any (Client.finished manager.exited) = false) :
    Scanned manager (seen ++ [qpNum]) checked :=
  { scanned with
    removals := fun other => by
      rw [scanned.removals, mem_append, mem_singleton]
      refine and_congr_left fun gone => (or_iff_left fun same => ?_).symm
      rw [same, runs] at gone
      cases gone }

theorem Scanned.next {manager : Manager} {seen : List UInt32} {checked : Manager × List UInt32}
    (scanned : Scanned manager seen checked) {qpNum : UInt32} (new : qpNum ∉ seen) (now : Int) :
    Scanned manager (seen ++ [qpNum]) (checkExecutor now checked qpNum) := by
  have same := scanned.others qpNum fun collected => new ((scanned.removals qpNum).mp collected).1
  unfold checkExecutor
  rw [same]
  split
  · rename_i absent
    exact scanned.skip (by rw [absent]; rfl)
  · rename_i client found
    have status : (manager.clients.lookup qpNum).any (Client.finished manager.exited) =
        (client.active && client.executor.any fun executor => executor.pid ∈ manager.exited) := by
      rw [found]
      rfl
    split
    · rename_i active
      split
      · rename_i idle
        exact scanned.skip (by rw [status, idle, active]; rfl)
      · rename_i executor busy
        rw [active, busy, Bool.true_and, Option.any_some] at status
        rw [scanned.exited]
        split
        · rename_i gone
          refine ⟨scanned.clientQueue, scanned.fault, scanned.exited, fun other left => ?_,
            fun other => ?_⟩
          · rw [mem_append, mem_singleton, not_or] at left
            exact (AList.lookup_insert_ne left.2).trans (scanned.others other left.1)
          · rw [mem_append, mem_append, mem_singleton, scanned.removals,
              or_and_right]
            refine or_congr_right ⟨fun same => ⟨same, ?_⟩, fun both => both.1⟩
            rw [same, status]
            exact decide_eq_true gone
        · rename_i runs
          exact scanned.skip (status.trans (decide_eq_false runs))
    · rename_i inactive
      exact scanned.skip (by rw [status, eq_false_of_ne_true inactive]; rfl)

/-- The loop of `_check_executors` over all clients, and whatever else every round of it keeps. -/
theorem scan_rule {manager : Manager} {now : Int} {property : Manager × List UInt32 → Prop}
    (next : ∀ seen checked qpNum, Scanned manager seen checked → qpNum ∉ seen →
      property checked → property (checkExecutor now checked qpNum))
    (initially : property (manager, [])) :
    Scanned manager manager.clients.keys
        (manager.clients.keys.foldl (checkExecutor now) (manager, [])) ∧
      property (manager.clients.keys.foldl (checkExecutor now) (manager, [])) := by
  have rounds : ∀ (keys seen : List UInt32) (checked : Manager × List UInt32),
      Scanned manager seen checked → property checked → (seen ++ keys).Nodup →
      Scanned manager (seen ++ keys) (keys.foldl (checkExecutor now) checked) ∧
        property (keys.foldl (checkExecutor now) checked) := by
    intro keys
    induction keys with
    | nil =>
      intro seen checked scanned holds _
      rw [append_nil]
      exact ⟨scanned, holds⟩
    | cons qpNum rest inductionHypothesis =>
      intro seen checked scanned holds distinct
      have split : seen ++ qpNum :: rest = (seen ++ [qpNum]) ++ rest := by simp
      have new : qpNum ∉ seen := fun member =>
        (nodup_append.mp distinct).2.2 qpNum member qpNum mem_cons_self rfl
      rw [split] at distinct ⊢
      exact inductionHypothesis _ _ (scanned.next new now)
        (next seen checked qpNum scanned new holds) distinct
  have start : Scanned manager [] (manager, []) :=
    ⟨rfl, rfl, rfl, fun _ _ => rfl, fun qpNum => by simp⟩
  exact rounds manager.clients.keys [] (manager, []) start initially manager.clients.keys_nodup

variable (manager : Manager)

/-- `_check_executors` takes out the clients whose process runs no more. -/
theorem checkExecutors_spec (now : Int) :
    (manager.checkExecutors now).clientQueue = manager.clientQueue ∧
      (manager.checkExecutors now).fault = manager.fault ∧
      ∀ qpNum, (manager.checkExecutors now).clients.lookup qpNum =
        (manager.clients.lookup qpNum).filter fun client => !client.finished manager.exited := by
  have scanned := (@scan_rule manager now (fun _ => True) (fun _ _ _ _ _ _ => trivial) trivial).1
  unfold checkExecutors
  generalize manager.clients.keys.foldl (checkExecutor now) (manager, []) = result at scanned ⊢
  obtain ⟨checked, removals⟩ := result
  dsimp only
  obtain ⟨clients, removed, same⟩ := eraseAll_same checked removals
  refine ⟨?_, ?_, fun qpNum => ?_⟩
  · rw [same]
    exact scanned.clientQueue
  · rw [same]
    exact scanned.fault
  · rw [lookup_eraseAll]
    split
    · rename_i collected
      have gone := ((scanned.removals qpNum).mp collected).2
      cases found : manager.clients.lookup qpNum with
      | none => rfl
      | some client =>
        rw [found, Option.any_some] at gone
        rw [Option.filter_some, gone]
        rfl
    · rename_i left
      rw [scanned.others qpNum left]
      cases found : manager.clients.lookup qpNum with
      | none => rfl
      | some client =>
        have member : qpNum ∈ manager.clients.keys :=
          AList.lookup_isSome.mp (by rw [found]; rfl)
        have runs : client.finished manager.exited = false := by
          by_contra gone
          refine left ((scanned.removals qpNum).mpr ⟨member, ?_⟩)
          rw [found]
          simpa using gone
        rw [Option.filter_some, runs]
        rfl

theorem clearClients_spec :
    manager.clearClients.clientQueue = manager.clientQueue ∧
      manager.clearClients.fault = manager.fault ∧
      ∀ qpNum, manager.clearClients.clients.lookup qpNum = none := by
  unfold clearClients
  refine ⟨eraseAll_queue _ _, ?_, fun qpNum => ?_⟩
  · obtain ⟨_, _, same⟩ := eraseAll_same manager manager.clients.keys
    rw [same]
  · rw [lookup_eraseAll]
    split
    · rfl
    · rename_i absent
      exact AList.lookup_eq_none.mpr absent

/-! ### What the handlers leave alone -/

/-- Neither the leases, nor the messages that wait, nor the place in the loop, nor the number of
clients made changes. -/
structure Spares (before after : Manager) : Prop where
  leases : after.leases = before.leases
  leaseMessages : after.leaseMessages = before.leaseMessages
  completions : after.completions = before.completions
  phase : after.phase = before.phase
  made : after.made = before.made

theorem Spares.refl : Spares manager manager := ⟨rfl, rfl, rfl, rfl, rfl⟩

theorem Spares.trans {first second third : Manager} (left : Spares first second)
    (right : Spares second third) : Spares first third :=
  ⟨right.leases.trans left.leases, right.leaseMessages.trans left.leaseMessages,
    right.completions.trans left.completions, right.phase.trans left.phase,
    right.made.trans left.made⟩

theorem handleConnections_spares (nodeMemory : Int32) :
    Spares manager (manager.handleConnections nodeMemory) := by
  unfold handleConnections
  split
  · split
    · exact .refl manager
    · split <;> exact ⟨rfl, rfl, rfl, rfl, rfl⟩
  · split <;> exact ⟨rfl, rfl, rfl, rfl, rfl⟩

theorem eraseAll_spares (keys : List UInt32) : Spares manager (keys.foldl eraseClient manager) := by
  obtain ⟨clients, removed, same⟩ := eraseAll_same manager keys
  rw [same]
  exact ⟨rfl, rfl, rfl, rfl, rfl⟩

theorem eraseClient_spares (qpNum : UInt32) : Spares manager (manager.eraseClient qpNum) :=
  eraseAll_spares manager [qpNum]

theorem checkExecutor_spares (now : Int) (checked : Manager × List UInt32) (qpNum : UInt32) :
    Spares checked.1 (checkExecutor now checked qpNum).1 := by
  unfold checkExecutor
  split
  · exact .refl _
  · split
    · split
      · exact .refl _
      · split <;> exact ⟨rfl, rfl, rfl, rfl, rfl⟩
    · exact .refl _

theorem checkExecutors_spares (now : Int) : Spares manager (manager.checkExecutors now) := by
  have scans : ∀ checked qpNum, Spares manager checked.1 →
      Spares manager (checkExecutor now checked qpNum).1 := fun checked qpNum same =>
    same.trans (checkExecutor_spares now checked qpNum)
  have start : Spares manager (manager, ([] : List UInt32)).1 := .refl manager
  have scanned := Transition.run_stable scans manager.clients.keys start
  exact scanned.trans (eraseAll_spares _ _)

/-! ### The inversion -/

/-- A connection is handled, once it was taken from the queue into the static variable. -/
theorem handleConnections_happens {manager before : Manager} {message : Message}
    {resultMemory : Int32}
    (head : manager.clientQueue = .connect message :: before.clientQueue)
    (result : before.result = assignResult manager.result resultMemory message)
    (clients : before.clients = manager.clients) (fault : before.fault = manager.fault)
    (event : Event) (nodeMemory : Int32) :
    Happens manager event (before.handleConnections nodeMemory).clientQueue
      (before.handleConnections nodeMemory).clients (before.handleConnections nodeMemory).fault none
      (manager.handleConnectionsEffects message) := by
  unfold handleConnections handleConnectionsEffects
  rw [result]
  cases message with
  | executor connection =>
    dsimp only [assignResult]
    rw [clients]
    cases found : manager.clients.lookup connection.privateData with
    | none =>
      dsimp only
      rw [clients, fault]
      exact .unmatched head found
    | some client =>
      dsimp only
      cases busy : client.executor with
      | none => exact .orphaned head found busy
      | some executor =>
        dsimp only [setClient]
        rw [clients, fault]
        exact .adopted head found busy
  | client obj =>
    obtain ⟨id, assigned⟩ := assignResult_client manager.result resultMemory obj
    rw [assigned]
    dsimp only
    cases own : obj.connection with
    | none =>
      have silent : obj.useEffects = [] := by rw [Client.useEffects, own]; rfl
      dsimp only
      rw [silent, clients]
      exact .hollow head own
    | some connection =>
      dsimp only [Option.bind_some]
      rw [clients, fault]
      cases found : manager.clients.lookup connection.qpNum with
      | none =>
        have entered := @Happens.entered manager event obj before.clientQueue connection nodeMemory
          nodeMemory head own found
        rw [own] at entered
        rw [Table.emplace_of_none found, append_nil]
        exact entered
      | some other =>
        rw [Table.lookup_emplace_of_some found]
        exact .clashed head own found

/-- The lease of a request is the one in the table, or else the one that the request describes. -/
theorem leaseFor_eq (request : AllocationRequest) :
    manager.leaseFor request = some ((manager.leases.lookup request.leaseId).getD
      ⟨request.leaseId, request.cores, 512⟩) := by
  unfold leaseFor
  cases found : manager.leases.lookup request.leaseId with
  | some lease => exact Table.lookup_emplace_of_lookup found _ _
  | none => exact Table.lookup_emplace_self_iff.mpr (Or.inl found)

/-- A request of a known client is always served: its own lease is in the table by the time the
lease is looked up. -/
theorem handleClientMessage_request {manager : Manager} {completion : WorkCompletion}
    {client : Client} (found : manager.clients.lookup completion.qpNum = some client)
    (success : completion.success = true) (request : 0 ≤ completion.request.leaseId)
    (chance : Chance) :
    ∃ lease, manager.leaseFor completion.request = some lease ∧
      manager.handleClientMessage completion chance =
        { manager.setClient completion.qpNum { client with
            executor := some ⟨chance.pid, lease.cores, [], chance.now⟩
            served := some completion.request.leaseId } with
          leases := manager.leases.emplace completion.request.leaseId
            ⟨completion.request.leaseId, completion.request.cores, 512⟩
          exited := manager.exited.filter (· ≠ chance.pid)
          responses := manager.responses ++ [(client.serial, .allocated)] } ∧
      manager.handleClientMessageEffects completion chance =
        client.useEffects ++ .fork client.serial lease chance.pid :: client.resetEffects ++
          client.useEffects ++ [.answer client.serial .allocated] := by
  have present := manager.leaseFor_eq completion.request
  refine ⟨_, present, ?_, ?_⟩
  · unfold leaseFor at present
    simp only [handleClientMessage, found, success, if_true, processClient, if_pos request, present]
    rfl
  · simp only [handleClientMessageEffects, found, success, if_true, processClientEffects,
      if_pos request, present, append_nil]

theorem handleClientMessage_final {manager : Manager} {completion : WorkCompletion}
    {client : Client} (found : manager.clients.lookup completion.qpNum = some client)
    (success : completion.success = true) (final : ¬ 0 ≤ completion.request.leaseId)
    (chance : Chance) :
    (manager.handleClientMessage completion chance).clientQueue = manager.clientQueue ∧
      (manager.handleClientMessage completion chance).clients =
        manager.clients.erase completion.qpNum ∧
      (manager.handleClientMessage completion chance).fault = manager.fault ∧
      manager.handleClientMessageEffects completion chance =
        client.disableEffects ++ [.leave client.serial] := by
  have disabled : (manager.disable completion.qpNum client chance.now).clients.lookup
      completion.qpNum ≠ none := by
    simp [disable, setClient]
  simp only [handleClientMessage, found, success, if_true, processClient, if_neg final,
    handleClientMessageEffects, processClientEffects, and_true]
  obtain ⟨current, present⟩ := Option.ne_none_iff_exists'.mp disabled
  rw [eraseClient_of_found present]
  exact ⟨rfl, Table.erase_insert_self _ _ _, rfl⟩

theorem requestIn_of_message {manager : Manager} {completion : WorkCompletion} {client : Client}
    (handled : manager.messageIn = some completion)
    (found : manager.clients.lookup completion.qpNum = some client)
    (success : completion.success = true) (request : 0 ≤ completion.request.leaseId) :
    manager.requestIn = some (client, completion.request) := by
  rw [requestIn, handled, Option.bind_some, if_pos ⟨success, request⟩, found]
  rfl

theorem handleClientMessage_happens {manager : Manager} {completion : WorkCompletion}
    (handled : manager.messageIn = some completion) (phase : Phase) (chance : Chance) :
    let after := { manager with phase := phase }.handleClientMessage completion chance
    Happens manager (.thread chance) after.clientQueue after.clients after.fault none
      (manager.handleClientMessageEffects completion chance) := by
  cases found : manager.clients.lookup completion.qpNum with
  | none =>
    simp only [handleClientMessage, handleClientMessageEffects, found]
    exact .rests
  | some client =>
    by_cases success : completion.success = true
    · by_cases request : 0 ≤ completion.request.leaseId
      · obtain ⟨lease, present, after, effects⟩ := @handleClientMessage_request
          { manager with phase := phase } completion client found success request chance
        have same : manager.handleClientMessageEffects completion chance = _ := effects
        rw [after, same]
        exact .served rfl (requestIn_of_message handled found success request) found present
      · obtain ⟨queue, clients, fault, effects⟩ := @handleClientMessage_final
          { manager with phase := phase } completion client found success request chance
        have same : manager.handleClientMessageEffects completion chance = _ := effects
        dsimp only
        rw [queue, clients, fault, same]
        exact .left found
    · simp only [handleClientMessage, handleClientMessageEffects, found, if_neg success]
      exact .rests

/-- The end of a connection is handled, by a thread that may have taken it from the queue. -/
theorem handleDisconnections_happens {manager before : Manager} {connection : Connection}
    (clients : before.clients = manager.clients) (fault : before.fault = manager.fault)
    (queue : before.clientQueue = manager.clientQueue ∨
      manager.clientQueue = .disconnect connection :: before.clientQueue) (event : Event) :
    Happens manager event (before.handleDisconnections connection).clientQueue
      (before.handleDisconnections connection).clients
      (before.handleDisconnections connection).fault (some connection)
      (manager.handleDisconnectionsEffects connection) := by
  unfold handleDisconnections handleDisconnectionsEffects
  cases found : manager.clients.lookup connection.qpNum with
  | none =>
    rw [eraseClient_of_absent (clients ▸ found), clients, fault]
    exact .passed queue found
  | some client =>
    rw [eraseClient_of_found (clients ▸ found), clients, fault]
    exact .dropped queue found

theorem threadStep_happens (chance : Chance) :
    Happens manager (.thread chance) (manager.threadStep chance).clientQueue
      (manager.threadStep chance).clients (manager.threadStep chance).fault manager.endedIn
      (manager.threadEffects chance) := by
  unfold threadStep threadEffects endedIn
  cases phase : manager.phase with
  | pollTop =>
    dsimp only
    split
    · obtain ⟨queue, fault, none⟩ := clearClients_spec manager
      dsimp only
      rw [queue, fault]
      exact .cleared none
    · exact .rests
  | pollQueue =>
    dsimp only
    cases queue : manager.clientQueue with
    | nil =>
      dsimp only
      rw [← queue]
      exact .rests
    | cons operation rest =>
      cases operation with
      | connect message =>
        exact @handleConnections_happens manager { manager with
          phase := .pollQueue
          clientQueue := rest
          result := assignResult manager.result chance.resultMemory message }
          message chance.resultMemory queue rfl rfl rfl _ _
      | disconnect connection =>
        exact @handleDisconnections_happens manager { manager with
          phase := .pollQueue
          clientQueue := rest
          result := .executor connection } connection rfl rfl (Or.inr queue) _
  | pollMessages rest =>
    cases rest with
    | nil => exact .rests
    | cons completion rest =>
      exact handleClientMessage_happens (by rw [messageIn, phase]) (.pollMessages rest) chance
  | pollCheck =>
    obtain ⟨queue, fault, kept⟩ :=
      checkExecutors_spec { manager with phase := .pollTop } chance.now
    dsimp only
    rw [queue, fault]
    exact .checked kept
  | sleepQueue resume =>
    dsimp only
    cases queue : manager.clientQueue with
    | nil =>
      dsimp only
      rw [← queue]
      cases resume <;> exact .rests
    | cons operation rest =>
      cases operation with
      | connect message =>
        exact @handleConnections_happens manager { manager with
          phase := .sleepQueue resume
          clientQueue := rest
          result := assignResult manager.result chance.resultMemory message }
          message chance.resultMemory queue rfl rfl rfl _ _
      | disconnect => exact .deferred queue
  | sleepMessages rest ready =>
    cases rest with
    | nil => exact .rests
    | cons completion rest =>
      exact handleClientMessage_happens (by rw [messageIn, phase]) (.sleepMessages rest ready)
        chance
  | sleepDisconnections =>
    dsimp only
    cases ended : manager.disconnections with
    | nil => exact .rests
    | cons connection rest =>
      exact @handleDisconnections_happens manager { manager with
        phase := .sleepDisconnections
        disconnections := rest } connection rfl rfl (Or.inl rfl) _
  | sleepTop =>
    dsimp only
    split
    · exact .rests
    · split <;> exact .rests
  | sleepEvents ready =>
    cases ready with
    | nil => exact .rests
    | cons channel rest => cases channel <;> exact .rests
  | sleepLeases rest ready => cases rest <;> exact .rests
  | stopped => exact .rests

/-- Everything that one event can do. -/
theorem step_happens (event : Event) :
    Happens manager event (manager.step event).clientQueue (manager.step event).clients
      (manager.step event).fault (manager.handledEnd event) (manager.effects event) := by
  unfold step effects handledEnd
  by_cases faulted : manager.fault = true
  · rw [if_pos faulted, if_pos faulted, if_pos faulted]
    exact .rests
  · rw [if_neg faulted, if_neg faulted, if_neg faulted]
    cases event with
    | requested connection =>
      simp only [requested]
      by_cases positive : 0 < connection.privateData
      · by_cases known : connection.privateData ∈ manager.clientsToConnect
        · simp only [positive, known, if_true, not_true_eq_false, and_false, if_false]
          exact .accepted rfl positive
        · simp only [positive, known, if_true, not_false_eq_true, and_self, if_false]
          exact .rejected rfl
      · simp only [positive, false_and, if_false]
        exact .joined rfl rfl rfl rfl rfl positive
    | disconnected => exact .ended rfl
    | account qpNum =>
      simp only [account]
      cases found : manager.clients.lookup qpNum with
      | none => exact .rests
      | some client => exact .accounted found
    | thread chance => exact threadStep_happens manager chance
    | _ => exact .rests

end Manager

end ExecutorManager

end RFaaS
