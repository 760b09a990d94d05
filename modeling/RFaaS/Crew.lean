/-
This file is about the table of connections in an executor. It has as many
places as the executor has cores, `add_executor` does not look whether one is
free, and a connection is matched with an executor only by the queue pair number
of the client.

Two ghosts say where connections come from. `Spawns` counts the executors that
were forked and knows the last one of every client. `origin` names, for a
connection of an executor, the executor and the thread of it that connects. If
every thread connects once, and is adopted while the executor that started it is
still the one of its client, then the table has a place for it.
-/

import RFaaS.GiveBack
import RFaaS.Processes

namespace RFaaS

namespace ExecutorManager

open Transition List

/-! ### Executors and their threads -/

/-- The cores of the executors that were forked, in their order, and the last executor of every
client, the latest first. -/
structure Spawns where
  cores : List Int
  current : List (Nat × Nat)

namespace Spawns

def record (spawns : Spawns) : Effect → Spawns
  | .fork serial lease _ =>
    { cores := spawns.cores ++ [lease.cores]
      current := (serial, spawns.cores.length) :: spawns.current }
  | _ => spawns

/-- An executor has been forked, and has such a thread. -/
def Started (spawns : Spawns) (thread : Nat × Nat) : Prop :=
  ∃ cores ∈ spawns.cores[thread.1]?, (thread.2 : Int) < cores

instance decidableStarted (spawns : Spawns) (thread : Nat × Nat) :
    Decidable (spawns.Started thread) :=
  inferInstanceAs (Decidable (∃ cores ∈ spawns.cores[thread.1]?, (thread.2 : Int) < cores))

/-- The executor is the last one that was forked for the client, and different threads of it have
connected. -/
structure Staffed (spawns : Spawns) (origin : Connection → Nat × Nat) (serial : Nat)
    (executor : ActiveExecutor) : Prop where
  positive : 0 < executor.cores
  team : ∃ number, spawns.current.lookup serial = some number ∧
    spawns.cores[number]? = some executor.cores ∧
    ∀ connection ∈ executor.connections, (origin connection).1 = number ∧
      ((origin connection).2 : Int) < executor.cores
  once : (executor.connections.map origin).Nodup

variable {spawns : Spawns} {origin : Connection → Nat × Nat} {serial : Nat}
  {executor : ActiveExecutor}

/-- There are no more different threads than cores. -/
theorem Staffed.length_le (staffed : spawns.Staffed origin serial executor) :
    (executor.connections.length : Int) ≤ executor.cores := by
  obtain ⟨number, _, _, threads⟩ := staffed.team
  have team : ∀ thread ∈ executor.connections.map origin,
      thread.1 = number ∧ (thread.2 : Int) < executor.cores := by
    intro thread member
    obtain ⟨connection, inside, rfl⟩ := mem_map.mp member
    exact threads connection inside
  have distinct : ((executor.connections.map origin).map Prod.snd).Nodup := by
    refine staffed.once.map_on fun first one second other same => ?_
    exact Prod.ext ((team first one).1.trans (team second other).1.symm) same
  have below : (executor.connections.map origin).map Prod.snd ⊆
      range executor.cores.toNat := by
    intro thread member
    obtain ⟨pair, inside, rfl⟩ := mem_map.mp member
    have bound := (team pair inside).2
    exact mem_range.mpr (by omega)
  have few := (distinct.subperm below).length_le
  have positive := staffed.positive
  simp only [length_map, length_range] at few
  omega

theorem Staffed.adopt (staffed : spawns.Staffed origin serial executor) {connection : Connection}
    (last : spawns.current.lookup serial = some (origin connection).1)
    (started : spawns.Started (origin connection))
    (new : ∀ other ∈ executor.connections, origin connection ≠ origin other) :
    spawns.Staffed origin serial (executor.addExecutor connection) where
  positive := staffed.positive
  team := by
    obtain ⟨number, current, cores, threads⟩ := staffed.team
    obtain rfl : (origin connection).1 = number := Option.some.inj (last.symm.trans current)
    obtain ⟨other, same, below⟩ := started
    obtain rfl : other = executor.cores := Option.some.inj (same.symm.trans cores)
    refine ⟨_, current, cores, fun member inside => ?_⟩
    rcases mem_append.mp inside with old | last
    · exact threads member old
    · rw [mem_singleton.mp last]
      exact ⟨rfl, below⟩
  once := by
    rw [ActiveExecutor.addExecutor, map_append]
    refine nodup_append.mpr ⟨staffed.once, nodup_singleton _, ?_⟩
    rintro _ old _ single same
    obtain ⟨other, inside, rfl⟩ := mem_map.mp old
    rw [mem_singleton.mp single] at same
    exact new other inside same.symm

theorem getElem?_record {number : Nat} {cores : Int} (found : spawns.cores[number]? = some cores)
    (effect : Effect) : (spawns.record effect).cores[number]? = some cores := by
  cases effect with
  | fork =>
    rw [record, List.getElem?_append_left (List.getElem?_eq_some_iff.mp found).1, found]
  | _ => exact found

theorem Started.record {thread : Nat × Nat} (started : spawns.Started thread) (effect : Effect) :
    (spawns.record effect).Started thread := by
  obtain ⟨cores, found, below⟩ := started
  exact ⟨cores, getElem?_record found effect, below⟩

section Fork

variable {other : Nat} {lease : Lease} {pid : Int}

theorem lookup_record_fork (different : serial ≠ other) :
    (spawns.record (.fork other lease pid)).current.lookup serial =
      spawns.current.lookup serial := by
  rw [record, lookup_cons, beq_false_of_ne different]

/-- The executors of other clients are not concerned by a fork. -/
theorem Staffed.record (staffed : spawns.Staffed origin serial executor)
    (different : serial ≠ other) :
    (spawns.record (.fork other lease pid)).Staffed origin serial executor where
  positive := staffed.positive
  team := by
    obtain ⟨number, current, cores, threads⟩ := staffed.team
    refine ⟨number, ?_, getElem?_record cores _, threads⟩
    rw [lookup_record_fork different, current]
  once := staffed.once

theorem staffed_fork (positive : 0 < lease.cores) (now : Int) :
    (spawns.record (.fork serial lease pid)).Staffed origin serial
      ⟨pid, lease.cores, [], now⟩ where
  positive := positive
  team := ⟨spawns.cores.length, by simp [Spawns.record], by simp [Spawns.record],
    fun _ member => absurd member not_mem_nil⟩
  once := nodup_nil

end Fork

theorem run_record_of_no_fork (spawns : Spawns) {effects : List Effect}
    (none : ∀ serial lease pid, .fork serial lease pid ∉ effects) :
    run record spawns effects = spawns := by
  refine run_of_idle fun effect member => ?_
  cases effect with
  | fork serial lease pid => exact absurd member (none serial lease pid)
  | _ => rfl

theorem run_record_filter (spawns : Spawns) (effects : List Effect) :
    run record spawns (effects.filter Effect.onProcess) = run record spawns effects := by
  refine run_filter (fun spawns effect connection => ?_) spawns effects
  cases effect with
  | fork => cases connection
  | _ => rfl

end Spawns

/-! ### The effects of one client

What is done to a client forks no process and adds no connection to an executor. -/

namespace Client

variable (client : Client)

@[simp] theorem notMem_useEffects :
    (∀ serial lease pid, .fork serial lease pid ∉ client.useEffects) ∧
      ∀ executor connection, .adopt executor connection ∉ client.useEffects := by
  simp [useEffects]

@[simp] theorem notMem_resetEffects :
    (∀ serial lease pid, .fork serial lease pid ∉ client.resetEffects) ∧
      ∀ executor connection, .adopt executor connection ∉ client.resetEffects := by
  simp [resetEffects, ActiveExecutor.destroyEffects]

@[simp] theorem notMem_destroyEffects :
    (∀ serial lease pid, .fork serial lease pid ∉ client.destroyEffects) ∧
      ∀ executor connection, .adopt executor connection ∉ client.destroyEffects := by
  simp [destroyEffects, closeEffects]

@[simp] theorem notMem_disableEffects :
    (∀ serial lease pid, .fork serial lease pid ∉ client.disableEffects) ∧
      ∀ executor connection, .adopt executor connection ∉ client.disableEffects := by
  simp [disableEffects, killEffects, closeEffects]

@[simp] theorem notMem_checkEffects (exited : List Int) :
    (∀ serial lease pid, .fork serial lease pid ∉ client.checkEffects exited) ∧
      ∀ executor connection, .adopt executor connection ∉ client.checkEffects exited := by
  by_cases finished : client.finished exited <;> by_cases active : client.active <;>
    simp [checkEffects, waitEffects, finished, active]

end Client

/-! ### The invariant -/

/-- The connection of an executor that an entry of the queue brings. -/
def Operation.executor? : Operation → Option Connection
  | .connect (.executor connection) => some connection
  | _ => none

/-- The connections of executors that wait in a queue. -/
def executorsIn (queue : List Operation) : List Connection := queue.filterMap Operation.executor?

/-- The thread that connects with an event. -/
def arrivals (origin : Connection → Nat × Nat) : Event → List (Nat × Nat)
  | .requested connection _ _ => if 0 < connection.privateData then [origin connection] else []
  | _ => []

namespace Manager

/-- Different threads of executors wait in the queue and are adopted, and every client has the last
executor that was forked for it. -/
structure Crews (origin : Connection → Nat × Nat) (spawns : Spawns) (arrived : List (Nat × Nat))
    (queue : List Operation) (clients : Table UInt32 Client) : Prop where
  queued : ∀ client, .connect (.client client) ∈ queue →
    client.executor = none ∧ spawns.current.lookup client.serial = none
  waiting : ∀ connection ∈ executorsIn queue,
    spawns.Started (origin connection) ∧ origin connection ∈ arrived
  once : ((executorsIn queue).map origin).Nodup
  unserved : ∀ qpNum client, clients.lookup qpNum = some client → client.executor = none →
    spawns.current.lookup client.serial = none
  staffed : ∀ qpNum client executor, clients.lookup qpNum = some client →
    client.executor = some executor → spawns.Staffed origin client.serial executor
  apart : ∀ qpNum client executor, clients.lookup qpNum = some client →
    client.executor = some executor → ∀ connection ∈ executor.connections,
    origin connection ∈ arrived ∧
      ∀ other ∈ executorsIn queue, origin other ≠ origin connection

/-- No other client that waits or is registered has the serial number of a registered one. -/
theorem Sound.serial_ne {manager : Manager} (sound : manager.Sound) {qpNum : UInt32}
    {client : Client} (found : manager.clients.lookup qpNum = some client) {entry : Nat × Bool}
    (member : entry ∈ livingIn manager.clientQueue (manager.clients.erase qpNum)) :
    entry.1 ≠ client.serial := by
  have distinct : (manager.living.map Prod.fst).Nodup :=
    Multiset.nodup_of_le (Multiset.map_le_map (Multiset.le_add_right _ _)) sound.distinct
  rw [living, livingIn_of_lookup found, Multiset.map_cons, Multiset.nodup_cons] at distinct
  intro same
  exact distinct.1 (Multiset.mem_map.mpr ⟨entry, member, same⟩)

theorem Sound.registered_serial_ne {manager : Manager} (sound : manager.Sound)
    {qpNum other : UInt32} {client second : Client}
    (found : manager.clients.lookup qpNum = some client)
    (also : manager.clients.lookup other = some second) (different : other ≠ qpNum) :
    second.serial ≠ client.serial :=
  sound.serial_ne found (mem_livingIn.mpr
    ⟨second, Or.inr ⟨other, Table.lookup_erase_eq_some.mpr ⟨different, also⟩⟩, rfl⟩)

theorem Sound.queued_serial_ne {manager : Manager} (sound : manager.Sound) {qpNum : UInt32}
    {client queued : Client} (found : manager.clients.lookup qpNum = some client)
    (member : .connect (.client queued) ∈ manager.clientQueue) :
    queued.serial ≠ client.serial :=
  sound.serial_ne found (mem_livingIn.mpr
    ⟨queued, Or.inl (Multiset.mem_coe.mpr (mem_filterMap.mpr ⟨_, member, rfl⟩)), rfl⟩)

variable {manager : Manager} {event : Event} {queue : List Operation}
  {clients : Table UInt32 Client} {fault : Bool} {ended : Option Connection}
  {effects : List Effect} {origin : Connection → Nat × Nat} {spawns : Spawns}
  {arrived : List (Nat × Nat)}

/-- A request is served: the client gets the last executor, and nobody else is concerned. -/
theorem Crews.serve (crews : Crews origin spawns arrived manager.clientQueue manager.clients)
    (sound : manager.Sound) {qpNum : UInt32} {client : Client} {lease : Lease} {pid now : Int}
    {served : Option Int32} (found : manager.clients.lookup qpNum = some client)
    (positive : 0 < lease.cores) :
    Crews origin (spawns.record (.fork client.serial lease pid)) arrived manager.clientQueue
      (manager.clients.insert qpNum { client with
        executor := some ⟨pid, lease.cores, [], now⟩
        served := served }) where
  queued other member := by
    obtain ⟨idle, unknown⟩ := crews.queued other member
    refine ⟨idle, ?_⟩
    rw [Spawns.lookup_record_fork (sound.queued_serial_ne found member), unknown]
  waiting connection member := by
    obtain ⟨started, known⟩ := crews.waiting connection member
    exact ⟨started.record _, known⟩
  once := crews.once
  unserved other second also idle := by
    rcases Table.lookup_insert_eq_some.mp also with ⟨_, rfl⟩ | ⟨different, old⟩
    · cases idle
    · rw [Spawns.lookup_record_fork (sound.registered_serial_ne found old different)]
      exact crews.unserved other second old idle
  staffed other second executor also busy := by
    rcases Table.lookup_insert_eq_some.mp also with ⟨_, rfl⟩ | ⟨different, old⟩
    · cases busy
      exact Spawns.staffed_fork positive now
    · exact (crews.staffed other second executor old busy).record
        (sound.registered_serial_ne found old different)
  apart other second executor also busy := by
    rcases Table.lookup_insert_eq_some.mp also with ⟨_, rfl⟩ | ⟨different, old⟩
    · cases busy
      exact fun _ member => absurd member not_mem_nil
    · exact crews.apart other second executor old busy

/-- The threads that wait were waiting before, or one more has connected. -/
theorem Happens.executorsIn_cases
    (happens : Happens manager event queue clients fault ended effects)
    (origin : Connection → Nat × Nat) :
    (executorsIn queue).Sublist (executorsIn manager.clientQueue) ∨
      ∃ connection, arrivals origin event = [origin connection] ∧
        executorsIn queue = executorsIn manager.clientQueue ++ [connection] := by
  rcases happens.queue_cases with ⟨operation, enqueued, rfl⟩ | suffix
  · unfold executorsIn
    rw [filterMap_append]
    cases enqueued with
    | @executor connection _ _ arrival positive =>
      refine Or.inr ⟨connection, ?_, rfl⟩
      rw [arrival, arrivals, if_pos positive]
    | _ => exact Or.inl (by simp [Operation.executor?])
  · exact Or.inl (suffix.sublist.filterMap _)

/-- A thread that waits was waiting before, or connects now. -/
theorem Happens.mem_executorsIn (happens : Happens manager event queue clients fault ended effects)
    (origin : Connection → Nat × Nat) {connection : Connection}
    (waits : connection ∈ executorsIn queue) :
    connection ∈ executorsIn manager.clientQueue ∨ origin connection ∈ arrivals origin event := by
  rcases happens.executorsIn_cases origin with fewer | ⟨new, arrival, more⟩
  · exact Or.inl (fewer.subset waits)
  · rw [more] at waits
    rcases mem_append.mp waits with old | last
    · exact Or.inl old
    · refine Or.inr ?_
      rw [mem_singleton.mp last, arrival]
      exact mem_cons_self

section Queue

variable (crews : Crews origin spawns arrived manager.clientQueue manager.clients)
  (happens : Happens manager event queue clients fault ended effects)
  (genuine : ∀ thread ∈ arrivals origin event, spawns.Started thread ∧ thread ∉ arrived)

include crews happens genuine

theorem Crews.rest_waiting {connection : Connection} (waits : connection ∈ executorsIn queue) :
    spawns.Started (origin connection) ∧
      origin connection ∈ arrivals origin event ++ arrived := by
  rcases happens.mem_executorsIn origin waits with old | new
  · obtain ⟨started, known⟩ := crews.waiting connection old
    exact ⟨started, mem_append_right _ known⟩
  · exact ⟨(genuine _ new).1, mem_append_left _ new⟩

theorem Crews.rest_once : ((executorsIn queue).map origin).Nodup := by
  rcases happens.executorsIn_cases origin with fewer | ⟨new, arrival, more⟩
  · exact crews.once.sublist (fewer.map origin)
  · rw [more, map_append]
    refine nodup_append.mpr ⟨crews.once, nodup_singleton _, ?_⟩
    rintro _ old _ single same
    obtain ⟨connection, member, rfl⟩ := mem_map.mp old
    rw [mem_singleton.mp single] at same
    have arrives : origin new ∈ arrivals origin event := by
      rw [arrival]
      exact mem_cons_self
    exact (genuine _ arrives).2 (same ▸ (crews.waiting connection member).2)

/-- The threads that an executor has are others than those that wait. -/
theorem Crews.rest_apart {qpNum : UInt32} {client : Client} {executor : ActiveExecutor}
    (found : manager.clients.lookup qpNum = some client)
    (busy : client.executor = some executor) {connection : Connection}
    (member : connection ∈ executor.connections) :
    origin connection ∈ arrivals origin event ++ arrived ∧
      ∀ other ∈ executorsIn queue, origin other ≠ origin connection := by
  obtain ⟨known, others⟩ := crews.apart qpNum client executor found busy connection member
  refine ⟨mem_append_right _ known, fun other waits => ?_⟩
  rcases happens.mem_executorsIn origin waits with old | new
  · exact others other old
  · exact fun same => (genuine _ new).2 (same ▸ known)

end Queue

/-- Nothing is forked: clients keep their executors, and a thread is adopted by the executor that
started it. -/
theorem Crews.rest (crews : Crews origin spawns arrived manager.clientQueue manager.clients)
    (happens : Happens manager event queue clients fault ended effects)
    (quiet : ∀ serial lease pid, .fork serial lease pid ∉ effects)
    (bounded : ∀ team ∈ spawns.current, team.1 < manager.made)
    (genuine : ∀ thread ∈ arrivals origin event, spawns.Started thread ∧ thread ∉ arrived)
    (timely : ∀ executor connection, .adopt executor connection ∈ effects →
      ∀ client, manager.clients.lookup connection.privateData = some client →
      spawns.current.lookup client.serial = some (origin connection).1) :
    Crews origin spawns (arrivals origin event ++ arrived) queue clients where
  queued client member := by
    rcases happens.mem_queue member with old | new
    · exact crews.queued client old
    · cases new with
      | client arrival own idle serial =>
        refine ⟨idle, lookup_eq_none_iff.mpr fun team member => ?_⟩
        rw [serial]
        exact bne_iff_ne.mpr (bounded team member).ne'
  waiting _ waits := crews.rest_waiting happens genuine waits
  once := crews.rest_once happens genuine
  unserved qpNum client found idle := by
    cases happens.became found with
    | @kept old was serial same =>
      rw [serial]
      exact crews.unserved qpNum old was (same ▸ idle)
    | @entered queued _ head own key serial same =>
      rw [serial]
      exact (crews.queued queued (by rw [head]; exact mem_cons_self)).2
    | adopted head key was serial busy grown effect =>
      rw [grown] at idle
      cases idle
    | served was serial forked same => exact absurd forked (quiet _ _ _)
  staffed qpNum client executor found busy := by
    cases happens.became found with
    | @kept old was serial same =>
      rw [serial]
      exact crews.staffed qpNum old executor was (same ▸ busy)
    | @entered queued _ head own key serial same =>
      rw [same, (crews.queued queued (by rw [head]; exact mem_cons_self)).1] at busy
      cases busy
    | @adopted old before connection head key was serial had grown effect =>
      rw [grown] at busy
      cases busy
      rw [serial]
      have waits : connection ∈ executorsIn manager.clientQueue := by
        rw [head]
        exact mem_cons_self
      exact (crews.staffed qpNum old before was had).adopt
        (timely _ connection effect old (key ▸ was)) (crews.waiting connection waits).1
        fun other inside => (crews.apart qpNum old before was had other inside).2 connection waits
    | served was serial forked same => exact absurd forked (quiet _ _ _)
  apart qpNum client executor found busy connection member := by
    cases happens.became found with
    | kept was serial same => exact crews.rest_apart happens genuine was (same ▸ busy) member
    | @entered queued _ head own key serial same =>
      rw [same, (crews.queued queued (by rw [head]; exact mem_cons_self)).1] at busy
      cases busy
    | @adopted old before new head key was serial had grown effect =>
      rw [grown] at busy
      cases busy
      rcases mem_append.mp member with earlier | last
      · exact crews.rest_apart happens genuine was had earlier
      · -- The thread that is adopted stood in the queue before all others.
        rw [mem_singleton.mp last]
        have once := crews.once
        have waits := crews.waiting new
        rw [head] at once waits
        refine ⟨mem_append_right _ (waits mem_cons_self).2, fun other behind same => ?_⟩
        exact (nodup_cons.mp once).1 (mem_map.mpr ⟨other, behind, same⟩)
    | served was serial forked same => exact absurd forked (quiet _ _ _)

theorem Crews.next (crews : Crews origin spawns arrived manager.clientQueue manager.clients)
    (sound : manager.Sound) (happens : Happens manager event queue clients fault ended effects)
    (bounded : ∀ team ∈ spawns.current, team.1 < manager.made)
    (genuine : ∀ thread ∈ arrivals origin event, spawns.Started thread ∧ thread ∉ arrived)
    (cores : ∀ serial lease pid, .fork serial lease pid ∈ effects → 0 < lease.cores)
    (timely : ∀ executor connection, .adopt executor connection ∈ effects →
      ∀ client, manager.clients.lookup connection.privateData = some client →
      spawns.current.lookup client.serial = some (origin connection).1) :
    Crews origin (run Spawns.record spawns effects) (arrivals origin event ++ arrived) queue
        clients ∧
      ∀ team ∈ (run Spawns.record spawns effects).current, team.1 < manager.made := by
  have rest : (∀ serial lease pid, .fork serial lease pid ∉ effects) →
      Crews origin (run Spawns.record spawns effects) (arrivals origin event ++ arrived) queue
          clients ∧
        ∀ team ∈ (run Spawns.record spawns effects).current, team.1 < manager.made := by
    intro quiet
    rw [Spawns.run_record_of_no_fork spawns quiet]
    exact ⟨crews.rest happens quiet bounded genuine timely, bounded⟩
  cases happens with
  | @served qpNum client lease chance request turn asked found present =>
    have one : run Spawns.record spawns
        (client.useEffects ++ .fork client.serial lease chance.pid :: client.resetEffects ++
          client.useEffects ++ [.answer client.serial .allocated]) =
        spawns.record (.fork client.serial lease chance.pid) := by
      rw [← Spawns.run_record_filter, filter_serving]
      rfl
    rw [one, turn]
    refine ⟨crews.serve sound found (cores client.serial lease chance.pid (by simp)),
      fun team member => ?_⟩
    rcases mem_cons.mp member with rfl | old
    · exact sound.bounded client.tag (Multiset.mem_add.mpr
        (Or.inl (mem_livingIn.mpr ⟨client, Or.inr ⟨qpNum, found⟩, rfl⟩)))
    · exact bounded team old
  | checked kept => exact rest fun _ _ _ => by simp [checkExecutorsEffects]
  | cleared gone => exact rest fun _ _ _ => by simp [clearClientsEffects]
  | _ => exact rest fun _ _ _ => by simp

end Manager

/-! ### Adoptions -/

namespace Manager

variable {manager : Manager} {event : Event} {queue : List Operation}
  {clients : Table UInt32 Client} {fault : Bool} {ended : Option Connection}
  {effects : List Effect}

/-- A connection is added to the executor of the client that it names. -/
theorem Happens.adopt_mem (happens : Happens manager event queue clients fault ended effects)
    {executor : Option ActiveExecutor} {connection : Connection}
    (member : .adopt executor connection ∈ effects) :
    connection ∈ executorsIn manager.clientQueue ∧
      ∃ client, manager.clients.lookup connection.privateData = some client ∧
        client.executor = executor := by
  have first : ∀ rest, manager.clientQueue = .connect (.executor connection) :: rest →
      connection ∈ executorsIn manager.clientQueue := by
    intro rest head
    rw [head]
    exact mem_cons_self
  cases happens with
  | @orphaned other rest client head found idle =>
    obtain ⟨rfl, rfl⟩ : executor = none ∧ connection = other := by simpa using member
    exact ⟨first _ head, client, found, idle⟩
  | @adopted other rest client active head found busy =>
    obtain ⟨rfl, rfl⟩ : executor = some active ∧ connection = other := by simpa using member
    exact ⟨first _ head, client, found, busy⟩
  | checked kept => simp [checkExecutorsEffects] at member
  | cleared gone => simp [clearClientsEffects] at member
  | _ => simp at member

/-! ### Runs -/

theorem threadStep_made (manager : Manager) (chance : Chance) :
    (manager.threadStep chance).made = manager.made := by
  refine @threadStep_rule (fun after _ => after.made = manager.made) manager chance
    (fun _ _ _ _ _ => rfl) (fun _ _ _ => (handleConnections_spares _ _).made) (fun _ _ _ => rfl)
    (fun _ _ _ => (eraseClient_spares _ _).made) (fun _ _ _ => (eraseClient_spares _ _).made)
    (fun phase completion _ _ => ?_) (fun _ _ _ => rfl) (fun _ => (checkExecutors_spares _ _).made)
    fun _ => (eraseAll_spares _ _).made
  exact @handleClientMessage_rule (fun after => after.made = manager.made) _ completion chance rfl
    (fun _ _ => rfl) (fun _ _ _ _ _ _ => rfl) fun _ _ _ => (eraseClient_spares _ _).made

theorem made_le_step (manager : Manager) (event : Event) :
    manager.made ≤ (manager.step event).made := by
  unfold step
  split
  · exact le_rfl
  · cases event with
    | requested =>
      dsimp only [requested]
      split
      · split <;> exact le_rfl
      · exact Nat.le_succ _
    | account =>
      dsimp only [account]
      split <;> exact le_rfl
    | thread chance => exact (threadStep_made manager chance).ge
    | _ => exact le_rfl

end Manager

/-- The lease of the executor that an effect forks. -/
def Effect.spawned? : Effect → Option Lease
  | .fork _ lease _ => some lease
  | _ => none

/-- The connection that an effect adds to an executor. -/
def Effect.adopted? : Effect → Option Connection
  | .adopt _ connection => some connection
  | _ => none

/-- The manager, the executors that it has forked, and the threads that have connected. -/
structure Crewed where
  manager : Manager
  spawns : Spawns
  arrived : List (Nat × Nat)

namespace Crewed

def start (loop : Loop) : Crewed := ⟨.start loop, ⟨[], []⟩, []⟩

def step (origin : Connection → Nat × Nat) (crewed : Crewed) (event : Event) : Crewed where
  manager := crewed.manager.step event
  spawns := run Spawns.record crewed.spawns (crewed.manager.effects event)
  arrived := arrivals origin event ++ crewed.arrived

/-- Every thread of an executor that was forked connects once, and executors have cores. -/
def Genuine (origin : Connection → Nat × Nat) (crewed : Crewed) (event : Event) : Prop :=
  (∀ thread ∈ arrivals origin event, crewed.spawns.Started thread ∧ thread ∉ crewed.arrived) ∧
    ∀ lease ∈ (crewed.manager.effects event).filterMap Effect.spawned?, 0 < lease.cores

instance decidableGenuine (origin : Connection → Nat × Nat) (crewed : Crewed) (event : Event) :
    Decidable (crewed.Genuine origin event) :=
  inferInstanceAs (Decidable (_ ∧ _))

/-- A thread is adopted while the executor that started it is the last one of the client. -/
def Timely (origin : Connection → Nat × Nat) (crewed : Crewed) (event : Event) : Prop :=
  ∀ connection ∈ (crewed.manager.effects event).filterMap Effect.adopted?,
    ∀ client ∈ crewed.manager.clients.lookup connection.privateData,
      crewed.spawns.current.lookup client.serial = some (origin connection).1

instance decidableTimely (origin : Connection → Nat × Nat) (crewed : Crewed) (event : Event) :
    Decidable (crewed.Timely origin event) :=
  decidableBAll _ _

/-- There is an executor with a free place when a connection is added. -/
def Admits (crewed : Crewed) (event : Event) : Prop :=
  ∀ executor connection, .adopt executor connection ∈ crewed.manager.effects event →
    ∃ active, executor = some active ∧ (active.connections.length : Int) < active.cores

/-- No executor has more connections than cores. -/
def Fits (crewed : Crewed) : Prop :=
  ∀ qpNum client, crewed.manager.clients.lookup qpNum = some client →
    ∀ executor ∈ client.executor, (executor.connections.length : Int) ≤ executor.cores

instance decidableFits (crewed : Crewed) : Decidable crewed.Fits :=
  Table.decidableForallLookup crewed.manager.clients fun _ client =>
    ∀ executor ∈ client.executor, (executor.connections.length : Int) ≤ executor.cores

structure Manned (origin : Connection → Nat × Nat) (crewed : Crewed) : Prop where
  sound : crewed.manager.Sound
  bounded : ∀ team ∈ crewed.spawns.current, team.1 < crewed.manager.made
  crews : Manager.Crews origin crewed.spawns crewed.arrived crewed.manager.clientQueue
    crewed.manager.clients

variable {origin : Connection → Nat × Nat} {crewed : Crewed} {event : Event}

theorem start_manned (origin : Connection → Nat × Nat) (loop : Loop) :
    (start loop).Manned origin where
  sound := Manager.start_sound loop
  bounded _ member := absurd member not_mem_nil
  crews := by
    refine ⟨fun _ member => ?_, fun _ member => ?_, nodup_nil, fun _ _ found => ?_,
      fun _ _ _ found => ?_, fun _ _ _ found => ?_⟩
    · exact absurd member not_mem_nil
    · exact absurd member not_mem_nil
    · cases found
    · cases found
    · cases found

theorem Manned.fits (manned : crewed.Manned origin) : crewed.Fits :=
  fun qpNum client found executor busy =>
    (manned.crews.staffed qpNum client executor found busy).length_le

theorem Manned.step (manned : crewed.Manned origin) (genuine : crewed.Genuine origin event)
    (timely : crewed.Timely origin event) : (crewed.step origin event).Manned origin := by
  obtain ⟨crews, bounded⟩ := manned.crews.next manned.sound (crewed.manager.step_happens event)
    manned.bounded genuine.1
    (fun _ lease _ forked => genuine.2 lease (mem_filterMap.mpr ⟨_, forked, rfl⟩))
    fun _ connection adopted => timely connection (mem_filterMap.mpr ⟨_, adopted, rfl⟩)
  refine ⟨(Manager.step_outcome manned.sound event).sound, fun team member => ?_, crews⟩
  exact (bounded team member).trans_le (crewed.manager.made_le_step event)

theorem Manned.admits (manned : crewed.Manned origin) (timely : crewed.Timely origin event) :
    crewed.Admits event := by
  intro executor connection member
  obtain ⟨waits, client, found, same⟩ := (crewed.manager.step_happens event).adopt_mem member
  have last := timely connection (mem_filterMap.mpr ⟨_, member, rfl⟩) client found
  cases busy : client.executor with
  | none =>
    rw [manned.crews.unserved _ client found busy] at last
    cases last
  | some active =>
    refine ⟨active, by rw [← same, busy], ?_⟩
    have staffed := (manned.crews.staffed _ client active found busy).adopt last
      (manned.crews.waiting connection waits).1 fun other inside =>
        (manned.crews.apart _ client active found busy other inside).2 connection waits
    have room := staffed.length_le
    simp only [ActiveExecutor.addExecutor, length_append, length_singleton] at room
    omega

/-- In every run of either loop in which the threads of the executors connect once each, every
connection that is added finds an executor with a free place, and no executor has more connections
than cores, if no connection is added after the executor that it comes from was replaced. -/
theorem connections_fit (origin : Connection → Nat × Nat) (loop : Loop) (events : List Event)
    (genuine : Along (step origin) (Genuine origin) (start loop) events)
    (timely : Along (step origin) (Timely origin) (start loop) events) :
    Along (step origin) Admits (start loop) events ∧
      Always (step origin) Fits (start loop) events := by
  have preserved : ∀ crewed event, Manned origin crewed →
      Genuine origin crewed event ∧ Timely origin crewed event →
      Manned origin (crewed.step origin event) := fun _ _ manned both => manned.step both.1 both.2
  have along := genuine.and timely
  have initially := start_manned origin loop
  exact ⟨along.of_invariant preserved (fun _ _ manned both => manned.admits both.2) initially,
    always_of_invariant preserved (fun _ manned => manned.fits) initially along⟩

/-- Connection number `2 * executor + thread + 1` comes from that thread of that executor. -/
def byAddress (connection : Connection) : Nat × Nat :=
  ((connection.address - 1) / 2, (connection.address - 1) % 2)

/-- A client connects on queue pair 7, asks for leases with the given cores, and the manager
thread serves it. -/
def served (requests : List AllocationRequest) : List Event :=
  [.requested ⟨⟨0, 7⟩, 0⟩ 0 0] ++
    requests.map (fun request => .message ⟨7, true, request⟩) ++
    replicate (requests.length + 5) Manager.tick

/-- Threads connect, and the manager thread adopts them. -/
def joins (addresses : List Nat) : List Event :=
  addresses.map (fun address => .requested ⟨⟨address, 20 + address.toUInt32⟩, 7⟩ 0 0) ++
    replicate (addresses.length + 5) Manager.tick

/-- Both threads of an executor with two cores connect. -/
theorem twoThreads_fit :
    Along (step byAddress) Admits (start .pollRdma) (served [⟨5, 2⟩] ++ joins [1, 2]) ∧
      Always (step byAddress) Fits (start .pollRdma) (served [⟨5, 2⟩] ++ joins [1, 2]) :=
  connections_fit byAddress .pollRdma _ (by decide) (by decide)

/-- A client asks for two leases with one core each. The threads of both executors connect, and the
executor that has replaced the other gets both connections, one more than it has places. -/
theorem replaced_executor_overflows :
    let events := served [⟨5, 1⟩, ⟨6, 1⟩] ++ joins [1, 3]
    Along (step byAddress) (Genuine byAddress) (start .pollRdma) events ∧
      ¬ Fits (run (step byAddress) (start .pollRdma) events) := by
  decide

end Crewed

end ExecutorManager

end RFaaS
