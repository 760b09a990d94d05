/-
This file is about the lease id in the messages that the executor manager sends
to the resource manager. `Client::disable` reports the member `_id`. The
constructor sets it to the queue pair number of the client, and neither of the
two move operations of `Client` carries it over. On its way to `_clients` a
client is moved into a variant, into the queue, into the static variable of
`_check_queue` and into a node of the map, and nothing writes to `_id` after
that: what is reported is what the memory of the node held when the map built
the client there.
-/

import RFaaS.ExecutorManager

namespace RFaaS

open Transition

namespace ExecutorManager

namespace Manager

/-- Every report for a client that was served names the lease that was served. -/
def ReportsServed (manager : Manager) : Prop :=
  ∀ notice ∈ manager.sent, ∀ lease, notice.served = some lease → notice.message.leaseId = lease

instance (manager : Manager) : Decidable manager.ReportsServed :=
  decidable_of_iff (∀ notice ∈ manager.sent,
      notice.served.all (fun lease => decide (notice.message.leaseId = lease)) = true) (by
    simp only [ReportsServed, Option.all_eq_true, decide_eq_true_eq])

/-- Every registered client has the id that the memory of its node held, and every report names
that id. -/
structure Inherited (manager : Manager) : Prop where
  registered : ∀ qpNum client, manager.clients.lookup qpNum = some client → client.id = client.node
  reported : ∀ notice ∈ manager.sent, notice.message.leaseId = notice.node

theorem start_inherited (loop : Loop) : (start loop).Inherited where
  registered _ _ found := by cases found
  reported := nofun

/-! ### The handlers -/

variable {manager : Manager}

section

variable (inherited : manager.Inherited)
include inherited

theorem Inherited.eraseClient (qpNum : UInt32) : (manager.eraseClient qpNum).Inherited := by
  unfold Manager.eraseClient
  split
  · exact inherited
  · refine ⟨fun other client found => ?_, inherited.reported⟩
    exact inherited.registered other client (Table.lookup_erase_eq_some.mp found).2

theorem Inherited.eraseAll (keys : List UInt32) :
    (keys.foldl Manager.eraseClient manager).Inherited :=
  run_stable (fun _ qpNum inherited => inherited.eraseClient qpNum) keys inherited

theorem Inherited.setClient (qpNum : UInt32) {client : Client}
    (own : client.id = client.node) : (manager.setClient qpNum client).Inherited := by
  refine ⟨fun other otherClient found => ?_, inherited.reported⟩
  rcases Table.lookup_insert_eq_some.mp found with ⟨_, rfl⟩ | ⟨_, old⟩
  · exact own
  · exact inherited.registered other otherClient old

theorem Inherited.disable (qpNum : UInt32) {client : Client}
    (own : client.id = client.node) (now : Int) : (manager.disable qpNum client now).Inherited := by
  refine ⟨(inherited.setClient qpNum ?_).registered, fun notice member => ?_⟩
  · cases client.executor <;> exact own
  · simp only [Manager.disable] at member
    split at member
    · rcases List.mem_append.mp member with old | new
      · exact inherited.reported notice old
      · rw [List.mem_singleton.mp new]
        exact own
    · exact inherited.reported notice member

theorem Inherited.handleConnections (nodeMemory : Int32) :
    (manager.handleConnections nodeMemory).Inherited := by
  unfold Manager.handleConnections
  split
  · split
    · exact inherited
    · rename_i client found
      split
      · exact ⟨inherited.registered, inherited.reported⟩
      · exact inherited.setClient _ (inherited.registered _ client found)
  · split
    · exact ⟨inherited.registered, inherited.reported⟩
    · refine ⟨fun other client found => ?_, inherited.reported⟩
      rcases Table.lookup_emplace_cases found with ⟨_, rfl, _⟩ | earlier
      · rfl
      · exact inherited.registered other client earlier

theorem Inherited.handleClientMessage (completion : WorkCompletion) (chance : Chance) :
    (manager.handleClientMessage completion chance).Inherited := by
  refine handleClientMessage_rule manager completion chance inherited ?_ ?_ ?_
  · exact fun _ _ => ⟨inherited.registered, inherited.reported⟩
  · intro client executor leases exited responses found
    have served : ({ client with
        executor := some executor
        served := some completion.request.leaseId } : Client).id = client.node :=
      inherited.registered _ client found
    exact ⟨(inherited.setClient completion.qpNum served).registered, inherited.reported⟩
  · intro client found _
    exact (inherited.disable completion.qpNum (inherited.registered _ client found)
      chance.now).eraseClient completion.qpNum

end

theorem Inherited.checkExecutor {checked : Manager × List UInt32}
    (inherited : checked.1.Inherited) (now : Int) (qpNum : UInt32) :
    (checkExecutor now checked qpNum).1.Inherited := by
  unfold Manager.checkExecutor
  split
  · exact inherited
  · rename_i client found
    have own := inherited.registered _ client found
    split
    · split
      · exact inherited
      · rename_i executor _
        split
        · have charged : ({ client.chargeAllocation executor now with
              executor := none } : Client).id = client.node := own
          exact inherited.disable qpNum charged now
        · exact inherited
    · exact inherited

theorem Inherited.checkExecutors (inherited : manager.Inherited) (now : Int) :
    (manager.checkExecutors now).Inherited := by
  have checked : ∀ (keys : List UInt32) (state : Manager × List UInt32), state.1.Inherited →
      (keys.foldl (Manager.checkExecutor now) state).1.Inherited := by
    intro keys
    induction keys with
    | nil => exact fun _ kept => kept
    | cons qpNum rest inductionHypothesis =>
      exact fun state kept => inductionHypothesis _ (kept.checkExecutor now qpNum)
  exact (checked manager.clients.keys (manager, []) inherited).eraseAll _

/-! ### Runs -/

theorem Inherited.threadStep (inherited : manager.Inherited) (chance : Chance) :
    (manager.threadStep chance).Inherited := by
  have same : ∀ {other : Manager}, other.clients = manager.clients → other.sent = manager.sent →
      other.Inherited := by
    intro other clients sent
    refine ⟨?_, ?_⟩
    · rw [clients]
      exact inherited.registered
    · rw [sent]
      exact inherited.reported
  refine @threadStep_rule (fun after _ => after.Inherited) manager chance
    ?_ ?_ ?_ ?_ ?_ ?_ ?_ ?_ ?_
  · exact fun _ _ _ _ _ => same rfl rfl
  · refine fun _ _ _ => Inherited.handleConnections ?_ chance.nodeMemory
    exact same rfl rfl
  · exact fun _ _ _ => same rfl rfl
  · refine fun connection _ _ => Inherited.eraseClient ?_ connection.qpNum
    exact same rfl rfl
  · refine fun connection _ _ => Inherited.eraseClient ?_ connection.qpNum
    exact same rfl rfl
  · refine fun _ completion _ _ => Inherited.handleClientMessage ?_ completion chance
    exact same rfl rfl
  · exact fun _ _ _ => same rfl rfl
  · refine fun _ => Inherited.checkExecutors ?_ chance.now
    exact same rfl rfl
  · have cleared := inherited.eraseAll manager.clients.keys
    exact fun _ => ⟨cleared.registered, cleared.reported⟩

theorem Inherited.step {manager : Manager} (inherited : manager.Inherited) (event : Event) :
    (manager.step event).Inherited := by
  have reported := inherited.reported
  have registered := inherited.registered
  unfold Manager.step
  split
  · exact inherited
  · split
    · unfold requested
      split
      · split <;> exact ⟨registered, reported⟩
      · exact ⟨registered, reported⟩
    · exact ⟨registered, reported⟩
    · exact ⟨registered, reported⟩
    · exact ⟨registered, reported⟩
    · unfold account
      split
      · exact inherited
      · rename_i client found
        exact inherited.setClient _ (registered _ client found)
    · exact ⟨registered, reported⟩
    · exact ⟨registered, reported⟩
    · rename_i chance
      exact inherited.threadStep chance

/-- In every run, the reports name the leases that were served exactly if, for every report, the
memory of the node in which the map built the client happened to hold the id of that lease. -/
theorem reportsServed_iff_memory (loop : Loop) (events : List Event) :
    (run step (start loop) events).ReportsServed ↔
      ∀ notice ∈ (run step (start loop) events).sent, ∀ lease,
        notice.served = some lease → notice.node = lease := by
  have preserved : ∀ manager event, Inherited manager → Inherited (manager.step event) :=
    fun _ event inherited => inherited.step event
  have inherited := run_stable preserved events (start_inherited loop)
  constructor
  · intro reports notice member lease served
    rw [← inherited.reported notice member]
    exact reports notice member lease served
  · intro memory notice member lease served
    rw [inherited.reported notice member]
    exact memory notice member lease served

/-- A client on queue pair 7 is served lease 5 and leaves. The memory of its node held 0, so the
report asks the resource manager to free lease 0. -/
theorem served_five_reports_zero :
    let tick : Event := .thread ⟨100, 0, 0, 0, []⟩
    let served := run step (start .pollRdma)
      ([.requested ⟨⟨0, 7⟩, 0⟩ 0 0, .message ⟨7, true, ⟨5, 1⟩⟩, .message ⟨7, true, ⟨-1, 0⟩⟩] ++
        List.replicate 5 tick)
    served.sent.map (fun notice => (notice.served, notice.message.leaseId)) = [(some 5, 0)] ∧
      ¬ served.ReportsServed := by
  decide

end Manager

end ExecutorManager

end RFaaS
