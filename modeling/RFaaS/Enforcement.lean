/-
This file is about what a lease means to the executor manager. The resource
manager announces every lease with the cores that it has granted, and the
sleeping loop enters the announcements into a table that the first writer wins.
Requests of clients write to the same table: `_process_client` inserts the lease
as the client describes it before it looks the lease up.

The ghost `announced` are the announcements that have arrived, and the first one
of an id is its grant. They are handled in order, so whatever the table holds for
an id is its grant, as long as no client comes first with another number of
cores. No request is ever answered `UNKNOWN`.
-/

import RFaaS.GiveBack
import RFaaS.Processes

namespace RFaaS

namespace ExecutorManager

open Transition

namespace Manager

/-- The announcements that have arrived and are not handled yet, in their order. -/
def awaiting (manager : Manager) : List Lease :=
  manager.phase.announcements ++ manager.leaseMessages

/-- The announcement that an event is. -/
def announcedBy (manager : Manager) (event : Event) : List Lease :=
  if manager.fault then []
  else
    match event with
    | .leaseAllocation lease => [lease]
    | _ => []

/-- The request that an event serves. -/
def requested? (manager : Manager) (event : Event) : Option (Client × AllocationRequest) :=
  if manager.fault then none
  else
    match event with
    | .thread _ => manager.requestIn
    | _ => none

/-! ### Who writes to the table -/

theorem Spares.awaiting {before after : Manager} (same : Spares before after) :
    after.awaiting = before.awaiting := by
  rw [Manager.awaiting, Manager.awaiting, same.phase, same.leaseMessages]

/-- What an event does to the table of leases and to the announcements that wait: an announcement
may arrive, the first one that waits may be handled, or a request may be served. -/
inductive Writes (manager : Manager) (event : Event) : Table Int32 Lease → List Lease → Prop
  | arrives (idle : manager.requested? event = none) :
      Writes manager event manager.leases (manager.awaiting ++ manager.announcedBy event)
  | learns {lease rest} (idle : manager.requested? event = none)
      (silent : manager.announcedBy event = []) (head : manager.awaiting = lease :: rest) :
      Writes manager event (manager.leases.emplace lease.id lease) rest
  | asks {client request} (asked : manager.requested? event = some (client, request))
      (silent : manager.announcedBy event = []) :
      Writes manager event
        (manager.leases.emplace request.leaseId ⟨request.leaseId, request.cores, 512⟩)
        manager.awaiting

/-- A step of the manager thread that neither handles a message of a client nor an announcement. -/
theorem moves_writes {manager after : Manager} {event : Event}
    (idle : manager.requested? event = none) (silent : manager.announcedBy event = [])
    (leases : after.leases = manager.leases) (same : after.awaiting = manager.awaiting) :
    Writes manager event after.leases after.awaiting := by
  have arrives := @Writes.arrives manager event idle
  rwa [silent, List.append_nil, ← leases, ← same] at arrives

variable {manager : Manager}

/-- A message of a client is handled. -/
theorem handleClientMessage_writes {completion : WorkCompletion} {event : Event}
    (handled : manager.messageIn = some completion)
    (request : manager.requested? event = manager.requestIn)
    (silent : manager.announcedBy event = []) {phase : Phase}
    (waits : { manager with phase := phase }.awaiting = manager.awaiting) (chance : Chance) :
    Writes manager event
      ({ manager with phase := phase }.handleClientMessage completion chance).leases
      ({ manager with phase := phase }.handleClientMessage completion chance).awaiting := by
  have ignored : manager.requestIn = none → ∀ after,
      Spares { manager with phase := phase } after →
      Writes manager event after.leases after.awaiting := fun none after same =>
    moves_writes (request.trans none) silent same.leases (same.awaiting.trans waits)
  cases found : manager.clients.lookup completion.qpNum with
  | none =>
    have idle : manager.requestIn = none := by
      rw [requestIn, handled, Option.bind_some, found]
      exact ite_self _
    simp only [handleClientMessage, found]
    exact ignored idle _ (.refl _)
  | some client =>
    by_cases asks : completion.success ∧ 0 ≤ completion.request.leaseId
    · obtain ⟨_, _, after, _⟩ := @handleClientMessage_request { manager with phase := phase }
        completion client found asks.1 asks.2 chance
      have asked := request.trans (requestIn_of_message handled found asks.1 asks.2)
      rw [after]
      have writes := Writes.asks asked silent
      rw [← waits] at writes
      exact writes
    · have idle : manager.requestIn = none := by
        rw [requestIn, handled, Option.bind_some, if_neg asks]
      by_cases success : completion.success = true
      · have final : ¬ 0 ≤ completion.request.leaseId := fun lease => asks ⟨success, lease⟩
        simp only [handleClientMessage, found, success, if_true, processClient, if_neg final]
        refine ignored idle _ (.trans ?_ (eraseClient_spares _ completion.qpNum))
        exact ⟨rfl, rfl, rfl, rfl, rfl⟩
      · simp only [handleClientMessage, found, if_neg success]
        exact ignored idle _ (.refl _)

/-- The step that handles a message of a client. -/
theorem threadStep_of_message {completion : WorkCompletion}
    (handled : manager.messageIn = some completion) (chance : Chance) :
    ∃ phase, manager.threadStep chance =
        { manager with phase := phase }.handleClientMessage completion chance ∧
      { manager with phase := phase }.awaiting = manager.awaiting ∧
      manager.threadEffects chance = manager.handleClientMessageEffects completion chance := by
  unfold messageIn at handled
  unfold threadStep awaiting threadEffects
  split at handled
  · rename_i phase
    cases handled
    rw [phase]
    exact ⟨_, rfl, rfl, rfl⟩
  · rename_i phase
    cases handled
    rw [phase]
    exact ⟨_, rfl, rfl, rfl⟩
  · cases handled

theorem threadStep_writes (running : manager.fault = false) (chance : Chance) :
    Writes manager (.thread chance) (manager.threadStep chance).leases
      (manager.threadStep chance).awaiting := by
  have silent : manager.announcedBy (.thread chance) = [] := by simp [announcedBy]
  have request : manager.requested? (.thread chance) = manager.requestIn := by
    simp [requested?, running]
  cases message : manager.messageIn with
  | some =>
    obtain ⟨phase, same, waits, _⟩ := threadStep_of_message message chance
    rw [same]
    exact handleClientMessage_writes message request silent waits chance
  | none =>
    have idle : manager.requested? (.thread chance) = none := by
      rw [request, requestIn, message]
      rfl
    have spared : ∀ before after : Manager, Spares before after →
        before.leases = manager.leases → before.awaiting = manager.awaiting →
        Writes manager (.thread chance) after.leases after.awaiting :=
      fun _ _ same leases waits =>
        moves_writes idle silent (same.leases.trans leases) (same.awaiting.trans waits)
    refine @threadStep_rule (fun after _ => Writes manager (.thread chance) after.leases
      after.awaiting) manager chance (fun _ _ _ _ moves => moves_writes idle silent rfl moves.2)
      (fun _ _ _ => spared _ _ (handleConnections_spares _ _) rfl rfl)
      (fun _ _ _ => spared _ _ (.refl _) rfl rfl)
      (fun _ _ _ => spared _ _ (eraseClient_spares _ _) rfl rfl)
      (fun _ _ _ => spared _ _ (eraseClient_spares _ _) rfl rfl)
      (fun _ completion batch _ => ?_) (fun phase lease learns => ?_) (fun turn => ?_)
      fun turn => ?_
    · rw [messageIn_eq, batch] at message
      cases message
    · -- Announcements are learnt in the order in which they arrived.
      exact .learns idle silent (by rw [awaiting, learns.2]; rfl)
    · refine spared _ _ (checkExecutors_spares _ _) rfl ?_
      rw [awaiting, awaiting, turn]
      rfl
    · have same := eraseAll_spares manager manager.clients.keys
      refine moves_writes idle silent same.leases ?_
      rw [awaiting, awaiting, turn]
      exact same.leaseMessages

theorem step_writes (manager : Manager) (event : Event) :
    Writes manager event (manager.step event).leases (manager.step event).awaiting := by
  unfold step
  by_cases faulted : manager.fault = true
  · rw [if_pos faulted]
    exact moves_writes (if_pos faulted) (if_pos faulted) rfl rfl
  · rw [if_neg faulted]
    have running : manager.fault = false := eq_false_of_ne_true faulted
    cases event with
    | thread chance => exact threadStep_writes running chance
    | leaseAllocation lease =>
      have arrives := @Writes.arrives manager (.leaseAllocation lease) (by simp [requested?])
      have waits : { manager with leaseMessages := manager.leaseMessages ++ [lease] }.awaiting =
          manager.awaiting ++ manager.announcedBy (.leaseAllocation lease) := by
        rw [announcedBy, if_neg faulted]
        exact (List.append_assoc _ _ _).symm
      rw [← waits] at arrives
      exact arrives
    | requested connection temporaryMemory queueMemory =>
      have same : (manager.requested connection temporaryMemory queueMemory).leases =
          manager.leases ∧
          (manager.requested connection temporaryMemory queueMemory).awaiting =
            manager.awaiting := by
        unfold requested
        split
        · split <;> exact ⟨rfl, rfl⟩
        · exact ⟨rfl, rfl⟩
      exact moves_writes (by simp [requested?]) (by simp [announcedBy]) same.1 same.2
    | account =>
      refine moves_writes (by simp [requested?]) (by simp [announcedBy]) ?_ ?_ <;>
        · dsimp only [account]
          split <;> rfl
    | _ => exact moves_writes (by simp [requested?]) (by simp [announcedBy]) rfl rfl

/-! ### What is forked -/

/-- A request of a known client is always served, with the lease that the table then has. -/
theorem effects_of_requested {event : Event} {client : Client} {request : AllocationRequest}
    (asked : manager.requested? event = some (client, request)) :
    ∃ lease pid, manager.leaseFor request = some lease ∧
      manager.effects event =
        client.useEffects ++ .fork client.serial lease pid :: client.resetEffects ++
          client.useEffects ++ [.answer client.serial .allocated] := by
  unfold requested? at asked
  split at asked
  · cases asked
  · rename_i running
    cases event with
    | thread chance =>
      obtain ⟨completion, handled, rest⟩ := Option.bind_eq_some_iff.mp asked
      split at rest
      · rename_i asks
        obtain ⟨owner, found, same⟩ := Option.map_eq_some_iff.mp rest
        cases same
        obtain ⟨lease, present, _, effects⟩ :=
          handleClientMessage_request found asks.1 asks.2 chance
        refine ⟨lease, chance.pid, present, ?_⟩
        rw [Manager.effects, if_neg running, ← effects]
        obtain ⟨_, _, _, same⟩ := threadStep_of_message handled chance
        exact same
      · cases rest
    | _ => cases asked

/-- Nothing is forked without a request. -/
theorem fork_requested {event : Event} {serial : Nat} {lease : Lease} {pid : Int}
    (forked : .fork serial lease pid ∈ manager.effects event) :
    ∃ client request, manager.requested? event = some (client, request) ∧
      manager.leaseFor request = some lease := by
  obtain ⟨client, request, chance, rfl, running, asked, present, -⟩ := fork_mem_effects forked
  exact ⟨client, request, (if_neg (by simp [running])).trans asked, present⟩

end Manager

/-! ### Runs -/

/-- The cores that are granted for a lease id by the first announcement of it. -/
def grantOf (announced : List Lease) (id : Int32) : Option Int :=
  (announced.find? fun lease => lease.id = id).map Lease.cores

/-- The manager, and the announcements that have arrived at it. -/
structure Informed where
  manager : Manager
  announced : List Lease

namespace Informed

/-- A manager that is connected to a resource manager and runs the sleeping loop. -/
def start : Informed := ⟨.start .processEventsSleep, []⟩

def step (informed : Informed) (event : Event) : Informed where
  manager := informed.manager.step event
  announced := informed.announced ++ informed.manager.announcedBy event

/-- Executors are spawned with the cores that were granted for their lease, and a request for a
lease that was not announced is answered `UNKNOWN` and spawns nothing. -/
structure Enforces (informed : Informed) (event : Event) : Prop where
  spawns : ∀ serial lease pid, .fork serial lease pid ∈ informed.manager.effects event →
    grantOf informed.announced lease.id = some lease.cores
  refuses : ∀ client request, informed.manager.requested? event = some (client, request) →
    grantOf informed.announced request.leaseId = none →
    .answer client.serial .unknown ∈ informed.manager.effects event ∧
      ∀ serial lease pid, .fork serial lease pid ∉ informed.manager.effects event

/-- For a lease that is not in the table an announcement has arrived before the request, with the
cores that it asks for. -/
def AsksGranted (informed : Informed) (event : Event) : Prop :=
  ∀ client request, informed.manager.requested? event = some (client, request) →
    informed.manager.leases.lookup request.leaseId = none →
    grantOf informed.announced request.leaseId = some request.cores

end Informed

/-- The announcements were handled in the order of their arrival, and the table holds what they
grant. -/
structure Faithful (announced : List Lease) (leases : Table Int32 Lease) (awaiting : List Lease) :
    Prop where
  heard : ∃ handled, announced = handled ++ awaiting ∧
    ∀ lease ∈ handled, leases.lookup lease.id ≠ none
  held : ∀ id lease, leases.lookup id = some lease →
    lease.id = id ∧ grantOf announced id = some lease.cores

theorem grantOf_append {announced : List Lease} {id : Int32} {cores : Int}
    (granted : grantOf announced id = some cores) (more : List Lease) :
    grantOf (announced ++ more) id = some cores := by
  obtain ⟨lease, first, same⟩ := Option.map_eq_some_iff.mp granted
  rw [grantOf, List.find?_append, first]
  exact congrArg some same

/-- The next announcement is the first one of its id, or the table has the id already. -/
theorem Faithful.grantOf_next {announced rest : List Lease} {leases : Table Int32 Lease}
    {lease : Lease} (faithful : Faithful announced leases (lease :: rest))
    (absent : leases.lookup lease.id = none) : grantOf announced lease.id = some lease.cores := by
  obtain ⟨handled, split, known⟩ := faithful.heard
  have earlier : handled.find? (fun other => other.id = lease.id) = none := by
    refine List.find?_eq_none.mpr fun other member same => known other member ?_
    rw [of_decide_eq_true same, absent]
  rw [grantOf, split, List.find?_append, earlier, Option.none_or]
  simp

/-- Whoever writes to the table writes what was granted. -/
theorem Faithful.emplace {announced awaiting : List Lease} {leases : Table Int32 Lease}
    (faithful : Faithful announced leases awaiting) {lease : Lease}
    (granted : leases.lookup lease.id = none → grantOf announced lease.id = some lease.cores) :
    Faithful announced (leases.emplace lease.id lease) awaiting where
  heard := by
    obtain ⟨handled, split, known⟩ := faithful.heard
    refine ⟨handled, split, fun other member => ?_⟩
    obtain ⟨old, found⟩ := Option.ne_none_iff_exists'.mp (known other member)
    rw [Table.lookup_emplace_of_lookup found]
    exact Option.some_ne_none old
  held id found present := by
    rcases Table.lookup_emplace_cases present with ⟨rfl, rfl, absent⟩ | old
    · exact ⟨rfl, granted absent⟩
    · exact faithful.held id found old

namespace Informed

/-- The announcements that have arrived, the table and the announcements that wait agree. -/
def Faithful (informed : Informed) : Prop :=
  ExecutorManager.Faithful informed.announced informed.manager.leases informed.manager.awaiting

theorem start_faithful : start.Faithful where
  heard := ⟨[], rfl, fun _ member => absurd member List.not_mem_nil⟩
  held _ _ found := by cases found

/-- The lease that a request is served with is the one that was granted, exactly if the request asks
for what was granted whenever the table has no lease for it. -/
theorem Faithful.enforces_iff {informed : Informed} (faithful : informed.Faithful)
    (event : Event) : informed.Enforces event ↔ informed.AsksGranted event := by
  constructor
  · intro enforces client request asked absent
    obtain ⟨lease, pid, present, effects⟩ := Manager.effects_of_requested asked
    rw [Manager.leaseFor_eq, absent, Option.getD_none] at present
    cases present
    exact enforces.spawns client.serial ⟨request.leaseId, request.cores, 512⟩ pid
      (by rw [effects]; simp)
  · intro asks
    have granted : ∀ client request,
        informed.manager.requested? event = some (client, request) →
        ∀ lease, informed.manager.leaseFor request = some lease →
        lease.id = request.leaseId ∧
          grantOf informed.announced request.leaseId = some lease.cores := by
      intro client request asked lease present
      rw [Manager.leaseFor_eq] at present
      cases found : informed.manager.leases.lookup request.leaseId with
      | some old =>
        rw [found, Option.getD_some] at present
        cases present
        exact faithful.held _ _ found
      | none =>
        rw [found, Option.getD_none] at present
        cases present
        exact ⟨rfl, asks client request asked found⟩
    refine ⟨fun serial lease pid forked => ?_, fun client request asked none => ?_⟩
    · obtain ⟨client, request, asked, present⟩ := Manager.fork_requested forked
      obtain ⟨id, cores⟩ := granted client request asked lease present
      rw [id, cores]
    · obtain ⟨lease, _, present, _⟩ := Manager.effects_of_requested asked
      rw [(granted client request asked lease present).2] at none
      cases none

theorem Faithful.step {informed : Informed} (faithful : informed.Faithful) {event : Event}
    (asks : informed.AsksGranted event) : (informed.step event).Faithful := by
  have writes := informed.manager.step_writes event
  unfold Faithful at faithful
  show ExecutorManager.Faithful (informed.announced ++ informed.manager.announcedBy event)
    (informed.manager.step event).leases (informed.manager.step event).awaiting
  generalize (informed.manager.step event).leases = leases at writes ⊢
  generalize (informed.manager.step event).awaiting = awaiting at writes ⊢
  cases writes with
  | arrives idle =>
    obtain ⟨handled, split, known⟩ := faithful.heard
    refine ⟨⟨handled, by rw [split, List.append_assoc], known⟩, fun id lease found => ?_⟩
    obtain ⟨same, granted⟩ := faithful.held id lease found
    exact ⟨same, grantOf_append granted _⟩
  | @learns lease rest idle silent head =>
    rw [head] at faithful
    rw [silent, List.append_nil]
    have entered := faithful.emplace faithful.grantOf_next
    obtain ⟨handled, split, known⟩ := entered.heard
    refine ⟨⟨handled ++ [lease], by rw [split]; simp, fun other member => ?_⟩, entered.held⟩
    rcases List.mem_append.mp member with old | new
    · exact known other old
    · rw [List.mem_singleton.mp new]
      exact Table.lookup_emplace_self_ne_none _ _ _
  | @asks client request asked silent =>
    rw [silent, List.append_nil]
    exact @ExecutorManager.Faithful.emplace _ _ _ faithful ⟨request.leaseId, request.cores, 512⟩
      (asks client request asked)

/-- In every run of the sleeping loop, executors are spawned with the cores that the resource
manager has granted and other requests are refused, exactly if every request for a lease that is
not in the table yet comes after its announcement and asks for the cores that were granted. -/
theorem leases_enforced_iff (events : List Event) :
    Along step Enforces start events ↔ Along step AsksGranted start events := by
  have preserved : ∀ informed event, Faithful informed → AsksGranted informed event →
      Faithful (informed.step event) := fun _ _ faithful => faithful.step
  exact along_iff_along preserved (fun _ event faithful => faithful.enforces_iff event)
    start_faithful

/-- Leases are announced, and a client connects and asks for lease 5 with 64 cores. -/
def asks (announcements : List Lease) : List Event :=
  announcements.map .leaseAllocation ++
    [.requested ⟨⟨0, 7⟩, 0⟩ 0 0, .message ⟨7, true, ⟨5, 64⟩⟩] ++ List.replicate 4 Manager.tick

/-- A client gets 64 cores for lease 5 though the resource manager has granted others or none. -/
theorem asks_spawned (announcements : List Lease)
    (listed : announcements ∈ ([[], [⟨5, 1, 512⟩]] : List (List Lease))) :
    (run step start (asks announcements)).announced = announcements ∧
      .fork 0 ⟨5, 64, 512⟩ 100 ∈
        (run step start (asks announcements)).manager.effects Manager.tick ∧
      .answer 0 .unknown ∉
        (run step start (asks announcements)).manager.effects Manager.tick ∧
      ¬ Along step Enforces start (asks announcements ++ [Manager.tick]) := by
  have other : ∀ announcements ∈ ([[], [⟨5, 1, 512⟩]] : List (List Lease)),
      grantOf announcements 5 ≠ some 64 := by
    decide
  have spawned : ∀ announcements ∈ ([[], [⟨5, 1, 512⟩]] : List (List Lease)),
      (run step start (asks announcements)).announced = announcements ∧
      .fork 0 ⟨5, 64, 512⟩ 100 ∈
        (run step start (asks announcements)).manager.effects Manager.tick ∧
      .answer 0 .unknown ∉
        (run step start (asks announcements)).manager.effects Manager.tick := by
    decide
  obtain ⟨announced, forked, silent⟩ := spawned announcements listed
  refine ⟨announced, forked, silent, fun along => other announcements listed ?_⟩
  have enforces := (along_append.mp along).2.1.spawns 0 ⟨5, 64, 512⟩ 100 forked
  rwa [announced] at enforces

/-- A client that asks for lease 5 with 64 cores gets them without any announcement of that lease,
and also when the resource manager has granted one core and the announcement waits. -/
theorem ungranted_lease_spawned :
    let unannounced := asks []
    let waiting := asks [⟨5, 1, 512⟩]
    ((run step start unannounced).announced = [] ∧
      .fork 0 ⟨5, 64, 512⟩ 100 ∈ (run step start unannounced).manager.effects Manager.tick ∧
      .answer 0 .unknown ∉ (run step start unannounced).manager.effects Manager.tick ∧
      ¬ Along step Enforces start (unannounced ++ [Manager.tick])) ∧
    (run step start waiting).announced = [⟨5, 1, 512⟩] ∧
      .fork 0 ⟨5, 64, 512⟩ 100 ∈ (run step start waiting).manager.effects Manager.tick ∧
      .answer 0 .unknown ∉ (run step start waiting).manager.effects Manager.tick ∧
      ¬ Along step Enforces start (waiting ++ [Manager.tick]) :=
  ⟨asks_spawned [] (by decide), asks_spawned [⟨5, 1, 512⟩] (by decide)⟩

end Informed

end ExecutorManager

end RFaaS
