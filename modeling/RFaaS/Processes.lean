/-
This file follows the processes that the executor manager forks. Ownership is
implicit in the source: a pid is a number in the executor of a client, it is
overwritten by the next request, a failed fork stores -1, and of the ways in
which a client leaves `_clients` only `disable` terminates a process, namely the
one that the executor has then.

A ledger of forks, terminations and signals runs along. It says for each effect
of a handler whether the manager may do it: pids that are passed to `kill` and
`waitpid` were forked for that client, an `ALLOCATED` answer follows a fork that
succeeded, and a client leaves no process behind. Processes can also be stopped
and resumed, and `_check_executors` takes a stopped process for one that has
finished.
-/

import RFaaS.Effects

namespace RFaaS

namespace ExecutorManager

open Transition Effect List

/-! ### The ledger of processes -/

/-- All forks with the client they were made for, the last one first, and the processes among them
that have not terminated and were not sent `SIGTERM`. -/
structure Processes where
  forks : List (Nat × Int)
  unfinished : List (Nat × Int)

namespace Processes

/-- A process terminates, or is told to. -/
def finish (processes : Processes) (pid : Int) : Processes :=
  { processes with unfinished := processes.unfinished.filter fun process => process.2 ≠ pid }

/-- What an effect adds to the ledger. -/
def record (processes : Processes) : Effect → Processes
  | .fork serial _ pid =>
    { forks := (serial, pid) :: processes.forks
      unfinished :=
        if 0 < pid then (serial, pid) :: processes.unfinished else processes.unfinished }
  | .kill _ pid => processes.finish pid
  | _ => processes

/-- What the manager may do. -/
def Permitted (processes : Processes) : Effect → Prop
  | .kill serial pid | .wait serial pid => 0 < pid ∧ (serial, pid) ∈ processes.forks
  | .answer serial .allocated => ∀ pid ∈ processes.forks.lookup serial, 0 < pid
  | .leave serial => ∀ process ∈ processes.unfinished, process.1 ≠ serial
  | _ => True

instance decidablePermitted (processes : Processes) (effect : Effect) :
    Decidable (processes.Permitted effect) :=
  match effect with
  | .kill serial pid | .wait serial pid =>
    inferInstanceAs (Decidable (0 < pid ∧ (serial, pid) ∈ processes.forks))
  | .answer serial .allocated =>
    inferInstanceAs (Decidable (∀ pid ∈ processes.forks.lookup serial, 0 < pid))
  | .leave serial =>
    inferInstanceAs (Decidable (∀ process ∈ processes.unfinished, process.1 ≠ serial))
  | .use _ | .delete _ | .fork _ _ _ | .answer _ .unknown | .adopt _ _ => .isTrue trivial

end Processes

open Processes

/-! ### The effects on processes -/

/-- The effect is not on a connection. -/
def Effect.onProcess : Effect → Bool
  | .use _ | .delete _ | .adopt _ _ => false
  | _ => true

namespace Client

variable (client : Client)

@[simp] theorem filter_useEffects : client.useEffects.filter onProcess = [] := by
  unfold useEffects
  cases client.connection <;> rfl

@[simp] theorem filter_closeEffects : client.closeEffects.filter onProcess = [] := by
  unfold closeEffects
  cases client.connection <;> rfl

@[simp] theorem filter_resetEffects : client.resetEffects.filter onProcess = [] := by
  simp only [resetEffects, filter_eq_nil_iff, mem_flatMap, Option.mem_toList]
  rintro effect ⟨executor, _, member⟩
  obtain ⟨connection, _, rfl⟩ := mem_map.mp member
  exact Bool.false_ne_true

@[simp] theorem filter_destroyEffects : client.destroyEffects.filter onProcess = [] := by
  simp [destroyEffects]

@[simp] theorem filter_disableEffects :
    client.disableEffects.filter onProcess = client.killEffects := by
  simp only [disableEffects, filter_append, filter_useEffects, filter_resetEffects,
    filter_closeEffects, nil_append, append_nil]
  unfold killEffects
  cases client.executor <;> rfl

theorem mem_waitEffects {client : Client} {effect : Effect} (member : effect ∈ client.waitEffects) :
    ∃ executor, client.executor = some executor ∧
      effect = .wait client.serial executor.pid := by
  unfold waitEffects at member
  split at member
  · obtain ⟨executor, busy, rfl⟩ := mem_map.mp member
    exact ⟨executor, Option.mem_toList.mp busy, rfl⟩
  · cases member

@[simp] theorem filter_checkEffects (exited : List Int) :
    (client.checkEffects exited).filter onProcess = client.waitEffects := by
  have waits : client.waitEffects.filter onProcess = client.waitEffects := by
    unfold waitEffects
    split
    · cases client.executor <;> rfl
    · rfl
  rw [checkEffects, filter_append, waits]
  split
  · rw [filter_append, filter_resetEffects, filter_disableEffects]
    exact append_nil _
  · exact append_nil _

end Client

namespace Manager

/-- What a step of the manager thread does to processes: it serves a request, it terminates the
process of a client that sends its final message, or it waits for processes and lets clients
leave. -/
inductive Handles (manager : Manager) (chance : Chance) : List Effect → Prop
  | serves {client lease} {request : AllocationRequest}
      (asked : manager.requestIn = some (client, request))
      (present : manager.leaseFor request = some lease) (stays : manager.finalIn = none)
      (keeps : manager.abandonedIn = []) :
      Handles manager chance
        [.fork client.serial lease chance.pid, .answer client.serial .allocated]
  | ends {qpNum client} (found : manager.clients.lookup qpNum = some client)
      (idle : manager.requestIn = none) (final : manager.finalIn = some client)
      (keeps : manager.abandonedIn = []) :
      Handles manager chance (client.killEffects ++ [.leave client.serial])
  | lets {waits : List Effect} (idle : manager.requestIn = none)
      (stays : manager.finalIn = none)
      (own : ∀ effect ∈ waits, ∃ qpNum client executor,
        manager.clients.lookup qpNum = some client ∧ client.executor = some executor ∧
          effect = .wait client.serial executor.pid) :
      Handles manager chance (waits ++ manager.abandonedIn.map fun client => .leave client.serial)

variable {manager : Manager} {event : Event} {queue : List Operation}
  {clients : Table UInt32 Client} {fault : Bool} {ended : Option Connection}
  {effects : List Effect} {chance : Chance}

theorem Handles.drops (silent : manager.messageIn = none)
    (leaves : effects = manager.abandonedIn.map fun client => .leave client.serial) :
    Handles manager chance effects := by
  rw [leaves, ← nil_append (map _ _)]
  refine .lets ?_ ?_ fun _ member => absurd member not_mem_nil
  · rw [requestIn, silent]
    rfl
  · rw [finalIn, silent]
    rfl

theorem filter_leaves {Entry : Type} (entries : List Entry) (serial : Entry → Nat) :
    (entries.map fun entry => leave (serial entry)).filter onProcess =
      (entries.map serial).map .leave := by
  rw [filter_eq_self.mpr, map_map]
  · rfl
  · intro effect member
    obtain ⟨entry, _, rfl⟩ := mem_map.mp member
    rfl

theorem filter_serving (client : Client) (lease : Lease) (pid : Int) :
    filter onProcess
        (client.useEffects ++ .fork client.serial lease pid :: client.resetEffects ++
          client.useEffects ++ [.answer client.serial .allocated]) =
      [.fork client.serial lease pid, .answer client.serial .allocated] := by
  simp only [append_assoc, filter_append, Client.filter_useEffects, nil_append,
    cons_append,
    filter_cons_of_pos (show onProcess (.fork _ _ _) = true from rfl),
    Client.filter_resetEffects]
  rfl

theorem filter_dropping (client : Client) (connection : Connection) :
    filter onProcess
        (.use connection :: .leave client.serial :: client.destroyEffects) =
      [.leave client.serial] := by
  rw [filter_cons_of_neg Bool.false_ne_true, filter_cons_of_pos rfl,
    Client.filter_destroyEffects]

theorem filter_checkExecutorsEffects (manager : Manager) :
    manager.checkExecutorsEffects.filter onProcess =
      (manager.clients.entries.flatMap fun entry => entry.2.waitEffects) ++
        ((manager.clients.entries.filter fun entry => entry.2.finished manager.exited).map
          fun entry => entry.2.serial).map .leave := by
  rw [checkExecutorsEffects, filter_append, filter_flatMap, filter_leaves]
  simp only [Client.filter_checkEffects]

theorem filter_clearClientsEffects (manager : Manager) :
    manager.clearClientsEffects.filter onProcess =
      (manager.clients.entries.map fun entry => entry.2.serial).map .leave := by
  have leaves : (fun entry : Sigma fun _ : UInt32 => Client =>
      (leave entry.2.serial :: entry.2.destroyEffects).filter onProcess) =
      fun entry => [.leave entry.2.serial] := by
    funext entry
    rw [filter_cons_of_pos rfl, Client.filter_destroyEffects]
  rw [clearClientsEffects, filter_flatMap, leaves, ← map_eq_flatMap, map_map]
  rfl

theorem filter_handleConnectionsEffects (manager : Manager) (message : Message) :
    (manager.handleConnectionsEffects message).filter onProcess = [] := by
  cases message with
  | executor =>
    simp only [handleConnectionsEffects]
    split <;> rfl
  | client client =>
    simp only [handleConnectionsEffects]
    split <;> simp

theorem filter_handleDisconnectionsEffects (manager : Manager) (connection : Connection) :
    (manager.handleDisconnectionsEffects connection).filter onProcess =
      (manager.clients.lookup connection.qpNum).toList.map fun client => .leave client.serial := by
  unfold handleDisconnectionsEffects
  cases manager.clients.lookup connection.qpNum with
  | none => rfl
  | some client => exact filter_dropping client connection

theorem handleClientMessage_handles {completion : WorkCompletion}
    (handled : manager.messageIn = some completion) (keeps : manager.abandonedIn = [])
    (chance : Chance) :
    Handles manager chance
      ((manager.handleClientMessageEffects completion chance).filter onProcess) := by
  have request : manager.requestIn = if completion.success ∧ 0 ≤ completion.request.leaseId then
      (manager.clients.lookup completion.qpNum).map fun client => (client, completion.request)
      else none := by
    rw [requestIn, handled, Option.bind_some]
  have final : manager.finalIn =
      if completion.Final then manager.clients.lookup completion.qpNum else none := by
    rw [finalIn, handled, Option.bind_some]
  have ignored : manager.requestIn = none → manager.finalIn = none →
      Handles manager chance [] := fun idle stays => by
    have lets := @Handles.lets manager chance [] idle stays fun _ member =>
      absurd member not_mem_nil
    rwa [keeps] at lets
  cases found : manager.clients.lookup completion.qpNum with
  | none =>
    rw [found] at request final
    rw [handleClientMessageEffects, found]
    exact ignored (request.trans (ite_self _)) (final.trans (ite_self _))
  | some client =>
    rw [found] at request final
    by_cases success : completion.success = true
    · by_cases asks : 0 ≤ completion.request.leaseId
      · obtain ⟨lease, present, -, effects⟩ :=
          handleClientMessage_request found success asks chance
        rw [effects, filter_serving]
        exact .serves (request.trans (if_pos ⟨success, asks⟩)) present
          (final.trans (if_neg fun last => last.2 asks)) keeps
      · obtain ⟨-, -, -, effects⟩ := handleClientMessage_final found success asks chance
        rw [effects, filter_append, Client.filter_disableEffects]
        exact .ends found (request.trans (if_neg fun first => asks first.2))
          (final.trans (if_pos ⟨success, asks⟩)) keeps
    · have silent : manager.handleClientMessageEffects completion chance = [] := by
        simp only [handleClientMessageEffects, found, if_neg success]
      rw [silent]
      exact ignored (request.trans (if_neg fun first => success first.1))
        (final.trans (if_neg fun last => success last.1))

theorem threadEffects_handles (manager : Manager) (chance : Chance) :
    Handles manager chance ((manager.threadEffects chance).filter onProcess) := by
  unfold threadEffects
  cases phase : manager.phase with
  | pollTop =>
    refine .drops (by rw [messageIn, phase]) ?_
    simp only [abandonedIn, phase]
    split
    · rw [filter_clearClientsEffects, map_map, map_map]
      rfl
    · rfl
  | pollQueue =>
    refine .drops (by rw [messageIn, phase]) ?_
    simp only [abandonedIn, phase]
    cases manager.clientQueue with
    | nil => rfl
    | cons operation rest =>
      cases operation with
      | connect message => exact filter_handleConnectionsEffects manager message
      | disconnect connection => exact filter_handleDisconnectionsEffects manager connection
  | pollMessages rest =>
    cases rest with
    | nil => exact .drops (by rw [messageIn, phase]) (by rw [abandonedIn, phase]; rfl)
    | cons completion rest =>
      exact handleClientMessage_handles (by rw [messageIn, phase]) (by rw [abandonedIn, phase]) _
  | pollCheck =>
    have leaves : ((manager.clients.entries.filter fun entry =>
        entry.2.finished manager.exited).map fun entry => entry.2.serial).map leave =
          manager.abandonedIn.map fun client => .leave client.serial := by
      rw [abandonedIn, phase, map_map, map_map]
      rfl
    dsimp only
    rw [filter_checkExecutorsEffects, leaves]
    refine .lets (by rw [requestIn, messageIn, phase]; rfl)
      (by rw [finalIn, messageIn, phase]; rfl) fun effect member => ?_
    obtain ⟨⟨qpNum, client⟩, present, inside⟩ := mem_flatMap.mp member
    obtain ⟨executor, busy, same⟩ := Client.mem_waitEffects inside
    exact ⟨qpNum, client, executor, AList.mem_lookup_iff.mpr present, busy, same⟩
  | sleepQueue resume =>
    refine .drops (by rw [messageIn, phase]) ?_
    simp only [abandonedIn, phase]
    cases manager.clientQueue with
    | nil => rfl
    | cons operation rest =>
      cases operation with
      | connect message => exact filter_handleConnectionsEffects manager message
      | disconnect => rfl
  | sleepMessages rest ready =>
    cases rest with
    | nil => exact .drops (by rw [messageIn, phase]) (by rw [abandonedIn, phase]; rfl)
    | cons completion rest =>
      exact handleClientMessage_handles (by rw [messageIn, phase]) (by rw [abandonedIn, phase]) _
  | sleepDisconnections =>
    refine .drops (by rw [messageIn, phase]) ?_
    simp only [abandonedIn, phase]
    cases manager.disconnections with
    | nil => rfl
    | cons connection rest => exact filter_handleDisconnectionsEffects manager connection
  | _ => exact .drops (by rw [messageIn, phase]) (by rw [abandonedIn, phase]; rfl)

/-- Only a step of the manager thread does anything to processes. -/
theorem effects_handles (manager : Manager) (event : Event) :
    ((∀ chance, event = .thread chance → manager.fault = true) ∧
        (manager.effects event).filter onProcess = []) ∨
      ∃ chance, event = .thread chance ∧ manager.fault = false ∧
        Handles manager chance ((manager.effects event).filter onProcess) := by
  unfold effects
  split
  · rename_i faulted
    exact Or.inl ⟨fun _ _ => faulted, rfl⟩
  · rename_i running
    cases event with
    | thread chance =>
      exact Or.inr ⟨chance, rfl, eq_false_of_ne_true running, threadEffects_handles manager chance⟩
    | requested =>
      refine Or.inl ⟨nofun, ?_⟩
      dsimp only
      split <;> rfl
    | _ => exact Or.inl ⟨nofun, rfl⟩

/-- Only a request makes the manager fork. -/
theorem fork_mem_effects {serial : Nat} {lease : Lease} {pid : Int}
    (forked : .fork serial lease pid ∈ manager.effects event) :
    ∃ client request chance, event = .thread chance ∧ manager.fault = false ∧
      manager.requestIn = some (client, request) ∧ manager.leaseFor request = some lease ∧
      pid = chance.pid := by
  replace forked := mem_filter.mpr ⟨forked, show onProcess _ = true from rfl⟩
  rcases manager.effects_handles event with ⟨-, none⟩ | ⟨chance, turn, running, handles⟩
  · rw [none] at forked
    cases forked
  · generalize (manager.effects event).filter onProcess = inner at forked handles
    cases handles with
    | @serves client served request asked present =>
      obtain ⟨_, rfl, same⟩ : serial = client.serial ∧ lease = served ∧ pid = chance.pid := by
        simpa using forked
      exact ⟨client, request, chance, turn, running, asked, present, same⟩
    | @ends qpNum client found =>
      unfold Client.killEffects at forked
      cases executor : client.executor <;> simp [executor] at forked
    | lets idle stays own =>
      rcases mem_append.mp forked with wait | leave
      · obtain ⟨_, _, _, _, _, same⟩ := own _ wait
        cases same
      · obtain ⟨_, _, same⟩ := mem_map.mp leave
        cases same

end Manager

/-! ### One step -/

namespace Processes

variable {processes : Processes} {effects : List Effect}

theorem along_permitted_filter :
    Along record Permitted processes (effects.filter onProcess) ↔
      Along record Permitted processes effects := by
  have idle : ∀ (processes : Processes) (effect : Effect), effect.onProcess = false →
      processes.record effect = processes ∧ processes.Permitted effect := by
    intro processes effect connection
    cases effect <;> first | exact ⟨rfl, trivial⟩ | cases connection
  exact along_filter (fun processes effect connection => (idle processes effect connection).1)
    fun processes effect connection => (idle processes effect connection).2

/-- The ledger forgets no fork. -/
theorem forks_subset_run (processes : Processes) (effects : List Effect) :
    processes.forks ⊆ (run record processes effects).forks := by
  have preserved : ∀ later effect, processes.forks ⊆ forks later →
      processes.forks ⊆ (record later effect).forks := by
    intro later effect kept
    cases effect with
    | fork => exact List.Subset.trans kept (subset_cons_self _ _)
    | _ => exact kept
  exact run_stable preserved effects (List.Subset.refl _)

theorem fork_mem_run (processes : Processes) {serial : Nat} {lease : Lease} {pid : Int}
    (member : .fork serial lease pid ∈ effects) :
    (serial, pid) ∈ (run record processes effects).forks := by
  obtain ⟨before, after, rfl⟩ := append_of_mem member
  rw [run_append]
  exact forks_subset_run _ after mem_cons_self

end Processes

namespace Manager

/-- The executors of clients have processes that were forked for them, and clients in the queue
have no executors. -/
structure Attended (processes : Processes) (queue : List Operation)
    (clients : Table UInt32 Client) : Prop where
  queued : ∀ client, .connect (.client client) ∈ queue → client.executor = none
  registered : ∀ qpNum client executor, clients.lookup qpNum = some client →
    client.executor = some executor →
    0 < executor.pid ∧ (client.serial, executor.pid) ∈ processes.forks

variable {manager : Manager} {event : Event} {queue : List Operation}
  {clients : Table UInt32 Client} {fault : Bool} {ended : Option Connection}
  {effects : List Effect} {processes : Processes}

/-- What a step of the manager thread does to processes is permitted exactly if its fork succeeds, a
client that sends its final message has no unfinished process but that of its executor, and a client
that leaves otherwise has none. -/
theorem Handles.permitted_iff (handles : Handles manager chance effects)
    (attended : Attended processes manager.clientQueue manager.clients) :
    Along record Permitted processes effects ↔
      (manager.requestIn ≠ none → 0 < chance.pid) ∧
      (∀ client ∈ manager.finalIn, ∀ process ∈ processes.unfinished, process.1 = client.serial →
        client.executor.map ActiveExecutor.pid = some process.2) ∧
      ∀ client ∈ manager.abandonedIn, ∀ process ∈ processes.unfinished,
        process.1 ≠ client.serial := by
  cases handles with
  | serves asked present stays keeps =>
    rw [asked, stays, keeps]
    simp [Permitted, record]
  | @ends qpNum client found idle final keeps =>
    rw [idle, final, keeps]
    refine Iff.trans ?_ (show (∀ process ∈ processes.unfinished, process.1 = client.serial →
      client.executor.map ActiveExecutor.pid = some process.2) ↔ _ by simp)
    unfold Client.killEffects
    cases busy : client.executor with
    | none =>
      refine (and_iff_left trivial).trans (forall₂_congr fun process _ => ?_)
      exact ⟨fun other same => absurd same other, fun owned same => nomatch owned same⟩
    | some executor =>
      have own := attended.registered qpNum client executor found busy
      refine Iff.trans ⟨fun along => along.2.2.1, fun leaves => ⟨own, own, leaves, trivial⟩⟩ ?_
      simp only [record, Permitted, finish, mem_filter,
        decide_eq_true_eq, Option.map_some, Option.some.injEq]
      refine forall_congr' fun process => ?_
      tauto
  | @lets waits idle stays own =>
    have shape : ∀ effect ∈ waits ++ manager.abandonedIn.map fun client => .leave client.serial,
        (∃ qpNum client executor, manager.clients.lookup qpNum = some client ∧
          client.executor = some executor ∧ effect = .wait client.serial executor.pid) ∨
        ∃ client ∈ manager.abandonedIn, effect = .leave client.serial := by
      intro effect member
      rcases mem_append.mp member with wait | leave
      · exact Or.inl (own effect wait)
      · obtain ⟨client, inside, rfl⟩ := mem_map.mp leave
        exact Or.inr ⟨client, inside, rfl⟩
    have quiet : ∀ effect ∈ waits ++ manager.abandonedIn.map fun client => .leave client.serial,
        processes.record effect = processes := by
      intro effect member
      obtain ⟨_, _, _, _, _, rfl⟩ | ⟨_, _, rfl⟩ := shape effect member <;> rfl
    rw [along_of_idle quiet, idle, stays]
    constructor
    · intro all
      refine ⟨fun asks => absurd rfl asks, nofun, fun client inside => ?_⟩
      exact all (.leave client.serial)
        (mem_append_right _ (mem_map.mpr ⟨client, inside, rfl⟩))
    · rintro ⟨-, -, alone⟩ effect member
      obtain ⟨qpNum, client, executor, found, busy, rfl⟩ | ⟨client, inside, rfl⟩ :=
        shape effect member
      · exact attended.registered qpNum client executor found busy
      · exact alone client inside

theorem Attended.next (attended : Attended processes manager.clientQueue manager.clients)
    (happens : Happens manager event queue clients fault ended effects)
    (succeeds : ∀ serial lease pid, .fork serial lease pid ∈ effects → 0 < pid) :
    Attended (run record processes effects) queue clients where
  queued client member := by
    rcases happens.mem_queue member with old | new
    · exact attended.queued client old
    · cases new with
      | client _ _ idle => exact idle
  registered qpNum client executor found busy := by
    have recorded := forks_subset_run processes effects
    cases happens.became found with
    | @kept old was serial same =>
      obtain ⟨positive, own⟩ := attended.registered qpNum old executor was (same ▸ busy)
      exact ⟨positive, serial ▸ recorded own⟩
    | @entered queued _ head own key serial same =>
      have idle := attended.queued queued (by rw [head]; exact mem_cons_self)
      rw [same, idle] at busy
      cases busy
    | @adopted old before connection head key was serial had grown effect =>
      obtain ⟨positive, own⟩ := attended.registered qpNum old before was had
      rw [grown] at busy
      cases busy
      exact ⟨positive, serial ▸ recorded own⟩
    | served was serial forked same =>
      rw [same] at busy
      cases busy
      exact ⟨succeeds _ _ _ forked, fork_mem_run processes forked⟩

end Manager

/-! ### Runs -/

/-- What can happen: an event of the manager, among which are the terminations of processes, or a
process is stopped or resumed. -/
inductive Occurrence
  | event (event : Event)
  | stop (pid : Int)
  | resume (pid : Int)

/-- The manager and the ledger of its processes. -/
structure Supervised where
  manager : Manager
  processes : Processes

namespace Supervised

def start (loop : Loop) : Supervised := ⟨.start loop, ⟨[], []⟩⟩

/-- The effects of the manager. -/
def effects (supervised : Supervised) : Occurrence → List Effect
  | .event event => supervised.manager.effects event
  | .stop _ | .resume _ => []

/-- `waitpid` with `WUNTRACED` reports a stopped process like one that has terminated, until the
process is resumed. -/
def step (supervised : Supervised) : Occurrence → Supervised
  | .event event =>
    { manager := supervised.manager.step event
      processes :=
        let processes :=
          run record supervised.processes (supervised.manager.effects event)
        match event with
        | .exit pid => processes.finish pid
        | _ => processes }
  | .stop pid => { supervised with manager := supervised.manager.step (.exit pid) }
  | .resume pid =>
    if ∃ process ∈ supervised.processes.unfinished, process.2 = pid then
      { supervised with manager := { supervised.manager with
          exited := supervised.manager.exited.filter (· ≠ pid) } }
    else supervised

/-- Everything that the manager does in a step is permitted when it does it. -/
def Orderly (supervised : Supervised) (occurrence : Occurrence) : Prop :=
  Along record Permitted supervised.processes
    (supervised.effects occurrence)

instance decidableOrderly (supervised : Supervised) (occurrence : Occurrence) :
    Decidable (supervised.Orderly occurrence) :=
  inferInstanceAs (Decidable (Along record Permitted supervised.processes
    (supervised.effects occurrence)))

/-- What the manager thread can cope with: the fork for a request succeeds; a client that sends its
final message has no unfinished process but that of its executor, such as one that a second request
has left; and a client whose connection ends, or that is there when the polling loop ends, or whose
process `_check_executors` takes for finished has no process that runs or is stopped. -/
def Careful (supervised : Supervised) : Occurrence → Prop
  | .event (.thread chance) => supervised.manager.fault = false →
    (supervised.manager.requestIn ≠ none → 0 < chance.pid) ∧
    (∀ client ∈ supervised.manager.finalIn, ∀ process ∈ supervised.processes.unfinished,
      process.1 = client.serial → client.executor.map ActiveExecutor.pid = some process.2) ∧
    ∀ client ∈ supervised.manager.abandonedIn, ∀ process ∈ supervised.processes.unfinished,
      process.1 ≠ client.serial
  | _ => True

/-- The executors have processes of their own. -/
def Attended (supervised : Supervised) : Prop :=
  Manager.Attended supervised.processes supervised.manager.clientQueue supervised.manager.clients

theorem start_attended (loop : Loop) : (start loop).Attended where
  queued _ member := absurd member not_mem_nil
  registered _ _ _ found := by cases found

theorem Attended.orderly_iff {supervised : Supervised} (attended : supervised.Attended)
    (occurrence : Occurrence) : supervised.Orderly occurrence ↔ supervised.Careful occurrence := by
  cases occurrence with
  | event event =>
    rw [Orderly, ← along_permitted_filter]
    rcases supervised.manager.effects_handles event with
      ⟨idle, none⟩ | ⟨chance, rfl, running, handles⟩
    · rw [Supervised.effects, none]
      refine iff_of_true trivial ?_
      cases event with
      | thread chance =>
        intro running
        rw [idle chance rfl] at running
        cases running
      | _ => trivial
    · exact (handles.permitted_iff attended).trans
        ⟨fun holds _ => holds, fun holds => holds running⟩
  | stop pid | resume pid => exact Iff.rfl

theorem Attended.step {supervised : Supervised} (attended : supervised.Attended)
    {occurrence : Occurrence} (careful : supervised.Careful occurrence) :
    (supervised.step occurrence).Attended := by
  cases occurrence with
  | event event =>
    have next := Manager.Attended.next attended (supervised.manager.step_happens event) fun
      serial lease pid forked => by
        obtain ⟨client, request, chance, rfl, running, asked, -, rfl⟩ :=
          Manager.fork_mem_effects forked
        exact (careful running).1 (by rw [asked]; exact Option.some_ne_none _)
    cases event with
    | exit pid => exact ⟨next.queued, next.registered⟩
    | _ => exact next
  | stop pid =>
    show Manager.Attended supervised.processes (supervised.manager.step (.exit pid)).clientQueue
      (supervised.manager.step (.exit pid)).clients
    unfold Manager.step
    split <;> exact attended
  | resume pid =>
    dsimp only [Supervised.step]
    split <;> exact attended

/-- In every run of either loop, the manager signals and waits for its clients' own processes only,
answers `ALLOCATED` only if it has forked a process, and leaves no process of a removed client
behind, exactly if the manager thread comes to nothing but what it can cope with. -/
theorem processes_owned_iff (loop : Loop) (occurrences : List Occurrence) :
    Along step Orderly (start loop) occurrences ↔
      Along step Careful (start loop) occurrences := by
  have preserved : ∀ supervised occurrence, Attended supervised → Careful supervised occurrence →
      Attended (supervised.step occurrence) := fun _ _ attended => attended.step
  exact along_iff_along preserved (fun _ occurrence attended => attended.orderly_iff occurrence)
    (start_attended loop)

/-- The manager thread makes steps, and forks return `pid`. -/
def turns (count : Nat) (pid : Int) : List Occurrence :=
  replicate count (.event (.thread ⟨pid, 0, 0, 0, []⟩))

/-- A client connects on queue pair 7 and asks for leases, or with a negative id leaves. -/
def connects : Occurrence := .event (.requested ⟨⟨0, 7⟩, 0⟩ 0 0)

def asks (lease : Int32) : Occurrence := .event (.message ⟨7, true, ⟨lease, 1⟩⟩)

/-- A client is answered `ALLOCATED` after a fork failed, and its final message signals process -1.
A client that has made a second request, one whose connection ends and one whose process is stopped
leave a process behind. -/
theorem processes_lost :
    let failed := [connects, asks 5, asks (-1)] ++ turns 4 (-1)
    let replaced := [connects, asks 5, asks 6, asks (-1)] ++ turns 4 100 ++ turns 2 101
    let ended := [connects, asks 5] ++ turns 4 100 ++
      [.event (.disconnected ⟨⟨0, 7⟩, 0⟩)] ++ turns 4 100
    let stopped := [connects, asks 5] ++ turns 4 100 ++ [.stop 100] ++ turns 2 100
    (¬ Along step Orderly (start .pollRdma) failed ∧
      (run step (start .pollRdma) failed).manager.responses = [(0, .allocated)] ∧
      .kill 0 (-1) ∈ (run step (start .pollRdma) failed).effects
        (.event (.thread ⟨100, 0, 0, 0, []⟩))) ∧
    ∀ occurrences ∈ [replaced, ended, stopped],
      ¬ Along step Orderly (start .pollRdma) occurrences ∧
      (run step (start .pollRdma) occurrences).manager.removed.map Client.serial = [0] ∧
      (0, 100) ∈ (run step (start .pollRdma) occurrences).processes.unfinished := by
  decide

end Supervised

end ExecutorManager

end RFaaS
