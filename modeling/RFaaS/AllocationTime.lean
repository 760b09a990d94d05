/-
This file is about the allocation time that the executor manager reports with
the end of a client: the microseconds for which the client had executors. The
manager keeps the time at which the present executor of a client was spawned,
and adds the time that has passed since then to a 32-bit word of the client in
two places, in `Client::disable` and, when it finds that the process of the
executor runs no more, in `_check_executors`.

An observer keeps a time sheet for every client. It looks at the clock and at the
effects of the manager only: an executor is allocated from the fork that it was
made with until the next fork for the same client, or until the client leaves.
Both ends of a client charge the executor that it has then, once. The word is
never added to before that, so an executor that was replaced is not charged, and
the last one is charged modulo 2 ^ 32.
-/

import RFaaS.Crew
import Mathlib.Algebra.Ring.Int.Defs

namespace RFaaS

namespace ExecutorManager

open Transition List Manager

/-! ### Time sheets -/

/-- When the executor that a client has was spawned, and for how many microseconds its other
executors were allocated: those that were replaced, and those it had when it left. -/
structure Timesheet where
  since : Option Int
  replaced : Int
  ended : Int
  deriving DecidableEq

namespace Timesheet

def blank : Timesheet := ⟨none, 0, 0⟩

/-- The time for which the executor that the client has was allocated. -/
def running (sheet : Timesheet) (now : Int) : Int :=
  match sheet.since with
  | none => 0
  | some spawned => now - spawned

/-- An executor is spawned, and replaces the one that the client has. -/
def spawn (sheet : Timesheet) (now : Int) : Timesheet :=
  { sheet with since := some now, replaced := sheet.replaced + sheet.running now }

/-- The client leaves. -/
def close (sheet : Timesheet) (now : Int) : Timesheet :=
  { sheet with since := none, ended := sheet.ended + sheet.running now }

/-- The time for which executors of the client were allocated. -/
def total (sheet : Timesheet) : Int := sheet.replaced + sheet.ended

/-- What an effect adds to the sheet of a client. -/
def observe (serial : Nat) (now : Int) (sheet : Timesheet) : Effect → Timesheet
  | .fork owner _ _ => if owner = serial then sheet.spawn now else sheet
  | .leave owner => if owner = serial then sheet.close now else sheet
  | _ => sheet

variable {sheet : Timesheet} {serial : Nat} {clock now : Int} {effects : List Effect}

/-- A client can leave only once. -/
theorem close_close (sheet : Timesheet) (now : Int) :
    (sheet.close now).close now = sheet.close now := by
  simp [close, running]

theorem run_observe_served (owner : Nat) (lease : Lease) (pid : Int) :
    run (observe serial now) sheet [.fork owner lease pid, .answer owner .allocated] =
      if owner = serial then sheet.spawn now else sheet := rfl

/-- Without forks for the client, an effect leaves a sheet as it is, unless the client leaves. -/
theorem observe_of_spawnless {effect : Effect}
    (spawnless : ∀ lease pid, effect ≠ .fork serial lease pid) (stays : effect ≠ .leave serial) :
    sheet.observe serial now effect = sheet := by
  cases effect with
  | fork owner lease pid => exact if_neg fun same => spawnless lease pid (by rw [same])
  | leave owner => exact if_neg fun same => stays (by rw [same])
  | _ => rfl

theorem run_observe_stays (spawnless : ∀ lease pid, .fork serial lease pid ∉ effects)
    (stays : .leave serial ∉ effects) : run (observe serial now) sheet effects = sheet := by
  refine run_of_idle fun effect member => observe_of_spawnless ?_ ?_
  · rintro lease pid rfl
    exact spawnless lease pid member
  · rintro rfl
    exact stays member

theorem run_observe_leaves (spawnless : ∀ lease pid, .fork serial lease pid ∉ effects)
    (leaves : .leave serial ∈ effects) :
    run (observe serial now) sheet effects = sheet.close now := by
  induction effects generalizing sheet with
  | nil => cases leaves
  | cons effect rest inductionHypothesis =>
    have later : ∀ lease pid, .fork serial lease pid ∉ rest := fun lease pid member =>
      spawnless lease pid (mem_cons_of_mem _ member)
    by_cases first : effect = .leave serial
    · have closed : run (observe serial now) sheet (effect :: rest) =
          run (observe serial now) (sheet.close now) rest := by
        rw [first, run_cons, observe, if_pos rfl]
      rw [closed]
      by_cases again : .leave serial ∈ rest
      · rw [inductionHypothesis later again, close_close]
      · exact run_observe_stays later again
    · rw [run_cons, observe_of_spawnless _ first]
      · exact inductionHypothesis later ((mem_cons.mp leaves).resolve_left (Ne.symm first))
      · rintro lease pid rfl
        exact spawnless lease pid mem_cons_self

theorem run_observe_filter (serial : Nat) (now : Int) (sheet : Timesheet) (effects : List Effect) :
    run (observe serial now) sheet (effects.filter Effect.onProcess) =
      run (observe serial now) sheet effects := by
  refine run_filter (fun sheet effect connection => ?_) sheet effects
  cases effect with
  | fork | leave => cases connection
  | _ => rfl

/-- The times on a sheet are not negative, if the clock never goes back. -/
structure Timed (sheet : Timesheet) (clock : Int) : Prop where
  since : ∀ spawned, sheet.since = some spawned → spawned ≤ clock
  replaced : 0 ≤ sheet.replaced
  ended : 0 ≤ sheet.ended

theorem Timed.later (timed : sheet.Timed clock) (forward : clock ≤ now) : sheet.Timed now :=
  { timed with since := fun spawned running => (timed.since spawned running).trans forward }

theorem Timed.running_nonneg (timed : sheet.Timed now) : 0 ≤ sheet.running now := by
  unfold running
  split
  · exact le_rfl
  · rename_i spawned running
    exact Int.sub_nonneg.mpr (timed.since spawned running)

theorem Timed.observe (timed : sheet.Timed now) (serial : Nat) (effect : Effect) :
    (sheet.observe serial now effect).Timed now := by
  have running := timed.running_nonneg
  unfold Timesheet.observe
  split
  · split
    · refine ⟨fun spawned same => ?_, Int.add_nonneg timed.replaced running, timed.ended⟩
      exact (Option.some.inj same).ge
    · exact timed
  · split
    · refine ⟨fun spawned same => ?_, timed.replaced, Int.add_nonneg timed.ended running⟩
      cases same
    · exact timed
  · exact timed

/-- The last executor of a client, modulo 2 ^ 32, is all that its executors took exactly if none
was replaced after some time and all of it fits into 32 bits. -/
theorem Timed.last_eq_total_iff (timed : sheet.Timed clock) :
    sheet.ended % 2 ^ 32 = sheet.total ↔ sheet.replaced = 0 ∧ sheet.total < 2 ^ 32 := by
  have replaced := timed.replaced
  have ended := timed.ended
  unfold total
  omega

end Timesheet

open Timesheet

/-! ### The executors of clients -/

/-- What the bill of a client depends on. -/
def Client.dues (client : Client) : Nat × UInt32 × Option Int :=
  (client.serial, client.allocationTime, client.executor.map ActiveExecutor.allocationFinished)

/-- The allocation time that `disable` reports. -/
def Client.bill (client : Client) (now : Int) : UInt32 :=
  match client.executor with
  | none => client.allocationTime
  | some executor => (client.chargeAllocation executor now).allocationTime

namespace Manager

/-- The client owes what one owed before a step: that under the same key, or one in the queue. -/
def Descends (manager : Manager) (qpNum : UInt32) (client : Client) : Prop :=
  (∃ old, manager.clients.lookup qpNum = some old ∧ client.dues = old.dues) ∨
    ∃ queued, .connect (.client queued) ∈ manager.clientQueue ∧ client.dues = queued.dues

variable {client : Client}

theorem descends_of_lookup {manager : Manager} {qpNum : UInt32}
    (found : manager.clients.lookup qpNum = some client) : manager.Descends qpNum client :=
  Or.inl ⟨client, found, rfl⟩

/-- What a step does to the executors of clients: it spawns one for a client, or it spawns none,
and the clients that leave are those that are no longer registered. -/
inductive Turnover (manager : Manager) (event : Event) (clients : Table UInt32 Client) :
    List Effect → Prop
  | spawns {qpNum client lease chance served} (turn : event = .thread chance)
      (found : manager.clients.lookup qpNum = some client)
      (updated : clients = manager.clients.insert qpNum { client with
        executor := some ⟨chance.pid, lease.cores, [], chance.now⟩
        served := served }) :
      Turnover manager event clients
        [.fork client.serial lease chance.pid, .answer client.serial .allocated]
  | keeps {effects} (spawnless : ∀ serial lease pid, .fork serial lease pid ∉ effects)
      (leaves : ∀ serial, .leave serial ∈ effects ↔ ∃ qpNum client,
        manager.clients.lookup qpNum = some client ∧ clients.lookup qpNum = none ∧
          client.serial = serial)
      (kept : ∀ qpNum client, clients.lookup qpNum = some client →
        manager.Descends qpNum client) :
      Turnover manager event clients effects

variable {manager : Manager} {event : Event} {queue : List Operation}
  {clients : Table UInt32 Client} {fault : Bool} {ended : Option Connection}
  {effects : List Effect}

theorem Turnover.stays
    (remain : ∀ qpNum, clients.lookup qpNum = none → manager.clients.lookup qpNum = none)
    (kept : ∀ qpNum client, clients.lookup qpNum = some client → manager.Descends qpNum client) :
    Turnover manager event clients [] := by
  refine .keeps (fun _ _ _ => not_mem_nil) (fun serial => ?_) kept
  refine iff_of_false not_mem_nil ?_
  rintro ⟨qpNum, client, found, gone, _⟩
  rw [remain qpNum gone] at found
  cases found

theorem Turnover.rests : Turnover manager event manager.clients [] :=
  .stays (fun _ absent => absent) fun _ _ found => descends_of_lookup found

/-- A registered client is written to. -/
theorem Turnover.updates {qpNum : UInt32} {client current : Client}
    (found : manager.clients.lookup qpNum = some client) (same : current.dues = client.dues) :
    Turnover manager event (manager.clients.insert qpNum current) [] := by
  refine .stays (fun other absent => ?_) fun other second also => ?_
  · exact (Table.lookup_insert_eq_none.mp absent).2
  · rcases Table.lookup_insert_eq_some.mp also with ⟨rfl, rfl⟩ | ⟨_, old⟩
    · exact Or.inl ⟨client, found, same⟩
    · exact descends_of_lookup old

theorem Turnover.erases {qpNum : UInt32} {client : Client} {others : List Effect}
    (found : manager.clients.lookup qpNum = some client)
    (spawnless : ∀ serial lease pid, .fork serial lease pid ∉ others)
    (leaveless : ∀ serial, .leave serial ∉ others) :
    Turnover manager event (manager.clients.erase qpNum) (others ++ [.leave client.serial]) := by
  refine .keeps (fun serial lease pid member => ?_) (fun serial => ?_) fun other second also => ?_
  · rcases mem_append.mp member with inside | last
    · exact spawnless serial lease pid inside
    · cases mem_singleton.mp last
  · rw [mem_append, mem_singleton, or_iff_right (leaveless serial), Effect.leave.injEq]
    constructor
    · rintro rfl
      exact ⟨qpNum, client, found, AList.lookup_erase qpNum _, rfl⟩
    · rintro ⟨other, second, also, gone, rfl⟩
      rw [Table.lookup_erase_eq] at gone
      split at gone
      · rename_i same
        rw [same, found] at also
        rw [Option.some.inj also]
      · rw [also] at gone
        cases gone
  · exact descends_of_lookup (Table.lookup_erase_eq_some.mp also).2

/-- Some of the clients leave, and the others are as they were. -/
theorem Turnover.selects {leaves : Client → Bool} {waits : List Effect}
    (waiting : ∀ effect ∈ waits, ∃ serial pid, effect = .wait serial pid)
    (kept : ∀ qpNum, clients.lookup qpNum =
      (manager.clients.lookup qpNum).filter fun client => !leaves client) :
    Turnover manager event clients (waits ++
      ((manager.clients.entries.filter fun entry => leaves entry.2).map
        fun entry => entry.2.serial).map .leave) := by
  refine .keeps (fun serial lease pid member => ?_) (fun serial => ?_) fun qpNum client found => ?_
  · rcases mem_append.mp member with wait | leave
    · obtain ⟨_, _, same⟩ := waiting _ wait
      cases same
    · simp at leave
  · have notWaiting : .leave serial ∉ waits := by
      intro wait
      obtain ⟨_, _, same⟩ := waiting _ wait
      cases same
    simp only [mem_append, notWaiting, false_or, mem_map, mem_filter,
      Effect.leave.injEq, exists_eq_right]
    constructor
    · rintro ⟨⟨qpNum, client⟩, ⟨present, chosen⟩, same⟩
      have found : manager.clients.lookup qpNum = some client := AList.mem_lookup_iff.mpr present
      refine ⟨qpNum, client, found, ?_, same⟩
      rw [kept, found, Option.filter_some, chosen]
      rfl
    · rintro ⟨qpNum, client, found, gone, same⟩
      refine ⟨⟨qpNum, client⟩, ⟨AList.mem_lookup_iff.mp found, ?_⟩, same⟩
      rw [kept, found, Option.filter_some] at gone
      simpa using gone
  · rw [kept] at found
    exact descends_of_lookup (Option.filter_eq_some_iff.mp found).1

theorem Happens.turnover (happens : Happens manager event queue clients fault ended effects) :
    Turnover manager event clients (effects.filter Effect.onProcess) := by
  cases happens with
  | accounted found => exact .updates found rfl
  | adopted head found busy =>
    refine .updates found ?_
    simp only [Client.dues, busy, Option.map_some]
    rfl
  | @entered client rest connection id node head own absent =>
    rw [Client.filter_useEffects]
    refine .stays (fun qpNum gone => ?_) fun qpNum second found => ?_
    · exact (Table.lookup_insert_eq_none.mp gone).2
    · rcases Table.lookup_insert_eq_some.mp found with ⟨_, rfl⟩ | ⟨_, old⟩
      · exact Or.inr ⟨client, by rw [head]; exact mem_cons_self, rfl⟩
      · exact descends_of_lookup old
  | clashed => simpa using Turnover.rests
  | @dropped connection rest client same found =>
    rw [filter_dropping]
    exact @Turnover.erases manager event _ client [] found (fun _ _ _ => not_mem_nil)
      fun _ => not_mem_nil
  | served turn asked found present =>
    rw [filter_serving]
    exact .spawns turn found rfl
  | @left qpNum client found =>
    rw [filter_append, Client.filter_disableEffects]
    refine .erases found (fun serial lease pid => ?_) fun serial => ?_ <;>
      · unfold Client.killEffects
        cases client.executor <;> simp
  | checked kept =>
    rw [filter_checkExecutorsEffects]
    refine .selects (fun effect member => ?_) kept
    obtain ⟨⟨qpNum, client⟩, present, inside⟩ := mem_flatMap.mp member
    obtain ⟨executor, busy, same⟩ := Client.mem_waitEffects inside
    exact ⟨client.serial, executor.pid, same⟩
  | cleared gone =>
    rw [filter_clearClientsEffects]
    have selects := @Turnover.selects manager event clients (fun _ => true) []
      (fun _ member => absurd member not_mem_nil) fun qpNum => by simp [gone]
    simpa using selects
  | _ => exact Turnover.rests

/-! ### The bills -/

/-- The message bills a client of `before` that is gone in `after`. -/
structure Bills (before after : Manager) (now : Int) (notice : Notice) (qpNum : UInt32)
    (client : Client) : Prop where
  found : before.clients.lookup qpNum = some client
  gone : after.clients.lookup qpNum = none
  serial : notice.serial = client.serial
  time : notice.message.allocationTime = (client.bill now).toUInt64

/-- Why the manager thread bills a client: it handles its final message, or `_check_executors` finds
that its process runs no more. -/
def Leaves (manager : Manager) (qpNum : UInt32) (client : Client) : Prop :=
  (∃ completion ∈ manager.phase.batch, completion.Final ∧ completion.qpNum = qpNum) ∨
    manager.phase = .pollCheck ∧ client.finished manager.exited = true

theorem mem_sent_disable {manager : Manager} {qpNum : UInt32} {now : Int} {notice : Notice}
    (member : notice ∈ (manager.disable qpNum client now).sent) :
    notice ∈ manager.sent ∨ notice.serial = client.serial ∧
      notice.message.allocationTime = (client.bill now).toUInt64 := by
  simp only [disable] at member
  split at member
  · rcases mem_append.mp member with old | new
    · exact Or.inl old
    · rw [mem_singleton.mp new, Client.bill]
      refine Or.inr ⟨rfl, ?_⟩
      cases client.executor <;> rfl
  · exact Or.inl member

theorem sent_eraseAll (manager : Manager) (keys : List UInt32) :
    (keys.foldl eraseClient manager).sent = manager.sent := by
  obtain ⟨_, _, same⟩ := eraseAll_same manager keys
  rw [same]

theorem sent_eraseClient (manager : Manager) (qpNum : UInt32) :
    (manager.eraseClient qpNum).sent = manager.sent := sent_eraseAll manager [qpNum]

/-- The loop of `_check_executors` bills the clients that it collects. -/
def Collects (manager : Manager) (now : Int) (checked : Manager × List UInt32) : Prop :=
  ∀ notice ∈ checked.1.sent, notice ∈ manager.sent ∨ ∃ qpNum ∈ checked.2, ∃ client,
    manager.clients.lookup qpNum = some client ∧ notice.serial = client.serial ∧
      notice.message.allocationTime = (client.bill now).toUInt64

theorem Collects.next {manager : Manager} {now : Int} {seen : List UInt32}
    {checked : Manager × List UInt32} (collects : Collects manager now checked)
    (scanned : Scanned manager seen checked) {qpNum : UInt32} (new : qpNum ∉ seen) :
    Collects manager now (checkExecutor now checked qpNum) := by
  have same := scanned.others qpNum fun collected => new ((scanned.removals qpNum).mp collected).1
  unfold checkExecutor
  rw [same]
  split
  · exact collects
  · rename_i client found
    split
    · split
      · exact collects
      · rename_i executor busy
        split
        · intro notice member
          rcases mem_sent_disable member with old | ⟨serial, time⟩
          · refine (collects notice old).imp_right ?_
            rintro ⟨other, collected, billed⟩
            exact ⟨other, mem_append_left _ collected, billed⟩
          · refine Or.inr ⟨qpNum, by simp, client, found, serial, ?_⟩
            -- the executor is charged before it is dropped, and `disable` sees none
            rw [time, Client.bill, Client.bill, busy]
        · exact collects
    · exact collects

theorem checkExecutors_bills {manager : Manager} {now : Int} {notice : Notice}
    (member : notice ∈ (manager.checkExecutors now).sent) :
    notice ∈ manager.sent ∨ ∃ qpNum client, client.finished manager.exited = true ∧
      Bills manager (manager.checkExecutors now) now notice qpNum client := by
  have next : ∀ seen checked qpNum, Scanned manager seen checked → qpNum ∉ seen →
      Collects manager now checked → Collects manager now (checkExecutor now checked qpNum) :=
    fun _ _ _ scanned new collects => collects.next scanned new
  obtain ⟨scanned, collects⟩ := scan_rule next fun _ => Or.inl
  rw [checkExecutors, sent_eraseAll] at member
  refine (collects notice member).imp_right ?_
  rintro ⟨qpNum, collected, client, found, serial, time⟩
  have ended := ((scanned.removals qpNum).mp collected).2
  rw [found, Option.any_some] at ended
  refine ⟨qpNum, client, ended, found, ?_, serial, time⟩
  rw [checkExecutors, lookup_eraseAll, if_pos collected]

theorem handleClientMessage_bills {manager : Manager} {completion : WorkCompletion}
    {chance : Chance} {notice : Notice}
    (member : notice ∈ (manager.handleClientMessage completion chance).sent) :
    notice ∈ manager.sent ∨ completion.Final ∧ ∃ client,
      Bills manager (manager.handleClientMessage completion chance) chance.now notice
        completion.qpNum client := by
  revert member
  refine @handleClientMessage_rule (fun after => notice ∈ after.sent →
    notice ∈ manager.sent ∨ completion.Final ∧ ∃ client,
      Bills manager after chance.now notice completion.qpNum client) manager completion chance
    Or.inl (fun _ _ => Or.inl) (fun _ _ _ _ _ _ => Or.inl) fun client found final member => ?_
  rw [sent_eraseClient] at member
  refine (mem_sent_disable member).imp_right fun billed =>
    ⟨final, client, found, ?_, billed.1, billed.2⟩
  rw [lookup_eraseClient, if_pos rfl]

/-- The manager thread bills only clients that it takes out of `_clients` in the same step. -/
theorem threadStep_bills {manager : Manager} {chance : Chance} {notice : Notice}
    (member : notice ∈ (manager.threadStep chance).sent) :
    notice ∈ manager.sent ∨ ∃ qpNum client, manager.Leaves qpNum client ∧
      Bills manager (manager.threadStep chance) chance.now notice qpNum client := by
  revert member
  refine @threadStep_rule (fun after _ => notice ∈ after.sent →
    notice ∈ manager.sent ∨ ∃ qpNum client, manager.Leaves qpNum client ∧
      Bills manager after chance.now notice qpNum client) manager chance
    (fun _ _ _ _ _ => Or.inl) (fun message rest head member => ?_) (fun _ _ _ => Or.inl)
    (fun _ _ _ member => ?_) (fun _ _ _ member => ?_) (fun phase completion batch _ member => ?_)
    (fun _ _ _ => Or.inl) (fun turn member => ?_) fun _ member => ?_
  · rw [(handleConnections_quiet head chance.resultMemory chance.nodeMemory).sent] at member
    exact Or.inl member
  · rw [handleDisconnections, sent_eraseClient] at member
    exact Or.inl member
  · rw [handleDisconnections, sent_eraseClient] at member
    exact Or.inl member
  · refine (handleClientMessage_bills member).imp_right ?_
    rintro ⟨final, client, billed⟩
    have polled : completion ∈ manager.phase.batch := batch ▸ mem_cons_self
    exact ⟨completion.qpNum, client, Or.inl ⟨completion, polled, final, rfl⟩,
      billed.found, billed.gone, billed.serial, billed.time⟩
  · refine (checkExecutors_bills member).imp_right ?_
    rintro ⟨qpNum, client, ended, billed⟩
    exact ⟨qpNum, client, Or.inr ⟨turn, ended⟩, billed.found, billed.gone, billed.serial,
      billed.time⟩
  · exact Or.inl (sent_eraseAll manager manager.clients.keys ▸ member)

theorem step_bills {manager : Manager} {event : Event} {notice : Notice}
    (member : notice ∈ (manager.step event).sent) :
    notice ∈ manager.sent ∨ ∃ chance qpNum client, event = .thread chance ∧
      manager.Leaves qpNum client ∧
      Bills manager (manager.step event) chance.now notice qpNum client := by
  unfold step at member ⊢
  split at member
  · exact Or.inl member
  · rename_i running
    rw [if_neg running]
    cases event with
    | requested =>
      dsimp only [requested] at member
      split at member
      · split at member <;> exact Or.inl member
      · exact Or.inl member
    | account =>
      dsimp only [account] at member
      split at member <;> exact Or.inl member
    | thread chance =>
      refine (threadStep_bills member).imp_right ?_
      rintro ⟨qpNum, client, leaves, billed⟩
      exact ⟨chance, qpNum, client, rfl, leaves, billed⟩
    | _ => exact Or.inl member

/-! ### One step -/

/-- A client joins the queue without an executor and with nothing charged. -/
theorem step_queued {manager : Manager} {event : Event}
    (member : .connect (.client client) ∈ (manager.step event).clientQueue) :
    .connect (.client client) ∈ manager.clientQueue ∨ client.dues = (manager.made, 0, none) := by
  rcases (manager.step_happens event).mem_queue member with old | new
  · exact Or.inl old
  · cases new with
    | client arrival =>
      subst arrival
      unfold step at member
      split at member
      · exact Or.inl member
      · dsimp only [requested] at member
        split at member
        · split at member
          · exact Or.inl (by simpa using member)
          · exact Or.inl member
        · rcases mem_append.mp member with old | last
          · exact Or.inl old
          · cases mem_singleton.mp last
            exact Or.inr rfl

/-- The sheet of a client that waits or is registered: the manager knows the same executor, and
nothing was charged yet. -/
structure Ready (sheet : Timesheet) (client : Client) : Prop where
  charged : client.allocationTime = 0
  since : sheet.since = client.executor.map ActiveExecutor.allocationFinished
  ended : sheet.ended = 0

theorem Ready.of_dues {sheets : Nat → Timesheet} {old client : Client}
    (ready : Ready (sheets old.serial) old) (same : client.dues = old.dues) :
    Ready (sheets client.serial) client := by
  simp only [Client.dues, Prod.mk.injEq] at same
  obtain ⟨serial, charged, executor⟩ := same
  rw [serial]
  exact ⟨charged.trans ready.charged, ready.since.trans executor.symm, ready.ended⟩

theorem Ready.bill {sheet : Timesheet} (ready : Ready sheet client) (now : Int) :
    ((client.bill now).toNat : Int) = (sheet.close now).ended % 2 ^ 32 := by
  have since := ready.since
  rw [Client.bill, close, running, ready.ended]
  cases busy : client.executor with
  | none =>
    rw [busy, Option.map_none] at since
    simp [since, ready.charged]
  | some executor =>
    rw [busy, Option.map_some] at since
    have charged : (client.chargeAllocation executor now).allocationTime =
        UInt32.ofInt (now - executor.allocationFinished) := by
      rw [Client.chargeAllocation, ready.charged, UInt32.zero_add]
    have word : ((UInt32.ofInt (now - executor.allocationFinished)).toNat : Int) =
        (now - executor.allocationFinished) % 2 ^ 32 := by
      rw [UInt32.ofInt, UInt32.toNat_ofNat']
      omega
    simp only [since, charged, word, zero_add]

section Sheets

variable {manager : Manager} {event : Event} {clients : Table UInt32 Client}
  {effects : List Effect} {now : Int} {sheet : Timesheet}

section

variable (turnover : Turnover manager event clients effects)
include turnover

/-- A step concerns the sheets of registered clients only. -/
theorem Turnover.sheet_other {serial : Nat}
    (nobody : ∀ qpNum client, manager.clients.lookup qpNum = some client →
      client.serial ≠ serial) : run (observe serial now) sheet effects = sheet := by
  cases turnover with
  | @spawns qpNum client lease chance served turn found updated =>
    rw [run_observe_served, if_neg (nobody qpNum client found)]
  | keeps spawnless leaves kept =>
    refine run_observe_stays (spawnless serial) fun left => ?_
    obtain ⟨qpNum, client, found, _, same⟩ := (leaves serial).mp left
    exact nobody qpNum client found same

/-- The sheet of a client that is taken out is closed. -/
theorem Turnover.sheet_gone {qpNum : UInt32}
    {client : Client} (found : manager.clients.lookup qpNum = some client)
    (gone : clients.lookup qpNum = none) :
    run (observe client.serial now) sheet effects = sheet.close now := by
  cases turnover with
  | @spawns other second lease chance served turn also updated =>
    rw [updated, Table.lookup_insert_eq_none, found] at gone
    cases gone.2
  | keeps spawnless leaves kept =>
    exact run_observe_leaves (spawnless _)
      ((leaves _).mpr ⟨qpNum, client, found, gone, rfl⟩)

/-- The sheet of a client that is registered after a step agrees with what the manager knows. -/
theorem Turnover.ready (sound : manager.Sound)
    (clock : ∀ chance, event = .thread chance → now = chance.now) {sheets : Nat → Timesheet}
    (registered : ∀ qpNum client, manager.clients.lookup qpNum = some client →
      Ready (sheets client.serial) client)
    (queued : ∀ client, .connect (.client client) ∈ manager.clientQueue →
      Ready (sheets client.serial) client)
    {qpNum : UInt32} {client : Client} (found : clients.lookup qpNum = some client) :
    Ready (run (observe client.serial now) (sheets client.serial) effects) client := by
  cases turnover with
  | @spawns other second lease chance served turn also updated =>
    rw [updated] at found
    rcases Table.lookup_insert_eq_some.mp found with ⟨_, rfl⟩ | ⟨different, old⟩
    · have before := registered other second also
      dsimp only
      rw [run_observe_served, if_pos rfl, clock chance turn]
      exact ⟨before.charged, rfl, before.ended⟩
    · rw [run_observe_served,
        if_neg (sound.registered_serial_ne also old different).symm]
      exact registered qpNum client old
  | keeps spawnless leaves kept =>
    have stays : .leave client.serial ∉ effects := by
      intro left
      obtain ⟨other, second, also, gone, same⟩ := (leaves client.serial).mp left
      rcases kept qpNum client found with ⟨old, was, dues⟩ | ⟨waiting, member, dues⟩
      · have different : qpNum ≠ other := by
          rintro rfl
          rw [found] at gone
          cases gone
        refine sound.registered_serial_ne also was different ?_
        exact (congrArg Prod.fst dues).symm.trans same.symm
      · exact sound.queued_serial_ne also member ((congrArg Prod.fst dues).symm.trans same.symm)
    rw [run_observe_stays (spawnless _) stays]
    rcases kept qpNum client found with ⟨old, was, dues⟩ | ⟨waiting, member, dues⟩
    · exact (registered qpNum old was).of_dues dues
    · exact (queued waiting member).of_dues dues

end

end Sheets

end Manager

/-! ### Runs -/

/-- The manager, the clock as it was last read, and the time sheets of the clients. -/
structure Audited where
  manager : Manager
  clock : Int
  sheets : Nat → Timesheet

namespace Audited

def start (loop : Loop) (clock : Int) : Audited := ⟨.start loop, clock, fun _ => .blank⟩

/-- The time of an event. Only the manager thread reads the clock. -/
def reading (audited : Audited) : Event → Int
  | .thread chance => chance.now
  | _ => audited.clock

def step (audited : Audited) (event : Event) : Audited where
  manager := audited.manager.step event
  clock := audited.reading event
  sheets serial := run (observe serial (audited.reading event)) (audited.sheets serial)
    (audited.manager.effects event)

/-- The clock does not go back. -/
def Forward (audited : Audited) (event : Event) : Prop := audited.clock ≤ audited.reading event

instance decidableForward (audited : Audited) (event : Event) : Decidable (audited.Forward event) :=
  inferInstanceAs (Decidable (_ ≤ _))

/-- Every message to the resource manager reports the time for which the client that it is about
had executors. -/
def Exact (audited : Audited) : Prop :=
  ∀ notice ∈ audited.manager.sent,
    (notice.message.allocationTime.toNat : Int) = (audited.sheets notice.serial).total

instance decidableExact (audited : Audited) : Decidable audited.Exact :=
  decidableBAll _ _

/-- What is reported is the time of the last executor, in 32 bits. -/
structure Metered (audited : Audited) : Prop where
  sound : audited.manager.Sound
  fresh : ∀ serial, audited.manager.made ≤ serial → audited.sheets serial = .blank
  queued : ∀ client, .connect (.client client) ∈ audited.manager.clientQueue →
    Ready (audited.sheets client.serial) client
  registered : ∀ qpNum client, audited.manager.clients.lookup qpNum = some client →
    Ready (audited.sheets client.serial) client
  timed : ∀ serial, (audited.sheets serial).Timed audited.clock
  reported : ∀ notice ∈ audited.manager.sent,
    (notice.message.allocationTime.toNat : Int) =
      (audited.sheets notice.serial).ended % 2 ^ 32

theorem start_metered (loop : Loop) (clock : Int) : (start loop clock).Metered where
  sound := start_sound loop
  fresh _ _ := rfl
  queued _ member := absurd member not_mem_nil
  registered _ _ found := by cases found
  timed _ := by
    refine ⟨fun _ running => ?_, le_rfl, le_rfl⟩
    cases running
  reported _ member := absurd member not_mem_nil

variable {audited : Audited} {event : Event}

theorem turnover (audited : Audited) (event : Event) :
    Turnover audited.manager event (audited.manager.step event).clients
      ((audited.manager.effects event).filter Effect.onProcess) :=
  (audited.manager.step_happens event).turnover

/-- A step leaves the sheet of a client alone that is not registered. -/
theorem sheets_step_other {serial : Nat} (nobody : ∀ qpNum client,
    audited.manager.clients.lookup qpNum = some client → client.serial ≠ serial) :
    (audited.step event).sheets serial = audited.sheets serial :=
  (run_observe_filter _ _ _ _).symm.trans
    ((audited.turnover event).sheet_other nobody)

theorem sheets_step_gone {qpNum : UInt32} {client : Client}
    (found : audited.manager.clients.lookup qpNum = some client)
    (gone : (audited.manager.step event).clients.lookup qpNum = none) :
    (audited.step event).sheets client.serial =
      (audited.sheets client.serial).close (audited.reading event) :=
  (run_observe_filter _ _ _ _).symm.trans
    ((audited.turnover event).sheet_gone found gone)

theorem Metered.registered_step (metered : audited.Metered) {qpNum : UInt32} {client : Client}
    (found : (audited.step event).manager.clients.lookup qpNum = some client) :
    Ready ((audited.step event).sheets client.serial) client := by
  have clock : ∀ chance, event = .thread chance → audited.reading event = chance.now := by
    rintro chance rfl
    rfl
  have ready := (audited.turnover event).ready metered.sound clock metered.registered
    metered.queued found
  rwa [run_observe_filter] at ready

theorem Metered.registered_lt (metered : audited.Metered) {qpNum : UInt32} {client : Client}
    (found : audited.manager.clients.lookup qpNum = some client) :
    client.serial < audited.manager.made :=
  metered.sound.bounded client.tag (registered_mem_roster found)

/-- A client that was reported is not registered. -/
theorem Metered.reported_ne (metered : audited.Metered) {notice : Notice}
    (member : notice ∈ audited.manager.sent) {qpNum : UInt32} {client : Client}
    (found : audited.manager.clients.lookup qpNum = some client) :
    client.serial ≠ notice.serial := by
  intro same
  have counted := metered.sound.counted client.tag (registered_mem_roster found)
  have active : client.tag.2 = true := metered.sound.registered_active found
  rw [active, if_pos rfl] at counted
  refine count_eq_zero.mp counted ?_
  exact mem_map.mpr ⟨notice, member, same.symm⟩

theorem Metered.step (metered : audited.Metered) (forward : audited.Forward event) :
    (audited.step event).Metered where
  sound := (step_outcome metered.sound event).sound
  fresh serial new := by
    have unused := (audited.manager.made_le_step event).trans new
    rw [sheets_step_other fun qpNum client found => ?_, metered.fresh serial unused]
    exact ((metered.registered_lt found).trans_le unused).ne
  queued client member := by
    rcases step_queued member with old | dues
    · rw [sheets_step_other fun qpNum other found => ?_]
      · exact metered.queued client old
      · exact (metered.sound.queued_serial_ne found old).symm
    · have serial : client.serial = audited.manager.made := congrArg Prod.fst dues
      rw [sheets_step_other fun qpNum other found => ?_, metered.fresh _ serial.ge]
      · exact ⟨congrArg (·.2.1) dues, (congrArg (·.2.2) dues).symm, rfl⟩
      · rw [serial]
        exact (metered.registered_lt found).ne
  registered _ _ found := metered.registered_step found
  timed serial := by
    have preserved : ∀ sheet effect, Timed sheet (audited.reading event) →
        (observe serial (audited.reading event) sheet effect).Timed
          (audited.reading event) := fun _ effect timed => timed.observe serial effect
    exact run_stable preserved (audited.manager.effects event)
      ((metered.timed serial).later forward)
  reported notice member := by
    rcases step_bills member with
      old | ⟨chance, qpNum, client, rfl, _, found, gone, same, time⟩
    · rw [sheets_step_other fun qpNum client found => metered.reported_ne old found]
      exact metered.reported notice old
    · rw [same, sheets_step_gone found gone, time, UInt32.toNat_toUInt64]
      exact (metered.registered qpNum client found).bill chance.now

/-- The manager thread makes steps at the given times. -/
def ticks (times : List Int) : List Event := times.map fun now => .thread ⟨100, now, 0, 0, []⟩

/-- A client connects on queue pair 7 and asks for leases, or with a negative id leaves. -/
def lifetime (leases : List Int32) (times : List Int) : List Event :=
  .requested ⟨⟨0, 7⟩, 0⟩ 0 0 :: leases.map (fun lease => .message ⟨7, true, ⟨lease, 1⟩⟩) ++
    ticks times

/-- In every run of either loop, whatever the clients ask for and whenever they leave, all reports
are exact if and only if no client that was reported had an executor replaced after some time, and
none had executors for 2 ^ 32 microseconds. -/
theorem allocation_time_exact_iff (loop : Loop) (clock : Int) (events : List Event)
    (forward : Along step Forward (start loop clock) events) :
    (run step (start loop clock) events).Exact ↔
      ∀ notice ∈ (run step (start loop clock) events).manager.sent,
        ((run step (start loop clock) events).sheets notice.serial).replaced = 0 ∧
          ((run step (start loop clock) events).sheets notice.serial).total < 2 ^ 32 := by
  have preserved : ∀ audited event, Metered audited → Forward audited event →
      Metered (step audited event) := fun _ _ metered forward => metered.step forward
  have metered := run_invariant preserved (start_metered loop clock) forward
  refine forall₂_congr fun notice member => ?_
  rw [metered.reported notice member]
  exact (metered.timed notice.serial).last_eq_total_iff

/-- A client is served at time 0 and leaves 250 microseconds later. -/
theorem allocation_time_exact_once :
    (run step (start .pollRdma 0) (lifetime [5, -1] [0, 0, 0, 0, 250])).Exact ∧
      (run step (start .pollRdma 0) (lifetime [5, -1] [0, 0, 0, 0, 250])).manager.sent.map
        (fun notice => notice.message.allocationTime) = [250] :=
  ⟨(allocation_time_exact_iff .pollRdma 0 _ (by decide)).mpr (by decide), by decide⟩

/-- A client that is served a second time after a second and leaves a microsecond later is billed
one microsecond. A client that keeps its executor for 2 ^ 32 microseconds, a little more than 71
minutes, is billed nothing when it leaves, and one whose executor exits 7 microseconds later is
billed 7. -/
theorem allocations_unbilled :
    let replaced := run step (start .pollRdma 0)
      (lifetime [5, 6, -1] [0, 0, 0, 0, 1000000, 1000001])
    let kept := run step (start .pollRdma 0) (lifetime [5, -1] [0, 0, 0, 0, 4294967296])
    let exited := run step (start .pollRdma 0)
      (lifetime [5] [0, 0, 0, 0] ++ .exit 100 :: ticks [4294967303, 4294967303])
    (replaced.manager.sent.map (fun notice => notice.message.allocationTime) = [1] ∧
      (replaced.sheets 0).total = 1000001 ∧ ¬ replaced.Exact) ∧
    (kept.manager.sent.map (fun notice => notice.message.allocationTime) = [0] ∧
      (kept.sheets 0).total = 4294967296 ∧ ¬ kept.Exact) ∧
    exited.manager.sent.map (fun notice => notice.message.allocationTime) = [7] ∧
      (exited.sheets 0).total = 4294967303 ∧ ¬ exited.Exact := by
  decide

end Audited

end ExecutorManager

end RFaaS
