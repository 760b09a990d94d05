/-
This file is about giving leases back: for a client that was answered
`ALLOCATED`, the executor manager should send one `LeaseDeallocation` to the
resource manager by the time it takes the client out of `_clients`. The message
is sent by `Client::disable`, and clients are taken out in four places: after
the final message of the client, after the exit of its executor, on the end of
its connection, and when the polling loop ends. Only the first two disable the
client first.

The accounting is done on the roster: every client that waits in the queue, is
registered or was removed, with the flag `_active`. The invariant is that the
clients of the roster are distinct and that exactly the inactive ones have been
reported, once each. Everything the manager does is one of a few moves on the
roster, and the moves that lose a lease are those that remove an active client.
-/

import RFaaS.ExecutorManager
import Mathlib.Data.Multiset.MapFold
import Mathlib.Data.Multiset.UnionInter

namespace RFaaS

open Transition Multiset

namespace ExecutorManager

/-! ### The roster -/

/-- A client as the accounting sees it. -/
def Client.tag (client : Client) : Nat × Bool := (client.serial, client.active)

/-- The client that an entry of the queue brings, if it brings one. -/
def Operation.client? : Operation → Option Client
  | .connect (.client client) => some client
  | _ => none

namespace Manager

/-- The clients that the listener has made and the manager thread has not seen yet. -/
def queuedIn (queue : List Operation) : Multiset Client :=
  (queue.filterMap Operation.client? : List Client)

/-- The clients that are in a queue or in a table. -/
def livingIn (queue : List Operation) (clients : Table UInt32 Client) : Multiset (Nat × Bool) :=
  (queuedIn queue + Table.values clients).map Client.tag

def living (manager : Manager) : Multiset (Nat × Bool) :=
  livingIn manager.clientQueue manager.clients

def roster (manager : Manager) : Multiset (Nat × Bool) :=
  manager.living + map Client.tag manager.removed

/-- How many messages to the resource manager were sent for one client. -/
def noticesFor (manager : Manager) (serial : Nat) : Nat :=
  (manager.sent.map Notice.serial).count serial

/-- Every client that was served and is no longer registered has been reported exactly once. -/
def GivenBack (manager : Manager) : Prop :=
  ∀ client ∈ manager.removed, client.served ≠ none → manager.noticesFor client.serial = 1

instance (manager : Manager) : Decidable manager.GivenBack :=
  inferInstanceAs (Decidable (∀ client ∈ manager.removed, _ → _))

/-- The clients that an event takes out of `_clients` without disabling them. -/
def dropped (manager : Manager) : Event → List UInt32
  | .thread _ => if manager.fault then [] else manager.droppedIn manager.phase
  | _ => []

/-- No client that was served is dropped. -/
def DropsUnserved (manager : Manager) (event : Event) : Prop :=
  ∀ qpNum ∈ manager.dropped event, (manager.clients.lookup qpNum).bind Client.served = none

instance (manager : Manager) (event : Event) : Decidable (manager.DropsUnserved event) :=
  List.decidableBAll _ _

/-- The invariant of the accounting. -/
structure Tallied (manager : Manager) : Prop where
  hasResMgr : manager.hasResMgr = true
  distinct : (manager.roster.map Prod.fst).Nodup
  bounded : ∀ entry ∈ manager.roster, entry.1 < manager.made
  noticed : ∀ notice ∈ manager.sent, notice.serial < manager.made
  counted : ∀ entry ∈ manager.roster, manager.noticesFor entry.1 = if entry.2 then 0 else 1

/-- Between two steps, moreover, all living clients are active. -/
structure Sound (manager : Manager) : Prop extends Tallied manager where
  active : ∀ entry ∈ manager.living, entry.2 = true

theorem start_sound (loop : Loop) : (start loop).Sound where
  hasResMgr := rfl
  distinct := nodup_zero
  bounded _ member := by cases member
  noticed := nofun
  counted _ member := by cases member
  active _ member := by cases member

theorem Tallied.of_le {before after : Manager} (tallied : before.Tallied)
    (hasResMgr : after.hasResMgr = before.hasResMgr) (sent : after.sent = before.sent)
    (made : after.made = before.made) (roster : after.roster ≤ before.roster) :
    after.Tallied where
  hasResMgr := hasResMgr.trans tallied.hasResMgr
  distinct := nodup_of_le (map_le_map roster) tallied.distinct
  bounded entry member := by
    rw [made]
    exact tallied.bounded entry (Multiset.mem_of_le roster member)
  noticed notice member := by
    rw [made]
    exact tallied.noticed notice (sent ▸ member)
  counted entry member := by
    rw [noticesFor, sent]
    exact tallied.counted entry (Multiset.mem_of_le roster member)

theorem mem_livingIn {queue : List Operation} {clients : Table UInt32 Client} {entry : Nat × Bool} :
    entry ∈ livingIn queue clients ↔
      ∃ client, (client ∈ queuedIn queue ∨ ∃ qpNum, clients.lookup qpNum = some client) ∧
        client.tag = entry := by
  simp only [livingIn, mem_map, mem_add, Table.mem_values]

variable {manager : Manager} {qpNum : UInt32} {client : Client}

theorem Sound.registered_active (sound : manager.Sound)
    (found : manager.clients.lookup qpNum = some client) : client.active = true :=
  sound.active client.tag (mem_livingIn.mpr ⟨client, Or.inr ⟨qpNum, found⟩, rfl⟩)

theorem registered_mem_roster (found : manager.clients.lookup qpNum = some client) :
    client.tag ∈ manager.roster :=
  mem_add.mpr (Or.inl (mem_livingIn.mpr ⟨client, Or.inr ⟨qpNum, found⟩, rfl⟩))

theorem removed_mem_roster (member : client ∈ manager.removed) : client.tag ∈ manager.roster := by
  exact mem_add.mpr (Or.inr (mem_map_of_mem _ (mem_coe.mpr member)))

/-! ### The moves on the roster -/

theorem livingIn_of_lookup {queue : List Operation} {clients : Table UInt32 Client}
    (found : clients.lookup qpNum = some client) :
    livingIn queue clients = client.tag ::ₘ livingIn queue (clients.erase qpNum) := by
  rw [livingIn, Table.values_of_lookup found, Multiset.add_cons, Multiset.map_cons, livingIn]

theorem livingIn_insert (queue : List Operation) (clients : Table UInt32 Client) (qpNum : UInt32)
    (client : Client) :
    livingIn queue (clients.insert qpNum client) =
      client.tag ::ₘ livingIn queue (clients.erase qpNum) := by
  rw [livingIn, Table.values_insert, Multiset.add_cons, Multiset.map_cons, livingIn]

/-- Writing to a registered client without touching its flag. -/
theorem livingIn_update {queue : List Operation} {clients : Table UInt32 Client}
    {client current : Client} (found : clients.lookup qpNum = some client)
    (tag : current.tag = client.tag) :
    livingIn queue (clients.insert qpNum current) = livingIn queue clients := by
  rw [livingIn_insert, livingIn_of_lookup found, tag]

theorem livingIn_client (client : Client) (rest : List Operation) (clients : Table UInt32 Client) :
    livingIn (.connect (.client client) :: rest) clients =
      client.tag ::ₘ livingIn rest clients := by
  have head : queuedIn (.connect (.client client) :: rest) = client ::ₘ queuedIn rest := rfl
  rw [livingIn, head, Multiset.cons_add, Multiset.map_cons, livingIn]

theorem livingIn_append (queue more : List Operation) (clients : Table UInt32 Client) :
    livingIn (queue ++ more) clients =
      (queuedIn more).map Client.tag + livingIn queue clients := by
  have split : queuedIn (queue ++ more) = queuedIn more + queuedIn queue := by
    rw [queuedIn, List.filterMap_append, ← Multiset.coe_add, Multiset.add_comm]
    rfl
  rw [livingIn, split, Multiset.add_assoc, Multiset.map_add, livingIn]

theorem eraseClient_living_le (manager : Manager) (qpNum : UInt32) :
    (manager.eraseClient qpNum).living ≤ manager.living := by
  cases found : manager.clients.lookup qpNum with
  | none => rw [eraseClient_of_absent found]
  | some client =>
    rw [living, living, livingIn_of_lookup found, eraseClient_of_found found]
    exact le_cons_self _ _

/-- Erasing a client moves it within the roster. -/
theorem eraseClient_roster (manager : Manager) (qpNum : UInt32) :
    (manager.eraseClient qpNum).roster = manager.roster := by
  cases found : manager.clients.lookup qpNum with
  | none => rw [eraseClient_of_absent found]
  | some client =>
    have removed : (↑(manager.removed ++ [client]) : Multiset Client) =
        client ::ₘ ↑manager.removed := by
      rw [← Multiset.coe_add, Multiset.add_comm]
      rfl
    rw [roster, roster, living, living, livingIn_of_lookup found, Multiset.cons_add,
      eraseClient_of_found found, removed, Multiset.map_cons, Multiset.add_cons]

theorem Tallied.eraseClient (tallied : manager.Tallied) (qpNum : UInt32) :
    (manager.eraseClient qpNum).Tallied := by
  refine tallied.of_le ?_ ?_ ?_ (eraseClient_roster manager qpNum).le <;>
    · unfold Manager.eraseClient
      split <;> rfl

theorem mem_removed_eraseClient :
    client ∈ (manager.eraseClient qpNum).removed ↔
      client ∈ manager.removed ∨ manager.clients.lookup qpNum = some client := by
  cases found : manager.clients.lookup qpNum with
  | none =>
    rw [eraseClient_of_absent found]
    simp
  | some other =>
    rw [eraseClient_of_found found]
    simp [eq_comm]

theorem disable_spec (manager : Manager) (qpNum : UInt32) (current : Client) (now : Int) :
    ∃ client notice, client.serial = current.serial ∧ client.active = false ∧
      notice.serial = current.serial ∧
      (manager.disable qpNum current now).clients = manager.clients.insert qpNum client ∧
      (manager.hasResMgr = true →
        (manager.disable qpNum current now).sent = manager.sent ++ [notice]) := by
  refine ⟨_, _, ?_, ?_, ?_, rfl, fun connected => if_pos connected⟩
  · dsimp only
    split <;> rfl
  · rfl
  · rfl

/-- Disabling an active client that is registered reports it and makes it inactive. -/
theorem Tallied.disable (tallied : manager.Tallied)
    (found : manager.clients.lookup qpNum = some client) (active : client.active = true)
    (current : Client) (same : current.serial = client.serial) (now : Int) :
    (manager.disable qpNum current now).Tallied := by
  obtain ⟨disabled, notice, sameSerial, inactive, noticeSerial, clients, sent⟩ :=
    disable_spec manager qpNum current now
  replace sent := sent tallied.hasResMgr
  -- the rest of the roster, with the client taken out
  obtain ⟨rest, before, after⟩ : ∃ rest, manager.roster = (client.serial, true) ::ₘ rest ∧
      (manager.disable qpNum current now).roster = (client.serial, false) ::ₘ rest := by
    refine ⟨livingIn manager.clientQueue (manager.clients.erase qpNum) +
      map Client.tag manager.removed, ?_, ?_⟩
    · rw [roster, living, livingIn_of_lookup found, Multiset.cons_add, Client.tag, active]
    · rw [roster, living, clients, livingIn_insert, Multiset.cons_add, Client.tag, inactive,
        sameSerial, same]
      rfl
  have distinct := tallied.distinct
  rw [before, Multiset.map_cons, nodup_cons] at distinct
  have silent : manager.noticesFor client.serial = 0 :=
    tallied.counted (client.serial, true) (by rw [before]; exact mem_cons_self _ _)
  refine ⟨tallied.hasResMgr, ?_, ?_, ?_, ?_⟩
  · rw [after, Multiset.map_cons, nodup_cons]
    exact distinct
  · intro entry member
    rw [after, mem_cons] at member
    rcases member with rfl | member
    · exact tallied.bounded (client.serial, true) (by rw [before]; exact mem_cons_self _ _)
    · exact tallied.bounded entry (by rw [before]; exact mem_cons_of_mem member)
  · intro other member
    rw [sent] at member
    rcases List.mem_append.mp member with old | new
    · exact tallied.noticed other old
    · rw [List.mem_singleton.mp new, noticeSerial, same]
      exact tallied.bounded (client.serial, true) (by rw [before]; exact mem_cons_self _ _)
  · intro entry member
    rw [noticesFor, sent, List.map_append, List.count_append, List.map_singleton, noticeSerial,
      same, List.count_singleton]
    rw [after, mem_cons] at member
    rcases member with rfl | member
    · rw [noticesFor] at silent
      simp [silent]
    · have other : client.serial ≠ entry.1 := by
        intro equal
        refine distinct.1 ?_
        show client.serial ∈ _
        rw [equal]
        exact mem_map_of_mem Prod.fst member
      have counted := tallied.counted entry (by rw [before]; exact mem_cons_of_mem member)
      rw [noticesFor] at counted
      rw [counted, beq_false_of_ne other]
      rfl

/-- What changes nothing in the accounting but, possibly, loses clients that were never
registered. -/
structure Quiet (before after : Manager) : Prop where
  hasResMgr : after.hasResMgr = before.hasResMgr
  sent : after.sent = before.sent
  made : after.made = before.made
  removed : after.removed = before.removed
  living : after.living ≤ before.living

theorem Quiet.sound {before after : Manager} (quiet : Quiet before after) (sound : before.Sound) :
    after.Sound where
  toTallied := sound.of_le quiet.hasResMgr quiet.sent quiet.made (by
    rw [roster, roster, quiet.removed]
    exact Multiset.add_le_add_right quiet.living)
  active entry member := sound.active entry (Multiset.mem_of_le quiet.living member)

/-! ### What each function does to the accounting -/

/-- What a step does: the invariant is kept, and the clients removed are inactive ones and those
under the given keys. -/
structure Outcome (before after : Manager) (keys : List UInt32) : Prop where
  sound : after.Sound
  kept : ∀ client ∈ before.removed, client ∈ after.removed
  dropped : ∀ qpNum ∈ keys, ∀ client, before.clients.lookup qpNum = some client →
    client ∈ after.removed
  only : ∀ client ∈ after.removed, client ∈ before.removed ∨
    client.active = false ∨ ∃ qpNum ∈ keys, before.clients.lookup qpNum = some client

theorem Quiet.outcome {before after : Manager} (quiet : Quiet before after)
    (sound : before.Sound) : Outcome before after [] where
  sound := quiet.sound sound
  kept client member := by rwa [quiet.removed]
  dropped := nofun
  only client member := by
    rw [quiet.removed] at member
    exact Or.inl member

/-- Given the outcome of a step, all leases are given back after it exactly if none of the
clients under the keys was served. -/
theorem Outcome.givenBack_iff {before after : Manager} {keys : List UInt32}
    (outcome : Outcome before after keys) (sound : before.Sound) (given : before.GivenBack) :
    after.GivenBack ↔
      ∀ qpNum ∈ keys, (before.clients.lookup qpNum).bind Client.served = none := by
  have counted : ∀ client ∈ after.removed,
      after.noticesFor client.serial = if client.active then 0 else 1 := fun client member =>
    outcome.sound.counted client.tag (removed_mem_roster member)
  constructor
  · intro givenAfter qpNum member
    cases found : before.clients.lookup qpNum with
    | none => rfl
    | some client =>
      have removed := outcome.dropped qpNum member client found
      by_contra served
      have once := givenAfter client removed served
      rw [counted client removed, sound.registered_active found] at once
      cases once
  · intro unserved client removed served
    rw [counted client removed]
    rcases outcome.only client removed with earlier | inactive | ⟨qpNum, member, found⟩
    · have once := (sound.counted client.tag (removed_mem_roster earlier)).symm.trans
        (given client earlier served)
      split at once
      · cases once
      · rename_i inactive
        exact if_neg inactive
    · rw [inactive]
      rfl
    · have none := unserved qpNum member
      rw [found] at none
      exact absurd none served

/-- Removing a client without disabling it first. -/
theorem eraseClient_outcome (sound : manager.Sound) (qpNum : UInt32) :
    Outcome manager (manager.eraseClient qpNum) [qpNum] where
  sound := ⟨sound.toTallied.eraseClient qpNum, fun entry member =>
    sound.active entry (Multiset.mem_of_le (eraseClient_living_le manager qpNum) member)⟩
  kept client member := mem_removed_eraseClient.mpr (Or.inl member)
  dropped other member client found := by
    rw [List.mem_singleton.mp member] at found
    exact mem_removed_eraseClient.mpr (Or.inr found)
  only client member := (mem_removed_eraseClient.mp member).imp_right fun found =>
    Or.inr ⟨qpNum, List.mem_singleton_self _, found⟩

theorem Tallied.eraseAll (tallied : manager.Tallied) (keys : List UInt32) :
    (keys.foldl Manager.eraseClient manager).Tallied :=
  run_stable (fun _ qpNum tallied => tallied.eraseClient qpNum) keys tallied

theorem mem_removed_eraseAll {keys : List UInt32} :
    client ∈ (keys.foldl eraseClient manager).removed ↔ client ∈ manager.removed ∨
      ∃ qpNum ∈ keys, manager.clients.lookup qpNum = some client := by
  induction keys generalizing manager with
  | nil => simp
  | cons qpNum rest inductionHypothesis =>
    rw [List.foldl_cons, inductionHypothesis, mem_removed_eraseClient]
    simp only [lookup_eraseClient, List.mem_cons]
    constructor
    · rintro ((old | found) | ⟨other, member, found⟩)
      · exact Or.inl old
      · exact Or.inr ⟨qpNum, Or.inl rfl, found⟩
      · split at found
        · cases found
        · exact Or.inr ⟨other, Or.inr member, found⟩
    · rintro (old | ⟨other, rfl | member, found⟩)
      · exact Or.inl (Or.inl old)
      · exact Or.inl (Or.inr found)
      · by_cases same : other = qpNum
        · exact Or.inl (Or.inr (same ▸ found))
        · exact Or.inr ⟨other, member, by rw [if_neg same]; exact found⟩

/-- All living clients are active when the queued ones are and the registered ones are. -/
theorem active_of_registered
    (queued : ∀ client ∈ queuedIn manager.clientQueue, client.active = true)
    (registered : ∀ qpNum client, manager.clients.lookup qpNum = some client →
      client.active = true) : ∀ entry ∈ manager.living, entry.2 = true := by
  intro entry member
  obtain ⟨client, waiting | ⟨qpNum, found⟩, rfl⟩ := mem_livingIn.mp member
  · exact queued client waiting
  · exact registered qpNum client found

theorem Sound.queued_active (sound : manager.Sound)
    (member : client ∈ queuedIn manager.clientQueue) : client.active = true :=
  sound.active client.tag (mem_livingIn.mpr ⟨client, Or.inl member, rfl⟩)

theorem clearClients_outcome (sound : manager.Sound) :
    Outcome manager manager.clearClients manager.clients.keys where
  sound := by
    refine ⟨sound.toTallied.eraseAll manager.clients.keys, active_of_registered ?_ ?_⟩
    · intro client member
      rw [clearClients, eraseAll_queue] at member
      exact sound.queued_active member
    · intro qpNum client found
      rw [clearClients, lookup_eraseAll] at found
      split at found
      · cases found
      · exact sound.registered_active found
  kept client member := mem_removed_eraseAll.mpr (Or.inl member)
  dropped qpNum member client found := mem_removed_eraseAll.mpr (Or.inr ⟨qpNum, member, found⟩)
  only client member := (mem_removed_eraseAll.mp member).imp_right Or.inr

/-- What the first loop of `_check_executors` keeps: it reports exactly the clients it makes
inactive, and collects their keys. -/
structure Checked (before : Manager) (checked : Manager × List UInt32) : Prop where
  tallied : checked.1.Tallied
  removed : checked.1.removed = before.removed
  clientQueue : checked.1.clientQueue = before.clientQueue
  collected : ∀ qpNum ∈ checked.2, ∀ client, checked.1.clients.lookup qpNum = some client →
    client.active = false
  active : ∀ qpNum client, checked.1.clients.lookup qpNum = some client → qpNum ∉ checked.2 →
    client.active = true

theorem Checked.next {before : Manager} {checked : Manager × List UInt32}
    (invariant : Checked before checked) (now : Int) (qpNum : UInt32) :
    Checked before (checkExecutor now checked qpNum) := by
  unfold checkExecutor
  split
  · exact invariant
  · rename_i client found
    split
    · rename_i active
      split
      · exact invariant
      · rename_i executor _
        split
        · obtain ⟨disabled, notice, _, inactive, _, clients, _⟩ := disable_spec checked.1 qpNum
            { client.chargeAllocation executor now with executor := none } now
          refine ⟨invariant.tallied.disable found active
            { client.chargeAllocation executor now with executor := none } rfl now,
            invariant.removed, invariant.clientQueue, ?_, ?_⟩
          · intro other member otherClient otherFound
            rw [clients] at otherFound
            rcases Table.lookup_insert_eq_some.mp otherFound with ⟨_, rfl⟩ | ⟨different, otherFound⟩
            · exact inactive
            · rcases List.mem_append.mp member with old | new
              · exact invariant.collected other old otherClient otherFound
              · exact absurd (List.mem_singleton.mp new) different
          · intro other otherClient otherFound uncollected
            rw [List.mem_append, List.mem_singleton, not_or] at uncollected
            rw [clients, Table.lookup_insert_eq, if_neg uncollected.2] at otherFound
            exact invariant.active other otherClient otherFound uncollected.1
        · exact invariant
    · exact invariant

theorem checked_foldl {before : Manager} {checked : Manager × List UInt32}
    (invariant : Checked before checked) (now : Int) (keys : List UInt32) :
    Checked before (keys.foldl (checkExecutor now) checked) :=
  run_stable (fun _ qpNum invariant => invariant.next now qpNum) keys invariant

theorem checkExecutors_outcome (sound : manager.Sound) (now : Int) :
    Outcome manager (manager.checkExecutors now) [] := by
  have start : Checked manager (manager, []) := by
    refine ⟨sound.toTallied, rfl, rfl, ?_, fun _ _ found _ => sound.registered_active found⟩
    intro qpNum member
    cases member
  have spec := checked_foldl start now manager.clients.keys
  refine ⟨⟨spec.tallied.eraseAll _, active_of_registered ?_ ?_⟩, fun client member => ?_, nofun,
    fun client member => ?_⟩
  · intro client member
    rw [checkExecutors, eraseAll_queue, spec.clientQueue] at member
    exact sound.queued_active member
  · intro qpNum client found
    rw [checkExecutors, lookup_eraseAll] at found
    split at found
    · cases found
    · rename_i uncollected
      exact spec.active qpNum client found uncollected
  · refine mem_removed_eraseAll.mpr (Or.inl ?_)
    rw [spec.removed]
    exact member
  · rcases mem_removed_eraseAll.mp member with old | ⟨qpNum, collected, found⟩
    · rw [spec.removed] at old
      exact Or.inl old
    · exact Or.inr (Or.inl (spec.collected qpNum collected client found))

theorem handleConnections_quiet {message : Message} {rest : List Operation}
    (head : manager.clientQueue = .connect message :: rest) (resultMemory nodeMemory : Int32) :
    Quiet manager ({ manager with
      clientQueue := rest
      result := assignResult manager.result resultMemory message }.handleConnections
      nodeMemory) := by
  cases message with
  | executor connection =>
    have same : livingIn rest manager.clients ≤ manager.living := by
      rw [living, head]
      exact le_rfl
    simp only [handleConnections, assignResult]
    split
    · exact ⟨rfl, rfl, rfl, rfl, same⟩
    · rename_i client found
      split
      · exact ⟨rfl, rfl, rfl, rfl, same⟩
      · rename_i executor _
        refine ⟨rfl, rfl, rfl, rfl, ?_⟩
        refine le_trans (livingIn_update found ?_).le same
        rfl
  | client obj =>
    obtain ⟨id, assigned⟩ := assignResult_client manager.result resultMemory obj
    have waiting : manager.living = obj.tag ::ₘ livingIn rest manager.clients := by
      rw [living, head, livingIn_client]
    have less : livingIn rest manager.clients ≤ manager.living := by
      rw [waiting]
      exact le_cons_self _ _
    simp only [handleConnections, assigned]
    split
    · exact ⟨rfl, rfl, rfl, rfl, less⟩
    · rename_i connection _
      refine ⟨rfl, rfl, rfl, rfl, ?_⟩
      show livingIn rest (manager.clients.emplace connection.qpNum _) ≤ _
      cases found : manager.clients.lookup connection.qpNum with
      | some other =>
        rw [Table.lookup_emplace_of_some found]
        exact less
      | none =>
        rw [Table.emplace_of_none found, livingIn_insert, Table.erase_of_none found, waiting]
        exact le_rfl

/-- The client that is disabled is removed right after it. -/
theorem disable_erase_outcome (sound : manager.Sound)
    (found : manager.clients.lookup qpNum = some client) (now : Int) :
    Outcome manager ((manager.disable qpNum client now).eraseClient qpNum) [] := by
  obtain ⟨disabled, notice, _, inactive, _, clients, _⟩ := disable_spec manager qpNum client now
  have active := sound.registered_active found
  have queue : ((manager.disable qpNum client now).eraseClient qpNum).clientQueue =
      manager.clientQueue := eraseAll_queue _ [qpNum]
  refine ⟨⟨(sound.toTallied.disable found active client rfl now).eraseClient qpNum,
    active_of_registered ?_ ?_⟩, ?_, nofun, ?_⟩
  · intro other member
    rw [queue] at member
    exact sound.queued_active member
  · intro other otherClient otherFound
    rw [lookup_eraseClient, clients, Table.lookup_insert_eq] at otherFound
    split at otherFound
    · cases otherFound
    · exact sound.registered_active otherFound
  · intro other member
    exact mem_removed_eraseClient.mpr (Or.inl member)
  · intro other member
    refine (mem_removed_eraseClient.mp member).imp_right fun found => ?_
    rw [clients, AList.lookup_insert] at found
    rw [← Option.some.inj found]
    exact Or.inl inactive

theorem quiet_of_same {before after : Manager} (hasResMgr : after.hasResMgr = before.hasResMgr)
    (sent : after.sent = before.sent) (made : after.made = before.made)
    (removed : after.removed = before.removed)
    (clientQueue : after.clientQueue = before.clientQueue)
    (clients : after.clients = before.clients) : Quiet before after :=
  ⟨hasResMgr, sent, made, removed, by rw [living, living, clientQueue, clients]⟩

theorem handleClientMessage_outcome (sound : manager.Sound) (completion : WorkCompletion)
    (chance : Chance) : Outcome manager (manager.handleClientMessage completion chance) [] := by
  refine @handleClientMessage_rule (fun after => Outcome manager after []) manager completion
    chance ?_ ?_ ?_ ?_
  · exact (quiet_of_same rfl rfl rfl rfl rfl rfl).outcome sound
  · intro leases responses
    refine Quiet.outcome ?_ sound
    exact quiet_of_same rfl rfl rfl rfl rfl rfl
  · intro client executor leases exited responses found
    refine Quiet.outcome ⟨rfl, rfl, rfl, rfl, ?_⟩ sound
    refine (livingIn_update found ?_).le
    rfl
  · intro client found _
    exact disable_erase_outcome sound found chance.now

theorem Sound.join {before after : Manager} (sound : before.Sound)
    (hasResMgr : after.hasResMgr = before.hasResMgr) (sent : after.sent = before.sent)
    (made : after.made = before.made + 1) (removed : after.removed = before.removed)
    (living : after.living = (before.made, true) ::ₘ before.living) : after.Sound := by
  have roster : after.roster = (before.made, true) ::ₘ before.roster := by
    rw [Manager.roster, living, removed, Multiset.cons_add, Manager.roster]
  refine ⟨⟨hasResMgr.trans sound.hasResMgr, ?_, ?_, ?_, ?_⟩, ?_⟩
  · rw [roster, Multiset.map_cons, nodup_cons]
    refine ⟨fun member => ?_, sound.distinct⟩
    obtain ⟨entry, old, same⟩ := mem_map.mp member
    exact absurd (sound.bounded entry old) (by rw [same]; exact lt_irrefl _)
  · intro entry member
    rw [roster, mem_cons] at member
    rw [made]
    rcases member with rfl | old
    · exact Nat.lt_succ_self _
    · exact Nat.lt_succ_of_lt (sound.bounded entry old)
  · intro notice member
    rw [sent] at member
    rw [made]
    exact Nat.lt_succ_of_lt (sound.noticed notice member)
  · intro entry member
    rw [roster, mem_cons] at member
    rw [noticesFor, sent]
    rcases member with rfl | old
    · refine List.count_eq_zero.mpr fun reported => ?_
      obtain ⟨notice, noticed, same⟩ := List.mem_map.mp reported
      exact absurd (sound.noticed notice noticed) (by rw [same]; exact lt_irrefl _)
    · exact sound.counted entry old
  · intro entry member
    rw [living, mem_cons] at member
    rcases member with rfl | old
    · rfl
    · exact sound.active entry old

theorem requested_outcome (sound : manager.Sound) (connection : Connection)
    (temporaryMemory queueMemory : Int32) :
    Outcome manager (manager.requested connection temporaryMemory queueMemory) [] := by
  unfold requested
  split
  · split
    · refine Quiet.outcome ⟨rfl, rfl, rfl, rfl, ?_⟩ sound
      rw [living, livingIn_append]
      exact (Multiset.zero_add _).le
    · exact (quiet_of_same rfl rfl rfl rfl rfl rfl).outcome sound
  · refine ⟨sound.join rfl rfl rfl rfl ?_, fun _ => id, nofun, fun _ => Or.inl⟩
    rw [living, livingIn_append]
    rfl

/-! ### One step -/

/-- An outcome depends on the state before only through its clients. -/
theorem Outcome.of_same {before same after : Manager} {keys : List UInt32}
    (outcome : Outcome same after keys) (removed : same.removed = before.removed)
    (clients : same.clients = before.clients) : Outcome before after keys where
  sound := outcome.sound
  kept := removed ▸ outcome.kept
  dropped := clients ▸ outcome.dropped
  only := by
    rw [← removed, ← clients]
    exact outcome.only

theorem Outcome.then {before middle after : Manager} {keys : List UInt32}
    (outcome : Outcome before middle keys) (quiet : Quiet middle after) :
    Outcome before after keys where
  sound := quiet.sound outcome.sound
  kept := quiet.removed.symm ▸ outcome.kept
  dropped := quiet.removed.symm ▸ outcome.dropped
  only := quiet.removed.symm ▸ outcome.only

theorem threadStep_outcome (sound : manager.Sound) (chance : Chance) :
    Outcome manager (manager.threadStep chance) (manager.droppedIn manager.phase) := by
  have moved : ∀ phase, Sound { manager with phase := phase } := by
    intro phase
    refine Quiet.sound ?_ sound
    exact quiet_of_same rfl rfl rfl rfl rfl rfl
  have taken : ∀ {connection rest}, manager.clientQueue = .disconnect connection :: rest →
      livingIn rest manager.clients ≤ manager.living := by
    intro connection rest head
    rw [living, head]
    exact le_rfl
  refine threadStep_rule manager chance ?_ ?_ ?_ ?_ ?_ ?_ ?_ ?_ ?_
  · intro phase disconnections completions leaseMessages _
    refine Quiet.outcome ?_ sound
    exact quiet_of_same rfl rfl rfl rfl rfl rfl
  · intro message rest head
    exact (handleConnections_quiet head chance.resultMemory chance.nodeMemory).outcome sound
  · intro connection rest head
    exact Quiet.outcome ⟨rfl, rfl, rfl, rfl, taken head⟩ sound
  · intro connection rest head
    have dequeued : Quiet manager { manager with
        clientQueue := rest, result := .executor connection } :=
      ⟨rfl, rfl, rfl, rfl, taken head⟩
    exact (eraseClient_outcome (dequeued.sound sound) connection.qpNum).of_same rfl rfl
  · intro connection rest _
    have dequeued : Quiet manager { manager with disconnections := rest } :=
      quiet_of_same rfl rfl rfl rfl rfl rfl
    exact (eraseClient_outcome (dequeued.sound sound) connection.qpNum).of_same rfl rfl
  · intro phase completion _ _
    exact (handleClientMessage_outcome (moved phase) completion chance).of_same rfl rfl
  · intro phase lease _
    refine Quiet.outcome ?_ sound
    exact quiet_of_same rfl rfl rfl rfl rfl rfl
  · intro _
    exact (checkExecutors_outcome (moved .pollTop) chance.now).of_same rfl rfl
  · refine fun _ => (clearClients_outcome sound).then ?_
    exact quiet_of_same rfl rfl rfl rfl rfl rfl

theorem step_outcome (sound : manager.Sound) (event : Event) :
    Outcome manager (manager.step event) (manager.dropped event) := by
  cases running : manager.fault with
  | true =>
    have same : manager.dropped event = [] := by
      cases event <;> simp [dropped, running]
    rw [step.eq_def, if_pos running, same]
    exact (quiet_of_same rfl rfl rfl rfl rfl rfl).outcome sound
  | false =>
    rw [step.eq_def, if_neg (by simp [running])]
    cases event with
    | requested connection temporaryMemory queueMemory =>
      exact requested_outcome sound connection temporaryMemory queueMemory
    | thread chance =>
      have keys : manager.dropped (.thread chance) = manager.droppedIn manager.phase :=
        if_neg (by simp [running])
      rw [keys]
      exact threadStep_outcome sound chance
    | disconnected connection =>
      have queued : livingIn (manager.clientQueue ++ [.disconnect connection]) manager.clients ≤
          livingIn manager.clientQueue manager.clients := by
        rw [livingIn_append]
        exact (Multiset.zero_add _).le
      exact Quiet.outcome ⟨rfl, rfl, rfl, rfl, queued⟩ sound
    | account qpNum hotPollingTime executionTime =>
      refine Quiet.outcome ?_ sound
      simp only [account]
      split
      · exact quiet_of_same rfl rfl rfl rfl rfl rfl
      · rename_i client found
        refine ⟨rfl, rfl, rfl, rfl, (livingIn_update found ?_).le⟩
        rfl
    | _ =>
      refine Quiet.outcome ?_ sound
      exact quiet_of_same rfl rfl rfl rfl rfl rfl

/-! ### Runs -/

theorem step_givenBack_iff (sound : manager.Sound) (event : Event) (given : manager.GivenBack) :
    (manager.step event).GivenBack ↔ manager.DropsUnserved event :=
  (step_outcome sound event).givenBack_iff sound given

/-- Every served client that was removed has been reported exactly once in every state of a run
exactly if no step of the run drops a served client. -/
theorem always_givenBack_iff (loop : Loop) (events : List Event) :
    Always step GivenBack (start loop) events ↔
      Along step DropsUnserved (start loop) events := by
  have preserved : ∀ manager event, Sound manager → Sound (manager.step event) :=
    fun _ event sound => (step_outcome sound event).sound
  have exact_step : ∀ manager event, Sound manager → GivenBack manager →
      (GivenBack (manager.step event) ↔ DropsUnserved manager event) :=
    fun _ event sound given => step_givenBack_iff sound event given
  have nobody : (start loop).GivenBack := fun client left => absurd left List.not_mem_nil
  exact always_iff_along_of_stable preserved exact_step (start_sound loop) nobody

/-- A step of the manager thread; in the sleeping loop, `epoll` reports the clients' channel. -/
def tick : Event := .thread ⟨100, 0, 0, 0, [.clients]⟩

/-- A client connects and asks for lease 5, the manager thread serves it, and then the client
leaves. -/
def servedThen (serve : Nat) (leaving : List Event) (finish : Nat) : List Event :=
  [.requested ⟨⟨0, 7⟩, 0⟩ 0 0, .message ⟨7, true, ⟨5, 1⟩⟩] ++ List.replicate serve tick ++
    leaving ++ List.replicate finish tick

/-- The final message of that client. -/
def finalMessage : Event := .message ⟨7, true, ⟨-1, 0⟩⟩

/-- The end of its connection. -/
def connectionEnd : Event := .disconnected ⟨⟨0, 7⟩, 0⟩

end Manager

end ExecutorManager

end RFaaS
