/-
This file is about the places an executor can have in the resource manager. An
executor with capacity left waits in the free list; the lease that fills it
takes it out of the list, and closing that very lease puts it back. So a live
executor should have one place at most: one entry in the free list, or one
total lease that is open.

As long as the counter of the ids has not wrapped this is an invariant. Every
operation that appends to the list appends an executor that was just made or
one that gave up its total lease. After the wrap a new lease gets the record of
an old one: a lease that left cores free is closed as if it had been total, and
its executor is in the list twice.
-/

import RFaaS.LeaseCounter

namespace RFaaS

open Transition List

namespace ExecutorDB

/-! ### What setting up executors appends to the free list -/

/-- What setting up executors does to the number of entries: those of the executors there are stay
as they were, and an executor made meanwhile has one at most. -/
def Appends (before after : ExecutorDB) : Prop :=
  ∀ ref, (ref < before.executors.fresh →
      after.freeNodes.count (some ref) = before.freeNodes.count (some ref)) ∧
    (before.executors.fresh ≤ ref → after.freeNodes.count (some ref) ≤ 1)

theorem Consistent.count_eq_zero {db : ExecutorDB} (consistent : db.Consistent)
    {ref : ExecutorRef} (unmade : db.executors.fresh ≤ ref) :
    db.freeNodes.count (some ref) = 0 :=
  List.count_eq_zero.mpr fun member => absurd (consistent.listed_lt ref member) (not_lt.mpr unmade)

theorem Consistent.appends_of_same {before after : ExecutorDB} (consistent : before.Consistent)
    (same : after.freeNodes = before.freeNodes) : Appends before after := by
  intro ref
  rw [same]
  exact ⟨fun _ => rfl, fun unmade => (consistent.count_eq_zero unmade).le.trans (Nat.zero_le _)⟩

theorem Consistent.addNode_appends {db : ExecutorDB} (consistent : db.Consistent)
    (data : ServerData) : Appends db (db.addNode data).2 := by
  rcases (ExecutorDB.addNode_appends db data).2 with same | appended
  · exact consistent.appends_of_same same
  · intro ref
    rw [appended, count_append, count_singleton]
    refine ⟨fun old => ?_, fun unmade => ?_⟩
    · rw [if_neg (by simpa using old.ne'), Nat.add_zero]
    · rw [consistent.count_eq_zero unmade, Nat.zero_add]
      split <;> decide

theorem Consistent.read_appends {db : ExecutorDB} (consistent : db.Consistent)
    (servers : List ServerData) : Appends db (db.read servers) := by
  induction servers generalizing db with
  | nil => exact consistent.appends_of_same rfl
  | cons server rest inductionHypothesis =>
    have head := consistent.addNode_appends server
    have tail := inductionHypothesis (consistent.addNode server)
    have fresh := (ExecutorDB.addNode_appends db server).1
    intro ref
    refine ⟨fun old => ?_, fun unmade => ?_⟩
    · exact ((tail ref).1 (fresh ▸ Nat.lt_succ_of_lt old)).trans ((head ref).1 old)
    · -- the executor is the one that the first server made, or a later one
      by_cases first : ref < (db.addNode server).2.executors.fresh
      · exact ((tail ref).1 first).le.trans ((head ref).2 unmade)
      · exact (tail ref).2 (not_lt.mp first)

theorem Consistent.step_appends {db : ExecutorDB} (consistent : db.Consistent) {op : StoreOp}
    (setup : op.isSetup = true) : Appends db (db.step op) := by
  cases op with
  | add =>
    rw [ExecutorDB.step, add_addNode]
    split
    · exact consistent.appends_of_same rfl
    · exact consistent.addNode_appends _
  | read servers => exact consistent.read_appends servers
  | openLease | closeLease => cases setup
  | _ => exact consistent.appends_of_same rfl

end ExecutorDB

namespace Ledger

/-! ### Places -/

/-- Whether the record of a lease says that it is total. -/
def isTotal (ledger : Ledger) (grant : Grant) : Bool :=
  (ledger.db.leases.lookup grant.id).any Lease.total

/-- The open leases on an executor that are total. -/
def openTotals (ledger : Ledger) (ref : ExecutorRef) : List Grant :=
  ledger.openGrants.filter fun grant => decide (grant.executor = ref) && ledger.isTotal grant

/-- The entries of the free list and the open total leases of an executor. -/
def places (ledger : Ledger) (ref : ExecutorRef) : Nat :=
  ledger.db.freeNodes.count (some ref) + (ledger.openTotals ref).length

variable {ledger : Ledger}

/-- A lease is closed only if it is open. An id that was never granted may be closed, which has no
effect. -/
def ClosesOnce (ledger : Ledger) : StoreOp → Prop
  | .closeLease msg =>
    (∃ grant ∈ ledger.openGrants, grant.id = msg.leaseId.toUInt32) ∨
      msg.leaseId.toUInt32 ∉ ledger.closedIds
  | _ => True

instance (ledger : Ledger) : DecidablePred ledger.ClosesOnce
  | .closeLease msg =>
    inferInstanceAs (Decidable ((∃ grant ∈ ledger.openGrants, grant.id = msg.leaseId.toUInt32) ∨
      msg.leaseId.toUInt32 ∉ ledger.closedIds))
  | .add _ _ _ _ _ | .read _ | .connectExecutor _ | .registerExecutor _ _ | .removeExecutor _
  | .openLease _ _ => inferInstanceAs (Decidable True)

/-- The invariant: every open lease has a record of its own, every record belongs to a lease that
is open or was closed, and every live executor has one place at most. -/
structure Occupied (ledger : Ledger) : Prop where
  counted : ledger.Counted
  consistent : ledger.db.Consistent
  recorded : ∀ grant ∈ ledger.openGrants, ∃ total, ledger.db.leases.lookup grant.id =
    some ⟨grant.cores, grant.memory, total, some grant.executor⟩
  accounted : ∀ id lease, ledger.db.leases.lookup id = some lease →
    (∃ grant ∈ ledger.openGrants, grant.id = id) ∨ id ∈ ledger.closedIds
  distinct : (ledger.openGrants.map Grant.id).Nodup
  single : ∀ ref, ledger.db.executors.live ref = true → ledger.places ref ≤ 1

theorem openTotals_of_same {before after : Ledger}
    (openGrants : after.openGrants = before.openGrants)
    (leases : after.db.leases = before.db.leases) (ref : ExecutorRef) :
    after.openTotals ref = before.openTotals ref := by
  simp only [openTotals, isTotal, openGrants, leases]

/-- An executor that was not made yet has no leases. -/
theorem Occupied.openTotals_unmade (occupied : ledger.Occupied) {ref : ExecutorRef}
    (unmade : ledger.db.executors.fresh ≤ ref) : ledger.openTotals ref = [] := by
  refine filter_eq_nil_iff.mpr fun grant member total => ?_
  obtain ⟨_, found⟩ := occupied.recorded grant member
  have made := occupied.consistent.leased_lt found rfl
  have same : grant.executor = ref := by simpa using (Bool.and_eq_true_iff.mp total).1
  exact absurd (same ▸ made) (not_lt.mpr unmade)

theorem Occupied.step_setup (occupied : ledger.Occupied) {op : StoreOp}
    (setup : op.isSetup = true) : (ledger.step op).Occupied := by
  have counted := occupied.counted.step_setup setup
  have consistent := occupied.consistent.step op
  have prepared := ExecutorDB.step_prepared occupied.consistent.wellFormed setup
  obtain ⟨leases, _⟩ := ledger.db.step_leases setup
  rw [step_of_setup setup] at counted ⊢
  refine ⟨counted, consistent, ?_, ?_, occupied.distinct, fun ref alive => ?_⟩
  · rw [leases]
    exact occupied.recorded
  · rw [leases]
    exact occupied.accounted
  · have appends := occupied.consistent.step_appends setup ref
    unfold places
    rw [@openTotals_of_same ledger { ledger with db := ledger.db.step op } rfl leases]
    -- Only an executor that is made by the operation itself gets an entry.
    by_cases made : ref < ledger.db.executors.fresh
    · rw [appends.1 made]
      exact occupied.single ref (prepared.evolves.live_old ref made alive)
    · rw [occupied.openTotals_unmade (not_lt.mp made)]
      exact appends.2 (not_lt.mp made)

/-! ### Granting -/

/-- Granting takes the entry of the executor out of the list when the lease is total, and puts
none in. -/
theorem count_grant (db : ExecutorDB) {before rest : List WeakExecutor} {ref : ExecutorRef}
    (split : db.freeNodes = before ++ some ref :: rest) (leased : Executor) (cores memory : Int)
    (other : ExecutorRef) :
    (db.grant (before.filter (ExecutorDB.entryLive db.executors)) ref leased rest
        cores memory).freeNodes.count (some other) +
      (if ref = other ∧ leased.isFullyLeased = true then 1 else 0) ≤
      db.freeNodes.count (some other) := by
  have filtered : (before.filter (ExecutorDB.entryLive db.executors)).count (some other) ≤
      before.count (some other) := filter_sublist.count_le _
  simp only [ExecutorDB.grant, split, count_append, count_cons]
  by_cases total : leased.isFullyLeased = true <;> by_cases same : ref = other <;>
    simp [total, same] <;> omega

/-- The total leases after a grant: the record of the new lease is entered, those of the others
stay. -/
theorem Occupied.openTotals_grant (occupied : ledger.Occupied) (few : ledger.granted < 2 ^ 32)
    {after : Ledger} {ref : ExecutorRef} {cores memory : Int} {total : Bool}
    (openGrants : after.openGrants =
      ⟨ledger.db.leaseCount, ref, cores, memory⟩ :: ledger.openGrants)
    (leases : after.db.leases =
      ledger.db.leases.emplace ledger.db.leaseCount ⟨cores, memory, total, some ref⟩)
    (other : ExecutorRef) :
    (after.openTotals other).length =
      (ledger.openTotals other).length + if ref = other ∧ total = true then 1 else 0 := by
  have own : after.isTotal ⟨ledger.db.leaseCount, ref, cores, memory⟩ = total := by
    simp only [isTotal, leases, Table.emplace_of_none (occupied.counted.unused few),
      AList.lookup_insert, Option.any_some]
  have kept : ∀ grant ∈ ledger.openGrants, after.isTotal grant = ledger.isTotal grant := by
    intro grant member
    obtain ⟨_, found⟩ := occupied.recorded grant member
    simp only [isTotal, leases, Table.lookup_emplace_of_lookup found, found]
  have filtered : ledger.openGrants.filter
      (fun grant => decide (grant.executor = other) && after.isTotal grant) =
      ledger.openTotals other :=
    filter_congr fun grant member => by rw [kept grant member]
  simp only [openTotals, openGrants, filter_cons, own, filtered]
  by_cases same : ref = other <;> cases total <;> simp [same]

theorem Occupied.step_open (occupied : ledger.Occupied) {cores memory : Int}
    (few : (ledger.step (.openLease cores memory)).granted ≤ 2 ^ 32) :
    (ledger.step (.openLease cores memory)).Occupied := by
  have counted := occupied.counted.step (.openLease cores memory)
  have consistent : (ledger.step (.openLease cores memory)).db.Consistent :=
    occupied.consistent.step (.openLease cores memory)
  rcases ledger.step_open_cases cores memory with
    ⟨freeNodes, sublist, same⟩ | ⟨before, ref, rest, split, fits, same⟩
  · rw [same] at counted consistent ⊢
    refine ⟨counted, consistent, occupied.recorded, occupied.accounted, occupied.distinct,
      fun ref alive => ?_⟩
    exact (Nat.add_le_add_right (sublist.count_le _) _).trans (occupied.single ref alive)
  · rw [same] at counted consistent few ⊢
    have unused := occupied.counted.unused few
    refine ⟨counted, consistent, recorded_cons unused occupied.recorded ref cores memory _,
      fun _ _ => accounted_cons occupied.accounted ref cores memory,
      distinct_cons unused occupied.recorded occupied.distinct ref cores memory,
      fun other alive => ?_⟩
    · have listed := count_grant ledger.db split
        (ExecutorDB.charged (ledger.db.executors.objects ref) cores memory) cores memory other
      have before := occupied.single other alive
      unfold places at before ⊢
      rw [occupied.openTotals_grant few rfl rfl]
      dsimp only
      omega

/-! ### Closing -/

/-- Taking an open lease off the ledger takes away its place if it is total. -/
theorem openTotals_erase {ledger : Ledger} {grant : Grant} (member : grant ∈ ledger.openGrants)
    {after : Ledger} (openGrants : after.openGrants = ledger.openGrants.erase grant)
    (leases : after.db.leases = ledger.db.leases) (ref : ExecutorRef) :
    (after.openTotals ref).length +
        (if grant.executor = ref ∧ ledger.isTotal grant = true then 1 else 0) =
      (ledger.openTotals ref).length := by
  have same : after.isTotal = ledger.isTotal := by
    funext other
    simp only [isTotal, leases]
  rw [openTotals, openTotals, same, openGrants]
  rw [((perm_cons_erase member).filter _).length_eq]
  simp only [filter_cons, Bool.and_eq_true, decide_eq_true_eq]
  split <;> rfl

/-- Taking an open lease off the ledger, when the store keeps its table and the free list gets an
entry for it only if it is total. -/
theorem Occupied.forget (occupied : ledger.Occupied) {grant : Grant}
    (member : grant ∈ ledger.openGrants) {next : ExecutorDB} (consistent : next.Consistent)
    (leases : next.leases = ledger.db.leases)
    (leaseCount : next.leaseCount = ledger.db.leaseCount)
    (live : next.executors.live = ledger.db.executors.live)
    (count : ∀ ref, next.freeNodes.count (some ref) ≤ ledger.db.freeNodes.count (some ref) +
      if grant.executor = ref ∧ ledger.isTotal grant = true then 1 else 0) :
    Occupied { ledger with
      db := next
      openGrants := ledger.openGrants.erase grant
      closedIds := grant.id :: ledger.closedIds } := by
  refine ⟨occupied.counted.of_same rfl leases leaseCount, consistent, ?_, ?_,
    occupied.distinct.sublist (erase_sublist.map Grant.id), fun ref alive => ?_⟩
  · intro other inside
    rw [leases]
    exact occupied.recorded other (mem_of_mem_erase inside)
  · rw [leases]
    exact fun _ _ => accounted_erase occupied.accounted grant
  · have before := occupied.single ref (live ▸ alive)
    have listed := count ref
    have filled := @openTotals_erase ledger grant member { ledger with
      db := next
      openGrants := ledger.openGrants.erase grant
      closedIds := grant.id :: ledger.closedIds } rfl leases ref
    unfold places at before ⊢
    dsimp only at filled ⊢
    omega

theorem Occupied.step_close (occupied : ledger.Occupied) {msg : LeaseDeallocation}
    (once : ledger.ClosesOnce (.closeLease msg)) : (ledger.step (.closeLease msg)).Occupied := by
  have openGrant : ∀ lease, ledger.db.leases.lookup msg.leaseId.toUInt32 = some lease →
      ∃ grant ∈ ledger.openGrants, grant.id = msg.leaseId.toUInt32 ∧
        ledger.isTotal grant = lease.total ∧ lease.node = some grant.executor := by
    intro lease found
    obtain ⟨grant, member, sameId⟩ : ∃ grant ∈ ledger.openGrants,
        grant.id = msg.leaseId.toUInt32 :=
      once.elim id (occupied.accounted _ _ found).resolve_right
    obtain ⟨total, recorded⟩ := occupied.recorded grant member
    refine ⟨grant, member, sameId, by rw [isTotal, sameId, found]; rfl, ?_⟩
    rw [sameId, found] at recorded
    rw [Option.some.inj recorded]
  have consistent := occupied.consistent.closeLease msg
  simp only [step, ExecutorDB.step]
  rcases ExecutorDB.closeLease_cases ledger.db msg with
    ⟨absent, same⟩ | ⟨lease, found, gone, same⟩ | ⟨lease, ref, found, node, alive, same⟩
  · rw [same, recordClose_of_absent]
    · exact occupied
    · intro grant member sameId
      obtain ⟨total, found⟩ := occupied.recorded grant member
      rw [sameId, absent] at found
      cases found
  · -- The executor is gone: the lease is closed, and nothing is put into the list.
    obtain ⟨grant, member, sameId, _, _⟩ := openGrant lease found
    rw [same] at consistent ⊢
    rw [← sameId, recordClose_of_open occupied.distinct member]
    exact occupied.forget member consistent rfl rfl rfl fun ref => Nat.le_add_right _ _
  · obtain ⟨grant, member, sameId, total, sameNode⟩ := openGrant lease found
    obtain rfl : grant.executor = ref := Option.some.inj (sameNode.symm.trans node)
    rw [same] at consistent ⊢
    rw [← sameId, recordClose_of_open occupied.distinct member]
    refine occupied.forget member consistent rfl rfl rfl fun ref => ?_
    rw [total]
    by_cases lease.total = true <;> by_cases grant.executor = ref <;> simp [*]

theorem Occupied.step {ledger : Ledger} (occupied : ledger.Occupied) {op : StoreOp}
    (once : ledger.ClosesOnce op) (few : (ledger.step op).granted ≤ 2 ^ 32) :
    (ledger.step op).Occupied := by
  cases op with
  | openLease => exact occupied.step_open few
  | closeLease msg => exact occupied.step_close once
  | _ => exact occupied.step_setup rfl

/-! ### Runs -/

end Ledger

end RFaaS
