/-
This file proves that leases conserve resources: what an executor has left and
what its open leases hold always add up to what it was added with, whatever the
order in which executors are added, connected, registered and removed and
leases are opened and closed.

The store itself does not remember which leases are open, since a closed lease
stays in its table. The ledger adds that memory: a list of the leases granted
and not yet closed. The invariant `Sound` ties the ledger to the table and to
the counters. Its pivot is that an executor with an open lease is initialised:
data are given only to executors that are not, so no setup operation can reset
the counters of an executor that has open leases.

The law needs one thing that the language does not promise. A grant that
exhausts an executor copies the reference to it out of an entry of the free list
that is erased already. The law holds if such a read still gives the entry, and
fails otherwise: whoever closes the lease then credits nobody, or another one.
-/

import RFaaS.Granting
import Mathlib.Algebra.BigOperators.Group.List.Basic
import Mathlib.Tactic.Linarith

namespace RFaaS

open List

/-! ### The ledger -/

/-- A lease that was granted. -/
structure Grant where
  id : UInt32
  executor : ExecutorRef
  cores : Int
  memory : Int
  deriving DecidableEq

/-- The store with the history that the law speaks about: how many leases were granted, which
of them are still open, and which ids of granted leases were closed. -/
structure Ledger where
  db : ExecutorDB
  granted : Nat
  openGrants : List Grant
  closedIds : List UInt32

namespace Ledger

open Transition

def empty : Ledger where
  db := ExecutorDB.empty
  granted := 0
  openGrants := []
  closedIds := []

/-- The history after `open_lease` answered. -/
def recordOpen (ledger : Ledger) (cores memory : Int) :
    Option (ExecutorRef × LeaseResponse) → Ledger
  | none => ledger
  | some (ref, response) =>
    { ledger with
      granted := ledger.granted + 1
      openGrants := ⟨response.leaseId.toUInt32, ref, cores, memory⟩ :: ledger.openGrants }

/-- The history after `close_lease` was called with an id. An id that no open lease has is not
recorded. -/
def recordClose (ledger : Ledger) (id : UInt32) : Ledger :=
  match ledger.openGrants.find? fun grant => grant.id = id with
  | none => ledger
  | some grant =>
    { ledger with
      openGrants := ledger.openGrants.erase grant
      closedIds := id :: ledger.closedIds }

/-- One operation, with its effect on the history. -/
def step (ledger : Ledger) (op : StoreOp) : Ledger :=
  let recorded := match op with
    | .openLease cores memory => ledger.recordOpen cores memory (ledger.db.openLease cores memory).1
    | .closeLease msg => ledger.recordClose msg.leaseId.toUInt32
    | _ => ledger
  { recorded with db := ledger.db.step op }

/-- The operations the law is stated for: requests have a positive number of cores, fewer than
`2 ^ 32` leases are granted, and no granted lease id is closed twice. -/
def Disciplined (ledger : Ledger) (op : StoreOp) : Prop :=
  (ledger.step op).granted < 2 ^ 32 ∧
    match op with
    | .openLease cores _ => 0 < cores
    | .closeLease msg => msg.leaseId.toUInt32 ∉ ledger.closedIds
    | _ => True

instance (ledger : Ledger) : DecidablePred ledger.Disciplined
  | .openLease _ _ | .closeLease _ => inferInstanceAs (Decidable (_ ∧ _))
  | .add _ _ _ _ _ | .read _ | .connectExecutor _ | .registerExecutor _ _ | .removeExecutor _ =>
    inferInstanceAs (Decidable (_ ∧ True))

/-- The sum of a quantity over the open leases of one executor. -/
def held (ledger : Ledger) (quantity : Grant → Int) (ref : ExecutorRef) : Int :=
  (ledger.openGrants.map fun grant => if grant.executor = ref then quantity grant else 0).sum

/-- Free and leased resources of one executor add up to its capacity. -/
def Balanced (ledger : Ledger) (ref : ExecutorRef) : Prop :=
  (ledger.db.executors.objects ref).freeCores + ledger.held Grant.cores ref =
      (ledger.db.executors.objects ref).cores ∧
    (ledger.db.executors.objects ref).freeMemory + ledger.held Grant.memory ref =
      (ledger.db.executors.objects ref).memory

/-- The invariant: how the ledger, the lease table and the counters hang together. -/
structure Sound (ledger : Ledger) : Prop where
  wellFormed : ledger.db.executors.WellFormed
  count : ledger.db.leaseCount.toNat = ledger.granted
  recorded : ∀ grant ∈ ledger.openGrants, ∃ total, ledger.db.leases.lookup grant.id =
    some ⟨grant.cores, grant.memory, total, some grant.executor⟩
  accounted : ∀ id lease, ledger.db.leases.lookup id = some lease →
    (∃ grant ∈ ledger.openGrants, grant.id = id) ∨ id ∈ ledger.closedIds
  issued : ∀ id lease, ledger.db.leases.lookup id = some lease → id.toNat < ledger.granted
  distinct : (ledger.openGrants.map Grant.id).Nodup
  initialized : ∀ grant ∈ ledger.openGrants,
    (ledger.db.executors.objects grant.executor).isInitialized = true
  made : ∀ grant ∈ ledger.openGrants, grant.executor < ledger.db.executors.fresh
  balanced : ∀ ref, ledger.db.executors.live ref = true →
    (ledger.db.executors.objects ref).hasData = true → ledger.Balanced ref

theorem empty_sound : empty.Sound where
  wellFormed := Executors.empty_wellFormed
  count := rfl
  recorded := nofun
  accounted _ _ found := by cases found
  issued _ _ found := by cases found
  distinct := nodup_nil
  initialized := nofun
  made := nofun
  balanced _ alive := by cases alive

/-! ### Sums over the open leases -/

theorem held_cons (ledger : Ledger) (quantity : Grant → Int) (grant : Grant) (ref : ExecutorRef) :
    held { ledger with openGrants := grant :: ledger.openGrants } quantity ref =
      (if grant.executor = ref then quantity grant else 0) + ledger.held quantity ref := by
  simp only [held, map_cons, sum_cons]

theorem held_erase (ledger : Ledger) (quantity : Grant → Int) {grant : Grant}
    (member : grant ∈ ledger.openGrants) (ref : ExecutorRef) :
    (if grant.executor = ref then quantity grant else 0) +
        held { ledger with openGrants := ledger.openGrants.erase grant } quantity ref =
      ledger.held quantity ref :=
  sum_map_erase (fun grant => if grant.executor = ref then quantity grant else 0) member

theorem held_eq_zero (ledger : Ledger) (quantity : Grant → Int) {ref : ExecutorRef}
    (unleased : ∀ grant ∈ ledger.openGrants, grant.executor ≠ ref) :
    ledger.held quantity ref = 0 := by
  refine sum_eq_zero fun value member => ?_
  obtain ⟨grant, grantMember, rfl⟩ := mem_map.mp member
  exact if_neg (unleased grant grantMember)

/-! ### One step keeps the invariant -/

theorem step_of_setup {op : StoreOp} (setup : op.isSetup = true) (ledger : Ledger) :
    ledger.step op = { ledger with db := ledger.db.step op } := by
  cases op <;> first | rfl | cases setup

variable {ledger : Ledger}

/-- A setup operation changes no books of an executor that has an open lease. -/
theorem Sound.kept_of_setup (sound : ledger.Sound) {op : StoreOp} (setup : op.isSetup = true)
    {grant : Grant} (member : grant ∈ ledger.openGrants) :
    Executor.Kept (ledger.db.executors.objects grant.executor)
      ((ledger.db.step op).executors.objects grant.executor) := by
  have prepared := ExecutorDB.step_prepared sound.wellFormed setup
  rcases prepared.evolves.old grant.executor (sound.made grant member) with kept | ⟨idle, _⟩
  · exact kept
  · rw [sound.initialized grant member] at idle
    cases idle

theorem balanced_of_full {ref : ExecutorRef} (full : (ledger.db.executors.objects ref).books.Full)
    (unleased : ∀ grant ∈ ledger.openGrants, grant.executor ≠ ref) : ledger.Balanced ref := by
  have freeCores : (ledger.db.executors.objects ref).freeCores =
      (ledger.db.executors.objects ref).cores := full.2.1
  have freeMemory : (ledger.db.executors.objects ref).freeMemory =
      (ledger.db.executors.objects ref).memory := full.2.2
  constructor
  · rw [held_eq_zero ledger Grant.cores unleased, freeCores, add_zero]
  · rw [held_eq_zero ledger Grant.memory unleased, freeMemory, add_zero]

theorem Sound.step_setup (sound : ledger.Sound) {op : StoreOp} (setup : op.isSetup = true) :
    (ledger.step op).Sound := by
  have prepared := ExecutorDB.step_prepared sound.wellFormed setup
  obtain ⟨leases, leaseCount⟩ := ledger.db.step_leases setup
  rw [step_of_setup setup]
  refine ⟨prepared.wellFormed, ?_, ?_, ?_, ?_, sound.distinct, ?_, ?_, ?_⟩
  · rw [leaseCount]
    exact sound.count
  · rw [leases]
    exact sound.recorded
  · rw [leases]
    exact sound.accounted
  · rw [leases]
    exact sound.issued
  · intro grant member
    exact (sound.kept_of_setup setup member).isInitialized (sound.initialized grant member)
  · intro grant member
    exact lt_of_lt_of_le (sound.made grant member) prepared.evolves.fresh_le
  · intro ref alive hasData
    by_cases known : ref < ledger.db.executors.fresh
    · rcases prepared.evolves.old ref known with kept | ⟨idle, full⟩
      · have before := sound.balanced ref (prepared.evolves.live_old ref known alive)
          ((congrArg Books.hasData kept.1).symm.trans hasData)
        have cores := congrArg Books.cores kept.1
        have memory := congrArg Books.memory kept.1
        have freeCores := congrArg Books.freeCores kept.1
        have freeMemory := congrArg Books.freeMemory kept.1
        simp only [Executor.books] at cores memory freeCores freeMemory
        refine ⟨?_, ?_⟩
        · rw [freeCores, cores]
          exact before.1
        · rw [freeMemory, memory]
          exact before.2
      · refine balanced_of_full full fun grant member same => ?_
        have initialized := sound.initialized grant member
        rw [same, idle] at initialized
        cases initialized
    · rcases prepared.evolves.new ref (not_lt.mp known) with blank | full
      · exact absurd (blank.1.symm.trans hasData) (by decide)
      · refine balanced_of_full full fun grant member same => ?_
        exact known (same ▸ sound.made grant member)

theorem toUInt32_toInt32 (id : UInt32) : id.toInt32.toUInt32 = id := by
  simp

section Records

variable {leases : Table UInt32 Lease} {grants : List Grant} {id : UInt32}

/-- The records after a lease is emplaced are its own and those that were there. -/
theorem accounted_cons {closed : List UInt32}
    (accounted : ∀ id lease, leases.lookup id = some lease →
      (∃ grant ∈ grants, grant.id = id) ∨ id ∈ closed)
    (ref : ExecutorRef) (cores memory : Int) {lease : Lease} {other : UInt32} {found : Lease}
    (present : (leases.emplace id lease).lookup other = some found) :
    (∃ grant ∈ (⟨id, ref, cores, memory⟩ : Grant) :: grants, grant.id = other) ∨
      other ∈ closed := by
  by_cases own : other = id
  · exact Or.inl ⟨_, mem_cons_self, own.symm⟩
  · rw [Table.lookup_emplace_ne own] at present
    refine (accounted other found present).imp_left fun before => ?_
    obtain ⟨grant, member, sameId⟩ := before
    exact ⟨grant, mem_cons_of_mem _ member, sameId⟩

/-- A record of a lease that is taken off the ledger is the record of a closed lease. -/
theorem accounted_erase {closed : List UInt32}
    (accounted : ∀ id lease, leases.lookup id = some lease →
      (∃ grant ∈ grants, grant.id = id) ∨ id ∈ closed)
    (grant : Grant) {other : UInt32} {found : Lease} (present : leases.lookup other = some found) :
    (∃ left ∈ grants.erase grant, left.id = other) ∨ other ∈ grant.id :: closed := by
  rcases accounted other found present with ⟨left, member, sameId⟩ | before
  · by_cases same : left = grant
    · exact Or.inr (by rw [← sameId, same]; exact mem_cons_self)
    · exact Or.inl ⟨left, (mem_erase_of_ne same).mpr member, sameId⟩
  · exact Or.inr (mem_cons_of_mem _ before)

variable (unused : leases.lookup id = none)
  (recorded : ∀ grant ∈ grants, ∃ total, leases.lookup grant.id =
    some ⟨grant.cores, grant.memory, total, some grant.executor⟩)
include unused recorded

/-- A lease that is emplaced under an unused id is recorded, and the others stay recorded. -/
theorem recorded_cons (ref : ExecutorRef) (cores memory : Int) (total : Bool) :
    ∀ grant ∈ (⟨id, ref, cores, memory⟩ : Grant) :: grants,
      ∃ total', (leases.emplace id ⟨cores, memory, total, some ref⟩).lookup grant.id =
        some ⟨grant.cores, grant.memory, total', some grant.executor⟩ := by
  intro grant member
  rcases mem_cons.mp member with rfl | inside
  · exact ⟨total, Table.lookup_emplace_self_iff.mpr (Or.inl unused)⟩
  · obtain ⟨before, found⟩ := recorded grant inside
    exact ⟨before, Table.lookup_emplace_of_lookup found _ _⟩

/-- An unused id is not the id of a lease that is recorded. -/
theorem distinct_cons (distinct : (grants.map Grant.id).Nodup) (ref : ExecutorRef)
    (cores memory : Int) :
    (((⟨id, ref, cores, memory⟩ : Grant) :: grants).map Grant.id).Nodup := by
  refine nodup_cons.mpr ⟨fun member => ?_, distinct⟩
  obtain ⟨grant, inside, sameId⟩ := mem_map.mp member
  obtain ⟨_, found⟩ := recorded grant inside
  rw [sameId, unused] at found
  cases found

end Records

/-- The id of a new lease is not yet in the table. -/
theorem Sound.fresh_id (sound : ledger.Sound) :
    ledger.db.leases.lookup ledger.db.leaseCount = none := by
  cases found : ledger.db.leases.lookup ledger.db.leaseCount with
  | none => rfl
  | some lease =>
    have earlier := sound.issued _ _ found
    rw [sound.count] at earlier
    exact absurd earlier (lt_irrefl _)

/-- What charging one executor does to the invariant, when the open leases change by the amount
charged. Crediting is charging a negative amount. -/
theorem Sound.charge (sound : ledger.Sound) (after : Ledger) {ref : ExecutorRef}
    (made : ref < ledger.db.executors.fresh)
    (hasData : (ledger.db.executors.objects ref).hasData = true) {cores memory : Int}
    (executors : after.db.executors = ledger.db.executors.store ref
      (ExecutorDB.charged (ledger.db.executors.objects ref) cores memory))
    (heldCores : ∀ other, after.held Grant.cores other =
      (if ref = other then cores else 0) + ledger.held Grant.cores other)
    (heldMemory : ∀ other, after.held Grant.memory other =
      (if ref = other then memory else 0) + ledger.held Grant.memory other) :
    after.db.executors.WellFormed ∧
      (∀ other, (after.db.executors.objects other).isInitialized =
        (ledger.db.executors.objects other).isInitialized) ∧
      ∀ other, after.db.executors.live other = true →
        (after.db.executors.objects other).hasData = true → after.Balanced other := by
  simp only [Balanced]
  rw [executors]
  refine ⟨ExecutorDB.store_wellFormed sound.wellFormed made rfl hasData, fun other => ?_,
    fun other alive otherData => ?_⟩
  · rw [Executors.store_objects]
    split
    · rename_i same
      rw [same]
      rfl
    · rfl
  · rw [Executors.store_objects] at otherData ⊢
    rw [heldCores, heldMemory]
    by_cases same : other = ref
    · subst same
      obtain ⟨coresBalance, memoryBalance⟩ := sound.balanced other alive hasData
      simp only [if_true, ExecutorDB.charged]
      constructor <;> omega
    · rw [if_neg same] at otherData ⊢
      rw [if_neg (Ne.symm same), if_neg (Ne.symm same), zero_add, zero_add]
      exact sound.balanced other alive otherData

theorem Sound.step_open (sound : ledger.Sound) (cores memory : Int)
    (bounded : (ledger.step (.openLease cores memory)).granted < 2 ^ 32) :
    (ledger.step (.openLease cores memory)).Sound := by
  simp only [step, ExecutorDB.step] at bounded ⊢
  rcases ExecutorDB.openLease_cases ledger.db cores memory with
    ⟨_, same⟩ | ⟨before, ref, rest, response, _, _, fits, leaseId, same⟩
  · rw [same]
    exact ⟨sound.wellFormed, sound.count, sound.recorded, sound.accounted, sound.issued,
      sound.distinct, sound.initialized, sound.made, sound.balanced⟩
  · rw [same] at bounded ⊢
    simp only [recordOpen, leaseId, toUInt32_toInt32] at bounded ⊢
    have made : ref < ledger.db.executors.fresh := sound.wellFormed.live_lt fits.1
    have hasData := ExecutorDB.hasData_of_isInitialized sound.wellFormed fits.2.1
    have inserted := Table.emplace_of_none sound.fresh_id
      (⟨cores, memory, (ExecutorDB.charged (ledger.db.executors.objects ref)
        cores memory).isFullyLeased, some ref⟩ : Lease)
    have leases : (ledger.db.grant (before.filter (ExecutorDB.entryLive ledger.db.executors)) ref
        (ExecutorDB.charged (ledger.db.executors.objects ref) cores memory) rest
        cores memory).leases = _ := inserted
    obtain ⟨wellFormed, initialized, balanced⟩ := sound.charge
      { ledger with
        db := ledger.db.grant (before.filter (ExecutorDB.entryLive ledger.db.executors)) ref
          (ExecutorDB.charged (ledger.db.executors.objects ref) cores memory) rest cores memory
        granted := ledger.granted + 1
        openGrants := ⟨ledger.db.leaseCount, ref, cores, memory⟩ :: ledger.openGrants }
      made hasData rfl (held_cons ledger Grant.cores _) (held_cons ledger Grant.memory _)
    refine ⟨wellFormed, ?_, ?_, ?_, ?_, ?_, ?_, ?_, balanced⟩
    · show (ledger.db.leaseCount + 1).toNat = ledger.granted + 1
      rw [UInt32.toNat_add, sound.count]
      exact Nat.mod_eq_of_lt bounded
    · exact recorded_cons sound.fresh_id sound.recorded ref cores memory _
    · exact fun _ _ => accounted_cons sound.accounted ref cores memory
    · intro id lease found
      rw [leases] at found
      rcases Table.lookup_insert_eq_some.mp found with ⟨sameId, _⟩ | ⟨_, old⟩
      · rw [sameId, sound.count]
        exact Nat.lt_succ_self _
      · exact Nat.lt_succ_of_lt (sound.issued id lease old)
    · exact distinct_cons sound.fresh_id sound.recorded sound.distinct ref cores memory
    · intro grant member
      rw [initialized]
      rcases mem_cons.mp member with rfl | member
      · exact fits.2.1
      · exact sound.initialized grant member
    · intro grant member
      rcases mem_cons.mp member with rfl | member
      · exact made
      · exact sound.made grant member

theorem recordClose_of_absent {id : UInt32} (absent : ∀ grant ∈ ledger.openGrants, grant.id ≠ id) :
    ledger.recordClose id = ledger := by
  have missing : ledger.openGrants.find? (fun grant => grant.id = id) = none := by
    simpa using absent
  rw [recordClose, missing]

theorem recordClose_of_open (distinct : (ledger.openGrants.map Grant.id).Nodup) {grant : Grant}
    (member : grant ∈ ledger.openGrants) :
    ledger.recordClose grant.id =
      { ledger with
        openGrants := ledger.openGrants.erase grant
        closedIds := grant.id :: ledger.closedIds } := by
  unfold recordClose
  split
  · rename_i missing
    simpa using find?_eq_none.mp missing grant member
  · rename_i other found
    have same : other = grant := inj_on_of_nodup_map distinct
      (mem_of_find?_eq_some found) member (by simpa using find?_some found)
    rw [same]

/-- Taking one lease off the ledger, when the store keeps its table. -/
theorem Sound.forget (sound : ledger.Sound) {grant : Grant} {next : ExecutorDB}
    (leases : next.leases = ledger.db.leases)
    (leaseCount : next.leaseCount = ledger.db.leaseCount)
    (fresh : next.executors.fresh = ledger.db.executors.fresh)
    (wellFormed : next.executors.WellFormed)
    (initialized : ∀ ref, (next.executors.objects ref).isInitialized =
      (ledger.db.executors.objects ref).isInitialized)
    (balanced : ∀ ref, next.executors.live ref = true →
      (next.executors.objects ref).hasData = true →
      Balanced { ledger with
        db := next
        openGrants := ledger.openGrants.erase grant
        closedIds := grant.id :: ledger.closedIds } ref) :
    Sound { ledger with
      db := next
      openGrants := ledger.openGrants.erase grant
      closedIds := grant.id :: ledger.closedIds } := by
  refine ⟨wellFormed, ?_, ?_, ?_, ?_, ?_, ?_, ?_, balanced⟩
  · rw [leaseCount]
    exact sound.count
  · intro other member
    rw [leases]
    exact sound.recorded other (mem_of_mem_erase member)
  · rw [leases]
    exact fun _ _ => accounted_erase sound.accounted grant
  · rw [leases]
    exact sound.issued
  · exact sound.distinct.sublist (erase_sublist.map Grant.id)
  · intro other member
    rw [initialized]
    exact sound.initialized other (mem_of_mem_erase member)
  · intro other member
    rw [fresh]
    exact sound.made other (mem_of_mem_erase member)

theorem Sound.step_close (sound : ledger.Sound) (msg : LeaseDeallocation)
    (once : msg.leaseId.toUInt32 ∉ ledger.closedIds) : (ledger.step (.closeLease msg)).Sound := by
  simp only [step, ExecutorDB.step]
  have openGrant : ∀ lease, ledger.db.leases.lookup msg.leaseId.toUInt32 = some lease →
      ∃ grant ∈ ledger.openGrants, grant.id = msg.leaseId.toUInt32 ∧ lease.cores = grant.cores ∧
        lease.memory = grant.memory ∧ lease.node = some grant.executor := by
    intro lease found
    obtain ⟨grant, member, sameId⟩ := (sound.accounted _ _ found).resolve_right once
    obtain ⟨total, recorded⟩ := sound.recorded grant member
    rw [sameId, found] at recorded
    cases recorded
    exact ⟨grant, member, sameId, rfl, rfl, rfl⟩
  rcases ExecutorDB.closeLease_cases ledger.db msg with
    ⟨absent, same⟩ | ⟨lease, found, gone, same⟩ | ⟨lease, ref, found, node, alive, same⟩
  · rw [same, recordClose_of_absent]
    · exact sound
    · intro grant member sameId
      obtain ⟨total, found⟩ := sound.recorded grant member
      rw [sameId, absent] at found
      cases found
  · obtain ⟨grant, member, sameId, _, _, node⟩ := openGrant lease found
    rw [same, ← sameId, recordClose_of_open sound.distinct member]
    refine sound.forget rfl rfl rfl sound.wellFormed (fun _ => rfl) fun ref alive hasData => ?_
    -- the lease that is closed was on an executor that is not alive
    have different : grant.executor ≠ ref := by
      intro sameRef
      rw [node, sameRef, Executors.lock_eq_some.mpr ⟨rfl, alive⟩] at gone
      cases gone
    obtain ⟨coresBalance, memoryBalance⟩ := sound.balanced ref alive hasData
    rw [← held_erase ledger _ member, if_neg different, zero_add] at coresBalance memoryBalance
    exact ⟨coresBalance, memoryBalance⟩
  · obtain ⟨grant, member, sameId, sameCores, sameMemory, sameNode⟩ := openGrant lease found
    obtain rfl : grant.executor = ref := Option.some.inj (sameNode.symm.trans node)
    rw [same, ← sameId, recordClose_of_open sound.distinct member]
    have made := sound.made grant member
    have hasData := ExecutorDB.hasData_of_isInitialized sound.wellFormed
      (sound.initialized grant member)
    have released : ∀ quantity ref, held { ledger with
        openGrants := ledger.openGrants.erase grant } quantity ref =
        (if grant.executor = ref then -quantity grant else 0) + ledger.held quantity ref := by
      intro quantity ref
      rw [← held_erase ledger quantity member]
      split <;> omega
    obtain ⟨wellFormed, initialized, balanced⟩ := sound.charge
      { ledger with
        db := (ledger.db.closeLease msg).2
        openGrants := ledger.openGrants.erase grant
        closedIds := grant.id :: ledger.closedIds }
      made hasData
      (by simp only [same, ExecutorDB.charged, Executor.cancelLease, sameCores, sameMemory,
        sub_neg_eq_add])
      (released Grant.cores) (released Grant.memory)
    rw [same] at wellFormed initialized balanced
    exact sound.forget rfl rfl rfl wellFormed initialized balanced

theorem Sound.step {ledger : Ledger} (sound : ledger.Sound) {op : StoreOp}
    (disciplined : ledger.Disciplined op) : (ledger.step op).Sound := by
  cases op with
  | openLease cores memory => exact sound.step_open cores memory disciplined.1
  | closeLease msg => exact sound.step_close msg disciplined.2
  | _ => exact sound.step_setup rfl

/-! ### Runs -/

/-- One operation with the residue that it would find, and its effect on the history. -/
def stepReading (ledger : Ledger) (event : StoreOp × WeakExecutor) : Ledger :=
  let recorded := match event.1 with
    | .openLease cores memory =>
      ledger.recordOpen cores memory (ledger.db.openLeaseReading event.2 cores memory).1
    | .closeLease msg => ledger.recordClose msg.leaseId.toUInt32
    | _ => ledger
  { recorded with db := ledger.db.stepReading event }

/-- Reading an erased entry does no harm where its memory still holds the entry. -/
theorem stepReading_eq {event : StoreOp × WeakExecutor} (reads : ledger.db.ReadsEntry event) :
    ledger.stepReading event = ledger.step event.1 := by
  obtain ⟨op, residue⟩ := event
  cases op with
  | openLease =>
    simp only [stepReading, ExecutorDB.stepReading, ExecutorDB.openLeaseReading_eq reads]
    rfl
  | _ => rfl

/-- After every disciplined run in which reads of erased entries give the entries, what an executor
has left and what its open leases hold add up to its capacity, and no setup operation that could
follow touches the counters of an executor with an open lease. -/
theorem leases_conserve_resources (events : List (StoreOp × WeakExecutor))
    (disciplined : Along stepReading (fun ledger event => ledger.Disciplined event.1) empty events)
    (reads : Along stepReading (fun ledger event => ledger.db.ReadsEntry event) empty events) :
    let ledger := run stepReading empty events
    (∀ ref, ledger.db.executors.live ref = true →
      (ledger.db.executors.objects ref).hasData = true → ledger.Balanced ref) ∧
    ∀ op : StoreOp, op.isSetup = true → ∀ grant ∈ ledger.openGrants,
      ((ledger.db.step op).executors.objects grant.executor).freeCores =
          (ledger.db.executors.objects grant.executor).freeCores ∧
        ((ledger.db.step op).executors.objects grant.executor).freeMemory =
          (ledger.db.executors.objects grant.executor).freeMemory := by
  have sound : (run stepReading empty events).Sound := by
    refine run_invariant (fun ledger event sound allowed => ?_) empty_sound (disciplined.and reads)
    rw [stepReading_eq allowed.2]
    exact sound.step allowed.1
  refine ⟨sound.balanced, fun op setup grant member => ?_⟩
  have kept := sound.kept_of_setup setup member
  exact ⟨congrArg Books.freeCores kept.1, congrArg Books.freeMemory kept.1⟩

/-- A node that is added again while it has two open leases, of which the second took the rest of
its cores. The second lease is closed, and so is one that was never opened. -/
def readdedNode : List (StoreOp × WeakExecutor) :=
  let server : ServerData := ⟨10000, 4, 1024, "10.0.0.1", "n1"⟩
  map (·, some 0) [.read [server], .connectExecutor ⟨0, 7⟩, .registerExecutor 7 "n1",
    .openLease 1 256, .openLease 3 512, .read [server], .closeLease ⟨9, 0, 0, 0⟩,
    .closeLease ⟨1, 0, 0, 0⟩]

theorem readdedNode_balanced :
    (run stepReading empty readdedNode).held Grant.cores 0 = 1 ∧
      (run stepReading empty readdedNode).Balanced 0 :=
  ⟨by decide,
    (leases_conserve_resources readdedNode (by decide) (by decide)).1 0 (by decide) (by decide)⟩

/-- The node is leased as a whole, the memory of its erased entry holds an empty pointer when it is
read, and the lease is closed: nothing is leased, and nothing is free. -/
theorem erased_entry_unbalanced :
    let events :=
      readdedNode.take 3 ++ [(.openLease 4 1024, none), (.closeLease ⟨0, 0, 0, 0⟩, none)]
    let final := run stepReading empty events
    Along stepReading (fun ledger event => ledger.Disciplined event.1) empty events ∧
      final.db.executors.live 0 = true ∧ (final.db.executors.objects 0).hasData = true ∧
      final.openGrants = [] ∧ (final.db.executors.objects 0).freeCores = 0 ∧
      (final.db.executors.objects 0).cores = 4 ∧ ¬ final.Balanced 0 :=
  ⟨by decide, by decide, by decide, by decide, by decide, by decide,
    fun balanced => absurd balanced.1 (by decide)⟩

end Ledger

end RFaaS
