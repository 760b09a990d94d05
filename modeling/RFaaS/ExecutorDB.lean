/-
This file models the lease store of the resource manager
(`server/resource_manager/db.hpp` and `db.cpp`): the table of granted leases,
the list of nodes that may have capacity left, and the operations on them. The
store is driven by `StoreOp`, the operations that the HTTP handler, the
listener and the two message handlers of the resource manager perform on it.
All of them run under one writer lock or on one thread, so an operation is one
step.

Leases and free-list entries refer to executors weakly. `open_lease` scans the
free list from the front and takes the first live, initialised executor that
has the resources; `openLease_cases` is the inversion of that scan.
-/

import RFaaS.Executors
import RFaaS.Messages
import RFaaS.Transition
import Mathlib.Algebra.Ring.Nat

namespace RFaaS

open Transition List

/-- `resource_manager::Lease`. -/
structure Lease where
  cores : Int
  memory : Int
  total : Bool
  node : WeakExecutor
  deriving DecidableEq

/-- `ExecutorDB`, together with the executors it holds a reference to. -/
structure ExecutorDB where
  executors : Executors
  leases : Table UInt32 Lease
  leaseCount : UInt32
  freeNodes : List WeakExecutor

/-- `ExecutorDB::ResultCode`. -/
inductive ResultCode
  | ok
  | executorExists
  | executorDoesntExist
  | malformedData
  deriving DecidableEq

/-- The three ways in which `close_lease` ends: the warning about a lease that is not there,
the silent return for a node that is gone, and the cancellation. -/
inductive CloseOutcome
  | nonExisting
  | nodeGone
  | cancelled
  deriving DecidableEq

/-- The conversion of an `int` to `int16_t`. -/
def toInt16 (value : Int) : Int := value.bmod (2 ^ 16)

namespace ExecutorDB

/-- `server_data::NODE_NAME_LENGTH`. -/
def nodeNameLength : Nat := 32

/-- `server_data::ADDRESS_LENGTH`. -/
def addressLength : Nat := 16

def empty : ExecutorDB where
  executors := Executors.empty
  leases := ∅
  leaseCount := 0
  freeNodes := []

/-- `_executors.add_executor` and, when it succeeds, `_free_nodes.push_back`. -/
def addNode (db : ExecutorDB) (data : ServerData) : Bool × ExecutorDB :=
  match db.executors.addExecutor data with
  | ((_, false), executors) => (false, { db with executors := executors })
  | ((ptr, true), executors) =>
    (true, { db with executors := executors, freeNodes := db.freeNodes ++ [ptr] })

/-- `ExecutorDB::add`. The number of cores is narrowed by the call of `add_executor`. -/
def add (db : ExecutorDB) (nodeName ipAddress : String) (port cores memory : Int) :
    ResultCode × ExecutorDB :=
  if nodeName.length < nodeNameLength then (.malformedData, db)
  else
    match db.addNode ⟨port, toInt16 cores, memory, ipAddress, nodeName⟩ with
    | (false, next) => (.executorExists, next)
    | (true, next) => (.ok, next)

/-- `ExecutorDB::read`, on the servers that the file holds. -/
def read (db : ExecutorDB) (servers : List ServerData) : ExecutorDB :=
  servers.foldl (fun current instance_ => (current.addNode instance_).2) db

/-- The loop of `open_lease` over `_free_nodes`: the entries that stay in front of the one
taken, and for the one taken the executor, the executor after `lease`, and the entries behind
it. Expired entries are erased on the way. -/
def search (executors : Executors) (cores memory : Int) : List WeakExecutor →
    List WeakExecutor × Option (ExecutorRef × Executor × List WeakExecutor)
  | [] => ([], none)
  | ptr :: rest =>
    match executors.lock ptr with
    | none => search executors cores memory rest
    | some ref =>
      if (executors.objects ref).isInitialized then
        match (executors.objects ref).lease cores memory with
        | none => ((search executors cores memory rest).map (ptr :: ·) id)
        | some leased => ([], some (ref, leased, rest))
      else ((search executors cores memory rest).map (ptr :: ·) id)

/-- The end of `open_lease`, once an executor has been found. The entry is erased from the list
when the executor became fully leased; the reference that goes into the lease record is read
after that, and is the value the entry had here (`grantReading` leaves open what is read). -/
def grant (db : ExecutorDB) (kept : List WeakExecutor) (ref : ExecutorRef) (leased : Executor)
    (rest : List WeakExecutor) (cores memory : Int) : ExecutorDB where
  executors := db.executors.store ref leased
  leases := db.leases.emplace db.leaseCount ⟨cores, memory, leased.isFullyLeased, some ref⟩
  leaseCount := db.leaseCount + 1
  freeNodes := kept ++ if leased.isFullyLeased then rest else some ref :: rest

/-- `ExecutorDB::open_lease`. The response is filled in only when an executor was found;
`strncpy` copies at most `ADDRESS_LENGTH` characters. -/
def openLease (db : ExecutorDB) (cores memory : Int) :
    Option (ExecutorRef × LeaseResponse) × ExecutorDB :=
  match search db.executors cores memory db.freeNodes with
  | (kept, none) => (none, { db with freeNodes := kept })
  | (kept, some (ref, leased, rest)) =>
    (some (ref, {
      leaseId := db.leaseCount.toInt32
      port := leased.port
      address := String.ofList (leased.address.toList.take addressLength) }),
    db.grant kept ref leased rest cores memory)

/-- `ExecutorDB::close_lease`. The record stays in the table. -/
def closeLease (db : ExecutorDB) (msg : LeaseDeallocation) : CloseOutcome × ExecutorDB :=
  match db.leases.lookup msg.leaseId.toUInt32 with
  | none => (.nonExisting, db)
  | some lease =>
    match db.executors.lock lease.node with
    | none => (.nodeGone, db)
    | some ref =>
      (.cancelled, { db with
        executors := db.executors.store ref
          ((db.executors.objects ref).cancelLease lease.cores lease.memory)
        freeNodes := if lease.total then db.freeNodes ++ [lease.node] else db.freeNodes })

end ExecutorDB

/-- The operations that drive the store. -/
inductive StoreOp
  | add (nodeName ipAddress : String) (port cores memory : Int)
  | read (servers : List ServerData)
  | connectExecutor (connection : Connection)
  | registerExecutor (qpNum : UInt32) (name : String)
  | removeExecutor (qpNum : UInt32)
  | openLease (cores memory : Int)
  | closeLease (msg : LeaseDeallocation)

/-- The operations that set up executors: all but the two on leases. -/
def StoreOp.isSetup : StoreOp → Bool
  | .openLease _ _ | .closeLease _ => false
  | _ => true

namespace ExecutorDB

/-- One operation on the store. -/
def step (db : ExecutorDB) : StoreOp → ExecutorDB
  | .add nodeName ipAddress port cores memory =>
    (db.add nodeName ipAddress port cores memory).2
  | .read servers => db.read servers
  | .connectExecutor connection =>
    { db with executors := db.executors.connectExecutor connection }
  | .registerExecutor qpNum name =>
    { db with executors := (db.executors.registerExecutor qpNum name).2 }
  | .removeExecutor qpNum =>
    { db with executors := (db.executors.removeExecutor qpNum).2 }
  | .openLease cores memory => (db.openLease cores memory).2
  | .closeLease msg => (db.closeLease msg).2

/-! ### The scan of the free list -/

/-- An entry that `open_lease` keeps: its executor is alive. -/
def entryLive (executors : Executors) (weak : WeakExecutor) : Bool := (executors.lock weak).isSome

/-- The executor can take the request. -/
def Fits (executors : Executors) (cores memory : Int) (ref : ExecutorRef) : Prop :=
  executors.live ref = true ∧ (executors.objects ref).isInitialized = true ∧
    cores ≤ (executors.objects ref).freeCores ∧ memory ≤ (executors.objects ref).freeMemory

theorem entryLive_some {executors : Executors} {ref : ExecutorRef} :
    entryLive executors (some ref) = executors.live ref := by
  simp only [entryLive, Executors.lock, Option.filter_some]
  cases executors.live ref <;> rfl

/-- The executor after a lease of `cores` and `memory`. -/
def charged (executor : Executor) (cores memory : Int) : Executor :=
  { executor with
    freeCores := executor.freeCores - cores
    freeMemory := executor.freeMemory - memory }

/-- What the scan of a list yields: either no entry fits and only the expired entries go, or
the first entry that fits is taken and only expired entries in front of it go. -/
def Scanned (executors : Executors) (cores memory : Int) (nodes : List WeakExecutor)
    (result : List WeakExecutor × Option (ExecutorRef × Executor × List WeakExecutor)) : Prop :=
  ((∀ ref, some ref ∈ nodes → ¬ Fits executors cores memory ref) ∧
    result = (nodes.filter (entryLive executors), none)) ∨
  ∃ before ref rest, nodes = before ++ some ref :: rest ∧
    (∀ other, some other ∈ before → ¬ Fits executors cores memory other) ∧
    Fits executors cores memory ref ∧
    result = (before.filter (entryLive executors),
      some (ref, charged (executors.objects ref) cores memory, rest))

/-- An entry that does not fit, for whatever reason, leaves the decision to the rest. -/
theorem Scanned.pass {executors : Executors} {cores memory : Int} {rest : List WeakExecutor}
    {result : List WeakExecutor × Option (ExecutorRef × Executor × List WeakExecutor)}
    (scanned : Scanned executors cores memory rest result) (ptr : WeakExecutor)
    (unfit : ∀ ref, ptr = some ref → ¬ Fits executors cores memory ref) :
    Scanned executors cores memory (ptr :: rest)
      (if entryLive executors ptr then ptr :: result.1 else result.1, result.2) := by
  rcases scanned with ⟨none, rfl⟩ | ⟨before, ref, behind, split, early, fits, rfl⟩
  · refine Or.inl ⟨fun ref member => ?_, by rw [filter_cons]⟩
    rcases mem_cons.mp member with head | tail
    · exact unfit ref head.symm
    · exact none ref tail
  · refine Or.inr ⟨ptr :: before, ref, behind, by rw [split]; rfl, fun other member => ?_,
      fits, by rw [filter_cons]⟩
    rcases mem_cons.mp member with head | tail
    · exact unfit other head.symm
    · exact early other tail

theorem search_scanned (executors : Executors) (cores memory : Int) (nodes : List WeakExecutor) :
    Scanned executors cores memory nodes (search executors cores memory nodes) := by
  induction nodes with
  | nil => exact Or.inl ⟨fun _ member => absurd member not_mem_nil, rfl⟩
  | cons ptr rest inductionHypothesis =>
    cases locked : executors.lock ptr with
    | none =>
      have passed := inductionHypothesis.pass ptr fun ref known fits => by
        rw [known, Executors.lock, Option.filter_some, if_pos fits.1] at locked
        cases locked
      simpa [search, locked, entryLive] using passed
    | some ref =>
      obtain ⟨rfl, alive⟩ := Executors.lock_eq_some.mp locked
      have entry : entryLive executors (some ref) = true := by rw [entryLive_some, alive]
      by_cases initialized : (executors.objects ref).isInitialized = true
      · cases leased : (executors.objects ref).lease cores memory with
        | none =>
          have passed := inductionHypothesis.pass (some ref) fun other known fits => by
            cases known
            have granted := Executor.lease_eq_some.mpr ⟨fits.2.2.2, fits.2.2.1, rfl⟩
            rw [leased] at granted
            cases granted
          simpa [search, locked, initialized, leased, entry, Prod.map] using passed
        | some taken =>
          obtain ⟨memoryFits, coresFit, rfl⟩ := Executor.lease_eq_some.mp leased
          refine Or.inr ⟨[], ref, rest, rfl, fun _ member => absurd member not_mem_nil,
            ⟨alive, initialized, coresFit, memoryFits⟩, ?_⟩
          simp [search, locked, initialized, leased, charged]
      · have passed := inductionHypothesis.pass (some ref) fun other known fits => by
          cases known
          exact initialized fits.2.1
        simpa [search, locked, initialized, entry, Prod.map] using passed

/-- The inversion of `open_lease`: it changes nothing but the expired entries, or it grants a
lease on the first entry that fits. -/
theorem openLease_cases (db : ExecutorDB) (cores memory : Int) :
    ((∀ ref, some ref ∈ db.freeNodes → ¬ Fits db.executors cores memory ref) ∧
      db.openLease cores memory =
        (none, { db with freeNodes := db.freeNodes.filter (entryLive db.executors) })) ∨
    ∃ before ref rest response, db.freeNodes = before ++ some ref :: rest ∧
      (∀ other, some other ∈ before → ¬ Fits db.executors cores memory other) ∧
      Fits db.executors cores memory ref ∧ response.leaseId = db.leaseCount.toInt32 ∧
      db.openLease cores memory = (some (ref, response),
        db.grant (before.filter (entryLive db.executors)) ref
          (charged (db.executors.objects ref) cores memory) rest cores memory) := by
  rcases search_scanned db.executors cores memory db.freeNodes with
    ⟨unfit, same⟩ | ⟨before, ref, rest, split, early, fits, same⟩
  · exact Or.inl ⟨unfit, by rw [openLease, same]⟩
  · exact Or.inr ⟨before, ref, rest, _, split, early, fits, rfl, by rw [openLease, same]⟩

theorem closeLease_cases (db : ExecutorDB) (msg : LeaseDeallocation) :
    (db.leases.lookup msg.leaseId.toUInt32 = none ∧ db.closeLease msg = (.nonExisting, db)) ∨
    (∃ lease, db.leases.lookup msg.leaseId.toUInt32 = some lease ∧
      db.executors.lock lease.node = none ∧ db.closeLease msg = (.nodeGone, db)) ∨
    ∃ lease ref, db.leases.lookup msg.leaseId.toUInt32 = some lease ∧ lease.node = some ref ∧
      db.executors.live ref = true ∧
      db.closeLease msg = (.cancelled, { db with
        executors := db.executors.store ref
          ((db.executors.objects ref).cancelLease lease.cores lease.memory)
        freeNodes := if lease.total then db.freeNodes ++ [some ref] else db.freeNodes }) := by
  cases found : db.leases.lookup msg.leaseId.toUInt32 with
  | none => exact Or.inl ⟨rfl, by simp only [closeLease, found]⟩
  | some lease =>
    cases locked : db.executors.lock lease.node with
    | none => exact Or.inr (Or.inl ⟨lease, rfl, locked, by simp only [closeLease, found, locked]⟩)
    | some ref =>
      obtain ⟨node, alive⟩ := Executors.lock_eq_some.mp locked
      refine Or.inr (Or.inr ⟨lease, ref, rfl, node, alive, ?_⟩)
      rw [← node]
      simp only [closeLease, found, locked]

/-! ### The operations that set up executors -/

theorem addNode_executors (db : ExecutorDB) (data : ServerData) :
    (db.addNode data).2.executors = (db.executors.addExecutor data).2 := by
  unfold addNode
  split <;> rename_i same <;> rw [same]

theorem addNode_leases (db : ExecutorDB) (data : ServerData) :
    (db.addNode data).2.leases = db.leases ∧ (db.addNode data).2.leaseCount = db.leaseCount := by
  unfold addNode
  split <;> exact ⟨rfl, rfl⟩

variable {db : ExecutorDB}

/-- Adding an executor under a new name. -/
theorem addNode_of_absent {data : ServerData}
    (absent : db.executors.byName.lookup data.node = none) :
    (db.addNode data).2 = { db with
      executors := { db.executors.makeShared
          ((Executor.make db.executors.fresh).initializeData data) with
        byName := db.executors.byName.insert data.node db.executors.fresh }
      freeNodes := db.freeNodes ++ [some db.executors.fresh] } := by
  have made : (db.executors.makeShared ((Executor.make db.executors.fresh).initializeData
      data)).byName.lookup data.node = none := absent
  simp only [addNode, Executors.addExecutor, made]
  rfl

theorem add_addNode (db : ExecutorDB) (nodeName ipAddress : String) (port cores memory : Int) :
    (db.add nodeName ipAddress port cores memory).2 =
      if nodeName.length < nodeNameLength then db
      else (db.addNode ⟨port, toInt16 cores, memory, ipAddress, nodeName⟩).2 := by
  unfold add
  split
  · rfl
  · split <;> rename_i same <;> rw [same]

/-- The rule for `read`: what adding a node preserves, reading nodes preserves. -/
theorem read_rule {invariant : ExecutorDB → Prop}
    (preserved : ∀ db server, invariant db → invariant (db.addNode server).2) {db : ExecutorDB}
    (initially : invariant db) (servers : List ServerData) : invariant (db.read servers) :=
  run_stable preserved servers initially

theorem read_leases (db : ExecutorDB) (servers : List ServerData) :
    (db.read servers).leases = db.leases ∧ (db.read servers).leaseCount = db.leaseCount := by
  refine @read_rule (fun after => after.leases = db.leases ∧ after.leaseCount = db.leaseCount)
    (fun after server same => ?_) db ⟨rfl, rfl⟩ servers
  obtain ⟨leases, leaseCount⟩ := addNode_leases after server
  exact ⟨leases.trans same.1, leaseCount.trans same.2⟩

/-- Setting up executors leaves the lease table alone. -/
theorem step_leases (db : ExecutorDB) {op : StoreOp} (setup : op.isSetup = true) :
    (db.step op).leases = db.leases ∧ (db.step op).leaseCount = db.leaseCount := by
  cases op with
  | add =>
    rw [step, add_addNode]
    split
    · exact ⟨rfl, rfl⟩
    · exact addNode_leases db _
  | read servers => exact read_leases db servers
  | connectExecutor | registerExecutor | removeExecutor => exact ⟨rfl, rfl⟩
  | _ => cases setup

/-- What a setup operation does to the executors. -/
structure Prepared (before after : ExecutorDB) : Prop where
  wellFormed : after.executors.WellFormed
  evolves : Executors.Evolves before.executors after.executors

theorem Prepared.refl (wellFormed : db.executors.WellFormed) : Prepared db db :=
  ⟨wellFormed, .refl wellFormed⟩

theorem Prepared.trans {first second third : ExecutorDB} (left : Prepared first second)
    (right : Prepared second third) : Prepared first third :=
  ⟨right.wellFormed, left.evolves.trans right.evolves⟩

theorem addNode_prepared (wellFormed : db.executors.WellFormed) (data : ServerData) :
    Prepared db (db.addNode data).2 where
  wellFormed := by
    rw [addNode_executors]
    exact Executors.addExecutor_wellFormed wellFormed data
  evolves := by
    rw [addNode_executors]
    exact Executors.addExecutor_evolves wellFormed data

theorem read_prepared (wellFormed : db.executors.WellFormed) (servers : List ServerData) :
    Prepared db (db.read servers) :=
  read_rule (fun _ server prepared => prepared.trans (addNode_prepared prepared.wellFormed server))
    (Prepared.refl wellFormed) servers

theorem step_prepared (wellFormed : db.executors.WellFormed) {op : StoreOp}
    (setup : op.isSetup = true) : Prepared db (db.step op) := by
  cases op with
  | add =>
    rw [step, add_addNode]
    split
    · exact Prepared.refl wellFormed
    · exact addNode_prepared wellFormed _
  | read servers => exact read_prepared wellFormed servers
  | connectExecutor connection =>
    exact ⟨Executors.connectExecutor_wellFormed wellFormed connection,
      Executors.connectExecutor_evolves wellFormed connection⟩
  | registerExecutor qpNum name =>
    exact ⟨Executors.registerExecutor_wellFormed wellFormed qpNum name,
      Executors.registerExecutor_evolves wellFormed qpNum name⟩
  | removeExecutor qpNum =>
    exact ⟨Executors.removeExecutor_wellFormed wellFormed qpNum,
      Executors.removeExecutor_evolves wellFormed qpNum⟩
  | _ => cases setup

/-! ### The operations on leases -/

/-- Charging or crediting one executor keeps the indexes well formed: the books of an executor
without data are not touched, because only executors with a name are leased. -/
theorem store_wellFormed {executors : Executors} (wellFormed : executors.WellFormed)
    {ref : ExecutorRef} {executor : Executor} (made : ref < executors.fresh)
    (connection : executor.connection = (executors.objects ref).connection)
    (hasData : executor.hasData = true) : (executors.store ref executor).WellFormed where
  byName_lt := wellFormed.byName_lt
  byConn_lt := wellFormed.byConn_lt
  byConn_connected qpNum other found := by
    rw [Executors.store_objects]
    split
    · rename_i same
      rw [connection, ← same]
      exact wellFormed.byConn_connected qpNum other found
    · exact wellFormed.byConn_connected qpNum other found
  unmade_blank other unmade := by
    have different : other ≠ ref := fun same => absurd made (not_lt.mpr (same ▸ unmade))
    rw [Executors.store_objects, if_neg different]
    exact wellFormed.unmade_blank other unmade
  noData_blank other noData := by
    rw [Executors.store_objects] at noData ⊢
    split at noData
    · rw [hasData] at noData
      cases noData
    · rename_i different
      rw [if_neg different]
      exact wellFormed.noData_blank other noData

theorem hasData_of_isInitialized {executors : Executors} (wellFormed : executors.WellFormed)
    {ref : ExecutorRef} (initialized : (executors.objects ref).isInitialized = true) :
    (executors.objects ref).hasData = true := by
  by_contra noData
  have blank := wellFormed.noData_blank ref (by simpa using noData)
  exact (Executor.isInitialized_iff.mp initialized).1 blank.2.2.2

/-! ### Every store that can be reached -/

/-- What holds in every state of a run, whatever is done: the indexes are well formed, the free
list and the leases refer to executors that were made, and only executors with data are leased. -/
structure Consistent (db : ExecutorDB) : Prop where
  wellFormed : db.executors.WellFormed
  listed_lt : ∀ ref, some ref ∈ db.freeNodes → ref < db.executors.fresh
  leased : ∀ id lease ref, db.leases.lookup id = some lease → lease.node = some ref →
    (db.executors.objects ref).hasData = true

theorem empty_consistent : empty.Consistent where
  wellFormed := Executors.empty_wellFormed
  listed_lt _ member := absurd member not_mem_nil
  leased _ _ _ found := by cases found

/-- Leases are on executors that were made: the others have no data. -/
theorem Consistent.leased_lt (consistent : db.Consistent) {id : UInt32} {lease : Lease}
    {ref : ExecutorRef} (found : db.leases.lookup id = some lease) (node : lease.node = some ref) :
    ref < db.executors.fresh := by
  by_contra unmade
  have blank := consistent.wellFormed.unmade_blank ref (not_lt.mp unmade)
  exact Bool.false_ne_true (blank.1.symm.trans (consistent.leased id lease ref found node))

theorem Consistent.evolve {before after : ExecutorDB} (consistent : before.Consistent)
    (prepared : Prepared before after) (leases : after.leases = before.leases)
    (listed : ∀ ref, some ref ∈ after.freeNodes →
      some ref ∈ before.freeNodes ∨ ref < after.executors.fresh) : after.Consistent where
  wellFormed := prepared.wellFormed
  listed_lt ref member := by
    rcases listed ref member with old | made
    · exact lt_of_lt_of_le (consistent.listed_lt ref old) prepared.evolves.fresh_le
    · exact made
  leased id lease ref found node := by
    rw [leases] at found
    have hasData := consistent.leased id lease ref found node
    rcases prepared.evolves.old ref (consistent.leased_lt found node) with kept | ⟨_, full⟩
    · exact (congrArg Books.hasData kept.1).trans hasData
    · exact full.1

/-- `add` makes one executor, and where it appends to the free list it appends that one, also
when the data went to another. -/
theorem addNode_appends (db : ExecutorDB) (data : ServerData) :
    (db.addNode data).2.executors.fresh = db.executors.fresh + 1 ∧
      ((db.addNode data).2.freeNodes = db.freeNodes ∨
        (db.addNode data).2.freeNodes = db.freeNodes ++ [some db.executors.fresh]) := by
  have made : (db.executors.addExecutor data).2.fresh = db.executors.fresh + 1 ∧
      ((db.executors.addExecutor data).1 = (none, false) ∨
        (db.executors.addExecutor data).1 = (some db.executors.fresh, true)) := by
    unfold Executors.addExecutor
    dsimp only
    split
    · exact ⟨rfl, Or.inr rfl⟩
    · split
      · exact ⟨rfl, Or.inl rfl⟩
      · exact ⟨rfl, Or.inr rfl⟩
  refine ⟨by rw [addNode_executors, made.1], ?_⟩
  unfold addNode
  split
  · exact Or.inl rfl
  · rename_i ptr executors added
    rw [added] at made
    rcases made.2 with refused | appended
    · cases refused
    · cases appended
      exact Or.inr rfl

theorem Consistent.addNode (consistent : db.Consistent) (data : ServerData) :
    (db.addNode data).2.Consistent := by
  obtain ⟨fresh, freeNodes⟩ := addNode_appends db data
  refine consistent.evolve (addNode_prepared consistent.wellFormed data) (addNode_leases db data).1
    fun ref member => ?_
  rcases freeNodes with same | appended
  · exact Or.inl (same ▸ member)
  · rw [appended] at member
    refine (mem_append.mp member).imp_right fun last => ?_
    rw [Option.some.inj (mem_singleton.mp last), fresh]
    exact Nat.lt_succ_self _

theorem Consistent.read (consistent : db.Consistent) (servers : List ServerData) :
    (db.read servers).Consistent :=
  read_rule (fun _ server consistent => consistent.addNode server) consistent servers

theorem Consistent.openLease (consistent : db.Consistent) (cores memory : Int) :
    (db.openLease cores memory).2.Consistent := by
  rcases openLease_cases db cores memory with
    ⟨_, same⟩ | ⟨before, ref, rest, response, split, _, fits, _, same⟩
  · rw [same]
    exact { consistent with
      listed_lt := fun ref member => consistent.listed_lt ref (mem_of_mem_filter member) }
  · have made := consistent.wellFormed.live_lt fits.1
    have hasData := hasData_of_isInitialized consistent.wellFormed fits.2.1
    rw [same]
    refine ⟨store_wellFormed consistent.wellFormed made rfl hasData, fun other member => ?_,
      fun id lease other found node => ?_⟩
    · refine consistent.listed_lt other ?_
      rw [split]
      rcases mem_append.mp member with early | late
      · exact mem_append_left _ (mem_of_mem_filter early)
      · refine mem_append_right _ ?_
        split at late
        · exact mem_cons_of_mem _ late
        · exact late
    · show ((db.executors.store ref _).objects other).hasData = true
      rw [Executors.store_objects]
      split
      · exact hasData
      · rename_i differs
        rcases Table.lookup_emplace_cases found with ⟨_, new, _⟩ | old
        · rw [new] at node
          exact absurd (Option.some.inj node).symm differs
        · exact consistent.leased id lease other old node

theorem Consistent.closeLease (consistent : db.Consistent) (msg : LeaseDeallocation) :
    (db.closeLease msg).2.Consistent := by
  rcases closeLease_cases db msg with ⟨_, same⟩ | ⟨_, _, _, same⟩ | ⟨lease, ref, found, node, alive,
    same⟩
  · rw [same]
    exact consistent
  · rw [same]
    exact consistent
  · have made := consistent.wellFormed.live_lt alive
    have hasData := consistent.leased _ lease ref found node
    rw [same]
    refine ⟨store_wellFormed consistent.wellFormed made rfl hasData, fun other member => ?_,
      fun id other place present inside => ?_⟩
    · dsimp only at member
      split at member
      · rcases mem_append.mp member with old | last
        · exact consistent.listed_lt other old
        · rw [Option.some.inj (mem_singleton.mp last)]
          exact made
      · exact consistent.listed_lt other member
    · show ((db.executors.store ref _).objects place).hasData = true
      rw [Executors.store_objects]
      split
      · exact hasData
      · exact consistent.leased id other place present inside

theorem Consistent.step {db : ExecutorDB} (consistent : db.Consistent) (op : StoreOp) :
    (db.step op).Consistent := by
  cases op with
  | add =>
    rw [ExecutorDB.step, add_addNode]
    split
    · exact consistent
    · exact consistent.addNode _
  | read servers => exact consistent.read servers
  | connectExecutor | registerExecutor | removeExecutor =>
    exact consistent.evolve (step_prepared consistent.wellFormed rfl) rfl fun _ => Or.inl
  | openLease cores memory => exact consistent.openLease cores memory
  | closeLease msg => exact consistent.closeLease msg

theorem run_consistent (ops : List StoreOp) : (run step empty ops).Consistent :=
  run_stable (fun _ op consistent => consistent.step op) ops empty_consistent

end ExecutorDB

end RFaaS
