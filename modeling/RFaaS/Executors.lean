/-
This file models the executors of the resource manager
(`server/resource_manager/executor.hpp` and `executor.cpp`): the `Executor`
record with its resource counters, and `Executors`, the two indexes under which
executors are found, by node name and by queue pair.

Executors live behind `std::shared_ptr` and are referred to weakly by leases
and by the free list. The model gives every executor ever made a reference; an
executor is alive as long as one of the two indexes refers to it, and a weak
pointer can be locked exactly then. References are not reused, so a weak
pointer to a dead executor stays expired.

The second half of the file says once what the operations that set up
executors can do (`Evolves`): counters and data change only by giving data to
an executor that is not initialised, connections are never taken away, and no
dead executor comes back.
-/

import RFaaS.Buffer
import RFaaS.Table
import Mathlib.Data.Int.Basic
import Mathlib.Logic.Function.Basic
import Mathlib.Order.Basic

namespace RFaaS

open Table

/-! ### The record -/

/-- `rdmalib::Connection`, as far as the resource manager looks at it. Two connections with the
same queue pair number are told apart by their address. -/
structure Connection where
  address : Nat
  qpNum : UInt32
  deriving DecidableEq, Repr

/-- `rfaas::server_data`; the defaults are those of its default constructor. -/
structure ServerData where
  port : Int := -1
  cores : Int := -1
  memory : Int := -1
  address : String := ""
  node : String := ""
  deriving DecidableEq, Repr

/-- `resource_manager::Executor`. `hasData` is a ghost: whether `initialize_data` has run. -/
structure Executor extends ServerData where
  connection : Option Connection
  freeCores : Int
  freeMemory : Int
  receiveBuffer : Buffer
  sendBuffer : Buffer
  hasData : Bool := false
  deriving DecidableEq, Repr

/-- A `std::shared_ptr<Executor>` that is not null. -/
abbrev ExecutorRef := Nat

/-- A `std::weak_ptr<Executor>`; `none` is the empty one. -/
abbrev WeakExecutor := Option ExecutorRef

namespace Executor

/-- `Executor::RECV_BUF_SIZE`. -/
def recvBufSize : Nat := 32

/-- `Executor::MSG_SIZE`: the larger of `sizeof(NodeRegistration)` and
`sizeof(LeaseDeallocation)`. -/
def msgSize : Nat := max 36 32

/-- `Executor::Executor()`. Every executor maps two regions of its own. -/
def make (ref : ExecutorRef) : Executor where
  connection := none
  freeCores := 0
  freeMemory := 0
  receiveBuffer := Buffer.allocate (recvBufSize * msgSize) 1 0 (2 * ref)
  sendBuffer := Buffer.allocate 1 16 0 (2 * ref + 1)

/-- `Executor::initialize_data`. -/
def initializeData (executor : Executor) (data : ServerData) : Executor :=
  { executor with
    toServerData := data
    freeCores := data.cores
    freeMemory := data.memory
    hasData := true }

/-- `Executor::initialize_connection`. -/
def initializeConnection (executor : Executor) (connection : Connection) : Executor :=
  { executor with
    connection := some connection
    receiveBuffer := executor.receiveBuffer.registerMemory
    sendBuffer := executor.sendBuffer.registerMemory }

/-- `Executor::is_initialized`. -/
def isInitialized (executor : Executor) : Bool :=
  !executor.node.isEmpty && executor.connection.isSome

/-- `Executor::lease`; `none` is the answer `false`. The differences are exact here
(`Executor.stored` has what an `int` keeps of them). -/
def lease (executor : Executor) (cores memory : Int) : Option Executor :=
  if executor.freeMemory < memory then none
  else if executor.freeCores < cores then none
  else some { executor with
    freeCores := executor.freeCores - cores
    freeMemory := executor.freeMemory - memory }

/-- `Executor::is_fully_leased`. -/
def isFullyLeased (executor : Executor) : Bool :=
  decide (executor.freeCores = 0) || decide (executor.freeMemory = 0)

/-- `Executor::cancel_lease`, on the cores and the memory of the lease. -/
def cancelLease (executor : Executor) (cores memory : Int) : Executor :=
  { executor with
    freeCores := executor.freeCores + cores
    freeMemory := executor.freeMemory + memory }

end Executor

open Executor

/-! ### The two indexes -/

/-- `resource_manager::Executors`, with the heap its pointers point into. `receives` records
the region that the receives of a connection were posted with. -/
structure Executors where
  objects : ExecutorRef → Executor
  fresh : ExecutorRef
  byName : Table String ExecutorRef
  byConn : Table UInt32 ExecutorRef
  receives : Table Connection (Option Nat)

namespace Executors

/-- No executor has been made yet. -/
def empty : Executors where
  objects := make
  fresh := 0
  byName := ∅
  byConn := ∅
  receives := ∅

/-- Some `shared_ptr` to the executor is left. -/
def live (executors : Executors) (ref : ExecutorRef) : Bool :=
  executors.byName.holds ref || executors.byConn.holds ref

/-- `weak_ptr::lock`. -/
def lock (executors : Executors) (weak : WeakExecutor) : Option ExecutorRef :=
  weak.filter executors.live

/-- Assignment through a pointer. -/
def store (executors : Executors) (ref : ExecutorRef) (executor : Executor) : Executors :=
  { executors with objects := Function.update executors.objects ref executor }

/-- `std::make_shared<Executor>`; the reference made is the old `fresh`. -/
def makeShared (executors : Executors) (executor : Executor) : Executors :=
  { executors.store executors.fresh executor with fresh := executors.fresh + 1 }

/-- `Executors::add_executor`. The executor is made before the insertion is tried; where the
name is taken by an executor that is not initialised, the data go to that executor and the weak
pointer returned is to the one just made. -/
def addExecutor (executors : Executors) (data : ServerData) : (WeakExecutor × Bool) × Executors :=
  let exec := executors.fresh
  let made := executors.makeShared ((make exec).initializeData data)
  match made.byName.lookup data.node with
  | none => ((some exec, true), { made with byName := made.byName.insert data.node exec })
  | some existing =>
    if (made.objects existing).isInitialized then ((none, false), made)
    else
      ((some exec, true), made.store existing ((made.objects existing).initializeData data))

/-- The listener makes an executor for a new connection (`Executor()` and
`initialize_connection`), and `Executors::connect_executor` enters it under its queue pair. -/
def connectExecutor (executors : Executors) (connection : Connection) : Executors :=
  let exec := executors.fresh
  let executor := (make exec).initializeConnection connection
  let made := executors.makeShared executor
  { made with
    byConn := made.byConn.insert connection.qpNum exec
    receives := made.receives.insert connection executor.receiveBuffer.ptr }

/-- `this->_receive_buffer = std::move(exec->_receive_buffer)`. -/
def moveReceiveBuffer (executors : Executors) (this exec : ExecutorRef) : Executors :=
  let assigned := executors.store this
    { executors.objects this with receiveBuffer := (executors.objects exec).receiveBuffer }
  assigned.store exec
    { assigned.objects exec with receiveBuffer := (assigned.objects exec).receiveBuffer.moved }

/-- `this->_send_buffer = std::move(exec->_send_buffer)`. -/
def moveSendBuffer (executors : Executors) (this exec : ExecutorRef) : Executors :=
  let assigned := executors.store this
    { executors.objects this with sendBuffer := (executors.objects exec).sendBuffer }
  assigned.store exec
    { assigned.objects exec with sendBuffer := (assigned.objects exec).sendBuffer.moved }

/-- `Executor::merge`. The two pointers may be the same. -/
def merge (executors : Executors) (this exec : ExecutorRef) : Executors :=
  let connected := executors.store this
    { executors.objects this with connection := (executors.objects exec).connection }
  (connected.moveReceiveBuffer this exec).moveSendBuffer this exec

/-- `Executors::register_executor`. -/
def registerExecutor (executors : Executors) (qpNum : UInt32) (name : String) : Bool × Executors :=
  match executors.byConn.lookup qpNum with
  | none => (false, executors)
  | some connected =>
    match executors.byName.lookup name with
    | none => (true, { executors with byName := executors.byName.insert name connected })
    | some named =>
      let merged := executors.merge named connected
      (true, { merged with byConn := merged.byConn.insert qpNum named })

/-- `Executors::remove_executor(qp_num)`. -/
def removeExecutor (executors : Executors) (qpNum : UInt32) : Bool × Executors :=
  match executors.byConn.lookup qpNum with
  | none => (false, executors)
  | some connected =>
    (true, { executors with
      byName := executors.byName.erase (executors.objects connected).node
      byConn := executors.byConn.erase qpNum })

end Executors

/-! ### What setting up executors can do -/

/-- The part of an executor that the accounting of leases is about. -/
structure Books where
  cores : Int
  memory : Int
  freeCores : Int
  freeMemory : Int
  node : String
  hasData : Bool

namespace Books

/-- The books of an executor that was never given data. -/
def Blank (books : Books) : Prop :=
  books.hasData = false ∧ books.freeCores = 0 ∧ books.freeMemory = 0 ∧ books.node = ""

/-- The books of an executor right after `initialize_data`. -/
def Full (books : Books) : Prop :=
  books.hasData = true ∧ books.freeCores = books.cores ∧ books.freeMemory = books.memory

end Books

namespace Executor

def books (executor : Executor) : Books where
  cores := executor.cores
  memory := executor.memory
  freeCores := executor.freeCores
  freeMemory := executor.freeMemory
  node := executor.node
  hasData := executor.hasData

theorem make_blank (ref : ExecutorRef) : (make ref).books.Blank := ⟨rfl, rfl, rfl, rfl⟩

theorem initializeData_full (executor : Executor) (data : ServerData) :
    (executor.initializeData data).books.Full := ⟨rfl, rfl, rfl⟩

theorem isInitialized_iff {executor : Executor} :
    executor.isInitialized = true ↔ executor.node ≠ "" ∧ executor.connection.isSome = true := by
  simp [isInitialized]

theorem lease_eq_some {executor leased : Executor} {cores memory : Int} :
    executor.lease cores memory = some leased ↔
      memory ≤ executor.freeMemory ∧ cores ≤ executor.freeCores ∧
        leased = { executor with
          freeCores := executor.freeCores - cores
          freeMemory := executor.freeMemory - memory } := by
  unfold lease
  split
  · rename_i short
    exact ⟨nofun, fun fits => absurd fits.1 (by omega)⟩
  · split
    · rename_i short
      exact ⟨nofun, fun fits => absurd fits.2.1 (by omega)⟩
    · rename_i memoryFits coresFit
      simp only [Option.some.injEq]
      exact ⟨fun same => ⟨by omega, by omega, same.symm⟩, fun fits => fits.2.2.symm⟩

/-- The executor keeps its books and does not lose its connection. -/
def Kept (before after : Executor) : Prop :=
  after.books = before.books ∧ (before.connection.isSome = true → after.connection.isSome = true)

theorem Kept.refl (executor : Executor) : Kept executor executor := ⟨rfl, id⟩

theorem Kept.trans {first second third : Executor} (left : Kept first second)
    (right : Kept second third) : Kept first third :=
  ⟨right.1.trans left.1, right.2 ∘ left.2⟩

theorem Kept.isInitialized {before after : Executor} (kept : Kept before after)
    (initialized : before.isInitialized = true) : after.isInitialized = true := by
  rw [isInitialized_iff] at initialized ⊢
  have node : after.node = before.node := congrArg Books.node kept.1
  exact ⟨by rw [node]; exact initialized.1, kept.2 initialized.2⟩

end Executor

namespace Executors

/-- What holds of the two indexes and the heap in every state of the resource manager. -/
structure WellFormed (executors : Executors) : Prop where
  byName_lt : ∀ name ref, executors.byName.lookup name = some ref → ref < executors.fresh
  byConn_lt : ∀ qpNum ref, executors.byConn.lookup qpNum = some ref → ref < executors.fresh
  byConn_connected : ∀ qpNum ref, executors.byConn.lookup qpNum = some ref →
    (executors.objects ref).connection.isSome = true
  unmade_blank : ∀ ref, executors.fresh ≤ ref → (executors.objects ref).books.Blank
  noData_blank : ∀ ref, (executors.objects ref).hasData = false →
    (executors.objects ref).books.Blank

/-- What setting up executors can do to the executors there are and to those it makes. -/
structure Evolves (before after : Executors) : Prop where
  fresh_le : before.fresh ≤ after.fresh
  old : ∀ ref, ref < before.fresh →
    Kept (before.objects ref) (after.objects ref) ∨
      (before.objects ref).isInitialized = false ∧ (after.objects ref).books.Full
  new : ∀ ref, before.fresh ≤ ref →
    (after.objects ref).books.Blank ∨ (after.objects ref).books.Full
  live_old : ∀ ref, ref < before.fresh → after.live ref = true → before.live ref = true

variable {ref : ExecutorRef}

theorem live_iff {executors : Executors} :
    executors.live ref = true ↔
      (∃ name, executors.byName.lookup name = some ref) ∨
        ∃ qpNum, executors.byConn.lookup qpNum = some ref := by
  rw [live, Bool.or_eq_true, holds_iff, holds_iff]

theorem WellFormed.live_lt {executors : Executors} (wellFormed : executors.WellFormed)
    (alive : executors.live ref = true) : ref < executors.fresh := by
  rcases live_iff.mp alive with ⟨name, found⟩ | ⟨qpNum, found⟩
  · exact wellFormed.byName_lt name ref found
  · exact wellFormed.byConn_lt qpNum ref found

theorem lock_eq_some {executors : Executors} {weak : WeakExecutor} :
    executors.lock weak = some ref ↔ weak = some ref ∧ executors.live ref = true := by
  rw [lock, Option.filter_eq_some_iff]

theorem empty_wellFormed : empty.WellFormed where
  byName_lt _ _ found := by cases found
  byConn_lt _ _ found := by cases found
  byConn_connected _ _ found := by cases found
  unmade_blank ref _ := make_blank ref
  noData_blank ref _ := make_blank ref

theorem Evolves.refl {executors : Executors} (wellFormed : executors.WellFormed) :
    Evolves executors executors where
  fresh_le := le_rfl
  old _ _ := Or.inl (Kept.refl _)
  new ref unmade := Or.inl (wellFormed.unmade_blank ref unmade)
  live_old _ _ alive := alive

theorem Evolves.trans {first second third : Executors} (left : Evolves first second)
    (right : Evolves second third) : Evolves first third where
  fresh_le := left.fresh_le.trans right.fresh_le
  old ref made := by
    rcases right.old ref (lt_of_lt_of_le made left.fresh_le) with kept | ⟨idle, full⟩
    · rcases left.old ref made with keptBefore | ⟨idle, full⟩
      · exact Or.inl (keptBefore.trans kept)
      · exact Or.inr ⟨idle, by rw [kept.1]; exact full⟩
    · refine Or.inr ⟨?_, full⟩
      rcases left.old ref made with keptBefore | ⟨idleBefore, _⟩
      · by_contra initialized
        rw [keptBefore.isInitialized (by simpa using initialized)] at idle
        cases idle
      · exact idleBefore
  new ref unmade := by
    by_cases made : ref < second.fresh
    · rcases right.old ref made with kept | ⟨_, full⟩
      · rw [kept.1]
        exact left.new ref unmade
      · exact Or.inr full
    · exact right.new ref (not_lt.mp made)
  live_old ref made alive :=
    left.live_old ref made (right.live_old ref (lt_of_lt_of_le made left.fresh_le) alive)

theorem store_objects (executors : Executors) (ref other : ExecutorRef) (executor : Executor) :
    (executors.store ref executor).objects other =
      if other = ref then executor else executors.objects other := by
  simp only [store, Function.update_apply]

theorem store_node {executors : Executors} {executor : Executor}
    (node : executor.node = (executors.objects ref).node) (other : ExecutorRef) :
    ((executors.store ref executor).objects other).node = (executors.objects other).node := by
  rw [store_objects]
  split
  · rename_i same
    rw [same, node]
  · rfl

theorem makeShared_objects (executors : Executors) (executor : Executor) (ref : ExecutorRef) :
    (executors.makeShared executor).objects ref =
      if ref = executors.fresh then executor else executors.objects ref :=
  store_objects executors executors.fresh ref executor

theorem makeShared_wellFormed {executors : Executors} (wellFormed : executors.WellFormed)
    (executor : Executor) (books : executor.hasData = false → executor.books.Blank) :
    (executors.makeShared executor).WellFormed where
  byName_lt name ref found := Nat.lt_succ_of_lt (wellFormed.byName_lt name ref found)
  byConn_lt qpNum ref found := Nat.lt_succ_of_lt (wellFormed.byConn_lt qpNum ref found)
  byConn_connected qpNum ref found := by
    rw [makeShared_objects, if_neg (wellFormed.byConn_lt qpNum ref found).ne]
    exact wellFormed.byConn_connected qpNum ref found
  unmade_blank ref unmade := by
    have beyond : executors.fresh < ref := unmade
    rw [makeShared_objects, if_neg beyond.ne']
    exact wellFormed.unmade_blank ref beyond.le
  noData_blank ref noData := by
    rw [makeShared_objects] at noData ⊢
    split at noData
    · rename_i same
      rw [if_pos same]
      exact books noData
    · rename_i different
      rw [if_neg different]
      exact wellFormed.noData_blank ref noData

theorem makeShared_evolves {executors : Executors} (wellFormed : executors.WellFormed)
    (executor : Executor) (books : executor.books.Blank ∨ executor.books.Full) :
    Evolves executors (executors.makeShared executor) where
  fresh_le := Nat.le_succ _
  old ref made := by
    rw [makeShared_objects, if_neg made.ne]
    exact Or.inl (Kept.refl _)
  new ref unmade := by
    rw [makeShared_objects]
    split
    · exact books
    · exact Or.inl (wellFormed.unmade_blank ref unmade)
  live_old _ _ alive := alive

/-- Changing the indexes only: what they refer to after the change was referred to before it,
or is one given executor. -/
theorem reindex_evolves {before after : Executors} (wellFormed : before.WellFormed)
    (objects : after.objects = before.objects) (fresh : after.fresh = before.fresh)
    (owner : ∀ ref, after.live ref = true → before.live ref = true) :
    Evolves before after where
  fresh_le := fresh.ge
  old ref _ := by
    rw [objects]
    exact Or.inl (Kept.refl _)
  new ref unmade := by
    rw [objects]
    exact Or.inl (wellFormed.unmade_blank ref unmade)
  live_old ref _ := owner ref

/-! ### The operations, one by one -/

theorem addExecutor_wellFormed {executors : Executors} (wellFormed : executors.WellFormed)
    (data : ServerData) : (executors.addExecutor data).2.WellFormed := by
  have made := makeShared_wellFormed wellFormed
    ((make executors.fresh).initializeData data) nofun
  unfold addExecutor
  dsimp only
  split
  · refine { made with byName_lt := fun name ref found => ?_ }
    rcases lookup_insert_eq_some.mp found with ⟨_, rfl⟩ | ⟨_, old⟩
    · exact Nat.lt_succ_self _
    · exact made.byName_lt name ref old
  · split
    · exact made
    · refine { made with
        byConn_connected := fun qpNum ref found => ?_
        unmade_blank := fun ref unmade => ?_
        noData_blank := fun ref noData => ?_ }
      · rw [store_objects]
        split
        · rename_i same
          rw [← same]
          exact made.byConn_connected qpNum ref found
        · exact made.byConn_connected qpNum ref found
      · rename_i existing found _
        have unnamed : ref ≠ existing := fun same =>
          absurd (made.byName_lt _ existing found) (not_lt.mpr (same ▸ unmade))
        rw [store_objects, if_neg unnamed]
        exact made.unmade_blank ref unmade
      · rw [store_objects] at noData ⊢
        split at noData
        · cases noData
        · rename_i different
          rw [if_neg different]
          exact made.noData_blank ref noData

theorem addExecutor_evolves {executors : Executors} (wellFormed : executors.WellFormed)
    (data : ServerData) : Evolves executors (executors.addExecutor data).2 := by
  have made := makeShared_evolves wellFormed
    ((make executors.fresh).initializeData data)
    (Or.inr (initializeData_full _ data))
  unfold addExecutor
  dsimp only
  split
  · refine { made with live_old := fun ref known alive => ?_ }
    rcases live_iff.mp alive with ⟨name, found⟩ | found
    · rcases lookup_insert_eq_some.mp found with ⟨_, new⟩ | ⟨_, old⟩
      · exact absurd new known.ne
      · exact live_iff.mpr (Or.inl ⟨name, old⟩)
    · exact live_iff.mpr (Or.inr found)
  · split
    · exact made
    · rename_i existing found idle
      refine made.trans ⟨le_rfl, fun ref _ => ?_, fun ref unmade => ?_, fun _ _ => id⟩
      · rw [store_objects]
        split
        · rename_i same
          rw [same]
          exact Or.inr ⟨by simpa using idle, initializeData_full _ _⟩
        · exact Or.inl (Kept.refl _)
      · rw [store_objects]
        split
        · exact Or.inr (initializeData_full _ _)
        · exact Or.inl ((makeShared_wellFormed wellFormed
            ((make executors.fresh).initializeData data) nofun).unmade_blank ref unmade)

/-- The three ends of `add_executor`, by what they do to the names. -/
inductive Added (executors : Executors) (data : ServerData) (after : Executors) : Prop
  /-- The name was free and leads to the new executor. -/
  | new (absent : executors.byName.lookup data.node = none)
      (byName : after.byName = executors.byName.insert data.node executors.fresh)
      (made : (after.objects executors.fresh).node = data.node ∧
        (after.objects executors.fresh).connection = none)
      (node : ∀ ref < executors.fresh, (after.objects ref).node = (executors.objects ref).node)
  /-- The name was taken, and the executor is described already. -/
  | taken (byName : after.byName = executors.byName)
      (node : ∀ ref < executors.fresh, (after.objects ref).node = (executors.objects ref).node)
  /-- The name was taken by an executor that was not initialised. -/
  | described (existing : ExecutorRef)
      (present : executors.byName.lookup data.node = some existing)
      (byName : after.byName = executors.byName)
      (own : (after.objects existing).node = data.node)
      (node : ∀ ref < executors.fresh, ref ≠ existing →
        (after.objects ref).node = (executors.objects ref).node)

theorem addExecutor_added (executors : Executors) (data : ServerData) :
    Added executors data (executors.addExecutor data).2 := by
  have other (ref : ExecutorRef) (old : ref < executors.fresh) :
      (executors.makeShared ((make executors.fresh).initializeData data)).objects ref =
        executors.objects ref := by
    rw [makeShared_objects, if_neg old.ne]
  unfold addExecutor
  dsimp only
  cases found : (executors.makeShared ((make executors.fresh).initializeData
      data)).byName.lookup data.node with
  | none =>
    refine .new found rfl ?_ fun ref old => ?_
    · dsimp only
      rw [makeShared_objects, if_pos rfl]
      exact ⟨rfl, rfl⟩
    · dsimp only
      rw [other ref old]
  | some existing =>
    dsimp only
    split
    · exact .taken rfl fun ref old => by rw [other ref old]
    · refine .described existing found rfl ?_ fun ref old differs => ?_
      · rw [store_objects, if_pos rfl]
        rfl
      · rw [store_objects, if_neg differs, other ref old]

/-- Connecting makes one executor and leaves the others alone. -/
theorem connectExecutor_objects (executors : Executors) (connection : Connection)
    (ref : ExecutorRef) :
    (executors.connectExecutor connection).objects ref =
      if ref = executors.fresh then (make ref).initializeConnection connection
      else executors.objects ref := by
  rw [connectExecutor]
  dsimp only
  rw [makeShared_objects]
  split
  · rename_i same
    rw [same]
  · rfl

theorem connectExecutor_lookup (executors : Executors) (connection : Connection) :
    (executors.connectExecutor connection).byConn.lookup connection.qpNum =
      some executors.fresh :=
  AList.lookup_insert _

theorem connectExecutor_wellFormed {executors : Executors} (wellFormed : executors.WellFormed)
    (connection : Connection) : (executors.connectExecutor connection).WellFormed := by
  have made := makeShared_wellFormed wellFormed
    ((make executors.fresh).initializeConnection connection)
    fun _ => make_blank executors.fresh
  refine { made with
    byConn_lt := fun qpNum ref found => ?_
    byConn_connected := fun qpNum ref found => ?_ }
  · rcases lookup_insert_eq_some.mp found with ⟨_, rfl⟩ | ⟨_, old⟩
    · exact Nat.lt_succ_self _
    · exact made.byConn_lt qpNum ref old
  · rcases lookup_insert_eq_some.mp found with ⟨_, rfl⟩ | ⟨_, old⟩
    · rw [connectExecutor_objects, if_pos rfl]
      rfl
    · exact made.byConn_connected qpNum ref old

theorem connectExecutor_evolves {executors : Executors} (wellFormed : executors.WellFormed)
    (connection : Connection) : Evolves executors (executors.connectExecutor connection) := by
  have made := makeShared_evolves wellFormed
    ((make executors.fresh).initializeConnection connection)
    (Or.inl (make_blank executors.fresh))
  refine { made with live_old := fun ref known alive => ?_ }
  rcases live_iff.mp alive with found | ⟨qpNum, found⟩
  · exact live_iff.mpr (Or.inl found)
  · rcases lookup_insert_eq_some.mp found with ⟨_, new⟩ | ⟨_, old⟩
    · exact absurd new known.ne
    · exact live_iff.mpr (Or.inr ⟨qpNum, old⟩)

/-- What a merge leaves in every executor. Where the two are the same, it loses its buffers. -/
theorem merge_objects (executors : Executors) (this exec ref : ExecutorRef) :
    (executors.merge this exec).objects ref =
      { executors.objects ref with
        connection := if ref = this then (executors.objects exec).connection
          else (executors.objects ref).connection
        receiveBuffer := if ref = exec then (executors.objects exec).receiveBuffer.moved
          else if ref = this then (executors.objects exec).receiveBuffer
          else (executors.objects ref).receiveBuffer
        sendBuffer := if ref = exec then (executors.objects exec).sendBuffer.moved
          else if ref = this then (executors.objects exec).sendBuffer
          else (executors.objects ref).sendBuffer } := by
  by_cases same : this = exec
  · subst same
    by_cases here : ref = this
    · subst here
      simp only [merge, moveReceiveBuffer, moveSendBuffer, store_objects, if_true]
    · simp only [merge, moveReceiveBuffer, moveSendBuffer, store_objects, here, if_false]
  · have other : exec ≠ this := Ne.symm same
    by_cases here : ref = this
    · subst here
      simp only [merge, moveReceiveBuffer, moveSendBuffer, store_objects, same, other, if_true,
        if_false]
    · by_cases there : ref = exec
      · subst there
        simp only [merge, moveReceiveBuffer, moveSendBuffer, store_objects, other, if_true,
          if_false]
      · simp only [merge, moveReceiveBuffer, moveSendBuffer, store_objects, here, there, if_false]

/-- Merging with a connected executor changes no books and takes no connection away. -/
theorem merge_kept {executors : Executors} {this exec : ExecutorRef}
    (connected : (executors.objects exec).connection.isSome = true) (other : ExecutorRef) :
    Kept (executors.objects other) ((executors.merge this exec).objects other) := by
  rw [merge_objects]
  refine ⟨rfl, fun had => ?_⟩
  dsimp only
  split
  · exact connected
  · exact had

theorem merge_connected {executors : Executors} {this exec : ExecutorRef}
    (connected : (executors.objects exec).connection.isSome = true) :
    ((executors.merge this exec).objects this).connection.isSome = true := by
  rw [merge_objects]
  dsimp only
  rw [if_pos rfl]
  exact connected

theorem WellFormed.of_kept {before after : Executors} (wellFormed : before.WellFormed)
    (kept : ∀ ref, Kept (before.objects ref) (after.objects ref))
    (fresh : after.fresh = before.fresh) (byName : after.byName = before.byName)
    (byConn : after.byConn = before.byConn) : after.WellFormed where
  byName_lt name ref found := by
    rw [fresh]
    exact wellFormed.byName_lt name ref (byName ▸ found)
  byConn_lt qpNum ref found := by
    rw [fresh]
    exact wellFormed.byConn_lt qpNum ref (byConn ▸ found)
  byConn_connected qpNum ref found :=
    (kept ref).2 (wellFormed.byConn_connected qpNum ref (byConn ▸ found))
  unmade_blank ref unmade := by
    rw [(kept ref).1]
    exact wellFormed.unmade_blank ref (fresh ▸ unmade)
  noData_blank ref noData := by
    rw [(kept ref).1]
    exact wellFormed.noData_blank ref ((congrArg Books.hasData (kept ref).1).symm.trans noData)

theorem registerExecutor_wellFormed {executors : Executors} (wellFormed : executors.WellFormed)
    (qpNum : UInt32) (name : String) : (executors.registerExecutor qpNum name).2.WellFormed := by
  unfold registerExecutor
  split
  · exact wellFormed
  · rename_i connected found
    have isConnected := wellFormed.byConn_connected qpNum connected found
    split
    · refine { wellFormed with byName_lt := fun other ref entry => ?_ }
      rcases lookup_insert_eq_some.mp entry with ⟨_, rfl⟩ | ⟨_, old⟩
      · exact wellFormed.byConn_lt qpNum ref found
      · exact wellFormed.byName_lt other ref old
    · rename_i named namedFound
      have merged : (executors.merge named connected).WellFormed :=
        wellFormed.of_kept (merge_kept isConnected) rfl rfl rfl
      refine { merged with
        byConn_lt := fun other ref entry => ?_
        byConn_connected := fun other ref entry => ?_ }
      · rcases lookup_insert_eq_some.mp entry with ⟨_, rfl⟩ | ⟨_, old⟩
        · exact wellFormed.byName_lt name ref namedFound
        · exact merged.byConn_lt other ref old
      · rcases lookup_insert_eq_some.mp entry with ⟨_, rfl⟩ | ⟨_, old⟩
        · exact merge_connected isConnected
        · exact merged.byConn_connected other ref old

theorem registerExecutor_evolves {executors : Executors} (wellFormed : executors.WellFormed)
    (qpNum : UInt32) (name : String) :
    Evolves executors (executors.registerExecutor qpNum name).2 := by
  unfold registerExecutor
  split
  · exact Evolves.refl wellFormed
  · rename_i connected found
    have isConnected := wellFormed.byConn_connected qpNum connected found
    split
    · refine reindex_evolves wellFormed rfl rfl fun ref alive => ?_
      rcases live_iff.mp alive with ⟨other, entry⟩ | entry
      · rcases lookup_insert_eq_some.mp entry with ⟨_, rfl⟩ | ⟨_, old⟩
        · exact live_iff.mpr (Or.inr ⟨qpNum, found⟩)
        · exact live_iff.mpr (Or.inl ⟨other, old⟩)
      · exact live_iff.mpr (Or.inr entry)
    · rename_i named namedFound
      refine ⟨le_rfl, fun ref _ => Or.inl (merge_kept isConnected ref), fun ref unmade => ?_,
        fun ref _ alive => ?_⟩
      · refine Or.inl ?_
        show ((executors.merge named connected).objects ref).books.Blank
        rw [(merge_kept isConnected ref).1]
        exact wellFormed.unmade_blank ref unmade
      · rcases live_iff.mp alive with entry | ⟨other, entry⟩
        · exact live_iff.mpr (Or.inl entry)
        · rcases lookup_insert_eq_some.mp entry with ⟨_, rfl⟩ | ⟨_, old⟩
          · exact live_iff.mpr (Or.inl ⟨name, namedFound⟩)
          · exact live_iff.mpr (Or.inr ⟨other, old⟩)

theorem removeExecutor_objects (executors : Executors) (qpNum : UInt32) :
    (executors.removeExecutor qpNum).2.objects = executors.objects := by
  unfold removeExecutor
  split <;> rfl

theorem removeExecutor_named {executors : Executors} {qpNum : UInt32} {name : String}
    (found : (executors.removeExecutor qpNum).2.byName.lookup name = some ref) :
    executors.byName.lookup name = some ref := by
  unfold removeExecutor at found
  split at found
  · exact found
  · exact (lookup_erase_eq_some.mp found).2

theorem removeExecutor_wellFormed {executors : Executors} (wellFormed : executors.WellFormed)
    (qpNum : UInt32) : (executors.removeExecutor qpNum).2.WellFormed := by
  unfold removeExecutor
  split
  · exact wellFormed
  · exact { wellFormed with
      byName_lt := fun name ref entry =>
        wellFormed.byName_lt name ref (lookup_erase_eq_some.mp entry).2
      byConn_lt := fun other ref entry =>
        wellFormed.byConn_lt other ref (lookup_erase_eq_some.mp entry).2
      byConn_connected := fun other ref entry =>
        wellFormed.byConn_connected other ref (lookup_erase_eq_some.mp entry).2 }

theorem removeExecutor_evolves {executors : Executors} (wellFormed : executors.WellFormed)
    (qpNum : UInt32) : Evolves executors (executors.removeExecutor qpNum).2 := by
  unfold removeExecutor
  split
  · exact Evolves.refl wellFormed
  · refine reindex_evolves wellFormed rfl rfl fun ref alive => ?_
    rw [live, Bool.or_eq_true] at alive ⊢
    exact alive.imp holds_of_holds_erase holds_of_holds_erase

end Executors

end RFaaS
