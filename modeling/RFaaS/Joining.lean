/-
This file is about how a node joins the resource manager. It does so in two
halves that come from different threads: the description of the node is added
(`ExecutorDB::add` or `read`), and the node connects and registers its name.

When the node is added first, the registration hands the connection to the
executor that was added, and the free list refers to that executor. When it
registers first, `add_executor` gives the description to the registered executor
but returns a pointer to another one, which nobody owns: the entry of the free
list has expired before anyone reads it, and no lease is ever granted on the
node.
-/

import RFaaS.ExecutorDB

namespace RFaaS

namespace ExecutorDB

open Executors

/-- A node connects and then registers under its name. -/
def joins (db : ExecutorDB) (connection : Connection) (name : String) : ExecutorDB :=
  (db.step (.connectExecutor connection)).step (.registerExecutor connection.qpNum name)

/-- The executor found under the name of the node is also the one found under its queue pair. It
has the description that was given, it is initialised, and the free list refers to it. -/
def Ready (db : ExecutorDB) (qpNum : UInt32) (data : ServerData) : Prop :=
  ∃ ref, db.executors.byName.lookup data.node = some ref ∧
    db.executors.byConn.lookup qpNum = some ref ∧
    (db.executors.objects ref).toServerData = data ∧
    (db.executors.objects ref).isInitialized = true ∧ some ref ∈ db.freeNodes

variable {db : ExecutorDB} {connection : Connection} {name : String}

/-- A node whose name is not known is found as the executor of its connection. -/
theorem joins_of_absent (absent : db.executors.byName.lookup name = none) :
    db.joins connection name = { db with
      executors := { db.executors.connectExecutor connection with
        byName := db.executors.byName.insert name db.executors.fresh } } := by
  have unnamed : (db.executors.connectExecutor connection).byName.lookup name = none := absent
  simp only [joins, step, registerExecutor, connectExecutor_lookup, unnamed]
  rfl

/-- A node whose name is known gets its connection merged into the executor of that name. -/
theorem joins_of_named {named : ExecutorRef}
    (present : db.executors.byName.lookup name = some named) :
    db.joins connection name = { db with
      executors := { (db.executors.connectExecutor connection).merge named db.executors.fresh with
        byConn := (db.executors.connectExecutor connection).byConn.insert connection.qpNum
          named } } := by
  have found : (db.executors.connectExecutor connection).byName.lookup name = some named := present
  simp only [joins, step, registerExecutor, connectExecutor_lookup, found]
  rfl

/-! ### Added first -/

theorem addNode_ready {data : ServerData} (absent : db.executors.byName.lookup data.node = none)
    (named : data.node ≠ "") (connection : Connection) :
    ((db.addNode data).2.joins connection data.node).Ready connection.qpNum data := by
  rw [addNode_of_absent absent, joins_of_named (AList.lookup_insert _)]
  set added : Executors := { db.executors.makeShared
      ((Executor.make db.executors.fresh).initializeData data) with
    byName := db.executors.byName.insert data.node db.executors.fresh }
  -- The registration makes the executor behind the one that was added and merges it into that.
  have older : db.executors.fresh ≠ added.fresh := Nat.ne_of_lt (Nat.lt_succ_self _)
  have own : (added.connectExecutor connection).objects db.executors.fresh =
      (Executor.make db.executors.fresh).initializeData data := by
    rw [connectExecutor_objects, if_neg older]
    exact (makeShared_objects _ _ _).trans (if_pos rfl)
  have connected : ((added.connectExecutor connection).objects added.fresh).connection.isSome =
      true := by
    rw [connectExecutor_objects, if_pos rfl]
    rfl
  have merged : (((added.connectExecutor connection).merge db.executors.fresh
      added.fresh).objects db.executors.fresh).toServerData = data := by
    rw [merge_objects, own]
    rfl
  refine ⟨db.executors.fresh, AList.lookup_insert _, AList.lookup_insert _, merged, ?_,
    List.mem_append_right _ (List.mem_singleton_self _)⟩
  refine Executor.isInitialized_iff.mpr ⟨?_, merge_connected connected⟩
  rw [congrArg ServerData.node merged]
  exact named

/-! ### Registered first -/

/-- Where the name is taken by an executor that is not initialised, the free list gets the
reference of an executor that no index refers to. -/
theorem addNode_of_waiting {data : ServerData} {existing : ExecutorRef}
    (present : db.executors.byName.lookup data.node = some existing)
    (made : existing < db.executors.fresh)
    (waiting : (db.executors.objects existing).isInitialized = false) :
    (db.addNode data).2.executors.byName = db.executors.byName ∧
      (db.addNode data).2.freeNodes = db.freeNodes ++ [some db.executors.fresh] := by
  have found : (db.executors.makeShared ((Executor.make db.executors.fresh).initializeData
      data)).byName.lookup data.node = some existing := present
  have idle : ((db.executors.makeShared ((Executor.make db.executors.fresh).initializeData
      data)).objects existing).isInitialized = false := by
    rw [makeShared_objects, if_neg made.ne]
    exact waiting
  simp only [addNode, addExecutor, found, idle]
  exact ⟨rfl, rfl⟩

/-- The executor of a node that was registered before it is added is not in the free list. -/
theorem add_unlisted (consistent : db.Consistent)
    (absent : db.executors.byName.lookup name = none) (connection : Connection)
    (ipAddress : String) (port cores memory : Int) :
    let late := ((db.joins connection name).add name ipAddress port cores memory).2
    late.executors.byName.lookup name = some db.executors.fresh ∧
      some db.executors.fresh ∉ late.freeNodes := by
  intro late
  have unlisted : some db.executors.fresh ∉ db.freeNodes := fun member =>
    lt_irrefl _ (consistent.listed_lt _ member)
  have joined := @joins_of_absent db connection name absent
  have present : (db.joins connection name).executors.byName.lookup name =
      some db.executors.fresh := by
    rw [joined]
    exact AList.lookup_insert _
  have listed : (db.joins connection name).freeNodes = db.freeNodes := by rw [joined]
  have next : (db.joins connection name).executors.fresh = db.executors.fresh + 1 := by
    rw [joined]
    rfl
  have waiting : ((db.joins connection name).executors.objects
      db.executors.fresh).isInitialized = false := by
    rw [joined]
    show ((db.executors.connectExecutor connection).objects _).isInitialized = false
    rw [connectExecutor_objects, if_pos rfl]
    rfl
  have added := add_addNode (db.joins connection name) name ipAddress port cores memory
  by_cases short : name.length < nodeNameLength
  · have same : late = db.joins connection name := added.trans (if_pos short)
    rw [same, listed]
    exact ⟨present, unlisted⟩
  · have same : late = _ := added.trans (if_neg short)
    obtain ⟨byName, freeNodes⟩ := @addNode_of_waiting (db.joins connection name)
      ⟨port, toInt16 cores, memory, ipAddress, name⟩ db.executors.fresh present
      (by rw [next]; exact Nat.lt_succ_self _) waiting
    rw [same, byName, freeNodes, next, listed]
    refine ⟨present, fun member => ?_⟩
    rcases List.mem_append.mp member with old | last
    · exact unlisted old
    · exact absurd (Option.some.inj (List.mem_singleton.mp last))
        (Nat.ne_of_lt (Nat.lt_succ_self _))

/-- In every state of the store and for every node whose name is not known: a node that is added
before it registers is ready, and a node that is added after it has registered never is. -/
theorem ready_only_if_added_first (ops : List StoreOp) (name ipAddress : String)
    (port cores memory : Int) (connection : Connection)
    (unknown : (Transition.run step empty ops).executors.byName.lookup name = none) :
    let db := Transition.run step empty ops
    let data : ServerData := ⟨port, toInt16 cores, memory, ipAddress, name⟩
    (nodeNameLength ≤ name.length →
      ((db.add name ipAddress port cores memory).2.joins connection name).Ready connection.qpNum
        data) ∧
    (name ≠ "" → ((db.read [data]).joins connection name).Ready connection.qpNum data) ∧
    ∀ given : ServerData, given.node = name →
      ¬ ((db.joins connection name).add name ipAddress port cores memory).2.Ready
        connection.qpNum given := by
  intro db data
  refine ⟨fun long => ?_, fun named => addNode_ready unknown named connection, ?_⟩
  · have named : name ≠ "" := by
      rintro rfl
      exact absurd long (by decide)
    rw [add_addNode, if_neg (Nat.not_lt.mpr long)]
    exact addNode_ready unknown named connection
  · rintro given rfl ⟨ref, found, _, _, _, listed⟩
    obtain ⟨present, unlisted⟩ := add_unlisted (run_consistent ops) unknown connection ipAddress
      port cores memory
    rw [present] at found
    rw [← Option.some.inj found] at listed
    exact unlisted listed

/-- A name that `add` accepts. -/
def longName : String := "node-0000000000000000000000000001"

theorem ready_only_if_added_first_long :
    (((empty.add longName "10.0.0.1" 10000 4 1024).2.joins ⟨0, 7⟩ longName).Ready 7
        ⟨10000, 4, 1024, "10.0.0.1", longName⟩) ∧
      ¬ ((empty.joins ⟨0, 7⟩ longName).add longName "10.0.0.1" 10000 4 1024).2.Ready 7
        ⟨10000, 4, 1024, "10.0.0.1", longName⟩ := by
  obtain ⟨first, _, late⟩ :=
    ready_only_if_added_first [] longName "10.0.0.1" 10000 4 1024 ⟨0, 7⟩ (by decide)
  exact ⟨first (by decide), late _ rfl⟩

/-- The same node in either order. Only the one that was added first gets a lease, although the
other one has the same description and is connected. -/
theorem registered_node_gets_no_lease :
    let early := (empty.add longName "10.0.0.1" 10000 4 1024).2.joins ⟨0, 7⟩ longName
    let late := ((empty.joins ⟨0, 7⟩ longName).add longName "10.0.0.1" 10000 4 1024).2
    (early.openLease 1 128).1.isSome ∧ (late.openLease 1 128).1 = none ∧
      late.executors.byName.lookup longName = some 0 ∧ late.executors.byConn.lookup 7 = some 0 ∧
      (late.executors.objects 0).isInitialized ∧ late.freeNodes = [some 1] ∧
      late.executors.lock (some 1) = none := by
  decide +kernel

end ExecutorDB

end RFaaS
