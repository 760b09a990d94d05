/-
This file is about disconnections. The resource manager finds executors in two
indexes, by node name and by queue pair, and a disconnection has to take an
executor out of both of them. `remove_executor` looks up the name in the executor
itself. That field is empty until the node is added, and a name can lead to an
executor that by then belongs to another queue pair.

The registry is the store with one ghost: the connection that each queue pair was
entered with. The discipline below rules out what goes wrong (a connection that
registers under two names, a name that two connections share, a node that
disconnects before it is added), and in every disciplined run a disconnection
removes its own executor from both indexes and no other one.
-/

import RFaaS.ExecutorDB

namespace RFaaS

open Transition Table Executors

/-! ### What does not concern the connections -/

namespace Executors

/-- Neither a description nor a lease changes who is connected and what the receives were posted
with. -/
structure SameConnections (before after : Executors) : Prop where
  fresh_le : before.fresh ≤ after.fresh
  byConn : after.byConn = before.byConn
  receives : after.receives = before.receives
  connection : ∀ ref < before.fresh,
    (after.objects ref).connection = (before.objects ref).connection
  receiveBuffer : ∀ ref < before.fresh,
    (after.objects ref).receiveBuffer = (before.objects ref).receiveBuffer

theorem SameConnections.refl (executors : Executors) : SameConnections executors executors :=
  ⟨le_rfl, rfl, rfl, fun _ _ => rfl, fun _ _ => rfl⟩

theorem SameConnections.trans {first second third : Executors}
    (left : SameConnections first second) (right : SameConnections second third) :
    SameConnections first third where
  fresh_le := left.fresh_le.trans right.fresh_le
  byConn := right.byConn.trans left.byConn
  receives := right.receives.trans left.receives
  connection ref made :=
    (right.connection ref (lt_of_lt_of_le made left.fresh_le)).trans (left.connection ref made)
  receiveBuffer ref made :=
    (right.receiveBuffer ref (lt_of_lt_of_le made left.fresh_le)).trans
      (left.receiveBuffer ref made)

theorem addExecutor_sameConnections (executors : Executors) (data : ServerData) :
    SameConnections executors (executors.addExecutor data).2 := by
  have other (ref : ExecutorRef) (old : ref < executors.fresh) :
      (executors.makeShared ((Executor.make executors.fresh).initializeData data)).objects ref =
        executors.objects ref := by
    rw [makeShared_objects, if_neg old.ne]
  have made : SameConnections executors
      (executors.makeShared ((Executor.make executors.fresh).initializeData data)) :=
    ⟨Nat.le_succ _, rfl, rfl, fun ref old => by rw [other ref old],
      fun ref old => by rw [other ref old]⟩
  unfold addExecutor
  dsimp only
  split
  · exact ⟨made.fresh_le, rfl, rfl, made.connection, made.receiveBuffer⟩
  · split
    · exact made
    · refine made.trans ⟨le_rfl, rfl, rfl, fun ref _ => ?_, fun ref _ => ?_⟩
      all_goals
        rw [store_objects]
        split
        · rename_i same
          rw [same]
          rfl
        · rfl

/-- Neither do the resources of an executor. -/
theorem store_sameConnections {executors : Executors} {ref : ExecutorRef} {executor : Executor}
    (connection : executor.connection = (executors.objects ref).connection)
    (receiveBuffer : executor.receiveBuffer = (executors.objects ref).receiveBuffer) :
    SameConnections executors (executors.store ref executor) := by
  refine ⟨le_rfl, rfl, rfl, fun other _ => ?_, fun other _ => ?_⟩
  · rw [store_objects]
    split
    · rename_i same
      rw [same, connection]
    · rfl
  · rw [store_objects]
    split
    · rename_i same
      rw [same, receiveBuffer]
    · rfl

end Executors

namespace ExecutorDB

/-- A lease concerns neither the connections nor the names. -/
theorem lease_frame (db : ExecutorDB) {op : StoreOp} (lease : op.isSetup = false) :
    SameConnections db.executors (db.step op).executors ∧
      (db.step op).executors.byName = db.executors.byName ∧
      ∀ ref, ((db.step op).executors.objects ref).node = (db.executors.objects ref).node := by
  cases op with
  | openLease cores memory =>
    dsimp only [step]
    rcases openLease_cases db cores memory with ⟨_, same⟩ | ⟨_, ref, _, _, _, _, _, _, same⟩
    · rw [same]
      exact ⟨.refl _, rfl, fun _ => rfl⟩
    · rw [same]
      exact ⟨store_sameConnections rfl rfl, rfl, store_node rfl⟩
  | closeLease msg =>
    dsimp only [step]
    rcases closeLease_cases db msg with ⟨_, same⟩ | ⟨_, _, _, same⟩ | ⟨_, ref, _, _, _, same⟩
    · rw [same]
      exact ⟨.refl _, rfl, fun _ => rfl⟩
    · rw [same]
      exact ⟨.refl _, rfl, fun _ => rfl⟩
    · rw [same]
      exact ⟨store_sameConnections rfl rfl, rfl, store_node rfl⟩
  | _ => cases lease

end ExecutorDB

/-! ### The registry -/

/-- The store, with the connection that each queue pair was entered with. -/
structure Registry where
  db : ExecutorDB
  current : Table UInt32 Connection

namespace Registry

def start : Registry := ⟨ExecutorDB.empty, ∅⟩

def step (registry : Registry) (op : StoreOp) : Registry where
  db := registry.db.step op
  current :=
    match op with
    | .connectExecutor connection => registry.current.insert connection.qpNum connection
    | .removeExecutor qpNum => registry.current.erase qpNum
    | _ => registry.current

/-- A disconnection that finds its queue pair takes it out of the one index, takes every executor
with its connection out of the other one, and leaves the executors of the queue pairs that are
still connected under their names. -/
def Clean (registry : Registry) : StoreOp → Prop
  | .removeExecutor qpNum => (registry.db.executors.removeExecutor qpNum).1 = true →
    let after := (registry.step (.removeExecutor qpNum)).db.executors
    after.byConn.lookup qpNum = none ∧
    (∀ connection, registry.current.lookup qpNum = some connection →
      ∀ name ref, after.byName.lookup name = some ref →
        (after.objects ref).connection ≠ some connection) ∧
    ∀ other connection,
      (registry.step (.removeExecutor qpNum)).current.lookup other = some connection →
      ∀ name ref, registry.db.executors.byName.lookup name = some ref →
        (registry.db.executors.objects ref).connection = some connection →
        after.byName.lookup name = some ref
  | _ => True

/-- The discipline. A connection is new when it is entered. It registers under one name, which is
not empty and does not lead to an executor of another queue pair. A node that has registered is
added before it disconnects. -/
def Orderly (registry : Registry) : StoreOp → Prop
  | .connectExecutor connection => ∀ name ref,
    registry.db.executors.byName.lookup name = some ref →
      (registry.db.executors.objects ref).connection ≠ some connection
  | .registerExecutor qpNum name => ∀ connected,
    registry.db.executors.byConn.lookup qpNum = some connected →
      name ≠ "" ∧
      (∀ other, registry.db.executors.byName.lookup other = some connected → other = name) ∧
      ∀ named, registry.db.executors.byName.lookup name = some named →
        ∀ other, registry.db.executors.byConn.lookup other = some named → other = qpNum
  | .removeExecutor qpNum => ∀ connected,
    registry.db.executors.byConn.lookup qpNum = some connected →
      ∀ name, registry.db.executors.byName.lookup name = some connected →
        (registry.db.executors.objects connected).node = name
  | _ => True

instance (registry : Registry) : DecidablePred registry.Orderly
  | .connectExecutor connection =>
    decidableForallLookup registry.db.executors.byName fun _ ref =>
      (registry.db.executors.objects ref).connection ≠ some connection
  | .registerExecutor qpNum name =>
    @Option.decidableForallMem _ _ (fun connected =>
      @instDecidableAnd _ _ (instDecidableNot) (@instDecidableAnd _ _
        (decidableForallKey registry.db.executors.byName connected (· = name))
        (@Option.decidableForallMem _ _ (fun named =>
          decidableForallKey registry.db.executors.byConn named (· = qpNum))
          (registry.db.executors.byName.lookup name))))
      (registry.db.executors.byConn.lookup qpNum)
  | .removeExecutor qpNum =>
    @Option.decidableForallMem _ _ (fun connected =>
      decidableForallKey registry.db.executors.byName connected
        ((registry.db.executors.objects connected).node = ·))
      (registry.db.executors.byConn.lookup qpNum)
  | .add _ _ _ _ _ | .read _ | .openLease _ _ | .closeLease _ => instDecidableTrue

/-! ### The invariant -/

/-- How the two indexes fit together in a disciplined run. -/
structure Tidy (executors : Executors) (current : Table UInt32 Connection) : Prop where
  own : ∀ qpNum connection, current.lookup qpNum = some connection → connection.qpNum = qpNum
  tracked : ∀ qpNum ref, executors.byConn.lookup qpNum = some ref →
    ∃ connection, current.lookup qpNum = some connection ∧
      (executors.objects ref).connection = some connection
  reached : ∀ name ref qpNum connection, executors.byName.lookup name = some ref →
    (executors.objects ref).connection = some connection →
    current.lookup qpNum = some connection → executors.byConn.lookup qpNum = some ref
  once : ∀ first second ref, executors.byName.lookup first = some ref →
    executors.byName.lookup second = some ref → first = second
  named : ∀ name ref, executors.byName.lookup name = some ref →
    (executors.objects ref).node = name ∨ (executors.objects ref).node = ""
  labelled : ∀ qpNum ref, executors.byConn.lookup qpNum = some ref →
    (executors.objects ref).node = "" ∨
      executors.byName.lookup (executors.objects ref).node = some ref
  nameless : ∀ qpNum ref, executors.byName.lookup "" = some ref →
    executors.byConn.lookup qpNum ≠ some ref

theorem start_tidy : Tidy start.db.executors start.current where
  own _ _ found := by cases found
  tracked _ _ found := by cases found
  reached _ _ _ _ found := by cases found
  once _ _ _ found := by cases found
  named _ _ found := by cases found
  labelled _ _ found := by cases found
  nameless _ _ found := by cases found

variable {executors : Executors} {current : Table UInt32 Connection}

/-- Two queue pairs never lead to one executor. -/
theorem Tidy.injective (tidy : Tidy executors current) {first second : UInt32} {ref : ExecutorRef}
    (one : executors.byConn.lookup first = some ref)
    (two : executors.byConn.lookup second = some ref) : first = second := by
  obtain ⟨connection, entered, here⟩ := tidy.tracked first ref one
  obtain ⟨other, again, there⟩ := tidy.tracked second ref two
  rw [here] at there
  rw [← Option.some.inj there] at again
  exact (tidy.own first connection entered).symm.trans (tidy.own second connection again)

variable {qpNum : UInt32}

section

variable (tidy : Tidy executors current)
include tidy

section

variable (wellFormed : executors.WellFormed)
include wellFormed

theorem Tidy.tracked_of_same
    {after : Executors} (same : SameConnections executors after) {ref : ExecutorRef}
    (found : after.byConn.lookup qpNum = some ref) :
    ∃ connection, current.lookup qpNum = some connection ∧
      (after.objects ref).connection = some connection := by
  rw [same.byConn] at found
  rw [same.connection ref (wellFormed.byConn_lt qpNum ref found)]
  exact tidy.tracked qpNum ref found

theorem Tidy.reached_of_same
    {after : Executors} (same : SameConnections executors after) {name : String}
    {ref : ExecutorRef} {connection : Connection}
    (found : executors.byName.lookup name = some ref)
    (here : (after.objects ref).connection = some connection)
    (entered : current.lookup qpNum = some connection) : after.byConn.lookup qpNum = some ref := by
  rw [same.connection ref (wellFormed.byName_lt name ref found)] at here
  rw [same.byConn]
  exact tidy.reached name ref qpNum connection found here entered

/-- What changes neither the connections nor the names keeps the registry tidy. -/
theorem Tidy.frame {after : Executors} (same : SameConnections executors after)
    (byName : after.byName = executors.byName)
    (node : ∀ ref < executors.fresh, (after.objects ref).node = (executors.objects ref).node) :
    Tidy after current where
  own := tidy.own
  tracked _ _ found := tidy.tracked_of_same wellFormed same found
  reached name ref qpNum connection found here entered := by
    rw [byName] at found
    exact tidy.reached_of_same wellFormed same found here entered
  once := by
    rw [byName]
    exact tidy.once
  named name ref found := by
    rw [byName] at found
    rw [node ref (wellFormed.byName_lt name ref found)]
    exact tidy.named name ref found
  labelled qpNum ref found := by
    rw [same.byConn] at found
    rw [node ref (wellFormed.byConn_lt qpNum ref found), byName]
    exact tidy.labelled qpNum ref found
  nameless := by
    rw [byName, same.byConn]
    exact tidy.nameless

/-! ### Adding a node -/

theorem Tidy.added {data : ServerData} {after : Executors} (same : SameConnections executors after)
    (added : Added executors data after) : Tidy after current := by
  cases added with
  | taken byName node => exact tidy.frame wellFormed same byName node
  | new absent byName made node =>
    have cases_byName {name : String} {ref : ExecutorRef}
        (found : after.byName.lookup name = some ref) :
        name = data.node ∧ ref = executors.fresh ∨
          executors.byName.lookup name = some ref ∧ ref < executors.fresh := by
      rw [byName] at found
      exact (lookup_insert_eq_some.mp found).imp_right fun old =>
        ⟨old.2, wellFormed.byName_lt name ref old.2⟩
    have connected {qpNum : UInt32} {ref : ExecutorRef}
        (found : after.byConn.lookup qpNum = some ref) :
        executors.byConn.lookup qpNum = some ref ∧ ref < executors.fresh := by
      rw [same.byConn] at found
      exact ⟨found, wellFormed.byConn_lt qpNum ref found⟩
    refine ⟨tidy.own, fun qpNum ref found => tidy.tracked_of_same wellFormed same found,
      fun name ref qpNum connection found here entered => ?_, fun first second ref one two => ?_,
      fun name ref found => ?_, fun qpNum ref found => ?_, fun qpNum ref found linked => ?_⟩
    · rcases cases_byName found with ⟨_, rfl⟩ | ⟨old, _⟩
      · rw [made.2] at here
        cases here
      · exact tidy.reached_of_same wellFormed same old here entered
    · rcases cases_byName one with ⟨rfl, rfl⟩ | ⟨old, made⟩
      · rcases cases_byName two with ⟨rfl, _⟩ | ⟨_, impossible⟩
        · rfl
        · exact absurd impossible (lt_irrefl _)
      · rcases cases_byName two with ⟨_, rfl⟩ | ⟨again, _⟩
        · exact absurd made (lt_irrefl _)
        · exact tidy.once first second ref old again
    · rcases cases_byName found with ⟨rfl, rfl⟩ | ⟨old, made⟩
      · exact Or.inl made.1
      · rw [node ref made]
        exact tidy.named name ref old
    · obtain ⟨old, made⟩ := connected found
      rw [node ref made]
      refine (tidy.labelled qpNum ref old).imp_right fun label => ?_
      rw [byName, lookup_insert_eq, if_neg, label]
      intro clash
      rw [clash, absent] at label
      cases label
    · obtain ⟨old, made⟩ := connected linked
      rcases cases_byName found with ⟨_, rfl⟩ | ⟨named, _⟩
      · exact absurd made (lt_irrefl _)
      · exact tidy.nameless qpNum ref named old
  | described existing present byName own node =>
    have labels (ref : ExecutorRef) (made : ref < executors.fresh) :
        ref = existing ∨ (after.objects ref).node = (executors.objects ref).node := by
      by_cases differs : ref = existing
      · exact Or.inl differs
      · exact Or.inr (node ref made differs)
    refine ⟨tidy.own, fun qpNum ref found => tidy.tracked_of_same wellFormed same found,
      fun name ref qpNum connection found here entered => ?_, by rw [byName]; exact tidy.once,
      fun name ref found => ?_, fun qpNum ref found => ?_,
      by rw [byName, same.byConn]; exact tidy.nameless⟩
    · rw [byName] at found
      exact tidy.reached_of_same wellFormed same found here entered
    · rw [byName] at found
      rcases labels ref (wellFormed.byName_lt name ref found) with rfl | kept
      · rw [own]
        exact Or.inl (tidy.once data.node name ref present found)
      · rw [kept]
        exact tidy.named name ref found
    · rw [same.byConn] at found
      rcases labels ref (wellFormed.byConn_lt qpNum ref found) with rfl | kept
      · rw [own, byName]
        exact Or.inr present
      · rw [kept, byName]
        exact tidy.labelled qpNum ref found

/-! ### Connections and registrations -/

theorem Tidy.connect {connection : Connection}
    (new : ∀ name ref, executors.byName.lookup name = some ref →
      (executors.objects ref).connection ≠ some connection) :
    Tidy (executors.connectExecutor connection)
      (current.insert connection.qpNum connection) := by
  have older (ref : ExecutorRef) (made : ref < executors.fresh) :
      (executors.connectExecutor connection).objects ref = executors.objects ref := by
    rw [connectExecutor_objects, if_neg made.ne]
  have linked {qpNum : UInt32} {ref : ExecutorRef}
      (found : (executors.connectExecutor connection).byConn.lookup qpNum = some ref) :
      qpNum = connection.qpNum ∧ ref = executors.fresh ∨
        qpNum ≠ connection.qpNum ∧ executors.byConn.lookup qpNum = some ref ∧
          ref < executors.fresh :=
    (lookup_insert_eq_some.mp found).imp_right fun old =>
      ⟨old.1, old.2, wellFormed.byConn_lt qpNum ref old.2⟩
  refine ⟨fun qpNum other entered => ?_, fun qpNum ref found => ?_,
    fun name ref qpNum other found here entered => ?_, tidy.once, fun name ref found => ?_,
    fun qpNum ref found => ?_, fun qpNum ref found linkedTo => ?_⟩
  · rcases lookup_insert_eq_some.mp entered with ⟨rfl, rfl⟩ | ⟨_, old⟩
    · rfl
    · exact tidy.own qpNum other old
  · rw [lookup_insert_eq]
    rcases linked found with ⟨rfl, rfl⟩ | ⟨differs, old, made⟩
    · rw [if_pos rfl, connectExecutor_objects, if_pos rfl]
      exact ⟨connection, rfl, rfl⟩
    · rw [if_neg differs, older ref made]
      exact tidy.tracked qpNum ref old
  · replace found : executors.byName.lookup name = some ref := found
    rw [older ref (wellFormed.byName_lt name ref found)] at here
    rcases lookup_insert_eq_some.mp entered with ⟨_, rfl⟩ | ⟨differs, old⟩
    · exact absurd here (new name ref found)
    · exact lookup_insert_eq_some.mpr
        (Or.inr ⟨differs, tidy.reached name ref qpNum other found here old⟩)
  · replace found : executors.byName.lookup name = some ref := found
    rw [older ref (wellFormed.byName_lt name ref found)]
    exact tidy.named name ref found
  · rcases linked found with ⟨_, rfl⟩ | ⟨_, old, made⟩
    · rw [connectExecutor_objects, if_pos rfl]
      exact Or.inl rfl
    · rw [older ref made]
      exact tidy.labelled qpNum ref old
  · replace found : executors.byName.lookup "" = some ref := found
    rcases linked linkedTo with ⟨_, rfl⟩ | ⟨_, old, _⟩
    · exact lt_irrefl _ (wellFormed.byName_lt "" _ found)
    · exact tidy.nameless qpNum ref found old

end

/-- A registration under a name that is not known. -/
theorem Tidy.enter {connected : ExecutorRef} {name : String}
    (found : executors.byConn.lookup qpNum = some connected)
    (absent : executors.byName.lookup name = none) (nonempty : name ≠ "")
    (alone : ∀ other, executors.byName.lookup other = some connected → other = name) :
    Tidy { executors with byName := executors.byName.insert name connected } current := by
  have unnamed (other : String) : executors.byName.lookup other ≠ some connected := by
    intro present
    rw [alone other present, absent] at present
    cases present
  refine ⟨tidy.own, tidy.tracked, fun other ref qp connection named here entered => ?_,
    fun first second ref one two => ?_, fun other ref named => ?_, fun qp ref linked => ?_,
    fun qp ref named linked => ?_⟩
  · rcases lookup_insert_eq_some.mp named with ⟨_, rfl⟩ | ⟨_, old⟩
    · obtain ⟨own, known, there⟩ := tidy.tracked qpNum ref found
      rw [there] at here
      rw [← Option.some.inj here] at entered
      rw [← tidy.own qp own entered, tidy.own qpNum own known]
      exact found
    · exact tidy.reached other ref qp connection old here entered
  · rcases lookup_insert_eq_some.mp one with ⟨rfl, rfl⟩ | ⟨_, left⟩
    · rcases lookup_insert_eq_some.mp two with ⟨rfl, _⟩ | ⟨_, right⟩
      · rfl
      · exact absurd right (unnamed _)
    · rcases lookup_insert_eq_some.mp two with ⟨_, rfl⟩ | ⟨_, right⟩
      · exact absurd left (unnamed _)
      · exact tidy.once first second ref left right
  · rcases lookup_insert_eq_some.mp named with ⟨_, rfl⟩ | ⟨_, old⟩
    · exact Or.inr ((tidy.labelled qpNum ref found).resolve_right (unnamed _))
    · exact tidy.named other ref old
  · refine (tidy.labelled qp ref linked).imp_right fun label => ?_
    show (executors.byName.insert name connected).lookup _ = some ref
    rw [lookup_insert_eq, if_neg, label]
    intro clash
    rw [clash, absent] at label
    cases label
  · rcases lookup_insert_eq_some.mp named with ⟨blank, _⟩ | ⟨_, old⟩
    · exact nonempty blank.symm
    · exact tidy.nameless qp ref old linked

/-- A registration under the name of an executor that no other queue pair leads to. -/
theorem Tidy.merge {connected named : ExecutorRef} {name : String}
    (found : executors.byConn.lookup qpNum = some connected)
    (present : executors.byName.lookup name = some named) (nonempty : name ≠ "")
    (alone : ∀ other, executors.byName.lookup other = some connected → other = name)
    (free : ∀ other, executors.byConn.lookup other = some named → other = qpNum) :
    Tidy { executors.merge named connected with
      byConn := executors.byConn.insert qpNum named } current := by
  have node (ref : ExecutorRef) : ((executors.merge named connected).objects ref).node =
      (executors.objects ref).node := by
    rw [merge_objects]
  have connection (ref : ExecutorRef) :
      ((executors.merge named connected).objects ref).connection =
        if ref = named then (executors.objects connected).connection
        else (executors.objects ref).connection := by
    rw [merge_objects]
  obtain ⟨own, known, here⟩ := tidy.tracked qpNum connected found
  refine ⟨tidy.own, fun qp ref linked => ?_, fun other ref qp entry label there entered => ?_,
    tidy.once, fun other ref label => ?_, fun qp ref linked => ?_, fun qp ref label linked => ?_⟩
  · dsimp only
    rw [connection]
    rcases lookup_insert_eq_some.mp linked with ⟨rfl, rfl⟩ | ⟨differs, old⟩
    · rw [if_pos rfl]
      exact ⟨own, known, here⟩
    · have other : ref ≠ named := by
        rintro rfl
        exact differs (free qp old)
      rw [if_neg other]
      exact tidy.tracked qp ref old
  · replace label : executors.byName.lookup other = some ref := label
    dsimp only at there ⊢
    rw [connection] at there
    rw [lookup_insert_eq]
    split at there
    · rename_i same
      rw [here] at there
      rw [← Option.some.inj there] at entered
      rw [if_pos ((tidy.own qp own entered).symm.trans (tidy.own qpNum own known)), same]
    · rename_i differs
      have linked := tidy.reached other ref qp entry label there entered
      rw [if_neg, linked]
      rintro rfl
      rw [found] at linked
      rw [← Option.some.inj linked] at label differs
      rw [alone other label, present] at label
      exact differs (Option.some.inj label).symm
  · rw [node]
    exact tidy.named other ref label
  · dsimp only
    rw [node]
    rcases lookup_insert_eq_some.mp linked with ⟨_, rfl⟩ | ⟨_, old⟩
    · rcases tidy.named name ref present with own | blank
      · rw [own]
        exact Or.inr present
      · exact Or.inl blank
    · exact tidy.labelled qp ref old
  · replace label : executors.byName.lookup "" = some ref := label
    rcases lookup_insert_eq_some.mp linked with ⟨_, rfl⟩ | ⟨_, old⟩
    · exact nonempty (tidy.once name "" ref present label)
    · exact tidy.nameless qp ref label old

end

/-! ### Disconnections -/

theorem removeExecutor_of_some {connected : ExecutorRef}
    (found : executors.byConn.lookup qpNum = some connected) :
    executors.removeExecutor qpNum = (true, { executors with
      byName := executors.byName.erase (executors.objects connected).node
      byConn := executors.byConn.erase qpNum }) := by
  rw [removeExecutor, found]

/-- The name in the executor of one queue pair is not that of the executor of another one. -/
theorem Tidy.label_ne (tidy : Tidy executors current) {qpNum other : UInt32}
    {connected ref : ExecutorRef} (found : executors.byConn.lookup qpNum = some connected)
    (linked : executors.byConn.lookup other = some ref) (differs : other ≠ qpNum) {name : String}
    (label : executors.byName.lookup name = some ref) :
    name ≠ (executors.objects connected).node := by
  rintro rfl
  rcases tidy.labelled qpNum connected found with blank | own
  · rw [blank] at label
    exact tidy.nameless other ref label linked
  · rw [own] at label
    rw [← Option.some.inj label] at linked
    exact differs (tidy.injective linked found)

theorem Tidy.remove (tidy : Tidy executors current) (qpNum : UInt32) :
    Tidy (executors.removeExecutor qpNum).2 (current.erase qpNum) := by
  have own (qp : UInt32) (connection : Connection)
      (entered : (current.erase qpNum).lookup qp = some connection) : connection.qpNum = qp :=
    tidy.own qp connection (lookup_erase_eq_some.mp entered).2
  cases found : executors.byConn.lookup qpNum with
  | none =>
    have same : (executors.removeExecutor qpNum).2 = executors := by
      rw [removeExecutor, found]
    rw [same]
    refine { tidy with
      own := own
      tracked := fun qp ref linked => ?_
      reached := fun name ref qp connection label here entered =>
        tidy.reached name ref qp connection label here (lookup_erase_eq_some.mp entered).2 }
    rw [lookup_erase_eq, if_neg]
    · exact tidy.tracked qp ref linked
    · rintro rfl
      rw [found] at linked
      cases linked
  | some connected =>
    rw [removeExecutor_of_some found]
    have kept {name : String} {ref : ExecutorRef}
        (label : (executors.byName.erase (executors.objects connected).node).lookup name =
          some ref) : executors.byName.lookup name = some ref :=
      (lookup_erase_eq_some.mp label).2
    refine ⟨own, fun qp ref linked => ?_, fun name ref qp connection label here entered => ?_,
      fun first second ref one two => tidy.once first second ref (kept one) (kept two),
      fun name ref label => tidy.named name ref (kept label), fun qp ref linked => ?_,
      fun qp ref label linked =>
        tidy.nameless qp ref (kept label) (lookup_erase_eq_some.mp linked).2⟩
    · obtain ⟨differs, linked⟩ := lookup_erase_eq_some.mp linked
      rw [lookup_erase_eq, if_neg differs]
      exact tidy.tracked qp ref linked
    · obtain ⟨differs, entered⟩ := lookup_erase_eq_some.mp entered
      dsimp only
      rw [lookup_erase_eq, if_neg differs]
      exact tidy.reached name ref qp connection (kept label) here entered
    · obtain ⟨differs, linked⟩ := lookup_erase_eq_some.mp linked
      refine (tidy.labelled qp ref linked).imp_right fun label => ?_
      dsimp only
      rw [lookup_erase_eq, if_neg (tidy.label_ne found linked differs label)]
      exact label

/-- In a tidy registry, a node that has registered and was added disconnects cleanly. -/
theorem Tidy.clean {registry : Registry} (tidy : Tidy registry.db.executors registry.current)
    {op : StoreOp} (orderly : registry.Orderly op) : registry.Clean op := by
  cases op with
  | removeExecutor qpNum =>
    intro removed
    cases found : registry.db.executors.byConn.lookup qpNum with
    | none =>
      rw [removeExecutor, found] at removed
      cases removed
    | some connected =>
      have after : (registry.step (.removeExecutor qpNum)).db.executors =
          { registry.db.executors with
            byName := registry.db.executors.byName.erase
              (registry.db.executors.objects connected).node
            byConn := registry.db.executors.byConn.erase qpNum } := by
        show (registry.db.executors.removeExecutor qpNum).2 = _
        rw [removeExecutor_of_some found]
      dsimp only
      rw [after]
      refine ⟨AList.lookup_erase _ _, fun connection entered name ref label here => ?_,
        fun other connection entered name ref label here => ?_⟩
      · obtain ⟨differs, label⟩ := lookup_erase_eq_some.mp label
        have linked := tidy.reached name ref qpNum connection label here entered
        rw [found] at linked
        rw [← Option.some.inj linked] at label
        exact differs (orderly connected found name label).symm
      · obtain ⟨differs, entered⟩ := lookup_erase_eq_some.mp entered
        have linked := tidy.reached name ref other connection label here entered
        rw [lookup_erase_eq, if_neg (tidy.label_ne found linked differs label)]
        exact label
  | _ => trivial

/-! ### Runs -/

/-- What a disciplined run keeps. -/
structure Sound (registry : Registry) : Prop where
  consistent : registry.db.Consistent
  tidy : Tidy registry.db.executors registry.current

theorem addNode_tidy {db : ExecutorDB} (consistent : db.Consistent)
    (tidy : Tidy db.executors current) (data : ServerData) :
    Tidy (db.addNode data).2.executors current := by
  rw [ExecutorDB.addNode_executors]
  exact tidy.added consistent.wellFormed (addExecutor_sameConnections _ data)
    (addExecutor_added _ data)

theorem read_tidy {db : ExecutorDB} (consistent : db.Consistent)
    (tidy : Tidy db.executors current) (servers : List ServerData) :
    Tidy (db.read servers).executors current := by
  have both := @ExecutorDB.read_rule (fun db => db.Consistent ∧ Tidy db.executors current)
    (fun _ server both => ⟨both.1.addNode server, addNode_tidy both.1 both.2 server⟩) db
    ⟨consistent, tidy⟩ servers
  exact both.2

theorem Sound.step {registry : Registry} (sound : registry.Sound) {op : StoreOp}
    (orderly : registry.Orderly op) : (registry.step op).Sound := by
  refine ⟨sound.consistent.step op, ?_⟩
  have tidy := sound.tidy
  have wellFormed := sound.consistent.wellFormed
  cases op with
  | add nodeName ipAddress port cores memory =>
    show Tidy (registry.db.add nodeName ipAddress port cores memory).2.executors registry.current
    rw [ExecutorDB.add_addNode]
    split
    · exact tidy
    · exact addNode_tidy sound.consistent tidy _
  | read servers => exact read_tidy sound.consistent tidy servers
  | connectExecutor => exact tidy.connect wellFormed orderly
  | registerExecutor qpNum name =>
    show Tidy (registry.db.executors.registerExecutor qpNum name).2 registry.current
    unfold registerExecutor
    cases found : registry.db.executors.byConn.lookup qpNum with
    | none => exact tidy
    | some connected =>
      obtain ⟨nonempty, alone, free⟩ := orderly connected found
      dsimp only
      cases present : registry.db.executors.byName.lookup name with
      | none => exact tidy.enter found present nonempty alone
      | some named => exact tidy.merge found present nonempty alone (free named present)
  | removeExecutor qpNum => exact tidy.remove qpNum
  | openLease cores memory =>
    obtain ⟨same, byName, node⟩ := ExecutorDB.lease_frame registry.db
      (show (StoreOp.openLease cores memory).isSetup = false from rfl)
    exact tidy.frame wellFormed same byName fun ref _ => node ref
  | closeLease msg =>
    obtain ⟨same, byName, node⟩ := ExecutorDB.lease_frame registry.db
      (show (StoreOp.closeLease msg).isSetup = false from rfl)
    exact tidy.frame wellFormed same byName fun ref _ => node ref

theorem start_sound : start.Sound := ⟨ExecutorDB.empty_consistent, start_tidy⟩

/-- In every disciplined run, every disconnection removes its own executor from both indexes and
no executor of another queue pair from either. -/
theorem disconnections_clean (ops : List StoreOp) (orderly : Along step Orderly start ops) :
    Along step Clean start ops :=
  orderly.of_invariant (fun _ _ sound orderly => sound.step orderly)
    (fun _ _ sound orderly => sound.tidy.clean orderly) start_sound

/-- Two nodes join, one of them before it is added, and one leaves. -/
def twoNodes : List StoreOp :=
  [.read [⟨10000, 4, 1024, "10.0.0.1", "n1"⟩], .connectExecutor ⟨0, 7⟩, .registerExecutor 7 "n1",
    .connectExecutor ⟨1, 8⟩, .registerExecutor 8 "n2",
    .read [⟨10000, 4, 1024, "10.0.0.2", "n2"⟩], .removeExecutor 8]

theorem disconnections_clean_twoNodes :
    Along step Orderly start twoNodes ∧ Along step Clean start twoNodes :=
  have orderly : Along step Orderly start twoNodes := by decide +kernel
  ⟨orderly, disconnections_clean twoNodes orderly⟩

/-- A node that registers and disconnects before it is added stays under its name. -/
theorem disconnection_leaves_name :
    let registry := run step start [.connectExecutor ⟨0, 7⟩, .registerExecutor 7 "n1"]
    let after := (registry.step (.removeExecutor 7)).db.executors
    (registry.db.executors.removeExecutor 7).1 = true ∧
      registry.current.lookup 7 = some ⟨0, 7⟩ ∧ after.byName.lookup "n1" = some 0 ∧
      (after.objects 0).connection = some ⟨0, 7⟩ := by
  decide +kernel

/-- Of two connections under one name, the first one that goes takes the other one with it. -/
example :
    let registry := run step start [.read [⟨10000, 4, 1024, "10.0.0.1", "n1"⟩],
      .connectExecutor ⟨0, 7⟩, .registerExecutor 7 "n1", .connectExecutor ⟨1, 8⟩,
      .registerExecutor 8 "n1"]
    let after := (registry.step (.removeExecutor 7)).db.executors
    registry.current.lookup 8 = some ⟨1, 8⟩ ∧
      registry.db.executors.byName.lookup "n1" = some 0 ∧
      (registry.db.executors.objects 0).connection = some ⟨1, 8⟩ ∧
      after.byName.lookup "n1" = none := by
  decide +kernel

end Registry

end RFaaS
