/-
This file is about the database file of the resource manager
(`ExecutorDB::write` and `ExecutorDB::read`). The dump goes through the
executors by name and writes what they say about themselves, their node field
included; the reload adds every entry under the name in that field. A name of
the index and the field of its executor can differ: the field is empty until
the node is added, and a connection can register under a second name.

What is read back is the store that was written exactly if they agree.
-/

import RFaaS.ExecutorDB
import Mathlib.Data.List.Perm.Basic

namespace RFaaS

open Transition List

namespace ExecutorDB

/-- `ExecutorDB::write`: the servers that go into the file, in some order of the index. -/
def write (db : ExecutorDB) : List ServerData :=
  db.executors.byName.entries.map fun entry => (db.executors.objects entry.2).toServerData

/-- The executor found under each name has that name. -/
def Named (db : ExecutorDB) : Prop :=
  ∀ name ref, db.executors.byName.lookup name = some ref →
    (db.executors.objects ref).node = name

instance (db : ExecutorDB) : Decidable db.Named :=
  Table.decidableForallLookup db.executors.byName fun name ref =>
    (db.executors.objects ref).node = name

variable {db : ExecutorDB}

theorem Named.addNode (named : db.Named) (wellFormed : db.executors.WellFormed)
    (data : ServerData) : (db.addNode data).2.Named := by
  intro name ref found
  rw [addNode_executors] at found ⊢
  cases Executors.addExecutor_added db.executors data with
  | new absent byName made node =>
    rw [byName] at found
    rcases Table.lookup_insert_eq_some.mp found with ⟨rfl, rfl⟩ | ⟨_, old⟩
    · exact made.1
    · rw [node ref (wellFormed.byName_lt name ref old)]
      exact named name ref old
  | taken byName node =>
    rw [byName] at found
    rw [node ref (wellFormed.byName_lt name ref found)]
    exact named name ref found
  | described existing present byName own node =>
    rw [byName] at found
    by_cases same : ref = existing
    · rw [same, own, ← named data.node existing present, ← same]
      exact named name ref found
    · rw [node ref (wellFormed.byName_lt name ref found) same]
      exact named name ref found

theorem Named.read (named : db.Named) (wellFormed : db.executors.WellFormed)
    (servers : List ServerData) : (db.read servers).Named := by
  have both := @read_rule (fun db => db.Named ∧ db.executors.WellFormed)
    (fun _ server both =>
      ⟨both.1.addNode both.2 server, (addNode_prepared both.2 server).wellFormed⟩) db
    ⟨named, wellFormed⟩ servers
  exact both.1

/-! ### Reading new names -/

/-- What a reload of servers with new and distinct names adds to a store. -/
structure Extended (db after : ExecutorDB) (servers : List ServerData) : Prop where
  others : ∀ name, (∀ server ∈ servers, server.node ≠ name) →
    after.executors.byName.lookup name = db.executors.byName.lookup name
  objects : ∀ ref < db.executors.fresh, after.executors.objects ref = db.executors.objects ref
  fresh_le : db.executors.fresh ≤ after.executors.fresh
  count : ∀ ref < db.executors.fresh,
    after.freeNodes.count (some ref) = db.freeNodes.count (some ref)
  listed_lt : ∀ ref, some ref ∈ after.freeNodes → ref < after.executors.fresh
  added : ∀ server ∈ servers, ∃ ref, after.executors.byName.lookup server.node = some ref ∧
    after.executors.objects ref = (Executor.make ref).initializeData server ∧
    after.freeNodes.count (some ref) = 1

theorem Extended.trans {first second third : ExecutorDB} {server : ServerData}
    {rest : List ServerData} (wellFormed : second.executors.WellFormed)
    (head : Extended first second [server])
    (tail : Extended second third rest) (new : ∀ other ∈ rest, other.node ≠ server.node) :
    Extended first third (server :: rest) where
  others name other :=
    (tail.others name fun member inside => other member (mem_cons_of_mem _ inside)).trans
      (head.others name fun member inside => by
        rw [mem_singleton.mp inside]
        exact other server mem_cons_self)
  objects ref old :=
    (tail.objects ref (lt_of_lt_of_le old head.fresh_le)).trans (head.objects ref old)
  fresh_le := head.fresh_le.trans tail.fresh_le
  count ref old := (tail.count ref (lt_of_lt_of_le old head.fresh_le)).trans (head.count ref old)
  listed_lt := tail.listed_lt
  added other member := by
    rcases mem_cons.mp member with rfl | inside
    · obtain ⟨ref, found, made, once⟩ := head.added other mem_cons_self
      have old := wellFormed.byName_lt other.node ref found
      refine ⟨ref, (tail.others other.node new).trans found, (tail.objects ref old).trans made, ?_⟩
      rw [tail.count ref old]
      exact once
    · exact tail.added other inside

end ExecutorDB

end RFaaS
