/-
This file is about the second `LeaseDeallocation` for one lease. `close_lease`
looks the lease up and credits its executor, but it never takes the record out
of the table. A record that is there at the first message is therefore there at
the second one, whatever happens in between, and the second message is handled
like the first: it is ignored exactly if the first one was.
-/

import RFaaS.ExecutorDB

namespace RFaaS

namespace ExecutorDB

open Transition

/-- The message is ignored with the warning about a non-existing lease: no counter, no entry of
the free list and no lease changes. -/
def Ignores (db : ExecutorDB) (msg : LeaseDeallocation) : Prop :=
  db.closeLease msg = (.nonExisting, db)

/-- The operation does not grant a lease under `id`. -/
def GrantsOther (id : UInt32) (db : ExecutorDB) : StoreOp → Prop
  | .openLease cores memory => (db.openLease cores memory).1 = none ∨ db.leaseCount ≠ id
  | _ => True

instance (id : UInt32) (db : ExecutorDB) (op : StoreOp) : Decidable (GrantsOther id db op) := by
  unfold GrantsOther
  split <;> infer_instance

theorem ignores_iff {db : ExecutorDB} {msg : LeaseDeallocation} :
    db.Ignores msg ↔ db.leases.lookup msg.leaseId.toUInt32 = none := by
  unfold Ignores
  rcases closeLease_cases db msg with
    ⟨absent, same⟩ | ⟨lease, found, _, same⟩ | ⟨lease, ref, found, _, _, same⟩
  · rw [same, absent]
    exact ⟨fun _ => rfl, fun _ => rfl⟩
  · rw [same, found]
    exact ⟨nofun, nofun⟩
  · rw [same, found]
    exact ⟨nofun, nofun⟩

theorem closeLease_leases (db : ExecutorDB) (msg : LeaseDeallocation) :
    (db.closeLease msg).2.leases = db.leases := by
  rcases closeLease_cases db msg with
    ⟨_, same⟩ | ⟨_, _, _, same⟩ | ⟨_, _, _, _, _, same⟩ <;> rw [same]

/-- One step touches the record of a lease only by granting a lease under the same id. -/
theorem lookup_step {id : UInt32} {db : ExecutorDB} {op : StoreOp} (other : GrantsOther id db op) :
    (db.step op).leases.lookup id = db.leases.lookup id := by
  cases op with
  | openLease cores memory =>
    show (db.openLease cores memory).2.leases.lookup id = _
    rcases openLease_cases db cores memory with
      ⟨_, same⟩ | ⟨before, ref, rest, response, _, _, _, _, same⟩
    · rw [same]
    · have different : db.leaseCount ≠ id := by
        refine Or.resolve_left other ?_
        rw [same]
        exact nofun
      rw [same]
      exact Table.lookup_emplace_ne different.symm _ db.leases
  | closeLease msg =>
    show (db.closeLease msg).2.leases.lookup id = _
    rw [closeLease_leases]
  | _ => rw [(db.step_leases rfl).1]

theorem lookup_run {id : UInt32} {db : ExecutorDB} {events : List StoreOp}
    (others : Along step (GrantsOther id) db events) :
    (run step db events).leases.lookup id = db.leases.lookup id := by
  have preserved : ∀ later op, later.leases.lookup id = db.leases.lookup id →
      GrantsOther id later op → (step later op).leases.lookup id = db.leases.lookup id :=
    fun _ _ same other => (lookup_step other).trans same
  exact run_invariant preserved rfl others

/-- A second message for a lease, at once or after operations that do not grant its id again, is
ignored exactly if the lease was not in the table when the first one came. -/
theorem second_close_ignored_iff (db : ExecutorDB) (msg : LeaseDeallocation)
    (between : List StoreOp)
    (others : Along step (GrantsOther msg.leaseId.toUInt32) (db.closeLease msg).2
      between) :
    (run step (db.closeLease msg).2 between).Ignores msg ↔
      db.leases.lookup msg.leaseId.toUInt32 = none := by
  rw [ignores_iff, lookup_run others, closeLease_leases]

/-- One node of 4 cores, some of them leased. -/
def leasedNode (cores memory : Int) : ExecutorDB :=
  run step empty [.read [⟨10000, 4, 1024, "10.0.0.1", "n1"⟩], .connectExecutor ⟨0, 7⟩,
    .registerExecutor 7 "n1", .openLease cores memory]

/-- Closing the only lease twice gives the node 8 free cores and lists it twice. After a lease of
one core of the 4 it has 5. -/
theorem second_close_over_allocates :
    let closed := ((leasedNode 4 1024).closeLease ⟨0, 0, 0, 0⟩).2
    let closedTwice := (closed.closeLease ⟨0, 0, 0, 0⟩).2
    let partly := ((leasedNode 1 256).closeLease ⟨0, 0, 0, 0⟩).2
    let partlyTwice := (partly.closeLease ⟨0, 0, 0, 0⟩).2
    (¬ closed.Ignores ⟨0, 0, 0, 0⟩ ∧ (closed.executors.objects 0).freeCores = 4 ∧
      closed.freeNodes = [some 0] ∧ (closedTwice.executors.objects 0).freeCores = 8 ∧
      closedTwice.freeNodes = [some 0, some 0]) ∧
    ¬ partly.Ignores ⟨0, 0, 0, 0⟩ ∧ (partly.executors.objects 0).freeCores = 4 ∧
      partly.freeNodes = [some 0] ∧ (partlyTwice.executors.objects 0).freeCores = 5 ∧
      partlyTwice.freeNodes = [some 0] := by
  simp only [ignores_iff]
  decide

/-- Between the two messages for a lease that was not granted, another one is closed and granted
again. -/
theorem unknown_close_ignored_twice :
    (run step ((leasedNode 4 1024).closeLease ⟨3, 0, 0, 0⟩).2
      [.closeLease ⟨0, 0, 0, 0⟩, .openLease 2 512]).Ignores ⟨3, 0, 0, 0⟩ :=
  (second_close_ignored_iff (leasedNode 4 1024) ⟨3, 0, 0, 0⟩ _ (by decide)).mpr (by decide)

end ExecutorDB

end RFaaS
