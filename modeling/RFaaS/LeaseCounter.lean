/-
This file is about the ids of leases. `open_lease` takes them from a counter of
32 bits (`ExecutorDB::_lease_count`), puts them into a field of type `int32_t`
of the response, and emplaces the lease under them in a table from which nothing
is ever erased. The executor manager takes a request with a negative id for the
final message of a client.

So the first 2^31 ids can be used and the next one cannot: it is negative. The
counter wraps after 2^32 grants, and from then on an id belongs to the first
lease that had it. The last part of the file has the runs that get there: a
node whose two cores are leased and given back, as often as it takes.
-/

import RFaaS.Conservation
import RFaaS.ExecutorManager

namespace RFaaS

open Transition List

namespace Ledger

/-- Every lease that is open has an id of its own, which is not negative in the messages, and an
entry with what was granted. -/
def Usable (ledger : Ledger) : Prop :=
  (ledger.openGrants.map Grant.id).Nodup ∧
  ∀ grant ∈ ledger.openGrants, 0 ≤ grant.id.toInt32 ∧
    ∃ total, ledger.db.leases.lookup grant.id =
      some ⟨grant.cores, grant.memory, total, some grant.executor⟩

theorem empty_usable : empty.Usable :=
  ⟨nodup_nil, fun _ member => absurd member not_mem_nil⟩

/-! ### The counter -/

/-- The counter shows how many leases were granted, and until it wraps every entry of the table
has an id below it. -/
structure Counted (ledger : Ledger) : Prop where
  count : ledger.db.leaseCount = UInt32.ofNat ledger.granted
  issued : ledger.granted ≤ 2 ^ 32 →
    ∀ id lease, ledger.db.leases.lookup id = some lease → id.toNat < ledger.granted

theorem empty_counted : empty.Counted where
  count := rfl
  issued _ _ _ found := by cases found

variable {ledger : Ledger}

/-- Until the counter wraps, the next id is not in the table. -/
theorem Counted.unused (counted : ledger.Counted) (few : ledger.granted < 2 ^ 32) :
    ledger.db.leases.lookup ledger.db.leaseCount = none := by
  cases found : ledger.db.leases.lookup ledger.db.leaseCount with
  | none => rfl
  | some lease =>
    have below := counted.issued few.le _ _ found
    rw [counted.count, UInt32.toNat_ofNat_of_lt' few] at below
    exact absurd below (lt_irrefl _)

/-- The two ways in which `open_lease` changes the ledger. -/
theorem step_open_cases (ledger : Ledger) (cores memory : Int) :
    (∃ freeNodes, freeNodes.Sublist ledger.db.freeNodes ∧
      ledger.step (.openLease cores memory) =
        { ledger with db := { ledger.db with freeNodes := freeNodes } }) ∨
    ∃ before ref rest, ledger.db.freeNodes = before ++ some ref :: rest ∧
      ExecutorDB.Fits ledger.db.executors cores memory ref ∧
      ledger.step (.openLease cores memory) =
        { ledger with
          db := ledger.db.grant (before.filter (ExecutorDB.entryLive ledger.db.executors)) ref
            (ExecutorDB.charged (ledger.db.executors.objects ref) cores memory) rest cores memory
          granted := ledger.granted + 1
          openGrants := ⟨ledger.db.leaseCount, ref, cores, memory⟩ :: ledger.openGrants } := by
  simp only [step, ExecutorDB.step]
  rcases ExecutorDB.openLease_cases ledger.db cores memory with
    ⟨_, same⟩ | ⟨before, ref, rest, response, split, _, fits, leaseId, same⟩
  · rw [same]
    exact Or.inl ⟨_, filter_sublist, rfl⟩
  · rw [same]
    simp only [recordOpen, leaseId, toUInt32_toInt32]
    exact Or.inr ⟨before, ref, rest, split, fits, rfl⟩

/-- Closing takes leases off the ledger and leaves the table alone. -/
theorem step_close_ledger (ledger : Ledger) (msg : LeaseDeallocation) :
    (ledger.step (.closeLease msg)).granted = ledger.granted ∧
      (ledger.step (.closeLease msg)).openGrants.Sublist ledger.openGrants ∧
      (ledger.step (.closeLease msg)).db.leases = ledger.db.leases ∧
      (ledger.step (.closeLease msg)).db.leaseCount = ledger.db.leaseCount := by
  have table : (ledger.db.closeLease msg).2.leases = ledger.db.leases ∧
      (ledger.db.closeLease msg).2.leaseCount = ledger.db.leaseCount := by
    rcases ExecutorDB.closeLease_cases ledger.db msg with
      ⟨_, same⟩ | ⟨_, _, _, same⟩ | ⟨_, _, _, _, _, same⟩ <;> rw [same] <;> exact ⟨rfl, rfl⟩
  simp only [step, ExecutorDB.step, recordClose]
  split
  · exact ⟨rfl, List.Sublist.refl _, table⟩
  · exact ⟨rfl, erase_sublist, table⟩

theorem Counted.of_same {before after : Ledger} (counted : before.Counted)
    (granted : after.granted = before.granted) (leases : after.db.leases = before.db.leases)
    (leaseCount : after.db.leaseCount = before.db.leaseCount) : after.Counted where
  count := by
    rw [leaseCount, granted]
    exact counted.count
  issued few := by
    rw [granted] at few ⊢
    rw [leases]
    exact counted.issued few

theorem Counted.step_setup (counted : ledger.Counted) {op : StoreOp} (setup : op.isSetup = true) :
    (ledger.step op).Counted := by
  obtain ⟨leases, leaseCount⟩ := ledger.db.step_leases setup
  rw [step_of_setup setup]
  exact counted.of_same rfl leases leaseCount

theorem Counted.step {ledger : Ledger} (counted : ledger.Counted) (op : StoreOp) :
    (ledger.step op).Counted := by
  cases op with
  | openLease cores memory =>
    rcases ledger.step_open_cases cores memory with ⟨_, _, same⟩ | ⟨_, _, _, _, _, same⟩
    · rw [same]
      exact counted.of_same rfl rfl rfl
    · rw [same]
      refine ⟨?_, fun few id lease found => ?_⟩
      · show ledger.db.leaseCount + 1 = UInt32.ofNat (ledger.granted + 1)
        rw [counted.count, UInt32.ofNat_add]
        rfl
      · have before : ledger.granted < 2 ^ 32 := few
        have inserted := Table.emplace_of_none (counted.unused before)
        replace found := (congrArg (AList.lookup id) (inserted _)).symm.trans found
        rcases Table.lookup_insert_eq_some.mp found with ⟨rfl, _⟩ | ⟨_, old⟩
        · rw [counted.count, UInt32.toNat_ofNat_of_lt' before]
          exact Nat.lt_succ_self _
        · exact Nat.lt_succ_of_lt (counted.issued before.le id lease old)
  | closeLease msg =>
    obtain ⟨granted, _, leases, leaseCount⟩ := ledger.step_close_ledger msg
    exact counted.of_same granted leases leaseCount
  | _ => exact counted.step_setup rfl

/-- No operation lowers the number of granted leases. -/
theorem granted_le_step (ledger : Ledger) (op : StoreOp) :
    ledger.granted ≤ (ledger.step op).granted := by
  cases op with
  | openLease cores memory =>
    rcases ledger.step_open_cases cores memory with ⟨_, _, same⟩ | ⟨_, _, _, _, _, same⟩
    · rw [same]
    · rw [same]
      exact Nat.le_succ _
  | closeLease msg => exact (ledger.step_close_ledger msg).1.ge
  | _ =>
    rw [step_of_setup rfl]

/-! ### Which ids can be used -/

theorem toInt32_nonneg_iff {number : Nat} (few : number < 2 ^ 32) :
    0 ≤ (UInt32.ofNat number).toInt32 ↔ number < 2 ^ 31 := by
  have signed : (UInt32.ofNat number).toInt32.toInt = (number : Int).bmod (2 ^ 32) := by simp
  rw [Int32.le_iff_toInt_le, signed, Int.bmod_def, Int32.toInt_zero]
  split <;> omega

/-- Where the open leases are a part of those before and the table has not changed. -/
theorem Usable.of_sublist {before after : Ledger} (usable : before.Usable)
    (openGrants : after.openGrants.Sublist before.openGrants)
    (leases : after.db.leases = before.db.leases) : after.Usable := by
  refine ⟨usable.1.sublist (openGrants.map Grant.id), fun grant member => ?_⟩
  rw [leases]
  exact usable.2 grant (openGrants.subset member)

/-- A grant leaves all open leases usable exactly if it is one of the first 2^31. -/
theorem step_usable_iff (counted : ledger.Counted) (usable : ledger.Usable)
    (few : ledger.granted ≤ 2 ^ 31) (op : StoreOp) :
    (ledger.step op).Usable ↔ (ledger.step op).granted ≤ 2 ^ 31 := by
  cases op with
  | openLease cores memory =>
    rcases ledger.step_open_cases cores memory with ⟨_, _, same⟩ | ⟨_, ref, _, _, _, same⟩
    · rw [same]
      exact iff_of_true (usable.of_sublist (List.Sublist.refl _) rfl) few
    · have unused := counted.unused (lt_of_le_of_lt few (by decide))
      have nonneg := toInt32_nonneg_iff (lt_of_le_of_lt few (by decide))
      rw [← counted.count] at nonneg
      rw [same]
      constructor
      · intro after
        exact nonneg.mp (after.2 _ mem_cons_self).1
      · intro fewer
        have recorded := fun grant member => (usable.2 grant member).2
        refine ⟨distinct_cons unused recorded usable.1 ref cores memory,
          fun grant member => ⟨?_, recorded_cons unused recorded ref cores memory _ grant member⟩⟩
        rcases mem_cons.mp member with rfl | inside
        · exact nonneg.mpr fewer
        · exact (usable.2 grant inside).1
  | closeLease msg =>
    obtain ⟨granted, openGrants, leases, _⟩ := ledger.step_close_ledger msg
    rw [granted]
    exact iff_of_true (usable.of_sublist openGrants leases) few
  | _ =>
    rw [step_of_setup rfl]
    exact iff_of_true (usable.of_sublist (List.Sublist.refl _) (ledger.db.step_leases rfl).1) few

/-- In every run, the leases that are open are usable in every state exactly if at most 2^31
leases are granted. -/
theorem ids_usable_iff (ops : List StoreOp) :
    Always step Usable empty ops ↔
      (run step empty ops).granted ≤ 2 ^ 31 := by
  have start : empty.Usable ∧ empty.granted ≤ 2 ^ 31 := ⟨empty_usable, Nat.zero_le _⟩
  rw [← along_le_iff granted_le_step start.2]
  have preserved : ∀ ledger op, Counted ledger → Counted (step ledger op) :=
    fun _ op counted => counted.step op
  have both : Always step (fun ledger => ledger.Usable ∧ ledger.granted ≤ 2 ^ 31)
      empty ops ↔ Along step (fun ledger op => (ledger.step op).granted ≤ 2 ^ 31)
        empty ops :=
    always_iff_along_of_stable preserved
      (fun _ op counted holds => by
        rw [step_usable_iff counted holds.1 holds.2 op, and_self]) empty_counted start
  rw [← both]
  constructor
  · intro always
    refine Always.strengthen preserved (fun _ op counted holds after => ?_)
      empty_counted start always
    exact ⟨after, (step_usable_iff counted holds.1 holds.2 op).mp after⟩
  · exact Always.mono fun _ holds => holds.1

/-! ### A node that is leased and given back -/

/-- The node 0 has two free cores and is the only entry of the free list. There were `count`
leases, all of which took both of its cores and were given back. -/
structure Rested (ledger : Ledger) (count : Nat) : Prop where
  counted : ledger.Counted
  granted : ledger.granted = count
  alive : ledger.db.executors.live 0 = true
  initialized : (ledger.db.executors.objects 0).isInitialized = true
  freeCores : (ledger.db.executors.objects 0).freeCores = 2
  freeMemory : (ledger.db.executors.objects 0).freeMemory = 1024
  freeNodes : ledger.db.freeNodes = [some 0]
  idle : ledger.openGrants = []
  past : ∀ number < count,
    ledger.db.leases.lookup (UInt32.ofNat number) = some ⟨2, 512, true, some 0⟩

/-- The node is added, connects and registers. -/
def setUp : List StoreOp :=
  [.read [⟨10000, 2, 1024, "10.0.0.1", "n1"⟩], .connectExecutor ⟨0, 7⟩, .registerExecutor 7 "n1"]

/-- A lease is granted, and the id that the counter had is closed. -/
def turn (cores memory : Int) (id : UInt32) : List StoreOp :=
  [.openLease cores memory, .closeLease ⟨id.toInt32, 0, 0, 0⟩]

/-- Both cores of the node are leased and given back, `count` times. -/
def turns (count : Nat) : List StoreOp :=
  (range count).flatMap fun number => turn 2 512 (UInt32.ofNat number)

theorem Rested.step_open {count : Nat} (rested : ledger.Rested count) {cores memory : Int}
    (coresFit : cores ≤ 2) (memoryFits : memory ≤ 1024) :
    ledger.step (.openLease cores memory) =
      { ledger with
        db := ledger.db.grant [] 0
          (ExecutorDB.charged (ledger.db.executors.objects 0) cores memory) [] cores memory
        granted := ledger.granted + 1
        openGrants := [⟨ledger.db.leaseCount, 0, cores, memory⟩] } := by
  have leased := Executor.lease_eq_some.mpr
    ⟨rested.freeMemory ▸ memoryFits, rested.freeCores ▸ coresFit, rfl⟩
  have locked : ledger.db.executors.lock (some 0) = some 0 :=
    Executors.lock_eq_some.mpr ⟨rfl, rested.alive⟩
  have found : ExecutorDB.search ledger.db.executors cores memory ledger.db.freeNodes =
      ([], some (0, ExecutorDB.charged (ledger.db.executors.objects 0) cores memory, [])) := by
    rw [rested.freeNodes]
    simp only [ExecutorDB.search, locked, rested.initialized, if_true, leased, ExecutorDB.charged]
  simp only [step, ExecutorDB.step, ExecutorDB.openLease, found, recordOpen, toUInt32_toInt32,
    rested.idle]

/-- The only open lease is closed. What is given back is what the table has under its id. -/
theorem step_close_only {ledger : Ledger} {grant : Grant} {lease : Lease} {ref : ExecutorRef}
    (only : ledger.openGrants = [grant])
    (found : ledger.db.leases.lookup grant.id = some lease) (node : lease.node = some ref)
    (alive : ledger.db.executors.live ref = true) :
    ledger.step (.closeLease ⟨grant.id.toInt32, 0, 0, 0⟩) =
      { ledger with
        db := { ledger.db with
          executors := ledger.db.executors.store ref
            ((ledger.db.executors.objects ref).cancelLease lease.cores lease.memory)
          freeNodes :=
            if lease.total then ledger.db.freeNodes ++ [some ref] else ledger.db.freeNodes }
        openGrants := []
        closedIds := grant.id :: ledger.closedIds } := by
  have closed : (ledger.db.closeLease ⟨grant.id.toInt32, 0, 0, 0⟩).2 = { ledger.db with
      executors := ledger.db.executors.store ref
        ((ledger.db.executors.objects ref).cancelLease lease.cores lease.memory)
      freeNodes :=
        if lease.total then ledger.db.freeNodes ++ [some ref] else ledger.db.freeNodes } := by
    have locked := Executors.lock_eq_some.mpr ⟨node, alive⟩
    rw [← toUInt32_toInt32 grant.id] at found
    rw [← node]
    simp only [ExecutorDB.closeLease, found, locked]
  simp only [step, ExecutorDB.step, closed, recordClose, toUInt32_toInt32, only, find?_cons,
    decide_true, erase_cons_head]

/-- A turn on a rested ledger, where the table has a record `lease` under the next id once the
new one was emplaced. -/
theorem Rested.run_turn {count : Nat} (rested : ledger.Rested count) {cores memory : Int}
    (coresFit : cores ≤ 2) (memoryFits : memory ≤ 1024) {lease : Lease}
    (found : (ledger.db.leases.emplace ledger.db.leaseCount ⟨cores, memory,
      (ExecutorDB.charged (ledger.db.executors.objects 0) cores memory).isFullyLeased,
      some 0⟩).lookup ledger.db.leaseCount = some lease) (node : lease.node = some 0) :
    run step ledger (turn cores memory ledger.db.leaseCount) =
      let leased := ExecutorDB.charged (ledger.db.executors.objects 0) cores memory
      let granted := ledger.db.grant [] 0 leased [] cores memory
      { db := { granted with
          executors := granted.executors.store 0 (leased.cancelLease lease.cores lease.memory)
          freeNodes := if lease.total then granted.freeNodes ++ [some 0] else granted.freeNodes }
        granted := ledger.granted + 1
        openGrants := []
        closedIds := ledger.db.leaseCount :: ledger.closedIds } := by
  simp only [turn, run_cons, run_nil]
  rw [rested.step_open coresFit memoryFits]
  have closed := @step_close_only _ ⟨ledger.db.leaseCount, 0, cores, memory⟩ lease 0
    (congrArg openGrants (rested.step_open coresFit memoryFits))
  rw [rested.step_open coresFit memoryFits] at closed
  rw [closed found node rested.alive]
  simp only [ExecutorDB.grant, Executors.store_objects, if_true]

/-- The ledger rests again after both cores were leased under a new id and given back. -/
theorem Rested.run_turn_rested {count : Nat} (rested : ledger.Rested count) (few : count < 2 ^ 32) :
    (run step ledger (turn 2 512 (UInt32.ofNat count))).Rested (count + 1) := by
  have total : (ExecutorDB.charged (ledger.db.executors.objects 0) 2 512).isFullyLeased = true := by
    simp [Executor.isFullyLeased, ExecutorDB.charged, rested.freeCores]
  obtain rfl := rested.granted
  have unused := rested.counted.unused few
  have counted := (rested.counted.step (.openLease 2 512)).step
    (.closeLease ⟨(UInt32.ofNat ledger.granted).toInt32, 0, 0, 0⟩)
  change (run step ledger (turn 2 512 (UInt32.ofNat ledger.granted))).Counted at counted
  rw [← rested.counted.count] at counted ⊢
  rw [rested.run_turn (by decide) (by decide)
    (Table.lookup_emplace_self_iff.mpr (Or.inl unused)) rfl] at counted ⊢
  simp only [ExecutorDB.grant, total, if_true] at counted ⊢
  have back (executor : Executor) :
      (ExecutorDB.charged executor 2 512).cancelLease 2 512 = executor := by
    simp [ExecutorDB.charged, Executor.cancelLease]
  have same : ((ledger.db.executors.store 0 (ExecutorDB.charged (ledger.db.executors.objects 0)
      2 512)).store 0 ((ExecutorDB.charged (ledger.db.executors.objects 0) 2 512).cancelLease
        2 512)).objects 0 = ledger.db.executors.objects 0 := by
    rw [back, Executors.store_objects, if_pos rfl]
  refine ⟨counted, rfl, rested.alive, ?_, ?_, ?_, rfl, rfl, fun number below => ?_⟩
  · exact (congrArg Executor.isInitialized same).trans rested.initialized
  · exact (congrArg Executor.freeCores same).trans rested.freeCores
  · exact (congrArg Executor.freeMemory same).trans rested.freeMemory
  · rcases Nat.lt_succ_iff_lt_or_eq.mp below with earlier | rfl
    · exact Table.lookup_emplace_of_lookup (rested.past number earlier) _ _
    · rw [rested.counted.count] at unused ⊢
      simp only [Table.emplace_of_none unused, AList.lookup_insert]

theorem setUp_rested : (run step empty setUp).Rested 0 where
  counted := ((empty_counted.step _).step _).step _
  granted := rfl
  alive := by decide
  initialized := by decide
  freeCores := by decide
  freeMemory := by decide
  freeNodes := by decide
  idle := rfl
  past _ below := absurd below (Nat.not_lt_zero _)

theorem turns_succ (count : Nat) :
    turns (count + 1) = turns count ++ turn 2 512 (UInt32.ofNat count) := by
  simp only [turns, range_succ, flatMap_append, flatMap_singleton]

/-- As long as the counter has not wrapped, the node can be leased and given back. -/
theorem run_turns_rested {count : Nat} (few : count ≤ 2 ^ 32) :
    (run step empty (setUp ++ turns count)).Rested count := by
  induction count with
  | zero => exact setUp_rested
  | succ count inductionHypothesis =>
    rw [turns_succ, ← append_assoc, run_append]
    exact (inductionHypothesis (Nat.le_of_succ_le few)).run_turn_rested few

/-- The lease after the first 2^31 has a negative id: an executor manager takes the request for
its executor, whatever it asks for, as the final message of the client. -/
theorem lease_after_turns_unusable :
    let ledger := run step empty (setUp ++ turns (2 ^ 31) ++ [.openLease 2 512])
    ¬ ledger.Usable ∧ ∃ grant ∈ ledger.openGrants,
      ∀ (manager : ExecutorManager.Manager) qpNum client cores chance,
        (manager.processClient qpNum client ⟨grant.id.toInt32, cores⟩ chance).1 = false := by
  intro ledger
  have rested := run_turns_rested (show 2 ^ 31 ≤ 2 ^ 32 by decide)
  have opened : ledger.openGrants = [⟨UInt32.ofNat (2 ^ 31), 0, 2, 512⟩] := by
    rw [← rested.granted, ← rested.counted.count]
    refine (congrArg openGrants ?_).trans (congrArg openGrants
      (rested.step_open (by decide) (by decide)))
    exact run_append ..
  have negative : ¬ 0 ≤ (UInt32.ofNat (2 ^ 31)).toInt32 := by decide
  rw [opened]
  constructor
  · intro usable
    have member : ⟨UInt32.ofNat (2 ^ 31), 0, 2, 512⟩ ∈ ledger.openGrants := by
      rw [opened]
      exact mem_singleton_self _
    exact negative (usable.2 _ member).1
  · refine ⟨_, mem_singleton_self _, fun manager qpNum client cores chance => ?_⟩
    exact (manager.processClient_eq_false_iff qpNum client _ chance).mpr negative

end Ledger

end RFaaS
