/-
This file is about what one `open_lease` does, and about the reference to an
executor that it puts into the lease record.

The loop holds a reference `ptr` to the entry of the free list that it looks
at. When the grant takes the last core or the last memory of the executor, the
entry is erased, and only then is the record built, from `ptr`. So a grant that
exhausts an executor copies a weak pointer out of an entry that is gone. The
model keeps what such a read yields open: a parameter, the residue, is whatever
the memory of the entry holds by then. `openLease` is the case in which it
still holds the entry (`openLeaseReading_eq`).

Everything but that reference is independent of the residue: `open_lease` is
first-fit and changes only the executor it takes. The amounts of the request are
taken off its counters exactly if the differences fit into an `int`
(`openLease_firstFit`); what an overflow leaves in a counter is open, too. The
reference is right, and a later `close_lease` credits the right executor,
exactly for grants that leave the executor something.
-/

import RFaaS.ExecutorDB
import RFaaS.Lifetime

namespace RFaaS

open Transition Lifetime

/-- The values of an `int`. -/
def InInt (value : Int) : Prop := -2 ^ 31 ≤ value ∧ value < 2 ^ 31

instance (value : Int) : Decidable (InInt value) := inferInstanceAs (Decidable (_ ∧ _))

/-- The counters of an executor as `int`s, from the exact differences that `Executor::lease`
computes: a difference that overflows leaves whatever `overflowed` says. -/
def Executor.stored (overflowed : Int → Int) (leased : Executor) : Executor :=
  { leased with
    freeCores := if InInt leased.freeCores then leased.freeCores else overflowed leased.freeCores
    freeMemory :=
      if InInt leased.freeMemory then leased.freeMemory else overflowed leased.freeMemory }

namespace ExecutorDB

/-! ### The reference to the entry -/

/-- The entries of the free list that the loop of `open_lease` uses and erases, by their place
in the list: `lock` reads every entry, an expired entry is erased, and the constructor of the
record reads the entry that was taken through `ptr`, after the test that may erase it. -/
def scanAccesses (executors : Executors) (cores memory : Int) :
    Nat → List WeakExecutor → List (Access Nat)
  | _, [] => []
  | place, ptr :: rest =>
    .use place ::
      match executors.lock ptr with
      | none => .free place :: scanAccesses executors cores memory (place + 1) rest
      | some ref =>
        if (executors.objects ref).isInitialized then
          match (executors.objects ref).lease cores memory with
          | none => scanAccesses executors cores memory (place + 1) rest
          | some leased => if leased.isFullyLeased then [.free place, .use place] else [.use place]
        else scanAccesses executors cores memory (place + 1) rest

/-- The accesses of `open_lease` to the entries of the free list. -/
def openLeaseAccesses (db : ExecutorDB) (cores memory : Int) : List (Access Nat) :=
  scanAccesses db.executors cores memory 0 db.freeNodes

/-- What the constructor of the record copies from `ptr`. -/
def throughPtr (residue : WeakExecutor) (erased : Bool) (entry : WeakExecutor) : WeakExecutor :=
  if erased then residue else entry

/-- The end of `open_lease`, where the memory of an erased entry holds the residue. -/
def grantReading (db : ExecutorDB) (residue : WeakExecutor) (kept : List WeakExecutor)
    (ref : ExecutorRef) (leased : Executor) (rest : List WeakExecutor) (cores memory : Int) :
    ExecutorDB :=
  { db.grant kept ref leased rest cores memory with
    leases := db.leases.emplace db.leaseCount ⟨cores, memory, leased.isFullyLeased,
      throughPtr residue leased.isFullyLeased (some ref)⟩ }

/-- `ExecutorDB::open_lease`, where the memory of an erased entry holds the residue. -/
def openLeaseReading (db : ExecutorDB) (residue : WeakExecutor) (cores memory : Int) :
    Option (ExecutorRef × LeaseResponse) × ExecutorDB :=
  match search db.executors cores memory db.freeNodes with
  | (kept, none) => (none, { db with freeNodes := kept })
  | (kept, some (ref, leased, rest)) =>
    (some (ref, {
      leaseId := db.leaseCount.toInt32
      port := leased.port
      address := String.ofList (leased.address.toList.take addressLength) }),
    db.grantReading residue kept ref leased rest cores memory)

/-- `ExecutorDB::open_lease` with counters that are `int`s. The answer does not depend on them. -/
def openLeaseInt (db : ExecutorDB) (overflowed : Int → Int) (residue : WeakExecutor)
    (cores memory : Int) : Option (ExecutorRef × LeaseResponse) × ExecutorDB :=
  ((db.openLeaseReading residue cores memory).1,
    match search db.executors cores memory db.freeNodes with
    | (kept, none) => { db with freeNodes := kept }
    | (kept, some (ref, leased, rest)) =>
      db.grantReading residue kept ref (leased.stored overflowed) rest cores memory)

/-- One operation, with the residue that it would find. -/
def stepReading (db : ExecutorDB) (event : StoreOp × WeakExecutor) : ExecutorDB :=
  match event.1 with
  | .openLease cores memory => (db.openLeaseReading event.2 cores memory).2
  | op => db.step op

/-- If `open_lease` reads an entry that it has erased, the memory still holds the entry. -/
def ReadsEntry (db : ExecutorDB) (event : StoreOp × WeakExecutor) : Prop :=
  match event.1 with
  | .openLease cores memory => ∀ taken ∈ (search db.executors cores memory db.freeNodes).2,
    taken.2.1.isFullyLeased = true → event.2 = some taken.1
  | _ => True

instance (db : ExecutorDB) : DecidablePred db.ReadsEntry
  | (.openLease _ _, _) => Option.decidableForallMem ..
  | (.closeLease _, _) | (.add _ _ _ _ _, _) | (.read _, _) | (.connectExecutor _, _)
  | (.registerExecutor _ _, _) | (.removeExecutor _, _) => .isTrue trivial

/-- The store whose records always name the executor is the one in which erased entries keep
their value until they are read. -/
theorem openLeaseReading_eq {db : ExecutorDB} {residue : WeakExecutor} {cores memory : Int}
    (reads : db.ReadsEntry (.openLease cores memory, residue)) :
    db.openLeaseReading residue cores memory = db.openLease cores memory := by
  rcases found : search db.executors cores memory db.freeNodes with
    ⟨kept, _ | ⟨ref, leased, rest⟩⟩
  · simp only [openLeaseReading, openLease, found]
  · have entry : throughPtr residue leased.isFullyLeased (some ref) = some ref := by
      have reads : ∀ taken ∈ (search db.executors cores memory db.freeNodes).2,
        taken.2.1.isFullyLeased = true → residue = some taken.1 := reads
      rw [throughPtr]
      split
      · exact reads (ref, leased, rest) (by rw [found]; rfl) ‹_›
      · rfl
    simp only [openLeaseReading, openLease, found, grantReading, entry]
    rfl

/-- The inversion of `open_lease` for any residue. -/
theorem openLeaseReading_cases (db : ExecutorDB) (residue : WeakExecutor) (cores memory : Int) :
    ((∀ ref, some ref ∈ db.freeNodes → ¬ Fits db.executors cores memory ref) ∧
      db.openLeaseReading residue cores memory =
        (none, { db with freeNodes := db.freeNodes.filter (entryLive db.executors) })) ∨
    ∃ before ref rest response, db.freeNodes = before ++ some ref :: rest ∧
      (∀ other, some other ∈ before → ¬ Fits db.executors cores memory other) ∧
      Fits db.executors cores memory ref ∧
      response.leaseId = db.leaseCount.toInt32 ∧
      response.port = (db.executors.objects ref).port ∧
      db.openLeaseReading residue cores memory = (some (ref, response),
        db.grantReading residue (before.filter (entryLive db.executors)) ref
          (charged (db.executors.objects ref) cores memory) rest cores memory) := by
  rcases search_scanned db.executors cores memory db.freeNodes with
    ⟨unfit, same⟩ | ⟨before, ref, rest, split, early, fits, same⟩
  · exact Or.inl ⟨unfit, by rw [openLeaseReading, same]⟩
  · exact Or.inr ⟨before, ref, rest, _, split, early, fits, rfl, rfl,
      by rw [openLeaseReading, same]⟩

/-! ### First fit -/

/-- What a grant on the entry between `before` and `rest` does, and that it does nothing else. -/
structure Grants (db : ExecutorDB) (cores memory : Int) (before : List WeakExecutor)
    (ref : ExecutorRef) (rest : List WeakExecutor)
    (answer : Option (ExecutorRef × LeaseResponse) × ExecutorDB) : Prop where
  response : ∃ response, answer.1 = some (ref, response) ∧
    response.port = (db.executors.objects ref).port ∧
    response.leaseId = db.leaseCount.toInt32
  counters : answer.2.executors.objects ref =
    { db.executors.objects ref with
      freeCores := (db.executors.objects ref).freeCores - cores
      freeMemory := (db.executors.objects ref).freeMemory - memory }
  otherExecutors : ∀ other, other ≠ ref →
    answer.2.executors.objects other = db.executors.objects other
  indexes : { answer.2.executors with objects := db.executors.objects } = db.executors
  lease : ∃ node, answer.2.leases.lookup db.leaseCount =
    some ⟨cores, memory, (answer.2.executors.objects ref).isFullyLeased, node⟩
  otherLeases : ∀ id, id ≠ db.leaseCount → answer.2.leases.lookup id = db.leases.lookup id
  leaseCount : answer.2.leaseCount = db.leaseCount + 1
  freeNodes : answer.2.freeNodes = before.filter (entryLive db.executors) ++
    if (answer.2.executors.objects ref).isFullyLeased then rest else some ref :: rest

theorem grantReading_grants (db : ExecutorDB) (residue : WeakExecutor) (cores memory : Int)
    (unused : db.leases.lookup db.leaseCount = none) (before : List WeakExecutor)
    {ref : ExecutorRef} (rest : List WeakExecutor) {response : LeaseResponse}
    (leaseId : response.leaseId = db.leaseCount.toInt32)
    (port : response.port = (db.executors.objects ref).port) :
    db.Grants cores memory before ref rest (some (ref, response),
      db.grantReading residue (before.filter (entryLive db.executors)) ref
        (charged (db.executors.objects ref) cores memory) rest cores memory) := by
  have objects : ∀ other, (db.executors.store ref
      (charged (db.executors.objects ref) cores memory)).objects other =
        if other = ref then charged (db.executors.objects ref) cores memory
        else db.executors.objects other :=
    fun other => Executors.store_objects db.executors ref other _
  have taken := (objects ref).trans (if_pos rfl)
  refine ⟨⟨response, rfl, port, leaseId⟩, taken, fun other different => ?_, rfl,
    ⟨throughPtr residue (charged (db.executors.objects ref) cores memory).isFullyLeased (some ref),
      ?_⟩, fun id different => ?_, rfl, ?_⟩
  · exact (objects other).trans (if_neg different)
  · refine (Table.lookup_emplace_self_iff.mpr (Or.inl unused)).trans ?_
    exact congrArg (fun executor : Executor =>
      some (⟨cores, memory, executor.isFullyLeased, _⟩ : Lease)) taken.symm
  · exact Table.lookup_emplace_ne different _ db.leases
  · show _ = before.filter (entryLive db.executors) ++
      if ((db.executors.store ref _).objects ref).isFullyLeased then rest else some ref :: rest
    rw [taken]
    rfl

/-- The counters are the exact differences, whatever an overflow leaves, exactly if there is no
overflow. -/
theorem stored_eq_iff (leased : Executor) :
    (∀ overflowed, leased.stored overflowed = leased) ↔
      InInt leased.freeCores ∧ InInt leased.freeMemory := by
  constructor
  · intro exact_
    have next := exact_ (· + 1)
    have cores := congrArg Executor.freeCores next
    have memory := congrArg Executor.freeMemory next
    simp only [Executor.stored] at cores memory
    constructor
    · by_contra large
      rw [if_neg large] at cores
      omega
    · by_contra large
      rw [if_neg large] at memory
      omega
  · rintro ⟨cores, memory⟩ overflowed
    rw [Executor.stored, if_pos cores, if_pos memory]

/-- `open_lease` is first-fit and touches nothing else. If some entry of the free list can take
the request, the first such entry is taken, and the grant is as it should be exactly if neither
counter of the executor overflows; otherwise the expired entries are removed and nothing else
happens. -/
theorem openLease_firstFit (db : ExecutorDB) (residue : WeakExecutor) (cores memory : Int)
    (unused : db.leases.lookup db.leaseCount = none) :
    ((∃ ref, some ref ∈ db.freeNodes ∧ Fits db.executors cores memory ref) →
      ∃ before ref rest, db.freeNodes = before ++ some ref :: rest ∧
        (∀ other, some other ∈ before → ¬ Fits db.executors cores memory other) ∧
        Fits db.executors cores memory ref ∧
        ((∀ overflowed, db.Grants cores memory before ref rest
            (db.openLeaseInt overflowed residue cores memory)) ↔
          InInt ((db.executors.objects ref).freeCores - cores) ∧
            InInt ((db.executors.objects ref).freeMemory - memory))) ∧
    ((¬ ∃ ref, some ref ∈ db.freeNodes ∧ Fits db.executors cores memory ref) →
      ∀ overflowed, db.openLeaseInt overflowed residue cores memory =
        (none, { db with freeNodes := db.freeNodes.filter (entryLive db.executors) })) := by
  rcases search_scanned db.executors cores memory db.freeNodes with
    ⟨unfit, found⟩ | ⟨before, ref, rest, split, early, fits, found⟩
  · refine ⟨fun ⟨ref, member, fits⟩ => absurd fits (unfit ref member), fun _ overflowed => ?_⟩
    simp only [openLeaseInt, openLeaseReading, found]
  · refine ⟨fun _ => ⟨before, ref, rest, split, early, fits, ?_⟩, fun unfit => ?_⟩
    · simp only [openLeaseInt, openLeaseReading, found]
      refine Iff.trans ⟨fun grants overflowed => ?_, fun same overflowed => ?_⟩
        (stored_eq_iff (charged (db.executors.objects ref) cores memory))
      · exact ((Executors.store_objects ..).trans (if_pos rfl)).symm.trans
          (grants overflowed).counters
      · rw [same overflowed]
        exact db.grantReading_grants residue cores memory unused before rest rfl rfl
    · refine absurd ⟨ref, ?_, fits⟩ unfit
      rw [split]
      exact List.mem_append_right _ List.mem_cons_self

/-- Four entries: the first executor has gone, the second has not connected, the third is too
small, and the fourth is taken by a request of 2 cores. -/
def mixedNodes : ExecutorDB :=
  run step empty [.read [⟨10000, 4, 1024, "10.0.0.1", "n1"⟩,
    ⟨10000, 4, 1024, "10.0.0.2", "n2"⟩, ⟨10000, 1, 1024, "10.0.0.3", "n3"⟩,
    ⟨10004, 4, 1024, "10.0.0.4", "n4"⟩], .connectExecutor ⟨0, 7⟩, .registerExecutor 7 "n1",
    .connectExecutor ⟨1, 8⟩, .registerExecutor 8 "n3", .connectExecutor ⟨2, 9⟩,
    .registerExecutor 9 "n4", .removeExecutor 7]

theorem mixedNodes_firstFit :
    ∃ before ref rest, mixedNodes.freeNodes = before ++ some ref :: rest ∧
      (∀ other, some other ∈ before → ¬ Fits mixedNodes.executors 2 256 other) ∧
      Fits mixedNodes.executors 2 256 ref ∧
      ((∀ overflowed, mixedNodes.Grants 2 256 before ref rest
          (mixedNodes.openLeaseInt overflowed none 2 256)) ↔
        InInt ((mixedNodes.executors.objects ref).freeCores - 2) ∧
          InInt ((mixedNodes.executors.objects ref).freeMemory - 256)) :=
  (openLease_firstFit mixedNodes none 2 256 (by decide)).1
    ⟨3, by decide, by decide, by decide, by decide, by decide⟩

example : mixedNodes.freeNodes = [some 0, some 1, some 2, some 3] ∧
    (mixedNodes.openLease 2 256).1 = some (3, ⟨0, 10004, "10.0.0.4"⟩) ∧
    (mixedNodes.openLease 2 256).2.freeNodes = [some 1, some 2, some 3] ∧
    (mixedNodes.openLease 4 256).2.freeNodes = [some 1, some 2] := by
  decide

/-- One node of 4 cores. -/
def registeredNode : ExecutorDB :=
  run step empty [.read [⟨10000, 4, 1024, "10.0.0.1", "n1"⟩], .connectExecutor ⟨0, 7⟩,
    .registerExecutor 7 "n1"]

/-- The node has 1024 units of memory and takes a request for the smallest `int`: the difference
is no `int`, and if the subtraction wraps around, the counter is far below zero. -/
theorem smallest_memory_overflows :
    registeredNode.leases.lookup registeredNode.leaseCount = none ∧
      registeredNode.freeNodes = [some 0] ∧ Fits registeredNode.executors 1 (-2147483648) 0 ∧
      ¬ InInt ((registeredNode.executors.objects 0).freeMemory - -2147483648) ∧
      ((registeredNode.openLeaseInt (· - 2 ^ 32) none 1 (-2147483648)).2.executors.objects
        0).freeMemory = -2147482624 :=
  ⟨by decide, by decide, ⟨by decide, by decide, by decide, by decide⟩, by decide, by decide⟩

/-! ### The accesses -/

/-- The scan touches no entry in front of the place where it starts. -/
theorem le_of_touched {executors : Executors} {cores memory : Int} {nodes : List WeakExecutor}
    {place object : Nat}
    (member : object ∈ touched (scanAccesses executors cores memory place nodes)) :
    place ≤ object := by
  induction nodes generalizing place with
  | nil => exact absurd member List.not_mem_nil
  | cons ptr rest inductionHypothesis =>
    have later : object ∈ touched
        (scanAccesses executors cores memory (place + 1) rest) → place ≤ object :=
      fun inside => (Nat.le_succ place).trans (inductionHypothesis inside)
    simp only [scanAccesses, touched, List.mem_cons] at member
    rcases member with rfl | member
    · exact le_rfl
    · split at member
      · rcases List.mem_cons.mp member with rfl | member
        · exact le_rfl
        · exact later member
      · split at member
        · split at member
          · exact later member
          · split at member <;> simp [touched] at member <;> exact member.ge
        · exact later member

/-- The scan uses an erased entry exactly if it takes an entry whose executor has nothing left. -/
theorem scanAccesses_clean_iff (executors : Executors) (cores memory : Int)
    (nodes : List WeakExecutor) (place : Nat) :
    Clean [] (scanAccesses executors cores memory place nodes) ↔
      ∀ taken ∈ (search executors cores memory nodes).2, taken.2.1.isFullyLeased = false := by
  induction nodes generalizing place with
  | nil => exact iff_of_true trivial fun _ member => by cases member
  | cons ptr rest inductionHypothesis =>
    have next := inductionHypothesis (place + 1)
    cases locked : executors.lock ptr with
    | none =>
      -- the entry is erased, and the scan goes on behind it
      have apart : ∀ object ∈ touched
          (scanAccesses executors cores memory (place + 1) rest), object ∉ [place] := by
        intro object member same
        have later := le_of_touched member
        rw [List.mem_singleton.mp same] at later
        exact absurd later (Nat.not_succ_le_self place)
      have erased : Clean [place] (scanAccesses executors cores memory (place + 1) rest) ↔
          Clean [] (scanAccesses executors cores memory (place + 1) rest) :=
        clean_iff.trans (and_iff_left apart)
      simpa [scanAccesses, search, locked, Clean, erased] using next
    | some ref =>
      by_cases initialized : (executors.objects ref).isInitialized = true
      · cases leased : (executors.objects ref).lease cores memory with
        | none =>
          simpa [scanAccesses, search, locked, initialized, leased, Clean] using next
        | some taken =>
          cases full : taken.isFullyLeased <;>
            simp [scanAccesses, search, locked, initialized, leased, full, Clean]
      · simpa [scanAccesses, search, locked, initialized, Clean] using next

/-! ### The record and the lease that is closed -/

/-- The lease record of a grant on `ref` names the executor: the entry it is copied from was not
erased before, whatever memory holds that is not used any more the record has the executor that
was returned, and when the lease is closed later, that executor gets the resources back and is put
back on the free list if the grant took it off. -/
structure NamesExecutor (db : ExecutorDB) (cores memory : Int) (ref : ExecutorRef) : Prop where
  clean : Clean [] (db.openLeaseAccesses cores memory)
  recorded : ∀ residue, (db.openLeaseReading residue cores memory).2.leases.lookup db.leaseCount =
    some ⟨cores, memory, (charged (db.executors.objects ref) cores memory).isFullyLeased, some ref⟩
  closes : ∀ residue later msg, msg.leaseId.toUInt32 = db.leaseCount →
    let final := run stepReading (db.openLeaseReading residue cores memory).2 later
    final.executors.live ref = true →
      final.closeLease msg = (.cancelled, { final with
        executors := final.executors.store ref
          ((final.executors.objects ref).cancelLease cores memory)
        freeNodes :=
          if (charged (db.executors.objects ref) cores memory).isFullyLeased
          then final.freeNodes ++ [some ref] else final.freeNodes })

/-- Records are never replaced or erased. -/
theorem stepReading_lookup {db : ExecutorDB} {id : UInt32} {lease : Lease}
    (found : db.leases.lookup id = some lease) (event : StoreOp × WeakExecutor) :
    (db.stepReading event).leases.lookup id = some lease := by
  obtain ⟨op, residue⟩ := event
  cases op with
  | openLease cores memory =>
    show (db.openLeaseReading residue cores memory).2.leases.lookup id = some lease
    rcases db.openLeaseReading_cases residue cores memory with
      ⟨_, same⟩ | ⟨_, _, _, _, _, _, _, _, _, same⟩
    · rw [same]
      exact found
    · rw [same]
      exact Table.lookup_emplace_of_lookup found _ _
  | closeLease msg =>
    show (db.closeLease msg).2.leases.lookup id = some lease
    rcases closeLease_cases db msg with ⟨_, same⟩ | ⟨_, _, _, same⟩ | ⟨_, _, _, _, _, same⟩ <;>
      rw [same] <;> exact found
  | _ =>
    rw [← found]
    exact congrArg (AList.lookup id) (db.step_leases rfl).1

/-- Closing a lease whose record names an executor that is alive, after any operations. -/
theorem closeLease_of_recorded {db : ExecutorDB} {lease : Lease} {ref : ExecutorRef}
    {msg : LeaseDeallocation} (found : db.leases.lookup msg.leaseId.toUInt32 = some lease)
    (node : lease.node = some ref) (later : List (StoreOp × WeakExecutor)) :
    let final := run stepReading db later
    final.executors.live ref = true →
      final.closeLease msg = (.cancelled, { final with
        executors := final.executors.store ref
          ((final.executors.objects ref).cancelLease lease.cores lease.memory)
        freeNodes := if lease.total then final.freeNodes ++ [some ref] else final.freeNodes }) := by
  intro final alive
  have preserved : ∀ state event, AList.lookup msg.leaseId.toUInt32 state.leases = some lease →
      (stepReading state event).leases.lookup msg.leaseId.toUInt32 = some lease :=
    fun _ event present => stepReading_lookup present event
  have kept : final.leases.lookup msg.leaseId.toUInt32 = some lease :=
    run_stable preserved later found
  have locked : final.executors.lock (some ref) = some ref :=
    Executors.lock_eq_some.mpr ⟨rfl, alive⟩
  simp only [closeLease, kept, locked, node]

theorem search_of_granted {db : ExecutorDB} {cores memory : Int} {ref : ExecutorRef}
    {response : LeaseResponse} (granted : (db.openLease cores memory).1 = some (ref, response)) :
    ∃ kept rest, search db.executors cores memory db.freeNodes =
      (kept, some (ref, charged (db.executors.objects ref) cores memory, rest)) := by
  rcases search_scanned db.executors cores memory db.freeNodes with
    ⟨_, same⟩ | ⟨before, taken, rest, _, _, _, same⟩
  · rw [openLease, same] at granted
    cases granted
  · rw [openLease, same] at granted
    cases granted
    exact ⟨_, _, same⟩

section
variable {db : ExecutorDB} {cores memory : Int} {ref : ExecutorRef} {response : LeaseResponse}
  (granted : (db.openLease cores memory).1 = some (ref, response))
include granted

/-- A grant uses an erased entry exactly if it leaves the executor nothing. -/
theorem openLeaseAccesses_clean_iff :
    Clean [] (db.openLeaseAccesses cores memory) ↔
      (charged (db.executors.objects ref) cores memory).isFullyLeased = false := by
  obtain ⟨kept, rest, found⟩ := search_of_granted granted
  rw [openLeaseAccesses, scanAccesses_clean_iff, found]
  simp

theorem openLeaseReading_leases (residue : WeakExecutor) :
    (db.openLeaseReading residue cores memory).2.leases =
      db.leases.emplace db.leaseCount ⟨cores, memory,
        (charged (db.executors.objects ref) cores memory).isFullyLeased,
        throughPtr residue (charged (db.executors.objects ref) cores memory).isFullyLeased
          (some ref)⟩ := by
  obtain ⟨kept, rest, found⟩ := search_of_granted granted
  rw [openLeaseReading, found]
  rfl

/-- The record of a grant that leaves the executor something does not depend on the residue. -/
theorem openLeaseReading_recorded_iff (residue : WeakExecutor)
    (left : (charged (db.executors.objects ref) cores memory).isFullyLeased = false) :
    (db.openLeaseReading residue cores memory).2.leases.lookup db.leaseCount =
        some ⟨cores, memory, (charged (db.executors.objects ref) cores memory).isFullyLeased,
          some ref⟩ ↔
      db.leases.lookup db.leaseCount = none ∨
        db.leases.lookup db.leaseCount = some ⟨cores, memory, false, some ref⟩ := by
  rw [openLeaseReading_leases granted, left]
  exact Table.lookup_emplace_self_iff

end

/-- The record of a lease names the executor it was granted on exactly if the grant left the
executor free cores and free memory, and no other record had the id of the lease. -/
theorem record_names_executor_iff (db : ExecutorDB) (cores memory : Int) (ref : ExecutorRef)
    (response : LeaseResponse) (granted : (db.openLease cores memory).1 = some (ref, response)) :
    db.NamesExecutor cores memory ref ↔
      (charged (db.executors.objects ref) cores memory).isFullyLeased = false ∧
        (db.leases.lookup db.leaseCount = none ∨
          db.leases.lookup db.leaseCount = some ⟨cores, memory, false, some ref⟩) := by
  constructor
  · intro names
    have left := (openLeaseAccesses_clean_iff granted).mp names.clean
    exact ⟨left, (openLeaseReading_recorded_iff granted none left).mp (names.recorded none)⟩
  · rintro ⟨left, absent⟩
    have recorded := fun residue =>
      (openLeaseReading_recorded_iff granted residue left).mpr absent
    exact ⟨(openLeaseAccesses_clean_iff granted).mpr left, recorded,
      fun residue later msg same => closeLease_of_recorded (same ▸ recorded residue) rfl later⟩

theorem record_names_executor_of_part : registeredNode.NamesExecutor 1 256 0 :=
  (record_names_executor_iff registeredNode 1 256 0 ⟨0, 10000, "10.0.0.1"⟩ (by decide)).mpr
    (by decide)

/-- The node is leased as a whole, and its entry is used after it was erased. If the memory of
the entry holds an empty pointer by then, the record names no executor: closing the lease gives
nothing back, and the node does not return to the free list. -/
theorem record_of_erased_entry :
    ¬ registeredNode.NamesExecutor 4 1024 0 ∧
      registeredNode.openLeaseAccesses 4 1024 = [.use 0, .free 0, .use 0] ∧
      (let leased := (registeredNode.openLeaseReading none 4 1024).2
      leased.leases.lookup 0 = some ⟨4, 1024, true, none⟩ ∧
        leased.executors.live 0 = true ∧
        (leased.closeLease ⟨0, 0, 0, 0⟩).1 = .nodeGone ∧
        ((leased.closeLease ⟨0, 0, 0, 0⟩).2.executors.objects 0).freeCores = 0 ∧
        (leased.closeLease ⟨0, 0, 0, 0⟩).2.freeNodes = []) :=
  ⟨fun names => absurd names.clean (by decide), rfl, by decide⟩

end ExecutorDB

end RFaaS
