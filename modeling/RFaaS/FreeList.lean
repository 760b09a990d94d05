/-
This file is about the free list of the resource manager. `open_lease` finds an
executor only through `_free_nodes`, so an executor with capacity left should be
listed there. The list is maintained by a flag of each lease: the grant that
takes the last core or the last byte is total, it takes the entry out of the
list, and only closing that very lease puts an entry back.

The file proves what this gives: in a run where every name is added once and
registered after that, the list stays complete exactly as long as no lease is
closed that is not total and whose executor is not listed, unless the executor
has nothing to offer even then. The run that breaks it opens two leases that
fill a node together and closes the first one.
-/

import RFaaS.ExecutorDB

namespace RFaaS

open Transition Executors List

/-- The names that an operation gives to `add_executor`. -/
def StoreOp.addedNames : StoreOp → List String
  | .add nodeName _ _ _ _ =>
    if nodeName.length < ExecutorDB.nodeNameLength then [] else [nodeName]
  | .read servers => servers.map ServerData.node
  | _ => []

namespace ExecutorDB

/-- The executor could serve some request: it is alive and initialised, and has cores and memory
left. -/
def Available (db : ExecutorDB) (ref : ExecutorRef) : Prop :=
  db.executors.live ref = true ∧ (db.executors.objects ref).isInitialized = true ∧
    0 < (db.executors.objects ref).freeCores ∧ 0 < (db.executors.objects ref).freeMemory

/-- Every executor that could serve a request is in the free list. -/
def Complete (db : ExecutorDB) : Prop := ∀ ref, db.Available ref → some ref ∈ db.freeNodes

variable {db : ExecutorDB}

/-- The condition under which one operation keeps the list complete: a lease that is closed on
an executor that is alive is total, or its executor is listed already, or its executor has still
no cores or no memory left. -/
def ListsOnClose (db : ExecutorDB) : StoreOp → Prop
  | .closeLease msg =>
    match db.leases.lookup msg.leaseId.toUInt32 with
    | none => True
    | some lease =>
      match db.executors.lock lease.node with
      | none => True
      | some ref =>
        lease.total = true ∨ some ref ∈ db.freeNodes ∨
          (db.executors.objects ref).freeCores + lease.cores ≤ 0 ∨
          (db.executors.objects ref).freeMemory + lease.memory ≤ 0
  | _ => True

instance (db : ExecutorDB) : DecidablePred (ListsOnClose db)
  | .closeLease msg =>
    match found : db.leases.lookup msg.leaseId.toUInt32 with
    | none => isTrue (by simp only [ListsOnClose, found])
    | some lease =>
      match locked : db.executors.lock lease.node with
      | none => isTrue (by simp only [ListsOnClose, found, locked])
      | some ref =>
        decidable_of_iff (lease.total = true ∨ some ref ∈ db.freeNodes ∨
          (db.executors.objects ref).freeCores + lease.cores ≤ 0 ∨
          (db.executors.objects ref).freeMemory + lease.memory ≤ 0)
          (by simp only [ListsOnClose, found, locked])
  | .add _ _ _ _ _ | .read _ | .connectExecutor _ | .registerExecutor _ _ | .removeExecutor _
  | .openLease _ _ => inferInstanceAs (Decidable True)

/-- The invariant behind completeness: names are taken only by `add`, executors that have data
and are not registered yet wait in the list, and leases are on initialised executors. -/
structure Listing (added : List String) (db : ExecutorDB) : Prop where
  wellFormed : db.executors.WellFormed
  named : ∀ name ref, db.executors.byName.lookup name = some ref → name ∈ added
  waiting : ∀ ref, db.executors.live ref = true → (db.executors.objects ref).hasData = true →
    (db.executors.objects ref).isInitialized = false → some ref ∈ db.freeNodes
  leased : ∀ id lease ref, db.leases.lookup id = some lease → lease.node = some ref →
    ref < db.executors.fresh ∧ (db.executors.objects ref).isInitialized = true

theorem empty_listing : Listing [] empty where
  wellFormed := empty_wellFormed
  named _ _ found := by cases found
  waiting _ alive := by cases alive
  leased _ _ _ found := by cases found

theorem Listing.mono {added more : List String} (listing : Listing added db)
    (subset : ∀ name ∈ added, name ∈ more) : Listing more db :=
  { listing with named := fun name ref found => subset name (listing.named name ref found) }

/-! ### Adding an executor under a new name -/

theorem Listing.addNode {added : List String} (listing : Listing added db) (data : ServerData)
    (new : data.node ∉ added) :
    Listing (data.node :: added) (db.addNode data).2 ∧
      (db.Complete → (db.addNode data).2.Complete) := by
  have absent : db.executors.byName.lookup data.node = none := by
    cases found : db.executors.byName.lookup data.node with
    | none => rfl
    | some ref => exact absurd (listing.named _ _ found) new
  have prepared := addNode_prepared listing.wellFormed data
  have listed : ∀ ref, (ref < db.executors.fresh → some ref ∈ db.freeNodes) →
      (db.addNode data).2.executors.live ref = true → some ref ∈ (db.addNode data).2.freeNodes := by
    intro ref old alive
    have made := prepared.wellFormed.live_lt alive
    rw [addNode_of_absent absent] at made ⊢
    rcases Nat.lt_succ_iff_lt_or_eq.mp made with earlier | same
    · exact mem_append_left _ (old earlier)
    · rw [same]
      exact mem_append_right _ mem_cons_self
  have objects : ∀ ref, ref < db.executors.fresh →
      (db.addNode data).2.executors.objects ref = db.executors.objects ref := by
    intro ref old
    rw [addNode_of_absent absent]
    exact (makeShared_objects _ _ ref).trans (if_neg old.ne)
  refine ⟨⟨prepared.wellFormed, ?_, ?_, ?_⟩, ?_⟩
  · intro name ref found
    rw [addNode_of_absent absent] at found
    rcases Table.lookup_insert_eq_some.mp found with ⟨rfl, _⟩ | ⟨_, old⟩
    · exact mem_cons_self
    · exact mem_cons_of_mem _ (listing.named name ref old)
  · intro ref alive hasData idle
    refine listed ref (fun old => ?_) alive
    rw [objects ref old] at hasData idle
    exact listing.waiting ref (prepared.evolves.live_old ref old alive) hasData idle
  · intro id lease ref found node
    rw [(addNode_leases db data).1] at found
    obtain ⟨made, initialized⟩ := listing.leased id lease ref found node
    rw [objects ref made]
    exact ⟨lt_of_lt_of_le made prepared.evolves.fresh_le, initialized⟩
  · intro complete ref ⟨alive, available⟩
    refine listed ref (fun old => ?_) alive
    rw [objects ref old] at available
    exact complete ref ⟨prepared.evolves.live_old ref old alive, available⟩

theorem Listing.read {added : List String} (listing : Listing added db)
    {servers : List ServerData} (distinct : (servers.map ServerData.node).Nodup)
    (new : ∀ name ∈ servers.map ServerData.node, name ∉ added) :
    Listing (servers.map ServerData.node ++ added) (db.read servers) ∧
      (db.Complete → (db.read servers).Complete) := by
  induction servers generalizing db added with
  | nil => exact ⟨listing, id⟩
  | cons server rest inductionHypothesis =>
    rw [map_cons, nodup_cons] at distinct
    obtain ⟨first, completeFirst⟩ := listing.addNode server (new server.node mem_cons_self)
    obtain ⟨all, completeAll⟩ := inductionHypothesis first distinct.2 fun name member taken => by
      rcases mem_cons.mp taken with same | earlier
      · exact distinct.1 (same ▸ member)
      · exact new name (mem_cons_of_mem _ member) earlier
    refine ⟨all.mono fun name member => ?_, fun complete => completeAll (completeFirst complete)⟩
    simp only [map_cons, cons_append, mem_append, mem_cons] at member ⊢
    tauto

/-! ### Connections -/

/-- An operation that makes no executor with data and keeps the books of those that have some
preserves the invariant and completeness. -/
theorem Listing.rebind {added : List String} (listing : Listing added db) {executors : Executors}
    (prepared : Prepared db { db with executors := executors })
    (kept : ∀ ref, (executors.objects ref).hasData = true →
      Executor.Kept (db.executors.objects ref) (executors.objects ref))
    (named : ∀ name ref, executors.byName.lookup name = some ref → name ∈ added) :
    Listing added { db with executors := executors } ∧
      (db.Complete → Complete { db with executors := executors }) := by
  have before : ∀ ref, executors.live ref = true → (executors.objects ref).hasData = true →
      (db.executors.objects ref).hasData = true ∧ db.executors.live ref = true := by
    intro ref alive hasData
    have hadData : (db.executors.objects ref).hasData = true :=
      (congrArg Books.hasData (kept ref hasData).1).symm.trans hasData
    refine ⟨hadData, prepared.evolves.live_old ref (not_le.mp fun unmade => ?_) alive⟩
    exact absurd ((listing.wellFormed.unmade_blank ref unmade).1.symm.trans hadData) (by decide)
  refine ⟨⟨prepared.wellFormed, named, ?_, ?_⟩, ?_⟩
  · intro ref alive hasData idle
    obtain ⟨hadData, wasAlive⟩ := before ref alive hasData
    refine listing.waiting ref wasAlive hadData ?_
    by_contra initialized
    rw [(kept ref hasData).isInitialized (by simpa using initialized)] at idle
    cases idle
  · intro id lease ref found node
    obtain ⟨made, initialized⟩ := listing.leased id lease ref found node
    refine ⟨lt_of_lt_of_le made prepared.evolves.fresh_le, ?_⟩
    rcases prepared.evolves.old ref made with same | ⟨idle, _⟩
    · exact same.isInitialized initialized
    · rw [initialized] at idle
      cases idle
  · intro complete ref ⟨alive, initialized, cores, memory⟩
    have hasData := hasData_of_isInitialized prepared.wellFormed initialized
    obtain ⟨hadData, wasAlive⟩ := before ref alive hasData
    have freeCores : (executors.objects ref).freeCores = (db.executors.objects ref).freeCores :=
      congrArg Books.freeCores (kept ref hasData).1
    have freeMemory : (executors.objects ref).freeMemory =
        (db.executors.objects ref).freeMemory := congrArg Books.freeMemory (kept ref hasData).1
    -- an executor that this operation initialised has been waiting in the list
    cases initializedBefore : (db.executors.objects ref).isInitialized with
    | true => exact complete ref ⟨wasAlive, initializedBefore, freeCores ▸ cores,
        freeMemory ▸ memory⟩
    | false => exact listing.waiting ref wasAlive hadData initializedBefore

theorem connectExecutor_keeps {executors : Executors} {connection : Connection} {ref : ExecutorRef}
    (hasData : ((executors.connectExecutor connection).objects ref).hasData = true) :
    Executor.Kept (executors.objects ref) ((executors.connectExecutor connection).objects ref) := by
  have objects := makeShared_objects executors
    ((Executor.make executors.fresh).initializeConnection connection) ref
  simp only [connectExecutor] at hasData ⊢
  rw [objects] at hasData ⊢
  split at hasData
  · cases hasData
  · rename_i different
    rw [if_neg different]
    exact Executor.Kept.refl _

theorem registerExecutor_keeps {executors : Executors} (wellFormed : executors.WellFormed)
    (qpNum : UInt32) (name : String) (ref : ExecutorRef) :
    Executor.Kept (executors.objects ref)
      ((executors.registerExecutor qpNum name).2.objects ref) := by
  unfold registerExecutor
  split
  · exact Executor.Kept.refl _
  · rename_i connected found
    split
    · exact Executor.Kept.refl _
    · exact merge_kept (wellFormed.byConn_connected qpNum connected found) ref

theorem registerExecutor_named {executors : Executors} {qpNum : UInt32} {name other : String}
    {ref : ExecutorRef}
    (found : (executors.registerExecutor qpNum name).2.byName.lookup other = some ref) :
    other = name ∨ executors.byName.lookup other = some ref := by
  unfold registerExecutor at found
  split at found
  · exact Or.inr found
  · split at found
    · exact (Table.lookup_insert_eq_some.mp found).imp And.left And.right
    · exact Or.inr found

/-! ### Leases -/

/-- Charging an executor that is initialised changes neither who is initialised nor who has
data. -/
theorem store_flags (executors : Executors) (ref : ExecutorRef) (executor : Executor)
    (initialized : executor.isInitialized = (executors.objects ref).isInitialized)
    (hasData : executor.hasData = (executors.objects ref).hasData) (other : ExecutorRef) :
    ((executors.store ref executor).objects other).isInitialized =
        (executors.objects other).isInitialized ∧
      ((executors.store ref executor).objects other).hasData =
        (executors.objects other).hasData := by
  rw [store_objects]
  split
  · rename_i same
    rw [same]
    exact ⟨initialized, hasData⟩
  · exact ⟨rfl, rfl⟩

theorem grant_executors (db : ExecutorDB) (kept : List WeakExecutor) (ref : ExecutorRef)
    (leased : Executor) (rest : List WeakExecutor) (cores memory : Int) :
    (db.grant kept ref leased rest cores memory).executors = db.executors.store ref leased := rfl

/-- `open_lease` drops an entry of a live executor only when it grants the lease that fills
it. -/
theorem mem_grant_freeNodes {before rest : List WeakExecutor} {ref other : ExecutorRef}
    {leased : Executor} (cores memory : Int) (split : db.freeNodes = before ++ some ref :: rest)
    (listed : some other ∈ db.freeNodes) (alive : db.executors.live other = true)
    (stays : other ≠ ref ∨ leased.isFullyLeased = false) :
    some other ∈ (db.grant (before.filter (entryLive db.executors)) ref leased rest
      cores memory).freeNodes := by
  rw [split, mem_append, mem_cons] at listed
  simp only [grant, mem_append, mem_filter, entryLive_some]
  rcases listed with front | same | back
  · exact Or.inl ⟨front, alive⟩
  · have different : leased.isFullyLeased = false :=
      stays.resolve_left fun other => other (Option.some.inj same)
    rw [different, same]
    exact Or.inr mem_cons_self
  · refine Or.inr ?_
    split_ifs
    · exact back
    · exact mem_cons_of_mem _ back

theorem not_fullyLeased {executor : Executor} (cores : 0 < executor.freeCores)
    (memory : 0 < executor.freeMemory) : executor.isFullyLeased = false := by
  simp only [Executor.isFullyLeased, Bool.or_eq_false_iff, decide_eq_false_iff_not]
  omega

theorem Listing.openLease {added : List String} (listing : Listing added db) (cores memory : Int) :
    Listing added (db.openLease cores memory).2 ∧
      (db.Complete → (db.openLease cores memory).2.Complete) := by
  rcases openLease_cases db cores memory with
    ⟨_, same⟩ | ⟨before, ref, rest, response, split, _, fits, _, same⟩
  · rw [same]
    refine ⟨⟨listing.wellFormed, listing.named, fun ref alive hasData idle => ?_,
      listing.leased⟩, fun complete ref available => ?_⟩
    · rw [mem_filter, entryLive_some]
      exact ⟨listing.waiting ref alive hasData idle, alive⟩
    · rw [mem_filter, entryLive_some]
      exact ⟨complete ref available, available.1⟩
  · rw [same]
    have flags := store_flags db.executors ref (charged (db.executors.objects ref) cores memory)
      rfl rfl
    have hasData := hasData_of_isInitialized listing.wellFormed fits.2.1
    have made := listing.wellFormed.live_lt fits.1
    refine ⟨⟨store_wellFormed listing.wellFormed made rfl hasData, listing.named, ?_, ?_⟩, ?_⟩
    · intro other alive otherData idle
      have idleBefore := (flags other).1.symm.trans idle
      refine mem_grant_freeNodes cores memory split
        (listing.waiting other alive ((flags other).2.symm.trans otherData) idleBefore)
        alive (Or.inl fun sameRef => ?_)
      rw [sameRef, fits.2.1] at idleBefore
      cases idleBefore
    · intro id lease other found node
      refine And.imp_right (flags other).1.trans ?_
      rcases Table.lookup_emplace_cases found with ⟨_, rfl, _⟩ | earlier
      · cases node
        exact ⟨made, fits.2.1⟩
      · exact listing.leased id lease other earlier node
    · intro complete other ⟨alive, initialized, someCores, someMemory⟩
      rw [grant_executors, store_objects] at initialized someCores someMemory
      by_cases sameRef : other = ref
      · subst sameRef
        rw [if_pos rfl] at someCores someMemory
        refine mem_grant_freeNodes cores memory split ?_ alive
          (Or.inr (not_fullyLeased someCores someMemory))
        rw [split]
        exact mem_append_right _ mem_cons_self
      · rw [if_neg sameRef] at initialized someCores someMemory
        exact mem_grant_freeNodes cores memory split
          (complete other ⟨alive, initialized, someCores, someMemory⟩) alive (Or.inl sameRef)

theorem Listing.closeLease {added : List String} (listing : Listing added db)
    (msg : LeaseDeallocation) :
    Listing added (db.closeLease msg).2 ∧
      (db.Complete → ((db.closeLease msg).2.Complete ↔ db.ListsOnClose (.closeLease msg))) := by
  rcases closeLease_cases db msg with
    ⟨absent, same⟩ | ⟨lease, found, gone, same⟩ | ⟨lease, ref, found, node, alive, same⟩
  · rw [same]
    refine ⟨listing, fun complete => ⟨fun _ => ?_, fun _ => complete⟩⟩
    simp only [ListsOnClose, absent]
  · rw [same]
    refine ⟨listing, fun complete => ⟨fun _ => ?_, fun _ => complete⟩⟩
    simp only [ListsOnClose, found, gone]
  · obtain ⟨made, initialized⟩ := listing.leased _ lease ref found node
    have flags := store_flags db.executors ref
      ((db.executors.objects ref).cancelLease lease.cores lease.memory) rfl rfl
    have hasData := hasData_of_isInitialized listing.wellFormed initialized
    have grows : ∀ entry ∈ db.freeNodes,
        entry ∈ if lease.total then db.freeNodes ++ [some ref] else db.freeNodes := by
      intro entry member
      split_ifs
      · exact mem_append_left _ member
      · exact member
    rw [same]
    refine ⟨⟨store_wellFormed listing.wellFormed made rfl hasData, listing.named, ?_, ?_⟩, ?_⟩
    · intro other otherAlive otherData idle
      exact grows _ (listing.waiting other otherAlive ((flags other).2.symm.trans otherData)
        ((flags other).1.symm.trans idle))
    · intro id other otherRef otherFound otherNode
      exact (listing.leased id other otherRef otherFound otherNode).imp_right
        (flags otherRef).1.trans
    · intro complete
      simp only [ListsOnClose, found, lock_eq_some.mpr ⟨node, alive⟩]
      constructor
      · intro completeAfter
        by_contra bad
        simp only [not_or, Int.not_le] at bad
        obtain ⟨partly, unlisted, someCores, someMemory⟩ := bad
        have listed := completeAfter ref ⟨alive, (flags ref).1.trans initialized, by
          rw [store_objects, if_pos rfl]
          exact ⟨someCores, someMemory⟩⟩
        simp only [partly] at listed
        exact unlisted listed
      · intro lists other ⟨otherAlive, otherInitialized, someCores, someMemory⟩
        rw [store_objects] at otherInitialized someCores someMemory
        by_cases sameRef : other = ref
        · subst sameRef
          rw [if_pos rfl] at someCores someMemory
          rcases lists with total | listed | noCores | noMemory
          · simp only [total, if_true]
            exact mem_append_right _ mem_cons_self
          · exact grows _ listed
          · exact absurd someCores (Int.not_lt.mpr noCores)
          · exact absurd someMemory (Int.not_lt.mpr noMemory)
        · rw [if_neg sameRef] at otherInitialized someCores someMemory
          exact grows _ (complete other ⟨otherAlive, otherInitialized, someCores, someMemory⟩)

end ExecutorDB

/-! ### Runs -/

/-- The store with the names that were added so far. -/
structure Directory where
  db : ExecutorDB
  added : List String

namespace Directory

def empty : Directory where
  db := ExecutorDB.empty
  added := []

def step (directory : Directory) (op : StoreOp) : Directory where
  db := directory.db.step op
  added := op.addedNames ++ directory.added

/-- Names are added once, and only added names are registered. -/
def Orderly (directory : Directory) (op : StoreOp) : Prop :=
  op.addedNames.Nodup ∧ (∀ name ∈ op.addedNames, name ∉ directory.added) ∧
    match op with
    | .registerExecutor _ name => name ∈ directory.added
    | _ => True

instance (directory : Directory) : DecidablePred directory.Orderly
  | .registerExecutor _ _ => inferInstanceAs (Decidable (_ ∧ _ ∧ _))
  | .add _ _ _ _ _ | .read _ | .connectExecutor _ | .removeExecutor _ | .openLease _ _
  | .closeLease _ => inferInstanceAs (Decidable (_ ∧ _ ∧ True))

theorem step_listing {directory : Directory} {op : StoreOp}
    (listing : ExecutorDB.Listing directory.added directory.db) (orderly : directory.Orderly op) :
    ExecutorDB.Listing (directory.step op).added (directory.step op).db ∧
      (directory.db.Complete →
        ((directory.step op).db.Complete ↔ directory.db.ListsOnClose op)) := by
  have prepared : op.isSetup = true → ExecutorDB.Prepared directory.db (directory.db.step op) :=
    ExecutorDB.step_prepared listing.wellFormed
  obtain ⟨distinct, new, registered⟩ := orderly
  -- every operation but closing keeps the list complete without a condition
  have keeps : ∀ {after : Prop} {complete : Prop}, (complete → after) →
      (complete → (after ↔ True)) := fun kept complete => iff_true_intro (kept complete)
  cases op with
  | add nodeName ipAddress port cores memory =>
    simp only [step, StoreOp.addedNames, ExecutorDB.step, ExecutorDB.add_addNode] at new ⊢
    split
    · exact ⟨listing, keeps id⟩
    · rename_i long
      rw [if_neg long] at new
      exact (listing.addNode ⟨port, toInt16 cores, memory, ipAddress, nodeName⟩
        (new nodeName mem_cons_self)).imp_right keeps
  | read servers => exact (listing.read distinct new).imp_right keeps
  | connectExecutor =>
    exact (listing.rebind (prepared rfl) (fun _ => ExecutorDB.connectExecutor_keeps)
      listing.named).imp_right keeps
  | registerExecutor qpNum name =>
    refine (listing.rebind (prepared rfl)
      (fun ref _ => ExecutorDB.registerExecutor_keeps listing.wellFormed qpNum name ref)
      fun other ref found => ?_).imp_right keeps
    rcases ExecutorDB.registerExecutor_named found with same | earlier
    · rw [same]
      exact registered
    · exact listing.named other ref earlier
  | removeExecutor qpNum =>
    refine (listing.rebind (prepared rfl) (fun ref _ => ?_)
      fun name ref found => listing.named name ref
        (removeExecutor_named found)).imp_right keeps
    rw [removeExecutor_objects]
    exact Executor.Kept.refl _
  | openLease cores memory => exact (listing.openLease cores memory).imp_right keeps
  | closeLease msg => exact listing.closeLease msg

/-- In an orderly run the free list is complete in every state exactly if every lease that is
closed is total, or on a listed executor, or on one that still has nothing to offer. -/
theorem always_complete_iff (events : List StoreOp) (orderly : Along step Orderly empty events) :
    Always step (fun directory => directory.db.Complete) empty events ↔
      Along step (fun directory op => directory.db.ListsOnClose op) empty events :=
  always_iff_along
    (fun _ _ listing allowed => (step_listing listing allowed).1)
    (fun _ _ listing allowed => (step_listing listing allowed).2)
    ExecutorDB.empty_listing (fun _ available => by cases available.1) orderly

/-- Two leases of 2 cores each on a node of 4 cores. The second one is total. -/
def sharedNode : List StoreOp :=
  [.read [⟨10000, 4, 1024, "10.0.0.1", "n1"⟩], .connectExecutor ⟨0, 7⟩,
    .registerExecutor 7 "n1", .openLease 2 256, .openLease 2 256]

/-- Closing the total lease first keeps the list complete. -/
theorem sharedNode_complete :
    Always step (fun directory => directory.db.Complete) empty
      (sharedNode ++ [.closeLease ⟨1, 0, 0, 0⟩, .closeLease ⟨0, 0, 0, 0⟩]) :=
  (always_complete_iff _ (by decide)).mpr (by decide)

/-- Closing the other lease first leaves 2 cores free on a node that no request can find. -/
theorem sharedNode_lost :
    Along step Orderly empty (sharedNode ++ [.closeLease ⟨0, 0, 0, 0⟩]) ∧
      (let db := (run step empty (sharedNode ++ [.closeLease ⟨0, 0, 0, 0⟩])).db
      db.Available 0 ∧ (db.executors.objects 0).freeCores = 2 ∧ db.freeNodes = [] ∧
        ¬ db.Complete ∧ (db.openLease 1 128).1 = none) := by
  have lost : (run step empty
      (sharedNode ++ [.closeLease ⟨0, 0, 0, 0⟩])).db.freeNodes = [] := by decide
  have available : (run step empty
      (sharedNode ++ [.closeLease ⟨0, 0, 0, 0⟩])).db.Available 0 := by
    unfold ExecutorDB.Available
    decide
  refine ⟨by decide, available, by decide, lost, fun complete => ?_, by decide⟩
  have listed := complete 0 available
  rw [lost] at listed
  cases listed

end Directory

end RFaaS
