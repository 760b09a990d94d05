/-
This file is about where the resource manager reads the messages of its
executors. The receives of a connection are posted into the buffer of the
executor that was made for it, and a message is read from the buffer of the
executor that its queue pair leads to by then. A registration under a known name
moves the buffers of the one executor into the other one, with an assignment
that clears its source last, even where source and target are the same.

Every queue pair leads to its own buffer exactly as long as nobody registers
under the name of an executor that a queue pair already leads to. A connection
that registers twice is left without a buffer; of two connections under one name
the first one is read from the buffer of the second.
-/

import RFaaS.Registry

namespace RFaaS

open Transition Executors

namespace Registry

/-- The executor that a queue pair leads to has a buffer, and it is the one that the receives of
the queue pair were posted with. -/
def Decodes (registry : Registry) : Prop :=
  ∀ qpNum ref, registry.db.executors.byConn.lookup qpNum = some ref →
    ∃ connection region, registry.current.lookup qpNum = some connection ∧
      registry.db.executors.receives.lookup connection = some (some region) ∧
      (registry.db.executors.objects ref).receiveBuffer.ptr = some region

/-- A registration under a known name finds an executor that no queue pair leads to. -/
def Unclaimed (registry : Registry) : StoreOp → Prop
  | .registerExecutor qpNum name => ∀ connected,
    registry.db.executors.byConn.lookup qpNum = some connected →
      ∀ named, registry.db.executors.byName.lookup name = some named →
        ∀ other, registry.db.executors.byConn.lookup other ≠ some named
  | _ => True

/-! ### The regions of the connections -/

/-- Every queue pair has receives in a region of its own: that of the executor that was made for
it. -/
structure Apart (executors : Executors) (current : Table UInt32 Connection) : Prop where
  own : ∀ qpNum connection, current.lookup qpNum = some connection → connection.qpNum = qpNum
  made : ∀ qpNum connection, current.lookup qpNum = some connection →
    ∃ ref < executors.fresh, executors.receives.lookup connection = some (some (2 * ref))
  distinct : ∀ first second one two, current.lookup first = some one →
    current.lookup second = some two →
    executors.receives.lookup one = executors.receives.lookup two → first = second

variable {executors : Executors} {current : Table UInt32 Connection}

theorem Apart.frame (apart : Apart executors current) {after : Executors}
    (fresh : executors.fresh ≤ after.fresh) (receives : after.receives = executors.receives) :
    Apart after current where
  own := apart.own
  made qpNum connection entered := by
    obtain ⟨ref, older, posted⟩ := apart.made qpNum connection entered
    exact ⟨ref, lt_of_lt_of_le older fresh, by rw [receives]; exact posted⟩
  distinct := by
    rw [receives]
    exact apart.distinct

/-- A connection gets the region of an executor that did not exist before. -/
theorem Apart.connect (apart : Apart executors current) (connection : Connection) :
    Apart (executors.connectExecutor connection) (current.insert connection.qpNum connection) := by
  have entered_cases {qpNum : UInt32} {other : Connection}
      (entered : (current.insert connection.qpNum connection).lookup qpNum = some other) :
      qpNum = connection.qpNum ∧ other = connection ∨
        qpNum ≠ connection.qpNum ∧ current.lookup qpNum = some other ∧ other ≠ connection := by
    refine (Table.lookup_insert_eq_some.mp entered).imp_right fun old => ⟨old.1, old.2, ?_⟩
    rintro rfl
    exact old.1 (apart.own qpNum other old.2).symm
  have posted (other : Connection) :
      (executors.connectExecutor connection).receives.lookup other =
        if other = connection then some (some (2 * executors.fresh))
        else executors.receives.lookup other :=
    Table.lookup_insert_eq _ _ _ _
  have older {qpNum : UInt32} {other : Connection} (entered : current.lookup qpNum = some other) :
      executors.receives.lookup other ≠ some (some (2 * executors.fresh)) := by
    intro same
    obtain ⟨ref, less, stored⟩ := apart.made qpNum other entered
    rw [stored] at same
    exact less.ne (Nat.eq_of_mul_eq_mul_left Nat.two_pos (Option.some.inj (Option.some.inj same)))
  refine ⟨fun qpNum other entered => ?_, fun qpNum other entered => ?_,
    fun first second one two left right same => ?_⟩
  · rcases entered_cases entered with ⟨here, rfl⟩ | ⟨_, old, _⟩
    · exact here.symm
    · exact apart.own qpNum other old
  · rw [posted]
    rcases entered_cases entered with ⟨_, rfl⟩ | ⟨_, old, differs⟩
    · exact ⟨executors.fresh, Nat.lt_succ_self _, if_pos rfl⟩
    · obtain ⟨ref, less, stored⟩ := apart.made qpNum other old
      exact ⟨ref, Nat.lt_succ_of_lt less, by rw [if_neg differs]; exact stored⟩
  · rw [posted, posted] at same
    rcases entered_cases left with ⟨here, rfl⟩ | ⟨_, old, differs⟩
    · rcases entered_cases right with ⟨there, _⟩ | ⟨_, new, differs⟩
      · rw [here, there]
      · rw [if_pos rfl, if_neg differs] at same
        exact absurd same.symm (older new)
    · rcases entered_cases right with ⟨_, rfl⟩ | ⟨_, new, other⟩
      · rw [if_neg differs, if_pos rfl] at same
        exact absurd same (older old)
      · rw [if_neg differs, if_neg other] at same
        exact apart.distinct first second one two old new same

theorem Apart.erase (apart : Apart executors current) (qpNum : UInt32) :
    Apart executors (current.erase qpNum) := by
  have fewer {other : UInt32} {connection : Connection}
      (entered : (current.erase qpNum).lookup other = some connection) :
      current.lookup other = some connection :=
    (Table.lookup_erase_eq_some.mp entered).2
  exact ⟨fun other connection entered => apart.own other connection (fewer entered),
    fun other connection entered => apart.made other connection (fewer entered),
    fun first second one two left right =>
      apart.distinct first second one two (fewer left) (fewer right)⟩

/-- What holds in every run, disciplined or not. -/
structure Spread (registry : Registry) : Prop where
  consistent : registry.db.Consistent
  apart : Apart registry.db.executors registry.current

theorem start_spread : start.Spread where
  consistent := ExecutorDB.empty_consistent
  apart :=
    { own := fun _ _ found => by cases found
      made := fun _ _ found => by cases found
      distinct := fun _ _ _ _ found => by cases found }

/-- What concerns neither the connections nor the buffers. -/
theorem read_sameConnections (db : ExecutorDB) (servers : List ServerData) :
    SameConnections db.executors (db.read servers).executors := by
  refine @ExecutorDB.read_rule
    (fun after => SameConnections db.executors after.executors)
    (fun after server same => same.trans ?_) db (.refl _) servers
  rw [ExecutorDB.addNode_executors]
  exact addExecutor_sameConnections _ server

theorem add_sameConnections (db : ExecutorDB) (nodeName ipAddress : String)
    (port cores memory : Int) :
    SameConnections db.executors
      (db.add nodeName ipAddress port cores memory).2.executors := by
  rw [ExecutorDB.add_addNode]
  split
  · exact .refl _
  · rw [ExecutorDB.addNode_executors]
    exact addExecutor_sameConnections _ _

theorem register_receives (executors : Executors) (qpNum : UInt32) (name : String) :
    (executors.registerExecutor qpNum name).2.receives = executors.receives ∧
      (executors.registerExecutor qpNum name).2.fresh = executors.fresh := by
  unfold registerExecutor
  split
  · exact ⟨rfl, rfl⟩
  · split <;> exact ⟨rfl, rfl⟩

theorem remove_receives (executors : Executors) (qpNum : UInt32) :
    (executors.removeExecutor qpNum).2.receives = executors.receives ∧
      (executors.removeExecutor qpNum).2.fresh = executors.fresh := by
  unfold removeExecutor
  split <;> exact ⟨rfl, rfl⟩

theorem Spread.step {registry : Registry} (spread : registry.Spread) (op : StoreOp) :
    (registry.step op).Spread := by
  refine ⟨spread.consistent.step op, ?_⟩
  have apart := spread.apart
  have kept {after : Executors}
      (same : SameConnections registry.db.executors after) :
      Apart after registry.current := apart.frame same.fresh_le same.receives
  cases op with
  | add nodeName ipAddress port cores memory =>
    exact kept (add_sameConnections registry.db nodeName ipAddress port cores memory)
  | read servers => exact kept (read_sameConnections registry.db servers)
  | connectExecutor connection => exact apart.connect connection
  | registerExecutor qpNum name =>
    obtain ⟨receives, fresh⟩ := register_receives registry.db.executors qpNum name
    exact apart.frame fresh.ge receives
  | removeExecutor qpNum =>
    obtain ⟨receives, fresh⟩ := remove_receives registry.db.executors qpNum
    exact (apart.erase qpNum).frame fresh.ge receives
  | _ => exact kept (ExecutorDB.lease_frame registry.db rfl).1

/-! ### The buffers -/

variable {registry : Registry}

theorem Decodes.frame (decodes : registry.Decodes) (wellFormed : registry.db.executors.WellFormed)
    {after : ExecutorDB} (same : SameConnections registry.db.executors after.executors) :
    Decodes ⟨after, registry.current⟩ := by
  intro qpNum ref found
  dsimp only at found ⊢
  rw [same.byConn] at found
  rw [same.receives, same.receiveBuffer ref (wellFormed.byConn_lt qpNum ref found)]
  exact decodes qpNum ref found

theorem Decodes.connect (decodes : registry.Decodes) (spread : registry.Spread)
    (connection : Connection) : (registry.step (.connectExecutor connection)).Decodes := by
  intro qpNum ref found
  replace found : (registry.db.executors.byConn.insert connection.qpNum
    registry.db.executors.fresh).lookup qpNum = some ref := found
  show ∃ other region, (registry.current.insert connection.qpNum connection).lookup qpNum =
      some other ∧ (registry.db.executors.receives.insert connection
        (some (2 * registry.db.executors.fresh))).lookup other = some (some region) ∧
    ((registry.db.executors.connectExecutor connection).objects ref).receiveBuffer.ptr =
      some region
  rw [Table.lookup_insert_eq, connectExecutor_objects]
  rcases Table.lookup_insert_eq_some.mp found with ⟨rfl, rfl⟩ | ⟨differs, found⟩
  · rw [if_pos rfl, if_pos rfl]
    exact ⟨connection, 2 * registry.db.executors.fresh, rfl, AList.lookup_insert _, rfl⟩
  · obtain ⟨other, region, entered, posted, holds⟩ := decodes qpNum ref found
    have another : other ≠ connection := by
      rintro rfl
      exact differs (spread.apart.own qpNum other entered).symm
    rw [if_neg differs, if_neg (spread.consistent.wellFormed.byConn_lt qpNum ref found).ne]
    exact ⟨other, region, entered, by rw [Table.lookup_insert_eq, if_neg another]; exact posted,
      holds⟩

theorem remove_linked {qpNum other : UInt32} {ref : ExecutorRef}
    (linked : (executors.removeExecutor qpNum).2.byConn.lookup other = some ref) :
    other ≠ qpNum ∧ executors.byConn.lookup other = some ref := by
  unfold removeExecutor at linked
  split at linked
  · rename_i absent
    refine ⟨?_, linked⟩
    rintro rfl
    rw [absent] at linked
    cases linked
  · exact Table.lookup_erase_eq_some.mp linked

theorem Decodes.remove (decodes : registry.Decodes) (qpNum : UInt32) :
    (registry.step (.removeExecutor qpNum)).Decodes := by
  intro other ref linked
  obtain ⟨differs, found⟩ := remove_linked linked
  show ∃ connection region, (registry.current.erase qpNum).lookup other = some connection ∧
    (registry.db.executors.removeExecutor qpNum).2.receives.lookup connection =
      some (some region) ∧
    ((registry.db.executors.removeExecutor qpNum).2.objects ref).receiveBuffer.ptr = some region
  rw [Table.lookup_erase_eq, if_neg differs, (remove_receives _ qpNum).1,
    removeExecutor_objects]
  exact decodes other ref found

/-- Two queue pairs that lead to one executor cannot both have their own buffer. -/
theorem Decodes.injective (decodes : registry.Decodes)
    (apart : Apart registry.db.executors registry.current) {first second : UInt32}
    {ref : ExecutorRef} (one : registry.db.executors.byConn.lookup first = some ref)
    (two : registry.db.executors.byConn.lookup second = some ref) : first = second := by
  obtain ⟨left, region, entered, posted, holds⟩ := decodes first ref one
  obtain ⟨right, other, again, stored, also⟩ := decodes second ref two
  rw [holds] at also
  refine apart.distinct first second left right entered again ?_
  rw [posted, stored, Option.some.inj also]

/-- A registration under a known name leaves every queue pair with its own buffer exactly if no
queue pair leads to the executor of that name. -/
theorem merge_decodes_iff (decodes : registry.Decodes) (spread : registry.Spread) {qpNum : UInt32}
    {connected named : ExecutorRef}
    (found : registry.db.executors.byConn.lookup qpNum = some connected) :
    Decodes ⟨{ registry.db with executors :=
        { registry.db.executors.merge named connected with
          byConn := registry.db.executors.byConn.insert qpNum named } }, registry.current⟩ ↔
      ∀ other, registry.db.executors.byConn.lookup other ≠ some named := by
  have buffer (ref : ExecutorRef) :
      ((registry.db.executors.merge named connected).objects ref).receiveBuffer =
        if ref = connected then (registry.db.executors.objects connected).receiveBuffer.moved
        else if ref = named then (registry.db.executors.objects connected).receiveBuffer
        else (registry.db.executors.objects ref).receiveBuffer := by
    rw [merge_objects]
  constructor
  · intro after other linked
    have here : (registry.db.executors.byConn.insert qpNum named).lookup qpNum = some named :=
      AList.lookup_insert _
    by_cases same : other = qpNum
    · -- The assignment has cleared the buffer of the one executor there is.
      rw [same, found] at linked
      obtain ⟨_, region, _, _, holds⟩ := after qpNum named here
      replace holds : ((registry.db.executors.merge named connected).objects
        named).receiveBuffer.ptr = some region := holds
      rw [buffer, if_pos (Option.some.inj linked).symm] at holds
      cases holds
    · have there : (registry.db.executors.byConn.insert qpNum named).lookup other = some named :=
        Table.lookup_insert_eq_some.mpr (Or.inr ⟨same, linked⟩)
      exact same (after.injective ⟨spread.apart.own, spread.apart.made, spread.apart.distinct⟩ there
        here)
  · intro unclaimed qp ref linked
    have different : named ≠ connected := by
      rintro rfl
      exact unclaimed qpNum found
    dsimp only at linked ⊢
    rcases Table.lookup_insert_eq_some.mp linked with ⟨rfl, rfl⟩ | ⟨differs, old⟩
    · rw [buffer, if_neg different, if_pos rfl]
      exact decodes qp connected found
    · have other : ref ≠ named := by
        rintro rfl
        exact unclaimed qp old
      have another : ref ≠ connected := by
        rintro rfl
        exact differs (decodes.injective spread.apart old found)
      rw [buffer, if_neg another, if_neg other]
      exact decodes qp ref old

/-! ### Runs -/

theorem step_decodes_iff (spread : registry.Spread) (decodes : registry.Decodes) (op : StoreOp) :
    (registry.step op).Decodes ↔ registry.Unclaimed op := by
  have wellFormed := spread.consistent.wellFormed
  cases op with
  | registerExecutor qpNum name =>
    show Decodes ⟨{ registry.db with
      executors := (registry.db.executors.registerExecutor qpNum name).2 }, registry.current⟩ ↔ _
    unfold registerExecutor
    cases found : registry.db.executors.byConn.lookup qpNum with
    | none =>
      refine iff_of_true decodes fun connected linked => ?_
      rw [found] at linked
      cases linked
    | some connected =>
      dsimp only
      cases present : registry.db.executors.byName.lookup name with
      | none =>
        refine iff_of_true decodes fun _ _ named label => ?_
        rw [present] at label
        cases label
      | some named =>
        refine (merge_decodes_iff decodes spread found).trans ⟨fun unclaimed _ _ other label => ?_,
          fun unclaimed => unclaimed connected found named present⟩
        rw [present] at label
        rw [← Option.some.inj label]
        exact unclaimed
  | add nodeName ipAddress port cores memory =>
    exact iff_of_true (decodes.frame wellFormed
      (add_sameConnections registry.db nodeName ipAddress port cores memory)) trivial
  | read servers =>
    exact iff_of_true (decodes.frame wellFormed (read_sameConnections registry.db servers)) trivial
  | connectExecutor connection => exact iff_of_true (decodes.connect spread connection) trivial
  | removeExecutor qpNum => exact iff_of_true (decodes.remove qpNum) trivial
  | _ =>
    exact iff_of_true (decodes.frame wellFormed (ExecutorDB.lease_frame registry.db rfl).1) trivial

/-- Whatever the store is asked to do: every queue pair leads to the buffer that its receives were
posted with, all along the run, exactly if every registration under a known name finds an executor
that no queue pair leads to. -/
theorem messages_decoded_iff (ops : List StoreOp) :
    Always step Decodes start ops ↔ Along step Unclaimed start ops :=
  always_iff_along_of_stable (fun _ op spread => spread.step op)
    (fun _ op spread decodes => step_decodes_iff spread decodes op) start_spread
    fun _ _ found => by cases found

/-- A connection that registers twice under one name is left without a buffer. -/
theorem repeated_registration_loses_buffer :
    let executors := (run step start [.connectExecutor ⟨0, 7⟩,
      .registerExecutor 7 "n1", .registerExecutor 7 "n1"]).db.executors
    executors.byConn.lookup 7 = some 0 ∧ (executors.objects 0).receiveBuffer.ptr = none ∧
      executors.receives.lookup ⟨0, 7⟩ = some (some 0) := by
  decide +kernel

/-- Of two connections under one name, the first is read from the buffer of the second. -/
example :
    let executors := (run step start [.connectExecutor ⟨0, 7⟩,
      .registerExecutor 7 "n1", .connectExecutor ⟨1, 8⟩, .registerExecutor 8 "n1"]).db.executors
    executors.byConn.lookup 7 = some 0 ∧ (executors.objects 0).receiveBuffer.ptr = some 2 ∧
      executors.receives.lookup ⟨0, 7⟩ = some (some 0) := by
  decide +kernel

end Registry

end RFaaS
