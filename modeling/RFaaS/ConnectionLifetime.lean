/-
This file follows the connections of the executor manager from the listener,
which makes them, to the destructors that delete them. Raw pointers to a
connection are in the queue, in the list of disconnections, in a client and in
its executor, and four places delete through them.

A connection has one owner: an entry of the queue that asks for it to be
connected, a client, or a client's executor. All handlers but one touch what
their owner has. The exception is the end of a connection: its entry in the
queue owns nothing, and the handler dereferences it. So no deleted connection is
ever used exactly if every connection that ends is still there when its end is
handled. The polling and the sleeping loop are alike in this.
-/

import RFaaS.Effects
import RFaaS.GiveBack
import RFaaS.Lifetime

namespace RFaaS

namespace ExecutorManager

open Lifetime Transition Multiset

/-! ### Accesses -/

/-- The access to a connection that an effect is. -/
def Effect.access? : Effect → Option (Access Connection)
  | .use connection => some (.use connection)
  | .delete connection => some (.free connection)
  | _ => none

/-- The accesses to connections among effects. -/
def accesses (effects : List Effect) : List (Access Connection) :=
  effects.filterMap Effect.access?

@[simp] theorem accesses_nil : accesses [] = [] := rfl

@[simp] theorem accesses_append (first second : List Effect) :
    accesses (first ++ second) = accesses first ++ accesses second :=
  List.filterMap_append

variable (connection : Connection)

@[simp] theorem accesses_use (rest : List Effect) :
    accesses (.use connection :: rest) = .use connection :: accesses rest := rfl

@[simp] theorem accesses_delete (rest : List Effect) :
    accesses (.delete connection :: rest) = .free connection :: accesses rest := rfl

@[simp] theorem accesses_fork (serial : Nat) (lease : Lease) (pid : Int) (rest : List Effect) :
    accesses (.fork serial lease pid :: rest) = accesses rest := rfl

@[simp] theorem accesses_answer (serial : Nat) (status : LeaseStatus) (rest : List Effect) :
    accesses (.answer serial status :: rest) = accesses rest := rfl

@[simp] theorem accesses_adopt (executor : Option ActiveExecutor) (connection : Connection)
    (rest : List Effect) :
    accesses (.adopt executor connection :: rest) = accesses rest := rfl

@[simp] theorem accesses_leave (serial : Nat) (rest : List Effect) :
    accesses (.leave serial :: rest) = accesses rest := rfl

theorem accesses_map_delete (connections : List Connection) :
    accesses (connections.map .delete) = connections.map .free := by
  induction connections with
  | nil => rfl
  | cons connection rest inductionHypothesis =>
    exact congrArg (.free connection :: ·) inductionHypothesis

theorem accesses_flatMap {Entry : Type} (entries : List Entry) (effects : Entry → List Effect) :
    accesses (entries.flatMap effects) = entries.flatMap fun entry => accesses (effects entry) := by
  unfold accesses
  rw [List.filterMap_flatMap]

theorem accesses_leaves {Entry : Type} (entries : List Entry) (serial : Entry → Nat) :
    accesses (entries.map fun entry => .leave (serial entry)) = [] := by
  induction entries with
  | nil => rfl
  | cons entry rest inductionHypothesis => exact inductionHypothesis

/-! ### Owners -/

/-- A connection is used for the last time and deleted. -/
theorem useFree_settles : Settles {connection} [.use connection, .free connection] 0 :=
  (Settles.use (mem_singleton_self connection)).trans
    (nodup_singleton connection) (.freeAll (List.nodup_singleton connection))

namespace Client

/-- The connections of the client's executor. -/
def crew (client : Client) : List Connection :=
  client.executor.toList.flatMap ActiveExecutor.connections

/-- The connections that a client owns. -/
def owned (client : Client) : Multiset Connection :=
  (client.connection.toList : Multiset Connection) + (client.crew : Multiset Connection)

variable (client : Client)

theorem accesses_resetEffects : accesses client.resetEffects = client.crew.map .free := by
  unfold resetEffects crew
  cases client.executor with
  | none => rfl
  | some executor =>
    simp only [Option.toList_some, List.flatMap_singleton]
    exact accesses_map_delete executor.connections

@[simp] theorem accesses_killEffects : accesses client.killEffects = [] := by
  unfold killEffects
  cases client.executor <;> rfl

theorem accesses_waitEffects : accesses client.waitEffects = [] := by
  unfold waitEffects
  split
  · cases client.executor <;> rfl
  · rfl

theorem reset_settles (distinct : client.crew.Nodup) :
    Settles (client.crew : Multiset Connection) (accesses client.resetEffects) 0 := by
  rw [accesses_resetEffects]
  exact .freeAll distinct

theorem close_settles :
    Settles (client.connection.toList : Multiset Connection) (accesses client.closeEffects) 0 := by
  unfold closeEffects
  cases client.connection with
  | none => exact .refl 0
  | some connection => exact useFree_settles connection

theorem own_use_settles :
    Settles (client.connection.toList : Multiset Connection) (accesses client.useEffects)
      (client.connection.toList : Multiset Connection) := by
  unfold useEffects
  cases client.connection with
  | none => exact .refl 0
  | some => exact .use (List.mem_singleton.mpr rfl)

theorem use_settles : Settles client.owned (accesses client.useEffects) client.owned :=
  client.own_use_settles.frame (client.crew : Multiset Connection)

section Distinct

variable {client : Client} (distinct : client.owned.Nodup)

include distinct

theorem crew_nodup : client.crew.Nodup :=
  coe_nodup.mp (nodup_add.mp distinct).2.1

theorem reset_settles_owned :
    Settles client.owned (accesses client.resetEffects)
      (client.connection.toList : Multiset Connection) := by
  have settles := (client.reset_settles (crew_nodup distinct)).frame
    (client.connection.toList : Multiset Connection)
  rwa [zero_add, add_comm] at settles

theorem destroy_settles : Settles client.owned (accesses client.destroyEffects) 0 := by
  rw [destroyEffects, accesses_append]
  have closed := client.close_settles.frame (client.crew : Multiset Connection)
  rw [zero_add] at closed
  exact closed.trans distinct (client.reset_settles (crew_nodup distinct))

theorem disable_settles : Settles client.owned (accesses client.disableEffects) 0 := by
  simp only [disableEffects, accesses_append, accesses_killEffects, List.append_nil]
  exact (client.use_settles.trans distinct (reset_settles_owned distinct)).trans distinct
    client.close_settles

/-- The check of a client's executor frees all that the client has, if the process runs no more,
and nothing otherwise. -/
theorem check_settles (exited : List Int) :
    Settles client.owned (accesses (client.checkEffects exited))
      (if client.finished exited then 0 else client.owned) := by
  rw [checkEffects, accesses_append, accesses_waitEffects, List.nil_append]
  split
  · rw [accesses_append]
    have idle : ({ client with executor := none } : Client).owned =
        (client.connection.toList : Multiset Connection) := add_zero _
    have rest : (client.connection.toList : Multiset Connection).Nodup :=
      (nodup_add.mp distinct).1
    have last := @disable_settles { client with executor := none } (by rw [idle]; exact rest)
    rw [idle] at last
    exact (reset_settles_owned distinct).trans distinct last
  · exact .refl _

end Distinct

end Client

/-- The connections that an entry of the queue owns. -/
def Operation.owned : Operation → Multiset Connection
  | .connect (.executor connection) => {connection}
  | .connect (.client client) => client.owned
  | .disconnect _ => 0

/-- The end of a connection in the queue owns nothing. -/
theorem ownedBy_ended {queue rest : List Operation} {connection : Connection}
    (same : rest = queue ∨ queue = .disconnect connection :: rest)
    (clients : Table UInt32 Client) :
    ownedBy Operation.owned Client.owned queue clients =
      ownedBy Operation.owned Client.owned rest clients := by
  rcases same with same | taken
  · rw [same]
  · rw [taken, ownedBy_cons, Operation.owned, zero_add]

/-- The connection that an event brings. -/
def arriving : Event → List Connection
  | .requested connection _ _ => [connection]
  | _ => []

/-! ### One step -/

namespace Manager

variable {manager : Manager} {event : Event} {queue : List Operation}
  {clients : Table UInt32 Client} {fault : Bool} {ended : Option Connection}
  {effects : List Effect}

/-- Apart from the connection whose end it is about, an event touches connections only through
their owners. -/
theorem Happens.settles (happens : Happens manager event queue clients fault ended effects)
    (distinct : ((arriving event : Multiset Connection) +
      ownedBy Operation.owned Client.owned manager.clientQueue manager.clients).Nodup) :
    ∃ own, accesses effects = ended.toList.map .use ++ own ∧
      Settles ((arriving event : Multiset Connection) +
          ownedBy Operation.owned Client.owned manager.clientQueue manager.clients) own
        (ownedBy Operation.owned Client.owned queue clients) := by
  have before := (nodup_add.mp distinct).2.1
  have less := le_add_left
    (ownedBy Operation.owned Client.owned manager.clientQueue manager.clients)
    (arriving event : Multiset Connection)
  cases happens with
  | rests => exact ⟨[], rfl, .of_le less⟩
  | @rejected connection _ _ arrival =>
    rw [arrival]
    have settles := (useFree_settles connection).frame
      (ownedBy Operation.owned Client.owned manager.clientQueue manager.clients)
    rw [zero_add] at settles
    exact ⟨_, rfl, settles⟩
  | @accepted connection _ _ arrival positive =>
    rw [arrival, ownedBy_append]
    exact ⟨_, rfl, .use (mem_add.mpr (Or.inl (mem_singleton_self connection)))⟩
  | @joined connection _ _ client arrival own idle serial active fresh =>
    have new : client.owned = {connection} := by
      rw [Client.owned, Client.crew, own, idle]
      rfl
    rw [arrival, ownedBy_append, Operation.owned, new]
    exact ⟨_, rfl, .use (mem_add.mpr (Or.inl (mem_singleton_self connection)))⟩
  | ended arrival =>
    rw [ownedBy_append, Operation.owned, zero_add]
    exact ⟨[], rfl, .of_le less⟩
  | accounted found =>
    refine ⟨[], rfl, .of_le (le_of_eq_of_le ?_ less)⟩
    rw [ownedBy_insert, ownedBy_of_lookup _ found]
    rfl
  | deferred head =>
    refine ⟨[], rfl, .of_le (le_of_eq_of_le ?_ less)⟩
    rw [head, ownedBy_cons, Operation.owned, zero_add]
  | @unmatched connection rest head absent =>
    rw [head] at before less ⊢
    have settles := head_settles before fun _ => useFree_settles connection
    rw [zero_add] at settles
    exact ⟨_, rfl, settles.mono less le_rfl⟩
  | @orphaned connection rest client head found idle =>
    -- The client has no executor, and the connection is left without an owner.
    rw [head] at before less ⊢
    have settles := head_settles before fun _ =>
      Settles.use (mem_singleton_self connection)
    exact ⟨_, rfl, settles.mono less (le_add_left _ _)⟩
  | @adopted connection rest client executor head found busy =>
    -- The connection changes its owner, from the queue to the executor of the client.
    rw [head] at before less ⊢
    have settles := head_settles before fun _ =>
      Settles.use (mem_singleton_self connection)
    refine ⟨_, rfl, settles.mono less (le_of_eq ?_)⟩
    rw [ownedBy_insert, ownedBy_of_lookup queue found, ← add_assoc]
    congr 1
    simp only [Client.owned, Client.crew, busy, Option.toList_some, List.flatMap_singleton,
      ActiveExecutor.addExecutor, Operation.owned, ← coe_add, coe_singleton]
    rw [← add_assoc]
    exact add_comm _ _
  | hollow head closed =>
    rw [head] at less ⊢
    refine ⟨[], rfl, .of_le (le_trans ?_ less)⟩
    rw [ownedBy_cons]
    exact le_add_left _ _
  | @entered client rest connection id node head own absent =>
    rw [head] at before less ⊢
    have settles := head_settles before fun _ => client.use_settles
    refine ⟨_, rfl, settles.mono less (le_of_eq ?_)⟩
    rw [ownedBy_insert, Table.erase_of_none absent]
    rfl
  | @clashed client rest connection other head own found =>
    rw [head] at before less ⊢
    have settles := head_settles before fun distinct =>
      client.use_settles.trans distinct (Client.destroy_settles distinct)
    rw [zero_add] at settles
    exact ⟨_, accesses_append _ _, settles.mono less le_rfl⟩
  | passed same absent =>
    rw [ownedBy_ended same] at less ⊢
    exact ⟨[], rfl, .of_le less⟩
  | dropped same found =>
    rw [ownedBy_ended same] at before less ⊢
    have settles := value_settles found before Client.destroy_settles
    rw [zero_add] at settles
    exact ⟨_, rfl, settles.mono less le_rfl⟩
  | @served qpNum client lease chance request turn asked found present =>
    have settles := value_settles found before fun distinct =>
      (client.use_settles.trans distinct (Client.reset_settles_owned distinct)).trans distinct
        client.own_use_settles
    refine ⟨_, ?_, settles.mono less (le_of_eq ?_)⟩
    · simp
    · rw [ownedBy_insert]
      exact congrArg (· + _) (add_zero _)
  | left found =>
    have settles := value_settles found before Client.disable_settles
    rw [zero_add] at settles
    exact ⟨_, by simp, settles.mono less le_rfl⟩
  | checked kept =>
    have settles := values_settle
      (fun client distinct => Client.check_settles distinct manager.exited) before
    refine ⟨_, ?_, settles.mono less (le_of_eq ?_)⟩
    · rw [checkExecutorsEffects, accesses_append, accesses_flatMap, accesses_leaves,
        List.append_nil]
      rfl
    · rw [ownedBy, Table.values_of_lookup_filter kept, bind_filter]
      refine congrArg (_ + ·) (bind_congr fun client _ => ?_)
      cases client.finished manager.exited <;> rfl
  | cleared gone =>
    have settles := values_settle (fun client distinct => Client.destroy_settles distinct) before
    refine ⟨_, ?_, settles.mono less (le_of_eq ?_)⟩
    · rw [clearClientsEffects, accesses_flatMap]
      rfl
    · have none : Table.values clients = 0 := by
        refine eq_zero_of_forall_notMem fun client member => ?_
        obtain ⟨qpNum, found⟩ := Table.mem_values.mp member
        rw [gone qpNum] at found
        cases found
      rw [ownedBy, ownedBy, none, bind_zero]
      rfl

end Manager

/-! ### Runs -/

/-- The manager, the connections that the listener was handed, and the accesses so far. -/
structure Traced where
  manager : Manager
  made : List Connection
  log : List (Access Connection)

namespace Traced

def start (loop : Loop) : Traced := ⟨.start loop, [], []⟩

def step (traced : Traced) (event : Event) : Traced where
  manager := traced.manager.step event
  made := arriving event ++ traced.made
  log := traced.log ++ accesses (traced.manager.effects event)

/-- A connection that is requested has been allocated for this request. -/
def Fresh (traced : Traced) (event : Event) : Prop :=
  ∀ connection ∈ arriving event, connection ∉ traced.made

/-- The connection whose end the event is about has not been deleted. -/
def EndsAlive (traced : Traced) (event : Event) : Prop :=
  ∀ connection ∈ traced.manager.handledEnd event, connection ∉ freed traced.log

instance decidableFresh (traced : Traced) (event : Event) : Decidable (traced.Fresh event) :=
  inferInstanceAs (Decidable (∀ connection ∈ arriving event, connection ∉ traced.made))

instance decidableEndsAlive (traced : Traced) (event : Event) :
    Decidable (traced.EndsAlive event) :=
  inferInstanceAs (Decidable (∀ connection ∈ traced.manager.handledEnd event,
    connection ∉ freed traced.log))

/-- The connections that have an owner. -/
def owned (traced : Traced) : Multiset Connection :=
  ownedBy Operation.owned Client.owned traced.manager.clientQueue traced.manager.clients

/-- Owners have distinct connections that are not deleted, and all connections that are owned or
deleted were made. -/
def Owned (traced : Traced) : Prop := Accounted traced.log traced.owned traced.made

theorem arriving_nodup (event : Event) : (arriving event).Nodup := by
  cases event with
  | requested => exact List.nodup_singleton _
  | _ => exact List.nodup_nil

/-- What a step does is about the end of a connection, or settled between owners. -/
theorem Owned.settles {traced : Traced} (owned : traced.Owned) {event : Event}
    (fresh : traced.Fresh event) :
    ∃ own, (traced.step event).log =
        traced.log ++ ((traced.manager.handledEnd event).toList.map .use ++ own) ∧
      Settles ((arriving event : Multiset Connection) + traced.owned) own
        (traced.step event).owned := by
  obtain ⟨own, split, settles⟩ := (traced.manager.step_happens event).settles
    (Accounted.arrive owned (arriving_nodup event) fresh).distinct
  exact ⟨own, congrArg (traced.log ++ ·) split, settles⟩

theorem Owned.step {traced : Traced} (owned : traced.Owned) {event : Event}
    (fresh : traced.Fresh event) : (traced.step event).Owned := by
  obtain ⟨own, split, settles⟩ := owned.settles fresh
  rw [Owned, split]
  exact Accounted.settle owned (arriving_nodup event) fresh settles _

/-- In every run of either loop, no deleted connection is used or deleted again exactly if every
connection that ends is still there when the listener passes its end on and when the manager
thread handles it. -/
theorem no_deleted_connection_used_iff (loop : Loop) (events : List Event)
    (fresh : Along step Fresh (start loop) events) :
    Always step (fun traced => Clean [] traced.log) (start loop) events ↔
      Along step EndsAlive (start loop) events := by
  have preserved : ∀ traced event, Owned traced → Fresh traced event →
      Owned (traced.step event) := fun _ _ owned => owned.step
  refine always_iff_along preserved ?_ accounted_nothing trivial fresh
  intro traced event owned fresh clean
  obtain ⟨own, split, settles⟩ := owned.settles fresh
  rw [split, (Accounted.arrive owned (arriving_nodup event) fresh).clean_iff settles clean]
  simp only [EndsAlive, Option.mem_toList, Option.mem_def]

/-- A client that is served and leaves with its final message leaves nothing behind. -/
theorem final_message_deletes_once :
    Always step (fun traced => Clean [] traced.log) (start .processEventsSleep)
      (Manager.servedThen 8 [Manager.finalMessage] 8) :=
  (no_deleted_connection_used_iff .processEventsSleep _ (by decide)).mpr (by decide)

/-- A final message and the end of the connection wait side by side. The sleeping loop puts the end
off until the message has been handled, and then looks at the connection that it deleted. The
polling loop does so as well, when the end comes after the queue was emptied. -/
theorem final_message_then_end :
    let sleeping := Manager.servedThen 8 [Manager.finalMessage, Manager.connectionEnd] 0
    let polling := Manager.servedThen 6 [Manager.finalMessage] 2 ++ [Manager.connectionEnd]
    let rest := List.replicate 8 Manager.tick
    (Along step Fresh (start .processEventsSleep) (sleeping ++ rest) ∧
        Clean [] (run step (start .processEventsSleep) sleeping).log ∧
        ¬ Clean [] (run step (start .processEventsSleep) (sleeping ++ rest)).log) ∧
      Along step Fresh (start .pollRdma) (polling ++ rest) ∧
        Clean [] (run step (start .pollRdma) polling).log ∧
        ¬ Clean [] (run step (start .pollRdma) (polling ++ rest)).log := by
  decide

end Traced

end ExecutorManager

end RFaaS
