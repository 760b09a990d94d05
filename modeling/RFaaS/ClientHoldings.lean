/-
This file says what the resource manager has of its clients, and what an event
can do to it.

The clients are a small part of the manager's state (`Holdings`), and one
relation (`Moves`) has all that can happen to them. Two things hold in every run
of either loop. The connections have owners, as in every server of this
development. And the elements of the map are numbered, so that those in the map
and those that were erased are together all that were ever made; a pointer to an
element is such a number.

At the end this model is compared with the one that receive credits are counted
on, the desk for clients: each step of the thread is a step at that desk.
-/

import Mathlib.Data.Multiset.Range
import Mathlib.Logic.Relation
import RFaaS.Lifetime
import RFaaS.ResourceManager
import RFaaS.Transition

namespace RFaaS

namespace ResourceManager

open Lifetime Transition Multiset Table

/-! ### What the manager has of its clients -/

/-- The part of the manager that says which clients there are and where they are referred to. -/
structure Holdings where
  queue : List Operation
  clients : Table UInt32 Element
  pollSend : List Nat
  fault : Bool
  accepted : List Connection
  nodes : Nat
  removed : List Nat
  deleted : List Connection
  finished : List Connection

/-- The connection that an event brings. -/
def arriving : Event → List Connection
  | .requested connection => [connection]
  | _ => []

theorem arriving_nodup (event : Event) : (arriving event).Nodup := by
  cases event with
  | requested => exact List.nodup_singleton _
  | _ => exact List.nodup_nil

namespace Manager

def holdings (manager : Manager) : Holdings where
  queue := manager.clientQueue
  clients := manager.clients
  pollSend := manager.pollSend
  fault := manager.fault
  accepted := manager.accepted
  nodes := manager.nodes
  removed := manager.removed
  deleted := manager.deleted
  finished := manager.finished

/-- What an event can do to the clients. -/
inductive Moves (manager : Manager) : Event → Holdings → Prop
  | rests {event : Event} (silent : arriving event = []) : Moves manager event manager.holdings
  | accepts {connection : Connection} {clientId : Int} :
      Moves manager (.requested connection) { manager.holdings with
        queue := manager.clientQueue ++ [.connect ⟨some connection, clientId⟩]
        accepted := connection :: manager.accepted }
  | ends {connection : Connection} :
      Moves manager (.disconnected connection) { manager.holdings with
        queue := manager.clientQueue ++ [.disconnect connection] }
  | hollow {ready : List Channel} {client : Client} {rest : List Operation}
      (head : manager.clientQueue = .connect client :: rest) (closed : client.connection = none) :
      Moves manager (.thread ready) { manager.holdings with queue := rest, fault := true }
  | enters {ready : List Channel} {client : Client} {rest : List Operation}
      {connection : Connection} (head : manager.clientQueue = .connect client :: rest)
      (own : client.connection = some connection)
      (absent : manager.clients.lookup connection.qpNum = none) :
      Moves manager (.thread ready) { manager.holdings with
        queue := rest
        clients := manager.clients.insert connection.qpNum ⟨manager.nodes, client⟩
        nodes := manager.nodes + 1 }
  | replaces {ready : List Channel} {client : Client} {rest : List Operation}
      {connection : Connection} {element : Element}
      (head : manager.clientQueue = .connect client :: rest)
      (own : client.connection = some connection)
      (found : manager.clients.lookup connection.qpNum = some element) :
      Moves manager (.thread ready) { manager.holdings with
        queue := rest
        clients := manager.clients.insert connection.qpNum ⟨element.node, client⟩ }
  | passes {ready : List Channel} {connection : Connection} {rest : List Operation}
      (head : manager.clientQueue = .disconnect connection :: rest) :
      Moves manager (.thread ready) { manager.holdings with queue := rest }
  | drops {ready : List Channel} {connection : Connection} {rest : List Operation}
      {element : Element} (turn : manager.endedIn = some connection)
      (head : manager.clientQueue = .disconnect connection :: rest)
      (found : manager.clients.lookup connection.qpNum = some element) :
      Moves manager (.thread ready) { manager.holdings with
        queue := rest
        clients := manager.clients.erase connection.qpNum
        removed := manager.removed ++ [element.node]
        deleted := manager.deleted ++ element.client.connection.toList }
  | breaks {ready : List Channel} {qpNum : UInt32} {element : Element}
      (found : manager.clients.lookup qpNum = some element)
      (closed : element.client.connection = none) :
      Moves manager (.thread ready) { manager.holdings with fault := true }
  | stores {ready : List Channel} {qpNum : UInt32} {element : Element}
      (found : manager.clients.lookup qpNum = some element) :
      Moves manager (.thread ready) { manager.holdings with
        pollSend := manager.pollSend ++ [element.node] }
  | leaves {ready : List Channel} {completion : WorkCompletion} {element : Element}
      {connection : Connection} (turn : manager.messageIn = some completion)
      (success : completion.success = true) (final : completion.request.cores ≤ 0)
      (found : manager.clients.lookup completion.qpNum = some element)
      (own : element.client.connection = some connection) :
      Moves manager (.thread ready) { manager.holdings with
        clients := manager.clients.erase completion.qpNum
        removed := manager.removed ++ [element.node]
        deleted := manager.deleted ++ element.client.connection.toList
        finished := manager.finished ++ [connection] }
  | clears {ready : List Channel} :
      Moves manager (.thread ready) { manager.holdings with pollSend := [] }

variable {manager : Manager} {ready : List Channel}

theorem handleOperation_moves {operation : Operation} {rest : List Operation} {phase : Phase}
    (head : manager.clientQueue = operation :: rest)
    (turn : ∀ connection, operation = .disconnect connection →
      manager.endedIn = some connection) :
    Moves manager (.thread ready)
      ({ manager with clientQueue := rest, phase := phase }.handleOperation
        operation).holdings := by
  cases operation with
  | connect client =>
    dsimp only [handleOperation, handleClientConnection]
    cases own : client.connection with
    | none => exact .hollow head own
    | some connection =>
      dsimp only
      cases found : manager.clients.lookup connection.qpNum with
      | none => exact .enters head own found
      | some element => exact .replaces head own found
  | disconnect connection =>
    dsimp only [handleOperation, handleClientDisconnection]
    cases found : manager.clients.lookup connection.qpNum with
    | none => exact .passes head
    | some element => exact .drops (turn connection rfl) head found

theorem handleClientMessage_moves {completion : WorkCompletion} {phase : Phase}
    (turn : manager.messageIn = some completion) :
    Moves manager (.thread ready)
      ({ manager with phase := phase }.handleClientMessage completion).holdings := by
  unfold handleClientMessage
  split
  · rename_i success
    dsimp only
    cases found : manager.clients.lookup completion.qpNum with
    | none => exact .rests rfl
    | some element =>
      dsimp only
      cases own : element.client.connection with
      | none => exact .breaks found own
      | some connection =>
        dsimp only
        split
        · exact .stores found
        · rename_i positive
          exact .leaves turn success (Int.not_lt.mp positive) found own
  · exact .rests rfl

theorem Turns.moves {next : Manager} (turns : Turns manager next) :
    Moves manager (.thread ready) next.holdings := by
  cases turns with
  | goes follows => exact .rests rfl
  | clears idle => exact .clears
  | takes head turn idle => exact handleOperation_moves head turn
  | hears turn idle => exact handleClientMessage_moves turn

theorem step_moves (running : manager.fault = false) (event : Event) :
    Moves manager event (manager.step event).holdings := by
  unfold step
  rw [if_neg (Bool.eq_false_iff.mp running)]
  cases event with
  | requested => exact .accepts
  | disconnected => exact .ends
  | message | store | shutdown => exact .rests rfl
  | thread ready => exact (manager.threadStep_turns ready).moves

end Manager

/-! ### Owners and numbers -/

def Operation.owned : Operation → Multiset Connection
  | .connect client => client.connection.toList
  | .disconnect _ => 0

def Element.owned (element : Element) : Multiset Connection := element.client.connection.toList

/-- The destructor of a client frees what it owns. -/
theorem Element.destroy_settles (element : Element) :
    Settles element.owned (element.client.connection.toList.map .free) 0 :=
  .freeAll (Option.toList_nodup _)

/-- The elements in the map and those that were erased are together all that were made. -/
def Numbered (clients : Table UInt32 Element) (removed : List Nat) (nodes : Nat) : Prop :=
  (values clients).map Element.node + (removed : Multiset Nat) = range nodes

namespace Numbered

variable {clients : Table UInt32 Element} {removed : List Nat} {nodes : Nat} {qpNum : UInt32}
  {element : Element}

theorem enter (numbered : Numbered clients removed nodes) (absent : clients.lookup qpNum = none)
    (client : Client) : Numbered (clients.insert qpNum ⟨nodes, client⟩) removed (nodes + 1) := by
  rw [Numbered, values_insert, erase_of_none absent, map_cons,
    cons_add, range_succ, numbered]

theorem replace (numbered : Numbered clients removed nodes)
    (found : clients.lookup qpNum = some element) (client : Client) :
    Numbered (clients.insert qpNum ⟨element.node, client⟩) removed nodes := by
  rw [Numbered, values_of_lookup found] at numbered
  rw [Numbered, values_insert]
  exact numbered

theorem erase (numbered : Numbered clients removed nodes)
    (found : clients.lookup qpNum = some element) :
    Numbered (clients.erase qpNum) (removed ++ [element.node]) nodes := by
  rw [Numbered, values_of_lookup found, map_cons, cons_add] at numbered
  rw [Numbered, ← coe_add, coe_singleton, ← add_assoc, add_comm,
    singleton_add, numbered]

theorem node_mem (found : clients.lookup qpNum = some element) :
    element.node ∈ (values clients).map Element.node :=
  mem_map_of_mem _ (mem_values.mpr ⟨qpNum, found⟩)

theorem node_lt (numbered : Numbered clients removed nodes)
    (found : clients.lookup qpNum = some element) : element.node < nodes := by
  rw [← mem_range, ← numbered]
  exact mem_add.mpr (Or.inl (node_mem found))

/-- An element in the map was not erased. -/
theorem node_notMem (numbered : Numbered clients removed nodes)
    (found : clients.lookup qpNum = some element) : element.node ∉ removed := by
  have distinct := nodup_range nodes
  rw [← numbered] at distinct
  exact disjoint_left.mp (nodup_add.mp distinct).2.2 (node_mem found)

/-- An element that was not erased is in the map. -/
theorem exists_lookup (numbered : Numbered clients removed nodes) {node : Nat} (made : node < nodes)
    (kept : node ∉ removed) : ∃ qpNum element, clients.lookup qpNum = some element ∧
      element.node = node := by
  rw [← mem_range, ← numbered] at made
  rcases mem_add.mp made with inside | erased
  · obtain ⟨element, member, same⟩ := mem_map.mp inside
    obtain ⟨qpNum, found⟩ := mem_values.mp member
    exact ⟨qpNum, element, found, same⟩
  · exact absurd (mem_coe.mp erased) kept

end Numbered

namespace Holdings

/-- The connections that have an owner. -/
def owned (holdings : Holdings) : Multiset Connection :=
  ownedBy Operation.owned Element.owned holdings.queue holdings.clients

/-- Connections have owners, no client is without a connection, and there are pointers only to
elements that were made. -/
structure Sound (holdings : Holdings) : Prop where
  running : holdings.fault = false
  accounted : Accounted (holdings.deleted.map .free) holdings.owned holdings.accepted
  queued : ∀ client, .connect client ∈ holdings.queue → client.connection ≠ none
  opened : ∀ qpNum element, holdings.clients.lookup qpNum = some element →
    element.client.connection ≠ none
  numbered : Numbered holdings.clients holdings.removed holdings.nodes
  pointers : ∀ pointer ∈ holdings.pollSend, pointer < holdings.nodes

end Holdings

namespace Manager

variable {manager : Manager} {event : Event} {after : Holdings}

theorem Moves.accepted_eq (moves : Moves manager event after) :
    after.accepted = arriving event ++ manager.accepted := by
  cases moves with
  | rests silent =>
    rw [silent]
    rfl
  | _ => rfl

/-- An event frees connections of clients that it erases, and touches no others. -/
theorem Moves.settles (moves : Moves manager event after)
    (distinct : ((arriving event : Multiset Connection) + manager.holdings.owned).Nodup) :
    ∃ freed, after.deleted = manager.deleted ++ freed ∧
      Settles ((arriving event : Multiset Connection) + manager.holdings.owned)
        (freed.map .free) after.owned := by
  have before : (ownedBy Operation.owned Element.owned manager.clientQueue manager.clients).Nodup :=
    (nodup_add.mp distinct).2.1
  have less := le_add_left manager.holdings.owned (arriving event : Multiset Connection)
  have same := (List.append_nil manager.deleted).symm
  cases moves with
  | rests silent => exact ⟨[], same, .of_le less⟩
  | @accepts connection clientId =>
    refine ⟨[], same, .of_le (le_of_eq ?_)⟩
    rw [Holdings.owned, ownedBy_append]
    rfl
  | @ends connection =>
    refine ⟨[], same, .of_le (le_of_eq_of_le ?_ less)⟩
    rw [Holdings.owned, ownedBy_append, Operation.owned, zero_add]
    rfl
  | hollow head closed =>
    refine ⟨[], same, .of_le (le_trans ?_ less)⟩
    rw [Holdings.owned, Holdings.owned, holdings, head, ownedBy_cons]
    exact le_add_left _ _
  | @enters ready client rest connection head own absent =>
    refine ⟨[], same, .of_le (le_of_eq_of_le ?_ less)⟩
    rw [Holdings.owned, Holdings.owned, holdings, head, ownedBy_insert, ownedBy_cons,
      erase_of_none absent]
    rfl
  | @replaces ready client rest connection element head own found =>
    -- The connection that the element had is left without an owner.
    refine ⟨[], same, .of_le (le_trans ?_ less)⟩
    rw [Holdings.owned, Holdings.owned, holdings, head, ownedBy_insert, ownedBy_cons,
      ownedBy_of_lookup rest found]
    exact add_le_add le_rfl (le_add_left _ _)
  | @passes ready connection rest head =>
    refine ⟨[], same, .of_le (le_of_eq_of_le ?_ less)⟩
    rw [Holdings.owned, Holdings.owned, holdings, head, ownedBy_cons, Operation.owned, zero_add]
  | @drops ready connection rest element turn head found =>
    refine ⟨element.client.connection.toList, rfl, ?_⟩
    have taken : ownedBy Operation.owned Element.owned manager.clientQueue manager.clients =
        ownedBy Operation.owned Element.owned rest manager.clients := by
      rw [head, ownedBy_cons, Operation.owned, zero_add]
    rw [taken] at before
    have settles := value_settles found before fun _ => element.destroy_settles
    rw [zero_add, ← taken] at settles
    exact settles.mono less le_rfl
  | breaks | stores => exact ⟨[], same, .of_le less⟩
  | @leaves ready completion element connection turn success final found own =>
    have settles := value_settles found before fun _ => element.destroy_settles
    rw [zero_add] at settles
    exact ⟨element.client.connection.toList, rfl, settles.mono less le_rfl⟩
  | clears => exact ⟨[], same, .of_le less⟩

/-- A connection that is requested has been allocated for this request. -/
def Fresh (manager : Manager) (event : Event) : Prop :=
  ∀ connection ∈ arriving event, connection ∉ manager.accepted

instance decidableFresh (manager : Manager) (event : Event) : Decidable (manager.Fresh event) :=
  inferInstanceAs (Decidable (∀ connection ∈ arriving event, connection ∉ manager.accepted))

section

variable (moves : Moves manager event after)
include moves

theorem Moves.accounted (sound : manager.holdings.Sound) (fresh : manager.Fresh event) :
    Accounted (after.deleted.map .free) after.owned after.accepted := by
  have distinct := arriving_nodup event
  obtain ⟨freed, more, settles⟩ :=
    moves.settles (sound.accounted.arrive distinct fresh).distinct
  have next := sound.accounted.settle distinct fresh settles []
  rw [more, moves.accepted_eq, List.map_append]
  exact next

/-- No null pointer is used. -/
theorem Moves.running (sound : manager.holdings.Sound) : after.fault = false := by
  cases moves with
  | hollow head closed =>
    refine absurd closed (sound.queued _ ?_)
    exact (head ▸ List.mem_cons_self : _ ∈ manager.clientQueue)
  | breaks found closed => exact absurd closed (sound.opened _ _ found)
  | _ => exact sound.running

theorem Moves.queued (sound : manager.holdings.Sound)
    (client : Client) (waits : .connect client ∈ after.queue) : client.connection ≠ none := by
  cases moves with
  | accepts =>
    rcases List.mem_append.mp waits with old | new
    · exact sound.queued client old
    · cases List.mem_singleton.mp new
      exact Option.some_ne_none _
  | ends =>
    rcases List.mem_append.mp waits with old | new
    · exact sound.queued client old
    · cases List.mem_singleton.mp new
  | hollow head | enters head | replaces head | passes head | drops turn head =>
    refine sound.queued client ?_
    exact (head ▸ List.mem_cons_of_mem _ waits : _ ∈ manager.clientQueue)
  | _ => exact sound.queued client waits

theorem Moves.opened (sound : manager.holdings.Sound)
    (qpNum : UInt32) (element : Element) (found : after.clients.lookup qpNum = some element) :
    element.client.connection ≠ none := by
  cases moves with
  | enters head own | replaces head own =>
    rcases lookup_insert_eq_some.mp found with ⟨_, rfl⟩ | ⟨_, old⟩
    · exact own ▸ Option.some_ne_none _
    · exact sound.opened qpNum element old
  | drops | leaves =>
    exact sound.opened qpNum element (lookup_erase_eq_some.mp found).2
  | _ => exact sound.opened qpNum element found

theorem Moves.numbered (sound : manager.holdings.Sound) :
    Numbered after.clients after.removed after.nodes := by
  cases moves with
  | enters head own absent => exact sound.numbered.enter absent _
  | replaces head own found => exact sound.numbered.replace found _
  | drops turn head found | leaves turn success final found => exact sound.numbered.erase found
  | _ => exact sound.numbered

theorem Moves.pointers (sound : manager.holdings.Sound)
    (pointer : Nat) (stored : pointer ∈ after.pollSend) : pointer < after.nodes := by
  cases moves with
  | enters => exact Nat.lt_succ_of_lt (sound.pointers pointer stored)
  | stores found =>
    rcases List.mem_append.mp stored with old | new
    · exact sound.pointers pointer old
    · rw [List.mem_singleton.mp new]
      exact sound.numbered.node_lt found
  | clears => cases stored
  | _ => exact sound.pointers pointer stored

theorem Moves.sound (sound : manager.holdings.Sound)
    (fresh : manager.Fresh event) : after.Sound where
  running := moves.running sound
  accounted := moves.accounted sound fresh
  queued := moves.queued sound
  opened := moves.opened sound
  numbered := moves.numbered sound
  pointers := moves.pointers sound

end

theorem start_sound (loop : Loop) : (start loop).holdings.Sound where
  running := rfl
  accounted := accounted_nothing
  queued _ waits := absurd waits List.not_mem_nil
  opened _ _ found := by cases found
  numbered := rfl
  pointers _ stored := absurd stored List.not_mem_nil

/-! ### The thread at its desk -/

/-- The desk for clients has the same store, and the connections of the clients. -/
structure Shows (manager : Manager) (server : Clients) : Prop where
  db : server.db = manager.executorData
  clients : ∀ qpNum, server.clients.lookup qpNum =
    (manager.clients.lookup qpNum).bind fun element => element.client.connection

end Manager

/-- What can happen to the server of the desk. -/
inductive Clients.Advances (server : Clients) : Clients → Prop
  | rests : Advances server server
  | operates (op : ClientOp) : Advances server (server.operate op)
  | handles (qpNum : UInt32) (request : LeaseRequest) :
      Advances server (handleClientMessage server qpNum request).server

namespace Manager

section Desk

variable {manager : Manager} {server : Clients}

section

variable (shows : manager.Shows server)
include shows

theorem Shows.handleClientConnection {client : Client}
    {connection : Connection} (own : client.connection = some connection) :
    (manager.handleClientConnection client).Shows (server.operate (.connect connection)) := by
  have inserted : ∀ node qpNum,
      AList.lookup qpNum (server.clients.insert connection.qpNum connection) =
        (AList.lookup qpNum (manager.clients.insert connection.qpNum ⟨node, client⟩)).bind
          fun element : Element => element.client.connection := by
    intro node qpNum
    rw [lookup_insert_eq, lookup_insert_eq]
    split
    · exact own.symm
    · exact shows.clients qpNum
  unfold Manager.handleClientConnection
  rw [own]
  dsimp only
  split <;> exact ⟨shows.db, inserted _⟩

theorem Shows.erased (key qpNum : UInt32) :
    AList.lookup qpNum (server.clients.erase key) =
      (AList.lookup qpNum (manager.clients.erase key)).bind
        fun element : Element => element.client.connection := by
  rw [lookup_erase_eq, lookup_erase_eq]
  split
  · rfl
  · exact shows.clients qpNum

theorem Shows.handleClientDisconnection (connection : Connection) :
    (manager.handleClientDisconnection connection).Shows
      (server.operate (.disconnect connection)) := by
  have store := congrArg (·.step (.removeExecutor connection.qpNum)) shows.db
  unfold Manager.handleClientDisconnection
  dsimp only
  split
  · rename_i absent
    refine ⟨store, fun qpNum => ?_⟩
    rw [← erase_of_none absent]
    exact shows.erased connection.qpNum qpNum
  · exact ⟨store, shows.erased connection.qpNum⟩

theorem Shows.handleClientMessage {completion : WorkCompletion}
    (success : completion.success = true)
    (opened : ∀ element, manager.clients.lookup completion.qpNum = some element →
      element.client.connection ≠ none) :
    (manager.handleClientMessage completion).Shows
      (ResourceManager.handleClientMessage server completion.qpNum completion.request).server := by
  unfold Manager.handleClientMessage ResourceManager.handleClientMessage
  rw [if_pos success, shows.clients completion.qpNum]
  cases found : manager.clients.lookup completion.qpNum with
  | none => exact shows
  | some element =>
    obtain ⟨connection, own⟩ := Option.ne_none_iff_exists'.mp (opened element found)
    simp only [Option.bind_some, own]
    split
    · refine ⟨?_, shows.clients⟩
      rw [shows.db]
      rfl
    · exact ⟨shows.db, shows.erased completion.qpNum⟩

theorem Shows.turn (sound : manager.holdings.Sound)
    {after : Manager} (turns : Turns manager after) :
    ∃ next, server.Advances next ∧ after.Shows next := by
  cases turns with
  | goes | clears => exact ⟨server, .rests, shows.db, shows.clients⟩
  | @takes operation rest phase head =>
    have before : { manager with clientQueue := rest, phase := phase }.Shows server :=
      ⟨shows.db, shows.clients⟩
    cases operation with
    | connect client =>
      have first : .connect client ∈ manager.clientQueue := head ▸ List.mem_cons_self
      obtain ⟨connection, own⟩ := Option.ne_none_iff_exists'.mp (sound.queued client first)
      exact ⟨_, .operates (.connect connection), before.handleClientConnection own⟩
    | disconnect connection =>
      exact ⟨_, .operates (.disconnect connection), before.handleClientDisconnection connection⟩
  | @hears completion phase =>
    have before : { manager with phase := phase }.Shows server := ⟨shows.db, shows.clients⟩
    by_cases success : completion.success = true
    · exact ⟨_, .handles completion.qpNum completion.request,
        before.handleClientMessage success fun element => sound.opened _ element⟩
    · refine ⟨server, .rests, ?_⟩
      rw [Manager.handleClientMessage, if_neg success]
      exact before

end

/-- Each step of the manager is a step at the desk, or none. -/
theorem Shows.step (shows : manager.Shows server) (sound : manager.holdings.Sound)
    (event : Event) : ∃ next, server.Advances next ∧ (manager.step event).Shows next := by
  have running : manager.fault ≠ true := Bool.eq_false_iff.mp sound.running
  unfold Manager.step
  rw [if_neg running]
  cases event with
  | store op =>
    exact ⟨_, .operates (.store op), congrArg (·.step op) shows.db, shows.clients⟩
  | thread ready => exact shows.turn sound (manager.threadStep_turns ready)
  | _ => exact ⟨server, .rests, shows.db, shows.clients⟩

end Desk

/-- Every run of either loop is a run at the desk. -/
theorem run_shows (loop : Loop) (events : List Event)
    (fresh : Along step Fresh (start loop) events) :
    ∃ server, Relation.ReflTransGen Clients.Advances ⟨.empty, ∅⟩ server ∧
      (run step (start loop) events).Shows server := by
  have preserved : ∀ manager event,
      (manager.holdings.Sound ∧ ∃ server,
        Relation.ReflTransGen Clients.Advances ⟨.empty, ∅⟩ server ∧ manager.Shows server) →
      Fresh manager event →
      ((manager.step event).holdings.Sound ∧ ∃ server,
        Relation.ReflTransGen Clients.Advances ⟨.empty, ∅⟩ server ∧
          (manager.step event).Shows server) := by
    rintro manager event ⟨sound, server, reached, shows⟩ fresh
    obtain ⟨next, advances, shown⟩ := shows.step sound event
    exact ⟨(step_moves sound.running event).sound sound fresh, next, reached.tail advances, shown⟩
  refine (run_invariant preserved ⟨start_sound loop, ⟨.empty, ∅⟩, .refl, rfl, ?_⟩
    fresh).2
  intro qpNum
  rfl

end Manager

end ResourceManager

end RFaaS
