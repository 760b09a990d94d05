/-
This file is about the pointers to clients that the resource manager stores in
`poll_send`, and about the connections whose end it handles.

A pointer can be followed exactly if its element was not erased. An element is
erased while a pointer to it waits if a client takes leave with a final message
in the batch of its request, or if its connection ends before the sleeping loop
polls. A connection is looked at after it was deleted if its end waits behind a
final message, or comes after it. The main theorem says that nothing else goes
wrong.
-/

import RFaaS.ClientHoldings
import RFaaS.Transition

namespace RFaaS

namespace ResourceManager

open Lifetime Transition List

namespace Manager

variable {manager : Manager} {event : Event} {after : Holdings}

/-! ### What is followed, and what is looked at -/

/-- The pointer that an event makes the thread follow. -/
def polled (manager : Manager) : Event → Option Nat
  | .thread _ => if manager.fault then none else manager.polledIn
  | _ => none

/-- The connection whose end is handled by an event. -/
def handledEnd (manager : Manager) : Event → Option Connection
  | .thread _ => if manager.fault then none else manager.endedIn
  | _ => none

/-- A pointer refers to an element of `_clients` whose connection is open. -/
def Refers (manager : Manager) (pointer : Nat) : Prop :=
  ∃ entry ∈ manager.clients.entries, entry.2.node = pointer ∧
    ∃ connection ∈ entry.2.client.connection, connection ∉ manager.deleted

/-- The pointer that is followed refers to a client, and the connection whose end is handled was
not deleted after a final message. -/
def Safe (manager : Manager) (event : Event) : Prop :=
  (∀ pointer ∈ manager.polled event, manager.Refers pointer) ∧
    ∀ connection ∈ manager.handledEnd event, connection ∉ manager.finished

/-- No answer to the client with this number waits for its completion. -/
def Answered (manager : Manager) (qpNum : UInt32) : Prop :=
  ∀ element ∈ manager.clients.lookup qpNum, element.node ∉ manager.pollSend

/-- The connection of the client with this number does not end in the queue. -/
def Attached (manager : Manager) (qpNum : UInt32) : Prop :=
  ∀ element ∈ manager.clients.lookup qpNum, ∀ connection ∈ element.client.connection,
    .disconnect connection ∉ manager.clientQueue

/-- No client is erased while an answer to it waits for its completion. The end of a connection
comes neither after the final message of its client nor waits behind it. -/
def Orderly (manager : Manager) : Event → Prop
  | .disconnected connection => connection ∉ manager.finished
  | .thread _ =>
    (∀ connection ∈ manager.endedIn, manager.Answered connection.qpNum) ∧
      ∀ completion ∈ manager.messageIn, completion.success = true →
        completion.request.cores ≤ 0 →
          manager.Answered completion.qpNum ∧ manager.Attached completion.qpNum
  | _ => True

instance decidableRefers (manager : Manager) (pointer : Nat) : Decidable (manager.Refers pointer) :=
  inferInstanceAs (Decidable (∃ entry ∈ manager.clients.entries, entry.2.node = pointer ∧
    ∃ connection ∈ entry.2.client.connection, connection ∉ manager.deleted))

instance decidableSafe (manager : Manager) (event : Event) : Decidable (manager.Safe event) :=
  inferInstanceAs (Decidable ((∀ pointer ∈ manager.polled event, manager.Refers pointer) ∧
    ∀ connection ∈ manager.handledEnd event, connection ∉ manager.finished))

instance decidableAnswered (manager : Manager) (qpNum : UInt32) :
    Decidable (manager.Answered qpNum) :=
  inferInstanceAs (Decidable (∀ element ∈ manager.clients.lookup qpNum,
    element.node ∉ manager.pollSend))

instance decidableAttached (manager : Manager) (qpNum : UInt32) :
    Decidable (manager.Attached qpNum) :=
  inferInstanceAs (Decidable (∀ element ∈ manager.clients.lookup qpNum,
    ∀ connection ∈ element.client.connection, .disconnect connection ∉ manager.clientQueue))

instance decidableOrderly (manager : Manager) (event : Event) : Decidable (manager.Orderly event) :=
  match event with
  | .disconnected connection => inferInstanceAs (Decidable (connection ∉ manager.finished))
  | .thread _ =>
    inferInstanceAs (Decidable ((∀ connection ∈ manager.endedIn,
      manager.Answered connection.qpNum) ∧
        ∀ completion ∈ manager.messageIn, completion.success = true →
          completion.request.cores ≤ 0 →
            manager.Answered completion.qpNum ∧ manager.Attached completion.qpNum))
  | .requested _ | .message _ | .store _ | .shutdown => .isTrue trivial

/-- A pointer to an element that was made can be followed exactly if the element was not
erased. -/
theorem refers_iff (sound : manager.holdings.Sound) {pointer : Nat}
    (made : pointer < manager.nodes) :
    manager.Refers pointer ↔ pointer ∉ manager.removed := by
  constructor
  · rintro ⟨⟨qpNum, element⟩, member, rfl, _⟩
    exact sound.numbered.node_notMem (AList.mem_lookup_iff.mpr member)
  · intro kept
    obtain ⟨qpNum, element, found, same⟩ := sound.numbered.exists_lookup made kept
    obtain ⟨connection, own⟩ := Option.ne_none_iff_exists'.mp (sound.opened qpNum element found)
    refine ⟨⟨qpNum, element⟩, AList.mem_lookup_iff.mp found, same, connection, own, ?_⟩
    have owned : connection ∈ manager.holdings.owned := by
      rw [Holdings.owned, ownedBy_of_lookup _ found]
      refine Multiset.mem_add.mpr (Or.inl ?_)
      rw [Element.owned, own]
      exact Multiset.mem_singleton_self connection
    have alive := sound.accounted.holds.alive connection owned
    rwa [freed_map_free] at alive

/-! ### The loops -/

theorem polledIn_eq (manager : Manager) : manager.polledIn = manager.phase.followed.head? := by
  unfold polledIn
  cases manager.phase with
  | pollSends rest | sleepSends rest => cases rest <;> rfl
  | _ => rfl

theorem mem_followed {pointer : Nat} (follows : pointer ∈ manager.polled event) :
    pointer ∈ manager.phase.followed := by
  cases event with
  | thread ready =>
    simp only [polled, polledIn_eq] at follows
    split at follows
    · cases follows
    · exact mem_of_mem_head? follows
  | _ => cases follows

theorem mem_clientQueue {connection : Connection} (ended : connection ∈ manager.handledEnd event) :
    .disconnect connection ∈ manager.clientQueue := by
  cases event with
  | thread ready =>
    simp only [handledEnd, endedIn] at ended
    split at ended
    · cases ended
    · split at ended
      · rename_i head
        cases ended
        exact head ▸ mem_cons_self
      · rename_i head
        cases ended
        exact head ▸ mem_cons_self
      · cases ended
  | _ => cases ended

/-- Clients are referred to as long as a pointer to them waits, and no end of a connection that a
final message deleted is waiting. -/
structure Tidy (manager : Manager) : Prop where
  sound : manager.holdings.Sound
  stored : ∀ pointer ∈ manager.phase.followed, pointer ∈ manager.pollSend
  kept : ∀ pointer ∈ manager.pollSend, pointer ∉ manager.removed
  open_ends : ∀ connection, .disconnect connection ∈ manager.clientQueue →
    connection ∉ manager.finished

theorem start_tidy (loop : Loop) : (start loop).Tidy where
  sound := start_sound loop
  stored := by cases loop <;> exact fun _ member => absurd member not_mem_nil
  kept _ stored := absurd stored not_mem_nil
  open_ends _ waits := absurd waits not_mem_nil

/-- The loops follow pointers that are stored in `poll_send`. -/
theorem Turns.stored {next : Manager} (turns : Turns manager next) (tidy : manager.Tidy)
    (pointer : Nat) (follows : pointer ∈ next.phase.followed) : pointer ∈ next.pollSend := by
  cases turns with
  | goes next =>
    dsimp only at follows ⊢
    rcases next with idle | all | rest
    · rw [idle] at follows
      cases follows
    · rwa [all] at follows
    · rw [rest] at follows
      exact tidy.stored pointer (mem_of_mem_tail follows)
  | clears idle | takes head turn idle | hears turn idle => simp [idle] at follows

theorem Tidy.step_stored (tidy : manager.Tidy) (event : Event) (pointer : Nat)
    (follows : pointer ∈ (manager.step event).phase.followed) :
    pointer ∈ (manager.step event).pollSend := by
  have running : manager.fault ≠ true := Bool.eq_false_iff.mp tidy.sound.running
  unfold step at follows ⊢
  rw [if_neg running] at follows ⊢
  cases event with
  | thread ready => exact (manager.threadStep_turns ready).stored tidy pointer follows
  | _ => exact tidy.stored pointer follows

theorem Moves.kept (moves : Moves manager event after) (tidy : manager.Tidy)
    (orderly : manager.Orderly event) (pointer : Nat) (waits : pointer ∈ after.pollSend) :
    pointer ∉ after.removed := by
  have erased : ∀ element : Element, element.node ∉ manager.pollSend →
      pointer ∈ manager.pollSend → pointer ∉ manager.removed ++ [element.node] := by
    intro element answered stored
    rw [mem_append, mem_singleton, not_or]
    exact ⟨tidy.kept pointer stored, fun same => answered (same ▸ stored)⟩
  cases moves with
  | stores found =>
    rcases mem_append.mp waits with old | new
    · exact tidy.kept pointer old
    · rw [mem_singleton.mp new]
      exact tidy.sound.numbered.node_notMem found
  | drops turn head found => exact erased _ (orderly.1 _ turn _ found) waits
  | leaves turn success final found =>
    exact erased _ ((orderly.2 _ turn success final).1 _ found) waits
  | clears => cases waits
  | _ => exact tidy.kept pointer waits

theorem Moves.open_ends (moves : Moves manager event after) (tidy : manager.Tidy)
    (orderly : manager.Orderly event) (connection : Connection)
    (waits : .disconnect connection ∈ after.queue) : connection ∉ after.finished := by
  cases moves with
  | accepts =>
    rcases mem_append.mp waits with old | new
    · exact tidy.open_ends connection old
    · cases mem_singleton.mp new
  | ends =>
    rcases mem_append.mp waits with old | new
    · exact tidy.open_ends connection old
    · cases mem_singleton.mp new
      exact orderly
  | hollow head | enters head | replaces head | passes head | drops turn head =>
    refine tidy.open_ends connection ?_
    exact head ▸ mem_cons_of_mem _ waits
  | leaves turn success final found own =>
    have attached := (orderly.2 _ turn success final).2 _ found _ own
    simp only [mem_append, mem_singleton, not_or]
    exact ⟨tidy.open_ends connection waits, fun same => attached (same ▸ waits)⟩
  | _ => exact tidy.open_ends connection waits

theorem Tidy.step (tidy : manager.Tidy) (fresh : manager.Fresh event)
    (orderly : manager.Orderly event) : (manager.step event).Tidy := by
  have moves := step_moves tidy.sound.running event
  exact ⟨moves.sound tidy.sound fresh, tidy.step_stored event, moves.kept tidy orderly,
    moves.open_ends tidy orderly⟩

theorem Tidy.safe (tidy : manager.Tidy) (event : Event) : manager.Safe event := by
  refine ⟨fun pointer follows => ?_, fun connection ended => ?_⟩
  · have stored := tidy.stored pointer (mem_followed follows)
    exact (refers_iff tidy.sound (tidy.sound.pointers pointer stored)).mpr
      (tidy.kept pointer stored)
  · exact tidy.open_ends connection (mem_clientQueue ended)

/-- In every run of either loop in which no client is erased while an answer to it waits for its
completion, and no connection ends in the queue when or after the final message of its client is
handled, every pointer that is followed refers to a client with an open connection, and no end is
handled of a connection that a final message deleted. -/
theorem removed_clients_unused (loop : Loop) (events : List Event)
    (fresh : Along step Fresh (start loop) events)
    (orderly : Along step Orderly (start loop) events) :
    Along step Safe (start loop) events := by
  have preserved : ∀ manager event, Tidy manager → Fresh manager event ∧ Orderly manager event →
      Tidy (manager.step event) := fun _ _ tidy both => tidy.step both.1 both.2
  exact Along.of_invariant preserved (fun _ event tidy _ => tidy.safe event) (start_tidy loop)
    (fresh.and orderly)

def tick : Event := .thread [.clients]

/-- A client connects and sends messages, the thread makes steps, something `later` happens, and
the thread goes on. -/
def visited (messages : List Event) (before : Nat) (later : List Event) (after : Nat) :
    List Event :=
  .requested ⟨4096, 7⟩ :: messages ++ replicate before tick ++ later ++
    replicate after tick

def leaseRequest : Event := .message ⟨7, true, ⟨2, 64⟩⟩

def finalMessage : Event := .message ⟨7, true, ⟨-1, 0⟩⟩

def connectionEnd : Event := .disconnected ⟨4096, 7⟩

/-- A client that is answered, and takes leave after the loop has polled, is referred to when it
is polled. -/
theorem answered_client_referred :
    (run step (start .processEventsSleep) (visited [leaseRequest] 8 [] 0)).polled tick = some 0 ∧
      Along step Safe (start .processEventsSleep) (visited [leaseRequest] 10 [finalMessage] 9) :=
  ⟨by decide, removed_clients_unused .processEventsSleep _ (by decide) (by decide)⟩

/-- The polling loop erases a client whose request and final message are in one batch, and polls it
afterwards. The sleeping loop erases a client whose connection ends, and polls it afterwards. A
connection whose end comes after the final message is looked at, though it was deleted. -/
theorem erased_client_polled :
    let batch := visited [leaseRequest, finalMessage] 6 []
    let broken := visited [leaseRequest] 5 [connectionEnd]
    let late := visited [finalMessage] 5 [connectionEnd]
    (Along step Fresh (start .processClients) (batch 1) ∧
        Along step Safe (start .processClients) (batch 0) ∧
        ¬ Along step Safe (start .processClients) (batch 1)) ∧
      (Along step Fresh (start .processEventsSleep) (broken 5) ∧
        Along step Safe (start .processEventsSleep) (broken 4) ∧
        ¬ Along step Safe (start .processEventsSleep) (broken 5)) ∧
      Along step Fresh (start .processClients) (late 3) ∧
        Along step Safe (start .processClients) (late 2) ∧
        ¬ Along step Safe (start .processClients) (late 3) := by
  decide

end Manager

end ResourceManager

end RFaaS
