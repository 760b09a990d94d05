/-
This file follows control messages through the receive slots of a connection.
A message that arrives consumes the oldest posted receive and overwrites the
slot of that receive; a completion tells the slot; later a handler reads the
slot and refills the queue. The resource manager handles the messages of
executors this way and the executor manager those of clients.

A refill after one message posts one receive, and `post_batched_empty_recv`
always starts at the head of its chain, so the receive it posts is always the
one on slot 0. Which slots are outstanding therefore depends on nothing but the
number of messages handled so far, and the file computes them
(`outstandingSlots`): with two or more places, slot 0 is outstanding twice from
the second handled message on.
-/

import RFaaS.RecvQueue
import RFaaS.Transition
import Mathlib.Data.List.Nodup
import Mathlib.Order.Nat

namespace RFaaS

open Transition RecvWorkCompletions List

/-! ### The endpoint -/

/-- A work completion of a receive. `announced` is a ghost: the message that completed it. -/
structure Completion (Message : Type) where
  wrId : Nat
  announced : Message
  deriving DecidableEq

/-- The receiving end of a connection. `memory` is the receive buffer by offset, `completions`
is the completion queue and `polled` holds what was taken from it and not handled yet. `handled`
is a ghost: for each handler that ran, the message announced and the message read. -/
structure Endpoint (Message : Type) where
  queue : RecvWorkCompletions
  posted : List Receive
  memory : Nat → Option Message
  completions : List (Completion Message)
  polled : List (Completion Message)
  handled : List (Message × Option Message)

inductive EndpointEvent (Message : Type)
  | arrive (message : Message)
  | poll (count : Nat)
  | handle

namespace Endpoint

variable {Message : Type}

/-- `Poller::_wc_size`. -/
def pollSize : Nat := 64

/-- A connection right after its receives were initialised on a buffer. -/
def open_ (Message : Type) (size : Nat) (buffer : Buffer) (stride : Option Nat) :
    Endpoint Message :=
  let (posted, queue) := (construct size).setQp.initialize_
    accepting buffer stride
  { queue := queue, posted := posted, memory := fun _ => none, completions := [], polled := [],
    handled := [] }

/-- One event. A message for which no receive is posted stays with its sender; the handler of a
completion reads the slot, counts the receive down and refills. -/
def step (stride : Nat) (endpoint : Endpoint Message) : EndpointEvent Message → Endpoint Message
  | .arrive message =>
    match endpoint.posted with
    | [] => endpoint
    | receive :: rest =>
      { endpoint with
        posted := rest
        memory := match receive.sgList with
          | [] => endpoint.memory
          | element :: _ => Function.update endpoint.memory element.offset (some message)
        completions := endpoint.completions ++ [⟨receive.wrId, message⟩] }
  | .poll count =>
    { endpoint with
      completions := endpoint.completions.drop (min count pollSize)
      polled := endpoint.polled ++ endpoint.completions.take (min count pollSize) }
  | .handle =>
    match endpoint.polled with
    | [] => endpoint
    | completion :: rest =>
      let (_, posted, queue) :=
        (endpoint.queue.updateRequests (-1)).refill accepting
      { endpoint with
        queue := queue
        posted := endpoint.posted ++ posted
        polled := rest
        handled := endpoint.handled ++
          [(completion.announced, endpoint.memory (completion.wrId * stride))] }

/-- The completions that no handler has run for. -/
def pending (endpoint : Endpoint Message) : List (Completion Message) :=
  endpoint.polled ++ endpoint.completions

/-- The slots of the receives that are posted or completed and not handled, oldest first. -/
def outstanding (endpoint : Endpoint Message) : List Nat :=
  endpoint.pending.map Completion.wrId ++ endpoint.posted.map Receive.wrId

/-- No two outstanding receives share a slot, and every handler has read the message that its
completion announced. -/
structure Exact (endpoint : Endpoint Message) : Prop where
  distinct : endpoint.outstanding.Nodup
  reads : ∀ entry ∈ endpoint.handled, entry.2 = some entry.1

/-! ### Which slots are outstanding -/

/-- The slots outstanding after a number of handled messages: all slots were posted at first,
slot 0 again with every message handled, and the oldest ones are gone. -/
def outstandingSlots (size handled : Nat) : List Nat :=
  (range size ++ replicate handled 0).drop handled

theorem outstandingSlots_succ {size handled slot : Nat} {rest : List Nat}
    (slots : outstandingSlots size handled = slot :: rest) :
    outstandingSlots size (handled + 1) = rest ++ [0] := by
  unfold outstandingSlots at slots ⊢
  have long : handled + 1 ≤ (range size ++ replicate handled 0).length := by
    by_contra short
    rw [drop_eq_nil_of_le (by omega)] at slots
    cases slots
  have tail : (range size ++ replicate handled 0).drop (handled + 1) = rest := by
    rw [← drop_drop, slots]
    rfl
  rw [replicate_succ', ← append_assoc, drop_append_of_le_length long, tail]

theorem outstandingSlots_eq (size handled : Nat) :
    outstandingSlots size handled =
      (range size).drop handled ++ replicate (min handled size) 0 := by
  have amount : handled - (handled - size) = min handled size := by omega
  rw [outstandingSlots, drop_append, drop_replicate, length_range, amount]

/-- The outstanding slots are distinct as long as there is only one slot or at most one message
was handled. -/
theorem outstandingSlots_nodup_iff {size : Nat} (positive : 0 < size) (handled : Nat) :
    (outstandingSlots size handled).Nodup ↔ size = 1 ∨ handled ≤ 1 := by
  rw [outstandingSlots_eq, nodup_append]
  constructor
  · rintro ⟨_, once, _⟩
    rw [nodup_replicate] at once
    omega
  · intro few
    refine ⟨nodup_range.sublist (drop_sublist _ _), ?_, ?_⟩
    · rw [nodup_replicate]
      omega
    · intro slot kept other member same
      rw [eq_of_mem_replicate member] at same
      have one : 0 < min handled size := by
        by_contra noneHandled
        rw [Nat.eq_zero_of_not_pos noneHandled] at member
        cases member
      rw [same, mem_iff_getElem] at kept
      obtain ⟨index, inside, value⟩ := kept
      rw [getElem_drop, getElem_range] at value
      omega

/-! ### The invariant -/

/-- What holds in every state of a connection: the queue is as `initialize` left it, the
outstanding slots are the computed ones, and while these are distinct the slots hold what was
announced. -/
structure Tracked (size : Nat) (buffer : Buffer) (stride : Nat) (endpoint : Endpoint Message) :
    Prop where
  backed : endpoint.queue.Backed size buffer stride
  slots : endpoint.outstanding = outstandingSlots size endpoint.handled.length
  posted : ∀ receive ∈ endpoint.posted,
    receive = backedReceive buffer stride receive.wrId
  stored : size = 1 ∨ endpoint.handled.length ≤ 1 → ∀ completion ∈ endpoint.pending,
    endpoint.memory (completion.wrId * stride) = some completion.announced
  reads : size = 1 ∨ endpoint.handled.length ≤ 1 → ∀ entry ∈ endpoint.handled,
    entry.2 = some entry.1

variable {size stride : Nat} {buffer : Buffer}

theorem open_tracked (positive : 0 < size) (small : size ≤ rbatch) (option : Option Nat) :
    (open_ Message size buffer option).Tracked size buffer (option.getD buffer.byteSize) := by
  obtain ⟨posted, backed⟩ := initialize_backed positive buffer option
  refine ⟨backed, ?_, ?_, nofun, nofun⟩
  · show map Receive.wrId
      ((construct size).setQp.initialize_ _ buffer option).1 = _
    rw [posted, batchIds_of_le small, map_map]
    show (range size).map id = _
    rw [map_id]
    show _ = outstandingSlots size 0
    rw [outstandingSlots_eq, drop_zero, Nat.zero_min, replicate_zero, append_nil]
  · intro receive member
    replace member : receive ∈
        ((construct size).setQp.initialize_ _ buffer option).1 := member
    rw [posted] at member
    obtain ⟨index, _, rfl⟩ := mem_map.mp member
    rfl

variable {endpoint : Endpoint Message}

theorem Tracked.distinct_iff (positive : 0 < size) (tracked : endpoint.Tracked size buffer stride) :
    endpoint.outstanding.Nodup ↔ size = 1 ∨ endpoint.handled.length ≤ 1 := by
  rw [tracked.slots, outstandingSlots_nodup_iff positive]

theorem Tracked.arrive (positive : 0 < size) (wide : 0 < stride)
    (tracked : endpoint.Tracked size buffer stride) (message : Message) :
    (endpoint.step stride (.arrive message)).Tracked size buffer stride := by
  unfold step
  dsimp only
  split
  · exact tracked
  · rename_i receive rest oldest
    have shape := tracked.posted receive (by rw [oldest]; exact mem_cons_self)
    have sgList : receive.sgList = [buffer.sge stride (receive.wrId * stride)] := by
      rw [shape]
      rfl
    have slots : endpoint.outstanding = endpoint.pending.map Completion.wrId ++
        receive.wrId :: rest.map Receive.wrId := by
      rw [outstanding, oldest, map_cons]
    refine ⟨tracked.backed, ?_, fun other member => ?_, fun few => ?_, tracked.reads⟩
    · rw [← tracked.slots, slots]
      simp [outstanding, pending]
    · exact tracked.posted other (by rw [oldest]; exact mem_cons_of_mem _ member)
    · rw [sgList]
      have distinct := (tracked.distinct_iff positive).mpr few
      rw [slots, nodup_append] at distinct
      intro completion member
      rw [pending, ← append_assoc, mem_append, mem_singleton] at member
      rcases member with earlier | rfl
      · have different : completion.wrId ≠ receive.wrId := fun same =>
          distinct.2.2 _ (mem_map_of_mem earlier) _ mem_cons_self same
        have apart : completion.wrId * stride ≠ receive.wrId * stride := fun same =>
          different (Nat.eq_of_mul_eq_mul_right wide same)
        exact (Function.update_of_ne apart _ _).trans (tracked.stored few completion earlier)
      · exact Function.update_self _ _ _

theorem Tracked.poll (tracked : endpoint.Tracked size buffer stride) (count : Nat) :
    (endpoint.step stride (.poll count)).Tracked size buffer stride := by
  have pending : (endpoint.step stride (.poll count)).pending = endpoint.pending := by
    simp only [step, Endpoint.pending, append_assoc, take_append_drop]
  refine ⟨tracked.backed, ?_, tracked.posted, ?_, tracked.reads⟩
  · rw [outstanding, pending]
    exact tracked.slots
  · rw [pending]
    exact tracked.stored

theorem Tracked.handle (small : size ≤ rbatch) (tracked : endpoint.Tracked size buffer stride) :
    (endpoint.step stride .handle).Tracked size buffer stride := by
  unfold step
  dsimp only
  split
  · exact tracked
  · rename_i completion rest oldest
    have pending : endpoint.pending = completion :: (rest ++ endpoint.completions) := by
      rw [Endpoint.pending, oldest, cons_append]
    have slots := tracked.slots
    rw [outstanding, pending, map_cons, cons_append] at slots
    have fewBefore : size = 1 ∨ endpoint.handled.length + 1 ≤ 1 →
        size = 1 ∨ endpoint.handled.length ≤ 1 := Or.imp_right fun few => by omega
    rw [tracked.backed.refill_one (Nat.le_trans small (by decide))]
    refine ⟨tracked.backed, ?_, fun receive member => ?_, fun few => ?_, fun few => ?_⟩
    · rw [length_append, length_singleton, outstandingSlots_succ slots.symm]
      simp only [outstanding, Endpoint.pending, map_append, append_assoc]
      rfl
    · rcases mem_append.mp member with old | new
      · exact tracked.posted receive old
      · rw [mem_singleton.mp new]
        rfl
    · rw [length_append, length_singleton] at few
      intro other member
      refine tracked.stored (fewBefore few) other ?_
      rw [pending]
      exact mem_cons_of_mem _ member
    · rw [length_append, length_singleton] at few
      intro entry member
      rcases mem_append.mp member with old | new
      · exact tracked.reads (fewBefore few) entry old
      · rw [mem_singleton.mp new]
        refine tracked.stored (fewBefore few) completion ?_
        rw [pending]
        exact mem_cons_self

theorem Tracked.step {endpoint : Endpoint Message} (positive : 0 < size) (small : size ≤ rbatch)
    (wide : 0 < stride) (tracked : endpoint.Tracked size buffer stride)
    (event : EndpointEvent Message) :
    (endpoint.step stride event).Tracked size buffer stride := by
  cases event with
  | arrive message => exact tracked.arrive positive wide message
  | poll count => exact tracked.poll count
  | handle => exact tracked.handle small

theorem handled_length_le (stride : Nat) (endpoint : Endpoint Message)
    (events : List (EndpointEvent Message)) :
    endpoint.handled.length ≤
      (run (Endpoint.step stride) endpoint events).handled.length := by
  refine le_run (fun state => state.handled.length) (fun state event => ?_)
    endpoint events
  cases event with
  | arrive message =>
    simp only [Endpoint.step]
    split <;> exact Nat.le_refl _
  | poll count => exact Nat.le_refl _
  | handle =>
    simp only [Endpoint.step]
    split
    · exact Nat.le_refl _
    · simp

/-- In every run of a connection with at most 32 receive places, all outstanding slots are
distinct and all handlers read what was announced exactly if there is one place only or at most
one message is handled. -/
theorem always_exact_iff (Message : Type) (size : Nat) (positive : 0 < size)
    (small : size ≤ rbatch) (buffer : Buffer) (stride : Option Nat)
    (wide : 0 < stride.getD buffer.byteSize) (events : List (EndpointEvent Message)) :
    Always (Endpoint.step (stride.getD buffer.byteSize)) Exact
        (open_ Message size buffer stride) events ↔
      size = 1 ∨ (run (Endpoint.step (stride.getD buffer.byteSize))
        (open_ Message size buffer stride) events).handled.length ≤ 1 := by
  have tracked : ∀ events, (run (Endpoint.step (stride.getD buffer.byteSize))
      (open_ Message size buffer stride) events).Tracked size buffer
        (stride.getD buffer.byteSize) := fun events =>
    run_stable (fun _ event kept => kept.step positive small wide event) events
      (open_tracked positive small stride)
  constructor
  · intro always
    exact ((tracked events).distinct_iff positive).mp always.last.distinct
  · intro few
    refine always_of_prefixes fun first second split => ?_
    have fewBefore : size = 1 ∨ (run (Endpoint.step (stride.getD buffer.byteSize))
        (open_ Message size buffer stride) first).handled.length ≤ 1 := by
      refine few.imp_right fun bound => ?_
      refine Nat.le_trans (handled_length_le (stride.getD buffer.byteSize) _ second) ?_
      rw [← run_append, ← split]
      exact bound
    exact ⟨((tracked first).distinct_iff positive).mpr fewBefore,
      (tracked first).reads fewBefore⟩

/-- Four places, two messages, one of them handled. -/
theorem one_handled_exact :
    Always (Endpoint.step 36) Exact
      (open_ Nat 4 (Buffer.allocate 144 1 0 0) (some 36))
      [.arrive 10, .arrive 11, .poll 2, .handle, .arrive 12] :=
  (always_exact_iff Nat 4 (by decide) (by decide) (Buffer.allocate 144 1 0 0) (some 36)
    (by decide) [.arrive 10, .arrive 11, .poll 2, .handle, .arrive 12]).mpr (Or.inr (by decide))

/-- Two places and four messages. After two handled messages both receives are on slot 0; two
more messages that arrive back to back overwrite each other, so that the third message is lost
and the fourth one is handled twice. -/
theorem back_to_back_overwritten :
    let handledTwo : List (EndpointEvent Nat) :=
      [.arrive 10, .arrive 11, .poll 2, .handle, .handle]
    let connection := open_ Nat 2 (Buffer.allocate 72 1 0 0) (some 36)
    (run (Endpoint.step 36) connection handledTwo).outstanding = [0, 0] ∧
      (run (Endpoint.step 36) connection
        (handledTwo ++ [.arrive 12, .arrive 13, .poll 2, .handle, .handle])).handled =
      [(10, some 10), (11, some 11), (12, some 13), (13, some 13)] := by
  decide

end Endpoint

end RFaaS
