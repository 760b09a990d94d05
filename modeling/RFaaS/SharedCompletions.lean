/-
This file models the side of `RDMAPassive` that accepts connections
(`rdmalib/lib/rdmalib.cpp`): the completion queues that `register_shared_queue`
creates for a key, the choice that `poll_events` makes among them for a
connection request, and the receives that the owners of the connections post.

A shared queue is created with as many entries as one connection posts
receives. The file proves how many receives can be outstanding on the queue: as
many as its connections post together, and no more. So one receiving connection
is what the queue has room for.
-/

import RFaaS.PrivateData
import RFaaS.RecvQueue
import RFaaS.Table
import RFaaS.Transition
import Mathlib.Data.List.ReduceOption

namespace RFaaS

open Transition List

/-- A connection that was made for a request, with the completion queue of its queue pair.
`completions` counts the messages that arrived and whose completion was not polled yet. -/
structure Accepted where
  recvCq : Nat
  port : Port
  completions : Nat

namespace Accepted

/-- `receive_wcs().initialize(buffer, stride)`. -/
def initialize_ (buffer : Buffer) (stride : Option Nat) (accepted : Accepted) : Accepted :=
  { accepted with port := accepted.port.initialize_ buffer stride }

/-- `receive_wcs().refill()`. -/
def refill (accepted : Accepted) : Accepted := { accepted with port := accepted.port.refill }

/-- A message uses up a receive, if one is posted. -/
def arrive (accepted : Accepted) : Accepted :=
  if accepted.port.posted = 0 then accepted
  else { accepted with
    port := accepted.port.arrive
    completions := accepted.completions + 1 }

/-- A completion of the connection is polled, and the connection is told with
`update_requests(-1)`. -/
def polled (accepted : Accepted) : Accepted :=
  if accepted.completions = 0 then accepted
  else { accepted with
    port := accepted.port.updateRequests (-1)
    completions := accepted.completions - 1 }

end Accepted

/-- `RDMAPassive`. Completion queues are numbered in the order of their creation, and `entries`
has the number of entries of each. A connection that was closed leaves `none` behind. -/
structure Passive where
  recvBuf : Nat
  sharedRecvCompletions : Table UInt16 Nat
  entries : List Nat
  connections : List (Option Accepted)

namespace Passive

/-- `RDMAPassive::RDMAPassive`. The size of the receive buffer is `max_recv_wr` as well. -/
def construct (recvBuf : Nat) : Passive where
  recvBuf := recvBuf
  sharedRecvCompletions := ∅
  entries := []
  connections := []

/-- `register_shared_queue`. -/
def registerSharedQueue (passive : Passive) (key : UInt16) : Passive :=
  { passive with
    entries := passive.entries ++ [passive.recvBuf]
    sharedRecvCompletions := passive.sharedRecvCompletions.insert key passive.entries.length }

/-- The queue that `poll_events` takes for a word of private data: the one of its key, or else
the default one. -/
def sharedQueueFor (passive : Passive) (privateData : UInt32) : Option Nat :=
  let key := (⟨privateData⟩ : PrivateData 8 8 16).key.toUInt8.toUInt16
  (passive.sharedRecvCompletions.lookup key).or (passive.sharedRecvCompletions.lookup 0)

/-- `poll_events`, on a connection request. Where no queue is shared, the queue pair is created
with a queue of its own. -/
def connectRequest (passive : Passive) (sent : Option UInt32) : Passive :=
  match passive.sharedQueueFor (requestedData sent) with
  | some queue =>
    { passive with
      connections := passive.connections ++ [some ⟨queue, Port.closed passive.recvBuf, 0⟩] }
  | none =>
    { passive with
      entries := passive.entries ++ [passive.recvBuf]
      connections := passive.connections ++
        [some ⟨passive.entries.length, Port.closed passive.recvBuf, 0⟩] }

/-- What the owners of the connections and their peers do; connections are numbered in the order
of their requests. -/
inductive Event
  | register (key : UInt16)
  | connectRequest (sent : Option UInt32)
  | initialize_ (connection : Nat) (buffer : Buffer) (stride : Option Nat)
  | refill (connection : Nat)
  | arrive (connection : Nat)
  | polled (connection : Nat)
  | close (connection : Nat)

/-- A change of one connection that is still open. -/
def update (passive : Passive) (connection : Nat) (change : Accepted → Accepted) : Passive :=
  { passive with connections := passive.connections.modify connection (Option.map change) }

def step (passive : Passive) : Event → Passive
  | .register key => passive.registerSharedQueue key
  | .connectRequest sent => passive.connectRequest sent
  | .initialize_ connection buffer stride =>
    passive.update connection (Accepted.initialize_ buffer stride)
  | .refill connection => passive.update connection Accepted.refill
  | .arrive connection => passive.update connection Accepted.arrive
  | .polled connection => passive.update connection Accepted.polled
  | .close connection =>
    { passive with connections := passive.connections.modify connection fun _ => none }

/-- The open connections whose receives complete on a queue. -/
def sharing (passive : Passive) (queue : Nat) : List Accepted :=
  passive.connections.reduceOption.filter fun accepted => accepted.recvCq = queue

/-- The receives that are outstanding on a queue. -/
def outstanding (passive : Passive) (queue : Nat) : Nat :=
  ((passive.sharing queue).map fun accepted => accepted.port.posted).sum

/-- The connections that have receives on a queue. The others share it and receive nothing. -/
def receivers (passive : Passive) (queue : Nat) : Nat :=
  (passive.sharing queue).countP fun accepted => accepted.port.queue.requests ≠ 0

/-- The number of entries that a queue was created with. -/
def capacity (passive : Passive) (queue : Nat) : Nat := passive.entries[queue]?.getD 0

/-- Receives are initialised on a connection that has none. -/
def InitializesOnce (passive : Passive) : Event → Prop
  | .initialize_ connection _ _ =>
    ∀ accepted, passive.connections[connection]? = some (some accepted) →
      accepted.port.queue.requests = 0
  | _ => True

end Passive

/-! ### What one connection posts -/

namespace Accepted

/-- The connection counts the receives that are outstanding and the messages that it has not been
told of, and that is never more than it has room for. -/
structure Accounted (recvBuf : Nat) (accepted : Accepted) : Prop where
  sized : accepted.port.queue.Sized recvBuf
  requests : accepted.port.queue.requests = accepted.port.posted + accepted.completions
  most : accepted.port.queue.requests ≤ recvBuf

variable {recvBuf : Nat} {accepted : Accepted}

theorem closed_accounted (recvBuf recvCq : Nat) :
    Accounted recvBuf ⟨recvCq, Port.closed recvBuf, 0⟩ :=
  ⟨Port.closed_sized recvBuf, rfl, Int.natCast_nonneg _⟩

section

variable (accounted : accepted.Accounted recvBuf)
include accounted

theorem Accounted.initialize_
    (none : accepted.port.queue.requests = 0) (buffer : Buffer) (stride : Option Nat) :
    (accepted.initialize_ buffer stride).Accounted recvBuf := by
  obtain ⟨sized, requests, most⟩ := Port.initialize_spec accounted.sized none buffer stride
  have before := accounted.requests
  refine ⟨sized, ?_, most⟩
  simp only [Accepted.initialize_]
  omega

theorem Accounted.refill : accepted.refill.Accounted recvBuf := by
  obtain ⟨sized, requests, most, _⟩ := Port.refill_spec accounted.sized
  have before := accounted.requests
  have bound := accounted.most
  refine ⟨sized, ?_, ?_⟩
  all_goals
    simp only [Accepted.refill]
    omega

theorem Accounted.arrive : accepted.arrive.Accounted recvBuf := by
  unfold Accepted.arrive
  split
  · exact accounted
  · have before := accounted.requests
    refine ⟨accounted.sized, ?_, accounted.most⟩
    simp only [Port.arrive]
    omega

theorem Accounted.polled : accepted.polled.Accounted recvBuf := by
  unfold Accepted.polled
  split
  · exact accounted
  · have before := accounted.requests
    have bound := accounted.most
    refine ⟨accounted.sized.updateRequests (-1), ?_, ?_⟩
    all_goals
      simp only [Port.updateRequests, RecvWorkCompletions.updateRequests]
      omega

/-- A connection has at most `recvBuf` receives outstanding, and none if it counts none. -/
theorem Accounted.posted_le :
    accepted.port.posted ≤ if accepted.port.queue.requests ≠ 0 then recvBuf else 0 := by
  have before := accounted.requests
  have bound := accounted.most
  split <;> omega

end

end Accepted

/-! ### What the connections of one queue post -/

namespace Passive

/-- The invariant: all queues have `recvBuf` entries, connections are on queues that were created,
and every connection is accounted for. -/
structure Sized (recvBuf : Nat) (passive : Passive) : Prop where
  size : passive.recvBuf = recvBuf
  entries : ∀ queue < passive.entries.length, passive.capacity queue = recvBuf
  registered : ∀ key queue, passive.sharedRecvCompletions.lookup key = some queue →
    queue < passive.entries.length
  accounted : ∀ connection ∈ passive.connections, ∀ accepted ∈ connection,
    accepted.recvCq < passive.entries.length ∧ accepted.Accounted recvBuf

variable {recvBuf : Nat} {passive : Passive}

theorem construct_sized (recvBuf : Nat) : (construct recvBuf).Sized recvBuf where
  size := rfl
  entries _ inside := absurd inside (Nat.not_lt_zero _)
  registered _ _ found := by cases found
  accounted _ member := absurd member not_mem_nil

section

variable (sized : passive.Sized recvBuf)
include sized

theorem Sized.create :
    Sized recvBuf { passive with entries := passive.entries ++ [passive.recvBuf] } where
  size := sized.size
  entries queue inside := by
    rw [length_append, length_singleton] at inside
    by_cases old : queue < passive.entries.length
    · rw [capacity, getElem?_append_left old]
      exact sized.entries queue old
    · obtain rfl : queue = passive.entries.length := by omega
      rw [capacity, getElem?_concat_length]
      exact sized.size
  registered key queue found := by
    have inside := sized.registered key queue found
    rw [length_append]
    omega
  accounted connection member accepted inside := by
    obtain ⟨created, accounted⟩ := sized.accounted connection member accepted inside
    refine ⟨?_, accounted⟩
    rw [length_append]
    omega

theorem Sized.registerSharedQueue (key : UInt16) :
    (passive.registerSharedQueue key).Sized recvBuf :=
  { sized.create with
    registered := fun other queue found => by
      rcases Table.lookup_insert_eq_some.mp found with ⟨_, rfl⟩ | ⟨_, old⟩
      · simp only [Passive.registerSharedQueue, length_append, length_singleton]
        omega
      · exact sized.create.registered other queue old }

theorem Sized.connect {queue : Nat} (created : queue < passive.entries.length) :
    Sized recvBuf { passive with
      connections := passive.connections ++ [some ⟨queue, Port.closed passive.recvBuf, 0⟩] } :=
  { sized with
    accounted := fun connection member accepted inside => by
      rcases mem_append.mp member with old | new
      · exact sized.accounted connection old accepted inside
      · rw [mem_singleton.mp new] at inside
        cases inside
        rw [sized.size]
        exact ⟨created, Accepted.closed_accounted recvBuf queue⟩ }

theorem Sized.sharedQueueFor {privateData : UInt32} {queue : Nat}
    (found : passive.sharedQueueFor privateData = some queue) : queue < passive.entries.length := by
  rcases Option.or_eq_some_iff.mp found with own | ⟨_, default⟩
  · exact sized.registered _ queue own
  · exact sized.registered _ queue default

theorem Sized.connectRequest (sent : Option UInt32) :
    (passive.connectRequest sent).Sized recvBuf := by
  unfold Passive.connectRequest
  split
  · rename_i queue found
    exact sized.connect (sized.sharedQueueFor found)
  · refine sized.create.connect ?_
    rw [length_append]
    exact Nat.lt_succ_self _

theorem Sized.modify (connection : Nat) (change : Option Accepted → Option Accepted)
    (changed : ∀ before, passive.connections[connection]? = some before →
      ∀ accepted ∈ change before, ∃ old ∈ before, accepted.recvCq = old.recvCq ∧
        (old.Accounted recvBuf → accepted.Accounted recvBuf)) :
    Sized recvBuf { passive with connections := passive.connections.modify connection change } :=
  { sized with
    accounted := Table.forall_mem_modify sized.accounted fun before there all accepted inside => by
      obtain ⟨old, was, recvCq, keeps⟩ := changed before there accepted inside
      obtain ⟨created, accounted⟩ := all old was
      exact ⟨recvCq ▸ created, keeps accounted⟩ }

theorem Sized.update {connection : Nat}
    {change : Accepted → Accepted} (recvCq : ∀ accepted, (change accepted).recvCq = accepted.recvCq)
    (keeps : ∀ accepted, passive.connections[connection]? = some (some accepted) →
      accepted.Accounted recvBuf → (change accepted).Accounted recvBuf) :
    (passive.update connection change).Sized recvBuf := by
  refine sized.modify connection (Option.map change) fun before there accepted inside => ?_
  obtain ⟨old, rfl, rfl⟩ := Option.map_eq_some_iff.mp inside
  exact ⟨old, rfl, recvCq old, keeps old there⟩

end

theorem Sized.step (sized : passive.Sized recvBuf) {event : Event}
    (once : passive.InitializesOnce event) : (passive.step event).Sized recvBuf := by
  cases event with
  | register key => exact sized.registerSharedQueue key
  | connectRequest sent => exact sized.connectRequest sent
  | initialize_ connection buffer stride =>
    exact sized.update (fun _ => rfl) fun accepted there accounted =>
      accounted.initialize_ (once accepted there) buffer stride
  | refill =>
    exact sized.update (fun _ => rfl) fun _ _ accounted => accounted.refill
  | arrive =>
    refine sized.update (fun accepted => ?_) fun _ _ accounted => accounted.arrive
    unfold Accepted.arrive
    split <;> rfl
  | polled =>
    refine sized.update (fun accepted => ?_) fun _ _ accounted => accounted.polled
    unfold Accepted.polled
    split <;> rfl
  | close connection =>
    exact sized.modify connection (fun _ => none) fun _ _ _ inside => by cases inside

/-- A sum is at most the bound of its terms for each term that is not zero. -/
theorem sum_le_countP_mul {Entry : Type} {entries : List Entry} {amount : Entry → Nat}
    {counted : Entry → Prop} [DecidablePred counted] {bound : Nat}
    (each : ∀ entry ∈ entries, amount entry ≤ if counted entry then bound else 0) :
    (entries.map amount).sum ≤ entries.countP counted * bound := by
  induction entries with
  | nil => exact Nat.zero_le _
  | cons entry rest inductionHypothesis =>
    have head := each entry mem_cons_self
    have tail := inductionHypothesis fun other member => each other (mem_cons_of_mem _ member)
    rw [map_cons, sum_cons, countP_cons, Nat.add_mul, Nat.add_comm]
    refine Nat.add_le_add tail (head.trans (Nat.le_of_eq ?_))
    by_cases counts : counted entry
    · rw [if_pos counts, if_pos (decide_eq_true counts), Nat.one_mul]
    · rw [if_neg counts, if_neg (by simpa using counts), Nat.zero_mul]

/-- On a queue there are at most `recvBuf` receives outstanding for each connection that has
any. -/
theorem Sized.outstanding_le (sized : passive.Sized recvBuf) (queue : Nat) :
    passive.outstanding queue ≤ passive.receivers queue * recvBuf := by
  have each : ∀ accepted ∈ passive.sharing queue, accepted.port.posted ≤
      if accepted.port.queue.requests ≠ 0 then recvBuf else 0 := by
    intro accepted member
    have inside := reduceOption_mem_iff.mp (mem_of_mem_filter member)
    exact (sized.accounted _ inside accepted rfl).2.posted_le
  exact sum_le_countP_mul each

/-- A queue with one receiving connection has room for its receives. -/
theorem Sized.outstanding_le_capacity (sized : passive.Sized recvBuf) {queue : Nat}
    (few : recvBuf = 0 ∨ passive.receivers queue ≤ 1) :
    passive.outstanding queue ≤ passive.capacity queue := by
  have bound := sized.outstanding_le queue
  by_cases created : queue < passive.entries.length
  · rw [sized.entries queue created]
    rcases few with rfl | few
    · exact bound
    · exact bound.trans ((Nat.mul_le_mul_right _ few).trans_eq (Nat.one_mul _))
  · have unused : passive.sharing queue = [] := by
      refine filter_eq_nil_iff.mpr fun accepted member on => created ?_
      have inside := reduceOption_mem_iff.mp member
      rw [← decide_eq_true_eq.mp on]
      exact (sized.accounted _ inside accepted rfl).1
    rw [outstanding, unused]
    exact Nat.zero_le _

/-! ### How many connections a queue has room for -/

/-- A queue is registered as the default, and connections are made on it and initialised. -/
def crowd (buffer : Buffer) : Nat → List Event
  | 0 => [.register 0]
  | count + 1 => crowd buffer count ++ [.connectRequest none, .initialize_ count buffer none]

/-- All connections of a crowd have all their receives outstanding. -/
theorem run_crowd (recvBuf : Nat) (buffer : Buffer) (count : Nat) :
    run step (construct recvBuf) (crowd buffer count) =
      { recvBuf := recvBuf
        sharedRecvCompletions := (∅ : Table UInt16 Nat).insert 0 0
        entries := [recvBuf]
        connections := replicate count
          (some ⟨0, (Port.closed recvBuf).initialize_ buffer none, 0⟩) } := by
  induction count with
  | zero => rfl
  | succ count inductionHypothesis =>
    rw [crowd, run_append, inductionHypothesis]
    have last := Table.modify_append_singleton (replicate count
      (some (⟨0, (Port.closed recvBuf).initialize_ buffer none, 0⟩ : Accepted)))
      (some ⟨0, Port.closed recvBuf, 0⟩) (Option.map (Accepted.initialize_ buffer none))
    rw [length_replicate] at last
    rw [replicate_succ']
    exact congrArg (Passive.mk recvBuf _ _) last

theorem crowd_initializesOnce (recvBuf : Nat) (buffer : Buffer) (count : Nat) :
    Along step InitializesOnce (construct recvBuf) (crowd buffer count) := by
  induction count with
  | zero => exact ⟨trivial, trivial⟩
  | succ count inductionHypothesis =>
    refine along_append.mpr ⟨inductionHypothesis, trivial, fun accepted there => ?_,
      trivial⟩
    rw [run_crowd] at there
    -- the connection is the last one, and it was just made
    have last := @List.getElem?_concat_length _ (replicate count
      (some (⟨0, (Port.closed recvBuf).initialize_ buffer none, 0⟩ : Accepted)))
      (some ⟨0, Port.closed recvBuf, 0⟩)
    rw [length_replicate] at last
    cases there.symm.trans last
    rfl

/-- No connection is ever forgotten. -/
theorem connections_le_step (passive : Passive) (event : Event) :
    passive.connections.length ≤ (passive.step event).connections.length := by
  cases event with
  | connectRequest sent =>
    simp only [step, connectRequest]
    split <;> simp
  | _ => simp [step, update, registerSharedQueue]

theorem receivers_le (passive : Passive) (queue : Nat) :
    passive.receivers queue ≤ passive.connections.length :=
  countP_le_length.trans ((length_filter_le _ _).trans (reduceOption_length_le _))

theorem reduceOption_replicate {Entry : Type} (count : Nat) (entry : Entry) :
    (replicate count (some entry)).reduceOption = replicate count entry := by
  induction count with
  | zero => rfl
  | succ count inductionHypothesis =>
    rw [replicate_succ, reduceOption_cons_of_some, inductionHypothesis,
      replicate_succ]

theorem crowd_outstanding {recvBuf : Nat} (positive : 0 < recvBuf) (buffer : Buffer) (count : Nat) :
    (run step (construct recvBuf) (crowd buffer count)).outstanding 0 =
      count * recvBuf := by
  rw [run_crowd]
  have posted := (Port.initialize_closed_posted positive buffer none).1
  simp [outstanding, sharing, reduceOption_replicate, posted]

/-- Shared queues do not overrun for up to `limit` receiving connections on each of them exactly
if there is nothing to receive, or one connection at most. -/
theorem shared_queues_fit_iff (recvBuf limit : Nat) :
    (∀ events, Along step InitializesOnce (construct recvBuf) events →
      Always step (fun passive => ∀ queue, passive.receivers queue ≤ limit)
        (construct recvBuf) events →
      Always step
        (fun passive => ∀ queue, passive.outstanding queue ≤ passive.capacity queue)
        (construct recvBuf) events) ↔
      recvBuf = 0 ∨ limit ≤ 1 := by
  constructor
  · intro fits
    by_contra crowded
    obtain ⟨positive, several⟩ := not_or.mp crowded
    have most : Always step (fun passive => ∀ queue, passive.receivers queue ≤ limit)
        (construct recvBuf) (crowd (Buffer.allocate 1 1 0 0) limit) := by
      refine always_of_prefixes fun first second split queue => ?_
      have grown := le_run (fun passive => passive.connections.length)
        connections_le_step (run step (construct recvBuf) first) second
      rw [← run_append, ← split, run_crowd] at grown
      exact (receivers_le _ queue).trans (grown.trans (by rw [length_replicate]))
    have overrun := (fits _ (crowd_initializesOnce recvBuf _ limit) most).last 0
    rw [crowd_outstanding (Nat.pos_of_ne_zero positive), run_crowd] at overrun
    have room : limit * recvBuf ≤ recvBuf := overrun
    exact several (Nat.le_of_mul_le_mul_right (room.trans_eq (Nat.one_mul _).symm)
      (Nat.pos_of_ne_zero positive))
  · intro few events once receiving
    have sized : Always step (Sized recvBuf) (construct recvBuf) events :=
      always_of_invariant (fun _ _ sized once => Sized.step sized once)
        (fun _ sized => sized) (construct_sized recvBuf) once
    refine (sized.and receiving).mono fun passive both queue => ?_
    exact both.1.outstanding_le_capacity (few.imp_right (both.2 queue).trans)

/-- Two clients of an executor manager post 32 receives each on a default queue of 32 entries. -/
theorem second_client_overruns :
    let passive := run step (construct 32)
      [.register 0, .connectRequest none, .initialize_ 0 (Buffer.allocate 8 48 0 0) none,
        .connectRequest none, .initialize_ 1 (Buffer.allocate 8 48 0 1) none]
    passive.receivers 0 = 2 ∧ passive.outstanding 0 = 64 ∧ passive.capacity 0 = 32 := by
  decide +kernel

end Passive

end RFaaS
