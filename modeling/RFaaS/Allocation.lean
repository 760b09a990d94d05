/-
This file is about the handshake in `executor::allocate`: the client takes the
connection requests of its workers as they come, accepts them, waits until all
connections are established, and collects from each worker the address and the
key of its input buffer.

The i-th request gets the i-th slot of `_execs_buf`: the first receive on its
queue pair points there and has the id i. The receives behind it have ids that
repeat the same numbers. The completions of all queue pairs arrive in one queue,
in the order in which the workers have sent. Whatever the order of requests,
confirmations and messages, the client ends up with the address of each worker
at the connection to that worker, since no queue pair gets to its second receive
before the client has invoked anything.
-/

import RFaaS.Invocation
import RFaaS.RecvQueue
import RFaaS.Transition
import Mathlib.Data.List.Perm.Subperm

namespace RFaaS.Client

open Transition List

/-! ### The slots -/

/-- `executor::MAX_REMOTE_WORKERS`. -/
def maxRemoteWorkers : Nat := 256

namespace BufferInformation

/-- `sizeof(BufferInformation)`, with the padding at its end. -/
def byteSize : Nat := 16

/-- The message of a worker. Its first fields are those of a `Submission`. -/
def bytes (info : RemoteBuffer) : List UInt8 := Submission.bytes info ++ replicate 4 0

/-- `_execs_buf.data()[index]`. -/
def read (memory : List UInt8) (index : Nat) : RemoteBuffer :=
  Submission.header (Bytes.load memory (index * byteSize) byteSize)

@[simp] theorem length_bytes (info : RemoteBuffer) : (bytes info).length = byteSize := by
  rw [bytes, length_append, Submission.length_bytes, length_replicate]
  rfl

variable {memory : List UInt8} {index : Nat}

theorem read_store (fits : (index + 1) * byteSize ≤ memory.length) (info : RemoteBuffer) :
    read (Bytes.store memory (index * byteSize) (bytes info)) index = info := by
  have inside : index * byteSize + (bytes info).length ≤ memory.length := by
    rw [length_bytes, ← Nat.succ_mul]
    exact fits
  have loaded := Bytes.load_store inside
  rw [length_bytes] at loaded
  rw [read, loaded, bytes, Submission.header_bytes_append]

theorem read_store_ne (fits : (index + 1) * byteSize ≤ memory.length) (info : RemoteBuffer)
    {other : Nat} (differs : other ≠ index) :
    read (Bytes.store memory (index * byteSize) (bytes info)) other = read memory other := by
  have inside : index * byteSize + (bytes info).length ≤ memory.length := by
    rw [length_bytes, ← Nat.succ_mul]
    exact fits
  rw [read, read, Bytes.load_store_apart inside]
  rw [length_bytes, byteSize]
  omega

end BufferInformation

open BufferInformation

/-- `executor_state`, with the receives that its queue pair holds, the oldest first. The last
field is a ghost: the worker at the other end. -/
structure ExecutorState where
  receives : List Receive
  receiveWcs : RecvWorkCompletions
  remoteInput : RemoteBuffer
  worker : Nat

/-- A call of `allocate` from its first loop on. `completed` is the second use of `received`, for
the send queue; `recvCq` has the ids of the completions. `confirmed` and `senders` are the workers
whose connection was reported as established and whose message has arrived. The last field is a
ghost: the completions that the client has taken. -/
structure Allocation where
  connections : List ExecutorState
  requested : Nat
  established : Nat
  received : Int
  completed : Int
  execsBuf : List UInt8
  recvCq : List Nat
  confirmed : List Nat
  senders : List Nat
  polled : List Nat

namespace Allocation

inductive Event
  /-- `poll_events` reports the request of a worker. -/
  | request (worker : Nat)
  /-- `poll_events` reports that the connection of a worker is established. -/
  | establish (worker : Nat)
  /-- `poll_events` reports something else. -/
  | unhandled
  /-- The message of a worker arrives. -/
  | send (worker : Nat)
  /-- A round of the loop that polls the receive queue. -/
  | poll
  /-- The same, when the poll returns an error. -/
  | pollFails
  /-- A poll of the send queue returns this number. -/
  | pollSend (count : Int)

def start : Allocation where
  connections := []
  requested := 0
  established := 0
  received := 0
  completed := 0
  execsBuf := replicate (maxRemoteWorkers * byteSize) 0
  recvCq := []
  confirmed := []
  senders := []
  polled := []

/-- `_execs_buf`. -/
def execs : Buffer :=
  (Buffer.allocate maxRemoteWorkers byteSize 0 0).registerMemory

/-- The receive that `allocate` posts for the i-th request. -/
def slot (index : Nat) : Receive where
  wrId := index
  sgList := [execs.sge byteSize (index * byteSize)]

/-- `REQUESTED`: the slot is posted before the receives that `refill` adds. -/
def request (rcvBufSize : Nat) (allocation : Allocation) (worker : Nat) : Allocation :=
  let (_, posted, receiveWcs) := (RecvWorkCompletions.construct rcvBufSize).setQp.refill
    RecvWorkCompletions.accepting
  { allocation with
    connections := allocation.connections ++
      [⟨slot allocation.requested :: posted, receiveWcs, ⟨0, 0⟩, worker⟩]
    requested := allocation.requested + 1 }

/-- `ESTABLISHED`. -/
def establish (allocation : Allocation) (worker : Nat) : Allocation :=
  { allocation with
    established := allocation.established + 1
    confirmed := allocation.confirmed ++ [worker] }

/-- What a message leaves in memory. -/
def scatter (memory : List UInt8) (receive : Receive) (data : List UInt8) : List UInt8 :=
  match receive.sgList with
  | [] => memory
  | sge :: _ => Bytes.store memory sge.offset (data.take sge.length)

/-- A message arrives on a queue pair and uses up its oldest receive. -/
def deliver (allocation : Allocation) (index worker : Nat) (connection : ExecutorState)
    (data : List UInt8) : Allocation :=
  match connection.receives with
  | [] => allocation
  | receive :: rest =>
    { allocation with
      connections := allocation.connections.modify index fun connection =>
        { connection with receives := rest }
      execsBuf := scatter allocation.execsBuf receive data
      recvCq := allocation.recvCq ++ [receive.wrId]
      senders := allocation.senders ++ [worker] }

/-- A worker that was accepted sends its one message. -/
def send (infos : Nat → RemoteBuffer) (allocation : Allocation) (worker : Nat) : Allocation :=
  if worker ∈ allocation.senders then allocation
  else
    match allocation.connections.findIdx? (·.worker == worker) with
    | none => allocation
    | some index =>
      match allocation.connections[index]? with
      | none => allocation
      | some connection =>
        allocation.deliver index worker connection (bytes (infos worker))

/-- The assignments to `remote_input` for a batch of completions. -/
def assign (memory : List UInt8) (connections : List ExecutorState) (ids : List Nat) :
    List ExecutorState :=
  ids.foldl (fun connections id => connections.modify id fun connection =>
    { connection with remoteInput := read memory id }) connections

def poll (allocation : Allocation) : Allocation :=
  let batch := allocation.recvCq.take wcSize
  { allocation with
    connections := assign allocation.execsBuf allocation.connections batch
    received := allocation.received + batch.length
    recvCq := allocation.recvCq.drop wcSize
    polled := allocation.polled ++ batch }

/-- The three loops of `allocate` one after the other, with the messages of the workers at any
time. Every worker asks for one connection, which is reported once it was accepted. -/
def step (numcores rcvBufSize : Nat) (infos : Nat → RemoteBuffer) (allocation : Allocation) :
    Event → Allocation
  | .request worker =>
    if allocation.established < numcores ∧ worker < numcores ∧
        worker ∉ allocation.connections.map ExecutorState.worker then
      allocation.request rcvBufSize worker
    else allocation
  | .establish worker =>
    if allocation.established < numcores ∧
        worker ∈ allocation.connections.map ExecutorState.worker ∧
        worker ∉ allocation.confirmed then
      allocation.establish worker
    else allocation
  | .unhandled => allocation
  | .send worker => allocation.send infos worker
  | .poll =>
    if numcores ≤ allocation.established ∧ allocation.received < numcores then allocation.poll
    else allocation
  | .pollFails =>
    if numcores ≤ allocation.established ∧ allocation.received < numcores then
      { allocation with received := allocation.received - 1 }
    else allocation
  | .pollSend count =>
    if numcores ≤ allocation.established ∧ numcores ≤ allocation.received ∧
        allocation.completed < numcores then
      { allocation with completed := allocation.completed + count }
    else allocation

/-- `allocate` has returned `true`. -/
def Returned (numcores : Nat) (allocation : Allocation) : Prop :=
  numcores ≤ allocation.established ∧ numcores ≤ allocation.received ∧
    numcores ≤ allocation.completed

instance (numcores : Nat) (allocation : Allocation) : Decidable (Returned numcores allocation) :=
  inferInstanceAs (Decidable (_ ∧ _ ∧ _))

/-! ### The invariant -/

/-- The message of the worker at the other end of this connection is in its slot. -/
def Arrived (infos : Nat → RemoteBuffer) (allocation : Allocation) (index : Nat) : Prop :=
  ∃ connection, allocation.connections[index]? = some connection ∧
    connection.worker ∈ allocation.senders ∧
    read allocation.execsBuf index = infos connection.worker

/-- The connection has the address of the worker at its other end. -/
def Assigned (infos : Nat → RemoteBuffer) (allocation : Allocation) (index : Nat) : Prop :=
  ∃ connection, allocation.connections[index]? = some connection ∧
    connection.remoteInput = infos connection.worker

/-- What holds all along the call. -/
structure Proper (numcores : Nat) (infos : Nat → RemoteBuffer) (allocation : Allocation) :
    Prop where
  counted : allocation.requested = allocation.connections.length
  distinct : (allocation.connections.map ExecutorState.worker).Nodup
  known : ∀ worker ∈ allocation.connections.map ExecutorState.worker, worker < numcores
  room : allocation.execsBuf.length = maxRemoteWorkers * byteSize
  confirmedOnce : allocation.confirmed.Nodup
  accepted : ∀ worker ∈ allocation.confirmed,
    worker ∈ allocation.connections.map ExecutorState.worker
  established : allocation.established = allocation.confirmed.length
  fresh : ∀ index connection, allocation.connections[index]? = some connection →
    connection.worker ∉ allocation.senders → ∃ rest, connection.receives = slot index :: rest
  once : (allocation.polled ++ allocation.recvCq).Nodup
  arrived : ∀ index ∈ allocation.polled ++ allocation.recvCq, Arrived infos allocation index
  assigned : ∀ index ∈ allocation.polled, Assigned infos allocation index
  received : allocation.received ≤ allocation.polled.length

variable {numcores : Nat} {infos : Nat → RemoteBuffer} {allocation : Allocation}

/-- Different numbers below a bound are not more than that. -/
theorem length_le_of_nodup {ids : List Nat} {bound : Nat} (distinct : ids.Nodup)
    (below : ∀ id ∈ ids, id < bound) : ids.length ≤ bound := by
  have inside : ids ⊆ range bound := fun id member => List.mem_range.mpr (below id member)
  have short := (distinct.subperm inside).length_le
  rwa [length_range] at short

/-- As many different numbers below a bound as there are, are all of them. -/
theorem perm_range_of_nodup {ids : List Nat} {bound : Nat} (distinct : ids.Nodup)
    (below : ∀ id ∈ ids, id < bound) (enough : bound ≤ ids.length) :
    ids.Perm (range bound) := by
  have inside : ids ⊆ range bound := fun id member => List.mem_range.mpr (below id member)
  refine (distinct.subperm inside).perm_of_length_le ?_
  rw [length_range]
  exact enough

theorem Proper.few (proper : allocation.Proper numcores infos) :
    allocation.connections.length ≤ numcores := by
  have short := length_le_of_nodup proper.distinct proper.known
  rwa [length_map] at short

theorem proper_start (numcores : Nat) (infos : Nat → RemoteBuffer) :
    start.Proper numcores infos where
  counted := rfl
  distinct := nodup_nil
  known := by simp [start]
  room := length_replicate
  confirmedOnce := nodup_nil
  accepted := by simp [start]
  established := rfl
  fresh := by simp [start]
  once := nodup_nil
  arrived := by simp [start]
  assigned := by simp [start]
  received := Int.le_refl 0

/-! ### Connections -/

theorem getElem?_concat_cases {connections : List ExecutorState} {new connection : ExecutorState}
    {index : Nat} (here : (connections ++ [new])[index]? = some connection) :
    connections[index]? = some connection ∨
      index = connections.length ∧ connection = new := by
  rcases Nat.lt_trichotomy index connections.length with old | last | beyond
  · rw [List.getElem?_append_left old] at here
    exact Or.inl here
  · rw [last, getElem?_concat_length] at here
    exact Or.inr ⟨last, (Option.some.inj here).symm⟩
  · rw [getElem?_eq_none (by rw [length_append]; exact beyond)] at here
    cases here

variable {connection : ExecutorState} {change : Nat → ExecutorState → ExecutorState}

theorem getElem?_concat_of_some {connections : List ExecutorState} {index : Nat}
    (here : connections[index]? = some connection) (new : ExecutorState) :
    (connections ++ [new])[index]? = some connection := by
  rw [List.getElem?_append_left (List.getElem?_eq_some_iff.mp here).1]
  exact here

theorem Proper.request (proper : allocation.Proper numcores infos) {worker : Nat}
    (inside : worker < numcores)
    (new : worker ∉ allocation.connections.map ExecutorState.worker) (rcvBufSize : Nat) :
    (allocation.request rcvBufSize worker).Proper numcores infos where
  counted := by
    simp only [Allocation.request, length_append, length_singleton, proper.counted]
  distinct := by
    simp only [Allocation.request, map_append, map_cons, map_nil]
    rw [← concat_eq_append, nodup_concat]
    exact ⟨new, proper.distinct⟩
  known := by
    simp only [Allocation.request, map_append, map_cons, map_nil]
    intro other member
    rcases mem_append.mp member with old | last
    · exact proper.known other old
    · rw [mem_singleton.mp last]
      exact inside
  room := proper.room
  confirmedOnce := proper.confirmedOnce
  accepted other member := by
    simp only [Allocation.request, map_append]
    exact mem_append_left _ (proper.accepted other member)
  established := proper.established
  fresh index connection here silent := by
    rcases getElem?_concat_cases here with old | ⟨rfl, rfl⟩
    · exact proper.fresh index connection old silent
    · exact ⟨_, by rw [proper.counted]⟩
  once := proper.once
  arrived index member := by
    obtain ⟨connection, here, sent, stored⟩ := proper.arrived index member
    exact ⟨connection, getElem?_concat_of_some here _, sent, stored⟩
  assigned index member := by
    obtain ⟨connection, here, own⟩ := proper.assigned index member
    exact ⟨connection, getElem?_concat_of_some here _, own⟩
  received := proper.received

theorem Proper.establish (proper : allocation.Proper numcores infos) {worker : Nat}
    (accepted : worker ∈ allocation.connections.map ExecutorState.worker)
    (new : worker ∉ allocation.confirmed) :
    (allocation.establish worker).Proper numcores infos :=
  { proper with
    confirmedOnce := by
      rw [Allocation.establish, ← concat_eq_append, nodup_concat]
      exact ⟨new, proper.confirmedOnce⟩
    accepted := fun other member => by
      rcases mem_append.mp member with old | last
      · exact proper.accepted other old
      · rw [mem_singleton.mp last]
        exact accepted
    established := by
      simp only [Allocation.establish, length_append, length_singleton,
        proper.established] }

/-! ### Connections that change -/

/-- A change of the connections that leaves every one with its worker. -/
structure Changes (before after : List ExecutorState)
    (change : Nat → ExecutorState → ExecutorState) : Prop where
  pointwise : ∀ index, after[index]? = (before[index]?).map (change index)
  worker : ∀ index connection, (change index connection).worker = connection.worker

theorem Changes.map_worker {before after : List ExecutorState}
    (changes : Changes before after change) :
    after.map ExecutorState.worker = before.map ExecutorState.worker := by
  refine ext_getElem? fun index => ?_
  rw [getElem?_map, getElem?_map, changes.pointwise, Option.map_map]
  exact congrArg (Option.map · before[index]?) (funext (changes.worker index))

theorem Changes.length_eq {before after : List ExecutorState}
    (changes : Changes before after change) : after.length = before.length := by
  rw [← @List.length_map _ _ after ExecutorState.worker, changes.map_worker, length_map]

theorem Changes.some {before after : List ExecutorState} (changes : Changes before after change)
    {index : Nat} (here : before[index]? = some connection) :
    after[index]? = some (change index connection) := by
  rw [changes.pointwise, here]
  rfl

theorem changes_modify (connections : List ExecutorState) (index : Nat) (rest : List Receive) :
    Changes connections
      (connections.modify index fun connection => { connection with receives := rest })
      fun other connection => if index = other then { connection with receives := rest }
        else connection where
  pointwise other := getElem?_modify _ _ _ _
  worker other connection := by split <;> rfl

/-- The assignments to `remote_input` reach the connections in the batch, and no others. -/
theorem changes_assign (memory : List UInt8) (connections : List ExecutorState) (ids : List Nat) :
    Changes connections (assign memory connections ids) fun index connection =>
      if index ∈ ids then
        { connection with remoteInput := read memory index }
      else connection where
  pointwise index := by
    induction ids generalizing connections with
    | nil => simp [assign]
    | cons id rest inductionHypothesis =>
      rw [assign, foldl_cons, ← assign, inductionHypothesis, getElem?_modify,
        Option.map_eq_map, Option.map_map]
      congr 1
      funext connection
      by_cases same : id = index
      · by_cases again : index ∈ rest <;> simp [same, again]
      · have other : index ≠ id := Ne.symm same
        simp [same, other]
  worker index connection := by split <;> rfl

/-! ### Messages -/

theorem scatter_slot (memory : List UInt8) (index : Nat) (info : RemoteBuffer) :
    scatter memory (slot index) (bytes info) =
      Bytes.store memory (index * byteSize) (bytes info) := by
  have whole : (bytes info).take byteSize =
      bytes info :=
    take_of_length_le (length_bytes info).le
  show Bytes.store memory _ ((bytes info).take byteSize) = _
  rw [whole]
  rfl

theorem deliver_slot {index : Nat} {rest : List Receive}
    (receives : connection.receives = slot index :: rest) (worker : Nat) (info : RemoteBuffer) :
    allocation.deliver index worker connection (bytes info) =
      { allocation with
        connections := allocation.connections.modify index fun connection =>
          { connection with receives := rest }
        execsBuf := Bytes.store allocation.execsBuf (index * byteSize)
          (bytes info)
        recvCq := allocation.recvCq ++ [index]
        senders := allocation.senders ++ [worker] } := by
  rw [Allocation.deliver, receives]
  dsimp only
  rw [scatter_slot]
  rfl

/-- The message of a worker that has not sent anything before lands in the slot of its
connection. -/
theorem Proper.deliver (proper : allocation.Proper numcores infos)
    (room : numcores ≤ maxRemoteWorkers) {index : Nat}
    (here : allocation.connections[index]? = some connection)
    (silent : connection.worker ∉ allocation.senders) :
    (allocation.deliver index connection.worker connection
      (bytes (infos connection.worker))).Proper numcores infos := by
  obtain ⟨rest, receives⟩ := proper.fresh index connection here silent
  have inside : index < allocation.connections.length := (List.getElem?_eq_some_iff.mp here).1
  have fits : (index + 1) * byteSize ≤ allocation.execsBuf.length := by
    rw [proper.room]
    exact Nat.mul_le_mul_right _ (Nat.le_trans inside (Nat.le_trans proper.few room))
  have new : index ∉ allocation.polled ++ allocation.recvCq := by
    intro member
    obtain ⟨same, there, sent, _⟩ := proper.arrived index member
    rw [here] at there
    rw [← Option.some.inj there] at sent
    exact silent sent
  rw [deliver_slot receives]
  have changes := changes_modify allocation.connections index rest
  have keeps (other : Nat) (before : ExecutorState) :
      (if index = other then { before with receives := rest } else before).remoteInput =
        before.remoteInput := by split <;> rfl
  exact
    { proper with
      counted := by rw [changes.length_eq]; exact proper.counted
      distinct := by rw [changes.map_worker]; exact proper.distinct
      known := by rw [changes.map_worker]; exact proper.known
      accepted := by rw [changes.map_worker]; exact proper.accepted
      room := by
        rw [Bytes.length_store]
        · exact proper.room
        · rw [length_bytes, ← Nat.succ_mul]
          exact fits
      fresh := fun other after there quiet => by
        dsimp only at there quiet
        rw [changes.pointwise] at there
        obtain ⟨before, was, rfl⟩ := Option.map_eq_some_iff.mp there
        rw [changes.worker, mem_append, not_or] at quiet
        by_cases same : index = other
        · rw [← same, here] at was
          exact absurd (by rw [← Option.some.inj was]; exact mem_singleton_self _) quiet.2
        · rw [if_neg same]
          exact proper.fresh other before was quiet.1
      once := by
        dsimp only
        rw [← append_assoc, ← concat_eq_append, nodup_concat]
        exact ⟨new, proper.once⟩
      arrived := fun other member => by
        dsimp only at member
        rw [← append_assoc] at member
        rcases mem_append.mp member with old | last
        · obtain ⟨before, there, sent, stored⟩ := proper.arrived other old
          have differs : other ≠ index := fun same => new (by rw [← same]; exact old)
          refine ⟨_, changes.some there, ?_, ?_⟩
          · rw [changes.worker]
            exact mem_append_left _ sent
          · rw [changes.worker, read_store_ne fits _ differs]
            exact stored
        · obtain rfl := mem_singleton.mp last
          refine ⟨_, changes.some here, ?_, ?_⟩
          · rw [changes.worker]
            exact mem_append_right _ (mem_singleton_self _)
          · rw [changes.worker]
            exact read_store fits _
      assigned := fun other member => by
        obtain ⟨before, there, own⟩ := proper.assigned other member
        refine ⟨_, changes.some there, ?_⟩
        rw [changes.worker, keeps]
        exact own }

theorem Proper.send (proper : allocation.Proper numcores infos)
    (room : numcores ≤ maxRemoteWorkers) (worker : Nat) :
    (allocation.send infos worker).Proper numcores infos := by
  unfold Allocation.send
  split
  · exact proper
  · rename_i silent
    cases found : allocation.connections.findIdx? (·.worker == worker) with
    | none => exact proper
    | some index =>
      obtain ⟨inside, same, _⟩ := findIdx?_eq_some_iff_getElem.mp found
      have here := getElem?_eq_getElem inside
      dsimp only
      rw [here]
      dsimp only
      obtain rfl := beq_iff_eq.mp same
      exact proper.deliver room here silent

/-! ### Polls -/

theorem Proper.poll (proper : allocation.Proper numcores infos) :
    allocation.poll.Proper numcores infos := by
  have changes := changes_assign allocation.execsBuf allocation.connections
    (allocation.recvCq.take wcSize)
  have same : allocation.poll.polled ++ allocation.poll.recvCq =
      allocation.polled ++ allocation.recvCq := by
    rw [Allocation.poll, append_assoc, take_append_drop]
  have arrived : ∀ index ∈ allocation.polled ++ allocation.recvCq,
      Arrived infos allocation.poll index := by
    intro index member
    obtain ⟨before, there, sent, stored⟩ := proper.arrived index member
    exact ⟨_, changes.some there, by rw [changes.worker]; exact sent,
      by rw [changes.worker]; exact stored⟩
  exact
    { proper with
      counted := by rw [Allocation.poll, changes.length_eq]; exact proper.counted
      distinct := by rw [Allocation.poll, changes.map_worker]; exact proper.distinct
      known := by rw [Allocation.poll, changes.map_worker]; exact proper.known
      accepted := by rw [Allocation.poll, changes.map_worker]; exact proper.accepted
      fresh := fun index after there quiet => by
        replace there : (assign _ _ _)[index]? = some after := there
        rw [changes.pointwise] at there
        obtain ⟨before, was, rfl⟩ := Option.map_eq_some_iff.mp there
        rw [changes.worker] at quiet
        obtain ⟨rest, receives⟩ := proper.fresh index before was quiet
        refine ⟨rest, ?_⟩
        split <;> exact receives
      once := by
        rw [same]
        exact proper.once
      arrived := by
        rw [same]
        exact arrived
      assigned := fun index member => by
        by_cases taken : index ∈ allocation.recvCq.take wcSize
        · obtain ⟨before, there, _, stored⟩ := proper.arrived index
            (mem_append_right _ (mem_of_mem_take taken))
          refine ⟨_, changes.some there, ?_⟩
          rw [changes.worker, if_pos taken]
          exact stored
        · have old : index ∈ allocation.polled :=
            (mem_append.mp member).resolve_right taken
          obtain ⟨before, there, own⟩ := proper.assigned index old
          refine ⟨_, changes.some there, ?_⟩
          rw [changes.worker, if_neg taken]
          exact own
      received := by
        have bound := proper.received
        simp only [Allocation.poll, length_append]
        omega }

/-! ### The call -/

theorem Proper.step (proper : allocation.Proper numcores infos)
    (room : numcores ≤ maxRemoteWorkers) (rcvBufSize : Nat) (event : Event) :
    (allocation.step numcores rcvBufSize infos event).Proper numcores infos := by
  cases event with
  | request worker =>
    dsimp only [Allocation.step]
    split
    · rename_i enabled
      exact proper.request enabled.2.1 enabled.2.2 rcvBufSize
    · exact proper
  | establish worker =>
    dsimp only [Allocation.step]
    split
    · rename_i enabled
      exact proper.establish enabled.2.1 enabled.2.2
    · exact proper
  | unhandled => exact proper
  | send worker => exact proper.send room worker
  | poll =>
    dsimp only [Allocation.step]
    split
    · exact proper.poll
    · exact proper
  | pollFails =>
    dsimp only [Allocation.step]
    split
    · have bound := proper.received
      exact { proper with received := by dsimp only; omega }
    · exact proper
  | pollSend count =>
    dsimp only [Allocation.step]
    split
    · exact { proper with }
    · exact proper

/-- As soon as all connections are established there is one for every worker. -/
theorem Proper.all_connected (proper : allocation.Proper numcores infos)
    (established : numcores ≤ allocation.established) :
    (allocation.connections.map ExecutorState.worker).Perm (range numcores) := by
  refine perm_range_of_nodup proper.distinct proper.known ?_
  rw [proper.established] at established
  exact Nat.le_trans established (proper.confirmedOnce.subperm proper.accepted).length_le

/-- As soon as as many messages were polled as there are workers, every connection has its
address. -/
theorem Proper.all_assigned (proper : allocation.Proper numcores infos)
    (received : numcores ≤ allocation.received) {index : Nat} (inside : index < numcores) :
    Assigned infos allocation index := by
  have enough : numcores ≤ allocation.polled.length := by
    have bound := proper.received
    omega
  have once : allocation.polled.Nodup := proper.once.of_append_left
  refine proper.assigned index ((perm_range_of_nodup once (fun id member => ?_) enough).mem_iff.mpr
    (List.mem_range.mpr inside))
  obtain ⟨_, here, _⟩ := proper.assigned id member
  exact Nat.lt_of_lt_of_le (List.getElem?_eq_some_iff.mp here).1 proper.few

/-- Whatever the order in which the requests, the confirmations and the messages of the workers
come in: when `allocate` returns `true`, there is one connection for every worker, and each has
the address and the key that the worker at its other end has sent. -/
theorem workers_paired (numcores rcvBufSize : Nat) (room : numcores ≤ maxRemoteWorkers)
    (infos : Nat → RemoteBuffer) (events : List Event)
    (returned : (run (step numcores rcvBufSize infos) start events).Returned numcores) :
    let allocation := run (step numcores rcvBufSize infos) start events
    allocation.connections.length = numcores ∧
      (allocation.connections.map ExecutorState.worker).Perm (range numcores) ∧
      ∀ (index : Nat) (connection : ExecutorState),
        allocation.connections[index]? = some connection →
        connection.remoteInput = infos connection.worker := by
  intro allocation
  have proper : allocation.Proper numcores infos :=
    @run_stable _ _ (step numcores rcvBufSize infos) (Proper numcores infos)
      (fun _ event proper => proper.step room rcvBufSize event) _ events
      (proper_start numcores infos)
  have all := proper.all_connected returned.1
  have count : allocation.connections.length = numcores := by
    have same := all.length_eq
    rwa [length_map, length_range] at same
  refine ⟨count, all, fun index connection here => ?_⟩
  have inside : index < numcores := by
    rw [← count]
    exact (List.getElem?_eq_some_iff.mp here).1
  obtain ⟨same, there, own⟩ := proper.all_assigned returned.2.1 inside
  rw [here] at there
  rw [Option.some.inj there]
  exact own

/-- Two workers. The second one asks first, the first one sends first. -/
def crossing : List Event :=
  [.request 1, .request 0, .send 0, .establish 0, .establish 1, .send 1, .poll, .pollSend 2]

/-- The connections are in the order of the requests, each with the address of its worker. -/
theorem workers_paired_crossing :
    let infos := fun worker => (⟨UInt64.ofNat (4096 * (worker + 1)), UInt32.ofNat worker⟩ :
      RemoteBuffer)
    let allocation := run (step 2 32 infos) start crossing
    allocation.Returned 2 ∧ allocation.connections.length = 2 ∧
      allocation.connections.map ExecutorState.remoteInput = [⟨8192, 1⟩, ⟨4096, 0⟩] := by
  intro infos allocation
  have returned : allocation.Returned 2 := by decide +kernel
  obtain ⟨count, _, own⟩ := workers_paired 2 32 (by decide) infos crossing returned
  have workers : allocation.connections.map ExecutorState.worker = [1, 0] := by decide +kernel
  have addresses : allocation.connections.map ExecutorState.remoteInput =
      (allocation.connections.map ExecutorState.worker).map infos := by
    rw [map_map]
    refine map_congr_left fun connection member => ?_
    obtain ⟨index, here⟩ := mem_iff_getElem?.mp member
    exact own index connection here
  rw [addresses, workers]
  exact ⟨returned, count, rfl⟩

end Allocation

end RFaaS.Client
