/-
This file puts the parties of an invocation together: the client library, the
connections with what is in flight on them in either direction, the worker
threads behind them, and the output buffers that the client has registered.
The replies of all workers arrive in one completion queue.

A write takes effect when it arrives: it is placed in the memory of its
receiver and then delivers one completion. Writes of one connection arrive in
the order in which they were posted; otherwise the parties run at any relative
speed.
-/

import RFaaS.Client
import RFaaS.FastExecutor
import RFaaS.Transition

namespace RFaaS

open Client FastExecutor

/-- A connection: what the client has posted on it and what has not arrived, and the thread at
its other end. -/
structure Lane where
  wire : List Write
  thread : Thread

/-- Where the thread of the client is. -/
inductive Waiting
  /-- Outside of the library. -/
  | idle
  /-- In the loop of `execute`. -/
  | polling (invocId : BitVec 32)
  /-- In `execute`, with the result, before the last poll. -/
  | draining (returnVal : BitVec 32) (outSize : UInt32)
  /-- In the receiving loop of `execute` on vectors. -/
  | counting (expected : Int) (correct : Bool)
  /-- The end of a map was dereferenced. -/
  | fault
  deriving DecidableEq, Repr

/-- A call of `execute` with the output memory at that time. -/
structure Issue where
  fname : String
  input : List UInt8
  out : RemoteBuffer
  memory : Table UInt32 Region

/-- What a call of `execute` returned, and the output memory that its caller then finds. -/
structure Returned where
  value : Bool × Int
  memory : Table UInt32 Region

/-- A client and its workers. `memory` holds the output buffers of the client by their keys and
`recvCq` is the completion queue of all its connections. `issued` and `returned` are ghosts: the
calls of `execute` on a single buffer and their results. -/
structure Session where
  executor : Client.Executor
  waiting : Waiting
  lanes : Nat → Lane
  memory : Table UInt32 Region
  recvCq : List WorkCompletion
  issued : List Issue
  returned : List Returned

/-- What a worker is started with: the hot timeout, the limit of its device for inlined data,
its input buffer and the size of its output buffer. -/
structure Worker where
  timeout : Int
  maxInlineData : UInt32
  rcv : Region
  outSize : Nat

namespace Session

inductive Event
  /-- The client makes a call. -/
  | call (call : Call)
  /-- The oldest write in flight to a worker arrives. -/
  | land (connection : Nat)
  /-- A worker takes a step. -/
  | work (connection : Nat) (now : Int)
  /-- The oldest reply in flight from a worker arrives. -/
  | answer (connection : Nat)
  /-- The client goes on in `execute`. -/
  | poll
  /-- The background thread polls in `poll_queue`. -/
  | pollQueue
  | pollQueueOnce
  | pollQueueOnce2

/-- A client that has just allocated `numcores` workers for a library. -/
def start (library : Library) (maxInlineData : Int) (numcores : Nat) (workers : Nat → Worker)
    (memory : Table UInt32 Region) : Session where
  executor := Client.Executor.allocated maxInlineData library.symbols
    ((List.range numcores).map fun connection => (workers connection).rcv.remote)
  waiting := .idle
  lanes := fun connection =>
    { wire := []
      thread := Thread.begin_ (Functions.processLibrary library) (workers connection).timeout
        (workers connection).maxInlineData (workers connection).rcv (workers connection).outSize }
  memory := memory
  recvCq := []
  issued := []
  returned := []

/-- The lanes after writes were posted. -/
def wired (lanes : Nat → Lane) (posted : List Posted) (connection : Nat) : Lane :=
  { lanes connection with
    wire := (lanes connection).wire ++
      (posted.filter (·.connection == connection)).map Posted.write }

/-- The memory after a write, if the key is known and the data lies in its region. -/
def deliver (memory : Table UInt32 Region) (write : Write) : Option (Table UInt32 Region) :=
  match memory.lookup write.remote.rkey with
  | none => none
  | some region =>
    match region.place write with
    | none => none
    | some region => some (memory.insert write.remote.rkey region)

/-- A call. The thread of the client makes none while it is in an `execute`. -/
def makeCall (session : Session) (call : Call) : Session :=
  match session.waiting with
  | .idle =>
    let (executor, posted) := session.executor.issue call
    let next : Session :=
      { session with executor := executor, lanes := wired session.lanes posted }
    match call with
    | .execute fname input out =>
      let issued := session.issued ++ [⟨fname, input, out, session.memory⟩]
      match session.executor.findFunction fname with
      | none =>
        { next with
          issued := issued
          returned := session.returned ++ [⟨(false, 0), session.memory⟩] }
      | some _ => { next with issued := issued, waiting := .polling executor.invocId }
    | .executeVector fname _ _ =>
      let numcores : Int := session.executor.connections.length
      match session.executor.findFunction fname with
      | none => next
      | some _ =>
        if numcores = 0 then next else { next with waiting := .counting numcores true }
    | _ => next
  | _ => session

/-- The oldest write on the connection arrives at the worker. -/
def land (session : Session) (connection : Nat) : Session :=
  let lane := session.lanes connection
  match lane.wire with
  | [] => session
  | write :: rest =>
    { session with
      lanes := Function.update session.lanes connection
        { wire := rest, thread := lane.thread.land write } }

/-- A step of a worker. -/
def work (session : Session) (connection : Nat) (now : Int) : Session :=
  let lane := session.lanes connection
  { session with
    lanes := Function.update session.lanes connection
      { lane with thread := lane.thread.step now } }

/-- The oldest reply of a worker arrives at the client. A write that no region takes is lost. -/
def answer (session : Session) (connection : Nat) : Session :=
  let lane := session.lanes connection
  match lane.thread.posted with
  | [] => session
  | write :: rest =>
    let lanes := Function.update session.lanes connection
      { lane with thread := { lane.thread with posted := rest } }
    match deliver session.memory write with
    | none => { session with lanes := lanes }
    | some memory =>
      { session with
        lanes := lanes
        memory := memory
        recvCq := session.recvCq ++ [write.completion] }

/-- The value of `execute`. -/
def outcome (returnVal : BitVec 32) (outSize : UInt32) : Bool × Int :=
  if returnVal = 0#32 then (true, outSize.toBitVec.toInt) else (false, 0)

/-- One round of the loop of `execute`, or its end; likewise for `execute` on vectors, whose
loop goes on as long as the count is not zero. -/
def poll (session : Session) : Session :=
  let batch := session.recvCq.take wcSize
  let rest := session.recvCq.drop wcSize
  match session.waiting with
  | .idle | .fault => session
  | .polling invocId =>
    match session.executor.walk invocId none batch with
    | none => { session with waiting := .fault }
    | some (executor, none) => { session with executor := executor, recvCq := rest }
    | some (executor, some (returnVal, outSize)) =>
      { session with
        executor := executor
        recvCq := rest
        waiting := .draining returnVal outSize }
  | .draining returnVal outSize =>
    match session.executor.settleAll batch with
    | none => { session with waiting := .fault }
    | some executor =>
      { session with
        executor := executor
        recvCq := rest
        waiting := .idle
        returned := session.returned ++ [⟨outcome returnVal outSize, session.memory⟩] }
  | .counting expected correct =>
    let expected := expected - batch.length
    let correct := correct && batch.all fun completion =>
      Immediate.returnVal (ntohl completion.immData) == 0#32
    { session with
      recvCq := rest
      waiting := if expected = 0 then .idle else .counting expected correct }

/-- A poll outside of `execute` hands its batch to `dispatch`. -/
def pollWith (session : Session)
    (dispatch : Client.Executor → List WorkCompletion → Option Client.Executor) : Session :=
  match dispatch session.executor (session.recvCq.take wcSize) with
  | none => { session with waiting := .fault }
  | some executor =>
    { session with executor := executor, recvCq := session.recvCq.drop wcSize }

/-- One event of the session. -/
def step (session : Session) : Event → Session
  | .call call => session.makeCall call
  | .land connection => session.land connection
  | .work connection now => session.work connection now
  | .answer connection => session.answer connection
  | .poll => session.poll
  | .pollQueue => session.pollWith Client.Executor.settleAll
  | .pollQueueOnce =>
    if session.waiting = .idle then session.pollWith Client.Executor.fireAll else session
  | .pollQueueOnce2 =>
    if session.waiting = .idle then session.pollWith Client.Executor.fireAll2 else session

/-! ### What the events do -/

variable {session : Session} {connection : Nat} {write : Write} {rest : List Write}

theorem land_of_nil (empty : (session.lanes connection).wire = []) :
    session.land connection = session := by
  dsimp only [land]
  rw [empty]

theorem land_of_cons (inFlight : (session.lanes connection).wire = write :: rest) :
    session.land connection =
      { session with
        lanes := Function.update session.lanes connection
          { wire := rest, thread := (session.lanes connection).thread.land write } } := by
  dsimp only [land]
  rw [inFlight]

theorem answer_of_nil (empty : (session.lanes connection).thread.posted = []) :
    session.answer connection = session := by
  dsimp only [answer]
  rw [empty]

theorem answer_of_cons (inFlight : (session.lanes connection).thread.posted = write :: rest)
    {memory : Table UInt32 Region} (delivered : deliver session.memory write = some memory) :
    session.answer connection =
      { session with
        lanes := Function.update session.lanes connection
          { session.lanes connection with
            thread := { (session.lanes connection).thread with posted := rest } }
        memory := memory
        recvCq := session.recvCq ++ [write.completion] } := by
  dsimp only [answer]
  rw [inFlight]
  dsimp only
  rw [delivered]

theorem poll_of_nil {invocId : BitVec 32} (polling : session.waiting = .polling invocId)
    (empty : session.recvCq = []) : session.poll = session := by
  obtain ⟨executor, waiting, lanes, memory, recvCq, issued, returned⟩ := session
  subst polling empty
  rfl

theorem poll_of_idle (idle : session.waiting = .idle) : session.poll = session := by
  obtain ⟨executor, waiting, lanes, memory, recvCq, issued, returned⟩ := session
  subst idle
  rfl

theorem poll_of_found {invocId : BitVec 32} {completion : WorkCompletion}
    (polling : session.waiting = .polling invocId) (received : session.recvCq = [completion])
    (own : Immediate.finishedInvocId (ntohl completion.immData) = invocId) :
    session.poll =
      { session with
        recvCq := []
        waiting := .draining (Immediate.returnVal (ntohl completion.immData))
          completion.byteLen } := by
  obtain ⟨executor, waiting, lanes, memory, recvCq, issued, returned⟩ := session
  subst polling received
  have walked : executor.walk invocId none [completion] =
      some (executor, some (Immediate.returnVal (ntohl completion.immData),
        completion.byteLen)) := by
    simp only [Client.Executor.walk, own, if_true]
  have all : [completion].take wcSize = [completion] := rfl
  have nothing : [completion].drop wcSize = [] := rfl
  simp only [poll, all, nothing, walked]

theorem poll_of_draining {returnVal : BitVec 32} {outSize : UInt32}
    (draining : session.waiting = .draining returnVal outSize) (empty : session.recvCq = []) :
    session.poll =
      { session with
        waiting := .idle
        returned := session.returned ++ [⟨outcome returnVal outSize, session.memory⟩] } := by
  obtain ⟨executor, waiting, lanes, memory, recvCq, issued, returned⟩ := session
  subst draining empty
  rfl

theorem makeCall_of_waiting (waits : session.waiting ≠ .idle) (call : Call) :
    session.makeCall call = session := by
  unfold makeCall
  split
  · rename_i idle
    exact absurd idle waits
  · rfl

theorem makeCall_execute {fname : String} {input : List UInt8} {out : RemoteBuffer}
    {funcIdx : BitVec 32} (idle : session.waiting = .idle)
    (found : session.executor.findFunction fname = some funcIdx) :
    session.makeCall (.execute fname input out) =
      { session with
        executor := (session.executor.execute fname input out).1
        lanes := wired session.lanes (session.executor.execute fname input out).2
        issued := session.issued ++ [⟨fname, input, out, session.memory⟩]
        waiting := .polling (session.executor.execute fname input out).1.invocId } := by
  unfold makeCall
  rw [idle]
  dsimp only
  rw [found]
  rfl

theorem wired_singleton (lanes : Nat → Lane) (connection : Nat) (write : Write) :
    wired lanes [⟨connection, write⟩] =
      Function.update lanes connection
        { lanes connection with wire := (lanes connection).wire ++ [write] } := by
  funext other
  by_cases here : other = connection
  · subst here
    simp only [wired, Function.update_self, List.filter_cons, beq_self_eq_true, if_true,
      List.filter_nil, List.map_cons, List.map_nil]
  · have elsewhere : (connection == other) = false := beq_false_of_ne (Ne.symm here)
    simp only [wired, Function.update_of_ne here, List.filter_cons, elsewhere, List.filter_nil,
      List.map_nil, List.append_nil, Bool.false_eq_true, if_false]

end Session

end RFaaS
