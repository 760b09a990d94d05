/-
This file describes sessions in which the client makes synchronous calls only.
Such a session goes through six phases for each call: the write is in flight,
the worker serves it, the reply is in flight, the reply waits in the completion
queue, the client has found it, and the call has returned. In each phase one of
the network, the worker and the client has to move next.
-/

import RFaaS.Isolation

namespace RFaaS

open Client FastExecutor

/-! ### What a call asks for -/

namespace Issue

/-- The bytes of the input buffer behind the header. -/
def payload (issue : Issue) : List UInt8 := issue.input.drop Submission.dataHeaderSize

/-- The call is one that the worker has room for: the input buffer has a header and fits the
input buffer of the worker, the output buffer is registered, and whatever the rest of the input
buffer and the output memory of the worker hold, the result of the function fits the output
memory and the output buffer. -/
structure Fits (library : Library) (inBytes outBytes : Nat) (issue : Issue) (region : Region) :
    Prop where
  known : issue.fname ∈ library.symbols
  header : Submission.dataHeaderSize ≤ issue.input.length
  input : issue.input.length ≤ inBytes
  registered : issue.memory.lookup issue.out.rkey = some region
  remote : region.remote = issue.out
  result : ∀ stale send, send.length = outBytes →
    let result := library.code issue.fname (issue.payload ++ stale)
      (UInt32.ofNat issue.payload.length) send
    result.2.length = outBytes ∧ result.1.toNat ≤ outBytes ∧
      result.1.toNat ≤ region.bytes.length

/-- The worker has run the function that the call names, on the payload of the call and with
its length. -/
structure RunsAs (library : Library) (issue : Issue) (execution : Execution) : Prop where
  name : execution.name = issue.fname
  payload : issue.payload <+: execution.input
  size : execution.inSize.toNat = issue.payload.length
  result : ∃ send, library.code issue.fname execution.input execution.inSize send =
    (execution.outSize, execution.output)

/-- The output memory with the result of the call at the address of its output buffer, and
unchanged otherwise. -/
def filled (issue : Issue) (region : Region) (execution : Execution) : Table UInt32 Region :=
  let result := execution.output.take execution.outSize.toNat
  issue.memory.insert issue.out.rkey
    { region with bytes := result ++ region.bytes.drop result.length }

/-- The call has returned the number of bytes that the function returned, and its caller finds
that many bytes of the result in the output buffer. -/
structure ReturnsAs (issue : Issue) (execution : Execution) (returned : Returned) : Prop where
  value : returned.value = (true, (execution.outSize.toNat : Int))
  complete : (execution.output.take execution.outSize.toNat).length = execution.outSize.toNat
  memory : ∃ region, issue.memory.lookup issue.out.rkey = some region ∧
    region.remote = issue.out ∧ returned.memory = issue.filled region execution

/-- What the client posts for a call with this id. -/
structure Wrote (library : Library) (remote : RemoteBuffer) (issue : Issue) (id : BitVec 32)
    (write : Write) : Prop where
  data : write.data = Submission.stamp issue.input issue.out
  remote : write.remote = remote
  index : ∃ index, (extractSymbols library.symbols)[index]? = some issue.fname ∧
    ntohl write.immData = Immediate.submission id (BitVec.ofNat 32 index)
  counted : id.toNat < 2 ^ 16

variable {library : Library} {remote : RemoteBuffer} {issue : Issue} {id : BitVec 32}
  {write : Write}

section

variable (wrote : issue.Wrote library remote id write)
include wrote

theorem Wrote.payload : write.payload = issue.payload := by
  have dropped := Submission.drop_stamp_append issue.input issue.out []
  rw [List.append_nil, List.append_nil] at dropped
  rw [Write.payload, wrote.data, dropped, Issue.payload]

theorem Wrote.header : Submission.header write.data = issue.out := by
  have read := Submission.header_stamp_append issue.input issue.out []
  rw [List.append_nil] at read
  rw [wrote.data, read]

section

variable (few : library.symbols.length ≤ 2 ^ 15)
include few

/-- The index that the client writes fits its bits. -/
theorem Wrote.small :
    ∃ index, (extractSymbols library.symbols)[index]? = some issue.fname ∧
      ntohl write.immData = Immediate.submission id (BitVec.ofNat 32 index) ∧
      (BitVec.ofNat 32 index).toNat = index ∧ index < 2 ^ 15 := by
  obtain ⟨index, named, immediate⟩ := wrote.index
  have small : index < 2 ^ 15 := by
    have inside := (List.getElem?_eq_some_iff.mp named).1
    rw [extractSymbols, List.length_insertionSort] at inside
    exact Nat.lt_of_lt_of_le inside few
  refine ⟨index, named, immediate, ?_, small⟩
  rw [BitVec.toNat_ofNat]
  omega

/-- The worker finds the function that the call names. -/
theorem Wrote.function :
    (Functions.processLibrary library).function (Immediate.funcId (ntohl write.immData)).toNat =
      some (issue.fname, library.code issue.fname) := by
  obtain ⟨index, named, immediate, exact_, small⟩ := wrote.small few
  rw [immediate, Immediate.funcId_submission id (by rw [exact_]; exact small), exact_]
  unfold Functions.function Functions.processLibrary
  rw [named]
  rfl

/-- The client recognises the reply. -/
theorem Wrote.reply :
    Immediate.finishedInvocId (Immediate.reply (Immediate.invocId (ntohl write.immData))) =
      id := by
  obtain ⟨index, _, immediate, exact_, small⟩ := wrote.small few
  have low : (BitVec.ofNat 32 index).toNat < 2 ^ 16 := by
    rw [exact_]
    exact Nat.lt_trans small (by decide)
  have counted := wrote.counted
  rw [Immediate.finishedInvocId_reply, immediate, Immediate.submission,
    Immediate.upperHalf id low, Nat.mod_eq_of_lt counted, BitVec.ofNat_toNat]
  exact BitVec.setWidth_eq id

/-- A call that the worker made on behalf of the write is what was asked for. -/
theorem Wrote.runsAs {execution : Execution}
    (own : execution.Own (Functions.processLibrary library))
    (origin : execution.origin = write) : issue.RunsAs library execution := by
  obtain ⟨payload, size, function, send, found, result⟩ := own
  rw [origin] at payload size found
  rw [wrote.payload] at payload size
  rw [wrote.function few] at found
  obtain ⟨name, code⟩ := Prod.mk.inj (Option.some.inj found)
  exact ⟨name.symm, payload, size, send, by rw [code]; exact result⟩

end

end

end Issue

/-- The worker is busy with this write and with nothing else. -/
def FastExecutor.Stage.For (write : Write) : Stage → Prop
  | .idle => False
  | .queued completion | .held completion | .returned completion _ =>
    completion = write.completion

/-- How many calls of functions were made for the invocation at hand. -/
def FastExecutor.Stage.calls : Stage → Nat
  | .returned _ _ => 1
  | _ => 0

/-- The result of a call of a function has the room it needs. -/
structure FastExecutor.Execution.Bounded (outBytes : Nat) (region : Region)
    (execution : Execution) : Prop where
  output : execution.output.length = outBytes
  size : execution.outSize.toNat ≤ outBytes
  room : execution.outSize.toNat ≤ region.bytes.length

theorem Issue.Fits.bounded {library : Library} {inBytes outBytes : Nat} {issue : Issue}
    {region : Region} (fits : issue.Fits library inBytes outBytes region) {execution : Execution}
    (payload : issue.payload <+: execution.input)
    (size : execution.inSize.toNat = issue.payload.length) {send : List UInt8}
    (length : send.length = outBytes)
    (result : library.code issue.fname execution.input execution.inSize send =
      (execution.outSize, execution.output)) : execution.Bounded outBytes region := by
  obtain ⟨stale, whole⟩ := payload
  have exact_ : UInt32.ofNat issue.payload.length = execution.inSize := by
    rw [← size, UInt32.ofNat_toNat]
  have room := fits.result stale send length
  rw [whole, exact_, result] at room
  exact ⟨room.1, room.2.1, room.2.2⟩

namespace Session

/-! ### Sessions of synchronous calls -/

/-- The calls that were made, the calls of functions that the worker has made and the results
are in step: the worker makes one call of a function for each, in order, and the client waits
for its return. -/
structure Faithful (library : Library) (issued : List Issue) (executions : List Execution)
    (returned : List Returned) : Prop where
  executed : executions.length ≤ issued.length
  answered : returned.length ≤ executions.length
  blocking : issued.length ≤ returned.length + 1
  runs : ∀ (index : Nat) (issue : Issue) (execution : Execution), issued[index]? = some issue →
    executions[index]? = some execution → issue.RunsAs library execution
  returns : ∀ (index : Nat) (issue : Issue) (execution : Execution) (result : Returned),
    issued[index]? = some issue → executions[index]? = some execution →
      returned[index]? = some result → issue.ReturnsAs execution result

/-- The client makes synchronous calls only, each of which fits its worker, and nobody else
takes replies from its queue. A call that is made while another one waits is none. -/
def Synchronous (library : Library) (inBytes outBytes : Nat) (session : Session) : Event → Prop
  | .call (.execute fname input out) =>
    session.waiting = .idle →
      ∃ region, Issue.Fits library inBytes outBytes ⟨fname, input, out, session.memory⟩ region
  | .call _ | .pollQueue | .pollQueueOnce | .pollQueueOnce2 => False
  | .land _ | .work _ _ | .answer _ | .poll => True

/-- What the lane of the calls looks like: the writes in flight, how far the worker is, the
replies in flight and the number of calls of functions. -/
structure LaneAt (lane : Lane) (wire : List Write) (stage : Stage) (posted : List Write)
    (executed : Nat) : Prop where
  wire : lane.wire = wire
  here : lane.thread.At stage
  carries : lane.thread.visible.Carries stage
  posted : lane.thread.posted = posted
  executed : lane.thread.executions.length = executed

/-- The last call is not answered; it was posted as this write under this id. -/
structure Asked (library : Library) (inBytes outBytes : Nat) (lane : Lane) (issued : List Issue)
    (returned : List Returned) (issue : Issue) (region : Region) (id : BitVec 32)
    (write : Write) : Prop where
  pending : issued.length = returned.length + 1
  last : issued[returned.length]? = some issue
  fits : issue.Fits library inBytes outBytes region
  wrote : issue.Wrote library lane.thread.rcv.remote id write

/-- The reply to a call, for the call of the function that it reports. -/
structure Answers (outBytes : Nat) (issue : Issue) (region : Region) (write : Write)
    (execution : Execution) (reply : Write) : Prop where
  remote : reply.remote = issue.out
  data : reply.data = execution.output.take execution.outSize.toNat
  immediate : ntohl reply.immData =
    Immediate.reply (Immediate.invocId (ntohl write.immData))
  bounded : execution.Bounded outBytes region

/-- The phases of a session of synchronous calls, in terms of what they are visible in. -/
inductive Orderly (library : Library) (inBytes outBytes : Nat) (waiting : Waiting) (lane : Lane)
    (memory : Table UInt32 Region) (recvCq : List WorkCompletion) (issued : List Issue)
    (returned : List Returned) : Prop
  | ready (idle : waiting = .idle) (quiet : LaneAt lane [] .idle [] returned.length)
      (received : recvCq = []) (level : issued.length = returned.length)
  | sent (issue : Issue) (region : Region) (id : BitVec 32) (write : Write)
      (asked : Asked library inBytes outBytes lane issued returned issue region id write)
      (polling : waiting = .polling id) (quiet : LaneAt lane [write] .idle [] returned.length)
      (received : recvCq = []) (before : memory = issue.memory)
  | serving (issue : Issue) (region : Region) (id : BitVec 32) (write : Write) (stage : Stage)
      (asked : Asked library inBytes outBytes lane issued returned issue region id write)
      (polling : waiting = .polling id) (for_ : stage.For write)
      (busy : LaneAt lane [] stage [] (returned.length + stage.calls))
      (bounded : ∀ execution, lane.thread.executions[returned.length]? = some execution →
        execution.Bounded outBytes region)
      (received : recvCq = []) (before : memory = issue.memory)
  | answered (issue : Issue) (region : Region) (id : BitVec 32) (write : Write)
      (execution : Execution) (reply : Write)
      (asked : Asked library inBytes outBytes lane issued returned issue region id write)
      (polling : waiting = .polling id)
      (quiet : LaneAt lane [] .idle [reply] (returned.length + 1))
      (called : lane.thread.executions[returned.length]? = some execution)
      (answers : Answers outBytes issue region write execution reply)
      (received : recvCq = []) (before : memory = issue.memory)
  | arrived (issue : Issue) (region : Region) (id : BitVec 32) (write : Write)
      (execution : Execution) (reply : Write)
      (asked : Asked library inBytes outBytes lane issued returned issue region id write)
      (polling : waiting = .polling id) (quiet : LaneAt lane [] .idle [] (returned.length + 1))
      (called : lane.thread.executions[returned.length]? = some execution)
      (answers : Answers outBytes issue region write execution reply)
      (received : recvCq = [reply.completion])
      (after : memory = issue.filled region execution)
  | drained (issue : Issue) (region : Region) (id : BitVec 32) (write : Write)
      (execution : Execution)
      (asked : Asked library inBytes outBytes lane issued returned issue region id write)
      (draining : waiting = .draining 0#32 execution.outSize)
      (quiet : LaneAt lane [] .idle [] (returned.length + 1))
      (called : lane.thread.executions[returned.length]? = some execution)
      (bounded : execution.Bounded outBytes region)
      (received : recvCq = []) (after : memory = issue.filled region execution)

/-- What no event of such a session changes. -/
structure Ground (library : Library) (inBytes outBytes : Nat) (executor : Client.Executor)
    (thread : Thread) : Prop where
  names : executor.funcNames = extractSymbols library.symbols
  counted : executor.invocId.toNat < 2 ^ 16
  connected : executor.connections[0]? = some thread.rcv.remote
  functions : thread.functions = Functions.processLibrary library
  input : thread.rcv.bytes.length = inBytes
  output : thread.send.length = outBytes
  alert : thread.Alert
  isolated : thread.visible.Isolated

/-- The invariant of a session of synchronous calls; the workers of the other connections have
nothing to do. -/
structure Proper (library : Library) (inBytes outBytes : Nat) (session : Session) : Prop where
  ground : Ground library inBytes outBytes session.executor (session.lanes 0).thread
  faithful : Faithful library session.issued (session.lanes 0).thread.executions session.returned
  orderly : Orderly library inBytes outBytes session.waiting (session.lanes 0) session.memory
    session.recvCq session.issued session.returned
  others : ∀ connection, connection ≠ 0 → LaneAt (session.lanes connection) [] .idle [] 0

/-! ### Who has to move -/

/-- The parties that an invocation waits for in turn. -/
inductive Party
  | outbound
  | worker
  | inbound
  | client
  deriving DecidableEq

/-- The party whose event this is. -/
def party : Event → Option Party
  | .land 0 => some .outbound
  | .work 0 _ => some .worker
  | .answer 0 => some .inbound
  | .poll => some .client
  | _ => none

/-- A bound on the moves that are left until the call returns. -/
def due (waiting : Waiting) (lane : Lane) (recvCq : List WorkCompletion) : Nat :=
  match waiting with
  | .draining _ _ => 1
  | .polling _ =>
    if recvCq ≠ [] then 2
    else if lane.thread.posted ≠ [] then 3
    else if lane.wire ≠ [] then 11
    else 3 + lane.thread.control.patience
  | _ => 0

/-- The party whose move is due. -/
def helper (waiting : Waiting) (lane : Lane) (recvCq : List WorkCompletion) : Party :=
  match waiting with
  | .polling _ =>
    if recvCq ≠ [] then .client
    else if lane.thread.posted ≠ [] then .inbound
    else if lane.wire ≠ [] then .outbound
    else .worker
  | _ => .client

section Due

variable {waiting : Waiting} {lane : Lane} {recvCq : List WorkCompletion} {id : BitVec 32}

theorem due_sent {write : Write} {rest : List Write} (polling : waiting = .polling id)
    (received : recvCq = []) (posted : lane.thread.posted = [])
    (wire : lane.wire = write :: rest) :
    due waiting lane recvCq = 11 ∧ helper waiting lane recvCq = .outbound := by
  simp only [due, helper, polling, received, posted, wire, ne_eq, not_true_eq_false, reduceCtorEq,
    not_false_eq_true, if_true, if_false, and_self]

theorem due_serving (polling : waiting = .polling id) (received : recvCq = [])
    (posted : lane.thread.posted = []) (wire : lane.wire = []) :
    due waiting lane recvCq = 3 + lane.thread.control.patience ∧
      helper waiting lane recvCq = .worker := by
  simp only [due, helper, polling, received, posted, wire, ne_eq, not_true_eq_false, if_false,
    and_self]

theorem due_answered {reply : Write} {rest : List Write} (polling : waiting = .polling id)
    (received : recvCq = []) (posted : lane.thread.posted = reply :: rest) :
    due waiting lane recvCq = 3 ∧ helper waiting lane recvCq = .inbound := by
  simp only [due, helper, polling, received, posted, ne_eq, not_true_eq_false, reduceCtorEq,
    not_false_eq_true, if_true, if_false, and_self]

theorem due_arrived {completion : WorkCompletion} {rest : List WorkCompletion}
    (polling : waiting = .polling id) (received : recvCq = completion :: rest) :
    due waiting lane recvCq = 2 ∧ helper waiting lane recvCq = .client := by
  simp only [due, helper, polling, received, ne_eq, reduceCtorEq, not_false_eq_true, if_true,
    and_self]

theorem due_drained {returnVal : BitVec 32} {outSize : UInt32}
    (draining : waiting = .draining returnVal outSize) :
    due waiting lane recvCq = 1 ∧ helper waiting lane recvCq = .client := by
  simp only [due, helper, draining, and_self]

theorem helper_ne_outbound (wire : lane.wire = []) : helper waiting lane recvCq ≠ .outbound := by
  unfold helper
  rw [if_neg (fun some : lane.wire ≠ [] => some wire)]
  split
  · split
    · decide
    · split <;> decide
  · decide

theorem helper_ne_inbound (posted : lane.thread.posted = []) :
    helper waiting lane recvCq ≠ .inbound := by
  unfold helper
  rw [if_neg (fun some : lane.thread.posted ≠ [] => some posted)]
  split
  · split
    · decide
    · split <;> decide
  · decide

end Due

/-- The moves that are left in a session, and whose turn it is. -/
def rank (session : Session) : Nat := due session.waiting (session.lanes 0) session.recvCq

@[inherit_doc rank]
def turn (session : Session) : Party := helper session.waiting (session.lanes 0) session.recvCq

/-- What an event makes of a proper session. While a call waits, a move that is due brings it
closer to its return, and any other event leaves the same move due. -/
structure Advances (library : Library) (inBytes outBytes : Nat) (session after : Session)
    (event : Event) : Prop where
  proper : after.Proper library inBytes outBytes
  issued : session.issued.length ≤ after.issued.length
  returned : session.returned.length ≤ after.returned.length
  falls : session.waiting ≠ .idle → after.rank < session.rank ∨
    after.rank = session.rank ∧ after.turn = session.turn ∧
      party event ≠ some session.turn

variable {library : Library} {inBytes outBytes : Nat} {session : Session}

theorem Advances.stutter (proper : session.Proper library inBytes outBytes) {event : Event}
    (other : session.waiting ≠ .idle → party event ≠ some session.turn) :
    Advances library inBytes outBytes session session event :=
  ⟨proper, Nat.le_refl _, Nat.le_refl _, fun waits => Or.inr ⟨rfl, rfl, other waits⟩⟩

/-- An event of nobody that an invocation waits for. -/
theorem Advances.nobody (proper : session.Proper library inBytes outBytes) {event : Event}
    (nobody : party event = none) : Advances library inBytes outBytes session session event := by
  refine Advances.stutter proper fun _ => ?_
  rw [nobody]
  exact fun impossible => nomatch impossible

theorem LaneAt.of_visible {lane : Lane} {wire posted : List Write} {stage next : Stage}
    {executed : Nat} (quiet : LaneAt lane wire stage posted executed) {thread : Thread}
    (here : thread.At next) (carries : lane.thread.visible.Carries next)
    (same : thread.visible = lane.thread.visible) :
    LaneAt { lane with thread := thread } wire next posted executed :=
  ⟨quiet.wire, here, same ▸ carries, (congrArg Visible.posted same).trans quiet.posted,
    (congrArg (List.length ∘ Visible.executions) same).trans quiet.executed⟩

theorem Ground.of_thread {executor : Client.Executor} {thread after : Thread}
    (ground : Ground library inBytes outBytes executor thread)
    (functions : after.functions = thread.functions)
    (remote : after.rcv.remote = thread.rcv.remote)
    (input : after.rcv.bytes.length = thread.rcv.bytes.length)
    (output : after.send.length = outBytes) (alert : after.Alert)
    (isolated : after.visible.Isolated) : Ground library inBytes outBytes executor after where
  names := ground.names
  counted := ground.counted
  connected := by
    rw [remote]
    exact ground.connected
  functions := functions.trans ground.functions
  input := input.trans ground.input
  output := output
  alert := alert
  isolated := isolated

theorem Ground.of_visible {executor : Client.Executor} {thread after : Thread}
    (ground : Ground library inBytes outBytes executor thread)
    (same : after.visible = thread.visible) (alert : after.Alert) :
    Ground library inBytes outBytes executor after :=
  have rcv : after.rcv = thread.rcv := congrArg Visible.rcv same
  ground.of_thread (congrArg Visible.functions same) (by rw [rcv]) (by rw [rcv])
    ((congrArg (fun visible => visible.send.length) same).trans ground.output) alert
    (same ▸ ground.isolated)

/-- An event that replaces the only busy lane. -/
theorem Proper.advance (proper : session.Proper library inBytes outBytes) {after : Session}
    {event : Event} {lane : Lane} (lanes : after.lanes = Function.update session.lanes 0 lane)
    (ground : Ground library inBytes outBytes after.executor lane.thread)
    (faithful : Faithful library after.issued lane.thread.executions after.returned)
    (orderly : Orderly library inBytes outBytes after.waiting lane after.memory after.recvCq
      after.issued after.returned)
    (issued : session.issued.length ≤ after.issued.length)
    (returned : session.returned.length ≤ after.returned.length)
    (falls : session.waiting ≠ .idle → due after.waiting lane after.recvCq < session.rank ∨
      due after.waiting lane after.recvCq = session.rank ∧
        helper after.waiting lane after.recvCq = session.turn ∧
        party event ≠ some session.turn) :
    Advances library inBytes outBytes session after event := by
  have zero : after.lanes 0 = lane := by rw [lanes, Function.update_self]
  refine ⟨⟨?_, ?_, ?_, fun connection other => ?_⟩, issued, returned, ?_⟩
  · rw [zero]
    exact ground
  · rw [zero]
    exact faithful
  · rw [zero]
    exact orderly
  · rw [lanes, Function.update_of_ne other]
    exact proper.others connection other
  · rw [rank, turn, zero]
    exact falls

/-- A thread that makes no call of a function keeps its wake-ups. -/
theorem alert_step_atRest {thread : Thread} (alert : thread.Alert)
    (few : thread.recvCq.length ≤ wcSize) (atRest : thread.control.AtRest) (now : Int) :
    (thread.step now).Alert := by
  refine Thread.alert_step alert few (fun caller task control => ?_) now
  rw [control] at atRest
  exact absurd atRest id

/-! ### The other connections -/

section

variable (proper : session.Proper library inBytes outBytes)
include proper

theorem Proper.elsewhere {connection : Nat}
    (other : connection ≠ 0) {lane : Lane} (quiet : LaneAt lane [] .idle [] 0) (event : Event)
    (nobody : party event = none) :
    Advances library inBytes outBytes session
      { session with lanes := Function.update session.lanes connection lane } event := by
  have zero : Function.update session.lanes connection lane 0 = session.lanes 0 :=
    Function.update_of_ne other.symm _ _
  refine ⟨⟨?_, ?_, ?_, fun place elsewhere => ?_⟩, Nat.le_refl _, Nat.le_refl _, fun _ => Or.inr ?_⟩
  · simpa only [zero] using proper.ground
  · simpa only [zero] using proper.faithful
  · simpa only [zero] using proper.orderly
  · by_cases here : place = connection
    · subst here
      simpa only [Function.update_self] using quiet
    · simpa only [Function.update_of_ne here] using proper.others place elsewhere
  · refine ⟨by simp only [rank, zero], by simp only [turn, zero], ?_⟩
    rw [nobody]
    exact fun impossible => nomatch impossible

theorem advances_land_elsewhere
    {connection : Nat} (other : connection ≠ 0) :
    Advances library inBytes outBytes session (session.land connection) (.land connection) := by
  have same : session.land connection = session :=
    land_of_nil (proper.others connection other).wire
  rw [same]
  refine Advances.nobody proper ?_
  cases connection with
  | zero => exact absurd rfl other
  | succ index => rfl

theorem advances_answer_elsewhere
    {connection : Nat} (other : connection ≠ 0) :
    Advances library inBytes outBytes session (session.answer connection)
      (.answer connection) := by
  have same : session.answer connection = session :=
    answer_of_nil (proper.others connection other).posted
  rw [same]
  refine Advances.nobody proper ?_
  cases connection with
  | zero => exact absurd rfl other
  | succ index => rfl

theorem advances_work_elsewhere
    {connection : Nat} (other : connection ≠ 0) (now : Int) :
    Advances library inBytes outBytes session (session.work connection now)
      (.work connection now) := by
  have quiet := proper.others connection other
  obtain ⟨unseen, next⟩ := Thread.step_idle quiet.here now
  refine proper.elsewhere other (quiet.of_visible next quiet.carries unseen) _ ?_
  cases connection with
  | zero => exact absurd rfl other
  | succ index => rfl

end

end Session

end RFaaS
