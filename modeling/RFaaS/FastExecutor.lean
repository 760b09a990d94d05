/-
This file models the worker thread of an executor
(`server/executor/fast_executor.hpp`, `server/executor/fast_executor.cpp`,
`server/executor/functions.cpp`): the hot and the warm polling loop, the
execution of one invocation, and the accounting beside them.

The thread is a machine whose control point is explicit. One step runs from one
point at which other parties can interfere to the next: a poll, the start of a
function, its end with the reply, the wait for an event. A step reads the clock
at most once, and the reading is an argument. A function reads its input when
it starts; the header with the result address is read when it has returned.

The receives that a refill posts are not part of this file: a write that
arrives finds a receive.
-/

import RFaaS.Invocation
import Mathlib.Data.List.Sort

namespace RFaaS.FastExecutor

/-! ### Deployed functions -/

/-- `Functions::FuncType`: from the memory at `rcv.data()`, `in_size` and the memory at
`send.ptr()`, the value returned and the output memory afterwards. -/
abbrev FuncType := List UInt8 → UInt32 → List UInt8 → UInt32 × List UInt8

/-- A shared library: the names of the function symbols in the order of the symbol table, and
what `dlsym` finds under a name. -/
structure Library where
  symbols : List String
  code : String → FuncType

/-- `extract_symbols`. -/
def extractSymbols (symbols : List String) : List String := symbols.insertionSort (· ≤ ·)

/-- `Functions`. -/
structure Functions where
  names : List String
  code : String → FuncType

namespace Functions

/-- `Functions::process_library`. -/
def processLibrary (library : Library) : Functions where
  names := extractSymbols library.symbols
  code := library.code

/-- `Functions::function`, with the name under which the pointer was looked up; `none` is an
index outside of the vector. -/
def function (functions : Functions) (index : Nat) : Option (String × FuncType) :=
  functions.names[index]?.map fun name => (name, functions.code name)

end Functions

/-! ### Accounting -/

/-- An atomic fetch-and-add on one of the two accounting words of the manager. -/
structure FetchAdd where
  offset : Nat
  value : UInt64
  deriving DecidableEq, Repr

/-- `server::Accounting`. -/
structure Accounting where
  totalHotPollingTime : UInt64
  totalExecutionTime : UInt64
  totalRequest : UInt64
  hotPollingTime : UInt64
  executionTime : UInt64
  deriving DecidableEq, Repr

namespace Accounting

/-- `Accounting::BILLING_GRANULARITY`, in nanoseconds. -/
def billingGranularity : UInt64 := 1000000000

/-- `Accounting::update_execution_time`; time points are in nanoseconds. -/
def updateExecutionTime (accounting : Accounting) (start finish : Int) : Accounting :=
  let diff := UInt64.ofInt (finish - start)
  { accounting with
    executionTime := accounting.executionTime + diff
    totalExecutionTime := accounting.totalExecutionTime + diff
    totalRequest := accounting.totalRequest + 1 }

/-- `Accounting::send_updated_execution`. -/
def sendUpdatedExecution (accounting : Accounting) (force : Bool) : List FetchAdd × Accounting :=
  if force || decide (billingGranularity < accounting.executionTime) then
    ([⟨8, accounting.executionTime⟩], { accounting with executionTime := 0 })
  else ([], accounting)

/-- `Accounting::update_polling_time`: the time passed, as 32 bits, and the account. -/
def updatePollingTime (accounting : Accounting) (start finish : Int) : UInt32 × Accounting :=
  let timePassed := UInt32.ofInt (finish - start)
  (timePassed, { accounting with
    hotPollingTime := accounting.hotPollingTime + timePassed.toUInt64
    totalHotPollingTime := accounting.totalHotPollingTime + timePassed.toUInt64 })

/-- `Accounting::send_updated_polling`. -/
def sendUpdatedPolling (accounting : Accounting) (force : Bool) : List FetchAdd × Accounting :=
  if force || decide (billingGranularity < accounting.hotPollingTime) then
    if accounting.hotPollingTime = 0 then ([], accounting)
    else ([⟨0, accounting.hotPollingTime⟩], { accounting with hotPollingTime := 0 })
  else ([], accounting)

end Accounting

/-! ### The thread -/

inductive PollingState
  | hot
  | hotAlways
  | warm
  | warmAlways
  deriving DecidableEq, Repr

/-- The arguments of `Thread::work`. The last field is a ghost: the write that asked for it. -/
structure Task where
  invocId : BitVec 32
  funcId : BitVec 32
  solicited : Bool
  inSize : UInt32
  origin : Write
  deriving DecidableEq, Repr

/-- The loop that called `work`, with its variables. In `hot` these are the begin of the polling
time, its end, the counter of the outer loop, the batch and the counter of the inner loop. -/
inductive Caller
  | hot (start now : Int) (count : Nat) (batch : List WorkCompletion) (index : Nat)
  | warm (batch : List WorkCompletion) (index : Nat)
  deriving DecidableEq, Repr

/-- Where the thread is. -/
inductive Control
  /-- At the head of the loop of `thread_work`. -/
  | dispatch
  /-- At the head of the outer loop of `hot`. -/
  | hotPoll (start : Int) (count : Nat)
  /-- At the head of the inner loop of `hot`. -/
  | hotNext (start : Int) (count : Nat) (batch : List WorkCompletion) (index : Nat)
  /-- Behind the inner loop of `hot`. -/
  | hotCount (start : Int) (count : Nat)
  /-- At the head of the outer loop of `warm`. -/
  | warmPoll
  /-- At the head of the inner loop of `warm`. -/
  | warmNext (batch : List WorkCompletion) (index : Nat)
  /-- Before `wait_events`. -/
  | warmWait
  /-- Between `wait_events` and `notify_events`. -/
  | warmNotify
  /-- In `work`, before the function is called. -/
  | calling (caller : Caller) (task : Task)
  /-- In `work`, after the function has returned. -/
  | replying (caller : Caller) (task : Task) (start : Int) (outSize : UInt32)
  /-- Behind the loop of `thread_work`. -/
  | finishing
  | finished
  /-- The vector of functions was read out of its bounds. -/
  | fault
  deriving DecidableEq, Repr

/-- A call of a function: the write that asked for it, the name it was looked up under, its
arguments, its value and the output memory. -/
structure Execution where
  origin : Write
  name : String
  input : List UInt8
  inSize : UInt32
  outSize : UInt32
  output : List UInt8
  deriving DecidableEq, Repr

/-- A posted reply with the write that asked for it. -/
structure Reply where
  origin : Write
  write : Write
  deriving DecidableEq, Repr

/-- `Thread`, with its two connections. `recvCq`, `armed` and `events` are the receive
completion queue of the client's connection, whether a notification was requested and not yet
given, and the notifications that `wait_events` has not taken. `posted` is what the thread has
written to the client and what has not arrived, `fetchAdds` what it has posted to the manager.
`executions` and `replies` are ghosts: the calls and the replies so far. -/
structure Thread where
  functions : Functions
  timeout : Int
  maxInlineData : UInt32
  send : List UInt8
  rcv : Region
  repetitions : Nat
  accounting : Accounting
  pollingState : PollingState
  control : Control
  termProcess : Bool
  recvCq : List WorkCompletion
  armed : Bool
  events : Nat
  posted : List Write
  fetchAdds : List FetchAdd
  executions : List Execution
  replies : List Reply

/-- `Thread::HOT_POLLING_VERIFICATION_PERIOD`. -/
def hotPollingVerificationPeriod : Nat := 10000

/-- The decoding of a completion at the head of both inner loops. -/
def Task.ofCompletion (completion : WorkCompletion) : Task :=
  let info := ntohl completion.immData
  { invocId := Immediate.invocId info
    funcId := Immediate.funcId info
    solicited := Immediate.solicited info
    inSize := completion.byteLen - UInt32.ofNat Submission.dataHeaderSize
    origin := completion.origin }

namespace Thread

/-- The thread when it enters the loop of `thread_work`. Its buffers have the sizes the client
asked for. A thread that starts in `WARM_ALWAYS` has requested a notification before it
connected, and the completion of the function code has turned it into an event. -/
def begin_ (functions : Functions) (timeout : Int) (maxInlineData : UInt32) (rcv : Region)
    (outSize : Nat) : Thread :=
  let pollingState : PollingState :=
    if timeout = -1 then .hotAlways else if timeout = 0 then .warmAlways else .hot
  { functions := functions
    timeout := timeout
    maxInlineData := maxInlineData
    send := List.replicate outSize 0
    rcv := rcv
    repetitions := 0
    accounting := ⟨0, 0, 0, 0, 0⟩
    pollingState := pollingState
    control := .dispatch
    termProcess := false
    recvCq := []
    armed := false
    events := if pollingState = .warmAlways then 1 else 0
    posted := []
    fetchAdds := []
    executions := []
    replies := [] }

/-- `Connection::notify_events`. -/
def notifyEvents (thread : Thread) : Thread := { thread with armed := true }

/-- A completion enters the queue; it uses up a requested notification. -/
def arrive (thread : Thread) (completion : WorkCompletion) : Thread :=
  { thread with
    recvCq := thread.recvCq ++ [completion]
    armed := false
    events := if thread.armed then thread.events + 1 else thread.events }

/-- A write of the client takes effect: the data is placed, then its completion arrives. -/
def land (thread : Thread) (write : Write) : Thread :=
  match thread.rcv.place write with
  | some rcv => { thread with rcv := rcv }.arrive write.completion
  | none => thread

/-- `RecvWorkCompletions::poll` without blocking. -/
def poll (thread : Thread) : List WorkCompletion × Thread :=
  (thread.recvCq.take wcSize, { thread with recvCq := thread.recvCq.drop wcSize })

/-- The loop of `thread_work`. -/
def dispatch (thread : Thread) (now : Int) : Thread :=
  if thread.termProcess then { thread with control := .finishing }
  else match thread.pollingState with
    | .hot | .hotAlways => { thread with control := .hotPoll now 0 }
    | .warm | .warmAlways => { thread with control := .warmPoll }

/-- `hot` from the head of its loop to the inner loop. -/
def hotPoll (thread : Thread) (start : Int) (count : Nat) : Thread :=
  if thread.termProcess then { thread with control := .dispatch }
  else
    let (batch, thread) := thread.poll
    if batch.isEmpty then { thread with control := .hotCount start count }
    else { thread with control := .hotNext start count batch 0 }

/-- One round of the inner loop of `hot`, as far as the call of `work`. -/
def hotNext (thread : Thread) (now start : Int) (count : Nat) (batch : List WorkCompletion)
    (index : Nat) : Thread :=
  match batch[index]? with
  | none => { thread with control := .hotCount start count }
  | some completion =>
    if completion.failed then { thread with control := .hotNext start count batch (index + 1) }
    else
      { thread with
        control := .calling (.hot start now count batch index) (Task.ofCompletion completion) }

/-- The end of the outer loop of `hot`. -/
def hotCount (thread : Thread) (now start : Int) (count : Nat) : Thread :=
  if count + 1 = hotPollingVerificationPeriod then
    let (timePassed, accounting) := thread.accounting.updatePollingTime start now
    let (fetchAdds, accounting) := accounting.sendUpdatedPolling false
    let thread : Thread :=
      { thread with accounting := accounting, fetchAdds := thread.fetchAdds ++ fetchAdds }
    if thread.pollingState ≠ .hotAlways ∧ UInt32.ofInt thread.timeout ≤ timePassed then
      { thread with pollingState := .warm, control := .dispatch }.notifyEvents
    else { thread with control := .hotPoll now 0 }
  else { thread with control := .hotPoll start (count + 1) }

/-- `warm` from the head of its loop to the inner loop. -/
def warmPoll (thread : Thread) : Thread :=
  if thread.termProcess then { thread with control := .dispatch }
  else
    let (batch, thread) := thread.poll
    if batch.isEmpty then { thread with control := .warmWait }
    else { thread with control := .warmNext batch 0 }

/-- One round of the inner loop of `warm`, as far as the call of `work`; behind the last one the
thread becomes hot, or waits. -/
def warmNext (thread : Thread) (batch : List WorkCompletion) (index : Nat) : Thread :=
  match batch[index]? with
  | none =>
    if thread.pollingState ≠ .warmAlways then
      { thread with pollingState := .hot, control := .dispatch }
    else { thread with control := .warmWait }
  | some completion =>
    if completion.failed then { thread with control := .warmNext batch (index + 1) }
    else
      { thread with control := .calling (.warm batch index) (Task.ofCompletion completion) }

/-- `wait_events`, which blocks as long as there is no event. -/
def warmWait (thread : Thread) : Thread :=
  if thread.termProcess then { thread with control := .warmPoll }
  else if thread.events = 0 then thread
  else { thread with events := thread.events - 1, control := .warmNotify }

/-- The call of the function in `work`, on what the input buffer holds behind the header. -/
def call (thread : Thread) (task : Task) (name : String) (function : FuncType) : Execution :=
  let input := thread.rcv.bytes.drop Submission.dataHeaderSize
  let (outSize, send) := function input task.inSize thread.send
  { origin := task.origin
    name := name
    input := input
    inSize := task.inSize
    outSize := outSize
    output := send }

/-- `work` up to the return of the function. -/
def calling (thread : Thread) (now : Int) (caller : Caller) (task : Task) : Thread :=
  match thread.functions.function task.funcId.toNat with
  | none => { thread with control := .fault }
  | some (name, function) =>
    let execution := thread.call task name function
    { thread with
      send := execution.output
      control := .replying caller task now execution.outSize
      executions := thread.executions ++ [execution] }

/-- The write that `work` posts when the function has returned. -/
def reply (thread : Thread) (task : Task) (outSize : UInt32) : Write :=
  postWrite (thread.send.take outSize.toNat) (Submission.header thread.rcv.bytes)
    (Immediate.reply task.invocId) (decide (outSize ≤ thread.maxInlineData)) task.solicited

/-- `work` from the return of the function on, and the rest of the round of the loop that called
it. The `i = 0` in `hot` sets the counter of the inner loop, which then counts up. -/
def replying (thread : Thread) (now : Int) (caller : Caller) (task : Task) (start : Int)
    (outSize : UInt32) : Thread :=
  let write := thread.reply task outSize
  let (fetchAdds, accounting) :=
    (thread.accounting.updateExecutionTime start now).sendUpdatedExecution false
  let thread : Thread :=
    { thread with
      posted := thread.posted ++ [write]
      replies := thread.replies ++ [⟨task.origin, write⟩]
      fetchAdds := thread.fetchAdds ++ fetchAdds
      repetitions := thread.repetitions + 1 }
  match caller with
  | .hot hotStart hotNow count batch _ =>
    { thread with
      accounting := (accounting.updatePollingTime hotStart hotNow).2
      control := .hotNext now count batch (0 + 1) }
  | .warm batch index =>
    { thread with accounting := accounting, control := .warmNext batch (index + 1) }

/-- The final accounting of `thread_work`. -/
def finishing (thread : Thread) : Thread :=
  let (execution, accounting) := thread.accounting.sendUpdatedExecution true
  let (polling, accounting) := accounting.sendUpdatedPolling true
  { thread with
    accounting := accounting
    fetchAdds := thread.fetchAdds ++ execution ++ polling
    control := .finished }

/-- One step of the thread; `now` is the clock. -/
def step (thread : Thread) (now : Int) : Thread :=
  match thread.control with
  | .dispatch => thread.dispatch now
  | .hotPoll start count => thread.hotPoll start count
  | .hotNext start count batch index => thread.hotNext now start count batch index
  | .hotCount start count => thread.hotCount now start count
  | .warmPoll => thread.warmPoll
  | .warmNext batch index => thread.warmNext batch index
  | .warmWait => thread.warmWait
  | .warmNotify => { thread with control := .warmPoll }.notifyEvents
  | .calling caller task => thread.calling now caller task
  | .replying caller task start outSize => thread.replying now caller task start outSize
  | .finishing => thread.finishing
  | .finished | .fault => thread

end Thread

end RFaaS.FastExecutor
