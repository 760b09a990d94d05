/-
This file is about replies to futures and to `execute` (`async` on a single
buffer, `execute`, `poll_queue` in `rfaas/executor.hpp` and
`rfaas/lib/executor.cpp`). The client makes its calls one at a time: it waits
for the future of a call before it makes the next one.

A reply to a future is solicited. It wakes the background thread, which looks
the decoded id up in `_futures`. A reply to `execute` is not solicited and is
taken by the loop of `execute` itself. The id travels in 16 bits, but `async`
counts `_invoc_id` up without a bound, so a reply finds its future exactly as
long as the counter has not left its 16 bits.
-/

import RFaaS.Callbacks
import RFaaS.Session

namespace RFaaS.Client

open CallbackLoop Traffic List

/-- What a poll has done with a reply: the invocation that it answers, the id decoded from it,
and the entry of `_futures` under that id before and after the poll. -/
structure Receipt where
  invocation : Invocation
  decoded : BitVec 32
  before : Option Future
  after : Option Future
  deriving DecidableEq, Repr

/-- A client with a background thread in `poll_queue`. `inFlight` are the invocations without a
reply. `armed` and `events` belong to the completion queue: whether a notification for solicited
completions is requested, and the notifications that were given and not taken. The last two
fields are ghosts: what became of the replies so far, and what `execute` has returned. -/
structure FutureLoop where
  executor : Executor
  waiting : Waiting
  inFlight : List Invocation
  recvCq : List Answer
  armed : Bool
  events : Nat
  receipts : List Receipt
  returned : List (Bool × Int)

namespace FutureLoop

open Transition Immediate

inductive Event
  /-- A call of `async` on a single buffer. -/
  | async (fname : String) (input : List UInt8) (out : RemoteBuffer) (size : Int)
  /-- A call of `execute` on a single buffer. -/
  | execute (fname : String) (input : List UInt8) (out : RemoteBuffer)
  /-- The worker replies to the oldest invocation with some data. -/
  | answer (data : List UInt8)
  /-- The background thread takes a notification and polls. -/
  | wake
  /-- The client goes on in `execute`. -/
  | poll

/-- A client with one connection, whose background thread has requested notifications. (The source
has `poll_queue` for this thread, with the statement that starts it commented out.) -/
def start (maxInlineData : Int) (symbols : List String) (connection : RemoteBuffer) :
    FutureLoop where
  executor := Executor.allocated maxInlineData symbols [connection]
  waiting := .idle
  inFlight := []
  recvCq := []
  armed := true
  events := 0
  receipts := []
  returned := []

/-- The invocations that no poll has seen a reply to. -/
def outstanding (loop : FutureLoop) : List Invocation :=
  loop.recvCq.map Answer.invocation ++ loop.inFlight

/-- What a call issues is in flight. -/
def issue (loop : FutureLoop) (call : Call) : FutureLoop :=
  { loop with
    executor := (loop.executor.issue call).1
    inFlight :=
      if (loop.executor.issue call).2 = [] then loop.inFlight
      else loop.inFlight ++ [issued loop.executor call] }

/-- `async`. The thread of the client makes no call while it is in an `execute`. -/
def async (loop : FutureLoop) (fname : String) (input : List UInt8) (out : RemoteBuffer)
    (size : Int) : FutureLoop :=
  match loop.waiting with
  | .idle => loop.issue (.async fname input out size)
  | _ => loop

/-- `execute`, up to its loop. -/
def execute (loop : FutureLoop) (fname : String) (input : List UInt8) (out : RemoteBuffer) :
    FutureLoop :=
  match loop.waiting with
  | .idle =>
    match loop.executor.findFunction fname with
    | none => { loop with returned := loop.returned ++ [(false, 0)] }
    | some _ =>
      let next := loop.issue (.execute fname input out)
      { next with waiting := .polling next.executor.invocId }
  | _ => loop

/-- A reply arrives. A solicited one uses up a requested notification. -/
def answer (loop : FutureLoop) (data : List UInt8) : FutureLoop :=
  match loop.inFlight with
  | [] => loop
  | invocation :: rest =>
    match invocation.writes with
    | [] => loop
    | write :: _ =>
      let reply := replyTo write data
      { loop with
        inFlight := rest
        recvCq := loop.recvCq ++ [⟨invocation, reply.completion⟩]
        armed := loop.armed && !reply.solicited
        events := if loop.armed && reply.solicited then loop.events + 1 else loop.events }

/-- The receipts of a batch, from the maps before and after the poll. -/
def receive (before after : Executor) (batch : List Answer) : List Receipt :=
  batch.map fun answer =>
    let id := finishedInvocId (ntohl answer.completion.immData)
    ⟨answer.invocation, id, before.futures.lookup id, after.futures.lookup id⟩

/-- One round of `poll_queue`: the thread takes a notification, requests the next one and polls.
Without a notification it sleeps. -/
def wake (loop : FutureLoop) : FutureLoop :=
  let batch := loop.recvCq.take wcSize
  if loop.events = 0 then loop
  else
    match loop.executor.settleAll (batch.map Answer.completion) with
    | none => { loop with waiting := .fault }
    | some executor =>
      { loop with
        executor := executor
        recvCq := loop.recvCq.drop wcSize
        armed := true
        events := loop.events - 1
        receipts := loop.receipts ++ receive loop.executor executor batch }

/-- One round of the loop of `execute`, or its end. -/
def poll (loop : FutureLoop) : FutureLoop :=
  let batch := loop.recvCq.take wcSize
  let rest := loop.recvCq.drop wcSize
  match loop.waiting with
  | .polling invocId =>
    match loop.executor.walk invocId none (batch.map Answer.completion) with
    | none => { loop with waiting := .fault }
    | some (executor, found) =>
      { loop with
        executor := executor
        recvCq := rest
        receipts := loop.receipts ++ receive loop.executor executor batch
        waiting := match found with
          | none => .polling invocId
          | some (returnVal, outSize) => .draining returnVal outSize }
  | .draining returnVal outSize =>
    match loop.executor.settleAll (batch.map Answer.completion) with
    | none => { loop with waiting := .fault }
    | some executor =>
      { loop with
        executor := executor
        recvCq := rest
        receipts := loop.receipts ++ receive loop.executor executor batch
        waiting := .idle
        returned := loop.returned ++ [Session.outcome returnVal outSize] }
  | _ => loop

def step (loop : FutureLoop) : Event → FutureLoop
  | .async fname input out size => loop.async fname input out size
  | .execute fname input out => loop.execute fname input out
  | .answer data => loop.answer data
  | .wake => loop.wake
  | .poll => loop.poll

/-- A call is made only when no invocation is outstanding. -/
def Alone (loop : FutureLoop) : Event → Prop
  | .async _ _ _ _ | .execute _ _ _ => loop.outstanding = []
  | _ => True

instance (loop : FutureLoop) : DecidablePred loop.Alone
  | .async _ _ _ _ | .execute _ _ _ => inferInstanceAs (Decidable (loop.outstanding = []))
  | .answer _ | .wake | .poll => inferInstanceAs (Decidable True)

/-- The counter is within the 16 bits of an id when a call is made. The id of `execute` is the
counter after it was counted up, which is 0 when the counter overflows. -/
def InRange (counter : BitVec 32) : Event → Prop
  | .async _ _ _ _ => counter.toNat < 2 ^ 16
  | .execute _ _ _ => counter.toNat < 2 ^ 16 ∨ counter.toNat + 1 = 2 ^ 32
  | _ => True

/-- A call finds the counter in its range, and the index of its function is within 15 bits. -/
def Carried (loop : FutureLoop) (event : Event) : Prop :=
  match event with
  | .async fname _ _ _ | .execute fname _ _ => loop.waiting = .idle →
    ∀ funcIdx, loop.executor.findFunction fname = some funcIdx →
      InRange loop.executor.invocId event ∧ funcIdx.toNat < 2 ^ 15
  | _ => True

/-- The reply to an outstanding invocation carries the id under which it is expected: there is an
entry in `_futures` that waits for one reply, or `execute` waits for the id. -/
structure Expected (loop : FutureLoop) (invocation : Invocation) : Prop where
  carried : ∀ write ∈ invocation.writes,
    finishedInvocId (reply (invocId (ntohl write.immData))) =
      invocation.id
  entry : invocation.listener = .future 1 →
    loop.executor.futures.lookup invocation.id = some ⟨1, invocation.serial, none⟩
  caller : invocation.listener = .caller → loop.waiting = .polling invocation.id

/-- No lookup has failed, every reply so far was decoded to the id of its own invocation, every
future had one reply to wait for and then its value, the next reply is expected, and the
background thread is notified of a reply to a future. -/
structure Found (loop : FutureLoop) : Prop where
  found : loop.waiting ≠ .fault
  decoded : ∀ receipt ∈ loop.receipts, receipt.decoded = receipt.invocation.id
  settled : ∀ receipt ∈ loop.receipts, receipt.invocation.listener = .future 1 →
    receipt.before = some ⟨1, receipt.invocation.serial, none⟩ ∧
      receipt.after = some ⟨0, receipt.invocation.serial, some 0#32⟩
  expected : ∀ invocation ∈ loop.outstanding, loop.Expected invocation
  notified : ∀ answer ∈ loop.recvCq, answer.invocation.listener = .future 1 → 0 < loop.events

/-! ### Where the outstanding invocation is -/

variable {loop : FutureLoop}

/-- The write of an invocation, and who is to take the reply: the background thread for a future,
the loop of `execute` for its caller. -/
structure Submitted (waiting : Waiting) (invocation : Invocation) (write : Write) : Prop where
  writes : invocation.writes = [write]
  carried : finishedInvocId (reply (invocId (ntohl write.immData))) =
    invocation.id
  taker : invocation.listener = .future 1 ∧ solicited (ntohl write.immData) = true ∧
      waiting = .idle ∨
    invocation.listener = .caller ∧ solicited (ntohl write.immData) = false ∧
      waiting = .polling invocation.id

/-- With at most one invocation outstanding, there is none, or it is in flight, or its reply has
arrived and the background thread is notified if it is to take it. -/
inductive Place (loop : FutureLoop) : Prop
  | idle (waiting : loop.waiting = .idle ∨ ∃ returnVal outSize,
        loop.waiting = .draining returnVal outSize)
      (inFlight : loop.inFlight = []) (recvCq : loop.recvCq = []) (armed : loop.armed = true)
      (events : loop.events = 0)
  | flying (invocation : Invocation) (write : Write)
      (submitted : Submitted loop.waiting invocation write)
      (inFlight : loop.inFlight = [invocation]) (recvCq : loop.recvCq = [])
      (armed : loop.armed = true) (events : loop.events = 0)
  | arrived (invocation : Invocation) (write : Write) (data : List UInt8)
      (submitted : Submitted loop.waiting invocation write)
      (inFlight : loop.inFlight = [])
      (recvCq : loop.recvCq = [⟨invocation, (replyTo write data).completion⟩])
      (armed : loop.armed = !solicited (ntohl write.immData))
      (events : loop.events = if solicited (ntohl write.immData) then 1 else 0)

/-- What holds all along a run. -/
structure Proper (loop : FutureLoop) : Prop where
  connected : loop.executor.connections ≠ []
  found : loop.Found
  place : loop.Place

theorem start_proper (maxInlineData : Int) (symbols : List String) (connection : RemoteBuffer) :
    (start maxInlineData symbols connection).Proper where
  connected := cons_ne_nil _ _
  found :=
    { found := fun fault => nomatch fault
      decoded := fun _ member => nomatch member
      settled := fun _ member => nomatch member
      expected := fun _ member => nomatch member
      notified := fun _ member => nomatch member }
  place := .idle (Or.inl rfl) rfl rfl rfl rfl

/-- What `execute` has returned does not matter to the replies. -/
theorem Proper.returning (proper : loop.Proper) (returned : List (Bool × Int)) :
    { loop with returned := returned }.Proper where
  connected := proper.connected
  found :=
    { found := proper.found.found
      decoded := proper.found.decoded
      settled := proper.found.settled
      expected := fun invocation member =>
        { carried := (proper.found.expected invocation member).carried
          entry := (proper.found.expected invocation member).entry
          caller := (proper.found.expected invocation member).caller }
      notified := proper.found.notified }
  place := by
    cases proper.place with
    | idle waiting inFlight recvCq armed events => exact .idle waiting inFlight recvCq armed events
    | flying invocation write submitted inFlight recvCq armed events =>
      exact .flying invocation write submitted inFlight recvCq armed events
    | arrived invocation write data submitted inFlight recvCq armed events =>
      exact .arrived invocation write data submitted inFlight recvCq armed events

/-! ### A call -/

section Call

variable {executor : Executor} {fname : String} {input : List UInt8} {out : RemoteBuffer}
  {size : Int} {funcIdx : BitVec 32}

theorem posted_async (connected : executor.connections ≠ [])
    (index : executor.findFunction fname = some funcIdx) :
    ∃ write, (executor.issue (.async fname input out size)).2 = [⟨0, write⟩] ∧
      ntohl write.immData = solicitedSubmission executor.invocId funcIdx := by
  have known : 0 < executor.connections.length := length_pos_of_ne_nil connected
  obtain ⟨write, posted, carries⟩ := Executor.post_cases (getElem?_eq_getElem known) input out
    size (solicitedSubmission executor.invocId funcIdx) true
  refine ⟨write, ?_, carries⟩
  show (executor.async fname input out size).2 = _
  unfold Executor.async
  rw [index]
  exact posted

theorem posted_execute (connected : executor.connections ≠ [])
    (index : executor.findFunction fname = some funcIdx) :
    ∃ write, (executor.issue (.execute fname input out)).2 = [⟨0, write⟩] ∧
      ntohl write.immData = submission executor.advance.invocId funcIdx := by
  have known : 0 < executor.connections.length := length_pos_of_ne_nil connected
  obtain ⟨write, posted, carries⟩ := Executor.post_cases (getElem?_eq_getElem known) input out
    (-1) (submission executor.advance.invocId funcIdx) false
  refine ⟨write, ?_, carries⟩
  show (executor.invoke _ _ _).2 = _
  unfold Executor.invoke
  rw [index]
  exact posted

theorem toNat_flagged (small : funcIdx.toNat < 2 ^ 15) :
    (1#32 <<< 15 ||| funcIdx).toNat < 2 ^ 16 := by
  rw [BitVec.toNat_or]
  exact Nat.or_lt_two_pow (by decide) (by omega)

/-- The reply to `async` carries the id exactly if the counter is within 16 bits. -/
theorem carried_async {write : Write} (small : funcIdx.toNat < 2 ^ 15)
    (carries : ntohl write.immData = solicitedSubmission executor.invocId funcIdx) :
    finishedInvocId (reply (invocId (ntohl write.immData))) =
        executor.invocId ↔
      InRange executor.invocId (.async fname input out size) := by
  rw [carries, solicitedSubmission, BitVec.or_assoc]
  exact finishedInvocId_reply_eq_iff _ (toNat_flagged small)

/-- The reply to `execute` carries the id exactly if the counter is within 16 bits or about to
overflow. -/
theorem carried_execute {write : Write} (small : funcIdx.toNat < 2 ^ 15)
    (carries : ntohl write.immData = submission executor.advance.invocId funcIdx) :
    finishedInvocId (reply (invocId (ntohl write.immData))) =
        executor.advance.invocId ↔
      InRange executor.invocId (.execute fname input out) := by
  rw [carries, submission, finishedInvocId_reply_eq_iff _ (by omega),
    toNat_advance]
  have bound := executor.invocId.isLt
  show _ ↔ _ < 2 ^ 16 ∨ _ + 1 = 2 ^ 32
  split <;> omega

theorem issue_unknown (missing : loop.executor.findFunction fname = none) :
    loop.issue (.async fname input out size) = loop := by
  unfold issue
  rw [issue_missing missing]
  rfl

/-- A call that posts a write makes the one outstanding invocation. -/
theorem Proper.issue (proper : loop.Proper) (alone : loop.outstanding = []) {call : Call}
    {write : Write} (posted : (loop.executor.issue call).2 = [⟨0, write⟩])
    (known : loop.executor.findFunction call.fname ≠ none) {waiting : Waiting}
    (submitted : Submitted waiting (issued loop.executor call) write) :
    { loop.issue call with waiting := waiting }.Proper := by
  obtain ⟨noReply, noFlight⟩ := append_eq_nil_iff.mp alone
  replace noReply := map_eq_nil_iff.mp noReply
  have inFlight : (loop.issue call).inFlight = [issued loop.executor call] := by
    unfold FutureLoop.issue
    rw [posted, noFlight]
    rfl
  obtain ⟨armed, events⟩ : loop.armed = true ∧ loop.events = 0 := by
    cases proper.place with
    | idle _ _ _ armed events | flying _ _ _ _ _ armed events => exact ⟨armed, events⟩
    | arrived _ _ _ _ _ recvCq _ _ =>
      rw [recvCq] at noReply
      cases noReply
  refine ⟨?_, ⟨?_, proper.found.decoded, proper.found.settled, ?_, proper.found.notified⟩, ?_⟩
  · show (loop.executor.issue call).1.connections ≠ []
    rw [Executor.issue_connections]
    exact proper.connected
  · rcases submitted.taker with ⟨_, _, idle⟩ | ⟨_, _, polling⟩
    · rw [idle]
      exact Waiting.noConfusion
    · rw [polling]
      exact Waiting.noConfusion
  · intro invocation member
    replace member : invocation ∈ loop.recvCq.map Answer.invocation ++ (loop.issue call).inFlight :=
      member
    rw [noReply, inFlight, map_nil, nil_append, mem_singleton] at member
    rw [member]
    refine ⟨fun other inside => ?_, fun future => ?_, fun caller => ?_⟩
    · rw [submitted.writes, mem_singleton] at inside
      rw [inside]
      exact submitted.carried
    · show (loop.executor.issue call).1.futures.lookup (call.id loop.executor) = _
      have listener : call.listener loop.executor = .future 1 := future
      rw [issue_found known, listener]
      exact AList.lookup_insert _
    · rcases submitted.taker with ⟨future, _, _⟩ | ⟨_, _, polling⟩
      · rw [caller] at future
        cases future
      · exact polling
  · exact .flying _ write submitted inFlight noReply armed events

theorem Proper.async (proper : loop.Proper) (alone : loop.outstanding = [])
    (carried : loop.Carried (.async fname input out size)) :
    (loop.async fname input out size).Proper := by
  unfold FutureLoop.async
  split
  · rename_i idle
    cases index : loop.executor.findFunction fname with
    | none =>
      rw [issue_unknown index]
      exact proper
    | some funcIdx =>
      obtain ⟨inRange, small⟩ := carried idle funcIdx index
      obtain ⟨write, posted, carries⟩ :=
        @posted_async loop.executor fname input out size funcIdx proper.connected index
      have known : loop.executor.findFunction fname ≠ none := by
        rw [index]
        exact Option.some_ne_none _
      have submitted : Submitted loop.waiting
          (issued loop.executor (.async fname input out size)) write := by
        refine ⟨writes_issued posted, (carried_async small carries).mpr inRange,
          Or.inl ⟨rfl, ?_, idle⟩⟩
        rw [carries]
        exact solicited_solicitedSubmission _ _
      exact proper.issue alone posted known submitted
  · exact proper

theorem Proper.execute (proper : loop.Proper) (alone : loop.outstanding = [])
    (carried : loop.Carried (.execute fname input out)) :
    (loop.execute fname input out).Proper := by
  unfold FutureLoop.execute
  split
  · rename_i idle
    cases index : loop.executor.findFunction fname with
    | none => exact proper.returning _
    | some funcIdx =>
      obtain ⟨inRange, small⟩ := carried idle funcIdx index
      obtain ⟨write, posted, carries⟩ :=
        @posted_execute loop.executor fname input out funcIdx proper.connected index
      have known : loop.executor.findFunction fname ≠ none := by
        rw [index]
        exact Option.some_ne_none _
      have counter : (loop.issue (.execute fname input out)).executor.invocId =
          loop.executor.advance.invocId := by
        show (loop.executor.issue _).1.invocId = _
        rw [issue_found known]
        rfl
      have submitted : Submitted (.polling loop.executor.advance.invocId)
          (issued loop.executor (.execute fname input out)) write := by
        refine ⟨writes_issued posted, (carried_execute small carries).mpr inRange,
          Or.inr ⟨rfl, ?_, rfl⟩⟩
        rw [carries]
        exact solicited_submission _ small
      dsimp only
      rw [counter]
      exact proper.issue alone posted known submitted
  · exact proper

end Call

/-! ### A reply -/

theorem Proper.answer (proper : loop.Proper) (data : List UInt8) : (loop.answer data).Proper := by
  unfold FutureLoop.answer
  cases proper.place with
  | idle _ inFlight | arrived _ _ _ _ inFlight =>
    rw [inFlight]
    exact proper
  | flying invocation write submitted inFlight recvCq armed events =>
    have solicited : (replyTo write data).solicited =
        solicited (ntohl write.immData) := rfl
    have expected := proper.found.expected invocation (by
      rw [outstanding, recvCq, inFlight]
      exact mem_singleton_self _)
    rw [inFlight]
    dsimp only
    rw [submitted.writes, recvCq, armed, events]
    dsimp only
    rw [solicited, Bool.true_and, Bool.true_and]
    refine ⟨proper.connected, ⟨proper.found.found, proper.found.decoded, proper.found.settled,
      fun other member => ?_, fun other member future => ?_⟩,
      .arrived invocation write data submitted rfl rfl rfl rfl⟩
    · rw [show other = invocation from mem_singleton.mp member]
      exact ⟨expected.carried, expected.entry, expected.caller⟩
    · rw [mem_singleton.mp member] at future
      rcases submitted.taker with ⟨_, flagged, _⟩ | ⟨caller, _, _⟩
      · dsimp only
        rw [flagged]
        exact Nat.one_pos
      · rw [caller] at future
        cases future

section Dispatch

variable {invocation : Invocation} {write : Write}

/-- The future of an invocation gets its value when the reply is dispatched. -/
theorem settleFuture_expected (expected : loop.Expected invocation)
    (future : invocation.listener = .future 1) (writes : invocation.writes = [write])
    (data : List UInt8) :
    loop.executor.settleFuture (ntohl (replyTo write data).completion.immData) =
      some { loop.executor with
        futures := loop.executor.futures.insert invocation.id
          ⟨0, invocation.serial, some 0#32⟩ } := by
  have carried := expected.carried write (by rw [writes]; exact mem_singleton_self _)
  dsimp only [Executor.settleFuture]
  rw [ntohl_replyTo, carried, expected.entry future, returnVal_reply]
  rfl

/-- The background thread takes the one reply that has arrived. -/
theorem wake_eq {answer : Answer} {settled : Executor} (recvCq : loop.recvCq = [answer])
    (events : loop.events ≠ 0)
    (settles : loop.executor.settleFuture (ntohl answer.completion.immData) = some settled) :
    loop.wake =
      { loop with
        executor := settled
        recvCq := []
        armed := true
        events := loop.events - 1
        receipts := loop.receipts ++ receive loop.executor settled [answer] } := by
  have all : loop.executor.settleAll [answer.completion] = some settled := by
    unfold Executor.settleAll Executor.dispatchAll
    rw [settles]
    rfl
  have batch : loop.recvCq.take wcSize = [answer] := by rw [recvCq]; rfl
  have rest : loop.recvCq.drop wcSize = [] := by rw [recvCq]; rfl
  unfold FutureLoop.wake
  dsimp only
  rw [if_neg events, batch, rest, map_singleton, all]

/-- The loop of `execute` takes the reply to its own id, with the return value 0. -/
theorem walk_expected {expected : BitVec 32} (executor : Executor)
    (carried : finishedInvocId (reply (invocId (ntohl write.immData))) = expected)
    (data : List UInt8) :
    executor.walk expected none [(replyTo write data).completion] =
      some (executor, some (0#32, (replyTo write data).completion.byteLen)) := by
  unfold Executor.walk
  dsimp only
  rw [ntohl_replyTo, if_pos carried, returnVal_reply]
  rfl

/-- What a poll leaves behind that has taken all there was: more receipts, and nothing
outstanding. -/
theorem Proper.taken (proper : loop.Proper) {next : FutureLoop} {receipts : List Receipt}
    (connections : next.executor.connections = loop.executor.connections)
    (waiting : next.waiting = .idle ∨ ∃ returnVal outSize,
      next.waiting = .draining returnVal outSize)
    (inFlight : next.inFlight = []) (recvCq : next.recvCq = []) (armed : next.armed = true)
    (events : next.events = 0) (taken : next.receipts = loop.receipts ++ receipts)
    (decoded : ∀ receipt ∈ receipts, receipt.decoded = receipt.invocation.id)
    (settled : ∀ receipt ∈ receipts, receipt.invocation.listener = .future 1 →
      receipt.before = some ⟨1, receipt.invocation.serial, none⟩ ∧
        receipt.after = some ⟨0, receipt.invocation.serial, some 0#32⟩) : next.Proper := by
  refine ⟨?_, ⟨?_, fun receipt inside => ?_, fun receipt inside => ?_, fun other inside => ?_,
    fun answer inside => ?_⟩, .idle waiting inFlight recvCq armed events⟩
  · rw [connections]
    exact proper.connected
  · rcases waiting with idle | ⟨returnVal, outSize, draining⟩
    · rw [idle]
      exact Waiting.noConfusion
    · rw [draining]
      exact Waiting.noConfusion
  · rw [taken] at inside
    rcases mem_append.mp inside with old | new
    · exact proper.found.decoded receipt old
    · exact decoded receipt new
  · rw [taken] at inside
    rcases mem_append.mp inside with old | new
    · exact proper.found.settled receipt old
    · exact settled receipt new
  · rw [outstanding, recvCq, inFlight] at inside
    cases inside
  · rw [recvCq] at inside
    cases inside

/-- The one reply that has arrived, and its receipt. -/
theorem receive_single {before after : Executor} {receipt : Receipt} {data : List UInt8}
    (carried : finishedInvocId
      (reply (invocId (ntohl write.immData))) = invocation.id)
    (member : receipt ∈ receive before after
      [⟨invocation, (replyTo write data).completion⟩]) :
    receipt = ⟨invocation, invocation.id, before.futures.lookup invocation.id,
      after.futures.lookup invocation.id⟩ := by
  rw [mem_singleton.mp member]
  dsimp only
  rw [ntohl_replyTo, carried]

theorem wake_asleep (events : loop.events = 0) : loop.wake = loop := by
  unfold FutureLoop.wake
  exact if_pos events

theorem Proper.wake (proper : loop.Proper) : loop.wake.Proper := by
  cases proper.place with
  | idle _ _ _ _ events | flying _ _ _ _ _ _ events =>
    rw [wake_asleep events]
    exact proper
  | arrived invocation write data submitted inFlight recvCq armed events =>
    rcases submitted.taker with ⟨future, solicited, idle⟩ | ⟨_, unsolicited, _⟩
    · have one : loop.events = 1 := by rw [events, solicited]; rfl
      have expected := proper.found.expected invocation (by
        rw [outstanding, recvCq]
        exact mem_cons_self)
      rw [wake_eq recvCq (by rw [one]; exact Nat.one_ne_zero)
        (settleFuture_expected expected future submitted.writes data)]
      refine proper.taken rfl (Or.inl idle) inFlight rfl rfl (by rw [one]) rfl
        (fun receipt member => ?_) fun receipt member _ => ?_
      · rw [receive_single submitted.carried member]
      · rw [receive_single submitted.carried member]
        exact ⟨expected.entry future, AList.lookup_insert _⟩
    · have none : loop.events = 0 := by rw [events, unsolicited]; rfl
      rw [wake_asleep none]
      exact proper

theorem Proper.poll (proper : loop.Proper) : loop.poll.Proper := by
  unfold FutureLoop.poll
  dsimp only
  cases proper.place with
  | idle waiting inFlight recvCq armed events =>
    rcases waiting with idle | ⟨returnVal, outSize, draining⟩
    · rw [idle]
      exact proper
    · rw [draining, recvCq]
      exact proper.taken rfl (Or.inl rfl) inFlight rfl armed events rfl
        (fun _ member => nomatch member) fun _ member => nomatch member
  | flying invocation write submitted inFlight recvCq =>
    rcases submitted.taker with ⟨_, _, idle⟩ | ⟨_, _, polling⟩
    · rw [idle]
      exact proper
    · rw [polling, recvCq]
      show { loop with
        recvCq := [], receipts := loop.receipts ++ [], waiting := .polling invocation.id }.Proper
      rw [append_nil, ← polling, ← recvCq]
      exact proper
  | arrived invocation write data submitted inFlight recvCq armed events =>
    rcases submitted.taker with ⟨_, _, idle⟩ | ⟨caller, unsolicited, polling⟩
    · rw [idle]
      exact proper
    · have batch : loop.recvCq.take wcSize =
          [⟨invocation, (replyTo write data).completion⟩] := by rw [recvCq]; rfl
      rw [polling, batch, map_singleton]
      dsimp only
      rw [walk_expected loop.executor submitted.carried data]
      refine proper.taken rfl (Or.inr ⟨_, _, rfl⟩) inFlight (by rw [recvCq]; rfl)
        (by rw [armed, unsolicited]; rfl) (by rw [events, unsolicited]; rfl) rfl
        (fun receipt member => ?_) fun receipt member future => ?_
      · rw [receive_single submitted.carried member]
      · rw [receive_single submitted.carried member, caller] at future
        cases future

end Dispatch

/-! ### Runs -/

theorem Proper.step (proper : loop.Proper) {event : Event} (alone : loop.Alone event)
    (carried : loop.Carried event) : (loop.step event).Proper := by
  cases event with
  | async => exact proper.async alone carried
  | execute => exact proper.execute alone carried
  | answer data => exact proper.answer data
  | wake => exact proper.wake
  | poll => exact proper.poll

/-- The executor has a connection, and a library whose indexes fit 15 bits. -/
def Stocked (executor : Executor) : Prop :=
  executor.connections ≠ [] ∧ executor.funcNames.length ≤ 2 ^ 15

namespace Stocked

variable {executor after : Executor}

theorem issue (stocked : Stocked executor) (call : Call) : Stocked (executor.issue call).1 := by
  refine ⟨by rw [Executor.issue_connections]; exact stocked.1, ?_⟩
  cases known : executor.findFunction call.fname with
  | none =>
    rw [issue_missing known]
    exact stocked.2
  | some funcIdx =>
    rw [issue_found (by rw [known]; exact Option.some_ne_none _)]
    cases call <;> exact stocked.2

theorem settleFuture {val : BitVec 32} (settled : executor.settleFuture val = some after)
    (stocked : Stocked executor) : Stocked after := by
  dsimp only [Executor.settleFuture] at settled
  split at settled
  · cases settled
  · rw [← Option.some.inj settled]
    exact stocked

theorem settleAll {batch : List WorkCompletion} (settled : executor.settleAll batch = some after)
    (stocked : Stocked executor) : Stocked after :=
  Executor.dispatchAll_stable settleFuture settled stocked

theorem step (stocked : Stocked loop.executor) (event : Event) :
    Stocked (loop.step event).executor := by
  cases event with
  | async fname input out size =>
    show Stocked (loop.async fname input out size).executor
    unfold FutureLoop.async
    split
    · exact stocked.issue _
    · exact stocked
  | execute fname input out =>
    show Stocked (loop.execute fname input out).executor
    unfold FutureLoop.execute
    split
    · split
      · exact stocked
      · exact stocked.issue _
    · exact stocked
  | answer data =>
    show Stocked (loop.answer data).executor
    unfold FutureLoop.answer
    split
    · exact stocked
    · split <;> exact stocked
  | wake =>
    show Stocked loop.wake.executor
    unfold FutureLoop.wake
    dsimp only
    split
    · exact stocked
    · split
      · exact stocked
      · rename_i settled
        exact settleAll settled stocked
  | poll =>
    show Stocked loop.poll.executor
    unfold FutureLoop.poll
    dsimp only
    split
    · split
      · exact stocked
      · rename_i walked
        exact Executor.walk_stable settleFuture walked stocked
    · split
      · exact stocked
      · rename_i settled
        exact settleAll settled stocked
    · exact stocked

theorem index_lt (stocked : Stocked executor) {fname : String} {funcIdx : BitVec 32}
    (index : executor.findFunction fname = some funcIdx) : funcIdx.toNat < 2 ^ 15 := by
  obtain ⟨position, found, ofNat⟩ := Option.map_eq_some_iff.mp index
  obtain ⟨bound, _, _⟩ := findIdx?_eq_some_iff_getElem.mp found
  rw [← ofNat, BitVec.toNat_ofNat]
  exact Nat.lt_of_le_of_lt (Nat.mod_le _ _) (Nat.lt_of_lt_of_le bound stocked.2)

end Stocked

/-- What a call posts is expected only if the counter is in range. -/
theorem Found.carried_issue {call : Call} {next : FutureLoop} (found : next.Found)
    (inFlight : next.inFlight = (loop.issue call).inFlight) {write : Write}
    (posted : (loop.executor.issue call).2 = [⟨0, write⟩]) :
    finishedInvocId (reply (invocId (ntohl write.immData))) =
      call.id loop.executor := by
  have inside : issued loop.executor call ∈ next.outstanding := by
    rw [outstanding, inFlight, FutureLoop.issue, posted]
    exact mem_append_right _ (mem_append_right _ (mem_singleton_self _))
  refine (found.expected _ inside).carried write ?_
  rw [writes_issued posted]
  exact mem_singleton_self _

theorem Found.carried (stocked : Stocked loop.executor) {event : Event}
    (found : (loop.step event).Found) : loop.Carried event := by
  cases event with
  | async fname input out size =>
    intro idle funcIdx index
    obtain ⟨write, posted, carries⟩ :=
      @posted_async loop.executor fname input out size funcIdx stocked.1 index
    have small := stocked.index_lt index
    have inFlight : (loop.async fname input out size).inFlight =
        (loop.issue (.async fname input out size)).inFlight := by
      unfold FutureLoop.async
      rw [idle]
    exact ⟨(carried_async small carries).mp (found.carried_issue inFlight posted), small⟩
  | execute fname input out =>
    intro idle funcIdx index
    obtain ⟨write, posted, carries⟩ :=
      @posted_execute loop.executor fname input out funcIdx stocked.1 index
    have small := stocked.index_lt index
    have inFlight : (loop.execute fname input out).inFlight =
        (loop.issue (.execute fname input out)).inFlight := by
      unfold FutureLoop.execute
      rw [idle, index]
    exact ⟨(carried_execute small carries).mp (found.carried_issue inFlight posted), small⟩
  | _ => trivial

/-- In a run of `async` and `execute` calls with at most one invocation outstanding, every reply
finds its future if every call finds the counter within 16 bits and a function with an index
below 2^15. For a library with at most 2^15 functions, only then. -/
theorem replies_find_futures (maxInlineData : Int) (symbols : List String)
    (connection : RemoteBuffer) (events : List Event)
    (alone : Along step Alone (start maxInlineData symbols connection) events) :
    (Along step Carried (start maxInlineData symbols connection) events →
      Always step Found (start maxInlineData symbols connection) events) ∧
    (symbols.length ≤ 2 ^ 15 → Always step Found (start maxInlineData symbols connection) events →
      Along step Carried (start maxInlineData symbols connection) events) := by
  constructor
  · intro carried
    refine always_of_invariant (fun loop event proper => ?_) (fun loop proper => proper.found)
      (start_proper maxInlineData symbols connection) (alone.and carried)
    exact fun conditions => proper.step conditions.1 conditions.2
  · intro few always
    refine always.along (fun loop event stocked => stocked.step event)
      (fun loop event stocked found => found.carried stocked) ⟨cons_ne_nil _ _, ?_⟩
    show (symbols.insertionSort (· ≤ ·)).length ≤ 2 ^ 15
    rw [length_insertionSort]
    exact few

/-- Two calls, one of `execute` and one of `async`. -/
theorem replies_find_futures_twice :
    Always step Found (start 0 ["echo"] ⟨0, 0⟩)
      [.execute "echo" [1] ⟨64, 7⟩, .answer [1], .poll, .poll,
        .async "echo" [2] ⟨64, 7⟩ (-1), .answer [2], .wake] := by
  have stocked (events : List Event) :
      Stocked (run step (start 0 ["echo"] ⟨0, 0⟩) events).executor :=
    @run_stable _ _ step (fun loop => Stocked loop.executor)
      (fun loop event stocked => stocked.step event) _ events ⟨cons_ne_nil _ _, by decide⟩
  refine (replies_find_futures 0 ["echo"] ⟨0, 0⟩ _ (by decide)).1 ⟨?_, trivial, trivial, trivial,
    ?_, trivial, trivial, trivial⟩
  · exact fun _ _ index => ⟨Or.inl (by decide), (stocked []).index_lt index⟩
  · intro _ _ index
    exact ⟨show BitVec.toNat _ < 2 ^ 16 by decide, (stocked [.execute "echo" [1] ⟨64, 7⟩,
      .answer [1], .poll, .poll]).index_lt index⟩

/-! ### Too many calls -/

section Overflow

/-- One call of `async` and what follows until its reply was polled. -/
def round (fname : String) (input : List UInt8) (out : RemoteBuffer) (data : List UInt8) :
    List Event :=
  [.async fname input out (-1), .answer data, .wake]

/-- Nothing is outstanding, and the background thread sleeps. -/
structure Rests (loop : FutureLoop) : Prop where
  waiting : loop.waiting = .idle
  inFlight : loop.inFlight = []
  recvCq : loop.recvCq = []
  armed : loop.armed = true
  events : loop.events = 0

theorem async_eq (idle : loop.waiting = .idle) {fname : String} {input : List UInt8}
    {out : RemoteBuffer} {size : Int} {write : Write}
    (posted : (loop.executor.issue (.async fname input out size)).2 = [⟨0, write⟩]) :
    loop.async fname input out size =
      { loop with
        executor := (loop.executor.issue (.async fname input out size)).1
        inFlight :=
          loop.inFlight ++ [issued loop.executor (.async fname input out size)] } := by
  unfold FutureLoop.async FutureLoop.issue
  rw [idle, posted]
  rfl

theorem answer_eq {invocation : Invocation} {write : Write}
    (inFlight : loop.inFlight = [invocation]) (writes : invocation.writes = [write])
    (armed : loop.armed = true) (solicited : solicited (ntohl write.immData) = true)
    (data : List UInt8) :
    loop.answer data =
      { loop with
        inFlight := []
        recvCq := loop.recvCq ++ [⟨invocation, (replyTo write data).completion⟩]
        armed := false
        events := loop.events + 1 } := by
  have flagged : (replyTo write data).solicited = true := solicited
  unfold FutureLoop.answer
  rw [inFlight]
  dsimp only
  rw [writes]
  dsimp only
  rw [flagged, armed]
  rfl

/-- The client after `count` rounds: the counter stands at their number, and the future of the
first one has its value. -/
structure Counted (loop : FutureLoop) (count : Nat) : Prop where
  rests : loop.Rests
  connected : loop.executor.connections ≠ []
  names : loop.executor.funcNames = ["echo"]
  counter : loop.executor.invocId = BitVec.ofNat 32 count
  calls : loop.executor.calls = count
  first : 0 < count → loop.executor.futures.lookup 0#32 = some ⟨0, 0, some 0#32⟩

variable {count : Nat} (counted : loop.Counted count) (input : List UInt8) (out : RemoteBuffer)
  (data : List UInt8)

include counted

theorem Counted.index : loop.executor.findFunction "echo" = some 0#32 := by
  rw [Executor.findFunction, counted.names]
  rfl

theorem Counted.issued :
    (loop.executor.issue (.async "echo" input out (-1))).1 =
      { loop.executor with
        invocId := BitVec.ofNat 32 count + 1
        futures := loop.executor.futures.insert (BitVec.ofNat 32 count) ⟨1, count, none⟩
        calls := count + 1 } := by
  have known : loop.executor.findFunction "echo" ≠ none := by
    rw [counted.index]
    exact Option.some_ne_none _
  rw [issue_found known]
  simp only [Call.id, Call.listener, Call.early, Executor.register, counted.counter,
    counted.calls, if_true]

/-- A round dispatches one reply to `_futures`, whatever the id decoded from it. -/
theorem Counted.run_round {decoded : BitVec 32} {future : Future}
    (decodes : finishedInvocId (reply (invocId
      (solicitedSubmission loop.executor.invocId 0#32))) = decoded)
    (found : (loop.executor.futures.insert (BitVec.ofNat 32 count) ⟨1, count, none⟩).lookup
      decoded = some future) :
    let last := run step loop (round "echo" input out data)
    Along step Alone loop (round "echo" input out data) ∧ last.Rests ∧
      last.executor = { loop.executor with
        invocId := BitVec.ofNat 32 count + 1
        futures := (loop.executor.futures.insert (BitVec.ofNat 32 count) ⟨1, count, none⟩).insert
          decoded ⟨future.count - 1, future.promise,
            if future.count - 1 = 0 then some 0#32 else future.value⟩
        calls := count + 1 } ∧
      ∃ receipt ∈ last.receipts,
        receipt.invocation.id = BitVec.ofNat 32 count ∧ receipt.decoded = decoded := by
  have rests := counted.rests
  obtain ⟨write, posted, carries⟩ :=
    @posted_async loop.executor "echo" input out (-1) 0#32 counted.connected counted.index
  have val : ntohl (replyTo write data).completion.immData =
      reply (invocId (solicitedSubmission loop.executor.invocId 0#32)) := by
    rw [← carries]
    exact ntohl_replyTo _ _
  have solicited : solicited (ntohl write.immData) = true := by
    rw [carries]
    exact solicited_solicitedSubmission _ _
  have called := async_eq rests.waiting posted
  have flying : (loop.async "echo" input out (-1)).inFlight =
      [Traffic.issued loop.executor (.async "echo" input out (-1))] := by
    rw [called, rests.inFlight]
    rfl
  have answered := answer_eq flying (writes_issued posted) (by rw [called]; exact rests.armed)
    solicited data
  have woken := @wake_eq ((loop.async "echo" input out (-1)).answer data) _ _
    (by rw [answered, called, rests.recvCq]; rfl)
    (by rw [answered]; exact Nat.succ_ne_zero _)
    (by
      rw [answered, called, val, counted.issued]
      dsimp only [Executor.settleFuture]
      rw [decodes, found, returnVal_reply])
  have last : run step loop (round "echo" input out data) =
      ((loop.async "echo" input out (-1)).answer data).wake := rfl
  intro after
  have ended : after = _ := last.trans woken
  refine ⟨⟨?_, trivial, trivial, trivial⟩, ?_, ?_, ?_⟩
  · show loop.outstanding = []
    rw [outstanding, rests.recvCq, rests.inFlight]
    rfl
  · rw [ended, answered, called]
    exact ⟨rests.waiting, rfl, rfl, rfl, rests.events⟩
  · rw [ended]
  · rw [ended]
    refine ⟨_, mem_append_right _ (mem_singleton_self _), ?_, ?_⟩
    · exact counted.counter
    · dsimp only
      rw [val, decodes]

theorem Counted.round (small : count < 2 ^ 16) :
    Along step Alone loop (round "echo" input out data) ∧
      (run step loop (FutureLoop.round "echo" input out data)).Counted (count + 1) := by
  have decodes : finishedInvocId (reply (invocId
      (solicitedSubmission loop.executor.invocId 0#32))) = BitVec.ofNat 32 count := by
    rw [counted.counter, solicitedSubmission, BitVec.or_assoc,
      finishedInvocId_reply_eq_iff _ (by decide), BitVec.toNat_ofNat]
    omega
  obtain ⟨alone, rests, executor, _⟩ :=
    counted.run_round input out data decodes (AList.lookup_insert _)
  refine ⟨alone, rests, ?_, ?_, ?_, ?_, fun _ => ?_⟩
  · rw [executor]
    exact counted.connected
  · rw [executor]
    exact counted.names
  · rw [executor]
    exact (BitVec.ofNat_add _ _).symm
  · rw [executor]
  · rw [executor]
    dsimp only
    by_cases zero : count = 0
    · rw [zero]
      exact AList.lookup_insert _
    · have other : 0#32 ≠ BitVec.ofNat 32 count := by
        rw [Ne, BitVec.toNat_eq, BitVec.toNat_ofNat, BitVec.toNat_ofNat]
        omega
      rw [AList.lookup_insert_ne other, AList.lookup_insert_ne other]
      exact counted.first (Nat.pos_of_ne_zero zero)

omit counted

/-- Rounds of `async` calls on one connection. -/
def rounds (count : Nat) : List Event :=
  (replicate count (round "echo" [] ⟨0, 0⟩ [])).flatten

theorem rounds_succ (count : Nat) :
    rounds (count + 1) = rounds count ++ round "echo" [] ⟨0, 0⟩ [] := by
  rw [rounds, replicate_succ', flatten_append, flatten_singleton]
  rfl

theorem run_rounds (count : Nat) (small : count ≤ 2 ^ 16) :
    Along step Alone (start 0 ["echo"] ⟨0, 0⟩) (rounds count) ∧
      (run step (start 0 ["echo"] ⟨0, 0⟩) (rounds count)).Counted count := by
  induction count with
  | zero =>
    exact ⟨trivial, ⟨rfl, rfl, rfl, rfl, rfl⟩, cons_ne_nil _ _, rfl, rfl, rfl,
      fun positive => absurd positive (Nat.lt_irrefl 0)⟩
  | succ count inductionHypothesis =>
    obtain ⟨before, counted⟩ := inductionHypothesis (Nat.le_of_succ_le small)
    obtain ⟨alone, next⟩ := counted.round [] ⟨0, 0⟩ [] small
    rw [rounds_succ, run_append, along_append]
    exact ⟨⟨before, alone⟩, next⟩

/-- The round after 65536 of them: the reply is decoded to the id of the first call, whose future
has its value already. -/
theorem Counted.overflow (counted : loop.Counted 65536) :
    let last := run step loop (FutureLoop.round "echo" input out data)
    Along step Alone loop (FutureLoop.round "echo" input out data) ∧ last.outstanding = [] ∧
      last.executor.futures.lookup 65536#32 = some ⟨1, 65536, none⟩ ∧
      ∃ receipt ∈ last.receipts, receipt.invocation.id = 65536#32 ∧ receipt.decoded = 0#32 := by
  have decodes : finishedInvocId (reply (invocId
      (solicitedSubmission loop.executor.invocId 0#32))) = 0#32 := by
    rw [counted.counter]
    decide
  have other : 0#32 ≠ 65536#32 := by decide
  obtain ⟨alone, rests, executor, receipt⟩ := counted.run_round input out data decodes
    ((AList.lookup_insert_ne other).trans (counted.first (by decide)))
  refine ⟨alone, ?_, ?_, receipt⟩
  · rw [outstanding, rests.recvCq, rests.inFlight]
    rfl
  · rw [executor]
    exact (AList.lookup_insert_ne other.symm).trans (AList.lookup_insert _)

/-- The reply to the 65537th call of `async` is decoded to the id 0. Its future stays in the map
without a value, though nothing is outstanding. -/
theorem reply_misses_future :
    Along step Alone (start 0 ["echo"] ⟨0, 0⟩) (rounds 65537) ∧
      (∃ receipt ∈ (run step (start 0 ["echo"] ⟨0, 0⟩) (rounds 65537)).receipts,
        receipt.invocation.id = 65536#32 ∧ receipt.decoded = 0#32) ∧
      (run step (start 0 ["echo"] ⟨0, 0⟩) (rounds 65537)).outstanding = [] ∧
      (run step (start 0 ["echo"] ⟨0, 0⟩) (rounds 65537)).executor.futures.lookup 65536#32 =
        some ⟨1, 65536, none⟩ ∧
      ¬ Always step Found (start 0 ["echo"] ⟨0, 0⟩) (rounds 65537) := by
  obtain ⟨before, counted⟩ := run_rounds 65536 (by decide)
  obtain ⟨alone, none, pending, receipt, inside, id, decoded⟩ := counted.overflow [] ⟨0, 0⟩ []
  have last : rounds 65537 = rounds 65536 ++ round "echo" [] ⟨0, 0⟩ [] := rounds_succ 65536
  rw [last, along_append, run_append]
  refine ⟨⟨before, alone⟩, ⟨receipt, inside, id, decoded⟩, none, pending, fun always => ?_⟩
  have same := always.last.decoded receipt (by rw [run_append]; exact inside)
  rw [id, decoded] at same
  exact absurd same (by decide)

end Overflow

end FutureLoop

end RFaaS.Client
