/-
This file models `execute` on vectors of buffers (`rfaas/executor.hpp`), which
posts one write on every connection and waits for all of them. The connections
of a client share one queue for the completions of sends and one for those of
receives. `execute` counts what it polls from each queue and stops when the
count is exactly the number of connections; it does not look at what it has
polled beyond the return codes. All receives are charged to the connection that
was polled and distributed by hand afterwards.

The file models the client with all calls that leave something in the two
queues, and says what an event can do.
-/

import RFaaS.Client
import RFaaS.RecvQueue
import RFaaS.Transition

namespace RFaaS.Client

open Transition Port List

/-- A posted write. The last field is a ghost: the call that has posted it. -/
structure Ticket extends Posted where
  serial : Nat
  deriving DecidableEq, Repr

/-- A reply in the receive queue. The first field is a ghost: the write that it answers. -/
structure Delivery where
  ticket : Ticket
  completion : WorkCompletion
  deriving DecidableEq, Repr

/-- The reply carries the return code 0. -/
def Delivery.ok (delivery : Delivery) : Bool :=
  Immediate.returnVal (ntohl delivery.completion.immData) == 0#32

/-- What `execute` on vectors has returned. The first field is a ghost: the replies that it has
polled. -/
structure Outcome where
  replies : List Delivery
  correct : Bool
  deriving DecidableEq, Repr

/-- Where the thread of the client is. -/
inductive CallStage
  | idle
  /-- In the first loop of `execute` on vectors. -/
  | sending (expected : Int)
  /-- In its second loop, with the replies polled so far. -/
  | receiving (expected : Int) (correct : Bool) (replies : List Delivery)
  /-- In the loop of `execute` on a single buffer. -/
  | polling (invocId : BitVec 32)
  /-- Before the last poll of the receives. -/
  | draining
  /-- Before the poll of the sends. -/
  | flushing
  /-- The end of a map was dereferenced, or the first one of no connections. -/
  | fault
  deriving DecidableEq, Repr

/-- In one of the loops of `execute` on vectors. -/
def CallStage.waits : CallStage → Bool
  | .sending _ | .receiving _ _ _ => true
  | _ => false

/-- A client. `ports` are the receiving ends of its connections, `sending` the writes that are
not completed, `sendCq` the shared queue of those that are, `inFlight` the writes that have no
reply, and `recvCq` the shared queue of the replies. -/
structure Parallel where
  executor : Executor
  ports : List Port
  sending : List Ticket
  sendCq : List Ticket
  inFlight : List Ticket
  recvCq : List Delivery
  stage : CallStage
  returned : List Outcome

namespace Parallel

/-- After `allocate`. -/
def start (size : Int) (maxInlineData : Int) (symbols : List String)
    (connections : List RemoteBuffer) : Parallel where
  executor := Executor.allocated maxInlineData symbols connections
  ports := connections.map fun _ => filled size
  sending := []
  sendCq := []
  inFlight := []
  recvCq := []
  stage := .idle
  returned := []

/-! ### Calls -/

/-- The writes of a call. -/
def tickets (executor : Executor) (call : Call) : List Ticket :=
  (executor.issue call).2.map fun posted => ⟨posted, executor.calls⟩

/-- A call posts its writes and refills connections. -/
def issue (parallel : Parallel) (call : Call) (refill : List Port → List Port) (stage : CallStage) :
    Parallel :=
  { parallel with
    executor := (parallel.executor.issue call).1
    sending := parallel.sending ++ tickets parallel.executor call
    inFlight := parallel.inFlight ++ tickets parallel.executor call
    ports := refill parallel.ports
    stage := stage }

/-- `async` on a single buffer. -/
def async (parallel : Parallel) (fname : String) (input : List UInt8) (out : RemoteBuffer)
    (size : Int) : Parallel :=
  match parallel.executor.findFunction fname with
  | none => parallel
  | some _ =>
    parallel.issue (.async fname input out size) (fun ports => ports.modify 0 refill) .idle

/-- `async` on vectors of buffers. -/
def asyncVector (parallel : Parallel) (fname : String) (inputs : List (List UInt8))
    (outs : List RemoteBuffer) : Parallel :=
  match parallel.executor.findFunction fname with
  | none => parallel
  | some _ => parallel.issue (.asyncVector fname inputs outs) (map refill) .idle

/-- `execute` on a single buffer, up to its loop. -/
def execute (parallel : Parallel) (fname : String) (input : List UInt8) (out : RemoteBuffer) :
    Parallel :=
  match parallel.executor.findFunction fname with
  | none => parallel
  | some _ =>
    parallel.issue (.execute fname input out) (fun ports => ports.modify 0 refill)
      (.polling parallel.executor.advance.invocId)

/-- `execute` on vectors of buffers, up to its first loop. -/
def executeVector (parallel : Parallel) (fname : String) (inputs : List (List UInt8))
    (outs : List RemoteBuffer) : Parallel :=
  match parallel.executor.findFunction fname with
  | none => { parallel with returned := parallel.returned ++ [⟨[], false⟩] }
  | some _ =>
    parallel.issue (.executeVector fname inputs outs) (map refill)
      (if parallel.ports = [] then .fault else .sending parallel.ports.length)

/-! ### The network and the thread of the client -/

/-- The reply of a worker to a submission, with a return code. -/
def replyTo (write : Write) (code : BitVec 16) (data : List UInt8) : Write :=
  postWrite data (Submission.header write.data)
    (Immediate.reply (Immediate.invocId (ntohl write.immData)) ||| code.setWidth 32) false
    (Immediate.solicited (ntohl write.immData))

/-- The completion of a write enters the send queue. -/
def complete (parallel : Parallel) (index : Nat) : Parallel :=
  match parallel.sending[index]? with
  | none => parallel
  | some ticket =>
    { parallel with
      sending := parallel.sending.eraseIdx index
      sendCq := parallel.sendCq ++ [ticket] }

/-- The receives that are posted on a connection. -/
def receives (ports : List Port) (connection : Nat) : Nat :=
  (ports[connection]?).elim 0 posted

/-- A reply uses up a receive of its connection and enters the receive queue. -/
def reply (parallel : Parallel) (index : Nat) (code : BitVec 16) (data : List UInt8) : Parallel :=
  match parallel.inFlight[index]? with
  | none => parallel
  | some ticket =>
    if receives parallel.ports ticket.connection = 0 then parallel
    else
      { parallel with
        inFlight := parallel.inFlight.eraseIdx index
        recvCq := parallel.recvCq ++ [⟨ticket, (replyTo ticket.write code data).completion⟩]
        ports := parallel.ports.modify ticket.connection arrive }

/-- The corrections of the counts at the end of `execute` on vectors. -/
def redistribute (ports : List Port) : List Port :=
  match ports with
  | [] => []
  | first :: rest =>
    first.updateRequests ((ports.length : Int) - 1) :: rest.map fun port => port.updateRequests (-1)

/-- A poll of the send queue that has returned `batch`, in the first loop. -/
def pollSends (parallel : Parallel) (expected : Int) (batch : List Ticket) : Parallel :=
  let expected := expected - batch.length
  { parallel with
    sendCq := parallel.sendCq.drop batch.length
    stage := if expected = 0 then .receiving parallel.ports.length true [] else .sending expected }

/-- A poll of the receive queue: `RecvWorkCompletions::poll` of the first connection. -/
def takeReplies (parallel : Parallel) (batch : List Delivery) : Parallel :=
  { parallel with
    recvCq := parallel.recvCq.drop batch.length
    ports := parallel.ports.modify 0 fun port => port.updateRequests (-batch.length) }

/-- A poll of the receive queue that has returned `batch`, in the second loop. -/
def pollReplies (parallel : Parallel) (expected : Int) (correct : Bool) (replies : List Delivery)
    (batch : List Delivery) : Parallel :=
  let expected := expected - batch.length
  let correct := correct && batch.all Delivery.ok
  let polled := parallel.takeReplies batch
  if expected = 0 then
    { polled with
      ports := redistribute polled.ports
      stage := .idle
      returned := parallel.returned ++ [⟨replies ++ batch, correct⟩] }
  else { polled with stage := .receiving expected correct (replies ++ batch) }

/-- A poll in `execute` on a single buffer. -/
def pollSingle (parallel : Parallel) (invocId : BitVec 32) (batch : List Delivery) : Parallel :=
  match parallel.executor.walk invocId none (batch.map Delivery.completion) with
  | none => { parallel with stage := .fault }
  | some (executor, found) =>
    { parallel.takeReplies batch with
      executor := executor
      stage := if found.isSome then .draining else .polling invocId }

/-- The last poll of the receives in `execute` on a single buffer. -/
def drain (parallel : Parallel) (batch : List Delivery) : Parallel :=
  match parallel.executor.settleAll (batch.map Delivery.completion) with
  | none => { parallel with stage := .fault }
  | some executor => { parallel.takeReplies batch with executor := executor, stage := .flushing }

/-- How many completions a poll gets at most. -/
def limit (count : Nat) : Nat := min count wcSize

/-- The thread of the client goes on with a poll that gets up to `count` completions. The loops
poll until there is one. -/
def poll (parallel : Parallel) (count : Nat) : Parallel :=
  let sends := parallel.sendCq.take (limit count)
  let replies := parallel.recvCq.take (limit count)
  match parallel.stage with
  | .idle | .fault => parallel
  | .sending expected => if sends = [] then parallel else parallel.pollSends expected sends
  | .receiving expected correct taken =>
    if replies = [] then parallel else parallel.pollReplies expected correct taken replies
  | .polling invocId => if replies = [] then parallel else parallel.pollSingle invocId replies
  | .draining => parallel.drain replies
  | .flushing => { parallel with sendCq := parallel.sendCq.drop sends.length, stage := .idle }

/-- What happens while a call waits. -/
inductive Event
  | complete (index : Nat)
  | reply (index : Nat) (code : BitVec 16) (data : List UInt8)
  | poll (count : Nat)

def advance (parallel : Parallel) : Event → Parallel
  | .complete index => parallel.complete index
  | .reply index code data => parallel.reply index code data
  | .poll count => parallel.poll count

/-- What a client does. -/
inductive Action
  | async (fname : String) (input : List UInt8) (out : RemoteBuffer) (size : Int)
  | asyncVector (fname : String) (inputs : List (List UInt8)) (outs : List RemoteBuffer)
  | execute (fname : String) (input : List UInt8) (out : RemoteBuffer)
  | executeVector (fname : String) (inputs : List (List UInt8)) (outs : List RemoteBuffer)
  | event (event : Event)

/-- A call is made only when the thread of the client is not in another one. -/
def step (parallel : Parallel) (action : Action) : Parallel :=
  match action with
  | .event event => parallel.advance event
  | .async fname input out size =>
    if parallel.stage = .idle then parallel.async fname input out size else parallel
  | .asyncVector fname inputs outs =>
    if parallel.stage = .idle then parallel.asyncVector fname inputs outs else parallel
  | .execute fname input out =>
    if parallel.stage = .idle then parallel.execute fname input out else parallel
  | .executeVector fname inputs outs =>
    if parallel.stage = .idle then parallel.executeVector fname inputs outs else parallel

/-- The writes whose reply nobody has polled. -/
def outstanding (parallel : Parallel) : List Ticket :=
  parallel.recvCq.map Delivery.ticket ++ parallel.inFlight

/-- Nothing is left of earlier calls. -/
structure Clean (parallel : Parallel) : Prop where
  sending : parallel.sending = []
  sendCq : parallel.sendCq = []
  inFlight : parallel.inFlight = []
  recvCq : parallel.recvCq = []

variable {parallel : Parallel}

/-! ### What an event can do -/

theorem complete_cases (parallel : Parallel) (index : Nat) :
    parallel.complete index = parallel ∨
      ∃ ticket sending, (ticket :: sending).Perm parallel.sending ∧
        parallel.complete index =
          { parallel with sending := sending, sendCq := parallel.sendCq ++ [ticket] } := by
  unfold complete
  split
  · exact Or.inl rfl
  · rename_i ticket here
    exact Or.inr ⟨ticket, _, Table.cons_eraseIdx_perm here, rfl⟩

theorem reply_cases (parallel : Parallel) (index : Nat) (code : BitVec 16) (data : List UInt8) :
    parallel.reply index code data = parallel ∨
      ∃ (delivery : Delivery) (inFlight : List Ticket),
        (delivery.ticket :: inFlight).Perm parallel.inFlight ∧
        receives parallel.ports delivery.ticket.connection ≠ 0 ∧
        parallel.reply index code data =
          { parallel with
            inFlight := inFlight
            recvCq := parallel.recvCq ++ [delivery]
            ports := parallel.ports.modify delivery.ticket.connection arrive } := by
  unfold reply
  split
  · exact Or.inl rfl
  · rename_i ticket here
    split
    · exact Or.inl rfl
    · rename_i ready
      exact Or.inr ⟨⟨ticket, _⟩, _, Table.cons_eraseIdx_perm here, ready, rfl⟩

/-- The rule for one event: what holds before it holds after it, if completing a write, the reply
to a write and a poll keep it. -/
theorem advance_rule (property : Parallel → Prop) (holds : property parallel)
    (complete : ∀ ticket sending, (ticket :: sending).Perm parallel.sending →
      property { parallel with sending := sending, sendCq := parallel.sendCq ++ [ticket] })
    (reply : ∀ (delivery : Delivery) (inFlight : List Ticket),
      (delivery.ticket :: inFlight).Perm parallel.inFlight →
      receives parallel.ports delivery.ticket.connection ≠ 0 →
      property { parallel with
        inFlight := inFlight
        recvCq := parallel.recvCq ++ [delivery]
        ports := parallel.ports.modify delivery.ticket.connection arrive })
    (poll : ∀ count, property (parallel.poll count)) (event : Event) :
    property (parallel.advance event) := by
  cases event with
  | complete index =>
    rw [advance]
    rcases parallel.complete_cases index with same | ⟨ticket, sending, perm, changed⟩
    · rw [same]
      exact holds
    · rw [changed]
      exact complete ticket sending perm
  | reply index code data =>
    rw [advance]
    rcases parallel.reply_cases index code data with
      same | ⟨delivery, inFlight, perm, ready, changed⟩
    · rw [same]
      exact holds
    · rw [changed]
      exact reply delivery inFlight perm ready
  | poll count => exact poll count

theorem poll_idle (idle : parallel.stage = .idle) (count : Nat) :
    parallel.poll count = parallel := by
  unfold poll
  rw [idle]

/-- What a poll has done, given that it was not in vain. -/
theorem poll_sending {expected : Int} (stage : parallel.stage = .sending expected) (count : Nat) :
    parallel.poll count = parallel ∨
      ∃ batch rest, batch ≠ [] ∧ parallel.sendCq = batch ++ rest ∧
        parallel.poll count =
          { parallel with
            sendCq := rest
            stage :=
              if expected - batch.length = 0 then .receiving parallel.ports.length true []
              else .sending (expected - batch.length) } := by
  unfold poll
  rw [stage]
  dsimp only
  split
  · exact Or.inl rfl
  · rename_i some
    refine Or.inr ⟨_, parallel.sendCq.drop (limit count), some, (take_append_drop _ _).symm,
      ?_⟩
    dsimp only [pollSends]
    rw [Table.drop_length_take]

@[inherit_doc poll_sending]
theorem poll_receiving {expected : Int} {correct : Bool} {replies : List Delivery}
    (stage : parallel.stage = .receiving expected correct replies) (count : Nat) :
    parallel.poll count = parallel ∨
      ∃ batch rest, batch ≠ [] ∧ parallel.recvCq = batch ++ rest ∧
        parallel.poll count =
          let ports := parallel.ports.modify 0 fun port => port.updateRequests (-batch.length)
          if expected - batch.length = 0 then
            { parallel with
              recvCq := rest
              ports := redistribute ports
              stage := .idle
              returned := parallel.returned ++
                [⟨replies ++ batch, correct && batch.all Delivery.ok⟩] }
          else
            { parallel with
              recvCq := rest
              ports := ports
              stage := .receiving (expected - batch.length) (correct && batch.all Delivery.ok)
                (replies ++ batch) } := by
  unfold poll
  rw [stage]
  dsimp only
  split
  · exact Or.inl rfl
  · rename_i some
    refine Or.inr ⟨_, parallel.recvCq.drop (limit count), some, (take_append_drop _ _).symm,
      ?_⟩
    dsimp only [pollReplies, takeReplies]
    rw [Table.drop_length_take]

theorem complete_head {ticket : Ticket} {rest : List Ticket}
    (sending : parallel.sending = ticket :: rest) :
    parallel.complete 0 =
      { parallel with sending := rest, sendCq := parallel.sendCq ++ [ticket] } := by
  unfold complete
  rw [sending]
  rfl

theorem reply_eq {index : Nat} {ticket : Ticket} {code : BitVec 16} {data : List UInt8}
    (here : parallel.inFlight[index]? = some ticket)
    (ready : receives parallel.ports ticket.connection ≠ 0) :
    parallel.reply index code data =
      { parallel with
        inFlight := parallel.inFlight.eraseIdx index
        recvCq := parallel.recvCq ++ [⟨ticket, (replyTo ticket.write code data).completion⟩]
        ports := parallel.ports.modify ticket.connection arrive } := by
  unfold reply
  rw [here]
  dsimp only
  rw [if_neg ready]

theorem take_limit {Item : Type} {batch rest : List Item} {count : Nat}
    (length : batch.length = count) (small : count ≤ wcSize) :
    (batch ++ rest).take (limit count) = batch := by
  rw [limit, Nat.min_eq_left small, ← length, take_left]

/-- A poll that gets a given batch from the head of the send queue. -/
theorem poll_sends {expected : Int} {batch rest : List Ticket} {count : Nat}
    (stage : parallel.stage = .sending expected) (queue : parallel.sendCq = batch ++ rest)
    (length : batch.length = count) (some : batch ≠ []) (small : count ≤ wcSize) :
    parallel.poll count =
      { parallel with
        sendCq := rest
        stage :=
          if expected - batch.length = 0 then .receiving parallel.ports.length true []
          else .sending (expected - batch.length) } := by
  unfold poll
  rw [stage, queue, take_limit length small]
  dsimp only [pollSends]
  rw [if_neg some, queue, drop_left]

/-- A poll that gets a given batch from the head of the receive queue. -/
theorem poll_replies {expected : Int} {correct : Bool} {replies batch rest : List Delivery}
    {count : Nat} (stage : parallel.stage = .receiving expected correct replies)
    (queue : parallel.recvCq = batch ++ rest) (length : batch.length = count) (some : batch ≠ [])
    (small : count ≤ wcSize) :
    parallel.poll count =
      let ports := parallel.ports.modify 0 fun port => port.updateRequests (-batch.length)
      if expected - batch.length = 0 then
        { parallel with
          recvCq := rest
          ports := redistribute ports
          stage := .idle
          returned := parallel.returned ++ [⟨replies ++ batch, correct && batch.all Delivery.ok⟩] }
      else
        { parallel with
          recvCq := rest
          ports := ports
          stage := .receiving (expected - batch.length) (correct && batch.all Delivery.ok)
            (replies ++ batch) } := by
  unfold poll
  rw [stage, queue, take_limit length small]
  dsimp only [pollReplies, takeReplies]
  rw [if_neg some, queue, drop_left]

/-! ### The call -/

/-- The thread of the client can call `execute` on vectors: it is in no other call, there is a
connection, the function is deployed, and there are buffers for every connection. -/
structure Callable (parallel : Parallel) (fname : String) (inputs : List (List UInt8))
    (outs : List RemoteBuffer) : Prop where
  idle : parallel.stage = .idle
  some : parallel.ports ≠ []
  ports : parallel.ports.length = parallel.executor.connections.length
  known : parallel.executor.findFunction fname ≠ none
  inputs : parallel.ports.length ≤ inputs.length
  outs : parallel.ports.length ≤ outs.length

/-- One write for every connection. -/
theorem postAll_connections (executor : Executor) {inputs : List (List UInt8)}
    {outs : List RemoteBuffer} (enoughInputs : executor.connections.length ≤ inputs.length)
    (enoughOuts : executor.connections.length ≤ outs.length) (immediate : BitVec 32)
    (solicited : Bool) :
    (executor.postAll inputs outs immediate solicited).map Posted.connection =
      range executor.connections.length := by
  rw [Executor.postAll, map_flatMap]
  refine (flatMap_congr fun connection member => ?_).trans (flatMap_singleton' _)
  have inside := mem_range.mp member
  obtain ⟨input, hasInput⟩ : ∃ input, inputs[connection]? = some input :=
    ⟨_, getElem?_eq_getElem (Nat.lt_of_lt_of_le inside enoughInputs)⟩
  obtain ⟨out, hasOut⟩ : ∃ out, outs[connection]? = some out :=
    ⟨_, getElem?_eq_getElem (Nat.lt_of_lt_of_le inside enoughOuts)⟩
  obtain ⟨write, posted, _⟩ := Executor.post_cases (getElem?_eq_getElem inside) input out (-1)
    immediate solicited
  rw [hasInput, hasOut]
  dsimp only
  rw [posted]
  rfl

section Call

variable {fname : String} {inputs : List (List UInt8)} {outs : List RemoteBuffer}

/-- The writes of the call. -/
def ownTickets (parallel : Parallel) (fname : String) (inputs : List (List UInt8))
    (outs : List RemoteBuffer) : List Ticket :=
  tickets parallel.executor (.executeVector fname inputs outs)

theorem ownTickets_connections (callable : parallel.Callable fname inputs outs) :
    (parallel.ownTickets fname inputs outs).map (fun ticket => ticket.connection) =
      range parallel.ports.length := by
  rcases parallel.executor.invoke_cases fname .caller (fun invocId funcIdx =>
      parallel.executor.postAll inputs outs (Immediate.submission invocId funcIdx) false) with
    ⟨missing, _⟩ | ⟨funcIdx, _, issued⟩
  · exact absurd missing callable.known
  · have posts : (parallel.executor.issue (.executeVector fname inputs outs)).2 =
        parallel.executor.postAll inputs outs
          (Immediate.submission parallel.executor.advance.invocId funcIdx) false :=
      congrArg Prod.snd issued
    have inputs := callable.inputs
    have outs := callable.outs
    rw [callable.ports] at inputs outs
    rw [ownTickets, tickets, posts, map_map, callable.ports,
      ← postAll_connections parallel.executor inputs outs]
    rfl

theorem length_ownTickets (callable : parallel.Callable fname inputs outs) :
    (parallel.ownTickets fname inputs outs).length = parallel.ports.length := by
  have length := congrArg length (ownTickets_connections callable)
  rw [length_map, length_range] at length
  exact length

theorem serial_ownTickets {ticket : Ticket}
    (member : ticket ∈ parallel.ownTickets fname inputs outs) :
    ticket.serial = parallel.executor.calls := by
  obtain ⟨posted, _, rfl⟩ := mem_map.mp member
  rfl

/-- The state in which `execute` on vectors enters its first loop. -/
theorem executeVector_eq (callable : parallel.Callable fname inputs outs) :
    parallel.executeVector fname inputs outs =
      { parallel with
        executor := (parallel.executor.issue (.executeVector fname inputs outs)).1
        sending := parallel.sending ++ parallel.ownTickets fname inputs outs
        inFlight := parallel.inFlight ++ parallel.ownTickets fname inputs outs
        ports := parallel.ports.map refill
        stage := .sending parallel.ports.length } := by
  unfold executeVector
  split
  · rename_i missing
    exact absurd missing callable.known
  · rw [if_neg callable.some]
    rfl

theorem connection_lt {ticket : Ticket} (callable : parallel.Callable fname inputs outs)
    (member : ticket ∈ parallel.ownTickets fname inputs outs) :
    ticket.connection < parallel.ports.length := by
  have inside := mem_map_of_mem (f := fun ticket : Ticket => ticket.connection) member
  rw [ownTickets_connections callable] at inside
  exact mem_range.mp inside

theorem receives_refill {connection : Nat} {port : Port}
    (here : parallel.ports[connection]? = some port) :
    receives (parallel.ports.map refill) connection = port.refill.posted := by
  rw [receives, getElem?_map, here]
  rfl

end Call

/-! ### What events leave alone -/

theorem receives_congr {before after : List Port}
    (same : after.map posted = before.map posted) (connection : Nat) :
    receives after connection = receives before connection := by
  have here := congrArg (fun counts => (counts[connection]?).getD 0) same
  simp only [getElem?_map] at here
  unfold receives
  cases first : after[connection]? <;> cases second : before[connection]? <;>
    rw [first, second] at here <;> exact here

theorem posted_modify (change : Port → Port) (same : ∀ port, (change port).posted = port.posted)
    (ports : List Port) (connection : Nat) :
    (ports.modify connection change).map posted = ports.map posted := by
  refine ext_getElem? fun index => ?_
  rw [getElem?_map, getElem?_map, getElem?_modify]
  cases ports[index]? with
  | none => rfl
  | some port =>
    dsimp only [Option.map_some]
    split
    · exact congrArg some (same port)
    · rfl

theorem posted_redistribute (ports : List Port) :
    (redistribute ports).map posted = ports.map posted := by
  cases ports with
  | nil => rfl
  | cons first rest =>
    rw [redistribute, map_cons, map_cons, map_map]
    rfl

theorem receives_arrive (ports : List Port) (connection other : Nat) :
    receives (ports.modify connection arrive) other =
      if connection = other then receives ports other - 1 else receives ports other := by
  unfold receives
  rw [getElem?_modify]
  cases ports[other]? <;> (split <;> rfl)

/-- A poll posts no receive, and it takes nothing from the network. -/
theorem poll_frame (parallel : Parallel) (count : Nat) :
    (parallel.poll count).sending = parallel.sending ∧
      (parallel.poll count).inFlight = parallel.inFlight ∧
      (parallel.poll count).ports.map posted = parallel.ports.map posted := by
  have taken : ∀ batch : List Delivery,
      (parallel.ports.modify 0 fun port => port.updateRequests (-batch.length)).map posted =
        parallel.ports.map posted :=
    fun batch => posted_modify (fun port => port.updateRequests (-batch.length)) (fun _ => rfl) _ _
  unfold poll
  dsimp only
  split
  · exact ⟨rfl, rfl, rfl⟩
  · exact ⟨rfl, rfl, rfl⟩
  · split <;> exact ⟨rfl, rfl, rfl⟩
  · split
    · exact ⟨rfl, rfl, rfl⟩
    · dsimp only [pollReplies]
      split
      · exact ⟨rfl, rfl, (posted_redistribute _).trans (taken _)⟩
      · exact ⟨rfl, rfl, taken _⟩
  · split
    · exact ⟨rfl, rfl, rfl⟩
    · unfold pollSingle
      split
      · exact ⟨rfl, rfl, rfl⟩
      · exact ⟨rfl, rfl, taken _⟩
  · unfold drain
    split
    · exact ⟨rfl, rfl, rfl⟩
    · exact ⟨rfl, rfl, taken _⟩
  · exact ⟨rfl, rfl, rfl⟩

/-- What is left to happen, where a completion or a reply has still to be polled. -/
def work (parallel : Parallel) : Nat :=
  2 * parallel.sending.length + parallel.sendCq.length + 2 * parallel.inFlight.length +
    parallel.recvCq.length

theorem work_poll_lt (waits : parallel.stage.waits = true) (count : Nat)
    (change : parallel.poll count ≠ parallel) : (parallel.poll count).work < parallel.work := by
  cases stage : parallel.stage <;> rw [stage] at waits
  case sending expected =>
    rcases poll_sending stage count with same | ⟨batch, rest, some, queue, changed⟩
    · exact absurd same change
    · have positive : 0 < batch.length := length_pos_iff.mpr some
      rw [changed]
      dsimp only [work]
      rw [queue, length_append]
      omega
  case receiving expected correct replies =>
    rcases poll_receiving stage count with same | ⟨batch, rest, some, queue, changed⟩
    · exact absurd same change
    · have positive : 0 < batch.length := length_pos_iff.mpr some
      rw [changed]
      dsimp only
      split <;> dsimp only [work] <;> rw [queue, length_append] <;> omega
  all_goals cases waits

theorem work_advance_lt (waits : parallel.stage.waits = true) (event : Event) :
    parallel.advance event ≠ parallel → (parallel.advance event).work < parallel.work := by
  refine advance_rule (fun after => after ≠ parallel → after.work < parallel.work)
    (fun change => absurd rfl change) (fun ticket sending perm _ => ?_)
    (fun delivery inFlight perm _ _ => ?_) (fun count => work_poll_lt waits count) event
  all_goals
    have length := perm.length_eq
    rw [length_cons] at length
    dsimp only [work]
    rw [length_append, length_singleton]
    omega

end Parallel

end RFaaS.Client
