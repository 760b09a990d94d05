/-
This file is about two connections whose receives are posted when they are set
up and are then counted by nobody: the connection of the executor manager to the
resource manager, on which leases arrive, and the connection of a client to the
resource manager, on which the answers to its requests arrive.

`RecvWorkCompletions::refill` posts receives when its count `_requests` is low,
and the count goes down where a loop lowers it. `poll_res_mgr` polls through
`RecvWorkCompletions::poll`, which does. The sleeping loop of the executor
manager polls the same completion queue through a `Poller` of its own, and
`client::lease` through `Connection::poll_wc`, which both do not. There the
receives that were posted at first are all there ever are: as many leases as the
receive buffer has places reach the executor manager, and as many requests of a
client are answered.

What a loop does to the count is a parameter of the endpoint of `Slots`
(`ReceivePolicy`), and what follows from doing nothing is proved once for both
connections (`Spent`).
-/

import RFaaS.ExecutorManager
import RFaaS.Slots

namespace RFaaS

open Transition RecvWorkCompletions List

/-! ### Counting receives -/

/-- How a loop counts the receives of a connection: how many completions it polls at once, and
what polling and handling them does to the object. -/
structure ReceivePolicy where
  window : Nat
  polled : RecvWorkCompletions → Nat → RecvWorkCompletions
  handled : RecvWorkCompletions → List Receive × RecvWorkCompletions

namespace ReceivePolicy

/-- The handlers of `Slots`, which count one receive down and refill. -/
def credited : ReceivePolicy where
  window := Endpoint.pollSize
  polled queue _ := queue
  handled queue := ((queue.updateRequests (-1)).refill accepting).2

/-- `poll_res_mgr`: `RecvWorkCompletions::poll` takes up to 32 completions and counts them down,
and `_handle_res_mgr_message` refills. -/
def pollResMgr : ReceivePolicy where
  window := 32
  polled queue count := queue.updateRequests (-count)
  handled queue := (queue.refill accepting).2

/-- `_process_events_sleep`: `Poller::poll` leaves the count alone, and
`_handle_res_mgr_message` refills. -/
def processEventsSleep : ReceivePolicy where
  window := Endpoint.pollSize
  polled queue _ := queue
  handled queue := (queue.refill accepting).2

/-- Neither polling nor handling a message changes the object. -/
structure Idle (policy : ReceivePolicy) (queue : RecvWorkCompletions) : Prop where
  polled : ∀ count, policy.polled queue count = queue
  handled : policy.handled queue = ([], queue)

/-- The sleeping loop refills nothing while the count is not below the threshold. -/
theorem processEventsSleep_idle {queue : RecvWorkCompletions}
    (enough : queue.refillThreshold ≤ queue.requests) : processEventsSleep.Idle queue where
  polled _ := rfl
  handled := by
    simp only [processEventsSleep, refill, if_neg (not_lt.mpr enough)]

end ReceivePolicy

/-- The two loops in which the executor manager receives leases. -/
inductive LeaseLoop
  | pollResMgr
  | processEventsSleep
  deriving DecidableEq

def LeaseLoop.policy : LeaseLoop → ReceivePolicy
  | .pollResMgr => .pollResMgr
  | .processEventsSleep => .processEventsSleep

namespace Endpoint

variable {Message : Type} {policy : ReceivePolicy} {stride : Nat} {endpoint : Endpoint Message}

/-- One event on a connection whose receives are counted by a policy. -/
def stepUnder (policy : ReceivePolicy) (stride : Nat) (endpoint : Endpoint Message) :
    EndpointEvent Message → Endpoint Message
  | .arrive message => endpoint.step stride (.arrive message)
  | .poll count =>
    let taken := endpoint.completions.take (min count policy.window)
    { endpoint with
      queue := policy.polled endpoint.queue taken.length
      completions := endpoint.completions.drop (min count policy.window)
      polled := endpoint.polled ++ taken }
  | .handle =>
    match endpoint.polled with
    | [] => endpoint
    | completion :: rest =>
      let (posted, queue) := policy.handled endpoint.queue
      { endpoint with
        queue := queue
        posted := endpoint.posted ++ posted
        polled := rest
        handled := endpoint.handled ++
          [(completion.announced, endpoint.memory (completion.wrId * stride))] }

/-- The endpoints of `Slots` are those whose handlers count for themselves. -/
theorem stepUnder_credited (endpoint : Endpoint Message) (event : EndpointEvent Message) :
    endpoint.stepUnder .credited stride event = endpoint.step stride event := by
  cases event <;> rfl

/-- A message uses up the oldest receive, or stays with its sender. -/
theorem arrive_cases (stride : Nat) (endpoint : Endpoint Message) (message : Message) :
    (endpoint.posted = [] ∧ endpoint.step stride (.arrive message) = endpoint) ∨
    ∃ receive rest memory, endpoint.posted = receive :: rest ∧
      (∀ element ∈ receive.sgList.head?, memory element.offset = some message) ∧
      endpoint.step stride (.arrive message) =
        { endpoint with
          posted := rest
          memory := memory
          completions := endpoint.completions ++ [⟨receive.wrId, message⟩] } := by
  cases posted : endpoint.posted with
  | nil => exact Or.inl ⟨rfl, by simp only [step, posted]⟩
  | cons receive rest =>
    cases elements : receive.sgList with
    | nil =>
      refine Or.inr ⟨receive, rest, endpoint.memory, rfl, fun element head => ?_,
        by simp only [step, posted, elements]⟩
      rw [elements] at head
      cases head
    | cons first others =>
      refine Or.inr ⟨receive, rest, Function.update endpoint.memory first.offset (some message),
        rfl, fun element head => ?_, by simp only [step, posted, elements]⟩
      rw [elements] at head
      cases head
      exact Function.update_self _ _ _

/-- The receives that are posted when a connection is set up. -/
theorem open_posted (size : Nat) (buffer : Buffer) (stride : Option Nat) :
    (open_ Message size buffer stride).posted =
      (batchIds size).map
        (backedReceive buffer (stride.getD buffer.byteSize)) := by
  rcases Nat.eq_zero_or_pos size with rfl | positive
  · rfl
  · exact (initialize_backed positive buffer stride).1

theorem open_posted_length (size : Nat) (buffer : Buffer) (stride : Option Nat) :
    (open_ Message size buffer stride).posted.length = size := by
  rw [open_posted, length_map, length_batchIds]

/-- When a connection is set up, the count is the number of posted receives. -/
theorem open_queue (size : Nat) (buffer : Buffer) (stride : Option Nat) :
    (open_ Message size buffer stride).queue.Sized size ∧
      (open_ Message size buffer stride).queue.requests = size ∧
      (open_ Message size buffer stride).queue.refillThreshold ≤ size := by
  obtain ⟨sized, counts⟩ := Port.open_spec size buffer stride
  have posted : (Port.open_ size buffer stride).posted = size :=
    @open_posted_length Message size buffer stride
  have requests := counts.requests
  rw [posted] at requests
  exact ⟨sized, requests.trans (Int.add_zero _),
    sized.refillThreshold.le.trans (Int.min_le_left _ _)⟩

/-- A message is handled where one has been polled, and nowhere else. -/
theorem handled_cases (policy : ReceivePolicy) (stride : Nat) (endpoint : Endpoint Message)
    (event : EndpointEvent Message) :
    ((event = .handle → endpoint.polled = []) ∧
      (endpoint.stepUnder policy stride event).handled.length = endpoint.handled.length) ∨
    event = .handle ∧ endpoint.polled ≠ [] ∧
      (endpoint.stepUnder policy stride event).handled.length = endpoint.handled.length + 1 := by
  cases event with
  | arrive message =>
    refine Or.inl ⟨nofun, ?_⟩
    rcases endpoint.arrive_cases stride message with ⟨_, same⟩ | ⟨_, _, _, _, _, same⟩ <;>
      rw [stepUnder, same]
  | poll count => exact Or.inl ⟨nofun, rfl⟩
  | handle =>
    cases polled : endpoint.polled with
    | nil => exact Or.inl ⟨fun _ => rfl, by simp only [stepUnder, polled]⟩
    | cons completion rest =>
      refine Or.inr ⟨rfl, cons_ne_nil _ _, ?_⟩
      simp only [stepUnder, polled, length_append, length_singleton]

/-! ### Receives that nobody counts -/

/-- Of the receives that were posted at first, every message has used up one, and the object is
as it was. -/
structure Spent (queue : RecvWorkCompletions) (size : Nat) (endpoint : Endpoint Message) :
    Prop where
  queue : endpoint.queue = queue
  amount : endpoint.posted.length + endpoint.pending.length + endpoint.handled.length = size

theorem Spent.step {queue : RecvWorkCompletions} {size : Nat} (idle : policy.Idle queue)
    (spent : endpoint.Spent queue size) (event : EndpointEvent Message) :
    (endpoint.stepUnder policy stride event).Spent queue size := by
  have amount := spent.amount
  rw [pending, length_append] at amount
  cases event with
  | arrive message =>
    rcases endpoint.arrive_cases stride message with
      ⟨_, same⟩ | ⟨receive, rest, memory, posted, _, same⟩
    · rw [stepUnder, same]
      exact spent
    · rw [posted, length_cons] at amount
      rw [stepUnder, same]
      refine ⟨spent.queue, ?_⟩
      simp only [pending, length_append, length_singleton]
      omega
  | poll count =>
    refine ⟨?_, ?_⟩
    · simp only [stepUnder, spent.queue, idle.polled]
    · simp only [stepUnder, pending, append_assoc, take_append_drop, length_append]
      omega
  | handle =>
    cases polled : endpoint.polled with
    | nil =>
      simp only [stepUnder, polled]
      exact spent
    | cons completion rest =>
      rw [polled, length_cons] at amount
      simp only [stepUnder, polled, spent.queue, idle.handled, append_nil]
      refine ⟨rfl, ?_⟩
      simp only [pending, length_append, length_singleton]
      omega

theorem Spent.run {queue : RecvWorkCompletions} {size : Nat} (idle : policy.Idle queue)
    (spent : endpoint.Spent queue size) (events : List (EndpointEvent Message)) :
    (run (stepUnder policy stride) endpoint events).Spent queue size := by
  have preserved : ∀ (endpoint : Endpoint Message) event, endpoint.Spent queue size →
      (endpoint.stepUnder policy stride event).Spent queue size :=
    fun _ event kept => kept.step idle event
  exact run_stable preserved events spent

/-! ### Leases -/

/-- The count is the number of receives that are posted, with those whose messages have not been
polled, and it is not zero. -/
structure Replenished (endpoint : Endpoint Message) : Prop where
  counted : endpoint.queue.requests = endpoint.posted.length + endpoint.completions.length
  left : 1 ≤ endpoint.queue.requests

/-- After a message was handled, the next one can be received. -/
def Replenishes (policy : ReceivePolicy) (stride : Nat) (endpoint : Endpoint Message) :
    EndpointEvent Message → Prop
  | .handle => endpoint.polled ≠ [] → (endpoint.stepUnder policy stride .handle).Replenished
  | _ => True

/-- What `poll_res_mgr` keeps. -/
structure Counted (size : Nat) (endpoint : Endpoint Message) : Prop where
  sized : endpoint.queue.Sized size
  counted : endpoint.queue.requests = endpoint.posted.length + endpoint.completions.length
  most : endpoint.queue.requests ≤ size
  used : endpoint.pending ≠ [] → 0 < size

theorem Counted.step {size : Nat} (counted : endpoint.Counted size)
    (event : EndpointEvent Message) :
    (endpoint.stepUnder .pollResMgr stride event).Counted size := by
  have requests := counted.counted
  have most := counted.most
  cases event with
  | arrive message =>
    rcases endpoint.arrive_cases stride message with
      ⟨_, same⟩ | ⟨receive, rest, memory, posted, _, same⟩
    · rw [stepUnder, same]
      exact counted
    · rw [posted, length_cons] at requests
      rw [stepUnder, same]
      refine ⟨counted.sized, ?_, most, fun _ => by omega⟩
      simp only [length_append, length_singleton]
      omega
  | poll count =>
    refine ⟨counted.sized.updateRequests _, ?_, ?_, fun arrived => counted.used ?_⟩
    · simp only [stepUnder, ReceivePolicy.pollResMgr, updateRequests,
        length_take, length_drop]
      omega
    · simp only [stepUnder, ReceivePolicy.pollResMgr, updateRequests]
      omega
    · simpa only [stepUnder, pending, append_assoc, take_append_drop] using arrived
  | handle =>
    cases polled : endpoint.polled with
    | nil =>
      simp only [stepUnder, polled]
      exact counted
    | cons completion rest =>
      obtain ⟨sized, filled, bound, _⟩ := counted.sized.refill
      simp only [stepUnder, polled, ReceivePolicy.pollResMgr]
      refine ⟨sized, ?_, ?_, fun arrived => counted.used ?_⟩
      · simp only [length_append]
        omega
      · exact bound.trans (max_le le_rfl most)
      · rw [pending, polled]
        exact cons_ne_nil _ _

theorem Counted.replenishes {size : Nat} (counted : endpoint.Counted size)
    (event : EndpointEvent Message) : endpoint.Replenishes .pollResMgr stride event := by
  cases event with
  | handle =>
    intro waiting
    refine ⟨(counted.step .handle).counted, ?_⟩
    have positive : 0 < size :=
      counted.used fun none => waiting (append_eq_nil_iff.mp none).1
    obtain ⟨completion, rest, polled⟩ := exists_cons_of_ne_nil waiting
    obtain ⟨_, _, _, least⟩ := counted.sized.refill
    simp only [stepUnder, polled, ReceivePolicy.pollResMgr]
    refine le_trans ?_ least
    unfold defaultRefillThreshold
    omega
  | _ => trivial

/-- The connection to the resource manager after `ResourceManagerConnection::connect`, with a
receive buffer of `size` leases. -/
def resMgrConnection (size region : Nat) : Endpoint ExecutorManager.Lease :=
  open_ ExecutorManager.Lease size (Buffer.allocate size 16 0 region).registerMemory none

theorem resMgrConnection_queue (size region : Nat) :
    (resMgrConnection size region).queue.Sized size ∧
      (resMgrConnection size region).queue.requests = size ∧
      (resMgrConnection size region).queue.refillThreshold ≤ size :=
  open_queue size _ none

theorem resMgrConnection_spent (size region : Nat) :
    (resMgrConnection size region).Spent (resMgrConnection size region).queue size where
  queue := rfl
  amount := open_posted_length size _ none

theorem resMgrConnection_idle (size region : Nat) :
    ReceivePolicy.processEventsSleep.Idle (resMgrConnection size region).queue := by
  obtain ⟨_, requests, threshold⟩ := resMgrConnection_queue size region
  exact ReceivePolicy.processEventsSleep_idle (threshold.trans_eq requests.symm)

theorem resMgrConnection_counted (size region : Nat) :
    (resMgrConnection size region).Counted size := by
  obtain ⟨sized, requests, _⟩ := resMgrConnection_queue size region
  refine ⟨sized, ?_, requests.le, fun arrived => absurd rfl arrived⟩
  rw [requests, resMgrConnection, open_posted_length]
  exact (Int.add_zero _).symm

/-- `poll_res_mgr` replenishes after every message. -/
theorem along_replenishes_pollResMgr (size region : Nat)
    (events : List (EndpointEvent ExecutorManager.Lease)) :
    Along (stepUnder .pollResMgr 16) (Replenishes .pollResMgr 16)
      (resMgrConnection size region) events := by
  have preserved : ∀ (endpoint : Endpoint ExecutorManager.Lease) event, endpoint.Counted size →
      True → (stepUnder .pollResMgr 16 endpoint event).Counted size :=
    fun _ event counted _ => counted.step event
  exact Along.of_invariant preserved
    (fun _ event counted _ => counted.replenishes event) (resMgrConnection_counted size region)
    (along_of_forall (fun _ _ _ => trivial) _)

/-- Where nobody counts, the receives are not replenished after any message. -/
theorem Spent.not_replenishes {queue : RecvWorkCompletions} {size : Nat}
    (requests : queue.requests = size) (idle : policy.Idle queue)
    (spent : endpoint.Spent queue size) (waiting : endpoint.polled ≠ []) :
    ¬ endpoint.Replenishes policy stride .handle := by
  intro replenishes
  have after := @Spent.step _ policy stride endpoint queue size idle spent .handle
  have counted := (replenishes waiting).counted
  have amount := after.amount
  have handled : (endpoint.stepUnder policy stride .handle).handled.length =
      endpoint.handled.length + 1 := by
    rcases handled_cases policy stride endpoint .handle with ⟨none, _⟩ | ⟨_, _, more⟩
    · exact absurd (none rfl) waiting
    · exact more
  rw [after.queue, requests] at counted
  rw [pending, length_append] at amount
  omega

/-- No message has been polled when a handler would run. -/
def Unhandled (endpoint : Endpoint Message) : EndpointEvent Message → Prop
  | .handle => endpoint.polled = []
  | _ => True

/-- Where nobody counts, the receives are replenished only along runs in which no handler runs. -/
theorem Spent.along_replenishes_iff {queue : RecvWorkCompletions} {size : Nat}
    (requests : queue.requests = size) (idle : policy.Idle queue)
    (spent : endpoint.Spent queue size) (events : List (EndpointEvent Message)) :
    Along (stepUnder policy stride) (Replenishes policy stride) endpoint events ↔
      Along (stepUnder policy stride) Unhandled endpoint events := by
  have preserved : ∀ (endpoint : Endpoint Message) event, endpoint.Spent queue size →
      endpoint.Unhandled event → (endpoint.stepUnder policy stride event).Spent queue size :=
    fun _ event kept _ => kept.step idle event
  refine along_iff_along preserved (fun endpoint event kept => ?_) spent
  cases event with
  | handle =>
    by_cases waiting : endpoint.polled = []
    · exact iff_of_true (fun polled => absurd waiting polled) waiting
    · exact iff_of_false (kept.not_replenishes requests idle waiting) waiting
  | _ => exact Iff.rfl

/-- Of the two loops, `poll_res_mgr` keeps the receives replenished in every run, and the sleeping
loop only in runs in which no handler finds a message. -/
theorem leases_receivable_iff (loop : LeaseLoop) (size region : Nat)
    (events : List (EndpointEvent ExecutorManager.Lease)) :
    Along (stepUnder loop.policy 16) (Replenishes loop.policy 16)
        (resMgrConnection size region) events ↔
      loop = .pollResMgr ∨
        Along (stepUnder loop.policy 16) Unhandled (resMgrConnection size region) events := by
  cases loop with
  | pollResMgr =>
    exact iff_of_true (along_replenishes_pollResMgr size region events) (Or.inl rfl)
  | processEventsSleep =>
    rw [or_iff_right nofun]
    exact (resMgrConnection_spent size region).along_replenishes_iff
      (resMgrConnection_queue size region).2.1 (resMgrConnection_idle size region) events

/-- In the sleeping loop, no more leases are handled than the receive buffer has places. -/
theorem leases_handled_le (size region : Nat)
    (events : List (EndpointEvent ExecutorManager.Lease)) :
    (run (stepUnder .processEventsSleep 16) (resMgrConnection size region)
      events).handled.length ≤ size := by
  have spent := @Spent.run _ _ 16 _ _ _ (resMgrConnection_idle size region)
    (resMgrConnection_spent size region) events
  exact (Nat.le_add_left _ _).trans_eq spent.amount

/-- A receive buffer of two places, in the sleeping loop. After the first lease the count is two
and one receive is posted; the third lease is never received. -/
theorem third_lease_not_received :
    let events : List (EndpointEvent ExecutorManager.Lease) :=
      [.arrive ⟨0, 1, 512⟩, .poll 64, .handle, .arrive ⟨1, 1, 512⟩, .poll 64, .handle,
        .arrive ⟨2, 1, 512⟩, .poll 64, .handle]
    let last := run (stepUnder .processEventsSleep 16) (resMgrConnection 2 0) events
    ¬ Along (stepUnder .processEventsSleep 16) (Replenishes .processEventsSleep 16)
        (resMgrConnection 2 0) events ∧
      last.queue.requests = 2 ∧ last.posted = [] ∧
      last.handled.map Prod.snd = [some ⟨0, 1, 512⟩, some ⟨1, 1, 512⟩] := by
  refine ⟨fun along => ?_, by decide, by decide, by decide⟩
  exact absurd (along.2.2.1 (by decide)).counted (by decide)

end Endpoint

/-! ### Requests of a client -/

/-- What the resource manager sends for a request: the immediate value says whether a lease was
granted. -/
structure LeaseAnswer where
  executors : Nat
  response : LeaseResponse
  deriving DecidableEq

/-- `rfaas::executor`, as `client::lease` constructs it. -/
structure LeasedExecutor where
  address : String
  port : Int
  cores : Int
  memory : Int
  leaseId : Int32
  deriving DecidableEq

/-- How a call of `client::lease` ends: it waits for ever, or it returns. -/
inductive LeaseOutcome
  | blocked
  | returned (executor : Option LeasedExecutor)
  deriving DecidableEq

/-- A call of `client::lease`, with the answer that the resource manager gives to it. -/
structure LeaseCall where
  cores : Int
  memory : Int
  answer : LeaseAnswer

/-- The executor that a call returns when it reads `answer`. -/
def LeaseCall.executor (call : LeaseCall) (answer : LeaseAnswer) : LeasedExecutor where
  address := answer.response.address
  port := answer.response.port
  cores := call.cores
  memory := call.memory
  leaseId := answer.response.leaseId

namespace LeaseClient

/-- `resource_mgr_connection` after `connect`. -/
def resourceMgrConnection (size region : Nat) : Endpoint LeaseAnswer :=
  Endpoint.open_ LeaseAnswer size (Buffer.allocate size 24 0 region).registerMemory none

/-- `client::lease` of a connected client. The answer needs a posted receive to arrive; then
`poll_wc` returns up to 32 completions, of which the first one is looked at. -/
def lease (connection : Endpoint LeaseAnswer) (call : LeaseCall) :
    LeaseOutcome × Endpoint LeaseAnswer :=
  let answered := connection.step 24 (.arrive call.answer)
  match answered.completions.take 32 with
  | [] => (.blocked, answered)
  | completion :: _ =>
    let response := answered.memory (completion.wrId * 24)
    (.returned (if completion.announced.executors = 0 then none else response.map call.executor),
      { answered with
        completions := answered.completions.drop 32
        handled := answered.handled ++ [(completion.announced, response)] })

def step (connection : Endpoint LeaseAnswer) (call : LeaseCall) : Endpoint LeaseAnswer :=
  (lease connection call).2

/-- A receive is posted for the answer, the slot that the call reads holds the answer, and the
call returns what it says. -/
structure Takes (connection : Endpoint LeaseAnswer) (call : LeaseCall) : Prop where
  posted : connection.posted ≠ []
  reads : (lease connection call).2.handled =
    connection.handled ++ [(call.answer, some call.answer)]
  returns : (lease connection call).1 = .returned
    (if call.answer.executors = 0 then none else some (call.executor call.answer))

/-- What holds between two calls: all completions have been polled, and the posted receives are
those on the receive buffer. -/
structure Ready (buffer : Buffer) (connection : Endpoint LeaseAnswer) : Prop where
  polled : connection.completions = []
  backed : ∀ receive ∈ connection.posted,
    receive = backedReceive buffer 24 receive.wrId

/-- A call for which a receive is posted. -/
theorem Ready.takes {buffer : Buffer} {connection : Endpoint LeaseAnswer}
    (ready : Ready buffer connection) {receive : Receive} {rest : List Receive}
    (posted : connection.posted = receive :: rest) (call : LeaseCall) :
    Takes connection call ∧ Ready buffer (step connection call) ∧
      (step connection call).posted = rest := by
  have inside : ∀ other ∈ rest, other ∈ connection.posted := by
    intro other member
    rw [posted]
    exact mem_cons_of_mem _ member
  have shape := ready.backed receive (by rw [posted]; exact mem_cons_self)
  rcases connection.arrive_cases 24 call.answer with
    ⟨none, _⟩ | ⟨oldest, behind, memory, split, stored, answered⟩
  · rw [posted] at none
    cases none
  · rw [posted] at split
    cases split
    have slot : memory (receive.wrId * 24) = some call.answer := by
      refine stored (buffer.sge 24 (receive.wrId * 24)) ?_
      rw [shape]
      rfl
    have returned : lease connection call = (.returned
        (if call.answer.executors = 0 then none else some (call.executor call.answer)),
        { connection with
          posted := rest
          memory := memory
          completions := []
          handled := connection.handled ++ [(call.answer, some call.answer)] }) := by
      simp [lease, answered, ready.polled, slot]
    refine ⟨⟨?_, ?_, ?_⟩, ⟨?_, ?_⟩, ?_⟩
    · rw [posted]
      exact cons_ne_nil _ _
    · rw [returned]
    · rw [returned]
    · rw [step, returned]
    · rw [step, returned]
      exact fun other member => ready.backed other (inside other member)
    · rw [step, returned]

/-- Calls are answered as long as receives are posted. -/
theorem Ready.along_takes_iff {buffer : Buffer} {connection : Endpoint LeaseAnswer}
    (ready : Ready buffer connection) (calls : List LeaseCall) :
    Along step Takes connection calls ↔ calls.length ≤ connection.posted.length := by
  induction calls generalizing connection with
  | nil => exact iff_of_true trivial (Nat.zero_le _)
  | cons call rest inductionHypothesis =>
    cases posted : connection.posted with
    | nil =>
      exact iff_of_false (fun along => along.1.posted posted) (Nat.not_succ_le_zero _)
    | cons receive behind =>
      obtain ⟨takes, next, left⟩ := ready.takes posted call
      have later := inductionHypothesis next
      rw [left] at later
      rw [length_cons, length_cons, Nat.succ_le_succ_iff, ← later]
      exact ⟨And.right, fun along => ⟨takes, along⟩⟩

theorem resourceMgrConnection_ready (size region : Nat) :
    Ready (Buffer.allocate size 24 0 region).registerMemory
      (resourceMgrConnection size region) := by
  refine ⟨rfl, fun receive member => ?_⟩
  rw [resourceMgrConnection, Endpoint.open_posted] at member
  obtain ⟨index, _, rfl⟩ := mem_map.mp member
  rfl

/-- The answers to a number of calls are all taken exactly if the receive buffer has as many
places. -/
theorem lease_answers_taken_iff (size region : Nat) (calls : List LeaseCall) :
    Along step Takes (resourceMgrConnection size region) calls ↔
      calls.length ≤ size := by
  rw [(resourceMgrConnection_ready size region).along_takes_iff, resourceMgrConnection,
    Endpoint.open_posted_length]

/-- A receive buffer of two places: the third call waits for ever. -/
theorem third_call_blocked :
    let call : LeaseCall := ⟨1, 512, ⟨1, ⟨0, 10000, "10.0.0.1"⟩⟩⟩
    let last := run step (resourceMgrConnection 2 0) [call, call]
    ¬ Along step Takes (resourceMgrConnection 2 0) [call, call, call] ∧
      last.posted = [] ∧ last.queue.requests = 2 ∧ (lease last call).1 = .blocked := by
  refine ⟨fun along => along.2.2.1.posted (by decide), by decide, by decide, by decide⟩

end LeaseClient

end RFaaS
