/-
This file is about the receive credits of a client. Its connections share one
completion queue, but each of them counts the receives that it has posted on its
own queue pair. `poll_queue_once2` takes the replies of all connections from the
queue; it subtracts all of them from the count of the connection it was called
for, and tops up only that one.

The counts stay right exactly as long as every call finds only replies of its
own connection. Otherwise one connection posts receives that nothing has used
up, and another one runs short of them.
-/

import RFaaS.Callbacks
import RFaaS.RecvQueue

namespace RFaaS.Client

open Transition List

/-- A tagged invocation goes out on the connection of its tag, and its reply comes back on the
same queue pair. -/
def Answer.on (answer : Answer) (cid : Nat) : Bool :=
  match answer.invocation.listener with
  | .callback2 _ _ para => para == cid
  | _ => false

/-- A call of `poll_queue_once2` that has not returned, with the completions it has polled. -/
structure Poll where
  cid : Nat
  taken : List Answer

/-- A client with the receiving ends of its connections. -/
structure SharedQueue where
  loop : CallbackLoop
  ports : List Port
  polling : Option Poll

namespace SharedQueue

inductive Event
  | call (fname : String) (input : List UInt8) (out : RemoteBuffer) (para callback : Nat)
      (size : Int)
  | answer (index : Nat) (data : List UInt8)
  | poll (cid : Nat)
  | walk
  /-- The refill at the end of `poll_queue_once2`. -/
  | finish

/-- After `allocate`. Every connection has posted its receives; the one for the address of the
worker is used up. The posts are taken to be accepted. -/
def start (size : Nat) (maxInlineData : Int) (symbols : List String)
    (connections : List RemoteBuffer) : SharedQueue where
  loop := CallbackLoop.start maxInlineData symbols connections
  ports := connections.map fun _ => Port.filled size
  polling := none

/-- A reply needs a receive that is posted on its queue pair. -/
def ready (shared : SharedQueue) (cid : Nat) : Bool :=
  (shared.ports[cid]?).any fun port => port.posted != 0

/-- A reply uses up a receive of its own connection. -/
def answer (shared : SharedQueue) (index : Nat) (data : List UInt8) : SharedQueue :=
  match shared.loop.inFlight[index]? with
  | none => shared
  | some invocation =>
    match invocation.listener, invocation.writes with
    | .callback2 _ _ para, _ :: _ =>
      if shared.ready para then
        { shared with
          loop := shared.loop.answer index data
          ports := shared.ports.modify para Port.arrive }
      else shared
    | _, _ => shared

/-- `receive_wcs().poll(false)` on the connection `cid`. -/
def poll (shared : SharedQueue) (cid : Nat) : SharedQueue :=
  if shared.polling.isNone ∧ shared.loop.batch = [] ∧ cid < shared.ports.length then
    let taken := shared.loop.recvCq.take wcSize
    { loop := shared.loop.poll cid
      ports := shared.ports.modify cid fun port => port.updateRequests (-taken.length)
      polling := some ⟨cid, taken⟩ }
  else shared

/-- `receive_wcs().refill()` on the connection that was polled, after all its completions. -/
def finish (shared : SharedQueue) : SharedQueue :=
  match shared.polling with
  | none => shared
  | some poll =>
    if shared.loop.batch = [] then
      { shared with ports := shared.ports.modify poll.cid Port.refill, polling := none }
    else shared

/-- `async_callback` refills every connection, unless it does not know the function. -/
def call (shared : SharedQueue) (fname : String) (call : Call) : SharedQueue :=
  if shared.loop.executor.findFunction fname = none then shared
  else
    { shared with
      loop := shared.loop.makeCall call
      ports := shared.ports.map Port.refill }

def step (shared : SharedQueue) : Event → SharedQueue
  | .call fname input out para callback size =>
    shared.call fname (.asyncCallback2 fname input out para callback size)
  | .answer index data => shared.answer index data
  | .poll cid => shared.poll cid
  | .walk => { shared with loop := shared.loop.walk }
  | .finish => shared.finish

/-- The replies of a connection in the completion queue. Their receives are still counted. -/
def unpolled (shared : SharedQueue) (cid : Nat) : Nat :=
  shared.loop.recvCq.countP fun answer => answer.on cid

/-- Between two calls every connection counts the receives that are outstanding on its own queue
pair, and these are not more than its receive buffer has room for. -/
def Attributed (size : Nat) (shared : SharedQueue) : Prop :=
  shared.polling.isNone → ∀ (cid : Nat) (port : Port), shared.ports[cid]? = some port →
    port.queue.requests = port.posted + shared.unpolled cid ∧ port.queue.requests ≤ size

/-- A call of `poll_queue_once2` returns only after it has polled replies of its own connection,
and no others. -/
def Own (shared : SharedQueue) : Event → Prop
  | .finish => shared.loop.batch = [] → ∀ poll, shared.polling = some poll →
    ∀ answer ∈ poll.taken, answer.on poll.cid
  | _ => True

/-! ### The invariant -/

/-- What a call has subtracted too little from the count of `cid`. -/
def owed (poll : Poll) (cid : Nat) : Int :=
  (poll.taken.countP fun answer => answer.on cid) -
    if poll.cid = cid then (poll.taken.length : Int) else 0

/-- What the call in progress has subtracted too little. -/
def debt (shared : SharedQueue) (cid : Nat) : Int :=
  shared.polling.elim 0 fun poll => owed poll cid

/-- The counts are right, up to the call in progress. -/
def Balanced (shared : SharedQueue) : Prop :=
  ∀ (cid : Nat) (port : Port), shared.ports[cid]? = some port →
    port.queue.requests = port.posted + shared.unpolled cid + shared.debt cid

/-- The count of a connection never passes the size of its receive buffer. -/
def Fits (size : Nat) (port : Port) : Prop :=
  port.queue.Sized size ∧ port.queue.requests ≤ size

/-- What holds all along a run, whatever the polls find. -/
structure Kept (size : Nat) (shared : SharedQueue) : Prop where
  fits : ∀ port ∈ shared.ports, Fits size port
  known : ∀ poll, shared.polling = some poll → poll.cid < shared.ports.length

variable {size : Nat} {shared : SharedQueue}

theorem debt_idle (idle : shared.polling = none) (cid : Nat) : shared.debt cid = 0 := by
  rw [debt, idle]
  rfl

theorem Balanced.attributed (balanced : shared.Balanced) (kept : shared.Kept size) :
    shared.Attributed size := by
  intro idle cid port here
  have count := balanced cid port here
  rw [debt_idle (Option.isNone_iff_eq_none.mp idle), Int.add_zero] at count
  exact ⟨count, (kept.fits port (mem_of_getElem? here)).2⟩

theorem Attributed.balanced (idle : shared.polling = none) (attributed : shared.Attributed size) :
    shared.Balanced := by
  intro cid port here
  rw [debt_idle idle, Int.add_zero]
  exact (attributed (Option.isNone_iff_eq_none.mpr idle) cid port here).1

/-! ### Changing one connection -/

/-- A refill keeps the bound, and the difference between the count and the receives. -/
theorem Fits.refill {port : Port} (fits : Fits size port) :
    Fits size port.refill ∧
      port.refill.queue.requests - port.refill.posted = port.queue.requests - port.posted := by
  obtain ⟨sized, same, most, _⟩ := Port.refill_spec fits.1
  refine ⟨⟨sized, Int.le_trans most (Int.max_le.mpr ⟨Int.le_refl _, fits.2⟩)⟩, ?_⟩
  omega

theorem Fits.poll {port : Port} (fits : Fits size port) (count : Nat) :
    Fits size (port.updateRequests (-count)) := by
  refine ⟨fits.1.updateRequests _, ?_⟩
  have bound := fits.2
  show port.queue.requests + -count ≤ size
  omega

theorem fits_modify {ports : List Port} {change : Port → Port}
    (fits : ∀ port ∈ ports, Fits size port)
    (changed : ∀ port, Fits size port → Fits size (change port)) (cid : Nat) :
    ∀ port ∈ ports.modify cid change, Fits size port :=
  Table.forall_mem_modify fits fun port _ => changed port

/-! ### The steps -/

theorem makeCall_recvCq (loop : CallbackLoop) (call : Call) :
    (loop.makeCall call).recvCq = loop.recvCq := by
  unfold CallbackLoop.makeCall
  split <;> rfl

theorem walk_recvCq (loop : CallbackLoop) : loop.walk.recvCq = loop.recvCq := by
  unfold CallbackLoop.walk
  split
  · rfl
  · split <;> rfl

/-- A reply that is accepted uses up a receive of its connection and waits in the queue. -/
theorem answer_cases (shared : SharedQueue) (index : Nat) (data : List UInt8) :
    shared.answer index data = shared ∨
      ∃ (para : Nat) (reply : Answer),
        (∀ cid, reply.on cid = (para == cid)) ∧ shared.ready para = true ∧
        (shared.answer index data).polling = shared.polling ∧
        (shared.answer index data).loop.recvCq = shared.loop.recvCq ++ [reply] ∧
        (shared.answer index data).ports = shared.ports.modify para Port.arrive := by
  unfold answer
  cases found : shared.loop.inFlight[index]? with
  | none => exact Or.inl rfl
  | some invocation =>
    dsimp only
    cases tag : invocation.listener with
    | callback2 callback out para =>
      cases writes : invocation.writes with
      | nil => exact Or.inl rfl
      | cons write rest =>
        dsimp only
        by_cases ready : shared.ready para = true
        · rw [if_pos ready]
          refine Or.inr ⟨para, ⟨invocation, (CallbackLoop.replyTo write data).completion⟩,
            fun cid => ?_, ready, rfl, ?_, rfl⟩
          · rw [Answer.on, tag]
          · dsimp only [CallbackLoop.answer]
            rw [found]
            dsimp only
            rw [writes]
        · exact Or.inl (if_neg ready)
    | _ => exact Or.inl rfl

theorem Kept.call (kept : shared.Kept size) (fname : String) (call : Call) :
    (shared.call fname call).Kept size := by
  unfold SharedQueue.call
  split
  · exact kept
  · refine ⟨fun port member => ?_, fun poll polling => ?_⟩
    · obtain ⟨before, inside, rfl⟩ := mem_map.mp member
      exact (kept.fits before inside).refill.1
    · rw [length_map]
      exact kept.known poll polling

theorem Balanced.call (balanced : shared.Balanced) (kept : shared.Kept size) (fname : String)
    (call : Call) : (shared.call fname call).Balanced := by
  unfold SharedQueue.call
  split
  · exact balanced
  · intro cid port here
    replace here : (shared.ports.map Port.refill)[cid]? = some port := here
    rw [getElem?_map] at here
    obtain ⟨before, there, rfl⟩ := Option.map_eq_some_iff.mp here
    have count := balanced cid before there
    have same := (kept.fits before (mem_of_getElem? there)).refill.2
    dsimp only [unpolled, debt] at count ⊢
    rw [makeCall_recvCq]
    omega

theorem Kept.answer (kept : shared.Kept size) (index : Nat) (data : List UInt8) :
    (shared.answer index data).Kept size := by
  rcases answer_cases shared index data with same | ⟨para, reply, _, _, polling, _, ports⟩
  · rw [same]
    exact kept
  · refine ⟨?_, ?_⟩
    · rw [ports]
      exact @fits_modify size shared.ports Port.arrive kept.fits (fun _ fits => fits) para
    · rw [polling, ports, length_modify]
      exact kept.known

theorem Balanced.answer (balanced : shared.Balanced) (index : Nat) (data : List UInt8) :
    (shared.answer index data).Balanced := by
  rcases answer_cases shared index data with same | ⟨para, reply, on, ready, polling, queue, ports⟩
  · rw [same]
    exact balanced
  · intro cid port here
    rw [ports] at here
    rw [unpolled, debt, queue, polling, countP_append, countP_singleton, on]
    obtain ⟨before, there, ⟨rfl, rfl⟩ | ⟨other, rfl⟩⟩ := Table.getElem?_modify_cases here
    · have count := balanced para before there
      rw [SharedQueue.ready, there] at ready
      have positive : before.posted ≠ 0 := bne_iff_ne.mp ready
      rw [beq_self_eq_true, if_pos rfl]
      dsimp only [unpolled, debt, Port.arrive] at count ⊢
      omega
    · have count := balanced cid port there
      rw [beq_false_of_ne other, if_neg Bool.false_ne_true]
      exact count

theorem Kept.poll (kept : shared.Kept size) (cid : Nat) : (shared.poll cid).Kept size := by
  unfold SharedQueue.poll
  split
  · rename_i enabled
    refine ⟨fits_modify kept.fits (fun port fits => fits.poll _) cid, fun poll polling => ?_⟩
    obtain rfl := Option.some.inj polling
    rw [length_modify]
    exact enabled.2.2
  · exact kept

/-- A poll moves replies from the queue to the call, and counts them on its connection. -/
theorem Balanced.poll (balanced : shared.Balanced) (cid : Nat) : (shared.poll cid).Balanced := by
  unfold SharedQueue.poll
  split
  · rename_i enabled
    obtain ⟨idle, empty, _⟩ := enabled
    intro other port here
    have queue : (shared.loop.poll cid).recvCq = shared.loop.recvCq.drop wcSize := by
      rw [CallbackLoop.poll, if_pos empty]
    have split : shared.loop.recvCq.countP (fun answer => answer.on other) =
        (shared.loop.recvCq.take wcSize).countP (fun answer => answer.on other) +
          (shared.loop.recvCq.drop wcSize).countP (fun answer => answer.on other) := by
      rw [← countP_append, take_append_drop]
    have before := balanced other
    rw [unpolled, debt_idle (Option.isNone_iff_eq_none.mp idle), split] at before
    dsimp only [unpolled, debt, Option.elim, owed]
    rw [queue]
    obtain ⟨old, there, ⟨same, rfl⟩ | ⟨differs, rfl⟩⟩ := Table.getElem?_modify_cases here
    · have count := before old there
      rw [if_pos same]
      show old.queue.requests + -((shared.loop.recvCq.take wcSize).length : Int) =
        (old.posted : Int) + _ + _
      omega
    · have count := before port there
      rw [if_neg differs]
      omega
  · exact balanced

/-- The end of a call, if there is nothing left to walk. -/
theorem finish_eq {poll : Poll} (polling : shared.polling = some poll)
    (walked : shared.loop.batch = []) :
    shared.finish =
      { shared with ports := shared.ports.modify poll.cid Port.refill, polling := none } := by
  rw [finish, polling]
  exact if_pos walked

theorem Kept.finish (kept : shared.Kept size) : shared.finish.Kept size := by
  unfold SharedQueue.finish
  split
  · exact kept
  · split
    · refine ⟨fits_modify kept.fits (fun port fits => fits.refill.1) _, fun poll polling => ?_⟩
      cases polling
    · exact kept

theorem on_unique {answer : Answer} {first second : Nat} (one : answer.on first = true)
    (two : answer.on second = true) : first = second := by
  unfold Answer.on at one two
  cases tag : answer.invocation.listener with
  | callback2 =>
    rw [tag] at one two
    exact (beq_iff_eq.mp one).symm.trans (beq_iff_eq.mp two)
  | _ => simp only [tag, Bool.false_eq_true] at one

/-- A call counts every reply where it belongs exactly if it has polled only replies of its
connection. -/
theorem owed_eq_zero_iff {poll : Poll} {count : Nat} (known : poll.cid < count) :
    (∀ cid < count, owed poll cid = 0) ↔ ∀ answer ∈ poll.taken, answer.on poll.cid = true := by
  constructor
  · intro balanced
    have zero := balanced poll.cid known
    rw [owed, if_pos rfl] at zero
    exact countP_eq_length.mp (Int.ofNat.inj (Int.sub_eq_zero.mp zero))
  · intro own cid _
    by_cases same : poll.cid = cid
    · rw [owed, if_pos same, ← same, countP_eq_length.mpr own]
      exact Int.sub_self _
    · rw [owed, if_neg same, countP_eq_zero.mpr fun answer member on =>
        same (on_unique (own answer member) on)]
      rfl

theorem refilled_cases {ports : List Port} (fits : ∀ port ∈ ports, Fits size port)
    {target cid : Nat} {port : Port}
    (here : (ports.modify target Port.refill)[cid]? = some port) :
    ∃ before, ports[cid]? = some before ∧
      port.queue.requests - port.posted = before.queue.requests - before.posted := by
  obtain ⟨before, there, ⟨_, rfl⟩ | ⟨_, rfl⟩⟩ := Table.getElem?_modify_cases here
  · exact ⟨before, there, (fits before (mem_of_getElem? there)).refill.2⟩
  · exact ⟨port, there, rfl⟩

/-- The end of a call leaves the counts right exactly if the call owes nothing. -/
theorem finish_balanced_iff (kept : shared.Kept size) (balanced : shared.Balanced) :
    shared.finish.Balanced ↔ shared.Own .finish := by
  cases polling : shared.polling with
  | none =>
    have same : shared.finish = shared := by rw [finish, polling]
    rw [same]
    refine ⟨fun _ _ poll busy => ?_, fun _ => balanced⟩
    rw [polling] at busy
    cases busy
  | some poll =>
    by_cases walked : shared.loop.batch = []
    · have known := kept.known poll polling
      have owes : shared.Own .finish ↔ ∀ cid < shared.ports.length, owed poll cid = 0 := by
        rw [owed_eq_zero_iff known]
        refine ⟨fun own => own walked poll polling, fun own _ other busy => ?_⟩
        rw [polling] at busy
        rw [← Option.some.inj busy]
        exact own
      -- Before the refill the count of `cid` is off by what the call owes, and the refill does
      -- not change by how much.
      have debts (cid : Nat) : shared.debt cid = owed poll cid := by rw [debt, polling]; rfl
      rw [owes, finish_eq polling walked]
      constructor
      · intro after cid bound
        have inside : cid < (shared.ports.modify poll.cid Port.refill).length := by
          rw [length_modify]
          exact bound
        have here := getElem?_eq_getElem inside
        obtain ⟨before, there, same⟩ := refilled_cases kept.fits here
        have count := balanced cid before there
        have counted := after cid _ here
        rw [debts] at count
        rw [debt_idle rfl] at counted
        dsimp only [unpolled] at count counted
        omega
      · intro paid cid port here
        obtain ⟨before, there, same⟩ := refilled_cases kept.fits here
        have count := balanced cid before there
        rw [debts, paid cid (List.getElem?_eq_some_iff.mp there).1] at count
        rw [debt_idle rfl]
        dsimp only [unpolled] at count ⊢
        omega
    · have same : shared.finish = shared := by
        rw [finish, polling]
        exact if_neg walked
      rw [same]
      exact ⟨fun _ empty => absurd empty walked, fun _ => balanced⟩

/-! ### Runs -/

theorem Kept.step (kept : shared.Kept size) (event : Event) : (shared.step event).Kept size := by
  cases event with
  | call fname => exact kept.call fname _
  | answer index data => exact kept.answer index data
  | poll cid => exact kept.poll cid
  | walk => exact ⟨kept.fits, kept.known⟩
  | finish => exact kept.finish

theorem step_balanced_iff (kept : shared.Kept size) (balanced : shared.Balanced) (event : Event) :
    (shared.step event).Balanced ↔ shared.Own event := by
  cases event with
  | call fname =>
    exact iff_of_true (balanced.call kept fname _) trivial
  | answer index data => exact iff_of_true (balanced.answer index data) trivial
  | poll cid => exact iff_of_true (balanced.poll cid) trivial
  | walk =>
    refine iff_of_true (fun cid port here => ?_) trivial
    have count := balanced cid port here
    rw [unpolled, ← walk_recvCq] at count
    exact count
  | finish => exact finish_balanced_iff kept balanced

/-- The counts cannot go wrong without showing it when the call returns. -/
theorem Balanced.step (balanced : shared.Balanced) (kept : shared.Kept size) {event : Event}
    (after : (shared.step event).Attributed size) : (shared.step event).Balanced := by
  cases event with
  | finish =>
    by_cases walked : shared.loop.batch = []
    · refine Attributed.balanced ?_ after
      show shared.finish.polling = none
      cases polling : shared.polling with
      | none => rw [finish, polling]; exact polling
      | some poll => rw [finish_eq polling walked]
    · exact (step_balanced_iff kept balanced .finish).mpr fun empty => absurd empty walked
  | _ => exact (step_balanced_iff kept balanced _).mpr trivial

section Start

variable (size : Nat) (maxInlineData : Int) (symbols : List String)
  (connections : List RemoteBuffer)

theorem kept_start : (start size maxInlineData symbols connections).Kept size := by
  refine ⟨fun port member => ?_, fun poll polling => ?_⟩
  · obtain ⟨_, _, rfl⟩ := mem_map.mp member
    obtain ⟨sized, _, most, _⟩ := Port.filled_spec size
    exact ⟨sized, most.trans (Int.max_le.mpr ⟨Int.le_refl _, Int.natCast_nonneg _⟩)⟩
  · cases polling

theorem balanced_start : (start size maxInlineData symbols connections).Balanced := by
  intro cid port here
  obtain ⟨_, _, rfl⟩ := mem_map.mp (mem_of_getElem? here)
  rw [debt_idle rfl, Int.add_zero]
  exact (Port.filled_spec size).2.1

/-- Whatever calls, replies and polls a run is made of, every connection counts its own receives
after every call exactly if every `poll_queue_once2` finds only replies of its own connection. -/
theorem credits_attributed_iff (events : List Event) :
    Always step (Attributed size) (start size maxInlineData symbols connections) events ↔
      Along step Own (start size maxInlineData symbols connections) events := by
  have kept := kept_start size maxInlineData symbols connections
  have balanced := balanced_start size maxInlineData symbols connections
  have preserved (shared : SharedQueue) (event : Event) (kept : shared.Kept size) :
      (shared.step event).Kept size := kept.step event
  rw [← @always_iff_along_of_stable _ _ step (Kept size) Balanced Own preserved
    (fun _ event kept balanced => step_balanced_iff kept balanced event) _ _ kept balanced]
  constructor
  · exact Always.strengthen preserved
      (fun _ _ kept balanced after => balanced.step kept after) kept balanced
  · exact Always.strengthen preserved
      (fun _ event kept _ after => after.attributed (kept.step event)) kept
      (balanced.attributed kept)

end Start

/-- Two connections. A call goes out on the second one, and its reply is polled on the first one:
the first posts a receive that it has no room for, the second has one fewer than it counts. -/
def crossed : SharedQueue :=
  run step (start 32 0 ["echo"] [⟨0, 0⟩, ⟨0, 0⟩])
    [.call "echo" [] ⟨0, 0⟩ 1 0 (-1), .answer 0 [], .poll 0, .walk, .finish]

theorem credit_crosses : crossed.polling.isNone ∧ crossed.loop.recvCq.length = 0 ∧
    crossed.ports.map (fun port => (port.queue.requests, port.posted)) = [(32, 33), (32, 31)] := by
  decide +kernel

end SharedQueue

end RFaaS.Client
