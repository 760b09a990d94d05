/-
This file is about the room for receives on the queue pairs between a client and
its workers. A queue pair is created with room for `max_recv_wr` receives, and it
is assumed to get just that.

The client gives the queue pairs of its workers room for one more receive than
the configured size (`executor::executor`), and the object that counts receives
is constructed with the same number. `allocate` posts one receive for the buffer
information and then refills, which posts as many as there is room for: one too
many. The worker has room for the configured size only, but its receive for the
function code has completed before it refills (`Thread::thread_work`).
-/

import RFaaS.Allocation
import RFaaS.Posting

namespace RFaaS

open Transition RecvWorkCompletions Client.Allocation List

/-! ### The client -/

namespace Client.Allocation

variable {numcores rcvBufSize capacity : Nat} {infos : Nat → RemoteBuffer}
  {allocation : Allocation}

/-- No queue pair holds more receives than it has room for. -/
def Within (capacity : Nat) (allocation : Allocation) : Prop :=
  ∀ connection ∈ allocation.connections, connection.receives.length ≤ capacity

instance (capacity : Nat) (allocation : Allocation) : Decidable (allocation.Within capacity) :=
  decidableBAll _ _

/-- The connections are the same, and none of them has got a receive. -/
structure Shrinks (before after : List ExecutorState) : Prop where
  length : after.length = before.length
  receives : ∀ connection ∈ after, ∃ old ∈ before,
    connection.receives.length ≤ old.receives.length

theorem Shrinks.refl (connections : List ExecutorState) : Shrinks connections connections :=
  ⟨rfl, fun connection member => ⟨connection, member, Nat.le_refl _⟩⟩

theorem Shrinks.of_changes {before after : List ExecutorState}
    {change : Nat → ExecutorState → ExecutorState} (changes : Changes before after change)
    (fewer : ∀ index connection, before[index]? = some connection →
      (change index connection).receives.length ≤ connection.receives.length) :
    Shrinks before after := by
  refine ⟨changes.length_eq, fun connection member => ?_⟩
  obtain ⟨index, here⟩ := mem_iff_getElem?.mp member
  rw [changes.pointwise, Option.map_eq_some_iff] at here
  obtain ⟨old, there, same⟩ := here
  exact ⟨old, mem_of_getElem? there, same ▸ fewer index old there⟩

/-- A new connection holds the receive for the buffer information and as many as the refill
posts, which is all that are counted. -/
theorem request_connections (allocation : Allocation) (positive : 0 < rcvBufSize) (worker : Nat) :
    ∃ connection, (allocation.request rcvBufSize worker).connections =
        allocation.connections ++ [connection] ∧
      connection.receives.length = rcvBufSize + 1 := by
  have below : (construct rcvBufSize).setQp.requests <
      (construct rcvBufSize).setQp.refillThreshold := by
    simp only [construct, setQp, defaultRefillThreshold]
    omega
  have posted := refill_accepting _ freshBatch_linked below
    (Int.sub_zero _)
  simp only [request, posted]
  refine ⟨_, rfl, ?_⟩
  rw [length_cons, length_map, length_batchIds]

theorem deliver_shrinks {index : Nat} {connection : ExecutorState}
    (here : allocation.connections[index]? = some connection) (worker : Nat)
    (data : List UInt8) :
    Shrinks allocation.connections
      (allocation.deliver index worker connection data).connections := by
  unfold deliver
  split
  · exact Shrinks.refl _
  · rename_i receive rest receives
    refine Shrinks.of_changes (changes_modify _ index rest) fun other old there => ?_
    by_cases same : index = other
    · subst same
      rw [here] at there
      rw [if_pos rfl, ← Option.some.inj there, receives]
      exact Nat.le_succ _
    · rw [if_neg same]

theorem send_shrinks (infos : Nat → RemoteBuffer) (allocation : Allocation) (worker : Nat) :
    Shrinks allocation.connections (allocation.send infos worker).connections := by
  unfold send
  split
  · exact Shrinks.refl _
  · split
    · exact Shrinks.refl _
    · split
      · exact Shrinks.refl _
      · rename_i here
        exact deliver_shrinks here _ _

theorem poll_shrinks (allocation : Allocation) :
    Shrinks allocation.connections allocation.poll.connections := by
  refine Shrinks.of_changes (changes_assign _ _ _) fun index connection _ => ?_
  split <;> exact Nat.le_refl _

/-- What a step does to the receives of the connections. -/
theorem step_connections (positive : 0 < rcvBufSize) (allocation : Allocation) (event : Event) :
    Shrinks allocation.connections
        (allocation.step numcores rcvBufSize infos event).connections ∨
      ∃ connection, (allocation.step numcores rcvBufSize infos event).connections =
          allocation.connections ++ [connection] ∧
        connection.receives.length = rcvBufSize + 1 := by
  cases event with
  | request worker =>
    dsimp only [step]
    split
    · exact Or.inr (request_connections allocation positive worker)
    · exact Or.inl (Shrinks.refl _)
  | send worker => exact Or.inl (send_shrinks infos allocation worker)
  | poll =>
    dsimp only [step]
    split
    · exact Or.inl (poll_shrinks allocation)
    · exact Or.inl (Shrinks.refl _)
  | unhandled => exact Or.inl (Shrinks.refl _)
  | _ =>
    refine Or.inl ?_
    dsimp only [step]
    split <;> exact Shrinks.refl _

/-- A capacity that is enough for the refill and one more is enough for every step. -/
theorem Within.step (enough : rcvBufSize + 1 ≤ capacity) (positive : 0 < rcvBufSize)
    (within : allocation.Within capacity) (event : Event) :
    (allocation.step numcores rcvBufSize infos event).Within capacity := by
  intro connection member
  rcases step_connections positive allocation event with same | ⟨new, added, full⟩
  · obtain ⟨old, known, fewer⟩ := same.receives connection member
    exact Nat.le_trans fewer (within old known)
  · rw [added] at member
    rcases mem_append.mp member with old | last
    · exact within connection old
    · rw [mem_singleton.mp last, full]
      exact enough

/-- Before a worker asks for a connection, nothing happens. -/
theorem step_start {event : Event} (waits : ∀ worker < numcores, event ≠ .request worker) :
    step numcores rcvBufSize infos start event = start := by
  cases event with
  | request worker => exact if_neg fun asks => waits worker asks.2.1 rfl
  | establish worker => exact if_neg fun known => not_mem_nil known.2.1
  | unhandled | send worker => rfl
  | poll | pollFails =>
    refine if_neg fun polls => ?_
    dsimp only [start] at polls
    omega
  | pollSend count =>
    refine if_neg fun polls => ?_
    dsimp only [start] at polls
    omega

/-- The first worker that asks for a connection is accepted. -/
theorem within_request (positive : 0 < rcvBufSize) {worker : Nat} (below : worker < numcores) :
    (step numcores rcvBufSize infos start (.request worker)).Within capacity ↔
      rcvBufSize + 1 ≤ capacity := by
  have accepted : step numcores rcvBufSize infos start (.request worker) =
      start.request rcvBufSize worker :=
    if_pos ⟨Nat.lt_of_le_of_lt (Nat.zero_le _) below, below, not_mem_nil⟩
  obtain ⟨connection, added, full⟩ := request_connections start positive worker
  rw [accepted, Within, added]
  simp only [start, nil_append, forall_mem_singleton, full]

/-- The queue pairs of the client have enough room exactly if it is enough for the refill and one
more, or no worker asks for a connection. -/
theorem always_within_iff (positive : 0 < rcvBufSize) (events : List Event) :
    Always (step numcores rcvBufSize infos) (Within capacity) start events ↔
      rcvBufSize + 1 ≤ capacity ∨ ∀ worker < numcores, .request worker ∉ events := by
  have empty : start.Within capacity := fun connection member => absurd member not_mem_nil
  by_cases enough : rcvBufSize + 1 ≤ capacity
  · exact iff_of_true (always_of_stable (fun _ event within => within.step enough positive event)
      (fun _ within => within) events empty) (Or.inl enough)
  · rw [or_iff_right enough]
    induction events with
    | nil => exact iff_of_true empty fun _ _ => not_mem_nil
    | cons event rest inductionHypothesis =>
      by_cases asks : ∃ worker < numcores, event = .request worker
      · obtain ⟨worker, below, rfl⟩ := asks
        refine iff_of_false (fun always => ?_) fun none => none worker below mem_cons_self
        exact enough ((within_request positive below).mp always.2.first)
      · have waits : ∀ worker < numcores, event ≠ .request worker :=
          fun worker below same => asks ⟨worker, below, same⟩
        show start.Within capacity ∧ Always _ _ (start.step _ _ _ event) rest ↔ _
        rw [step_start waits, and_iff_right empty]
        refine inductionHypothesis.trans (forall₂_congr fun worker below => ?_)
        rw [mem_cons, or_iff_right (waits worker below).symm]

end Client.Allocation

/-! ### The worker -/

namespace FastExecutor

/-- Where `thread_work` is, as far as the receives from the client are concerned. -/
inductive WorkStage
  /-- The queue pair was created. -/
  | allocated
  /-- The receive for the function code was posted. -/
  | connecting
  /-- The function code was polled. -/
  | coded
  /-- In the polling loops, which poll and refill. -/
  | polling
  deriving DecidableEq

structure ThreadWork where
  stage : WorkStage
  use : Port.Use

namespace ThreadWork

inductive Event
  /-- `post_recv(func_buffer)`. -/
  | postRecv
  /-- `poll_wc(RECV, true, 1)`, which does not count. -/
  | pollWc
  /-- The first `refill`. -/
  | refill (failures : Nat → Option Nat)
  /-- A message of the client, or a poll or refill of `hot` and `warm`. -/
  | use (event : Port.Use.Event)

def start (size : Nat) : ThreadWork := ⟨.allocated, ⟨Port.closed size, 0, 0⟩⟩

def postRecv (work : ThreadWork) : ThreadWork :=
  { stage := .connecting
    use := { work.use with port := { work.use.port with posted := work.use.port.posted + 1 } } }

def step (work : ThreadWork) : Event → ThreadWork
  | .postRecv => if work.stage = .allocated then work.postRecv else work
  | .pollWc =>
    if work.stage = .connecting ∧ 0 < work.use.waiting then
      { stage := .coded, use := { work.use with waiting := work.use.waiting - 1 } }
    else work
  | .refill failures =>
    if work.stage = .coded then ⟨.polling, work.use.step (.refill failures)⟩ else work
  | .use .arrive => { work with use := work.use.step .arrive }
  | .use event => if work.stage = .polling then { work with use := work.use.step event } else work

/-- The queue pair does not hold more receives than it has room for. -/
def Within (size : Nat) (work : ThreadWork) : Prop := work.use.port.posted ≤ size

/-- Before the first refill there is at most the one receive, which is not counted; it is gone
when the refill begins. From then on the count covers all receives. -/
def Fits (size : Nat) (work : ThreadWork) : Prop :=
  match work.stage with
  | .allocated | .coded => work.use = ⟨Port.closed size, 0, 0⟩
  | .connecting => work.use.port.queue = (Port.closed size).queue ∧
      work.use.port.posted + work.use.waiting = 1 ∧ work.use.lost = 0
  | .polling => work.use.Counted size

theorem counted_closed (size : Nat) : Port.Use.Counted size ⟨Port.closed size, 0, 0⟩ :=
  ⟨Port.closed_sized size, Int.le_max_right _ _, rfl⟩

variable {size : Nat} {work : ThreadWork}

section

variable (fits : work.Fits size)
include fits

theorem Fits.within (positive : 0 < size) : work.Within size := by
  unfold Within
  unfold Fits at fits
  split at fits
  · rw [fits]
    exact Nat.zero_le _
  · rw [fits]
    exact Nat.zero_le _
  · omega
  · have most := fits.most
    have balance := fits.balance
    omega

theorem Fits.fresh (uncounted : work.stage = .allocated ∨ work.stage = .coded) :
    work.use = ⟨Port.closed size, 0, 0⟩ := by
  unfold Fits at fits
  rcases uncounted with stage | stage <;> rw [stage] at fits <;> exact fits

theorem Fits.arrive : (work.step (.use .arrive)).Fits size := by
  obtain ⟨stage, use⟩ := work
  cases stage with
  | allocated | coded =>
    rw [show use = ⟨Port.closed size, 0, 0⟩ from fits]
    rfl
  | polling => exact Port.Use.Counted.step fits .arrive
  | connecting =>
    obtain ⟨queue, one, none⟩ := fits
    dsimp only [step, Port.Use.step]
    split
    · exact ⟨queue, one, none⟩
    · refine ⟨queue, ?_, none⟩
      dsimp only [Port.arrive] at one ⊢
      omega

/-- The only receive has completed, and its completion is the one that is polled. -/
theorem Fits.pollWc (connecting : work.stage = .connecting) (completed : 0 < work.use.waiting) :
    Fits size ⟨.coded, { work.use with waiting := work.use.waiting - 1 }⟩ := by
  obtain ⟨stage, ⟨queue, posted⟩, waiting, lost⟩ := work
  cases connecting
  obtain ⟨same, one, none⟩ := fits
  dsimp only at same one none completed
  have used : posted = 0 := by omega
  have last : waiting - 1 = 0 := by omega
  show Port.Use.mk ⟨queue, posted⟩ (waiting - 1) lost = _
  rw [same, used, last, none]
  rfl

/-- In the loops, the count covers all receives. -/
theorem Fits.polls (polling : work.stage = .polling)
    (event : Port.Use.Event) : Fits size { work with use := work.use.step event } := by
  unfold Fits at fits ⊢
  rw [polling] at fits
  dsimp only
  rw [polling]
  exact Port.Use.Counted.step fits event

end

theorem Fits.step (fits : work.Fits size) (event : Event) : (work.step event).Fits size := by
  cases event with
  | postRecv =>
    dsimp only [ThreadWork.step]
    split
    · rename_i allocated
      rw [postRecv, fits.fresh (Or.inl allocated)]
      exact ⟨rfl, rfl, rfl⟩
    · exact fits
  | pollWc =>
    dsimp only [ThreadWork.step]
    split
    · rename_i ready
      exact fits.pollWc ready.1 ready.2
    · exact fits
  | refill failures =>
    dsimp only [ThreadWork.step]
    split
    · rename_i coded
      rw [fits.fresh (Or.inr coded)]
      exact (counted_closed size).step (.refill failures)
    · exact fits
  | use event =>
    cases event with
    | arrive => exact fits.arrive
    | poll | refill =>
      dsimp only [ThreadWork.step]
      split
      · rename_i polling
        exact fits.polls polling _
      · exact fits

/-- The queue pair of a worker has room for all its receives. -/
theorem always_within (positive : 0 < size) (events : List Event) :
    Always step (Within size) (start size) events :=
  always_of_stable (fun _ event fits => Fits.step fits event)
    (fun _ fits => Fits.within fits positive) events (rfl : (start size).Fits size)

end ThreadWork

end FastExecutor

/-- All receives fit into the queue pairs of the client and its workers, at every moment of
`allocate` and of `thread_work`, exactly if no worker asks the client for a connection. -/
theorem receives_within_capacity_iff (size : Nat) (positive : 0 < size) (numcores : Nat)
    (infos : Nat → RemoteBuffer) (events : List Event)
    (work : List FastExecutor.ThreadWork.Event) :
    (Always (step numcores (size + 1) infos)
        (Within (size + 1)) start events ∧
      Always FastExecutor.ThreadWork.step (FastExecutor.ThreadWork.Within size)
        (FastExecutor.ThreadWork.start size) work) ↔
      ∀ worker < numcores, .request worker ∉ events := by
  rw [and_iff_left (FastExecutor.ThreadWork.always_within positive work),
    always_within_iff (Nat.succ_pos size)]
  exact or_iff_right (Nat.not_succ_le_self _)

/-- A worker alone, from its first receive to its first invocation. -/
theorem worker_within_capacity :
    Always FastExecutor.ThreadWork.step (FastExecutor.ThreadWork.Within 1)
      (FastExecutor.ThreadWork.start 1)
      [.postRecv, .use .arrive, .pollWc, .refill accepting, .use .arrive] :=
  ((receives_within_capacity_iff 1 (by decide) 1 (fun _ => ⟨0, 0⟩) [.unhandled] _).mpr (by simp)).2

/-- The smallest size and one worker: there is room for two receives, and three are posted. -/
theorem third_receive_posted :
    let allocation := run (step 1 (1 + 1) fun _ => ⟨0, 0⟩)
      start [.request 0]
    ¬allocation.Within (1 + 1) ∧
      allocation.connections.map (fun connection => connection.receives.length) = [3] := by
  intro allocation
  decide

end RFaaS
