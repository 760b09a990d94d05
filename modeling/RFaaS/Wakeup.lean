/-
This file is about the sleep of a worker thread
(`server/executor/fast_executor.cpp`, `rdmalib/lib/queue.cpp`,
`rdmalib/lib/connection.cpp`). The thread blocks in `wait_events` until the
completion queue has given a notification, and it requests one notification at
a time. A completion that arrives when none is requested wakes nobody.

In the state `WARM` the thread waits only after a poll that found nothing. In
`WARM_ALWAYS` it waits after every poll, and a poll takes at most 32
completions. How many can be in the queue is bounded by the receives that are
posted, so the thread sleeps through no invocation exactly if it does not
always sleep or has room for at most 32 receives.
-/

import RFaaS.FastExecutor
import RFaaS.RecvQueue
import RFaaS.Transition

namespace RFaaS.FastExecutor

open Transition

/-- A thread with the receiving end of its connection. -/
structure Sleeper where
  thread : Thread
  port : Port

namespace Sleeper

inductive Event
  | step (now : Int)
  /-- A completion enters the queue, if there is a receive for it. -/
  | arrive (completion : WorkCompletion)
  | terminate

/-- The thread when it enters the loop of `thread_work`, after the first refill. -/
def start (rcvBufSize : Int) (functions : Functions) (timeout : Int) (maxInlineData : UInt32)
    (rcv : Region) (outSize : Nat) : Sleeper where
  thread := Thread.begin_ functions timeout maxInlineData rcv outSize
  port := Port.filled rcvBufSize

/-- `poll` counts the completions that it takes. -/
def poll (sleeper : Sleeper) : Port :=
  if sleeper.thread.termProcess then sleeper.port
  else sleeper.port.updateRequests (-(sleeper.thread.recvCq.take wcSize).length)

/-- The refill behind the inner loops. -/
def refill (sleeper : Sleeper) (batch : List WorkCompletion) (index : Nat) : Port :=
  if index < batch.length then sleeper.port else sleeper.port.refill

/-- A step of the thread, and what it does to the receives. -/
def work (sleeper : Sleeper) (now : Int) : Sleeper where
  thread := sleeper.thread.step now
  port :=
    match sleeper.thread.control with
    | .hotPoll _ _ | .warmPoll => sleeper.poll
    | .hotNext _ _ batch index | .warmNext batch index => sleeper.refill batch index
    | _ => sleeper.port

def step (sleeper : Sleeper) : Event → Sleeper
  | .step now => sleeper.work now
  | .arrive completion =>
    if sleeper.port.posted = 0 then sleeper
    else ⟨sleeper.thread.arrive completion, sleeper.port.arrive⟩
  | .terminate => { sleeper with thread := { sleeper.thread with termProcess := true } }

/-- When the thread waits for an event and there is none, no completion is in the queue. -/
def Awake (sleeper : Sleeper) : Prop :=
  sleeper.thread.control = .warmWait → sleeper.thread.events = 0 → sleeper.thread.recvCq = []

end Sleeper

/-! ### Notifications -/

namespace Thread

/-- A notification is requested or given. -/
def Signalled (thread : Thread) : Prop := thread.armed = true ∨ 0 < thread.events

/-- Nothing has arrived since the last poll if the requested notification is not given. -/
def Drained (thread : Thread) : Prop := thread.armed = true → thread.recvCq = []

/-- What the thread can rely on, by its control point. -/
def Watchful (thread : Thread) : Prop :=
  match thread.control with
  | .dispatch => thread.pollingState = .warm ∨ thread.pollingState = .warmAlways → thread.Signalled
  | .hotPoll _ _ | .hotNext _ _ _ _ | .hotCount _ _
  | .calling (.hot _ _ _ _ _) _ | .replying (.hot _ _ _ _ _) _ _ _ =>
    thread.pollingState = .hot ∨ thread.pollingState = .hotAlways
  | .warmPoll => thread.Signalled
  | .warmNext _ _ | .calling (.warm _ _) _ | .replying (.warm _ _) _ _ _ =>
    thread.Signalled ∧ (thread.pollingState = .warmAlways → thread.Drained)
  | .warmWait => thread.Signalled ∧ thread.Drained
  | .warmNotify | .finishing | .finished | .fault => True

/-- A thread that always sleeps has room for no more completions than a poll takes. -/
def Moded (room : Int) (thread : Thread) : Prop :=
  thread.pollingState = .warmAlways → room ≤ wcSize

variable {room : Int} {thread : Thread}

theorem Signalled.arrive (signalled : thread.Signalled) (completion : WorkCompletion) :
    (thread.arrive completion).Signalled := by
  refine Or.inr ?_
  unfold Thread.arrive
  dsimp only
  split
  · exact Nat.succ_pos _
  · rename_i unarmed
    exact signalled.resolve_left unarmed

theorem drained_arrive (thread : Thread) (completion : WorkCompletion) :
    (thread.arrive completion).Drained := fun armed => nomatch armed

theorem Watchful.arrive (watchful : thread.Watchful) (completion : WorkCompletion) :
    (thread.arrive completion).Watchful := by
  unfold Watchful at watchful ⊢
  rw [show (thread.arrive completion).control = thread.control from rfl]
  split at watchful
  all_goals first
    | exact watchful
    | exact watchful.arrive completion
    | exact fun sleeps => (watchful sleeps).arrive completion
    | exact ⟨watchful.1.arrive completion, thread.drained_arrive completion⟩
    | exact ⟨watchful.1.arrive completion, fun _ => thread.drained_arrive completion⟩

/-- A thread that is not in a warm state need not be signalled. -/
theorem not_sleepy (hot : thread.pollingState = .hot ∨ thread.pollingState = .hotAlways) :
    ¬(thread.pollingState = .warm ∨ thread.pollingState = .warmAlways) := by
  rcases hot with state | state <;> rw [state] <;> exact (by decide)

section Steps

variable (now start : Int) (count : Nat) (batch : List WorkCompletion) (index : Nat)

section

variable (moded : thread.Moded room)
include moded

theorem watchful_dispatch
    (signalled : thread.pollingState = .warm ∨ thread.pollingState = .warmAlways →
      thread.Signalled) :
    (thread.dispatch now).Moded room ∧ (thread.dispatch now).Watchful := by
  unfold dispatch
  split
  · exact ⟨moded, trivial⟩
  · split
    · rename_i state
      exact ⟨moded, Or.inl state⟩
    · rename_i state
      exact ⟨moded, Or.inr state⟩
    · rename_i state
      exact ⟨moded, signalled (Or.inl state)⟩
    · rename_i state
      exact ⟨moded, signalled (Or.inr state)⟩

section

variable (hot : thread.pollingState = .hot ∨ thread.pollingState = .hotAlways)
include hot

theorem watchful_hotPoll :
    (thread.hotPoll start count).Moded room ∧ (thread.hotPoll start count).Watchful := by
  unfold hotPoll
  split
  · exact ⟨moded, fun sleepy => absurd sleepy (not_sleepy hot)⟩
  · dsimp only
    split <;> exact ⟨moded, hot⟩

theorem watchful_hotNext :
    (thread.hotNext now start count batch index).Moded room ∧
      (thread.hotNext now start count batch index).Watchful := by
  unfold hotNext
  split
  · exact ⟨moded, hot⟩
  · split <;> exact ⟨moded, hot⟩

/-- The switch to `WARM` requests a notification before the first poll there. -/
theorem watchful_hotCount :
    (thread.hotCount now start count).Moded room ∧ (thread.hotCount now start count).Watchful := by
  unfold hotCount
  split
  · dsimp only
    split
    · exact ⟨fun state => (nomatch state), fun _ => Or.inl rfl⟩
    · exact ⟨moded, hot⟩
  · exact ⟨moded, hot⟩

end

theorem watchful_warmPoll (signalled : thread.Signalled)
    (few : (thread.recvCq.length : Int) ≤ max room 0) :
    thread.warmPoll.Moded room ∧ thread.warmPoll.Watchful := by
  unfold warmPoll
  split
  · exact ⟨moded, fun _ => signalled⟩
  · dsimp only [poll]
    split
    · rename_i empty
      refine ⟨moded, signalled, fun _ => ?_⟩
      have none : thread.recvCq = [] := by
        rcases List.take_eq_nil_iff.mp (List.isEmpty_iff.mp empty) with size | none
        · cases size
        · exact none
      show thread.recvCq.drop wcSize = []
      rw [none]
      rfl
    · refine ⟨moded, signalled, fun always _ => ?_⟩
      have small := moded always
      exact List.drop_eq_nil_of_le (by omega)

theorem watchful_warmNext (signalled : thread.Signalled)
    (drained : thread.pollingState = .warmAlways → thread.Drained) :
    (thread.warmNext batch index).Moded room ∧ (thread.warmNext batch index).Watchful := by
  unfold warmNext
  split
  · split
    · exact ⟨fun state => (nomatch state), fun sleepy => absurd sleepy (not_sleepy (Or.inl rfl))⟩
    · rename_i always
      exact ⟨moded, signalled, drained (Decidable.not_not.mp always)⟩
  · split <;> exact ⟨moded, signalled, drained⟩

theorem watchful_warmWait (waits : thread.control = .warmWait)
    (signalled : thread.Signalled) (drained : thread.Drained) :
    thread.warmWait.Moded room ∧ thread.warmWait.Watchful := by
  unfold warmWait
  split
  · exact ⟨moded, signalled⟩
  · split
    · refine ⟨moded, ?_⟩
      rw [Watchful, waits]
      exact ⟨signalled, drained⟩
    · exact ⟨moded, trivial⟩

theorem watchful_calling {caller : Caller} {task : Task}
    (control : thread.control = .calling caller task) (watchful : thread.Watchful) :
    (thread.calling now caller task).Moded room ∧ (thread.calling now caller task).Watchful := by
  rw [Watchful, control] at watchful
  unfold calling
  split
  · exact ⟨moded, trivial⟩
  · cases caller <;> exact ⟨moded, watchful⟩

theorem watchful_replying {caller : Caller} {task : Task} {called : Int}
    {outSize : UInt32} (control : thread.control = .replying caller task called outSize)
    (watchful : thread.Watchful) :
    (thread.replying now caller task called outSize).Moded room ∧
      (thread.replying now caller task called outSize).Watchful := by
  rw [Watchful, control] at watchful
  cases caller <;> exact ⟨moded, watchful⟩

end

end Steps

/-- A step of a thread whose queue a poll can empty, if it always sleeps. -/
theorem Watchful.step (watchful : thread.Watchful) (moded : thread.Moded room)
    (few : (thread.recvCq.length : Int) ≤ max room 0) (now : Int) :
    (thread.step now).Moded room ∧ (thread.step now).Watchful := by
  have known := watchful
  unfold Watchful at known
  cases control : thread.control with
  | dispatch =>
    rw [control] at known
    rw [Thread.step, control]
    exact watchful_dispatch now moded known
  | hotPoll start count =>
    rw [control] at known
    rw [Thread.step, control]
    exact watchful_hotPoll start count moded known
  | hotNext start count batch index =>
    rw [control] at known
    rw [Thread.step, control]
    exact watchful_hotNext now start count batch index moded known
  | hotCount start count =>
    rw [control] at known
    rw [Thread.step, control]
    exact watchful_hotCount now start count moded known
  | warmPoll =>
    rw [control] at known
    rw [Thread.step, control]
    exact watchful_warmPoll moded known few
  | warmNext batch index =>
    rw [control] at known
    rw [Thread.step, control]
    exact watchful_warmNext batch index moded known.1 known.2
  | warmWait =>
    rw [control] at known
    rw [Thread.step, control]
    exact watchful_warmWait moded control known.1 known.2
  | warmNotify =>
    rw [Thread.step, control]
    exact ⟨moded, Or.inl rfl⟩
  | calling =>
    rw [Thread.step, control]
    exact watchful_calling now moded control watchful
  | replying =>
    rw [Thread.step, control]
    exact watchful_replying now moded control watchful
  | finishing =>
    rw [Thread.step, control]
    exact ⟨moded, trivial⟩
  | _ =>
    rw [Thread.step, control]
    exact ⟨moded, watchful⟩

end Thread

/-! ### Receives -/

namespace Thread

/-- The queue after a poll, which is not made when the thread is to stop. -/
def polled (thread : Thread) : List WorkCompletion :=
  if thread.termProcess then thread.recvCq else thread.recvCq.drop wcSize

theorem hotPoll_recvCq (thread : Thread) (start : Int) (count : Nat) :
    (thread.hotPoll start count).recvCq = thread.polled := by
  unfold hotPoll polled
  split
  · rfl
  · dsimp only [poll]
    split <;> rfl

theorem warmPoll_recvCq (thread : Thread) : thread.warmPoll.recvCq = thread.polled := by
  unfold warmPoll polled
  split
  · rfl
  · dsimp only [poll]
    split <;> rfl

/-- Only the polls take completions out of the queue. -/
theorem step_recvCq {thread : Thread} (hot : ∀ start count, thread.control ≠ .hotPoll start count)
    (warm : thread.control ≠ .warmPoll) (now : Int) :
    (thread.step now).recvCq = thread.recvCq := by
  cases control : thread.control with
  | hotPoll start count => exact absurd control (hot start count)
  | warmPoll => exact absurd control warm
  | dispatch =>
    rw [Thread.step, control]
    dsimp only [dispatch]
    split
    · rfl
    · split <;> rfl
  | hotNext =>
    rw [Thread.step, control]
    dsimp only [hotNext]
    split
    · rfl
    · split <;> rfl
  | hotCount =>
    rw [Thread.step, control]
    dsimp only [hotCount]
    split
    · split <;> rfl
    · rfl
  | warmNext =>
    rw [Thread.step, control]
    dsimp only [warmNext]
    split <;> split <;> rfl
  | warmWait =>
    rw [Thread.step, control]
    dsimp only [warmWait]
    split
    · rfl
    · split <;> rfl
  | calling =>
    rw [Thread.step, control]
    dsimp only [calling]
    split <;> rfl
  | replying caller =>
    rw [Thread.step, control]
    cases caller <;> rfl
  | warmNotify | finishing =>
    rw [Thread.step, control]
    rfl
  | finished | fault => rw [Thread.step, control]

end Thread

namespace Sleeper

/-- Every receive that is counted is posted or has a completion in the queue. -/
structure Credited (room : Int) (sleeper : Sleeper) : Prop where
  sized : sleeper.port.queue.Sized room
  requests : sleeper.port.queue.requests =
    sleeper.port.posted + sleeper.thread.recvCq.length
  within : sleeper.port.queue.requests ≤ max room 0

variable {room : Int} {sleeper : Sleeper}

theorem start_credited (functions : Functions) (timeout : Int) (maxInlineData : UInt32)
    (rcv : Region) (outSize : Nat) :
    (start room functions timeout maxInlineData rcv outSize).Credited room := by
  obtain ⟨sized, requests, within, _⟩ := Port.filled_spec room
  have none : (start room functions timeout maxInlineData rcv outSize).thread.recvCq.length = 0 :=
    rfl
  refine ⟨sized, ?_, within⟩
  rw [none]
  exact requests.trans (Int.add_zero _).symm

section

variable (credited : sleeper.Credited room)
include credited

theorem Credited.few : (sleeper.thread.recvCq.length : Int) ≤ max room 0 := by
  have requests := credited.requests
  have within := credited.within
  omega

/-- A step that neither polls nor refills. -/
theorem Credited.same {next : Sleeper}
    (port : next.port = sleeper.port) (recvCq : next.thread.recvCq = sleeper.thread.recvCq) :
    next.Credited room where
  sized := by rw [port]; exact credited.sized
  requests := by rw [port, recvCq]; exact credited.requests
  within := by rw [port]; exact credited.within

theorem Credited.polled {next : Sleeper}
    (port : next.port = sleeper.poll) (recvCq : next.thread.recvCq = sleeper.thread.polled) :
    next.Credited room := by
  unfold poll at port
  unfold Thread.polled at recvCq
  by_cases stops : sleeper.thread.termProcess = true
  · rw [if_pos stops] at port recvCq
    exact credited.same port recvCq
  · rw [if_neg stops] at port recvCq
    have taken : next.port.queue.requests =
        sleeper.port.queue.requests - (sleeper.thread.recvCq.take wcSize).length := by
      rw [port]
      rfl
    have posted : next.port.posted = sleeper.port.posted := by rw [port]; rfl
    have total : (sleeper.thread.recvCq.take wcSize).length +
        (sleeper.thread.recvCq.drop wcSize).length = sleeper.thread.recvCq.length := by
      rw [← List.length_append, List.take_append_drop]
    have requests := credited.requests
    have within := credited.within
    refine ⟨by rw [port]; exact credited.sized.updateRequests _, ?_, ?_⟩
    · rw [taken, posted, recvCq]
      omega
    · omega

theorem Credited.refilled {next : Sleeper}
    {batch : List WorkCompletion} {index : Nat} (port : next.port = sleeper.refill batch index)
    (recvCq : next.thread.recvCq = sleeper.thread.recvCq) : next.Credited room := by
  unfold refill at port
  by_cases more : index < batch.length
  · rw [if_pos more] at port
    exact credited.same port recvCq
  · rw [if_neg more] at port
    obtain ⟨sized, requests, within, _⟩ := Port.refill_spec credited.sized
    have before := credited.requests
    have bound := credited.within
    refine ⟨by rw [port]; exact sized, ?_, ?_⟩
    · rw [port, recvCq]
      omega
    · rw [port]
      omega

theorem Credited.work (now : Int) : (sleeper.work now).Credited room := by
  have step_eq : (sleeper.work now).thread = sleeper.thread.step now := rfl
  cases control : sleeper.thread.control with
  | hotPoll start count =>
    refine credited.polled (by rw [Sleeper.work, control]) ?_
    rw [step_eq, Thread.step, control]
    exact sleeper.thread.hotPoll_recvCq start count
  | warmPoll =>
    refine credited.polled (by rw [Sleeper.work, control]) ?_
    rw [step_eq, Thread.step, control]
    exact sleeper.thread.warmPoll_recvCq
  | hotNext | warmNext =>
    refine credited.refilled (by rw [Sleeper.work, control]) ?_
    exact Thread.step_recvCq (by rw [control]; exact fun _ _ => Control.noConfusion)
      (by rw [control]; exact Control.noConfusion) now
  | _ =>
    refine credited.same (by rw [Sleeper.work, control]) ?_
    exact Thread.step_recvCq (by rw [control]; exact fun _ _ => Control.noConfusion)
      (by rw [control]; exact Control.noConfusion) now

end

/-- What holds all along the runs of a thread that does not sleep through an invocation. -/
structure Guarded (room : Int) (sleeper : Sleeper) : Prop where
  credited : sleeper.Credited room
  moded : sleeper.thread.Moded room
  watchful : sleeper.thread.Watchful

theorem Guarded.awake (guarded : sleeper.Guarded room) : sleeper.Awake := by
  intro waits none
  have watchful := guarded.watchful
  rw [Thread.Watchful, waits] at watchful
  refine watchful.2 (watchful.1.resolve_right ?_)
  rw [none]
  exact Nat.lt_irrefl 0

theorem Guarded.step (guarded : sleeper.Guarded room) (event : Event) :
    (sleeper.step event).Guarded room := by
  cases event with
  | step now =>
    obtain ⟨moded, watchful⟩ :=
      guarded.watchful.step guarded.moded guarded.credited.few now
    exact ⟨guarded.credited.work now, moded, watchful⟩
  | arrive completion =>
    unfold Sleeper.step
    dsimp only
    split
    · exact guarded
    · rename_i posted
      have requests := guarded.credited.requests
      refine ⟨⟨guarded.credited.sized, ?_, guarded.credited.within⟩, guarded.moded,
        guarded.watchful.arrive completion⟩
      dsimp only [Thread.arrive, Port.arrive]
      rw [List.length_append, List.length_singleton]
      omega
  | terminate =>
    exact ⟨guarded.credited.same rfl rfl, guarded.moded, guarded.watchful⟩

theorem start_guarded (functions : Functions) {timeout : Int} (maxInlineData : UInt32)
    (rcv : Region) (outSize : Nat) (condition : timeout ≠ 0 ∨ room ≤ wcSize) :
    (start room functions timeout maxInlineData rcv outSize).Guarded room := by
  suffices both : (Thread.begin_ functions timeout maxInlineData rcv outSize).Moded room ∧
      (Thread.begin_ functions timeout maxInlineData rcv outSize).Watchful from
    ⟨start_credited functions timeout maxInlineData rcv outSize, both.1, both.2⟩
  unfold Thread.begin_
  by_cases always : timeout = -1
  · rw [if_pos always]
    exact ⟨fun state => (nomatch state),
      fun sleepy => absurd sleepy (Thread.not_sleepy (Or.inr rfl))⟩
  · rw [if_neg always]
    by_cases zero : timeout = 0
    · rw [if_pos zero]
      exact ⟨fun _ => condition.resolve_left (· zero), fun _ => Or.inr Nat.one_pos⟩
    · rw [if_neg zero]
      exact ⟨fun state => (nomatch state),
        fun sleepy => absurd sleepy (Thread.not_sleepy (Or.inl rfl))⟩

/-! ### A lost wake-up -/

/-- The events as the thread alone takes them. -/
def react (thread : Thread) : Event → Thread
  | .step now => thread.step now
  | .arrive completion => thread.arrive completion
  | .terminate => { thread with termProcess := true }

def Event.arrives : Event → Bool
  | .arrive _ => true
  | _ => false

/-- The thread itself uses up no receive. -/
theorem posted_le_work (sleeper : Sleeper) (now : Int) :
    sleeper.port.posted ≤ (sleeper.work now).port.posted := by
  have polled : sleeper.port.posted ≤ sleeper.poll.posted := by
    unfold poll
    split <;> exact Nat.le_refl _
  have refilled (batch : List WorkCompletion) (index : Nat) :
      sleeper.port.posted ≤ (sleeper.refill batch index).posted := by
    unfold refill
    split
    · exact Nat.le_refl _
    · exact Nat.le_add_right _ _
  unfold work
  dsimp only
  split
  · exact polled
  · exact polled
  · exact refilled _ _
  · exact refilled _ _
  · exact Nat.le_refl _

/-- As long as there are receives for all that arrives, they do not matter to the thread. -/
theorem run_thread {events : List Event}
    (enough : events.countP Event.arrives ≤ sleeper.port.posted) :
    (run step sleeper events).thread = run react sleeper.thread events := by
  induction events generalizing sleeper with
  | nil => rfl
  | cons event rest inductionHypothesis =>
    rw [run_cons, run_cons]
    cases event with
    | step now =>
      rw [List.countP_cons_of_neg (by exact Bool.false_ne_true)] at enough
      exact inductionHypothesis (enough.trans (posted_le_work sleeper now))
    | terminate =>
      rw [List.countP_cons_of_neg (by exact Bool.false_ne_true)] at enough
      exact inductionHypothesis enough
    | arrive completion =>
      rw [List.countP_cons_of_pos (by exact rfl)] at enough
      have posted : sleeper.port.posted ≠ 0 := by omega
      have arrived : sleeper.step (.arrive completion) =
          ⟨sleeper.thread.arrive completion, sleeper.port.arrive⟩ := if_neg posted
      rw [arrived]
      exact inductionHypothesis (Nat.le_sub_of_add_le enough)

/-- A library with one function, which returns nothing. -/
def quiet : Functions := ⟨["quiet"], fun _ _ _ output => (0, output)⟩

/-- An invocation of the function. -/
def invocation : WorkCompletion :=
  (postWrite [] ⟨0, 0⟩ (Immediate.submission 1#32 0#32) true false).completion

/-- The thread takes the first event, 33 invocations arrive before it requests the next one, and
it polls and serves 32 of them. -/
def overslept : List Event :=
  List.replicate 3 (.step 0) ++ List.replicate 33 (.arrive invocation) ++
    List.replicate 99 (.step 0)

theorem react_overslept :
    let thread := run react (Thread.begin_ quiet 0 0 ⟨0, 0, []⟩ 0) overslept
    thread.control = .warmWait ∧ thread.events = 0 ∧ thread.recvCq = [invocation] := by
  decide +kernel

/-- With room for more than 32 receives, the run ends in a thread that waits for ever. -/
theorem run_overslept {room : Int} (large : wcSize < room) :
    (run step (start room quiet 0 0 ⟨0, 0, []⟩ 0) overslept).thread.control = .warmWait ∧
      (run step (start room quiet 0 0 ⟨0, 0, []⟩ 0) overslept).thread.events = 0 ∧
      (run step (start room quiet 0 0 ⟨0, 0, []⟩ 0) overslept).thread.recvCq = [invocation] := by
  have posted : (33 : Int) ≤ (start room quiet 0 0 ⟨0, 0, []⟩ 0).port.posted := by
    obtain ⟨_, requests, _, least⟩ := Port.filled_spec room
    have bound : (32 : Int) < room := large
    show 33 ≤ ((Port.filled room).posted : Int)
    omega
  have arrivals : overslept.countP Event.arrives = 33 := by decide +kernel
  rw [run_thread (by rw [arrivals]; exact Int.ofNat_le.mp posted)]
  exact react_overslept

/-- No lost wake-up: for a receive buffer of this size and this hot timeout, no run ever blocks
the thread in `wait_events` without an event and with a completion in its queue, exactly if the
thread does not always sleep or has room for no more receives than a poll takes. -/
theorem no_lost_wakeup_iff (rcvBufSize timeout : Int) :
    (∀ (functions : Functions) (maxInlineData : UInt32) (rcv : Region) (outSize : Nat)
        (events : List Event),
      Always step Awake (start rcvBufSize functions timeout maxInlineData rcv outSize) events) ↔
    timeout ≠ 0 ∨ rcvBufSize ≤ wcSize := by
  constructor
  · intro always
    by_contra fails
    obtain ⟨zero, large⟩ := not_or.mp fails
    rw [Decidable.not_not.mp zero] at always
    obtain ⟨waits, none, queue⟩ := run_overslept (Int.not_le.mp large)
    have empty := (always quiet 0 ⟨0, 0, []⟩ 0 overslept).last waits none
    rw [queue] at empty
    cases empty
  · intro condition functions maxInlineData rcv outSize events
    exact always_of_stable (fun _ event guarded => guarded.step event)
      (fun _ guarded => guarded.awake) events
      (start_guarded functions maxInlineData rcv outSize condition)

/-- With room for 33 receives, a thread that always sleeps waits for ever with an invocation in
its queue. -/
theorem wakeup_lost :
    (run step (start 33 quiet 0 0 ⟨0, 0, []⟩ 0) overslept).thread.recvCq = [invocation] ∧
      ¬ Always step Awake (start 33 quiet 0 0 ⟨0, 0, []⟩ 0) overslept := by
  obtain ⟨waits, none, queue⟩ := @run_overslept 33 (by decide)
  refine ⟨queue, fun always => ?_⟩
  have empty := always.last waits none
  rw [queue] at empty
  cases empty

end Sleeper

end RFaaS.FastExecutor
