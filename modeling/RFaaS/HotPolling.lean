/-
This file is about how long a worker thread polls hot (`Thread::hot` in
`server/executor/fast_executor.cpp`). The thread looks at the clock once in
10000 rounds of its loop. If the time since it looked last, since it entered the
loop, or since it ended an invocation has reached the timeout, it becomes warm.

The elapsed time is a number of nanoseconds, cut to 32 bits, and it is compared
with the timeout as it was configured. So a timeout is kept as a number of
nanoseconds, and as nothing longer: with the milliseconds of the documentation
(`docs/tutorial.md`), a thread becomes warm a million times too early.
-/

import RFaaS.Billing

namespace RFaaS.FastExecutor

open Transition

/-! ### Where a thread becomes warm -/

namespace Thread

/-- The thread keeps its timeout, and it has not become warm. -/
structure Unswitched (before after : Thread) : Prop where
  timeout : after.timeout = before.timeout
  warm : after.pollingState = .warm → before.pollingState = .warm

section Unswitched

variable (thread : Thread) (now start : Int) (count : Nat) (batch : List WorkCompletion)
  (index : Nat)

theorem unswitched_dispatch : Unswitched thread (thread.dispatch now) := by
  unfold dispatch
  split
  · exact ⟨rfl, id⟩
  · split <;> exact ⟨rfl, id⟩

theorem unswitched_hotPoll : Unswitched thread (thread.hotPoll start count) := by
  unfold hotPoll
  split
  · exact ⟨rfl, id⟩
  · dsimp only
    split <;> exact ⟨rfl, id⟩

theorem unswitched_hotNext : Unswitched thread (thread.hotNext now start count batch index) := by
  unfold hotNext
  split
  · exact ⟨rfl, id⟩
  · split <;> exact ⟨rfl, id⟩

theorem unswitched_warmPoll : Unswitched thread thread.warmPoll := by
  unfold warmPoll
  split
  · exact ⟨rfl, id⟩
  · dsimp only
    split <;> exact ⟨rfl, id⟩

theorem unswitched_warmNext : Unswitched thread (thread.warmNext batch index) := by
  unfold warmNext
  split
  · split
    · exact ⟨rfl, PollingState.noConfusion⟩
    · exact ⟨rfl, id⟩
  · split <;> exact ⟨rfl, id⟩

theorem unswitched_warmWait : Unswitched thread thread.warmWait := by
  unfold warmWait
  split
  · exact ⟨rfl, id⟩
  · split <;> exact ⟨rfl, id⟩

theorem unswitched_calling (caller : Caller) (task : Task) :
    Unswitched thread (thread.calling now caller task) := by
  unfold calling
  split <;> exact ⟨rfl, id⟩

theorem unswitched_replying (caller : Caller) (task : Task) (outSize : UInt32) :
    Unswitched thread (thread.replying now caller task start outSize) := by
  cases caller <;> exact ⟨rfl, id⟩

end Unswitched

/-- What a step does to the polling state. The thread can become warm only at the end of a
verification period of `hot`, when the timeout has passed. -/
inductive Turn (thread : Thread) (now : Int) : Prop
  | none (unswitched : Unswitched thread (thread.step now))
  | warm (start : Int) (count : Nat) (control : thread.control = .hotCount start count)
      (timeout : (thread.step now).timeout = thread.timeout)
      (passed : UInt32.ofInt thread.timeout ≤ UInt32.ofInt (now - start))

variable {thread : Thread} {now : Int}

theorem Turn.of_unswitched {next : Thread} (same : thread.step now = next)
    (unswitched : Unswitched thread next) : thread.Turn now :=
  .none (same ▸ unswitched)

theorem turn (thread : Thread) (now : Int) : thread.Turn now := by
  cases control : thread.control with
  | dispatch => exact .of_unswitched (by rw [step, control]) (thread.unswitched_dispatch now)
  | hotPoll start count =>
    exact .of_unswitched (by rw [step, control]) (thread.unswitched_hotPoll start count)
  | hotNext start count batch index =>
    exact .of_unswitched (by rw [step, control])
      (thread.unswitched_hotNext now start count batch index)
  | hotCount start count =>
    have same : thread.step now = thread.hotCount now start count := by rw [step, control]
    unfold hotCount at same
    split at same
    · dsimp only at same
      split at same
      · rename_i passed
        exact .warm start count control (by rw [same]; rfl) passed.2
      · exact .of_unswitched same ⟨rfl, id⟩
    · exact .of_unswitched same ⟨rfl, id⟩
  | warmPoll => exact .of_unswitched (by rw [step, control]) thread.unswitched_warmPoll
  | warmNext batch index =>
    exact .of_unswitched (by rw [step, control]) (thread.unswitched_warmNext batch index)
  | warmWait => exact .of_unswitched (by rw [step, control]) thread.unswitched_warmWait
  | warmNotify =>
    have same : thread.step now = { thread with control := .warmPoll }.notifyEvents := by
      rw [step, control]
    exact .of_unswitched same ⟨rfl, id⟩
  | calling caller task =>
    exact .of_unswitched (by rw [step, control]) (thread.unswitched_calling now caller task)
  | replying caller task start outSize =>
    exact .of_unswitched (by rw [step, control])
      (thread.unswitched_replying now start caller task outSize)
  | finishing =>
    have same : thread.step now = thread.finishing := by rw [step, control]
    exact .of_unswitched same ⟨rfl, id⟩
  | _ => exact .of_unswitched (by rw [step, control]) ⟨rfl, id⟩

theorem Turn.timeout (turn : thread.Turn now) : (thread.step now).timeout = thread.timeout := by
  cases turn with
  | none unswitched => exact unswitched.timeout
  | warm start count control timeout passed => exact timeout

theorem react_timeout (thread : Thread) (event : Event) :
    (thread.react event).timeout = thread.timeout := by
  cases event with
  | step now => exact (thread.turn now).timeout
  | land write =>
    show (thread.land write).timeout = _
    unfold land
    split <;> rfl
  | _ => rfl

theorem dispatch_hot (running : thread.termProcess = false) (hot : thread.pollingState = .hot)
    (now : Int) : thread.dispatch now = { thread with control := .hotPoll now 0 } := by
  unfold dispatch
  rw [running, hot]
  rfl

end Thread

/-! ### Idle time -/

/-- A thread with its clock. `idleSince` is a ghost: the later one of the last entry into `hot`
and the end of the last invocation that it executed. -/
structure Watch where
  thread : Thread
  clock : Int
  idleSince : Int

namespace Watch

def start (functions : Functions) (timeout : Int) (maxInlineData : UInt32) (rcv : Region)
    (outSize : Nat) (began : Int) : Watch where
  thread := Thread.begin_ functions timeout maxInlineData rcv outSize
  clock := began
  idleSince := began

/-- The loop of `thread_work` enters `hot`, or `work` returns to it. -/
def idle (since now : Int) : Control → Int
  | .dispatch => now
  | .replying (.hot _ _ _ _ _) _ _ _ => now
  | _ => since

def step (watch : Watch) : Thread.Event → Watch
  | .step now =>
    { thread := watch.thread.step now
      clock := now
      idleSince := idle watch.idleSince now watch.thread.control }
  | event => { watch with thread := watch.thread.react event }

/-- The clock does not go back. -/
def Forward (watch : Watch) : Thread.Event → Prop
  | .step now => watch.clock ≤ now
  | _ => True

instance (watch : Watch) : DecidablePred watch.Forward
  | .step now => inferInstanceAs (Decidable (watch.clock ≤ now))
  | .land _ | .arrive _ | .terminate => inferInstanceAs (Decidable True)

/-- A thread that becomes warm has been idle for its timeout, which counts `unit` nanoseconds
each. -/
def Patient (unit : Nat) (watch : Watch) : Thread.Event → Prop
  | .step now => watch.thread.pollingState ≠ .warm → (watch.thread.step now).pollingState = .warm →
    watch.thread.timeout * unit ≤ now - watch.idleSince
  | _ => True

/-- The point of time from which the thread measures is not before it became idle. -/
structure Rested (timeout : Int) (watch : Watch) : Prop where
  timeout : watch.thread.timeout = timeout
  ordered : Meter.Ordered watch.clock watch.thread.control
  measured : watch.idleSince ≤ Meter.since watch.clock watch.thread.control

variable {timeout : Int} {watch : Watch}

/-- When the thread becomes idle, it begins to measure. -/
theorem idle_le {thread : Thread} {clock now since : Int} (forward : clock ≤ now)
    (ordered : Meter.Ordered clock thread.control)
    (measured : since ≤ Meter.since clock thread.control) :
    idle since now thread.control ≤ Meter.since now (thread.step now).control := by
  have later := measured.trans (Meter.passes_step forward ordered).2
  cases control : thread.control with
  | dispatch =>
    rw [Thread.step, control]
    exact (Meter.passes_dispatch (le_refl now) thread).2
  | replying caller =>
    cases caller with
    | hot =>
      rw [Thread.step, control]
      exact le_refl now
    | warm => exact later
  | _ => exact later

theorem step_other {event : Thread.Event} (other : ∀ now, event ≠ .step now) :
    watch.step event = { watch with thread := watch.thread.react event } := by
  cases event with
  | step now => exact absurd rfl (other now)
  | _ => rfl

theorem Rested.step (rested : watch.Rested timeout) {event : Thread.Event}
    (forward : watch.Forward event) : (watch.step event).Rested timeout := by
  rcases watch.thread.react_cases event with ⟨now, rfl⟩ | ⟨other, _, _, control⟩
  · exact ⟨(watch.thread.turn now).timeout.trans rested.timeout,
      (Meter.passes_step forward rested.ordered).1,
      idle_le forward rested.ordered rested.measured⟩
  · have ordered := rested.ordered
    have measured := rested.measured
    rw [← control] at ordered measured
    rw [step_other other]
    exact ⟨(watch.thread.react_timeout event).trans rested.timeout, ordered, measured⟩

/-- The time that passed is compared in 32 bits, which make it shorter at most. -/
theorem timeout_le_of_passed (positive : 0 < timeout) (fits : timeout < 2 ^ 31) {elapsed : Int}
    (forward : 0 ≤ elapsed) (passed : UInt32.ofInt timeout ≤ UInt32.ofInt elapsed) :
    timeout ≤ elapsed := by
  rw [UInt32.le_iff_toNat_le, UInt32.ofInt, UInt32.ofInt, UInt32.toNat_ofNat',
    UInt32.toNat_ofNat'] at passed
  omega

/-- The timeout is kept in nanoseconds. -/
theorem Rested.patient (rested : watch.Rested timeout) (positive : 0 < timeout)
    (fits : timeout < 2 ^ 31) {unit : Nat} (nanoseconds : unit ≤ 1) {event : Thread.Event}
    (forward : watch.Forward event) : watch.Patient unit event := by
  cases event with
  | step now =>
    intro cold warm
    cases watch.thread.turn now with
    | none unswitched => exact absurd (unswitched.warm warm) cold
    | warm start count control same passed =>
      have ordered := rested.ordered
      have measured := rested.measured
      rw [control] at ordered measured
      rw [rested.timeout] at passed ⊢
      have begun : start ≤ now := le_trans ordered forward
      have enough := timeout_le_of_passed positive fits (Int.sub_nonneg.mpr begun) passed
      have idle : watch.idleSince ≤ start := measured
      have scaled : timeout * unit ≤ timeout * 1 :=
        Int.mul_le_mul_of_nonneg_left (by omega) (le_of_lt positive)
      omega
  | _ => trivial

/-! ### A thread that nobody calls -/

/-- A thread that has polled an empty queue in vain since `now`, with the clock standing still. -/
structure Polls (timeout now : Int) (count : Nat) (watch : Watch) : Prop where
  control : watch.thread.control = .hotPoll now count
  recvCq : watch.thread.recvCq = []
  running : watch.thread.termProcess = false
  hot : watch.thread.pollingState = .hot
  timeout : watch.thread.timeout = timeout
  clock : watch.clock = now
  idle : watch.idleSince = now

variable {now : Int} {count : Nat}

theorem Polls.poll (polls : watch.Polls timeout now count) :
    watch.step (.step now) =
      { watch with thread := { watch.thread with control := .hotCount now count } } := by
  obtain ⟨thread, clock, idleSince⟩ := watch
  cases thread
  obtain ⟨control, recvCq, running, _, _, clocked, _⟩ := polls
  dsimp only at control recvCq running clocked
  subst control recvCq running clocked
  rfl

theorem Polls.round (polls : watch.Polls timeout now count)
    (early : count + 1 < hotPollingVerificationPeriod) :
    (run step watch [.step now, .step now]).Polls timeout now (count + 1) := by
  rw [run_cons, run_cons, run_nil, polls.poll]
  have counted : Thread.step { watch.thread with control := .hotCount now count } now =
      { watch.thread with control := .hotPoll now (count + 1) } := if_neg (Nat.ne_of_lt early)
  dsimp only [step, idle]
  rw [counted]
  exact { polls with control := rfl, clock := rfl }

/-- Some rounds one after the other. -/
def rounds (now : Int) (number : Nat) : List Thread.Event :=
  (List.replicate number [.step now, .step now]).flatten

theorem Polls.rounds (polls : watch.Polls timeout now count) {number : Nat}
    (early : count + number < hotPollingVerificationPeriod) :
    Along step Forward watch (rounds now number) ∧
      (run step watch (rounds now number)).Polls timeout now (count + number) := by
  induction number generalizing watch count with
  | zero => exact ⟨trivial, polls⟩
  | succ number inductionHypothesis =>
    have next := polls.round (by omega : count + 1 < hotPollingVerificationPeriod)
    obtain ⟨forward, last⟩ := inductionHypothesis next (by omega)
    rw [Nat.add_right_comm] at last
    exact ⟨⟨le_of_eq polls.clock, le_refl now, forward⟩, last⟩

/-- A thread that is never called. It enters `hot` and polls for some rounds, at the end of which
its timeout has passed, in nanoseconds. -/
def uncalled (timeout began : Int) (number : Nat) : List Thread.Event :=
  .step began :: rounds began number ++ [.step began, .step (began + timeout)]

theorem start_polls (functions : Functions) (positive : 0 < timeout) (maxInlineData : UInt32)
    (rcv : Region) (outSize : Nat) (began : Int) :
    ((start functions timeout maxInlineData rcv outSize began).step (.step began)).Polls timeout
      began 0 := by
  have hot : (start functions timeout maxInlineData rcv outSize began).thread.pollingState =
      .hot := by
    show (if timeout = -1 then PollingState.hotAlways
      else if timeout = 0 then .warmAlways else .hot) = .hot
    rw [if_neg (by omega), if_neg (by omega)]
  have entered : (start functions timeout maxInlineData rcv outSize began).thread.step began =
      { (start functions timeout maxInlineData rcv outSize began).thread with
        control := .hotPoll began 0 } := Thread.dispatch_hot rfl hot began
  dsimp only [step]
  rw [entered]
  exact ⟨rfl, rfl, rfl, hot, rfl, rfl, rfl⟩

/-- The last step of a thread that is never called: it becomes warm, and it has been idle for
exactly its timeout, in nanoseconds. -/
theorem Polls.switches (polls : watch.Polls timeout now count)
    (last : count + 1 = hotPollingVerificationPeriod) :
    let counting := watch.step (.step now)
    counting.thread.pollingState = .hot ∧ counting.thread.timeout = timeout ∧
      counting.clock = now ∧ counting.idleSince = now ∧
      (counting.thread.step (now + timeout)).pollingState = .warm := by
  intro counting
  have counted : counting = _ := polls.poll
  rw [counted]
  refine ⟨polls.hot, polls.timeout, polls.clock, polls.idle, ?_⟩
  have passed : watch.thread.pollingState ≠ .hotAlways ∧
      UInt32.ofInt watch.thread.timeout ≤
        (watch.thread.accounting.updatePollingTime now (now + timeout)).1 := by
    rw [polls.hot, polls.timeout, Accounting.updatePollingTime, add_sub_cancel_left]
    exact ⟨PollingState.noConfusion, UInt32.le_refl _⟩
  show (Thread.hotCount { watch.thread with control := .hotCount now count } (now + timeout) now
    count).pollingState = .warm
  unfold Thread.hotCount
  rw [if_pos last]
  dsimp only
  rw [if_pos passed]
  rfl

theorem uncalled_forward {number : Nat} (period : number + 1 = hotPollingVerificationPeriod)
    (functions : Functions) (positive : 0 < timeout) (maxInlineData : UInt32) (rcv : Region)
    (outSize : Nat) (began : Int) :
    Along step Forward (start functions timeout maxInlineData rcv outSize began)
      (uncalled timeout began number) := by
  have entered := start_polls functions positive maxInlineData rcv outSize began
  obtain ⟨forward, last⟩ := entered.rounds (by omega : 0 + number < _)
  refine along_append.mpr ⟨⟨le_refl began, forward⟩, le_of_eq last.clock, ?_, trivial⟩
  show began ≤ began + timeout
  omega

/-- A thread that is never called does not wait for longer than its timeout in nanoseconds. -/
theorem unit_le_of_patient {number unit : Nat}
    (period : number + 1 = hotPollingVerificationPeriod) (functions : Functions)
    (positive : 0 < timeout) (maxInlineData : UInt32) (rcv : Region) (outSize : Nat) (began : Int)
    (patient : Along step (Patient unit)
      (start functions timeout maxInlineData rcv outSize began)
      (uncalled timeout began number)) : unit ≤ 1 := by
  have entered := start_polls functions positive maxInlineData rcv outSize began
  obtain ⟨_, last⟩ := entered.rounds (by omega : 0 + number < _)
  obtain ⟨hot, same, _, idle, warm⟩ := last.switches (by omega)
  obtain ⟨_, tail⟩ := along_append.mp patient
  rw [run_cons] at tail
  obtain ⟨_, waited, _⟩ := tail
  have enough := waited (by rw [hot]; exact PollingState.noConfusion) warm
  rw [same, idle, add_sub_cancel_left] at enough
  have scaled : timeout * unit ≤ timeout * 1 := by
    rw [Int.mul_one]
    exact enough
  have short := Int.le_of_mul_le_mul_left scaled positive
  omega

theorem start_rested (functions : Functions) (timeout : Int) (maxInlineData : UInt32)
    (rcv : Region) (outSize : Nat) (began : Int) :
    (start functions timeout maxInlineData rcv outSize began).Rested timeout :=
  ⟨rfl, le_refl began, le_refl began⟩

/-- The timeout is kept, whatever arrives and whatever the clock shows, exactly if it is taken as
a number of nanoseconds: a thread becomes warm only when it has been idle for `timeout` times
`unit` nanoseconds if and only if the unit is no longer than one. With milliseconds this never
holds. -/
theorem hot_polling_patient_iff (functions : Functions) (timeout : Int) (positive : 0 < timeout)
    (fits : timeout < 2 ^ 31) (maxInlineData : UInt32) (rcv : Region) (outSize : Nat)
    (began : Int) (unit : Nat) :
    (∀ events,
      Along step Forward (start functions timeout maxInlineData rcv outSize began) events →
        Along step (Patient unit) (start functions timeout maxInlineData rcv outSize began)
          events) ↔
      unit ≤ 1 := by
  constructor
  · intro always
    have period : 9999 + 1 = hotPollingVerificationPeriod := rfl
    exact unit_le_of_patient period functions positive maxInlineData rcv outSize began
      (always _ (uncalled_forward period functions positive maxInlineData rcv outSize began))
  · intro nanoseconds events forward
    have rested := start_rested functions timeout maxInlineData rcv outSize began
    exact Along.of_invariant (fun _ _ rested forward => Rested.step rested forward)
      (fun _ _ rested forward => Rested.patient rested positive fits nanoseconds forward) rested
      forward

/-- A timeout of five nanoseconds, in a run with one invocation. -/
theorem hot_polling_patient_called :
    Along step (Patient 1) (start ⟨["echo"], fun _ input _ _ => (1, input)⟩ 5 0
      ⟨64, 7, List.replicate 16 0⟩ 4 0) [.step 10, .land (postWrite (List.replicate 13 1) ⟨64, 7⟩
      (Immediate.submission 1#32 0#32) true false), .step 11, .step 20, .step 25, .step 75] :=
  (hot_polling_patient_iff _ 5 (by decide) (by decide) 0 _ 4 0 1).mpr (by decide) _ (by decide)

/-- With a timeout of one, a thread that is never called becomes warm after one nanosecond, and
not after one millisecond. -/
theorem warm_after_a_nanosecond :
    let watch := start ⟨[], fun _ _ _ output => (0, output)⟩ 1 0 ⟨64, 7, []⟩ 0 0
    Along step Forward watch (uncalled 1 0 9999) ∧
      ¬Along step (Patient 1000000) watch (uncalled 1 0 9999) := by
  intro watch
  have period : 9999 + 1 = hotPollingVerificationPeriod := rfl
  refine ⟨uncalled_forward period _ (by decide) 0 _ 0 0, fun patient => ?_⟩
  exact absurd (unit_le_of_patient period _ (by decide) 0 _ 0 0 patient) (by decide)

end Watch

end RFaaS.FastExecutor
