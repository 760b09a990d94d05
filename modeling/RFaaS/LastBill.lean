/-
This file is about the atomic additions with which a worker thread reports its
time to the manager (`server/executor/fast_executor.hpp`), and about the end of
`thread_work` (`server/executor/fast_executor.cpp`).

While the thread works, it waits for the completion of every addition before it
goes on. At its end it posts what is left of the execution time, and of the
polling time unless that is zero, without waiting, and then polls once. That
poll asks for two completions, which is a maximum: it returns as soon as there
is one. So the second addition may still be on its way when the thread ends and
its connection is destroyed.
-/

import RFaaS.Billing

namespace RFaaS.FastExecutor

open Transition

/-! ### What a step posts -/

namespace Accounting

variable (accounting : Accounting)

theorem length_sendUpdatedExecution_le (force : Bool) :
    (accounting.sendUpdatedExecution force).1.length ≤ 1 := by
  unfold sendUpdatedExecution
  split
  · exact Nat.le_refl 1
  · exact Nat.zero_le 1

theorem length_sendUpdatedPolling_le (force : Bool) :
    (accounting.sendUpdatedPolling force).1.length ≤ 1 := by
  unfold sendUpdatedPolling
  split
  · split
    · exact Nat.zero_le 1
    · exact Nat.le_refl 1
  · exact Nat.zero_le 1

end Accounting

namespace Thread

/-- The number of additions that the next step posts. -/
def posts (thread : Thread) (now : Int) : Nat :=
  (thread.step now).fetchAdds.length - thread.fetchAdds.length

variable {thread : Thread} {now : Int}

theorem posts_eq {added : List FetchAdd}
    (grown : (thread.step now).fetchAdds = thread.fetchAdds ++ added) :
    thread.posts now = added.length := by
  rw [posts, grown, List.length_append, Nat.add_sub_cancel_left]

/-- While the thread works, it posts one addition at a time. -/
theorem posts_le_one (working : thread.control ≠ .finishing) : thread.posts now ≤ 1 := by
  by_cases nothing : thread.charges now = []
  · rw [posts, (thread.quiet_step now nothing working).fetchAdds, Nat.sub_self]
    exact Nat.zero_le 1
  · cases thread.entry now with
    | none charges quiet => exact absurd charges nothing
    | polled start charges accounting fetchAdds =>
      rw [posts_eq fetchAdds]
      exact Accounting.length_sendUpdatedPolling_le _ _
    | executed _ _ _ fetchAdds | executedHot _ _ _ _ _ fetchAdds =>
      rw [posts_eq fetchAdds]
      exact Accounting.length_sendUpdatedExecution_le _ _
    | finishing charges => exact absurd charges nothing

/-- The final accounting posts the execution time, and the polling time if there is any. -/
theorem posts_finishing (ending : thread.control = .finishing) :
    thread.posts now = if thread.accounting.hotPollingTime = 0 then 1 else 2 := by
  have grown : (thread.step now).fetchAdds = thread.fetchAdds ++
      ((thread.accounting.sendUpdatedExecution true).1 ++
        ((thread.accounting.sendUpdatedExecution true).2.sendUpdatedPolling true).1) := by
    rw [step, ending, ← List.append_assoc]
    rfl
  rw [posts_eq grown]
  simp only [Accounting.sendUpdatedExecution, Accounting.sendUpdatedPolling, Bool.true_or, if_true]
  split <;> rfl

theorem step_finishing (ending : thread.control = .finishing) :
    (thread.step now).control = .finished := by
  rw [step, ending]
  rfl

theorem step_finished (ended : thread.control = .finished) : thread.step now = thread := by
  rw [step, ended]

end Thread

/-! ### The connection to the manager -/

/-- A thread with its connection to the manager: the additions that have not completed, the
completions that were not polled, and the number that `poll_wc` asks for while the thread is in
it. -/
structure Bill where
  thread : Thread
  inFlight : Nat
  ready : Nat
  waiting : Option Nat

namespace Bill

inductive Event
  | thread (event : Thread.Event)
  /-- The manager's network card has carried out an addition. -/
  | complete
  /-- `poll_wc` returns that many completions, or as many as it can. -/
  | poll (count : Nat)

def start (functions : Functions) (timeout : Int) (maxInlineData : UInt32) (rcv : Region)
    (outSize : Nat) : Bill where
  thread := Thread.begin_ functions timeout maxInlineData rcv outSize
  inFlight := 0
  ready := 0
  waiting := none

/-- A step of the thread, up to the poll behind its additions. -/
def advance (bill : Bill) (now : Int) : Bill where
  thread := bill.thread.step now
  inFlight := bill.inFlight + bill.thread.posts now
  ready := bill.ready
  waiting :=
    if bill.thread.control = .finishing then some 2
    else if bill.thread.posts now = 0 then none
    else some wcSize

def step (bill : Bill) : Event → Bill
  | .thread (.step now) => if bill.waiting = none then bill.advance now else bill
  | .thread event => { bill with thread := bill.thread.react event }
  | .complete =>
    if bill.inFlight = 0 then bill
    else { bill with inFlight := bill.inFlight - 1, ready := bill.ready + 1 }
  | .poll count =>
    match bill.waiting with
    | none => bill
    | some most =>
      if bill.ready = 0 then bill
      else
        { bill with
          ready := bill.ready - max 1 (min count (min most bill.ready))
          waiting := none }

/-- `thread_work` has returned. -/
def Returned (bill : Bill) : Prop := bill.thread.control = .finished ∧ bill.waiting = none

instance (bill : Bill) : Decidable bill.Returned := inferInstanceAs (Decidable (_ ∧ _))

/-- When `thread_work` has returned, every addition has completed; and when they all have, it does
not go on waiting at its end. -/
structure Delivered (bill : Bill) : Prop where
  complete : bill.Returned → bill.inFlight = 0
  unblocked : bill.thread.control = .finished → bill.inFlight = 0 →
    bill.Returned ∨ ∀ count, (bill.step (.poll count)).Returned

/-- A thread that waits has one addition to wait for, and one that does not has none. -/
def Matched (bill : Bill) : Prop :=
  match bill.waiting with
  | none => bill.inFlight = 0 ∧ bill.ready = 0
  | some _ => bill.inFlight + bill.ready = 1

/-- Until its end the thread waits for what it has posted. -/
def Settled (bill : Bill) : Prop := bill.thread.control ≠ .finished → bill.Matched

variable {bill : Bill}

/-- The events other than a step of the thread, a completion and a poll. -/
theorem step_other {event : Thread.Event} (other : ∀ now, event ≠ .step now) :
    bill.step (.thread event) = { bill with thread := bill.thread.react event } := by
  cases event with
  | step now => exact absurd rfl (other now)
  | _ => rfl

theorem Matched.of_none (free : bill.waiting = none) :
    bill.Matched ↔ bill.inFlight = 0 ∧ bill.ready = 0 := by
  rw [Matched, free]

theorem Matched.of_some {most : Nat} (waits : bill.waiting = some most) :
    bill.Matched ↔ bill.inFlight + bill.ready = 1 := by
  rw [Matched, waits]

theorem Matched.complete (matched : bill.Matched) : (bill.step .complete).Matched := by
  dsimp only [step]
  split
  · exact matched
  · cases waits : bill.waiting with
    | none =>
      rw [Matched.of_none waits] at matched
      omega
    | some most =>
      rw [Matched.of_some waits] at matched
      refine Iff.mpr (Matched.of_some rfl) ?_
      dsimp only
      omega

/-- A poll takes the completion that the thread waits for. -/
theorem Matched.poll (matched : bill.Matched) (count : Nat) :
    (bill.step (.poll count)).Matched := by
  dsimp only [step]
  cases waits : bill.waiting with
  | none => exact matched
  | some most =>
    rw [Matched.of_some waits] at matched
    dsimp only
    split
    · exact Iff.mpr (Matched.of_some waits) matched
    · refine Iff.mpr (Matched.of_none rfl) ⟨?_, ?_⟩
      all_goals
        dsimp only
        omega

theorem step_poll_thread (count : Nat) : (bill.step (.poll count)).thread = bill.thread := by
  dsimp only [step]
  split
  · rfl
  · split <;> rfl

theorem step_complete_thread : (bill.step .complete).thread = bill.thread := by
  dsimp only [step]
  split <;> rfl

/-- The thread goes on only if it does not wait. -/
theorem Settled.advance (settled : bill.Settled) (free : bill.waiting = none) (now : Int) :
    (bill.advance now).Settled := by
  intro going
  have working : bill.thread.control ≠ .finishing :=
    fun ending => going (Thread.step_finishing ending)
  have before : bill.thread.control ≠ .finished :=
    fun ended => going ((congrArg Thread.control (Thread.step_finished ended)).trans ended)
  obtain ⟨none, empty⟩ := (Matched.of_none free).mp (settled before)
  have few : bill.thread.posts now ≤ 1 := Thread.posts_le_one working
  by_cases silent : bill.thread.posts now = 0
  · refine Iff.mpr (Matched.of_none ?_) ⟨?_, empty⟩
    · exact (if_neg working).trans (if_pos silent)
    · dsimp only [Bill.advance]
      omega
  · refine Iff.mpr (@Matched.of_some _ wcSize ((if_neg working).trans (if_neg silent))) ?_
    dsimp only [Bill.advance]
    omega

theorem Settled.step (settled : bill.Settled) (event : Event) : (bill.step event).Settled := by
  cases event with
  | thread event =>
    rcases bill.thread.react_cases event with ⟨now, rfl⟩ | ⟨other, _, _, control⟩
    · dsimp only [Bill.step]
      split
      · rename_i free
        exact settled.advance free now
      · exact settled
    · rw [step_other other]
      intro going
      exact settled (control ▸ going)
  | complete =>
    intro going
    rw [step_complete_thread] at going
    exact (settled going).complete
  | poll count =>
    intro going
    rw [step_poll_thread] at going
    exact (settled going).poll count

/-! ### The end of the thread -/

theorem advance_finished (ended : bill.thread.control = .finished) (free : bill.waiting = none)
    (now : Int) : bill.advance now = bill := by
  have idle : bill.thread.step now = bill.thread := Thread.step_finished ended
  have silent : bill.thread.posts now = 0 := by rw [Thread.posts, idle, Nat.sub_self]
  rw [advance, idle, silent, ended, if_neg Control.noConfusion, if_pos rfl, ← free]
  rfl

/-- The thread is about to report what is left. -/
def AtEnd (bill : Bill) : Prop := bill.thread.control = .finishing ∧ bill.waiting = none

/-- From the end on, if there is nothing left of the polling time. -/
inductive Closing (bill : Bill) : Prop
  | before (ends : bill.AtEnd) (matched : bill.Matched)
      (spent : bill.thread.accounting.hotPollingTime = 0)
  | after (ended : bill.thread.control = .finished) (matched : bill.Matched)

theorem Closing.step (closing : bill.Closing) (event : Event) : (bill.step event).Closing := by
  cases closing with
  | before ends matched spent =>
    obtain ⟨ending, free⟩ := ends
    obtain ⟨none, empty⟩ := (Matched.of_none free).mp matched
    cases event with
    | thread event =>
      rcases bill.thread.react_cases event with ⟨now, rfl⟩ | ⟨other, accounting, _, control⟩
      · have same : bill.step (.thread (.step now)) = bill.advance now := if_pos free
        have one : bill.thread.posts now = 1 := by
          rw [Thread.posts_finishing ending, if_pos spent]
        rw [same]
        refine .after (Thread.step_finishing ending) (Iff.mpr (Matched.of_some (if_pos ending)) ?_)
        dsimp only [Bill.advance]
        omega
      · rw [step_other other]
        exact .before ⟨control.trans ending, free⟩ matched ((congrArg _ accounting).trans spent)
    | complete =>
      have same : bill.step .complete = bill := if_pos none
      rw [same]
      exact .before ⟨ending, free⟩ matched spent
    | poll count =>
      have same : bill.step (.poll count) = bill := by
        dsimp only [Bill.step]
        rw [free]
      rw [same]
      exact .before ⟨ending, free⟩ matched spent
  | after ended matched =>
    cases event with
    | thread event =>
      rcases bill.thread.react_cases event with ⟨now, rfl⟩ | ⟨other, _, _, control⟩
      · dsimp only [Bill.step]
        split
        · rename_i free
          rw [advance_finished ended free]
          exact .after ended matched
        · exact .after ended matched
      · rw [step_other other]
        exact .after (control.trans ended) matched
    | complete => exact .after (by rw [step_complete_thread]; exact ended) matched.complete
    | poll count => exact .after (by rw [step_poll_thread]; exact ended) (matched.poll count)

theorem Closing.delivered (closing : bill.Closing) : bill.Delivered := by
  cases closing with
  | before ends =>
    have going : bill.thread.control ≠ .finished := by
      rw [ends.1]
      exact Control.noConfusion
    exact ⟨fun returned => absurd returned.1 going, fun ended => absurd ended going⟩
  | after ended matched =>
    cases waits : bill.waiting with
    | none =>
      obtain ⟨complete, _⟩ := (Matched.of_none waits).mp matched
      exact ⟨fun _ => complete, fun _ _ => Or.inl ⟨ended, waits⟩⟩
    | some most =>
      have one := (Matched.of_some waits).mp matched
      refine ⟨fun returned => absurd returned.2 (by rw [waits]; exact Option.some_ne_none _),
        fun _ complete => Or.inr fun count => ⟨?_, ?_⟩⟩
      · rw [step_poll_thread]
        exact ended
      · dsimp only [Bill.step]
        rw [waits]
        dsimp only
        rw [if_neg (by omega)]

/-- What is left of the polling time is posted second, and the poll may return after the first
addition. -/
theorem not_delivered (ends : bill.AtEnd) (matched : bill.Matched)
    (left : bill.thread.accounting.hotPollingTime ≠ 0) :
    ¬(run step bill [.thread (.step 0), .complete, .poll 1]).Delivered := by
  obtain ⟨ending, free⟩ := ends
  obtain ⟨none, empty⟩ := (Matched.of_none free).mp matched
  have two : bill.thread.posts 0 = 2 := by rw [Thread.posts_finishing ending, if_neg left]
  have posted : bill.step (.thread (.step 0)) = ⟨bill.thread.step 0, 2, 0, some 2⟩ := by
    refine (if_pos free : _ = bill.advance 0).trans ?_
    rw [advance, if_pos ending, none, empty, two]
  have last : run step bill [.thread (.step 0), .complete, .poll 1] =
      ⟨bill.thread.step 0, 1, 0, Option.none⟩ := by
    rw [run_cons, posted]
    rfl
  rw [last]
  exact fun delivered =>
    Nat.one_ne_zero (delivered.complete ⟨Thread.step_finishing ending, rfl⟩)

theorem start_settled (functions : Functions) (timeout : Int) (maxInlineData : UInt32)
    (rcv : Region) (outSize : Nat) :
    (start functions timeout maxInlineData rcv outSize).Settled :=
  fun _ => ⟨rfl, rfl⟩

/-- For a thread that has come to its end in any way, the last additions have completed when
`thread_work` returns, whatever the polls return, and it does not wait for one that was never
posted, exactly if there is nothing left of the polling time. -/
theorem last_bill_delivered_iff (functions : Functions) (timeout : Int) (maxInlineData : UInt32)
    (rcv : Region) (outSize : Nat) (events : List Event)
    (ends : (run step (start functions timeout maxInlineData rcv outSize) events).AtEnd) :
    (∀ later, Always step Delivered
        (run step (start functions timeout maxInlineData rcv outSize) events) later) ↔
      (run step (start functions timeout maxInlineData rcv outSize)
        events).thread.accounting.hotPollingTime = 0 := by
  have preserved : ∀ (bill : Bill) event, bill.Settled → (bill.step event).Settled :=
    fun _ event settled => settled.step event
  have settled := run_stable preserved events
    (start_settled functions timeout maxInlineData rcv outSize)
  have matched := settled (by rw [ends.1]; exact Control.noConfusion)
  constructor
  · intro always
    by_contra left
    exact not_delivered ends matched left (always _).last
  · intro spent later
    exact always_of_stable (fun _ event closing => Closing.step closing event)
      (fun _ closing => Closing.delivered closing) later (.before ends matched spent)

/-- A warm thread serves one invocation and is told to end: it has an execution time to bill and
has not polled hot at all. -/
theorem last_bill_delivered_warm :
    let bill := run step (start ⟨["echo"], fun _ input _ _ => (1, input)⟩ 0 0
        ⟨64, 7, List.replicate 16 0⟩ 4)
      [.thread (.land (postWrite (List.replicate 13 1) ⟨64, 7⟩
        (Immediate.submission 1#32 0#32) true false)), .thread (.step 11), .thread (.step 20),
        .thread (.step 25), .thread (.step 75), .thread .terminate, .thread (.step 125),
        .thread (.step 126), .thread (.step 127), .thread (.step 128), .thread (.step 129)]
    bill.thread.accounting.executionTime = 50 ∧
      Always step Delivered bill [.thread (.step 130), .complete, .poll 1] := by
  intro bill
  refine ⟨by decide, (last_bill_delivered_iff _ 0 0 _ 4 _ ?_).mpr (by decide) _⟩
  exact ⟨by decide, by decide⟩

/-- A hot thread serves one invocation and is told to end. Two additions are posted, the poll
returns after the first one has completed, and the thread ends. -/
theorem second_addition_outstanding :
    let bill := run step (start ⟨["echo"], fun _ input _ _ => (1, input)⟩ 5 0
        ⟨64, 7, List.replicate 16 0⟩ 4)
      [.thread (.step 10), .thread (.land (postWrite (List.replicate 13 1) ⟨64, 7⟩
        (Immediate.submission 1#32 0#32) true false)), .thread (.step 11), .thread (.step 20),
        .thread (.step 25), .thread (.step 75), .thread .terminate, .thread (.step 76),
        .thread (.step 77), .thread (.step 78), .thread (.step 79)]
    bill.thread.accounting.hotPollingTime = 10 ∧
      let last := run step bill [.thread (.step 80), .complete, .poll 1]
      last.Returned ∧ last.inFlight = 1 := by
  decide

end Bill

end RFaaS.FastExecutor
