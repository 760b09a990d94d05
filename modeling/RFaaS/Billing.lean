/-
This file is about the time that worker threads charge
(`server/executor/fast_executor.hpp`, `server/executor/fast_executor.cpp`).

A thread measures two kinds of intervals, hot polling and execution. It adds
every interval to a total and to an amount that is to be reported. What it
reports it adds remotely to one of two words of the manager
(`server/executor_manager/accounting.hpp`).

No point of time is charged twice, and what is reported is what was charged.
-/

import RFaaS.FastExecutor
import RFaaS.Stretch
import RFaaS.Transition
import Mathlib.Algebra.Order.Group.Int
import Mathlib.Data.UInt

namespace RFaaS.FastExecutor

open Transition List

/-! ### Sums of 64 bits -/

/-- What the chosen items add up to, in 64 bits. -/
def sumOf {Item : Type} (chosen : Item → Prop) [DecidablePred chosen] (value : Item → UInt64)
    (items : List Item) : UInt64 :=
  ((items.filter chosen).map value).sum

section Sums

variable {Item : Type} (chosen : Item → Prop) [DecidablePred chosen] (value : Item → UInt64)

theorem sumOf_append (first second : List Item) :
    sumOf chosen value (first ++ second) =
      sumOf chosen value first + sumOf chosen value second := by
  rw [sumOf, filter_append, map_append, sum_append]
  rfl

theorem sumOf_single (item : Item) :
    sumOf chosen value [item] = if chosen item then value item else 0 := by
  unfold sumOf
  by_cases holds : chosen item
  · rw [if_pos holds, filter_cons, if_pos (decide_eq_true holds)]
    exact add_zero (value item)
  · rw [if_neg holds, filter_cons, if_neg (by rw [decide_eq_true_eq]; exact holds)]
    rfl

theorem toNat_sumOf_cons_le (item : Item) (rest : List Item) :
    (sumOf chosen value (item :: rest)).toNat ≤
      (if chosen item then (value item).toNat else 0) + (sumOf chosen value rest).toNat := by
  rw [← singleton_append, sumOf_append, sumOf_single, UInt64.toNat_add]
  refine (Nat.mod_le _ _).trans (Nat.add_le_add_right (Nat.le_of_eq ?_) _)
  split <;> rfl

end Sums

/-! ### Charges -/

inductive Kind
  | polling
  | execution
  deriving DecidableEq, Repr

/-- A measured interval that was added to the total of its kind. -/
structure Charge where
  kind : Kind
  stretch : Stretch Int
  deriving DecidableEq, Repr

namespace Charge

/-- What the interval adds to the total. Polling time goes through 32 bits. -/
def amount (charge : Charge) : UInt64 :=
  match charge.kind with
  | .polling => (UInt32.ofInt charge.stretch.length).toUInt64
  | .execution => UInt64.ofInt charge.stretch.length

/-- What charges of one kind add up to. -/
def total (kind : Kind) (charges : List Charge) : UInt64 := sumOf (·.kind = kind) amount charges

theorem total_concat (kind : Kind) (charges : List Charge) (charge : Charge) :
    total kind (charges ++ [charge]) =
      total kind charges + if charge.kind = kind then charge.amount else 0 := by
  unfold total
  rw [sumOf_append, sumOf_single]

/-- No more is added than the interval is long. -/
theorem toNat_amount_le {charge : Charge} (ordered : charge.stretch.start ≤ charge.stretch.finish) :
    (charge.amount.toNat : Int) ≤ charge.stretch.length := by
  have positive : 0 ≤ charge.stretch.length := Int.sub_nonneg.mpr ordered
  unfold amount
  cases charge.kind with
  | polling =>
    rw [UInt32.toNat_toUInt64, UInt32.ofInt, UInt32.toNat_ofNat']
    omega
  | execution =>
    rw [UInt64.ofInt, UInt64.toNat_ofNat']
    omega

/-- Both totals together are no more than all intervals are long. -/
theorem toNat_total_le {charges : List Charge}
    (ordered : ∀ charge ∈ charges, charge.stretch.start ≤ charge.stretch.finish) :
    ((total .polling charges).toNat + (total .execution charges).toNat : Int) ≤
      ((charges.map stretch).map Stretch.length).sum := by
  induction charges with
  | nil => exact le_rfl
  | cons charge rest inductionHypothesis =>
    have later := inductionHypothesis fun other inside =>
      ordered other (mem_cons_of_mem _ inside)
    have first := toNat_amount_le (ordered charge mem_cons_self)
    have polling := toNat_sumOf_cons_le (·.kind = .polling) amount charge rest
    have execution := toNat_sumOf_cons_le (·.kind = .execution) amount charge rest
    unfold total at later ⊢
    rw [map_cons, map_cons, sum_cons]
    cases kind : charge.kind with
    | polling =>
      rw [kind, if_pos rfl] at polling
      rw [kind, if_neg Kind.noConfusion] at execution
      omega
    | execution =>
      rw [kind, if_neg Kind.noConfusion] at polling
      rw [kind, if_pos rfl] at execution
      omega

end Charge

namespace Accounting

/-- The totals are the sums of the charges. -/
structure Charged (accounting : Accounting) (charges : List Charge) : Prop where
  polling : accounting.totalHotPollingTime = Charge.total .polling charges
  execution : accounting.totalExecutionTime = Charge.total .execution charges

variable {accounting : Accounting} {charges : List Charge}

section

variable (charged : accounting.Charged charges)
include charged

theorem Charged.updateExecutionTime (start finish : Int) :
    (accounting.updateExecutionTime start finish).Charged
      (charges ++ [⟨.execution, start, finish⟩]) where
  polling := by
    rw [Charge.total_concat, if_neg Kind.noConfusion, add_zero]
    exact charged.polling
  execution := by
    rw [Charge.total_concat, if_pos rfl, ← charged.execution]
    rfl

theorem Charged.updatePollingTime (start finish : Int) :
    (accounting.updatePollingTime start finish).2.Charged
      (charges ++ [⟨.polling, start, finish⟩]) where
  polling := by
    rw [Charge.total_concat, if_pos rfl, ← charged.polling]
    rfl
  execution := by
    rw [Charge.total_concat, if_neg Kind.noConfusion, add_zero]
    exact charged.execution

theorem Charged.sendUpdatedExecution (force : Bool) :
    (accounting.sendUpdatedExecution force).2.Charged charges := by
  unfold Accounting.sendUpdatedExecution
  split
  · exact ⟨charged.polling, charged.execution⟩
  · exact charged

theorem Charged.sendUpdatedPolling (force : Bool) :
    (accounting.sendUpdatedPolling force).2.Charged charges := by
  unfold Accounting.sendUpdatedPolling
  split
  · split
    · exact charged
    · exact ⟨charged.polling, charged.execution⟩
  · exact charged

end

end Accounting

/-! ### A worker thread among its events -/

namespace Thread

/-- What can happen to a thread. -/
inductive Event
  | step (now : Int)
  /-- A write of the client arrives. -/
  | land (write : Write)
  /-- Any completion enters the queue. -/
  | arrive (completion : WorkCompletion)
  /-- The handler of the signal sets `term_process`. -/
  | terminate

def react (thread : Thread) : Event → Thread
  | .step now => thread.step now
  | .land write => thread.land write
  | .arrive completion => thread.arrive completion
  | .terminate => { thread with termProcess := true }

/-- The intervals that the next step charges, in the order in which it does. -/
def charges (thread : Thread) (now : Int) : List Charge :=
  match thread.control with
  | .hotCount start count =>
    if count + 1 = hotPollingVerificationPeriod then [⟨.polling, start, now⟩] else []
  | .replying (.hot hotStart hotNow _ _ _) _ start _ =>
    [⟨.execution, start, now⟩, ⟨.polling, hotStart, hotNow⟩]
  | .replying (.warm _ _) _ start _ => [⟨.execution, start, now⟩]
  | _ => []

/-- The account is left alone, and the thread has not come to its end. -/
structure Quiet (before after : Thread) : Prop where
  accounting : after.accounting = before.accounting
  fetchAdds : after.fetchAdds = before.fetchAdds
  finished : after.control = .finished → before.control = .finished

/-- What a step does to the account: nothing, the end of a polling period, the end of an
execution from either loop, or the final accounting. -/
inductive Entry (thread : Thread) (now : Int) : Prop
  | none (charges : thread.charges now = []) (quiet : Quiet thread (thread.step now))
  | polled (start : Int) (charges : thread.charges now = [⟨.polling, start, now⟩])
      (accounting : (thread.step now).accounting =
        ((thread.accounting.updatePollingTime start now).2.sendUpdatedPolling false).2)
      (fetchAdds : (thread.step now).fetchAdds = thread.fetchAdds ++
        ((thread.accounting.updatePollingTime start now).2.sendUpdatedPolling false).1)
      (finished : (thread.step now).control ≠ .finished)
  | executed (start : Int) (charges : thread.charges now = [⟨.execution, start, now⟩])
      (accounting : (thread.step now).accounting =
        ((thread.accounting.updateExecutionTime start now).sendUpdatedExecution false).2)
      (fetchAdds : (thread.step now).fetchAdds = thread.fetchAdds ++
        ((thread.accounting.updateExecutionTime start now).sendUpdatedExecution false).1)
      (finished : (thread.step now).control ≠ .finished)
  | executedHot (start hotStart hotNow : Int)
      (charges : thread.charges now =
        [⟨.execution, start, now⟩, ⟨.polling, hotStart, hotNow⟩])
      (accounting : (thread.step now).accounting =
        (((thread.accounting.updateExecutionTime start now).sendUpdatedExecution false).2
          |>.updatePollingTime hotStart hotNow).2)
      (fetchAdds : (thread.step now).fetchAdds = thread.fetchAdds ++
        ((thread.accounting.updateExecutionTime start now).sendUpdatedExecution false).1)
      (finished : (thread.step now).control ≠ .finished)
  | finishing (charges : thread.charges now = [])
      (accounting : (thread.step now).accounting =
        ((thread.accounting.sendUpdatedExecution true).2.sendUpdatedPolling true).2)
      (fetchAdds : (thread.step now).fetchAdds =
        thread.fetchAdds ++ (thread.accounting.sendUpdatedExecution true).1 ++
          ((thread.accounting.sendUpdatedExecution true).2.sendUpdatedPolling true).1)

variable (thread : Thread) (now start : Int) (count : Nat) (batch : List WorkCompletion)
  (index : Nat)

theorem quiet_dispatch : Quiet thread (thread.dispatch now) := by
  unfold dispatch
  split
  · exact ⟨rfl, rfl, fun fin => nomatch fin⟩
  · split <;> exact ⟨rfl, rfl, fun fin => nomatch fin⟩

theorem quiet_hotPoll : Quiet thread (thread.hotPoll start count) := by
  unfold hotPoll
  split
  · exact ⟨rfl, rfl, fun fin => nomatch fin⟩
  · dsimp only
    split <;> exact ⟨rfl, rfl, fun fin => nomatch fin⟩

theorem quiet_hotNext : Quiet thread (thread.hotNext now start count batch index) := by
  unfold hotNext
  split
  · exact ⟨rfl, rfl, fun fin => nomatch fin⟩
  · split <;> exact ⟨rfl, rfl, fun fin => nomatch fin⟩

theorem quiet_warmPoll : Quiet thread thread.warmPoll := by
  unfold warmPoll
  split
  · exact ⟨rfl, rfl, fun fin => nomatch fin⟩
  · dsimp only
    split <;> exact ⟨rfl, rfl, fun fin => nomatch fin⟩

theorem quiet_warmNext : Quiet thread (thread.warmNext batch index) := by
  unfold warmNext
  split <;> split <;> exact ⟨rfl, rfl, fun fin => nomatch fin⟩

theorem quiet_warmWait : Quiet thread thread.warmWait := by
  unfold warmWait
  split
  · exact ⟨rfl, rfl, fun fin => nomatch fin⟩
  · split
    · exact ⟨rfl, rfl, id⟩
    · exact ⟨rfl, rfl, fun fin => nomatch fin⟩

theorem quiet_warmNotify : Quiet thread { thread with control := .warmPoll }.notifyEvents :=
  ⟨rfl, rfl, fun fin => nomatch fin⟩

theorem quiet_calling (caller : Caller) (task : Task) :
    Quiet thread (thread.calling now caller task) := by
  unfold calling
  split <;> exact ⟨rfl, rfl, fun fin => nomatch fin⟩

theorem quiet_hotCount (early : count + 1 ≠ hotPollingVerificationPeriod) :
    Quiet thread (thread.hotCount now start count) := by
  unfold hotCount
  rw [if_neg early]
  exact ⟨rfl, rfl, fun fin => nomatch fin⟩

/-- A step that charges nothing leaves the account alone, except for the final accounting. -/
theorem quiet_step (nothing : thread.charges now = []) (running : thread.control ≠ .finishing) :
    Quiet thread (thread.step now) := by
  cases control : thread.control with
  | dispatch =>
    rw [step, control]
    exact thread.quiet_dispatch now
  | hotPoll start count =>
    rw [step, control]
    exact thread.quiet_hotPoll start count
  | hotNext start count batch index =>
    rw [step, control]
    exact thread.quiet_hotNext now start count batch index
  | hotCount start count =>
    rw [charges, control] at nothing
    rw [step, control]
    refine thread.quiet_hotCount now start count fun full => ?_
    dsimp only at nothing
    rw [if_pos full] at nothing
    cases nothing
  | warmPoll =>
    rw [step, control]
    exact thread.quiet_warmPoll
  | warmNext batch index =>
    rw [step, control]
    exact thread.quiet_warmNext batch index
  | warmWait =>
    rw [step, control]
    exact thread.quiet_warmWait
  | warmNotify =>
    rw [step, control]
    exact thread.quiet_warmNotify
  | calling caller task =>
    rw [step, control]
    exact thread.quiet_calling now caller task
  | replying caller =>
    rw [charges, control] at nothing
    cases caller <;> cases nothing
  | finishing => exact absurd control running
  | _ =>
    rw [step, control]
    exact ⟨rfl, rfl, id⟩

theorem entry : thread.Entry now := by
  by_cases nothing : thread.charges now = []
  · by_cases ending : thread.control = .finishing
    · have step_eq : thread.step now = thread.finishing := by rw [step, ending]
      exact .finishing nothing (by rw [step_eq]; rfl) (by rw [step_eq]; rfl)
    · exact .none nothing (thread.quiet_step now nothing ending)
  cases control : thread.control with
  | hotCount start count =>
    have full : count + 1 = hotPollingVerificationPeriod := by
      by_contra early
      exact nothing (by rw [charges, control]; exact if_neg early)
    have step_eq : thread.step now = thread.hotCount now start count := by rw [step, control]
    unfold hotCount at step_eq
    rw [if_pos full] at step_eq
    dsimp only at step_eq
    refine .polled start (by rw [charges, control]; exact if_pos full) ?_ ?_ ?_
    · rw [step_eq]
      split <;> rfl
    · rw [step_eq]
      split <;> rfl
    · rw [step_eq]
      split <;> exact Control.noConfusion
  | replying caller task start outSize =>
    have step_eq : thread.step now = thread.replying now caller task start outSize := by
      rw [step, control]
    cases caller with
    | hot hotStart hotNow =>
      refine .executedHot start hotStart hotNow (by rw [charges, control]) ?_ ?_ ?_
      · rw [step_eq]
        rfl
      · rw [step_eq]
        rfl
      · rw [step_eq]
        exact Control.noConfusion
    | warm =>
      refine .executed start (by rw [charges, control]) ?_ ?_ ?_
      · rw [step_eq]
        rfl
      · rw [step_eq]
        rfl
      · rw [step_eq]
        exact Control.noConfusion
  | _ => exact absurd (by rw [charges, control]) nothing

/-- An event is a step, or it leaves the account and the control point alone. -/
theorem react_cases (event : Event) : (∃ now, event = .step now) ∨
    (∀ now, event ≠ .step now) ∧ (thread.react event).accounting = thread.accounting ∧
      (thread.react event).fetchAdds = thread.fetchAdds ∧
      (thread.react event).control = thread.control := by
  cases event with
  | step now => exact Or.inl ⟨now, rfl⟩
  | land write =>
    refine Or.inr ⟨fun _ => Event.noConfusion, ?_⟩
    show (thread.land write).accounting = _ ∧ (thread.land write).fetchAdds = _ ∧
      (thread.land write).control = _
    unfold land
    split <;> exact ⟨rfl, rfl, rfl⟩
  | _ => exact Or.inr ⟨fun _ => Event.noConfusion, rfl, rfl, rfl⟩

end Thread

/-! ### Charged time does not overlap -/

/-- A thread with its clock: when it started, and the last reading. `charges` is a ghost: the
intervals that were charged so far. -/
structure Meter where
  thread : Thread
  began : Int
  clock : Int
  charges : List Charge

namespace Meter

def start (functions : Functions) (timeout : Int) (maxInlineData : UInt32) (rcv : Region)
    (outSize : Nat) (began : Int) : Meter where
  thread := Thread.begin_ functions timeout maxInlineData rcv outSize
  began := began
  clock := began
  charges := []

def step (meter : Meter) (event : Thread.Event) : Meter :=
  match event with
  | .step now =>
    { meter with
      thread := meter.thread.step now
      clock := now
      charges := meter.charges ++ meter.thread.charges now }
  | event => { meter with thread := meter.thread.react event }

/-- The clock does not go back. -/
def Forward (meter : Meter) : Thread.Event → Prop
  | .step now => meter.clock ≤ now
  | _ => True

instance (meter : Meter) : DecidablePred meter.Forward
  | .step now => inferInstanceAs (Decidable (meter.clock ≤ now))
  | .land _ | .arrive _ | .terminate => inferInstanceAs (Decidable True)

/-- The charged intervals do not overlap, the totals are their sums, and both totals together are
no more than the time since the start. -/
structure Fair (meter : Meter) : Prop where
  apart : (meter.charges.map Charge.stretch).Pairwise Stretch.Apart
  charged : meter.thread.accounting.Charged meter.charges
  elapsed : (meter.thread.accounting.totalHotPollingTime.toNat +
    meter.thread.accounting.totalExecutionTime.toNat : Int) ≤ meter.clock - meter.began

/-- The point of time up to which everything is charged that will ever be. -/
def since (clock : Int) : Control → Int
  | .hotPoll start _ | .hotNext start _ _ _ | .hotCount start _
  | .calling (.hot start _ _ _ _) _ | .replying (.hot start _ _ _ _) _ _ _
  | .replying (.warm _ _) _ start _ => start
  | _ => clock

/-- The readings that the thread holds are in order. -/
def Ordered (clock : Int) : Control → Prop
  | .calling (.hot start now _ _ _) _ => start ≤ now ∧ now ≤ clock
  | .replying (.hot start now _ _ _) _ called _ => start ≤ now ∧ now ≤ called ∧ called ≤ clock
  | control => since clock control ≤ clock

structure Metered (meter : Meter) : Prop where
  charged : meter.thread.accounting.Charged meter.charges
  ordered : Ordered meter.clock meter.thread.control
  packed : Stretch.Packed meter.began (since meter.clock meter.thread.control)
    (meter.charges.map Charge.stretch)

variable {meter : Meter}

theorem Ordered.since_le {clock : Int} {control : Control} (ordered : Ordered clock control) :
    since clock control ≤ clock := by
  cases control with
  | calling caller task =>
    cases caller with
    | hot => exact ordered.1.trans ordered.2
    | warm => exact ordered
  | replying caller =>
    cases caller with
    | hot => exact ordered.1.trans (ordered.2.1.trans ordered.2.2)
    | warm => exact ordered
  | _ => exact ordered

theorem Metered.fair (metered : meter.Metered) : meter.Fair where
  apart := metered.packed.apart
  charged := metered.charged
  elapsed := by
    have most := Charge.toNat_total_le fun charge member =>
      (metered.packed.within _ (mem_map_of_mem member)).2.1
    rw [← metered.charged.polling, ← metered.charged.execution] at most
    exact most.trans (metered.packed.total.trans
      (sub_le_sub_right metered.ordered.since_le _))

/-- The clock goes on to `now` while the thread comes from one control point to another, and
nothing is charged. -/
def Passes (clock now : Int) (before after : Control) : Prop :=
  Ordered now after ∧ since clock before ≤ since now after

section Passing

variable {clock now start : Int} (forward : clock ≤ now) (thread : Thread)
include forward

theorem passes_dispatch : Passes clock now .dispatch (thread.dispatch now).control := by
  unfold Thread.dispatch
  split
  · exact ⟨le_rfl, forward⟩
  · split <;> exact ⟨le_rfl, forward⟩

theorem passes_hotPoll {count : Nat} (ordered : start ≤ clock) :
    Passes clock now (.hotPoll start count) (thread.hotPoll start count).control := by
  have later := ordered.trans forward
  unfold Thread.hotPoll
  split
  · exact ⟨le_rfl, later⟩
  · dsimp only
    split <;> exact ⟨later, le_rfl⟩

theorem passes_hotNext {count : Nat} {batch : List WorkCompletion} {index : Nat}
    (ordered : start ≤ clock) :
    Passes clock now (.hotNext start count batch index)
      (thread.hotNext now start count batch index).control := by
  have later := ordered.trans forward
  unfold Thread.hotNext
  split
  · exact ⟨later, le_rfl⟩
  · split
    · exact ⟨later, le_rfl⟩
    · exact ⟨⟨later, le_rfl⟩, le_rfl⟩

theorem passes_hotCount {count : Nat} (ordered : start ≤ clock) :
    Passes clock now (.hotCount start count) (thread.hotCount now start count).control := by
  have later := ordered.trans forward
  unfold Thread.hotCount
  split
  · dsimp only
    split <;> exact ⟨le_rfl, later⟩
  · exact ⟨later, le_rfl⟩

theorem passes_warmPoll : Passes clock now .warmPoll thread.warmPoll.control := by
  unfold Thread.warmPoll
  split
  · exact ⟨le_rfl, forward⟩
  · dsimp only
    split <;> exact ⟨le_rfl, forward⟩

theorem passes_warmNext {batch : List WorkCompletion} {index : Nat} :
    Passes clock now (.warmNext batch index) (thread.warmNext batch index).control := by
  unfold Thread.warmNext
  split <;> split <;> exact ⟨le_rfl, forward⟩

theorem passes_warmWait (waits : thread.control = .warmWait) :
    Passes clock now .warmWait thread.warmWait.control := by
  unfold Thread.warmWait
  split
  · exact ⟨le_rfl, forward⟩
  · split
    · rw [waits]
      exact ⟨le_rfl, forward⟩
    · exact ⟨le_rfl, forward⟩

theorem passes_calling {caller : Caller} {task : Task}
    (ordered : Ordered clock (.calling caller task)) :
    Passes clock now (.calling caller task) (thread.calling now caller task).control := by
  unfold Thread.calling
  split
  · exact ⟨le_rfl, ordered.since_le.trans forward⟩
  · cases caller with
    | hot =>
      exact ⟨⟨ordered.1, ordered.2.trans forward, le_rfl⟩, le_rfl⟩
    | warm => exact ⟨le_rfl, forward⟩

theorem passes_replying {caller : Caller} {task : Task} {outSize : UInt32}
    (ordered : Ordered clock (.replying caller task start outSize)) :
    Passes clock now (.replying caller task start outSize)
      (thread.replying now caller task start outSize).control := by
  have later := ordered.since_le.trans forward
  cases caller <;> exact ⟨le_rfl, later⟩

theorem passes_step {thread : Thread} (ordered : Ordered clock thread.control) :
    Passes clock now thread.control (thread.step now).control := by
  cases control : thread.control with
  | dispatch =>
    rw [Thread.step, control]
    exact passes_dispatch forward thread
  | hotPoll =>
    rw [control] at ordered
    rw [Thread.step, control]
    exact passes_hotPoll forward thread ordered
  | hotNext =>
    rw [control] at ordered
    rw [Thread.step, control]
    exact passes_hotNext forward thread ordered
  | hotCount =>
    rw [control] at ordered
    rw [Thread.step, control]
    exact passes_hotCount forward thread ordered
  | warmPoll =>
    rw [Thread.step, control]
    exact passes_warmPoll forward thread
  | warmNext =>
    rw [Thread.step, control]
    exact passes_warmNext forward thread
  | warmWait =>
    rw [Thread.step, control]
    exact passes_warmWait forward thread control
  | calling =>
    rw [control] at ordered
    rw [Thread.step, control]
    exact passes_calling forward thread ordered
  | replying =>
    rw [control] at ordered
    rw [Thread.step, control]
    exact passes_replying forward thread ordered
  | warmNotify | finishing =>
    rw [Thread.step, control]
    exact ⟨le_rfl, forward⟩
  | _ =>
    rw [Thread.step, control]
    dsimp only
    rw [control]
    exact ⟨le_rfl, forward⟩

end Passing

theorem Metered.charge (metered : meter.Metered) (now : Int) :
    (meter.thread.step now).accounting.Charged (meter.charges ++ meter.thread.charges now) := by
  cases meter.thread.entry now with
  | none charges quiet =>
    rw [charges, append_nil, quiet.accounting]
    exact metered.charged
  | polled start charges accounting =>
    rw [charges, accounting]
    exact (metered.charged.updatePollingTime start now).sendUpdatedPolling false
  | executed start charges accounting =>
    rw [charges, accounting]
    exact (metered.charged.updateExecutionTime start now).sendUpdatedExecution false
  | executedHot start hotStart hotNow charges accounting =>
    rw [charges, accounting, append_cons]
    exact ((metered.charged.updateExecutionTime start now).sendUpdatedExecution false
      |>.updatePollingTime hotStart hotNow)
  | finishing charges accounting =>
    rw [charges, accounting, append_nil]
    exact (metered.charged.sendUpdatedExecution true).sendUpdatedPolling true

/-- A step that charges nothing keeps the packing. -/
theorem Metered.pass (metered : meter.Metered) {now : Int} (charges : meter.thread.charges now = [])
    (passes : Passes meter.clock now meter.thread.control (meter.thread.step now).control) :
    (meter.step (.step now)).Metered where
  charged := metered.charge now
  ordered := passes.1
  packed := by
    show Stretch.Packed _ _ ((meter.charges ++ meter.thread.charges now).map _)
    rw [charges, append_nil]
    exact metered.packed.extend passes.2

/-- A step that charges up to `now` keeps the packing, whatever it charges first. -/
theorem Metered.close (metered : meter.Metered) {now : Int} {stretches : List (Stretch Int)}
    (charges : ((meter.thread.charges now).map Charge.stretch).Perm stretches)
    (packed : Stretch.Packed (since meter.clock meter.thread.control) now stretches)
    (ordered : Ordered now (meter.thread.step now).control)
    (upTo : since now (meter.thread.step now).control = now) :
    (meter.step (.step now)).Metered where
  charged := metered.charge now
  ordered := ordered
  packed := by
    show Stretch.Packed _ (since now (meter.thread.step now).control)
      ((meter.charges ++ meter.thread.charges now).map _)
    rw [upTo, map_append]
    exact (metered.packed.append packed).perm (charges.symm.append_left _)

theorem Metered.step (metered : meter.Metered) {now : Int} (forward : meter.clock ≤ now) :
    (meter.step (.step now)).Metered := by
  have ordered := metered.ordered
  have passes := passes_step forward metered.ordered
  cases control : meter.thread.control with
  | hotCount start count =>
    rw [control] at ordered
    by_cases full : count + 1 = hotPollingVerificationPeriod
    · have charges : meter.thread.charges now = [⟨.polling, start, now⟩] := by
        rw [Thread.charges, control]
        exact if_pos full
      have after : (meter.thread.step now).control = .dispatch ∨
          (meter.thread.step now).control = .hotPoll now 0 := by
        rw [Thread.step, control]
        dsimp only [Thread.hotCount]
        rw [if_pos full]
        split
        · exact Or.inl rfl
        · exact Or.inr rfl
      have packed : Stretch.Packed start now [⟨start, now⟩] := .single (ordered.trans forward)
      refine metered.close (by rw [charges]) (by rw [control]; exact packed) passes.1 ?_
      rcases after with same | same <;> rw [same] <;> rfl
    · exact metered.pass (by rw [Thread.charges, control]; exact if_neg full) passes
  | replying caller task called outSize =>
    rw [control] at ordered
    cases caller with
    | hot start hotNow =>
      have charges : meter.thread.charges now =
          [⟨.execution, called, now⟩, ⟨.polling, start, hotNow⟩] := by
        rw [Thread.charges, control]
      -- The polling interval ends before the execution begins, but is charged after it.
      have packed : Stretch.Packed start now [⟨start, hotNow⟩, ⟨called, now⟩] :=
        ((Stretch.Packed.single ordered.1).extend ordered.2.1).append
          (.single (ordered.2.2.trans forward))
      have order : ((meter.thread.charges now).map Charge.stretch).Perm
          [⟨start, hotNow⟩, ⟨called, now⟩] := by
        rw [charges]
        exact .swap _ _ _
      refine metered.close order (by rw [control]; exact packed) passes.1 ?_
      rw [Thread.step, control]
      rfl
    | warm =>
      have charges : meter.thread.charges now = [⟨.execution, called, now⟩] := by
        rw [Thread.charges, control]
      have packed : Stretch.Packed called now [⟨called, now⟩] :=
        .single (le_trans ordered forward)
      refine metered.close (by rw [charges]) (by rw [control]; exact packed) passes.1 ?_
      rw [Thread.step, control]
      rfl
  | _ => exact metered.pass (by rw [Thread.charges, control]) passes

theorem start_metered (functions : Functions) (timeout : Int) (maxInlineData : UInt32)
    (rcv : Region) (outSize : Nat) (began : Int) :
    (start functions timeout maxInlineData rcv outSize began).Metered where
  charged := ⟨rfl, rfl⟩
  ordered := le_refl began
  packed := .nil (le_refl began)

theorem step_other {event : Thread.Event} (other : ∀ now, event ≠ .step now) :
    meter.step event = { meter with thread := meter.thread.react event } := by
  cases event with
  | step now => exact absurd rfl (other now)
  | _ => rfl

theorem Metered.react (metered : meter.Metered) {event : Thread.Event}
    (forward : meter.Forward event) : (meter.step event).Metered := by
  rcases meter.thread.react_cases event with ⟨now, rfl⟩ | ⟨other, accounting, _, control⟩
  · exact metered.step forward
  · rw [step_other other]
    refine ⟨?_, ?_, ?_⟩
    · dsimp only
      rw [accounting]
      exact metered.charged
    · dsimp only
      rw [control]
      exact metered.ordered
    · dsimp only
      rw [control]
      exact metered.packed

/-- No double billing: in every run of a worker thread whose clock does not go back, the charged
intervals never overlap, and the totals never exceed the time since the thread started. -/
theorem no_double_billing (functions : Functions) (timeout : Int) (maxInlineData : UInt32)
    (rcv : Region) (outSize : Nat) (began : Int) (events : List Thread.Event)
    (forward : Along step Forward (start functions timeout maxInlineData rcv outSize began)
      events) :
    Always step Fair (start functions timeout maxInlineData rcv outSize began) events :=
  always_of_invariant (fun _ _ metered condition => metered.react condition)
    (fun _ metered => metered.fair)
    (start_metered functions timeout maxInlineData rcv outSize began) forward

/-- A hot thread that serves one invocation, with what it has charged. -/
theorem no_double_billing_hot :
    let meter := start ⟨["echo"], fun _ input _ _ => (1, input)⟩ 5 0
      ⟨64, 7, replicate 16 0⟩ 4 0
    let events : List Thread.Event := [.step 10, .land (postWrite (replicate 13 1) ⟨64, 7⟩
      (Immediate.submission 1#32 0#32) true false), .step 11, .step 20, .step 25, .step 75]
    (run step meter events).charges = [⟨.execution, 25, 75⟩, ⟨.polling, 10, 20⟩] ∧
      Always step Fair meter events :=
  ⟨by decide, no_double_billing _ 5 0 _ 4 0 _ (by decide)⟩

end Meter

end RFaaS.FastExecutor
