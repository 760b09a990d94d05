/-
This file is about the reports of all worker threads of one client. Every
thread posts fetch-and-adds, which take effect on the two accounting words of
the manager one after the other (`server/executor/fast_executor.hpp`,
`server/executor_manager/accounting.hpp`): the polling word at offset 0 and the
execution word at offset 8.

At every point the total of a thread is what it has posted and what it still
has to report. When all threads have made their final accounting and everything
posted has taken effect, the words hold the sums of the totals.
-/

import RFaaS.Billing
import RFaaS.ExecutorManager
import Mathlib.Algebra.BigOperators.Fin

namespace RFaaS.FastExecutor

open Transition FetchAdd Function

/-- What fetch-and-adds add to the word at an offset. -/
def FetchAdd.posted (offset : Nat) (fetchAdds : List FetchAdd) : UInt64 :=
  sumOf (·.offset = offset) value fetchAdds

theorem FetchAdd.posted_append (offset : Nat) (first second : List FetchAdd) :
    posted offset (first ++ second) =
      posted offset first + posted offset second :=
  sumOf_append _ _ first second

theorem FetchAdd.posted_single (offset : Nat) (fetchAdd : FetchAdd) :
    posted offset [fetchAdd] =
      if fetchAdd.offset = offset then fetchAdd.value else 0 :=
  sumOf_single _ _ fetchAdd

namespace Accounting

/-- The totals are what was posted and what is to be reported. -/
structure Reported (accounting : Accounting) (fetchAdds : List FetchAdd) : Prop where
  polling : accounting.totalHotPollingTime =
    posted 0 fetchAdds + accounting.hotPollingTime
  execution : accounting.totalExecutionTime =
    posted 8 fetchAdds + accounting.executionTime

variable {accounting : Accounting} {fetchAdds : List FetchAdd}

section

variable (reported : accounting.Reported fetchAdds)
include reported

theorem Reported.updateExecutionTime
    (start finish : Int) : (accounting.updateExecutionTime start finish).Reported fetchAdds where
  polling := reported.polling
  execution := by
    unfold Accounting.updateExecutionTime
    dsimp only
    rw [reported.execution, add_assoc]

theorem Reported.updatePollingTime
    (start finish : Int) : (accounting.updatePollingTime start finish).2.Reported fetchAdds where
  polling := by
    unfold Accounting.updatePollingTime
    dsimp only
    rw [reported.polling, add_assoc]
  execution := reported.execution

theorem Reported.sendUpdatedExecution (force : Bool) :
    (accounting.sendUpdatedExecution force).2.Reported
      (fetchAdds ++ (accounting.sendUpdatedExecution force).1) := by
  unfold Accounting.sendUpdatedExecution
  split
  · constructor
    · rw [posted_append, posted_single, if_neg (Nat.succ_ne_zero 7), add_zero]
      exact reported.polling
    · rw [posted_append, posted_single, if_pos rfl, add_zero]
      exact reported.execution
  · rw [List.append_nil]
    exact reported

theorem Reported.sendUpdatedPolling (force : Bool) :
    (accounting.sendUpdatedPolling force).2.Reported
      (fetchAdds ++ (accounting.sendUpdatedPolling force).1) := by
  unfold Accounting.sendUpdatedPolling
  split
  · split
    · rw [List.append_nil]
      exact reported
    · constructor
      · rw [posted_append, posted_single, if_pos rfl, add_zero]
        exact reported.polling
      · rw [posted_append, posted_single, if_neg (Nat.zero_ne_add_one 7),
          add_zero]
        exact reported.execution
  · rw [List.append_nil]
    exact reported

end

/-- After the final accounting nothing is left to report. -/
theorem flushed (accounting : Accounting) :
    ((accounting.sendUpdatedExecution true).2.sendUpdatedPolling true).2.executionTime = 0 ∧
      ((accounting.sendUpdatedExecution true).2.sendUpdatedPolling true).2.hotPollingTime = 0 := by
  unfold Accounting.sendUpdatedExecution Accounting.sendUpdatedPolling
  rw [Bool.true_or, if_pos rfl, if_pos (Bool.true_or _)]
  split
  · rename_i zero
    exact ⟨rfl, zero⟩
  · exact ⟨rfl, rfl⟩

end Accounting

namespace Thread

/-- The account of a thread is reported, completely when the thread has finished. -/
structure Reported (thread : Thread) : Prop where
  reported : thread.accounting.Reported thread.fetchAdds
  flushed : thread.control = .finished →
    thread.accounting.executionTime = 0 ∧ thread.accounting.hotPollingTime = 0

variable {thread : Thread}

theorem begin_reported (functions : Functions) (timeout : Int) (maxInlineData : UInt32)
    (rcv : Region) (outSize : Nat) :
    (begin_ functions timeout maxInlineData rcv outSize).Reported where
  reported := ⟨rfl, rfl⟩
  flushed := fun _ => ⟨rfl, rfl⟩

theorem Reported.step (kept : thread.Reported) (now : Int) : (thread.step now).Reported := by
  cases thread.entry now with
  | none _ quiet =>
    refine ⟨?_, fun finished => ?_⟩
    · rw [quiet.accounting, quiet.fetchAdds]
      exact kept.reported
    · rw [quiet.accounting]
      exact kept.flushed (quiet.finished finished)
  | polled start _ accounting fetchAdds finished =>
    refine ⟨?_, fun fin => absurd fin finished⟩
    rw [accounting, fetchAdds]
    exact (kept.reported.updatePollingTime start now).sendUpdatedPolling false
  | executed start _ accounting fetchAdds finished =>
    refine ⟨?_, fun fin => absurd fin finished⟩
    rw [accounting, fetchAdds]
    exact (kept.reported.updateExecutionTime start now).sendUpdatedExecution false
  | executedHot start hotStart hotNow _ accounting fetchAdds finished =>
    refine ⟨?_, fun fin => absurd fin finished⟩
    rw [accounting, fetchAdds]
    exact ((kept.reported.updateExecutionTime start now).sendUpdatedExecution false
      |>.updatePollingTime hotStart hotNow)
  | finishing _ accounting fetchAdds =>
    refine ⟨?_, fun _ => ?_⟩
    · rw [accounting, fetchAdds]
      exact (kept.reported.sendUpdatedExecution true).sendUpdatedPolling true
    · rw [accounting]
      exact thread.accounting.flushed

theorem Reported.react (kept : thread.Reported) (event : Event) :
    (thread.react event).Reported := by
  rcases thread.react_cases event with ⟨now, rfl⟩ | ⟨_, accounting, fetchAdds, control⟩
  · exact kept.step now
  · refine ⟨?_, fun finished => ?_⟩
    · rw [accounting, fetchAdds]
      exact kept.reported
    · rw [accounting]
      exact kept.flushed (control ▸ finished)

/-- What was posted stays posted. -/
theorem react_fetchAdds (thread : Thread) (event : Event) :
    ∃ more, (thread.react event).fetchAdds = thread.fetchAdds ++ more := by
  rcases thread.react_cases event with ⟨now, rfl⟩ | ⟨_, _, fetchAdds, _⟩
  · show ∃ more, (thread.step now).fetchAdds = _
    cases thread.entry now with
    | none _ quiet => exact ⟨[], quiet.fetchAdds.trans (List.append_nil _).symm⟩
    | polled _ _ _ fetchAdds | executed _ _ _ fetchAdds | executedHot _ _ _ _ _ fetchAdds =>
      exact ⟨_, fetchAdds⟩
    | finishing _ _ fetchAdds => exact ⟨_, fetchAdds.trans (List.append_assoc _ _ _)⟩
  · exact ⟨[], fetchAdds.trans (List.append_nil _).symm⟩

end Thread

/-! ### The words of the manager -/

/-- The effect of a fetch-and-add on the accounting words. -/
def FetchAdd.perform (fetchAdd : FetchAdd) (words : ExecutorManager.Accounting) :
    ExecutorManager.Accounting :=
  match fetchAdd.offset with
  | 0 => { words with hotPollingTime := words.hotPollingTime + fetchAdd.value }
  | 8 => { words with executionTime := words.executionTime + fetchAdd.value }
  | _ => words

theorem FetchAdd.perform_hotPollingTime (fetchAdd : FetchAdd) (words : ExecutorManager.Accounting) :
    (fetchAdd.perform words).hotPollingTime =
      words.hotPollingTime + posted 0 [fetchAdd] := by
  rw [posted_single, perform]
  split
  · rename_i polling
    rw [if_pos polling]
  · rename_i execution
    rw [if_neg (by rw [execution]; exact Nat.succ_ne_zero 7), add_zero]
  · rename_i polling _
    rw [if_neg polling, add_zero]

theorem FetchAdd.perform_executionTime (fetchAdd : FetchAdd) (words : ExecutorManager.Accounting) :
    (fetchAdd.perform words).executionTime =
      words.executionTime + posted 8 [fetchAdd] := by
  rw [posted_single, perform]
  split
  · rename_i polling
    rw [if_neg (by rw [polling]; exact Nat.zero_ne_add_one 7), add_zero]
  · rename_i execution
    rw [if_pos execution]
  · rename_i _ execution
    rw [if_neg execution, add_zero]

/-- The worker threads of one client and the accounting words of the manager. `performed` counts
how many fetch-and-adds of a thread have taken effect. -/
structure Ledger (numcores : Nat) where
  threads : Fin numcores → Thread
  performed : Fin numcores → Nat
  words : ExecutorManager.Accounting

namespace Ledger

variable {numcores : Nat}

inductive Event (numcores : Nat)
  | thread (core : Fin numcores) (event : Thread.Event)
  /-- The oldest fetch-and-add of a thread takes effect. -/
  | perform (core : Fin numcores)

/-- Fresh threads, and words that are zero. -/
def start (functions : Functions) (timeout : Int) (maxInlineData : UInt32)
    (rcv : Fin numcores → Region) (outSize : Nat) : Ledger numcores where
  threads := fun core => Thread.begin_ functions timeout maxInlineData (rcv core) outSize
  performed := fun _ => 0
  words := ⟨0, 0⟩

def step (ledger : Ledger numcores) : Event numcores → Ledger numcores
  | .thread core event =>
    { ledger with
      threads := update ledger.threads core ((ledger.threads core).react event) }
  | .perform core =>
    match (ledger.threads core).fetchAdds[ledger.performed core]? with
    | none => ledger
    | some fetchAdd =>
      { ledger with
        performed := update ledger.performed core (ledger.performed core + 1)
        words := fetchAdd.perform ledger.words }

/-- The totals of every thread are what it has posted and what it has to report. Once all threads
have finished and everything posted has taken effect, the words are the sums of the totals. -/
structure Exact (ledger : Ledger numcores) : Prop where
  reported : ∀ core,
    (ledger.threads core).accounting.Reported (ledger.threads core).fetchAdds
  flushed : (∀ core, (ledger.threads core).control = .finished ∧
      ledger.performed core = (ledger.threads core).fetchAdds.length) →
    ledger.words.hotPollingTime =
        ∑ core, (ledger.threads core).accounting.totalHotPollingTime ∧
      ledger.words.executionTime =
        ∑ core, (ledger.threads core).accounting.totalExecutionTime

/-- What of a thread has taken effect. -/
def effective (ledger : Ledger numcores) (core : Fin numcores) : List FetchAdd :=
  (ledger.threads core).fetchAdds.take (ledger.performed core)

/-- The words are the sums of what has taken effect. -/
structure Balanced (ledger : Ledger numcores) : Prop where
  reported : ∀ core, (ledger.threads core).Reported
  performed : ∀ core, ledger.performed core ≤ (ledger.threads core).fetchAdds.length
  polling : ledger.words.hotPollingTime = ∑ core, posted 0 (ledger.effective core)
  execution : ledger.words.executionTime = ∑ core, posted 8 (ledger.effective core)

variable {ledger : Ledger numcores}

theorem Balanced.exact (balanced : ledger.Balanced) : ledger.Exact where
  reported := fun core => (balanced.reported core).reported
  flushed := fun all => by
    have everything (core : Fin numcores) :
        ledger.effective core = (ledger.threads core).fetchAdds := by
      rw [effective, (all core).2, List.take_length]
    constructor
    · rw [balanced.polling]
      refine Finset.sum_congr rfl fun core _ => ?_
      rw [everything, (balanced.reported core).reported.polling,
        ((balanced.reported core).flushed (all core).1).2, add_zero]
    · rw [balanced.execution]
      refine Finset.sum_congr rfl fun core _ => ?_
      rw [everything, (balanced.reported core).reported.execution,
        ((balanced.reported core).flushed (all core).1).1, add_zero]

theorem start_balanced (functions : Functions) (timeout : Int) (maxInlineData : UInt32)
    (rcv : Fin numcores → Region) (outSize : Nat) :
    (start functions timeout maxInlineData rcv outSize).Balanced where
  reported := fun core => Thread.begin_reported functions timeout maxInlineData (rcv core) outSize
  performed := fun _ => Nat.zero_le _
  polling := (Finset.sum_const_zero).symm
  execution := (Finset.sum_const_zero).symm

/-- An event at a thread leaves alone what has taken effect. -/
theorem effective_thread (balanced : ledger.Balanced) (core : Fin numcores)
    (event : Thread.Event) (other : Fin numcores) :
    (ledger.step (.thread core event)).effective other = ledger.effective other := by
  show ((update ledger.threads core _) other).fetchAdds.take (ledger.performed other) = _
  by_cases same : other = core
  · rw [same, update_self]
    obtain ⟨more, appended⟩ := (ledger.threads core).react_fetchAdds event
    rw [appended, List.take_append_of_le_length (balanced.performed core)]
    rfl
  · rw [update_of_ne same]
    rfl

theorem Balanced.thread (balanced : ledger.Balanced) (core : Fin numcores)
    (event : Thread.Event) : (ledger.step (.thread core event)).Balanced where
  reported := fun other => by
    show ((update ledger.threads core _) other).Reported
    by_cases same : other = core
    · rw [same, update_self]
      exact (balanced.reported core).react event
    · rw [update_of_ne same]
      exact balanced.reported other
  performed := fun other => by
    show ledger.performed other ≤ ((update ledger.threads core _) other).fetchAdds.length
    by_cases same : other = core
    · rw [same, update_self]
      obtain ⟨more, appended⟩ := (ledger.threads core).react_fetchAdds event
      rw [appended, List.length_append]
      exact Nat.le_add_right_of_le (balanced.performed core)
    · rw [update_of_ne same]
      exact balanced.performed other
  polling := by
    rw [Finset.sum_congr rfl fun other _ =>
      congrArg (posted 0) (effective_thread balanced core event other)]
    exact balanced.polling
  execution := by
    rw [Finset.sum_congr rfl fun other _ =>
      congrArg (posted 8) (effective_thread balanced core event other)]
    exact balanced.execution

/-- One more fetch-and-add of a thread adds to the sum of all. -/
theorem sum_posted_perform {performed : Fin numcores → Nat} {core : Fin numcores}
    {fetchAdd : FetchAdd} (threads : Fin numcores → Thread)
    (oldest : (threads core).fetchAdds[performed core]? = some fetchAdd) (offset : Nat) :
    ∑ other, posted offset ((threads other).fetchAdds.take
        (update performed core (performed core + 1) other)) =
      ∑ other, posted offset ((threads other).fetchAdds.take (performed other)) +
        posted offset [fetchAdd] := by
  have each (other : Fin numcores) : posted offset ((threads other).fetchAdds.take
      (update performed core (performed core + 1) other)) =
      posted offset ((threads other).fetchAdds.take (performed other)) +
        if other = core then posted offset [fetchAdd] else 0 := by
    by_cases same : other = core
    · rw [same, update_self, if_pos rfl, ← posted_append, List.take_add_one,
        oldest]
      rfl
    · rw [update_of_ne same, if_neg same, add_zero]
  rw [Finset.sum_congr rfl fun other _ => each other, Finset.sum_add_distrib,
    Finset.sum_ite_eq' Finset.univ core, if_pos (Finset.mem_univ core)]

theorem Balanced.perform (balanced : ledger.Balanced) (core : Fin numcores) :
    (ledger.step (.perform core)).Balanced := by
  unfold Ledger.step
  dsimp only
  split
  · exact balanced
  · rename_i fetchAdd oldest
    refine ⟨balanced.reported, fun other => ?_, ?_, ?_⟩
    · by_cases same : other = core
      · dsimp only
        rw [same, update_self]
        exact (List.getElem?_eq_some_iff.mp oldest).1
      · dsimp only
        rw [update_of_ne same]
        exact balanced.performed other
    · exact (fetchAdd.perform_hotPollingTime _).trans ((congrArg (· + _) balanced.polling).trans
        (sum_posted_perform ledger.threads oldest 0).symm)
    · exact (fetchAdd.perform_executionTime _).trans ((congrArg (· + _) balanced.execution).trans
        (sum_posted_perform ledger.threads oldest 8).symm)

theorem Balanced.step (balanced : ledger.Balanced) (event : Event numcores) :
    (ledger.step event).Balanced := by
  cases event with
  | thread core event => exact balanced.thread core event
  | perform core => exact balanced.perform core

/-- Billing flushes lose nothing and duplicate nothing, for any number of threads, any runs of
them and any order in which their fetch-and-adds take effect. -/
theorem flushes_exact (functions : Functions) (timeout : Int) (maxInlineData : UInt32)
    (rcv : Fin numcores → Region) (outSize : Nat) (events : List (Event numcores)) :
    Always step Exact (start functions timeout maxInlineData rcv outSize) events :=
  always_of_stable (fun _ event balanced => balanced.step event) (fun _ balanced => balanced.exact)
    events (start_balanced functions timeout maxInlineData rcv outSize)

end Ledger

end RFaaS.FastExecutor
