/-
This file says what the worker thread does while at most one invocation is with
it, and reduces its thirteen control points to four stages: the thread is idle,
an invocation waits in its completion queue, the thread has taken it, or the
function has returned and the reply is due.

The four step lemmas are all that the rest of the development knows about a
step: the thread keeps everything that others can see, except that a call
changes the output memory and that a reply is posted. The last section shows
that the thread does not sleep through an invocation: it is bound to post the
reply within seven steps of its own.
-/

import RFaaS.FastExecutor

namespace RFaaS.FastExecutor

open List Nat

/-! ### Stages -/

/-- No completion is in the hands of the thread. -/
def Control.AtRest : Control → Prop
  | .hotNext _ _ batch index | .warmNext batch index => batch.length ≤ index
  | .calling _ _ | .replying _ _ _ _ => False
  | _ => True

/-- The loop that called `work` is at the only completion of its batch. -/
def Caller.Single (completion : WorkCompletion) : Caller → Prop
  | .hot _ _ _ batch index | .warm batch index => batch = [completion] ∧ index = 0

/-- The thread has taken the completion, as the only one of its batch. -/
def Control.Holds (completion : WorkCompletion) : Control → Prop
  | .hotNext _ _ batch index | .warmNext batch index => batch = [completion] ∧ index = 0
  | .calling caller task => caller.Single completion ∧ task = Task.ofCompletion completion
  | _ => False

/-- The function that the completion asked for has returned `outSize`. -/
def Control.Returned (completion : WorkCompletion) (outSize : UInt32) : Control → Prop
  | .replying caller task _ size =>
    caller.Single completion ∧ task = Task.ofCompletion completion ∧ size = outSize
  | _ => False

/-- The completion that the caller of `work` is at, and those behind it in the batch. -/
def Caller.rest : Caller → List WorkCompletion
  | .hot _ _ _ batch index | .warm batch index => batch.drop index

/-- The completions of the current batch that are not done. -/
def Control.rest : Control → List WorkCompletion
  | .hotNext _ _ batch index | .warmNext batch index => batch.drop index
  | .calling caller _ | .replying caller _ _ _ => caller.rest
  | _ => []

theorem Caller.Single.rest_ne_nil {completion : WorkCompletion} {caller : Caller}
    (single : caller.Single completion) : caller.rest ≠ [] := by
  cases caller with
  | _ =>
    obtain ⟨rfl, rfl⟩ := single
    exact cons_ne_nil _ _

/-- A bound on the steps from this point until the reply to a waiting invocation is posted. -/
def Control.patience : Control → Nat
  | .replying _ _ _ _ => 1
  | .calling _ _ => 2
  | .hotNext _ _ batch index | .warmNext batch index => if index < batch.length then 3 else 7
  | .hotPoll _ _ | .warmPoll => 4
  | .dispatch | .warmNotify => 5
  | .warmWait | .hotCount _ _ => 6
  | .finishing | .finished | .fault => 0

theorem Control.patience_le (control : Control) : control.patience ≤ 7 := by
  unfold patience
  split <;> first | omega | (split <;> omega)

theorem Control.patience_returned {completion : WorkCompletion} {outSize : UInt32}
    {control : Control} (returned : control.Returned completion outSize) :
    control.patience = 1 := by
  cases control <;> first | rfl | exact False.elim returned

/-- How far the thread is with the only invocation that it can have. -/
inductive Stage
  | idle
  | queued (completion : WorkCompletion)
  | held (completion : WorkCompletion)
  | returned (completion : WorkCompletion) (outSize : UInt32)

/-- What other parties, and the calls of functions, see of a thread. -/
structure Visible where
  functions : Functions
  maxInlineData : UInt32
  termProcess : Bool
  rcv : Region
  send : List UInt8
  posted : List Write
  executions : List Execution
  replies : List Reply

namespace Thread

/-- The thread is at this stage. -/
def At (thread : Thread) : Stage → Prop
  | .idle => thread.recvCq = [] ∧ thread.control.AtRest
  | .queued completion => thread.recvCq = [completion] ∧ thread.control.AtRest
  | .held completion => thread.recvCq = [] ∧ thread.control.Holds completion
  | .returned completion outSize =>
    thread.recvCq = [] ∧ thread.control.Returned completion outSize

def visible (thread : Thread) : Visible where
  functions := thread.functions
  maxInlineData := thread.maxInlineData
  termProcess := thread.termProcess
  rcv := thread.rcv
  send := thread.send
  posted := thread.posted
  executions := thread.executions
  replies := thread.replies

/-- The completions that have arrived and that no reply was posted for. -/
def unfinished (thread : Thread) : List WorkCompletion := thread.control.rest ++ thread.recvCq

theorem at_idle_begin (functions : Functions) (timeout : Int) (maxInlineData : UInt32)
    (rcv : Region) (outSize : Nat) :
    (begin_ functions timeout maxInlineData rcv outSize).At .idle := ⟨rfl, trivial⟩

/-! ### Steps -/

variable {thread : Thread} {completion : WorkCompletion} {outSize : UInt32}

/-- Behind the inner loop of `hot` the thread stays at rest. -/
theorem hotCount_rule (thread : Thread) (now start : Int) (count : Nat) :
    (thread.hotCount now start count).visible = thread.visible ∧
      (thread.hotCount now start count).control.AtRest ∧
      (thread.hotCount now start count).recvCq = thread.recvCq := by
  unfold hotCount
  split
  · dsimp only
    split <;> exact ⟨rfl, trivial, rfl⟩
  · exact ⟨rfl, trivial, rfl⟩

/-- Nobody notices a step of a thread at rest. The thread stays at rest, or it finds completions
in its queue and takes a batch of them. -/
theorem step_atRest (atRest : thread.control.AtRest) (now : Int) :
    (thread.step now).visible = thread.visible ∧
      ((thread.step now).control.AtRest ∧ (thread.step now).recvCq = thread.recvCq ∨
        thread.recvCq ≠ [] ∧ (thread.step now).recvCq = thread.recvCq.drop wcSize ∧
          ((∃ start count,
              (thread.step now).control = .hotNext start count (thread.recvCq.take wcSize) 0) ∨
            (thread.step now).control = .warmNext (thread.recvCq.take wcSize) 0)) := by
  have polled : ¬(thread.recvCq.take wcSize).isEmpty = true → thread.recvCq ≠ [] := by
    intro some empty
    rw [empty] at some
    exact some rfl
  have unpolled : (thread.recvCq.take wcSize).isEmpty = true →
      thread.recvCq.drop wcSize = thread.recvCq := by
    intro none
    have empty : thread.recvCq = [] := by
      rw [List.isEmpty_iff, List.take_eq_nil_iff] at none
      exact none.resolve_left (by decide)
    rw [empty, List.drop_nil]
  unfold step
  split <;> rename_i control <;> rw [control] at atRest
  · unfold dispatch
    split
    · exact ⟨rfl, Or.inl ⟨trivial, rfl⟩⟩
    · split <;> exact ⟨rfl, Or.inl ⟨trivial, rfl⟩⟩
  · unfold hotPoll
    split
    · exact ⟨rfl, Or.inl ⟨trivial, rfl⟩⟩
    · dsimp only [poll]
      by_cases none : (thread.recvCq.take wcSize).isEmpty = true
      · rw [if_pos none]
        exact ⟨rfl, Or.inl ⟨trivial, unpolled none⟩⟩
      · rw [if_neg none]
        exact ⟨rfl, Or.inr ⟨polled none, rfl, Or.inl ⟨_, _, rfl⟩⟩⟩
  · unfold hotNext
    rw [getElem?_eq_none atRest]
    exact ⟨rfl, Or.inl ⟨trivial, rfl⟩⟩
  · obtain ⟨unseen, rest⟩ := hotCount_rule thread now _ _
    exact ⟨unseen, Or.inl rest⟩
  · unfold warmPoll
    split
    · exact ⟨rfl, Or.inl ⟨trivial, rfl⟩⟩
    · dsimp only [poll]
      by_cases none : (thread.recvCq.take wcSize).isEmpty = true
      · rw [if_pos none]
        exact ⟨rfl, Or.inl ⟨trivial, unpolled none⟩⟩
      · rw [if_neg none]
        exact ⟨rfl, Or.inr ⟨polled none, rfl, Or.inr rfl⟩⟩
  · unfold warmNext
    rw [getElem?_eq_none atRest]
    dsimp only
    split <;> exact ⟨rfl, Or.inl ⟨trivial, rfl⟩⟩
  · unfold warmWait
    split
    · exact ⟨rfl, Or.inl ⟨trivial, rfl⟩⟩
    · split
      · exact ⟨rfl, Or.inl ⟨by rw [control]; trivial, rfl⟩⟩
      · exact ⟨rfl, Or.inl ⟨trivial, rfl⟩⟩
  · exact ⟨rfl, Or.inl ⟨trivial, rfl⟩⟩
  · exact absurd atRest id
  · exact absurd atRest id
  · exact ⟨rfl, Or.inl ⟨trivial, rfl⟩⟩
  · exact ⟨rfl, Or.inl ⟨by rw [control]; trivial, rfl⟩⟩
  · exact ⟨rfl, Or.inl ⟨by rw [control]; trivial, rfl⟩⟩

theorem step_idle (idle : thread.At .idle) (now : Int) :
    (thread.step now).visible = thread.visible ∧ (thread.step now).At .idle := by
  obtain ⟨empty, atRest⟩ := idle
  obtain ⟨unseen, ⟨rest, same⟩ | ⟨some, _⟩⟩ := step_atRest atRest now
  · exact ⟨unseen, same.trans empty, rest⟩
  · exact absurd empty some

theorem step_queued (queued : thread.At (.queued completion)) (now : Int) :
    (thread.step now).visible = thread.visible ∧
      ((thread.step now).At (.queued completion) ∨ (thread.step now).At (.held completion)) := by
  obtain ⟨single, atRest⟩ := queued
  obtain ⟨unseen, ⟨rest, same⟩ | ⟨_, left, taken⟩⟩ := step_atRest atRest now
  · exact ⟨unseen, Or.inl ⟨same.trans single, rest⟩⟩
  · rw [single] at left taken
    refine ⟨unseen, Or.inr ⟨left, ?_⟩⟩
    rcases taken with ⟨start, count, control⟩ | control
    all_goals
      rw [control]
      exact ⟨rfl, rfl⟩

/-- The step of a thread that has taken an invocation: it gets ready for the call, or it calls
the function on what the input buffer holds now, or the function does not exist. -/
theorem step_held (held : thread.At (.held completion)) (success : completion.failed = false)
    (now : Int) :
    (thread.step now).visible = thread.visible ∧ (thread.step now).At (.held completion) ∨
    (∃ name function execution,
      thread.functions.function (Task.ofCompletion completion).funcId.toNat =
        some (name, function) ∧
      execution = thread.call (Task.ofCompletion completion) name function ∧
      (thread.step now).visible =
        { thread.visible with
          send := execution.output, executions := thread.executions ++ [execution] } ∧
      (thread.step now).At (.returned completion execution.outSize)) ∨
    thread.functions.function (Task.ofCompletion completion).funcId.toNat = none ∧
      (thread.step now).visible = thread.visible ∧ (thread.step now).At .idle := by
  obtain ⟨empty, holds⟩ := held
  unfold step
  split <;> rename_i control <;> rw [control] at holds <;> try exact absurd holds id
  · obtain ⟨rfl, rfl⟩ := holds
    refine Or.inl ?_
    simp only [hotNext, getElem?_cons_zero, success]
    exact ⟨rfl, empty, ⟨rfl, rfl⟩, rfl⟩
  · obtain ⟨rfl, rfl⟩ := holds
    refine Or.inl ?_
    simp only [warmNext, getElem?_cons_zero, success]
    exact ⟨rfl, empty, ⟨rfl, rfl⟩, rfl⟩
  · obtain ⟨single, rfl⟩ := holds
    unfold calling
    split
    · rename_i missing
      exact Or.inr (Or.inr ⟨missing, rfl, empty, trivial⟩)
    · rename_i name function found
      exact Or.inr (Or.inl ⟨name, function, _, found, rfl, rfl, empty, single, rfl, rfl⟩)

/-- When the function has returned, the next step posts the reply, to the address that the input
buffer holds now. -/
theorem step_returned (returned : thread.At (.returned completion outSize)) (now : Int) :
    let write := thread.reply (Task.ofCompletion completion) outSize
    (thread.step now).visible =
        { thread.visible with
          posted := thread.posted ++ [write]
          replies := thread.replies ++ [⟨completion.origin, write⟩] } ∧
      (thread.step now).At .idle := by
  obtain ⟨empty, control⟩ := returned
  unfold step
  split <;> rename_i here <;> rw [here] at control <;> try exact absurd control id
  rename_i caller task start size
  obtain ⟨single, rfl, rfl⟩ := control
  cases caller with
  | _ =>
    obtain ⟨rfl, rfl⟩ := single
    exact ⟨rfl, empty, le_refl 1⟩

/-- A write that lands on an idle thread is the one invocation that the thread then has. -/
theorem land_idle (idle : thread.At .idle) (write : Write) :
    (∃ rcv, thread.rcv.place write = some rcv ∧
      (thread.land write).visible = { thread.visible with rcv := rcv } ∧
      (thread.land write).At (.queued write.completion)) ∨
    thread.rcv.place write = none ∧ thread.land write = thread := by
  unfold land
  split
  · rename_i rcv placed
    refine Or.inl ⟨rcv, placed, rfl, ?_, idle.2⟩
    simp only [arrive, idle.1, nil_append]
  · rename_i refused
    exact Or.inr ⟨refused, rfl⟩

theorem idle_of_unfinished {stage : Stage} (here : thread.At stage)
    (none : thread.unfinished = []) : stage = .idle := by
  obtain ⟨noRest, empty⟩ := append_eq_nil_iff.mp none
  cases stage with
  | idle => rfl
  | queued => exact absurd (here.1.symm.trans empty) (cons_ne_nil _ _)
  | held =>
    obtain ⟨_, holds⟩ := here
    refine absurd noRest ?_
    cases control : thread.control <;> rw [control] at holds <;> try exact absurd holds id
    · obtain ⟨rfl, rfl⟩ := holds
      exact cons_ne_nil _ _
    · obtain ⟨rfl, rfl⟩ := holds
      exact cons_ne_nil _ _
    · exact holds.1.rest_ne_nil
  | returned =>
    obtain ⟨_, returned⟩ := here
    refine absurd noRest ?_
    cases control : thread.control <;> rw [control] at returned <;> try exact absurd returned id
    exact returned.1.rest_ne_nil

/-! ### Wake-ups -/

/-- The thread runs, and it will notice a completion: before it polls in `warm` a notification
is requested or an event is pending, and from the poll until it waits again no completion has
arrived without an event. -/
def Alert (thread : Thread) : Prop :=
  thread.termProcess = false ∧
    match thread.control with
    | .dispatch =>
      thread.pollingState = .warm ∨ thread.pollingState = .warmAlways →
        thread.armed = true ∨ 0 < thread.events
    | .warmPoll => thread.armed = true ∨ 0 < thread.events
    | .warmNext _ _ | .warmWait | .calling (.warm _ _) _ | .replying (.warm _ _) _ _ _ =>
      thread.armed = true ∧ thread.recvCq = [] ∨ 0 < thread.events
    | .finishing | .finished | .fault => False
    | _ => True

theorem alert_begin (functions : Functions) (timeout : Int) (maxInlineData : UInt32)
    (rcv : Region) (outSize : Nat) :
    (begin_ functions timeout maxInlineData rcv outSize).Alert := by
  refine ⟨rfl, fun warm => Or.inr ?_⟩
  rcases warm with warm | warm
  · revert warm
    simp only [begin_]
    split
    · exact fun impossible => nomatch impossible
    · split <;> exact fun impossible => nomatch impossible
  · have same : (begin_ functions timeout maxInlineData rcv outSize).events =
        if (begin_ functions timeout maxInlineData rcv outSize).pollingState = .warmAlways then 1
        else 0 := rfl
    rw [same, if_pos warm]
    exact one_pos

theorem alert_land (alert : thread.Alert) (write : Write) : (thread.land write).Alert := by
  unfold land
  split
  · refine ⟨alert.1, ?_⟩
    have woken : thread.armed = true ∨ 0 < thread.events →
        0 < (if thread.armed then thread.events + 1 else thread.events) := by
      intro either
      split
      · exact succ_pos _
      · rename_i unarmed
        exact either.resolve_left unarmed
    have awake := alert.2
    simp only [arrive]
    split <;> try trivial
    all_goals rename_i control; rw [control] at awake
    · exact fun warm => Or.inr (woken (awake warm))
    · exact Or.inr (woken awake)
    · exact Or.inr (woken (awake.imp_left And.left))
    · exact Or.inr (woken (awake.imp_left And.left))
    · exact Or.inr (woken (awake.imp_left And.left))
    · exact Or.inr (woken (awake.imp_left And.left))
    · exact awake
    · exact awake
    · exact awake
  · exact alert

/-- No step of a thread with a batch at most loses a wake-up. -/
theorem alert_step (alert : thread.Alert) (few : thread.recvCq.length ≤ wcSize)
    (found : ∀ caller task, thread.control = .calling caller task →
      thread.functions.function task.funcId.toNat ≠ none) (now : Int) :
    (thread.step now).Alert := by
  obtain ⟨running, awake⟩ := alert
  have drained : thread.recvCq.drop wcSize = [] := drop_eq_nil_of_le few
  have on : ¬thread.termProcess = true := by rw [running]; exact Bool.false_ne_true
  unfold step
  split <;> rename_i control <;> rw [control] at awake
  · unfold dispatch
    rw [if_neg on]
    split <;> rename_i state
    · exact ⟨running, trivial⟩
    · exact ⟨running, trivial⟩
    · exact ⟨running, awake (Or.inl state)⟩
    · exact ⟨running, awake (Or.inr state)⟩
  · unfold hotPoll
    rw [if_neg on]
    dsimp only [poll]
    split <;> exact ⟨running, trivial⟩
  · unfold hotNext
    split
    · exact ⟨running, trivial⟩
    · split <;> exact ⟨running, trivial⟩
  · unfold hotCount
    split
    · dsimp only
      split
      · exact ⟨running, fun _ => Or.inl rfl⟩
      · exact ⟨running, trivial⟩
    · exact ⟨running, trivial⟩
  · unfold warmPoll
    rw [if_neg on]
    dsimp only [poll]
    have kept := awake.imp_left fun armed => (⟨armed, drained⟩ : _ ∧ thread.recvCq.drop wcSize = [])
    split <;> exact ⟨running, kept⟩
  · unfold warmNext
    split
    · split
      · exact ⟨running, fun warm => nomatch warm⟩
      · exact ⟨running, awake⟩
    · split <;> exact ⟨running, awake⟩
  · unfold warmWait
    rw [if_neg on]
    split
    · exact ⟨running, by rw [control]; exact awake⟩
    · exact ⟨running, trivial⟩
  · exact ⟨running, Or.inl rfl⟩
  · rename_i caller task
    unfold calling
    split
    · rename_i missing
      exact absurd missing (found caller task control)
    · cases caller with
      | hot => exact ⟨running, trivial⟩
      | warm => exact ⟨running, awake⟩
  · rename_i caller task start outSize
    cases caller with
    | hot => exact ⟨running, trivial⟩
    | warm => exact ⟨running, awake⟩
  · exact absurd awake id
  · exact absurd awake id
  · exact absurd awake id

/-! ### Progress -/

theorem patience_queued (alert : thread.Alert) (queued : thread.At (.queued completion))
    (now : Int) : (thread.step now).control.patience < thread.control.patience := by
  obtain ⟨running, awake⟩ := alert
  obtain ⟨single, atRest⟩ := queued
  have on : ¬thread.termProcess = true := by rw [running]; exact Bool.false_ne_true
  have batch : thread.recvCq.take wcSize = [completion] := by rw [single]; rfl
  unfold step
  split <;> rename_i control <;> rw [control] at awake atRest <;> rw [control] <;>
    try exact absurd awake id
  · unfold dispatch
    rw [if_neg on]
    split <;> exact le_refl 5
  · unfold hotPoll
    rw [if_neg on]
    dsimp only [poll]
    rw [batch]
    exact le_refl 4
  · rename_i start count batch index
    have late : (Control.hotNext start count batch index).patience = 7 :=
      if_neg (not_lt.mpr atRest)
    unfold hotNext
    rw [getElem?_eq_none atRest, late]
    exact le_refl 7
  · unfold hotCount
    split
    · dsimp only
      split
      · exact le_refl 6
      · exact le_succ 5
    · exact le_succ 5
  · unfold warmPoll
    rw [if_neg on]
    dsimp only [poll]
    rw [batch]
    exact le_refl 4
  · rename_i batch index
    unfold warmNext
    have late : (Control.warmNext batch index).patience = 7 := if_neg (not_lt.mpr atRest)
    rw [getElem?_eq_none atRest, late]
    dsimp only
    split
    · exact le_succ 6
    · exact le_refl 7
  · have event : 0 < thread.events :=
      awake.resolve_left fun quiet => cons_ne_nil _ _ (single.symm.trans quiet.2)
    unfold warmWait
    rw [if_neg on, if_neg (ne_of_gt event)]
    exact le_refl 6
  · exact le_refl 5
  · exact absurd atRest id
  · exact absurd atRest id

theorem patience_held (held : thread.At (.held completion)) (success : completion.failed = false)
    (found : thread.functions.function (Task.ofCompletion completion).funcId.toNat ≠ none)
    (now : Int) : (thread.step now).control.patience < thread.control.patience := by
  obtain ⟨_, holds⟩ := held
  unfold step
  split <;> rename_i control <;> rw [control] at holds <;> rw [control] <;>
    try exact absurd holds id
  · obtain ⟨rfl, rfl⟩ := holds
    simp only [hotNext, getElem?_cons_zero, success]
    exact le_refl 3
  · obtain ⟨rfl, rfl⟩ := holds
    simp only [warmNext, getElem?_cons_zero, success]
    exact le_refl 3
  · obtain ⟨_, rfl⟩ := holds
    unfold calling
    split
    · rename_i missing
      exact absurd missing found
    · exact le_refl 2

end Thread

end RFaaS.FastExecutor
