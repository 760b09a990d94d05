/-
This file compares the inner loops of `Thread::hot` and `Thread::warm`
(`server/executor/fast_executor.cpp`). Both walk over the batch of completions
that one poll has returned, skip the failed ones and call `work` for the
others. In `hot` the loop declares a counter `i` that hides the counter `i` of
the outer loop, and the `i = 0` behind the call of `work` was meant for the
outer one: it sends the inner loop back to the second completion.

As long as only the first completion of a batch has succeeded, the two loops
are at the same place after every step, whatever lands in the input buffer
meanwhile. A second success is executed again and again, and the loop does not
end.
-/

import RFaaS.Serving
import RFaaS.Transition

namespace RFaaS.FastExecutor

open Transition List

/-- The arguments of the calls of `work` that a batch asks for. -/
def tasks (batch : List WorkCompletion) : List Task :=
  (batch.filter fun completion => !completion.failed).map Task.ofCompletion

/-- In the inner loop of `hot` or of `warm`, or in a call of `work` by it. -/
def Control.inside : Control → Bool
  | .hotNext _ _ _ _ | .warmNext _ _ | .calling _ _ | .replying _ _ _ _ => true
  | _ => false

/-- The call of `work` that begins at this point. -/
def Control.begun : Control → List Task
  | .calling _ task => [task]
  | _ => []

/-- A thread on its way through one batch, until it leaves the inner loop. `calls` are the
arguments of the calls of `work` so far. -/
structure Pass where
  thread : Thread
  calls : List Task

namespace Pass

inductive Event
  | step (now : Int)
  /-- A write of the client takes effect. -/
  | land (write : Write)
  | terminate

def Event.isStep : Event → Bool
  | .step _ => true
  | _ => false

/-- A step of the thread in the loop; behind the loop it does not count. -/
def advance (pass : Pass) (now : Int) : Pass :=
  if pass.thread.control.inside then
    let thread := pass.thread.step now
    ⟨thread, pass.calls ++ thread.control.begun⟩
  else pass

def step (pass : Pass) : Event → Pass
  | .step now => pass.advance now
  | .land write => { pass with thread := pass.thread.land write }
  | .terminate => { pass with thread := { pass.thread with termProcess := true } }

/-- `hot` at the head of its inner loop. -/
def hot (thread : Thread) (start : Int) (count : Nat) (batch : List WorkCompletion) : Pass :=
  ⟨{ thread with control := .hotNext start count batch 0 }, []⟩

/-- `warm` at the head of its inner loop. -/
def warm (thread : Thread) (batch : List WorkCompletion) : Pass :=
  ⟨{ thread with control := .warmNext batch 0 }, []⟩

end Pass

namespace Thread

/-- On this batch the inner loop of `hot` ends. It then has called `work` once for each success,
in the order of the batch, and has made the calls and sent the replies that `warm` makes and
sends under the same schedule. -/
def ServesBatch (thread : Thread) (batch : List WorkCompletion) : Prop :=
  ∀ start count, ∃ bound, ∀ events : List Pass.Event, bound ≤ events.countP Pass.Event.isStep →
    let hot := run Pass.step (Pass.hot thread start count batch) events
    let warm := run Pass.step (Pass.warm thread batch) events
    (∃ finish, hot.thread.control = .hotCount finish count) ∧
      hot.calls = tasks batch ∧
      hot.thread.executions = warm.thread.executions ∧
      hot.thread.replies = warm.thread.replies

/-- A success is the first completion of its batch, and it asks for a function that exists. -/
def Lone (functions : Functions) (batch : List WorkCompletion) : Prop :=
  ∀ (index : Nat) completion, batch[index]? = some completion → completion.failed = false →
    index = 0 ∧ functions.function (Task.ofCompletion completion).funcId.toNat ≠ none

end Thread

/-! ### The calls that a batch asks for -/

theorem tasks_append (first second : List WorkCompletion) :
    tasks (first ++ second) = tasks first ++ tasks second := by
  simp only [tasks, filter_append, map_append]

theorem tasks_failed {completion : WorkCompletion} (failed : completion.failed = true) :
    tasks [completion] = [] := by
  simp only [tasks, filter_cons, failed, Bool.not_true, Bool.false_eq_true, if_false,
    filter_nil, map_nil]

theorem tasks_succeeded {completion : WorkCompletion} (success : completion.failed = false) :
    tasks [completion] = [Task.ofCompletion completion] := by
  simp only [tasks, filter_cons, success, Bool.not_false, if_true, filter_nil,
    map_cons, map_nil]

theorem tasks_take_succ {batch : List WorkCompletion} {index : Nat} {completion : WorkCompletion}
    (here : batch[index]? = some completion) :
    tasks (batch.take (index + 1)) = tasks (batch.take index) ++ tasks [completion] := by
  rw [take_add_one, here, tasks_append]
  rfl

/-! ### The loop of `warm` -/

/-- How far `warm` is in a batch, with the calls that it has made. -/
inductive Walked (batch : List WorkCompletion) : Control → List Task → Prop
  | next (index : Nat) : Walked batch (.warmNext batch index) (tasks (batch.take index))
  | calling {index : Nat} {completion : WorkCompletion} (here : batch[index]? = some completion)
      (success : completion.failed = false) :
      Walked batch (.calling (.warm batch index) (Task.ofCompletion completion))
        (tasks (batch.take (index + 1)))
  | replying {index : Nat} {completion : WorkCompletion} (here : batch[index]? = some completion)
      (start : Int) (outSize : UInt32) :
      Walked batch (.replying (.warm batch index) (Task.ofCompletion completion) start outSize)
        (tasks (batch.take (index + 1)))
  | hot : Walked batch .dispatch (tasks batch)
  | waits : Walked batch .warmWait (tasks batch)

theorem Walked.still {batch : List WorkCompletion} {control : Control} {calls : List Task}
    (walked : Walked batch control calls) (still : control.begun = []) :
    Walked batch control (calls ++ control.begun) := by
  rw [still, append_nil]
  exact walked

/-- The steps that are left in the loop, at most. -/
def Control.due : Control → Nat
  | .warmNext batch index => 3 * (batch.length - index) + 1
  | .calling (.warm batch index) _ => 3 * (batch.length - (index + 1)) + 3
  | .replying (.warm batch index) _ _ _ => 3 * (batch.length - (index + 1)) + 2
  | _ => 0

/-- Every function that a success of the batch asks for exists. -/
def Functions.Knows (functions : Functions) (batch : List WorkCompletion) : Prop :=
  ∀ (index : Nat) completion, batch[index]? = some completion → completion.failed = false →
    functions.function (Task.ofCompletion completion).funcId.toNat ≠ none

namespace Pass

variable {batch : List WorkCompletion} {pass : Pass}

/-- `warm` on its way through a batch. -/
structure Walks (batch : List WorkCompletion) (pass : Pass) : Prop where
  known : pass.thread.functions.Knows batch
  walked : Walked batch pass.thread.control pass.calls

/-- A step in the loop of `warm` gets closer to its end. -/
theorem warm_step {thread : Thread} {control : Control} {calls : List Task}
    (known : thread.functions.Knows batch) (walked : Walked batch control calls)
    (here : thread.control = control) (inside : control.inside = true) (now : Int) :
    (thread.step now).functions = thread.functions ∧
      Walked batch (thread.step now).control (calls ++ (thread.step now).control.begun) ∧
      (thread.step now).control.due + 1 ≤ control.due := by
  unfold Thread.step
  rw [here]
  cases walked with
  | next index =>
    dsimp only [Thread.warmNext]
    cases found : batch[index]? with
    | none =>
      have ended : batch.length ≤ index := List.getElem?_eq_none_iff.mp found
      rw [take_of_length_le ended]
      dsimp only
      split
      · exact ⟨rfl, Walked.hot.still rfl, Nat.le_add_left 1 _⟩
      · exact ⟨rfl, Walked.waits.still rfl, Nat.le_add_left 1 _⟩
    | some completion =>
      have short : index < batch.length := (List.getElem?_eq_some_iff.mp found).1
      dsimp only
      cases status : completion.failed with
      | true =>
        rw [if_pos rfl]
        refine ⟨rfl, ?_, ?_⟩
        · have taken := tasks_take_succ found
          rw [tasks_failed status, append_nil] at taken
          rw [← taken]
          exact (Walked.next (index + 1)).still rfl
        · dsimp only [Control.due]
          omega
      | false =>
        rw [if_neg Bool.false_ne_true]
        refine ⟨rfl, ?_, ?_⟩
        · have taken := tasks_take_succ found
          rw [tasks_succeeded status] at taken
          show Walked batch _ (tasks (batch.take index) ++ [Task.ofCompletion completion])
          rw [← taken]
          exact .calling found status
        · dsimp only [Control.due]
          omega
  | calling found success =>
    dsimp only [Thread.calling]
    split
    · rename_i missing
      exact absurd missing (known _ _ found success)
    · exact ⟨rfl, (Walked.replying found _ _).still rfl, Nat.le_refl _⟩
  | replying => exact ⟨rfl, (Walked.next _).still rfl, Nat.le_refl _⟩
  | _ => cases inside

theorem land_functions (thread : Thread) (write : Write) :
    (thread.land write).functions = thread.functions := by
  unfold Thread.land
  split <;> rfl

theorem land_control (thread : Thread) (write : Write) :
    (thread.land write).control = thread.control := by
  unfold Thread.land
  split <;> rfl

theorem Walks.step (walks : pass.Walks batch) (event : Event) :
    (pass.step event).Walks batch ∧
      (pass.step event).thread.control.due ≤ pass.thread.control.due - event.isStep.toNat := by
  cases event with
  | step now =>
    show (pass.advance now).Walks batch ∧ _
    dsimp only [Pass.step]
    unfold advance
    by_cases inside : pass.thread.control.inside = true
    · rw [if_pos inside]
      obtain ⟨functions, walked, closer⟩ := warm_step walks.known walks.walked rfl inside now
      refine ⟨⟨?_, walked⟩, Nat.le_sub_one_of_lt closer⟩
      dsimp only
      rw [functions]
      exact walks.known
    · rw [if_neg inside]
      have none : pass.thread.control.due = 0 := by
        revert inside
        cases pass.thread.control <;> intro inside <;> first | rfl | exact absurd rfl inside
      rw [none]
      exact ⟨walks, Nat.zero_le _⟩
  | land write =>
    refine ⟨⟨?_, ?_⟩, ?_⟩
    · show (pass.thread.land write).functions.Knows batch
      rw [land_functions]
      exact walks.known
    · show Walked batch (pass.thread.land write).control pass.calls
      rw [land_control]
      exact walks.walked
    · show (pass.thread.land write).control.due ≤ _
      rw [land_control]
      exact Nat.le_refl _
  | terminate => exact ⟨⟨walks.known, walks.walked⟩, Nat.le_refl _⟩

/-- `warm` comes to the end of every batch, with the calls that the batch asks for. -/
theorem warm_ends {thread : Thread} (known : thread.functions.Knows batch) {events : List Event}
    (enough : 3 * batch.length + 1 ≤ events.countP Event.isStep) :
    let pass := run step (warm thread batch) events
    pass.thread.control.inside = false ∧ pass.thread.control ≠ .fault ∧
      pass.calls = tasks batch := by
  intro pass
  have start : (warm thread batch).Walks batch := ⟨known, .next 0⟩
  have preserved : ∀ (pass : Pass) event, pass.Walks batch → (pass.step event).Walks batch :=
    fun _ event walks => (walks.step event).1
  have walks : pass.Walks batch := run_stable preserved events start
  have falls : ∀ (pass : Pass) event, pass.Walks batch →
      (pass.step event).thread.control.due ≤ pass.thread.control.due - event.isStep.toNat :=
    fun _ event walks => (walks.step event).2
  have due : pass.thread.control.due ≤
      (warm thread batch).thread.control.due - events.countP Event.isStep :=
    @run_countdown Pass Event step _ (fun pass => pass.thread.control.due) _ preserved falls _ start
      events
  have first : (warm thread batch).thread.control.due = 3 * batch.length + 1 := rfl
  have ended : pass.thread.control.due = 0 := by omega
  have walked := walks.walked
  revert ended walked
  generalize pass.thread.control = control
  generalize pass.calls = calls
  intro ended walked
  cases walked with
  | next | calling | replying => cases ended
  | _ => exact ⟨rfl, Control.noConfusion, rfl⟩

/-! ### The two loops side by side -/

/-- The loops are at the same place, and `hot` calls `work` only for the first completion. -/
inductive Abreast (batch : List WorkCompletion) (count : Nat) : Control → Control → Prop
  | next (start : Int) (index : Nat) :
      Abreast batch count (.hotNext start count batch index) (.warmNext batch index)
  | calling (start now : Int) (task : Task) :
      Abreast batch count (.calling (.hot start now count batch 0) task)
        (.calling (.warm batch 0) task)
  | replying (start now begun : Int) (task : Task) (outSize : UInt32) :
      Abreast batch count (.replying (.hot start now count batch 0) task begun outSize)
        (.replying (.warm batch 0) task begun outSize)
  | left (finish : Int) {control : Control} (left : control.inside = false) :
      Abreast batch count (.hotCount finish count) control
  | fault : Abreast batch count .fault .fault

theorem Abreast.inside {count : Nat} {hot warm : Control} (abreast : Abreast batch count hot warm) :
    hot.inside = warm.inside := by
  cases abreast with
  | left finish left => exact left.symm
  | _ => rfl

theorem Control.begun_of_left {control : Control} (left : control.inside = false) :
    control.begun = [] := by
  cases control <;> first | rfl | cases left

theorem Abreast.begun {count : Nat} {hot warm : Control} (abreast : Abreast batch count hot warm) :
    hot.begun = warm.begun := by
  cases abreast with
  | left finish left => exact (Control.begun_of_left left).symm
  | _ => rfl

theorem Abreast.ended {count : Nat} {hot warm : Control} (abreast : Abreast batch count hot warm)
    (left : warm.inside = false) (sound : warm ≠ .fault) :
    ∃ finish, hot = .hotCount finish count := by
  cases abreast with
  | left finish _ => exact ⟨finish, rfl⟩
  | fault => exact absurd rfl sound
  | _ => cases left

section Steps

variable {hot warm : Thread} {count : Nat}

/-- What a call of `work` does does not depend on the loop that makes it. -/
theorem calling_alike (visible : hot.visible = warm.visible) (now start begun : Int) (task : Task) :
    let hot := hot.calling now (.hot start begun count batch 0) task
    let warm := warm.calling now (.warm batch 0) task
    hot.visible = warm.visible ∧ Abreast batch count hot.control warm.control := by
  simp only [Thread.visible, Visible.mk.injEq] at visible
  obtain ⟨functions, inlined, terminated, rcv, send, posted, executions, replies⟩ := visible
  have call : hot.call task = warm.call task := by
    funext name function
    rw [Thread.call, Thread.call, rcv, send]
  unfold Thread.calling
  rw [functions]
  cases warm.functions.function task.funcId.toNat with
  | none =>
    dsimp only [Thread.visible]
    rw [inlined, terminated, rcv, send, posted, executions, replies]
    exact ⟨rfl, .fault⟩
  | some found =>
    dsimp only [Thread.visible]
    rw [call, inlined, terminated, rcv, posted, executions, replies]
    exact ⟨rfl, .replying _ _ _ _ _⟩

theorem replying_alike (visible : hot.visible = warm.visible) (now start begun called : Int)
    (task : Task) (outSize : UInt32) :
    let hot := hot.replying now (.hot start begun count batch 0) task called outSize
    let warm := warm.replying now (.warm batch 0) task called outSize
    hot.visible = warm.visible ∧ Abreast batch count hot.control warm.control := by
  simp only [Thread.visible, Visible.mk.injEq] at visible
  obtain ⟨functions, inlined, terminated, rcv, send, posted, executions, replies⟩ := visible
  have reply : hot.reply task outSize = warm.reply task outSize := by
    rw [Thread.reply, Thread.reply, rcv, send, inlined]
  dsimp only [Thread.replying, Thread.visible]
  rw [reply, functions, inlined, terminated, rcv, send, posted, executions, replies]
  exact ⟨rfl, .next _ _⟩

/-- As long as only the first completion has succeeded, the loops stay together. -/
theorem step_alike {hotControl warmControl : Control} (visible : hot.visible = warm.visible)
    (abreast : Abreast batch count hotControl warmControl) (hotHere : hot.control = hotControl)
    (warmHere : warm.control = warmControl) (inside : warmControl.inside = true)
    (first : ∀ (index : Nat) completion, batch[index]? = some completion →
      completion.failed = false → index = 0) (now : Int) :
    (hot.step now).visible = (warm.step now).visible ∧
      Abreast batch count (hot.step now).control (warm.step now).control := by
  unfold Thread.step
  rw [hotHere, warmHere]
  cases abreast with
  | next start index =>
    dsimp only [Thread.hotNext, Thread.warmNext]
    cases found : batch[index]? with
    | none =>
      dsimp only
      split <;> exact ⟨visible, .left _ rfl⟩
    | some completion =>
      dsimp only
      cases status : completion.failed with
      | true => exact ⟨visible, .next _ _⟩
      | false =>
        rw [first index completion found status]
        exact ⟨visible, .calling _ _ _⟩
  | calling start begun task => exact calling_alike visible now start begun task
  | replying start begun called task outSize =>
    exact replying_alike visible now start begun called task outSize
  | left finish left => exact absurd inside (by rw [left]; exact Bool.false_ne_true)
  | fault => cases inside

end Steps

/-- Two threads, one in `hot` and one in `warm`, that nobody outside can tell apart. -/
structure Alike (batch : List WorkCompletion) (count : Nat) (hot warm : Pass) : Prop where
  visible : hot.thread.visible = warm.thread.visible
  calls : hot.calls = warm.calls
  abreast : Abreast batch count hot.thread.control warm.thread.control

theorem Alike.step {count : Nat} {hot warm : Pass}
    (first : ∀ (index : Nat) completion, batch[index]? = some completion →
      completion.failed = false → index = 0)
    (alike : Alike batch count hot warm) (event : Event) :
    Alike batch count (hot.step event) (warm.step event) := by
  cases event with
  | step now =>
    show Alike batch count (hot.advance now) (warm.advance now)
    unfold advance
    rw [alike.abreast.inside]
    by_cases inside : warm.thread.control.inside = true
    · rw [if_pos inside, if_pos inside]
      obtain ⟨visible, abreast⟩ :=
        step_alike alike.visible alike.abreast rfl rfl inside first now
      refine ⟨visible, ?_, abreast⟩
      dsimp only
      rw [alike.calls, abreast.begun]
    · rw [if_neg inside, if_neg inside]
      exact alike
  | land write =>
    refine ⟨?_, alike.calls, ?_⟩
    · have visible := alike.visible
      simp only [Thread.visible, Visible.mk.injEq] at visible
      obtain ⟨functions, inlined, terminated, rcv, send, posted, executions, replies⟩ := visible
      dsimp only [Pass.step]
      unfold Thread.land
      rw [rcv]
      cases warm.thread.rcv.place write with
      | none => exact alike.visible
      | some placed =>
        dsimp only [Thread.arrive, Thread.visible]
        rw [functions, inlined, terminated, send, posted, executions, replies]
    · dsimp only [Pass.step]
      rw [land_control, land_control]
      exact alike.abreast
  | terminate =>
    refine ⟨?_, alike.calls, alike.abreast⟩
    exact congrArg (fun visible => { visible with termProcess := true }) alike.visible

/-! ### A second success -/

/-- The loop of `hot` cannot get past `position`. -/
inductive Trapped (batch : List WorkCompletion) (position : Nat) : Control → Prop
  | next (start : Int) (count : Nat) {index : Nat} (before : index ≤ position) :
      Trapped batch position (.hotNext start count batch index)
  | calling (start now : Int) (count : Nat) {index : Nat} {completion : WorkCompletion}
      (before : index ≤ position) (here : batch[index]? = some completion) :
      Trapped batch position
        (.calling (.hot start now count batch index) (Task.ofCompletion completion))
  | replying (start now begun : Int) (count index : Nat) (task : Task) (outSize : UInt32)
      (back : 1 ≤ position) :
      Trapped batch position (.replying (.hot start now count batch index) task begun outSize)
  | fault : Trapped batch position .fault

/-- The completion at `position` has succeeded, and it is not the first one or asks for a
function that does not exist. -/
structure Trap (functions : Functions) (batch : List WorkCompletion) (position : Nat)
    (completion : WorkCompletion) : Prop where
  here : batch[position]? = some completion
  success : completion.failed = false
  stops : 1 ≤ position ∨
    functions.function (Task.ofCompletion completion).funcId.toNat = none

theorem step_trapped {thread : Thread} {position : Nat} {completion : WorkCompletion}
    {control : Control} (trap : Trap thread.functions batch position completion)
    (trapped : Trapped batch position control) (here : thread.control = control) (now : Int) :
    (thread.step now).functions = thread.functions ∧
      Trapped batch position (thread.step now).control := by
  unfold Thread.step
  rw [here]
  cases trapped with
  | next start count before =>
    rename_i index
    dsimp only [Thread.hotNext]
    cases found : batch[index]? with
    | none =>
      have short := (List.getElem?_eq_some_iff.mp trap.here).1
      have ended := List.getElem?_eq_none_iff.mp found
      omega
    | some other =>
      dsimp only
      cases status : other.failed with
      | true =>
        have differs : index ≠ position := by
          rintro rfl
          have same := Option.some.inj (found.symm.trans trap.here)
          rw [same, trap.success] at status
          cases status
        exact ⟨rfl, .next _ _ (Nat.lt_of_le_of_ne before differs)⟩
      | false => exact ⟨rfl, .calling _ _ _ before found⟩
  | calling start begun count before found =>
    rename_i index other
    dsimp only [Thread.calling]
    split
    · exact ⟨rfl, .fault⟩
    · rename_i name function known
      refine ⟨rfl, .replying _ _ _ _ _ _ _ ?_⟩
      rcases trap.stops with behind | unknown
      · exact behind
      · by_contra first
        have same : index = position := by omega
        rw [same, trap.here] at found
        rw [Option.some.inj found, known] at unknown
        cases unknown
  | replying start begun called count index task outSize back =>
    exact ⟨rfl, .next _ _ back⟩
  | fault =>
    refine ⟨rfl, ?_⟩
    dsimp only
    rw [here]
    exact .fault

/-- `hot` is in the loop, before the position or at it. -/
structure Caught (batch : List WorkCompletion) (position : Nat) (completion : WorkCompletion)
    (pass : Pass) : Prop where
  trap : Trap pass.thread.functions batch position completion
  trapped : Trapped batch position pass.thread.control

theorem Caught.step {position : Nat} {completion : WorkCompletion}
    (caught : pass.Caught batch position completion) (event : Event) :
    (pass.step event).Caught batch position completion := by
  cases event with
  | step now =>
    show (pass.advance now).Caught batch position completion
    unfold advance
    split
    · obtain ⟨functions, trapped⟩ := step_trapped caught.trap caught.trapped rfl now
      refine ⟨?_, trapped⟩
      dsimp only
      rw [functions]
      exact caught.trap
    · exact caught
  | land write =>
    refine ⟨?_, ?_⟩
    · dsimp only [Pass.step]
      rw [land_functions]
      exact caught.trap
    · dsimp only [Pass.step]
      rw [land_control]
      exact caught.trapped
  | terminate => exact ⟨caught.trap, caught.trapped⟩

/-- From a batch with a success behind the first completion `hot` does not come back. -/
theorem hot_never_ends {thread : Thread} {position : Nat} {completion : WorkCompletion}
    (trap : Trap thread.functions batch position completion) (start : Int) (count : Nat)
    (events : List Event) (finish : Int) (last : Nat) :
    (run step (hot thread start count batch) events).thread.control ≠ .hotCount finish last := by
  have initially : (hot thread start count batch).Caught batch position completion :=
    ⟨trap, .next start count (Nat.zero_le position)⟩
  have caught : (run step (hot thread start count batch) events).Caught batch position completion :=
    run_stable (fun _ event caught => caught.step event) events initially
  intro left
  have trapped := caught.trapped
  rw [left] at trapped
  cases trapped

end Pass

namespace Thread

theorem not_serves {thread : Thread} {batch : List WorkCompletion} {position : Nat}
    {completion : WorkCompletion} (trap : Pass.Trap thread.functions batch position completion) :
    ¬thread.ServesBatch batch := by
  intro serves
  obtain ⟨bound, ends⟩ := serves 0 0
  have enough : bound ≤ (replicate bound (Pass.Event.step 0)).countP Pass.Event.isStep := by
    rw [countP_replicate]
    exact Nat.le_refl _
  obtain ⟨⟨finish, left⟩, _⟩ := ends _ enough
  exact Pass.hot_never_ends trap 0 0 _ finish 0 left

/-- The inner loop of `hot` serves a batch as `warm` does exactly if no completion but the first
one has succeeded (and the function of the first one exists). -/
theorem hot_serves_iff (thread : Thread) (batch : List WorkCompletion) :
    thread.ServesBatch batch ↔ Lone thread.functions batch := by
  constructor
  · intro serves index completion here success
    by_contra stops
    refine not_serves ⟨here, success, ?_⟩ serves
    rcases Nat.eq_zero_or_pos index with first | behind
    · refine Or.inr ?_
      by_contra known
      exact stops ⟨first, known⟩
    · exact Or.inl behind
  · intro lone start count
    refine ⟨3 * batch.length + 1, fun events enough => ?_⟩
    intro hot warm
    have known : thread.functions.Knows batch :=
      fun index completion here success => (lone index completion here success).2
    have first : ∀ (index : Nat) completion, batch[index]? = some completion →
        completion.failed = false → index = 0 :=
      fun index completion here success => (lone index completion here success).1
    have initially :
        Pass.Alike batch count (Pass.hot thread start count batch) (Pass.warm thread batch) :=
      ⟨rfl, rfl, .next start 0⟩
    have alike : Pass.Alike batch count hot warm :=
      run_related (fun _ _ event alike => alike.step first event) initially events
    obtain ⟨outside, sound, calls⟩ := Pass.warm_ends known enough
    refine ⟨?_, alike.calls.trans calls, congrArg Visible.executions alike.visible,
      congrArg Visible.replies alike.visible⟩
    exact alike.abreast.ended outside sound

/-- The completions of two submissions of the first function, with the ids 1 and 2. -/
def twoSubmissions : List WorkCompletion :=
  [(postWrite [] ⟨0, 0⟩ (Immediate.submission 1 0) true false).completion,
    (postWrite [] ⟨0, 0⟩ (Immediate.submission 2 0) true false).completion]

/-- The second of two invocations in one batch is executed again after its reply. -/
theorem second_invocation_again :
    let functions : Functions := ⟨["quiet"], fun _ _ _ output => (0, output)⟩
    let thread := begin_ functions (-1) 0 ⟨0, 0, []⟩ 0
    let pass := run Pass.step (Pass.hot thread 0 0 twoSubmissions) (replicate 9 (.step 0))
    (tasks twoSubmissions).map Task.invocId = [1, 2] ∧
      pass.calls.map Task.invocId = [1, 2, 2] ∧
      pass.thread.replies.length = 3 ∧
      ¬thread.ServesBatch twoSubmissions := by
  intro functions thread pass
  refine ⟨by decide, by decide, by decide, ?_⟩
  have trap : Pass.Trap thread.functions twoSubmissions 1
      (postWrite [] ⟨0, 0⟩ (Immediate.submission 2 0) true false).completion :=
    ⟨rfl, rfl, Or.inl (Nat.le_refl 1)⟩
  exact not_serves trap

end Thread

end RFaaS.FastExecutor
