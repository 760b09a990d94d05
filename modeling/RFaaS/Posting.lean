/-
This file is about calls of `ibv_post_recv` that fail
(`rdmalib/lib/queue.cpp`). A batched post is split into calls: one for every
whole chain and one for the rest. A call that fails has taken a part of its
chain, and no call follows it.

`post_batched_empty_recv` reports a failure, and whatever happens, the chain is
afterwards as it was before. `refill` does not look at the report. It counts all
receives that it wanted to post, so what a failed call has not taken is counted
and never posted: no later refill makes up for it, and the receives of the
connection only become fewer.
-/

import RFaaS.RecvQueue
import RFaaS.Transition
import Mathlib.Order.Nat

namespace RFaaS

open Transition List

namespace RecvWorkCompletions

/-! ### The calls of a batched post -/

/-- The ids on the chain that a call is given. -/
def chainIds (count call : Nat) : List Nat :=
  if call < count / rbatch then range rbatch else range (count % rbatch)

variable {queue : RecvWorkCompletions} {failures : Nat → Option Nat}

/-- The loop over whole chains ends with the first call that fails. -/
theorem postWhole_of_failure {batch : Nat → WorkRequest} (linked : Linked batch rbatch)
    {call loops index accepted : Nat} (inside : index < loops)
    (before : ∀ earlier < index, failures (call + earlier) = none)
    (fails : failures (call + index) = some accepted) :
    postWhole batch failures call loops =
      (false, prepared batch (wholeIds index ++ (range rbatch).take accepted)) := by
  induction loops generalizing call index with
  | zero => exact absurd inside (Nat.not_lt_zero index)
  | succ loops inductionHypothesis =>
    cases index with
    | zero =>
      rw [postWhole, show failures call = some accepted from fails]
      simp only [ibvPostRecv]
      rw [map_take, chain_toReceive linked, prepared, ← map_take]
      rfl
    | succ index =>
      have first : failures call = none := before 0 (Nat.succ_pos index)
      have rest := @inductionHypothesis (call + 1) index (Nat.lt_of_succ_lt_succ inside)
        (fun earlier below => by
          rw [Nat.add_assoc, Nat.add_comm 1]
          exact before (earlier + 1) (Nat.succ_lt_succ below))
        (by rw [Nat.add_assoc, Nat.add_comm 1]; exact fails)
      rw [postWhole, rest, first, wholeIds_succ, append_assoc,
        prepared_append batch (range rbatch), ← chain_toReceive linked]
      rfl

/-- With a first call that fails: the chains before it were posted, and what it has taken of its
own. -/
theorem postBatchedEmptyRecv_of_failure (linked : Linked queue.batch rbatch)
    {count call accepted : Nat} (inside : call < calls count)
    (before : ∀ earlier < call, failures earlier = none) (fails : failures call = some accepted) :
    (queue.postBatchedEmptyRecv failures count).1 = -1 ∧
      (queue.postBatchedEmptyRecv failures count).2.1 =
        prepared queue.batch (wholeIds call ++ (chainIds count call).take accepted) := by
  have loops : ((count : Int).tdiv rbatch).toNat = count / rbatch := rfl
  have reminder : ((count : Int).tmod rbatch).toNat = count % rbatch := rfl
  simp only [postBatchedEmptyRecv, loops, reminder]
  by_cases early : call < count / rbatch
  · have whole := @postWhole_of_failure failures _ linked 0 _ call accepted early
      (fun earlier below => by rw [Nat.zero_add]; exact before earlier below)
      (by rw [Nat.zero_add]; exact fails)
    rw [whole, chainIds, if_pos early]
    exact ⟨rfl, rfl⟩
  · -- the call that fails is the one for the rest
    rw [calls] at inside
    have partly : count % rbatch ≠ 0 := by
      intro none
      rw [if_pos none] at inside
      exact early inside
    rw [if_neg partly] at inside
    obtain rfl : call = count / rbatch :=
      Nat.le_antisymm (Nat.le_of_lt_succ inside) (Nat.le_of_not_lt early)
    have whole := @postWhole_of_accepted failures _ linked 0 (count / rbatch) fun index below => by
      rw [Nat.zero_add]
      exact before index below
    have positive := Nat.pos_of_ne_zero partly
    have short : count % rbatch ≤ rbatch := Nat.le_of_lt (Nat.mod_lt _ (by decide))
    rw [whole, chainIds, if_neg early]
    simp only [Bool.true_and, decide_eq_true_eq, if_pos positive, fails, ibvPostRecv,
      map_take, chain_setNext_toReceive linked positive short, prepared_append]
    exact ⟨rfl, by rw [prepared, prepared, map_take]⟩

/-- The ids of the prepared receives are their places in the array. -/
def Numbered (batch : Nat → WorkRequest) : Prop := ∀ index < rbatch, (batch index).wrId = index

instance (batch : Nat → WorkRequest) : Decidable (Numbered batch) :=
  inferInstanceAs (Decidable (∀ index < rbatch, (batch index).wrId = index))

theorem freshBatch_numbered : Numbered freshBatch := fun _ _ => rfl

theorem wrId_prepared {batch : Nat → WorkRequest} (numbered : Numbered batch) {ids : List Nat}
    (inside : ∀ index ∈ ids, index < rbatch) : (prepared batch ids).map Receive.wrId = ids := by
  rw [prepared, map_map]
  conv_rhs => rw [← map_id ids]
  exact map_congr_left fun index member => numbered index (inside index member)

theorem chainIds_lt {count call index : Nat} (member : index ∈ chainIds count call) :
    index < rbatch := by
  unfold chainIds at member
  split at member
  · exact mem_range.mp member
  · exact Nat.lt_trans (mem_range.mp member) (Nat.mod_lt _ (by decide))

/-- A batched post is exact and leaves the chain intact. If all calls are accepted, `count`
receives are posted, with the ids of whole chains and then of a part of one, and `count` is
returned. Otherwise -1 is returned; the chains of the calls before the first failure are posted,
and a part of the chain of that call. -/
theorem batched_post_exact (queue : RecvWorkCompletions) (linked : Linked queue.batch rbatch)
    (numbered : Numbered queue.batch) (count : Nat) (failures : Nat → Option Nat) :
    (queue.postBatchedEmptyRecv failures count).2.2 = queue ∧
      ((∀ call < calls count, failures call = none) →
        (queue.postBatchedEmptyRecv failures count).1 = count ∧
          (queue.postBatchedEmptyRecv failures count).2.1.length = count ∧
          (queue.postBatchedEmptyRecv failures count).2.1.map Receive.wrId =
            (replicate (count / 32) (range 32)).flatten ++ range (count % 32)) ∧
      ∀ call < calls count, (∀ earlier < call, failures earlier = none) →
        ∀ accepted, failures call = some accepted →
          (queue.postBatchedEmptyRecv failures count).1 = -1 ∧
            (queue.postBatchedEmptyRecv failures count).2.1.map Receive.wrId =
              (replicate call (range 32)).flatten ++
                (chainIds count call).take accepted := by
  refine ⟨postBatchedEmptyRecv_queue linked failures count, fun accepted => ?_,
    fun call inside before accepted fails => ?_⟩
  · obtain ⟨returned, posted⟩ := postBatchedEmptyRecv_of_accepted linked accepted
    rw [posted, wrId_prepared numbered fun _ member => batchIds_lt member, prepared,
      length_map, length_batchIds]
    exact ⟨returned, rfl, rfl⟩
  · obtain ⟨returned, posted⟩ := postBatchedEmptyRecv_of_failure linked inside before fails
    rw [posted, wrId_prepared numbered fun index member => ?_]
    · exact ⟨returned, rfl⟩
    · rcases mem_append.mp member with whole | partly
      · exact wholeIds_lt whole
      · exact chainIds_lt (mem_of_mem_take partly)

/-- 70 receives from the chain that the constructor builds. -/
theorem batched_post_exact_seventy :
    ((construct 70).postBatchedEmptyRecv accepting (70 : Nat)).2.1.length = 70 ∧
      ((construct 70).postBatchedEmptyRecv (fun call => if call = 1 then some 5 else none)
        (70 : Nat)).1 = -1 := by
  have exact_ := batched_post_exact (construct 70) freshBatch_linked freshBatch_numbered 70
  exact ⟨((exact_ accepting).2.1 fun _ _ => rfl).2.1,
    ((exact_ _).2.2 1 (by decide) (by decide) 5 rfl).1⟩

/-! ### How many receives are posted -/

/-- No call takes less than its chain: none fails, or the last one does and has taken all. -/
def Completes (failures : Nat → Option Nat) (count : Nat) : Prop :=
  ∀ call < calls count, ∀ accepted, failures call = some accepted →
    call + 1 = calls count ∧ (chainIds count call).length ≤ accepted

/-- Of a number of calls none fails, or there is a first one that does. -/
theorem first_failure (failures : Nat → Option Nat) (count : Nat) :
    (∀ call < count, failures call = none) ∨
      ∃ call < count, ∃ accepted, (∀ earlier < call, failures earlier = none) ∧
        failures call = some accepted := by
  induction count with
  | zero => exact Or.inl fun call below => absurd below (Nat.not_lt_zero call)
  | succ count inductionHypothesis =>
    rcases inductionHypothesis with before | ⟨call, below, found⟩
    · cases last : failures count with
      | none =>
        refine Or.inl fun call below => ?_
        rcases Nat.lt_succ_iff_lt_or_eq.mp below with earlier | rfl
        · exact before call earlier
        · exact last
      | some accepted => exact Or.inr ⟨count, Nat.lt_succ_self count, accepted, before, last⟩
    · exact Or.inr ⟨call, Nat.lt_succ_of_lt below, found⟩

theorem length_chainIds (count call : Nat) :
    (chainIds count call).length = if call < count / rbatch then rbatch else count % rbatch := by
  unfold chainIds
  split <;> exact length_range

/-- What was posted up to a call is not more than what was asked for, and everything only if
nothing was to follow. -/
theorem posted_le_iff {count call : Nat} (inside : call < calls count) (accepted : Nat) :
    call * rbatch + min accepted (chainIds count call).length ≤ count ∧
      (call * rbatch + min accepted (chainIds count call).length = count ↔
        call + 1 = calls count ∧ (chainIds count call).length ≤ accepted) := by
  rw [length_chainIds]
  unfold calls at inside ⊢
  unfold rbatch at *
  split at inside
  all_goals
    split <;> omega

theorem length_posted (linked : Linked queue.batch rbatch) (failures : Nat → Option Nat)
    (count : Nat) :
    (queue.postBatchedEmptyRecv failures count).2.1.length ≤ count ∧
      ((queue.postBatchedEmptyRecv failures count).2.1.length = count ↔
        Completes failures count) := by
  rcases first_failure failures (calls count) with
    accepted | ⟨call, inside, accepted, before, fails⟩
  · have posted := (postBatchedEmptyRecv_of_accepted linked accepted).2
    rw [posted, prepared, length_map, length_batchIds]
    refine ⟨Nat.le_refl count, iff_of_true rfl fun call inside accepted' fails => ?_⟩
    rw [accepted call inside] at fails
    cases fails
  · have posted := (postBatchedEmptyRecv_of_failure linked inside before fails).2
    obtain ⟨most, all⟩ := posted_le_iff inside accepted
    rw [posted, prepared, length_map, length_append, length_wholeIds, length_take]
    refine ⟨most, all.trans ⟨fun last other inside' accepted' fails' => ?_,
      fun completes => completes call inside accepted fails⟩⟩
    -- a call that fails is not before the first one, and the first one was the last
    rcases Nat.lt_or_ge other call with earlier | later
    · rw [before other earlier] at fails'
      cases fails'
    · obtain rfl : other = call := by omega
      rw [fails] at fails'
      cases fails'
      exact last

end RecvWorkCompletions

namespace Port

open RecvWorkCompletions (Completes)

variable {size : Int} {port : Port} {failures : Nat → Option Nat}

/-! ### Refills that fail -/

/-- `refill`, when calls of `ibv_post_recv` may fail: the value returned, and the connection
afterwards. -/
def refillUnder (port : Port) (failures : Nat → Option Nat) : Bool × Port :=
  let (returned, posted, queue) := port.queue.refill failures
  (returned, ⟨queue, port.posted + posted.length⟩)

/-- The refills of other files are those in which no call fails. -/
theorem refillUnder_accepting (port : Port) :
    (port.refillUnder RecvWorkCompletions.accepting).2 = port.refill := rfl

/-- What a refill does. It counts everything, however much was posted. -/
theorem refillUnder_cases (sized : port.queue.Sized size) (failures : Nat → Option Nat) :
    (min size 256 ≤ port.queue.requests ∧ port.refillUnder failures = (false, port)) ∨
    ∃ posted ≤ (size - port.queue.requests).toNat,
      port.queue.requests < min size 256 ∧
      (posted = (size - port.queue.requests).toNat ↔
        Completes failures (size - port.queue.requests).toNat) ∧
      port.refillUnder failures =
        (true, ⟨{ port.queue with requests := size }, port.posted + posted⟩) := by
  have threshold : port.queue.refillThreshold = min size 256 := sized.refillThreshold
  by_cases below : port.queue.requests < port.queue.refillThreshold
  · have missing : port.queue.rcvBufSize - port.queue.requests =
        ((size - port.queue.requests).toNat : Int) := by
      rw [sized.rcvBufSize]
      omega
    obtain ⟨most, all⟩ := RecvWorkCompletions.length_posted sized.linked failures
      (size - port.queue.requests).toNat
    refine Or.inr ⟨_, most, threshold ▸ below, all, ?_⟩
    simp only [refillUnder, RecvWorkCompletions.refill, if_pos below]
    rw [missing, RecvWorkCompletions.postBatchedEmptyRecv_queue sized.linked, sized.rcvBufSize]
  · refine Or.inl ⟨threshold ▸ Int.not_lt.mp below, ?_⟩
    simp only [refillUnder, RecvWorkCompletions.refill, if_neg below]
    rfl

theorem refillUnder_sized (sized : port.queue.Sized size) (failures : Nat → Option Nat) :
    (port.refillUnder failures).2.queue.Sized size := by
  rcases refillUnder_cases sized failures with ⟨_, same⟩ | ⟨_, _, _, _, same⟩
  · rw [same]
    exact sized
  · rw [same]
    exact ⟨sized.rcvBufSize, sized.refillThreshold, sized.linked⟩

/-- A refill keeps its count: no more receives are counted than there are, it returns `true` only
if it has posted all that were missing, and another refill can make up for what is missing. -/
structure KeepsCount (size : Int) (port : Port) (failures : Nat → Option Nat) : Prop where
  counted : (port.refillUnder failures).2.queue.requests ≤ (port.refillUnder failures).2.posted
  complete : (port.refillUnder failures).1 = true →
    ((port.refillUnder failures).2.posted : Int) = port.posted + (size - port.queue.requests)
  recovers : min size 256 ≤ ((port.refillUnder failures).2.refill.posted : Int)

/-- Where no more is counted than there is, a refill in which no call fails leaves enough. -/
theorem refill_enough (sized : port.queue.Sized size)
    (counted : port.queue.requests ≤ port.posted) : min size 256 ≤ (port.refill.posted : Int) := by
  obtain ⟨_, balance, _, least⟩ := refill_spec sized
  omega

/-- A refill keeps its count exactly if the count was right before and, when the refill posts, no
call of `ibv_post_recv` takes less than its chain. -/
theorem refill_keeps_count_iff (size : Int) (port : Port) (sized : port.queue.Sized size)
    (failures : Nat → Option Nat) :
    port.KeepsCount size failures ↔
      port.queue.requests ≤ port.posted ∧
        (min size 256 ≤ port.queue.requests ∨
          Completes failures (size - port.queue.requests).toNat) := by
  have after := refillUnder_sized sized failures
  rcases refillUnder_cases sized failures with ⟨enough, same⟩ | ⟨posted, most, below, all, same⟩
  · rw [and_iff_left (Or.inl enough)]
    constructor
    · intro keeps
      have counted := keeps.counted
      rw [same] at counted
      exact counted
    · intro counted
      refine ⟨?_, fun returned => ?_, ?_⟩
      · rw [same]
        exact counted
      · rw [same] at returned
        cases returned
      · rw [same]
        exact refill_enough sized counted
  · rw [or_iff_right (Int.not_le.mpr below), ← all]
    constructor
    · intro keeps
      have counted := keeps.counted
      have complete := keeps.complete
      rw [same] at counted complete
      have total := complete rfl
      dsimp only at counted total
      omega
    · rintro ⟨right, everything⟩
      have counted : (port.refillUnder failures).2.queue.requests ≤
          (port.refillUnder failures).2.posted := by
        rw [same]
        dsimp only
        omega
      refine ⟨counted, fun _ => ?_, refill_enough after counted⟩
      rw [same]
      dsimp only
      omega

/-- A connection of which no receive is lost. -/
theorem refill_keeps_count_filled : (closed 64).KeepsCount 64 RecvWorkCompletions.accepting :=
  (refill_keeps_count_iff 64 (closed 64) (closed_sized 64) RecvWorkCompletions.accepting).mpr
    ⟨by decide, Or.inr fun _ _ _ fails => by cases fails⟩

/-- Room for 64 receives, of which the second call posts none. The refill returns `true` and counts
64, and the next one, in which no call would fail, does nothing. -/
theorem failed_refill_counted :
    let after := (closed 64).refillUnder fun call => if call = 1 then some 0 else none
    ¬ (closed 64).KeepsCount 64 (fun call => if call = 1 then some 0 else none) ∧
      after.1 = true ∧ after.2.queue.requests = 64 ∧ after.2.posted = 32 ∧
      after.2.refill.posted = 32 := by
  refine ⟨fun keeps => absurd keeps.counted (by decide), by decide, by decide, by decide,
    by decide⟩

/-! ### Lost receives -/

/-- A connection in use. `waiting` are the completions that were not polled; `lost` is a ghost: the
receives that were counted and not posted. -/
structure Use where
  port : Port
  waiting : Nat
  lost : Nat

namespace Use

inductive Event
  /-- A message arrives and uses up a receive, if there is one. -/
  | arrive
  /-- `RecvWorkCompletions::poll` returns up to `count` completions. -/
  | poll (count : Nat)
  | refill (failures : Nat → Option Nat)

def step (use : Use) : Event → Use
  | .arrive =>
    if use.port.posted = 0 then use
    else { use with port := use.port.arrive, waiting := use.waiting + 1 }
  | .poll count =>
    let taken := min (min count 32) use.waiting
    { use with port := use.port.updateRequests (-taken), waiting := use.waiting - taken }
  | .refill failures =>
    let after := (use.port.refillUnder failures).2
    { use with
      port := after
      lost := use.lost + (after.queue.requests - use.port.queue.requests -
        (after.posted - use.port.posted)).toNat }

/-- The count is made up of the receives that are posted, those whose message was not polled, and
those that are lost. -/
structure Counted (size : Int) (use : Use) : Prop where
  sized : use.port.queue.Sized size
  most : use.port.queue.requests ≤ max size 0
  balance : use.port.queue.requests = use.port.posted + use.waiting + use.lost

theorem Counted.step {use : Use} (counted : use.Counted size) (event : Event) :
    (use.step event).Counted size := by
  have balance := counted.balance
  have most := counted.most
  cases event with
  | arrive =>
    unfold Use.step
    dsimp only
    split
    · exact counted
    · refine ⟨counted.sized, most, ?_⟩
      dsimp only [Port.arrive]
      omega
  | poll count =>
    refine ⟨counted.sized.updateRequests _, ?_, ?_⟩
    all_goals
      dsimp only [Use.step, updateRequests, RecvWorkCompletions.updateRequests]
      omega
  | refill failures =>
    refine ⟨refillUnder_sized counted.sized failures, ?_, ?_⟩
    · dsimp only [Use.step]
      rcases refillUnder_cases counted.sized failures with ⟨_, same⟩ | ⟨_, _, _, _, same⟩
      · rw [same]
        exact most
      · rw [same]
        exact Int.le_max_left _ _
    · dsimp only [Use.step]
      rcases refillUnder_cases counted.sized failures with ⟨_, same⟩ | ⟨posted, few, below, _, same⟩
      all_goals
        rw [same]
        dsimp only
        omega

/-- Lost receives are lost for good: in every run of a connection with room for `size` receives,
never fewer are lost, and the receives that are posted and those whose message was not polled are
no more than the rest. -/
theorem run_lost (size : Nat) (first second : List Event) :
    let start : Use := ⟨closed size, 0, 0⟩
    let last := run step start (first ++ second)
    (run step start first).lost ≤ last.lost ∧
      last.port.posted + last.waiting + last.lost ≤ size := by
  intro start last
  have preserved : ∀ (use : Use) event, use.Counted size → (use.step event).Counted size :=
    fun _ event counted => counted.step event
  have initially : start.Counted size := ⟨closed_sized size, Int.le_max_right _ _, rfl⟩
  have counted : last.Counted size := run_stable preserved (first ++ second) initially
  refine ⟨?_, ?_⟩
  · show _ ≤ (run step start (first ++ second)).lost
    rw [run_append]
    refine le_run lost (fun use event => ?_) _ second
    cases event with
    | arrive =>
      unfold step
      dsimp only
      split <;> exact Nat.le_refl _
    | poll count => exact Nat.le_refl _
    | refill failures => exact Nat.le_add_right _ _
  · have balance := counted.balance
    have most := counted.most
    omega

end Use

end Port

end RFaaS
