/-
This file is about `execute` on vectors in a client that also makes
asynchronous calls. An asynchronous call leaves the completion of its write in
the shared send queue and its reply, when it comes, in the shared receive queue.
`execute` on vectors cannot tell them from its own. A completion too many makes
one of its counts skip zero, and then the call does not return; a reply too many
is dropped, and its future waits for ever.

So the call is sound exactly if it finds nothing at all: no write without its
completion polled, no invocation outstanding, and a receive on every connection.
-/

import RFaaS.InvocationId
import RFaaS.QuiescentExecute

namespace RFaaS.Client.Parallel

open Transition List

/-- What `execute` on vectors promises, whatever else is outstanding: it returns, what it returns
depends on its own replies only, and no reply to another invocation is lost. -/
structure Sound (parallel : Parallel) (fname : String) (inputs : List (List UInt8))
    (outs : List RemoteBuffer) : Prop where
  ends : Inevitable advance (fun after => after.stage = .idle)
    (parallel.executeVector fname inputs outs)
  own : ∀ events : List Event,
    let after := run advance (parallel.executeVector fname inputs outs) events
    after.stage = .idle → Answered parallel (parallel.ownTickets fname inputs outs) after
  others : ∀ events : List Event,
    let after := run advance (parallel.executeVector fname inputs outs) events
    parallel.outstanding.Subperm after.outstanding

variable {parallel : Parallel} {fname : String} {inputs : List (List UInt8)}
  {outs : List RemoteBuffer}

/-! ### Runs of a client -/

/-- The outstanding writes are from earlier calls, and on connections that exist. -/
structure Numbered (parallel : Parallel) : Prop where
  ports : parallel.ports.length = parallel.executor.connections.length
  serial : ∀ ticket ∈ parallel.outstanding, ticket.serial < parallel.executor.calls
  connection : ∀ ticket ∈ parallel.outstanding, ticket.connection < parallel.ports.length

/-- What an event leaves alone, beyond taking from the outstanding writes. -/
structure Shrinks (parallel after : Parallel) : Prop where
  calls : after.executor.calls = parallel.executor.calls
  connections : after.executor.connections = parallel.executor.connections
  ports : after.ports.length = parallel.ports.length
  outstanding : after.outstanding ⊆ parallel.outstanding

theorem Shrinks.refl (parallel : Parallel) : parallel.Shrinks parallel :=
  ⟨rfl, rfl, rfl, List.Subset.refl _⟩

theorem settleFuture_calls {executor after : Executor} {val : BitVec 32}
    (settled : executor.settleFuture val = some after) : after.calls = executor.calls := by
  dsimp only [Executor.settleFuture] at settled
  split at settled
  · cases settled
  · rw [← Option.some.inj settled]

theorem settleAll_calls {executor after : Executor} {batch : List WorkCompletion}
    (settled : executor.settleAll batch = some after) : after.calls = executor.calls :=
  @Executor.dispatchAll_stable executor after _ (·.calls = executor.calls)
    (fun first => (settleFuture_calls first).trans) batch settled rfl

theorem walk_calls {executor after : Executor} {invocId : BitVec 32}
    {found result : Option (BitVec 32 × UInt32)} {batch : List WorkCompletion}
    (walked : executor.walk invocId found batch = some (after, result)) :
    after.calls = executor.calls :=
  @Executor.walk_stable executor after (·.calls = executor.calls)
    (fun first => (settleFuture_calls first).trans) invocId found result batch walked rfl

theorem outstanding_drop (parallel : Parallel) (count : Nat) :
    (parallel.recvCq.drop count).map Delivery.ticket ++ parallel.inFlight ⊆
      parallel.outstanding := by
  intro ticket member
  rcases mem_append.mp member with waiting | flying
  · rw [map_drop] at waiting
    exact mem_append_left _ (mem_of_mem_drop waiting)
  · exact mem_append_right _ flying

theorem shrinks_takeReplies (parallel : Parallel) (batch : List Delivery) :
    parallel.Shrinks (parallel.takeReplies batch) :=
  ⟨rfl, rfl, length_modify _ _ _, outstanding_drop parallel _⟩

theorem shrinks_poll (parallel : Parallel) (count : Nat) :
    parallel.Shrinks (parallel.poll count) := by
  unfold poll
  dsimp only
  split
  · exact Shrinks.refl _
  · exact Shrinks.refl _
  · split
    · exact Shrinks.refl _
    · exact ⟨rfl, rfl, rfl, List.Subset.refl _⟩
  · split
    · exact Shrinks.refl _
    · obtain ⟨calls, connections, ports, taken⟩ :=
        shrinks_takeReplies parallel (parallel.recvCq.take (limit count))
      dsimp only [pollReplies]
      split
      · exact ⟨calls, connections, (length_redistribute _).trans ports, taken⟩
      · exact ⟨calls, connections, ports, taken⟩
  · split
    · exact Shrinks.refl _
    · obtain ⟨_, _, ports, taken⟩ :=
        shrinks_takeReplies parallel (parallel.recvCq.take (limit count))
      unfold pollSingle
      split
      · exact ⟨rfl, rfl, rfl, List.Subset.refl _⟩
      · rename_i walked
        exact ⟨walk_calls walked, Executor.walk_connections walked, ports, taken⟩
  · obtain ⟨_, _, ports, taken⟩ :=
      shrinks_takeReplies parallel (parallel.recvCq.take (limit count))
    unfold drain
    split
    · exact ⟨rfl, rfl, rfl, List.Subset.refl _⟩
    · rename_i settled
      exact ⟨settleAll_calls settled, Executor.settleAll_connections settled, ports, taken⟩
  · exact ⟨rfl, rfl, rfl, List.Subset.refl _⟩

theorem shrinks_advance (parallel : Parallel) (event : Event) :
    parallel.Shrinks (parallel.advance event) := by
  refine advance_rule parallel.Shrinks (Shrinks.refl _) (fun _ _ _ => ?_) (fun _ _ perm _ => ?_)
    (shrinks_poll parallel) event
  · exact ⟨rfl, rfl, rfl, List.Subset.refl _⟩
  · exact ⟨rfl, rfl, length_modify _ _ _, (outstanding_reply parallel.recvCq perm).subset⟩

theorem Numbered.of_shrinks {after : Parallel} (numbered : parallel.Numbered)
    (shrinks : parallel.Shrinks after) : after.Numbered := by
  refine ⟨?_, fun ticket member => ?_, fun ticket member => ?_⟩
  · rw [shrinks.ports, shrinks.connections]
    exact numbered.ports
  · rw [shrinks.calls]
    exact numbered.serial ticket (shrinks.outstanding member)
  · rw [shrinks.ports]
    exact numbered.connection ticket (shrinks.outstanding member)

/-! ### Calls -/

/-- The writes of a call join the outstanding ones. -/
theorem Numbered.issue (numbered : parallel.Numbered) (call : Call) {funcIdx : BitVec 32}
    (known : parallel.executor.findFunction call.fname = some funcIdx)
    {refill : List Port → List Port}
    (length : ∀ ports, (refill ports).length = ports.length) (stage : CallStage) :
    (parallel.issue call refill stage).Numbered := by
  have members : ∀ ticket ∈ (parallel.issue call refill stage).outstanding,
      ticket ∈ parallel.outstanding ∨ ticket ∈ tickets parallel.executor call := by
    intro ticket member
    dsimp only [outstanding, Parallel.issue] at member
    rw [← append_assoc] at member
    exact mem_append.mp member
  have ports : (parallel.issue call refill stage).ports.length = parallel.ports.length :=
    length parallel.ports
  refine ⟨?_, fun ticket member => ?_, fun ticket member => ?_⟩
  · rw [ports, numbered.ports]
    exact congrArg List.length (Executor.issue_connections _ _).symm
  · have counted : (parallel.issue call refill stage).executor.calls =
        parallel.executor.calls + 1 :=
      congrArg Executor.calls (Traffic.issue_found (by rw [known]; exact Option.some_ne_none _))
    rw [counted]
    rcases members ticket member with earlier | new
    · exact Nat.lt_succ_of_lt (numbered.serial ticket earlier)
    · obtain ⟨posted, _, rfl⟩ := mem_map.mp new
      exact Nat.lt_succ_self _
  · rw [ports]
    rcases members ticket member with earlier | new
    · exact numbered.connection ticket earlier
    · obtain ⟨posted, inside, rfl⟩ := mem_map.mp new
      rw [numbered.ports]
      exact (List.getElem?_eq_some_iff.mp (Executor.of_mem_issue inside).1).1

theorem Numbered.step (numbered : parallel.Numbered) (action : Action) :
    (parallel.step action).Numbered := by
  cases action with
  | event event => exact numbered.of_shrinks (parallel.shrinks_advance event)
  | async fname input out size =>
    dsimp only [Parallel.step]
    split
    · unfold Parallel.async
      split
      · exact numbered
      · rename_i found
        exact numbered.issue (.async fname input out size) found
          (fun ports => length_modify _ _ _) _
    · exact numbered
  | asyncVector fname inputs outs =>
    dsimp only [Parallel.step]
    split
    · unfold Parallel.asyncVector
      split
      · exact numbered
      · rename_i found
        exact numbered.issue (.asyncVector fname inputs outs) found
          (fun ports => length_map _) _
    · exact numbered
  | execute fname input out =>
    dsimp only [Parallel.step]
    split
    · unfold Parallel.execute
      split
      · exact numbered
      · rename_i found
        exact numbered.issue (.execute fname input out) found
          (fun ports => length_modify _ _ _) _
    · exact numbered
  | executeVector fname inputs outs =>
    dsimp only [Parallel.step]
    split
    · unfold Parallel.executeVector
      split
      · exact ⟨numbered.ports, numbered.serial, numbered.connection⟩
      · rename_i found
        exact numbered.issue (.executeVector fname inputs outs) found
          (fun ports => length_map _) _
    · exact numbered

theorem numbered_start (size maxInlineData : Int) (symbols : List String)
    (connections : List RemoteBuffer) : (start size maxInlineData symbols connections).Numbered :=
  ⟨length_map _, fun _ member => (nomatch member), fun _ member => (nomatch member)⟩

/-! ### A completion too many -/

theorem advance_idle (idle : parallel.stage = .idle) (event : Event) :
    (parallel.advance event).stage = .idle := by
  refine advance_rule (fun after => after.stage = .idle) idle (fun _ _ _ => idle)
    (fun _ _ _ _ => idle) (fun count => ?_) event
  rw [poll_idle idle]
  exact idle

/-- The count of the first loop has skipped zero. -/
def Overshot (parallel : Parallel) : Prop := ∃ expected < 0, parallel.stage = .sending expected

theorem Overshot.advance (overshot : parallel.Overshot) (event : Event) :
    (parallel.advance event).Overshot := by
  refine advance_rule Overshot overshot (fun _ _ _ => overshot) (fun _ _ _ _ => overshot)
    (fun count => ?_) event
  obtain ⟨expected, negative, stage⟩ := overshot
  rcases poll_sending stage count with same | ⟨batch, rest, _, _, changed⟩
  · rw [same]
    exact ⟨expected, negative, stage⟩
  · rw [changed]
    exact ⟨expected - batch.length, by omega, if_neg (by omega)⟩

theorem Overshot.not_inevitable (overshot : parallel.Overshot) :
    ¬Inevitable Parallel.advance (fun after => after.stage = .idle) parallel := by
  refine Inevitable.not_of_invariant (fun _ event overshot => overshot.advance event) ?_ overshot
  rintro after ⟨_, _, stage⟩ idle
  rw [stage] at idle
  cases idle

/-- The first loop does not end for every batching if there are more completions than it expects.
It takes them one by one but for the last two. -/
theorem not_inevitable_of_more {expected : Nat}
    (stage : parallel.stage = .sending (expected + 1 : Nat))
    (more : expected + 2 ≤ parallel.sendCq.length) :
    ¬Inevitable advance (fun after => after.stage = .idle) parallel := by
  intro inevitable
  have lasts : ∀ (parallel : Parallel) event, parallel.stage = .idle →
      (parallel.advance event).stage = .idle := fun _ event idle => advance_idle idle event
  induction expected generalizing parallel with
  | zero =>
    obtain ⟨first, second, rest, queue⟩ : ∃ first second rest,
        parallel.sendCq = first :: second :: rest := by
      rcases queue : parallel.sendCq with _ | ⟨first, _ | ⟨second, rest⟩⟩
      · rw [queue] at more
        exact absurd more (by decide)
      · rw [queue] at more
        exact absurd more (Nat.not_succ_le_self 1)
      · exact ⟨first, second, rest, rfl⟩
    have next := inevitable.run lasts [.poll 2]
    refine Overshot.not_inevitable ?_ next
    show (parallel.poll 2).Overshot
    rw [@poll_sends _ _ [first, second] rest 2 stage queue rfl (cons_ne_nil _ _) (by decide)]
    exact ⟨-1, by decide, rfl⟩
  | succ expected inductionHypothesis =>
    obtain ⟨first, rest, queue⟩ : ∃ first rest, parallel.sendCq = first :: rest := by
      refine exists_cons_of_ne_nil fun empty => ?_
      rw [empty] at more
      cases more
    have polled := @poll_sends _ _ [first] rest 1 stage queue rfl (cons_ne_nil _ _) (by decide)
    refine @inductionHypothesis (parallel.poll 1) ?_ ?_ (inevitable.run lasts [.poll 1])
    · rw [polled]
      dsimp only [length_singleton]
      rw [if_neg (by omega)]
      congr 1
      omega
    · rw [queue, length_cons] at more
      rw [polled]
      exact Nat.le_of_succ_le_succ more

/-- All writes complete. -/
theorem exists_run_complete (parallel : Parallel) :
    ∃ events, run advance parallel events =
      { parallel with sending := [], sendCq := parallel.sendCq ++ parallel.sending } := by
  induction pending : parallel.sending generalizing parallel with
  | nil =>
    refine ⟨[], ?_⟩
    rw [append_nil, ← pending]
    rfl
  | cons ticket rest inductionHypothesis =>
    obtain ⟨events, ran⟩ := inductionHypothesis
      { parallel with sending := rest, sendCq := parallel.sendCq ++ [ticket] } rfl
    refine ⟨.complete 0 :: events, ?_⟩
    rw [run_cons, advance, complete_head pending, ran]
    simp only [append_assoc, singleton_append]

theorem not_sound_of_sends (callable : parallel.Callable fname inputs outs)
    (left : parallel.sending ≠ [] ∨ parallel.sendCq ≠ []) :
    ¬parallel.Sound fname inputs outs := by
  intro sound
  obtain ⟨events, ran⟩ := exists_run_complete (parallel.executeVector fname inputs outs)
  have inevitable := sound.ends.run (fun _ event idle => advance_idle idle event) events
  rw [ran] at inevitable
  have positive : 0 < parallel.ports.length := length_pos_iff.mpr callable.some
  obtain ⟨expected, length⟩ : ∃ expected, parallel.ports.length = expected + 1 :=
    ⟨parallel.ports.length - 1, by omega⟩
  refine @not_inevitable_of_more _ expected ?_ ?_ inevitable
  · rw [executeVector_eq callable]
    dsimp only
    rw [length]
  · rw [executeVector_eq callable]
    have total := length_ownTickets callable
    have some : 0 < parallel.sending.length + parallel.sendCq.length := by
      rcases left with nonempty | nonempty
      · exact Nat.add_pos_left (length_pos_iff.mpr nonempty) _
      · exact Nat.add_pos_right _ (length_pos_iff.mpr nonempty)
    dsimp only
    rw [length_append, length_append, total, length]
    omega

/-! ### A reply too many -/

/-- The first loop ends with the last completion that it expects. -/
theorem exists_run_poll (some : parallel.sendCq ≠ [])
    (stage : parallel.stage = .sending parallel.sendCq.length) :
    ∃ events, run advance parallel events =
      { parallel with sendCq := [], stage := .receiving parallel.ports.length true [] } := by
  induction queue : parallel.sendCq generalizing parallel with
  | nil => exact absurd queue some
  | cons ticket rest inductionHypothesis =>
    rw [queue] at stage
    have polled := @poll_sends _ _ [ticket] rest 1 stage queue rfl (cons_ne_nil _ _)
      (by decide)
    have left : ((ticket :: rest).length : Int) - [ticket].length = rest.length := by
      rw [length_cons, length_singleton]
      omega
    rw [left] at polled
    by_cases last : rest = []
    · refine ⟨[.poll 1], ?_⟩
      rw [run_cons, run_nil, advance, polled, last]
      rfl
    · have more : (rest.length : Int) ≠ 0 := by
        have positive := length_pos_iff.mpr last
        omega
      rw [if_neg more] at polled
      obtain ⟨events, ran⟩ := @inductionHypothesis (parallel.poll 1)
        (by rw [polled]; exact last) (by rw [polled]) (by rw [polled])
      refine ⟨.poll 1 :: events, ?_⟩
      rw [run_cons, advance, ran, polled]

/-- The call at the head of its second loop, when nothing was left in the send queue. -/
def second (parallel : Parallel) (fname : String) (inputs : List (List UInt8))
    (outs : List RemoteBuffer) : Parallel :=
  { parallel with
    executor := (parallel.executor.issue (.executeVector fname inputs outs)).1
    sending := []
    sendCq := []
    inFlight := parallel.inFlight ++ parallel.ownTickets fname inputs outs
    ports := parallel.ports.map Port.refill
    stage := .receiving parallel.ports.length true [] }

theorem exists_run_second (callable : parallel.Callable fname inputs outs)
    (sending : parallel.sending = []) (sendCq : parallel.sendCq = []) :
    ∃ events, run advance (parallel.executeVector fname inputs outs) events =
      parallel.second fname inputs outs := by
  have total := length_ownTickets callable
  have positive : 0 < parallel.ports.length := length_pos_iff.mpr callable.some
  obtain ⟨first, completed⟩ := exists_run_complete (parallel.executeVector fname inputs outs)
  rw [executeVector_eq callable, sending, sendCq] at completed
  obtain ⟨second, polled⟩ := @exists_run_poll
    { parallel.second fname inputs outs with
      sendCq := parallel.ownTickets fname inputs outs
      stage := .sending parallel.ports.length }
    (length_pos_iff.mp (by dsimp only; omega)) (by dsimp only; rw [total])
  refine ⟨first ++ second, ?_⟩
  rw [run_append, executeVector_eq callable, sending, sendCq, completed]
  dsimp only [nil_append, Parallel.second] at polled ⊢
  rw [polled, length_map]

/-- A call that polls a reply to another invocation drops it. -/
theorem not_sound_of_reply {events : List Event} {reached : Parallel}
    (ran : run advance (parallel.executeVector fname inputs outs) events = reached)
    {expected : Int} {correct : Bool} {replies rest : List Delivery} {delivery : Delivery}
    (stage : reached.stage = .receiving expected correct replies)
    (queue : reached.recvCq = delivery :: rest)
    (all : reached.outstanding.Perm
      (parallel.outstanding ++ parallel.ownTickets fname inputs outs))
    (foreign : delivery.ticket ∉ parallel.ownTickets fname inputs outs) :
    ¬parallel.Sound fname inputs outs := by
  intro sound
  have kept := sound.others (events ++ [.poll 1])
  have polled := @poll_replies _ _ _ _ [delivery] rest 1 stage queue rfl (cons_ne_nil _ _)
    (by decide)
  have after : (reached.poll 1).outstanding = rest.map Delivery.ticket ++ reached.inFlight := by
    rw [polled]
    dsimp only
    split <;> rfl
  dsimp only at kept
  rw [run_append, ran, run_cons, run_nil, advance, after] at kept
  have fewer := kept.count_le delivery.ticket
  have count := all.count_eq delivery.ticket
  have none := count_eq_zero_of_not_mem foreign
  rw [outstanding, queue, map_cons, cons_append, count_cons_self] at count
  have both : (parallel.outstanding ++ parallel.ownTickets fname inputs outs).count
      delivery.ticket = parallel.outstanding.count delivery.ticket + 0 := by
    rw [count_append, none]
  omega

theorem Numbered.foreign (numbered : parallel.Numbered) {ticket : Ticket}
    (member : ticket ∈ parallel.outstanding) :
    ticket ∉ parallel.ownTickets fname inputs outs := by
  intro own
  have before := numbered.serial ticket member
  rw [serial_ownTickets own] at before
  exact Nat.lt_irrefl _ before

theorem not_sound_of_queued (numbered : parallel.Numbered)
    (callable : parallel.Callable fname inputs outs) (sending : parallel.sending = [])
    (sendCq : parallel.sendCq = []) (left : parallel.recvCq ≠ []) :
    ¬parallel.Sound fname inputs outs := by
  obtain ⟨events, ran⟩ := exists_run_second callable sending sendCq
  obtain ⟨delivery, rest, queue⟩ := exists_cons_of_ne_nil left
  refine not_sound_of_reply ran rfl queue ?_ (numbered.foreign (mem_append_left _ ?_))
  · dsimp only [outstanding, second]
    rw [append_assoc]
  · rw [queue]
    exact mem_cons_self

theorem not_sound_of_deliverable (numbered : parallel.Numbered)
    (callable : parallel.Callable fname inputs outs) (sending : parallel.sending = [])
    (sendCq : parallel.sendCq = []) (recvCq : parallel.recvCq = []) {ticket : Ticket}
    (member : ticket ∈ parallel.inFlight)
    (ready : receives (parallel.ports.map Port.refill) ticket.connection ≠ 0) :
    ¬parallel.Sound fname inputs outs := by
  obtain ⟨events, ran⟩ := exists_run_second callable sending sendCq
  obtain ⟨index, here⟩ := List.mem_iff_getElem?.mp member
  have there : (parallel.second fname inputs outs).inFlight[index]? = some ticket := by
    dsimp only [second]
    rw [List.getElem?_append_left (List.getElem?_eq_some_iff.mp here).1]
    exact here
  have replied : run advance (parallel.executeVector fname inputs outs)
      (events ++ [.reply index 0 []]) =
      { parallel.second fname inputs outs with
        inFlight := (parallel.second fname inputs outs).inFlight.eraseIdx index
        recvCq := [⟨ticket, (replyTo ticket.write 0 []).completion⟩]
        ports := (parallel.ports.map Port.refill).modify ticket.connection Port.arrive } := by
    rw [run_append, ran, run_cons, run_nil, advance, reply_eq there ready]
    dsimp only [second]
    rw [recvCq, nil_append]
  refine not_sound_of_reply replied rfl rfl ?_ (numbered.foreign (mem_append_right _ member))
  dsimp only [outstanding]
  rw [recvCq]
  exact Table.cons_eraseIdx_perm there

/-! ### A reply too few -/

/-- The replies that can still arrive. -/
def arriving (parallel : Parallel) : Nat :=
  parallel.inFlight.countP fun ticket => receives parallel.ports ticket.connection != 0

/-- Fewer replies can arrive than the second loop expects. -/
def Starved (parallel : Parallel) : Prop :=
  match parallel.stage with
  | .sending _ => parallel.recvCq.length + parallel.arriving < parallel.ports.length
  | .receiving expected _ _ => (parallel.recvCq.length + parallel.arriving : Int) < expected
  | _ => False

theorem arriving_reply {delivery : Delivery} {inFlight : List Ticket}
    (perm : (delivery.ticket :: inFlight).Perm parallel.inFlight)
    (ready : receives parallel.ports delivery.ticket.connection ≠ 0) :
    inFlight.countP (fun ticket =>
        receives (parallel.ports.modify delivery.ticket.connection Port.arrive) ticket.connection
          != 0) + 1 ≤ parallel.arriving := by
  have count := perm.countP_eq fun ticket => receives parallel.ports ticket.connection != 0
  rw [countP_cons, if_pos (bne_iff_ne.mpr ready)] at count
  rw [arriving, ← count]
  refine Nat.add_le_add_right (countP_mono_left fun ticket _ some => ?_) 1
  rw [bne_iff_ne] at some ⊢
  rw [receives_arrive] at some
  split at some
  · intro none
    rw [none] at some
    exact some rfl
  · exact some

theorem arriving_poll (parallel : Parallel) (count : Nat) :
    (parallel.poll count).arriving = parallel.arriving := by
  obtain ⟨_, inFlight, posted⟩ := parallel.poll_frame count
  rw [arriving, arriving, inFlight]
  refine congrArg (fun ready => countP ready parallel.inFlight) (funext fun ticket => ?_)
  rw [receives_congr posted]

theorem starved_sending_iff {expected : Int} (stage : parallel.stage = .sending expected) :
    parallel.Starved ↔
      parallel.recvCq.length + parallel.arriving < parallel.ports.length := by
  unfold Starved
  rw [stage]

theorem starved_receiving_iff {expected : Int} {correct : Bool} {replies : List Delivery}
    (stage : parallel.stage = .receiving expected correct replies) :
    parallel.Starved ↔ (parallel.recvCq.length + parallel.arriving : Int) < expected := by
  unfold Starved
  rw [stage]

section

variable (starved : parallel.Starved)
include starved

theorem Starved.stage_cases :
    (∃ expected, parallel.stage = .sending expected) ∨
      ∃ expected correct replies, parallel.stage = .receiving expected correct replies := by
  unfold Starved at starved
  cases stage : parallel.stage <;> rw [stage] at starved
  case sending expected => exact Or.inl ⟨expected, rfl⟩
  case receiving expected correct replies => exact Or.inr ⟨expected, correct, replies, rfl⟩
  all_goals exact absurd starved id

/-- A reply that arrives is one less that can. -/
theorem Starved.reply {delivery : Delivery} {inFlight : List Ticket}
    (perm : (delivery.ticket :: inFlight).Perm parallel.inFlight)
    (ready : receives parallel.ports delivery.ticket.connection ≠ 0) :
    Starved
      { parallel with
        inFlight := inFlight
        recvCq := parallel.recvCq ++ [delivery]
        ports := parallel.ports.modify delivery.ticket.connection Port.arrive } := by
  have fewer := arriving_reply perm ready
  rcases starved.stage_cases with ⟨expected, stage⟩ | ⟨expected, correct, replies, stage⟩
  · have short := (starved_sending_iff stage).mp starved
    refine Iff.mpr (starved_sending_iff stage) ?_
    dsimp only [arriving] at short fewer ⊢
    rw [length_append, length_singleton, length_modify]
    omega
  · have short := (starved_receiving_iff stage).mp starved
    refine Iff.mpr (starved_receiving_iff stage) ?_
    dsimp only [arriving] at short fewer ⊢
    rw [length_append, length_singleton]
    omega

theorem Starved.poll (count : Nat) :
    (parallel.poll count).Starved := by
  have level := arriving_poll parallel count
  rcases starved.stage_cases with ⟨expected, stage⟩ | ⟨expected, correct, replies, stage⟩
  · have short := (starved_sending_iff stage).mp starved
    rcases poll_sending stage count with same | ⟨batch, rest, _, _, changed⟩
    · rw [same]
      exact starved
    · rw [changed] at level ⊢
      by_cases last : expected - batch.length = 0
      · refine Iff.mpr (starved_receiving_iff (if_pos last)) ?_
        rw [level]
        exact Int.ofNat_lt.mpr short
      · refine Iff.mpr (starved_sending_iff (if_neg last)) ?_
        rw [level]
        exact short
  · have short := (starved_receiving_iff stage).mp starved
    rcases poll_receiving stage count with same | ⟨batch, rest, _, queue, changed⟩
    · rw [same]
      exact starved
    · rw [queue, length_append] at short
      dsimp only at changed
      -- too few replies can come for the count to be zero
      rw [if_neg (by omega)] at changed
      rw [changed] at level ⊢
      refine Iff.mpr (starved_receiving_iff rfl) ?_
      rw [level]
      dsimp only
      omega

theorem Starved.advance (event : Event) :
    (parallel.advance event).Starved :=
  advance_rule Starved starved (fun _ _ _ => starved)
    (fun _ _ perm ready => starved.reply perm ready) starved.poll event

theorem Starved.not_inevitable :
    ¬Inevitable Parallel.advance (fun after => after.stage = .idle) parallel := by
  refine Inevitable.not_of_invariant (fun _ event starved => starved.advance event) ?_ starved
  intro after starved idle
  unfold Starved at starved
  rw [idle] at starved
  exact starved

end

/-- A connection without a receive keeps the call from returning, when no reply to another
invocation can take the place of its own. -/
theorem not_sound_of_starved (callable : parallel.Callable fname inputs outs)
    (recvCq : parallel.recvCq = [])
    (blocked : ∀ ticket ∈ parallel.inFlight,
      receives (parallel.ports.map Port.refill) ticket.connection = 0) {connection : Nat}
    (inside : connection < parallel.ports.length)
    (dry : receives (parallel.ports.map Port.refill) connection = 0) :
    ¬parallel.Sound fname inputs outs := by
  intro sound
  refine Starved.not_inevitable ?_ sound.ends
  have there : connection ∈ (parallel.ownTickets fname inputs outs).map
      (fun ticket => ticket.connection) := by
    rw [ownTickets_connections callable]
    exact mem_range.mpr inside
  obtain ⟨ticket, member, rfl⟩ := mem_map.mp there
  have earlier : parallel.inFlight.countP (fun ticket =>
      receives (parallel.ports.map Port.refill) ticket.connection != 0) = 0 := by
    refine countP_eq_zero.mpr fun ticket member => ?_
    rw [bne_iff_ne, not_not]
    exact blocked ticket member
  have fewer : (parallel.ownTickets fname inputs outs).countP (fun ticket =>
      receives (parallel.ports.map Port.refill) ticket.connection != 0) <
        (parallel.ownTickets fname inputs outs).length := by
    refine Nat.lt_of_le_of_ne countP_le_length fun all => ?_
    exact absurd dry (bne_iff_ne.mp (countP_eq_length.mp all ticket member))
  rw [length_ownTickets callable] at fewer
  rw [executeVector_eq callable]
  show parallel.recvCq.length + countP _ (_ ++ _) < (parallel.ports.map Port.refill).length
  rw [recvCq, countP_append, earlier, length_nil, Nat.zero_add, Nat.zero_add,
    length_map]
  exact fewer

/-! ### The condition -/

theorem sound_of_clean (callable : parallel.Callable fname inputs outs) (clean : parallel.Clean)
    (ready : ∀ port ∈ parallel.ports, port.refill.posted ≠ 0) :
    parallel.Sound fname inputs outs := by
  have alone := alone_executeVector callable clean
  refine ⟨alone.inevitable (deliverable_executeVector callable clean ready), ?_, ?_⟩
  · intro events after idle
    have last : after.Alone (parallel.ownTickets fname inputs outs) parallel.returned :=
      run_stable (fun _ event alone => alone.advance event) events alone
    exact (last.answered idle).2
  · intro events after
    rw [outstanding, clean.recvCq, clean.inFlight]
    exact nil_subperm

/-- In a client that has made any calls before, `execute` on vectors is sound exactly if it finds
nothing left of them and a receive on every connection. -/
theorem mixed_execute_sound_iff {size maxInlineData : Int} {symbols : List String}
    {connections : List RemoteBuffer} (history : List Action)
    (callable : (run step (start size maxInlineData symbols connections) history).Callable fname
      inputs outs) :
    let parallel := run step (start size maxInlineData symbols connections) history
    parallel.Sound fname inputs outs ↔
      parallel.Clean ∧ ∀ port ∈ parallel.ports, port.refill.posted ≠ 0 := by
  intro parallel
  have numbered : parallel.Numbered :=
    run_stable (fun _ action numbered => numbered.step action) history (numbered_start _ _ _ _)
  constructor
  · intro sound
    have sending : parallel.sending = [] := by
      by_contra left
      exact not_sound_of_sends callable (Or.inl left) sound
    have sendCq : parallel.sendCq = [] := by
      by_contra left
      exact not_sound_of_sends callable (Or.inr left) sound
    have recvCq : parallel.recvCq = [] := by
      by_contra left
      exact not_sound_of_queued numbered callable sending sendCq left sound
    have blocked : ∀ ticket ∈ parallel.inFlight,
        receives (parallel.ports.map Port.refill) ticket.connection = 0 := by
      intro ticket member
      by_contra ready
      exact not_sound_of_deliverable numbered callable sending sendCq recvCq member ready sound
    have inFlight : parallel.inFlight = [] := by
      refine eq_nil_iff_forall_not_mem.mpr fun ticket member => ?_
      have inside := numbered.connection ticket (mem_append_right _ member)
      exact not_sound_of_starved callable recvCq blocked inside (blocked ticket member) sound
    refine ⟨⟨sending, sendCq, inFlight, recvCq⟩, fun port member dry => ?_⟩
    obtain ⟨connection, here⟩ := List.mem_iff_getElem?.mp member
    exact not_sound_of_starved callable recvCq blocked (List.getElem?_eq_some_iff.mp here).1
      ((receives_refill here).trans dry) sound
  · rintro ⟨clean, ready⟩
    exact sound_of_clean callable clean ready

/-- The call is sound after an asynchronous call whose two completions were polled by an `execute`
on a single buffer. -/
theorem execute_after_poll_sound :
    (run step (start 4 0 ["echo"] [⟨0, 0⟩, ⟨64, 1⟩]) [.async "echo" [] ⟨0, 2⟩ (-1),
      .event (.complete 0), .event (.reply 0 0 []), .execute "echo" [] ⟨0, 4⟩, .event (.complete 0),
      .event (.reply 0 0 []), .event (.poll 2), .event (.poll 2), .event (.poll 2)]).Sound
      "echo" [[], []] [⟨0, 2⟩, ⟨0, 3⟩] := by
  refine (mixed_execute_sound_iff _ ?_).mpr
    ⟨⟨by decide, by decide, by decide, by decide⟩, by decide⟩
  exact ⟨by decide, cons_ne_nil _ _, by decide, by decide, by decide, by decide⟩

/-- An asynchronous call whose write has completed and whose reply has arrived, and then `execute`
on vectors with one connection: a poll gets both completions of writes, and the count is -1. -/
theorem execute_after_async_hangs :
    let parallel := run step (start 4 0 ["echo"] [⟨0, 0⟩])
      [.async "echo" [] ⟨0, 2⟩ (-1), .event (.complete 0), .event (.reply 0 0 [])]
    let after := run advance (parallel.executeVector "echo" [[]] [⟨0, 3⟩]) [.complete 0, .poll 2]
    parallel.Callable "echo" [[]] [⟨0, 3⟩] ∧ after.stage = .sending (-1) ∧
      ¬Inevitable advance (fun after => after.stage = .idle) after ∧
      ¬parallel.Sound "echo" [[]] [⟨0, 3⟩] := by
  intro parallel after
  have callable : parallel.Callable "echo" [[]] [⟨0, 3⟩] :=
    ⟨rfl, cons_ne_nil _ _, rfl, by decide, Nat.le_refl 1, Nat.le_refl 1⟩
  have stage : after.stage = .sending (-1) := by decide
  refine ⟨callable, stage, Overshot.not_inevitable ⟨-1, by decide, stage⟩, ?_⟩
  exact not_sound_of_sends callable (Or.inr (by decide))

end RFaaS.Client.Parallel
