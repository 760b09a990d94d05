/-
This file is about `execute` on vectors in a client that has nothing else
outstanding. All completions that it polls are then its own. Whatever the
batches in which they come, the counts of both loops reach zero exactly with the
last of them, and the corrections at the end charge every connection for its own
reply.
-/

import RFaaS.ParallelExecute

namespace RFaaS.Client.Parallel

open Transition Delivery List

variable {parallel : Parallel}

/-! ### A call that finds nothing in the queues -/

/-- How far `execute` on vectors is, when nothing but its own writes `own` is there. -/
def Progress (own : List Ticket) (before : List Outcome) (parallel : Parallel) : Prop :=
  match parallel.stage with
  | .sending expected =>
    0 < expected ∧ expected = parallel.sending.length + parallel.sendCq.length ∧
      parallel.outstanding.Perm own ∧ parallel.returned = before
  | .receiving expected correct replies =>
    0 < expected ∧ parallel.sending = [] ∧ parallel.sendCq = [] ∧
      expected = parallel.recvCq.length + parallel.inFlight.length ∧
      (replies.map ticket ++ parallel.outstanding).Perm own ∧
      correct = replies.all ok ∧ parallel.returned = before
  | .idle =>
    parallel.Clean ∧ ∃ replies, (replies.map ticket).Perm own ∧
      parallel.returned = before ++ [⟨replies, replies.all ok⟩]
  | _ => False

/-- What holds of such a call after every event. -/
structure Alone (own : List Ticket) (before : List Outcome) (parallel : Parallel) : Prop where
  nonempty : 0 < own.length
  ports : parallel.ports.length = own.length
  progress : parallel.Progress own before

theorem length_redistribute (ports : List Port) : (redistribute ports).length = ports.length := by
  cases ports with
  | nil => rfl
  | cons first rest => exact congrArg (· + 1) (length_map _)

variable {own : List Ticket} {before : List Outcome}

variable {expected : Int} {replies : List Delivery} {inFlight : List Ticket}

theorem progress_sending_iff (stage : parallel.stage = .sending expected) :
    parallel.Progress own before ↔
      0 < expected ∧ expected = parallel.sending.length + parallel.sendCq.length ∧
        parallel.outstanding.Perm own ∧ parallel.returned = before := by
  unfold Progress
  rw [stage]

theorem progress_receiving_iff {correct : Bool}
    (stage : parallel.stage = .receiving expected correct replies) :
    parallel.Progress own before ↔
      0 < expected ∧ parallel.sending = [] ∧ parallel.sendCq = [] ∧
        expected = parallel.recvCq.length + parallel.inFlight.length ∧
        (replies.map ticket ++ parallel.outstanding).Perm own ∧
        correct = replies.all ok ∧ parallel.returned = before := by
  unfold Progress
  rw [stage]

theorem progress_idle_iff (stage : parallel.stage = .idle) :
    parallel.Progress own before ↔
      parallel.Clean ∧ ∃ replies, (replies.map ticket).Perm own ∧
        parallel.returned = before ++ [⟨replies, replies.all ok⟩] := by
  unfold Progress
  rw [stage]

/-- Such a call is in one of its two loops or has returned. -/
theorem Alone.stage_cases (alone : parallel.Alone own before) :
    (∃ expected, parallel.stage = .sending expected) ∨
      (∃ expected correct replies, parallel.stage = .receiving expected correct replies) ∨
      parallel.stage = .idle := by
  have progress := alone.progress
  unfold Progress at progress
  cases stage : parallel.stage <;> rw [stage] at progress
  case sending expected => exact Or.inl ⟨expected, rfl⟩
  case receiving expected correct replies => exact Or.inr (Or.inl ⟨expected, correct, replies, rfl⟩)
  case idle => exact Or.inr (Or.inr rfl)
  all_goals exact absurd progress id

/-- After the call has returned nothing is left that could complete or be answered. -/
theorem Alone.clean (alone : parallel.Alone own before) (idle : parallel.stage = .idle) :
    parallel.Clean :=
  ((progress_idle_iff idle).mp alone.progress).1

theorem Alone.complete (alone : parallel.Alone own before) {ticket : Ticket}
    {sending : List Ticket} (perm : (ticket :: sending).Perm parallel.sending) :
    Alone own before
      { parallel with sending := sending, sendCq := parallel.sendCq ++ [ticket] } := by
  have nonempty : parallel.sending ≠ [] := ne_nil_of_mem (perm.subset mem_cons_self)
  refine ⟨alone.nonempty, alone.ports, ?_⟩
  rcases alone.stage_cases with ⟨expected, stage⟩ | ⟨expected, correct, replies, stage⟩ | idle
  · obtain ⟨positive, count, rest⟩ := (progress_sending_iff stage).mp alone.progress
    have length := perm.length_eq
    refine Iff.mpr (progress_sending_iff stage) ⟨positive, ?_, rest⟩
    rw [length_cons] at length
    dsimp only
    rw [count, length_append, length_singleton]
    omega
  · exact absurd ((progress_receiving_iff stage).mp alone.progress).2.1 nonempty
  · exact absurd (alone.clean idle).sending nonempty

/-- A reply moves a write from those in flight to the queue. -/
theorem outstanding_reply (recvCq : List Delivery) {inFlight after : List Ticket}
    {delivery : Delivery} (perm : (delivery.ticket :: after).Perm inFlight) :
    ((recvCq ++ [delivery]).map ticket ++ after).Perm
      (recvCq.map ticket ++ inFlight) := by
  rw [map_append, append_assoc]
  exact perm.append_left _

section

variable (alone : parallel.Alone own before)
include alone

theorem Alone.busy {ticket : Ticket}
    (perm : (ticket :: inFlight).Perm parallel.inFlight) : parallel.stage ≠ .idle := by
  intro idle
  have member := perm.subset mem_cons_self
  rw [(alone.clean idle).inFlight] at member
  cases member

theorem Alone.reply {delivery : Delivery}
    (perm : (delivery.ticket :: inFlight).Perm parallel.inFlight) :
    Alone own before
      { parallel with
        inFlight := inFlight
        recvCq := parallel.recvCq ++ [delivery]
        ports := parallel.ports.modify delivery.ticket.connection Port.arrive } := by
  have moved := outstanding_reply parallel.recvCq perm
  refine ⟨alone.nonempty, (length_modify _ _ _).trans alone.ports, ?_⟩
  rcases alone.stage_cases with ⟨expected, stage⟩ | ⟨expected, correct, replies, stage⟩ | idle
  · obtain ⟨positive, count, all, rest⟩ := (progress_sending_iff stage).mp alone.progress
    exact Iff.mpr (progress_sending_iff stage) ⟨positive, count, moved.trans all, rest⟩
  · obtain ⟨positive, sending, sendCq, count, all, rest⟩ :=
      (progress_receiving_iff stage).mp alone.progress
    have length := perm.length_eq
    refine Iff.mpr (progress_receiving_iff stage)
      ⟨positive, sending, sendCq, ?_, (moved.append_left _).trans all, rest⟩
    rw [length_cons] at length
    dsimp only
    rw [count, length_append, length_singleton]
    omega
  · exact absurd idle (alone.busy perm)

/-- With the last completion that the first loop expects, nothing is left to send. -/
theorem Alone.first_loop (stage : parallel.stage = .sending expected) (count : Nat) :
    (parallel.poll count).Alone own before := by
  obtain ⟨positive, counted, all, returned⟩ := (progress_sending_iff stage).mp alone.progress
  rcases poll_sending stage count with same | ⟨batch, rest, _, queue, changed⟩
  · rw [same]
    exact alone
  · rw [changed]
    refine ⟨alone.nonempty, alone.ports, ?_⟩
    rw [queue, length_append] at counted
    unfold Progress
    dsimp only
    by_cases last : expected - batch.length = 0
    · rw [if_pos last]
      have empty : parallel.sending.length = 0 ∧ rest.length = 0 := by omega
      have total : parallel.outstanding.length = own.length := all.length_eq
      rw [outstanding, length_append, length_map] at total
      refine ⟨?_, eq_nil_of_length_eq_zero empty.1, eq_nil_of_length_eq_zero empty.2,
        ?_, all, rfl, returned⟩
      · rw [alone.ports]
        exact Int.natCast_pos.mpr alone.nonempty
      · rw [alone.ports, ← total]
        rfl
    · rw [if_neg last]
      exact ⟨by omega, by omega, all, returned⟩

/-- With the last reply that the second loop expects, the call returns the verdict on all. -/
theorem Alone.second_loop {correct : Bool}
    (stage : parallel.stage = .receiving expected correct replies) (count : Nat) :
    (parallel.poll count).Alone own before := by
  obtain ⟨positive, sending, sendCq, counted, all, right, returned⟩ :=
    (progress_receiving_iff stage).mp alone.progress
  rcases poll_receiving stage count with same | ⟨batch, rest, _, queue, changed⟩
  · rw [same]
    exact alone
  · rw [changed]
    rw [queue, length_append] at counted
    have taken : ((replies ++ batch).map ticket ++
        (rest.map ticket ++ parallel.inFlight)).Perm own := by
      rw [outstanding, queue] at all
      simp only [map_append, append_assoc] at all ⊢
      exact all
    have verdict : (correct && batch.all ok) = (replies ++ batch).all ok := by
      rw [right, all_append]
    dsimp only
    by_cases last : expected - batch.length = 0
    · rw [if_pos last]
      have empty : rest.length = 0 ∧ parallel.inFlight.length = 0 := by omega
      have noRest := eq_nil_of_length_eq_zero empty.1
      have noFlight := eq_nil_of_length_eq_zero empty.2
      refine ⟨alone.nonempty, ?_, ⟨sending, sendCq, noFlight, noRest⟩, replies ++ batch, ?_, ?_⟩
      · exact (length_redistribute _).trans ((length_modify _ _ _).trans alone.ports)
      · rw [noRest, noFlight, map_nil, append_nil, append_nil] at taken
        exact taken
      · dsimp only
        rw [returned, verdict]
    · rw [if_neg last]
      refine ⟨alone.nonempty, (length_modify _ _ _).trans alone.ports, ?_⟩
      have left : expected - batch.length = rest.length + parallel.inFlight.length := by omega
      exact ⟨by omega, sending, sendCq, left, taken, verdict, returned⟩

theorem Alone.poll (count : Nat) : (parallel.poll count).Alone own before := by
  rcases alone.stage_cases with ⟨_, stage⟩ | ⟨_, _, _, stage⟩ | idle
  · exact alone.first_loop stage count
  · exact alone.second_loop stage count
  · rw [poll_idle idle]
    exact alone

theorem Alone.advance (event : Event) : (parallel.advance event).Alone own before :=
  advance_rule (Alone own before) alone (fun _ _ perm => alone.complete perm)
    (fun _ _ perm _ => alone.reply perm) alone.poll event

end

section Call

variable {fname : String} {inputs : List (List UInt8)} {outs : List RemoteBuffer}

theorem alone_executeVector (callable : parallel.Callable fname inputs outs)
    (clean : parallel.Clean) :
    (parallel.executeVector fname inputs outs).Alone (parallel.ownTickets fname inputs outs)
      parallel.returned := by
  rw [executeVector_eq callable]
  have positive : 0 < parallel.ports.length := length_pos_iff.mpr callable.some
  have length := length_ownTickets callable
  refine ⟨by omega, ?_, ?_⟩
  · exact (length_map _).trans length.symm
  · refine ⟨Int.natCast_pos.mpr positive, ?_, ?_, rfl⟩
    · dsimp only
      rw [clean.sending, clean.sendCq, nil_append, length]
      exact (Int.add_zero _).symm
    · dsimp only [outstanding]
      rw [clean.recvCq, clean.inFlight]
      exact List.Perm.refl _

end Call

/-! ### The call ends -/

/-- Every write in flight has a connection of its own, with a receive for the reply. -/
structure Deliverable (parallel : Parallel) : Prop where
  apart : (parallel.inFlight.map fun ticket => ticket.connection).Nodup
  ready : ∀ ticket ∈ parallel.inFlight, receives parallel.ports ticket.connection ≠ 0

theorem Deliverable.advance (deliverable : parallel.Deliverable) (event : Event) :
    (parallel.advance event).Deliverable := by
  refine advance_rule Deliverable deliverable (fun _ _ _ => ?_)
    (fun delivery inFlight perm _ => ?_) (fun count => ?_) event
  · exact ⟨deliverable.apart, deliverable.ready⟩
  · have apart := ((perm.map fun ticket => ticket.connection).nodup_iff).mpr deliverable.apart
    rw [map_cons, nodup_cons] at apart
    refine ⟨apart.2, fun ticket member => ?_⟩
    dsimp only at member ⊢
    have other : delivery.ticket.connection ≠ ticket.connection := fun same =>
      apart.1 (same ▸ mem_map_of_mem member)
    rw [receives_arrive, if_neg other]
    exact deliverable.ready ticket (perm.mem_iff.mp (mem_cons_of_mem _ member))
  · obtain ⟨_, inFlight, posted⟩ := parallel.poll_frame count
    refine ⟨by rw [inFlight]; exact deliverable.apart, fun ticket member => ?_⟩
    rw [inFlight] at member
    rw [receives_congr posted]
    exact deliverable.ready ticket member

section

variable (alone : parallel.Alone own before)
include alone

/-- While the first loop expects completions, a write completes or a completion is polled. -/
theorem Alone.first_moves
    (stage : parallel.stage = .sending expected) : ∃ event, parallel.advance event ≠ parallel := by
  obtain ⟨positive, counted, _⟩ := (progress_sending_iff stage).mp alone.progress
  cases pending : parallel.sending with
  | cons ticket rest =>
    refine ⟨.complete 0, ne_of_apply_ne sending ?_⟩
    rw [Parallel.advance, complete_head pending, pending]
    exact (cons_ne_self _ _).symm
  | nil =>
    cases queue : parallel.sendCq with
    | nil =>
      rw [pending, queue] at counted
      exact absurd positive (by rw [counted]; decide)
    | cons ticket rest =>
      refine ⟨.poll 1, ne_of_apply_ne sendCq ?_⟩
      rw [Parallel.advance, @poll_sends _ _ [ticket] rest 1 stage queue rfl
        (cons_ne_nil _ _) (by decide), queue]
      exact (cons_ne_self _ _).symm

/-- While the second loop expects replies, one arrives or is polled. -/
theorem Alone.second_moves (deliverable : parallel.Deliverable) {correct : Bool}
    (stage : parallel.stage = .receiving expected correct replies) :
    ∃ event, parallel.advance event ≠ parallel := by
  obtain ⟨positive, _, _, counted, _⟩ := (progress_receiving_iff stage).mp alone.progress
  cases flying : parallel.inFlight with
  | cons ticket rest =>
    have ready := deliverable.ready ticket (by rw [flying]; exact mem_cons_self)
    have first : parallel.inFlight[0]? = some ticket := by rw [flying]; rfl
    refine ⟨.reply 0 0 [], ne_of_apply_ne inFlight ?_⟩
    rw [Parallel.advance, reply_eq first ready, flying]
    exact (cons_ne_self _ _).symm
  | nil =>
    cases queue : parallel.recvCq with
    | nil =>
      rw [flying, queue] at counted
      exact absurd positive (by rw [counted]; decide)
    | cons delivery rest =>
      refine ⟨.poll 1, ne_of_apply_ne recvCq ?_⟩
      rw [Parallel.advance, @poll_replies _ _ _ _ [delivery] rest 1 stage queue rfl
        (cons_ne_nil _ _) (by decide), queue]
      dsimp only
      split <;> exact (cons_ne_self _ _).symm

/-- As long as the call waits and every reply can be delivered, something can happen. -/
theorem Alone.moves (deliverable : parallel.Deliverable)
    (waits : parallel.stage ≠ .idle) : ∃ event, parallel.advance event ≠ parallel := by
  rcases alone.stage_cases with ⟨_, stage⟩ | ⟨_, _, _, stage⟩ | idle
  · exact alone.first_moves stage
  · exact alone.second_moves deliverable stage
  · exact absurd idle waits

theorem Alone.waits (waits : parallel.stage ≠ .idle) : parallel.stage.waits = true := by
  rcases alone.stage_cases with ⟨_, stage⟩ | ⟨_, _, _, stage⟩ | idle
  · rw [stage]
    rfl
  · rw [stage]
    rfl
  · exact absurd idle waits

theorem Alone.idle_of_clean (clean : parallel.Clean) : parallel.stage = .idle := by
  rcases alone.stage_cases with ⟨_, stage⟩ | ⟨_, _, _, stage⟩ | idle
  · obtain ⟨positive, counted, _⟩ := (progress_sending_iff stage).mp alone.progress
    rw [clean.sending, clean.sendCq] at counted
    exact absurd positive (by rw [counted]; decide)
  · obtain ⟨positive, _, _, counted, _⟩ := (progress_receiving_iff stage).mp alone.progress
    rw [clean.recvCq, clean.inFlight] at counted
    exact absurd positive (by rw [counted]; decide)
  · exact idle

/-- A call that finds nothing in the queues returns, if every reply can be delivered. -/
theorem Alone.inevitable (deliverable : parallel.Deliverable) :
    Inevitable Parallel.advance (fun after => after.stage = .idle) parallel := by
  have preserved : ∀ (parallel : Parallel) event,
      parallel.Alone own before ∧ parallel.Deliverable →
      (parallel.advance event).Alone own before ∧ (parallel.advance event).Deliverable :=
    fun _ event both => ⟨both.1.advance event, both.2.advance event⟩
  exact Inevitable.of_rank preserved (fun _ both waits => both.1.moves both.2 waits)
    (fun _ event both waits change => work_advance_lt (both.1.waits waits) event change)
    ⟨alone, deliverable⟩

end

/-! ### The counts of the connections -/

/-- Between two calls every connection counts its receives. In a call the first connection is
charged for all replies that were polled, and a reply that has used up a receive of its own
connection is not counted there. -/
def Charged (total : Nat) (parallel : Parallel) : Prop :=
  ∀ (connection : Nat) port, parallel.ports[connection]? = some port →
    if parallel.stage = .idle then port.queue.requests = port.posted
    else
      port.queue.requests +
        (if connection = 0 then (total : Int) - parallel.outstanding.length else 0) +
        parallel.inFlight.countP (fun ticket => ticket.connection == connection) = port.posted + 1

theorem getElem?_redistribute {ports : List Port} {connection : Nat} {after : Port}
    (here : (redistribute ports)[connection]? = some after) :
    ∃ port, ports[connection]? = some port ∧
      after = port.updateRequests (if connection = 0 then (ports.length : Int) - 1 else -1) := by
  cases ports with
  | nil => cases here
  | cons first rest =>
    cases connection with
    | zero => exact ⟨first, rfl, (Option.some.inj here).symm⟩
    | succ index =>
      rw [redistribute, getElem?_cons_succ, List.getElem?_map] at here
      obtain ⟨port, there, same⟩ := Option.map_eq_some_iff.mp here
      exact ⟨port, there, same.symm⟩

theorem Charged.reply {total : Nat} (charged : parallel.Charged total)
    (busy : parallel.stage ≠ .idle) {delivery : Delivery}
    (perm : (delivery.ticket :: inFlight).Perm parallel.inFlight)
    (ready : receives parallel.ports delivery.ticket.connection ≠ 0) :
    Charged total
      { parallel with
        inFlight := inFlight
        recvCq := parallel.recvCq ++ [delivery]
        ports := parallel.ports.modify delivery.ticket.connection Port.arrive } := by
  have level := (outstanding_reply parallel.recvCq perm).length_eq
  intro connection port here
  dsimp only [outstanding] at here ⊢
  rw [if_neg busy, level]
  obtain ⟨port, there, ⟨rfl, rfl⟩ | ⟨other, rfl⟩⟩ := Table.getElem?_modify_cases here
  · have count := charged _ port there
    have fewer := perm.countP_eq fun ticket => ticket.connection == delivery.ticket.connection
    rw [if_neg busy] at count
    rw [countP_cons, if_pos (beq_self_eq_true _)] at fewer
    rw [receives, there] at ready
    dsimp only [outstanding, Option.elim, Port.arrive] at count ready ⊢
    omega
  · have count := charged connection port there
    have same := perm.countP_eq fun ticket => ticket.connection == connection
    rw [if_neg busy] at count
    rw [countP_cons, if_neg (by simpa using other)] at same
    dsimp only [outstanding] at count ⊢
    omega

/-- A batch of replies is charged to the first connection. -/
theorem Charged.taken {total : Nat} (charged : parallel.Charged total)
    (busy : parallel.stage ≠ .idle) {batch rest : List Delivery}
    (queue : parallel.recvCq = batch ++ rest) {connection : Nat} {port : Port}
    (here : (parallel.ports.modify 0 fun port =>
      port.updateRequests (-batch.length))[connection]? = some port) :
    port.queue.requests +
        (if connection = 0 then
          (total : Int) - (rest.length + parallel.inFlight.length) else 0) +
        parallel.inFlight.countP (fun ticket => ticket.connection == connection) =
      port.posted + 1 := by
  have polled : parallel.outstanding.length =
      batch.length + (rest.length + parallel.inFlight.length) := by
    rw [outstanding, queue, length_append, length_map, length_append]
    omega
  obtain ⟨port, there, ⟨rfl, rfl⟩ | ⟨other, rfl⟩⟩ := Table.getElem?_modify_cases here
  · have before := charged 0 port there
    rw [if_neg busy, if_pos rfl, polled] at before
    rw [if_pos rfl]
    show port.queue.requests + -(batch.length : Int) + _ + _ = _
    dsimp only [Port.updateRequests]
    omega
  · have before := charged connection port there
    rw [if_neg busy, if_neg (Ne.symm other)] at before
    rw [if_neg (Ne.symm other)]
    exact before

theorem Charged.first_loop {total : Nat} (charged : parallel.Charged total)
    (stage : parallel.stage = .sending expected) (count : Nat) :
    (parallel.poll count).Charged total := by
  rcases poll_sending stage count with same | ⟨batch, rest, _, _, changed⟩
  · rw [same]
    exact charged
  · rw [changed]
    intro connection port here
    have before := charged connection port here
    rw [stage, if_neg CallStage.noConfusion] at before
    rw [if_neg (by dsimp only; split <;> exact CallStage.noConfusion)]
    exact before

/-- The corrections at the end of the second loop give every connection its own reply back. -/
theorem Charged.second_loop (charged : parallel.Charged own.length)
    (alone : parallel.Alone own before) {correct : Bool}
    (stage : parallel.stage = .receiving expected correct replies) (count : Nat) :
    (parallel.poll count).Charged own.length := by
  have busy : parallel.stage ≠ .idle := by
    rw [stage]
    exact CallStage.noConfusion
  rcases poll_receiving stage count with same | ⟨batch, rest, _, queue, changed⟩
  · rw [same]
    exact charged
  · obtain ⟨_, _, _, counted, _⟩ := (progress_receiving_iff stage).mp alone.progress
    rw [queue, length_append] at counted
    rw [changed]
    dsimp only
    by_cases last : expected - batch.length = 0
    · rw [if_pos last]
      have none : rest.length = 0 ∧ parallel.inFlight.length = 0 := by omega
      have noFlight := eq_nil_of_length_eq_zero none.2
      intro connection after here
      rw [if_pos rfl]
      obtain ⟨port, there, rfl⟩ := getElem?_redistribute here
      have before := charged.taken busy queue there
      rw [none.1, noFlight, countP_nil, length_nil] at before
      rw [length_modify, alone.ports]
      dsimp only [Port.updateRequests, RecvWorkCompletions.updateRequests]
      split <;> rename_i first
      · rw [if_pos first] at before
        omega
      · rw [if_neg first] at before
        omega
    · rw [if_neg last]
      intro connection port here
      have before := charged.taken busy queue here
      rw [if_neg CallStage.noConfusion]
      dsimp only [outstanding]
      rw [length_append, length_map]
      exact before

theorem Charged.advance (charged : parallel.Charged own.length)
    (alone : parallel.Alone own before) (event : Event) :
    (parallel.advance event).Charged own.length := by
  refine advance_rule (Charged own.length) charged (fun _ _ _ => charged)
    (fun _ _ perm ready => charged.reply (alone.busy perm) perm ready) (fun count => ?_) event
  rcases alone.stage_cases with ⟨_, stage⟩ | ⟨_, _, _, stage⟩ | idle
  · exact charged.first_loop stage count
  · exact charged.second_loop alone stage count
  · rw [poll_idle idle]
    exact charged

/-! ### A quiescent client -/

section Quiescent

variable {fname : String} {inputs : List (List UInt8)} {outs : List RemoteBuffer}

theorem deliverable_executeVector (callable : parallel.Callable fname inputs outs)
    (clean : parallel.Clean) (ready : ∀ port ∈ parallel.ports, port.refill.posted ≠ 0) :
    (parallel.executeVector fname inputs outs).Deliverable := by
  rw [executeVector_eq callable]
  refine ⟨?_, fun ticket member => ?_⟩
  · dsimp only
    rw [clean.inFlight, nil_append, ownTickets_connections callable]
    exact List.nodup_range
  · dsimp only at member ⊢
    rw [clean.inFlight, nil_append] at member
    have here := getElem?_eq_getElem (connection_lt callable member)
    rw [receives_refill here]
    exact ready _ (mem_of_getElem? here)

theorem charged_executeVector (callable : parallel.Callable fname inputs outs)
    (clean : parallel.Clean)
    (counted : ∀ port ∈ parallel.ports, port.refill.queue.requests = port.refill.posted) :
    (parallel.executeVector fname inputs outs).Charged
      (parallel.ownTickets fname inputs outs).length := by
  rw [executeVector_eq callable]
  intro connection port here
  dsimp only [outstanding] at here ⊢
  rw [List.getElem?_map] at here
  obtain ⟨port, there, rfl⟩ := Option.map_eq_some_iff.mp here
  have inside : connection ∈ List.range parallel.ports.length :=
    List.mem_range.mpr (List.getElem?_eq_some_iff.mp there).1
  have once : (parallel.ownTickets fname inputs outs).countP
      (fun ticket => ticket.connection == connection) = 1 := by
    have counts := List.count_eq_one_of_mem List.nodup_range inside
    rw [← ownTickets_connections callable, count, countP_map] at counts
    exact counts
  have same := counted port (mem_of_getElem? there)
  rw [if_neg CallStage.noConfusion, clean.recvCq, clean.inFlight, nil_append, map_nil,
    nil_append, once, same]
  split <;> omega

/-- What a caller of `execute` on vectors gets: the verdict on its own replies, one for each of
its writes. -/
def Answered (before : Parallel) (own : List Ticket) (after : Parallel) : Prop :=
  ∃ outcome, after.returned = before.returned ++ [outcome] ∧
    (outcome.replies.map ticket).Perm own ∧
    (outcome.correct = true ↔ ∀ delivery ∈ outcome.replies,
      Immediate.returnVal (ntohl delivery.completion.immData) = 0#32)

theorem Alone.answered {after : Parallel} (alone : after.Alone own parallel.returned)
    (idle : after.stage = .idle) : after.Clean ∧ Answered parallel own after := by
  obtain ⟨clean, replies, perm, returned⟩ := (progress_idle_iff idle).mp alone.progress
  refine ⟨clean, ⟨replies, _⟩, returned, perm, ?_⟩
  rw [all_eq_true]
  refine forall_congr' fun delivery => forall_congr' fun _ => ?_
  exact beq_iff_eq

/-- `execute` on vectors in a client that has nothing else outstanding and whose connections count
their receives. In whatever order and in whatever batches the completions and the replies come
back, the call has returned as soon as all of them did, and not before. It returns the verdict on
its own replies, and every connection counts its receives again. With room for a receive the
replies do come back. -/
theorem execute_quiescent {size : Int} (callable : parallel.Callable fname inputs outs)
    (clean : parallel.Clean)
    (counted : ∀ port ∈ parallel.ports,
      port.queue.Sized size ∧ port.queue.requests = port.posted) :
    (∀ events : List Event,
      let after := run advance (parallel.executeVector fname inputs outs) events
      (after.Clean → after.stage = .idle) ∧
        (after.stage = .idle →
          after.Clean ∧ Answered parallel (parallel.ownTickets fname inputs outs) after ∧
            ∀ port ∈ after.ports, port.queue.requests = port.posted)) ∧
      (0 < size →
        Inevitable advance (fun after => after.stage = .idle)
          (parallel.executeVector fname inputs outs)) := by
  have refilled : ∀ port ∈ parallel.ports, port.refill.queue.requests = port.refill.posted ∧
      min size 256 ≤ port.refill.queue.requests := by
    intro port member
    obtain ⟨sized, same⟩ := counted port member
    obtain ⟨_, balance, _, least⟩ := Port.refill_spec sized
    exact ⟨by omega, least⟩
  have alone := alone_executeVector callable clean
  constructor
  · intro events after
    have preserved : ∀ (here : Parallel) event,
        here.Alone (parallel.ownTickets fname inputs outs) parallel.returned ∧
          here.Charged (parallel.ownTickets fname inputs outs).length →
        (here.advance event).Alone (parallel.ownTickets fname inputs outs) parallel.returned ∧
          (here.advance event).Charged (parallel.ownTickets fname inputs outs).length :=
      fun _ event both => ⟨both.1.advance event, both.2.advance both.1 event⟩
    obtain ⟨last, charged⟩ := run_stable preserved events
      ⟨alone, charged_executeVector callable clean fun port member => (refilled port member).1⟩
    refine ⟨last.idle_of_clean, fun idle => ?_⟩
    obtain ⟨drained, answered⟩ := last.answered idle
    refine ⟨drained, answered, fun port member => ?_⟩
    obtain ⟨connection, here⟩ := mem_iff_getElem?.mp member
    have count := charged connection port here
    rw [if_pos idle] at count
    exact count
  · intro positive
    refine alone.inevitable (deliverable_executeVector callable clean fun port member => ?_)
    obtain ⟨same, least⟩ := refilled port member
    omega

/-- A client that was just allocated, with two connections. -/
theorem execute_quiescent_allocated :
    Inevitable advance (fun after => after.stage = .idle)
      ((start 4 0 ["echo"] [⟨0, 0⟩, ⟨64, 1⟩]).executeVector "echo" [[], []] [⟨0, 2⟩, ⟨0, 3⟩]) := by
  have callable : (start 4 0 ["echo"] [⟨0, 0⟩, ⟨64, 1⟩]).Callable "echo" [[], []]
      [⟨0, 2⟩, ⟨0, 3⟩] :=
    ⟨rfl, cons_ne_nil _ _, rfl, by decide, Nat.le_refl 2, Nat.le_refl 2⟩
  refine (@execute_quiescent _ _ _ _ 4 callable ⟨rfl, rfl, rfl, rfl⟩ fun port member => ?_).2
    (by decide)
  obtain ⟨_, _, rfl⟩ := mem_map.mp member
  obtain ⟨sized, same, _⟩ := Port.filled_spec 4
  exact ⟨sized, same⟩

end Quiescent

end RFaaS.Client.Parallel
