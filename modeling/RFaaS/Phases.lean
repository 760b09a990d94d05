/-
This file takes a session of synchronous calls through the events of the
network and of the worker. The write of a call arrives, the worker takes the
steps of its polling loops until it has called the function and posted the
reply, and the reply arrives.
-/

import RFaaS.Synchronous

namespace RFaaS

open Client FastExecutor Nat Thread

namespace Session

variable {library : Library} {inBytes outBytes : Nat} {session : Session}

/-! ### The write arrives -/

variable {returned : List Returned} {region : Region}

theorem Faithful.of_executions {issued : List Issue} {executions after : List Execution}
    (faithful : Faithful library issued executions returned) (same : after = executions) :
    Faithful library issued after returned := same ▸ faithful

theorem advances_land (proper : session.Proper library inBytes outBytes) :
    Advances library inBytes outBytes session (session.land 0) (.land 0) := by
  have stays : (session.lanes 0).wire = [] →
      Advances library inBytes outBytes session (session.land 0) (.land 0) := by
    intro wire
    rw [land_of_nil wire]
    exact Advances.stutter proper fun _ turn => helper_ne_outbound wire (Option.some.inj turn).symm
  have ground := proper.ground
  rcases proper.orderly with ⟨_, quiet, _, _⟩ |
    ⟨issue, region, id, write, asked, polling, quiet, received, before⟩ |
    ⟨_, _, _, _, _, _, _, _, busy, _, _, _⟩ | ⟨_, _, _, _, _, _, _, _, quiet, _, _, _, _⟩ |
    ⟨_, _, _, _, _, _, _, _, quiet, _, _, _, _⟩ | ⟨_, _, _, _, _, _, _, quiet, _, _, _, _⟩
  · exact stays quiet.wire
  · rw [land_of_cons quiet.wire]
    have length : write.data.length = issue.input.length := by
      rw [asked.wrote.data, Submission.length_stamp _ asked.fits.header]
    have fits : write.data.length ≤ (session.lanes 0).thread.rcv.bytes.length := by
      rw [length, ground.input]
      exact asked.fits.input
    have accepted := Region.place_remote asked.wrote.remote fits
    obtain ⟨rcv, placed, seen, next⟩ | ⟨refused, _⟩ := land_idle quiet.here write
    · have sameRemote := Region.remote_of_place placed
      have rcvAfter : ((session.lanes 0).thread.land write).rcv = rcv := congrArg Visible.rcv seen
      have executions : ((session.lanes 0).thread.land write).executions =
          (session.lanes 0).thread.executions := congrArg Visible.executions seen
      have none_ : (session.lanes 0).thread.executions[session.returned.length]? = none :=
        List.getElem?_eq_none (Nat.le_of_eq quiet.executed)
      refine proper.advance rfl ?_ ?_ ?_ (le_refl _) (le_refl _) fun _ => Or.inl ?_
      · refine ground.of_thread (congrArg Visible.functions seen) (by rw [rcvAfter, sameRemote])
          (by rw [rcvAfter, Region.length_of_place placed])
          ((congrArg (fun v => v.send.length) seen).trans ground.output)
          (alert_land ground.alert write) ?_
        rw [seen]
        exact ⟨ground.isolated.executions, ground.isolated.replies⟩
      · exact proper.faithful.of_executions executions
      · refine .serving issue region id write (.queued write.completion)
          ⟨asked.pending, asked.last, asked.fits, ?_⟩ polling rfl ⟨rfl, next, ?_, ?_, ?_⟩
          (fun execution called => ?_) received before
        · rw [rcvAfter, sameRemote]
          exact asked.wrote
        · rw [seen]
          refine ⟨quiet.carries, write, rfl, ?_, Region.begins_of_place asked.wrote.remote placed⟩
          rw [length]
          exact asked.fits.header
        · exact (congrArg Visible.posted seen).trans quiet.posted
        · rw [executions]
          exact quiet.executed
        · rw [executions, none_] at called
          cases called
      · have posted := (congrArg Visible.posted seen).trans quiet.posted
        rw [rank, (due_sent polling received quiet.posted quiet.wire).1,
          (due_serving polling received posted rfl).1]
        exact Nat.lt_of_le_of_lt (Nat.add_le_add_left (Control.patience_le _) 3) (by decide)
    · rw [accepted] at refused
      cases refused
  · exact stays busy.wire
  · exact stays quiet.wire
  · exact stays quiet.wire
  · exact stays quiet.wire

/-! ### The worker takes a step -/

theorem Asked.of_visible {lane after : Lane} {issued : List Issue} {issue : Issue}
    {id : BitVec 32} {write : Write}
    (asked : Asked library inBytes outBytes lane issued returned issue region id write)
    (same : after.thread.visible.rcv = lane.thread.visible.rcv) :
    Asked library inBytes outBytes after issued returned issue region id write := by
  refine ⟨asked.pending, asked.last, asked.fits, ?_⟩
  rw [show after.thread.rcv = lane.thread.rcv from same]
  exact asked.wrote

/-- A step of an idle worker changes nothing, and it is not the one that is due. -/
theorem Proper.work_quiet (proper : session.Proper library inBytes outBytes)
    {wire posted : List Write} {executed : Nat}
    (quiet : LaneAt (session.lanes 0) wire .idle posted executed) (now : Int)
    (orderly : ∀ lane, LaneAt lane wire .idle posted executed →
      lane.thread.visible = (session.lanes 0).thread.visible →
      Orderly library inBytes outBytes session.waiting lane session.memory session.recvCq
        session.issued session.returned)
    (other : session.waiting ≠ .idle → ∃ amount party, party ≠ Party.worker ∧
      ∀ lane, LaneAt lane wire .idle posted executed →
        due session.waiting lane session.recvCq = amount ∧
          helper session.waiting lane session.recvCq = party) :
    Advances library inBytes outBytes session (session.work 0 now) (.work 0 now) := by
  obtain ⟨unseen, next⟩ := step_idle quiet.here now
  have few : (session.lanes 0).thread.recvCq.length ≤ wcSize := by
    rw [quiet.here.1]
    exact zero_le _
  have moved := quiet.of_visible next quiet.carries unseen
  refine proper.advance rfl ?_ ?_ (orderly _ moved unseen) (le_refl _) (le_refl _)
    fun waits => Or.inr ?_
  · exact proper.ground.of_visible unseen
      (alert_step_atRest proper.ground.alert few quiet.here.2 now)
  · exact proper.faithful.of_executions (congrArg Visible.executions unseen)
  · obtain ⟨amount, party, different, same⟩ := other waits
    obtain ⟨rank, turn⟩ := same _ quiet
    obtain ⟨rankAfter, turnAfter⟩ := same _ moved
    exact ⟨rankAfter.trans rank.symm, turnAfter.trans turn.symm,
      fun worker => different (turn.symm.trans (Option.some.inj worker).symm)⟩

theorem Faithful.call {issued : List Issue} {executions : List Execution}
    (faithful : Faithful library issued executions returned)
    (pending : issued.length = returned.length + 1) (level : executions.length = returned.length)
    {issue : Issue} (last : issued[returned.length]? = some issue) {execution : Execution}
    (runs : issue.RunsAs library execution) :
    Faithful library issued (executions ++ [execution]) returned := by
  have length : (executions ++ [execution]).length = returned.length + 1 := by
    rw [List.length_append, level]
    rfl
  refine ⟨?_, ?_, faithful.blocking, fun index other another asked called => ?_,
    fun index other another result asked called answered => ?_⟩
  · rw [length, pending]
  · rw [length]
    exact le_succ _
  · rcases lt_trichotomy index executions.length with before | same | beyond
    · rw [List.getElem?_append_left before] at called
      exact faithful.runs index other another asked called
    · rw [same, List.getElem?_concat_length] at called
      rw [same, level, last] at asked
      rw [← Option.some.inj called, ← Option.some.inj asked]
      exact runs
    · rw [List.getElem?_eq_none (by rw [length, ← level]; exact beyond)] at called
      cases called
  · have before : index < executions.length := by
      rw [level]
      exact (List.getElem?_eq_some_iff.mp answered).1
    rw [List.getElem?_append_left before] at called
    exact faithful.returns index other another result asked called answered

/-- The function that a taken invocation asks for exists. -/
theorem Ground.found {executor : Client.Executor} {lane : Lane} {issued : List Issue}
    {issue : Issue} {id : BitVec 32} {write : Write}
    (ground : Ground library inBytes outBytes executor lane.thread)
    (asked : Asked library inBytes outBytes lane issued returned issue region id write)
    (few : library.symbols.length ≤ 2 ^ 15) :
    lane.thread.functions.function (Task.ofCompletion write.completion).funcId.toNat =
      some (issue.fname, library.code issue.fname) := by
  rw [ground.functions]
  exact asked.wrote.function few

theorem Ground.alert_held {executor : Client.Executor} {thread : Thread}
    {completion : WorkCompletion}
    (ground : Ground library inBytes outBytes executor thread)
    (held : thread.At (.held completion))
    (found : thread.functions.function (Task.ofCompletion completion).funcId.toNat ≠ none)
    (now : Int) : (thread.step now).Alert := by
  have few : thread.recvCq.length ≤ wcSize := by
    rw [held.1]
    exact zero_le _
  refine alert_step ground.alert few (fun caller task control => ?_) now
  have holds := held.2
  rw [control] at holds
  rw [holds.2]
  exact found

section Serving

variable {issue : Issue} {id : BitVec 32} {write : Write}
  (proper : session.Proper library inBytes outBytes)
  (asked : Asked library inBytes outBytes (session.lanes 0) session.issued session.returned issue
    region id write)
  (polling : session.waiting = .polling id) (received : session.recvCq = [])
  (before : session.memory = issue.memory)

include proper asked polling received before

/-- A step of the worker that others do not see, with an invocation that waits or that the
worker has taken. -/
theorem Proper.work_unseen {stage next : Stage}
    (busy : LaneAt (session.lanes 0) [] stage [] session.returned.length) {now : Int}
    (unseen : ((session.lanes 0).thread.step now).visible = (session.lanes 0).thread.visible)
    (here : ((session.lanes 0).thread.step now).At next) (for_ : next.For write)
    (calls : next.calls = 0) (carries : (session.lanes 0).thread.visible.Carries next)
    (alert : ((session.lanes 0).thread.step now).Alert)
    (patience : ((session.lanes 0).thread.step now).control.patience <
      (session.lanes 0).thread.control.patience) :
    Advances library inBytes outBytes session (session.work 0 now) (.work 0 now) := by
  have moved := busy.of_visible here carries unseen
  have executions := congrArg Visible.executions unseen
  refine proper.advance rfl (proper.ground.of_visible unseen alert)
    (proper.faithful.of_executions executions) ?_ (le_refl _) (le_refl _)
    fun _ => Or.inl ?_
  · refine .serving issue region id write next (asked.of_visible (congrArg Visible.rcv unseen))
      polling for_ ?_ (fun execution called => ?_) received before
    · rw [calls]
      exact moved
    · exact absurd (List.getElem?_eq_some_iff.mp called).1
        (Nat.not_lt.mpr (Nat.le_of_eq moved.executed))
  · rw [rank, (due_serving polling received busy.posted busy.wire).1]
    refine Nat.lt_of_le_of_lt (Nat.le_of_eq ?_) (Nat.add_lt_add_left patience 3)
    exact (due_serving polling received moved.posted moved.wire).1

theorem Proper.work_queued
    (busy : LaneAt (session.lanes 0) [] (.queued write.completion) [] session.returned.length)
    (now : Int) :
    Advances library inBytes outBytes session (session.work 0 now) (.work 0 now) := by
  have few : (session.lanes 0).thread.recvCq.length ≤ wcSize := by
    rw [busy.here.1]
    exact succ_le_succ (zero_le _)
  have alert := alert_step_atRest proper.ground.alert few busy.here.2 now
  have patience := patience_queued proper.ground.alert busy.here now
  obtain ⟨unseen, next | next⟩ := step_queued busy.here now
  all_goals
    exact proper.work_unseen asked polling received before busy unseen next rfl rfl busy.carries
      alert patience

theorem Proper.work_held (few : library.symbols.length ≤ 2 ^ 15) (small : inBytes < 2 ^ 32)
    (busy : LaneAt (session.lanes 0) [] (.held write.completion) [] session.returned.length)
    (now : Int) :
    Advances library inBytes outBytes session (session.work 0 now) (.work 0 now) := by
  have ground := proper.ground
  have found := ground.found asked few
  have exists_ : (session.lanes 0).thread.functions.function
      (Task.ofCompletion write.completion).funcId.toNat ≠ none := by
    rw [found]
    exact Option.some_ne_none _
  have alert := ground.alert_held busy.here exists_ now
  have patience := patience_held busy.here rfl exists_ now
  obtain ⟨level, placed⟩ := busy.carries
  obtain ⟨unseen, next⟩ | ⟨name, function, execution, same, made, called, next⟩ | ⟨missing, _⟩ :=
    step_held busy.here rfl now
  · exact proper.work_unseen asked polling received before busy unseen next rfl rfl busy.carries
      alert patience
  · have fits : (session.lanes 0).thread.rcv.bytes.length < 2 ^ 32 := by
      rw [ground.input]
      exact small
    have own : execution.Own (session.lanes 0).thread.functions := by
      rw [made]
      exact own_of_call placed fits same
    have origin : execution.origin = write := by rw [made]; rfl
    have runs := asked.wrote.runsAs few (ground.functions ▸ own) origin
    have bounded : execution.Bounded outBytes region := by
      refine asked.fits.bounded runs.payload runs.size ground.output ?_
      obtain ⟨_, code⟩ := Prod.mk.inj (Option.some.inj (same.symm.trans found))
      rw [← code, made]
      rfl
    have rcv : ((session.lanes 0).thread.step now).rcv = (session.lanes 0).thread.rcv :=
      congrArg Visible.rcv called
    have executions : ((session.lanes 0).thread.step now).executions =
        (session.lanes 0).thread.executions ++ [execution] := congrArg Visible.executions called
    have posted := (congrArg Visible.posted called).trans busy.posted
    refine proper.advance rfl ?_ ?_ ?_ (le_refl _) (le_refl _) fun _ => Or.inl ?_
    · refine ground.of_thread (congrArg Visible.functions called) (by rw [rcv]) (by rw [rcv])
        ((congrArg (fun v => v.send.length) called).trans bounded.output) alert ?_
      rw [called]
      exact Isolated.of_call ground.isolated level own _
    · refine Faithful.of_executions ?_ executions
      exact proper.faithful.call asked.pending busy.executed asked.last runs
    · refine .serving issue region id write (.returned write.completion execution.outSize)
        (asked.of_visible rcv) polling rfl
        ⟨busy.wire, next, ?_, posted, ?_⟩ (fun other here => ?_) received before
      · rw [called]
        exact ⟨placed, _, execution, rfl, level, origin, rfl, rfl⟩
      · rw [executions, List.length_append, busy.executed]
        rfl
      · replace here : ((session.lanes 0).thread.step now).executions[session.returned.length]? =
          some other := here
        rw [executions, ← busy.executed, List.getElem?_concat_length] at here
        rw [← Option.some.inj here]
        exact bounded
    · rw [rank, (due_serving polling received busy.posted busy.wire).1]
      refine Nat.lt_of_le_of_lt (Nat.le_of_eq ?_) (Nat.add_lt_add_left patience 3)
      exact @due_serving _ { session.lanes 0 with thread := (session.lanes 0).thread.step now } _ id
        polling received posted busy.wire |>.1
  · exact absurd missing exists_

theorem Proper.work_returned {outSize : UInt32}
    (busy : LaneAt (session.lanes 0) [] (.returned write.completion outSize) []
      (session.returned.length + 1))
    (bounded : ∀ execution,
      (session.lanes 0).thread.executions[session.returned.length]? = some execution →
        execution.Bounded outBytes region) (now : Int) :
    Advances library inBytes outBytes session (session.work 0 now) (.work 0 now) := by
  have ground := proper.ground
  obtain ⟨placed, earlier, execution, last, answered, origin, size, output⟩ := busy.carries
  obtain ⟨replied, next⟩ := step_returned busy.here now
  have own := own_of_reply placed origin size output
  have level : earlier.length = session.returned.length := by
    have length := busy.executed
    rw [show (session.lanes 0).thread.executions = earlier ++ [execution] from last,
      List.length_append] at length
    exact succ.inj length
  have called : (session.lanes 0).thread.executions[session.returned.length]? =
      some execution := by
    rw [show (session.lanes 0).thread.executions = earlier ++ [execution] from last, ← level,
      List.getElem?_concat_length]
  have rcv : ((session.lanes 0).thread.step now).rcv = (session.lanes 0).thread.rcv :=
    congrArg Visible.rcv replied
  have executions : ((session.lanes 0).thread.step now).executions =
      (session.lanes 0).thread.executions := congrArg Visible.executions replied
  have posted : ((session.lanes 0).thread.step now).posted =
      [(session.lanes 0).thread.reply (Task.ofCompletion write.completion) outSize] :=
    (congrArg Visible.posted replied).trans (by rw [busy.posted]; rfl)
  have few : (session.lanes 0).thread.recvCq.length ≤ wcSize := by
    rw [busy.here.1]
    exact zero_le _
  have alert : ((session.lanes 0).thread.step now).Alert := by
    refine alert_step ground.alert few (fun caller task control => ?_) now
    have returned := busy.here.2
    rw [control] at returned
    exact False.elim returned
  refine proper.advance rfl ?_ ?_ ?_ (le_refl _) (le_refl _) fun _ => Or.inl ?_
  · refine ground.of_thread (congrArg Visible.functions replied) (by rw [rcv]) (by rw [rcv])
      ((congrArg (fun v => v.send.length) replied).trans ground.output) alert ?_
    rw [replied]
    exact Isolated.of_reply ground.isolated last answered own _
  · exact proper.faithful.of_executions executions
  · refine .answered issue region id write execution _ (asked.of_visible rcv) polling
      ⟨busy.wire, next, ?_, posted, ?_⟩ ?_ ⟨?_, own.data, ?_, bounded execution called⟩ received
      before
    · rw [replied]
      show (session.lanes 0).thread.executions.length = (List.append _ _).length
      rw [show (session.lanes 0).thread.executions = earlier ++ [execution] from last,
        List.append_eq, List.length_append, List.length_append, answered]
      rfl
    · rw [executions]
      exact busy.executed
    · show ((session.lanes 0).thread.step now).executions[session.returned.length]? = _
      rw [executions]
      exact called
    · rw [← asked.wrote.header]
      exact own.remote.trans (by rw [origin]; rfl)
    · have immediate := congrArg ntohl own.immediate
      rw [ntohl_htonl, origin] at immediate
      exact immediate
  · rw [rank, (due_serving polling received busy.posted busy.wire).1,
      Control.patience_returned busy.here.2]
    refine Nat.lt_of_le_of_lt (Nat.le_of_eq ?_) (lt_succ_self 3)
    exact @due_answered _ { session.lanes 0 with thread := (session.lanes 0).thread.step now } _ id
      _ _ polling received posted |>.1

end Serving

theorem advances_work (proper : session.Proper library inBytes outBytes)
    (few : library.symbols.length ≤ 2 ^ 15) (small : inBytes < 2 ^ 32) (now : Int) :
    Advances library inBytes outBytes session (session.work 0 now) (.work 0 now) := by
  rcases proper.orderly with ⟨idle, quiet, received, level⟩ |
    ⟨issue, region, id, write, asked, polling, quiet, received, before⟩ |
    ⟨issue, region, id, write, stage, asked, polling, for_, busy, bounded, received, before⟩ |
    ⟨issue, region, id, write, execution, reply, asked, polling, quiet, called, answers, received,
      before⟩ |
    ⟨issue, region, id, write, execution, reply, asked, polling, quiet, called, answers, received,
      after⟩ |
    ⟨issue, region, id, write, execution, asked, draining, quiet, called, bounded, received, after⟩
  · exact proper.work_quiet quiet now (fun lane moved _ => .ready idle moved received level)
      fun waits => absurd idle waits
  · refine proper.work_quiet quiet now (fun lane moved unseen => ?_) fun _ =>
      ⟨_, _, by decide, fun _ lane => due_sent polling received lane.posted lane.wire⟩
    exact .sent issue region id write (asked.of_visible (congrArg Visible.rcv unseen)) polling
      moved received before
  · cases stage with
    | idle => exact False.elim for_
    | queued =>
      obtain rfl := for_
      exact proper.work_queued asked polling received before busy now
    | held =>
      obtain rfl := for_
      exact proper.work_held asked polling received before few small busy now
    | returned =>
      obtain rfl := for_
      exact proper.work_returned asked polling received before busy bounded now
  · refine proper.work_quiet quiet now (fun lane moved unseen => ?_) fun _ =>
      ⟨_, _, by decide, fun _ lane => due_answered polling received lane.posted⟩
    refine .answered issue region id write execution reply
      (asked.of_visible (congrArg Visible.rcv unseen)) polling moved ?_ answers received before
    rw [show lane.thread.executions = _ from congrArg Visible.executions unseen]
    exact called
  · refine proper.work_quiet quiet now (fun lane moved unseen => ?_) fun _ =>
      ⟨_, _, by decide, fun _ _ => due_arrived polling received⟩
    refine .arrived issue region id write execution reply
      (asked.of_visible (congrArg Visible.rcv unseen)) polling moved ?_ answers received after
    rw [show lane.thread.executions = _ from congrArg Visible.executions unseen]
    exact called
  · refine proper.work_quiet quiet now (fun lane moved unseen => ?_) fun _ =>
      ⟨_, _, by decide, fun _ _ => due_drained draining⟩
    refine .drained issue region id write execution
      (asked.of_visible (congrArg Visible.rcv unseen)) draining moved ?_ bounded received after
    rw [show lane.thread.executions = _ from congrArg Visible.executions unseen]
    exact called

/-! ### The reply arrives -/

theorem Answers.length {issue : Issue} {write reply : Write} {execution : Execution}
    (answers : Answers outBytes issue region write execution reply) :
    reply.data.length = execution.outSize.toNat := by
  rw [answers.data, List.length_take, answers.bounded.output]
  exact min_eq_left answers.bounded.size

theorem Answers.deliver {issue : Issue} {write reply : Write} {execution : Execution}
    (answers : Answers outBytes issue region write execution reply)
    (fits : issue.Fits library inBytes outBytes region) :
    deliver issue.memory reply = some (issue.filled region execution) := by
  have room : reply.data.length ≤ region.bytes.length := by
    rw [answers.length]
    exact answers.bounded.room
  have own : reply.remote = region.remote := answers.remote.trans fits.remote.symm
  have known : issue.memory.lookup reply.remote.rkey = some region := by
    rw [answers.remote]
    exact fits.registered
  unfold Session.deliver
  rw [known]
  dsimp only
  rw [Region.place_remote own room, answers.remote, answers.data]
  rfl

theorem advances_answer (proper : session.Proper library inBytes outBytes) :
    Advances library inBytes outBytes session (session.answer 0) (.answer 0) := by
  have stays : (session.lanes 0).thread.posted = [] →
      Advances library inBytes outBytes session (session.answer 0) (.answer 0) := by
    intro posted
    rw [answer_of_nil posted]
    exact Advances.stutter proper fun _ turn => helper_ne_inbound posted (Option.some.inj turn).symm
  have ground := proper.ground
  rcases proper.orderly with ⟨_, quiet, _, _⟩ | ⟨_, _, _, _, _, _, quiet, _, _⟩ |
    ⟨_, _, _, _, _, _, _, _, busy, _, _, _⟩ |
    ⟨issue, region, id, write, execution, reply, asked, polling, quiet, called, answers, received,
      before⟩ |
    ⟨_, _, _, _, _, _, _, _, quiet, _, _, _, _⟩ | ⟨_, _, _, _, _, _, _, quiet, _, _, _, _⟩
  · exact stays quiet.posted
  · exact stays quiet.posted
  · exact stays busy.posted
  · rw [answer_of_cons quiet.posted (by rw [before]; exact answers.deliver asked.fits)]
    refine proper.advance rfl ?_ proper.faithful ?_ (le_refl _) (le_refl _)
      fun _ => Or.inl ?_
    · exact { ground with isolated := ⟨ground.isolated.executions, ground.isolated.replies⟩ }
    · exact .arrived issue region id write execution reply
        ⟨asked.pending, asked.last, asked.fits, asked.wrote⟩ polling
        ⟨quiet.wire, quiet.here, quiet.carries, rfl, quiet.executed⟩ called answers
        (by rw [received]; rfl) rfl
    · rw [rank, (due_answered polling received quiet.posted).1]
      refine Nat.lt_of_le_of_lt (Nat.le_of_eq ?_) (lt_succ_self 2)
      exact (due_arrived polling (by rw [received]; rfl)).1
  · exact stays quiet.posted
  · exact stays quiet.posted

end Session

end RFaaS
