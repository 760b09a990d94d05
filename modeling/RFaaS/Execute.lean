/-
This file follows synchronous invocations from the call of `execute` to its
return. No event leads out of the phases of a session of synchronous calls,
each call is executed once and on its own data, and it returns when every party
keeps running.
-/

import RFaaS.Phases

namespace RFaaS

open Client FastExecutor Transition List Nat

namespace Session

variable {library : Library} {inBytes outBytes : Nat} {session : Session}

/-! ### The client polls -/

theorem Faithful.issue {issued : List Issue} {executions : List Execution}
    {returned : List Returned} (faithful : Faithful library issued executions returned)
    (called : executions.length = returned.length) {issue : Issue}
    (pending : (issued ++ [issue]).length = returned.length + 1) :
    Faithful library (issued ++ [issue]) executions returned := by
  have level : issued.length = returned.length := by
    rw [length_append] at pending
    exact succ.inj pending
  have earlier : ∀ (index : Nat) (execution : Execution), executions[index]? = some execution →
      (issued ++ [issue])[index]? = issued[index]? := by
    intro index execution made
    have inside := (List.getElem?_eq_some_iff.mp made).1
    exact List.getElem?_append_left (by rw [level, ← called]; exact inside)
  refine ⟨?_, faithful.answered, le_of_eq pending, fun index other execution asked made => ?_,
    fun index other execution result asked made => ?_⟩
  · rw [pending, called]
    exact le_succ _
  · rw [earlier index execution made] at asked
    exact faithful.runs index other execution asked made
  · rw [earlier index execution made] at asked
    exact faithful.returns index other execution result asked made

theorem Faithful.answer {issued : List Issue} {executions : List Execution}
    {returned : List Returned} (faithful : Faithful library issued executions returned)
    (pending : issued.length = returned.length + 1)
    (called : executions.length = returned.length + 1) {issue : Issue} {execution : Execution}
    (last : issued[returned.length]? = some issue)
    (current : executions[returned.length]? = some execution) {result : Returned}
    (returns : issue.ReturnsAs execution result) :
    Faithful library issued executions (returned ++ [result]) := by
  have length : (returned ++ [result]).length = returned.length + 1 := length_append
  refine ⟨faithful.executed, ?_, ?_, faithful.runs,
    fun index other another found asked made answered => ?_⟩
  · rw [length, called]
  · rw [length, pending]
    exact le_succ _
  · rcases lt_trichotomy index returned.length with before | same | beyond
    · rw [List.getElem?_append_left before] at answered
      exact faithful.returns index other another found asked made answered
    · rw [same, getElem?_concat_length] at answered
      rw [same, last] at asked
      rw [same, current] at made
      rw [← Option.some.inj answered, ← Option.some.inj asked, ← Option.some.inj made]
      exact returns
    · rw [getElem?_eq_none (by rw [length]; exact beyond)] at answered
      cases answered

theorem advances_poll (proper : session.Proper library inBytes outBytes)
    (few : library.symbols.length ≤ 2 ^ 15) (small : outBytes < 2 ^ 31) :
    Advances library inBytes outBytes session session.poll .poll := by
  have ground := proper.ground
  have lanes : session.lanes = Function.update session.lanes 0 (session.lanes 0) :=
    (Function.update_eq_self 0 session.lanes).symm
  have silent : ∀ {id : BitVec 32}, session.waiting = .polling id → session.recvCq = [] →
      session.turn ≠ .client → Advances library inBytes outBytes session session.poll .poll := by
    intro id polling received other
    rw [poll_of_nil polling received]
    exact Advances.stutter proper fun _ turn => other (Option.some.inj turn).symm
  rcases proper.orderly with ⟨idle, _, _, _⟩ |
    ⟨_, _, _, _, _, polling, quiet, received, _⟩ |
    ⟨_, _, _, _, _, _, polling, _, busy, _, received, _⟩ |
    ⟨_, _, _, _, _, _, _, polling, quiet, _, _, received, _⟩ |
    ⟨issue, region, id, write, execution, reply, asked, polling, quiet, called, answers, received,
      after⟩ |
    ⟨issue, region, id, write, execution, asked, draining, quiet, called, bounded, received, after⟩
  · rw [poll_of_idle idle]
    exact Advances.stutter proper fun waits => absurd idle waits
  · refine silent polling received ?_
    rw [turn, (due_sent polling received quiet.posted quiet.wire).2]
    decide
  · refine silent polling received ?_
    rw [turn, (due_serving polling received busy.posted busy.wire).2]
    decide
  · refine silent polling received ?_
    rw [turn, (due_answered polling received quiet.posted).2]
    decide
  · have own : Immediate.finishedInvocId (ntohl reply.completion.immData) = id := by
      rw [show ntohl reply.completion.immData = _ from answers.immediate]
      exact asked.wrote.reply few
    have zero : Immediate.returnVal (ntohl reply.completion.immData) = 0#32 := by
      rw [show ntohl reply.completion.immData = _ from answers.immediate]
      exact Immediate.returnVal_reply _
    have size : reply.completion.byteLen = execution.outSize := by
      show UInt32.ofNat reply.data.length = _
      rw [answers.length, UInt32.ofNat_toNat]
    rw [poll_of_found polling received own, zero, size]
    refine proper.advance lanes ground proper.faithful ?_ (Nat.le_refl _) (Nat.le_refl _)
      fun _ => Or.inl ?_
    · exact .drained issue region id write execution asked rfl quiet called answers.bounded rfl
        after
    · rw [rank, (due_arrived polling received).1]
      exact lt_succ_self 1
  · have value : outcome 0#32 execution.outSize = (true, (execution.outSize.toNat : Int)) := by
      have bound : 2 * execution.outSize.toBitVec.toNat < 2 ^ 32 := by
        have fits := bounded.size
        show 2 * execution.outSize.toNat < 2 ^ 32
        omega
      rw [outcome, if_pos rfl, BitVec.toInt_eq_toNat_of_lt bound]
      rfl
    have complete : (execution.output.take execution.outSize.toNat).length =
        execution.outSize.toNat := by
      rw [length_take, bounded.output]
      exact min_eq_left bounded.size
    have level : session.issued.length = (session.returned ++
        [(⟨outcome 0#32 execution.outSize, session.memory⟩ : Returned)]).length := by
      rw [asked.pending, length_append]
      rfl
    rw [poll_of_draining draining received]
    refine proper.advance lanes ground ?_ ?_ (Nat.le_refl _) ?_ fun _ => Or.inl ?_
    · refine proper.faithful.answer asked.pending quiet.executed asked.last called ⟨value, complete,
        region, asked.fits.registered, asked.fits.remote, after⟩
    · refine .ready rfl ⟨quiet.wire, quiet.here, quiet.carries, quiet.posted, ?_⟩ received level
      rw [quiet.executed, ← asked.pending]
      exact level
    · rw [length_append]
      exact le_succ _
    · rw [rank, (due_drained draining).1]
      exact one_pos

/-! ### The client calls -/

theorem Ground.execute {executor : Client.Executor} {thread : Thread}
    (ground : Ground library inBytes outBytes executor thread) (issue : Issue)
    (known : issue.fname ∈ library.symbols) :
    ∃ funcIdx write next, executor.findFunction issue.fname = some funcIdx ∧
      executor.execute issue.fname issue.input issue.out = (next, [⟨0, write⟩]) ∧
      Ground library inBytes outBytes next thread ∧
      issue.Wrote library thread.rcv.remote next.invocId write := by
  have member : issue.fname ∈ executor.funcNames := by
    rw [ground.names, extractSymbols]
    exact (mem_insertionSort _).mpr known
  obtain ⟨index, named, found⟩ := Client.Executor.findFunction_of_mem member
  have small := Client.Executor.advance_invocId_lt ground.counted
  let immediate := Immediate.submission executor.advance.invocId (BitVec.ofNat 32 index)
  obtain ⟨inlined, posted⟩ := Client.Executor.post_of_connection ground.connected issue.input
    issue.out immediate false
  rw [ground.names] at named
  refine ⟨BitVec.ofNat 32 index,
    postWrite (Submission.stamp issue.input issue.out) thread.rcv.remote immediate inlined false,
    { executor.advance with calls := executor.calls + 1 }, found, ?_, ?_,
    ⟨rfl, rfl, ⟨index, named, ?_⟩, small⟩⟩
  · rw [Client.Executor.execute, Client.Executor.invoke, found]
    exact congrArg (Prod.mk _) posted
  · exact { ground with counted := small }
  · exact ntohl_htonl _

/-- A client that waits for nothing is between two calls. -/
theorem Orderly.ready_of_idle {waiting : Waiting} {lane : Lane} {memory : Table UInt32 Region}
    {recvCq : List WorkCompletion} {issued : List Issue} {returned : List Returned}
    (orderly : Orderly library inBytes outBytes waiting lane memory recvCq issued returned)
    (idle : waiting = .idle) :
    LaneAt lane [] .idle [] returned.length ∧ recvCq = [] ∧ issued.length = returned.length := by
  cases orderly with
  | ready _ quiet received level => exact ⟨quiet, received, level⟩
  | sent _ _ _ _ _ polling | serving _ _ _ _ _ _ polling | answered _ _ _ _ _ _ _ polling
  | arrived _ _ _ _ _ _ _ polling =>
    rw [polling] at idle
    cases idle
  | drained _ _ _ _ _ _ draining =>
    rw [draining] at idle
    cases idle

theorem advances_call (proper : session.Proper library inBytes outBytes) {call : Call}
    (allowed : Synchronous library inBytes outBytes session (.call call)) :
    Advances library inBytes outBytes session (session.makeCall call) (.call call) := by
  by_cases idle : session.waiting = .idle
  · cases call with
    | execute fname input out =>
      obtain ⟨region, fits⟩ := allowed idle
      obtain ⟨quiet, received, level⟩ := proper.orderly.ready_of_idle idle
      let issue : Issue := ⟨fname, input, out, session.memory⟩
      obtain ⟨funcIdx, write, next, found, executed, ground, wrote⟩ :=
        proper.ground.execute issue fits.known
      have length : (session.issued ++ [issue]).length = session.returned.length + 1 := by
        rw [length_append, level]
        rfl
      rw [makeCall_execute idle found]
      dsimp only [issue] at executed
      rw [executed]
      refine proper.advance (wired_singleton _ _ _) ground ?_ ?_ ?_ (Nat.le_refl _)
        fun waits => absurd idle waits
      · exact proper.faithful.issue quiet.executed length
      · exact .sent issue region next.invocId write
          ⟨length, by rw [← level, getElem?_concat_length], fits, wrote⟩ rfl
          ⟨by rw [quiet.wire]; rfl, quiet.here, quiet.carries, quiet.posted, quiet.executed⟩
          received rfl
      · rw [length_append]
        exact le_add_right _ _
    | _ => exact absurd allowed id
  · rw [makeCall_of_waiting idle]
    exact Advances.nobody proper rfl

theorem advances_step (proper : session.Proper library inBytes outBytes)
    (few : library.symbols.length ≤ 2 ^ 15) (input : inBytes < 2 ^ 32) (output : outBytes < 2 ^ 31)
    {event : Event} (allowed : Synchronous library inBytes outBytes session event) :
    Advances library inBytes outBytes session (session.step event) event := by
  cases event with
  | call call => exact advances_call proper allowed
  | land connection =>
    by_cases here : connection = 0
    · subst here
      exact advances_land proper
    · exact advances_land_elsewhere proper here
  | work connection now =>
    by_cases here : connection = 0
    · subst here
      exact advances_work proper few input now
    · exact advances_work_elsewhere proper here now
  | answer connection =>
    by_cases here : connection = 0
    · subst here
      exact advances_answer proper
    · exact advances_answer_elsewhere proper here
  | poll => exact advances_poll proper few output
  | _ => exact absurd allowed id

/-! ### Whole runs -/

theorem proper_start (library : Library) (maxInlineData : Int) {numcores : Nat}
    (cores : 0 < numcores) (workers : Nat → Worker) (memory : Table UInt32 Region) :
    (start library maxInlineData numcores workers memory).Proper library
      (workers 0).rcv.bytes.length (workers 0).outSize := by
  have quiet : ∀ connection, LaneAt
      ((start library maxInlineData numcores workers memory).lanes connection) [] .idle [] 0 :=
    fun connection => ⟨rfl, Thread.at_idle_begin _ _ _ _ _, rfl, rfl, rfl⟩
  have connected : ((range numcores).map fun connection =>
      (workers connection).rcv.remote)[0]? = some (workers 0).rcv.remote := by
    rw [getElem?_map, getElem?_range cores]
    rfl
  refine ⟨⟨rfl, Nat.two_pow_pos 16, connected, rfl, rfl, length_replicate,
    Thread.alert_begin _ _ _ _ _, fun _ member => (nomatch member),
    fun _ _ _ called _ => (nomatch called)⟩, ?_, ?_, fun connection _ => quiet connection⟩
  · exact ⟨Nat.le_refl _, Nat.le_refl _, Nat.zero_le _, fun _ _ _ asked _ => (nomatch asked),
      fun _ _ _ _ asked _ _ => (nomatch asked)⟩
  · exact .ready rfl (quiet 0) rfl rfl

/-- As long as a call waits, a move is due, and at most eleven of them. -/
theorem Proper.rank_pos (proper : session.Proper library inBytes outBytes)
    (pending : session.returned.length < session.issued.length) :
    session.waiting ≠ .idle ∧ 0 < session.rank := by
  have waits : ∀ {moves : Nat}, session.rank = moves → 0 < moves →
      session.waiting ≠ .idle ∧ 0 < session.rank := by
    intro moves same positive
    refine ⟨fun idle => ?_, by rw [same]; exact positive⟩
    rw [rank, idle] at same
    exact absurd same.symm (ne_of_gt positive)
  rcases proper.orderly with ⟨_, _, _, level⟩ | ⟨_, _, _, _, _, polling, quiet, received, _⟩ |
    ⟨_, _, _, _, _, _, polling, _, busy, _, received, _⟩ |
    ⟨_, _, _, _, _, _, _, polling, quiet, _, _, received, _⟩ |
    ⟨_, _, _, _, _, _, _, polling, _, _, _, received, _⟩ |
    ⟨_, _, _, _, _, _, draining, _, _, _, _, _⟩
  · exact absurd level (ne_of_gt pending)
  · exact waits (due_sent polling received quiet.posted quiet.wire).1 (by decide)
  · exact waits (due_serving polling received busy.posted busy.wire).1
      (lt_of_lt_of_le (by decide) (le_add_right 3 _))
  · exact waits (due_answered polling received quiet.posted).1 (by decide)
  · exact waits (due_arrived polling received).1 (by decide)
  · exact waits (due_drained draining).1 (by decide)

theorem rank_le (session : Session) : session.rank ≤ 11 := by
  unfold rank due
  have bound := Control.patience_le (session.lanes 0).thread.control
  split
  · decide
  · split
    · decide
    · split
      · decide
      · split
        · exact Nat.le_refl 11
        · omega
  · decide

/-- The moves that are left until the call with this number has returned. -/
def left (call : Nat) (session : Session) : Nat :=
  if call < session.returned.length then 0 else session.rank

theorem ranked_left (few : library.symbols.length ≤ 2 ^ 15) (input : inBytes < 2 ^ 32)
    (output : outBytes < 2 ^ 31) (call : Nat) :
    Ranked step
      (fun session => session.Proper library inBytes outBytes ∧ call < session.issued.length)
      (Synchronous library inBytes outBytes) (left call) turn party := by
  refine ⟨fun session event kept allowed => ?_, fun session event kept allowed => ?_⟩
  · have advances := advances_step kept.1 few input output allowed
    exact ⟨advances.proper, lt_of_lt_of_le kept.2 advances.issued⟩
  · have advances := advances_step kept.1 few input output allowed
    by_cases done : call < session.returned.length
    · have still := lt_of_lt_of_le done advances.returned
      exact Or.inr ⟨by rw [left, left, if_pos done, if_pos still], fun positive =>
        absurd positive (by rw [left, if_pos done]; exact Nat.lt_irrefl 0)⟩
    · obtain ⟨waits, positive⟩ :=
        kept.1.rank_pos (Nat.lt_of_le_of_lt (Nat.le_of_not_lt done) kept.2)
      rw [left, left, if_neg done]
      by_cases answered : call < (session.step event).returned.length
      · rw [if_pos answered]
        exact Or.inl positive
      · rw [if_neg answered]
        rcases advances.falls waits with fewer | ⟨same, unchanged, other⟩
        · exact Or.inl fewer
        · exact Or.inr ⟨same, fun _ => ⟨unchanged, other⟩⟩

/-- A round of a schedule in which the network, the worker and the client all take part. -/
structure Fair (round : List Event) : Prop where
  outbound : .land 0 ∈ round
  worker : ∃ now, .work 0 now ∈ round
  inbound : .answer 0 ∈ round
  client : .poll ∈ round

theorem Fair.takesPart {round : List Event} (fair : Fair round) (member : Party) :
    ∃ event ∈ round, party event = some member := by
  cases member with
  | outbound => exact ⟨_, fair.outbound, rfl⟩
  | worker =>
    obtain ⟨now, worked⟩ := fair.worker
    exact ⟨_, worked, rfl⟩
  | inbound => exact ⟨_, fair.inbound, rfl⟩
  | client => exact ⟨_, fair.client, rfl⟩

/-- Every call returns within eleven rounds in which all parties take part. -/
theorem Proper.returns (proper : session.Proper library inBytes outBytes)
    (few : library.symbols.length ≤ 2 ^ 15) (input : inBytes < 2 ^ 32) (output : outBytes < 2 ^ 31)
    {rounds : List (List Event)}
    (along : Along step (Synchronous library inBytes outBytes) session rounds.flatten)
    (fair : ∀ round ∈ rounds, Fair round) (enough : 11 ≤ rounds.length) :
    session.issued.length ≤ (run step session rounds.flatten).returned.length := by
  rcases Nat.eq_zero_or_pos session.issued.length with none_ | some_
  · rw [none_]
    exact Nat.zero_le _
  · let call := session.issued.length - 1
    have asked : call < session.issued.length := sub_lt some_ one_pos
    have ranked := ranked_left few input output call
    have bound := ranked.run_rounds ⟨proper, asked⟩ along fun round member =>
      (fair round member).takesPart
    obtain ⟨kept, still⟩ := run_invariant ranked.preserved ⟨proper, asked⟩ along
    have initially : left call session ≤ 11 := by
      unfold left
      split
      · exact Nat.zero_le 11
      · exact rank_le session
    have returned : call < (run step session rounds.flatten).returned.length := by
      by_contra waits
      have positive := (kept.rank_pos (Nat.lt_of_le_of_lt (Nat.le_of_not_lt waits) still)).2
      rw [left, if_neg waits] at bound
      omega
    omega

/-- End-to-end correctness of synchronous invocation, for sessions of any length. The worker
makes one call of a function per `execute`, in order, of the function that the call names, on its
payload and with the length of its payload; each `execute` that has returned has returned the
number of bytes of the result, which are in its output buffer; and every `execute` returns when
all parties keep running. -/
theorem execute_correct (library : Library) (few : library.symbols.length ≤ 2 ^ 15)
    (maxInlineData : Int) (numcores : Nat) (cores : 0 < numcores) (workers : Nat → Worker)
    (input : (workers 0).rcv.bytes.length < 2 ^ 32) (output : (workers 0).outSize < 2 ^ 31)
    (memory : Table UInt32 Region) (events : List Event)
    (along : Along step
      (Synchronous library (workers 0).rcv.bytes.length (workers 0).outSize)
      (start library maxInlineData numcores workers memory) events) :
    let session :=
      run step (start library maxInlineData numcores workers memory) events
    Faithful library session.issued (session.lanes 0).thread.executions session.returned ∧
      (∀ connection, connection ≠ 0 → (session.lanes connection).thread.executions = []) ∧
      ∀ rounds : List (List Event),
        Along step
          (Synchronous library (workers 0).rcv.bytes.length (workers 0).outSize) session
          rounds.flatten →
        (∀ round ∈ rounds, Fair round) → 11 ≤ rounds.length →
        session.issued.length ≤
          (run step session rounds.flatten).returned.length := by
  intro session
  have proper : session.Proper library (workers 0).rcv.bytes.length (workers 0).outSize :=
    @run_invariant _ _ _ (Proper library _ _) _
      (fun _ _ kept allowed => (advances_step kept few input output allowed).proper) _ _
      (proper_start library maxInlineData cores workers memory) along
  exact ⟨proper.faithful,
    fun connection other => length_eq_zero_iff.mp (proper.others connection other).executed,
    fun _ goesOn fair enough => proper.returns few input output goesOn fair enough⟩

theorem fits_echo {memory : Table UInt32 Region} (region : Region) (byte : UInt8)
    (registered : memory.lookup region.rkey = some region) (room : region.bytes.length = 4) :
    Issue.Fits echo 16 4 ⟨"echo", inputOf byte, region.remote, memory⟩ region := by
  refine ⟨mem_singleton_self _, le_succ 12, by show 13 ≤ 16; decide, registered, rfl,
    fun stale send length => ?_⟩
  refine ⟨?_, by show 1 ≤ 4; decide, by rw [room]; show 1 ≤ 4; decide⟩
  show (Bytes.store send 0 _).length = 4
  rw [Bytes.length_store (by rw [length]; show 0 + 1 ≤ 4; decide), length]

/-- An `execute` and eleven rounds, and then another one and eleven rounds. -/
theorem echo_returns :
    let rounds := replicate 11 [Event.land 0, .work 0 0, .answer 0, .poll]
    let session := run step (start echo 0 1 (fun _ => hotWorker) outputs)
      (.call (.execute "echo" (inputOf 7) ⟨64, 1⟩) :: rounds.flatten ++
        [.call (.execute "echo" (inputOf 8) ⟨128, 2⟩)])
    session.issued.length = 2 ∧ session.returned.length = 1 ∧
      session.issued.length ≤ (run step session rounds.flatten).returned.length := by
  intro rounds session
  have goesOn : ∀ session, Along step (Synchronous echo 16 4) session rounds.flatten := by
    refine along_of_forall fun event member session => ?_
    obtain ⟨round, same, inRound⟩ := mem_flatten.mp member
    rw [eq_of_mem_replicate same] at inRound
    simp only [mem_cons, not_mem_nil, or_false] at inRound
    rcases inRound with rfl | rfl | rfl | rfl <;> trivial
  refine ⟨by decide +kernel, by decide +kernel, (execute_correct echo (by decide) 0 1 one_pos
    (fun _ => hotWorker) (by decide) (by decide) outputs _ ?_).2.2 rounds (goesOn _)
    (fun round member => ?_) (by decide)⟩
  · refine ⟨fun _ => ⟨_, fits_echo ⟨64, 1, replicate 4 0⟩ 7 rfl rfl⟩,
      along_append.mpr ⟨goesOn _, ?_, trivial⟩⟩
    -- the reply of the first call has not touched the buffer of the second
    exact fun _ => ⟨_, fits_echo ⟨128, 2, replicate 4 0⟩ 8 (by decide +kernel) rfl⟩
  · rw [eq_of_mem_replicate member]
    exact ⟨by simp, ⟨0, by simp⟩, by simp, by simp⟩

end Session

end RFaaS
