/-
This file is about invocations with tagged callbacks (`async_callback` with a
tag and `poll_queue_once2`). The replies of all connections arrive in one
completion queue, in any order. The client takes them in batches and walks each
batch; a callback that it calls on the way may issue further invocations. The
entries of `_callbacks2` are never erased: an id that is used again overwrites
the entry that was made for it before.

As long as no invocation waits for its callback for 65535 calls, every reply
finds the entry of its own invocation, and the callbacks are called once each,
in the order of the replies.
-/

import RFaaS.InvocationId

namespace RFaaS.Client

open Immediate List Client.Executor

/-- A reply in the completion queue. The first field is a ghost: the invocation it answers. -/
structure Answer where
  invocation : Invocation
  completion : WorkCompletion

/-- A call of a callback: the invocation whose reply has led to it, and the entry it was called
from. -/
structure Firing where
  invocation : Invocation
  entry : TaggedCallback

/-- A client between its calls. `inFlight` are the invocations without a reply, `batch` is what
`poll_queue_once2` has still to walk, and `fault` tells that it has dereferenced the end of the
map. The last three fields are ghosts: what was issued, answered and called back so far. -/
structure CallbackLoop where
  executor : Executor
  inFlight : List Invocation
  recvCq : List Answer
  batch : List Answer
  fault : Bool
  issued : List Invocation
  answered : List Invocation
  fired : List Firing

namespace CallbackLoop

open Transition

inductive Event
  /-- A call of `async_callback`, from a callback or not. -/
  | call (fname : String) (input : List UInt8) (out : RemoteBuffer) (para callback : Nat)
      (size : Int)
  /-- A worker replies to an invocation with some data. -/
  | answer (index : Nat) (data : List UInt8)
  /-- The poll at the beginning of `poll_queue_once2`. -/
  | poll (cid : Nat)
  /-- One round of its loop. -/
  | walk

def start (maxInlineData : Int) (symbols : List String) (connections : List RemoteBuffer) :
    CallbackLoop where
  executor := allocated maxInlineData symbols connections
  inFlight := []
  recvCq := []
  batch := []
  fault := false
  issued := []
  answered := []
  fired := []

/-- `async_callback` with a tag. -/
def makeCall (loop : CallbackLoop) (call : Call) : CallbackLoop :=
  if (loop.executor.issue call).2 = [] then
    { loop with executor := (loop.executor.issue call).1 }
  else
    { loop with
      executor := (loop.executor.issue call).1
      inFlight := loop.inFlight ++ [Traffic.issued loop.executor call]
      issued := loop.issued ++ [Traffic.issued loop.executor call] }

/-- The reply that a worker posts for a submission. -/
def replyTo (write : Write) (data : List UInt8) : Write :=
  postWrite data (Submission.header write.data)
    (reply (invocId (ntohl write.immData))) false
    (solicited (ntohl write.immData))

theorem ntohl_replyTo (write : Write) (data : List UInt8) :
    ntohl (replyTo write data).completion.immData = reply (invocId (ntohl write.immData)) :=
  ntohl_htonl _

/-- A reply arrives. -/
def answer (loop : CallbackLoop) (index : Nat) (data : List UInt8) : CallbackLoop :=
  match loop.inFlight[index]? with
  | none => loop
  | some invocation =>
    match invocation.writes with
    | [] => loop
    | write :: _ =>
      { loop with
        inFlight := loop.inFlight.eraseIdx index
        recvCq := loop.recvCq ++ [⟨invocation, (replyTo write data).completion⟩]
        answered := loop.answered ++ [invocation] }

/-- A poll takes what is there, up to the size of a batch. It does not matter on which
connection: they share their completion queue. -/
def poll (loop : CallbackLoop) (_cid : Nat) : CallbackLoop :=
  if loop.batch = [] then
    { loop with batch := loop.recvCq.take wcSize, recvCq := loop.recvCq.drop wcSize }
  else loop

/-- The next reply of the batch. -/
def walk (loop : CallbackLoop) : CallbackLoop :=
  match loop.batch with
  | [] => loop
  | answer :: rest =>
    match loop.executor.fireCallback2 (ntohl answer.completion.immData) with
    | none => { loop with batch := rest, fault := true }
    | some (executor, called) =>
      { loop with
        executor := executor
        batch := rest
        fired := loop.fired ++ called.toList.map fun entry => ⟨answer.invocation, entry⟩ }

def step (loop : CallbackLoop) : Event → CallbackLoop
  | .call fname input out para callback size =>
    loop.makeCall (.asyncCallback2 fname input out para callback size)
  | .answer index data => loop.answer index data
  | .poll cid => loop.poll cid
  | .walk => loop.walk

/-- The invocations whose callback was not called. -/
def outstanding (loop : CallbackLoop) : List Invocation :=
  (loop.batch ++ loop.recvCq).map Answer.invocation ++ loop.inFlight

/-- At every call the tag is the index of a connection, and the oldest outstanding invocation was
issued fewer than 65535 calls earlier. -/
def Recent (loop : CallbackLoop) : Event → Prop
  | .call fname _ _ para _ _ => loop.executor.findFunction fname ≠ none →
    para < loop.executor.connections.length ∧
      ∀ invocation ∈ loop.outstanding, loop.executor.calls < invocation.serial + 65535
  | _ => True

/-- Every reply has found an entry, every callback was called from the entry that its own call
has made, callbacks are called once for each reply and in the order of the replies, and every
invocation is answered at most once. -/
structure Complete (loop : CallbackLoop) : Prop where
  found : loop.fault = false
  own : ∀ firing ∈ loop.fired, firing.entry.serial = firing.invocation.serial ∧
    firing.invocation.listener =
      .callback2 firing.entry.callback firing.entry.out firing.entry.tag
  inOrder : loop.answered =
    loop.fired.map Firing.invocation ++ (loop.batch ++ loop.recvCq).map Answer.invocation
  once : (loop.answered ++ loop.inFlight).Perm loop.issued
  numbered : loop.issued.map Invocation.serial = range loop.executor.calls

/-! ### The invariant -/

/-- The write of an invocation carries its id. -/
def Submitted (invocation : Invocation) : Prop :=
  ∃ write funcIdx, invocation.writes = [write] ∧ funcIdx.toNat < 2 ^ 16 ∧
    ntohl write.immData = solicitedSubmission invocation.id funcIdx

/-- The entry of an invocation waits for its reply. -/
structure Awaited (executor : Executor) (invocation : Invocation) : Prop where
  tracked : Traffic.Tracked executor invocation
  late : invocation.early = false
  small : invocation.id.toNat < 2 ^ 16
  entry : ∃ callback out para, invocation.listener = .callback2 callback out para ∧
    executor.callbacks2.lookup invocation.id =
      some ⟨⟨1, callback, out, invocation.serial⟩, para⟩

/-- What holds all along a run. -/
structure Proper (loop : CallbackLoop) : Prop where
  few : loop.executor.funcNames.length ≤ 2 ^ 16
  counted : loop.executor.invocId.toNat < 2 ^ 16
  distinct : (loop.outstanding.map Invocation.id).Nodup
  awaited : ∀ invocation ∈ loop.outstanding, Awaited loop.executor invocation
  submitted : ∀ invocation ∈ loop.inFlight, Submitted invocation
  decoded : ∀ answer ∈ loop.batch ++ loop.recvCq,
    finishedInvocId (ntohl answer.completion.immData) = answer.invocation.id
  complete : loop.Complete

variable {loop : CallbackLoop}

/-! ### A call -/

theorem toNat_funcIdx {executor : Executor} {fname : String} {funcIdx : BitVec 32}
    (few : executor.funcNames.length ≤ 2 ^ 16)
    (found : executor.findFunction fname = some funcIdx) : funcIdx.toNat < 2 ^ 16 := by
  obtain ⟨index, inside, rfl⟩ := Option.map_eq_some_iff.mp found
  obtain ⟨bound, _⟩ := findIdx?_eq_some_iff_getElem.mp inside
  rw [BitVec.toNat_ofNat]
  omega

section Call

variable {executor : Executor} {fname : String} {input : List UInt8} {out : RemoteBuffer}
  {para callback : Nat} {size : Int}

theorem posted_issue {funcIdx : BitVec 32} (index : executor.findFunction fname = some funcIdx)
    (known : para < executor.connections.length) :
    ∃ write, (executor.issue (.asyncCallback2 fname input out para callback size)).2 =
        [⟨para, write⟩] ∧
      ntohl write.immData = solicitedSubmission executor.advance.invocId funcIdx := by
  obtain ⟨write, posted, carries⟩ := post_cases
    (getElem?_eq_getElem known) input out size
    (solicitedSubmission executor.advance.invocId funcIdx) true
  refine ⟨write, ?_, carries⟩
  show (executor.invoke _ _ _).2 = _
  unfold invoke
  rw [index]
  exact posted

theorem submitted_issued (few : executor.funcNames.length ≤ 2 ^ 16)
    (found : executor.findFunction fname ≠ none) (known : para < executor.connections.length) :
    (executor.issue (.asyncCallback2 fname input out para callback size)).2 ≠ [] ∧
      Submitted (Traffic.issued executor (.asyncCallback2 fname input out para callback size)) := by
  obtain ⟨funcIdx, index⟩ := Option.ne_none_iff_exists'.mp found
  obtain ⟨write, posted, carries⟩ :=
    @posted_issue executor fname input out para callback size funcIdx index known
  exact ⟨by rw [posted]; exact cons_ne_nil _ _, write, funcIdx, Traffic.writes_issued posted,
    toNat_funcIdx few index, carries⟩

/-- A call of this kind takes an id that no recent invocation of this kind has. -/
theorem Awaited.fresh {invocation : Invocation} (awaited : Awaited executor invocation)
    (recent : executor.calls < invocation.serial + 65535) (call : Call)
    (late : call.early = false) : invocation.id ≠ call.id executor := by
  intro same
  have clash : Traffic.Clash executor invocation call :=
    (Traffic.clash_iff awaited.tracked recent).mp (congrArg (BitVec.setWidth 16) same)
  rw [Traffic.Clash, late, if_neg Bool.false_ne_true, awaited.late] at clash
  exact Bool.false_ne_true clash.1

theorem callbacks2_issue (found : executor.findFunction fname ≠ none) :
    (executor.issue (.asyncCallback2 fname input out para callback size)).1.callbacks2 =
      executor.callbacks2.insert executor.advance.invocId
        ⟨⟨1, callback, out, executor.calls⟩, para⟩ := by
  rw [Traffic.issue_found found]
  rfl

theorem Awaited.issue {invocation : Invocation} (awaited : Awaited executor invocation)
    (found : executor.findFunction fname ≠ none)
    (recent : executor.calls < invocation.serial + 65535) :
    Awaited (executor.issue (.asyncCallback2 fname input out para callback size)).1
      invocation := by
  obtain ⟨own, place, tag, listener, entry⟩ := awaited.entry
  refine ⟨awaited.tracked.issue found recent, awaited.late, awaited.small, own, place, tag,
    listener, ?_⟩
  have other : invocation.id ≠ executor.advance.invocId :=
    awaited.fresh recent (.asyncCallback2 fname input out para callback size) rfl
  rw [callbacks2_issue found, AList.lookup_insert_ne other]
  exact entry

theorem awaited_issued (counted : executor.invocId.toNat < 2 ^ 16)
    (found : executor.findFunction fname ≠ none) :
    Awaited (executor.issue (.asyncCallback2 fname input out para callback size)).1
      (Traffic.issued executor (.asyncCallback2 fname input out para callback size)) := by
  refine ⟨Traffic.tracked_issued found, rfl, advance_invocId_lt counted, callback, out,
    para, rfl, ?_⟩
  rw [callbacks2_issue found]
  exact AList.lookup_insert _

end Call

theorem Proper.makeCall (proper : loop.Proper) {fname : String} {input : List UInt8}
    {out : RemoteBuffer} {para callback : Nat} {size : Int}
    (recent : loop.Recent (.call fname input out para callback size)) :
    (loop.makeCall (.asyncCallback2 fname input out para callback size)).Proper := by
  unfold CallbackLoop.makeCall
  by_cases missing : loop.executor.findFunction fname = none
  · rw [Traffic.issue_missing missing]
    exact proper
  · obtain ⟨known, young⟩ := recent missing
    obtain ⟨posts, submitted⟩ := @submitted_issued loop.executor fname input out para callback size
      proper.few missing known
    have complete := proper.complete
    have extended : (loop.batch ++ loop.recvCq).map Answer.invocation ++ (loop.inFlight ++
        [Traffic.issued loop.executor (.asyncCallback2 fname input out para callback size)]) =
        loop.outstanding.concat
          (Traffic.issued loop.executor (.asyncCallback2 fname input out para callback size)) := by
      rw [outstanding, concat_eq_append, append_assoc]
    rw [if_neg posts]
    refine ⟨?_, ?_, ?_, fun invocation member => ?_, ?_, proper.decoded, ?_⟩
    · rw [Traffic.issue_found missing]
      exact proper.few
    · rw [Traffic.issue_found missing]
      exact advance_invocId_lt proper.counted
    · show (map Invocation.id (_ ++ (_ ++ [_]))).Nodup
      rw [extended, map_concat, nodup_concat]
      refine ⟨fun taken => ?_, proper.distinct⟩
      obtain ⟨invocation, member, same⟩ := mem_map.mp taken
      exact (proper.awaited invocation member).fresh (young invocation member)
        (.asyncCallback2 fname input out para callback size) rfl same
    · replace member : invocation ∈ _ ++ (_ ++ [_]) := member
      rw [extended, concat_eq_append] at member
      rcases mem_append.mp member with old | new
      · exact (proper.awaited invocation old).issue missing (young invocation old)
      · rw [mem_singleton.mp new]
        exact awaited_issued proper.counted missing
    · intro invocation member
      rcases mem_append.mp member with old | new
      · exact proper.submitted invocation old
      · rw [mem_singleton.mp new]
        exact submitted
    · refine ⟨complete.found, complete.own, complete.inOrder, ?_, ?_⟩
      · dsimp only
        rw [← append_assoc]
        exact complete.once.append_right _
      · dsimp only
        rw [map_append, complete.numbered, Traffic.issue_found missing, range_succ]
        rfl

/-! ### A reply -/

/-- The id that the client decodes from the reply is that of the invocation. -/
theorem Submitted.decoded {invocation : Invocation} {write : Write} {rest : List Write}
    (submitted : Submitted invocation) (posted : invocation.writes = write :: rest)
    (small : invocation.id.toNat < 2 ^ 16) (data : List UInt8) :
    finishedInvocId (ntohl (replyTo write data).completion.immData) =
      invocation.id := by
  obtain ⟨own, funcIdx, alone, few, carries⟩ := submitted
  rw [alone] at posted
  have same : own = write := (cons.inj posted).1
  have low : (1#32 <<< 15 ||| funcIdx).toNat < 2 ^ 16 := by
    rw [BitVec.toNat_or]
    exact Nat.or_lt_two_pow (by decide) few
  rw [ntohl_replyTo, finishedInvocId_reply, ← same, carries,
    solicitedSubmission, BitVec.or_assoc, upperHalf _ low,
    Nat.mod_eq_of_lt small, BitVec.ofNat_toNat]
  exact BitVec.setWidth_eq _

theorem Proper.answer (proper : loop.Proper) (index : Nat) (data : List UInt8) :
    (loop.answer index data).Proper := by
  unfold CallbackLoop.answer
  split
  · exact proper
  · rename_i invocation found
    split
    · exact proper
    · rename_i write rest posted
      obtain ⟨bound, here⟩ := List.getElem?_eq_some_iff.mp found
      have member : invocation ∈ loop.inFlight := List.mem_of_getElem? found
      have moved : (invocation :: loop.inFlight.eraseIdx index).Perm loop.inFlight := by
        rw [← here]
        exact getElem_cons_eraseIdx_perm bound
      have complete := proper.complete
      have same : (map Answer.invocation (loop.batch ++ (loop.recvCq ++
          [⟨invocation, (replyTo write data).completion⟩])) ++
          loop.inFlight.eraseIdx index).Perm loop.outstanding := by
        rw [← append_assoc, map_append, append_assoc]
        exact moved.append_left _
      refine ⟨proper.few, proper.counted, (same.map _).nodup_iff.mpr proper.distinct,
        fun other inside => proper.awaited other (same.mem_iff.mp inside),
        fun other inside => proper.submitted other (mem_of_mem_eraseIdx inside),
        fun answer inside => ?_, ?_⟩
      · rw [← append_assoc] at inside
        rcases mem_append.mp inside with old | new
        · exact proper.decoded answer old
        · rw [mem_singleton.mp new]
          exact (proper.submitted invocation member).decoded posted
            (proper.awaited invocation (mem_append_right _ member)).small data
      · refine ⟨complete.found, complete.own, ?_, ?_, complete.numbered⟩
        · dsimp only
          simp only [complete.inOrder, map_append, append_assoc, map_cons,
            map_nil]
        · dsimp only
          rw [append_assoc]
          exact (moved.append_left _).trans complete.once

/-! ### The poll and the walk -/

theorem Proper.poll (proper : loop.Proper) (cid : Nat) : (loop.poll cid).Proper := by
  unfold CallbackLoop.poll
  split
  · rename_i ready
    have same : loop.recvCq.take wcSize ++ loop.recvCq.drop wcSize = loop.batch ++ loop.recvCq := by
      rw [ready, take_append_drop, nil_append]
    have complete := proper.complete
    refine ⟨proper.few, proper.counted, ?_, ?_, proper.submitted, ?_, complete.found, complete.own,
      ?_, complete.once, complete.numbered⟩
    · dsimp only [outstanding]
      rw [same]
      exact proper.distinct
    · dsimp only [outstanding]
      rw [same]
      exact proper.awaited
    · dsimp only
      rw [same]
      exact proper.decoded
    · dsimp only
      rw [same]
      exact complete.inOrder
  · exact proper

/-- The reply to an awaited invocation calls its callback. -/
theorem Awaited.fire {executor : Executor} {invocation : Invocation}
    (awaited : Awaited executor invocation) {val : BitVec 32}
    (decoded : finishedInvocId val = invocation.id) :
    ∃ entry : TaggedCallback, entry.serial = invocation.serial ∧
      invocation.listener = .callback2 entry.callback entry.out entry.tag ∧
      executor.fireCallback2 val =
        some ({ executor with callbacks2 := executor.callbacks2.insert invocation.id entry },
          some entry) := by
  obtain ⟨callback, out, para, listener, entry⟩ := awaited.entry
  refine ⟨⟨⟨0, callback, out, invocation.serial⟩, para⟩, rfl, listener, ?_⟩
  dsimp only [fireCallback2]
  rw [decoded, entry]
  rfl

theorem Awaited.insert {executor : Executor} {invocation : Invocation}
    (awaited : Awaited executor invocation) {id : BitVec 32} (other : invocation.id ≠ id)
    (entry : TaggedCallback) :
    Awaited { executor with callbacks2 := executor.callbacks2.insert id entry } invocation := by
  obtain ⟨callback, out, para, listener, present⟩ := awaited.entry
  refine ⟨⟨awaited.tracked.past, awaited.tracked.tracks⟩, awaited.late, awaited.small, callback,
    out, para, listener, ?_⟩
  rw [← present]
  exact AList.lookup_insert_ne other

/-- The next reply of a batch calls the callback of its invocation. -/
theorem Proper.walk_cons (proper : loop.Proper) {answer : Answer} {rest : List Answer}
    (batch : loop.batch = answer :: rest) :
    ∃ entry : TaggedCallback, entry.serial = answer.invocation.serial ∧
      answer.invocation.listener = .callback2 entry.callback entry.out entry.tag ∧
      loop.walk =
        { loop with
          executor := { loop.executor with
            callbacks2 := loop.executor.callbacks2.insert answer.invocation.id entry }
          batch := rest
          fired := loop.fired ++ [⟨answer.invocation, entry⟩] } := by
  have first : answer ∈ loop.batch ++ loop.recvCq := by
    rw [batch]
    exact mem_cons_self
  obtain ⟨entry, serial, listener, fired⟩ := (proper.awaited answer.invocation
    (mem_append_left _ (mem_map_of_mem first))).fire (proper.decoded answer first)
  refine ⟨entry, serial, listener, ?_⟩
  unfold CallbackLoop.walk
  rw [batch]
  dsimp only
  rw [fired]
  rfl

theorem Proper.walk (proper : loop.Proper) : loop.walk.Proper := by
  rcases batch : loop.batch with _ | ⟨answer, rest⟩
  · have same : loop.walk = loop := by
      unfold CallbackLoop.walk
      rw [batch]
    rw [same]
    exact proper
  · obtain ⟨entry, serial, listener, walked⟩ := proper.walk_cons batch
    have complete := proper.complete
    have split : loop.outstanding = answer.invocation ::
        ((rest ++ loop.recvCq).map Answer.invocation ++ loop.inFlight) := by
      rw [outstanding, batch]
      rfl
    have distinct := proper.distinct
    rw [split, map_cons, nodup_cons] at distinct
    rw [walked]
    refine ⟨proper.few, proper.counted, distinct.2, fun invocation member => ?_, proper.submitted,
      fun other member => ?_, complete.found, fun firing member => ?_, ?_, complete.once,
      complete.numbered⟩
    · refine (proper.awaited invocation (by rw [split]; exact mem_cons_of_mem _ member)).insert
        (fun same => distinct.1 ?_) entry
      rw [← same]
      exact mem_map_of_mem member
    · refine proper.decoded other ?_
      rw [batch]
      exact mem_cons_of_mem _ member
    · rcases mem_append.mp member with old | new
      · exact complete.own firing old
      · rw [mem_singleton.mp new]
        exact ⟨serial, listener⟩
    · dsimp only
      rw [complete.inOrder, batch]
      simp only [cons_append, map_cons, map_append, map_nil, append_assoc,
        nil_append]

theorem Proper.step (proper : loop.Proper) {event : Event} (recent : loop.Recent event) :
    (loop.step event).Proper := by
  cases event with
  | call => exact proper.makeCall recent
  | answer index data => exact proper.answer index data
  | poll cid => exact proper.poll cid
  | walk => exact proper.walk

theorem proper_start (maxInlineData : Int) {symbols : List String}
    (few : symbols.length ≤ 2 ^ 16) (connections : List RemoteBuffer) :
    (start maxInlineData symbols connections).Proper := by
  refine ⟨?_, Nat.two_pow_pos 16, nodup_nil, fun _ member => (nomatch member),
    fun _ member => (nomatch member), fun _ member => (nomatch member), rfl,
    fun _ member => (nomatch member), rfl, List.Perm.nil, rfl⟩
  show (symbols.insertionSort _).length ≤ _
  rw [length_insertionSort]
  exact few

/-! ### Every reply is walked -/

/-- Who has to move for the next callback: the poll or the walk. -/
inductive Party
  | poller
  | walker
  deriving DecidableEq

def party : Event → Option Party
  | .poll _ => some .poller
  | .walk => some .walker
  | _ => none

def turn (loop : CallbackLoop) : Party := if loop.batch = [] then .poller else .walker

/-- A bound on the moves that are left until `target` callbacks were called: one for each reply
in the batch, two for each one that is not in it yet. -/
def left (target : Nat) (loop : CallbackLoop) : Nat :=
  min loop.batch.length (target - loop.fired.length) +
    2 * (target - loop.fired.length - loop.batch.length)

theorem left_eq_zero_iff {target : Nat} : loop.left target = 0 ↔ target ≤ loop.fired.length := by
  unfold left
  omega

/-- Calls and replies leave the walk alone. -/
theorem makeCall_rule (loop : CallbackLoop) (call : Call) :
    (loop.makeCall call).batch = loop.batch ∧ (loop.makeCall call).fired = loop.fired ∧
      (loop.makeCall call).answered = loop.answered := by
  unfold CallbackLoop.makeCall
  split <;> exact ⟨rfl, rfl, rfl⟩

theorem answer_rule (loop : CallbackLoop) (index : Nat) (data : List UInt8) :
    (loop.answer index data).batch = loop.batch ∧ (loop.answer index data).fired = loop.fired ∧
      loop.answered <+: (loop.answer index data).answered := by
  unfold CallbackLoop.answer
  split
  · exact ⟨rfl, rfl, prefix_rfl⟩
  · split
    · exact ⟨rfl, rfl, prefix_rfl⟩
    · exact ⟨rfl, rfl, prefix_append _ _⟩

theorem Complete.length (complete : loop.Complete) :
    loop.answered.length = loop.fired.length + loop.batch.length + loop.recvCq.length := by
  rw [complete.inOrder]
  simp only [length_append, length_map, Nat.add_assoc]

theorem left_of_same {target : Nat} {after : CallbackLoop} (batch : after.batch = loop.batch)
    (fired : after.fired = loop.fired) :
    after.left target = loop.left target ∧ after.turn = loop.turn := by
  unfold left turn
  rw [batch, fired]
  exact ⟨rfl, rfl⟩

/-- What an event does to the moves that are left for the replies `target`. -/
structure Advances (target : List Invocation) (loop after : CallbackLoop) (event : Event) :
    Prop where
  kept : target <+: after.answered
  falls : after.left target.length < loop.left target.length ∨
    after.left target.length = loop.left target.length ∧
      (0 < loop.left target.length → after.turn = loop.turn ∧ party event ≠ some loop.turn)

variable {target : List Invocation}

theorem Advances.of_same {after : CallbackLoop} {event : Event} (kept : target <+: after.answered)
    (batch : after.batch = loop.batch) (fired : after.fired = loop.fired)
    (other : 0 < loop.left target.length → party event ≠ some loop.turn) :
    Advances target loop after event := by
  obtain ⟨same, turn⟩ := @left_of_same loop target.length after batch fired
  exact ⟨kept, Or.inr ⟨same, fun positive => ⟨turn, other positive⟩⟩⟩

theorem Proper.advances_poll (proper : loop.Proper) (kept : target <+: loop.answered) (cid : Nat) :
    Advances target loop (loop.poll cid) (.poll cid) := by
  by_cases ready : loop.batch = []
  · have polled : loop.poll cid =
        { loop with batch := loop.recvCq.take wcSize, recvCq := loop.recvCq.drop wcSize } :=
      if_pos ready
    have bound := kept.length_le
    rw [proper.complete.length, ready] at bound
    rw [polled]
    by_cases done : target.length ≤ loop.fired.length
    · have zero := left_eq_zero_iff.mpr done
      refine ⟨kept, Or.inr ⟨?_, fun positive => absurd zero (Nat.ne_of_gt positive)⟩⟩
      rw [zero]
      exact left_eq_zero_iff.mpr done
    · refine ⟨kept, Or.inl ?_⟩
      simp only [left, ready, length_nil, length_take, wcSize] at bound ⊢
      omega
  · have same : loop.poll cid = loop := if_neg ready
    rw [same]
    refine Advances.of_same kept rfl rfl fun _ => ?_
    rw [turn, if_neg ready]
    exact fun impossible => nomatch impossible

theorem Proper.advances_walk (proper : loop.Proper) (kept : target <+: loop.answered) :
    Advances target loop loop.walk .walk := by
  rcases batch : loop.batch with _ | ⟨answer, rest⟩
  · have same : loop.walk = loop := by
      unfold CallbackLoop.walk
      rw [batch]
    rw [same]
    refine Advances.of_same kept rfl rfl fun _ => ?_
    rw [turn, if_pos batch]
    decide
  · obtain ⟨entry, _, _, walked⟩ := proper.walk_cons batch
    rw [walked]
    by_cases done : target.length ≤ loop.fired.length
    · have zero := left_eq_zero_iff.mpr done
      have still : target.length ≤
          (loop.fired ++ [(⟨answer.invocation, entry⟩ : Firing)]).length := by
        rw [length_append]
        exact Nat.le_add_right_of_le done
      exact ⟨kept, Or.inr ⟨(left_eq_zero_iff.mpr still).trans zero.symm, fun positive =>
        absurd zero (Nat.ne_of_gt positive)⟩⟩
    · refine ⟨kept, Or.inl ?_⟩
      simp only [left, batch, length_cons, length_append, length_nil]
      omega

theorem Proper.advances (proper : loop.Proper) (kept : target <+: loop.answered) (event : Event) :
    Advances target loop (loop.step event) event := by
  cases event with
  | call fname input out para callback size =>
    obtain ⟨batch, fired, answered⟩ :=
      loop.makeCall_rule (.asyncCallback2 fname input out para callback size)
    exact Advances.of_same (by rw [← answered] at kept; exact kept) batch fired
      fun _ impossible => nomatch impossible
  | answer index data =>
    obtain ⟨batch, fired, answered⟩ := loop.answer_rule index data
    exact Advances.of_same (kept.trans answered) batch fired
      fun _ impossible => nomatch impossible
  | poll cid => exact proper.advances_poll kept cid
  | walk => exact proper.advances_walk kept

theorem ranked_left (target : List Invocation) :
    Ranked step (fun loop => loop.Proper ∧ target <+: loop.answered) Recent
      (left target.length) turn party where
  preserved := fun _ event kept recent =>
    ⟨kept.1.step recent, (kept.1.advances kept.2 event).kept⟩
  falls := fun _ event kept _ => (kept.1.advances kept.2 event).falls

/-- The replies that have arrived are all walked when the client goes on polling and walking. -/
theorem Proper.walks (proper : loop.Proper) {rounds : List (List Event)}
    (along : Along CallbackLoop.step Recent loop rounds.flatten)
    (fair : ∀ round ∈ rounds, .walk ∈ round ∧ ∃ cid, .poll cid ∈ round)
    (enough : loop.batch.length + 2 * loop.recvCq.length ≤ rounds.length) :
    loop.answered <+:
      (run CallbackLoop.step loop rounds.flatten).fired.map Firing.invocation := by
  have ranked := ranked_left loop.answered
  have initially : loop.Proper ∧ loop.answered <+: loop.answered := ⟨proper, prefix_rfl⟩
  obtain ⟨after, kept⟩ := run_invariant ranked.preserved initially along
  have bound := ranked.run_rounds initially along fun round member party => by
    obtain ⟨walk, cid, poll⟩ := fair round member
    cases party with
    | poller => exact ⟨_, poll, rfl⟩
    | walker => exact ⟨_, walk, rfl⟩
  have most : loop.left loop.answered.length ≤ loop.batch.length + 2 * loop.recvCq.length := by
    unfold left
    rw [proper.complete.length]
    omega
  have zero :
      (run CallbackLoop.step loop rounds.flatten).left loop.answered.length = 0 := by
    omega
  have enoughFired := left_eq_zero_iff.mp zero
  rw [after.complete.inOrder] at kept
  refine prefix_of_prefix_length_le kept (prefix_append _ _) ?_
  rw [length_map]
  exact enoughFired

/-- Invocations with tagged callbacks complete once each, across any number of wraps of the
counter. In every run in which an invocation waits for its callback for fewer than 65535 calls,
every reply finds the entry of its own invocation, and callbacks are called once for each reply,
in the order of the replies and from the entries that their own calls have made. When the client
goes on polling, the callback of every invocation that was answered is called. -/
theorem callbacks_complete (maxInlineData : Int) (symbols : List String)
    (few : symbols.length ≤ 2 ^ 16) (connections : List RemoteBuffer) (events : List Event)
    (along : Along step Recent (start maxInlineData symbols connections) events) :
    let loop := run step (start maxInlineData symbols connections) events
    loop.Complete ∧
      ∀ rounds : List (List Event), Along step Recent loop rounds.flatten →
        (∀ round ∈ rounds, .walk ∈ round ∧ ∃ cid, .poll cid ∈ round) →
        loop.batch.length + 2 * loop.recvCq.length ≤ rounds.length →
        loop.answered <+:
          (run step loop rounds.flatten).fired.map Firing.invocation := by
  intro loop
  have proper : loop.Proper :=
    @run_invariant _ _ _ Proper _ (fun _ _ kept recent => kept.step recent) _ _
      (proper_start maxInlineData few connections) along
  exact ⟨proper.complete, fun _ goesOn fair enough => proper.walks goesOn fair enough⟩

/-- Two invocations that were answered out of order, and four rounds of the client. -/
theorem two_callbacks_complete :
    let loop := run step (start 0 ["echo"] [⟨4096, 7⟩])
      [.call "echo" (replicate 12 0) ⟨64, 1⟩ 0 5 (-1),
        .call "echo" (replicate 12 0) ⟨80, 1⟩ 0 6 (-1), .answer 1 [9], .answer 0 [8]]
    loop.Complete ∧ loop.answered.map Invocation.serial = [1, 0] ∧
      loop.answered <+: (run step loop
        (replicate 4 [.poll 0, .walk]).flatten).fired.map Firing.invocation := by
  obtain ⟨complete, walks⟩ := callbacks_complete 0 ["echo"] (by decide) [⟨4096, 7⟩]
    [.call "echo" (replicate 12 0) ⟨64, 1⟩ 0 5 (-1),
      .call "echo" (replicate 12 0) ⟨80, 1⟩ 0 6 (-1), .answer 1 [9], .answer 0 [8]]
    ⟨fun _ => by decide, fun _ => by decide, trivial, trivial, trivial⟩
  refine ⟨complete, by decide, walks (replicate 4 [.poll 0, .walk])
    ⟨trivial, trivial, trivial, trivial, trivial, trivial, trivial, trivial, trivial⟩
    (fun round member => ?_) (by decide)⟩
  rw [eq_of_mem_replicate member]
  exact ⟨by simp, 0, by simp⟩

/-! ### Wide libraries -/

/-- Names in increasing order. -/
def unary (length : Nat) : String := String.ofList (replicate (length + 1) 'a')

/-- A library of 65537 functions. -/
def wideLibrary : List String := (range 65537).map unary

theorem unary_injective {first second : Nat} (same : unary first = unary second) :
    first = second := by
  have lists := String.ofList_injective same
  have lengths := congrArg length lists
  rw [length_replicate, length_replicate] at lengths
  exact Nat.succ.inj lengths

theorem replicate_not_lt {letter : Char} {short long : Nat} (shorter : short ≤ long) :
    ¬replicate long letter < replicate short letter := by
  induction short generalizing long with
  | zero => exact not_lt_nil _
  | succ short inductionHypothesis =>
    obtain ⟨rest, rfl⟩ : ∃ rest, long = rest + 1 := ⟨long - 1, by omega⟩
    rw [replicate_succ, replicate_succ, cons_lt_cons_iff]
    rintro (below | ⟨_, rest⟩)
    · exact absurd below (Char.lt_irrefl _)
    · exact inductionHypothesis (by omega) rest

theorem loadLibrary_wideLibrary : loadLibrary wideLibrary = wideLibrary := by
  refine List.Pairwise.insertionSort_eq (pairwise_map.mpr ?_)
  refine List.Pairwise.imp (fun {first second} below => ?_) pairwise_lt_range
  show ¬unary second < unary first
  rw [String.lt_iff, unary, unary, String.toList_ofList, String.toList_ofList]
  exact replicate_not_lt (Nat.succ_le_succ (Nat.le_of_lt below))

theorem findIdx_wideLibrary : wideLibrary.findIdx? (· == unary 65536) = some 65536 := by
  refine findIdx?_eq_some_iff_getElem.mpr ⟨?_, ?_, fun index below => ?_⟩
  · rw [wideLibrary, length_map, length_range]
    decide
  · simp only [wideLibrary, getElem_map, getElem_range, beq_self_eq_true]
  · simp only [wideLibrary, getElem_map, getElem_range, beq_iff_eq]
    exact fun same => Nat.ne_of_lt below (unary_injective same)

/-- Two calls of a function, and the reply to the second one. -/
def twoCalls (fname : String) : List Event :=
  [.call fname (replicate 12 0) ⟨64, 1⟩ 0 5 (-1),
    .call fname (replicate 12 0) ⟨64, 1⟩ 0 5 (-1), .answer 1 [], .poll 0, .walk]

/-- A reply whose id is in no entry is the end. -/
theorem answer_fault {index : Nat} {data : List UInt8} {invocation : Invocation} {write : Write}
    {rest : List Write} (cid : Nat) (walked : loop.batch = []) (empty : loop.recvCq = [])
    (flight : loop.inFlight[index]? = some invocation) (posted : invocation.writes = write :: rest)
    (absent : loop.executor.callbacks2.lookup (finishedInvocId
      (reply (invocId (ntohl write.immData)))) = none) :
    ((loop.answer index data).poll cid).walk.fault = true := by
  have missing : loop.executor.fireCallback2
      (ntohl (replyTo write data).completion.immData) = none := by
    rw [ntohl_replyTo]
    dsimp only [fireCallback2]
    rw [absent]
  unfold CallbackLoop.answer
  rw [flight]
  dsimp only
  rw [posted]
  dsimp only [poll]
  rw [if_pos walked, empty]
  dsimp only [walk, nil_append, take, wcSize]
  rw [missing]

theorem two_calls_fault {symbols : List String} {fname : String}
    (found : (start 0 symbols [⟨4096, 7⟩]).executor.findFunction fname = some 65536#32) :
    Along step Recent (start 0 symbols [⟨4096, 7⟩]) (twoCalls fname) ∧
      (run step (start 0 symbols [⟨4096, 7⟩]) (twoCalls fname)).fault = true := by
  let call : Call := .asyncCallback2 fname (replicate 12 0) ⟨64, 1⟩ 0 5 (-1)
  let first := (start 0 symbols [⟨4096, 7⟩]).executor
  let second := (first.issue call).1
  have known : first.findFunction call.fname ≠ none := by
    rw [show first.findFunction call.fname = some 65536#32 from found]
    exact Option.some_ne_none _
  have again : second.findFunction fname = some 65536#32 := by
    rw [show second = _ from Traffic.issue_found known]
    exact found
  have connected : 0 < second.connections.length := by
    rw [show second.connections = _ from issue_connections first call]
    exact Nat.one_pos
  obtain ⟨firstWrite, posted, _⟩ :=
    @posted_issue first fname (replicate 12 0) ⟨64, 1⟩ 0 5 (-1) _ found Nat.one_pos
  obtain ⟨secondWrite, postedAgain, carries⟩ :=
    @posted_issue second fname (replicate 12 0) ⟨64, 1⟩ 0 5 (-1) _ again connected
  have made : (start 0 symbols [⟨4096, 7⟩]).makeCall call =
      { start 0 symbols [⟨4096, 7⟩] with
        executor := second
        inFlight := [Traffic.issued first call]
        issued := [Traffic.issued first call] } :=
    if_neg (by rw [posted]; exact cons_ne_nil _ _)
  have madeAgain : ((start 0 symbols [⟨4096, 7⟩]).makeCall call).makeCall call =
      { start 0 symbols [⟨4096, 7⟩] with
        executor := (second.issue call).1
        inFlight := [Traffic.issued first call, Traffic.issued second call]
        issued := [Traffic.issued first call, Traffic.issued second call] } := by
    rw [made]
    exact if_neg (by rw [postedAgain]; exact cons_ne_nil _ _)
  have calls : second.calls = 1 := by rw [show second = _ from Traffic.issue_found known]; rfl
  have counter : second.advance.invocId = 2#32 := by
    have one : second.invocId = 1#32 := by
      rw [show second = _ from Traffic.issue_found known]
      rfl
    rw [advance, one]
    rfl
  refine ⟨⟨fun _ => ⟨Nat.one_pos, fun _ member => (nomatch member)⟩, fun _ => ?_, trivial, trivial,
    trivial, trivial⟩, ?_⟩
  · show _ < (makeCall _ call).executor.connections.length ∧ ∀ invocation ∈
      (makeCall _ call).outstanding, (makeCall _ call).executor.calls < invocation.serial + 65535
    rw [made]
    refine ⟨connected, fun invocation member => ?_⟩
    rw [calls]
    exact Nat.lt_of_lt_of_le (by decide) (Nat.le_add_left 65535 _)
  · show (poll (answer (makeCall (makeCall _ call) call) 1 []) 0).walk.fault = true
    rw [madeAgain]
    refine @answer_fault _ 1 [] (Traffic.issued second call) secondWrite [] 0 rfl rfl rfl
      (Traffic.writes_issued postedAgain) ?_
    have entries : (second.issue call).1.callbacks2 = _ :=
      (callbacks2_issue (by rw [again]; exact Option.some_ne_none _)).trans
        (congrArg _ (callbacks2_issue known))
    have start_ : first.advance.invocId = 1#32 := rfl
    rw [carries, finishedInvocId_reply, counter, entries, counter, start_,
      AList.lookup_insert_ne (by decide), AList.lookup_insert_ne (by decide)]
    rfl

/-- The index of the function reaches into the bits of the id: the reply to the invocation with
the id 2 carries the id 3, which is in no entry. -/
theorem wide_library_faults :
    Along step Recent (start 0 wideLibrary [⟨4096, 7⟩]) (twoCalls (unary 65536)) ∧
      ¬(run step (start 0 wideLibrary [⟨4096, 7⟩])
        (twoCalls (unary 65536))).Complete := by
  have found : (start 0 wideLibrary [⟨4096, 7⟩]).executor.findFunction (unary 65536) =
      some 65536#32 := by
    rw [findFunction, start, allocated, loadLibrary_wideLibrary,
      findIdx_wideLibrary]
    rfl
  obtain ⟨recent, fault⟩ := two_calls_fault found
  refine ⟨recent, fun complete => ?_⟩
  rw [complete.found] at fault
  cases fault

end CallbackLoop

end RFaaS.Client
