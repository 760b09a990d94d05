/-
This file asks whether the invocations on one connection disturb each other. A
worker has a single input buffer, and every write of the client goes to its
beginning. As long as a write arrives only when the worker has no unfinished
invocation, each function runs on the payload of its own invocation and each
reply goes to the address in its own header. If a second write arrives earlier,
both are those of the second invocation.
-/

import RFaaS.Serving
import RFaaS.Session

namespace RFaaS

open Transition Submission Client.Executor List

/-! ### What an invocation owns -/

/-- The data of a write behind the header. -/
def Write.payload (write : Write) : List UInt8 := write.data.drop dataHeaderSize

namespace FastExecutor

/-- The call was made on the payload that its own invocation wrote, of the function that it
asked for. -/
structure Execution.Own (functions : Functions) (execution : Execution) : Prop where
  payload : execution.origin.payload <+: execution.input
  size : execution.inSize.toNat = execution.origin.payload.length
  result : ∃ function send,
    functions.function (Immediate.funcId (ntohl execution.origin.immData)).toNat =
      some (execution.name, function) ∧
    function execution.input execution.inSize send = (execution.outSize, execution.output)

/-- The reply carries the result of the call to the address that its own invocation wrote. -/
structure Reply.Own (execution : Execution) (reply : Reply) : Prop where
  origin : reply.origin = execution.origin
  remote : reply.write.remote = header execution.origin.data
  data : reply.write.data = execution.output.take execution.outSize.toNat
  immediate : reply.write.immData =
    htonl (Immediate.reply (Immediate.invocId (ntohl execution.origin.immData)))

namespace Visible

/-- Every call and every reply so far belongs to its own invocation; the replies follow the
calls in order. -/
structure Isolated (visible : Visible) : Prop where
  executions : ∀ execution ∈ visible.executions, execution.Own visible.functions
  replies : ∀ (index : Nat) (execution : Execution) (reply : Reply),
    visible.executions[index]? = some execution → visible.replies[index]? = some reply →
      reply.Own execution

/-- The input buffer begins with what the write of this completion put there. -/
def Placed (visible : Visible) (completion : WorkCompletion) : Prop :=
  ∃ write : Write, completion = write.completion ∧
    dataHeaderSize ≤ write.data.length ∧ write.data <+: visible.rcv.bytes

/-- What holds at a stage: the buffer belongs to the invocation at hand, and the last call is
the one that is not answered yet. -/
def Carries (visible : Visible) : Stage → Prop
  | .idle => visible.executions.length = visible.replies.length
  | .queued completion | .held completion =>
    visible.executions.length = visible.replies.length ∧ visible.Placed completion
  | .returned completion outSize =>
    visible.Placed completion ∧ ∃ earlier execution,
      visible.executions = earlier ++ [execution] ∧ earlier.length = visible.replies.length ∧
      execution.origin = completion.origin ∧ execution.outSize = outSize ∧
      execution.output = visible.send

end Visible

theorem header_of_begins {data memory : List UInt8} (begins : data <+: memory)
    (long : dataHeaderSize ≤ data.length) :
    header memory = header data := by
  obtain ⟨rest, rfl⟩ := begins
  have enough : 12 ≤ data.length := long
  have first : (data ++ rest).take 8 = data.take 8 := take_append_of_le_length (by omega)
  have second : ((data ++ rest).drop 8).take 4 = (data.drop 8).take 4 := by
    rw [drop_append_of_le_length (by omega),
      take_append_of_le_length (by rw [length_drop]; omega)]
  rw [header, header, first, second]

theorem toNat_inSize {write : Write} (long : dataHeaderSize ≤ write.data.length)
    (small : write.data.length < 2 ^ 32) :
    (Task.ofCompletion write.completion).inSize.toNat = write.payload.length := by
  have enough : 12 ≤ write.data.length := long
  show (UInt32.ofNat write.data.length - UInt32.ofNat 12).toNat = _
  rw [Write.payload, length_drop, UInt32.toNat_sub_of_le, UInt32.toNat_ofNat_of_lt' small]
  · rfl
  · rw [UInt32.le_iff_toNat_le, UInt32.toNat_ofNat_of_lt' small]
    exact enough

namespace Thread

variable {thread : Thread} {completion : WorkCompletion} {outSize : UInt32}

/-- A call that is made while the buffer belongs to the invocation is its own. -/
theorem own_of_call (placed : thread.visible.Placed completion)
    (small : thread.rcv.bytes.length < 2 ^ 32) {name : String} {function : FuncType}
    (found : thread.functions.function (Task.ofCompletion completion).funcId.toNat =
      some (name, function)) :
    (thread.call (Task.ofCompletion completion) name function).Own thread.functions := by
  obtain ⟨write, rfl, long, begins⟩ := placed
  have fits : write.data.length < 2 ^ 32 :=
    Nat.lt_of_le_of_lt (List.IsPrefix.length_le begins) small
  have rest : write.payload <+: thread.rcv.bytes.drop dataHeaderSize := by
    obtain ⟨stale, whole⟩ := begins
    exact ⟨stale, by rw [Write.payload, ← drop_append_of_le_length long, whole]; rfl⟩
  exact ⟨rest, toNat_inSize long fits, function, thread.send, found, rfl⟩

/-- A reply that is posted while the buffer belongs to the invocation is its own. -/
theorem own_of_reply (placed : thread.visible.Placed completion) {execution : Execution}
    (origin : execution.origin = completion.origin) (size : execution.outSize = outSize)
    (output : execution.output = thread.send) :
    Reply.Own execution
      ⟨completion.origin, thread.reply (Task.ofCompletion completion) outSize⟩ := by
  obtain ⟨write, rfl, long, begins⟩ := placed
  have header : header thread.rcv.bytes = header write.data :=
    header_of_begins begins long
  refine ⟨origin.symm, ?_, ?_, ?_⟩
  · rw [origin]
    exact header
  · rw [output, size]
    rfl
  · rw [origin]
    rfl

/-! ### One invocation at a time -/

/-- The thread has at most one invocation, to which the input buffer belongs, and all calls and
replies so far were made on behalf of their own invocations. -/
def Serves (thread : Thread) : Prop :=
  ∃ stage, thread.At stage ∧ thread.visible.Carries stage ∧ thread.visible.Isolated

theorem Isolated.of_call {visible : Visible} (isolated : visible.Isolated)
    (answered : visible.executions.length = visible.replies.length) {execution : Execution}
    (own : execution.Own visible.functions) (send : List UInt8) :
    { visible with
      send := send, executions := visible.executions ++ [execution] }.Isolated := by
  refine ⟨fun other member => ?_, fun index other reply called replied => ?_⟩
  · rcases mem_append.mp member with earlier | last
    · exact isolated.executions other earlier
    · rw [mem_singleton.mp last]
      exact own
  · have inside : index < visible.executions.length := by
      rw [answered]
      exact (List.getElem?_eq_some_iff.mp replied).1
    rw [List.getElem?_append_left inside] at called
    exact isolated.replies index other reply called replied

theorem Isolated.of_reply {visible : Visible} (isolated : visible.Isolated)
    {earlier : List Execution} {execution : Execution}
    (last : visible.executions = earlier ++ [execution])
    (answered : earlier.length = visible.replies.length) {reply : Reply}
    (own : reply.Own execution) (posted : List Write) :
    { visible with posted := posted, replies := visible.replies ++ [reply] }.Isolated := by
  refine ⟨isolated.executions, fun index other another called replied => ?_⟩
  rcases Nat.lt_trichotomy index visible.replies.length with before | same | beyond
  · rw [List.getElem?_append_left before] at replied
    exact isolated.replies index other another called replied
  · rw [same, getElem?_concat_length] at replied
    rw [last, same, ← answered, getElem?_concat_length] at called
    rw [← Option.some.inj called, ← Option.some.inj replied]
    exact own
  · have outside : (visible.replies ++ [reply]).length ≤ index := by
      rw [length_append]
      exact beyond
    rw [getElem?_eq_none outside] at replied
    cases replied

theorem Serves.step (serves : thread.Serves) (small : thread.rcv.bytes.length < 2 ^ 32)
    (now : Int) : (thread.step now).Serves ∧ (thread.step now).rcv = thread.rcv := by
  obtain ⟨stage, here, carries, isolated⟩ := serves
  cases stage with
  | idle =>
    obtain ⟨unseen, next⟩ := step_idle here now
    exact ⟨⟨.idle, next, unseen ▸ carries, unseen ▸ isolated⟩, congrArg Visible.rcv unseen⟩
  | queued completion =>
    obtain ⟨unseen, next⟩ := step_queued here now
    refine ⟨?_, congrArg Visible.rcv unseen⟩
    rcases next with next | next
    · exact ⟨.queued completion, next, unseen ▸ carries, unseen ▸ isolated⟩
    · exact ⟨.held completion, next, unseen ▸ carries, unseen ▸ isolated⟩
  | held completion =>
    obtain ⟨answered, placed⟩ := carries
    have success : completion.failed = false := by
      obtain ⟨write, rfl, _⟩ := placed
      rfl
    obtain ⟨unseen, next⟩ | ⟨name, function, execution, found, rfl, called, next⟩ |
      ⟨_, unseen, next⟩ := step_held here success now
    · exact ⟨⟨.held completion, next, unseen ▸ ⟨answered, placed⟩, unseen ▸ isolated⟩,
        congrArg Visible.rcv unseen⟩
    · refine ⟨⟨_, next, ?_, ?_⟩, congrArg Visible.rcv called⟩
      · rw [called]
        exact ⟨placed, _, _, rfl, answered, rfl, rfl, rfl⟩
      · rw [called]
        exact Isolated.of_call isolated answered (own_of_call placed small found) _
    · exact ⟨⟨.idle, next, unseen ▸ answered, unseen ▸ isolated⟩, congrArg Visible.rcv unseen⟩
  | returned =>
    obtain ⟨placed, earlier, execution, last, answered, origin, size, output⟩ := carries
    obtain ⟨replied, next⟩ := step_returned here now
    refine ⟨⟨.idle, next, ?_, ?_⟩, congrArg Visible.rcv replied⟩
    · rw [replied]
      show thread.executions.length = (thread.replies ++ [_]).length
      rw [show thread.executions = earlier ++ [execution] from last, length_append,
        length_append, answered]
      rfl
    · rw [replied]
      exact Isolated.of_reply isolated last answered (own_of_reply placed origin size output) _

theorem Serves.land (serves : thread.Serves) (alone : thread.unfinished = []) {write : Write}
    (remote : write.remote = thread.rcv.remote)
    (long : dataHeaderSize ≤ write.data.length) :
    (thread.land write).Serves ∧ (thread.land write).rcv.remote = thread.rcv.remote ∧
      (thread.land write).rcv.bytes.length = thread.rcv.bytes.length := by
  obtain ⟨stage, here, carries, isolated⟩ := serves
  obtain rfl := idle_of_unfinished here alone
  rcases land_idle here write with ⟨rcv, placed, seen, next⟩ | ⟨_, same⟩
  · have region : (thread.land write).rcv = rcv := congrArg Visible.rcv seen
    rw [region]
    refine ⟨⟨_, next, ?_, ?_⟩, Region.remote_of_place placed, Region.length_of_place placed⟩
    · rw [seen]
      exact ⟨carries, write, rfl, long, Region.begins_of_place remote placed⟩
    · rw [seen]
      exact ⟨isolated.executions, isolated.replies⟩
  · rw [same]
    exact ⟨⟨.idle, here, carries, isolated⟩, rfl, rfl⟩

end Thread

end FastExecutor

/-! ### Sessions -/

/-- What is in flight to the worker holds a header and goes to its input buffer, and the worker
serves one invocation at a time. -/
structure Lane.Sound (lane : Lane) : Prop where
  headed : ∀ write ∈ lane.wire, write.remote = lane.thread.rcv.remote ∧
    dataHeaderSize ≤ write.data.length
  small : lane.thread.rcv.bytes.length < 2 ^ 32
  serves : lane.thread.Serves

namespace Session

open Client

/-- The calls and replies of every worker belong to their own invocations. -/
def Isolated (session : Session) : Prop :=
  ∀ connection, (session.lanes connection).thread.visible.Isolated

/-- A call writes the whole header, and a write arrives only at a worker that has no unfinished
invocation. -/
def Undisturbed (session : Session) : Event → Prop
  | .call call => call.Headed
  | .land connection =>
    (session.lanes connection).wire ≠ [] → (session.lanes connection).thread.unfinished = []
  | _ => True

structure Sound (session : Session) : Prop where
  paired : ∀ connection remote, session.executor.connections[connection]? = some remote →
    remote = (session.lanes connection).thread.rcv.remote
  lanes : ∀ connection, (session.lanes connection).Sound

variable {session : Session}

section

variable (sound : session.Sound)
include sound

theorem Sound.update {connection : Nat} {lane : Lane} (next : lane.Sound)
    (same : lane.thread.rcv.remote = (session.lanes connection).thread.rcv.remote) :
    { session with lanes := Function.update session.lanes connection lane }.Sound := by
  refine ⟨fun other remote known => ?_, fun other => ?_⟩
  · rw [sound.paired other remote known]
    by_cases here : other = connection
    · subst here
      simp only [Function.update_self, same]
    · simp only [Function.update_of_ne here]
  · by_cases here : other = connection
    · subst here
      simpa only [Function.update_self] using next
    · simpa only [Function.update_of_ne here] using sound.lanes other

theorem Sound.wired {call : Call} (headed : call.Headed) :
    { session with
      executor := (session.executor.issue call).1
      lanes := wired session.lanes (session.executor.issue call).2 }.Sound := by
  refine ⟨fun connection remote known => ?_, fun connection => ?_⟩
  · rw [issue_connections] at known
    exact sound.paired connection remote known
  · refine ⟨fun write member => ?_, (sound.lanes connection).small, (sound.lanes connection).serves⟩
    rcases mem_append.mp member with before | new
    · exact (sound.lanes connection).headed write before
    · obtain ⟨posted, inside, rfl⟩ := mem_map.mp new
      obtain ⟨issued, here⟩ := mem_filter.mp inside
      obtain ⟨known, long⟩ := of_mem_issue issued
      rw [show posted.connection = connection from beq_iff_eq.mp here] at known
      exact ⟨sound.paired connection _ known, long headed⟩

/-- Everything but the lanes and the list of connections may change. -/
theorem Sound.of_same {after : Session}
    (connections : after.executor.connections = session.executor.connections)
    (lanes : after.lanes = session.lanes) : after.Sound := by
  refine ⟨fun connection remote known => ?_, fun connection => ?_⟩
  · rw [connections] at known
    rw [lanes]
    exact sound.paired connection remote known
  · rw [lanes]
    exact sound.lanes connection

theorem Sound.pollWith {dispatch : Client.Executor → List WorkCompletion → Option Client.Executor}
    (keeps : ∀ {executor after : Client.Executor} {batch : List WorkCompletion},
      dispatch executor batch = some after → after.connections = executor.connections) :
    (session.pollWith dispatch).Sound := by
  unfold Session.pollWith
  split
  · exact sound.of_same rfl rfl
  · rename_i executor dispatched
    exact sound.of_same (keeps dispatched) rfl

theorem Sound.poll : session.poll.Sound := by
  unfold Session.poll
  dsimp only
  split
  · exact sound
  · exact sound
  · split
    · exact sound.of_same rfl rfl
    · rename_i walked
      exact sound.of_same (walk_connections walked) rfl
    · rename_i walked
      exact sound.of_same (walk_connections walked) rfl
  · split
    · exact sound.of_same rfl rfl
    · rename_i settled
      exact sound.of_same (settleAll_connections settled) rfl
  · exact sound.of_same rfl rfl

theorem Sound.makeCall {call : Call} (headed : call.Headed) : (session.makeCall call).Sound := by
  have wired := sound.wired headed
  unfold Session.makeCall
  split
  · dsimp only
    split
    · split <;> exact wired.of_same rfl rfl
    · split
      · exact wired
      · split
        · exact wired
        · exact wired.of_same rfl rfl
    · exact wired
  · exact sound

end

theorem Sound.step (sound : session.Sound) (event : Event)
    (undisturbed : session.Undisturbed event) : (session.step event).Sound := by
  cases event with
  | call call => exact sound.makeCall undisturbed
  | land connection =>
    have lane := sound.lanes connection
    show (session.land connection).Sound
    unfold Session.land
    dsimp only
    split
    · exact sound
    · rename_i write rest wire
      have alone := undisturbed (by rw [wire]; exact cons_ne_nil _ _)
      have head := lane.headed write (by rw [wire]; exact mem_cons_self)
      obtain ⟨serves, remote, length⟩ := lane.serves.land alone head.1 head.2
      refine sound.update ⟨fun other member => ?_, ?_, serves⟩ remote
      · rw [remote]
        exact lane.headed other (by rw [wire]; exact mem_cons_of_mem _ member)
      · rw [length]
        exact lane.small
  | work connection now =>
    have lane := sound.lanes connection
    obtain ⟨serves, rcv⟩ := lane.serves.step lane.small now
    refine sound.update ⟨fun write member => ?_, ?_, serves⟩ (congrArg Region.remote rcv)
    · rw [rcv]
      exact lane.headed write member
    · rw [rcv]
      exact lane.small
  | answer connection =>
    have lane := sound.lanes connection
    show (session.answer connection).Sound
    unfold Session.answer
    dsimp only
    split
    · exact sound
    · rename_i write rest posted
      obtain ⟨stage, here, carries, isolated⟩ := lane.serves
      have next : Lane.Sound
          { session.lanes connection with
            thread := { (session.lanes connection).thread with posted := rest } } := by
        refine ⟨lane.headed, lane.small, stage, ?_, ?_, isolated.executions, isolated.replies⟩
        · cases stage <;> exact here
        · cases stage <;> exact carries
      have updated := sound.update next rfl
      split
      · exact updated
      · exact updated.of_same rfl rfl
  | poll => exact sound.poll
  | pollQueue => exact sound.pollWith settleAll_connections
  | pollQueueOnce =>
    show (if session.waiting = .idle then _ else _ : Session).Sound
    split
    · exact sound.pollWith fireAll_connections
    · exact sound
  | pollQueueOnce2 =>
    show (if session.waiting = .idle then _ else _ : Session).Sound
    split
    · exact sound.pollWith fireAll2_connections
    · exact sound

theorem sound_start (library : FastExecutor.Library) (maxInlineData : Int) (numcores : Nat)
    (workers : Nat → Worker) (memory : Table UInt32 Region)
    (small : ∀ connection, (workers connection).rcv.bytes.length < 2 ^ 32) :
    (start library maxInlineData numcores workers memory).Sound := by
  refine ⟨fun connection remote known => ?_, fun connection => ?_⟩
  · replace known : ((range numcores).map fun connection =>
        (workers connection).rcv.remote)[connection]? = some remote := known
    rw [List.getElem?_map, Option.map_eq_some_iff] at known
    obtain ⟨index, inRange, rfl⟩ := known
    obtain ⟨_, same⟩ := List.getElem?_eq_some_iff.mp inRange
    rw [List.getElem_range] at same
    rw [← same]
    rfl
  · refine ⟨fun write member => (nomatch member), small connection, .idle, ?_, rfl, ?_, ?_⟩
    · exact FastExecutor.Thread.at_idle_begin _ _ _ _ _
    · exact fun execution member => nomatch member
    · exact fun index execution reply called _ => nomatch called

/-- In every run in which calls write whole headers and a write arrives only at a worker without
an unfinished invocation, every call is made on the payload of its own invocation and every
reply goes to the address in the header of its own invocation, in every state. -/
theorem undisturbed_isolated (library : FastExecutor.Library) (maxInlineData : Int)
    (numcores : Nat) (workers : Nat → Worker) (memory : Table UInt32 Region)
    (small : ∀ connection, (workers connection).rcv.bytes.length < 2 ^ 32) (events : List Event)
    (undisturbed : Along step Undisturbed
      (start library maxInlineData numcores workers memory) events) :
    Always step Isolated (start library maxInlineData numcores workers memory)
      events := by
  refine @always_of_invariant _ _ _ Sound Isolated Undisturbed
    (fun session event sound quiet => sound.step event quiet)
    (fun session sound connection => ?_) _ _
    (sound_start library maxInlineData numcores workers memory small) undisturbed
  obtain ⟨_, _, _, isolated⟩ := (sound.lanes connection).serves
  exact isolated

/-! ### Two invocations at once -/

/-- A library whose only function copies its input. -/
def echo : FastExecutor.Library where
  symbols := ["echo"]
  code := fun _ input inSize send => (inSize, Bytes.store send 0 (input.take inSize.toNat))

/-- A worker that always polls hot, with room for four bytes of payload. -/
def hotWorker : Worker where
  timeout := -1
  maxInlineData := 0
  rcv := ⟨4096, 7, replicate 16 0⟩
  outSize := 4

/-- Two output buffers of four bytes, with the keys 1 and 2. -/
def outputs : Table UInt32 Region :=
  ((∅ : Table UInt32 Region).insert 2 ⟨128, 2, replicate 4 0⟩).insert 1
    ⟨64, 1, replicate 4 0⟩

/-- An input buffer with a payload of one byte. -/
def inputOf (byte : UInt8) : List UInt8 := replicate 12 0 ++ [byte]

/-- An asynchronous call with payload 1 for buffer 1, then an `execute` with payload 2 for
buffer 2. -/
def twoCalls : List Event :=
  [.call (.async "echo" (inputOf 1) ⟨64, 1⟩ (-1)), .call (.execute "echo" (inputOf 2) ⟨128, 2⟩)]

/-- The session after both writes have arrived before the worker polls, and the worker has
finished the first of the two. -/
def overtaken : Session :=
  run step (start echo 0 1 (fun _ => hotWorker) outputs)
    (twoCalls ++ [.land 0, .land 0, .work 0 0, .work 0 0, .work 0 0, .work 0 0, .work 0 0])

/-- The function runs for the first invocation on the payload of the second one, and the reply
to the first one goes to the output buffer of the second. -/
theorem overtaken_mixed :
    ((overtaken.lanes 0).thread.executions.map fun execution =>
        (execution.origin.payload, execution.input.take execution.inSize.toNat)) = [([1], [2])] ∧
    ((overtaken.lanes 0).thread.replies.map fun reply =>
        (header reply.origin.data, reply.write.remote)) = [(⟨64, 1⟩, ⟨128, 2⟩)] ∧
    ¬overtaken.Isolated := by
  refine ⟨by decide, by decide, fun isolated => ?_⟩
  have foreign : ∃ execution ∈ (overtaken.lanes 0).thread.executions,
      ¬execution.origin.payload <+: execution.input := by decide
  obtain ⟨execution, member, mixed⟩ := foreign
  exact mixed ((isolated 0).executions execution member).payload

/-- The same calls do not disturb each other when the second write arrives after the first
reply. -/
theorem in_turn_isolated :
    Always step Isolated (start echo 0 1 (fun _ => hotWorker) outputs)
      (twoCalls ++ [.land 0, .work 0 0, .work 0 0, .work 0 0, .work 0 0, .work 0 0, .land 0]) :=
  undisturbed_isolated echo 0 1 (fun _ => hotWorker) outputs (fun _ => by decide) _
    ⟨Or.inl rfl, trivial, fun _ => rfl, trivial, trivial, trivial, trivial, trivial, fun _ => rfl,
      trivial⟩

end Session

end RFaaS
