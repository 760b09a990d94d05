/-
This file models the invocation side of the client library
(`rfaas/executor.hpp`, `rfaas/lib/executor.cpp`): the calls that issue an
invocation and the dispatch of one reply.

Every call looks the function up, stores the address of the output buffer in
the header of the input buffer, takes an invocation id, remembers whom to tell
and posts a write. All of them count `_invoc_id` up, but in two ways:
`async` on a single buffer uses the value before counting and never wraps;
every other call uses the value after counting and wraps from 65535 to 1.
-/

import RFaaS.Invocation
import Mathlib.Data.List.Sort

namespace RFaaS.Client

open Submission Immediate

/-! ### The executor object -/

/-- An entry of `_futures`. `promise` names the promise by the call that made it; `value` is
what the promise was set to. -/
structure Future where
  count : Int
  promise : Nat
  value : Option (BitVec 32)
  deriving DecidableEq, Repr

/-- An entry of `_callbacks`. The last field is a ghost: the call that made the entry. -/
structure Callback where
  count : Int
  callback : Nat
  out : RemoteBuffer
  serial : Nat
  deriving DecidableEq, Repr

/-- An entry of `_callbacks2`; `tag` is the parameter of the call. -/
structure TaggedCallback extends Callback where
  tag : Nat
  deriving DecidableEq, Repr

/-- `rfaas::executor`. `connections` holds the `remote_input` of every connection. The last
field is a ghost: how many invocations were issued. -/
structure Executor where
  maxInlineData : Int
  invocId : BitVec 32
  connections : List RemoteBuffer
  funcNames : List String
  futures : Table (BitVec 32) Future
  callbacks : Table (BitVec 32) Callback
  callbacks2 : Table (BitVec 32) TaggedCallback
  calls : Nat

/-- A write posted on the connection with this index. -/
structure Posted where
  connection : Nat
  write : Write
  deriving DecidableEq, Repr

namespace Executor

/-- The names that `load_library` collects. -/
def loadLibrary (symbols : List String) : List String := symbols.insertionSort (· ≤ ·)

/-- The object after its construction and a successful `allocate`. -/
def allocated (maxInlineData : Int) (symbols : List String) (connections : List RemoteBuffer) :
    Executor where
  maxInlineData := maxInlineData
  invocId := 0
  connections := connections
  funcNames := loadLibrary symbols
  futures := ∅
  callbacks := ∅
  callbacks2 := ∅
  calls := 0

/-- `std::find` in `_func_names` and the distance from its beginning. -/
def findFunction (executor : Executor) (fname : String) : Option (BitVec 32) :=
  (executor.funcNames.findIdx? (· == fname)).map (BitVec.ofNat 32)

/-- `_invoc_id` counted up, with the wrap of all calls but one. -/
def advance (executor : Executor) : Executor :=
  { executor with
    invocId := if executor.invocId + 1 = 65536#32 then 1#32 else executor.invocId + 1 }

/-- The write of a stamped input buffer on a connection. A size other than `-1` cuts it off. -/
def post (executor : Executor) (connection : Nat) (input : List UInt8) (out : RemoteBuffer)
    (size : Int) (immediate : BitVec 32) (solicited : Bool) : List Posted :=
  match executor.connections[connection]? with
  | none => []
  | some remoteInput =>
    let stamped := stamp input out
    if size ≠ -1 then
      [⟨connection, postWrite (stamped.take (UInt32.ofInt size).toNat) remoteInput immediate
        (decide (size ≤ executor.maxInlineData)) solicited⟩]
    else
      [⟨connection, postWrite stamped remoteInput immediate
        (decide ((stamped.length : Int) ≤ executor.maxInlineData)) solicited⟩]

/-- One write on every connection, each from its own buffers. -/
def postAll (executor : Executor) (inputs : List (List UInt8)) (outs : List RemoteBuffer)
    (immediate : BitVec 32) (solicited : Bool) : List Posted :=
  (List.range executor.connections.length).flatMap fun connection =>
    match inputs[connection]?, outs[connection]? with
    | some input, some out => executor.post connection input out (-1) immediate solicited
    | _, _ => []

/-! ### Calls -/

/-- Whom a call leaves behind to be told about the reply: an entry of one of the three maps, or
nobody but the caller, who waits. -/
inductive Listener
  | future (count : Int)
  | callback (callback : Nat) (out : RemoteBuffer)
  | callback2 (callback : Nat) (out : RemoteBuffer) (para : Nat)
  | caller
  deriving DecidableEq, Repr

/-- The assignment to the map that the listener belongs to. -/
def register (executor : Executor) (invocId : BitVec 32) : Listener → Executor
  | .future count =>
    { executor with futures := executor.futures.insert invocId ⟨count, executor.calls, none⟩ }
  | .callback callback out =>
    { executor with
      callbacks := executor.callbacks.insert invocId ⟨1, callback, out, executor.calls⟩ }
  | .callback2 callback out para =>
    { executor with
      callbacks2 :=
        executor.callbacks2.insert invocId ⟨⟨1, callback, out, executor.calls⟩, para⟩ }
  | .caller => executor

/-- The common course of all calls but `async` on a single buffer: the id is the counter after
it was counted up. `posts` gets the id and the index of the function. -/
def invoke (executor : Executor) (fname : String) (listener : Listener)
    (posts : BitVec 32 → BitVec 32 → List Posted) : Executor × List Posted :=
  match executor.findFunction fname with
  | none => (executor, [])
  | some funcIdx =>
    let invocId := executor.advance.invocId
    ({ executor.advance.register invocId listener with calls := executor.calls + 1 },
      posts invocId funcIdx)

/-- `async` on a single buffer: the id is the counter before it is counted up. -/
def async (executor : Executor) (fname : String) (input : List UInt8) (out : RemoteBuffer)
    (size : Int) : Executor × List Posted :=
  match executor.findFunction fname with
  | none => (executor, [])
  | some funcIdx =>
    let invocId := executor.invocId
    ({ executor.register invocId (.future 1) with
        invocId := invocId + 1
        calls := executor.calls + 1 },
      executor.post 0 input out size (solicitedSubmission invocId funcIdx) true)

/-- `async_callback` without a tag. -/
def asyncCallback (executor : Executor) (fname : String) (input : List UInt8)
    (out : RemoteBuffer) (callback : Nat) (size : Int) : Executor × List Posted :=
  executor.invoke fname (.callback callback out) fun invocId funcIdx =>
    executor.post 0 input out size (solicitedSubmission invocId funcIdx) true

/-- `async_callback` with a tag, which is also the index of the connection. -/
def asyncCallback2 (executor : Executor) (fname : String) (input : List UInt8)
    (out : RemoteBuffer) (para : Nat) (callback : Nat) (size : Int) : Executor × List Posted :=
  executor.invoke fname (.callback2 callback out para) fun invocId funcIdx =>
    executor.post para input out size (solicitedSubmission invocId funcIdx) true

/-- `async` on vectors of buffers: one write on every connection under one id. -/
def asyncVector (executor : Executor) (fname : String) (inputs : List (List UInt8))
    (outs : List RemoteBuffer) : Executor × List Posted :=
  executor.invoke fname (.future executor.connections.length) fun invocId funcIdx =>
    executor.postAll inputs outs (solicitedSubmission invocId funcIdx) true

/-- `execute` on a single buffer, up to its loop. -/
def execute (executor : Executor) (fname : String) (input : List UInt8) (out : RemoteBuffer) :
    Executor × List Posted :=
  executor.invoke fname .caller fun invocId funcIdx =>
    executor.post 0 input out (-1) (submission invocId funcIdx) false

/-- `execute` on vectors of buffers, up to its loops. -/
def executeVector (executor : Executor) (fname : String) (inputs : List (List UInt8))
    (outs : List RemoteBuffer) : Executor × List Posted :=
  executor.invoke fname .caller fun invocId funcIdx =>
    executor.postAll inputs outs (submission invocId funcIdx) false

/-! ### Dispatch of a reply -/

/-- The dispatch of one reply to `_futures`, as in `poll_queue` and in the loop of `execute`;
`none` is the dereference of the end of the map. -/
def settleFuture (executor : Executor) (val : BitVec 32) : Option Executor :=
  let finishedInvocId := finishedInvocId val
  match executor.futures.lookup finishedInvocId with
  | none => none
  | some future =>
    let count := future.count - 1
    some { executor with
      futures := executor.futures.insert finishedInvocId { future with
        count := count
        value := if count = 0 then some (returnVal val) else future.value } }

/-- The dispatch of one reply to `_callbacks`, as in `poll_queue_once`, with the entry whose
callback is called. -/
def fireCallback (executor : Executor) (val : BitVec 32) : Option (Executor × Option Callback) :=
  let finishedInvocId := finishedInvocId val
  match executor.callbacks.lookup finishedInvocId with
  | none => none
  | some entry =>
    let entry := { entry with count := entry.count - 1 }
    some ({ executor with callbacks := executor.callbacks.insert finishedInvocId entry },
      if entry.count = 0 then some entry else none)

/-- The dispatch of one reply to `_callbacks2`, as in `poll_queue_once2`, with the entry whose
callback is called. -/
def fireCallback2 (executor : Executor) (val : BitVec 32) :
    Option (Executor × Option TaggedCallback) :=
  let finishedInvocId := finishedInvocId val
  match executor.callbacks2.lookup finishedInvocId with
  | none => none
  | some entry =>
    let entry := { entry with count := entry.count - 1 }
    some ({ executor with callbacks2 := executor.callbacks2.insert finishedInvocId entry },
      if entry.count = 0 then some entry else none)

/-- A batch of replies, each handed to `dispatch`. -/
def dispatchAll (dispatch : Executor → BitVec 32 → Option Executor) (executor : Executor) :
    List WorkCompletion → Option Executor
  | [] => some executor
  | completion :: rest =>
    match dispatch executor (ntohl completion.immData) with
    | none => none
    | some executor => executor.dispatchAll dispatch rest

/-- A batch of replies dispatched to `_futures`. -/
def settleAll (executor : Executor) (batch : List WorkCompletion) : Option Executor :=
  executor.dispatchAll settleFuture batch

/-- A batch of replies dispatched to `_callbacks`, by callbacks that issue nothing. -/
def fireAll (executor : Executor) (batch : List WorkCompletion) : Option Executor :=
  executor.dispatchAll (fun executor val => (executor.fireCallback val).map Prod.fst) batch

/-- A batch of replies dispatched to `_callbacks2`, by callbacks that issue nothing. -/
def fireAll2 (executor : Executor) (batch : List WorkCompletion) : Option Executor :=
  executor.dispatchAll (fun executor val => (executor.fireCallback2 val).map Prod.fst) batch

/-- The walk of `execute` over a batch: the reply to its own id is remembered with its return
value and its length, every other one goes to `_futures`. -/
def walk (executor : Executor) (invocId : BitVec 32) (found : Option (BitVec 32 × UInt32)) :
    List WorkCompletion → Option (Executor × Option (BitVec 32 × UInt32))
  | [] => some (executor, found)
  | completion :: rest =>
    let val := ntohl completion.immData
    if finishedInvocId val = invocId then
      executor.walk invocId (some (returnVal val, completion.byteLen)) rest
    else
      match executor.settleFuture val with
      | none => none
      | some executor => executor.walk invocId found rest

end Executor

/-! ### All calls -/

/-- A call of the client library that issues an invocation. -/
inductive Call
  | async (fname : String) (input : List UInt8) (out : RemoteBuffer) (size : Int)
  | asyncCallback (fname : String) (input : List UInt8) (out : RemoteBuffer) (callback : Nat)
      (size : Int)
  | asyncCallback2 (fname : String) (input : List UInt8) (out : RemoteBuffer) (para : Nat)
      (callback : Nat) (size : Int)
  | asyncVector (fname : String) (inputs : List (List UInt8)) (outs : List RemoteBuffer)
  | execute (fname : String) (input : List UInt8) (out : RemoteBuffer)
  | executeVector (fname : String) (inputs : List (List UInt8)) (outs : List RemoteBuffer)
  deriving DecidableEq, Repr

namespace Executor

/-- What a call issues. -/
def issue (executor : Executor) : Call → Executor × List Posted
  | .async fname input out size => executor.async fname input out size
  | .asyncCallback fname input out callback size =>
    executor.asyncCallback fname input out callback size
  | .asyncCallback2 fname input out para callback size =>
    executor.asyncCallback2 fname input out para callback size
  | .asyncVector fname inputs outs => executor.asyncVector fname inputs outs
  | .execute fname input out => executor.execute fname input out
  | .executeVector fname inputs outs => executor.executeVector fname inputs outs

/-! ### What calls and replies leave alone -/

variable {executor after : Executor}

theorem invoke_cases (executor : Executor) (fname : String) (listener : Listener)
    (posts : BitVec 32 → BitVec 32 → List Posted) :
    executor.findFunction fname = none ∧ executor.invoke fname listener posts = (executor, []) ∨
    ∃ funcIdx, executor.findFunction fname = some funcIdx ∧
      executor.invoke fname listener posts =
        ({ executor.advance.register executor.advance.invocId listener with
            calls := executor.calls + 1 },
          posts executor.advance.invocId funcIdx) := by
  unfold invoke
  split
  · rename_i missing
    exact Or.inl ⟨missing, rfl⟩
  · rename_i funcIdx found
    exact Or.inr ⟨funcIdx, found, rfl⟩

@[simp] theorem register_connections (executor : Executor) (invocId : BitVec 32)
    (listener : Listener) :
    (executor.register invocId listener).connections = executor.connections := by
  cases listener <;> rfl

theorem invoke_connections (executor : Executor) (fname : String) (listener : Listener)
    (posts : BitVec 32 → BitVec 32 → List Posted) :
    (executor.invoke fname listener posts).1.connections = executor.connections := by
  rcases executor.invoke_cases fname listener posts with ⟨_, same⟩ | ⟨_, _, issued⟩
  · rw [same]
  · rw [issued]
    exact register_connections _ _ _

theorem issue_connections (executor : Executor) (call : Call) :
    (executor.issue call).1.connections = executor.connections := by
  cases call with
  | async fname input out size =>
    show (executor.async fname input out size).1.connections = _
    unfold async
    split
    · rfl
    · exact register_connections _ _ _
  | _ => exact invoke_connections _ _ _ _

theorem settleFuture_connections {val : BitVec 32}
    (settled : executor.settleFuture val = some after) :
    after.connections = executor.connections := by
  dsimp only [settleFuture] at settled
  split at settled
  · cases settled
  · rw [← Option.some.inj settled]

theorem fireCallback_connections {val : BitVec 32}
    (fired : (executor.fireCallback val).map Prod.fst = some after) :
    after.connections = executor.connections := by
  dsimp only [fireCallback] at fired
  split at fired
  · cases fired
  · rw [← Option.some.inj fired]

theorem fireCallback2_connections {val : BitVec 32}
    (fired : (executor.fireCallback2 val).map Prod.fst = some after) :
    after.connections = executor.connections := by
  dsimp only [fireCallback2] at fired
  split at fired
  · cases fired
  · rw [← Option.some.inj fired]

/-- What the dispatch of one reply keeps, the dispatch of a batch keeps. -/
theorem dispatchAll_stable {dispatch : Executor → BitVec 32 → Option Executor}
    {kept : Executor → Prop}
    (each : ∀ {executor after : Executor} {val : BitVec 32}, dispatch executor val = some after →
      kept executor → kept after) {batch : List WorkCompletion}
    (dispatched : executor.dispatchAll dispatch batch = some after) (initially : kept executor) :
    kept after := by
  induction batch generalizing executor with
  | nil =>
    rw [← Option.some.inj dispatched]
    exact initially
  | cons completion rest inductionHypothesis =>
    unfold dispatchAll at dispatched
    split at dispatched
    · cases dispatched
    · rename_i next first
      exact inductionHypothesis dispatched (each first initially)

/-- What the dispatch of one reply to `_futures` keeps, the walk of `execute` keeps. -/
theorem walk_stable {kept : Executor → Prop}
    (each : ∀ {executor after : Executor} {val : BitVec 32},
      executor.settleFuture val = some after → kept executor → kept after)
    {invocId : BitVec 32} {found result : Option (BitVec 32 × UInt32)}
    {batch : List WorkCompletion}
    (walked : executor.walk invocId found batch = some (after, result))
    (initially : kept executor) : kept after := by
  induction batch generalizing executor found with
  | nil =>
    rw [← (Prod.mk.inj (Option.some.inj walked)).1]
    exact initially
  | cons completion rest inductionHypothesis =>
    dsimp only [walk] at walked
    split at walked
    · exact inductionHypothesis walked initially
    · split at walked
      · cases walked
      · rename_i next first
        exact inductionHypothesis walked (each first initially)

theorem settleAll_connections {batch : List WorkCompletion}
    (settled : executor.settleAll batch = some after) :
    after.connections = executor.connections :=
  @dispatchAll_stable executor after settleFuture (·.connections = executor.connections)
    (fun first => (settleFuture_connections first).trans) batch settled rfl

theorem fireAll_connections {batch : List WorkCompletion}
    (fired : executor.fireAll batch = some after) : after.connections = executor.connections :=
  @dispatchAll_stable executor after _ (·.connections = executor.connections)
    (fun first => (fireCallback_connections first).trans) batch fired rfl

theorem fireAll2_connections {batch : List WorkCompletion}
    (fired : executor.fireAll2 batch = some after) : after.connections = executor.connections :=
  @dispatchAll_stable executor after _ (·.connections = executor.connections)
    (fun first => (fireCallback2_connections first).trans) batch fired rfl

theorem walk_connections {invocId : BitVec 32} {found result : Option (BitVec 32 × UInt32)}
    {batch : List WorkCompletion}
    (walked : executor.walk invocId found batch = some (after, result)) :
    after.connections = executor.connections :=
  @walk_stable executor after (·.connections = executor.connections)
    (fun first => (settleFuture_connections first).trans) invocId found result batch walked rfl

/-! ### What a call posts -/

theorem findFunction_of_mem {fname : String} (member : fname ∈ executor.funcNames) :
    ∃ index, executor.funcNames[index]? = some fname ∧
      executor.findFunction fname = some (BitVec.ofNat 32 index) := by
  have present : (executor.funcNames.findIdx? (· == fname)).isSome := by
    rw [List.findIdx?_isSome, List.any_eq_true]
    exact ⟨fname, member, beq_self_eq_true fname⟩
  obtain ⟨index, found⟩ := Option.isSome_iff_exists.mp present
  obtain ⟨bound, same, _⟩ := List.findIdx?_eq_some_iff_getElem.mp found
  refine ⟨index, ?_, by rw [findFunction, found]; rfl⟩
  rw [List.getElem?_eq_getElem bound, beq_iff_eq.mp same]

theorem post_of_connection {connection : Nat} {remoteInput : RemoteBuffer}
    (known : executor.connections[connection]? = some remoteInput) (input : List UInt8)
    (out : RemoteBuffer) (immediate : BitVec 32) (solicited : Bool) :
    ∃ inlined, executor.post connection input out (-1) immediate solicited =
      [⟨connection, postWrite (stamp input out) remoteInput immediate inlined
        solicited⟩] := by
  unfold post
  rw [known]
  exact ⟨_, rfl⟩

/-- Whatever its size, a write carries the immediate. -/
theorem post_cases {connection : Nat} {remoteInput : RemoteBuffer}
    (known : executor.connections[connection]? = some remoteInput) (input : List UInt8)
    (out : RemoteBuffer) (size : Int) (immediate : BitVec 32) (solicited : Bool) :
    ∃ write, executor.post connection input out size immediate solicited = [⟨connection, write⟩] ∧
      ntohl write.immData = immediate := by
  unfold post
  rw [known]
  dsimp only
  split <;> exact ⟨_, rfl, ntohl_htonl _⟩

theorem advance_invocId_lt (small : executor.invocId.toNat < 2 ^ 16) :
    executor.advance.invocId.toNat < 2 ^ 16 := by
  unfold advance
  dsimp only
  split
  · decide
  · rename_i below
    have next : (executor.invocId + 1).toNat = executor.invocId.toNat + 1 := by
      rw [BitVec.toNat_add]
      exact Nat.mod_eq_of_lt (by show executor.invocId.toNat + 1 < 2 ^ 32; omega)
    have different : (executor.invocId + 1).toNat ≠ 65536 := fun same =>
      below (BitVec.eq_of_toNat_eq same)
    omega

end Executor

/-- A write with an explicit size holds the header. -/
def Call.Headed : Call → Prop
  | .async _ _ _ size | .asyncCallback _ _ _ _ size | .asyncCallback2 _ _ _ _ _ size =>
    size = -1 ∨ dataHeaderSize ≤ (UInt32.ofInt size).toNat
  | _ => True

namespace Executor

theorem of_mem_post {executor : Executor} {connection : Nat} {input : List UInt8}
    {out : RemoteBuffer} {size : Int} {immediate : BitVec 32} {solicited : Bool} {posted : Posted}
    (member : posted ∈ executor.post connection input out size immediate solicited) :
    executor.connections[posted.connection]? = some posted.write.remote ∧
      ((size = -1 ∨ dataHeaderSize ≤ (UInt32.ofInt size).toNat) →
        dataHeaderSize ≤ posted.write.data.length) := by
  have long : dataHeaderSize ≤ (stamp input out).length := by
    rw [stamp, List.length_append, length_bytes]
    exact Nat.le_add_right _ _
  unfold post at member
  split at member
  · cases member
  · rename_i remoteInput known
    dsimp only at member
    split at member
    · rename_i sized
      rw [List.mem_singleton.mp member]
      refine ⟨known, fun headed => ?_⟩
      show _ ≤ (List.take _ _).length
      rw [List.length_take]
      exact Nat.le_min.mpr ⟨headed.resolve_left sized, long⟩
    · rw [List.mem_singleton.mp member]
      exact ⟨known, fun _ => long⟩

theorem of_mem_postAll {executor : Executor} {inputs : List (List UInt8)}
    {outs : List RemoteBuffer} {immediate : BitVec 32} {solicited : Bool} {posted : Posted}
    (member : posted ∈ executor.postAll inputs outs immediate solicited) :
    executor.connections[posted.connection]? = some posted.write.remote ∧
      dataHeaderSize ≤ posted.write.data.length := by
  obtain ⟨connection, _, inside⟩ := List.mem_flatMap.mp member
  split at inside
  · exact (of_mem_post inside).imp_right fun long => long (Or.inl rfl)
  · cases inside

theorem of_mem_invoke {executor : Executor} {fname : String} {listener : Listener}
    {posts : BitVec 32 → BitVec 32 → List Posted} {posted : Posted}
    (member : posted ∈ (executor.invoke fname listener posts).2) :
    ∃ invocId funcIdx, posted ∈ posts invocId funcIdx := by
  rcases executor.invoke_cases fname listener posts with ⟨_, same⟩ | ⟨funcIdx, _, issued⟩
  · rw [same] at member
    cases member
  · rw [issued] at member
    exact ⟨_, funcIdx, member⟩

/-- Every write of a call goes to the input buffer of its connection and holds a header. -/
theorem of_mem_issue {executor : Executor} {call : Call} {posted : Posted}
    (member : posted ∈ (executor.issue call).2) :
    executor.connections[posted.connection]? = some posted.write.remote ∧
      (call.Headed → dataHeaderSize ≤ posted.write.data.length) := by
  cases call with
  | async fname input out size =>
    replace member : posted ∈ (executor.async fname input out size).2 := member
    unfold async at member
    split at member
    · cases member
    · exact of_mem_post member
  | asyncCallback | asyncCallback2 =>
    obtain ⟨_, _, inside⟩ := of_mem_invoke member
    exact of_mem_post inside
  | execute =>
    obtain ⟨_, _, inside⟩ := of_mem_invoke member
    exact (of_mem_post inside).imp_right fun long _ => long (Or.inl rfl)
  | asyncVector | executeVector =>
    obtain ⟨_, _, inside⟩ := of_mem_invoke member
    exact (of_mem_postAll inside).imp_right fun long _ => long

end Executor

end RFaaS.Client
