/-
This file is about messages that are sent inline. A queue pair takes an inline
message only up to a limit (`max_inline_data`); `ibv_post_send` refuses a longer
one, and then no completion comes for it. Every sender compares the limit with a
size of its own and asks for an inline send if the size is not larger.

The senders have three notions of size. The resource manager
(`server/resource_manager/manager.cpp`) and the worker for its buffer
information (`server/executor/fast_executor.cpp`) compare the limit with
`Buffer::size()`, which counts elements: 1 for a message of 16 or 24 bytes. The
worker for its results and the client library for whole buffers
(`rfaas/executor.hpp`) compare it with the number of bytes. Where the caller of
the client library gives a size, it is compared as a signed number of 64 bits
and sent as an unsigned one of 32.

The limit that is compared is that of the device. The servers create their queue
pairs with it. The client library does not: its queue pairs are created with the
default of 0 bytes (`rfaas/lib/executor.cpp`), and take no input inline.
-/

import RFaaS.Client
import RFaaS.Allocation
import RFaaS.FastExecutor
import RFaaS.ReceiveLayout

namespace RFaaS

open Transition

/-- `Buffer::size()`: elements, and the bytes of the header. -/
def Buffer.totalSize (buffer : Buffer) : Nat := buffer.size + buffer.header

/-- `ScatterGatherElement(buf)`. -/
def Buffer.whole (buffer : Buffer) : ScatterGatherElement := buffer.sge buffer.bytes 0

/-- What `ibv_post_send` gets, as far as its size is concerned. -/
structure SendRequest where
  sgList : List ScatterGatherElement
  inline : Bool
  deriving DecidableEq

namespace SendRequest

/-- The total length of the scatter-gather list. -/
def length (request : SendRequest) : Nat :=
  (request.sgList.map ScatterGatherElement.length).sum

/-- `ibv_post_send` on a queue pair with a limit. -/
def accepted (limit : Nat) (request : SendRequest) : Bool :=
  !request.inline || decide (request.length ≤ limit)

/-- An inline message is not longer than the limit. -/
def Respects (limit : Nat) (request : SendRequest) : Prop :=
  request.inline = true → request.length ≤ limit

instance (limit : Nat) (request : SendRequest) : Decidable (request.Respects limit) :=
  inferInstanceAs (Decidable (_ → _))

theorem accepted_iff {limit : Nat} {request : SendRequest} :
    request.accepted limit = true ↔ request.Respects limit := by
  rw [accepted, Respects, Bool.or_eq_true, Bool.not_eq_true', decide_eq_true_iff]
  cases request.inline with
  | false => simp
  | true => simp

end SendRequest

/-! ### The senders -/

/-- A buffer with one message, of which the whole is sent, inline if its number of elements is
not above the limit. -/
def postMessage (byteSize limit : Nat) : SendRequest :=
  let buffer := (Buffer.allocate 1 byteSize 0 0).registerMemory
  { sgList := [buffer.whole], inline := decide (buffer.totalSize ≤ limit) }

/-- `_handle_client_message`: the answer to the client, with or without a lease. -/
def postLeaseResponse (limit : Nat) : SendRequest := postMessage leaseResponseBytes limit

/-- `_handle_client_message`: the message to the executor manager. -/
def postLeaseAllocation (limit : Nat) : SendRequest := postMessage leaseAllocationBytes limit

/-- `Thread::thread_work`: the message to the client. -/
def postBufferInformation (limit : Nat) : SendRequest :=
  postMessage Client.BufferInformation.byteSize limit

/-- `Thread::work`: the result of a function. -/
def postResult (send : Buffer) (outSize : UInt32) (limit : Nat) : SendRequest where
  sgList := [send.sge outSize.toNat 0]
  inline := decide (outSize.toNat ≤ limit)

/-- The input of an invocation, in all calls of the client library. -/
def postInput (input : Buffer) (size : Int) (limit : Nat) : SendRequest :=
  if size ≠ -1 then
    { sgList := [input.sge (UInt32.ofInt size).toNat 0], inline := decide (size ≤ limit) }
  else
    { sgList := [input.whole], inline := decide (input.bytes ≤ limit) }

/-- The limit that the client asks for when it creates the queue pairs of its workers: the
constructor of `executor` passes none to `RDMAPassive`. -/
def Client.queuePairLimit : Nat := 0

/-- What is sent inline if it is small enough. -/
inductive InlineMessage
  | leaseResponse
  | leaseAllocation
  | bufferInformation
  | result (send : Buffer) (outSize : UInt32)
  | input (buffer : Buffer) (size : Int)

namespace InlineMessage

def request (limit : Nat) : InlineMessage → SendRequest
  | .leaseResponse => postLeaseResponse limit
  | .leaseAllocation => postLeaseAllocation limit
  | .bufferInformation => postBufferInformation limit
  | .result send outSize => postResult send outSize limit
  | .input buffer size => postInput buffer size limit

/-- The limit of the queue pair that a message is posted on, on a device with a limit. -/
def queuePairLimit (limit : Nat) : InlineMessage → Nat
  | .input _ _ => Client.queuePairLimit
  | _ => limit

/-- The limits and sizes for which a sender is right. -/
def Sound (limit : Nat) : InlineMessage → Prop
  | .leaseResponse => limit = 0 ∨ leaseResponseBytes ≤ limit
  | .leaseAllocation => limit = 0 ∨ leaseAllocationBytes ≤ limit
  | .bufferInformation => limit = 0 ∨ Client.BufferInformation.byteSize ≤ limit
  | .result _ _ => True
  | .input buffer size =>
    if size ≠ -1 then limit < size ∨ (UInt32.ofInt size).toNat = 0
    else limit < buffer.bytes ∨ buffer.bytes = 0

end InlineMessage

/-! ### Which senders keep the limit -/

theorem postMessage_respects_iff (byteSize limit : Nat) :
    (postMessage byteSize limit).Respects limit ↔ limit = 0 ∨ byteSize ≤ limit := by
  have inline : (postMessage byteSize limit).inline = decide (1 ≤ limit) := rfl
  have length : (postMessage byteSize limit).length = byteSize := by
    simp [postMessage, SendRequest.length, Buffer.whole, Buffer.sge, Buffer.registerMemory,
      Buffer.allocate]
  rw [SendRequest.Respects, inline, length, decide_eq_true_iff]
  omega

theorem postResult_respects (send : Buffer) (outSize : UInt32) (limit : Nat) :
    (postResult send outSize limit).Respects limit := by
  have length : (postResult send outSize limit).length = outSize.toNat := Nat.add_zero _
  intro inline
  rw [length]
  exact of_decide_eq_true inline

/-- What a queue pair with another limit than the device takes of the inputs. -/
theorem postInput_respects_iff (input : Buffer) (size : Int) (limit queuePair : Nat) :
    (postInput input size limit).Respects queuePair ↔
      if size ≠ -1 then limit < size ∨ (UInt32.ofInt size).toNat ≤ queuePair
      else limit < input.bytes ∨ input.bytes ≤ queuePair := by
  have length (element : ScatterGatherElement) :
      ([element].map ScatterGatherElement.length).sum = element.length := Nat.add_zero _
  rw [SendRequest.Respects, SendRequest.length, postInput]
  split
  all_goals
    rw [length, decide_eq_true_iff, imp_iff_not_or, not_le]
    rfl

/-- The device and the queue pair take a message exactly if its sender is right. -/
theorem InlineMessage.respects_iff (limit : Nat) (message : InlineMessage) :
    (message.request limit).Respects limit ∧
        (message.request limit).Respects (message.queuePairLimit limit) ↔ message.Sound limit := by
  cases message with
  | leaseResponse | leaseAllocation | bufferInformation =>
    exact (and_self_iff).trans (postMessage_respects_iff _ limit)
  | result send outSize =>
    exact (and_self_iff).trans (iff_of_true (postResult_respects send outSize limit) trivial)
  | input buffer size =>
    -- the limit of the queue pair is the smaller one
    rw [and_iff_right_of_imp fun taken inline => (taken inline).trans (Nat.zero_le limit)]
    refine (postInput_respects_iff buffer size limit 0).trans ?_
    rw [Nat.le_zero, Nat.le_zero]
    rfl

/-! ### Waiting for the completion -/

/-- A connection on which every message is followed by a blocking poll of the send queue: the
completions that will come, and whether a poll waits for one that will not. -/
structure SendLine where
  pending : Nat
  stuck : Bool
  deriving DecidableEq

namespace SendLine

def start : SendLine := ⟨0, false⟩

/-- A message is posted, and a completion is waited for. -/
def step (limit : Nat) (line : SendLine) (message : InlineMessage) : SendLine :=
  if line.stuck then line
  else
    match line.pending +
      ((message.request limit).accepted (message.queuePairLimit limit)).toNat with
    | 0 => ⟨0, true⟩
    | pending + 1 => ⟨pending, false⟩

/-- A poll that waits for nothing never returns. -/
theorem run_stuck (limit : Nat) (messages : List InlineMessage) {line : SendLine}
    (stuck : line.stuck = true) : (run (step limit) line messages).stuck = true := by
  have preserved : ∀ (line : SendLine) message, line.stuck = true →
      (line.step limit message).stuck = true := by
    intro line message stuck
    rw [step, if_pos stuck]
    exact stuck
  exact run_stable preserved messages stuck

/-- Every poll returns exactly if every message was accepted. -/
theorem run_stuck_iff (limit : Nat) (messages : List InlineMessage) :
    (run (step limit) start messages).stuck = false ↔
      ∀ message ∈ messages,
        (message.request limit).accepted (message.queuePairLimit limit) = true := by
  induction messages with
  | nil => simp [start]
  | cons message rest inductionHypothesis =>
    rw [run_cons, List.forall_mem_cons]
    cases taken : (message.request limit).accepted (message.queuePairLimit limit) with
    | true =>
      have next : start.step limit message = start := by simp [step, start, taken]
      rw [next, inductionHypothesis, and_iff_right rfl]
    | false =>
      have next : (start.step limit message).stuck = true := by simp [step, start, taken]
      rw [run_stuck limit rest next]
      simp

end SendLine

/-- Whatever is sent on a device with whatever limit: all inline messages respect the limit and no
poll for a completion waits in vain exactly if every sender of a single message has a limit of zero
or one that its bytes fit into, and the client library inlines no input but an empty one. -/
theorem inlined_sends_respected_iff (limit : Nat) (messages : List InlineMessage) :
    ((∀ message ∈ messages, (message.request limit).Respects limit) ∧
        (run (SendLine.step limit) SendLine.start messages).stuck = false) ↔
      ∀ message ∈ messages, message.Sound limit := by
  have accepted : (∀ message ∈ messages,
      (message.request limit).accepted (message.queuePairLimit limit) = true) ↔
      ∀ message ∈ messages, (message.request limit).Respects (message.queuePairLimit limit) :=
    forall₂_congr fun _ _ => SendRequest.accepted_iff
  rw [SendLine.run_stuck_iff, accepted, ← forall₂_and]
  exact forall₂_congr fun message _ => message.respects_iff limit

/-- A device that takes up to 16 bytes: the answer of the resource manager has 24, and the poll
for its completion does not return. On a device that takes up to 128, the client sends an input of
20 bytes inline, which its queue pair does not take. -/
theorem long_response_inlined :
    let request := InlineMessage.leaseResponse.request 16
    let input := InlineMessage.input (Buffer.allocate 20 1 0 0).registerMemory (-1)
    (request.inline = true ∧ request.length = 24 ∧ ¬request.Respects 16 ∧
      (run (SendLine.step 16) SendLine.start [.leaseResponse]).stuck = true) ∧
    (input.request 128).inline = true ∧ (input.request 128).length = 20 ∧
      (run (SendLine.step 128) SendLine.start [input]).stuck = true := by
  decide

/-! ### The other models of the senders -/

/-- The worker thread decides about its results in the same way. -/
theorem FastExecutor.Thread.reply_inlined (thread : FastExecutor.Thread)
    (task : FastExecutor.Task) (outSize : UInt32) (send : Buffer) :
    (thread.reply task outSize).inlined =
      (postResult send outSize thread.maxInlineData.toNat).inline :=
  decide_eq_decide.mpr UInt32.le_iff_toNat_le

/-- So does the client, for an input buffer that holds these bytes. -/
theorem Client.Executor.post_inlined {executor : Client.Executor} {limit : Nat}
    (device : executor.maxInlineData = limit) {buffer : Buffer} {input : List UInt8}
    (bytes : buffer.bytes = input.length) (header : Submission.dataHeaderSize ≤ input.length)
    (connection : Nat) (out : RemoteBuffer) (size : Int) (immediate : BitVec 32)
    (solicited : Bool) :
    ∀ posted ∈ executor.post connection input out size immediate solicited,
      posted.write.inlined = (postInput buffer size limit).inline := by
  intro posted member
  unfold post at member
  split at member
  · exact absurd member List.not_mem_nil
  · dsimp only at member
    by_cases whole : size = -1
    · rw [if_neg (not_not.mpr whole), List.mem_singleton] at member
      rw [member, postInput, if_neg (not_not.mpr whole)]
      dsimp only [postWrite]
      rw [Submission.length_stamp out header, device, bytes]
      exact decide_eq_decide.mpr Int.ofNat_le
    · rw [if_pos whole, List.mem_singleton] at member
      rw [member, postInput, if_pos whole, device]
      rfl

end RFaaS
