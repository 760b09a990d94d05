/-
This file is about the memory behind prepared receives.
`RecvWorkCompletions::initialize_batched_recv` prepares 32 receives on
consecutive stretches of a buffer, whatever the size of the buffer is. Six
places in the program call it (through `initialize`), each with a buffer of its
own: two of them size the buffer for 32 messages, one for 8, and three take the
number from the device settings (`default_receive_buffer_size`). The client's
connection to an executor manager keeps the request that it sends behind the
statuses that it receives, in the same buffer.
-/

import RFaaS.Executors
import RFaaS.RecvQueue

namespace RFaaS

open RecvWorkCompletions

/-! ### The buffers -/

/-- `executor_manager::Client::RECV_BUF_SIZE`. -/
def ExecutorManager.clientRecvBufSize : Nat := 8

/-- `resource_manager::Client::RECV_BUF_SIZE`. -/
def ResourceManager.clientRecvBufSize : Nat := 32

/-- `sizeof(AllocationRequest)`. -/
def allocationRequestBytes : Nat := 48

/-- `sizeof(LeaseRequest)`, with the padding behind the number of cores. -/
def leaseRequestBytes : Nat := 8

/-- `sizeof(LeaseResponse)`. -/
def leaseResponseBytes : Nat := 24

/-- `sizeof(LeaseAllocation)`. -/
def leaseAllocationBytes : Nat := 16

/-- `sizeof(LeaseStatus)`. -/
def leaseStatusBytes : Nat := 4

/-- Where receives are initialised on a buffer. -/
inductive ReceiveSite
  /-- `executor_manager::Client::Client`. -/
  | executorManagerClient
  /-- `resource_manager::Client::Client`. -/
  | resourceManagerClient
  /-- `resource_manager::Executor::initialize_connection`. -/
  | resourceManagerExecutor
  /-- `executor_manager::ResourceManagerConnection::connect`. -/
  | resourceManagerConnection
  /-- `rfaas::manager_connection::connect`. -/
  | managerConnection
  /-- `rfaas::resource_mgr_connection::connect`. -/
  | resourceMgrConnection
  deriving DecidableEq

namespace ReceiveSite

/-- The buffer as it is allocated, where the device settings say `size`. -/
def allocated (region size : Nat) : ReceiveSite → Buffer
  | executorManagerClient =>
    Buffer.allocate ExecutorManager.clientRecvBufSize allocationRequestBytes 0 region
  | resourceManagerClient =>
    Buffer.allocate ResourceManager.clientRecvBufSize leaseRequestBytes 0 region
  | resourceManagerExecutor =>
    Buffer.allocate (Executor.recvBufSize * Executor.msgSize) 1 0 region
  | resourceManagerConnection => Buffer.allocate size leaseAllocationBytes 0 region
  | managerConnection =>
    Buffer.allocate (leaseStatusBytes * size + allocationRequestBytes) 1 0 region
  | resourceMgrConnection => Buffer.allocate size leaseResponseBytes 0 region

/-- The buffer that is passed to `initialize`: it has been registered. -/
def buffer (region size : Nat) (site : ReceiveSite) : Buffer :=
  (site.allocated region size).registerMemory

/-- The stride that is passed to `initialize`; `none` is the default. -/
def stride : ReceiveSite → Option Nat
  | resourceManagerExecutor => some Executor.msgSize
  | managerConnection => some leaseStatusBytes
  | _ => none

end ReceiveSite

/-! ### Where the receives lie -/

namespace ScatterGatherElement

/-- The stretch lies in the bytes of the buffer that were registered, and is accessed under that
registration. -/
structure Within (element : ScatterGatherElement) (buffer : Buffer) : Prop where
  region : element.region = buffer.ptr
  lkey : element.lkey = buffer.mr
  bytes : element.offset + element.length ≤ buffer.bytes

/-- The stretch has no byte in common with the `length` bytes from `offset` on. -/
def Apart (element : ScatterGatherElement) (offset length : Nat) : Prop :=
  element.offset + element.length ≤ offset ∨ offset + length ≤ element.offset

end ScatterGatherElement

namespace RecvWorkCompletions

theorem prepared_sgList (queue : RecvWorkCompletions) (buffer : Buffer) (stride : Nat)
    {index : Nat} (inside : index < rbatch) :
    ((queue.initializeBatchedRecv buffer stride).batch index).sgList =
      [buffer.sge stride (index * stride)] := by
  simp only [initializeBatchedRecv, if_pos inside]

/-- All stretches lie in the buffer exactly if it holds 32 strides. -/
theorem sge_within_iff (buffer : Buffer) (stride : Nat) :
    (∀ index < rbatch, (buffer.sge stride (index * stride)).Within buffer) ↔
      rbatch * stride ≤ buffer.bytes := by
  constructor
  · intro within
    have last := (within 31 (by decide)).bytes
    exact (Nat.succ_mul 31 stride).trans_le last
  · intro fits index inside
    refine ⟨rfl, rfl, ?_⟩
    calc index * stride + stride = (index + 1) * stride := (Nat.succ_mul index stride).symm
      _ ≤ rbatch * stride := Nat.mul_le_mul_right stride inside
      _ ≤ buffer.bytes := fits

end RecvWorkCompletions

namespace ReceiveSite

/-- The receives of a site: each prepared one lies in the registered bytes of the buffer, and in
the client's connection to an executor manager it does not touch the outgoing request. -/
def Contained (site : ReceiveSite) (region size : Nat) : Prop :=
  ∀ (queue : RecvWorkCompletions) (index : Nat), index < rbatch → ∀ element ∈
    ((queue.initializeBatchedRecv (site.buffer region size)
      (site.stride.getD (site.buffer region size).byteSize)).batch index).sgList,
    element.Within (site.buffer region size) ∧
      (site = .managerConnection →
        element.Apart (leaseStatusBytes * size) allocationRequestBytes)

theorem prepared_bytes (site : ReceiveSite) (region size : Nat) :
    rbatch * site.stride.getD (site.buffer region size).byteSize =
      match site with
      | executorManagerClient => 1536
      | resourceManagerClient => 256
      | resourceManagerExecutor => 1152
      | resourceManagerConnection => 512
      | managerConnection => 128
      | resourceMgrConnection => 768 := by
  cases site <;> rfl

theorem buffer_bytes (site : ReceiveSite) (region size : Nat) :
    (site.buffer region size).bytes =
      match site with
      | executorManagerClient => 384
      | resourceManagerClient => 256
      | resourceManagerExecutor => 1152
      | resourceManagerConnection => size * 16
      | managerConnection => 4 * size + 48
      | resourceMgrConnection => size * 24 := by
  cases site with
  | managerConnection => exact Nat.mul_one _
  | _ => rfl

theorem contained_iff_bytes (site : ReceiveSite) (region size : Nat) :
    site.Contained region size ↔
      rbatch * site.stride.getD (site.buffer region size).byteSize ≤
          (site.buffer region size).bytes ∧
        (site = .managerConnection → rbatch ≤ size) := by
  rw [← sge_within_iff]
  constructor
  · intro contained
    have each : ∀ index < rbatch, _ := fun index inside =>
      contained (construct 0) index inside _ (by
        rw [prepared_sgList _ _ _ inside]
        exact List.mem_singleton_self _)
    refine ⟨fun index inside => (each index inside).1, ?_⟩
    rintro rfl
    by_contra few
    -- the stretch behind the last status is the beginning of the request
    have overlap := (each size (not_le.mp few)).2 rfl
    simp only [ScatterGatherElement.Apart, Buffer.sge, stride, Option.getD_some, leaseStatusBytes,
      allocationRequestBytes] at overlap
    omega
  · rintro ⟨within, enough⟩ queue index inside element member
    rw [prepared_sgList _ _ _ inside, List.mem_singleton] at member
    subst member
    refine ⟨within index inside, ?_⟩
    rintro rfl
    have places := enough rfl
    refine Or.inl ?_
    simp only [Buffer.sge, stride, Option.getD_some, leaseStatusBytes]
    omega

/-- The receives of the two sites of the resource manager stay inside their buffers. Those of the
three sites that follow the device settings do exactly if the settings say 32 or more, and those
of the executor manager's clients never do. -/
theorem contained_iff (site : ReceiveSite) (region size : Nat) :
    site.Contained region size ↔
      site = .resourceManagerClient ∨ site = .resourceManagerExecutor ∨
        site ≠ .executorManagerClient ∧ rbatch ≤ size := by
  rw [contained_iff_bytes, prepared_bytes, buffer_bytes, rbatch]
  cases site <;> simp <;> omega

/-- The buffer for the requests of a client of the executor manager has 8 places, and the ninth
receive begins where it ends. With 16 places in the device settings, the client library receives
statuses in the request it sends. -/
theorem ninth_request_outside :
    ¬ ReceiveSite.executorManagerClient.Contained 0 32 ∧
      ¬ ReceiveSite.managerConnection.Contained 0 16 ∧
      (let prepared := (construct 32).initializeBatchedRecv
        (ReceiveSite.executorManagerClient.buffer 0 32) 48
      (prepared.batch 8).sgList = [⟨some 0, 384, 48, some 0⟩]) ∧
      (ReceiveSite.executorManagerClient.buffer 0 32).bytes = 384 := by
  refine ⟨?_, ?_, by decide, by decide⟩
  all_goals
    rw [contained_iff_bytes]
    decide

end ReceiveSite

end RFaaS
