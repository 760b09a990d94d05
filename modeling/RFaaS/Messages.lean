/-
This file has the messages of the control plane (`server/common/messages.hpp`,
`rfaas/allocation.hpp`), with the fields that the modelled handlers read or
write.
-/

import Mathlib.Data.Int.Basic

namespace RFaaS

/-- The answer of the resource manager to a client's lease request. -/
structure LeaseResponse where
  leaseId : Int32
  port : Int
  address : String
  deriving DecidableEq

/-- What an executor manager sends to the resource manager when a client ends. -/
structure LeaseDeallocation where
  leaseId : Int32
  allocationTime : UInt64
  hotPollingTime : UInt64
  executionTime : UInt64
  deriving DecidableEq

/-- What a client sends to an executor manager. A non-negative `leaseId` asks for an executor
under that lease, a negative one announces that the client leaves. -/
structure AllocationRequest where
  leaseId : Int32
  cores : Int
  deriving DecidableEq

/-- `LeaseStatus::status`, the answer of an executor manager to an allocation request. -/
inductive LeaseStatus
  | allocated
  | unknown
  deriving DecidableEq

end RFaaS
