import RFaaS.Executors
import RFaaS.ExecutorDB
import RFaaS.Messages
import RFaaS.Transition
import RFaaS.Conservation
import RFaaS.Closing
import RFaaS.FreeList
import RFaaS.RecvQueue
import RFaaS.Slots
import RFaaS.ExecutorManager
import RFaaS.GiveBack
import RFaaS.LeaseId
import RFaaS.Bytes
import RFaaS.Invocation
import RFaaS.Client
import RFaaS.FastExecutor
import RFaaS.Session
import RFaaS.Serving
import RFaaS.Isolation
import RFaaS.Synchronous
import RFaaS.Phases
import RFaaS.Execute
import RFaaS.InvocationId
import RFaaS.Callbacks
import RFaaS.Futures
import RFaaS.Stretch
import RFaaS.Billing
import RFaaS.Ledger
import RFaaS.Wakeup
import RFaaS.Credits
import RFaaS.SharedQueue
import RFaaS.Allocation
import RFaaS.Joining
import RFaaS.Registry
import RFaaS.ReceiveBuffers
import RFaaS.PrivateData
import RFaaS.Reload
import RFaaS.LeaseCounter
import RFaaS.Occupancy
import RFaaS.SharedCompletions
import RFaaS.Lifetime
import RFaaS.Effects
import RFaaS.ConnectionLifetime
import RFaaS.Processes
import RFaaS.Enforcement
import RFaaS.Crew
import RFaaS.ResourceManager
import RFaaS.ClientHoldings
import RFaaS.PollSend
import RFaaS.BatchLoops
import RFaaS.ParallelExecute
import RFaaS.QuiescentExecute
import RFaaS.MixedCalls
import RFaaS.Granting
import RFaaS.Overcommit
import RFaaS.CString
import RFaaS.NodeNames
import RFaaS.LeaseReceives
import RFaaS.ReceiveLayout
import RFaaS.Posting
import RFaaS.BitField
import RFaaS.PrivateFields
import RFaaS.Capacity
import RFaaS.HotPolling
import RFaaS.LastBill
import RFaaS.Inlining
import RFaaS.Http
import RFaaS.AllocationTime
import RFaaS.LoopsAgree
import RFaaS.CircularBuffer
import RFaaS.CircularList
import RFaaS.ReaderWriterQueue
import RFaaS.QueueLayout
import RFaaS.QueueInvariant
import RFaaS.QueueSteps
import RFaaS.BitSpread
import RFaaS.QueueSize
import RFaaS.Since
import RFaaS.QueueFifo
import RFaaS.QueueProgress
import RFaaS.QueueDestructor
import RFaaS.LightweightSemaphore
import RFaaS.BlockingQueue
import RFaaS.BlockingProgress
import RFaaS.Simulation
import RFaaS.QueueCalls
import RFaaS.Handover
import RFaaS.ManagerThreads
import RFaaS.ClientThreads
