/-
This file models the receive side of a connection (`rdmalib/queue.hpp`,
`rdmalib/lib/queue.cpp`): a chain of 32 prepared work requests, the batched
posting of receives from that chain, and the refill that tops the posted
receives up.

A call of `ibv_post_recv` walks the chain from its first element and may fail
after accepting a part of it; which call fails and where is an argument of the
model. The file proves what a batched post hands to the queue pair: from the
chain that the constructor builds, the ids from 0 on, over and over.
-/

import RFaaS.Buffer
import Mathlib.Data.List.Basic
import Mathlib.Logic.Function.Basic

namespace RFaaS

open List Function

/-! ### The prepared chain -/

/-- A receive as the queue pair holds it. -/
structure Receive where
  wrId : Nat
  sgList : List ScatterGatherElement
  deriving DecidableEq, Repr

/-- `ibv_recv_wr`; `next` is an index into the same array. -/
structure WorkRequest extends Receive where
  next : Option Nat
  deriving DecidableEq, Repr

/-- `RecvWorkCompletions::_rbatch`. -/
def rbatch : Nat := 32

/-- `RecvWorkCompletions::DEFAULT_REFILL_THRESHOLD`. -/
def defaultRefillThreshold : Int := 256

/-- `RecvWorkCompletions`. The array `_batch_wrs` is a function of which the first `rbatch`
values are used. -/
structure RecvWorkCompletions where
  hasQueuePair : Bool
  rcvBufSize : Int
  refillThreshold : Int
  requests : Int
  batch : Nat → WorkRequest

namespace RecvWorkCompletions

/-- The chain that the constructor builds: each element points to the next one. -/
def freshBatch (index : Nat) : WorkRequest where
  wrId := index
  sgList := []
  next := if index + 1 < rbatch then some (index + 1) else none

/-- The requests that `ibv_post_recv` finds when it is given the element at `start`. No chain is
longer than the array. -/
def walk (batch : Nat → WorkRequest) : Nat → Option Nat → List WorkRequest
  | 0, _ => []
  | _ + 1, none => []
  | fuel + 1, some start => batch start :: walk batch fuel (batch start).next

/-- The chain from the head of the array. -/
def chain (batch : Nat → WorkRequest) : List WorkRequest := walk batch rbatch (some 0)

/-- `ibv_post_recv`: success, and the receives that the queue pair takes. With `some accepted`
the call fails after that many requests. -/
def ibvPostRecv (failure : Option Nat) (requests : List WorkRequest) : Bool × List Receive :=
  match failure with
  | none => (true, requests.map WorkRequest.toReceive)
  | some accepted => (false, (requests.take accepted).map WorkRequest.toReceive)

/-- The loop of `post_batched_empty_recv` over whole chains; it stops at the first failure.
`call` counts the calls of `ibv_post_recv`. -/
def postWhole (batch : Nat → WorkRequest) (failures : Nat → Option Nat) (call : Nat) :
    Nat → Bool × List Receive
  | 0 => (true, [])
  | loops + 1 =>
    match ibvPostRecv (failures call) (chain batch) with
    | (false, accepted) => (false, accepted)
    | (true, accepted) =>
      let (success, more) := postWhole batch failures (call + 1) loops
      (success, accepted ++ more)

/-- Assignment to the `next` pointer of one element. -/
def setNext (batch : Nat → WorkRequest) (index : Nat) (next : Option Nat) : Nat → WorkRequest :=
  update batch index { batch index with next := next }

/-- `post_batched_empty_recv`: the value returned, the receives that are posted, and the
object afterwards. The last chain is cut behind its last element for the call and joined
again. -/
def postBatchedEmptyRecv (queue : RecvWorkCompletions) (failures : Nat → Option Nat)
    (count : Int) : Int × List Receive × RecvWorkCompletions :=
  let loops := (count.tdiv rbatch).toNat
  let reminder := (count.tmod rbatch).toNat
  let (success, posted) := postWhole queue.batch failures 0 loops
  if success && decide (0 < reminder) then
    let cut := setNext queue.batch (reminder - 1) none
    let (lastSuccess, last) := ibvPostRecv (failures loops) (chain cut)
    (if lastSuccess then count else -1, posted ++ last,
      { queue with batch := setNext cut (reminder - 1) (some reminder) })
  else
    (if success then count else -1, posted, queue)

/-- `refill`: the value returned, the receives posted, and the object afterwards. The value
returned by `post_batched_empty_recv` is not looked at. -/
def refill (queue : RecvWorkCompletions) (failures : Nat → Option Nat) :
    Bool × List Receive × RecvWorkCompletions :=
  if queue.requests < queue.refillThreshold then
    let (_, posted, next) :=
      queue.postBatchedEmptyRecv failures (queue.rcvBufSize - queue.requests)
    (true, posted, { next with requests := queue.rcvBufSize })
  else (false, [], queue)

/-- `RecvWorkCompletions(rcv_buf_size, nullptr)`, as `Connection` constructs it. -/
def construct (rcvBufSize : Int) : RecvWorkCompletions where
  hasQueuePair := false
  rcvBufSize := rcvBufSize
  refillThreshold := min rcvBufSize defaultRefillThreshold
  requests := 0
  batch := freshBatch

/-- `set_qp`. -/
def setQp (queue : RecvWorkCompletions) : RecvWorkCompletions := { queue with hasQueuePair := true }

/-- `initialize_batched_recv`. -/
def initializeBatchedRecv (queue : RecvWorkCompletions) (buffer : Buffer) (offset : Nat) :
    RecvWorkCompletions :=
  { queue with batch := fun index =>
      if index < rbatch then
        { queue.batch index with sgList := [buffer.sge offset (index * offset)] }
      else queue.batch index }

/-- `initialize(receive_buffer, stride)`; `none` is the default stride, the size of a value of
the buffer. -/
def initialize_ (queue : RecvWorkCompletions) (failures : Nat → Option Nat) (buffer : Buffer)
    (stride : Option Nat) : List Receive × RecvWorkCompletions :=
  if queue.hasQueuePair then
    let prepared := queue.initializeBatchedRecv buffer (stride.getD buffer.byteSize)
    ({ prepared with requests := 0 }.refill failures).2
  else ([], queue)

/-- `update_requests`. -/
def updateRequests (queue : RecvWorkCompletions) (change : Int) : RecvWorkCompletions :=
  { queue with requests := queue.requests + change }

/-! ### What is posted -/

/-- The chain in the first `length` elements of the array: each points to its successor, the
last one to nothing. -/
def Linked (batch : Nat → WorkRequest) (length : Nat) : Prop :=
  ∀ index < length, (batch index).next = if index + 1 < length then some (index + 1) else none

theorem walk_eq {batch : Nat → WorkRequest} {length : Nat} (linked : Linked batch length)
    {fuel start : Nat} (inside : start < length) (enough : length - start ≤ fuel) :
    walk batch fuel (some start) = (range' start (length - start)).map batch := by
  induction fuel generalizing start with
  | zero => omega
  | succ fuel inductionHypothesis =>
    obtain ⟨left, amount⟩ : ∃ left, length - start = left + 1 := ⟨length - start - 1, by omega⟩
    rw [walk, linked start inside, amount, range'_succ, map_cons]
    split
    · rename_i more
      have rest : length - (start + 1) = left := by omega
      rw [inductionHypothesis more (by omega), rest]
    · have last : left = 0 := by omega
      rw [last]
      cases fuel <;> rfl

theorem chain_eq {batch : Nat → WorkRequest} {length : Nat} (linked : Linked batch length)
    (nonempty : 0 < length) (fits : length ≤ rbatch) :
    chain batch = (range length).map batch := by
  rw [chain, walk_eq linked nonempty (by omega), Nat.sub_zero, range_eq_range']

theorem setNext_setNext (batch : Nat → WorkRequest) (index : Nat) (first second : Option Nat) :
    setNext (setNext batch index first) index second = setNext batch index second := by
  unfold setNext
  rw [update_self, update_idem]

theorem setNext_next (batch : Nat → WorkRequest) (index : Nat) :
    setNext batch index (batch index).next = batch := by
  unfold setNext
  exact update_eq_self index batch

/-- Cutting the chain behind an element leaves the chain of the elements up to it. -/
theorem linked_setNext {batch : Nat → WorkRequest} (linked : Linked batch rbatch)
    {length : Nat} (nonempty : 0 < length) (fits : length ≤ rbatch) :
    Linked (setNext batch (length - 1) none) length := by
  intro index inside
  unfold setNext
  by_cases last : index = length - 1
  · rw [last, update_self, if_neg (by omega)]
  · rw [update_of_ne last, linked index (by omega), if_pos (by omega), if_pos (by omega)]

/-- No call of `ibv_post_recv` fails. -/
def accepting : Nat → Option Nat := fun _ => none

variable {queue : RecvWorkCompletions} {failures : Nat → Option Nat}

/-- The number of calls of `ibv_post_recv` that post `count` receives. -/
def calls (count : Nat) : Nat := count / rbatch + if count % rbatch = 0 then 0 else 1

/-- The ids on the chains of the first calls, all of which were whole. -/
def wholeIds (call : Nat) : List Nat := (replicate call (range rbatch)).flatten

/-- The ids of `count` receives posted from the head of the chain: whole chains, then a part of
one. -/
def batchIds (count : Nat) : List Nat :=
  wholeIds (count / rbatch) ++ range (count % rbatch)

theorem wholeIds_succ (call : Nat) : wholeIds (call + 1) = range rbatch ++ wholeIds call := by
  rw [wholeIds, replicate_succ, flatten_cons]
  rfl

theorem length_wholeIds (call : Nat) : (wholeIds call).length = call * rbatch := by
  rw [wholeIds, length_flatten, map_replicate, sum_replicate_nat, length_range]

theorem wholeIds_lt {call index : Nat} (member : index ∈ wholeIds call) : index < rbatch := by
  obtain ⟨ids, chains, inside⟩ := mem_flatten.mp member
  rw [eq_of_mem_replicate chains] at inside
  exact mem_range.mp inside

/-- The prepared receives with the given ids. -/
def prepared (batch : Nat → WorkRequest) (ids : List Nat) : List Receive :=
  ids.map fun index => (batch index).toReceive

theorem prepared_append (batch : Nat → WorkRequest) (first second : List Nat) :
    prepared batch (first ++ second) = prepared batch first ++ prepared batch second :=
  map_append

theorem chain_toReceive {batch : Nat → WorkRequest} (linked : Linked batch rbatch) :
    (chain batch).map WorkRequest.toReceive = prepared batch (range rbatch) := by
  rw [chain_eq linked (by decide) (Nat.le_refl _), map_map]
  rfl

/-- The loop over whole chains when no call fails. -/
theorem postWhole_of_accepted {batch : Nat → WorkRequest} (linked : Linked batch rbatch)
    {call loops : Nat} (accepted : ∀ index < loops, failures (call + index) = none) :
    postWhole batch failures call loops = (true, prepared batch (wholeIds loops)) := by
  induction loops generalizing call with
  | zero => rfl
  | succ loops inductionHypothesis =>
    have first : failures call = none := accepted 0 (Nat.succ_pos loops)
    have rest := @inductionHypothesis (call + 1) fun index inside => by
      rw [Nat.add_assoc, Nat.add_comm 1]
      exact accepted (index + 1) (Nat.succ_lt_succ inside)
    rw [postWhole, rest, first, wholeIds_succ, prepared_append, ← chain_toReceive linked]
    rfl

theorem chain_setNext_toReceive {batch : Nat → WorkRequest} (linked : Linked batch rbatch)
    {length : Nat} (nonempty : 0 < length) (fits : length ≤ rbatch) :
    (chain (setNext batch (length - 1) none)).map WorkRequest.toReceive =
      (range length).map fun index => (batch index).toReceive := by
  rw [chain_eq (linked_setNext linked nonempty fits) nonempty fits, map_map]
  refine map_congr_left fun index _ => ?_
  by_cases last : index = length - 1
  · rw [last, comp_apply, setNext, update_self]
  · rw [comp_apply, setNext, update_of_ne last]

/-- The chain is joined again where it was cut. -/
theorem setNext_restored {batch : Nat → WorkRequest} (linked : Linked batch rbatch)
    {length : Nat} (positive : 0 < length) (inside : length < rbatch) :
    setNext (setNext batch (length - 1) none) (length - 1) (some length) = batch := by
  have joined : (batch (length - 1)).next = some length := by
    rw [linked _ (by omega), if_pos (by omega)]
    congr 1
    omega
  rw [setNext_setNext, ← joined, setNext_next]

/-- A batched post leaves the object as it was, whichever calls fail. -/
theorem postBatchedEmptyRecv_queue (linked : Linked queue.batch rbatch)
    (failures : Nat → Option Nat) (count : Nat) :
    (queue.postBatchedEmptyRecv failures count).2.2 = queue := by
  have inside : count % rbatch < rbatch := Nat.mod_lt _ (by decide)
  have reminder : ((count : Int).tmod rbatch).toNat = count % rbatch := rfl
  simp only [postBatchedEmptyRecv, reminder]
  split
  · rename_i partly
    rw [Bool.and_eq_true, decide_eq_true_eq] at partly
    rw [setNext_restored linked partly.2 inside]
  · rfl

theorem postBatchedEmptyRecv_of_accepted (linked : Linked queue.batch rbatch) {count : Nat}
    (accepted : ∀ call < calls count, failures call = none) :
    (queue.postBatchedEmptyRecv failures count).1 = count ∧
      (queue.postBatchedEmptyRecv failures count).2.1 = prepared queue.batch (batchIds count) := by
  have loops : ((count : Int).tdiv rbatch).toNat = count / rbatch := rfl
  have reminder : ((count : Int).tmod rbatch).toNat = count % rbatch := rfl
  have inside : count % rbatch < rbatch := Nat.mod_lt _ (by decide)
  have whole := @postWhole_of_accepted failures _ linked 0 (count / rbatch) fun index below => by
    rw [Nat.zero_add]
    exact accepted index (Nat.lt_of_lt_of_le below (Nat.le_add_right _ _))
  simp only [postBatchedEmptyRecv, loops, reminder, whole, Bool.true_and, decide_eq_true_eq]
  split
  · rename_i partly
    have last : failures (count / rbatch) = none := by
      refine accepted _ ?_
      rw [calls, if_neg (Nat.pos_iff_ne_zero.mp partly)]
      exact Nat.lt_succ_self _
    simp only [last, ibvPostRecv, if_true,
      chain_setNext_toReceive linked partly (Nat.le_of_lt inside), batchIds, prepared_append]
    exact ⟨trivial, rfl⟩
  · rename_i noPart
    rw [batchIds, Nat.eq_zero_of_not_pos noPart, range_zero, append_nil]
    exact ⟨rfl, rfl⟩

theorem postBatchedEmptyRecv_accepting (linked : Linked queue.batch rbatch) (count : Nat) :
    queue.postBatchedEmptyRecv accepting count =
      ((count : Int), prepared queue.batch (batchIds count), queue) := by
  obtain ⟨returned, posted⟩ := postBatchedEmptyRecv_of_accepted linked fun _ _ => rfl
  exact Prod.ext returned (Prod.ext posted (postBatchedEmptyRecv_queue linked accepting count))

theorem batchIds_of_lt {count : Nat} (fits : count < rbatch) : batchIds count = range count := by
  rw [batchIds, Nat.div_eq_of_lt fits, Nat.mod_eq_of_lt fits]
  rfl

theorem batchIds_of_le {count : Nat} (fits : count ≤ rbatch) : batchIds count = range count := by
  rcases Nat.lt_or_eq_of_le fits with below | rfl
  · exact batchIds_of_lt below
  · decide

theorem length_batchIds (count : Nat) : (batchIds count).length = count := by
  rw [batchIds, length_append, length_wholeIds, length_range, Nat.mul_comm]
  exact Nat.div_add_mod count rbatch

/-! ### Connections whose receives are backed by a buffer -/

/-- The receives that are prepared on a buffer, by their ids. -/
def backedReceive (buffer : Buffer) (stride index : Nat) : Receive where
  wrId := index
  sgList := [buffer.sge stride (index * stride)]

/-- The object as `initialize` leaves it and every refill keeps it. -/
structure Backed (queue : RecvWorkCompletions) (size : Nat) (buffer : Buffer) (stride : Nat) :
    Prop where
  rcvBufSize : queue.rcvBufSize = size
  refillThreshold : queue.refillThreshold = min (size : Int) defaultRefillThreshold
  requests : queue.requests = size
  linked : Linked queue.batch rbatch
  receives : ∀ index < rbatch, (queue.batch index).toReceive = backedReceive buffer stride index

/-- A refill below the threshold posts what is missing. -/
theorem refill_accepting (queue : RecvWorkCompletions) (linked : Linked queue.batch rbatch)
    (below : queue.requests < queue.refillThreshold) {missing : Nat}
    (amount : queue.rcvBufSize - queue.requests = missing) :
    queue.refill accepting =
      (true, (batchIds missing).map (fun index => (queue.batch index).toReceive),
        { queue with requests := queue.rcvBufSize }) := by
  simp only [refill, if_pos below, amount, postBatchedEmptyRecv_accepting linked, prepared]

theorem freshBatch_linked : Linked freshBatch rbatch := fun _ _ => rfl

theorem initializeBatchedRecv_linked (queue : RecvWorkCompletions)
    (linked : Linked queue.batch rbatch) (buffer : Buffer) (offset : Nat) :
    Linked (queue.initializeBatchedRecv buffer offset).batch rbatch := by
  intro index inside
  simp only [initializeBatchedRecv, if_pos inside]
  exact linked index inside

theorem batchIds_lt {count index : Nat} (member : index ∈ batchIds count) : index < rbatch := by
  rcases mem_append.mp member with whole | partly
  · exact wholeIds_lt whole
  · exact Nat.lt_trans (mem_range.mp partly) (Nat.mod_lt _ (by decide))

/-- `initialize` posts one receive for each place in the receive buffer. -/
theorem initialize_backed {size : Nat} (positive : 0 < size) (buffer : Buffer)
    (stride : Option Nat) :
    ((construct size).setQp.initialize_ accepting buffer stride).1 =
        (batchIds size).map (backedReceive buffer (stride.getD buffer.byteSize)) ∧
      ((construct size).setQp.initialize_ accepting buffer stride).2.Backed size buffer
        (stride.getD buffer.byteSize) := by
  have linked := initializeBatchedRecv_linked (construct size).setQp
    freshBatch_linked buffer (stride.getD buffer.byteSize)
  have posted := refill_accepting
    { (construct size).setQp.initializeBatchedRecv buffer
      (stride.getD buffer.byteSize) with requests := 0 } linked
    (show (0 : Int) < min (size : Int) defaultRefillThreshold by
      unfold defaultRefillThreshold
      omega)
    (show (size : Int) - 0 = size by omega)
  have unfolded : (construct size).setQp.initialize_ accepting buffer stride =
      ({ (construct size).setQp.initializeBatchedRecv buffer
        (stride.getD buffer.byteSize) with requests := 0 }.refill accepting).2 := rfl
  rw [unfolded, posted]
  refine ⟨map_congr_left fun index member => ?_, rfl, rfl, rfl, linked, fun index inside => ?_⟩
  · simp only [initializeBatchedRecv, if_pos (batchIds_lt member)]
    rfl
  · simp only [initializeBatchedRecv, if_pos inside]
    rfl

/-- After one handled message, a queue with at most 256 places posts one receive, and it is the
first one of the chain. -/
theorem Backed.refill_one {queue : RecvWorkCompletions} {size stride : Nat} {buffer : Buffer}
    (backed : queue.Backed size buffer stride) (small : size ≤ 256) :
    (queue.updateRequests (-1)).refill accepting =
      (true, [backedReceive buffer stride 0], queue) := by
  have posted := refill_accepting (queue.updateRequests (-1)) backed.linked
    (show queue.requests + -1 < queue.refillThreshold by
      rw [backed.requests, backed.refillThreshold]
      unfold defaultRefillThreshold
      omega)
    (show queue.rcvBufSize - (queue.requests + -1) = (1 : Nat) by
      rw [backed.requests, backed.rcvBufSize]
      omega)
  have first := backed.receives 0 (by decide)
  have same : queue.rcvBufSize = queue.requests := by rw [backed.rcvBufSize, backed.requests]
  have restored : { queue with requests := queue.rcvBufSize } = queue :=
    congrArg (fun requests => { queue with requests := requests }) same
  rw [posted, batchIds_of_lt (by decide)]
  simp only [updateRequests, restored, range_one, map_cons, map_nil, first]

/-! ### Receive credits -/

/-- The object of a connection with room for `size` receives, whatever its receives hold. -/
structure Sized (queue : RecvWorkCompletions) (size : Int) : Prop where
  rcvBufSize : queue.rcvBufSize = size
  refillThreshold : queue.refillThreshold = min size defaultRefillThreshold
  linked : Linked queue.batch rbatch

theorem construct_sized (size : Int) : (construct size).setQp.Sized size :=
  ⟨rfl, rfl, freshBatch_linked⟩

theorem Sized.updateRequests {queue : RecvWorkCompletions} {size : Int} (sized : queue.Sized size)
    (change : Int) : (queue.updateRequests change).Sized size :=
  ⟨sized.rcvBufSize, sized.refillThreshold, sized.linked⟩

/-- A refill counts every receive that it posts. It does not post beyond the size, and it leaves
no fewer receives than the threshold. -/
theorem Sized.refill {queue : RecvWorkCompletions} {size : Int} (sized : queue.Sized size) :
    (queue.refill accepting).2.2.Sized size ∧
      (queue.refill accepting).2.2.requests =
        queue.requests + (queue.refill accepting).2.1.length ∧
      (queue.refill accepting).2.2.requests ≤ max size queue.requests ∧
      min size defaultRefillThreshold ≤ (queue.refill accepting).2.2.requests := by
  by_cases below : queue.requests < queue.refillThreshold
  · have missing : queue.rcvBufSize - queue.requests = (size - queue.requests).toNat := by
      rw [sized.refillThreshold] at below
      rw [sized.rcvBufSize]
      omega
    rw [refill_accepting queue sized.linked below missing]
    refine ⟨⟨sized.rcvBufSize, sized.refillThreshold, sized.linked⟩, ?_, ?_, ?_⟩
    · dsimp only
      rw [length_map, length_batchIds, ← missing]
      omega
    · dsimp only
      rw [sized.rcvBufSize]
      exact Int.le_max_left _ _
    · dsimp only
      rw [sized.rcvBufSize]
      exact Int.min_le_left _ _
  · unfold RecvWorkCompletions.refill
    rw [if_neg below]
    refine ⟨sized, (Int.add_zero _).symm, Int.le_max_right _ _, ?_⟩
    rw [← sized.refillThreshold]
    exact Int.not_lt.mp below

end RecvWorkCompletions

/-! ### Counting receives on a connection -/

/-- The receiving end of a connection, with the number of receives that are posted and that no
message has used up. -/
structure Port where
  queue : RecvWorkCompletions
  posted : Nat

namespace Port

/-- A connection on which no receive is posted. -/
def closed (size : Int) : Port := ⟨(RecvWorkCompletions.construct size).setQp, 0⟩

/-- `initialize`, on a buffer. -/
def initialize_ (port : Port) (buffer : Buffer) (stride : Option Nat) : Port :=
  let (posted, queue) := port.queue.initialize_ RecvWorkCompletions.accepting buffer stride
  ⟨queue, port.posted + posted.length⟩

/-- The receives are initialised on a buffer. -/
def open_ (size : Nat) (buffer : Buffer) (stride : Option Nat) : Port :=
  let (posted, queue) := (RecvWorkCompletions.construct size).setQp.initialize_
    RecvWorkCompletions.accepting buffer stride
  ⟨queue, posted.length⟩

/-- `update_requests`. -/
def updateRequests (port : Port) (change : Int) : Port :=
  { port with queue := port.queue.updateRequests change }

/-- `refill`. -/
def refill (port : Port) : Port :=
  let (_, posted, queue) := port.queue.refill RecvWorkCompletions.accepting
  ⟨queue, port.posted + posted.length⟩

/-- A message uses up a receive. -/
def arrive (port : Port) : Port := { port with posted := port.posted - 1 }

/-- `update_requests(-1)` and `refill`. -/
def credit (port : Port) : Port := (port.updateRequests (-1)).refill

/-- The connection after its first refill, with receives that have no buffer. -/
def filled (size : Int) : Port := (closed size).refill

/-- The count is the number of posted receives and of those that are `missing`. -/
structure Counts (size : Nat) (port : Port) (missing : Nat) : Prop where
  requests : port.queue.requests = port.posted + missing
  most : port.queue.requests ≤ size
  least : min (size : Int) 256 ≤ port.queue.requests

theorem Counts.unique {size missing : Nat} {port : Port} (counts : port.Counts size missing)
    (after : Nat) : port.Counts size after ↔ after = missing := by
  constructor
  · intro counted
    have before := counts.requests
    have same := counted.requests
    omega
  · intro same
    rw [same]
    exact counts

theorem closed_sized (size : Int) : (closed size).queue.Sized size :=
  RecvWorkCompletions.construct_sized size

theorem refill_spec {size : Int} {port : Port} (sized : port.queue.Sized size) :
    port.refill.queue.Sized size ∧
      port.refill.queue.requests + port.posted = port.queue.requests + port.refill.posted ∧
      port.refill.queue.requests ≤ max size port.queue.requests ∧
      min size 256 ≤ port.refill.queue.requests := by
  obtain ⟨kept, requests, most, least⟩ := sized.refill
  refine ⟨kept, ?_, most, least⟩
  show (port.queue.refill RecvWorkCompletions.accepting).2.2.requests + port.posted =
    port.queue.requests +
      ((port.posted + (port.queue.refill RecvWorkCompletions.accepting).2.1.length : Nat) : Int)
  omega

theorem open_spec (size : Nat) (buffer : Buffer) (stride : Option Nat) :
    (open_ size buffer stride).queue.Sized size ∧ (open_ size buffer stride).Counts size 0 := by
  have prepared : { (RecvWorkCompletions.construct size).setQp.initializeBatchedRecv buffer
      (stride.getD buffer.byteSize) with requests := 0 }.Sized size :=
    ⟨rfl, rfl, RecvWorkCompletions.initializeBatchedRecv_linked _
      RecvWorkCompletions.freshBatch_linked buffer _⟩
  obtain ⟨sized, requests, most, least⟩ := prepared.refill
  refine ⟨sized, requests.trans (Int.add_comm _ _), Int.le_trans most ?_, least⟩
  exact Int.max_le.mpr ⟨Int.le_refl _, Int.natCast_nonneg _⟩

/-- On a connection that has no receives, `initialize` posts and counts the same number. -/
theorem initialize_spec {size : Nat} {port : Port} (sized : port.queue.Sized size)
    (none : port.queue.requests = 0) (buffer : Buffer) (stride : Option Nat) :
    (port.initialize_ buffer stride).queue.Sized size ∧
      (port.initialize_ buffer stride).queue.requests + port.posted =
        (port.initialize_ buffer stride).posted ∧
      (port.initialize_ buffer stride).queue.requests ≤ size := by
  simp only [initialize_, RecvWorkCompletions.initialize_]
  split
  · have prepared : { port.queue.initializeBatchedRecv buffer (stride.getD buffer.byteSize) with
        requests := 0 }.Sized size :=
      ⟨sized.rcvBufSize, sized.refillThreshold,
        RecvWorkCompletions.initializeBatchedRecv_linked _ sized.linked buffer _⟩
    obtain ⟨after, requests, most, _⟩ := prepared.refill
    refine ⟨after, ?_, ?_⟩
    · dsimp only at requests ⊢
      omega
    · dsimp only at most ⊢
      omega
  · refine ⟨sized, ?_, ?_⟩
    · dsimp only
      rw [none, length_nil]
      omega
    · dsimp only
      omega

theorem initialize_closed_posted {size : Nat} (positive : 0 < size) (buffer : Buffer)
    (stride : Option Nat) :
    ((closed size).initialize_ buffer stride).posted = size ∧
      ((closed size).initialize_ buffer stride).queue.requests = size := by
  obtain ⟨posted, backed⟩ := RecvWorkCompletions.initialize_backed positive buffer stride
  refine ⟨?_, backed.requests⟩
  have length := congrArg length posted
  rw [length_map, RecvWorkCompletions.length_batchIds] at length
  exact (Nat.zero_add _).trans length

theorem filled_spec (size : Int) :
    (filled size).queue.Sized size ∧ (filled size).queue.requests = (filled size).posted ∧
      (filled size).queue.requests ≤ max size 0 ∧ min size 256 ≤ (filled size).queue.requests := by
  obtain ⟨sized, requests, most, least⟩ := refill_spec (closed_sized size)
  exact ⟨sized, (Int.add_zero _).symm.trans (requests.trans (Int.zero_add _)), most, least⟩

theorem credit_sized {size : Nat} {port : Port} (sized : port.queue.Sized size) :
    port.credit.queue.Sized size :=
  (@refill_spec size (port.updateRequests (-1)) (sized.updateRequests (-1))).1

/-- What a handler counts down is missing no more. -/
theorem credit_counts {size missing : Nat} {port : Port} (sized : port.queue.Sized size)
    (counts : port.Counts size missing) (after : Nat) :
    port.credit.Counts size after ↔ after + 1 = missing := by
  obtain ⟨_, requests, most, least⟩ :=
    @refill_spec size (port.updateRequests (-1)) (sized.updateRequests (-1))
  have before := counts.requests
  have bound := counts.most
  have changed : (port.updateRequests (-1)).queue.requests = port.queue.requests - 1 := rfl
  have same : (port.updateRequests (-1)).posted = port.posted := rfl
  have credited : (port.updateRequests (-1)).refill = port.credit := rfl
  rw [credited, changed, same] at requests
  rw [credited, changed] at most
  rw [credited] at least
  constructor
  · intro counted
    have after := counted.requests
    omega
  · intro one
    exact ⟨by omega, by omega, least⟩

end Port

end RFaaS
