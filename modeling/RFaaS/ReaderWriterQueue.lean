/-
This file models the queue between the listener of a manager and the thread
that serves its connections: one producer, one consumer and no lock. The
elements stand in blocks, each of them a circular buffer, and the blocks are
linked in a ring. The producer owns every tail and the consumer every front;
each reads what the other one owns and keeps a copy of it that may be old.

A thread is a program counter with the local variables that the source has
there. One step is at most one access to a variable that the other thread
writes or reads, so a run is an interleaving of all of these accesses. Accesses
take effect in the order in which they are made: the fences of the source are
what gives that order, and they have no step of their own.
-/

import RFaaS.CircularBuffer
import RFaaS.CircularList
import RFaaS.Transition
import Mathlib.Algebra.Ring.Nat

namespace RFaaS

namespace ReaderWriterQueue

variable {α : Type*}

/-! ### Blocks -/

/-- `Block`. An address is a number; a slot without an element is `none`. -/
structure Block (α : Type*) where
  front : Nat
  localTail : Nat
  tail : Nat
  localFront : Nat
  next : Nat
  data : Nat → Option α
  sizeMask : Nat

/-- `make_block`. The caller links the block before anyone follows `next`. -/
def makeBlock (capacity : Nat) : Block α where
  front := 0
  localTail := 0
  tail := 0
  localFront := 0
  next := 0
  data := fun _ => none
  sizeMask := capacity - 1

/-- The block that `inner_enqueue` makes when every other one is in use, with its first
element in it. -/
def Block.fresh (capacity next : Nat) (element : α) : Block α :=
  { (makeBlock capacity : Block α) with
    data := Function.update (fun _ => none) 0 (some element)
    tail := 1
    localTail := 1
    next := next }

/-- The index after an index, `(index + 1) & sizeMask`. -/
def Block.after (block : Block α) (index : Nat) : Nat := (index + 1) &&& block.sizeMask

/-- The number of slots. -/
def Block.size (block : Block α) : Nat := block.sizeMask + 1

/-- `ReaderWriterQueue`. Blocks are never freed while the queue is in use, so the next
one goes to the address `made`. The flag stays up as long as every assertion holds, no
element is constructed over another and none is moved out of a slot that has none. -/
structure Queue (α : Type*) where
  blocks : Nat → Block α
  made : Nat
  frontBlock : Nat
  tailBlock : Nat
  largestBlockSize : Nat
  sound : Bool

namespace Queue

/-- Writes to the fields of one block. -/
def update (queue : Queue α) (address : Nat) (change : Block α → Block α) : Queue α :=
  { queue with
    blocks := Function.update queue.blocks address (change (queue.blocks address)) }

/-- An assertion. -/
def expect (queue : Queue α) (condition : Bool) : Queue α :=
  { queue with sound := queue.sound && condition }

def setFront (queue : Queue α) (address index : Nat) : Queue α :=
  queue.update address fun block => { block with front := index }

def setLocalTail (queue : Queue α) (address index : Nat) : Queue α :=
  queue.update address fun block => { block with localTail := index }

def setTail (queue : Queue α) (address index : Nat) : Queue α :=
  queue.update address fun block => { block with tail := index }

def setLocalFront (queue : Queue α) (address index : Nat) : Queue α :=
  queue.update address fun block => { block with localFront := index }

def setNext (queue : Queue α) (address next : Nat) : Queue α :=
  queue.update address fun block => { block with next := next }

/-- `new (location) T(..)` at an index of a block. -/
def construct (queue : Queue α) (address index : Nat) (element : α) : Queue α :=
  (queue.expect ((queue.blocks address).data index).isNone).update address fun block =>
    { block with data := Function.update block.data index (some element) }

/-- The next block comes into being. -/
def allocate (queue : Queue α) (newBlockSize : Nat) (newBlock : Block α) : Queue α :=
  { queue with
    blocks := Function.update queue.blocks queue.made newBlock
    made := queue.made + 1
    largestBlockSize := newBlockSize }

/-- `element->~T()` at an index of a block. -/
def destroy (queue : Queue α) (address index : Nat) : Queue α :=
  queue.update address fun block =>
    { block with data := Function.update block.data index none }

end Queue

/-! ### The constructor -/

/-- `ceilToPow2` on the 64 bits of a `size_t`. -/
def ceilToPow2 (x : Nat) : Nat :=
  let x := (x + (2 ^ 64 - 1)) % 2 ^ 64
  let x := x ||| x >>> 1
  let x := x ||| x >>> 2
  let x := x ||| x >>> 4
  let x := [1, 2, 4].foldl (fun x i => x ||| x >>> (i <<< 3)) x
  (x + 1) % 2 ^ 64

/-- One round of the constructor's loop: the block is linked behind the last one and
back to the first one. -/
def appendBlock (capacity : Nat) (blocks : Nat → Block α) (i : Nat) : Nat → Block α :=
  let blocks := Function.update blocks i (makeBlock capacity)
  if i = 0 then blocks
  else Function.update blocks (i - 1) { blocks (i - 1) with next := i }

/-- The constructor. The first block is at address 0, and so is what a new block's `next`
points to. -/
def Queue.make (maxBlockSize size : Nat) : Queue α :=
  let largestBlockSize := ceilToPow2 (size + 1)
  if largestBlockSize > maxBlockSize * 2 then
    let initialBlockCount := (size + maxBlockSize * 2 - 3) / (maxBlockSize - 1)
    { blocks := (List.range initialBlockCount).foldl (appendBlock maxBlockSize)
        fun _ => makeBlock 0
      made := initialBlockCount
      frontBlock := 0
      tailBlock := 0
      largestBlockSize := maxBlockSize
      sound := true }
  else
    { blocks := Function.update (fun _ => makeBlock 0) 0 (makeBlock largestBlockSize)
      made := 1
      frontBlock := 0
      tailBlock := 0
      largestBlockSize
      sound := true }

/-! ### What a call returns -/

/-- `AllocationMode`: `enqueue` may allocate, `try_enqueue` may not. -/
inductive AllocationMode where
  | canAlloc
  | cannotAlloc
  deriving DecidableEq, Repr

/-- The calls of the consumer. -/
inductive Call where
  | tryDequeue
  | peek
  | pop
  deriving DecidableEq, Repr

/-- What a call returned, with the element it was about. -/
inductive Response (α : Type*) where
  | enqueued (element : α)
  | refused (element : α)
  | dequeued (element : α)
  | popped (element : α)
  | peeked (element : α)
  | empty (call : Call)
  deriving DecidableEq, Repr

/-- The element that a call put into the queue. -/
def Response.added : Response α → Option α
  | .enqueued element => some element
  | _ => none

/-- The element that a call took out of the queue. -/
def Response.removed : Response α → Option α
  | .dequeued element => some element
  | .popped element => some element
  | _ => none

/-! ### The producer -/

/-- Where `inner_enqueue` stands. -/
inductive Producer (α : Type*) where
  | idle
  | check (mode : AllocationMode) (element : α)
  | reload (mode : AllocationMode) (element : α) (tailBlock blockTail nextBlockTail : Nat)
  | construct (element : α) (tailBlock blockTail nextBlockTail : Nat)
  | publish (element : α) (tailBlock nextBlockTail : Nat)
  | full (mode : AllocationMode) (element : α) (tailBlock : Nat)
  | advance (element : α) (tailBlock : Nat)
  | constructNext (element : α) (tailBlockNext nextBlockTail : Nat)
  | publishNext (element : α) (tailBlockNext nextBlockTail : Nat)
  | allocate (element : α) (tailBlock : Nat)
  | link (element : α) (tailBlock newBlock : Nat)
  | moveOn (element : α) (tailBlockNext : Nat)
  deriving DecidableEq, Repr

/-- The next access of `inner_enqueue`. Whether `malloc` gives memory is not up to the
queue. -/
def Producer.step (maxBlockSize : Nat) (malloc : Bool) (queue : Queue α) :
    Producer α → Queue α × Producer α × Option (Response α)
  | .idle => (queue, .idle, none)
  | .check mode element =>
    let tailBlock := queue.tailBlock
    let block := queue.blocks tailBlock
    let nextBlockTail := block.after block.tail
    if nextBlockTail ≠ block.localFront then
      (queue, .construct element tailBlock block.tail nextBlockTail, none)
    else (queue, .reload mode element tailBlock block.tail nextBlockTail, none)
  | .reload mode element tailBlock blockTail nextBlockTail =>
    let blockFront := (queue.blocks tailBlock).front
    let queue := queue.setLocalFront tailBlock blockFront
    if nextBlockTail ≠ blockFront then
      (queue, .construct element tailBlock blockTail nextBlockTail, none)
    else (queue, .full mode element tailBlock, none)
  | .construct element tailBlock blockTail nextBlockTail =>
    (queue.construct tailBlock blockTail element, .publish element tailBlock nextBlockTail, none)
  | .publish element tailBlock nextBlockTail =>
    (queue.setTail tailBlock nextBlockTail, .idle, some (.enqueued element))
  | .full mode element tailBlock =>
    if (queue.blocks tailBlock).next ≠ queue.frontBlock then
      (queue, .advance element tailBlock, none)
    else
      match mode with
      | .canAlloc => (queue, .allocate element tailBlock, none)
      | .cannotAlloc => (queue, .idle, some (.refused element))
  | .advance element tailBlock =>
    let tailBlockNext := (queue.blocks tailBlock).next
    let nextBlockFront := (queue.blocks tailBlockNext).front
    let nextBlockTail := (queue.blocks tailBlockNext).tail
    let queue := queue.setLocalFront tailBlockNext nextBlockFront
    (queue.expect (decide (nextBlockFront = nextBlockTail)),
      .constructNext element tailBlockNext nextBlockTail, none)
  | .constructNext element tailBlockNext nextBlockTail =>
    (queue.construct tailBlockNext nextBlockTail element,
      .publishNext element tailBlockNext nextBlockTail, none)
  | .publishNext element tailBlockNext nextBlockTail =>
    (queue.setTail tailBlockNext ((queue.blocks tailBlockNext).after nextBlockTail),
      .moveOn element tailBlockNext, none)
  | .allocate element tailBlock =>
    if malloc then
      let newBlockSize :=
        if queue.largestBlockSize ≥ maxBlockSize then queue.largestBlockSize
        else queue.largestBlockSize * 2
      let newBlock := queue.made
      (queue.allocate newBlockSize (.fresh newBlockSize (queue.blocks tailBlock).next element),
        .link element tailBlock newBlock, none)
    else (queue, .idle, some (.refused element))
  | .link element tailBlock newBlock =>
    (queue.setNext tailBlock newBlock, .moveOn element newBlock, none)
  | .moveOn element tailBlockNext =>
    ({ queue with tailBlock := tailBlockNext }, .idle, some (.enqueued element))

/-! ### The consumer -/

/-- Where `try_dequeue`, `peek` or `pop` stands. -/
inductive Consumer (α : Type*) where
  | idle
  | start (call : Call)
  | reload (call : Call) (frontBlock blockFront : Nat)
  | compare (call : Call) (frontBlock : Nat)
  | recheck (call : Call)
  | follow (call : Call) (frontBlock : Nat)
  | inspect (call : Call) (nextBlock : Nat)
  | shift (call : Call) (nextBlock nextBlockFront : Nat)
  | take (call : Call) (frontBlock blockFront : Nat)
  | release (call : Call) (frontBlock blockFront : Nat) (element : α)
  deriving DecidableEq, Repr

/-- The answer of a call that removed an element. -/
def Call.answer : Call → α → Response α
  | .tryDequeue, element => .dequeued element
  | .pop, element => .popped element
  | .peek, element => .peeked element

/-- The next access of the consumer. The three calls go the same way to the element;
`peek` leaves it there, and it leaves `frontBlock` and the copy of the next block's tail
as they are. -/
def Consumer.step (queue : Queue α) : Consumer α → Queue α × Consumer α × Option (Response α)
  | .idle => (queue, .idle, none)
  | .start call =>
    let frontBlock := queue.frontBlock
    let block := queue.blocks frontBlock
    if block.front ≠ block.localTail then (queue, .take call frontBlock block.front, none)
    else (queue, .reload call frontBlock block.front, none)
  | .reload call frontBlock blockFront =>
    let blockTail := (queue.blocks frontBlock).tail
    let queue := queue.setLocalTail frontBlock blockTail
    if blockFront ≠ blockTail then (queue, .take call frontBlock blockFront, none)
    else (queue, .compare call frontBlock, none)
  | .compare call frontBlock =>
    if frontBlock ≠ queue.tailBlock then (queue, .recheck call, none)
    else (queue, .idle, some (.empty call))
  | .recheck call =>
    let frontBlock := queue.frontBlock
    let blockTail := (queue.blocks frontBlock).tail
    let blockFront := (queue.blocks frontBlock).front
    let queue := queue.setLocalTail frontBlock blockTail
    -- the front block has got an element since its tail was read
    if blockFront ≠ blockTail then (queue, .take call frontBlock blockFront, none)
    else (queue, .follow call frontBlock, none)
  | .follow call frontBlock => (queue, .inspect call (queue.blocks frontBlock).next, none)
  | .inspect call nextBlock =>
    let nextBlockFront := (queue.blocks nextBlock).front
    let nextBlockTail := (queue.blocks nextBlock).tail
    let checked := queue.expect (decide (nextBlockFront ≠ nextBlockTail))
    match call with
    | .peek => (checked, .take .peek nextBlock nextBlockFront, none)
    | _ =>
      (checked.setLocalTail nextBlock nextBlockTail, .shift call nextBlock nextBlockFront, none)
  | .shift call nextBlock nextBlockFront =>
    ({ queue with frontBlock := nextBlock }, .take call nextBlock nextBlockFront, none)
  | .take call frontBlock blockFront =>
    match (queue.blocks frontBlock).data blockFront with
    | none => (queue.expect false, .idle, none)
    | some element =>
      match call with
      | .peek => (queue, .idle, some (.peeked element))
      | _ =>
        (queue.destroy frontBlock blockFront,
          .release call frontBlock ((queue.blocks frontBlock).after blockFront) element, none)
  | .release call frontBlock blockFront element =>
    (queue.setFront frontBlock blockFront, .idle, some (call.answer element))

/-! ### Both threads -/

/-- The queue, both threads, and what their calls have returned so far. -/
structure State (α : Type*) where
  queue : Queue α
  producer : Producer α
  consumer : Consumer α
  log : List (Response α)

/-- A thread begins a call, or makes the next access of the one it is in. -/
inductive Event (α : Type*) where
  | enqueue (mode : AllocationMode) (element : α)
  | produce (malloc : Bool)
  | call (call : Call)
  | consume
  deriving DecidableEq, Repr

/-- One step of one of the threads. A thread that is in a call does not begin another. -/
def step (maxBlockSize : Nat) (state : State α) : Event α → State α
  | .enqueue mode element =>
    match state.producer with
    | .idle => { state with producer := .check mode element }
    | _ => state
  | .produce malloc =>
    let (queue, producer, answer) := state.producer.step maxBlockSize malloc state.queue
    { state with queue, producer, log := state.log ++ answer.toList }
  | .call call =>
    match state.consumer with
    | .idle => { state with consumer := .start call }
    | _ => state
  | .consume =>
    let (queue, consumer, answer) := state.consumer.step state.queue
    { state with queue, consumer, log := state.log ++ answer.toList }

/-- A queue that has just been constructed. -/
def State.make (maxBlockSize size : Nat) : State α where
  queue := .make maxBlockSize size
  producer := .idle
  consumer := .idle
  log := []

/-- The elements that calls have put in, in order. -/
def State.added (state : State α) : List α := state.log.filterMap Response.added

/-- The elements that calls have taken out, in order. -/
def State.removed (state : State α) : List α := state.log.filterMap Response.removed

/-- The elements that have been put in and not been taken out. -/
def State.pending (state : State α) : List α := state.added.drop state.removed.length

/-! ### What a queue is for -/

/-- The answers are those that a queue gives: elements go in at one end and come out at the
other one. `refused` and `empty` are about the moment of a call and not about the elements. -/
def Legal : List α → List (Response α) → List α → Prop
  | first, [], last => first = last
  | first, .enqueued element :: rest, last => Legal (first ++ [element]) rest last
  | first, .dequeued element :: rest, last =>
    ∃ more, first = element :: more ∧ Legal more rest last
  | first, .popped element :: rest, last =>
    ∃ more, first = element :: more ∧ Legal more rest last
  | first, .peeked element :: rest, last =>
    ∃ more, first = element :: more ∧ Legal first rest last
  | first, .refused _ :: rest, last => Legal first rest last
  | first, .empty _ :: rest, last => Legal first rest last

theorem legal_cons {first last : List α} {response : Response α} {rest : List (Response α)} :
    Legal first (response :: rest) last ↔
      ∃ middle, Legal first [response] middle ∧ Legal middle rest last := by
  cases response <;> simp [Legal, and_assoc]

theorem legal_append {first last : List α} {log more : List (Response α)} :
    Legal first (log ++ more) last ↔
      ∃ middle, Legal first log middle ∧ Legal middle more last := by
  induction log generalizing first with
  | nil => simp [Legal]
  | cons response rest inductionHypothesis =>
    rw [List.cons_append, legal_cons]
    constructor
    · rintro ⟨next, now, onward⟩
      obtain ⟨middle, before, after⟩ := inductionHypothesis.mp onward
      exact ⟨middle, legal_cons.mpr ⟨next, now, before⟩, after⟩
    · rintro ⟨middle, before, after⟩
      obtain ⟨next, now, onward⟩ := legal_cons.mp before
      exact ⟨next, now, inductionHypothesis.mpr ⟨middle, onward, after⟩⟩

/-- Nothing is lost, nothing comes out twice and the order is kept. -/
theorem Legal.conserved {first last : List α} {log : List (Response α)}
    (legal : Legal first log last) :
    first ++ log.filterMap Response.added = log.filterMap Response.removed ++ last := by
  induction log generalizing first with
  | nil =>
    obtain rfl : first = last := legal
    simp
  | cons response rest inductionHypothesis =>
    obtain ⟨middle, now, onward⟩ := legal_cons.mp legal
    have later := inductionHypothesis onward
    cases response <;> grind [Legal, Response.added, Response.removed]

/-- What is left of a legal history is what has been put in and not been taken out. -/
theorem State.pending_eq {state : State α} {contents : List α}
    (legal : Legal [] state.log contents) : state.pending = contents := by
  have conserved : state.added = state.removed ++ contents := by
    simpa [State.added, State.removed] using legal.conserved
  rw [State.pending, conserved, List.drop_left]

end ReaderWriterQueue

end RFaaS
