/-
This file says what the queue guarantees to its two users, over every
interleaving of their accesses. The answers they get are those of a first-in
first-out queue, and no assertion fails on the way. An answer that the queue is
empty is about the past, since the producer may have been quick: there was a
moment of that very call at which it was empty. In the same way the producer asks
for memory, or gives up, only if during its call the queue held as many elements
as the constructor was asked to make room for.
-/

import RFaaS.QueueSize
import RFaaS.Since

namespace RFaaS

namespace ReaderWriterQueue

open CircularBuffer CircularList Transition State List

variable {α : Type*}

/-! ### Reachable states -/

section Reachable

variable {maxBlockSize size : Nat}

theorem sound_make (power : ∃ exponent, maxBlockSize = 2 ^ exponent) (wide : 2 ≤ maxBlockSize)
    (positive : 0 < size) (fits : size < 2 ^ 63) :
    Sound size (make maxBlockSize size : State α) := by
  obtain ⟨spare, inv⟩ := inv_make power wide positive fits
  exact ⟨_, _, _, inv⟩

theorem sound_run (power : ∃ exponent, maxBlockSize = 2 ^ exponent) (wide : 2 ≤ maxBlockSize)
    (positive : 0 < size) (fits : size < 2 ^ 63) (events : List (Event α)) :
    Sound size (run (step maxBlockSize) (make maxBlockSize size) events) :=
  run_stable (sound_step wide) events (sound_make power wide positive fits)

end Reachable

/-! ### First in, first out -/

/-- Whatever the interleaving, the answers are those of a queue that holds the elements
that have been put in and not been taken out, and no assertion fails. This says nothing about when
the queue may answer that it is empty or refuse an element; the results on these answers follow. -/
theorem answers_legal {maxBlockSize size : Nat} (power : ∃ exponent, maxBlockSize = 2 ^ exponent)
    (wide : 2 ≤ maxBlockSize) (positive : 0 < size) (fits : size < 2 ^ 63)
    (events : List (Event α)) :
    let state := run (step maxBlockSize) (make maxBlockSize size) events
    Legal [] state.log state.pending ∧ state.removed <+: state.added ∧
      state.queue.sound = true := by
  obtain ⟨occupied, spare, contents, inv⟩ := sound_run power wide positive fits events
  have conserved := inv.legal.conserved
  refine ⟨?_, ⟨contents, ?_⟩, inv.sound⟩
  · rw [pending_eq inv.legal]
    exact inv.legal
  · simpa [removed, added] using conserved.symm

theorem answers_legal_handover :
    (run (step 512) (make 512 15) ([.enqueue .canAlloc 7, .call .tryDequeue, .produce true,
        .consume, .produce true, .consume, .produce true, .consume, .call .tryDequeue, .consume,
        .consume, .consume, .consume] : List (Event Nat))).log =
      [.enqueued 7, .empty .tryDequeue, .dequeued 7] ∧
    (run (step 512) (make 512 15) ([.enqueue .canAlloc 7, .call .tryDequeue, .produce true,
        .consume, .produce true, .consume, .produce true, .consume, .call .tryDequeue, .consume,
        .consume, .consume, .consume] : List (Event Nat))).queue.sound = true :=
  ⟨by decide +kernel,
    (answers_legal ⟨9, rfl⟩ (by decide) (by decide) (by decide) _).2.2⟩

/-! ### What an access does not write -/

variable {queue : Queue α} {consumer : Consumer α} {maxBlockSize : Nat}

theorem Queue.next_update {address : Nat} {change : Block α → Block α}
    (same : (change (queue.blocks address)).next = (queue.blocks address).next) :
    (queue.update address change).next = queue.next :=
  funext (Queue.read_update Block.next same)

section Next

variable (queue : Queue α) (address index : Nat)

@[simp] theorem Queue.next_setFront : (queue.setFront address index).next = queue.next :=
  next_update rfl

@[simp] theorem Queue.next_setLocalTail : (queue.setLocalTail address index).next = queue.next :=
  next_update rfl

@[simp] theorem Queue.next_destroy : (queue.destroy address index).next = queue.next :=
  next_update rfl

@[simp] theorem Queue.next_expect (condition : Bool) :
    (queue.expect condition).next = queue.next := rfl

end Next

/-- The consumer follows pointers and does not change them. -/
theorem Consumer.next_step (queue : Queue α) (consumer : Consumer α) :
    (consumer.step queue).1.next = queue.next := by
  fun_cases Consumer.step <;> first | rfl | simp +zetaDelta

/-- The consumer leaves its block only to the next one. -/
theorem Consumer.frontBlock_step (queue : Queue α) (consumer : Consumer α) :
    (consumer.step queue).1.frontBlock = queue.frontBlock ∨
      ∃ call nextBlock nextBlockFront, consumer = .shift call nextBlock nextBlockFront ∧
        (consumer.step queue).1.frontBlock = nextBlock := by
  fun_cases Consumer.step <;> first | exact .inl rfl | exact .inr ⟨_, _, _, rfl, rfl⟩

/-- The producer leaves its block only to the one it has prepared. -/
theorem Producer.tailBlock_step (maxBlockSize : Nat) (malloc : Bool) (queue : Queue α)
    (producer : Producer α) :
    (producer.step maxBlockSize malloc queue).1.tailBlock = queue.tailBlock ∨
      ∃ element tailBlockNext, producer = .moveOn element tailBlockNext ∧
        (producer.step maxBlockSize malloc queue).1.tailBlock = tailBlockNext := by
  fun_cases Producer.step <;> first | exact .inl rfl | exact .inr ⟨_, _, rfl, rfl⟩

/-! ### When the queue is found empty -/

/-- The consumer is about to find that there is no other block. -/
def Vain (state : State α) : Prop :=
  ∃ call, state.consumer = .compare call state.queue.tailBlock

theorem Consumer.step_eq_compare {call : Call} {frontBlock : Nat}
    (point : (consumer.step queue).2.1 = .compare call frontBlock) :
    consumer = .reload call frontBlock (queue.blocks frontBlock).tail ∧
      (consumer.step queue).1 =
        queue.setLocalTail frontBlock (queue.blocks frontBlock).tail := by
  revert point
  fun_cases Consumer.step queue consumer with
  | case5 begun block blockFront blockTail reloaded same =>
    rintro ⟨⟩
    exact ⟨by rw [not_not.mp same], rfl⟩
  | _ => rintro ⟨⟩

/-- The consumer gets there only at a moment at which the queue is empty. -/
theorem vain_arises {capacity maxBlockSize : Nat} (wide : 2 ≤ maxBlockSize) (state : State α)
    (event : Event α) (sound : Sound capacity state) (vain : Vain (step maxBlockSize state event)) :
    Vain state ∨ (step maxBlockSize state event).pending = [] := by
  have later := sound_step wide state event sound
  obtain ⟨occupied, spare, contents, inv⟩ := sound
  obtain ⟨queue, producer, consumer, log⟩ := state
  obtain ⟨call, point⟩ := vain
  cases event with
  | enqueue =>
    left
    cases producer <;> exact ⟨call, point⟩
  | call begun =>
    left
    cases consumer with
    | idle => cases point
    | _ => exact ⟨call, point⟩
  | produce malloc =>
    left
    have here : consumer =
        .compare call (producer.step maxBlockSize malloc queue).1.tailBlock := point
    have front : (producer.step maxBlockSize malloc queue).1.tailBlock = queue.frontBlock := by
      have fits := inv.consumerFits
      rw [here] at fits
      exact fits
    rcases producer.tailBlock_step maxBlockSize malloc queue with same | ⟨element, next, rfl, moved⟩
    · exact ⟨call, by rw [← same]; exact here⟩
    · -- the block that the producer moves on to is a spare one
      obtain ⟨-, first, -⟩ := inv.producerFits
      rw [moved] at front
      exact absurd (front ▸ mem_of_head? first)
        (inv.isArranged.notMem_spare inv.isArranged.frontBlock_mem)
  | consume =>
    right
    have after : (step maxBlockSize ⟨queue, producer, consumer, log⟩ .consume).queue =
        (consumer.step queue).1 := rfl
    have reached : (consumer.step queue).2.1 = .compare call (consumer.step queue).1.tailBlock :=
      point
    obtain ⟨here, wrote⟩ := Consumer.step_eq_compare reached
    have fits := inv.consumerFits
    rw [here] at fits
    obtain ⟨front, atTail⟩ := fits
    rw [front] at wrote atTail
    obtain ⟨used, unused, left, inv'⟩ := later
    have arranged := inv'.arranged
    have holds := inv'.holds
    rw [point] at holds
    rw [after] at arranged holds
    -- the front block is the only one in use, and it has nothing in it
    have one : used.length = 1 := by
      refine arranged.frontBlock_eq_tailBlock_iff.mp ?_
      rw [front, wrote]
      rfl
    obtain ⟨rest, rfl⟩ := arranged.exists_first
    obtain rfl : rest = [] := by simpa using one
    have block :
        ((consumer.step queue).1.blocks (consumer.step queue).1.frontBlock).cells = [] := by
      rw [wrote]
      change ((queue.setLocalTail _ _).blocks queue.frontBlock).cells = []
      rw [Queue.setLocalTail, Queue.blocks_update_self]
      exact inv.isArranged.validFront.cells_eq_nil_iff.mpr atTail.symm
    have nothing : [] = left.map some := by
      rw [← show (consumer.step queue).1.cells [(consumer.step queue).1.frontBlock] = [] by
        rw [Queue.cells_cons, Queue.cells_nil, block]; rfl]
      exact holds
    rw [pending_eq inv'.legal]
    exact map_eq_nil_iff.mp nothing.symm

theorem Consumer.step_eq_empty {call : Call}
    (answer : (consumer.step queue).2.2 = some (.empty call)) :
    consumer = .compare call queue.tailBlock := by
  revert answer
  fun_cases Consumer.step queue consumer with
  | case7 begun block same =>
    rintro ⟨⟩
    rw [not_not.mp same]
  | case17 begun => cases begun <;> rintro ⟨⟩
  | _ => rintro ⟨⟩

/-- The answer of a step is what it adds to the log. -/
theorem answer_of_log {log : List (Response α)} {answer : Option (Response α)}
    {response : Response α} (logged : log ++ answer.toList = log ++ [response]) :
    answer = some response := by
  cases answer with
  | none => simp at logged
  | some other => simpa using logged

/-- The answer that the queue is empty is right for a moment of the call it answers. -/
theorem empty_answer {maxBlockSize size : Nat} (power : ∃ exponent, maxBlockSize = 2 ^ exponent)
    (wide : 2 ≤ maxBlockSize) (positive : 0 < size) (fits : size < 2 ^ 63)
    {events : List (Event α)} {call : Call}
    (answered : (run (step maxBlockSize) (make maxBlockSize size)
        (events ++ [.consume])).log =
      (run (step maxBlockSize) (make maxBlockSize size) events).log ++ [.empty call]) :
    Since (step maxBlockSize) (fun state => state.pending = [])
      (fun state => state.consumer ≠ .idle) (make maxBlockSize size) events := by
  refine @since_of_arises _ _ _ (Sound size) _ _ Vain _ (sound_make power wide positive fits)
    (sound_step wide) ?_ (vain_arises wide) ?_ events ⟨call, ?_⟩
  · rintro ⟨call, point⟩
    cases point
  · rintro state ⟨call, point⟩ idle
    rw [point] at idle
    cases idle
  · rw [run_append] at answered
    exact Consumer.step_eq_empty (answer_of_log answered)

/-- An element is there by the time the call answers that there is none. -/
theorem empty_answer_first :
    Since (step 512) (fun state => state.pending = []) (fun state => state.consumer ≠ .idle)
      (make 512 15 : State Nat) [.enqueue .canAlloc 7, .call .tryDequeue, .produce true,
        .consume, .produce true, .consume, .produce true] :=
  @empty_answer Nat 512 15 ⟨9, rfl⟩ (by decide) (by decide) (by decide) _ .tryDequeue
    (by decide +kernel)

/-! ### When there is no room -/

/-- The producer is about to find that there is no other block, or has found it. -/
def Crowded (state : State α) : Prop :=
  match state.producer with
  | .full _ _ tailBlock => state.queue.next tailBlock = state.queue.frontBlock
  | .allocate _ _ => True
  | _ => False

theorem Consumer.Shows.length_eq {cells : List (Option α)} {contents : List α}
    (shows : consumer.Shows cells contents) : cells.length = contents.length := by
  cases consumer with
  | release =>
    obtain ⟨rest, rfl, rfl⟩ := shows
    simp
  | _ =>
    have same : cells = contents.map some := shows
    rw [same, length_map]

theorem Queue.length_cells (queue : Queue α) (addresses : List Nat) :
    (queue.cells addresses).length =
      (addresses.map fun address => (queue.blocks address).count).sum := by
  simp [Queue.cells, length_flatMap]

/-- If the tail block is full and no block is spare, the queue holds what it has room for. -/
theorem Inv.capacity_le {capacity : Nat} {state : State α} {occupied : List Nat}
    {contents : List α} (inv : Inv capacity state occupied [] contents)
    (full : (state.queue.blocks state.queue.tailBlock).count =
      (state.queue.blocks state.queue.tailBlock).sizeMask) : capacity ≤ contents.length := by
  have arranged := inv.arranged
  have reserve := inv.reserve
  rw [append_nil] at reserve
  rw [← inv.holds.length_eq, Queue.length_cells]
  obtain ⟨rest, rfl⟩ := arranged.exists_first
  rcases reserve.room _ mem_cons_self with others | ⟨single, alone⟩
  · -- the front block apart, every block in use is full
    have stuffed : ∀ address ∈ rest, (state.queue.blocks address).count =
        (state.queue.blocks address).sizeMask := by
      intro address member
      have last := arranged.last
      rw [getLast?_cons_of_ne_nil (ne_nil_of_mem member)] at last
      obtain ⟨front, rest_eq⟩ := getLast?_eq_some_iff.mp last
      rw [rest_eq] at member
      rcases mem_append.mp member with middle | atEnd
      · refine arranged.stuffed address ?_
        rw [tail_cons, rest_eq, dropLast_concat]
        exact middle
      · rw [mem_singleton.mp atEnd]
        exact full
    rw [map_cons, sum_cons] at others ⊢
    rw [map_congr_left stuffed]
    omega
  · have same : state.queue.frontBlock = state.queue.tailBlock :=
      arranged.frontBlock_eq_tailBlock_iff.mpr (by rw [single, length_singleton])
    rw [← same] at full
    rw [map_cons, sum_cons, full]
    omega

theorem Producer.step_eq_full {malloc : Bool} {producer : Producer α} {mode : AllocationMode}
    {element : α} {tailBlock : Nat}
    (point : (producer.step maxBlockSize malloc queue).2.1 = .full mode element tailBlock) :
    ∃ blockTail, producer =
        .reload mode element tailBlock blockTail (queue.blocks tailBlock).front ∧
      (producer.step maxBlockSize malloc queue).1 =
        queue.setLocalFront tailBlock (queue.blocks tailBlock).front := by
  revert point
  fun_cases Producer.step maxBlockSize malloc queue producer with
  | case5 begun added block blockTail nextBlockTail blockFront reloaded same =>
    rintro ⟨⟩
    exact ⟨blockTail, by rw [not_not.mp same], rfl⟩
  | _ => rintro ⟨⟩

theorem Producer.step_eq_allocate {malloc : Bool} {producer : Producer α} {element : α}
    {tailBlock : Nat}
    (point : (producer.step maxBlockSize malloc queue).2.1 = .allocate element tailBlock) :
    producer = .full .canAlloc element tailBlock ∧ queue.next tailBlock = queue.frontBlock := by
  revert point
  fun_cases Producer.step maxBlockSize malloc queue producer with
  | case9 added block same =>
    rintro ⟨⟩
    exact ⟨rfl, not_not.mp same⟩
  | _ => rintro ⟨⟩

/-- Only the front block can come behind the tail block without being spare. -/
theorem Arranged.spare_eq_nil {ahead : Nat → Nat} {filling : Option Nat}
    {occupied spare : List Nat} (arranged : Arranged queue ahead filling occupied spare)
    (behind : queue.next queue.tailBlock ∈ occupied) :
    spare = [] ∧ queue.next queue.tailBlock = queue.frontBlock := by
  have next := arranged.next_tailBlock
  cases spare with
  | nil => exact ⟨rfl, next⟩
  | cons first rest =>
    have unused : queue.next queue.tailBlock ∈ first :: rest := next ▸ mem_cons_self
    exact absurd unused (arranged.notMem_spare behind)

/-- The producer gets there only at a moment at which the queue is as full as asked for. -/
theorem crowded_arises {capacity maxBlockSize : Nat} (wide : 2 ≤ maxBlockSize) (state : State α)
    (event : Event α) (sound : Sound capacity state)
    (crowded : Crowded (step maxBlockSize state event)) :
    Crowded state ∨ capacity ≤ (step maxBlockSize state event).pending.length := by
  have later := sound_step wide state event sound
  obtain ⟨occupied, spare, contents, inv⟩ := sound
  obtain ⟨queue, producer, consumer, log⟩ := state
  cases event with
  | enqueue =>
    left
    cases producer with
    | idle => exact crowded.elim
    | _ => exact crowded
  | call begun =>
    left
    cases consumer <;> exact crowded
  | consume =>
    left
    cases producer with
    | full mode element tailBlock =>
      obtain ⟨rfl, -⟩ := inv.producerFits
      have behind : (consumer.step queue).1.next queue.tailBlock =
          (consumer.step queue).1.frontBlock := crowded
      rw [Consumer.next_step] at behind
      rcases consumer.frontBlock_step queue with same | ⟨call, nextBlock, index, rfl, moved⟩
      · exact behind.trans same
      · -- the block that the consumer moves on to is not behind the tail block
        obtain ⟨-, second, -⟩ := inv.consumerFits
        rw [moved] at behind
        exact (inv.isArranged.spare_eq_nil (behind ▸ mem_of_head?_tail second)).2
    | allocate => trivial
    | _ => exact crowded.elim
  | produce malloc =>
    have after : (step maxBlockSize ⟨queue, producer, consumer, log⟩ (.produce malloc)).queue =
        (producer.step maxBlockSize malloc queue).1 := rfl
    have next : (step maxBlockSize ⟨queue, producer, consumer, log⟩ (.produce malloc)).producer =
        (producer.step maxBlockSize malloc queue).2.1 := rfl
    cases point : (producer.step maxBlockSize malloc queue).2.1 with
    | full mode element tailBlock =>
      right
      obtain ⟨blockTail, rfl, wrote⟩ := Producer.step_eq_full point
      obtain ⟨rfl, rfl, full⟩ := inv.producerFits
      obtain ⟨used, unused, held, inv'⟩ := later
      rw [Crowded, next, point] at crowded
      have behind := inv'.arranged.frontBlock_mem
      rw [← crowded, after, wrote] at behind
      have spared : unused = [] := by
        refine (inv'.arranged.spare_eq_nil ?_).1
        rw [after, wrote]
        exact behind
      subst spared
      rw [pending_eq inv'.legal]
      refine inv'.capacity_le ?_
      have block : (queue.setLocalFront queue.tailBlock
          (queue.blocks queue.tailBlock).front).blocks queue.tailBlock =
            { queue.blocks queue.tailBlock with
              localFront := (queue.blocks queue.tailBlock).front } :=
        Queue.blocks_update_self
      have stuffed := inv.isArranged.validTail.count_of_full full.symm
      rw [after, wrote]
      exact (congrArg Block.count block).trans
        (stuffed.trans (congrArg Block.sizeMask block).symm)
    | allocate =>
      left
      obtain ⟨rfl, behind⟩ := Producer.step_eq_allocate point
      exact behind
    | _ =>
      rw [Crowded, next, point] at crowded
      exact crowded.elim

/-- A refused element is one that found no block, or whose allocation failed. -/
theorem Producer.step_eq_refused {malloc : Bool} {producer : Producer α} {log : List (Response α)}
    {element : α}
    (answer : (producer.step maxBlockSize malloc queue).2.2 = some (.refused element)) :
    Crowded ⟨queue, producer, consumer, log⟩ := by
  revert answer
  fun_cases Producer.step maxBlockSize malloc queue producer with
  | case10 added block same => exact fun _ => not_not.mp same
  | case15 => exact fun _ => trivial
  | _ => rintro ⟨⟩

/-- Memory is asked for, and an element is refused, only by a call during which the queue has held
as many elements as it was made for. -/
theorem room_as_asked {maxBlockSize size : Nat} (power : ∃ exponent, maxBlockSize = 2 ^ exponent)
    (wide : 2 ≤ maxBlockSize) (positive : 0 < size) (fits : size < 2 ^ 63)
    {events : List (Event α)}
    (short : (∃ element tailBlock,
        (run (step maxBlockSize) (make maxBlockSize size) events).producer =
          .allocate element tailBlock) ∨
      ∃ malloc element, (run (step maxBlockSize) (make maxBlockSize size)
          (events ++ [.produce malloc])).log =
        (run (step maxBlockSize) (make maxBlockSize size) events).log ++
          [.refused element]) :
    Since (step maxBlockSize) (fun state => size ≤ state.pending.length)
      (fun state => state.producer ≠ .idle) (make maxBlockSize size) events := by
  refine @since_of_arises _ _ _ (Sound size) _ _ Crowded _ (sound_make power wide positive fits)
    (sound_step wide) ?_ (crowded_arises wide) ?_ events ?_
  · exact fun crowded => crowded
  · intro state crowded idle
    rw [Crowded, idle] at crowded
    exact crowded
  · rcases short with ⟨element, tailBlock, point⟩ | ⟨malloc, element, refused⟩
    · rw [Crowded, point]
      trivial
    · rw [run_append] at refused
      exact Producer.step_eq_refused (answer_of_log refused)

theorem room_as_asked_one :
    Since (step 2) (fun state => 1 ≤ state.pending.length) (fun state => state.producer ≠ .idle)
      (make 2 1 : State Nat) [.enqueue .canAlloc 7, .produce true, .produce true,
        .produce true, .enqueue .canAlloc 8, .produce true, .produce true, .produce true] :=
  room_as_asked ⟨1, rfl⟩ (by decide) (by decide) (by decide)
    (.inl ⟨8, 0, by decide +kernel⟩)

end ReaderWriterQueue

end RFaaS
