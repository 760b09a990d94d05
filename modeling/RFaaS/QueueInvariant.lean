/-
This file has the invariant of the queue between two threads. What a thread
relies on at each of its program points is written down beside the layout of the
memory. A step of the other thread cannot disturb it, because all that the other
thread writes is what it owns: there is one statement for what the producer
leaves alone and one for what the consumer leaves alone, and from each of them
it follows that the other thread can go on.
-/

import RFaaS.QueueLayout

namespace RFaaS

namespace ReaderWriterQueue

open CircularBuffer CircularList List

variable {α : Type*}

/-! ### What the producer relies on -/

/-- The slots at the tail of a block that have an element before the tail has moved. -/
def Producer.ahead : Producer α → Nat → Nat
  | .publish _ tailBlock _, address => if address = tailBlock then 1 else 0
  | .publishNext _ tailBlockNext _, address => if address = tailBlockNext then 1 else 0
  | _, _ => 0

/-- The spare block that has its element already. -/
def Producer.filling : Producer α → Option Nat
  | .moveOn _ tailBlockNext => some tailBlockNext
  | _ => none

/-- The tail block is full, or the consumer has come to it in the meantime. -/
def Queue.Full (queue : Queue α) (occupied : List Nat) : Prop :=
  occupied.length = 1 ∨
    (queue.blocks queue.tailBlock).count = (queue.blocks queue.tailBlock).sizeMask

theorem Queue.Full.update_of_ne {queue : Queue α} {occupied : List Nat} {address : Nat}
    (full : queue.Full occupied) (ne : queue.tailBlock ≠ address) (change : Block α → Block α) :
    (queue.update address change).Full occupied := by
  refine full.imp id fun full => ?_
  change ((queue.update address change).blocks queue.tailBlock).count =
    ((queue.update address change).blocks queue.tailBlock).sizeMask
  rw [Queue.blocks_update_of_ne ne, full]

/-- The local variables at each point of `inner_enqueue`. -/
def Producer.Fits (queue : Queue α) (occupied spare : List Nat) : Producer α → Prop
  | .idle => True
  | .check _ _ => True
  | .reload _ _ tailBlock blockTail nextBlockTail =>
    tailBlock = queue.tailBlock ∧ blockTail = (queue.blocks tailBlock).tail ∧
      nextBlockTail = (queue.blocks tailBlock).after blockTail
  | .construct _ tailBlock blockTail nextBlockTail =>
    tailBlock = queue.tailBlock ∧ blockTail = (queue.blocks tailBlock).tail ∧
      nextBlockTail = (queue.blocks tailBlock).after blockTail ∧
      nextBlockTail ≠ (queue.blocks tailBlock).localFront
  | .publish element tailBlock nextBlockTail =>
    tailBlock = queue.tailBlock ∧
      nextBlockTail = (queue.blocks tailBlock).after (queue.blocks tailBlock).tail ∧
      nextBlockTail ≠ (queue.blocks tailBlock).localFront ∧
      (queue.blocks tailBlock).data (queue.blocks tailBlock).tail = some element
  | .full _ _ tailBlock => tailBlock = queue.tailBlock ∧ queue.Full occupied
  | .advance _ tailBlock => tailBlock = queue.tailBlock ∧ queue.Full occupied ∧ spare ≠ []
  | .constructNext _ tailBlockNext nextBlockTail =>
    queue.Full occupied ∧ spare.head? = some tailBlockNext ∧
      nextBlockTail = (queue.blocks tailBlockNext).tail ∧
      (queue.blocks tailBlockNext).localFront = (queue.blocks tailBlockNext).front
  | .publishNext element tailBlockNext nextBlockTail =>
    queue.Full occupied ∧ spare.head? = some tailBlockNext ∧
      nextBlockTail = (queue.blocks tailBlockNext).tail ∧
      (queue.blocks tailBlockNext).localFront = (queue.blocks tailBlockNext).front ∧
      (queue.blocks tailBlockNext).data nextBlockTail = some element
  | .allocate _ tailBlock => tailBlock = queue.tailBlock ∧ queue.Full occupied
  | .link element tailBlock newBlock =>
    tailBlock = queue.tailBlock ∧ queue.Full occupied ∧ newBlock ∉ occupied ++ spare ∧
      newBlock < queue.made ∧ (queue.blocks newBlock).Valid 0 ∧
      (queue.blocks newBlock).cells = [some element] ∧
      (queue.blocks newBlock).size = queue.largestBlockSize ∧
      queue.next newBlock = queue.next tailBlock
  | .moveOn element tailBlockNext =>
    queue.Full occupied ∧ spare.head? = some tailBlockNext ∧
      (queue.blocks tailBlockNext).cells = [some element]

/-! ### What the consumer relies on -/

/-- The local variables at each point of `try_dequeue`, `peek` and `pop`. -/
def Consumer.Fits (queue : Queue α) (occupied : List Nat) : Consumer α → Prop
  | .idle => True
  | .start _ => True
  | .reload _ frontBlock blockFront =>
    frontBlock = queue.frontBlock ∧ blockFront = (queue.blocks frontBlock).front
  | .compare _ frontBlock => frontBlock = queue.frontBlock
  | .recheck _ => 1 < occupied.length
  | .follow _ frontBlock =>
    frontBlock = queue.frontBlock ∧ 1 < occupied.length ∧
      (queue.blocks queue.frontBlock).cells = []
  | .inspect _ nextBlock =>
    occupied.tail.head? = some nextBlock ∧ (queue.blocks queue.frontBlock).cells = []
  | .shift call nextBlock nextBlockFront =>
    call ≠ .peek ∧ occupied.tail.head? = some nextBlock ∧
      (queue.blocks queue.frontBlock).cells = [] ∧
      nextBlockFront = (queue.blocks nextBlock).front ∧
      (queue.blocks nextBlock).localTail ≠ (queue.blocks nextBlock).front
  | .take call frontBlock blockFront =>
    blockFront = (queue.blocks frontBlock).front ∧
      (frontBlock = queue.frontBlock ∧
          (queue.blocks frontBlock).localTail ≠ (queue.blocks frontBlock).front ∨
        call = .peek ∧ occupied.tail.head? = some frontBlock ∧
          (queue.blocks queue.frontBlock).cells = [])
  | .release call frontBlock blockFront _ =>
    call ≠ .peek ∧ frontBlock = queue.frontBlock ∧
      blockFront = (queue.blocks frontBlock).after (queue.blocks frontBlock).front ∧
      (queue.blocks frontBlock).localTail ≠ (queue.blocks frontBlock).front ∧
      (queue.blocks frontBlock).data (queue.blocks frontBlock).front = none

/-- How the blocks hold the elements of the queue. An element that the consumer has moved
out of its slot belongs to the queue until the front has moved. -/
def Consumer.Shows (cells : List (Option α)) (contents : List α) : Consumer α → Prop
  | .release _ _ _ element => ∃ rest, contents = element :: rest ∧ cells = none :: rest.map some
  | _ => cells = contents.map some

theorem Consumer.Shows.append {cells : List (Option α)} {contents : List α}
    {consumer : Consumer α} (shows : consumer.Shows cells contents) (element : α) :
    consumer.Shows (cells ++ [some element]) (contents ++ [element]) := by
  cases consumer with
  | release =>
    obtain ⟨rest, rfl, rfl⟩ := shows
    exact ⟨rest ++ [element], by simp⟩
  | _ =>
    have same : cells = contents.map some := shows
    simp [Shows, same]

/-! ### The room that the constructor reserves -/

/-- Whatever block the consumer is in, the others have room for `capacity` elements; with
one block only, that block has. New blocks are at least as large as the largest one. -/
structure Reserve (capacity : Nat) (queue : Queue α) (ring : List Nat) : Prop where
  power : ∃ exponent, queue.largestBlockSize = 2 ^ exponent
  largest : ∀ address ∈ ring, (queue.blocks address).size ≤ queue.largestBlockSize
  room : ∀ address ∈ ring,
    capacity + (queue.blocks address).sizeMask ≤
        (ring.map fun other => (queue.blocks other).sizeMask).sum ∨
      ring = [address] ∧ capacity ≤ (queue.blocks address).sizeMask

namespace Reserve

variable {capacity : Nat} {queue other : Queue α} {ring : List Nat}

section

variable (reserve : Reserve capacity queue ring)
include reserve

theorem of_agree (largest : other.largestBlockSize = queue.largestBlockSize)
    (agree : ∀ address ∈ ring,
      (other.blocks address).sizeMask = (queue.blocks address).sizeMask) :
    Reserve capacity other ring where
  power := by rw [largest]; exact reserve.power
  largest := fun address member => by
    rw [largest, Block.size, agree address member]
    exact reserve.largest address member
  room := fun address member => by
    rw [agree address member, map_congr_left agree]
    exact reserve.room address member

/-- A new block may be larger than those of the ring. -/
theorem of_larger (power : ∃ exponent, other.largestBlockSize = 2 ^ exponent)
    (larger : queue.largestBlockSize ≤ other.largestBlockSize)
    (agree : ∀ address ∈ ring, other.blocks address = queue.blocks address) :
    Reserve capacity other ring where
  power := power
  largest := fun address member => by
    rw [agree address member]
    exact Nat.le_trans (reserve.largest address member) larger
  room := fun address member => by
    have masks : (ring.map fun place => (other.blocks place).sizeMask) =
        ring.map fun place => (queue.blocks place).sizeMask :=
      map_congr_left fun place inRing => congrArg Block.sizeMask (agree place inRing)
    rw [agree address member, masks]
    exact reserve.room address member

theorem update {address : Nat} {change : Block α → Block α}
    (same : (change (queue.blocks address)).sizeMask = (queue.blocks address).sizeMask) :
    Reserve capacity (queue.update address change) ring :=
  reserve.of_agree rfl fun other _ => Queue.read_update Block.sizeMask same other

theorem perm {rotated : List Nat} (same : rotated.Perm ring) : Reserve capacity queue rotated where
  power := reserve.power
  largest := fun address member => reserve.largest address (same.subset member)
  room := fun address member => by
    rcases reserve.room address (same.subset member) with others | ⟨rfl, alone⟩
    · exact Or.inl (Nat.le_trans others (Nat.le_of_eq (same.map _).sum_nat.symm))
    · exact Or.inr ⟨perm_singleton.mp same, alone⟩

end

/-- A new block that is as large as the largest one. -/
theorem insert {front back : List Nat} {newBlock : Nat}
    (reserve : Reserve capacity queue (front ++ back))
    (size : (queue.blocks newBlock).size = queue.largestBlockSize) (nonempty : front ≠ []) :
    Reserve capacity queue (front ++ newBlock :: back) := by
  have total : ((front ++ newBlock :: back).map fun other => (queue.blocks other).sizeMask).sum =
      (queue.blocks newBlock).sizeMask +
        ((front ++ back).map fun other => (queue.blocks other).sizeMask).sum := by
    simp only [map_append, map_cons, sum_append, sum_cons]
    omega
  -- the old ring as a whole has the room, and the new block is as large as any of it
  have whole : ∀ address ∈ front ++ back,
      capacity ≤ ((front ++ back).map fun other => (queue.blocks other).sizeMask).sum ∧
        (capacity + (queue.blocks address).sizeMask ≤
            ((front ++ back).map fun other => (queue.blocks other).sizeMask).sum ∨
          capacity ≤ (queue.blocks newBlock).sizeMask ∧ (queue.blocks address).sizeMask =
            ((front ++ back).map fun other => (queue.blocks other).sizeMask).sum) := by
    intro address member
    have smaller := reserve.largest address member
    rw [← size, Block.size, Block.size] at smaller
    rcases reserve.room address member with others | ⟨single, alone⟩
    · exact ⟨by omega, Or.inl others⟩
    · rw [single, map_singleton, sum_singleton]
      exact ⟨alone, Or.inr ⟨by omega, rfl⟩⟩
  refine ⟨reserve.power, ?_, ?_⟩
  · intro address member
    rcases mem_cons.mp (perm_middle.subset member) with rfl | old
    · exact Nat.le_of_eq size
    · exact reserve.largest address old
  · intro address member
    left
    rw [total]
    rcases mem_cons.mp (perm_middle.subset member) with rfl | old
    · obtain ⟨first, inFront⟩ := exists_mem_of_ne_nil front nonempty
      have enough := (whole first (mem_append_left _ inFront)).1
      omega
    · have enough := (whole address old).2
      omega

end Reserve

/-! ### The invariant -/

/-- A block that the producer has made and not yet linked. -/
def Producer.unlinked : Producer α → Nat
  | .link .. => 1
  | _ => 0

/-- The memory is laid out as the threads rely on, and it holds the elements that have been
put in and not been taken out. All blocks are in the ring. -/
structure Inv (capacity : Nat) (state : State α) (occupied spare : List Nat)
    (contents : List α) : Prop where
  arranged : Arranged state.queue state.producer.ahead state.producer.filling occupied spare
  reserve : Reserve capacity state.queue (occupied ++ spare)
  producer : state.producer.Fits state.queue occupied spare
  consumer : state.consumer.Fits state.queue occupied
  holds : state.consumer.Shows (state.queue.cells occupied) contents
  legal : Legal [] state.log contents
  complete : (occupied ++ spare).length + state.producer.unlinked = state.queue.made
  sound : state.queue.sound = true

/-- The invariant, without the names of its witnesses. -/
def Sound (capacity : Nat) (state : State α) : Prop :=
  ∃ occupied spare contents, Inv capacity state occupied spare contents

/-! ### What the producer leaves alone -/

/-- The producer does not touch the fronts, nor the consumer's copies, nor the slots that
have elements; a block behind the tail block it does not touch at all. -/
structure ProducerKeeps (occupied : List Nat) (queue other : Queue α) : Prop where
  frontBlock : other.frontBlock = queue.frontBlock
  front : ∀ address ∈ occupied, (other.blocks address).front = (queue.blocks address).front
  localTail : ∀ address ∈ occupied,
    (other.blocks address).localTail = (queue.blocks address).localTail
  sizeMask : ∀ address ∈ occupied,
    (other.blocks address).sizeMask = (queue.blocks address).sizeMask
  data : ∀ address ∈ occupied, (queue.blocks address).cells ≠ [] →
    (other.blocks address).data (queue.blocks address).front =
      (queue.blocks address).data (queue.blocks address).front
  cells : 1 < occupied.length →
    (other.blocks queue.frontBlock).cells = (queue.blocks queue.frontBlock).cells

theorem Block.after_congr {block other : Block α} (same : other.sizeMask = block.sizeMask)
    (index : Nat) : other.after index = block.after index := by
  rw [after, after, same]

theorem head?_tail_append {address : Nat} {occupied : List Nat}
    (second : occupied.tail.head? = some address) (more : List Nat) :
    (occupied ++ more).tail.head? = some address := by
  cases occupied with
  | nil => cases second
  | cons first rest =>
    rw [tail_cons] at second
    rw [cons_append, tail_cons, head?_append, second]
    rfl

theorem several_of_head?_tail {address : Nat} {occupied : List Nat}
    (second : occupied.tail.head? = some address) : 1 < occupied.length := by
  have several := length_pos_of_mem (mem_of_head? second)
  rw [length_tail] at several
  omega

theorem mem_of_head?_tail {address : Nat} {occupied : List Nat}
    (second : occupied.tail.head? = some address) : address ∈ occupied :=
  mem_of_mem_tail (mem_of_head? second)

namespace ProducerKeeps

variable {queue other : Queue α} {occupied spare : List Nat} {ahead : Nat → Nat}
  {filling : Option Nat}

theorem refl (occupied : List Nat) (queue : Queue α) : ProducerKeeps occupied queue queue where
  frontBlock := rfl
  front := fun _ _ => rfl
  localTail := fun _ _ => rfl
  sizeMask := fun _ _ => rfl
  data := fun _ _ _ => rfl
  cells := fun _ => rfl

theorem of_agree (frontBlock : other.frontBlock = queue.frontBlock)
    (arranged : Arranged queue ahead filling occupied spare)
    (agree : ∀ address ∈ occupied, other.blocks address = queue.blocks address) :
    ProducerKeeps occupied queue other where
  frontBlock := frontBlock
  front := fun address used => by rw [agree address used]
  localTail := fun address used => by rw [agree address used]
  sizeMask := fun address used => by rw [agree address used]
  data := fun address used _ => by rw [agree address used]
  cells := fun _ => by rw [agree _ arranged.frontBlock_mem]

/-- A write to one block that the consumer does not see. -/
theorem update {address : Nat} {change : Block α → Block α}
    (front : (change (queue.blocks address)).front = (queue.blocks address).front)
    (localTail : (change (queue.blocks address)).localTail = (queue.blocks address).localTail)
    (sizeMask : (change (queue.blocks address)).sizeMask = (queue.blocks address).sizeMask)
    (data : (queue.blocks address).cells ≠ [] →
      (change (queue.blocks address)).data (queue.blocks address).front =
        (queue.blocks address).data (queue.blocks address).front)
    (cells : 1 < occupied.length → address = queue.frontBlock →
      (change (queue.blocks address)).cells = (queue.blocks address).cells) :
    ProducerKeeps occupied queue (queue.update address change) where
  frontBlock := rfl
  front := fun place _ => Queue.read_update Block.front front place
  localTail := fun place _ => Queue.read_update Block.localTail localTail place
  sizeMask := fun place _ => Queue.read_update Block.sizeMask sizeMask place
  data := fun place _ => Queue.forall_update (fun place block => (queue.blocks place).cells ≠ [] →
    block.data (queue.blocks place).front = (queue.blocks place).data (queue.blocks place).front)
    data (fun _ _ _ => rfl) place
  cells := fun several => Queue.forall_update (fun place block => place = queue.frontBlock →
    block.cells = (queue.blocks place).cells) (cells several) (fun _ _ _ => rfl) _ rfl

/-- The consumer can go on after a step of the producer. -/
theorem fits (keeps : ProducerKeeps occupied queue other)
    (arranged : Arranged queue ahead filling occupied spare) {consumer : Consumer α}
    (fits : consumer.Fits queue occupied) (more : List Nat) :
    consumer.Fits other (occupied ++ more) := by
  have frontMem := arranged.frontBlock_mem
  cases consumer with
  | idle => trivial
  | start call => trivial
  | reload call frontBlock =>
    obtain ⟨rfl, rfl⟩ := fits
    exact ⟨keeps.frontBlock.symm, (keeps.front _ frontMem).symm⟩
  | compare call frontBlock => exact Eq.trans fits keeps.frontBlock.symm
  | recheck call =>
    have several : 1 < occupied.length := fits
    change 1 < (occupied ++ more).length
    rw [length_append]
    omega
  | follow call frontBlock =>
    obtain ⟨rfl, several, empty⟩ := fits
    refine ⟨keeps.frontBlock.symm, ?_, ?_⟩
    · rw [length_append]
      omega
    · rw [keeps.frontBlock, keeps.cells several, empty]
  | inspect =>
    obtain ⟨second, empty⟩ := fits
    refine ⟨head?_tail_append second more, ?_⟩
    rw [keeps.frontBlock, keeps.cells (several_of_head?_tail second), empty]
  | shift =>
    obtain ⟨removes, second, empty, rfl, shown⟩ := fits
    have member := mem_of_head?_tail second
    refine ⟨removes, head?_tail_append second more, ?_, (keeps.front _ member).symm, ?_⟩
    · rw [keeps.frontBlock, keeps.cells (several_of_head?_tail second), empty]
    · rw [keeps.localTail _ member, keeps.front _ member]
      exact shown
  | take call frontBlock =>
    obtain ⟨rfl, ⟨rfl, shown⟩ | ⟨peeks, second, empty⟩⟩ := fits
    · refine ⟨(keeps.front _ frontMem).symm, Or.inl ⟨keeps.frontBlock.symm, ?_⟩⟩
      rw [keeps.localTail _ frontMem, keeps.front _ frontMem]
      exact shown
    · refine ⟨(keeps.front _ (mem_of_head?_tail second)).symm,
        Or.inr ⟨peeks, head?_tail_append second more, ?_⟩⟩
      rw [keeps.frontBlock, keeps.cells (several_of_head?_tail second), empty]
  | release call frontBlock =>
    obtain ⟨removes, rfl, rfl, shown, taken⟩ := fits
    have valid := arranged.validFront
    have nonempty : (queue.blocks queue.frontBlock).cells ≠ [] := fun empty =>
      valid.front_ne_tail shown (valid.cells_eq_nil_iff.mp empty)
    refine ⟨removes, keeps.frontBlock.symm, ?_, ?_, ?_⟩
    · rw [Block.after_congr (keeps.sizeMask _ frontMem), keeps.front _ frontMem]
    · rw [keeps.localTail _ frontMem, keeps.front _ frontMem]
      exact shown
    · rw [keeps.front _ frontMem, keeps.data _ frontMem nonempty, taken]

end ProducerKeeps

/-! ### What the consumer leaves alone -/

/-- The consumer does not touch the tails, nor the producer's copies, nor the slots at the
tails; it touches only blocks in use, and the tail block only if it is the front block. -/
structure ConsumerKeeps (occupied : List Nat) (queue other : Queue α) : Prop where
  tailBlock : other.tailBlock = queue.tailBlock
  made : other.made = queue.made
  largest : other.largestBlockSize = queue.largestBlockSize
  tail : ∀ address, (other.blocks address).tail = (queue.blocks address).tail
  localFront : ∀ address, (other.blocks address).localFront = (queue.blocks address).localFront
  next : ∀ address, (other.blocks address).next = (queue.blocks address).next
  sizeMask : ∀ address, (other.blocks address).sizeMask = (queue.blocks address).sizeMask
  data : ∀ address ∈ occupied, (other.blocks address).data (queue.blocks address).tail =
    (queue.blocks address).data (queue.blocks address).tail
  untouched : ∀ address ∉ occupied, other.blocks address = queue.blocks address
  count : 1 < occupied.length →
    (other.blocks queue.tailBlock).count = (queue.blocks queue.tailBlock).count

namespace ConsumerKeeps

variable {queue other : Queue α} {occupied spare : List Nat} {ahead : Nat → Nat}
  {filling : Option Nat}

theorem refl (occupied : List Nat) (queue : Queue α) : ConsumerKeeps occupied queue queue where
  tailBlock := rfl
  made := rfl
  largest := rfl
  tail := fun _ => rfl
  localFront := fun _ => rfl
  next := fun _ => rfl
  sizeMask := fun _ => rfl
  data := fun _ _ => rfl
  untouched := fun _ _ => rfl
  count := fun _ => rfl

/-- A write to one block in use that the producer does not see. -/
theorem update {address : Nat} (used : address ∈ occupied) {change : Block α → Block α}
    (tail : (change (queue.blocks address)).tail = (queue.blocks address).tail)
    (localFront : (change (queue.blocks address)).localFront =
      (queue.blocks address).localFront)
    (next : (change (queue.blocks address)).next = (queue.blocks address).next)
    (sizeMask : (change (queue.blocks address)).sizeMask = (queue.blocks address).sizeMask)
    (data : (change (queue.blocks address)).data (queue.blocks address).tail =
      (queue.blocks address).data (queue.blocks address).tail)
    (count : 1 < occupied.length → address = queue.tailBlock →
      (change (queue.blocks address)).count = (queue.blocks address).count) :
    ConsumerKeeps occupied queue (queue.update address change) where
  tailBlock := rfl
  made := rfl
  largest := rfl
  tail := Queue.read_update Block.tail tail
  localFront := Queue.read_update Block.localFront localFront
  next := Queue.read_update Block.next next
  sizeMask := Queue.read_update Block.sizeMask sizeMask
  data := fun _ _ => Queue.forall_update (fun place block =>
    block.data (queue.blocks place).tail = (queue.blocks place).data (queue.blocks place).tail)
    data (fun _ _ => rfl) _
  untouched := fun _ unused =>
    Queue.blocks_update_of_ne fun same => unused (same ▸ used)
  count := fun several => Queue.forall_update (fun place block => place = queue.tailBlock →
    block.count = (queue.blocks place).count) (count several) (fun _ _ _ => rfl) _ rfl

theorem full (keeps : ConsumerKeeps occupied queue other) (full : queue.Full occupied)
    {rest : List Nat} (shorter : rest.length ≤ occupied.length) (nonempty : rest ≠ []) :
    other.Full rest := by
  have positive := length_pos_iff.mpr nonempty
  rcases full with one | full
  · exact Or.inl (by omega)
  · by_cases several : 1 < occupied.length
    · right
      rw [keeps.tailBlock, keeps.count several, full, keeps.sizeMask]
    · exact Or.inl (by omega)

/-- The producer can go on after a step of the consumer. -/
theorem fits (keeps : ConsumerKeeps occupied queue other)
    (arranged : Arranged queue ahead filling occupied spare) {producer : Producer α}
    (fits : producer.Fits queue occupied spare) {rest more : List Nat}
    (shorter : rest.length ≤ occupied.length) (nonempty : rest ≠ [])
    (within : ∀ address, address ∈ rest ++ (spare ++ more) → address ∈ occupied ++ spare) :
    producer.Fits other rest (spare ++ more) := by
  have tailMem := arranged.tailBlock_mem
  have stillFull : queue.Full occupied → other.Full rest := fun full =>
    keeps.full full shorter nonempty
  have stillSpare : ∀ {address}, spare.head? = some address →
      (spare ++ more).head? = some address ∧ other.blocks address = queue.blocks address := by
    intro address first
    refine ⟨by rw [head?_append, first, Option.some_or],
      keeps.untouched address fun used => ?_⟩
    exact arranged.notMem_spare used (mem_of_head? first)
  cases producer with
  | idle | check => trivial
  | reload mode element tailBlock =>
    obtain ⟨rfl, rfl, rfl⟩ := fits
    exact ⟨keeps.tailBlock.symm, (keeps.tail _).symm,
      (Block.after_congr (keeps.sizeMask _) _).symm⟩
  | construct element tailBlock =>
    obtain ⟨rfl, rfl, rfl, room⟩ := fits
    refine ⟨keeps.tailBlock.symm, (keeps.tail _).symm,
      (Block.after_congr (keeps.sizeMask _) _).symm, ?_⟩
    rw [keeps.localFront]
    exact room
  | publish element tailBlock =>
    obtain ⟨rfl, rfl, room, constructed⟩ := fits
    refine ⟨keeps.tailBlock.symm, ?_, ?_, ?_⟩
    · rw [Block.after_congr (keeps.sizeMask _), keeps.tail]
    · rw [keeps.localFront]
      exact room
    · rw [keeps.tail, keeps.data _ tailMem, constructed]
  | full mode element tailBlock =>
    obtain ⟨rfl, full⟩ := fits
    exact ⟨keeps.tailBlock.symm, stillFull full⟩
  | advance element tailBlock =>
    obtain ⟨rfl, full, unused⟩ := fits
    exact ⟨keeps.tailBlock.symm, stillFull full, append_ne_nil_of_left_ne_nil unused more⟩
  | constructNext =>
    obtain ⟨full, first, rfl, copied⟩ := fits
    obtain ⟨first', same⟩ := stillSpare first
    refine ⟨stillFull full, first', ?_, ?_⟩
    · rw [same]
    · rw [same, copied]
  | publishNext =>
    obtain ⟨full, first, rfl, copied, constructed⟩ := fits
    obtain ⟨first', same⟩ := stillSpare first
    refine ⟨stillFull full, first', ?_, ?_, ?_⟩
    · rw [same]
    · rw [same, copied]
    · rw [same, constructed]
  | allocate element tailBlock =>
    obtain ⟨rfl, full⟩ := fits
    exact ⟨keeps.tailBlock.symm, stillFull full⟩
  | link element tailBlock newBlock =>
    obtain ⟨rfl, full, notIn, made, valid, cells, size, next⟩ := fits
    have same : other.blocks newBlock = queue.blocks newBlock :=
      keeps.untouched newBlock fun used => notIn (mem_append_left _ used)
    refine ⟨keeps.tailBlock.symm, stillFull full, fun member => notIn (within _ member), ?_, ?_,
      ?_, ?_, ?_⟩
    · rw [keeps.made]
      exact made
    · rw [same]
      exact valid
    · rw [same, cells]
    · rw [same, size, keeps.largest]
    · rw [Queue.next, Queue.next, keeps.next, keeps.next]
      exact next
  | moveOn =>
    obtain ⟨full, first, cells⟩ := fits
    obtain ⟨first', same⟩ := stillSpare first
    refine ⟨stillFull full, first', ?_⟩
    rw [same, cells]

end ConsumerKeeps

end ReaderWriterQueue

end RFaaS
