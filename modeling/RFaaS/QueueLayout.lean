/-
This file says how the elements of the queue stand in memory. A block holds the
stretch of its circular buffer from its front to its tail. The blocks in use
follow one another from the front block to the tail block; the rest of the ring,
from behind the tail block back to the front block, is spare.

The copies that the threads keep of each other's index are what makes the queue
work without a lock. They may be old, but in one direction only: the consumer's
copy of a tail never runs ahead of the tail, and the producer's copy of a front
never runs ahead of the front.
-/

import RFaaS.ReaderWriterQueue

namespace RFaaS

namespace ReaderWriterQueue

open CircularBuffer CircularList List Function

variable {α : Type*}

/-! ### One block -/

namespace Block

/-- What a block holds, from its front on. -/
def cells (block : Block α) : List (Option α) :=
  CircularBuffer.cells block.size block.data block.front block.tail

/-- The number of elements of a block, with the one that is being taken out. -/
def count (block : Block α) : Nat := distance block.size block.front block.tail

/-- A block in order. The producer may have constructed an element in the slot at the
tail and not moved the tail yet; the slots from there on, `ahead` of them less, are free. -/
structure Valid (ahead : Nat) (block : Block α) : Prop where
  power : ∃ exponent, block.size = 2 ^ exponent
  wide : 2 ≤ block.size
  front_lt : block.front < block.size
  tail_lt : block.tail < block.size
  localTail_lt : block.localTail < block.size
  localFront_lt : block.localFront < block.size
  behind : distance block.size block.front block.localTail ≤ block.count
  before : distance block.size block.localFront block.front + block.count < block.size
  vacant : ∀ slot < block.size, block.count + ahead ≤ distance block.size block.front slot →
    block.data slot = none

variable {block : Block α} {ahead : Nat}

@[simp] theorem length_cells : block.cells.length = block.count := CircularBuffer.length_cells

namespace Valid

section

variable (valid : block.Valid ahead)
include valid

theorem after_eq (index : Nat) : block.after index = advance block.size index := by
  obtain ⟨exponent, size_eq⟩ := valid.power
  have mask_eq : block.sizeMask = 2 ^ exponent - 1 := by
    rw [← size_eq, size, Nat.add_sub_cancel]
  rw [after, advance, mask_eq, Nat.and_two_pow_sub_one_eq_mod, size_eq]

theorem cells_eq_nil_iff : block.cells = [] ↔ block.front = block.tail :=
  CircularBuffer.cells_eq_nil_iff valid.front_lt valid.tail_lt

/-- A copy of the tail that is not at the front shows that there is an element. -/
theorem front_ne_tail (ahead_ne : block.localTail ≠ block.front) : block.front ≠ block.tail := by
  intro same
  have nothing : block.count = 0 := (distance_eq_zero_iff valid.front_lt valid.tail_lt).mpr same
  have reached : distance block.size block.front block.localTail = 0 :=
    Nat.le_zero.mp (nothing ▸ valid.behind)
  exact ahead_ne ((distance_eq_zero_iff valid.front_lt valid.localTail_lt).mp reached).symm

/-- A copy of the front that the tail does not run into shows that there is room. -/
theorem room (room : block.after block.tail ≠ block.localFront) :
    distance block.size block.localFront block.front + block.count + 1 < block.size := by
  rw [valid.after_eq, advance_ne_iff valid.localFront_lt valid.tail_lt,
    distance_add valid.localFront_lt valid.front_lt valid.tail_lt valid.before] at room
  exact room

/-- A block whose tail would run into its front is full. -/
theorem count_of_full
    (full : block.after block.tail = block.front) : block.count = block.sizeMask := by
  rw [valid.after_eq] at full
  have noRoom : ¬block.count + 1 < block.size := fun room =>
    (advance_ne_iff valid.front_lt valid.tail_lt).mpr room full
  have bound : block.count < block.size := distance_lt valid.tail_lt
  rw [size] at noRoom bound
  omega

/-! ### What the threads do to a block -/

theorem setLocalFront : ({ block with localFront := block.front } : Block α).Valid ahead :=
  { valid with
    localFront_lt := valid.front_lt
    before := by
      have turn : distance block.size block.front block.front = 0 := distance_self valid.front_lt
      have bound : block.count < block.size := distance_lt valid.tail_lt
      change distance block.size block.front block.front + block.count < block.size
      omega }

theorem setLocalTail : ({ block with localTail := block.tail } : Block α).Valid ahead :=
  { valid with
    localTail_lt := valid.tail_lt
    behind := Nat.le_refl block.count }

end

theorem construct (valid : block.Valid 0) (element : α) :
    ({ block with data := update block.data block.tail (some element) } :
      Block α).Valid 1 :=
  { valid with
    vacant := by
      intro slot inside far
      change block.count + 1 ≤ distance block.size block.front slot at far
      have apart : slot ≠ block.tail := by
        rintro rfl
        exact Nat.lt_irrefl _ far
      change update block.data block.tail (some element) slot = none
      rw [update_of_ne apart]
      exact valid.vacant slot inside (by omega) }

theorem cells_construct (valid : block.Valid ahead) (element : α) :
    ({ block with data := update block.data block.tail (some element) } :
      Block α).cells = block.cells :=
  cells_update_last valid.front_lt valid.tail_lt _

theorem data_tail (valid : block.Valid 0) : block.data block.tail = none :=
  valid.vacant block.tail valid.tail_lt (Nat.le_refl _)

theorem count_publish (valid : block.Valid ahead) (room : block.count + 1 < block.size) :
    ({ block with tail := block.after block.tail } : Block α).count = block.count + 1 := by
  have moved := distance_advance_last valid.front_lt valid.tail_lt room
  rw [← valid.after_eq] at moved
  exact moved

theorem publish (valid : block.Valid 1) (room : block.after block.tail ≠ block.localFront) :
    ({ block with tail := block.after block.tail } : Block α).Valid 0 := by
  have enough := valid.room room
  have longer := valid.count_publish (by omega)
  refine
    { valid with
      tail_lt := ?_
      behind := ?_
      before := ?_
      vacant := ?_ }
  · change block.after block.tail < block.size
    rw [valid.after_eq]
    exact advance_lt valid.tail_lt
  · rw [longer]
    exact Nat.le_succ_of_le valid.behind
  · rw [longer]
    exact enough
  · rw [longer]
    exact valid.vacant

section

variable (valid : block.Valid ahead)
include valid

theorem cells_publish (room : block.after block.tail ≠ block.localFront) :
    ({ block with tail := block.after block.tail } : Block α).cells =
      block.cells ++ [block.data block.tail] := by
  have enough := valid.room room
  have moved := @cells_advance_last _ _ _ _ block.data valid.front_lt valid.tail_lt
    (show block.count + 1 < block.size by omega)
  rw [← valid.after_eq] at moved
  exact moved

theorem take :
    ({ block with data := update block.data block.front none } : Block α).Valid ahead :=
  { valid with
    vacant := by
      intro slot inside far
      change update block.data block.front none slot = none
      by_cases same : slot = block.front
      · rw [same, update_self]
      · rw [update_of_ne same]
        exact valid.vacant slot inside far }

theorem cells_eq_cons (nonempty : block.front ≠ block.tail) :
    block.cells = block.data block.front ::
      ({ block with front := block.after block.front } : Block α).cells := by
  have head := @cells_advance_first _ _ _ _ block.data valid.front_lt valid.tail_lt nonempty
  rw [← valid.after_eq] at head
  exact head

theorem cells_take (nonempty : block.front ≠ block.tail) :
    ({ block with data := update block.data block.front none } : Block α).cells =
      none :: ({ block with front := block.after block.front } : Block α).cells := by
  have head := @cells_update_first _ _ _ _ block.data valid.front_lt valid.tail_lt nonempty none
  rw [← valid.after_eq] at head
  exact head

/-- Moving the front behind the slot whose element has been taken out. -/
theorem release (shown : block.localTail ≠ block.front) (taken : block.data block.front = none) :
    ({ block with front := block.after block.front } : Block α).Valid ahead := by
  have nonempty := valid.front_ne_tail shown
  have next_lt : advance block.size block.front < block.size := advance_lt valid.front_lt
  have shorter : distance block.size (advance block.size block.front) block.tail + 1 =
      block.count := distance_advance_first valid.front_lt valid.tail_lt nonempty
  have shorterCopy := distance_advance_first valid.front_lt valid.localTail_lt shown.symm
  have behind := valid.behind
  have before := valid.before
  rw [valid.after_eq]
  refine
    { valid with
      front_lt := next_lt
      behind := ?_
      before := ?_
      vacant := ?_ }
  · change distance block.size (advance block.size block.front) block.localTail ≤
      distance block.size (advance block.size block.front) block.tail
    omega
  · have further := distance_advance_last valid.localFront_lt valid.front_lt
      (show distance block.size block.localFront block.front + 1 < block.size by omega)
    change distance block.size block.localFront (advance block.size block.front) +
      distance block.size (advance block.size block.front) block.tail < block.size
    omega
  · intro slot inside far
    change distance block.size (advance block.size block.front) block.tail + ahead ≤
      distance block.size (advance block.size block.front) slot at far
    by_cases same : slot = block.front
    · exact same ▸ taken
    · have nearer := distance_advance_first valid.front_lt inside (Ne.symm same)
      exact valid.vacant slot inside (by omega)

end

end Valid

theorem valid_make {capacity exponent : Nat} (power : capacity = 2 ^ exponent)
    (wide : 2 ≤ capacity) (next : Nat) :
    ({ (makeBlock capacity : Block α) with next := next } : Block α).Valid 0 := by
  have size_eq : capacity - 1 + 1 = capacity := by omega
  have start : 0 < capacity - 1 + 1 := by omega
  have nothing : distance (capacity - 1 + 1) 0 0 = 0 := distance_self start
  exact
    { power := ⟨exponent, size_eq.trans power⟩
      wide := by rw [size]; exact Nat.le_trans wide (Nat.le_of_eq size_eq.symm)
      front_lt := start
      tail_lt := start
      localTail_lt := start
      localFront_lt := start
      behind := Nat.le_refl _
      before := by
        change distance (capacity - 1 + 1) 0 0 + distance (capacity - 1 + 1) 0 0 < capacity - 1 + 1
        omega
      vacant := fun _ _ _ => rfl }

theorem cells_make {capacity : Nat} (next : Nat) :
    ({ (makeBlock capacity : Block α) with next := next } : Block α).cells = [] :=
  cells_self (Nat.succ_pos _)

/-- A new block is an empty one in which the producer has taken its usual steps. -/
theorem fresh_spec {capacity exponent : Nat} (power : capacity = 2 ^ exponent)
    (wide : 2 ≤ capacity) (next : Nat) (element : α) :
    (fresh capacity next element).Valid 0 ∧
      (fresh capacity next element).cells = [some element] := by
  have empty : ({ (makeBlock capacity : Block α) with next := next } : Block α).Valid 0 :=
    valid_make power wide next
  have nothing : ({ (makeBlock capacity : Block α) with next := next } : Block α).cells = [] :=
    cells_make next
  have one : ({ (makeBlock capacity : Block α) with next := next } : Block α).after 0 = 1 := by
    rw [empty.after_eq]
    refine advance_of_lt ?_
    change 0 + 1 < capacity - 1 + 1
    omega
  have constructed := empty.construct element
  have room : ({ (makeBlock capacity : Block α) with next := next } : Block α).after 0 ≠ 0 := by
    rw [one]
    exact Nat.one_ne_zero
  have published := constructed.publish room
  have holds := constructed.cells_publish room
  rw [empty.cells_construct element, nothing] at holds
  change ({ (fresh capacity next element) with
    tail := ({ (makeBlock capacity : Block α) with next := next } : Block α).after 0
    localTail := 0 } : Block α).Valid 0 at published
  change ({ (fresh capacity next element) with
    tail := ({ (makeBlock capacity : Block α) with next := next } : Block α).after 0
    localTail := 0 } : Block α).cells = [some element] at holds
  rw [one] at published holds
  exact ⟨published.setLocalTail, holds⟩

end Block

/-! ### The ring -/

/-- The pointers of the ring. -/
def Queue.next (queue : Queue α) (address : Nat) : Nat := (queue.blocks address).next

/-- What some blocks hold, one block after the other. -/
def Queue.cells (queue : Queue α) (addresses : List Nat) : List (Option α) :=
  addresses.flatMap fun address => (queue.blocks address).cells

/-- The blocks in use from the front block to the tail block, and the spare ones behind.
Only the front block can be empty, and only the first and the last one can have room.
`filling` is a spare block that has got its element before the producer moves on to it. -/
structure Arranged (queue : Queue α) (ahead : Nat → Nat) (filling : Option Nat)
    (occupied spare : List Nat) : Prop where
  ring : Ring queue.next queue.frontBlock (occupied ++ spare)
  last : occupied.getLast? = some queue.tailBlock
  made : ∀ address ∈ occupied ++ spare, address < queue.made
  valid : ∀ address ∈ occupied ++ spare, (queue.blocks address).Valid (ahead address)
  filled : ∀ address ∈ occupied.tail, (queue.blocks address).cells ≠ []
  stuffed : ∀ address ∈ occupied.tail.dropLast,
    (queue.blocks address).count = (queue.blocks address).sizeMask
  bare : ∀ address ∈ spare, some address ≠ filling → (queue.blocks address).cells = []

namespace Queue

variable {queue : Queue α} {address : Nat} {change : Block α → Block α} {addresses : List Nat}

@[simp] theorem blocks_update_self :
    (queue.update address change).blocks address = change (queue.blocks address) :=
  update_self ..

theorem blocks_update_of_ne {other : Nat} (ne : other ≠ address) :
    (queue.update address change).blocks other = queue.blocks other :=
  update_of_ne ne _ _

/-- What holds of the block as it is then, and of the others, holds of every block. -/
theorem forall_update (property : Nat → Block α → Prop)
    (here : property address (change (queue.blocks address)))
    (elsewhere : ∀ other, other ≠ address → property other (queue.blocks other)) (other : Nat) :
    property other ((queue.update address change).blocks other) := by
  by_cases same : other = address
  · rw [same, blocks_update_self]
    exact here
  · rw [blocks_update_of_ne same]
    exact elsewhere other same

/-- What a write leaves as it is in its block is everywhere as it was. -/
theorem read_update {β : Type*} (read : Block α → β)
    (same : read (change (queue.blocks address)) = read (queue.blocks address)) :
    ∀ other, read ((queue.update address change).blocks other) = read (queue.blocks other) :=
  forall_update (fun other block => read block = read (queue.blocks other)) same fun _ _ => rfl

@[simp] theorem cells_nil : queue.cells [] = [] := rfl

@[simp] theorem cells_cons (first : Nat) (rest : List Nat) :
    queue.cells (first :: rest) = (queue.blocks first).cells ++ queue.cells rest := rfl

theorem cells_append (first second : List Nat) :
    queue.cells (first ++ second) = queue.cells first ++ queue.cells second :=
  flatMap_append

theorem cells_congr {other : Queue α}
    (agree : ∀ address ∈ addresses, (other.blocks address).cells = (queue.blocks address).cells) :
    other.cells addresses = queue.cells addresses := by
  rw [cells, cells, flatMap_def, flatMap_def, map_congr_left agree]

theorem cells_update_of_notMem (notIn : address ∉ addresses) :
    (queue.update address change).cells addresses = queue.cells addresses := by
  refine cells_congr fun other member => ?_
  rw [blocks_update_of_ne]
  rintro rfl
  exact notIn member

theorem expect_of_true {condition : Bool} (holds : condition = true) :
    queue.expect condition = queue := by
  rw [expect, holds, Bool.and_true]

/-- A write that does not touch what the block holds. -/
theorem cells_update_of_eq
    (same : (change (queue.blocks address)).cells = (queue.blocks address).cells) :
    (queue.update address change).cells addresses = queue.cells addresses :=
  cells_congr fun other _ => read_update Block.cells same other

end Queue

namespace Arranged

variable {queue : Queue α} {ahead : Nat → Nat} {filling : Option Nat} {occupied spare : List Nat}

section Reading

variable (arranged : Arranged queue ahead filling occupied spare)

include arranged

theorem exists_last : ∃ front, occupied = front ++ [queue.tailBlock] :=
  getLast?_eq_some_iff.mp arranged.last

theorem exists_first : ∃ rest, occupied = queue.frontBlock :: rest := by
  obtain ⟨front, rfl⟩ := arranged.exists_last
  have head := arranged.ring.head
  cases front with
  | nil =>
    rw [nil_append, singleton_append, head?_cons, Option.some.injEq] at head
    exact ⟨[], by rw [nil_append, head]⟩
  | cons first rest =>
    rw [cons_append, cons_append, head?_cons, Option.some.injEq] at head
    exact ⟨rest ++ [queue.tailBlock], by rw [cons_append, head]⟩

theorem frontBlock_mem : queue.frontBlock ∈ occupied := by
  obtain ⟨rest, rfl⟩ := arranged.exists_first
  exact mem_cons_self

theorem tailBlock_mem : queue.tailBlock ∈ occupied :=
  mem_of_getLast? arranged.last

theorem validFront : (queue.blocks queue.frontBlock).Valid (ahead queue.frontBlock) :=
  arranged.valid _ (mem_append_left _ arranged.frontBlock_mem)

theorem validTail : (queue.blocks queue.tailBlock).Valid (ahead queue.tailBlock) :=
  arranged.valid _ (mem_append_left _ arranged.tailBlock_mem)

/-- Behind the tail block comes the first spare one, or the front block. -/
theorem next_tailBlock : queue.next queue.tailBlock = spare.head?.getD queue.frontBlock := by
  obtain ⟨front, occupied_eq⟩ := arranged.exists_last
  have ring := arranged.ring
  rw [occupied_eq, append_assoc, singleton_append] at ring
  exact ring.next_eq

theorem notMem_spare {address : Nat} (used : address ∈ occupied) : address ∉ spare := fun unused =>
  (nodup_append.mp arranged.ring.nodup).2.2 address used address unused rfl

theorem frontBlock_notMem_tail : queue.frontBlock ∉ occupied.tail := by
  have apart := (nodup_append.mp arranged.ring.nodup).1
  obtain ⟨rest, rfl⟩ := arranged.exists_first
  exact (nodup_cons.mp apart).1

theorem tailBlock_notMem_dropLast : queue.tailBlock ∉ occupied.dropLast := by
  have apart := (nodup_append.mp arranged.ring.nodup).1
  obtain ⟨front, occupied_eq⟩ := arranged.exists_last
  rw [occupied_eq] at apart ⊢
  rw [dropLast_concat]
  exact fun member => (nodup_append.mp apart).2.2 _ member _ mem_cons_self rfl

theorem tailBlock_notMem_middle : queue.tailBlock ∉ occupied.tail.dropLast := by
  rw [← tail_dropLast]
  exact fun member => arranged.tailBlock_notMem_dropLast (mem_of_mem_tail member)

/-- The front block is the tail block exactly if no other block is in use. -/
theorem frontBlock_eq_tailBlock_iff : queue.frontBlock = queue.tailBlock ↔ occupied.length = 1 := by
  have last := arranged.last
  have outside := arranged.frontBlock_notMem_tail
  obtain ⟨rest, rfl⟩ := arranged.exists_first
  cases rest with
  | nil => simpa using last
  | cons second rest =>
    rw [getLast?_cons_cons] at last
    have member : queue.tailBlock ∈ second :: rest := mem_of_getLast? last
    constructor
    · intro same
      exact absurd (same ▸ member) outside
    · intro short
      simp at short

/-- The next block to read from, if the tail block is not the front block. -/
theorem next_frontBlock (several : 1 < occupied.length) :
    occupied.tail.head? = some (queue.next queue.frontBlock) := by
  have ring := arranged.ring
  obtain ⟨rest, rfl⟩ := arranged.exists_first
  cases rest with
  | nil => exact absurd several (by simp)
  | cons second rest =>
    rw [tail_cons, head?_cons, ring.next_first]

/-- What the blocks in use hold after a write to the tail block. -/
theorem cells_update_tailBlock {change : Block α → Block α} {more : List (Option α)}
    (longer : (change (queue.blocks queue.tailBlock)).cells =
      (queue.blocks queue.tailBlock).cells ++ more) :
    (queue.update queue.tailBlock change).cells occupied = queue.cells occupied ++ more := by
  have apart := arranged.tailBlock_notMem_dropLast
  obtain ⟨front, occupied_eq⟩ := arranged.exists_last
  rw [occupied_eq, dropLast_concat] at apart
  rw [occupied_eq, Queue.cells_append, Queue.cells_append, Queue.cells_update_of_notMem apart,
    Queue.cells_cons, Queue.cells_cons, Queue.blocks_update_self, longer]
  simp

/-- What the blocks in use hold after a write to the front block. -/
theorem cells_update_frontBlock (change : Block α → Block α) :
    (queue.update queue.frontBlock change).cells occupied =
      (change (queue.blocks queue.frontBlock)).cells ++ queue.cells occupied.tail := by
  have apart := arranged.frontBlock_notMem_tail
  obtain ⟨rest, occupied_eq⟩ := arranged.exists_first
  rw [occupied_eq, tail_cons] at apart
  rw [occupied_eq, Queue.cells_cons, Queue.cells_update_of_notMem apart,
    Queue.blocks_update_self, tail_cons]

theorem cells_eq :
    queue.cells occupied =
      (queue.blocks queue.frontBlock).cells ++ queue.cells occupied.tail := by
  obtain ⟨rest, occupied_eq⟩ := arranged.exists_first
  rw [occupied_eq, Queue.cells_cons, tail_cons]

end Reading

/-! ### What a step does to the ring -/

section

variable (arranged : Arranged queue ahead filling occupied spare)
include arranged

/-- Nothing that the ring is made of has changed. -/
theorem of_agree {other : Queue α}
    (front : other.frontBlock = queue.frontBlock) (tail : other.tailBlock = queue.tailBlock)
    (made : queue.made ≤ other.made)
    (agree : ∀ address ∈ occupied ++ spare, other.blocks address = queue.blocks address) :
    Arranged other ahead filling occupied spare where
  ring := by
    rw [front]
    exact arranged.ring.congr fun address member => congrArg Block.next (agree address member)
  last := by rw [tail, arranged.last]
  made := fun address member => Nat.lt_of_lt_of_le (arranged.made address member) made
  valid := fun address member => by
    rw [agree address member]
    exact arranged.valid address member
  filled := fun address member => by
    rw [agree address (mem_append_left _ (mem_of_mem_tail member))]
    exact arranged.filled address member
  stuffed := fun address member => by
    rw [agree address
      (mem_append_left _ (mem_of_mem_tail (dropLast_subset _ member)))]
    exact arranged.stuffed address member
  bare := fun address member => by
    rw [agree address (mem_append_right _ member)]
    exact arranged.bare address member

/-- One block of the ring has changed, and its pointer has not. -/
theorem update {address : Nat}
    {change : Block α → Block α} {ahead' : Nat → Nat} {filling' : Option Nat}
    (next : (change (queue.blocks address)).next = (queue.blocks address).next)
    (valid : (change (queue.blocks address)).Valid (ahead' address))
    (elsewhere : ∀ other, other ≠ address → ahead' other = ahead other)
    (filled : address ∈ occupied.tail → (change (queue.blocks address)).cells ≠ [])
    (stuffed : address ∈ occupied.tail.dropLast →
      (change (queue.blocks address)).count = (change (queue.blocks address)).sizeMask)
    (bare : address ∈ spare → some address ≠ filling' →
      (change (queue.blocks address)).cells = [])
    (unfilled : ∀ other ∈ spare, other ≠ address → some other ≠ filling' →
      some other ≠ filling) :
    Arranged (queue.update address change) ahead' filling' occupied spare := by
  refine ⟨arranged.ring.congr fun other _ => Queue.read_update Block.next next other,
    arranged.last, arranged.made, ?_, ?_, ?_, ?_⟩
  · refine Queue.forall_update (fun other block => other ∈ occupied ++ spare →
      block.Valid (ahead' other)) (fun _ => valid) fun other apart member => ?_
    rw [elsewhere other apart]
    exact arranged.valid other member
  · exact Queue.forall_update (fun other block => other ∈ occupied.tail → block.cells ≠ [])
      filled fun other _ => arranged.filled other
  · exact Queue.forall_update (fun other block => other ∈ occupied.tail.dropLast →
      block.count = block.sizeMask) stuffed fun other _ => arranged.stuffed other
  · exact Queue.forall_update (fun other block => other ∈ spare → some other ≠ filling' →
      block.cells = []) bare fun other apart member notFilling =>
        arranged.bare other member (unfilled other member apart notFilling)

/-- One of the copies of a block has changed. -/
theorem update_copy {address : Nat} {change : Block α → Block α}
    (next : (change (queue.blocks address)).next = (queue.blocks address).next)
    (valid : (change (queue.blocks address)).Valid (ahead address))
    (cells : (change (queue.blocks address)).cells = (queue.blocks address).cells)
    (mask : (change (queue.blocks address)).sizeMask = (queue.blocks address).sizeMask) :
    Arranged (queue.update address change) ahead filling occupied spare := by
  refine arranged.update next valid (fun _ _ => rfl) ?_ ?_ ?_ fun _ _ _ unfilled => unfilled
  · rw [cells]
    exact arranged.filled address
  · rw [← Block.length_cells, cells, Block.length_cells, mask]
    exact arranged.stuffed address
  · rw [cells]
    exact arranged.bare address

/-- The consumer may do to the front block what leaves it valid. -/
theorem update_front {change : Block α → Block α}
    (next : (change (queue.blocks queue.frontBlock)).next =
      (queue.blocks queue.frontBlock).next)
    (valid : (change (queue.blocks queue.frontBlock)).Valid (ahead queue.frontBlock)) :
    Arranged (queue.update queue.frontBlock change) ahead filling occupied spare := by
  have outside := arranged.frontBlock_notMem_tail
  exact arranged.update next valid (fun _ _ => rfl) (fun used => absurd used outside)
    (fun used => absurd (dropLast_subset _ used) outside)
    (fun unused => absurd unused (arranged.notMem_spare arranged.frontBlock_mem))
    fun _ _ _ unfilled => unfilled

end

/-- The consumer moves on to the next block and leaves an empty one behind. -/
theorem shift {nextBlock : Nat} {rest : List Nat}
    (arranged : Arranged queue ahead filling (queue.frontBlock :: nextBlock :: rest) spare)
    (empty : (queue.blocks queue.frontBlock).cells = []) :
    Arranged { queue with frontBlock := nextBlock } ahead filling (nextBlock :: rest)
      (spare ++ [queue.frontBlock]) := by
  have moved : nextBlock :: rest ++ (spare ++ [queue.frontBlock]) =
      nextBlock :: (rest ++ spare) ++ [queue.frontBlock] := by simp
  have members : ∀ address, address ∈ nextBlock :: rest ++ (spare ++ [queue.frontBlock]) →
      address ∈ queue.frontBlock :: nextBlock :: rest ++ spare := by
    intro address member
    simp only [mem_append, mem_cons, not_mem_nil, or_false] at member ⊢
    tauto
  refine ⟨?_, ?_, ?_, ?_, ?_, ?_, ?_⟩
  · rw [moved]
    exact arranged.ring.rotate
  · have last := arranged.last
    rwa [getLast?_cons_cons] at last
  · exact fun address member => arranged.made address (members address member)
  · exact fun address member => arranged.valid address (members address member)
  · exact fun address member => arranged.filled address (mem_cons_of_mem _ member)
  · intro address member
    refine arranged.stuffed address ?_
    cases rest with
    | nil => exact absurd member (by simp)
    | cons third rest =>
      rw [tail_cons, dropLast_cons_cons]
      exact mem_cons_of_mem _ member
  · intro address member notFilling
    rcases mem_append.mp member with old | new
    · exact arranged.bare address old notFilling
    · rw [mem_singleton.mp new]
      exact empty

/-- The producer moves on to the next spare block, which has got its element. -/
theorem moveOn {tailBlockNext : Nat} {rest : List Nat}
    (arranged : Arranged queue ahead (some tailBlockNext) occupied (tailBlockNext :: rest))
    (full : occupied.length = 1 ∨
      (queue.blocks queue.tailBlock).count = (queue.blocks queue.tailBlock).sizeMask)
    (holds : (queue.blocks tailBlockNext).cells ≠ []) :
    Arranged { queue with tailBlock := tailBlockNext } ahead none (occupied ++ [tailBlockNext])
      rest := by
  have same : occupied ++ [tailBlockNext] ++ rest = occupied ++ tailBlockNext :: rest := by simp
  have nonempty : occupied ≠ [] := ne_nil_of_mem arranged.tailBlock_mem
  refine ⟨?_, getLast?_concat, ?_, ?_, ?_, ?_, ?_⟩
  · rw [same]
    exact arranged.ring
  · rw [same]
    exact arranged.made
  · rw [same]
    exact arranged.valid
  · rw [tail_append_of_ne_nil nonempty]
    intro address member
    rcases mem_append.mp member with old | new
    · exact arranged.filled address old
    · rw [mem_singleton.mp new]
      exact holds
  · rw [tail_append_of_ne_nil nonempty, dropLast_concat]
    intro address member
    -- the block that is left is full, unless the consumer is in it
    obtain ⟨first, occupied_eq⟩ := arranged.exists_first
    have inFirst : address ∈ first := by rwa [occupied_eq, tail_cons] at member
    have notOne : occupied.length ≠ 1 := by
      rw [occupied_eq, length_cons]
      have positive := length_pos_of_mem inFirst
      omega
    have last := arranged.last
    rw [occupied_eq, getLast?_cons_of_ne_nil (ne_nil_of_mem inFirst)] at last
    obtain ⟨front, first_eq⟩ := getLast?_eq_some_iff.mp last
    rw [first_eq] at inFirst
    rcases mem_append.mp inFirst with old | new
    · refine arranged.stuffed address ?_
      rw [occupied_eq, tail_cons, first_eq, dropLast_concat]
      exact old
    · rw [mem_singleton.mp new]
      exact full.resolve_left notOne
  · intro address member _
    refine arranged.bare address (mem_cons_of_mem _ member) fun same => ?_
    have apart := (nodup_append.mp arranged.ring.nodup).2.1
    rw [Option.some.injEq] at same
    exact (nodup_cons.mp apart).1 (same ▸ member)

/-- The producer puts a new block behind the tail block. -/
theorem link {newBlock : Nat} (arranged : Arranged queue ahead none occupied spare)
    (notIn : newBlock ∉ occupied ++ spare) (made : newBlock < queue.made)
    (valid : (queue.blocks newBlock).Valid (ahead newBlock))
    (next : queue.next newBlock = queue.next queue.tailBlock) :
    Arranged (queue.setNext queue.tailBlock newBlock) ahead (some newBlock) occupied
      (newBlock :: spare) := by
  have ne : newBlock ≠ queue.tailBlock := by
    rintro rfl
    exact notIn (mem_append_left _ arranged.tailBlock_mem)
  have same : (queue.setNext queue.tailBlock newBlock).blocks queue.tailBlock =
      { queue.blocks queue.tailBlock with next := newBlock } :=
    Queue.blocks_update_self
  have apart : ∀ other, other ≠ queue.tailBlock →
      (queue.setNext queue.tailBlock newBlock).blocks other = queue.blocks other := fun _ =>
    Queue.blocks_update_of_ne
  -- apart from its pointer the tail block is what it was
  have cells : ∀ address, ((queue.setNext queue.tailBlock newBlock).blocks address).cells =
      (queue.blocks address).cells := Queue.read_update Block.cells rfl
  refine ⟨?_, arranged.last, ?_, ?_, ?_, ?_, ?_⟩
  · obtain ⟨front, occupied_eq⟩ := arranged.exists_last
    have ring := arranged.ring
    rw [occupied_eq, append_assoc, singleton_append] at ring notIn ⊢
    refine ring.insert notIn ?_ ?_ ?_
    · rw [Queue.next, same]
    · rw [Queue.next, apart _ ne, ← next, Queue.next]
    · intro address notTail _
      rw [Queue.next, apart _ notTail, Queue.next]
  · intro address member
    rcases mem_cons.mp (perm_middle.subset member) with rfl | old
    · exact made
    · exact arranged.made address old
  · intro address member
    have old : (queue.blocks address).Valid (ahead address) := by
      rcases mem_cons.mp (perm_middle.subset member) with rfl | old
      · exact valid
      · exact arranged.valid address old
    exact Queue.forall_update (fun other block => other = address → block.Valid (ahead other))
      (by rintro rfl; exact { old with }) (by rintro other - rfl; exact old) address rfl
  · intro address member
    rw [cells]
    exact arranged.filled address member
  · intro address member
    rw [← Block.length_cells, cells, Block.length_cells]
    exact (arranged.stuffed address member).trans (Queue.read_update Block.sizeMask rfl _).symm
  · intro address member notNew
    rw [cells]
    rcases mem_cons.mp member with rfl | old
    · exact absurd rfl notNew
    · exact arranged.bare address old (Option.some_ne_none address)

end Arranged

end ReaderWriterQueue

end RFaaS
