/-
This file proves that every access of either thread of the queue keeps its
invariant. There is one case for each program point. What a case has to say is
what the access writes, how the ring is then, and which answer it gives; that the
other thread can go on and that the history stays one of a queue follows from
that for all of them at once.
-/

import RFaaS.QueueInvariant

namespace RFaaS

namespace ReaderWriterQueue

open CircularBuffer CircularList List

variable {α : Type*} {capacity maxBlockSize : Nat}

/-! ### Building the invariant after a step -/

namespace Inv

variable {queue after : Queue α} {producer : Producer α} {consumer : Consumer α}
  {log : List (Response α)} {occupied spare : List Nat} {contents : List α}
  {answer : Option (Response α)} {malloc : Bool}
  (inv : Inv capacity ⟨queue, producer, consumer, log⟩ occupied spare contents)

include inv

theorem producerFits : producer.Fits queue occupied spare := inv.producer

theorem consumerFits : consumer.Fits queue occupied := inv.consumer

theorem isArranged : Arranged queue producer.ahead producer.filling occupied spare := inv.arranged

/-- A step of the producer: what it leaves alone, how the ring is then, and that it adds
what it answers to have added. -/
theorem produced {next : Producer α}
    (taken : producer.step maxBlockSize malloc queue = (after, next, answer))
    (keeps : ProducerKeeps occupied queue after) {more used rest : List Nat}
    (grown : occupied ++ more = used)
    (arranged : Arranged after next.ahead next.filling used rest)
    (reserve : Reserve capacity after (used ++ rest)) (fits : next.Fits after used rest)
    (cells : after.cells used =
      queue.cells occupied ++ (answer.bind Response.added).toList.map some)
    (legal : Legal contents answer.toList (contents ++ (answer.bind Response.added).toList))
    (complete : (used ++ rest).length + next.unlinked = after.made)
    (sound : after.sound = queue.sound) :
    Sound capacity (step maxBlockSize ⟨queue, producer, consumer, log⟩ (.produce malloc)) := by
  have stepped : step maxBlockSize ⟨queue, producer, consumer, log⟩ (.produce malloc) =
      ⟨after, next, consumer, log ++ answer.toList⟩ := by
    simp only [step, taken]
  rw [stepped]
  refine ⟨used, rest, contents ++ (answer.bind Response.added).toList, arranged, reserve, fits,
    grown ▸ keeps.fits inv.arranged inv.consumer more, ?_,
    legal_append.mpr ⟨contents, inv.legal, legal⟩, complete, sound.trans inv.sound⟩
  change consumer.Shows (after.cells used) _
  rw [cells]
  cases new : answer.bind Response.added with
  | none => simpa using inv.holds
  | some element => exact inv.holds.append element

/-- A step of the producer that leaves it in the same block. -/
theorem produced_here {next : Producer α}
    (taken : producer.step maxBlockSize malloc queue = (after, next, answer))
    (keeps : ProducerKeeps occupied queue after)
    (arranged : Arranged after next.ahead next.filling occupied spare)
    (reserve : Reserve capacity after (occupied ++ spare)) (fits : next.Fits after occupied spare)
    (cells : after.cells occupied =
      queue.cells occupied ++ (answer.bind Response.added).toList.map some)
    (legal : Legal contents answer.toList (contents ++ (answer.bind Response.added).toList))
    (made : after.made + producer.unlinked = queue.made + next.unlinked)
    (sound : after.sound = queue.sound) :
    Sound capacity (step maxBlockSize ⟨queue, producer, consumer, log⟩ (.produce malloc)) := by
  have complete : (occupied ++ spare).length + producer.unlinked = queue.made := inv.complete
  exact inv.produced taken keeps (append_nil _) arranged reserve fits cells legal (by omega)
    sound

/-- A step of the producer that writes to a block and adds nothing. -/
theorem produced_silently {next : Producer α} {address : Nat} {change : Block α → Block α}
    (taken : producer.step maxBlockSize malloc queue = (queue.update address change, next, none))
    (keeps : ProducerKeeps occupied queue (queue.update address change))
    (mask : (change (queue.blocks address)).sizeMask = (queue.blocks address).sizeMask)
    (arranged : Arranged (queue.update address change) next.ahead next.filling occupied spare)
    (fits : next.Fits (queue.update address change) occupied spare)
    (cells : (queue.update address change).cells occupied = queue.cells occupied)
    (unlinked : producer.unlinked = next.unlinked) :
    Sound capacity (step maxBlockSize ⟨queue, producer, consumer, log⟩ (.produce malloc)) :=
  inv.produced_here taken keeps arranged (inv.reserve.update mask) fits (by simpa using cells)
    (append_nil contents).symm (congrArg _ unlinked) rfl

/-- A step of the producer that only moves its program counter. -/
theorem produced_quietly {next : Producer α}
    (taken : producer.step maxBlockSize malloc queue = (queue, next, answer))
    (ahead : next.ahead = producer.ahead) (filling : next.filling = producer.filling)
    (fits : next.Fits queue occupied spare) (adds : answer.bind Response.added = none)
    (legal : Legal contents answer.toList contents)
    (unlinked : producer.unlinked = next.unlinked) :
    Sound capacity (step maxBlockSize ⟨queue, producer, consumer, log⟩ (.produce malloc)) := by
  have arranged : Arranged queue next.ahead next.filling occupied spare := by
    rw [ahead, filling]
    exact inv.arranged
  exact inv.produced_here taken (.refl occupied queue) arranged inv.reserve fits
    (by simp [adds]) (by simpa [adds] using legal) (congrArg _ unlinked) rfl

/-- A step of the consumer: what it leaves alone, how the ring is then, and that it removes
what it answers to have removed. -/
theorem consumed {next : Consumer α} (taken : consumer.step queue = (after, next, answer))
    (keeps : ConsumerKeeps occupied queue after) {more used rest : List Nat}
    (grown : spare ++ more = rest)
    (arranged : Arranged after producer.ahead producer.filling used rest)
    (rotated : (used ++ rest).Perm (occupied ++ spare)) (shorter : used.length ≤ occupied.length)
    (fits : next.Fits after used) {left : List α} (holds : next.Shows (after.cells used) left)
    (legal : Legal contents answer.toList left) (sound : after.sound = queue.sound) :
    Sound capacity (step maxBlockSize ⟨queue, producer, consumer, log⟩ .consume) := by
  have stepped : step maxBlockSize ⟨queue, producer, consumer, log⟩ .consume =
      ⟨after, producer, next, log ++ answer.toList⟩ := by
    simp only [step, taken]
  rw [stepped]
  have nonempty : used ≠ [] := ne_nil_of_mem arranged.tailBlock_mem
  refine ⟨used, rest, left, arranged, ?_, ?_, fits, holds,
    legal_append.mpr ⟨contents, inv.legal, legal⟩, ?_, sound.trans inv.sound⟩
  · refine Reserve.perm ?_ rotated
    exact inv.reserve.of_agree keeps.largest fun address _ => keeps.sizeMask address
  · subst grown
    exact keeps.fits inv.arranged inv.producer shorter nonempty fun address member =>
      rotated.subset member
  · rw [rotated.length_eq]
    exact inv.complete.trans keeps.made.symm

/-- A step of the consumer that leaves it in the same block. -/
theorem consumed_here {next : Consumer α} (taken : consumer.step queue = (after, next, answer))
    (keeps : ConsumerKeeps occupied queue after)
    (arranged : Arranged after producer.ahead producer.filling occupied spare)
    (fits : next.Fits after occupied) {left : List α}
    (holds : next.Shows (after.cells occupied) left)
    (legal : Legal contents answer.toList left) (sound : after.sound = queue.sound) :
    Sound capacity (step maxBlockSize ⟨queue, producer, consumer, log⟩ .consume) :=
  inv.consumed taken keeps (append_nil _) arranged (.refl _) (Nat.le_refl _) fits holds legal
    sound

/-- A step of the consumer that writes nothing. -/
theorem consumed_quietly {next : Consumer α}
    (taken : consumer.step queue = (queue, next, answer)) (fits : next.Fits queue occupied)
    (holds : next.Shows (queue.cells occupied) contents)
    (legal : Legal contents answer.toList contents) :
    Sound capacity (step maxBlockSize ⟨queue, producer, consumer, log⟩ .consume) :=
  inv.consumed_here taken (.refl occupied queue) inv.arranged fits holds legal rfl

end Inv

/-! ### Every access of the producer -/

/-- An element is constructed in the free slot at the tail of a block. -/
theorem Arranged.construct {queue : Queue α} {occupied spare : List Nat} {address : Nat}
    (arranged : Arranged queue (fun _ => 0) none occupied spare)
    (inRing : address ∈ occupied ++ spare) (element : α) :
    let change := fun block : Block α => { block with
      data := Function.update block.data (queue.blocks address).tail (some element) }
    queue.construct address (queue.blocks address).tail element = queue.update address change ∧
      Arranged (queue.update address change) (fun other => if other = address then 1 else 0) none
        occupied spare ∧
      ProducerKeeps occupied queue (queue.update address change) ∧
      (queue.update address change).cells occupied = queue.cells occupied := by
  have valid := arranged.valid address inRing
  have cells := valid.cells_construct element
  refine ⟨?_, ?_, ?_, Queue.cells_update_of_eq cells⟩
  · rw [Queue.construct, Queue.expect_of_true (by rw [valid.data_tail]; rfl)]
  · refine arranged.update rfl ?_ ?_ ?_ (arranged.stuffed _) ?_ fun _ _ _ unfilled => unfilled
    · rw [if_pos rfl]
      exact valid.construct element
    · exact fun other elsewhere => if_neg elsewhere
    · exact fun used => cells ▸ arranged.filled _ used
    · exact fun unused notFilling => cells.trans (arranged.bare _ unused notFilling)
  · refine .update rfl rfl rfl (fun nonempty => ?_) fun _ _ => cells
    exact Function.update_of_ne (fun same => nonempty (valid.cells_eq_nil_iff.mpr same)) _ _

/-- The size of a new block: a power of two, and no less than what there is. -/
theorem newBlockSize_spec {largest exponent : Nat} (power : largest = 2 ^ exponent)
    (wide : 2 ≤ maxBlockSize) :
    (∃ exponent, (if largest ≥ maxBlockSize then largest else largest * 2) = 2 ^ exponent) ∧
      2 ≤ (if largest ≥ maxBlockSize then largest else largest * 2) ∧
      largest ≤ (if largest ≥ maxBlockSize then largest else largest * 2) := by
  have positive : 0 < largest := power ▸ Nat.two_pow_pos exponent
  split
  · exact ⟨⟨exponent, power⟩, by omega, Nat.le_refl _⟩
  · exact ⟨⟨exponent + 1, by rw [power, Nat.pow_succ]⟩, by omega, by omega⟩

namespace Producer

/-- The next access of the producer keeps the invariant. -/
def Safe (capacity maxBlockSize : Nat) (producer : Producer α) : Prop :=
  ∀ queue consumer log occupied spare contents malloc,
    Inv capacity ⟨queue, producer, consumer, log⟩ occupied spare contents →
    Sound capacity (ReaderWriterQueue.step maxBlockSize ⟨queue, producer, consumer, log⟩
      (.produce malloc))

theorem safe_check (mode : AllocationMode) (element : α) :
    (check mode element).Safe capacity maxBlockSize := by
  intro queue consumer log occupied spare contents malloc inv
  by_cases room : (queue.blocks queue.tailBlock).after (queue.blocks queue.tailBlock).tail ≠
      (queue.blocks queue.tailBlock).localFront
  · exact inv.produced_quietly (if_pos room) rfl rfl ⟨rfl, rfl, rfl, room⟩ rfl rfl rfl
  · exact inv.produced_quietly (if_neg room) rfl rfl ⟨rfl, rfl, rfl⟩ rfl rfl rfl

theorem safe_reload (mode : AllocationMode) (element : α)
    (tailBlock blockTail nextBlockTail : Nat) :
    (reload mode element tailBlock blockTail nextBlockTail).Safe capacity maxBlockSize := by
  intro queue consumer log occupied spare contents malloc inv
  obtain ⟨rfl, rfl, rfl⟩ := inv.producerFits
  have valid := inv.isArranged.validTail
  have reloaded : Arranged (queue.setLocalFront queue.tailBlock
      (queue.blocks queue.tailBlock).front) (fun _ => 0) none occupied spare :=
    inv.isArranged.update_copy rfl valid.setLocalFront rfl rfl
  have keeps : ProducerKeeps occupied queue (queue.setLocalFront queue.tailBlock
      (queue.blocks queue.tailBlock).front) :=
    .update rfl rfl rfl (fun _ => rfl) fun _ _ => rfl
  by_cases room : (queue.blocks queue.tailBlock).after (queue.blocks queue.tailBlock).tail ≠
      (queue.blocks queue.tailBlock).front
  · refine inv.produced_silently (if_pos room) keeps rfl reloaded ⟨rfl, ?_, ?_, ?_⟩
      (Queue.cells_update_of_eq rfl) rfl
    · rw [Queue.blocks_update_self]
    · rw [Queue.blocks_update_self]; rfl
    · rw [Queue.blocks_update_self]; exact room
  · refine inv.produced_silently (if_neg room) keeps rfl reloaded ⟨rfl, Or.inr ?_⟩
      (Queue.cells_update_of_eq rfl) rfl
    change ((queue.update _ _).blocks queue.tailBlock).count =
      ((queue.update _ _).blocks queue.tailBlock).sizeMask
    rw [Queue.blocks_update_self]
    exact valid.count_of_full (not_not.mp room)

variable (element : α)

theorem safe_construct (tailBlock blockTail nextBlockTail : Nat) :
    (construct element tailBlock blockTail nextBlockTail).Safe capacity maxBlockSize := by
  intro queue consumer log occupied spare contents malloc inv
  obtain ⟨rfl, rfl, rfl, room⟩ := inv.producerFits
  obtain ⟨free, arranged, keeps, cells⟩ := Arranged.construct inv.arranged
    (mem_append_left _ inv.isArranged.tailBlock_mem) element
  refine inv.produced_silently (congrArg (·, _, none) free) keeps rfl arranged ⟨rfl, ?_, ?_, ?_⟩
    cells rfl
  · rw [Queue.blocks_update_self]; rfl
  · rw [Queue.blocks_update_self]; exact room
  · rw [Queue.blocks_update_self]; exact Function.update_self ..

theorem safe_publish (tailBlock nextBlockTail : Nat) :
    (publish element tailBlock nextBlockTail).Safe capacity maxBlockSize := by
  intro queue consumer log occupied spare contents malloc inv
  obtain ⟨rfl, rfl, room, constructed⟩ := inv.producerFits
  have arranged := inv.isArranged
  have valid : (queue.blocks queue.tailBlock).Valid 1 := by
    simpa [ahead] using arranged.validTail
  have holds := valid.cells_publish room
  rw [constructed] at holds
  refine inv.produced_here rfl ?_ ?_ (inv.reserve.update rfl) trivial
    (arranged.cells_update_tailBlock holds) rfl rfl rfl
  · refine .update rfl rfl rfl (fun _ => rfl) fun several here => ?_
    exact absurd (arranged.frontBlock_eq_tailBlock_iff.mp here.symm) (by omega)
  · refine arranged.update rfl (valid.publish room) ?_ ?_ ?_ ?_ fun _ _ _ unfilled => unfilled
    · exact fun other elsewhere => (if_neg elsewhere).symm
    · intro _
      rw [holds]
      exact concat_ne_nil _ _
    · exact fun member => absurd member arranged.tailBlock_notMem_middle
    · exact fun unused => absurd unused (arranged.notMem_spare arranged.tailBlock_mem)

theorem safe_full (mode : AllocationMode) (element : α) (tailBlock : Nat) :
    (full mode element tailBlock).Safe capacity maxBlockSize := by
  intro queue consumer log occupied spare contents malloc inv
  obtain ⟨rfl, full⟩ := inv.producerFits
  by_cases another : (queue.blocks queue.tailBlock).next ≠ queue.frontBlock
  · have unused : spare ≠ [] := by
      rintro rfl
      exact another inv.arranged.next_tailBlock
    exact inv.produced_quietly (if_pos another) rfl rfl ⟨rfl, full, unused⟩ rfl rfl rfl
  · cases mode with
    | canAlloc => exact inv.produced_quietly (if_neg another) rfl rfl ⟨rfl, full⟩ rfl rfl rfl
    | cannotAlloc => exact inv.produced_quietly (if_neg another) rfl rfl trivial rfl rfl rfl

theorem safe_advance (tailBlock : Nat) :
    (advance element tailBlock).Safe capacity maxBlockSize := by
  intro queue consumer log occupied spare contents malloc inv
  obtain ⟨rfl, full, unused⟩ := inv.producerFits
  have arranged := inv.isArranged
  obtain ⟨tailBlockNext, rest, rfl⟩ := exists_cons_of_ne_nil unused
  have following : (queue.blocks queue.tailBlock).next = tailBlockNext := arranged.next_tailBlock
  have first : tailBlockNext ∈ tailBlockNext :: rest := mem_cons_self
  have valid := arranged.valid _ (mem_append_right _ first)
  have empty : (queue.blocks tailBlockNext).front = (queue.blocks tailBlockNext).tail :=
    valid.cells_eq_nil_iff.mp (arranged.bare _ first (Option.some_ne_none _))
  have taken : (advance element queue.tailBlock).step maxBlockSize malloc queue =
      (queue.setLocalFront tailBlockNext (queue.blocks tailBlockNext).front,
        .constructNext element tailBlockNext (queue.blocks tailBlockNext).tail, none) := by
    simp only [step, following]
    rw [Queue.expect_of_true (decide_eq_true empty)]
  refine inv.produced_silently taken (.update rfl rfl rfl (fun _ => rfl) fun _ _ => rfl) rfl
    (arranged.update_copy rfl valid.setLocalFront rfl rfl) ⟨full.update_of_ne ?_ _, rfl, ?_, ?_⟩
    (Queue.cells_update_of_eq rfl) rfl
  · exact fun same => arranged.notMem_spare (same ▸ arranged.tailBlock_mem) first
  · rw [Queue.blocks_update_self]
  · rw [Queue.blocks_update_self]

theorem safe_constructNext (tailBlockNext nextBlockTail : Nat) :
    (constructNext element tailBlockNext nextBlockTail).Safe capacity maxBlockSize := by
  intro queue consumer log occupied spare contents malloc inv
  obtain ⟨full, first, rfl, copied⟩ := inv.producerFits
  have unused : tailBlockNext ∈ spare := mem_of_head? first
  obtain ⟨free, arranged, keeps, cells⟩ :=
    Arranged.construct inv.arranged (mem_append_right _ unused) element
  refine inv.produced_silently (congrArg (·, _, none) free) keeps rfl arranged
    ⟨full.update_of_ne ?_ _, first, ?_, ?_, ?_⟩ cells rfl
  · exact fun same => arranged.notMem_spare (same ▸ arranged.tailBlock_mem) unused
  · rw [Queue.blocks_update_self]
  · rw [Queue.blocks_update_self]; exact copied
  · rw [Queue.blocks_update_self]; exact Function.update_self ..

theorem safe_publishNext (tailBlockNext nextBlockTail : Nat) :
    (publishNext element tailBlockNext nextBlockTail).Safe capacity maxBlockSize := by
  intro queue consumer log occupied spare contents malloc inv
  obtain ⟨full, first, rfl, copied, constructed⟩ := inv.producerFits
  have arranged := inv.isArranged
  have unused : tailBlockNext ∈ spare := mem_of_head? first
  have valid : (queue.blocks tailBlockNext).Valid 1 := by
    simpa [ahead] using arranged.valid _ (mem_append_right _ unused)
  have notUsed : tailBlockNext ∉ occupied := fun used => arranged.notMem_spare used unused
  have empty : (queue.blocks tailBlockNext).cells = [] :=
    arranged.bare _ unused (Option.some_ne_none _)
  have room : (queue.blocks tailBlockNext).after (queue.blocks tailBlockNext).tail ≠
      (queue.blocks tailBlockNext).localFront := by
    have wide := valid.wide
    have nothing : (queue.blocks tailBlockNext).count = 0 := by
      rw [← Block.length_cells, empty, length_nil]
    rw [copied, valid.after_eq, advance_ne_iff valid.front_lt valid.tail_lt]
    change (queue.blocks tailBlockNext).count + 1 < _
    omega
  have holds := valid.cells_publish room
  rw [constructed, empty, nil_append] at holds
  refine inv.produced_silently rfl ?_ rfl ?_ ⟨full.update_of_ne ?_ _, first, ?_⟩
    (Queue.cells_update_of_notMem notUsed) rfl
  · refine .update rfl rfl rfl (fun _ => rfl) fun _ here => ?_
    exact absurd (here ▸ arranged.frontBlock_mem) notUsed
  · refine arranged.update rfl (valid.publish room) ?_ ?_ ?_ ?_ fun _ _ _ _ =>
      Option.some_ne_none _
    · exact fun other elsewhere => (if_neg elsewhere).symm
    · exact fun used => absurd (mem_of_mem_tail used) notUsed
    · exact fun used =>
        absurd (mem_of_mem_tail (dropLast_subset _ used)) notUsed
    · exact fun _ notFilling => absurd rfl notFilling
  · exact fun same => notUsed (same ▸ arranged.tailBlock_mem)
  · rw [Queue.blocks_update_self, holds]

theorem safe_moveOn (tailBlockNext : Nat) :
    (moveOn element tailBlockNext).Safe capacity maxBlockSize := by
  intro queue consumer log occupied spare contents malloc inv
  obtain ⟨full, first, holds⟩ := inv.producerFits
  obtain ⟨rest, rfl⟩ := head?_eq_some_iff.mp first
  have moved := Arranged.moveOn inv.arranged full (by rw [holds]; exact cons_ne_nil _ _)
  have same : occupied ++ [tailBlockNext] ++ rest = occupied ++ tailBlockNext :: rest := by simp
  refine inv.produced rfl ?_ rfl moved ?_ trivial ?_ rfl ?_ rfl
  · exact ⟨rfl, fun _ _ => rfl, fun _ _ => rfl, fun _ _ => rfl, fun _ _ _ => rfl, fun _ => rfl⟩
  · rw [same]
    exact inv.reserve.of_agree rfl fun _ _ => rfl
  · change queue.cells (occupied ++ [tailBlockNext]) = _
    rw [Queue.cells_append, Queue.cells_cons, holds]
    rfl
  · rw [same]
    exact inv.complete

theorem safe_allocate (wide : 2 ≤ maxBlockSize) (element : α) (tailBlock : Nat) :
    (allocate element tailBlock).Safe capacity maxBlockSize := by
  intro queue consumer log occupied spare contents malloc inv
  obtain ⟨rfl, full⟩ := inv.producerFits
  cases malloc with
  | false => exact inv.produced_quietly rfl rfl rfl trivial rfl rfl rfl
  | true =>
    have arranged := inv.isArranged
    obtain ⟨exponent, power⟩ := inv.reserve.power
    obtain ⟨⟨newExponent, newPower⟩, newWide, larger⟩ := newBlockSize_spec power wide
    generalize sizeEq : (if queue.largestBlockSize ≥ maxBlockSize then queue.largestBlockSize
      else queue.largestBlockSize * 2) = newBlockSize at newPower newWide larger
    obtain ⟨valid, holds⟩ := Block.fresh_spec newPower newWide (queue.next queue.tailBlock) element
    generalize madeEq : Block.fresh newBlockSize (queue.next queue.tailBlock) element = newBlock
      at valid holds
    have taken : (allocate element queue.tailBlock).step maxBlockSize true queue =
        (queue.allocate newBlockSize newBlock, .link element queue.tailBlock queue.made,
          none) := by
      rw [← madeEq, ← sizeEq]
      rfl
    have apart : ∀ address ∈ occupied ++ spare,
        (queue.allocate newBlockSize newBlock).blocks address = queue.blocks address :=
      fun address member => Function.update_of_ne (Nat.ne_of_lt (arranged.made address member)) _ _
    have used : ∀ address ∈ occupied,
        (queue.allocate newBlockSize newBlock).blocks address = queue.blocks address :=
      fun address member => apart address (mem_append_left _ member)
    have new : (queue.allocate newBlockSize newBlock).blocks queue.made = newBlock :=
      Function.update_self ..
    have cells : (queue.allocate newBlockSize newBlock).cells occupied = queue.cells occupied :=
      Queue.cells_congr fun address member => congrArg Block.cells (used address member)
    refine inv.produced_here taken (.of_agree rfl arranged used)
      (arranged.of_agree rfl rfl (Nat.le_succ _) apart)
      (inv.reserve.of_larger ⟨newExponent, newPower⟩ larger apart) ?_ (by simpa using cells)
      (append_nil contents).symm rfl rfl
    refine ⟨rfl, ?_, ?_, Nat.lt_succ_self _, ?_, ?_, ?_, ?_⟩
    · refine full.imp id fun full => ?_
      change ((queue.allocate newBlockSize _).blocks queue.tailBlock).count =
        ((queue.allocate newBlockSize _).blocks queue.tailBlock).sizeMask
      rw [used _ arranged.tailBlock_mem, full]
    · exact fun member => Nat.lt_irrefl _ (arranged.made _ member)
    · rw [new]
      exact valid
    · rw [new, holds]
    · rw [new, ← madeEq]
      change newBlockSize - 1 + 1 = newBlockSize
      omega
    · rw [Queue.next, Queue.next, new, used _ arranged.tailBlock_mem, ← madeEq]
      rfl

theorem safe_link (tailBlock newBlock : Nat) :
    (link element tailBlock newBlock).Safe capacity maxBlockSize := by
  intro queue consumer log occupied spare contents malloc inv
  obtain ⟨rfl, full, notIn, made, valid, holds, size, next⟩ := inv.producerFits
  have arranged := inv.isArranged
  have ne : newBlock ≠ queue.tailBlock := by
    rintro rfl
    exact notIn (mem_append_left _ arranged.tailBlock_mem)
  have reserve := inv.reserve.insert size (ne_nil_of_mem arranged.tailBlock_mem)
  have cells : (queue.setNext queue.tailBlock newBlock).cells occupied = queue.cells occupied :=
    Queue.cells_update_of_eq rfl
  refine inv.produced rfl (.update rfl rfl rfl (fun _ => rfl) fun _ _ => rfl) (append_nil _)
    (arranged.link notIn made valid next) (reserve.update rfl) ⟨?_, rfl, ?_⟩ (by simpa using cells)
    (append_nil contents).symm ?_ rfl
  · refine full.imp id fun full => ?_
    change ((queue.update _ _).blocks queue.tailBlock).count =
      ((queue.update _ _).blocks queue.tailBlock).sizeMask
    rw [Queue.blocks_update_self]
    exact full
  · rw [Queue.setNext, Queue.blocks_update_of_ne ne, holds]
  · have complete : (occupied ++ spare).length + 1 = queue.made := inv.complete
    rw [length_append] at complete
    rw [length_append, length_cons]
    exact complete

/-- Every access of the producer keeps the invariant. -/
theorem safe (wide : 2 ≤ maxBlockSize) (producer : Producer α) :
    producer.Safe capacity maxBlockSize := by
  cases producer with
  | idle => exact fun _ _ _ _ _ _ _ inv => inv.produced_quietly rfl rfl rfl trivial rfl rfl rfl
  | check mode element => exact safe_check mode element
  | reload => exact safe_reload _ _ _ _ _
  | construct => exact safe_construct _ _ _ _
  | publish => exact safe_publish _ _ _
  | full => exact safe_full _ _ _
  | advance => exact safe_advance _ _
  | constructNext => exact safe_constructNext _ _ _
  | publishNext => exact safe_publishNext _ _ _
  | allocate => exact safe_allocate wide _ _
  | link => exact safe_link _ _ _
  | moveOn => exact safe_moveOn _ _

end Producer

/-! ### Every access of the consumer -/

/-- The consumer reads the tail of a block in use. -/
theorem Inv.reloaded {queue : Queue α} {producer : Producer α} {consumer : Consumer α}
    {log : List (Response α)} {occupied spare : List Nat} {contents : List α} {address : Nat}
    (inv : Inv capacity ⟨queue, producer, consumer, log⟩ occupied spare contents)
    (used : address ∈ occupied) {after : Queue α}
    (wrote : queue.setLocalTail address (queue.blocks address).tail = after) :
    Arranged after producer.ahead producer.filling occupied spare ∧
      ConsumerKeeps occupied queue after ∧ after.cells occupied = queue.cells occupied ∧
      after.blocks address =
        { queue.blocks address with localTail := (queue.blocks address).tail } := by
  have arranged := inv.isArranged
  have valid := arranged.valid address (mem_append_left _ used)
  subst wrote
  refine ⟨?_, ?_, Queue.cells_update_of_eq rfl, Queue.blocks_update_self⟩
  · exact arranged.update_copy rfl valid.setLocalTail rfl rfl
  · exact .update used rfl rfl rfl rfl rfl fun _ _ => rfl

namespace Consumer

/-- The next access of the consumer keeps the invariant. -/
def Safe (capacity maxBlockSize : Nat) (consumer : Consumer α) : Prop :=
  ∀ queue producer log occupied spare contents,
    Inv capacity ⟨queue, producer, consumer, log⟩ occupied spare contents →
    Sound capacity (ReaderWriterQueue.step maxBlockSize ⟨queue, producer, consumer, log⟩ .consume)

theorem safe_start (call : Call) : (start call : Consumer α).Safe capacity maxBlockSize := by
  intro queue producer log occupied spare contents inv
  by_cases shown : (queue.blocks queue.frontBlock).front ≠
      (queue.blocks queue.frontBlock).localTail
  · exact inv.consumed_quietly (if_pos shown) ⟨rfl, Or.inl ⟨rfl, shown.symm⟩⟩ inv.holds rfl
  · exact inv.consumed_quietly (if_neg shown) ⟨rfl, rfl⟩ inv.holds rfl

theorem safe_reload (call : Call) (frontBlock blockFront : Nat) :
    (reload call frontBlock blockFront : Consumer α).Safe capacity maxBlockSize := by
  intro queue producer log occupied spare contents inv
  obtain ⟨rfl, rfl⟩ := inv.consumerFits
  obtain ⟨arranged, keeps, cells, block⟩ := inv.reloaded inv.isArranged.frontBlock_mem rfl
  by_cases shown : (queue.blocks queue.frontBlock).front ≠ (queue.blocks queue.frontBlock).tail
  · refine inv.consumed_here (if_pos shown) keeps arranged ⟨?_, Or.inl ⟨rfl, ?_⟩⟩
      (cells ▸ inv.holds) rfl rfl
    · rw [block]
    · rw [block]; exact shown.symm
  · exact inv.consumed_here (if_neg shown) keeps arranged rfl (cells ▸ inv.holds) rfl rfl

theorem safe_compare (call : Call) (frontBlock : Nat) :
    (compare call frontBlock : Consumer α).Safe capacity maxBlockSize := by
  intro queue producer log occupied spare contents inv
  obtain rfl : frontBlock = queue.frontBlock := inv.consumerFits
  by_cases another : queue.frontBlock ≠ queue.tailBlock
  · refine inv.consumed_quietly (if_pos another) ?_ inv.holds rfl
    have notOne := mt inv.isArranged.frontBlock_eq_tailBlock_iff.mpr another
    have positive := length_pos_of_mem inv.isArranged.frontBlock_mem
    change 1 < occupied.length
    omega
  · exact inv.consumed_quietly (if_neg another) trivial inv.holds rfl

theorem safe_recheck (call : Call) : (recheck call : Consumer α).Safe capacity maxBlockSize := by
  intro queue producer log occupied spare contents inv
  have several : 1 < occupied.length := inv.consumerFits
  obtain ⟨arranged, keeps, cells, block⟩ := inv.reloaded inv.isArranged.frontBlock_mem rfl
  by_cases shown : (queue.blocks queue.frontBlock).front ≠ (queue.blocks queue.frontBlock).tail
  · refine inv.consumed_here (if_pos shown) keeps arranged ⟨?_, Or.inl ⟨rfl, ?_⟩⟩
      (cells ▸ inv.holds) rfl rfl
    · rw [block]
    · rw [block]; exact shown.symm
  · refine inv.consumed_here (if_neg shown) keeps arranged ⟨rfl, several, ?_⟩
      (cells ▸ inv.holds) rfl rfl
    exact (congrArg Block.cells block).trans
      (inv.isArranged.validFront.cells_eq_nil_iff.mpr (not_not.mp shown))

theorem safe_follow (call : Call) (frontBlock : Nat) :
    (follow call frontBlock : Consumer α).Safe capacity maxBlockSize := by
  intro queue producer log occupied spare contents inv
  obtain ⟨rfl, several, empty⟩ := inv.consumerFits
  exact inv.consumed_quietly rfl ⟨inv.isArranged.next_frontBlock several, empty⟩ inv.holds rfl

theorem safe_inspect (call : Call) (nextBlock : Nat) :
    (inspect call nextBlock : Consumer α).Safe capacity maxBlockSize := by
  intro queue producer log occupied spare contents inv
  obtain ⟨second, empty⟩ := inv.consumerFits
  have arranged := inv.isArranged
  have used := mem_of_head?_tail second
  have valid := arranged.valid nextBlock (mem_append_left _ used)
  have nonempty : (queue.blocks nextBlock).front ≠ (queue.blocks nextBlock).tail := fun same =>
    arranged.filled nextBlock (mem_of_head? second) (valid.cells_eq_nil_iff.mpr same)
  have notFront : queue.frontBlock ≠ nextBlock := by
    rintro rfl
    exact arranged.frontBlock_notMem_tail (mem_of_head? second)
  have asserted : queue.expect (decide ((queue.blocks nextBlock).front ≠
      (queue.blocks nextBlock).tail)) = queue := Queue.expect_of_true (decide_eq_true nonempty)
  by_cases peeks : call = .peek
  · subst peeks
    exact inv.consumed_quietly (congrArg (·, _, none) asserted)
      ⟨rfl, Or.inr ⟨rfl, second, empty⟩⟩ inv.holds rfl
  · have taken : (inspect call nextBlock : Consumer α).step queue =
        (queue.setLocalTail nextBlock (queue.blocks nextBlock).tail,
          .shift call nextBlock (queue.blocks nextBlock).front, none) := by
      cases call with
      | peek => exact absurd rfl peeks
      | _ => exact congrArg (fun queue => (Queue.setLocalTail queue _ _, _, none)) asserted
    obtain ⟨reloaded, keeps, cells, block⟩ := inv.reloaded used rfl
    refine inv.consumed_here taken keeps reloaded ⟨peeks, second, ?_, ?_, ?_⟩
      (cells ▸ inv.holds) rfl rfl
    · exact (congrArg Block.cells (Queue.blocks_update_of_ne notFront)).trans empty
    · rw [block]
    · rw [block]
      exact nonempty.symm

theorem safe_shift (call : Call) (nextBlock nextBlockFront : Nat) :
    (shift call nextBlock nextBlockFront : Consumer α).Safe capacity maxBlockSize := by
  intro queue producer log occupied spare contents inv
  obtain ⟨removes, second, empty, rfl, shown⟩ := inv.consumerFits
  obtain ⟨others, rfl⟩ := inv.isArranged.exists_first
  obtain ⟨rest, rfl⟩ := head?_eq_some_iff.mp second
  have holds : queue.cells (queue.frontBlock :: nextBlock :: rest) = contents.map some := inv.holds
  rw [Queue.cells_cons, empty, nil_append] at holds
  refine inv.consumed rfl ?_ rfl (inv.isArranged.shift empty) ?_ (Nat.le_succ _)
    ⟨rfl, Or.inl ⟨rfl, shown⟩⟩ holds rfl rfl
  · exact ⟨rfl, rfl, rfl, fun _ => rfl, fun _ => rfl, fun _ => rfl, fun _ => rfl, fun _ _ => rfl,
      fun _ _ => rfl, fun _ => rfl⟩
  · rw [← append_assoc]
    exact perm_append_singleton _ _

/-- The element that the consumer has come to is the oldest one. -/
theorem take_spec {queue : Queue α} {producer : Producer α} {log : List (Response α)}
    {occupied spare : List Nat} {contents : List α} {call : Call} {frontBlock blockFront : Nat}
    (inv : Inv capacity ⟨queue, producer, .take call frontBlock blockFront, log⟩ occupied spare
      contents) :
    ∃ element rest, contents = element :: rest ∧
      (queue.blocks frontBlock).data blockFront = some element := by
  obtain ⟨rfl, at_⟩ := inv.consumerFits
  have arranged := inv.isArranged
  have holds : queue.cells occupied = contents.map some := inv.holds
  have head : ∀ more, queue.cells occupied =
      (queue.blocks frontBlock).data (queue.blocks frontBlock).front :: more →
      ∃ element rest, contents = element :: rest ∧
        (queue.blocks frontBlock).data (queue.blocks frontBlock).front = some element := by
    intro more shape
    rw [shape] at holds
    cases contents with
    | nil => exact absurd holds (cons_ne_nil _ _)
    | cons element rest => exact ⟨element, rest, rfl, (cons_eq_cons.mp holds).1⟩
  rcases at_ with ⟨rfl, shown⟩ | ⟨-, second, empty⟩
  · have valid := arranged.validFront
    rw [arranged.cells_eq, valid.cells_eq_cons (valid.front_ne_tail shown)] at head
    exact head _ rfl
  · have used := mem_of_head?_tail second
    have valid := arranged.valid frontBlock (mem_append_left _ used)
    have nonempty : (queue.blocks frontBlock).front ≠ (queue.blocks frontBlock).tail :=
      fun same => arranged.filled frontBlock (mem_of_head? second)
        (valid.cells_eq_nil_iff.mpr same)
    obtain ⟨rest, behind⟩ := head?_eq_some_iff.mp second
    rw [arranged.cells_eq, empty, behind, nil_append, Queue.cells_cons,
      valid.cells_eq_cons nonempty] at head
    exact head _ rfl

theorem safe_take (call : Call) (frontBlock blockFront : Nat) :
    (take call frontBlock blockFront : Consumer α).Safe capacity maxBlockSize := by
  intro queue producer log occupied spare contents inv
  obtain ⟨element, rest, rfl, found⟩ := take_spec inv
  by_cases peeks : call = .peek
  · subst peeks
    have taken : (take .peek frontBlock blockFront : Consumer α).step queue =
        (queue, .idle, some (.peeked element)) := by
      simp only [step, found]
    exact inv.consumed_quietly taken trivial inv.holds ⟨rest, rfl, rfl⟩
  · obtain ⟨rfl, ⟨rfl, shown⟩ | ⟨peek, -⟩⟩ := inv.consumerFits
    · have arranged := inv.isArranged
      have valid := arranged.validFront
      have nonempty := valid.front_ne_tail shown
      have taken : (take call queue.frontBlock
          (queue.blocks queue.frontBlock).front : Consumer α).step queue =
          (queue.destroy queue.frontBlock (queue.blocks queue.frontBlock).front,
            .release call queue.frontBlock ((queue.blocks queue.frontBlock).after
              (queue.blocks queue.frontBlock).front) element, none) := by
        cases call with
        | peek => exact absurd rfl peeks
        | _ => simp only [step, found]
      refine inv.consumed_here taken ?_ (arranged.update_front rfl valid.take)
        ⟨peeks, rfl, ?_, ?_, ?_⟩ ⟨rest, rfl, ?_⟩ rfl rfl
      · exact .update arranged.frontBlock_mem rfl rfl rfl rfl
          (Function.update_of_ne nonempty.symm _ _) fun _ _ => rfl
      · rw [Queue.destroy, Queue.blocks_update_self]; rfl
      · rw [Queue.destroy, Queue.blocks_update_self]; exact shown
      · rw [Queue.destroy, Queue.blocks_update_self]; exact Function.update_self ..
      · have holds : queue.cells occupied = (element :: rest).map some := inv.holds
        rw [arranged.cells_eq, valid.cells_eq_cons nonempty] at holds
        rw [Queue.destroy, arranged.cells_update_frontBlock, valid.cells_take nonempty]
        exact congrArg (none :: ·) (cons_eq_cons.mp holds).2
    · exact absurd peek peeks

theorem safe_release (call : Call) (frontBlock blockFront : Nat) (element : α) :
    (release call frontBlock blockFront element).Safe capacity maxBlockSize := by
  intro queue producer log occupied spare contents inv
  obtain ⟨removes, rfl, rfl, shown, taken⟩ := inv.consumerFits
  obtain ⟨rest, rfl, holds⟩ := inv.holds
  have arranged := inv.isArranged
  have valid := arranged.validFront
  have legal : Legal (element :: rest) [call.answer element] rest := by
    cases call with
    | peek => exact absurd rfl removes
    | _ => exact ⟨rest, rfl, rfl⟩
  refine inv.consumed_here rfl ?_ (arranged.update_front rfl (valid.release shown taken)) trivial
    ?_ legal rfl
  · refine .update arranged.frontBlock_mem rfl rfl rfl rfl rfl fun several here => ?_
    exact absurd (arranged.frontBlock_eq_tailBlock_iff.mp here) (by omega)
  · change (queue.setFront _ _).cells occupied = rest.map some
    change queue.cells occupied = none :: rest.map some at holds
    rw [arranged.cells_eq, valid.cells_eq_cons (valid.front_ne_tail shown)] at holds
    rw [Queue.setFront, arranged.cells_update_frontBlock]
    exact (cons_eq_cons.mp holds).2

/-- Every access of the consumer keeps the invariant. -/
theorem safe (consumer : Consumer α) : consumer.Safe capacity maxBlockSize := by
  cases consumer with
  | idle => exact fun _ _ _ _ _ _ inv => inv.consumed_quietly rfl trivial inv.holds rfl
  | start call => exact safe_start call
  | reload => exact safe_reload _ _ _
  | compare => exact safe_compare _ _
  | recheck call => exact safe_recheck call
  | follow => exact safe_follow _ _
  | inspect => exact safe_inspect _ _
  | shift => exact safe_shift _ _ _
  | take => exact safe_take _ _ _
  | release => exact safe_release _ _ _ _

end Consumer

/-- Every step of either thread keeps the invariant. -/
theorem sound_step (wide : 2 ≤ maxBlockSize) (state : State α) (event : Event α)
    (sound : Sound capacity state) : Sound capacity (step maxBlockSize state event) := by
  obtain ⟨queue, producer, consumer, log⟩ := state
  obtain ⟨occupied, spare, contents, inv⟩ := sound
  cases event with
  | enqueue =>
    refine ⟨occupied, spare, contents, ?_⟩
    cases producer with
    | idle => exact { inv with producer := trivial }
    | _ => exact inv
  | produce malloc => exact producer.safe wide _ _ _ _ _ _ malloc inv
  | call call =>
    refine ⟨occupied, spare, contents, ?_⟩
    cases consumer with
    | idle => exact { inv with consumer := trivial }
    | _ => exact inv
  | consume => exact consumer.safe _ _ _ _ _ _ inv

end ReaderWriterQueue

end RFaaS
