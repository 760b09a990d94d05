/-
This file is about the end of the queue. The destructor walks once around the
ring, destroys what is between the front and the tail of each block, and frees
the block. When both threads have left, that is every element that was put in and
not taken out, in order, and every block that was ever allocated, once.
-/

import RFaaS.QueueFifo
import Mathlib.Data.List.Perm.Subperm

namespace RFaaS

namespace ReaderWriterQueue

open CircularBuffer CircularList Transition

variable {α : Type*}

/-! ### The destructor -/

/-- The inner loop of `~ReaderWriterQueue`, from slot `i` on: the slots whose elements are
destroyed. -/
def Block.drain (block : Block α) : Nat → Nat → Option (List (Option α))
  | 0, _ => none
  | fuel + 1, i =>
    if i ≠ block.tail then (block.drain fuel (block.after i)).map (block.data i :: ·)
    else some []

/-- The outer loop at one block: the slots whose elements have been destroyed so far and the
blocks that have been freed. -/
def Queue.free (fuel : Nat) (queue : Queue α) (result : Option (List (Option α) × List Nat))
    (address : Nat) : Option (List (Option α) × List Nat) := do
  let (destroyed, freed) ← result
  let slots ← (queue.blocks address).drain fuel (queue.blocks address).front
  return (destroyed ++ slots, freed ++ [address])

/-- `~ReaderWriterQueue`. -/
def Queue.destruct (fuel : Nat) (queue : Queue α) : Option (List (Option α) × List Nat) :=
  (walk queue.next queue.frontBlock (queue.free fuel) fuel queue.frontBlock (some ([], []))).join

theorem Block.Valid.drain_eq {block : Block α} {ahead : Nat} (valid : block.Valid ahead)
    {fuel i : Nat} (inside : i < block.size) (enough : distance block.size i block.tail < fuel) :
    block.drain fuel i = some (CircularBuffer.cells block.size block.data i block.tail) := by
  induction fuel generalizing i with
  | zero => exact absurd enough (Nat.not_lt_zero _)
  | succ fuel inductionHypothesis =>
    rw [Block.drain]
    by_cases done : i = block.tail
    · rw [if_neg (not_not.mpr done), done, cells_self valid.tail_lt]
    · have shorter := distance_advance_first inside valid.tail_lt done
      rw [if_pos done, valid.after_eq, inductionHypothesis (advance_lt inside) (by omega),
        Option.map_some, ← cells_advance_first inside valid.tail_lt done]

/-- Each block that the walk passes is drained and freed. -/
theorem Queue.foldl_destruct {queue : Queue α} {fuel : Nat} {addresses : List Nat}
    (drains : ∀ address ∈ addresses, (queue.blocks address).drain fuel
      (queue.blocks address).front = some (queue.blocks address).cells)
    (destroyed : List (Option α)) (freed : List Nat) :
    addresses.foldl (queue.free fuel) (some (destroyed, freed)) =
      some (destroyed ++ queue.cells addresses, freed ++ addresses) := by
  induction addresses generalizing destroyed freed with
  | nil => simp
  | cons address rest inductionHypothesis =>
    have first : queue.free fuel (some (destroyed, freed)) address =
        some (destroyed ++ (queue.blocks address).cells, freed ++ [address]) := by
      simp [Queue.free, drains address List.mem_cons_self]
    rw [List.foldl_cons, first,
      inductionHypothesis fun other member => drains other (List.mem_cons_of_mem _ member)]
    simp

/-- The destructor frees the blocks of the ring, and destroys what they hold. -/
theorem Arranged.destruct_eq {queue : Queue α} {occupied spare : List Nat} {ahead : Nat → Nat}
    {fuel : Nat} (arranged : Arranged queue ahead none occupied spare)
    (blocks : (occupied ++ spare).length ≤ fuel)
    (slots : ∀ address ∈ occupied ++ spare, (queue.blocks address).size ≤ fuel) :
    queue.destruct fuel = some (queue.cells occupied, occupied ++ spare) := by
  have drains : ∀ address ∈ occupied ++ spare, (queue.blocks address).drain fuel
      (queue.blocks address).front = some (queue.blocks address).cells := by
    intro address member
    have valid := arranged.valid address member
    have short : (queue.blocks address).count < fuel :=
      Nat.lt_of_lt_of_le (distance_lt valid.tail_lt) (slots address member)
    exact valid.drain_eq valid.front_lt short
  have nothing : queue.cells spare = [] :=
    List.flatMap_eq_nil_iff.mpr fun address member =>
      arranged.bare address member (Option.some_ne_none address)
  rw [Queue.destruct, arranged.ring.walk_eq blocks, Queue.foldl_destruct drains,
    Queue.cells_append, nothing]
  simp

/-- When both threads have left, the destructor destroys the elements that are still in the
queue, in their order, and frees every block that was ever allocated, once. -/
theorem destructor_complete {maxBlockSize size : Nat}
    (power : ∃ exponent, maxBlockSize = 2 ^ exponent) (wide : 2 ≤ maxBlockSize)
    (positive : 0 < size) (fits : size < 2 ^ 63) (events : List (Event α)) :
    let state := run (step maxBlockSize) (State.make maxBlockSize size) events
    state.producer = .idle → state.consumer = .idle →
      ∀ fuel, state.queue.made ≤ fuel → state.queue.largestBlockSize ≤ fuel →
        ∃ freed, state.queue.destruct fuel = some (state.pending.map some, freed) ∧
          freed.Nodup ∧ ∀ address, address ∈ freed ↔ address < state.queue.made := by
  intro state producer consumer fuel blocks slots
  obtain ⟨occupied, spare, contents, inv⟩ :=
    sound_run power wide positive fits events
  change Inv size state occupied spare contents at inv
  have arranged := inv.arranged
  have holds := inv.holds
  have complete := inv.complete
  rw [producer] at arranged complete
  rw [consumer] at holds
  have apart := arranged.ring.nodup
  have all : (occupied ++ spare).length = state.queue.made := complete
  refine ⟨occupied ++ spare, ?_, apart, fun address => ⟨arranged.made address, ?_⟩⟩
  · have shown : state.queue.cells occupied = contents.map some := holds
    rw [State.pending_eq inv.legal, ← shown]
    exact arranged.destruct_eq (Nat.le_trans (Nat.le_of_eq all) blocks) fun address member =>
      Nat.le_trans (inv.reserve.largest address member) slots
  · -- as many different blocks as there are addresses
    intro early
    have same : (occupied ++ spare).Perm (List.range state.queue.made) := by
      refine (apart.subperm fun other member => ?_).perm_of_length_le ?_
      · exact List.mem_range.mpr (arranged.made other member)
      · rw [List.length_range, all]
    exact same.mem_iff.mpr (List.mem_range.mpr early)

theorem destructor_complete_leftover :
    ∃ freed, (run (step 512) (State.make 512 15) ([.enqueue .canAlloc 7, .produce true,
        .produce true, .produce true] : List (Event Nat))).queue.destruct 16 =
          some ([some 7], freed) ∧ freed.Nodup := by
  obtain ⟨freed, destroyed, once, -⟩ := @destructor_complete Nat 512 15 ⟨9, rfl⟩ (by decide)
    (by decide) (by decide) [.enqueue .canAlloc 7, .produce true, .produce true, .produce true]
    rfl rfl 16 (by decide +kernel) (by decide +kernel)
  exact ⟨freed, destroyed, once⟩

end ReaderWriterQueue

end RFaaS
