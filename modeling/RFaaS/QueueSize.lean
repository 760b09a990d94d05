/-
This file is about the constructor of the queue. It rounds the requested size up
to a power of two by spreading bits; for a size beyond two blocks it links
several blocks of the largest size instead, with one to spare. Either way the
queue starts out in order, with room for as many elements as were asked for
wherever the consumer may be.
-/

import RFaaS.BitSpread
import RFaaS.QueueSteps

namespace RFaaS

namespace ReaderWriterQueue

open BitSpread CircularList List

variable {α : Type*}

/-! ### Rounding up -/

/-- Rounding up is exact as long as the power of two fits a `size_t`. -/
theorem ceilToPow2_eq {x : Nat} (positive : 0 < x) (fits : x ≤ 2 ^ 63) :
    ceilToPow2 x = 2 ^ (x - 1).size := by
  have decremented : (x + (2 ^ 64 - 1)) % 2 ^ 64 = x - 1 := by
    rw [show x + (2 ^ 64 - 1) = x - 1 + 2 ^ 64 by omega, Nat.add_mod_right,
      Nat.mod_eq_of_lt (by omega)]
  have spread := (((((spread_one (x - 1)).double).double).double).double).double.double
  have all := spread.eq (show x - 1 < 2 ^ 64 by omega)
  have small : (x - 1).size ≤ 63 := Nat.size_le.mpr (by omega)
  have bound : 2 ^ (x - 1).size ≤ 2 ^ 63 := Nat.pow_le_pow_right (by omega) small
  have positivePower : 0 < 2 ^ (x - 1).size := Nat.two_pow_pos _
  have incremented : ceilToPow2 x = (2 ^ (x - 1).size - 1 + 1) % 2 ^ 64 := by
    rw [ceilToPow2, decremented]
    exact congrArg (fun spread => (spread + 1) % 2 ^ 64) all
  rw [incremented, Nat.sub_add_cancel positivePower, Nat.mod_eq_of_lt (by omega)]

theorem exists_ceilToPow2_eq {x : Nat} (positive : 0 < x) (fits : x ≤ 2 ^ 63) :
    ∃ exponent, ceilToPow2 x = 2 ^ exponent ∧ x ≤ 2 ^ exponent := by
  have below := Nat.lt_size_self (x - 1)
  exact ⟨(x - 1).size, ceilToPow2_eq positive fits, by omega⟩

/-- `ceilToPow2` gives the least power of two that is not below its argument. -/
theorem ceilToPow2_least {x : Nat} (positive : 0 < x) (fits : x ≤ 2 ^ 63) :
    (∃ exponent, ceilToPow2 x = 2 ^ exponent) ∧ x ≤ ceilToPow2 x ∧
      ∀ other, x ≤ 2 ^ other → ceilToPow2 x ≤ 2 ^ other := by
  obtain ⟨exponent, power, enough⟩ := exists_ceilToPow2_eq positive fits
  refine ⟨⟨exponent, power⟩, power ▸ enough, fun other larger => ?_⟩
  rw [ceilToPow2_eq positive fits]
  refine Nat.pow_le_pow_right (by omega) (Nat.size_le.mpr ?_)
  omega

theorem ceilToPow2_least_default : ceilToPow2 16 = 16 ∧ 16 ≤ ceilToPow2 16 :=
  ⟨by decide +kernel, (ceilToPow2_least (by decide) (by decide)).2.1⟩

/-! ### The blocks of the constructor -/

theorem foldl_appendBlock (capacity count : Nat) {i : Nat} (made : i < count) :
    (range count).foldl (appendBlock capacity) (fun _ => (makeBlock 0 : Block α)) i =
      { makeBlock capacity with next := if i + 1 < count then i + 1 else 0 } := by
  induction count generalizing i with
  | zero => exact absurd made (Nat.not_lt_zero i)
  | succ count inductionHypothesis =>
    rw [range_succ, foldl_append, foldl_cons, foldl_nil, appendBlock]
    by_cases first : count = 0
    · have here : i = count := by omega
      rw [if_pos first, here, Function.update_self, if_neg (by omega)]
      rfl
    · rw [if_neg first]
      by_cases newest : i = count
      · rw [Function.update_of_ne (by omega), newest, Function.update_self, if_neg (by omega)]
        rfl
      · by_cases last : i = count - 1
        · rw [last, Function.update_self, Function.update_of_ne (by omega),
            inductionHypothesis (show count - 1 < count by omega)]
          simp [show count - 1 + 1 = count by omega]
        · rw [Function.update_of_ne last, Function.update_of_ne newest,
            inductionHypothesis (by omega), if_pos (by omega), if_pos (by omega)]

/-- The pointers of the constructor's blocks lead once around. -/
theorem path_range' {next : Nat → Nat} {count : Nat}
    (pointers : ∀ i < count, next i = if i + 1 < count then i + 1 else 0) {start length : Nat}
    (ends : start + length + 1 = count) : Path next (range' start (length + 1)) start 0 := by
  induction length generalizing start with
  | zero => exact ⟨rfl, by rw [pointers start (by omega), if_neg (by omega)]; rfl⟩
  | succ length inductionHypothesis =>
    refine ⟨rfl, ?_⟩
    rw [pointers start (by omega), if_pos (by omega)]
    exact inductionHypothesis (by omega)

section Make

variable {maxBlockSize size : Nat}

/-- The blocks that are linked for a large size leave room wherever the consumer is. -/
theorem initialBlockCount_spec (wide : 2 ≤ maxBlockSize) (positive : 0 < size) :
    size + (maxBlockSize - 1) ≤
      (size + maxBlockSize * 2 - 3) / (maxBlockSize - 1) * (maxBlockSize - 1) := by
  have remainder := Nat.mod_lt (size + maxBlockSize * 2 - 3)
    (show 0 < maxBlockSize - 1 by omega)
  have split := Nat.div_add_mod (size + maxBlockSize * 2 - 3) (maxBlockSize - 1)
  rw [Nat.mul_comm] at split
  omega

/-- A queue whose blocks have just been made and linked. -/
theorem inv_of_blocks {queue : Queue α} {capacity exponent more : Nat}
    (blocks : ∀ i < more + 1, queue.blocks i =
      { makeBlock capacity with next := if i + 1 < more + 1 then i + 1 else 0 })
    (made : queue.made = more + 1) (front : queue.frontBlock = 0) (tail : queue.tailBlock = 0)
    (largest : queue.largestBlockSize = capacity) (power : capacity = 2 ^ exponent)
    (wide : 2 ≤ capacity) (sound : queue.sound = true)
    (room : size + (capacity - 1) ≤ (more + 1) * (capacity - 1) ∨
      more = 0 ∧ size ≤ capacity - 1) :
    Inv size ⟨queue, .idle, .idle, []⟩ [0] (range' 1 more) [] := by
  have ring_eq : [0] ++ range' 1 more = range' 0 (more + 1) := rfl
  have inside : ∀ address ∈ [0] ++ range' 1 more, address < more + 1 := by
    intro address member
    rw [ring_eq, mem_range'_1] at member
    omega
  have empty : ∀ address ∈ [0] ++ range' 1 more, (queue.blocks address).cells = [] := by
    intro address member
    rw [blocks address (inside address member)]
    exact Block.cells_make _
  have mask : ∀ address ∈ [0] ++ range' 1 more,
      (queue.blocks address).sizeMask = capacity - 1 := by
    intro address member
    rw [blocks address (inside address member)]
    rfl
  refine ⟨⟨⟨?_, ?_, ?_⟩, ?_, ?_, ?_, ?_, ?_, ?_⟩, ⟨?_, ?_, ?_⟩, trivial, trivial, ?_, rfl, ?_,
    sound⟩
  · exact ring_eq ▸ nodup_range'
  · rw [front]
    rfl
  · rw [front, ring_eq]
    refine path_range' (fun i made => ?_) (by rw [Nat.zero_add])
    rw [Queue.next, blocks i made]
  · rw [tail]
    rfl
  · intro address member
    rw [made]
    exact inside address member
  · intro address member
    rw [blocks address (inside address member)]
    exact Block.valid_make power wide _
  · exact fun address member => absurd member not_mem_nil
  · exact fun address member => absurd member not_mem_nil
  · exact fun address member _ => empty address (mem_append_right _ member)
  · exact ⟨exponent, largest.trans power⟩
  · intro address member
    rw [Block.size, mask address member, largest]
    omega
  · intro address member
    rw [mask address member, map_congr_left mask, ring_eq, map_const',
      length_range', sum_replicate_nat]
    rcases room with enough | ⟨rfl, alone⟩
    · exact .inl enough
    · refine .inr ⟨?_, alone⟩
      rw [range'_zero, append_nil, mem_singleton] at member
      rw [member]
      rfl
  · change queue.cells [0] = []
    rw [Queue.cells_cons, Queue.cells_nil, append_nil]
    exact empty 0 mem_cons_self
  · change ([0] ++ range' 1 more).length + 0 = queue.made
    rw [made, ring_eq, length_range', Nat.add_zero]

/-- The constructor leaves the queue in order, with the room that was asked for. -/
theorem inv_make (power : ∃ exponent, maxBlockSize = 2 ^ exponent) (wide : 2 ≤ maxBlockSize)
    (positive : 0 < size) (fits : size < 2 ^ 63) :
    ∃ spare, Inv size (State.make maxBlockSize size : State α) [0] spare [] := by
  obtain ⟨exponent, largest, enough⟩ := exists_ceilToPow2_eq (show 0 < size + 1 by omega) fits
  obtain ⟨maxExponent, maxPower⟩ := power
  rw [State.make, Queue.make]
  by_cases large : ceilToPow2 (size + 1) > maxBlockSize * 2
  · have room := initialBlockCount_spec wide positive
    rw [if_pos large]
    generalize (size + maxBlockSize * 2 - 3) / (maxBlockSize - 1) = initialBlockCount at room ⊢
    obtain ⟨more, rfl⟩ : ∃ more, initialBlockCount = more + 1 := by
      refine Nat.exists_eq_succ_of_ne_zero ?_
      rintro rfl
      omega
    exact ⟨_, inv_of_blocks (fun i made => foldl_appendBlock maxBlockSize (more + 1) made) rfl rfl
      rfl rfl maxPower wide rfl (Or.inl room)⟩
  · rw [if_neg large]
    have one : ∀ i < 0 + 1, Function.update (fun _ => (makeBlock 0 : Block α)) 0
        (makeBlock (ceilToPow2 (size + 1))) i =
          { makeBlock (ceilToPow2 (size + 1)) with
            next := if i + 1 < 0 + 1 then i + 1 else 0 } := by
      intro i made
      obtain rfl : i = 0 := by omega
      exact Function.update_self ..
    exact ⟨_, inv_of_blocks one rfl rfl rfl rfl largest (by omega) rfl (Or.inr ⟨rfl, by omega⟩)⟩

end Make

end ReaderWriterQueue

end RFaaS
