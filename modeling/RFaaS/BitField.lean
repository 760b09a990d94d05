/-
This file is the library of words that are made up of fields. A field is a
stretch of bits. Reading it shifts it down and cuts it off; putting a value in
adds the bits of the value to those that are there. Fields that do not overlap
do not see each other, in whatever order values are put in.
-/

import Mathlib.Data.List.Basic
import Mathlib.Algebra.Ring.Nat

namespace BitField

/-- The field of `width` bits at `offset`. -/
def read (offset width word : Nat) : Nat := (word >>> offset) % 2 ^ width

/-- The word with the bits of a value added to the field. -/
def put (offset width value word : Nat) : Nat := word ||| (value % 2 ^ width) <<< offset

theorem testBit_read (offset width word bit : Nat) :
    (read offset width word).testBit bit =
      (decide (bit < width) && word.testBit (offset + bit)) := by
  rw [read, Nat.testBit_mod_two_pow, Nat.testBit_shiftRight]

theorem testBit_put (offset width value word bit : Nat) :
    (put offset width value word).testBit bit =
      (word.testBit bit ||
        (decide (offset ≤ bit) && (decide (bit - offset < width) &&
          value.testBit (bit - offset)))) := by
  rw [put, Nat.testBit_or, Nat.testBit_shiftLeft, Nat.testBit_mod_two_pow]

/-- Putting a value into one field does not change another one. -/
theorem read_put_apart {offset width other otherWidth : Nat}
    (apart : offset + width ≤ other ∨ other + otherWidth ≤ offset) (value word : Nat) :
    read other otherWidth (put offset width value word) = read other otherWidth word := by
  refine Nat.eq_of_testBit_eq fun bit => ?_
  rw [testBit_read, testBit_read, testBit_put]
  by_cases inside : bit < otherWidth
  · have outside : ¬(offset ≤ other + bit ∧ other + bit - offset < width) := by omega
    by_cases behind : offset ≤ other + bit
    · simp [inside, behind, not_and.mp outside behind]
    · simp [inside, behind]
  · simp [inside]

/-- A value that is put into an empty field is what the field then holds. -/
theorem read_put_self {offset width word : Nat} (empty : read offset width word = 0)
    (value : Nat) : read offset width (put offset width value word) = value % 2 ^ width := by
  refine Nat.eq_of_testBit_eq fun bit => ?_
  have nothing : (read offset width word).testBit bit = false := by
    rw [empty, Nat.zero_testBit]
  rw [testBit_read] at nothing
  rw [testBit_read, testBit_put, Nat.testBit_mod_two_pow, Bool.and_or_distrib_left, nothing,
    Nat.add_sub_cancel_left]
  by_cases inside : bit < width <;> simp [inside]

/-- Fields of a word that do not overlap. -/
structure Layout (Index : Type*) where
  offset : Index → Nat
  width : Index → Nat
  apart : ∀ first second, first ≠ second →
    offset first + width first ≤ offset second ∨ offset second + width second ≤ offset first

namespace Layout

variable {Index : Type*} (layout : Layout Index)

def get (index : Index) (word : Nat) : Nat := read (layout.offset index) (layout.width index) word

def set (index : Index) (value word : Nat) : Nat :=
  put (layout.offset index) (layout.width index) value word

/-- The word after values were put into some fields, one after the other. -/
def setAll (values : Index → Nat) (order : List Index) (word : Nat) : Nat :=
  order.foldl (fun word index => layout.set index (values index) word) word

variable {layout}

theorem get_set_ne {first second : Index} (different : second ≠ first) (value word : Nat) :
    layout.get second (layout.set first value word) = layout.get second word :=
  read_put_apart (layout.apart first second (Ne.symm different)) value word

theorem get_setAll_of_not_mem {index : Index} {order : List Index} (absent : index ∉ order)
    (values : Index → Nat) (word : Nat) :
    layout.get index (layout.setAll values order word) = layout.get index word := by
  induction order generalizing word with
  | nil => rfl
  | cons first rest inductionHypothesis =>
    rw [List.mem_cons, not_or] at absent
    exact (inductionHypothesis absent.2 _).trans (get_set_ne absent.1 _ _)

/-- Whatever the order in which empty fields are set, each holds its own value afterwards. -/
theorem get_setAll_of_mem {index : Index} {order : List Index} (once : order.Nodup)
    (member : index ∈ order) (values : Index → Nat) {word : Nat}
    (empty : layout.get index word = 0) :
    layout.get index (layout.setAll values order word) =
      values index % 2 ^ layout.width index := by
  induction order generalizing word with
  | nil => exact absurd member List.not_mem_nil
  | cons first rest inductionHypothesis =>
    rw [List.nodup_cons] at once
    by_cases same : index = first
    · rw [same] at empty ⊢
      exact (get_setAll_of_not_mem once.1 values _).trans (read_put_self empty _)
    · have inside := (List.mem_cons.mp member).resolve_left same
      have next : layout.get index (layout.set first (values first) word) = 0 := by
        rw [get_set_ne same]
        exact empty
      exact inductionHypothesis once.2 inside next

/-- Words that have no bits outside of the fields are determined by the fields. -/
theorem eq_of_get_eq {size first second : Nat}
    (covered : ∀ bit < size, ∃ index, layout.offset index ≤ bit ∧
      bit < layout.offset index + layout.width index)
    (firstFits : first < 2 ^ size) (secondFits : second < 2 ^ size)
    (same : ∀ index, layout.get index first = layout.get index second) : first = second := by
  refine Nat.eq_of_testBit_eq fun bit => ?_
  by_cases inside : bit < size
  · obtain ⟨index, least, most⟩ := covered bit inside
    have fields := congrArg (fun number => number.testBit (bit - layout.offset index)) (same index)
    dsimp only [get] at fields
    rw [testBit_read, testBit_read, Nat.add_sub_cancel' least] at fields
    simpa [show bit - layout.offset index < layout.width index by omega] using fields
  · have outside : 2 ^ size ≤ 2 ^ bit := Nat.pow_le_pow_right (by decide) (Nat.le_of_not_lt inside)
    rw [Nat.testBit_lt_two_pow (Nat.lt_of_lt_of_le firstFits outside),
      Nat.testBit_lt_two_pow (Nat.lt_of_lt_of_le secondFits outside)]

end Layout

end BitField
