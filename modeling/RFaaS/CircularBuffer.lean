/-
This file is the library of circular buffers. A buffer has a fixed number of
slots; a stretch of it runs from a first slot forward to the slot before its
last one, over the end of the buffer if need be, so that a stretch with equal
ends is empty and one slot is never part of it. The distance from one slot
forward to another carries all the arithmetic: how far a stretch reaches, what
room is left, and what an index that lags behind still guarantees.
-/

import Mathlib.Data.List.Basic
import Mathlib.Logic.Function.Basic

namespace CircularBuffer

/-- The slot after a slot. -/
def advance (size slot : Nat) : Nat := (slot + 1) % size

/-- The number of steps from one slot forward to another. -/
def distance (size first last : Nat) : Nat := (last + size - first) % size

/-! ### Distances -/

section Distance

variable {size first middle last slot : Nat}

theorem advance_lt (inside : slot < size) : advance size slot < size :=
  Nat.mod_lt _ (by omega)

theorem advance_of_lt (inside : slot + 1 < size) : advance size slot = slot + 1 :=
  Nat.mod_eq_of_lt inside

theorem advance_of_eq (atEnd : slot + 1 = size) : advance size slot = 0 := by
  rw [advance, atEnd, Nat.mod_self]

theorem distance_lt (inside : last < size) : distance size first last < size :=
  Nat.mod_lt _ (by omega)

theorem distance_of_le (ordered : first ≤ last) (inside : last < size) :
    distance size first last = last - first := by
  rw [distance, show last + size - first = last - first + size by omega, Nat.add_mod_right,
    Nat.mod_eq_of_lt (by omega)]

theorem distance_of_lt (ordered : last < first) (inside : first < size) :
    distance size first last = last + size - first :=
  Nat.mod_eq_of_lt (by omega)

@[simp] theorem distance_self (inside : slot < size) : distance size slot slot = 0 := by
  rw [distance_of_le (Nat.le_refl slot) inside, Nat.sub_self]

section

variable (firstInside : first < size)
include firstInside

theorem distance_eq_zero_iff (lastInside : last < size) :
    distance size first last = 0 ↔ first = last := by
  rcases Nat.lt_or_ge last first with wrapped | ordered
  · rw [distance_of_lt wrapped firstInside]
    omega
  · rw [distance_of_le ordered lastInside]
    omega

/-- Moving the last end forward makes the stretch one longer, as long as there is room. -/
theorem distance_advance_last (lastInside : last < size)
    (room : distance size first last + 1 < size) :
    distance size first (advance size last) = distance size first last + 1 := by
  rcases Nat.lt_or_ge last first with wrapped | ordered
  · rw [distance_of_lt wrapped firstInside] at room ⊢
    rw [advance_of_lt (by omega), distance_of_lt (by omega) firstInside]
    omega
  · rw [distance_of_le ordered lastInside] at room ⊢
    rcases Nat.lt_or_ge (last + 1) size with inner | atEnd
    · rw [advance_of_lt inner, distance_of_le (by omega) inner]
      omega
    · rw [advance_of_eq (by omega), distance_of_lt (by omega) firstInside]
      omega

/-- Moving the first end forward makes the stretch one shorter, unless it is empty. -/
theorem distance_advance_first (lastInside : last < size) (nonempty : first ≠ last) :
    distance size (advance size first) last + 1 = distance size first last := by
  rcases Nat.lt_or_ge last first with wrapped | ordered
  · rw [distance_of_lt wrapped firstInside]
    rcases Nat.lt_or_ge (first + 1) size with inner | atEnd
    · rw [advance_of_lt inner, distance_of_lt (by omega) inner]
      omega
    · rw [advance_of_eq (by omega), distance_of_le (by omega) lastInside]
      omega
  · rw [distance_of_le ordered lastInside, advance_of_lt (by omega),
      distance_of_le (by omega) lastInside]
    omega

/-- Distances add up as long as they stay within one turn. -/
theorem distance_add (middleInside : middle < size) (lastInside : last < size)
    (oneTurn : distance size first middle + distance size middle last < size) :
    distance size first last = distance size first middle + distance size middle last := by
  rcases Nat.lt_or_ge middle first with wrapped | ordered
  · rw [distance_of_lt wrapped firstInside] at oneTurn ⊢
    rcases Nat.lt_or_ge last middle with again | onward
    · rw [distance_of_lt again middleInside] at oneTurn
      omega
    · rw [distance_of_le onward lastInside] at oneTurn ⊢
      rw [distance_of_lt (by omega) firstInside]
      omega
  · rw [distance_of_le ordered middleInside] at oneTurn ⊢
    rcases Nat.lt_or_ge last middle with wrapped | onward
    · rw [distance_of_lt wrapped middleInside] at oneTurn ⊢
      rw [distance_of_lt (by omega) firstInside]
      omega
    · rw [distance_of_le onward lastInside, distance_of_le (by omega) lastInside]
      omega

/-- The last end can move forward exactly if it does not run into the first one. -/
theorem advance_ne_iff (lastInside : last < size) :
    advance size last ≠ first ↔ distance size first last + 1 < size := by
  rcases Nat.lt_or_ge last first with wrapped | ordered
  · rw [advance_of_lt (by omega), distance_of_lt wrapped firstInside]
    omega
  · rw [distance_of_le ordered lastInside]
    rcases Nat.lt_or_ge (last + 1) size with inner | atEnd
    · rw [advance_of_lt inner]
      omega
    · rw [advance_of_eq (by omega)]
      omega

/-- The slot a number of steps ahead is at that distance. -/
theorem distance_add_mod {offset : Nat} (inside : offset < size) :
    distance size first ((first + offset) % size) = offset := by
  rcases Nat.lt_or_ge (first + offset) size with inner | wrapped
  · rw [Nat.mod_eq_of_lt inner, distance_of_le (by omega) inner]
    omega
  · rw [Nat.mod_eq_sub_mod wrapped, Nat.mod_eq_of_lt (by omega),
      distance_of_lt (by omega) firstInside]
    omega

/-- The slot at the distance of another slot is that slot. -/
theorem add_distance_mod (lastInside : last < size) :
    (first + distance size first last) % size = last := by
  rcases Nat.lt_or_ge last first with wrapped | ordered
  · rw [distance_of_lt wrapped firstInside,
      show first + (last + size - first) = last + size by omega, Nat.add_mod_right,
      Nat.mod_eq_of_lt lastInside]
  · rw [distance_of_le ordered lastInside, show first + (last - first) = last by omega,
      Nat.mod_eq_of_lt lastInside]

end

end Distance

/-! ### What a stretch holds -/

section Cells

variable {Cell : Type*} {size first last : Nat} {data : Nat → Cell}

/-- What the slots of a stretch hold, from the first one on. -/
def cells (size : Nat) (data : Nat → Cell) (first last : Nat) : List Cell :=
  (List.range (distance size first last)).map fun offset => data ((first + offset) % size)

@[simp] theorem length_cells : (cells size data first last).length = distance size first last := by
  simp [cells]

theorem cells_eq_nil_iff (firstInside : first < size) (lastInside : last < size) :
    cells size data first last = [] ↔ first = last := by
  rw [← List.length_eq_zero_iff, length_cells, distance_eq_zero_iff firstInside lastInside]

@[simp] theorem cells_self (inside : first < size) : cells size data first first = [] :=
  (cells_eq_nil_iff inside inside).mpr rfl

/-- The slots of a stretch are those nearer to its first one than its last end. -/
theorem cells_congr {other : Nat → Cell} (lastInside : last < size) (firstInside : first < size)
    (agree : ∀ slot < size, distance size first slot < distance size first last →
      data slot = other slot) :
    cells size data first last = cells size other first last := by
  refine List.map_congr_left fun offset member => ?_
  have near : offset < distance size first last := List.mem_range.mp member
  have inside : offset < size := Nat.lt_trans near (distance_lt lastInside)
  refine agree _ (Nat.mod_lt _ (by omega)) ?_
  rwa [distance_add_mod firstInside inside]

/-- A write to the slot at the last end does not change the stretch. -/
theorem cells_update_last (firstInside : first < size) (lastInside : last < size) (cell : Cell) :
    cells size (Function.update data last cell) first last = cells size data first last := by
  refine cells_congr lastInside firstInside fun slot _ near => ?_
  refine Function.update_of_ne ?_ _ _
  rintro rfl
  exact Nat.lt_irrefl _ near

/-- Moving the last end forward takes in the slot it stood at. -/
theorem cells_advance_last (firstInside : first < size) (lastInside : last < size)
    (room : distance size first last + 1 < size) :
    cells size data first (advance size last) = cells size data first last ++ [data last] := by
  rw [cells, distance_advance_last firstInside lastInside room, List.range_succ, List.map_append,
    List.map_singleton, add_distance_mod firstInside lastInside, cells]

/-- A stretch that is not empty begins with the slot at its first end. -/
theorem cells_advance_first (firstInside : first < size) (lastInside : last < size)
    (nonempty : first ≠ last) :
    cells size data first last = data first :: cells size data (advance size first) last := by
  rw [cells, ← distance_advance_first firstInside lastInside nonempty, List.range_succ_eq_map,
    List.map_cons, List.map_map, Nat.add_zero, Nat.mod_eq_of_lt firstInside, cells]
  congr 1
  refine List.map_congr_left fun offset _ => ?_
  rw [Function.comp_apply, advance, Nat.mod_add_mod, Nat.succ_eq_add_one, Nat.add_right_comm,
    Nat.add_assoc]

/-- A write to the slot at the first end changes the first cell of the stretch only. -/
theorem cells_update_first (firstInside : first < size) (lastInside : last < size)
    (nonempty : first ≠ last) (cell : Cell) :
    cells size (Function.update data first cell) first last =
      cell :: cells size data (advance size first) last := by
  rw [cells_advance_first firstInside lastInside nonempty, Function.update_self]
  congr 1
  have next : advance size first < size := advance_lt firstInside
  refine cells_congr lastInside next fun slot inside near => ?_
  refine Function.update_of_ne ?_ _ _
  rintro rfl
  -- the slot that is given up is a whole turn ahead of the next one
  have shorter := distance_advance_first firstInside lastInside nonempty
  have turn : distance size (advance size slot) slot + 1 = size := by
    by_contra less
    have bound : distance size (advance size slot) slot < size := distance_lt inside
    exact (advance_ne_iff next inside).mpr (by omega) rfl
  have bound : distance size slot last < size := distance_lt lastInside
  omega

end Cells

end CircularBuffer
