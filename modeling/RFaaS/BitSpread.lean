/-
This file is the library of words whose bits are spread downwards. Oring a word
with itself shifted down by one, then by two, by four and so on sets every bit
below the highest one. Each round doubles how far a bit has been spread; once
that is the width of the word, the result is one less than a power of two.
-/

import Mathlib.Algebra.Ring.Nat
import Mathlib.Data.Nat.Size

namespace BitSpread

/-- A bit is set exactly if the word has a bit among the `reach` ones from there upwards. -/
def Spread (word reach spread : Nat) : Prop :=
  ∀ bit, spread.testBit bit = true ↔ ∃ offset < reach, word.testBit (bit + offset) = true

theorem spread_one (word : Nat) : Spread word 1 word := by
  intro bit
  simp

/-- A round that shifts by as much as has been reached doubles the reach. -/
theorem Spread.double {word reach spread : Nat} (spreads : Spread word reach spread) :
    Spread word (2 * reach) (spread ||| spread >>> reach) := by
  intro bit
  rw [Nat.testBit_or, Nat.testBit_shiftRight, Bool.or_eq_true, spreads, spreads]
  constructor
  · rintro (⟨offset, near, set⟩ | ⟨offset, near, set⟩)
    · exact ⟨offset, by omega, set⟩
    · refine ⟨reach + offset, by omega, ?_⟩
      rwa [show bit + (reach + offset) = reach + bit + offset by omega]
  · rintro ⟨offset, near, set⟩
    by_cases low : offset < reach
    · exact Or.inl ⟨offset, low, set⟩
    · refine Or.inr ⟨offset - reach, by omega, ?_⟩
      rwa [show reach + bit + (offset - reach) = bit + offset by omega]

/-- A word that has been spread as far as it is wide. -/
theorem Spread.eq {word reach spread : Nat} (spreads : Spread word reach spread)
    (narrow : word < 2 ^ reach) : spread = 2 ^ word.size - 1 := by
  refine Nat.eq_of_testBit_eq fun bit => ?_
  rw [Nat.testBit_two_pow_sub_one, Bool.eq_iff_iff, spreads, decide_eq_true_iff, Nat.lt_size]
  constructor
  · rintro ⟨offset, -, set⟩
    have above := Nat.ge_two_pow_of_testBit set
    exact Nat.le_trans (Nat.pow_le_pow_right (by omega) (Nat.le_add_right bit offset)) above
  · intro high
    obtain ⟨top, above, set⟩ := Nat.exists_ge_and_testBit_of_ge_two_pow high
    have inside : top < reach := by
      rcases Nat.lt_or_ge top reach with inside | outside
      · exact inside
      · have beyond : 2 ^ reach ≤ 2 ^ top := Nat.pow_le_pow_right (by omega) outside
        have reached := Nat.ge_two_pow_of_testBit set
        omega
    exact ⟨top - bit, by omega, by rwa [show bit + (top - bit) = top by omega]⟩

end BitSpread
