/-
This file is the library of C strings: texts in memory that end at a
terminator. A text is copied into a field of fixed size by `strncpy`, which
cuts it off at the size of the field and then writes no terminator. Reading the
field back as a C string goes on into what lies behind it.
-/

import Mathlib.Data.List.Basic

namespace CString

variable {Symbol : Type*} [DecidableEq Symbol] {nul : Symbol}

/-- The C string that memory begins with; `none` when memory ends before it does. -/
def read (nul : Symbol) : List Symbol → Option (List Symbol)
  | [] => none
  | symbol :: rest => if symbol = nul then some [] else (read nul rest).map (symbol :: ·)

/-- `strncpy(field, source.c_str(), size)`: the field is filled up with terminators. -/
def strncpy (nul : Symbol) : Nat → List Symbol → List Symbol
  | 0, _ => []
  | size + 1, [] => List.replicate (size + 1) nul
  | size + 1, symbol :: rest =>
    if symbol = nul then List.replicate (size + 1) nul else symbol :: strncpy nul size rest

@[simp] theorem length_strncpy (size : Nat) (source : List Symbol) :
    (strncpy nul size source).length = size := by
  induction size generalizing source with
  | zero => rfl
  | succ size inductionHypothesis =>
    cases source with
    | nil => exact List.length_replicate
    | cons symbol rest =>
      rw [strncpy]
      split
      · exact List.length_replicate
      · rw [List.length_cons, inductionHypothesis]

/-- There is no terminator in a C string. -/
theorem not_mem_of_read {memory text : List Symbol} (found : read nul memory = some text) :
    nul ∉ text := by
  induction memory generalizing text with
  | nil => cases found
  | cons symbol rest inductionHypothesis =>
    rw [read] at found
    split at found
    · cases found
      exact List.not_mem_nil
    · rename_i different
      obtain ⟨tail, inside, rfl⟩ := Option.map_eq_some_iff.mp found
      rw [List.mem_cons, not_or]
      exact ⟨Ne.symm different, inductionHypothesis inside⟩

/-- A text in a buffer that has a terminator at its end is cut off at the first one in it. -/
theorem read_append_nul (text : List Symbol) :
    read nul (text ++ [nul]) = some (text.takeWhile (· ≠ nul)) := by
  induction text with
  | nil => simp [read]
  | cons symbol rest inductionHypothesis =>
    by_cases terminator : symbol = nul
    · simp [read, terminator]
    · simp [read, terminator, inductionHypothesis]

/-- A text that is at least as long as the field is read back exactly if it has no terminator in
it and what lies behind the field is the rest of the text. -/
theorem read_strncpy_iff {size : Nat} {source : List Symbol} (long : size ≤ source.length)
    (following : List Symbol) :
    read nul (strncpy nul size source ++ following) = some source ↔
      nul ∉ source ∧ read nul following = some (source.drop size) := by
  induction size generalizing source with
  | zero => exact ⟨fun found => ⟨not_mem_of_read found, found⟩, And.right⟩
  | succ size inductionHypothesis =>
    cases source with
    | nil => exact absurd long (Nat.not_succ_le_zero size)
    | cons symbol rest =>
      by_cases terminator : symbol = nul
      · simp [strncpy, terminator, List.replicate_succ, read]
      · have tail := inductionHypothesis (Nat.le_of_succ_le_succ long)
        simpa [strncpy, terminator, Ne.symm terminator, read] using tail

end CString
