/-
This file is the byte library: numbers as little-endian bytes of a fixed
width, the reversal of the four bytes of a word, and stores into a stretch of
memory. Each comes with the laws that its readers need: what was stored is
read back, and what a store leaves alone is what it was.
-/

import Mathlib.Data.List.Basic
import Mathlib.Algebra.Ring.Nat

namespace Bytes

open List

/-! ### Little-endian numbers -/

/-- The `width` lowest bytes of a number, the least significant one first. -/
def encode : Nat → Nat → List UInt8
  | 0, _ => []
  | width + 1, value => UInt8.ofNat value :: encode width (value / 256)

/-- The number with these bytes. -/
def decode : List UInt8 → Nat
  | [] => 0
  | byte :: rest => byte.toNat + 256 * decode rest

@[simp] theorem length_encode (width value : Nat) : (encode width value).length = width := by
  induction width generalizing value with
  | zero => rfl
  | succ width inductionHypothesis => rw [encode, length_cons, inductionHypothesis]

theorem decode_encode {width value : Nat} (small : value < 256 ^ width) :
    decode (encode width value) = value := by
  induction width generalizing value with
  | zero =>
    rw [Nat.pow_zero] at small
    show 0 = value
    omega
  | succ width inductionHypothesis =>
    have rest : value / 256 < 256 ^ width := by
      rw [Nat.pow_succ] at small
      omega
    have low : (UInt8.ofNat value).toNat = value % 256 := rfl
    rw [encode, decode, inductionHypothesis rest, low]
    omega

theorem decode_lt (bytes : List UInt8) : decode bytes < 256 ^ bytes.length := by
  induction bytes with
  | nil => exact Nat.one_pos
  | cons byte rest inductionHypothesis =>
    have small : byte.toNat < 256 := byte.toNat_lt
    rw [decode, length_cons, Nat.pow_succ]
    omega

theorem encode_decode (bytes : List UInt8) : encode bytes.length (decode bytes) = bytes := by
  induction bytes with
  | nil => rfl
  | cons byte rest inductionHypothesis =>
    have small : byte.toNat < 256 := byte.toNat_lt
    have high : (byte.toNat + 256 * decode rest) / 256 = decode rest := by omega
    have low : UInt8.ofNat (byte.toNat + 256 * decode rest) = byte := by
      rw [← UInt8.toNat_inj]
      show (byte.toNat + 256 * decode rest) % 256 = byte.toNat
      omega
    rw [decode, length_cons, encode, high, low, inductionHypothesis]

/-! ### Byte order -/

/-- The four bytes of a word in the opposite order. -/
def swap (word : BitVec 32) : BitVec 32 :=
  BitVec.ofNat 32 (decode (encode 4 word.toNat).reverse)

theorem toNat_swap (word : BitVec 32) :
    (swap word).toNat = decode (encode 4 word.toNat).reverse := by
  have small := decode_lt (encode 4 word.toNat).reverse
  rw [length_reverse, length_encode] at small
  rw [swap, BitVec.toNat_ofNat]
  omega

@[simp] theorem swap_swap (word : BitVec 32) : swap (swap word) = word := by
  have again := encode_decode (encode 4 word.toNat).reverse
  rw [length_reverse, length_encode] at again
  rw [← BitVec.toNat_inj, toNat_swap, toNat_swap, again, reverse_reverse]
  exact decode_encode word.isLt

/-! ### Stores -/

/-- Memory after a store of `data` at `offset`. -/
def store (memory : List UInt8) (offset : Nat) (data : List UInt8) : List UInt8 :=
  memory.take offset ++ data ++ memory.drop (offset + data.length)

theorem store_zero (memory data : List UInt8) :
    store memory 0 data = data ++ memory.drop data.length := by
  rw [store, take_zero, nil_append, Nat.zero_add]

theorem length_store {memory data : List UInt8} {offset : Nat}
    (fits : offset + data.length ≤ memory.length) :
    (store memory offset data).length = memory.length := by
  simp only [store, length_append, length_take, length_drop]
  omega

/-- The `count` bytes from `offset` on. -/
def load (memory : List UInt8) (offset count : Nat) : List UInt8 := (memory.drop offset).take count

theorem load_store {memory data : List UInt8} {offset : Nat}
    (fits : offset + data.length ≤ memory.length) :
    load (store memory offset data) offset data.length = data := by
  have before : (memory.take offset).length = offset := by
    rw [length_take]
    omega
  rw [load, store, append_assoc, drop_left' before, take_left' rfl]

theorem getElem?_store {memory data : List UInt8} {offset : Nat}
    (fits : offset + data.length ≤ memory.length) {index : Nat}
    (outside : index < offset ∨ offset + data.length ≤ index) :
    (store memory offset data)[index]? = memory[index]? := by
  have before : (memory.take offset).length = offset := by
    rw [length_take]
    omega
  rcases outside with low | high
  · rw [store, append_assoc, getElem?_append_left (by omega),
      getElem?_take_of_lt low]
  · rw [store, getElem?_append_right (by rw [length_append]; omega),
      getElem?_drop, length_append, before]
    congr 1
    omega

/-- A load that does not meet a store is not affected by it. -/
theorem load_store_apart {memory data : List UInt8} {offset first count : Nat}
    (fits : offset + data.length ≤ memory.length)
    (apart : first + count ≤ offset ∨ offset + data.length ≤ first) :
    load (store memory offset data) first count = load memory first count := by
  refine ext_getElem? fun index => ?_
  rw [load, load]
  by_cases inside : index < count
  · rw [getElem?_take_of_lt inside, getElem?_take_of_lt inside, getElem?_drop,
      getElem?_drop]
    exact getElem?_store fits (by omega)
  · rw [getElem?_take_eq_none (by omega), getElem?_take_eq_none (by omega)]

end Bytes
