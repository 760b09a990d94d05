/-
This file is about all layouts of the word of private data
(`rdmalib::PrivateData<Key, UserData, Secret>` in `rdmalib/connection.hpp`). The
word has three fields, and together they fill its 32 bits.

The accessors compute their masks with shifts, and a shift of a 32-bit word by
32 or more bits is undefined. The amounts are template constants, so it is the
compiler that makes something of it; what, is a parameter here. The layout
<8, 8, 16> never shifts that far. The layout <0, 0, 32>, with which the executor
manager recognises the connections of its executors, does in every accessor: the
mask for 32 bits is computed as `(1 << 32) - 1`.
-/

import RFaaS.PrivateData
import RFaaS.BitField

namespace RFaaS

/-- What a compiler makes of shifts of a 32-bit word by 32 or more bits. -/
structure Shifts where
  left : UInt32 → Nat → UInt32
  right : UInt32 → Nat → UInt32

namespace Shifts

variable (compiler : Shifts)

def shiftLeft (word : UInt32) (amount : Nat) : UInt32 :=
  if amount < 32 then word <<< UInt32.ofNat amount else compiler.left word amount

def shiftRight (word : UInt32) (amount : Nat) : UInt32 :=
  if amount < 32 then word >>> UInt32.ofNat amount else compiler.right word amount

/-- A compiler for which only the lower five bits of the amount count. -/
def masking : Shifts where
  left word amount := word <<< UInt32.ofNat amount
  right word amount := word >>> UInt32.ofNat amount

variable {compiler}

theorem shiftLeft_toNat {amount : Nat} (small : amount < 32) (word : UInt32) :
    (compiler.shiftLeft word amount).toNat = word.toNat <<< amount % 2 ^ 32 := by
  rw [shiftLeft, if_pos small, UInt32.toNat_shiftLeft, UInt32.toNat_ofNat_of_lt',
    Nat.mod_eq_of_lt small]
  exact Nat.lt_trans small (by decide)

theorem shiftRight_toNat {amount : Nat} (small : amount < 32) (word : UInt32) :
    (compiler.shiftRight word amount).toNat = word.toNat >>> amount := by
  rw [shiftRight, if_pos small, UInt32.toNat_shiftRight, UInt32.toNat_ofNat_of_lt',
    Nat.mod_eq_of_lt small]
  exact Nat.lt_trans small (by decide)

end Shifts

namespace PrivateData

/-- The three fields of the word. -/
inductive Field
  | key
  | userData
  | secret
  deriving DecidableEq

/-! ### The accessors -/

section Accessors

variable (compiler : Shifts)

/-- `(static_cast<uint32_t>(1) << bits) - 1`. -/
def patternOn (bits : Nat) : UInt32 := compiler.shiftLeft 1 bits - 1

/-- The getters `key` and `user_data`. -/
def getAt (bits amount : Nat) (data : UInt32) : UInt32 :=
  compiler.shiftRight (data &&& compiler.shiftLeft (patternOn compiler bits) amount) amount

/-- The setters `key` and `user_data`. -/
def setAt (bits amount : Nat) (value data : UInt32) : UInt32 :=
  data ||| compiler.shiftLeft (value &&& patternOn compiler bits) amount

variable {keyBits userBits secretBits : Nat}

/-- `key()`, `user_data()` and `secret()`. The secret is at the lower end and is not shifted. -/
def get (word : PrivateData keyBits userBits secretBits) : Field → UInt32
  | .key => getAt compiler keyBits (userBits + secretBits) word.data
  | .userData => getAt compiler userBits secretBits word.data
  | .secret => word.data &&& patternOn compiler secretBits

/-- `key(value)`, `user_data(value)` and `secret(value)`. -/
def set (word : PrivateData keyBits userBits secretBits) (value : UInt32) :
    Field → PrivateData keyBits userBits secretBits
  | .key => ⟨setAt compiler keyBits (userBits + secretBits) value word.data⟩
  | .userData => ⟨setAt compiler userBits secretBits value word.data⟩
  | .secret => ⟨word.data ||| (value &&& patternOn compiler secretBits)⟩

/-- The word after some of the setters were called, one after the other. -/
def setAll (values : Field → UInt32) (order : List Field)
    (word : PrivateData keyBits userBits secretBits) : PrivateData keyBits userBits secretBits :=
  order.foldl (fun word field => word.set compiler (values field) field) word

/-- The number of bits of a field. -/
def width (keyBits userBits secretBits : Nat) : Field → Nat
  | .key => keyBits
  | .userData => userBits
  | .secret => secretBits

/-- The amounts by which the getter and the setter of a field shift. -/
def amounts (keyBits userBits secretBits : Nat) : Field → List Nat
  | .key => [keyBits, userBits + secretBits]
  | .userData => [userBits, secretBits]
  | .secret => [secretBits]

/-- The fields of a layout are independent of each other and make up the word. -/
structure Independent (keyBits userBits secretBits : Nat) : Prop where
  fresh : ∀ (values : Field → UInt32) (order : List Field),
    order.Perm [.key, .userData, .secret] → ∀ field,
      (((⟨0⟩ : PrivateData keyBits userBits secretBits).setAll compiler values order).get compiler
        field).toNat = (values field).toNat % 2 ^ width keyBits userBits secretBits field
  others : ∀ (word : PrivateData keyBits userBits secretBits) (value : UInt32)
    (field other : Field), other ≠ field →
      (word.set compiler value field).get compiler other = word.get compiler other
  determined : ∀ first second : PrivateData keyBits userBits secretBits,
    (∀ field, first.get compiler field = second.get compiler field) → first = second
  shifts : ∀ field, ∀ amount ∈ amounts keyBits userBits secretBits field, amount < 32

end Accessors

/-! ### The accessors as reads and writes of fields -/

section Fields

variable {compiler : Shifts}

theorem patternOn_toNat {bits : Nat} (small : bits < 32) :
    (patternOn compiler bits).toNat = 2 ^ bits - 1 := by
  have power : (compiler.shiftLeft 1 bits).toNat = 2 ^ bits := by
    rw [Shifts.shiftLeft_toNat small, UInt32.toNat_one, Nat.one_shiftLeft]
    exact Nat.mod_eq_of_lt (Nat.pow_lt_pow_right (by decide) small)
  have least : (1 : UInt32) ≤ compiler.shiftLeft 1 bits := by
    rw [UInt32.le_iff_toNat_le, power]
    exact Nat.one_le_two_pow
  rw [patternOn, UInt32.toNat_sub_of_le _ _ least, power, UInt32.toNat_one]

theorem and_patternOn_toNat {bits : Nat} (small : bits < 32) (value : UInt32) :
    (value &&& patternOn compiler bits).toNat = value.toNat % 2 ^ bits := by
  rw [UInt32.toNat_and, patternOn_toNat small, Nat.and_two_pow_sub_one_eq_mod]

/-- The mask of a field is as long as the field, so nothing is lost at the upper end. -/
theorem getAt_toNat {bits amount : Nat} (small : bits < 32) (shift : amount < 32)
    (inside : amount + bits ≤ 32) (data : UInt32) :
    (getAt compiler bits amount data).toNat = BitField.read amount bits data.toNat := by
  refine Nat.eq_of_testBit_eq fun bit => ?_
  rw [getAt, Shifts.shiftRight_toNat shift, UInt32.toNat_and, Shifts.shiftLeft_toNat shift,
    patternOn_toNat small, BitField.testBit_read, Nat.testBit_shiftRight, Nat.testBit_and,
    Nat.testBit_mod_two_pow, Nat.testBit_shiftLeft, Nat.add_sub_cancel_left,
    Nat.testBit_two_pow_sub_one]
  by_cases member : bit < bits
  · simp [member, show amount + bit < 32 by omega]
  · simp [member]

theorem setAt_toNat {bits amount : Nat} (small : bits < 32) (shift : amount < 32)
    (inside : amount + bits ≤ 32) (value data : UInt32) :
    (setAt compiler bits amount value data).toNat =
      BitField.put amount bits value.toNat data.toNat := by
  have fits : (value.toNat % 2 ^ bits) <<< amount < 2 ^ 32 := by
    have cut : value.toNat % 2 ^ bits < 2 ^ bits := Nat.mod_lt _ (Nat.two_pow_pos bits)
    calc (value.toNat % 2 ^ bits) <<< amount = value.toNat % 2 ^ bits * 2 ^ amount :=
          Nat.shiftLeft_eq _ _
      _ < 2 ^ bits * 2 ^ amount := Nat.mul_lt_mul_of_pos_right cut (Nat.two_pow_pos amount)
      _ = 2 ^ (bits + amount) := (Nat.pow_add 2 bits amount).symm
      _ ≤ 2 ^ 32 := Nat.pow_le_pow_right (by decide) (by omega)
  rw [setAt, UInt32.toNat_or, Shifts.shiftLeft_toNat shift, and_patternOn_toNat small,
    Nat.mod_eq_of_lt fits, BitField.put]

/-- The secret is at the lower end, then come the user data and the key. -/
def layout (keyBits userBits secretBits : Nat) : BitField.Layout Field where
  offset
    | .key => userBits + secretBits
    | .userData => secretBits
    | .secret => 0
  width := width keyBits userBits secretBits
  apart first second different := by
    cases first <;> cases second <;> simp only [width] <;> first | contradiction | omega

variable {keyBits userBits secretBits : Nat}

variable (whole : keyBits + userBits + secretBits = 32) (present : 0 < keyBits)
  (part : keyBits < 32)

include whole present part

variable (word : PrivateData keyBits userBits secretBits)

theorem get_toNat (field : Field) :
    (word.get compiler field).toNat =
      (layout keyBits userBits secretBits).get field word.data.toNat := by
  cases field with
  | key => exact getAt_toNat part (by omega) (by omega) _
  | userData => exact getAt_toNat (by omega) (by omega) (by omega) _
  | secret => exact and_patternOn_toNat (by omega) _

theorem set_toNat (value : UInt32) (field : Field) :
    (word.set compiler value field).data.toNat =
      (layout keyBits userBits secretBits).set field value.toNat word.data.toNat := by
  cases field with
  | key => exact setAt_toNat part (by omega) (by omega) _ _
  | userData => exact setAt_toNat (by omega) (by omega) (by omega) _ _
  | secret =>
    have masked := @and_patternOn_toNat compiler secretBits (by omega) value
    show (word.data ||| (value &&& patternOn compiler secretBits)).toNat = _
    rw [UInt32.toNat_or, masked]
    rfl

theorem setAll_toNat (values : Field → UInt32) (order : List Field)
    (word : PrivateData keyBits userBits secretBits) :
    (word.setAll compiler values order).data.toNat =
      (layout keyBits userBits secretBits).setAll (fun field => (values field).toNat) order
        word.data.toNat := by
  induction order generalizing word with
  | nil => rfl
  | cons first rest inductionHypothesis =>
    have later := inductionHypothesis (word.set compiler (values first) first)
    rw [set_toNat whole present part] at later
    exact later

/-- The fields fill the word: every bit is in one of them. -/
theorem eq_of_get_eq {first second : PrivateData keyBits userBits secretBits}
    (same : ∀ field, first.get compiler field = second.get compiler field) : first = second := by
  have covered : ∀ bit < 32, ∃ field,
      (layout keyBits userBits secretBits).offset field ≤ bit ∧
        bit < (layout keyBits userBits secretBits).offset field +
          (layout keyBits userBits secretBits).width field := by
    intro bit inside
    by_cases low : bit < secretBits
    · exact ⟨.secret, by simp only [layout, width]; omega⟩
    by_cases middle : bit < userBits + secretBits
    · exact ⟨.userData, by simp only [layout, width]; omega⟩
    · exact ⟨.key, by simp only [layout, width]; omega⟩
  have words : first.data.toNat = second.data.toNat := by
    refine BitField.Layout.eq_of_get_eq covered first.data.toNat_lt second.data.toNat_lt ?_
    intro field
    rw [← get_toNat whole present part, ← get_toNat whole present part, same field]
  have data := UInt32.toNat_inj.mp words
  cases first
  cases second
  exact congrArg PrivateData.mk data

omit whole present part

/-- The fields are independent exactly in the layouts that have a key and something else. Without
a key, its accessors shift by 32; if the key is everything, its mask is computed by such a
shift. -/
theorem independent_iff (compiler : Shifts) (whole : keyBits + userBits + secretBits = 32) :
    Independent compiler keyBits userBits secretBits ↔ 0 < keyBits ∧ keyBits < 32 := by
  constructor
  · intro independent
    have mask := independent.shifts .key keyBits (by simp [amounts])
    have shift := independent.shifts .key (userBits + secretBits) (by simp [amounts])
    omega
  · rintro ⟨present, part⟩
    refine ⟨fun values order once field => ?_, fun word value field other different => ?_,
      fun first second => eq_of_get_eq whole present part, fun field amount member => ?_⟩
    · have nodup : order.Nodup := once.nodup_iff.mpr (by decide)
      have member : field ∈ order := once.mem_iff.mpr (by cases field <;> simp)
      have empty : (layout keyBits userBits secretBits).get field 0 = 0 := by
        simp [BitField.Layout.get, BitField.read]
      rw [get_toNat whole present part, setAll_toNat whole present part]
      exact BitField.Layout.get_setAll_of_mem nodup member _ empty
    · rw [← UInt32.toNat_inj, get_toNat whole present part, get_toNat whole present part,
        set_toNat whole present part]
      exact BitField.Layout.get_set_ne different _ _
    · cases field <;> simp only [amounts, List.mem_cons, List.not_mem_nil, or_false] at member <;>
        omega

theorem manager_layout_independent : Independent Shifts.masking 8 8 16 :=
  (independent_iff Shifts.masking (by decide)).mpr (by decide)

/-- The layout of the executor manager: the mask of the secret is computed by a shift of 32, and
if this shift gives 1, the secret 7 is read back as 0. -/
theorem full_secret_lost :
    let word := (⟨0⟩ : PrivateData 0 0 32).set Shifts.masking 7 .secret
    word.get Shifts.masking .secret = 0 ∧ (7 : UInt32).toNat % 2 ^ width 0 0 32 .secret = 7 ∧
      32 ∈ amounts 0 0 32 .secret := by
  decide

end Fields

end PrivateData

end RFaaS
