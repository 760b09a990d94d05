/-
This file is about the 32 bits of private data that come with a connection
request (`rdmalib/connection.hpp`, `rdmalib/lib/rdmalib.cpp`) and about what the
resource manager makes of them (`server/resource_manager/manager.cpp`). An
executor manager packs its secret and the key 1 into the word; the listener of
the resource manager unpacks both and compares the secret with its own.

The word has room for 16 bits of the secret. The sender cuts its secret down to
them, and the receiver compares them with a secret that was not cut: two equal
secrets are recognised only if they fit, and of a longer secret of the executor
manager only the lower half is looked at.
-/

import Mathlib.Algebra.Ring.Nat

namespace RFaaS

/-! ### The word -/

/-- `rdmalib::PrivateData<Key, UserData, Secret>`, with the widths of its three parts. -/
structure PrivateData (key userData secret : Nat) where
  data : UInt32
  deriving DecidableEq

namespace PrivateData

variable {keyBits userBits secretBits : Nat}

/-- `(static_cast<uint32_t>(1) << bits) - 1`. -/
def pattern (bits : Nat) : UInt32 := UInt32.ofNat (2 ^ bits - 1)

def secret (word : PrivateData keyBits userBits secretBits) : UInt32 :=
  word.data &&& pattern secretBits

def setSecret (word : PrivateData keyBits userBits secretBits) (value : UInt32) :
    PrivateData keyBits userBits secretBits :=
  ⟨word.data ||| (value &&& pattern secretBits)⟩

def key (word : PrivateData keyBits userBits secretBits) : UInt32 :=
  (word.data &&& (pattern keyBits <<< UInt32.ofNat (userBits + secretBits))) >>>
    UInt32.ofNat (userBits + secretBits)

def setKey (word : PrivateData keyBits userBits secretBits) (value : UInt32) :
    PrivateData keyBits userBits secretBits :=
  ⟨word.data ||| ((value &&& pattern keyBits) <<< UInt32.ofNat (userBits + secretBits))⟩

theorem or_and_distrib (left right mask : UInt32) :
    (left ||| right) &&& mask = (left &&& mask) ||| (right &&& mask) := by
  apply UInt32.toBitVec_inj.mp
  simp only [UInt32.toBitVec_and, UInt32.toBitVec_or]
  exact BitVec.and_or_distrib_right

theorem and_pattern (value : UInt32) : value &&& pattern 16 = value % 65536 := by
  apply UInt32.toNat_inj.mp
  rw [UInt32.toNat_and, UInt32.toNat_mod]
  exact Nat.and_two_pow_sub_one_eq_mod value.toNat 16

theorem mod_eq_self_iff (value : UInt32) : value % 65536 = value ↔ value < 65536 := by
  rw [← UInt32.toNat_inj, UInt32.toNat_mod, UInt32.lt_iff_toNat_lt]
  exact Nat.mod_eq_iff_lt (by decide)

end PrivateData

/-! ### A connection request -/

/-- `RDMAActive::connect`: the private data of the request. A word of zero is not sent. -/
def connectData (secret : UInt32) : Option UInt32 := if secret ≠ 0 then some secret else none

/-- `RDMAPassive::poll_events`, on a connection request: the private data of the connection. -/
def requestedData (sent : Option UInt32) : UInt32 := sent.getD 0

/-- `executor_manager::Manager::start`: the word for the resource manager. The configured secret
is an `int`. -/
def managerData (resourceManagerSecret : Int32) : PrivateData 8 8 16 :=
  ((⟨0⟩ : PrivateData 8 8 16).setSecret resourceManagerSecret.toUInt32).setKey 1

/-- What the listener does with a connection request. -/
inductive Admission
  | rejected
  | executor
  | client
  deriving DecidableEq

/-- `resource_manager::Manager::listen_rdma`, on a connection request. -/
def listenRdma (secret : UInt32) (privateData : UInt32) : Admission :=
  let word : PrivateData 8 8 16 := ⟨privateData⟩
  if word.key = 1 ∧ word.secret ≠ secret then .rejected
  else if word.key = 1 then .executor
  else .client

/-- The answer of a resource manager with one secret to an executor manager with another one. -/
def admission (secret : UInt32) (resourceManagerSecret : Int32) : Admission :=
  listenRdma secret (requestedData (connectData (managerData resourceManagerSecret).data))

/-! ### What arrives -/

/-- The two parts that are set do not overlap. -/
theorem managerData_data (secret : Int32) :
    (managerData secret).data = (secret.toUInt32 &&& PrivateData.pattern 16) ||| 0x1000000 := by
  show (0 ||| (secret.toUInt32 &&& PrivateData.pattern 16)) ||| 0x1000000 = _
  rw [UInt32.zero_or]

theorem managerData_secret (secret : Int32) :
    (managerData secret).secret = secret.toUInt32 % 65536 := by
  rw [PrivateData.secret, managerData_data, PrivateData.or_and_distrib, UInt32.and_assoc,
    UInt32.and_self, show (0x1000000 : UInt32) &&& PrivateData.pattern 16 = 0 by decide,
    UInt32.or_zero, PrivateData.and_pattern]

theorem managerData_key (secret : Int32) : (managerData secret).key = 1 := by
  rw [PrivateData.key, managerData_data, PrivateData.or_and_distrib, UInt32.and_assoc,
    show PrivateData.pattern 16 &&& (PrivateData.pattern 8 <<< UInt32.ofNat (8 + 16)) = 0 by decide,
    UInt32.and_zero, UInt32.zero_or]
  decide

/-- The word that arrives is the one that was packed: it is never zero. -/
theorem requestedData_managerData (secret : Int32) :
    requestedData (connectData (managerData secret).data) = (managerData secret).data := by
  unfold connectData
  split
  · rfl
  · rename_i zero
    exact (not_not.mp zero).symm

/-- The executor manager is accepted exactly if the lower half of its secret is the whole secret
of the resource manager. -/
theorem admission_eq_executor (secret : UInt32) (resourceManagerSecret : Int32) :
    admission secret resourceManagerSecret = .executor ↔
      secret = resourceManagerSecret.toUInt32 % 65536 := by
  have key : (⟨(managerData resourceManagerSecret).data⟩ : PrivateData 8 8 16).key = 1 :=
    managerData_key resourceManagerSecret
  have sent : (⟨(managerData resourceManagerSecret).data⟩ : PrivateData 8 8 16).secret =
      resourceManagerSecret.toUInt32 % 65536 := managerData_secret resourceManagerSecret
  rw [admission, requestedData_managerData, listenRdma, key, sent]
  by_cases same : resourceManagerSecret.toUInt32 % 65536 = secret
  · simp [same]
  · simp [same, Ne.symm same]

/-- An executor manager is accepted exactly if it has the secret of the resource manager, as long
as its secret fits into 16 bits. With a longer one, the listener is right only to reject: the
two secrets differ, also in what the word has room for. -/
theorem authentication_exact_iff (secret : UInt32) (resourceManagerSecret : Int32) :
    (admission secret resourceManagerSecret = .executor ↔ secret = resourceManagerSecret.toUInt32) ↔
      resourceManagerSecret.toUInt32 < 65536 ∨
        secret ≠ resourceManagerSecret.toUInt32 ∧
          secret ≠ resourceManagerSecret.toUInt32 % 65536 := by
  rw [admission_eq_executor]
  by_cases fits : resourceManagerSecret.toUInt32 < 65536
  · simp [(PrivateData.mod_eq_self_iff _).mpr fits, fits]
  · have cut : resourceManagerSecret.toUInt32 % 65536 ≠ resourceManagerSecret.toUInt32 :=
      fun same => fits ((PrivateData.mod_eq_self_iff _).mp same)
    constructor
    · intro exact_
      refine Or.inr ⟨fun equal => ?_, fun half => ?_⟩
      · exact cut ((exact_.mpr equal).symm.trans equal)
      · exact cut (half.symm.trans (exact_.mp half))
    · intro rejected
      obtain ⟨differ, differHalf⟩ := rejected.resolve_left fits
      exact ⟨fun half => absurd half differHalf, fun equal => absurd equal differ⟩

/-- The same long secret on both sides is rejected, and a secret that is wrong in its upper half
is accepted. -/
theorem long_secrets_confused :
    admission 0x10000 0x10000 = .rejected ∧ admission 0x1 0x10001 = .executor := by
  decide

end RFaaS
