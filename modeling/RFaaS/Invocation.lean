/-
This file models what an invocation looks like on the wire
(`rdmalib/functions.hpp`, `Connection::post_write` in `rdmalib/lib/connection.cpp`,
and the packing and unpacking of immediates in `rfaas/executor.hpp` and
`server/executor/fast_executor.cpp`).

The 32 bits of an immediate carry the invocation id in their upper half. In a
submission the lower half holds the flag for a solicited reply in bit 15 and
the index of the function below it; in a reply it holds the return code. The
worker shifts the id down with its sign and up again; the client shifts it down
without sign. The file proves that the id survives the round trip and that the
index and the header survive the way to the worker.
-/

import RFaaS.Bytes
import RFaaS.Table

namespace RFaaS

open Bytes BitVec

/-! ### Writes -/

/-- `rdmalib::RemoteBuffer`, without the size that no writer looks at. -/
structure RemoteBuffer where
  addr : UInt64
  rkey : UInt32
  deriving DecidableEq, Repr

/-- A posted `IBV_WR_RDMA_WRITE_WITH_IMM`. The immediate is in network order. -/
structure Write where
  remote : RemoteBuffer
  data : List UInt8
  immData : BitVec 32
  inlined : Bool
  solicited : Bool
  deriving DecidableEq, Repr

/-- `htonl` and `ntohl` on a little-endian host. -/
def htonl (word : BitVec 32) : BitVec 32 := swap word

@[inherit_doc htonl]
def ntohl (word : BitVec 32) : BitVec 32 := swap word

@[simp] theorem ntohl_htonl (word : BitVec 32) : ntohl (htonl word) = word := swap_swap word

/-- `Connection::post_write` with an immediate. -/
def postWrite (data : List UInt8) (remote : RemoteBuffer) (immediate : BitVec 32)
    (forceInline forceSolicited : Bool) : Write where
  remote := remote
  data := data
  immData := htonl immediate
  inlined := forceInline
  solicited := forceSolicited

/-- A work completion of a receive. The last field is a ghost: the write that completed it. -/
structure WorkCompletion where
  failed : Bool
  immData : BitVec 32
  byteLen : UInt32
  origin : Write
  deriving DecidableEq, Repr

/-- The completion that a write delivers to its receiver. -/
def Write.completion (write : Write) : WorkCompletion where
  failed := false
  immData := write.immData
  byteLen := UInt32.ofNat write.data.length
  origin := write

/-- `RecvWorkCompletions::_wc_size`: how many completions a poll takes at most. -/
def wcSize : Nat := 32

/-- A registered stretch of memory. -/
structure Region where
  addr : UInt64
  rkey : UInt32
  bytes : List UInt8
  deriving DecidableEq, Repr

namespace Region

/-- Where others find the region. -/
def remote (region : Region) : RemoteBuffer := ⟨region.addr, region.rkey⟩

/-- The region after a write, if the key is its own and the data lies inside. -/
def place (region : Region) (write : Write) : Option Region :=
  let offset := write.remote.addr.toNat - region.addr.toNat
  if region.rkey = write.remote.rkey ∧ region.addr.toNat ≤ write.remote.addr.toNat ∧
      offset + write.data.length ≤ region.bytes.length then
    some { region with bytes := store region.bytes offset write.data }
  else none

theorem place_remote {region : Region} {write : Write} (own : write.remote = region.remote)
    (fits : write.data.length ≤ region.bytes.length) :
    region.place write =
      some { region with bytes := write.data ++ region.bytes.drop write.data.length } := by
  have inside : 0 + write.data.length ≤ region.bytes.length := by omega
  unfold place
  rw [own, ← store_zero]
  simp only [remote, Nat.sub_self]
  exact if_pos ⟨trivial, Nat.le_refl _, inside⟩

theorem of_place {region after : Region} {write : Write}
    (placed : region.place write = some after) :
    let offset := write.remote.addr.toNat - region.addr.toNat
    offset + write.data.length ≤ region.bytes.length ∧
      after = { region with bytes := store region.bytes offset write.data } := by
  dsimp only [place] at placed
  split at placed
  · rename_i inside
    exact ⟨inside.2.2, (Option.some.inj placed).symm⟩
  · cases placed

/-- A write to the address of a region stands at its beginning. -/
theorem begins_of_place {region after : Region} {write : Write}
    (own : write.remote = region.remote) (placed : region.place write = some after) :
    write.data <+: after.bytes := by
  obtain ⟨_, rfl⟩ := of_place placed
  rw [own]
  simp only [remote, Nat.sub_self, store_zero]
  exact List.prefix_append _ _

theorem length_of_place {region after : Region} {write : Write}
    (placed : region.place write = some after) : after.bytes.length = region.bytes.length := by
  obtain ⟨inside, rfl⟩ := of_place placed
  exact length_store inside

theorem remote_of_place {region after : Region} {write : Write}
    (placed : region.place write = some after) : after.remote = region.remote := by
  obtain ⟨_, rfl⟩ := of_place placed
  rfl

end Region

/-! ### The header of a submission -/

namespace Submission

/-- `Submission::DATA_HEADER_SIZE`. -/
def dataHeaderSize : Nat := 12

/-- The bytes of a `Submission`: `r_address`, then `r_key`. -/
def bytes (out : RemoteBuffer) : List UInt8 :=
  encode 8 out.addr.toNat ++ encode 4 out.rkey.toNat

/-- The input buffer after the client stored the address and key of the output buffer at its
beginning. -/
def stamp (input : List UInt8) (out : RemoteBuffer) : List UInt8 :=
  bytes out ++ input.drop dataHeaderSize

/-- The header as the worker reads it through its `Submission*`. -/
def header (memory : List UInt8) : RemoteBuffer where
  addr := UInt64.ofNat (decode (memory.take 8))
  rkey := UInt32.ofNat (decode ((memory.drop 8).take 4))

variable (out : RemoteBuffer)

@[simp] theorem length_bytes : (bytes out).length = dataHeaderSize := by
  rw [bytes, List.length_append, length_encode, length_encode]
  rfl

theorem header_bytes_append (rest : List UInt8) : header (bytes out ++ rest) = out := by
  have first : (bytes out ++ rest).take 8 = encode 8 out.addr.toNat := by
    rw [bytes, List.append_assoc, List.take_left' (length_encode _ _)]
  have second : ((bytes out ++ rest).drop 8).take 4 = encode 4 out.rkey.toNat := by
    rw [bytes, List.append_assoc, List.drop_left' (length_encode _ _),
      List.take_left' (length_encode _ _)]
  rw [header, first, second, decode_encode out.addr.toNat_lt,
    decode_encode out.rkey.toNat_lt, UInt64.ofNat_toNat, UInt32.ofNat_toNat]

theorem length_stamp {input : List UInt8} (room : dataHeaderSize ≤ input.length) :
    (stamp input out).length = input.length := by
  rw [stamp, List.length_append, length_bytes, List.length_drop]
  omega

theorem header_stamp_append (input : List UInt8) (out : RemoteBuffer) (rest : List UInt8) :
    header (stamp input out ++ rest) = out := by
  rw [stamp, List.append_assoc, header_bytes_append]

theorem drop_stamp_append (input : List UInt8) (out : RemoteBuffer) (rest : List UInt8) :
    (stamp input out ++ rest).drop dataHeaderSize = input.drop dataHeaderSize ++ rest := by
  rw [stamp, List.append_assoc, List.drop_left' (length_bytes out)]

end Submission

/-! ### Immediates -/

namespace Immediate

/-- The immediate of `execute`. -/
def submission (invocId funcIdx : BitVec 32) : BitVec 32 := invocId <<< 16 ||| funcIdx

/-- The immediate of the asynchronous calls, which ask for a solicited reply. -/
def solicitedSubmission (invocId funcIdx : BitVec 32) : BitVec 32 :=
  invocId <<< 16 ||| 1#32 <<< 15 ||| funcIdx

/-- `info & Thread::invocation_mask`. -/
def funcId (info : BitVec 32) : BitVec 32 := info &&& 0x00007FFF#32

/-- `info & Thread::solicited_mask`. -/
def solicited (info : BitVec 32) : Bool := info &&& 0x00008000#32 != 0#32

/-- `info >> 16` on an `int`. -/
def invocId (info : BitVec 32) : BitVec 32 := info.sshiftRight 16

/-- The immediate of a reply. -/
def reply (invocId : BitVec 32) : BitVec 32 := invocId <<< 16 ||| 0#32

/-- `val & 0x0000FFFF`. -/
def returnVal (val : BitVec 32) : BitVec 32 := val &&& 0x0000FFFF#32

/-- `val >> 16` on a `uint32_t`. -/
def finishedInvocId (val : BitVec 32) : BitVec 32 := val >>> 16

theorem toNat_halves (high : BitVec 32) {low : BitVec 32} (small : low.toNat < 2 ^ 16) :
    (high <<< 16 ||| low).toNat = high.toNat % 2 ^ 16 * 2 ^ 16 + low.toNat := by
  have shifted : (high.toNat <<< 16) % 2 ^ 32 = (high.toNat % 2 ^ 16) <<< 16 := by
    rw [Nat.shiftLeft_eq, Nat.shiftLeft_eq]
    omega
  rw [toNat_or, toNat_shiftLeft, shifted, ← Nat.shiftLeft_add_eq_or_of_lt small,
    Nat.shiftLeft_eq]

theorem toNat_funcId (info : BitVec 32) : (funcId info).toNat = info.toNat % 2 ^ 15 := by
  rw [funcId, toNat_and]
  exact Nat.and_two_pow_sub_one_eq_mod _ 15

/-- The worker gets the index of the function from a plain submission. -/
theorem funcId_submission (id : BitVec 32) {index : BitVec 32} (small : index.toNat < 2 ^ 15) :
    funcId (submission id index) = index := by
  rw [← BitVec.toNat_inj, toNat_funcId, submission, toNat_halves id (by omega)]
  omega

/-- A sign-extending shift down and a shift up leave the same upper half as without the sign. -/
theorem reply_invocId (info : BitVec 32) : reply (invocId info) = info >>> 16 <<< 16 := by
  rw [reply, or_zero, invocId]
  ext index bound
  rw [getElem_shiftLeft, getElem_shiftLeft]
  by_cases low : index < 16
  · simp [low]
  · have inside : 16 + (index - 16) < 32 := by omega
    rw [getElem_sshiftRight, getElem_ushiftRight, dif_pos inside,
      getLsbD_eq_getElem inside]

/-- The id that the client decodes from the reply is the upper half of the submission. -/
theorem finishedInvocId_reply (info : BitVec 32) :
    finishedInvocId (reply (invocId info)) = info >>> 16 := by
  rw [reply_invocId, finishedInvocId, ← BitVec.toNat_inj]
  simp only [BitVec.toNat_ushiftRight, toNat_shiftLeft, Nat.shiftRight_eq_div_pow,
    Nat.shiftLeft_eq]
  have bound := info.isLt
  omega

theorem toNat_returnVal (val : BitVec 32) : (returnVal val).toNat = val.toNat % 2 ^ 16 := by
  rw [returnVal, toNat_and]
  exact Nat.and_two_pow_sub_one_eq_mod _ 16

theorem returnVal_reply (id : BitVec 32) : returnVal (reply id) = 0#32 := by
  rw [← BitVec.toNat_inj, toNat_returnVal, reply, toNat_halves id (by decide)]
  show (id.toNat % 2 ^ 16 * 2 ^ 16 + 0) % 2 ^ 16 = 0
  omega

theorem upperHalf (id : BitVec 32) {low : BitVec 32} (small : low.toNat < 2 ^ 16) :
    (id <<< 16 ||| low) >>> 16 = BitVec.ofNat 32 (id.toNat % 2 ^ 16) := by
  rw [← BitVec.toNat_inj, BitVec.toNat_ushiftRight, toNat_halves id small, BitVec.toNat_ofNat,
    Nat.shiftRight_eq_div_pow]
  omega

/-- The client decodes the low 16 bits of the id from the reply. -/
theorem finishedInvocId_reply_eq_iff (id : BitVec 32) {low : BitVec 32}
    (small : low.toNat < 2 ^ 16) :
    finishedInvocId (reply (invocId (id <<< 16 ||| low))) = id ↔ id.toNat < 2 ^ 16 := by
  rw [finishedInvocId_reply, upperHalf id small, toNat_eq, BitVec.toNat_ofNat]
  have bound := id.isLt
  omega

theorem solicited_eq (info : BitVec 32) : solicited info = info.getLsbD 15 := by
  have mask : 0x00008000#32 = twoPow 32 15 := by decide
  rw [solicited, mask, and_twoPow]
  split
  · rename_i set
    rw [set]
    decide
  · rename_i unset
    rw [eq_false_of_ne_true unset]
    decide

theorem solicited_solicitedSubmission (id index : BitVec 32) :
    solicited (solicitedSubmission id index) = true := by
  have flag : (1#32 <<< 15).getLsbD 15 = true := by decide
  rw [solicited_eq, solicitedSubmission, getLsbD_or, getLsbD_or, flag,
    Bool.or_true, Bool.true_or]

theorem solicited_submission (id : BitVec 32) {index : BitVec 32} (small : index.toNat < 2 ^ 15) :
    solicited (submission id index) = false := by
  have shifted : (id <<< 16).getLsbD 15 = false := by
    rw [getLsbD_shiftLeft]
    rfl
  have unset : index.getLsbD 15 = false := Nat.testBit_lt_two_pow small
  rw [solicited_eq, submission, getLsbD_or, shifted, unset]
  rfl

end Immediate

end RFaaS
