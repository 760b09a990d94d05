/-
This file models the memory handles of rdmalib (`rdmalib/buffer.hpp`,
`rdmalib/lib/buffer.cpp`). A `Buffer` is a handle on a mapped region: it owns a
pointer and a registration, never the bytes themselves. What matters to the
rest of the development is how a move assignment hands the region over and
what it leaves behind.
-/

import Mathlib.Data.Option.Basic

namespace RFaaS

/-- `rdmalib::impl::Buffer`. A region that `mmap` returned is identified by a number. -/
structure Buffer where
  size : Nat
  header : Nat
  bytes : Nat
  byteSize : Nat
  ptr : Option Nat
  mr : Option Nat
  ownMemory : Bool
  deriving DecidableEq, Repr

namespace Buffer

/-- `Buffer(size, byte_size, header)`: maps a region of its own. -/
def allocate (size byteSize header region : Nat) : Buffer where
  size := size
  header := header
  bytes := size * byteSize + header
  byteSize := byteSize
  ptr := some region
  mr := none
  ownMemory := true

/-- `register_memory`. The registration is identified by the region it covers. -/
def registerMemory (buffer : Buffer) : Buffer := { buffer with mr := buffer.ptr }

/-- What `operator=(Buffer &&)` leaves in its argument; the header and the ownership flag
stay. -/
def moved (buffer : Buffer) : Buffer :=
  { buffer with size := 0, bytes := 0, ptr := none, mr := none }

end Buffer

/-- `rdmalib::ScatterGatherElement` with the one element it is ever built with: a stretch of a
region, and the registration it is accessed under. -/
structure ScatterGatherElement where
  region : Option Nat
  offset : Nat
  length : Nat
  lkey : Option Nat
  deriving DecidableEq, Repr

/-- `Buffer::sge`. -/
def Buffer.sge (buffer : Buffer) (size offset : Nat) : ScatterGatherElement where
  region := buffer.ptr
  offset := offset
  length := size
  lkey := buffer.mr

end RFaaS
