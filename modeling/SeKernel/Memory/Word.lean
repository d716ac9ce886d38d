import Mathlib.Logic.Function.Basic
import Mathlib.Data.List.Basic

/-!
# Words in physical memory

The byte store of `src/memory_s.c` and its big-endian words. A word access masks its address to the
24 bits of the bus and to a multiple of 4, so it never leaves the `BUS_ADDRESS_SPACE` bytes.
-/

namespace SeKernel

/-- A `uint32_t`. -/
abbrev Word := BitVec 32

/-- Reference: `BUS_ADDRESS_SPACE` (`headers/memory_s.h:5`). -/
def busAddressSpace : Word := 1 <<< 24

/-- Reference: `BUS_DATA_BYTES_SIZE` (`headers/memory_s.h:10`). -/
def busDataBytesSize : Nat := 4

/-- Reference: `DATA_CELL_STORE_BITS` (`headers/memory_s.h:21`). -/
def dataCellStoreBits : Nat := 8

/-- Reference: `FRAME_OFFSET` (`headers/memory_s.h:7`). -/
def frameOffset : Nat := 8

/-- Reference: `FRAME_SIZE` (`headers/memory_s.h:12`). -/
def frameSize : Word := 1 <<< frameOffset

/-- Reference: `FRAME_OFFSET_MASK` (`headers/memory_s.h:13`). -/
def frameOffsetMask : Word := frameSize - 1

/-- Reference: `FRAME_ADDRESS_MASK` (`headers/memory_s.h:14`). -/
def frameAddressMask : Word := (busAddressSpace - 1) &&& ~~~frameOffsetMask

/-- The bytes behind `ps->memory`. -/
abbrev Memory := Word → BitVec 8

/-- Where the word of an address starts: `address & word_start_address_mask`. -/
def wordStartAddress (address : Word) : Word :=
  address &&& ((busAddressSpace - 1) &&& ~~~(BitVec.ofNat 32 busDataBytesSize - 1))

/-- Reference: `pm_read_word` (`src/memory_s.c:8`). -/
def pmReadWord (memory : Memory) (address : Word) : Word :=
  (List.range busDataBytesSize).foldl
    (fun data byteI =>
      data <<< dataCellStoreBits |||
        (memory (wordStartAddress address + BitVec.ofNat 32 byteI)).setWidth 32)
    0

/-- Reference: `pm_write_word` (`src/memory_s.c:20`). -/
def pmWriteWord (memory : Memory) (address word : Word) : Memory :=
  ((List.range busDataBytesSize).reverse.foldl
    (fun (memory, data) byteI =>
      (Function.update memory (wordStartAddress address + BitVec.ofNat 32 byteI) (data.setWidth 8),
        data >>> dataCellStoreBits))
    (memory, word)).1

end SeKernel
