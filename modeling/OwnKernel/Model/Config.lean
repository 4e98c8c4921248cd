import Mathlib.Data.Int.Basic
import Mathlib.Tactic.Ring

/-!
# Machine integers and constants

The kernel runs on a 32-bit x86. Pointers and `uint32_t` values are
`Word`, table entries and characters are `Byte`, and a C `int` is an
integer brought back into range by `int32` wherever the source computes
one. Conversion wraps in two's complement, which is what the compiler
the Makefile names does. The constants are those of `config.h` and
`status.h`.
-/

namespace OwnKernel

/-- A pointer, a `size_t` or a `uint32_t`. -/
abbrev Word := BitVec 32

/-- An `unsigned char`. -/
abbrev Byte := BitVec 8

/-- Conversion to `int`: two's complement wrap. -/
def int32 (x : ℤ) : ℤ := (x + 2 ^ 31) % 2 ^ 32 - 2 ^ 31

/-- Conversion to `uint32_t` or `size_t`. -/
def uint32 (x : ℤ) : ℕ := (x % 2 ^ 32).toNat

/-- A value an `int` holds is not changed by the conversion. -/
theorem int32_of_range {x : ℤ} (h₁ : -2 ^ 31 ≤ x) (h₂ : x < 2 ^ 31) : int32 x = x := by
  unfold int32; omega

/-- A value a `uint32_t` holds is not changed by the conversion. -/
theorem uint32_natCast {n : ℕ} (h : n < 2 ^ 32) : uint32 n = n := by
  unfold uint32; omega

/-! ## `config.h` -/

/-- `HEAP_SIZE_BYTES`, 100 MB. -/
def heapSizeBytes : ℕ := 104857600

/-- `HEAP_BLOCK_SIZE`, which is also `PAGING_PAGE_SIZE`. -/
abbrev heapBlockSize : ℕ := 4096

/-- `HEAP_ADDRESS`. -/
def heapAddress : Word := 0x01000000

/-- `HEAP_TABLE_ADDRESS`. -/
def heapTableAddress : Word := 0x00007E00

/-- Where the kernel's image is loaded: the `1M` of `linker.ld`. -/
def kernelLoadAddress : ℕ := 0x00100000

/-- `SECTOR_SIZE`. -/
abbrev sectorSize : ℕ := 512

/-- `OS_MAX_FILE_DESCRIPTORS`. -/
def osMaxFileDescriptors : ℕ := 512

/-- `OS_MAX_PATH`, and the `MAX_PATH` of `kernel.h`. -/
def osMaxPath : ℕ := 108

/-! ## `status.h` -/

/-- `ALL_OK`. -/
def allOk : ℤ := 0

/-- `IO_ERROR`. -/
def ioError : ℤ := 1

/-- `INVALID_ARGUMENT_ERROR`. -/
def invalidArgumentError : ℤ := 2

/-- `NO_MEMORY_ERROR`. -/
def noMemoryError : ℤ := 3

/-- `BAD_PATH_ERROR`. -/
def badPathError : ℤ := 4

/-- `FILE_SYSTEM_NOT_US_ERROR`. -/
def fileSystemNotUsError : ℤ := 5

/-- `READ_ONLY_ERROR`. -/
def readOnlyError : ℤ := 6

/-- `UNIMPLEMENTED_ERROR`. -/
def unimplementedError : ℤ := 7

/-- `INITIALIZE_SLOT_TAKEN`. -/
def initializeSlotTaken : ℤ := 8

/-- `INVALID_FORMAT_ERROR`. -/
def invalidFormatError : ℤ := 9

end OwnKernel
