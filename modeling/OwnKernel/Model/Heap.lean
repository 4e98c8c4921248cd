import OwnKernel.Model.Config
import Mathlib.Logic.Function.Basic

/-!
# The block heap (`memory/heap/heap.c`)

A heap is a table of one-byte entries and the address of its first
block. The source keeps the table in raw memory: `entries` is that
memory from the table's first byte on, so it goes on past the table's
`total` entries and a write there is a write all the same. A call is
modelled by the list of table writes it makes, in order (`TableWrite`);
`Heap.write` carries them out.
-/

namespace OwnKernel

/-- `HEAP_BLOCK_TABLE_ENTRY_TAKEN`. -/
def heapBlockTableEntryTaken : Byte := 0x01

/-- `HEAP_BLOCK_TABLE_ENTRY_FREE`. -/
def heapBlockTableEntryFree : Byte := 0x00

/-- `HEAP_BLOCK_HAS_NEXT`. -/
def heapBlockHasNext : Byte := 0b10000000

/-- `HEAP_BLOCK_IS_FIRST`. -/
def heapBlockIsFirst : Byte := 0b01000000

/-- `struct heap` with its `struct heap_table`. -/
structure Heap where
  /-- The memory at `table->entries`, by index. -/
  entries : ℕ → Byte
  /-- `table->total`. -/
  total : ℕ
  /-- `start_address`. -/
  startAddress : Word

/-- `struct heap_table`, by itself. -/
structure HeapTable where
  entries : ℕ → Byte
  total : ℕ

/-- One store `table->entries[index] = entry`. -/
abbrev TableWrite := ℕ × Byte

/-- The heap after a sequence of table writes. -/
def Heap.write (h : Heap) (ws : List TableWrite) : Heap :=
  { h with entries := ws.foldl (fun e w => Function.update e w.1 w.2) h.entries }

/-- Conversion to `bool`, and back to an `int`. -/
def boolInt (x : ℤ) : ℤ := if x = 0 then 0 else 1

/-- `heap_validate_table`. The function is declared `bool`, so the error
code it returns is converted. -/
def heapValidateTable (ptr end' : Word) (table : HeapTable) : ℤ :=
  let tableSize := (end' - ptr).toNat
  let totalBlocks := tableSize / heapBlockSize
  if table.total ≠ totalBlocks then boolInt (-invalidArgumentError) else boolInt 0

/-- `heap_validate_alignment`. -/
def heapValidateAlignment (ptr : Word) : Prop := ptr.toNat % heapBlockSize = 0

instance : DecidablePred heapValidateAlignment := fun _ => inferInstanceAs (Decidable (_ = _))

/-- `heap_create`: the result, and the heap and the table after it. The
heap refers to the table from the first check on. -/
def heapCreate (heap : Heap) (ptr end' : Word) (table : HeapTable) : ℤ × Heap × HeapTable :=
  if ¬ heapValidateAlignment ptr ∨ ¬ heapValidateAlignment end' then
    (-invalidArgumentError, heap, table)
  else
    let res := heapValidateTable ptr end' table
    if res < 0 then (res, ⟨table.entries, table.total, ptr⟩, table)
    else
      let table := { table with
        entries := fun i => if i < table.total then heapBlockTableEntryFree else table.entries i }
      (res, ⟨table.entries, table.total, ptr⟩, table)

/-- `heap_align_value_to_upper`. -/
def heapAlignValueToUpper (val : Word) : Word :=
  if val % 4096 = 0 then val else val - val % 4096 + 4096

/-- `heap_get_entry_type`. -/
def heapGetEntryType (entry : Byte) : Byte := entry &&& 0x0f

/-- The loop of `heap_get_start_block` at index `i`, with `n` entries
left: it carries `block_start` and `block_current`. -/
def heapGetStartBlockLoop (h : Heap) (totalBlocks : Word) : ℕ → ℕ → ℤ → ℤ → ℤ
  | 0, _, blockStart, _ => blockStart
  | n + 1, i, blockStart, blockCurrent =>
    if heapGetEntryType (h.entries i) ≠ heapBlockTableEntryFree then
      heapGetStartBlockLoop h totalBlocks n (i + 1) (-1) 0
    else
      let blockStart := if blockStart = -1 then int32 i else blockStart
      let blockCurrent := int32 (blockCurrent + 1)
      -- the comparison of an `int` with a `uint32_t` is unsigned
      if uint32 blockCurrent = totalBlocks.toNat then blockStart
      else heapGetStartBlockLoop h totalBlocks n (i + 1) blockStart blockCurrent

/-- `heap_get_start_block`. -/
def heapGetStartBlock (h : Heap) (totalBlocks : Word) : ℤ :=
  let blockStart := heapGetStartBlockLoop h totalBlocks h.total 0 (-1) 0
  if blockStart = -1 then -noMemoryError else blockStart

/-- `heap_block_to_address`. -/
def heapBlockToAddress (h : Heap) (block : ℤ) : Word :=
  h.startAddress + BitVec.ofInt 32 (block * heapBlockSize)

/-- The loop of `heap_mark_blocks_taken` at index `i`, with `n` rounds
left and `entry` the value to store next. -/
def heapMarkBlocksTakenLoop (endBlock : ℤ) : ℕ → ℤ → Byte → List TableWrite
  | 0, _, _ => []
  | n + 1, i, entry =>
    let next := if i ≠ endBlock - 1 then heapBlockTableEntryTaken ||| heapBlockHasNext
      else heapBlockTableEntryTaken
    (i.toNat, entry) :: heapMarkBlocksTakenLoop endBlock n (i + 1) next

/-- `heap_mark_blocks_taken`. -/
def heapMarkBlocksTaken (startBlock : ℤ) (totalBlocks : Word) : List TableWrite :=
  let endBlock := int32 (startBlock + totalBlocks.toNat - 1)
  let entry := heapBlockTableEntryTaken ||| heapBlockIsFirst
  let entry := if 1 < totalBlocks.toNat then entry ||| heapBlockHasNext else entry
  heapMarkBlocksTakenLoop endBlock (endBlock + 1 - startBlock).toNat startBlock entry

/-- `heap_malloc_blocks`: the address returned and the table writes. -/
def heapMallocBlocks (h : Heap) (totalBlocks : Word) : Word × List TableWrite :=
  let startBlock := heapGetStartBlock h totalBlocks
  if startBlock < 0 then (0, [])
  else (heapBlockToAddress h startBlock, heapMarkBlocksTaken startBlock totalBlocks)

/-- `heap_address_to_block`. -/
def heapAddressToBlock (h : Heap) (address : Word) : ℤ :=
  (address - h.startAddress).toInt.tdiv heapBlockSize

/-- The loop of `heap_mark_blocks_free` at index `i`, with `n` entries
left in the table. -/
def heapMarkBlocksFreeLoop (h : Heap) : ℕ → ℕ → List TableWrite
  | 0, _ => []
  | n + 1, i =>
    (i, heapBlockTableEntryFree) ::
      if h.entries i &&& heapBlockHasNext = 0 then []
      else heapMarkBlocksFreeLoop h n (i + 1)

/-- `heap_mark_blocks_free`. The index is a `size_t`, so a negative
block starts past any table. -/
def heapMarkBlocksFree (h : Heap) (startingBlock : ℤ) : List TableWrite :=
  heapMarkBlocksFreeLoop h (h.total - uint32 startingBlock) (uint32 startingBlock)

/-- The number of blocks `heap_malloc` asks for. -/
def heapTotalBlocks (size : Word) : Word := heapAlignValueToUpper size / 4096

/-- `heap_malloc`. -/
def heapMalloc (h : Heap) (size : Word) : Word × List TableWrite :=
  heapMallocBlocks h (heapTotalBlocks size)

/-- `heap_free`. -/
def heapFree (h : Heap) (ptr : Word) : List TableWrite :=
  heapMarkBlocksFree h (heapAddressToBlock h ptr)

/-- `kernel_heap` as `kernel_heap_init` leaves it. -/
def kernelHeapInit : Heap where
  entries _ := heapBlockTableEntryFree
  total := heapSizeBytes / heapBlockSize
  startAddress := heapAddress

end OwnKernel
