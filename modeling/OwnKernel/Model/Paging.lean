import OwnKernel.Model.Store

/-!
# Paging (`memory/paging/paging.c`)

A chunk is a one-word object holding the address of a page directory,
whose 1024 entries hold the addresses of page tables. Directories and
tables are words of memory; only building and freeing a chunk touch the
heap. An entry carries an address in its high twenty bits and flags in
its low twelve.
-/

namespace OwnKernel

/-- `PAGING_ACCESS_FROM_ALL`. -/
def pagingAccessFromAll : Word := 0b00000100

/-- `PAGING_IS_WRITEABLE`. -/
def pagingIsWriteable : Word := 0b00000010

/-- `PAGING_IS_PRESENT`. -/
def pagingIsPresent : Word := 0b00000001

/-- `PAGING_TOTAL_ENTRIES_PER_TABLE`. -/
abbrev pagingTotalEntriesPerTable : ℕ := 1024

/-- The mask that keeps an entry's address. -/
def pagingAddressMask : Word := 0xFFFFF000

/-- The address of entry `i` of a directory or table. -/
def entryAddress (base : Word) (i : ℕ) : Word := base + BitVec.ofNat 32 (4 * i)

/-! ## Building and freeing a chunk -/

/-- The inner loop of `paging_new_4gb` at index `j`, with `n` entries
left to write. -/
def pagingFillTable (entry offset : Word) (flags : Byte) : ℕ → ℕ → Mem → Mem
  | 0, _, m => m
  | n + 1, j, m =>
    pagingFillTable entry offset flags n (j + 1)
      (m.store32 (entryAddress entry j)
        ((offset + BitVec.ofNat 32 (j * heapBlockSize)) ||| flags.setWidth 32))

/-- The outer loop at index `i`, with `n` tables left to build. -/
def pagingNew4gbLoop (directory : Word) (flags : Byte) : ℕ → ℕ → Word → StoreM PUnit
  | 0, _, _ => pure ⟨⟩
  | n + 1, i, offset => do
    let entry ← kernelZalloc 4096
    if entry = 0 then throw .badPointer
    else do
      modify fun s => { s with
        mem := pagingFillTable entry offset flags pagingTotalEntriesPerTable 0 s.mem }
      storeWord directory (4 * i) (entry ||| flags.setWidth 32 ||| pagingIsWriteable)
      pagingNew4gbLoop directory flags n (i + 1)
        (offset + BitVec.ofNat 32 (pagingTotalEntriesPerTable * heapBlockSize))

/-- `paging_new_4gb`. No allocation is checked before it is written
through. -/
def pagingNew4gb (flags : Byte) : StoreM Word := do
  let directory ← kernelZalloc 4096
  pagingNew4gbLoop directory flags pagingTotalEntriesPerTable 0 0
  let chunk4gb ← kernelZalloc 4
  storeWord chunk4gb 0 directory
  pure chunk4gb

/-- The loop of `paging_free_4gb` at index `i`, with `n` tables left. -/
def pagingFree4gbLoop (chunk : Word) : ℕ → ℕ → StoreM PUnit
  | 0, _ => pure ⟨⟩
  | n + 1, i => do
    let s ← get
    let entry := s.mem.load32 (entryAddress (s.mem.load32 chunk) i)
    kernelFree (entry &&& pagingAddressMask)
    pagingFree4gbLoop chunk n (i + 1)

/-- `paging_free_4gb`. -/
def pagingFree4gb (chunk : Word) : StoreM PUnit :=
  if chunk = 0 then throw .badPointer
  else do
    pagingFree4gbLoop chunk pagingTotalEntriesPerTable 0
    let s ← get
    kernelFree (s.mem.load32 chunk)
    kernelFree chunk

/-! ## Entries -/

/-- `paging_is_aligned`. -/
def pagingIsAligned (address : Word) : Prop := address.toNat % heapBlockSize = 0

instance : DecidablePred pagingIsAligned := fun _ => inferInstanceAs (Decidable (_ = _))

/-- `paging_get_indexes`: the result, the directory index and the table
index, which the callers set to 0 first. -/
def pagingGetIndexes (virtualAddress : Word) : ℤ × ℕ × ℕ :=
  if ¬ pagingIsAligned virtualAddress then (-invalidArgumentError, 0, 0)
  else
    (0, virtualAddress.toNat / (pagingTotalEntriesPerTable * heapBlockSize),
      virtualAddress.toNat % (pagingTotalEntriesPerTable * heapBlockSize) / heapBlockSize)

/-- `paging_align_to_lower_page`. -/
def pagingAlignToLowerPage (addr : Word) : Word := addr - addr % 4096

/-- `paging_align_address`. -/
def pagingAlignAddress (ptr : Word) : Word :=
  if ptr % 4096 ≠ 0 then ptr + 4096 - ptr % 4096 else ptr

/-- `paging_set_physical_address`: the result and the memory after. -/
def pagingSetPhysicalAddress (m : Mem) (directory virtualAddress val : Word) : ℤ × Mem :=
  if ¬ pagingIsAligned virtualAddress then (-invalidArgumentError, m)
  else
    let (res, directoryIndex, tableIndex) := pagingGetIndexes virtualAddress
    if res < 0 then (res, m)
    else
      let entry := m.load32 (entryAddress directory directoryIndex)
      let table := entry &&& pagingAddressMask
      (0, m.store32 (entryAddress table tableIndex) val)

/-- `paging_get`. -/
def pagingGet (m : Mem) (directory virtualAddress : Word) : Word :=
  let (_, directoryIndex, tableIndex) := pagingGetIndexes virtualAddress
  let entry := m.load32 (entryAddress directory directoryIndex)
  let table := entry &&& pagingAddressMask
  m.load32 (entryAddress table tableIndex)

/-- `paging_get_physical_address`. -/
def pagingGetPhysicalAddress (m : Mem) (directory virtualAddress : Word) : Word :=
  let virtualAddressNew := pagingAlignToLowerPage virtualAddress
  let difference := virtualAddress - virtualAddressNew
  (pagingGet m directory virtualAddressNew &&& pagingAddressMask) + difference

/-! ## Mapping -/

/-- `paging_map`. -/
def pagingMap (m : Mem) (chunk virtualAddress physicalAddress flags : Word) : ℤ × Mem :=
  if virtualAddress.toNat % heapBlockSize ≠ 0 ∨ physicalAddress.toNat % heapBlockSize ≠ 0 then
    (-invalidArgumentError, m)
  else pagingSetPhysicalAddress m (m.load32 chunk) virtualAddress (physicalAddress ||| flags)

/-- The loop of `paging_map_range`, with `n` pages left and `res` the
result so far. -/
def pagingMapRangeLoop (chunk flags : Word) : ℕ → ℤ → Word → Word → Mem → ℤ × Mem
  | 0, res, _, _, m => (res, m)
  | n + 1, _, virtualAddress, physicalAddress, m =>
    let r := pagingMap m chunk virtualAddress physicalAddress flags
    if r.1 < 0 then r
    else pagingMapRangeLoop chunk flags n r.1 (virtualAddress + 4096) (physicalAddress + 4096) r.2

/-- `paging_map_range`. -/
def pagingMapRange (m : Mem) (chunk virtualAddress physicalAddress : Word) (totalPages : ℕ)
    (flags : Word) : ℤ × Mem :=
  pagingMapRangeLoop chunk flags totalPages 0 virtualAddress physicalAddress m

/-- `paging_map_to`. -/
def pagingMapTo (m : Mem) (chunk virtualAddress physicalAddress physicalEndAddress flags : Word) :
    ℤ × Mem :=
  if virtualAddress.toNat % heapBlockSize ≠ 0 then (-invalidArgumentError, m)
  else if physicalAddress.toNat % heapBlockSize ≠ 0 then (-invalidArgumentError, m)
  else if physicalEndAddress.toNat % heapBlockSize ≠ 0 then (-invalidArgumentError, m)
  else if physicalEndAddress < physicalAddress then (-invalidArgumentError, m)
  else
    let totalBytes := physicalEndAddress - physicalAddress
    let totalPages := totalBytes.toNat / heapBlockSize
    pagingMapRange m chunk virtualAddress physicalAddress totalPages flags

end OwnKernel
