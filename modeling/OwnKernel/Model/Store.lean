import OwnKernel.Lib.ByteMemory
import OwnKernel.Lib.Fallible
import OwnKernel.Model.Heap

/-!
# The kernel heap and memory (`memory/heap/kernelHeap.c`)

`Store` is what the memory layer works on: the kernel heap's table and
the bytes of memory. A program over it is a `StoreM`. It stops with a
`Fault` where the C program makes a memory error, after which nothing
can be said of it: a null, dangling or error-coded pointer dereferenced,
a write outside the object written, or a panic.
-/

namespace OwnKernel

/-- A memory error, or a panic. -/
inductive Fault
  /-- A pointer to no live object is dereferenced. -/
  | badPointer
  /-- A write goes past the object it is aimed at. -/
  | outOfBounds
  /-- `panic` is called. -/
  | panic
  /-- A division by zero. -/
  | divideError
  /-- A loop that does not come to an end. -/
  | diverges
  deriving DecidableEq

/-- The kernel heap and memory. -/
structure Store where
  heap : Heap
  mem : Mem

/-- A program of the memory layer. -/
abbrev StoreM := Fallible Store Fault

/-- `kernel_malloc`, up to the table's end: it stops where
`heap_mark_blocks_taken` writes behind the last entry. The source goes on
there, as `kernelZallocPast` does. -/
def kernelMalloc (size : Word) : StoreM Word := do
  let s ← get
  let r := heapMalloc s.heap size
  if ∃ w ∈ r.2, s.heap.total ≤ w.1 then throw .outOfBounds
  else do
    set { s with heap := s.heap.write r.2 }
    pure r.1

/-- `kernel_zalloc`, up to the table's end. A size within a page of
`2 ^ 32` wraps to no blocks at all, and clearing it is a memory error. -/
def kernelZalloc (size : Word) : StoreM Word := do
  let ptr ← kernelMalloc size
  if ptr = 0 then pure ptr
  else if heapBlockSize * (heapTotalBlocks size).toNat < size.toNat then throw .outOfBounds
  else do
    modify fun s => { s with mem := s.mem.fill ptr size.toNat 0 }
    pure ptr

/-- The address of entry `i` of `kernel_heap_table`. -/
def heapTableEntryAddress (i : ℕ) : Word := heapTableAddress + BitVec.ofNat 32 i

/-- The memory behind a table of `total` entries, after a sequence of
table writes. -/
def Mem.writeBehind (m : Mem) (total : ℕ) (ws : List TableWrite) : Mem :=
  ws.foldl (fun m w => if total ≤ w.1 then Function.update m (heapTableEntryAddress w.1) w.2 else m) m

/-- `kernel_zalloc`, past the table's end too: what is marked behind the
table is written to memory, and the pointer is returned all the same.
Only a write over the kernel's image, which starts at
`kernelLoadAddress`, is an error. -/
def kernelZallocPast (size : Word) : StoreM Word := do
  let s ← get
  let r := heapMalloc s.heap size
  if ∀ w ∈ r.2, w.1 < s.heap.total then kernelZalloc size
  else if (∃ w ∈ r.2, kernelLoadAddress ≤ heapTableAddress.toNat + w.1) ∨
      2 ^ 32 < r.1.toNat + size.toNat then throw .outOfBounds
  else do
    set { heap := s.heap.write r.2
          mem := (s.mem.writeBehind s.heap.total r.2).fill r.1 size.toNat 0 : Store }
    pure r.1

/-- `kernel_free`. -/
def kernelFree (ptr : Word) : StoreM PUnit :=
  modify fun s => { s with heap := s.heap.write (heapFree s.heap ptr) }

/-- A store through the pointer `ptr`, `offset` bytes on. -/
def storeWord (ptr : Word) (offset : ℕ) (val : Word) : StoreM PUnit :=
  if ptr = 0 then throw .badPointer
  else modify fun s => { s with mem := s.mem.store32 (ptr + BitVec.ofNat 32 offset) val }

/-- A read through the pointer `ptr`, `offset` bytes on. -/
def loadWord (ptr : Word) (offset : ℕ) : StoreM Word :=
  if ptr = 0 then throw .badPointer
  else do
    let s ← get
    pure (s.mem.load32 (ptr + BitVec.ofNat 32 offset))

end OwnKernel
