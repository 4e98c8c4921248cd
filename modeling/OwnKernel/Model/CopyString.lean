import OwnKernel.Model.Task

/-!
# Copying a user's string (`task/task.c`, `string/string.c`)

`copy_string_from_task` has the processor on the task's page directory
while it reads the user's string, and on the kernel's while it writes the
copy. Bytes are read and written through an `AddressSpace`, the
translation the processor makes at that moment; the tables it walks are
themselves bytes of memory.
-/

namespace OwnKernel

/-- The address a virtual address is translated to, or none where the
processor faults. -/
abbrev AddressSpace := Mem → Word → Option Word

/-- `kernel_page`: the kernel's directory maps every address to itself. -/
def kernelSpace : AddressSpace := fun _ virtualAddress => some virtualAddress

/-- `paging_switch` to a directory. The kernel reads and writes what is
present, whatever the other flags say: `CR0.WP` is never set. -/
def taskSpace (directory : Word) : AddressSpace := fun m virtualAddress =>
  let page := pagingAlignToLowerPage virtualAddress
  let entry := m.load32 (entryAddress directory (pagingGetIndexes page).2.1)
  if entry &&& pagingIsPresent = 0 ∨ pagingGet m directory page &&& pagingIsPresent = 0 then none
  else some (pagingGetPhysicalAddress m directory virtualAddress)

/-- `*ptr`. -/
def loadByte (space : AddressSpace) (ptr : Word) : StoreM Byte := do
  let s ← get
  match space s.mem ptr with
  | some address => pure (s.mem address)
  | none => throw .badPointer

/-- `*ptr = val`. -/
def storeByte (space : AddressSpace) (ptr : Word) (val : Byte) : StoreM PUnit := do
  let s ← get
  match space s.mem ptr with
  | some address => set { s with mem := Function.update s.mem address val }
  | none => throw .badPointer

/-- The loop of `strncpy` at index `i`, with at most `n` rounds left, and
the terminator after it. -/
def strncpyLoop (space : AddressSpace) (dest src : Word) : ℕ → ℕ → StoreM PUnit
  | 0, i => storeByte space (dest + BitVec.ofNat 32 i) 0
  | n + 1, i => do
    let c ← loadByte space (src + BitVec.ofNat 32 i)
    if c = 0 then storeByte space (dest + BitVec.ofNat 32 i) 0
    else do
      storeByte space (dest + BitVec.ofNat 32 i) c
      strncpyLoop space dest src n (i + 1)

/-- `strncpy`, which copies up to `count - 1` bytes. -/
def strncpy (space : AddressSpace) (dest src : Word) (count : ℤ) : StoreM PUnit :=
  strncpyLoop space dest src (count - 1).toNat 0

/-- `copy_string_from_task`. -/
def copyStringFromTask (task virtualAddress physicalAddress : Word) (max : ℤ) : KernelM ℤ :=
  if heapBlockSize ≤ max then pure (-invalidArgumentError)
  else do
    let tmp ← onStore (kernelZalloc (BitVec.ofInt 32 max))
    if tmp = 0 then pure (-noMemoryError)
    else do
      let t ← readTask task
      onStore (copyStringThrough t.pageDirectory tmp)
where
  /-- From the task's directory on. -/
  copyStringThrough (pageDirectory tmp : Word) : StoreM ℤ := do
    let taskDirectory ← loadWord pageDirectory 0
    let s ← get
    let oldEntry := pagingGet s.mem taskDirectory tmp
    set { s with mem := (pagingMap s.mem pageDirectory tmp tmp
      (pagingIsWriteable ||| pagingIsPresent ||| pagingAccessFromAll)).2 }
    strncpy (taskSpace taskDirectory) tmp virtualAddress max
    let s ← get
    let (res, mem) := pagingSetPhysicalAddress s.mem taskDirectory tmp oldEntry
    set { s with mem := mem }
    if res < 0 then do
      kernelFree tmp
      pure (-ioError)
    else do
      strncpy kernelSpace physicalAddress tmp max
      kernelFree tmp
      pure res

end OwnKernel
