import OwnKernel.Model.ElfLoader
import OwnKernel.Model.Task

/-!
# Processes (`task/process.c`)

Loading a program into a slot of the process table, the memory a process
asks for, and its end. A process keeps its blocks in `allocations[]` and
has them mapped at their own addresses.
-/

namespace OwnKernel

/-- `sizeof(struct process)`. -/
def sizeofProcess : Word := 9364

/-- `OS_USER_PROGRAM_VIRTUAL_STACK_ADDRESS_END`. -/
def osUserProgramVirtualStackAddressEnd : Word :=
  osUserProgramVirtualStackAddressStart - osUserProgramVirtualStackSize

/-- `process_get`. -/
def Kernel.processGet (k : Kernel) (processId : ℤ) : Word :=
  if processId < 0 ∨ (osMaxProcesses : ℤ) ≤ processId then 0 else k.processTable processId.toNat

/-- `process_switch`. -/
def processSwitch (process : Word) : KernelM ℤ := do
  modify fun k => { k with currentProcess := process }
  pure 0

/-! ## Loading the program -/

/-- `process_load_binary`. -/
def processLoadBinary (image : Sectors) (filename : Cstring) (process : Word) : KernelM ℤ := do
  let fd ← onFs (fopen image filename [0x72])
  if fd = 0 then processLoadBinaryOut fd (-ioError)
  else do
    let r ← onFs (fstat fd ⟨0, 0⟩)
    if r.1 ≠ allOk then processLoadBinaryOut fd r.1
    else do
      let programDataPtr ← onStore (kernelZalloc r.2.filesize)
      if programDataPtr = 0 then processLoadBinaryOut fd (-noMemoryError)
      else do
        let n ← onFs (fread image programDataPtr r.2.filesize 1 fd)
        if n ≠ 1 then processLoadBinaryOut fd (-ioError)
        else do
          modifyProcess process fun p => { p with
            filetype := processFiletypeBinary
            ptr := programDataPtr
            size := r.2.filesize }
          processLoadBinaryOut fd r.1
where
  /-- The end of `process_load_binary`. -/
  processLoadBinaryOut (fd res : ℤ) : KernelM ℤ := do
    let _ ← onFs (fclose fd)
    pure res

/-- `process_load_elf`. -/
def processLoadElf (image : Sectors) (filename : Cstring) (process : Word) : KernelM ℤ := do
  let r ← elfLoad image filename
  if r.1 < 0 then pure r.1
  else do
    modifyProcess process fun p => { p with
      filetype := processFiletypeElf
      ptr := r.2 }
    pure r.1

/-- `process_load_data`. -/
def processLoadData (image : Sectors) (filename : Cstring) (process : Word) : KernelM ℤ := do
  let res ← processLoadElf image filename process
  if res = -invalidFormatError then processLoadBinary image filename process else pure res

/-! ## Mapping it -/

/-- `paging_map_to` in a task's directory. -/
def taskMapTo (task virtualAddress physicalAddress physicalEndAddress flags : Word) :
    KernelM ℤ := do
  let t ← readTask task
  if t.pageDirectory = 0 then throw .badPointer
  else do
    let k ← get
    let r := pagingMapTo k.store.mem t.pageDirectory virtualAddress physicalAddress
      physicalEndAddress flags
    set { k with store := { k.store with mem := r.2 } }
    pure r.1

/-- The flags of memory that a program may write. -/
def userWriteableFlags : Word := pagingIsPresent ||| pagingAccessFromAll ||| pagingIsWriteable

/-- `process_map_binary`. The result of the mapping is not looked at. -/
def processMapBinary (process : Word) : KernelM ℤ := do
  let p ← readProcess process
  let _ ← taskMapTo p.task osProgramVirtualAddress p.ptr (pagingAlignAddress (p.ptr + p.size))
    userWriteableFlags
  pure 0

/-- The flags a program header asks for. -/
def phdrPageFlags (mem : Mem) (phdr : Word) : Word :=
  let flags := pagingIsPresent ||| pagingAccessFromAll
  if mem.load32 (phdr + phdrFlagsOffset) &&& pfW = 0 then flags else flags ||| pagingIsWriteable

/-- The loop of `process_map_elf` at header `i`. `e_phnum` is read in each
round, and is below `2 ^ 16`. -/
def processMapElfLoop (p : Process) (file : ElfFile) (phdrs : Word) : ℕ → ℕ → ℤ → KernelM ℤ
  | 0, _, _ => throw .diverges
  | fuel + 1, i, res => do
    let k ← get
    if (k.store.mem.load16 (file.elfMemory + elfPhnumOffset)).toNat ≤ i then pure res
    else do
      let phdr := phdrs + BitVec.ofNat 32 i * sizeofElf32Phdr
      let physAddress := elfPhdrPhysAddress k.store.mem file phdr
      let res ← taskMapTo p.task
        (pagingAlignToLowerPage (k.store.mem.load32 (phdr + phdrVaddrOffset)))
        (pagingAlignToLowerPage physAddress)
        (pagingAlignAddress (physAddress + k.store.mem.load32 (phdr + phdrMemszOffset)))
        (phdrPageFlags k.store.mem phdr)
      if res < 0 then pure res else processMapElfLoop p file phdrs fuel (i + 1) res

/-- `process_map_elf`. -/
def processMapElf (process : Word) : KernelM ℤ := do
  let p ← readProcess process
  let file ← readElfFile p.ptr
  let k ← get
  let phdrs := ((elfPheader k.store.mem file.elfMemory).run []).1
  processMapElfLoop p file phdrs (2 ^ 16) 0 0

/-- `process_map_memory`. -/
def processMapMemory (process : Word) : KernelM ℤ := do
  let p ← readProcess process
  if p.filetype = processFiletypeElf then do
    let res ← processMapElf process
    if res < 0 then pure res else processMapStack process res
  else if p.filetype = processFiletypeBinary then do
    let res ← processMapBinary process
    if res < 0 then pure res else processMapStack process res
  else throw .panic
where
  /-- The end of `process_map_memory`. -/
  processMapStack (process : Word) (res : ℤ) : KernelM ℤ := do
    let p ← readProcess process
    let _ ← taskMapTo p.task osUserProgramVirtualStackAddressEnd p.stack
      (pagingAlignAddress (p.stack + osUserProgramVirtualStackSize)) userWriteableFlags
    pure res

/-! ## Loading a process -/

/-- The end of `process_load_for_slot`: an error frees the task. -/
def processLoadOut (process : Word) (res : ℤ) : KernelM (ℤ × Word) := do
  if res < 0 then do
    let p ← readProcess process
    (if p.task = 0 then pure ⟨⟩ else taskFree p.task)
    pure (res, 0)
  else pure (res, 0)

/-- `process_load_for_slot` from the creation of the task on. -/
def processLoadTask (process : Word) (processSlot : ℤ) : KernelM (ℤ × Word) := do
  let task ← taskNew process
  -- the test for an error asks for the value 0, which is then the result
  if task = 0 then processLoadOut process 0
  else do
    modifyProcess process fun p => { p with task := task }
    let res ← processMapMemory process
    if res < 0 then processLoadOut process res
    else if processSlot < 0 ∨ (osMaxProcesses : ℤ) ≤ processSlot then throw .outOfBounds
    else do
      modify fun k => { k with
        processTable := Function.update k.processTable processSlot.toNat process }
      pure (res, process)

/-- `process_load_for_slot`: the result, and the process. In a slot that
is taken `_process` is read before it is set. -/
def processLoadForSlot (image : Sectors) (filename : Cstring) (processSlot : ℤ) :
    KernelM (ℤ × Word) := do
  let k ← get
  if k.processGet processSlot ≠ 0 then throw .badPointer
  else do
    let process ← onStore (kernelZalloc sizeofProcess)
    if process = 0 then pure (-noMemoryError, 0)
    else do
      modify fun k => k.setProcess process (some .zero)
      let res ← processLoadData image filename process
      if res < 0 then processLoadOut process res
      else do
        let programStackPtr ← onStore (kernelZalloc osUserProgramVirtualStackSize)
        if programStackPtr = 0 then processLoadOut process (-noMemoryError)
        else do
          modifyProcess process fun p => { p with
            stack := programStackPtr
            id := processSlot.toNat % 2 ^ 16 }
          processLoadTask process processSlot

/-- `process_get_free_slot`. -/
def Kernel.processGetFreeSlot (k : Kernel) : ℤ :=
  match (List.range osMaxProcesses).find? fun i => k.processTable i = 0 with
  | some i => i
  | none => -initializeSlotTaken

/-- `process_load`. -/
def processLoad (image : Sectors) (filename : Cstring) : KernelM (ℤ × Word) := do
  let k ← get
  if k.processGetFreeSlot < 0 then pure (-noMemoryError, 0)
  else processLoadForSlot image filename k.processGetFreeSlot

/-- `process_load_switch`. -/
def processLoadSwitch (image : Sectors) (filename : Cstring) : KernelM (ℤ × Word) := do
  let r ← processLoad image filename
  if r.1 = 0 then do
    let _ ← processSwitch r.2
    pure r
  else pure r

/-! ## Allocations -/

/-- The first index below the table's end whose entry has this `ptr`. -/
def Process.findAllocation (p : Process) (ptr : Word) : Option ℕ :=
  (List.range osMaxProgramAllocations).find? fun i => (p.allocations i).ptr = ptr

/-- `process_find_free_allocation_index`. -/
def Process.findFreeAllocationIndex (p : Process) : Option ℕ := p.findAllocation 0

/-- `process_malloc`, on what `kernel_zalloc` is. -/
def processMallocOn (zalloc : Word → StoreM Word) (process size : Word) : KernelM Word := do
  let ptr ← onStore (zalloc size)
  if ptr = 0 then pure 0
  else do
    let p ← readProcess process
    match p.findFreeAllocationIndex with
    | none => processMallocErr ptr
    | some index => do
      let res ← taskMapTo p.task ptr ptr (pagingAlignAddress (ptr + size)) userWriteableFlags
      if res < 0 then processMallocErr ptr
      else do
        modifyProcess process fun p =>
          { p with allocations := Function.update p.allocations index ⟨ptr, size⟩ }
        pure ptr
where
  /-- The end of `process_malloc` on an error. -/
  processMallocErr (ptr : Word) : KernelM Word := do
    onStore (kernelFree ptr)
    pure 0

/-- `process_malloc`, up to the table's end. -/
abbrev processMalloc (process size : Word) : KernelM Word :=
  processMallocOn kernelZalloc process size

/-- `process_malloc`, past the table's end too. -/
abbrev processMallocPast (process size : Word) : KernelM Word :=
  processMallocOn kernelZallocPast process size

/-- `process_allocation_unmark`. -/
def Process.allocationUnmark (p : Process) (ptr : Word) : Process :=
  { p with allocations := fun i =>
      if i < osMaxProgramAllocations ∧ (p.allocations i).ptr = ptr then ⟨0, 0⟩
      else p.allocations i }

/-- `process_free`. -/
def processFree (process ptr : Word) : KernelM PUnit := do
  let p ← readProcess process
  -- `process_get_allocation_by_addr`
  match p.findAllocation ptr with
  | none => pure ⟨⟩
  | some i => do
    let allocation := p.allocations i
    let res ← taskMapTo p.task allocation.ptr allocation.ptr
      (pagingAlignAddress (allocation.ptr + allocation.size)) 0
    if res < 0 then pure ⟨⟩
    else do
      modifyProcess process fun p => p.allocationUnmark ptr
      onStore (kernelFree ptr)

/-! ## The end of a process -/

/-- The loop of `process_terminate_allocations` at index `i`. -/
def processTerminateAllocationsLoop (process : Word) : ℕ → ℕ → KernelM PUnit
  | 0, _ => pure ⟨⟩
  | n + 1, i => do
    let p ← readProcess process
    processFree process (p.allocations i).ptr
    processTerminateAllocationsLoop process n (i + 1)

/-- `process_terminate_allocations`. -/
def processTerminateAllocations (process : Word) : KernelM ℤ := do
  processTerminateAllocationsLoop process osMaxProgramAllocations 0
  pure 0

/-- `process_free_program_data`. -/
def processFreeProgramData (process : Word) : KernelM ℤ := do
  let p ← readProcess process
  if p.filetype = processFiletypeBinary then do
    onStore (kernelFree p.ptr)
    pure 0
  else if p.filetype = processFiletypeElf then do
    elfClose p.ptr
    pure 0
  else pure (-invalidArgumentError)

/-- `process_switch_to_any`. -/
def processSwitchToAny : KernelM PUnit := do
  let k ← get
  match (List.range osMaxProcesses).find? fun i => k.processTable i ≠ 0 with
  | some i => do
    let _ ← processSwitch (k.processTable i)
    pure ⟨⟩
  | none => throw .panic

/-- `process_unlink`. -/
def processUnlink (process : Word) : KernelM PUnit := do
  let p ← readProcess process
  if osMaxProcesses ≤ p.id then throw .outOfBounds
  else do
    modify fun k => { k with processTable := Function.update k.processTable p.id 0 }
    let k ← get
    if k.currentProcess = process then processSwitchToAny else pure ⟨⟩

/-- `process_terminate`. -/
def processTerminate (process : Word) : KernelM ℤ := do
  let res ← processTerminateAllocations process
  if res < 0 then pure res
  else do
    let res ← processFreeProgramData process
    if res < 0 then pure res
    else do
      let p ← readProcess process
      onStore (kernelFree p.stack)
      taskFree p.task
      processUnlink process
      pure res

end OwnKernel
