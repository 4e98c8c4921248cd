import OwnKernel.Model.Kernel
import OwnKernel.Model.Paging

/-!
# Tasks (`task/task.c`)

Creating, freeing and choosing tasks. A task starts with the whole
address space mapped to itself for reading, and enters at the address
its program's file names. The list is threaded through `next` and
`prev`, with its ends in `task_head` and `task_tail`.
-/

namespace OwnKernel

/-- `OS_PROGRAM_VIRTUAL_ADDRESS`. -/
def osProgramVirtualAddress : Word := 0x400000

/-- `OS_USER_PROGRAM_VIRTUAL_STACK_ADDRESS_START`. -/
def osUserProgramVirtualStackAddressStart : Word := 0x3FF000

/-- `OS_USER_PROGRAM_VIRTUAL_STACK_SIZE`. -/
def osUserProgramVirtualStackSize : Word := 1024 * 16

/-- `USER_DATA_SEGMENT`. -/
def userDataSegment : Word := 0x23

/-- `USER_CODE_SEGMENT`. -/
def userCodeSegment : Word := 0x1b

/-- `sizeof(struct task)`. -/
def sizeofTask : Word := 64

/-- The offset of `e_entry` in `struct elf_header`. -/
def elfEntryOffset : ℕ := 24

/-- `task_init`. The entry point is read from the file in memory. -/
def taskInit (task process : Word) : KernelM ℤ := do
  modify fun k => k.setTask task (some .zero)
  let pageDirectory ← onStore
    (pagingNew4gb (BitVec.setWidth 8 (pagingIsPresent ||| pagingAccessFromAll)))
  modifyTask task fun t => { t with pageDirectory := pageDirectory }
  if pageDirectory = 0 then pure (-ioError)
  else do
    modifyTask task fun t => { t with
      process := process
      registers := { t.registers with ip := osProgramVirtualAddress } }
    let p ← readProcess process
    if p.filetype = processFiletypeElf then do
      let file ← readElfFile p.ptr
      let entry ← onStore (loadWord file.elfMemory elfEntryOffset)
      modifyTask task fun t => { t with registers := { t.registers with ip := entry } }
      taskInitSegments task
    else taskInitSegments task
where
  /-- The end of `task_init`. -/
  taskInitSegments (task : Word) : KernelM ℤ := do
    modifyTask task fun t => { t with
      registers := { t.registers with
        ss := userDataSegment
        cs := userCodeSegment
        esp := osUserProgramVirtualStackAddressStart } }
    pure 0

/-- `task_get_next`. -/
def taskGetNext : KernelM Word := do
  let k ← get
  let t ← readTask k.currentTask
  if t.next = 0 then pure k.taskHead else pure t.next

/-- `task_list_remove`. The next task's `prev` stays as it is. -/
def taskListRemove (task : Word) : KernelM PUnit := do
  let t ← readTask task
  (if t.prev = 0 then pure ⟨⟩ else modifyTask t.prev fun u => { u with next := t.next })
  modify fun k => { k with taskHead := if task = k.taskHead then t.next else k.taskHead }
  modify fun k => { k with taskTail := if task = k.taskTail then t.prev else k.taskTail }
  let k ← get
  if task = k.currentTask then do
    let next ← taskGetNext
    modify fun k => { k with currentTask := next }
  else pure ⟨⟩

/-- `task_free`. -/
def taskFree (task : Word) : KernelM PUnit := do
  let t ← readTask task
  onStore (pagingFree4gb t.pageDirectory)
  taskListRemove task
  onStore (kernelFree task)
  modify fun k => k.setTask task none

/-- The end of `task_new`: on an error the task is freed. -/
def taskNewOut (task : Word) (res : ℤ) : KernelM Word :=
  if res < 0 then do
    taskFree task
    pure (errorPointer res)
  else pure task

/-- `task_new`. -/
def taskNew (process : Word) : KernelM Word := do
  let task ← onStore (kernelZalloc sizeofTask)
  if task = 0 then taskNewOut task (-noMemoryError)
  else do
    let res ← taskInit task process
    if res ≠ allOk then taskNewOut task res
    else do
      let k ← get
      if k.taskHead = 0 then do
        set { k with taskHead := task, taskTail := task, currentTask := task }
        taskNewOut task res
      else do
        modifyTask k.taskTail fun t => { t with next := task }
        modifyTask task fun t => { t with prev := k.taskTail }
        modify fun k => { k with taskTail := task }
        taskNewOut task res

/-- `task_switch`, without the load of the page directory. -/
def taskSwitch (task : Word) : KernelM ℤ := do
  modify fun k => { k with currentTask := task }
  pure 0

/-- `task_virtual_address_to_physical`. -/
def taskVirtualAddressToPhysical (task virtualAddress : Word) : KernelM Word := do
  let t ← readTask task
  let k ← get
  pure (pagingGetPhysicalAddress k.store.mem (k.store.mem.load32 t.pageDirectory) virtualAddress)

/-! ## Saving the user's state -/

/-- `task_save_state`. -/
def taskSaveState (task : Word) (frame : InterruptFrame) : KernelM PUnit :=
  modifyTask task fun t => { t with
    registers := {
      ip := frame.ip
      cs := frame.cs
      flags := frame.flags
      esp := frame.esp
      ss := frame.ss
      eax := frame.eax
      ebp := frame.ebp
      ebx := frame.ebx
      ecx := frame.ecx
      edi := frame.edi
      edx := frame.edx
      esi := frame.esi } }

/-- `task_current_save_state`. -/
def taskCurrentSaveState (frame : InterruptFrame) : KernelM PUnit := do
  let k ← get
  if k.currentTask = 0 then throw .panic
  else taskSaveState k.currentTask frame

end OwnKernel
