import OwnKernel.Model.Fat16Resolve
import OwnKernel.Model.Interrupts

/-!
# The start of the kernel (`kernel.c`)

`kernel_main` sets the heap up, takes the volume on, fills the tables of
interrupts and commands, and starts two programs. What it does to the
processor (the descriptor tables, the task segment, paging switched on) is
not part of the state.
-/

namespace OwnKernel

/-- Memory as the kernel finds it, its globals cleared. -/
def poweredOn (mem : Mem) : Os where
  kernel :=
    { store := ⟨⟨fun _ => 0, 0, 0⟩, mem⟩
      tasks := fun _ => none
      processes := fun _ => none
      elfFiles := fun _ => none
      taskHead := 0
      taskTail := 0
      currentTask := 0
      processTable := fun _ => 0
      currentProcess := 0
      objects := fun _ => none
      disk := ⟨none, none⟩
      fileDescriptors := fun _ => 0 }
  terminal := ⟨0, 0⟩
  video := []
  capslock := false
  isr80hCommands := fun _ => none
  interruptCallbacks := fun _ => none

/-- `kernel_heap_init`. -/
def kernelHeapInitialize : StoreM PUnit :=
  modify fun s => { s with heap := kernelHeapInit }

/-- `fs_init`. The filesystem it inserts is the one there is. -/
def fsInit : FsM PUnit :=
  modify fun s => { s with fileDescriptors := fun _ => 0 }

/-- `disk_search_and_init`, with `fs_resolve`. -/
def diskSearchAndInit (image : Sectors) : FsM PUnit := do
  modify fun s => { s with disk := ⟨none, none⟩ }
  let res ← fat16Resolve image
  modify fun s => { s with disk := { s.disk with
    filesystem := if res = 0 then some .fat16 else none } }

/-- `"0:/blank.elf"`. -/
def blankPath : Cstring :=
  [0x30, 0x3A, 0x2F, 0x62, 0x6C, 0x61, 0x6E, 0x6B, 0x2E, 0x65, 0x6C, 0x66]

/-- `"Testing!"`. -/
def testingText : List Byte := [0x54, 0x65, 0x73, 0x74, 0x69, 0x6E, 0x67, 0x21]

/-- `"Abc!"`. -/
def abcText : List Byte := [0x41, 0x62, 0x63, 0x21]

/-- `strcpy` of a literal to memory of the kernel's. -/
def storeString (ptr : Word) (text : List Byte) : StoreM PUnit :=
  modify fun s => { s with mem := s.mem.store ptr (text ++ [0]) }

/-- The one argument `kernel_main` gives to a program. -/
def injectArgument (fuel : ℕ) (process argument : Word) (text : List Byte) : KernelM ℤ := do
  onStore (storeString argument text)
  onStore (storeWord argument commandArgumentNextOffset 0)
  processInjectArguments fuel process argument

/-- A program that `kernel_main` starts, with its argument. -/
def startBlank (image : Sectors) (fuel : ℕ) (argument : Word) (text : List Byte) :
    KernelM PUnit := do
  let r ← processLoadSwitch image blankPath
  if r.1 ≠ allOk then throw .panic
  else do
    let _ ← injectArgument fuel r.2 argument text
    pure ⟨⟩

/-- `task_run_first_ever_task`. -/
def taskRunFirstEverTask : KernelM Word := do
  let k ← get
  if k.currentTask = 0 then throw .panic
  else do
    let _ ← taskSwitch k.taskHead
    pure k.taskHead

/-- `kernel_main` up to the programs. -/
def kernelMainInit (image : Sectors) : OsM PUnit := do
  onTerminal fun _ => terminalInitalize
  inKernel (onStore kernelHeapInitialize)
  inKernel (onFs fsInit)
  inKernel (onFs (diskSearchAndInit image))
  modify fun o => { o with interruptCallbacks := idtInit o.interruptCallbacks }
  let _kernelChunk ← inKernel (onStore (pagingNew4gb
    (BitVec.setWidth 8 (pagingIsWriteable ||| pagingIsPresent ||| pagingAccessFromAll))))
  let o ← get
  let commands ← inKernel (onArray (isr80hRegisterCommands o.isr80hCommands))
  modify fun o => { o with isr80hCommands := commands }
  classicKeyboardInit

/-- `kernel_main`. -/
def kernelMain (image : Sectors) (fuel : ℕ) (stack : KernelStack) : OsM Word := do
  kernelMainInit image
  inKernel (startBlank image fuel stack.argument testingText)
  inKernel (startBlank image fuel stack.argument abcText)
  inKernel taskRunFirstEverTask

end OwnKernel
