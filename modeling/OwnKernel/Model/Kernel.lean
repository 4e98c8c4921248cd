import OwnKernel.Model.FileState

/-!
# Kernel objects (`task.h`, `process.h`, `elfloader.h`)

The kernel keeps its structures in heap blocks and refers to them by
pointer. `Kernel` holds them by their address beside the bytes of
memory: `tasks p` is the `struct task` at `p` while one is live there. A
program over it is a `KernelM`; reading or writing a structure through a
pointer to no live one is a `Fault.badPointer`.
-/

namespace OwnKernel

/-- `struct registers`. -/
structure Registers where
  edi : Word
  esi : Word
  ebp : Word
  ebx : Word
  edx : Word
  ecx : Word
  eax : Word
  ip : Word
  cs : Word
  flags : Word
  esp : Word
  ss : Word
  deriving DecidableEq

/-- `struct interrupt_frame`, what the processor and `pushad` leave on the
kernel's stack. -/
structure InterruptFrame where
  edi : Word
  esi : Word
  ebp : Word
  reserved : Word
  ebx : Word
  edx : Word
  ecx : Word
  eax : Word
  ip : Word
  cs : Word
  flags : Word
  esp : Word
  ss : Word

/-- Cleared registers. -/
def Registers.zero : Registers := ⟨0, 0, 0, 0, 0, 0, 0, 0, 0, 0, 0, 0⟩

/-- `struct task`. -/
structure Task where
  pageDirectory : Word
  registers : Registers
  process : Word
  next : Word
  prev : Word

/-- A cleared `struct task`. -/
def Task.zero : Task := ⟨0, .zero, 0, 0, 0⟩

/-- `PROCESS_FILETYPE_ELF`. -/
def processFiletypeElf : ℕ := 0

/-- `PROCESS_FILETYPE_BINARY`. -/
def processFiletypeBinary : ℕ := 1

/-- `OS_MAX_PROGRAM_ALLOCATIONS`. -/
def osMaxProgramAllocations : ℕ := 1024

/-- `OS_MAX_PROCESSES`. -/
def osMaxProcesses : ℕ := 12

/-- `struct process_allocation`. -/
structure ProcessAllocation where
  ptr : Word
  size : Word

/-- `struct process_arguments`. -/
structure ProcessArguments where
  argc : ℤ
  argv : Word

/-- `OS_KEYBOARD_BUFFER_SIZE`. -/
def osKeyboardBufferSize : ℕ := 1024

/-- `struct keyboard_buffer`. `tail` and `head` are `int`s. -/
structure KeyboardBuffer where
  buffer : ℕ → Byte
  tail : Word
  head : Word

/-- `struct process`, without its name. `ptr` is the union of `ptr` and
`elf_file`. -/
structure Process where
  id : ℕ
  task : Word
  allocations : ℕ → ProcessAllocation
  filetype : ℕ
  ptr : Word
  stack : Word
  size : Word
  keyboard : KeyboardBuffer
  arguments : ProcessArguments

/-- A cleared `struct process`. -/
def Process.zero : Process :=
  ⟨0, 0, fun _ => ⟨0, 0⟩, 0, 0, 0, 0, ⟨fun _ => 0, 0, 0⟩, ⟨0, 0⟩⟩

/-- `struct elf_file`, without the two members nothing reads. -/
structure ElfFile where
  elfMemory : Word
  virtualBaseAddress : Word
  virtualEndAddress : Word
  physicalBaseAddress : Word
  physicalEndAddress : Word

/-- A cleared `struct elf_file`. -/
def ElfFile.zero : ElfFile := ⟨0, 0, 0, 0, 0⟩

/-- The kernel's memory, structures and globals. -/
structure Kernel where
  store : Store
  tasks : Word → Option Task
  processes : Word → Option Process
  elfFiles : Word → Option ElfFile
  /-- `task_head`. -/
  taskHead : Word
  /-- `task_tail`. -/
  taskTail : Word
  /-- `current_task`. -/
  currentTask : Word
  /-- `processes[]`. -/
  processTable : ℕ → Word
  /-- `current_process`. -/
  currentProcess : Word
  /-- The structures of the file layer. -/
  objects : Word → Option FsObject
  /-- `disk`. -/
  disk : Disk
  /-- `file_descriptors[]`. -/
  fileDescriptors : ℕ → Word

/-- A program of the kernel. -/
abbrev KernelM := Fallible Kernel Fault

/-- A program of the memory layer, run by the kernel. -/
def onStore {α : Type} (x : StoreM α) : KernelM α := fun k =>
  match x k.store with
  | .ok (a, s) => .ok (a, { k with store := s })
  | .error e => .error e

/-- The file layer's part of the kernel. -/
def Kernel.fsState (k : Kernel) : FsState := ⟨k.store, k.objects, k.disk, k.fileDescriptors⟩

/-- The kernel after a run of the file layer. -/
def Kernel.withFsState (k : Kernel) (s : FsState) : Kernel :=
  { k with
    store := s.store
    objects := s.objects
    disk := s.disk
    fileDescriptors := s.fileDescriptors }

/-- A program of the file layer, run by the kernel. -/
def onFs {α : Type} (x : FsM α) : KernelM α := fun k =>
  match x k.fsState with
  | .ok (a, s) => .ok (a, k.withFsState s)
  | .error e => .error e

/-- The structure a pointer refers to. -/
def deref {β : Type} (objects : Kernel → Word → Option β) (p : Word) : KernelM β :=
  if p = 0 then throw .badPointer
  else do
    let k ← get
    match objects k p with
    | some x => pure x
    | none => throw .badPointer

/-- `*task`. -/
def readTask (task : Word) : KernelM Task := deref Kernel.tasks task

/-- `*process`. -/
def readProcess (process : Word) : KernelM Process := deref Kernel.processes process

/-- `*elf_file`. -/
def readElfFile (elfFile : Word) : KernelM ElfFile := deref Kernel.elfFiles elfFile

/-- `*task = …`. -/
def Kernel.setTask (k : Kernel) (task : Word) (t : Option Task) : Kernel :=
  { k with tasks := Function.update k.tasks task t }

/-- `*process = …`. -/
def Kernel.setProcess (k : Kernel) (process : Word) (p : Option Process) : Kernel :=
  { k with processes := Function.update k.processes process p }

/-- `*elf_file = …`. -/
def Kernel.setElfFile (k : Kernel) (elfFile : Word) (f : Option ElfFile) : Kernel :=
  { k with elfFiles := Function.update k.elfFiles elfFile f }

/-- A change of some members of `*task`. -/
def modifyTask (task : Word) (f : Task → Task) : KernelM PUnit := do
  let t ← readTask task
  modify fun k => k.setTask task (some (f t))

/-- A change of some members of `*process`. -/
def modifyProcess (process : Word) (f : Process → Process) : KernelM PUnit := do
  let p ← readProcess process
  modify fun k => k.setProcess process (some (f p))

/-- A change of some members of `*elf_file`. -/
def modifyElfFile (elfFile : Word) (f : ElfFile → ElfFile) : KernelM PUnit := do
  let e ← readElfFile elfFile
  modify fun k => k.setElfFile elfFile (some (f e))

/-- `(void *)res`, a status code as a pointer. -/
def errorPointer (res : ℤ) : Word := BitVec.ofInt 32 res

end OwnKernel
