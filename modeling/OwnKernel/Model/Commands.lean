import OwnKernel.Model.Arguments

/-!
# The commands that start a program (`isr80h/process.c`)

Commands 6 and 7 build the program's path in a `char` array of the
kernel's stack, load it, and leave to the new task: `task_return` does
not come back. What a command comes to is a `CommandResult`.
-/

namespace OwnKernel

/-! ## Arrays of the stack -/

/-- A `char` array. -/
abbrev CharArray := ℕ → Byte

/-- `array[i] = c`, in an array of `size` characters. An index outside is
a memory error. -/
def writeChar (size : ℕ) (array : CharArray) (i : ℕ) (c : Byte) : Except Fault CharArray :=
  if i < size then .ok (Function.update array i c) else .error .outOfBounds

/-- The loop of `strncpy` to `array + dest` at index `i`, with at most `n`
rounds left, and the terminator after it. -/
def copyCharsLoop (size dest : ℕ) (src : CharArray) : ℕ → ℕ → CharArray → Except Fault CharArray
  | 0, i, array => writeChar size array (dest + i) 0
  | n + 1, i, array =>
    if src i = 0 then writeChar size array (dest + i) 0
    else do
      let array ← writeChar size array (dest + i) (src i)
      copyCharsLoop size dest src n (i + 1) array

/-- `strncpy` to `array + dest`. -/
def strncpyArray (size : ℕ) (array : CharArray) (dest : ℕ) (src : CharArray) (count : ℕ) :
    Except Fault CharArray :=
  copyCharsLoop size dest src (count - 1) 0 array

/-- `strcpy` to `array + dest`. It has no count; after `size` rounds an
index is outside. -/
def strcpyArray (size : ℕ) (array : CharArray) (dest : ℕ) (src : CharArray) :
    Except Fault CharArray :=
  copyCharsLoop size dest src size 0 array

/-- `"0:/"`. -/
def driveRoot : CharArray := fun i => [0x30, 0x3A, 0x2F].getD i 0

/-- The path of command 6. -/
def loadStartPath (path filename : CharArray) : Except Fault CharArray := do
  let path ← strcpyArray osMaxPath path 0 driveRoot
  strcpyArray osMaxPath path 3 filename

/-- The path of command 7. -/
def invokeSystemCommandPath (path programName : CharArray) : Except Fault CharArray := do
  let path ← strcpyArray osMaxPath path 0 driveRoot
  strncpyArray osMaxPath path 3 programName osMaxPath

/-- The string in a path's array. -/
def pathString (path : CharArray) : Cstring :=
  ((List.range osMaxPath).map path).takeWhile (· ≠ 0)

/-! ## The caller's arguments -/

/-- A word through an address space, byte by byte. -/
def loadWordThrough (space : AddressSpace) (ptr : Word) : StoreM Word := do
  let b₀ ← loadByte space ptr
  let b₁ ← loadByte space (ptr + 1)
  let b₂ ← loadByte space (ptr + 2)
  let b₃ ← loadByte space (ptr + 3)
  pure (b₃ ++ b₂ ++ b₁ ++ b₀)

/-- `task_get_stack_item`, read with the processor on the task's
directory. -/
def taskGetStackItem (task : Word) (index : ℕ) : KernelM Word := do
  let t ← readTask task
  let directory ← onStore (loadWord t.pageDirectory 0)
  onStore (loadWordThrough (taskSpace directory) (t.registers.esp + BitVec.ofNat 32 (4 * index)))

/-- `strlen` of the string at `str`. The terminator is counted too; `fuel`
is the number of rounds it is given. -/
def strlenAt (mem : Mem) (str : Word) : ℕ → ℕ → Except Fault ℕ
  | 0, _ => .error .diverges
  | fuel + 1, len =>
    if mem (str + BitVec.ofNat 32 len) = 0 then .ok (len + 1) else strlenAt mem str fuel (len + 1)

/-! ## The commands -/

/-- What a command comes to: a value for the caller, or another task. -/
inductive CommandResult where
  | returned (res : Word)
  | switched (task : Word)
  deriving DecidableEq

/-- A part of a command that the kernel's memory has no part in. -/
def onArray {α : Type} (x : Except Fault α) : KernelM α := fun k =>
  match x with
  | .ok a => .ok (a, k)
  | .error e => .error e

/-- The end of both commands: `task_switch` and `task_return`. -/
def leaveToProcess (process : Word) : KernelM CommandResult := do
  let p ← readProcess process
  let _ ← taskSwitch p.task
  pure (.switched p.task)

/-- `isr80h_command6_process_load_start`, with its `filename` on the stack
at an address and its `path` as the stack leaves it. -/
def isr80hCommand6ProcessLoadStart (image : Sectors) (filename : Word) (path : CharArray) :
    KernelM CommandResult := do
  let k ← get
  let filenameUserPtr ← taskGetStackItem k.currentTask 0
  let res ← copyStringFromTask k.currentTask filenameUserPtr filename osMaxPath
  if res < 0 then pure (.returned 0)
  else do
    let k ← get
    let path ← onArray (loadStartPath path fun i => k.store.mem (filename + BitVec.ofNat 32 i))
    let r ← processLoadSwitch image (pathString path)
    if r.1 < 0 then pure (.returned 0) else leaveToProcess r.2

/-- `isr80h_command7_invoke_system_command`. -/
def isr80hCommand7InvokeSystemCommand (image : Sectors) (fuel : ℕ) (path : CharArray) :
    KernelM CommandResult := do
  let k ← get
  let item ← taskGetStackItem k.currentTask 0
  let arguments ← taskVirtualAddressToPhysical k.currentTask item
  if arguments = 0 then pure (.returned (errorPointer (-invalidArgumentError)))
  else do
    let k ← get
    let len ← onArray (strlenAt k.store.mem arguments fuel 0)
    if len = 0 then pure (.returned (errorPointer (-invalidArgumentError)))
    else do
      let path ← onArray
        (invokeSystemCommandPath path fun i => k.store.mem (arguments + BitVec.ofNat 32 i))
      let r ← processLoadSwitch image (pathString path)
      if r.1 < 0 then pure (.returned (errorPointer r.1))
      else do
        let res ← processInjectArguments fuel r.2 arguments
        if res < 0 then pure (.returned (errorPointer res)) else leaveToProcess r.2

end OwnKernel
