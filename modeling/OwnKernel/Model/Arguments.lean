import OwnKernel.Model.CopyString
import OwnKernel.Model.Process

/-!
# A program's arguments (`task/process.c`)

A list of arguments is nodes of 512 characters and a pointer to the next
one, in memory. `process_inject_arguments` counts the nodes, takes a
vector of pointers from the process's heap, and for each node takes a
block and copies the characters. The loops end at a null pointer; `fuel`
is the number of rounds they are given.
-/

namespace OwnKernel

/-- `sizeof(current->argument)`. -/
def sizeofArgument : ℕ := 512

/-- The offset of `next` in `struct command_argument`. -/
def commandArgumentNextOffset : ℕ := 512

/-- `sizeof(struct command_argument)`. -/
def sizeofCommandArgument : ℕ := 516

/-- The loop of `process_count_command_arguments`, at a count of `i`. -/
def processCountCommandArgumentsLoop : ℕ → Word → ℤ → KernelM ℤ
  | 0, _, _ => throw .diverges
  | fuel + 1, current, i =>
    if current = 0 then pure i
    else do
      let next ← onStore (loadWord current commandArgumentNextOffset)
      processCountCommandArgumentsLoop fuel next (int32 (i + 1))

/-- `process_count_command_arguments`. -/
def processCountCommandArguments (fuel : ℕ) (rootArgument : Word) : KernelM ℤ :=
  processCountCommandArgumentsLoop fuel rootArgument 0

/-- The loop of `process_inject_arguments` at index `i`: the result. -/
def processInjectArgumentsLoopOn (zalloc : Word → StoreM Word) (process argv : Word) :
    ℕ → Word → ℕ → KernelM ℤ
  | 0, _, _ => throw .diverges
  | fuel + 1, current, i =>
    if current = 0 then pure 0
    else do
      let argumentStr ← processMallocOn zalloc process (BitVec.ofNat 32 sizeofArgument)
      if argumentStr = 0 then pure (-noMemoryError)
      else do
        onStore (strncpy kernelSpace argumentStr current sizeofArgument)
        onStore (storeWord argv (4 * i) argumentStr)
        let next ← onStore (loadWord current commandArgumentNextOffset)
        processInjectArgumentsLoopOn zalloc process argv fuel next (i + 1)

/-- `process_inject_arguments`, on what `kernel_zalloc` is. -/
def processInjectArgumentsOn (zalloc : Word → StoreM Word) (fuel : ℕ)
    (process rootArgument : Word) : KernelM ℤ := do
  let argc ← processCountCommandArguments fuel rootArgument
  if argc = 0 then pure (-ioError)
  else do
    let argv ← processMallocOn zalloc process (BitVec.ofInt 32 (4 * argc))
    if argv = 0 then pure (-noMemoryError)
    else do
      let res ← processInjectArgumentsLoopOn zalloc process argv fuel rootArgument 0
      if res < 0 then pure res
      else do
        modifyProcess process fun p => { p with arguments := ⟨argc, argv⟩ }
        pure res

/-- The loop, up to the heap table's end. -/
abbrev processInjectArgumentsLoop (process argv : Word) : ℕ → Word → ℕ → KernelM ℤ :=
  processInjectArgumentsLoopOn kernelZalloc process argv

/-- `process_inject_arguments`, up to the heap table's end. -/
def processInjectArguments (fuel : ℕ) (process rootArgument : Word) : KernelM ℤ :=
  processInjectArgumentsOn kernelZalloc fuel process rootArgument

end OwnKernel
