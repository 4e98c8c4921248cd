import OwnKernel.Model.Commands
import OwnKernel.Model.Keyboard
import OwnKernel.Model.Terminal

/-!
# The ways into the kernel (`isr80h/`, `idt/idt.c`, `keyboard/classic.c`)

A program asks for a command with interrupt 0x80; the other interrupts
are exceptions, the clock and the keyboard. Commands and interrupts are
looked up in tables that are filled at boot. `Os` is the kernel with what
these handlers use beside it: the terminal, the keyboard's caps lock and
the two tables.
-/

namespace OwnKernel

/-- `TOTAL_INTERRUPTS`. -/
def totalInterrupts : ℕ := 512

/-- `OS_MAX_ISR80H_COMMANDS`. -/
def osMaxIsr80hCommands : ℕ := 1024

/-- The functions `isr80h_register_commands` registers. -/
inductive Isr80hCommand
  | exit
  | print
  | getkey
  | putchar
  | malloc
  | free
  | processLoadStart
  | invokeSystemCommand
  | getProgramArguments
  deriving DecidableEq

/-- The functions registered for interrupts. -/
inductive InterruptCallback
  | exception
  | clock
  | keyboard
  deriving DecidableEq

/-- `isr80h_commands[]`. -/
abbrev Isr80hCommands := ℕ → Option Isr80hCommand

/-- `interrupt_callbacks[]`. -/
abbrev InterruptCallbacks := ℕ → Option InterruptCallback

/-- The kernel, and what its handlers use beside it. -/
structure Os where
  kernel : Kernel
  terminal : Terminal
  /-- The stores to video memory so far. -/
  video : List VideoWrite
  /-- `classic_keyboard.capslock_state`, as `KEYBOARD_CAPS_LOCK_ON`. -/
  capslock : Bool
  isr80hCommands : Isr80hCommands
  interruptCallbacks : InterruptCallbacks

/-- A program of the system. -/
abbrev OsM := Fallible Os Fault

/-- A program of the kernel, run by the system. -/
def inKernel {α : Type} (x : KernelM α) : OsM α := fun o =>
  match x o.kernel with
  | .ok (a, k) => .ok (a, { o with kernel := k })
  | .error e => .error e

/-- A call of the terminal. -/
def onTerminal (f : Terminal → Terminal × List VideoWrite) : OsM PUnit :=
  modify fun o => { o with
    terminal := (f o.terminal).1
    video := o.video ++ (f o.terminal).2 }

/-- The arrays on the kernel's stack, by where they are, and a path's by
what it holds at first. -/
structure KernelStack where
  /-- `buffer`, of command 1. -/
  buffer : Word
  /-- `filename`, of command 6. -/
  filename : Word
  /-- `argument`, of `kernel_main`. -/
  argument : Word
  path : CharArray

/-! ## Commands -/

/-- `task_next`. -/
def taskNext : KernelM Word := do
  let next ← taskGetNext
  if next = 0 then throw .panic
  else do
    let _ ← taskSwitch next
    pure next

/-- `isr80h_command0_exit`. -/
def isr80hCommand0Exit : KernelM CommandResult := do
  let k ← get
  let t ← readTask k.currentTask
  let _ ← processTerminate t.process
  let next ← taskNext
  pure (.switched next)

/-- The string at `str`, up to its terminator. -/
def readCstring (mem : Mem) (str : Word) (fuel : ℕ) : Except Fault (List Byte) := do
  let len ← strlenAt mem str fuel 0
  pure ((List.range (len - 1)).map fun i => mem (str + BitVec.ofNat 32 i))

/-- `isr80h_command1_print`. What `copy_string_from_task` returns is not
looked at. -/
def isr80hCommand1Print (fuel : ℕ) (buffer : Word) : OsM CommandResult := do
  let o ← get
  let userSpaceMassageBuffer ← inKernel (taskGetStackItem o.kernel.currentTask 0)
  let _ ← inKernel (copyStringFromTask o.kernel.currentTask userSpaceMassageBuffer buffer 1024)
  let o ← get
  let str ← inKernel (onArray (readCstring o.kernel.store.mem buffer fuel))
  onTerminal fun t => print t str
  pure (.returned 0)

/-- `isr80h_command2_getkey`. -/
def isr80hCommand2Getkey : KernelM CommandResult := do
  let c ← keyboardPop
  pure (.returned (c.signExtend 32))

/-- `isr80h_command3_putchar`. -/
def isr80hCommand3Putchar : OsM CommandResult := do
  let o ← get
  let item ← inKernel (taskGetStackItem o.kernel.currentTask 0)
  onTerminal fun t => terminalWritechar t (item.setWidth 8) 15
  pure (.returned 0)

/-- `isr80h_command4_malloc`. -/
def isr80hCommand4Malloc : KernelM CommandResult := do
  let k ← get
  let size ← taskGetStackItem k.currentTask 0
  let t ← readTask k.currentTask
  let ptr ← processMalloc t.process size
  pure (.returned ptr)

/-- `isr80h_command5_free`. -/
def isr80hCommand5Free : KernelM CommandResult := do
  let k ← get
  let ptrToFree ← taskGetStackItem k.currentTask 0
  let t ← readTask k.currentTask
  processFree t.process ptrToFree
  pure (.returned 0)

/-- The offset of `argv` in `struct process_arguments`. -/
def processArgumentsArgvOffset : ℕ := 4

/-- `process_get_arguments`, into the members of `*arguments`. -/
def processGetArguments (process arguments : Word) : KernelM PUnit := do
  let p ← readProcess process
  onStore (storeWord arguments 0 (BitVec.ofInt 32 p.arguments.argc))
  onStore (storeWord arguments processArgumentsArgvOffset p.arguments.argv)

/-- `isr80h_command8_get_program_arguments`. -/
def isr80hCommand8GetProgramArguments : KernelM CommandResult := do
  let k ← get
  let t ← readTask k.currentTask
  let item ← taskGetStackItem k.currentTask 0
  let arguments ← taskVirtualAddressToPhysical k.currentTask item
  processGetArguments t.process arguments
  pure (.returned 0)

/-- A registered command. -/
def Isr80hCommand.run (image : Sectors) (fuel : ℕ) (stack : KernelStack) :
    Isr80hCommand → OsM CommandResult
  | .exit => inKernel isr80hCommand0Exit
  | .print => isr80hCommand1Print fuel stack.buffer
  | .getkey => inKernel isr80hCommand2Getkey
  | .putchar => isr80hCommand3Putchar
  | .malloc => inKernel isr80hCommand4Malloc
  | .free => inKernel isr80hCommand5Free
  | .processLoadStart => inKernel (isr80hCommand6ProcessLoadStart image stack.filename stack.path)
  | .invokeSystemCommand => inKernel (isr80hCommand7InvokeSystemCommand image fuel stack.path)
  | .getProgramArguments => inKernel isr80hCommand8GetProgramArguments

/-- `isr80h_register_command`. -/
def isr80hRegisterCommand (command : ℤ) (commandFunc : Isr80hCommand) (commands : Isr80hCommands) :
    Except Fault Isr80hCommands :=
  if command < 0 ∨ (osMaxIsr80hCommands : ℤ) ≤ command then .error .panic
  else if commands command.toNat ≠ none then .error .panic
  else .ok (Function.update commands command.toNat (some commandFunc))

/-- `isr80h_register_commands`. -/
def isr80hRegisterCommands (commands : Isr80hCommands) : Except Fault Isr80hCommands := do
  let commands ← isr80hRegisterCommand 0 .exit commands
  let commands ← isr80hRegisterCommand 1 .print commands
  let commands ← isr80hRegisterCommand 2 .getkey commands
  let commands ← isr80hRegisterCommand 3 .putchar commands
  let commands ← isr80hRegisterCommand 4 .malloc commands
  let commands ← isr80hRegisterCommand 5 .free commands
  let commands ← isr80hRegisterCommand 6 .processLoadStart commands
  let commands ← isr80hRegisterCommand 7 .invokeSystemCommand commands
  isr80hRegisterCommand 8 .getProgramArguments commands

/-- `isr80h_handle_command`. -/
def isr80hHandleCommand (image : Sectors) (fuel : ℕ) (stack : KernelStack) (command : ℤ) :
    OsM CommandResult := do
  if command < 0 ∨ (osMaxIsr80hCommands : ℤ) ≤ command then pure (.returned 0)
  else do
    let o ← get
    match o.isr80hCommands command.toNat with
    | none => pure (.returned 0)
    | some commandFunc => commandFunc.run image fuel stack

/-- `task_page`, without the loads of registers. -/
def taskPage : KernelM PUnit := do
  let k ← get
  let _ ← taskSwitch k.currentTask
  pure ⟨⟩

/-- `isr80h_handler`. A command that leaves to another task does not come
back. -/
def isr80hHandler (image : Sectors) (fuel : ℕ) (stack : KernelStack) (command : ℤ)
    (frame : InterruptFrame) : OsM CommandResult := do
  inKernel (taskCurrentSaveState frame)
  let res ← isr80hHandleCommand image fuel stack command
  match res with
  | .switched task => pure (.switched task)
  | .returned val => do
    inKernel taskPage
    pure (.returned val)

/-! ## The keyboard -/

/-- `keyboard_scan_set_one`. -/
def keyboardScanSetOne : List Byte :=
  [0x00, 0x1B, 0x31, 0x32, 0x33, 0x34, 0x35, 0x36, 0x37, 0x38, 0x39, 0x30,
    0x2D, 0x3D, 0x08, 0x09, 0x51, 0x57, 0x45, 0x52, 0x54, 0x59, 0x55, 0x49,
    0x4F, 0x50, 0x5B, 0x5D, 0x0D, 0x00, 0x41, 0x53, 0x44, 0x46, 0x47, 0x48,
    0x4A, 0x4B, 0x4C, 0x3B, 0x27, 0x60, 0x00, 0x5C, 0x5A, 0x58, 0x43, 0x56,
    0x42, 0x4E, 0x4D, 0x2C, 0x2E, 0x2F, 0x00, 0x2A, 0x00, 0x20, 0x00, 0x00,
    0x00, 0x00, 0x00, 0x00, 0x00, 0x00, 0x00, 0x00, 0x00, 0x37, 0x38, 0x39,
    0x2D, 0x34, 0x35, 0x36, 0x2B, 0x31, 0x32, 0x33, 0x30, 0x2E]

/-- `CLASSIC_KEYBOARD_CAPSLOCK`. -/
def classicKeyboardCapslock : Byte := 0x3A

/-- `CLASSIC_KEYBOARD_KEY_RELEASED`. -/
def classicKeyboardKeyReleased : Byte := 0x80

/-- `classic_keyboard_scancode_to_char`. An index at the table's length is
let through. -/
def classicKeyboardScancodeToChar (capslock : Bool) (scancode : Byte) : Except Fault Byte :=
  if keyboardScanSetOne.length < scancode.toNat then .ok 0
  else
    match keyboardScanSetOne[scancode.toNat]? with
    | none => .error .outOfBounds
    | some c =>
      if 0x41 ≤ c.toInt ∧ c.toInt ≤ 0x5A ∧ capslock = false then .ok (c + 32) else .ok c

/-- `classic_keyboard_handle_interrupt`, the port giving `scancode`. -/
def classicKeyboardHandleInterrupt (scancode : Byte) : OsM PUnit :=
  if scancode &&& classicKeyboardKeyReleased ≠ 0 then pure ⟨⟩
  else do
    (if scancode = classicKeyboardCapslock then
      modify fun o => { o with capslock := !o.capslock }
    else pure ⟨⟩)
    let o ← get
    let c ← inKernel (onArray (classicKeyboardScancodeToChar o.capslock scancode))
    (if c ≠ 0 then inKernel (keyboardPush c) else pure ⟨⟩)
    inKernel taskPage

/-! ## Interrupts -/

/-- `idt_register_interrupt_callback`. -/
def idtRegisterInterruptCallback (interrupt : ℤ) (interruptCallback : InterruptCallback)
    (callbacks : InterruptCallbacks) : ℤ × InterruptCallbacks :=
  if interrupt < 0 ∨ (totalInterrupts : ℤ) ≤ interrupt then (-invalidArgumentError, callbacks)
  else (0, Function.update callbacks interrupt.toNat (some interruptCallback))

/-- The callbacks `idt_init` registers. -/
def idtInit (callbacks : InterruptCallbacks) : InterruptCallbacks :=
  let callbacks := (List.range 0x20).foldl
    (fun callbacks (i : ℕ) => (idtRegisterInterruptCallback i .exception callbacks).2) callbacks
  (idtRegisterInterruptCallback 0x20 .clock callbacks).2

/-- `ISR_KEYBOARD_INTERRUPT`. -/
def isrKeyboardInterrupt : ℤ := 0x21

/-- `classic_keyboard_init`, which `keyboard_init` calls. -/
def classicKeyboardInit : OsM PUnit :=
  modify fun o => { o with
    interruptCallbacks := (idtRegisterInterruptCallback isrKeyboardInterrupt .keyboard
      o.interruptCallbacks).2
    capslock := false }

/-- `idt_handle_exception`. -/
def idtHandleException : KernelM Word := do
  let k ← get
  let t ← readTask k.currentTask
  let _ ← processTerminate t.process
  taskNext

/-- `idt_clock`. -/
def idtClock : KernelM Word := taskNext

/-- A registered callback: the task that is left to, if any. -/
def InterruptCallback.run (scancode : Byte) : InterruptCallback → OsM (Option Word)
  | .exception => do
    let next ← inKernel idtHandleException
    pure (some next)
  | .clock => do
    let next ← inKernel idtClock
    pure (some next)
  | .keyboard => do
    classicKeyboardHandleInterrupt scancode
    pure none

/-- `interrupt_handler`. A callback that leaves to another task does not
come back. -/
def interruptHandler (scancode : Byte) (interrupt : ℕ) (frame : InterruptFrame) :
    OsM (Option Word) := do
  let o ← get
  match o.interruptCallbacks interrupt with
  | none => do
    inKernel taskPage
    pure none
  | some callback => do
    inKernel (taskCurrentSaveState frame)
    let left ← callback.run scancode
    match left with
    | some task => pure (some task)
    | none => do
      inKernel taskPage
      pure none

end OwnKernel
