import OwnKernel.Model.Task
import OwnKernel.Model.TaskReturn

/-!
# System calls (`idt/idt.asm`, `idt/idt.c`)

The listing of `isr80h_wrapper`, and of the two routines that
`isr80h_handler` sets the segment registers with. The handler itself is
compiled C: between its calls of the two it is any code that leaves the
segment registers alone, and as a whole it keeps to the C calling
convention.
-/

namespace OwnKernel

open X86

/-- `isr80h_wrapper`, with the handler at index `isr80hHandler` and the
result kept at `tmpRes`. -/
def isr80hWrapper (isr80hHandler : ℕ) (tmpRes : Word) : List Instr :=
  [.pushad,
    -- the interrupt frame, and the command
    .push .esp,
    .push .eax,
    .call isr80hHandler,
    .storeAbs tmpRes .eax,
    .addImm .esp 8,
    .popad,
    .loadAbs .eax tmpRes,
    .iretd]

/-- `kernel_registers`. -/
def kernelRegisters : List Instr :=
  [.movImm16 .eax 0x10, .movSeg .ds .eax, .movSeg .es .eax, .movSeg .gs .eax, .movSeg .fs .eax, .ret]

/-- `user_registers`. -/
def userRegisters : List Instr :=
  [.movImm16 .eax 0x23, .mov16 .edx .eax, .movSeg .es .eax, .movSeg .fs .eax, .movSeg .gs .eax, .ret]

/-- The routines that set segment registers. -/
inductive SegmentRoutine
  | kernelRegisters
  | userRegisters
  deriving DecidableEq

/-- Their listings. -/
def SegmentRoutine.listing : SegmentRoutine → List Instr
  | .kernelRegisters => OwnKernel.kernelRegisters
  | .userRegisters => OwnKernel.userRegisters

/-- **What compiled code leaves alone**: the segment registers. -/
structure Compiled (m m' : Machine) : Prop where
  seg : m'.seg = m.seg
  dpl : m'.dpl = m.dpl
  cs : m'.cs = m.cs
  ss : m'.ss = m.ss

/-- **Compiled code that calls the routines**, in this order; `place`
says where they are. -/
inductive CallsRoutines (place : SegmentRoutine → Word) :
    List SegmentRoutine → Machine → Machine → Prop
  | compiled {m m' : Machine} : Compiled m m' → CallsRoutines place [] m m'
  | routine {r : SegmentRoutine} {rs : List SegmentRoutine} {m m₁ m₂ m' : Machine} :
      Compiled m m₁ → m₁.eip = place r → run (place r) r.listing r.listing.length m₁ = some m₂ →
      CallsRoutines place rs m₂ m' → CallsRoutines place (r :: rs) m m'

/-- The routines `isr80h_handler` calls: `kernel_page` the first,
`task_page` the last, and the command's function any between them. -/
def isr80hHandlerRoutines (command : List SegmentRoutine) : List SegmentRoutine :=
  [.kernelRegisters] ++ command ++ [.userRegisters]

/-- **A call of `isr80h_handler` that returns** `res`. The two arguments
are the callee's; the interrupt frame above them is only read. -/
structure Isr80hHandlerReturns (place : SegmentRoutine → Word) (command : List SegmentRoutine)
    (m m' : Machine) (res : Word) : Prop where
  calls : CallsRoutines place (isr80hHandlerRoutines command) m m'
  eip : m'.eip = m.top
  esp : m'.reg .esp = m.reg .esp + 4
  result : m'.reg .eax = res
  frame : ∀ x, InRange (m.reg .esp + 12) 52 x → m'.mem x = m.mem x

/-- **A user that has just executed `int 0x80`**: its data segment
registers are the user's, and `tmp_res` is not in the 64 bytes of the
kernel's stack that are used. -/
structure AtSyscall (user : Machine) (esp0 tmpRes : Word) : Prop where
  userMode : user.cs &&& 3 = 3
  segments : ∀ r, user.seg r = userDataSegment.setWidth 16
  gdt : user.dpl = gdtDpl
  apart : ∀ x, InRange tmpRes 4 x → ¬ InRange (esp0 - 64) 64 x

/-- The processor's way to `isr80h_wrapper` at `base`. -/
def syscall (user : Machine) (esp0 base : Word) : Machine :=
  user.interrupt kernelDataSelector esp0 kernelCodeSelector base

end OwnKernel
