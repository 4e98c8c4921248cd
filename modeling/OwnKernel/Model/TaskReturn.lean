import OwnKernel.Lib.X86
import OwnKernel.Model.Kernel

/-!
# Returning to a task (`task/task.asm`)

The listing of `task_return` and `restore_general_purpose_registers`.
They read `struct registers` by numeric offsets, which `Registers.words`
ties to its members in the order of their declaration.
-/

namespace OwnKernel

open X86

/-- `KERNEL_CODE_SELECTOR`. -/
def kernelCodeSelector : BitVec 16 := 0x08

/-- `KERNEL_DATA_SELECTOR`. -/
def kernelDataSelector : BitVec 16 := 0x10

/-- The types of `gdt_structured`. -/
def gdtTypes : List Byte := [0x00, 0x9A, 0x92, 0xF8, 0xF2, 0xE9]

/-- The privilege level of a selector's segment, two bits of its type. -/
def gdtDpl (selector : BitVec 16) : BitVec 16 :=
  ((gdtTypes.getD (selector.toNat / 8) 0 >>> 5) &&& 3).setWidth 16

/-- The index of `restore_general_purpose_registers` in the listing. -/
abbrev restoreGeneralPurposeRegisters : ℕ := 19

/-- `task_return`. -/
def taskReturn : List Instr :=
  [.mov .ebp .esp,
    .load .ebx .ebp 4,
    -- the stack selector and the stack pointer
    .pushMem .ebx 44,
    .pushMem .ebx 40,
    -- the flags
    .pushf,
    .pop .eax,
    .orImm .eax 0x200,
    .push .eax,
    -- the code segment and the address to execute
    .pushMem .ebx 32,
    .pushMem .ebx 28,
    .load16 .eax .ebx 44,
    .movSeg .ds .eax,
    .movSeg .es .eax,
    .movSeg .fs .eax,
    .movSeg .gs .eax,
    .pushMem .ebp 4,
    .call restoreGeneralPurposeRegisters,
    .addImm .esp 4,
    .iretd]

/-- `restore_general_purpose_registers`. -/
def restoreRegisters : List Instr :=
  [.push .ebp,
    .mov .ebp .esp,
    .load .ebx .ebp 8,
    .load .edi .ebx 0,
    .load .esi .ebx 4,
    .load .ebp .ebx 8,
    .load .edx .ebx 16,
    .load .ecx .ebx 20,
    .load .eax .ebx 24,
    .load .ebx .ebx 12,
    .pop .ebp,
    .ret]

/-- The listing of `task.asm`. -/
def taskAsm : List Instr := taskReturn ++ restoreRegisters

/-- The words of `struct registers`, in the order of their declaration. -/
def Registers.words (r : Registers) : List Word :=
  [r.edi, r.esi, r.ebp, r.ebx, r.edx, r.ecx, r.eax, r.ip, r.cs, r.flags, r.esp, r.ss]

/-- `struct registers` in memory. -/
def RegistersAt (m : Mem) (regs : Word) (r : Registers) : Prop :=
  ∀ i w, r.words[i]? = some w → m.load32 (regs + BitVec.ofNat 32 (4 * i)) = w

/-- **The machine when `task_return(regs)` is entered** in kernel mode,
with its code at `base`: `regs` is the argument above the return
address, it points to the task's registers, and these do not lie in the
32 bytes of stack that the code uses. -/
structure AtTaskReturn (base : Word) (m : Machine) (regs : Word) (r : Registers) : Prop where
  eip : m.eip = base
  kernelMode : m.cs &&& 3 = 0
  argument : m.mem.load32 (m.reg .esp + 4) = regs
  registers : RegistersAt m.mem regs r
  apart : ∀ x, InRange regs 48 x → ¬ InRange (m.reg .esp - 32) 32 x

end OwnKernel
