import OwnKernel.Kernel.Objects
import OwnKernel.Model.Task
import OwnKernel.Model.TaskReturn

/-!
# The context switch

`taskReturn_run` follows `task_return` to its `iretd`. Every register
comes from the task but two: `ebp` is popped into after it is loaded, so
it holds the kernel's stack pointer, and the flags pushed are the
kernel's own. `taskReturn_resumes_iff` says when the user does not
notice, and `taskReturn_not_resumed` is a user who does.
-/

namespace OwnKernel

open X86

variable {base regs w : Word} {m m' : Machine} {r : Registers} {f : InterruptFrame}

/-! ## `task_return` -/

/-- A word of the registers, read on the way. -/
theorem AtTaskReturn.read {b : Reg} {j k : ℕ} {g : Reg → Word}
    {sg : SegReg → BitVec 16} {e : Word} {ws : List Word}
    (h : AtTaskReturn base m regs r)
    (t : Tracked base taskAsm m.mem (m.reg .esp) 8 m.cs m.dpl k g sg e ws m') (hb : b ≠ .esp)
    (hg : g b = regs) (hw : r.words[j]? = some w) :
    m'.mem.load32 (m'.address b (4 * j)) = w := by
  have hj : j < 12 := (List.getElem?_eq_some_iff.1 hw).1
  unfold Machine.address
  rw [t.reg b hb, hg, t.stack.load32_eq, h.registers j w hw]
  intro x hx
  refine h.apart x ?_
  unfold InRange at hx ⊢
  bv_omega

/-- The argument, read on the way. -/
theorem AtTaskReturn.read_argument {b : Reg} {k : ℕ} {g : Reg → Word}
    {sg : SegReg → BitVec 16} {e : Word} {ws : List Word}
    (h : AtTaskReturn base m regs r)
    (t : Tracked base taskAsm m.mem (m.reg .esp) 8 m.cs m.dpl k g sg e ws m') (hb : b ≠ .esp)
    (hg : g b = m.reg .esp) : m'.mem.load32 (m'.address b 4) = regs := by
  unfold Machine.address
  rw [t.reg b hb, hg, t.stack.load32_eq]
  · exact h.argument
  · intro x hx hin
    unfold InRange at hx hin
    bv_omega

/-- **`task_return` up to its `iretd`.** -/
theorem taskReturn_run (h : AtTaskReturn base m regs r) (huser : r.cs.setWidth 16 &&& 3 = (3 : BitVec 16)) :
    ∃ m', run base taskAsm 31 m = some m' ∧
      (m'.eip = r.ip ∧ m'.cs = r.cs.setWidth 16 ∧ m'.reg .esp = r.esp ∧
        m'.ss = r.ss.setWidth 16) ∧
      m'.eflags = ((m.eflags &&& 0x00FCFFFF) ||| 0x200) ∧
      m'.reg .ebp = m.reg .esp ∧
      m'.reg .edi = r.edi ∧ m'.reg .esi = r.esi ∧ m'.reg .ebx = r.ebx ∧ m'.reg .edx = r.edx ∧
      m'.reg .ecx = r.ecx ∧ m'.reg .eax = r.eax := by
  have t₀ : Tracked base taskAsm m.mem (m.reg .esp) 8 m.cs m.dpl 0 m.reg m.seg m.eflags [] m :=
    ⟨by decide, by rw [h.eip, BitVec.add_zero], fun _ _ => rfl, rfl, rfl, rfl, rfl, .nil (by decide)⟩
  obtain ⟨m₁, s₁, t₁⟩ := t₀.mov rfl (by decide) rfl
  obtain ⟨m₂, s₂, t₂⟩ := t₁.load rfl (by decide) (h.read_argument t₁ (by decide) rfl)
  -- the frame for `iretd`
  obtain ⟨m₃, s₃, t₃⟩ := t₂.pushMem rfl (by simp) (h.read t₂ (j := 11) (by decide) rfl rfl)
  obtain ⟨m₄, s₄, t₄⟩ := t₃.pushMem rfl (by simp) (h.read t₃ (j := 10) (by decide) rfl rfl)
  obtain ⟨m₅, s₅, t₅⟩ := t₄.pushf rfl (by simp)
  obtain ⟨m₆, s₆, t₆⟩ := t₅.pop rfl (by decide)
  obtain ⟨e₇, m₇, s₇, t₇⟩ := t₆.orImm rfl (by decide) (v := m.eflags &&& 0x00FCFFFF)
    (t₆.reg .eax (by decide))
  obtain ⟨m₈, s₈, t₈⟩ := t₇.push rfl (by simp) (v := (m.eflags &&& 0x00FCFFFF) ||| 0x200)
    (t₇.reg .eax (by decide))
  obtain ⟨m₉, s₉, t₉⟩ := t₈.pushMem rfl (by simp) (h.read t₈ (j := 8) (by decide) rfl rfl)
  obtain ⟨m₁₀, s₁₀, t₁₀⟩ := t₉.pushMem rfl (by simp) (h.read t₉ (j := 7) (by decide) rfl rfl)
  -- the segment registers
  obtain ⟨v, m₁₁, s₁₁, t₁₁⟩ := t₁₀.load16 rfl (by decide)
  obtain ⟨_, m₁₂, s₁₂, t₁₂⟩ := t₁₁.movSeg rfl
  obtain ⟨_, m₁₃, s₁₃, t₁₃⟩ := t₁₂.movSeg rfl
  obtain ⟨_, m₁₄, s₁₄, t₁₄⟩ := t₁₃.movSeg rfl
  obtain ⟨_, m₁₅, s₁₅, t₁₅⟩ := t₁₄.movSeg rfl
  obtain ⟨m₁₆, s₁₆, t₁₆⟩ := t₁₅.pushMem rfl (by simp) (h.read_argument t₁₅ (by decide) rfl)
  obtain ⟨m₁₇, s₁₇, t₁₇⟩ := t₁₆.call rfl (by simp)
  -- `restore_general_purpose_registers`
  obtain ⟨m₁₈, s₁₈, t₁₈⟩ := t₁₇.push rfl (by simp) (v := m.reg .esp) (t₁₇.reg .ebp (by decide))
  obtain ⟨m₁₉, s₁₉, t₁₉⟩ := t₁₈.mov rfl (by decide) rfl
  have hframe : m₁₉.mem.load32 (m₁₉.address .ebp 8) = regs := by
    have hsp : m₁₉.reg .ebp = m₁₉.reg .esp := by
      rw [t₁₉.reg .ebp (by decide), t₁₉.stack.sp_eq, ← t₁₈.stack.sp_eq, Function.update_self]
    unfold Machine.address
    rw [hsp]
    exact t₁₉.stack.words 2 regs rfl
  obtain ⟨m₂₀, s₂₀, t₂₀⟩ := t₁₉.load rfl (by decide) hframe
  obtain ⟨m₂₁, s₂₁, t₂₁⟩ := t₂₀.load rfl (by decide) (h.read t₂₀ (j := 0) (by decide) rfl rfl)
  obtain ⟨m₂₂, s₂₂, t₂₂⟩ := t₂₁.load rfl (by decide) (h.read t₂₁ (j := 1) (by decide) rfl rfl)
  obtain ⟨m₂₃, s₂₃, t₂₃⟩ := t₂₂.load rfl (by decide) (h.read t₂₂ (j := 2) (by decide) rfl rfl)
  obtain ⟨m₂₄, s₂₄, t₂₄⟩ := t₂₃.load rfl (by decide) (h.read t₂₃ (j := 4) (by decide) rfl rfl)
  obtain ⟨m₂₅, s₂₅, t₂₅⟩ := t₂₄.load rfl (by decide) (h.read t₂₄ (j := 5) (by decide) rfl rfl)
  obtain ⟨m₂₆, s₂₆, t₂₆⟩ := t₂₅.load rfl (by decide) (h.read t₂₅ (j := 6) (by decide) rfl rfl)
  obtain ⟨m₂₇, s₂₇, t₂₇⟩ := t₂₆.load rfl (by decide) (h.read t₂₆ (j := 3) (by decide) rfl rfl)
  -- what `ebp` was loaded with is popped over
  obtain ⟨m₂₈, s₂₈, t₂₈⟩ := t₂₇.pop rfl (by decide)
  obtain ⟨m₂₉, s₂₉, t₂₉⟩ := t₂₈.ret rfl
  obtain ⟨e₃₀, m₃₀, s₃₀, t₃₀⟩ := t₂₉.addEsp rfl
  obtain ⟨m₃₁, s₃₁, hip, hcs, hflags, hesp, hss, hreg, -⟩ := t₃₀.iretd rfl (by
    rw [huser, h.kernelMode]
    decide)
  refine ⟨m₃₁, ?_, ⟨hip, hcs, hesp, hss⟩, hflags, hreg .ebp (by decide), hreg .edi (by decide),
    hreg .esi (by decide), hreg .ebx (by decide), hreg .edx (by decide), hreg .ecx (by decide),
    hreg .eax (by decide)⟩
  rw [s₁, s₂, s₃, s₄, s₅, s₆, s₇, s₈, s₉, s₁₀, s₁₁, s₁₂, s₁₃, s₁₄, s₁₅, s₁₆, s₁₇, s₁₈, s₁₉, s₂₀, s₂₁,
    s₂₂, s₂₃, s₂₄, s₂₅, s₂₆, s₂₇, s₂₈, s₂₉, s₃₀, s₃₁, run]

/-! ## Save and resume -/

/-- The registers `task_save_state` stores. -/
def InterruptFrame.saved (f : InterruptFrame) : Registers where
  edi := f.edi
  esi := f.esi
  ebp := f.ebp
  ebx := f.ebx
  edx := f.edx
  ecx := f.ecx
  eax := f.eax
  ip := f.ip
  cs := f.cs
  flags := f.flags
  esp := f.esp
  ss := f.ss

/-- **The user resumes where the frame was taken.** -/
structure Resumed (f : InterruptFrame) (m : Machine) : Prop where
  edi : m.reg .edi = f.edi
  esi : m.reg .esi = f.esi
  ebp : m.reg .ebp = f.ebp
  ebx : m.reg .ebx = f.ebx
  edx : m.reg .edx = f.edx
  ecx : m.reg .ecx = f.ecx
  eax : m.reg .eax = f.eax
  ip : m.eip = f.ip
  cs : m.cs = f.cs.setWidth 16
  esp : m.reg .esp = f.esp
  ss : m.ss = f.ss.setWidth 16
  status : m.eflags &&& statusFlags = f.flags &&& statusFlags
  interrupt : m.eflags &&& interruptFlag = interruptFlag

/-- `task_current_save_state` stores the frame in the current task. -/
theorem taskCurrentSaveState_spec {k k' : Kernel} {t : Task} {u : PUnit}
    (h : taskCurrentSaveState f k = .ok (u, k')) (ht : k'.tasks k'.currentTask = some t) :
    t.registers = f.saved := by
  unfold taskCurrentSaveState at h
  rw [Fallible.run_get_bind] at h
  split at h
  · exact absurd h Fallible.run_throw
  · obtain ⟨-, t', -, rfl⟩ := run_modifyTask.1 h
    rw [setTask_currentTask, setTask_tasks_self] at ht
    cases ht
    rfl

/-- The pushed flags: the kernel's status, with interrupts on. -/
theorem pushedFlags (e : Word) :
    ((e &&& 0x00FCFFFF) ||| 0x200) &&& statusFlags = e &&& statusFlags ∧
      ((e &&& 0x00FCFFFF) ||| 0x200) &&& interruptFlag = interruptFlag := by
  constructor
  · rw [BitVec.and_or_distrib_right, BitVec.and_assoc,
      show (0x200 : Word) &&& statusFlags = 0 by decide,
      show (0x00FCFFFF : Word) &&& statusFlags = statusFlags by decide]
    exact BitVec.or_zero
  · rw [BitVec.and_or_distrib_right, BitVec.and_assoc,
      show (0x200 : Word) &&& interruptFlag = interruptFlag by decide,
      show (0x00FCFFFF : Word) &&& interruptFlag = interruptFlag by decide]
    ext i
    simp

/-- A frame taken from user mode. -/
theorem userMode_setWidth {c : Word} (h : c &&& 3 = 3) : c.setWidth 16 &&& 3 = (3 : BitVec 16) := by
  have := congrArg (BitVec.setWidth 16) h
  rwa [BitVec.setWidth_and] at this

/-- **When a task resumes where it was interrupted**: when the user's
`ebp` happens to be the kernel's stack pointer on entry to
`task_return`, and the user's status flags are the kernel's. -/
theorem taskReturn_resumes_iff {k k' : Kernel} {t : Task} (huser : f.cs &&& 3 = 3)
    (hsave : taskCurrentSaveState f k = .ok (⟨⟩, k')) (ht : k'.tasks k'.currentTask = some t)
    (h : AtTaskReturn base m regs t.registers) :
    ∃ m', run base taskAsm 31 m = some m' ∧
      (Resumed f m' ↔
        m.reg .esp = f.ebp ∧ m.eflags &&& statusFlags = f.flags &&& statusFlags) := by
  have hreg := taskCurrentSaveState_spec hsave ht
  rw [hreg] at h
  obtain ⟨m', hrun, ⟨hip, hcs, hesp, hss⟩, hflags, hebp, hedi, hesi, hebx, hedx, hecx, heax⟩ :=
    taskReturn_run h (userMode_setWidth huser)
  obtain ⟨hstatus, hinterrupt⟩ := pushedFlags m.eflags
  refine ⟨m', hrun, fun hr => ⟨hebp.symm.trans hr.ebp, ?_⟩, fun hcond => ?_⟩
  · rw [← hstatus, ← hflags]
    exact hr.status
  · exact ⟨hedi, hesi, hebp.trans hcond.1, hebx, hedx, hecx, heax, hip, hcs, hesp, hss,
      by rw [hflags, hstatus]; exact hcond.2, by rw [hflags]; exact hinterrupt⟩

/-! ### Two users -/

/-- The frame of a user interrupted with the given `ebp` and flags. -/
def userFrame (ebp flags : Word) : InterruptFrame where
  edi := 1
  esi := 2
  ebp := ebp
  reserved := 0
  ebx := 3
  edx := 4
  ecx := 5
  eax := 6
  ip := 0x400010
  cs := userCodeSegment
  flags := flags
  esp := 0x3FEFF0
  ss := userDataSegment

/-- A kernel whose only task, the current one, lies at the heap's start. -/
def oneTaskKernel : Kernel where
  store := ⟨kernelHeapInit, fun _ => 0⟩
  tasks p := if p = heapAddress then some .zero else none
  processes _ := none
  elfFiles _ := none
  taskHead := heapAddress
  taskTail := heapAddress
  currentTask := heapAddress
  processTable _ := 0
  currentProcess := 0
  objects _ := none
  disk := ⟨none, none⟩
  fileDescriptors _ := 0

/-- The kernel after the frame is saved. -/
theorem oneTaskKernel_save (f : InterruptFrame) : ∃ k' t,
    taskCurrentSaveState f oneTaskKernel = .ok (⟨⟩, k') ∧ k'.tasks k'.currentTask = some t := by
  have hsave : taskSaveState heapAddress f oneTaskKernel =
      .ok (⟨⟩, oneTaskKernel.setTask heapAddress (some { Task.zero with registers := f.saved })) :=
    run_modifyTask.2 ⟨by decide, .zero, rfl, rfl⟩
  exact ⟨_, _, hsave, setTask_tasks_self⟩

/-- The machine about to return to that task, with its code at 1 MiB and
the stack pointer at `0x5FFFF0`. -/
def returningMachine (f : InterruptFrame) : Machine where
  reg q := if q = .esp then 0x5FFFF0 else 0
  seg _ := 0x10
  dpl := gdtDpl
  eip := 0x100000
  eflags := 0x2
  cs := 0x08
  ss := 0x10
  mem := (Mem.storeWords (fun _ => 0) (heapAddress + 4) f.saved.words).store32 0x5FFFF4
    (heapAddress + 4)

theorem atTaskReturn_returningMachine (f : InterruptFrame) :
    AtTaskReturn 0x100000 (returningMachine f) (heapAddress + 4) f.saved where
  eip := rfl
  kernelMode := show (0x08 : BitVec 16) &&& 3 = 0 by decide
  argument := Mem.load32_store32_self
  registers i w hw := by
    have hi : i < 12 := (List.getElem?_eq_some_iff.1 hw).1
    have haddr : ∀ i, i < 12 → 4 ≤ (heapAddress + 4 + BitVec.ofNat 32 (4 * i) - 0x5FFFF4).toNat ∧
        4 ≤ ((0x5FFFF4 : Word) - (heapAddress + 4 + BitVec.ofNat 32 (4 * i))).toNat := by decide
    obtain ⟨h1, h2⟩ := haddr i hi
    unfold returningMachine
    rw [Mem.load32_store32_of_ne h1 h2]
    exact Mem.load32_storeWords (show 4 * 12 < 2 ^ 32 by decide) hw
  apart x hx hin := by
    have hesp : (returningMachine f).reg .esp = 0x5FFFF0 := rfl
    rw [hesp] at hin
    unfold InRange at hx hin
    unfold heapAddress at hx
    bv_omega

/-- A user whose `ebp` is the kernel's stack pointer resumes. -/
theorem taskReturn_resumes_iff_kernel_ebp : ∃ m',
    run 0x100000 taskAsm 31 (returningMachine (userFrame 0x5FFFF0 0x202)) = some m' ∧
      Resumed (userFrame 0x5FFFF0 0x202) m' := by
  obtain ⟨k', t, hsave, ht⟩ := oneTaskKernel_save (userFrame 0x5FFFF0 0x202)
  have hat := atTaskReturn_returningMachine (userFrame 0x5FFFF0 0x202)
  rw [← taskCurrentSaveState_spec hsave ht] at hat
  obtain ⟨m', hrun, hiff⟩ := taskReturn_resumes_iff (by decide) hsave ht hat
  exact ⟨m', hrun, hiff.2 ⟨rfl, by decide⟩⟩

/-- **A user with a frame pointer of its own does not resume**: its
`ebp` comes back as the kernel's stack pointer. -/
theorem taskReturn_not_resumed :
    ¬ ∀ (f : InterruptFrame) (k k' : Kernel) (t : Task) (base regs : Word) (m : Machine),
      f.cs &&& 3 = 3 → taskCurrentSaveState f k = .ok (⟨⟩, k') →
        k'.tasks k'.currentTask = some t → AtTaskReturn base m regs t.registers →
        ∃ m', run base taskAsm 31 m = some m' ∧ Resumed f m' := by
  intro hall
  obtain ⟨k', t, hsave, ht⟩ := oneTaskKernel_save (userFrame 0x3FEFF8 0x202)
  have hat := atTaskReturn_returningMachine (userFrame 0x3FEFF8 0x202)
  obtain ⟨m₁, hrun₁, -, -, hebp, -⟩ := taskReturn_run hat (by decide)
  rw [← taskCurrentSaveState_spec hsave ht] at hat
  obtain ⟨m₂, hrun₂, hres⟩ := hall _ _ _ _ _ _ _ (by decide) hsave ht hat
  obtain rfl : m₁ = m₂ := Option.some.inj (hrun₁.symm.trans hrun₂)
  have hne : (0x5FFFF0 : Word) ≠ 0x3FEFF8 := by decide
  exact hne (hebp.symm.trans hres.ebp)

end OwnKernel
