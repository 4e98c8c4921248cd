import OwnKernel.Model.Syscall

/-!
# The way back from a system call

`isr80hWrapper_return` follows `isr80h_wrapper` from the handler's return
to its `iretd`. The user finds everything as it was but `eax`, which has
the result, and `ds`: `user_registers` loads `dx` in its place, so it has
the kernel's segment until `iretd` clears it.
-/

namespace OwnKernel

open X86

variable {base tmpRes esp0 res : Word} {isr80hHandler : ℕ} {user m m₁ m₂ m' : Machine}
  {place : SegmentRoutine → Word} {command rs : List SegmentRoutine}

/-! ## The segment registers -/

/-- The low half that was written. -/
theorem setLow_setWidth (m : Machine) (r : Reg) (v : BitVec 16) :
    ((m.setLow r v).reg r).setWidth 16 = v := by
  unfold Machine.setLow
  rw [Machine.setReg_self, BitVec.setWidth_or, BitVec.setWidth_and,
    show (0xFFFF0000 : Word).setWidth 16 = 0#16 by decide, BitVec.and_zero,
    BitVec.zero_or, BitVec.setWidth_setWidth_of_le _ (by decide), BitVec.setWidth_eq]

/-- **`kernel_registers`** sets all four. -/
theorem kernelRegisters_run (heip : m.eip = base) :
    ∃ m', run base kernelRegisters 6 m = some m' ∧ m'.seg = (fun _ => kernelDataSelector) ∧
      m'.dpl = m.dpl ∧ m'.cs = m.cs ∧ m'.ss = m.ss := by
  have h0 : m.eip = base + BitVec.ofNat 32 0 := by rw [heip, BitVec.add_zero]
  rw [run_succ (k := 0) (i := .movImm16 .eax 0x10) rfl (by decide) h0,
    run_succ (k := 1) (i := .movSeg .ds .eax) rfl (by decide) rfl,
    run_succ (k := 2) (i := .movSeg .es .eax) rfl (by decide) rfl,
    run_succ (k := 3) (i := .movSeg .gs .eax) rfl (by decide) rfl,
    run_succ (k := 4) (i := .movSeg .fs .eax) rfl (by decide) rfl,
    run_succ (k := 5) (i := .ret) rfl (by decide) rfl]
  refine ⟨_, rfl, ?_, rfl, rfl, rfl⟩
  funext r
  cases r <;> exact setLow_setWidth _ .eax 0x10

/-- **`user_registers`** leaves `ds`. -/
theorem userRegisters_run (heip : m.eip = base) :
    ∃ m', run base userRegisters 6 m = some m' ∧
      m'.seg = (fun r => if r = .ds then m.seg .ds else userDataSegment.setWidth 16) ∧
      m'.dpl = m.dpl ∧ m'.cs = m.cs ∧ m'.ss = m.ss := by
  have h0 : m.eip = base + BitVec.ofNat 32 0 := by rw [heip, BitVec.add_zero]
  rw [run_succ (k := 0) (i := .movImm16 .eax 0x23) rfl (by decide) h0,
    run_succ (k := 1) (i := .mov16 .edx .eax) rfl (by decide) rfl,
    run_succ (k := 2) (i := .movSeg .es .eax) rfl (by decide) rfl,
    run_succ (k := 3) (i := .movSeg .fs .eax) rfl (by decide) rfl,
    run_succ (k := 4) (i := .movSeg .gs .eax) rfl (by decide) rfl,
    run_succ (k := 5) (i := .ret) rfl (by decide) rfl]
  refine ⟨_, rfl, ?_, rfl, rfl, rfl⟩
  have heax := setLow_setWidth { m with eip := base + BitVec.ofNat 32 (0 + 1) } .eax 0x23
  funext r
  cases r
  · rfl
  · exact heax
  · exact heax
  · exact heax

/-- The segment registers after a routine. -/
def SegmentRoutine.segAfter (s : SegReg → BitVec 16) : SegmentRoutine → SegReg → BitVec 16
  | .kernelRegisters, _ => kernelDataSelector
  | .userRegisters, r => if r = .ds then s .ds else userDataSegment.setWidth 16

theorem SegmentRoutine.run_listing (r : SegmentRoutine) (heip : m.eip = base) :
    ∃ m', run base r.listing r.listing.length m = some m' ∧ m'.seg = r.segAfter m.seg ∧
      m'.dpl = m.dpl ∧ m'.cs = m.cs ∧ m'.ss = m.ss := by
  cases r with
  | kernelRegisters => exact kernelRegisters_run heip
  | userRegisters => exact userRegisters_run heip

/-- **Compiled code changes the segment registers by the routines it
calls only.** -/
theorem CallsRoutines.spec (h : CallsRoutines place rs m m') :
    m'.seg = rs.foldl SegmentRoutine.segAfter m.seg ∧ m'.dpl = m.dpl ∧ m'.cs = m.cs := by
  induction h with
  | compiled h => exact ⟨h.seg, h.dpl, h.cs⟩
  | @routine r rs m m₁ m₂ m' hc heip hrun _ ih =>
    obtain ⟨m₃, hrun₃, hseg, hdpl, hcs, -⟩ := r.run_listing heip
    rw [hrun] at hrun₃
    cases hrun₃
    obtain ⟨ihseg, ihdpl, ihcs⟩ := ih
    rw [ihseg, ihdpl, ihcs, hseg, hdpl, hcs, hc.seg, hc.dpl, hc.cs]
    exact ⟨rfl, rfl, rfl⟩

/-- Once `ds` is the kernel's it stays so. -/
theorem foldl_segAfter_ds {s : SegReg → BitVec 16} (h : s .ds = kernelDataSelector) :
    rs.foldl SegmentRoutine.segAfter s .ds = kernelDataSelector := by
  induction rs generalizing s with
  | nil => exact h
  | cons r rs ih =>
    refine ih ?_
    cases r with
    | kernelRegisters => rfl
    | userRegisters => exact h

/-- **The segment registers after `isr80h_handler`**: the user's, but for
`ds`. -/
theorem foldl_isr80hHandlerRoutines (command : List SegmentRoutine) (s : SegReg → BitVec 16)
    (r : SegReg) : (isr80hHandlerRoutines command).foldl SegmentRoutine.segAfter s r =
      if r = .ds then kernelDataSelector else userDataSegment.setWidth 16 := by
  unfold isr80hHandlerRoutines
  rw [List.foldl_append, List.foldl_append, List.foldl_cons, List.foldl_nil, List.foldl_cons,
    List.foldl_nil, SegmentRoutine.segAfter, foldl_segAfter_ds rfl]

/-! ## `isr80h_wrapper` -/

/-- The words of the interrupt frame. -/
def frameWords (user : Machine) (esp : Word) : List Word :=
  [user.reg .edi, user.reg .esi, user.reg .ebp, esp, user.reg .ebx, user.reg .edx, user.reg .ecx,
    user.reg .eax, user.eip, user.cs.setWidth 32, user.eflags, user.reg .esp, user.ss.setWidth 32]

/-- **Up to the handler**: it finds the command, and the frame above it. -/
theorem isr80hWrapper_entry (user : Machine) (esp0 base tmpRes : Word) (isr80hHandler : ℕ) :
    ∃ m₁ frame esp, run base (isr80hWrapper isr80hHandler tmpRes) 4 (syscall user esp0 base) =
        some m₁ ∧ Tracked base (isr80hWrapper isr80hHandler tmpRes) user.mem esp0 16
      kernelCodeSelector user.dpl isr80hHandler user.reg user.seg (user.eflags &&& ~~~ 0x34300)
      ((base + BitVec.ofNat 32 4) :: user.reg .eax :: frame :: frameWords user esp) m₁ := by
  have t₀ : Tracked base (isr80hWrapper isr80hHandler tmpRes) user.mem esp0 16 kernelCodeSelector
      user.dpl 0 user.reg user.seg (user.eflags &&& ~~~ 0x34300)
      [user.eip, user.cs.setWidth 32, user.eflags, user.reg .esp, user.ss.setWidth 32]
      (syscall user esp0 base) := by
    refine ⟨show 9 < 2 ^ 32 by decide, (BitVec.add_zero base).symm, fun q hq => ?_, rfl, rfl, rfl,
      rfl, .interrupt (by decide) (by decide)⟩
    simp only [syscall, Machine.interrupt, Machine.push_of_ne hq, Machine.setReg_of_ne hq]
  obtain ⟨m₁, s₁, t₁⟩ := t₀.pushad rfl (by simp)
  obtain ⟨m₂, s₂, t₂⟩ := t₁.pushEsp rfl (by simp)
  obtain ⟨m₃, s₃, t₃⟩ := t₂.push rfl (by simp) (t₂.reg .eax (by decide))
  obtain ⟨m₄, s₄, t₄⟩ := t₃.call rfl (by simp)
  exact ⟨m₄, _, _, by rw [s₁, s₂, s₃, s₄, run], t₄⟩

/-- **What the user finds but for the data segment registers**: the result
in `eax`, and everything else as it was. -/
structure SyscallReturned (user m : Machine) (res : Word) : Prop where
  eax : m.reg .eax = res
  reg : ∀ q, q ≠ .eax → m.reg q = user.reg q
  eip : m.eip = user.eip
  cs : m.cs = user.cs
  ss : m.ss = user.ss
  eflags : m.eflags = user.eflags

/-- **A system call the user sees the result of only.** -/
structure SyscallTransparent (user m : Machine) (res : Word) : Prop
    extends SyscallReturned user m res where
  segments : ∀ r, m.seg r = userDataSegment.setWidth 16

/-- The stack at the handler's return. -/
theorem Isr80hHandlerReturns.stack {frame esp : Word}
    (hret : Isr80hHandlerReturns place command m₁ m₂ res)
    (hstack : Stack user.mem esp0 16 m₁.mem (m₁.reg .esp)
      ((base + BitVec.ofNat 32 4) :: user.reg .eax :: frame :: frameWords user esp)) :
    Stack m₂.mem esp0 16 m₂.mem (m₂.reg .esp)
      (m₂.mem.load32 (m₂.reg .esp) :: m₂.mem.load32 (m₂.reg .esp + 4) :: frameWords user esp) := by
  have hpop := hstack.pop
  rw [← hret.esp] at hpop
  have hframe : (frameWords user esp).length = 13 := rfl
  refine ⟨by decide, ?_, ?_, fun i w hw => ?_, fun _ _ => rfl⟩
  · rw [List.length_cons, List.length_cons, hframe]
    decide
  · have hsp := hpop.sp_eq
    rw [List.length_cons, List.length_cons] at hsp ⊢
    exact hsp
  rcases i with - | - | i
  · cases hw
    rw [Nat.mul_zero, BitVec.add_zero]
  · cases hw
    rfl
  · -- a word of the frame
    rw [List.getElem?_cons_succ, List.getElem?_cons_succ] at hw
    have hi : i < 13 := hframe ▸ (List.getElem?_eq_some_iff.1 hw).1
    rw [← hpop.words (i + 1 + 1) w hw]
    refine Mem.load32_congr fun x hx => hret.frame x ?_
    rw [hret.esp] at hx
    unfold InRange at hx ⊢
    bv_omega

/-- **From the handler's return to the user.** -/
theorem isr80hWrapper_return (h : AtSyscall user esp0 tmpRes)
    (hentry : run base (isr80hWrapper isr80hHandler tmpRes) 4 (syscall user esp0 base) = some m₁)
    (hret : Isr80hHandlerReturns place command m₁ m₂ res) :
    ∃ m', run base (isr80hWrapper isr80hHandler tmpRes) 5 m₂ = some m' ∧
      SyscallReturned user m' res ∧
      m'.seg = fun r => if r = .ds then 0 else userDataSegment.setWidth 16 := by
  obtain ⟨m₁', frame, esp, hentry', t⟩ := isr80hWrapper_entry user esp0 base tmpRes isr80hHandler
  rw [hentry] at hentry'
  cases hentry'
  obtain ⟨hseg, hdpl, hcs⟩ := hret.calls.spec
  have t₀ : Tracked base (isr80hWrapper isr80hHandler tmpRes) m₂.mem esp0 16 kernelCodeSelector
      user.dpl 4 m₂.reg m₂.seg m₂.eflags (m₂.mem.load32 (m₂.reg .esp) ::
        m₂.mem.load32 (m₂.reg .esp + 4) :: frameWords user esp) m₂ :=
    ⟨t.small, hret.eip.trans t.stack.top_eq, fun _ _ => rfl, rfl, hdpl.trans t.dpl, rfl,
      hcs.trans t.cs, hret.stack t.stack⟩
  obtain ⟨n₁, s₁, t₁⟩ := t₀.storeAbs rfl hret.result h.apart
  obtain ⟨e₂, n₂, s₂, t₂⟩ := t₁.addEsp8 rfl
  obtain ⟨g₃, n₃, s₃, t₃, ⟨hedi, hesi, hebp⟩, hebx, hedx, hecx, -⟩ := t₂.popad rfl
  obtain ⟨n₄, s₄, t₄⟩ := t₃.loadAbs rfl (by decide)
    ((t₃.stack.load32_eq h.apart).trans Mem.load32_store32_self)
  have hback : (user.cs.setWidth 32).setWidth 16 = user.cs := by
    rw [BitVec.setWidth_setWidth_of_le _ (by decide), BitVec.setWidth_eq]
  have hss : (user.ss.setWidth 32).setWidth 16 = user.ss := by
    rw [BitVec.setWidth_setWidth_of_le _ (by decide), BitVec.setWidth_eq]
  obtain ⟨n₅, s₅, hip, hcs₅, hflags, hesp, hss₅, hreg, hseg₅⟩ := t₄.iretd rfl (by
    rw [hback, h.userMode]
    decide)
  refine ⟨n₅, by rw [s₁, s₂, s₃, s₄, s₅, run], ⟨hreg .eax (by decide), fun q hq => ?_, hip,
    hcs₅.trans hback, hss₅.trans hss, hflags⟩, ?_⟩
  · cases q with
    | eax => exact absurd rfl hq
    | esp => exact hesp
    | ebx => exact (hreg .ebx (by decide)).trans hebx
    | ecx => exact (hreg .ecx (by decide)).trans hecx
    | edx => exact (hreg .edx (by decide)).trans hedx
    | esi => exact (hreg .esi (by decide)).trans hesi
    | edi => exact (hreg .edi (by decide)).trans hedi
    | ebp => exact (hreg .ebp (by decide)).trans hebp
  · -- the kernel's segment is not for the user
    have hkernel : gdtDpl kernelDataSelector < (3 : BitVec 16) := by decide
    have huser : ¬ gdtDpl (userDataSegment.setWidth 16) < (3 : BitVec 16) := by decide
    funext r
    rw [hseg₅]
    simp only [hback, h.userMode, h.gdt, hseg, foldl_isr80hHandlerRoutines]
    by_cases hr : r = .ds
    · rw [if_pos hr, if_pos hr, if_pos hkernel]
    · rw [if_neg hr, if_neg hr, if_neg huser]

/-- **No system call is transparent**: `ds` comes back cleared, for every
user, command and result. Everything else comes back as it should. -/
theorem isr80hWrapper_returns (h : AtSyscall user esp0 tmpRes)
    (hentry : run base (isr80hWrapper isr80hHandler tmpRes) 4 (syscall user esp0 base) = some m₁)
    (hret : Isr80hHandlerReturns place command m₁ m₂ res) :
    ∃ m', run base (isr80hWrapper isr80hHandler tmpRes) 5 m₂ = some m' ∧
      (SyscallReturned user m' res ∧ ∀ r, r ≠ .ds → m'.seg r = userDataSegment.setWidth 16) ∧
      ¬ SyscallTransparent user m' res := by
  obtain ⟨m', hrun, hreturned, hseg⟩ := isr80hWrapper_return h hentry hret
  refine ⟨m', hrun, ⟨hreturned, fun r hr => ?_⟩, fun ht => ?_⟩
  · rw [hseg]
    exact if_neg hr
  · have hds := ht.segments .ds
    rw [hseg] at hds
    exact absurd hds (by decide)

/-! ### A user -/

/-- A command that calls neither routine itself. -/
theorem exists_isr80hHandlerReturns (place : SegmentRoutine → Word) (m : Machine) (res : Word) :
    ∃ m', Isr80hHandlerReturns place [] m m' res := by
  obtain ⟨m₁, hrun₁, -⟩ := SegmentRoutine.kernelRegisters.run_listing
    (m := { m with eip := place .kernelRegisters }) rfl
  obtain ⟨m₂, hrun₂, -⟩ := SegmentRoutine.userRegisters.run_listing
    (m := { m₁ with eip := place .userRegisters }) rfl
  have hc₁ : Compiled m { m with eip := place .kernelRegisters } := ⟨rfl, rfl, rfl, rfl⟩
  have hc₂ : Compiled m₁ { m₁ with eip := place .userRegisters } := ⟨rfl, rfl, rfl, rfl⟩
  refine ⟨{ m₂ with
    reg := Function.update (Function.update m.reg .esp (m.reg .esp + 4)) .eax res
    eip := m.top
    mem := m.mem }, ?_, rfl, rfl, rfl, fun _ _ => rfl⟩
  exact .routine hc₁ rfl hrun₁ (.routine hc₂ rfl hrun₂ (.compiled ⟨rfl, rfl, rfl, rfl⟩))

/-- A user program in the middle of a system call. -/
def callingUser : Machine where
  reg q := if q = .esp then 0x3FEFF0 else 1
  seg _ := userDataSegment.setWidth 16
  dpl := gdtDpl
  eip := 0x400010
  eflags := 0x202
  cs := userCodeSegment.setWidth 16
  ss := userDataSegment.setWidth 16
  mem _ := 0

theorem atSyscall_callingUser : AtSyscall callingUser 0x600000 0x110000 where
  userMode := show userCodeSegment.setWidth 16 &&& 3 = (3 : BitVec 16) by decide
  segments _ := rfl
  gdt := rfl
  apart x hx hin := by
    unfold InRange at hx hin
    bv_omega

/-- A system call with the result 7. -/
theorem isr80hWrapper_returns_seven : ∃ m₁ m₂ m',
    run 0x100000 (isr80hWrapper 64 0x110000) 4 (syscall callingUser 0x600000 0x100000) = some m₁ ∧
      run 0x100000 (isr80hWrapper 64 0x110000) 5 m₂ = some m' ∧ m'.reg .eax = 7 ∧
      ¬ SyscallTransparent callingUser m' 7 := by
  obtain ⟨m₁, -, -, hentry, -⟩ := isr80hWrapper_entry callingUser 0x600000 0x100000 0x110000 64
  obtain ⟨m₂, hret⟩ := exists_isr80hHandlerReturns (fun _ => 0x100200) m₁ 7
  obtain ⟨m', hrun, ⟨hreturned, -⟩, hnot⟩ := isr80hWrapper_returns atSyscall_callingUser hentry hret
  exact ⟨m₁, m₂, m', hentry, hrun, hreturned.eax, hnot⟩

/-- **`ds` does not come back.** -/
theorem isr80hWrapper_not_transparent :
    ¬ ∀ (user m₁ m₂ : Machine) (esp0 base tmpRes res : Word) (isr80hHandler : ℕ)
      (place : SegmentRoutine → Word) (command : List SegmentRoutine),
      AtSyscall user esp0 tmpRes →
      run base (isr80hWrapper isr80hHandler tmpRes) 4 (syscall user esp0 base) = some m₁ →
      Isr80hHandlerReturns place command m₁ m₂ res →
      ∃ m', run base (isr80hWrapper isr80hHandler tmpRes) 5 m₂ = some m' ∧
        SyscallTransparent user m' res := by
  intro hall
  obtain ⟨m₁, -, -, hentry, -⟩ := isr80hWrapper_entry callingUser 0x600000 0x100000 0x110000 64
  obtain ⟨m₂, hret⟩ := exists_isr80hHandlerReturns (fun _ => 0x100200) m₁ 7
  obtain ⟨m', hrun, ht⟩ := hall _ _ _ _ _ _ _ _ _ _ atSyscall_callingUser hentry hret
  obtain ⟨m'', hrun', -, hseg⟩ := isr80hWrapper_return atSyscall_callingUser hentry hret
  rw [hrun] at hrun'
  cases hrun'
  have hds := ht.segments .ds
  rw [hseg] at hds
  exact absurd hds (by decide)

end OwnKernel
