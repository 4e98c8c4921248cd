import OwnKernel.System.Isolation

/-!
# A program does not notice the others

An interrupt saves the registers of the program that runs, and the kernel
goes on with another. Whatever happens from then on, until the program is
its turn again, its memory, its structure and the registers saved for it
stay what they were (`interrupted_goesOn`); and `task_return` on them goes
on where the program was interrupted, with the two exceptions that the
listing has: `ebp` and the status flags.
-/

namespace OwnKernel

open X86

variable {K : Set Word} {k k' : Kernel} {mem : Mem} {o o' o₀ o₁ : Os} {image : Sectors}
variable {stack : KernelStack} {fuel interrupt j : ℕ} {l : List (Option ℕ)} {a : Option ℕ}
variable {frame : InterruptFrame} {scancode : Byte} {left : Option Word}

/-- The registers of the program that runs, when its state has been saved. -/
theorem Caller.slotRegisters (h : Caller k j)
    (hsave : taskCurrentSaveState frame k = .ok (⟨⟩, k')) :
    k'.slotRegisters j = some frame.saved := by
  obtain ⟨p, hp, htask⟩ := h.runs
  obtain ⟨t, registers, -, rfl⟩ := taskCurrentSaveState_cases hsave
  have hself : (k.setTask k.currentTask (some { t with registers := registers })).tasks
      (k.setTask k.currentTask (some { t with registers := registers })).currentTask =
        some { t with registers := registers } := setTask_tasks_self
  have hsaved := taskCurrentSaveState_spec hsave hself
  unfold Kernel.slotRegisters
  change (k.processes (k.processTable j)).bind _ = _
  rw [hp, Option.bind_some, htask, setTask_tasks_self, Option.map_some, hsaved]

/-- **The program of slot `j` is as it was interrupted**: it has what it
had, and the registers of the frame are saved for it. -/
structure Interrupted (j : ℕ) (frame : InterruptFrame) (k k' : Kernel) : Prop
    extends SlotKept j k k' where
  registers : k'.slotRegisters j = some frame.saved

/-- **The machine goes on where the frame was taken**, but for `ebp` and the
status flags. -/
structure GoesOn (f : InterruptFrame) (m : Machine) : Prop where
  edi : m.reg .edi = f.edi
  esi : m.reg .esi = f.esi
  ebx : m.reg .ebx = f.ebx
  edx : m.reg .edx = f.edx
  ecx : m.reg .ecx = f.ecx
  eax : m.reg .eax = f.eax
  ip : m.eip = f.ip
  cs : m.cs = f.cs.setWidth 16
  esp : m.reg .esp = f.esp
  ss : m.ss = f.ss.setWidth 16
  interrupt : m.eflags &&& interruptFlag = interruptFlag

/-- **`task_return` of a frame's registers** goes on there. -/
theorem taskReturn_goesOn {base regs : Word} {m : Machine} (huser : frame.cs &&& 3 = 3)
    (h : AtTaskReturn base m regs frame.saved) :
    ∃ m', X86.run base taskAsm 31 m = some m' ∧ GoesOn frame m' := by
  obtain ⟨m', hrun, ⟨hip, hcs, hesp, hss⟩, hflags, -, hedi, hesi, hebx, hedx, hecx, heax⟩ :=
    taskReturn_run h (userMode_setWidth huser)
  refine ⟨m', hrun, hedi, hesi, hebx, hedx, hecx, heax, hip, hcs, hesp, hss, ?_⟩
  rw [hflags]
  exact (pushedFlags m.eflags).2

/-- **A program that is interrupted** is as it was interrupted when the
kernel leaves, if the interrupt was not for it. -/
theorem OsReached.interrupted (h : OsReached image mem fuel stack o₀ o) (hj : Caller o.kernel j)
    (hfor : InterruptFor o interrupt a) (ha : a ≠ some j) (hn : registeredCallbacks interrupt ≠ none)
    (hrun : interruptHandler scancode interrupt frame o = .ok (left, o₁)) :
    Interrupted j frame o.kernel o₁.kernel := by
  obtain ⟨hin, -, hout, -⟩ := h.inv
  have hstep : OsStep image fuel stack a o o₁ := .interrupt hfor hrun
  have hkept := hstep.slotKept hin hout h.bounded hj.lt hj.ne_zero ha
  rw [← h.registered.callbacks interrupt] at hn
  obtain ⟨callback, hcallback⟩ := Option.ne_none_iff_exists'.1 hn
  obtain ⟨k₁, hsave, hreaches⟩ := interruptHandler_saved image hfor hin hcallback hrun
  have htable := (taskCurrentSaveState_same hsave).2.1
  have hstill := hreaches.slotStill ((Entered.saves hsave).inOrder hin).1 hj.lt
    (congrFun htable j) hj.ne_zero ha
  exact ⟨hkept.1, hstill.registers.trans (hj.slotRegisters hsave)⟩

/-- **Interrupted programs go on.** From an interrupt of the program of
slot `j` to the next state in which it is to run, whatever the others do,
it has what it had, and `task_return` goes on where it was interrupted. -/
theorem interrupted_goesOn (h : OsReached image mem fuel stack o₀ o) (hj : Caller o.kernel j)
    (huser : frame.cs &&& 3 = 3) (hfor : InterruptFor o interrupt a) (ha : a ≠ some j)
    (hn : registeredCallbacks interrupt ≠ none)
    (hint : interruptHandler scancode interrupt frame o = .ok (left, o₁))
    (hrun : OsRunBeside image fuel stack j l o₁ o') (hl : some j ∉ l) :
    Interrupted j frame o.kernel o'.kernel ∧ ∀ base m regs, AtTaskReturn base m regs frame.saved →
      ∃ m', X86.run base taskAsm 31 m = some m' ∧ GoesOn frame m' := by
  have hinterrupted := h.interrupted hj hfor ha hn hint
  have h₁ : OsReached image mem fuel stack o₀ o₁ := h.trans (.single (.interrupt hfor hint))
  obtain ⟨hin, -, hout, -⟩ := h₁.inv
  have hstill := hrun.still hin hout h.bounded hj.lt (hinterrupted.table ▸ hj.ne_zero) hl
  refine ⟨⟨Trans.trans hinterrupted.toSlotKept hstill.toSlotKept,
    hstill.registers.trans hinterrupted.registers⟩, fun base m regs hm => ?_⟩
  exact taskReturn_goesOn huser hm

/-! ## Two programs in turn -/

/-- **The clock interrupts a program**, and the next task is to run. -/
theorem OsReached.exists_clock {t : Task} {next : Word} (h : OsReached image mem fuel stack o₀ o)
    (frame : InterruptFrame) (hne : o.kernel.currentTask ≠ 0)
    (ht : o.kernel.tasks o.kernel.currentTask = some t)
    (hnext : (if t.next = 0 then o.kernel.taskHead else t.next) = next) (h0 : next ≠ 0) :
    InterruptFor o 0x20 none ∧ ∃ o', interruptHandler 0 0x20 frame o = .ok (some next, o') ∧
      QueueKept o.kernel o'.kernel ∧ o'.kernel.currentTask = next := by
  have hclock : o.interruptCallbacks 0x20 = some .clock := h.registered.callbacks 0x20
  obtain ⟨k₁, hk₁⟩ : ∃ k₁, k₁ = o.kernel.setTask o.kernel.currentTask
      (some { t with registers := frame.saved }) := ⟨_, rfl⟩
  have hsave : taskCurrentSaveState frame o.kernel = .ok (⟨⟩, k₁) := by
    unfold taskCurrentSaveState
    rw [Fallible.run_get_bind, if_neg hne]
    exact run_modifyTask.2 ⟨hne, t, ht, hk₁⟩
  have hswitch : taskNext k₁ = .ok (next, { k₁ with currentTask := next }) := by
    have hread : readTask k₁.currentTask k₁ = .ok ({ t with registers := frame.saved }, k₁) := by
      rw [hk₁]
      exact run_readTask.2 ⟨hne, setTask_tasks_self, rfl⟩
    have hget : taskGetNext k₁ = .ok (next, k₁) := by
      have hhead : k₁.taskHead = o.kernel.taskHead := by
        rw [hk₁]
        rfl
      unfold taskGetNext
      rw [Fallible.run_get_bind, Fallible.bind_ok hread, hhead]
      by_cases hlast : t.next = 0
      · rw [if_pos hlast] at hnext
        rw [if_pos hlast, hnext]
        rfl
      · rw [if_neg hlast] at hnext
        rw [if_neg hlast, hnext]
        rfl
    unfold taskNext
    rw [Fallible.bind_ok hget, if_neg h0]
    exact Fallible.run_bind.2 ⟨0, _, Fallible.run_seq.2 ⟨_, Fallible.run_modify.2 rfl, rfl⟩, rfl⟩
  refine ⟨?_, { o with kernel := { k₁ with currentTask := next } }, ?_, ?_, rfl⟩
  · unfold InterruptFor
    rw [hclock]
  · unfold interruptHandler
    rw [Fallible.run_get_bind]
    simp only [hclock]
    refine Fallible.run_seq.2 ⟨_, run_inKernel.2 ⟨k₁, hsave, rfl⟩, Fallible.run_bind.2
      ⟨some next, _, ?_, rfl⟩⟩
    exact Fallible.run_bind.2 ⟨_, _, run_inKernel.2 ⟨_, hswitch, rfl⟩, rfl⟩
  · have hkept := QueueKept.of_saveState hsave
    exact ⟨hkept.table, hkept.head, hkept.next, hkept.tasks⟩

/-- The first program is interrupted by the clock; the second one asks for a
key until the clock interrupts it, and the first one is to run again. -/
theorem interrupted_goesOn_program : ∃ o₀ o o₁ o' next,
    OsReached programVolume (fun _ => 0) 0 lowStack o₀ o ∧ Caller o.kernel 0 ∧
      interruptHandler 0 0x20 (userFrame 0x3FEFF8 0x202) o = .ok (some next, o₁) ∧
      Caller o₁.kernel 1 ∧ OsRunBeside programVolume 0 lowStack 0 [some 1, none] o₁ o' ∧
      Caller o'.kernel 0 ∧ Interrupted 0 (userFrame 0x3FEFF8 0x202) o.kernel o'.kernel ∧
      ∃ m', X86.run 0x100000 taskAsm 31 (returningMachine (userFrame 0x3FEFF8 0x202)) = some m' ∧
        GoesOn (userFrame 0x3FEFF8 0x202) m' := by
  obtain ⟨o₀, o, p, q, h, htwo, -⟩ := exists_osReached 0 (by decide)
  obtain ⟨hp0, hq0⟩ := htwo.task_ne
  obtain ⟨t, ht, hnext⟩ := htwo.next
  obtain ⟨u, hu, hlast⟩ := htwo.last
  have hpq : p.task ≠ q.task := by
    intro hsame
    rw [hsame, hu] at ht
    obtain rfl := Option.some.inj ht
    exact hq0 (hnext.symm.trans hlast)
  -- the clock: the second program is to run
  obtain ⟨hfor, o₁, hint, hkept₁, hcurrent₁⟩ := h.exists_clock (userFrame 0x3FEFF8 0x202)
    (htwo.runs ▸ hp0) (htwo.runs ▸ ht) (by rw [if_neg (hnext.symm ▸ hq0), hnext]) hq0
  have h₁ : OsReached programVolume (fun _ => 0) 0 lowStack o₀ o₁ :=
    h.trans (.single (.interrupt hfor hint))
  have hcaller₁ : Caller o₁.kernel 1 := by
    obtain ⟨q', hq', htask⟩ := hkept₁.tasks _ q htwo.second
    refine ⟨by decide, by rw [hkept₁.table]; exact htwo.ne_zero.2, q', ?_, htask.trans hcurrent₁.symm⟩
    rw [hkept₁.table]
    exact hq'
  -- it asks for a key
  obtain ⟨c, o₂, -, hstep₂, hkept₂, hcurrent₂⟩ := h₁.exists_getkey hcaller₁ (userFrame 0x3FEFF8 0x202)
  have h₂ : OsReached programVolume (fun _ => 0) 0 lowStack o₀ o₂ := h₁.trans (.single hstep₂)
  have hkept := hkept₁.trans hkept₂
  have hcurrent : o₂.kernel.currentTask = q.task := hcurrent₂.trans hcurrent₁
  -- the clock: the first one is to run again
  obtain ⟨u', hu', hlast'⟩ : ∃ u', o₂.kernel.tasks q.task = some u' ∧ u'.next = 0 := by
    have hmap := hkept.next q.task
    rw [hu, Option.map_some, hlast, Option.map_eq_some_iff] at hmap
    exact hmap
  obtain ⟨hfor', o', hint', hkept₃, hcurrent₃⟩ := h₂.exists_clock (userFrame 0x3FEFF8 0x202)
    (hcurrent ▸ hq0) (hcurrent ▸ hu') (by rw [if_pos hlast', hkept.head, htwo.head]) hp0
  have hcaller' : Caller o'.kernel 0 := by
    obtain ⟨p', hp', htask⟩ := (hkept.trans hkept₃).tasks _ p htwo.first
    refine ⟨by decide, ?_, p', ?_, htask.trans hcurrent₃.symm⟩
    · rw [hkept₃.table, hkept.table]
      exact htwo.ne_zero.1
    · rw [hkept₃.table, hkept.table]
      exact hp'
  -- in between the first program does not run
  have hbeside : ∀ {k : Kernel}, QueueKept o.kernel k → k.currentTask = q.task → ¬ k.Runs 0 := by
    rintro k hk hcurrent ⟨p₁, hp₁, hruns⟩
    obtain ⟨p₂, hp₂, htask⟩ := hk.tasks _ p htwo.first
    rw [hk.table, hp₂] at hp₁
    obtain rfl := Option.some.inj hp₁
    exact hpq (htask.symm.trans (hruns.trans hcurrent))
  have hrun : OsRunBeside programVolume 0 lowStack 0 [some 1, none] o₁ o' :=
    .cons ⟨hstep₂, hbeside hkept₁ hcurrent₁⟩
      (.single ⟨.interrupt hfor' hint', hbeside hkept hcurrent⟩)
  obtain ⟨hinterrupted, hreturn⟩ := interrupted_goesOn h htwo.caller (by decide) hfor (by simp)
    (by decide) hint hrun (by simp)
  exact ⟨o₀, o, o₁, o', _, h, htwo.caller, hint, hcaller₁, hrun, hcaller', hinterrupted,
    hreturn _ _ _ (atTaskReturn_returningMachine _)⟩

end OwnKernel
