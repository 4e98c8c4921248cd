import OwnKernel.System.Boot
import OwnKernel.Task.Switch

/-!
# What holds while programs run

`OsReached` is a state of the system at any time after its start. In each
of them the programs are kept apart (`programs_isolated`), the kernel's
memory is out of their reach (`kernel_protected`) and as it was left
(`kernelBlocks_kept`), the process table is in order
(`processTable_inOrder`), the volume is mounted (`volume_mounted`) and the
commands are served by their functions (`isr80hHandler_served`); and from
each of them on, what the programs of other slots do leaves a program
alone (`others_untouched`).
-/

namespace OwnKernel

variable {K : Set Word} {k : Kernel} {c : ChunkView} {mem : Mem} {o o' o₀ : Os} {image : Sectors}
variable {stack : KernelStack} {fuel i j : ℕ} {l : List (Option ℕ)} {p q : Process} {t u : Task}
variable {b v w x : Word} {procs : ℕ → Process} {view : ℕ → ChunkView}

/-- **A state that is reached**, from where the start left the system. -/
structure OsReached (image : Sectors) (mem : Mem) (fuel : ℕ) (stack : KernelStack) (o₀ o : Os) :
    Prop where
  start : kernelMainInit image (poweredOn mem) = .ok (⟨⟩, o₀)
  outside : stack.Outside kernelHeapInit
  bounded : fuel ≤ 2 ^ 30
  run : ∃ l, OsRun image fuel stack l o₀ o

namespace OsReached

/-- The system is in order, and the kernel's blocks are what they were. -/
theorem inv (h : OsReached image mem fuel stack o₀ o) : InOrder o₀.kernel.allBlocks o.kernel ∧
    Spares ∅ o₀.kernel.allBlocks o₀.kernel o.kernel ∧ stack.Outside o.kernel.store.heap ∧
      kernelHeapInit.SamePlace o.kernel.store.heap := by
  obtain ⟨l, hrun⟩ := h.run
  have hstarting := kernelMainInit_starting h.start
  have hplace : kernelHeapInit.SamePlace o₀.kernel.store.heap := hstarting.files.place
  obtain ⟨hin, hspares⟩ := hrun.inv hstarting.inOrder (h.outside.samePlace hplace) h.bounded
  have hplace' := hplace.trans hspares.place
  exact ⟨hin, hspares, h.outside.samePlace hplace', hplace'⟩

/-- The tables are filled. -/
theorem registered (h : OsReached image mem fuel stack o₀ o) : Registered o := by
  obtain ⟨l, hrun⟩ := h.run
  exact hrun.registered (kernelMainInit_registered h.start)

/-- A run on from there. -/
theorem trans (h : OsReached image mem fuel stack o₀ o) (hrun : OsRun image fuel stack l o o') :
    OsReached image mem fuel stack o₀ o' := by
  obtain ⟨l₀, hrun₀⟩ := h.run
  exact ⟨h.start, h.outside, h.bounded, l₀ ++ l, hrun₀.append hrun⟩

end OsReached

/-! ## A system with two programs -/

/-- A kernel's stack below its heap. -/
def lowStack : KernelStack where
  buffer := 0x5000
  filename := 0x5400
  argument := 0x5500
  path _ := 0

theorem outside_lowStack : lowStack.Outside kernelHeapInit := by
  have hlow : ∀ x, InRange 0x5000 4096 x → ¬ kernelHeapInit.Spans x := fun x hx =>
    KernelHeap.init.not_spans (le_refl _) hx
  have hpart : ∀ (i n : ℕ) (x : Word), i + n ≤ 4096 → InRange (0x5000 + BitVec.ofNat 32 i) n x →
      InRange 0x5000 4096 x := by
    intro i n x hin hx
    unfold InRange at *
    bv_omega
  exact ⟨fun x hx => hlow x (hpart 0 1024 x (by decide) hx),
    fun x hx => hlow x (hpart 0x400 108 x (by decide) hx),
    fun x hx => hlow x (hpart 0x500 516 x (by decide) hx)⟩

/-- **A program is started**, in the first slot that is free. -/
theorem OsReached.exists_start {N n : ℕ} {fat : FatPrivate}
    (h : OsReached programVolume mem fuel stack o₀ o)
    (hprogram : ProgramReady programVolume o.kernel fat programItem n) (hready : CommandReady o.kernel)
    (hi : i < osMaxProcesses) (h0 : o.kernel.processTable i = 0)
    (hbefore : ∀ j < i, o.kernel.processTable j ≠ 0) (hn : n + 1053 + N ≤ 25600) :
    ∃ process k p c, ProgramStarted programVolume o.kernel k i process fat programItem N p c ∧
      k.processTable = Function.update o.kernel.processTable i process ∧
      OsStep programVolume fuel stack none o
        { o with kernel := { k with currentProcess := process } } := by
  obtain ⟨⟨_, _, s⟩, -⟩ := h.inv
  obtain ⟨process, k, p, c, hload, hswitch, hs⟩ :=
    hprogram.exists_processLoadSwitch hready hi h0 hbefore hn
  obtain ⟨k₁, p₁, file, hheader, hready₁, htask⟩ := hs.made
  have hfits : ProgramInBlocks k process := hheader.programInBlocks hready₁ htask
  obtain ⟨_, _, -, ⟨hneg, -⟩ | ⟨-, -, htable⟩⟩ :=
    s.load (R := ∅) (by omega) (by omega) hload fun _ => hfits
  · exact absurd hneg (lt_irrefl 0)
  exact ⟨process, k, p, c, hs, htable, .start hswitch fun _ => hfits⟩

/-- **Two programs**, in the first two slots: the first one runs, the
second one's turn is next. -/
structure TwoPrograms (k : Kernel) (p q : Process) : Prop where
  ne_zero : k.processTable 0 ≠ 0 ∧ k.processTable 1 ≠ 0
  first : k.processes (k.processTable 0) = some p
  second : k.processes (k.processTable 1) = some q
  records : p.allocations = Process.zero.allocations
  records_second : q.allocations = Process.zero.allocations
  runs : p.task = k.currentTask
  task_ne : p.task ≠ 0 ∧ q.task ≠ 0
  head : k.taskHead = p.task
  next : ∃ t, k.tasks p.task = some t ∧ t.next = q.task
  last : ∃ t, k.tasks q.task = some t ∧ t.next = 0

theorem TwoPrograms.caller {q : Process} (h : TwoPrograms k p q) : Caller k 0 :=
  ⟨by decide, h.ne_zero.1, p, h.first, h.runs⟩

/-- **A system with two programs**: the start from a volume that has one,
and two loads of it. Most of the heap is left. -/
theorem exists_osReached (fuel : ℕ) (hfuel : fuel ≤ 2 ^ 30) :
    ∃ o₀ o p q, OsReached programVolume (fun _ => 0) fuel lowStack o₀ o ∧
      TwoPrograms o.kernel p q ∧
        ∃ m, o.kernel.store.heap.Room m ∧ m + 20000 ≤ o.kernel.store.heap.total := by
  obtain ⟨s₀, fat, n, hresolve, hn, huntouched, hdisk, hmounted, hfind⟩ :=
    oneFile_programVolume.exists_resolved
  obtain ⟨o₀, t, hrun, hkernel, m, hroom, hm⟩ := kernelMainInit_of_resolved (n := 24000)
    (show fat16Resolve programVolume (startingFs fun _ => 0) = _ from hresolve)
    ⟨n, huntouched.1.2, by rw [huntouched.1.total]; omega⟩
  have hstarting := kernelMainInit_starting hrun
  have hplace : kernelHeapInit.SamePlace t.heap := by
    have hplace := hstarting.files.place
    rwa [hkernel] at hplace
  have hready : t.heap.Ready := hplace.ready ready_kernelHeapInit
  have htotal : t.heap.total = 25600 := hplace.total
  obtain ⟨_, _, s⟩ := hstarting.inOrder
  have hlist : TaskListReady o₀.kernel := by
    have hboot : TaskListReady { bootKernel with store := t } := taskListReady_bootKernel hready
    rw [hkernel]
    exact hboot.congr hready (fun _ _ _ _ hq => hq) ⟨rfl, rfl, rfl, rfl, rfl, rfl⟩
  have hcommand : CommandReady o₀.kernel :=
    ⟨hlist, s.files, fun q _ _ => congrFun hstarting.files.objects q⟩
  have hprogram : ProgramReady programVolume o₀.kernel fat programItem m := by
    refine programReady_programVolume s.files ?_ ?_ hmounted hfind ?_
    · rw [hkernel]
      exact ⟨hplace, hroom⟩
    · rw [hkernel]
      change (⟨_, s₀.disk.fsPrivate⟩ : Disk) = _
      rw [hdisk, if_pos rfl]
    · rw [hkernel]
      exact huntouched.2.2
  have hhead : o₀.kernel.taskHead = 0 := by
    rw [hkernel]
    rfl
  have h₀ : OsReached programVolume (fun _ => 0) fuel lowStack o₀ o₀ :=
    ⟨hrun, outside_lowStack, hfuel, [], .nil⟩
  -- the first load, which makes the only task
  obtain ⟨process, k₁, p, c, hs, htable, hstep⟩ := h₀.exists_start (N := 22900) hprogram hcommand
    (show 0 < osMaxProcesses by decide) (congrFun hstarting.processTable 0)
    (fun _ hj => absurd hj (Nat.not_lt_zero _)) (by omega)
  have hslot : k₁.processTable 0 = process := by
    rw [htable]
    exact Function.update_self ..
  have hlist₁ := hs.list
  obtain ⟨hhead₁, hcurrent₁⟩ : k₁.taskHead = p.task ∧ k₁.currentTask = p.task :=
    ⟨hlist₁.head.trans (if_pos hhead), hlist₁.current.trans (if_pos hhead)⟩
  obtain ⟨o₁, ho₁⟩ : ∃ o₁ : Os, o₁ = { o₀ with kernel := { k₁ with currentProcess := process } } :=
    ⟨_, rfl⟩
  rw [← ho₁] at hstep
  have h₁ : OsReached programVolume (fun _ => 0) fuel lowStack o₀ o₁ := h₀.trans (.single hstep)
  obtain ⟨m₁, hagain, hm₁⟩ := hs.again
  have hprogram₁ : ProgramReady programVolume o₁.kernel fat programItem m₁ := by
    rw [ho₁]
    exact ⟨hagain.owned, hagain.room, hagain.disk, hagain.found, hagain.isFile, hagain.table,
      hagain.size, hagain.header⟩
  have hcommand₁ : CommandReady o₁.kernel := by
    rw [ho₁]
    exact hs.ready.congr rfl rfl rfl rfl rfl rfl
  have hkernel₁ : o₁.kernel.processTable 0 = process ∧ o₁.kernel.processTable 1 = 0 ∧
      o₁.kernel.processes process = some p := by
    rw [ho₁]
    refine ⟨hslot, ?_, hs.object⟩
    change k₁.processTable 1 = 0
    rw [htable, Function.update_of_ne (by decide), hstarting.processTable]
  obtain ⟨hzero₁, hone₁, hobject₁⟩ := hkernel₁
  -- the second load, which leaves the first slot alone
  obtain ⟨process', k₂, q, c', hs', htable', hstep'⟩ := h₁.exists_start (N := 21800) hprogram₁
    hcommand₁ (show 1 < osMaxProcesses by decide) hone₁
    (fun j hj => by
      obtain rfl : j = 0 := by omega
      rw [hzero₁]
      exact hs.ne_zero) (by omega)
  obtain ⟨hin, -, hout, -⟩ := h₁.inv
  have hkept := (hstep'.slotKept hin hout hfuel (show 0 < osMaxProcesses by decide)
    (by rw [hzero₁]; exact hs.ne_zero) (by simp)).1
  have hlist₂ := hs'.list
  have hlists : o₁.kernel.taskHead = p.task ∧ o₁.kernel.taskTail = p.task ∧
      o₁.kernel.currentTask = p.task := by
    rw [ho₁]
    exact ⟨hhead₁, hlist₁.tail, hcurrent₁⟩
  obtain ⟨hhead₂, htail₂, hcurrent₂⟩ := hlists
  have hne : o₁.kernel.taskHead ≠ 0 := by
    rw [hhead₂]
    exact hlist₁.ne_zero
  have hcurrent : k₂.currentTask = p.task := hlist₂.current.trans ((if_neg hne).trans hcurrent₂)
  obtain ⟨m₂, hagain', hm₂⟩ := hs'.again
  refine ⟨o₀, _, p, q, h₁.trans (.single hstep'), ⟨⟨?_, ?_⟩, ?_, ?_, hs.records, hs'.records,
    hcurrent.symm, ⟨hlist₁.ne_zero, hlist₂.ne_zero⟩, hlist₂.head.trans ((if_neg hne).trans hhead₂), ?_,
    hlist₂.last⟩, m₂, hagain'.room.2, ?_⟩
  · rw [hkept.table, hzero₁]
    exact hs.ne_zero
  · change k₂.processTable 1 ≠ 0
    rw [htable', Function.update_self]
    exact hs'.ne_zero
  · rw [hkept.table, hkept.process (by rw [hzero₁]; exact hs.ne_zero), hzero₁]
    exact hobject₁
  · change k₂.processes (k₂.processTable 1) = some q
    rw [htable', Function.update_self]
    exact hs'.object
  · obtain ⟨u, hu, hnext⟩ := hlist₂.before hne
    rw [htail₂] at hu
    exact ⟨u, hu, hnext⟩
  · rw [show ({ k₂ with currentProcess := process' } : Kernel).store.heap.total = 25600 from
      hagain'.room.total]
    omega

/-! ## The ways in -/

/-- The command a number asks for. -/
def servedCommand (command : ℤ) : Option Isr80hCommand :=
  if command < 0 then none else registeredCommands[command.toNat]?

/-- A command is served, if it is one. -/
def serveCommand (image : Sectors) (fuel : ℕ) (stack : KernelStack) :
    Option Isr80hCommand → OsM CommandResult
  | none => pure (.returned 0)
  | some commandFunc => commandFunc.run image fuel stack

/-- What `isr80h_handler` comes to, with the tables filled. -/
theorem OsReached.isr80hHandler_eq (h : OsReached image mem fuel stack o₀ o) (command : ℤ)
    (frame : InterruptFrame) : isr80hHandler image fuel stack command frame o = (do
      inKernel (taskCurrentSaveState frame)
      let res ← serveCommand image fuel stack (servedCommand command)
      match res with
      | CommandResult.switched task => pure (.switched task)
      | CommandResult.returned val => do
        inKernel taskPage
        pure (.returned val) : OsM CommandResult) o := by
  have hcommands := h.registered.commands
  unfold isr80hHandler
  refine Fallible.run_bind_congr fun u o₁ hsave => Fallible.run_bind_congr_left ?_
  obtain ⟨k, -, rfl⟩ := run_inKernel.1 hsave
  unfold isr80hHandleCommand servedCommand
  by_cases hneg : command < 0
  · rw [if_pos (Or.inl hneg), if_pos hneg]
    rfl
  rw [if_neg hneg]
  by_cases hlarge : (osMaxIsr80hCommands : ℤ) ≤ command
  · have hlen : registeredCommands.length ≤ command.toNat := by
      change 9 ≤ command.toNat
      unfold osMaxIsr80hCommands at hlarge
      omega
    rw [if_pos (Or.inr hlarge), List.getElem?_eq_none hlen]
    rfl
  · rw [if_neg (by omega)]
    change (match o.isr80hCommands command.toNat with
      | none => pure (.returned 0)
      | some commandFunc => commandFunc.run image fuel stack : OsM CommandResult) _ = _
    rw [hcommands]
    cases registeredCommands[command.toNat]? with
    | none => rfl
    | some c => rfl

/-- **The nine commands are served by their functions**, and any other
number is answered with 0. -/
theorem isr80hHandler_served (h : OsReached image mem fuel stack o₀ o) (command : ℤ)
    (frame : InterruptFrame) : isr80hHandler image fuel stack command frame o = (do
      inKernel (taskCurrentSaveState frame)
      let res ← serveCommand image fuel stack (servedCommand command)
      match res with
      | CommandResult.switched task => pure (.switched task)
      | CommandResult.returned val => do
        inKernel taskPage
        pure (.returned val) : OsM CommandResult) o :=
  h.isr80hHandler_eq command frame

/-- With a program there. -/
theorem isr80hHandler_served_program : ∃ o₀ o,
    OsReached programVolume (fun _ => 0) 0 lowStack o₀ o ∧ o.kernel.processTable 0 ≠ 0 ∧
      ∀ command frame, isr80hHandler programVolume 0 lowStack command frame o = (do
        inKernel (taskCurrentSaveState frame)
        let res ← serveCommand programVolume 0 lowStack (servedCommand command)
        match res with
        | CommandResult.switched task => pure (.switched task)
        | CommandResult.returned val => do
          inKernel taskPage
          pure (.returned val) : OsM CommandResult) o := by
  obtain ⟨o₀, o, p, q, h, htwo, -⟩ := exists_osReached 0 (by decide)
  exact ⟨o₀, o, h, htwo.ne_zero.1, isr80hHandler_served h⟩

/-- **A command that comes back** and only works on the kernel: the state
is saved, and what it answers is returned. -/
theorem OsReached.isr80hHandler_iff {command : ℤ} {c : Isr80hCommand} {y : KernelM CommandResult}
    {res : CommandResult} (h : OsReached image mem fuel stack o₀ o)
    (hsave : taskCurrentSaveState frame o.kernel = .ok (⟨⟩, k)) (hc : servedCommand command = some c)
    (hy : c.run image fuel stack = inKernel y)
    (hreturns : ∀ r k', y k = .ok (r, k') → ∃ val, r = .returned val) :
    isr80hHandler image fuel stack command frame o = .ok (res, o') ↔
      ∃ k', y k = .ok (res, k') ∧ o' = { o with kernel := k' } := by
  have hserve : serveCommand image fuel stack (some c) = inKernel y := hy
  rw [h.isr80hHandler_eq, hc, hserve]
  constructor
  · intro hrun
    obtain ⟨o₁, hsave', hrun⟩ := Fallible.run_seq.1 hrun
    obtain ⟨k₁, hk₁, rfl⟩ := run_inKernel.1 hsave'
    obtain ⟨-, rfl⟩ := Prod.mk.inj (Except.ok.inj (hsave.symm.trans hk₁))
    obtain ⟨r, o₂, hcommand, hend⟩ := Fallible.run_bind.1 hrun
    obtain ⟨k₂, hk₂, rfl⟩ := run_inKernel.1 hcommand
    obtain ⟨val, rfl⟩ := hreturns r k₂ hk₂
    obtain ⟨o₃, hpage, hpure⟩ := Fallible.run_seq.1 hend
    obtain ⟨rfl, rfl⟩ := Fallible.run_pure.1 hpure
    obtain ⟨k₃, hk₃, rfl⟩ := run_inKernel.1 hpage
    obtain ⟨-, rfl⟩ := Prod.mk.inj (Except.ok.inj hk₃)
    exact ⟨_, hk₂, rfl⟩
  · rintro ⟨k', hk', rfl⟩
    obtain ⟨val, rfl⟩ := hreturns res k' hk'
    refine Fallible.run_seq.2 ⟨_, run_inKernel.2 ⟨k, hsave, rfl⟩, ?_⟩
    refine Fallible.run_bind.2 ⟨_, _, run_inKernel.2 ⟨k', hk', rfl⟩, ?_⟩
    exact Fallible.run_seq.2 ⟨_, run_inKernel.2 ⟨k', rfl, rfl⟩, rfl⟩

/-- **The exceptions, the clock and the keyboard are served**, and on any
other interrupt the kernel goes on with the current task. -/
theorem interruptHandler_served (h : OsReached image mem fuel stack o₀ o) (scancode : Byte)
    (interrupt : ℕ) (frame : InterruptFrame) : interruptHandler scancode interrupt frame o =
      (match registeredCallbacks interrupt with
      | none => do
        inKernel taskPage
        pure none
      | some callback => do
        inKernel (taskCurrentSaveState frame)
        let left ← callback.run scancode
        match left with
        | some task => pure (some task)
        | none => do
          inKernel taskPage
          pure none : OsM (Option Word)) o := by
  rw [← h.registered.callbacks interrupt]
  rfl

/-- **The queue is kept**: the table, whose tasks they are, and who is next
after each. -/
structure QueueKept (k k' : Kernel) : Prop where
  table : k'.processTable = k.processTable
  head : k'.taskHead = k.taskHead
  next : ∀ q, (k'.tasks q).map Task.next = (k.tasks q).map Task.next
  tasks : ∀ q p, k.processes q = some p → ∃ p', k'.processes q = some p' ∧ p'.task = p.task

/-- The state of a program that runs can be saved. -/
theorem Caller.exists_saveState (hi : Caller k i) (s : InOrder K k) (frame : InterruptFrame) :
    ∃ k', taskCurrentSaveState frame k = .ok (⟨⟩, k') ∧
      ∀ t, k'.tasks k'.currentTask = some t → t.registers.esp = frame.esp := by
  obtain ⟨t, hread, -⟩ := hi.exists_task s
  obtain ⟨hne, ht, -⟩ := run_readTask.1 hread
  have hsave : taskCurrentSaveState frame k = .ok (⟨⟩, k.setTask k.currentTask
      (some { t with registers := frame.saved })) := by
    unfold taskCurrentSaveState
    rw [Fallible.run_get_bind, if_neg hne]
    exact run_modifyTask.2 ⟨hne, t, ht, rfl⟩
  refine ⟨_, hsave, fun u hu => ?_⟩
  obtain rfl := Option.some.inj (setTask_tasks_self.symm.trans hu)
  rfl

theorem QueueKept.trans {k₁ : Kernel} (a : QueueKept k k₁) (b : QueueKept k₁ k') : QueueKept k k' where
  table := b.table.trans a.table
  head := b.head.trans a.head
  next q := (b.next q).trans (a.next q)
  tasks q p hq := by
    obtain ⟨p₁, hp₁, htask⟩ := a.tasks q p hq
    obtain ⟨p', hp', htask'⟩ := b.tasks q p₁ hp₁
    exact ⟨p', hp', htask'.trans htask⟩

/-- Saving the state of a task keeps them. -/
theorem QueueKept.of_saveState {frame : InterruptFrame}
    (hsave : taskCurrentSaveState frame k = .ok (⟨⟩, k')) : QueueKept k k' := by
  obtain ⟨t, registers, ht, rfl⟩ := taskCurrentSaveState_cases hsave
  refine ⟨rfl, rfl, fun q => ?_, fun q p hq => ⟨p, hq, rfl⟩⟩
  by_cases hq : q = k.currentTask
  · rw [hq, setTask_tasks_self, ht]
    rfl
  · rw [setTask_tasks_of_ne hq]

/-- The program that runs asks for a key, and its keyboard's buffer is all
that changes. -/
theorem Caller.exists_getkey (hi : Caller k i) (s : InOrder K k) :
    ∃ c k', isr80hCommand2Getkey k = .ok (.returned c, k') ∧ QueueKept k k' ∧
      k'.currentTask = k.currentTask := by
  obtain ⟨t, hread, hprocess⟩ := hi.exists_task s
  have hne := (run_readTask.1 hread).1
  obtain ⟨p, hp, -⟩ := hi.runs
  have hread' : readProcess t.process k = .ok (p, k) := by
    rw [hprocess]
    exact run_readProcess.2 ⟨hi.ne_zero, hp, rfl⟩
  have hget : (get : KernelM Kernel) k = .ok (k, k) := rfl
  have hpop : ∃ c k', keyboardPop k = .ok (c, k') ∧ QueueKept k k' ∧
      k'.currentTask = k.currentTask := by
    unfold keyboardPop
    rw [Fallible.bind_ok hget, if_neg hne, Fallible.bind_ok hread, Fallible.bind_ok hread']
    by_cases hc : p.keyboard.buffer (keyboardGetHeadIndex p.keyboard) = 0
    · simp only [if_pos hc]
      exact ⟨0, k, rfl, ⟨rfl, rfl, fun _ => rfl, fun q p hq => ⟨p, hq, rfl⟩⟩, rfl⟩
    · simp only [if_neg hc]
      refine ⟨_, k.setProcess t.process (some { p with keyboard := keyboardTake p.keyboard }),
        Fallible.run_seq.2 ⟨_, run_modifyProcess.2 ⟨hprocess ▸ hi.ne_zero, p, hprocess ▸ hp, rfl⟩,
          rfl⟩, ⟨rfl, rfl, fun _ => rfl, fun q p' hq => ?_⟩, rfl⟩
      by_cases hself : q = t.process
      · rw [hself] at hq ⊢
        obtain rfl := Option.some.inj ((hprocess ▸ hp).symm.trans hq)
        exact ⟨_, setProcess_processes_self, rfl⟩
      · exact ⟨p', (Function.update_of_ne hself ..).trans hq, rfl⟩
  obtain ⟨c, k', hpop, hkept⟩ := hpop
  exact ⟨_, k', Fallible.run_bind.2 ⟨c, k', hpop, rfl⟩, hkept⟩

/-- **A program asks for a key.** -/
theorem OsReached.exists_getkey (h : OsReached image mem fuel stack o₀ o) (hi : Caller o.kernel i)
    (frame : InterruptFrame) : ∃ c o', isr80hHandler image fuel stack 2 frame o =
      .ok (.returned c, o') ∧ OsStep image fuel stack (some i) o o' ∧ QueueKept o.kernel o'.kernel ∧
        o'.kernel.currentTask = o.kernel.currentTask := by
  obtain ⟨k, hsave, -⟩ := hi.exists_saveState h.inv.1 frame
  have hsaved : InOrder o₀.kernel.allBlocks k := ((Entered.saves hsave).inOrder h.inv.1).1
  obtain ⟨c, k', hcommand, hkept, hcurrent⟩ := (hi.saveState hsave).exists_getkey hsaved
  have hreturns : ∀ r k', isr80hCommand2Getkey k = .ok (r, k') → ∃ val, r = .returned val := by
    intro r k' hrun
    obtain ⟨c, k₁, -, hpure⟩ := Fallible.run_bind.1 hrun
    exact ⟨_, (Fallible.run_pure.1 hpure).1⟩
  have hserved : servedCommand 2 = some .getkey := rfl
  have hrun : isr80hHandler image fuel stack 2 frame o = .ok (.returned c, { o with kernel := k' }) :=
    (h.isr80hHandler_iff hsave hserved rfl hreturns).2 ⟨k', hcommand, rfl⟩
  have hsame : k.currentTask = o.kernel.currentTask := by
    obtain ⟨t, registers, -, rfl⟩ := taskCurrentSaveState_cases hsave
    rfl
  refine ⟨c, _, hrun, .syscall hi (fun k₁ c₁ _ hc => ?_) hrun,
    (QueueKept.of_saveState hsave).trans hkept, hcurrent.trans hsame⟩
  rw [h.registered.commands] at hc
  obtain rfl := Option.some.inj hc
  trivial

/-! ## Programs and structures -/

/-- **The program in slot `i`**, by its structure and its task. -/
structure Kernel.ProgramOf (k : Kernel) (i : ℕ) (p : Process) (t : Task) : Prop where
  lt : i < osMaxProcesses
  ne_zero : k.processTable i ≠ 0
  process : k.processes (k.processTable i) = some p
  task : k.tasks p.task = some t

/-- **What the kernel keeps for itself**: the structures of processes, of
ELF files and of tasks, directories with their tables, and the objects of
the file layer. -/
inductive Kernel.Reserved (k : Kernel) : Word → Prop
  | object {b : Word} : k.objects b ≠ none → k.Reserved b
  | process {i : ℕ} {p : Process} {t : Task} : k.ProgramOf i p t → k.Reserved (k.processTable i)
  | elfFile {i : ℕ} {p : Process} {t : Task} : k.ProgramOf i p t →
      p.filetype = processFiletypeElf → k.Reserved p.ptr
  | task {i : ℕ} {p : Process} {t : Task} : k.ProgramOf i p t → k.Reserved p.task
  | chunk {i : ℕ} {p : Process} {t : Task} : k.ProgramOf i p t → k.Reserved t.pageDirectory
  | directory {i : ℕ} {p : Process} {t : Task} : k.ProgramOf i p t →
      k.Reserved (k.store.mem.load32 t.pageDirectory)
  | pageTable {i n : ℕ} {p : Process} {t : Task} : k.ProgramOf i p t → n < 1024 →
      k.Reserved (k.store.mem.load32 (entryAddress (k.store.mem.load32 t.pageDirectory) n) &&&
        pagingAddressMask)

namespace SystemInv

variable (s : SystemInv K k procs view)
include s

/-- The program is the slot's process, on the slot's directory. -/
theorem of_programOf (h : k.ProgramOf i p t) : SlotInv k i p (view i) ∧ procs i = p ∧
    t.pageDirectory = (view i).chunk ∧
      k.store.mem.load32 t.pageDirectory = (view i).directory := by
  have hs := s.slot i h.lt h.ne_zero
  obtain rfl := Option.some.inj (hs.object.symm.trans h.process)
  obtain ⟨u, hu, hc⟩ := hs.directory.object
  obtain rfl := Option.some.inj (hu.symm.trans h.task)
  exact ⟨hs, rfl, hc, by rw [hc, hs.directory.mapped.directory_eq]⟩

/-- Every slot that is taken has one. -/
theorem exists_programOf (hi : i < osMaxProcesses) (h0 : k.processTable i ≠ 0) :
    ∃ t, k.ProgramOf i (procs i) t := by
  have hs := s.slot i hi h0
  obtain ⟨t, ht, -⟩ := hs.directory.object
  exact ⟨t, hi, h0, hs.object, ht⟩

/-- **What the kernel keeps for a process is a block of the process**, and
not one that is given to it. -/
theorem held_of_reserved (hb : k.Reserved b) : k.objects b ≠ none ∨
    ∃ j < osMaxProcesses, k.processTable j ≠ 0 ∧
      ∃ h, Held k (k.processTable j) (procs j) (view j) b h ∧ ¬ h.Given := by
  have hgiven : ∀ {h : Holding}, h = .process ∨ h = .elfFile ∨ h = .task ∨ h = .table → ¬ h.Given := by
    unfold Holding.Given
    rintro _ (rfl | rfl | rfl | rfl) <;> simp
  have hheld : ∀ {i p t h}, k.ProgramOf i p t →
      Held k (k.processTable i) p (view i) b h →
        h = .process ∨ h = .elfFile ∨ h = .task ∨ h = .table → k.objects b ≠ none ∨
          ∃ j < osMaxProcesses, k.processTable j ≠ 0 ∧
            ∃ h, Held k (k.processTable j) (procs j) (view j) b h ∧ ¬ h.Given := by
    intro i p t h hp hb hh
    obtain ⟨-, rfl, -⟩ := s.of_programOf hp
    exact Or.inr ⟨i, hp.lt, hp.ne_zero, h, hb, hgiven hh⟩
  cases hb with
  | object h0 => exact Or.inl h0
  | process hp => exact hheld hp .process (by simp)
  | elfFile hp helf => exact hheld hp (.elfFile helf) (by simp)
  | task hp => exact hheld hp .task (by simp)
  | chunk hp =>
    obtain ⟨-, -, hc, -⟩ := s.of_programOf hp
    exact hheld hp (.table (hc ▸ (view _).has_chunk)) (by simp)
  | directory hp =>
    obtain ⟨-, -, -, hd⟩ := s.of_programOf hp
    exact hheld hp (.table (hd ▸ (view _).has_directory)) (by simp)
  | pageTable hp hn =>
    obtain ⟨hs, -, -, hd⟩ := s.of_programOf hp
    refine hheld hp (.table ?_) (by simp)
    rw [hd, hs.directory.mapped.entry_eq _ hn]
    exact (view _).has_table hn

end SystemInv

/-! ## The programs and the kernel -/

/-- No byte of memory can be written by the programs of two slots. -/
def Kernel.ProgramsIsolated (k : Kernel) : Prop :=
  ∀ i < osMaxProcesses, ∀ j < osMaxProcesses, i ≠ j → ∀ v w x,
    k.SlotWrites i v x → ¬ k.SlotWrites j w x

/-- **What a program may not write**, where `K` are the blocks the kernel
has for itself: all but the heap's blocks, and of these the kernel's own
and those of its structures. -/
structure Kernel.Protected (K : Set Word) (k : Kernel) (x : Word) : Prop where
  inHeap : heapAddress.toNat ≤ x.toNat ∧ x.toNat < heapAddress.toNat + heapSizeBytes
  kernel : ∀ b ∈ K, ∃ n, k.store.heap.Owns b n ∧ ¬ InRange b (4096 * n) x
  reserved : ∀ b, k.Reserved b → ∃ n, k.store.heap.Owns b n ∧ ¬ InRange b (4096 * n) x

/-- **The process table is in order**: each entry is a process that knows
its slot, with a task that knows its process, and a directory; processes of different slots have
different structures, tasks, directories and stacks; and the current
process is one of the table. -/
structure Kernel.TableInOrder (k : Kernel) : Prop where
  program : ∀ i < osMaxProcesses, k.processTable i ≠ 0 →
    ∃ p t, k.ProgramOf i p t ∧ p.id = i ∧ t.process = k.processTable i
  distinct : ∀ i j p q t u, k.ProgramOf i p t → k.ProgramOf j q u →
    (k.processTable i = k.processTable j ∨ p.task = q.task ∨ t.pageDirectory = u.pageDirectory ∨
      p.stack = q.stack) → i = j
  current : k.currentProcess = 0 ∨ ∃ i < osMaxProcesses, k.processTable i ≠ 0 ∧
    k.processTable i = k.currentProcess

/-- In a system in order they are kept apart. -/
theorem InOrder.programsIsolated (h : InOrder K k) : k.ProgramsIsolated := by
  obtain ⟨procs, view, s⟩ := h
  intro i hi j hj hij v w x hw
  exact s.slotWrites_disjoint hi hj hij hw

/-- **Programs are kept apart** in every state that is reached. -/
theorem programs_isolated (h : OsReached image mem fuel stack o₀ o) : o.kernel.ProgramsIsolated :=
  h.inv.1.programsIsolated

/-- With two programs there. -/
theorem programs_isolated_program : ∃ o₀ o, OsReached programVolume (fun _ => 0) 0 lowStack o₀ o ∧
    (o.kernel.processTable 0 ≠ 0 ∧ o.kernel.processTable 1 ≠ 0) ∧ o.kernel.ProgramsIsolated := by
  obtain ⟨o₀, o, p, q, h, htwo, -⟩ := exists_osReached 0 (by decide)
  exact ⟨o₀, o, h, htwo.ne_zero, programs_isolated h⟩

/-- **The kernel's memory is out of the programs' reach** in every state
that is reached. -/
theorem kernel_protected (h : OsReached image mem fuel stack o₀ o) :
    ∀ i < osMaxProcesses, ∀ v x, o.kernel.SlotWrites i v x →
      o.kernel.Protected o₀.kernel.allBlocks x := by
  obtain ⟨⟨procs, view, s⟩, hspares, -, hplace⟩ := h.inv
  intro i hi v x hw
  refine ⟨?_, fun b hb => ?_, fun b hb => ?_⟩
  · obtain ⟨y, g, n, -, -, hn, hin⟩ := (s.slot i hi hw.1).lands hw
    have hspans := hplace.spans_iff.1 (hn.spans s.files.ready hin)
    unfold Heap.Spans at hspans
    change (x - heapAddress).toNat < 4096 * (104857600 / 4096) at hspans
    unfold heapAddress heapSizeBytes at *
    bv_omega
  · obtain ⟨n, hn⟩ := (s.kernel b hb).1
    exact ⟨n, hn, fun hin => s.not_slotWrites_of_kernel hi hb hn hin hw⟩
  · obtain h0 | ⟨j, hj, hj0, g, hheld, hgiven⟩ := s.held_of_reserved hb
    · exact ⟨1, s.files.owns b h0, fun hin => s.not_slotWrites_of_object hi h0 (by omega) hw⟩
    · obtain ⟨⟨n, hn⟩, -⟩ := (s.slot j hj hj0).owned b g hheld
      exact ⟨n, hn, fun hin => s.not_slotWrites_of_held hi hj hj0 hheld hgiven hn hin hw⟩

/-- From the program that is there. -/
theorem kernel_protected_program : ∃ o₀ o, OsReached programVolume (fun _ => 0) 0 lowStack o₀ o ∧
    o.kernel.processTable 0 ≠ 0 ∧ ∀ i < osMaxProcesses, ∀ v x, o.kernel.SlotWrites i v x →
      o.kernel.Protected o₀.kernel.allBlocks x := by
  obtain ⟨o₀, o, p, q, h, htwo, -⟩ := exists_osReached 0 (by decide)
  exact ⟨o₀, o, h, htwo.ne_zero.1, kernel_protected h⟩

/-- **The process table is in order** in every state that is reached. -/
theorem processTable_inOrder (h : OsReached image mem fuel stack o₀ o) :
    o.kernel.TableInOrder := by
  obtain ⟨⟨procs, view, s⟩, -⟩ := h.inv
  refine ⟨fun i hi h0 => ?_, fun i j p q t u hp hq heq => ?_, s.current⟩
  · obtain ⟨t, ht⟩ := s.exists_programOf hi h0
    obtain ⟨u, hu, hprocess⟩ := (s.slot i hi h0).task
    obtain rfl := Option.some.inj (hu.symm.trans ht.task)
    exact ⟨_, u, ht, (s.slot i hi h0).id, hprocess⟩
  · obtain ⟨-, rfl, hc, -⟩ := s.of_programOf hp
    obtain ⟨-, rfl, hc', -⟩ := s.of_programOf hq
    have hapart : ∀ {x} (g g'), Held o.kernel (o.kernel.processTable i) (procs i) (view i) x g →
        Held o.kernel (o.kernel.processTable j) (procs j) (view j) x g' → i = j := fun g g' hx hx' =>
      s.apart i hp.lt j hq.lt hp.ne_zero hq.ne_zero _ _ _ hx hx'
    rcases heq with heq | heq | heq | heq
    · exact s.processTable_injective hp.lt hq.lt hp.ne_zero heq
    · refine hapart .task .task .task ?_
      rw [heq]
      exact .task
    · refine hapart .table .table (.table (view i).has_chunk) ?_
      rw [← hc, heq, hc']
      exact .table (view j).has_chunk
    · refine hapart .stack .stack .stack ?_
      rw [heq]
      exact .stack

/-- With two entries. -/
theorem processTable_inOrder_program : ∃ o₀ o,
    OsReached programVolume (fun _ => 0) 0 lowStack o₀ o ∧
      (o.kernel.processTable 0 ≠ 0 ∧ o.kernel.processTable 1 ≠ 0) ∧ o.kernel.TableInOrder := by
  obtain ⟨o₀, o, p, q, h, htwo, -⟩ := exists_osReached 0 (by decide)
  exact ⟨o₀, o, h, htwo.ne_zero, processTable_inOrder h⟩

/-- **What the others do leaves a program alone**: in a run without an event
for slot `j`, its entry in the table, its structure, the addresses it sees
and the memory it can write stay what they were. -/
theorem others_untouched (h : OsReached image mem fuel stack o₀ o) (hj : j < osMaxProcesses)
    (h0 : o.kernel.processTable j ≠ 0) (hrun : OsRun image fuel stack l o o') (hl : some j ∉ l) :
    SlotKept j o.kernel o'.kernel := by
  obtain ⟨hin, -, hout, -⟩ := h.inv
  exact hrun.kept hin hout h.bounded hj h0 hl

/-- The second program, while the first one asks for a key. -/
theorem others_untouched_program : ∃ o₀ o o' l,
    OsReached programVolume (fun _ => 0) 0 lowStack o₀ o ∧ Caller o.kernel 0 ∧
      o.kernel.processTable 1 ≠ 0 ∧ OsRun programVolume 0 lowStack l o o' ∧ l = [some 0] ∧
        SlotKept 1 o.kernel o'.kernel := by
  obtain ⟨o₀, o, p, q, h, htwo, -⟩ := exists_osReached 0 (by decide)
  obtain ⟨c, o', -, hstep, -⟩ := h.exists_getkey htwo.caller (userFrame 0x3FEFF8 0x202)
  exact ⟨o₀, o, o', [some 0], h, htwo.caller, htwo.ne_zero.2, .single hstep, rfl,
    others_untouched h (by decide) htwo.ne_zero.2 (.single hstep) (by simp)⟩

/-! ## The volume -/

/-- The disk is what the start has made of it. -/
theorem OsReached.disk_eq (h : OsReached image mem fuel stack o₀ o) :
    o.kernel.disk = o₀.kernel.disk := h.inv.2.1.disk

/-- **The kernel starts from every volume that is one**, whatever memory
held before, and the volume is mounted in every state that is reached. The
header of such a volume bears the signature, and its root directory fits in
a block and has an end. -/
theorem volume_mounted {total : ℤ} (mem : Mem)
    (hsig : (volumeHeader image).signature = fat16Signature)
    (hentries : 0 < (volumeHeader image).rootDirEntries.toNat)
    (hle : (volumeHeader image).rootDirEntries.toNat ≤ 128)
    (htotal : fat16GetTotalItemsForDirectory image (volumeHeader image).rootDirSectorPos = .ok total) :
    ∃ o₀ fat, kernelMainInit image (poweredOn mem) = .ok (⟨⟩, o₀) ∧ Mounted image fat ∧
      ∀ fuel stack o, OsReached image mem fuel stack o₀ o →
        o.kernel.disk = ⟨some .fat16, some fat⟩ := by
  obtain ⟨o₀, fat, hrun, hdisk, hmounted, -⟩ :=
    kernelMainInit_of_volume mem hsig hentries hle htotal
  exact ⟨o₀, fat, hrun, hmounted, fun _ _ _ h => h.disk_eq.trans hdisk⟩

/-- From the volume with a program, and with the program loaded. -/
theorem volume_mounted_program : ∃ o₀ fat o,
    kernelMainInit programVolume (poweredOn fun _ => 0) = .ok (⟨⟩, o₀) ∧ Mounted programVolume fat ∧
      OsReached programVolume (fun _ => 0) 0 lowStack o₀ o ∧ o.kernel.processTable 0 ≠ 0 ∧
        o.kernel.disk = ⟨some .fat16, some fat⟩ := by
  have hone := oneFile_programVolume
  obtain ⟨hfirst, hsecond⟩ := hone.recordByte_eq
  have hsector : (volumeHeader programVolume).rootDirSectorPos = 2 := by
    rw [hone.header, FatHeader.rootDirSectorPos_eq]
    rfl
  obtain ⟨total, htotal⟩ := fat16GetTotalItemsForDirectory_of_ends (n := 1) (by decide) (by decide)
    hsecond fun j hj => by
      obtain rfl : j = 0 := Nat.lt_one_iff.1 hj
      rw [hfirst]
      decide
  have hentries : (volumeHeader programVolume).rootDirEntries.toNat = 16 := by
    rw [hone.header]
    rfl
  obtain ⟨o₀, fat, hrun, hmounted, hdisk⟩ := volume_mounted (fun _ => 0) (by rw [hone.header]; rfl)
    (by rw [hentries]; decide) (by rw [hentries]; decide) (by rw [hsector]; exact htotal)
  obtain ⟨o₀', o, p, q, h, htwo, -⟩ := exists_osReached 0 (by decide)
  obtain ⟨-, rfl⟩ := Prod.mk.inj (Except.ok.inj (hrun.symm.trans h.start))
  exact ⟨o₀, fat, o, hrun, hmounted, h, htwo.ne_zero.1, hdisk _ _ _ h⟩

end OwnKernel
