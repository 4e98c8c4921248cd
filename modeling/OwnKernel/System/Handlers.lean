import OwnKernel.Model.Interrupts
import OwnKernel.Process.Invoke
import OwnKernel.System.Runs

/-!
# The handlers, in steps

What a command does to the kernel is a run of the steps of `SystemStep`,
for the slot of the program that asks for it, for slots that are free,
where a program may be loaded, and for none (`Isr80hCommand.reaches`); and
so is the end of a program (`Caller.exception`) and a change of tasks
(`taskNext_reaches`). What a caller owes is `CommandFits`: it asks for at
least a byte, it starts programs that keep to their blocks, and it has its
arguments put where it may write.
-/

namespace OwnKernel

variable {K : Set Word} {k k₀ k₁ k' : Kernel} {v x item ptr : Word} {p : Process} {t : Task}
variable {i j n fuel : ℕ} {image : Sectors} {a : Option ℕ} {S : Set (Option ℕ)} {filename : Cstring}
variable {stack : KernelStack} {r : ℤ × Word} {res : CommandResult} {frame : InterruptFrame}

/-! ## Callers -/

/-- **The program of slot `i` is the one that runs.** -/
structure Caller (k : Kernel) (i : ℕ) : Prop where
  lt : i < osMaxProcesses
  ne_zero : k.processTable i ≠ 0
  runs : k.Runs i

/-- The slots what is done for `a` is for: its own, and the free ones. -/
def ActsFor (k : Kernel) (a : Option ℕ) : Set (Option ℕ) :=
  {b | b = none ∨ b = a ∨ ∃ j, b = some j ∧ k.processTable j = 0}

/-- The arrays on the kernel's stack are outside the heap. -/
structure KernelStack.Outside (stack : KernelStack) (h : Heap) : Prop where
  buffer : ∀ x, InRange stack.buffer 1024 x → ¬ h.Spans x
  filename : ∀ x, InRange stack.filename osMaxPath x → ¬ h.Spans x
  argument : ∀ x, InRange stack.argument sizeofCommandArgument x → ¬ h.Spans x

/-- **What the caller of a command owes**, in slot `i`. -/
def CommandFits (image : Sectors) (stack : KernelStack) (i : ℕ) : Isr80hCommand → Kernel → Prop
  | .malloc, k => ∀ size, taskGetStackItem k.currentTask 0 k = .ok (size, k) → 0 < size.toNat
  | .processLoadStart, k => ∀ item res k₁ path r k₂,
      taskGetStackItem k.currentTask 0 k = .ok (item, k) →
      copyStringFromTask k.currentTask item stack.filename osMaxPath k = .ok (res, k₁) →
      loadStartPath stack.path (fun i => k₁.store.mem (stack.filename + BitVec.ofNat 32 i)) =
        .ok path →
      processLoadSwitch image (pathString path) k₁ = .ok (r, k₂) → 0 ≤ r.1 →
        ProgramInBlocks k₂ r.2
  | .invokeSystemCommand, k => ∀ item arguments path r k₂,
      taskGetStackItem k.currentTask 0 k = .ok (item, k) →
      taskVirtualAddressToPhysical k.currentTask item k = .ok (arguments, k) →
      invokeSystemCommandPath stack.path
        (fun i => k.store.mem (arguments + BitVec.ofNat 32 i)) = .ok path →
      processLoadSwitch image (pathString path) k = .ok (r, k₂) → 0 ≤ r.1 →
        ProgramInBlocks k₂ r.2
  | .getProgramArguments, k => ∀ item arguments,
      taskGetStackItem k.currentTask 0 k = .ok (item, k) →
      taskVirtualAddressToPhysical k.currentTask item k = .ok (arguments, k) →
        ∀ x, InRange arguments 8 x → ∃ v, k.SlotWrites i v x
  | _, _ => True

/-- The current task is the caller's. -/
theorem Caller.exists_task (h : Caller k i) (s : InOrder K k) :
    ∃ t, readTask k.currentTask k = .ok (t, k) ∧ t.process = k.processTable i := by
  obtain ⟨procs, view, s⟩ := s
  have hs := s.slot i h.lt h.ne_zero
  obtain ⟨p, hp, htask⟩ := h.runs
  obtain rfl := Option.some.inj (hs.object.symm.trans hp)
  obtain ⟨t, ht, hprocess⟩ := hs.task
  have hne := hs.directory.ne_zero
  rw [htask] at ht hne
  exact ⟨t, run_readTask.2 ⟨hne, ht, rfl⟩, hprocess⟩

theorem Caller.task_spec (h : Caller k i) (s : InOrder K k)
    (hrun : readTask k.currentTask k = .ok (t, k')) : t.process = k.processTable i ∧ k = k' := by
  obtain ⟨u, hread, hprocess⟩ := h.exists_task s
  obtain ⟨rfl, rfl⟩ := Prod.mk.inj (Except.ok.inj (hread.symm.trans hrun))
  exact ⟨hprocess, rfl⟩

/-- It still runs when its state has been saved. -/
theorem Caller.saveState (h : Caller k i) (hrun : taskCurrentSaveState frame k = .ok (⟨⟩, k')) :
    Caller k' i := by
  obtain ⟨t, registers, -, rfl⟩ := taskCurrentSaveState_cases hrun
  exact ⟨h.lt, h.ne_zero, h.runs⟩

theorem Reaches.inOrder (h : Reaches (SystemStep image) S k k') (s : InOrder K k) : InOrder K k' := by
  obtain ⟨l, -, hrun⟩ := h
  exact (SystemRun.inv hrun s).1

/-! ## Loading a program -/

theorem Kernel.processGetFreeSlot_spec (h : ¬ k.processGetFreeSlot < 0) :
    k.processGetFreeSlot < osMaxProcesses ∧
      k.processTable k.processGetFreeSlot.toNat = 0 := by
  unfold Kernel.processGetFreeSlot at h ⊢
  cases hfind : (List.range osMaxProcesses).find? fun i => k.processTable i = 0 with
  | none =>
    rw [hfind] at h
    exact absurd (by decide) h
  | some i =>
    have hlt := List.mem_range.1 (List.mem_of_find?_eq_some hfind)
    have hfree := List.find?_some hfind
    exact ⟨by simp only; omega, by simpa using hfree⟩

/-- **`process_load_switch` in steps**, for the slot that is free: what it
answers is the process there. -/
theorem processLoadSwitch_reaches (s : InOrder K k)
    (hrun : processLoadSwitch image filename k = .ok (r, k'))
    (hfits : 0 ≤ r.1 → ProgramInBlocks k' r.2) (a : Option ℕ) :
    Reaches (SystemStep image) (ActsFor k a) k k' ∧ (0 ≤ r.1 → ∃ slot < osMaxProcesses,
      k.processTable slot = 0 ∧ r.2 ≠ 0 ∧ k'.processTable slot = r.2) := by
  obtain ⟨r', k₁, hload, hswitch⟩ := Fallible.run_bind.1 hrun
  unfold processLoad at hload
  rw [Fallible.run_get_bind] at hload
  by_cases hslot : k.processGetFreeSlot < 0
  · -- the table is full
    rw [if_pos hslot] at hload
    obtain ⟨rfl, rfl⟩ := Fallible.run_pure.1 hload
    rw [if_neg (by decide)] at hswitch
    obtain ⟨rfl, rfl⟩ := Fallible.run_pure.1 hswitch
    exact ⟨.refl _ _, fun hres => absurd hres (by decide)⟩
  rw [if_neg hslot] at hload
  obtain ⟨hlt, hfree⟩ := Kernel.processGetFreeSlot_spec hslot
  generalize k.processGetFreeSlot = slot at hslot hload hlt hfree
  have hacts : some slot.toNat ∈ ActsFor k a := Or.inr (Or.inr ⟨_, rfl, hfree⟩)
  obtain ⟨res, out⟩ := r'
  have hsame : r = (res, out) ∧ (k' = k₁ ∨ k' = { k₁ with currentProcess := out } ∧ res = 0) := by
    by_cases hzero : res = 0
    · rw [if_pos hzero] at hswitch
      obtain ⟨u, k₂, hmod, hpure⟩ := Fallible.run_bind.1 hswitch
      obtain ⟨k₃, hset, hend⟩ := Fallible.run_seq.1 hmod
      rw [Fallible.run_modify] at hset
      obtain ⟨-, rfl⟩ := Fallible.run_pure.1 hend
      obtain ⟨rfl, rfl⟩ := Fallible.run_pure.1 hpure
      exact ⟨rfl, Or.inr ⟨hset, hzero⟩⟩
    · rw [if_neg hzero] at hswitch
      obtain ⟨rfl, rfl⟩ := Fallible.run_pure.1 hswitch
      exact ⟨rfl, Or.inl rfl⟩
  obtain ⟨rfl, hk'⟩ := hsame
  have hfits₁ : 0 ≤ res → ProgramInBlocks k₁ out := by
    intro hres
    rcases hk' with rfl | ⟨rfl, -⟩
    · exact hfits hres
    · exact hfits hres
  obtain ⟨procs, view, s⟩ := s
  have hstep : Reaches (SystemStep image) (ActsFor k a) k k₁ :=
    .single (.load (not_lt.1 hslot) hlt hload hfits₁) hacts
  obtain ⟨procs', view', hcall, hcases⟩ := s.load (R := ∅) (not_lt.1 hslot) hlt hload hfits₁
  have htable : 0 ≤ res → out ≠ 0 ∧ k₁.processTable slot.toNat = out := by
    intro hres
    obtain ⟨hneg, -⟩ | ⟨-, hout, htable⟩ := hcases
    · exact absurd hneg (not_lt.2 hres)
    · rw [htable, Function.update_self]
      exact ⟨hout, rfl⟩
  have hslotlt : slot.toNat < osMaxProcesses := by omega
  rcases hk' with rfl | ⟨rfl, hzero⟩
  · exact ⟨hstep, fun hres => ⟨_, hslotlt, hfree, (htable hres).1, (htable hres).2⟩⟩
  · obtain ⟨hout, hself⟩ := htable (by rw [hzero])
    have hne : k₁.processTable slot.toNat ≠ 0 := by rwa [hself]
    have hswitched : SystemStep image (some slot.toNat) k₁
        { k₁ with currentProcess := k₁.processTable slot.toNat } := .switch hslotlt hne
    rw [hself] at hswitched
    exact ⟨hstep.step hswitched hacts, fun _ => ⟨_, hslotlt, hfree, hout, hself⟩⟩

/-! ## Going on with a task -/

/-- `task_switch`. -/
theorem taskSwitch_reaches {task : Word} {res : ℤ} (hrun : taskSwitch task k = .ok (res, k'))
    (hnone : none ∈ S) : Reaches (SystemStep image) S k k' := by
  obtain ⟨k₁, hset, hpure⟩ := Fallible.run_seq.1 hrun
  rw [Fallible.run_modify] at hset
  obtain ⟨-, rfl⟩ := Fallible.run_pure.1 hpure
  rw [hset]
  exact .single (.taskSwitch task) hnone

/-- `task_next`. -/
theorem taskNext_reaches {next : Word} (hrun : taskNext k = .ok (next, k')) (hnone : none ∈ S) :
    Reaches (SystemStep image) S k k' := by
  obtain ⟨next', k₁, hget, hrun⟩ := Fallible.run_bind.1 hrun
  have hk₁ : k₁ = k := by
    unfold taskGetNext at hget
    rw [Fallible.run_get_bind] at hget
    obtain ⟨t, k₂, hread, hget⟩ := Fallible.run_bind.1 hget
    obtain ⟨-, -, rfl⟩ := run_readTask.1 hread
    by_cases h0 : t.next = 0
    · rw [if_pos h0] at hget
      exact (Fallible.run_pure.1 hget).2
    · rw [if_neg h0] at hget
      exact (Fallible.run_pure.1 hget).2
  rw [hk₁] at hrun
  by_cases h0 : next' = 0
  · rw [if_pos h0] at hrun
    exact absurd hrun Fallible.run_throw
  rw [if_neg h0] at hrun
  obtain ⟨res, k₂, hswitch, hpure⟩ := Fallible.run_bind.1 hrun
  obtain ⟨-, rfl⟩ := Fallible.run_pure.1 hpure
  exact taskSwitch_reaches hswitch hnone

/-- `task_page`. -/
theorem taskPage_reaches {u : PUnit} (hrun : taskPage k = .ok (u, k')) (hnone : none ∈ S) :
    Reaches (SystemStep image) S k k' := by
  unfold taskPage at hrun
  rw [Fallible.run_get_bind] at hrun
  obtain ⟨res, k₁, hswitch, hpure⟩ := Fallible.run_bind.1 hrun
  obtain ⟨-, rfl⟩ := Fallible.run_pure.1 hpure
  exact taskSwitch_reaches hswitch hnone

/-- The end of the commands that start a program. -/
theorem leaveToProcess_reaches {process : Word} (hrun : leaveToProcess process k = .ok (res, k'))
    (hnone : none ∈ S) : Reaches (SystemStep image) S k k' := by
  obtain ⟨p, k₁, hread, hrest⟩ := Fallible.run_bind.1 hrun
  obtain ⟨-, -, rfl⟩ := run_readProcess.1 hread
  obtain ⟨r, k₂, hswitch, hpure⟩ := Fallible.run_bind.1 hrest
  obtain ⟨-, rfl⟩ := Fallible.run_pure.1 hpure
  exact taskSwitch_reaches hswitch hnone

/-! ## Commands -/

namespace Caller

variable (h : Caller k i) (s : InOrder K k) (hnone : none ∈ S) (hself : some i ∈ S)
include h s hnone hself

omit s in
/-- The program is ended, and another task goes on. -/
theorem ends {r : ℤ} {next : Word} (hterminate : processTerminate (k.processTable i) k = .ok (r, k₁))
    (hnext : taskNext k₁ = .ok (next, k')) : Reaches (SystemStep image) S k k' := by
  have hended : Reaches (SystemStep image) S k k₁ :=
    .single (.terminate h.lt h.ne_zero hterminate) hself
  exact hended.trans (taskNext_reaches hnext hnone)

/-- `isr80h_command0_exit`. -/
theorem exit (hrun : isr80hCommand0Exit k = .ok (res, k')) : Reaches (SystemStep image) S k k' := by
  unfold isr80hCommand0Exit at hrun
  rw [Fallible.run_get_bind] at hrun
  obtain ⟨t, k₁, hread, hrun⟩ := Fallible.run_bind.1 hrun
  obtain ⟨hprocess, rfl⟩ := h.task_spec s hread
  rw [hprocess] at hrun
  obtain ⟨r, k₂, hterminate, hrun⟩ := Fallible.run_bind.1 hrun
  obtain ⟨next, k₃, hnext, hpure⟩ := Fallible.run_bind.1 hrun
  obtain ⟨-, rfl⟩ := Fallible.run_pure.1 hpure
  exact h.ends hnone hself hterminate hnext

/-- `idt_handle_exception`. -/
theorem exception {next : Word} (hrun : idtHandleException k = .ok (next, k')) :
    Reaches (SystemStep image) S k k' := by
  unfold idtHandleException at hrun
  rw [Fallible.run_get_bind] at hrun
  obtain ⟨t, k₁, hread, hrun⟩ := Fallible.run_bind.1 hrun
  obtain ⟨hprocess, rfl⟩ := h.task_spec s hread
  rw [hprocess] at hrun
  obtain ⟨r, k₂, hterminate, hnext⟩ := Fallible.run_bind.1 hrun
  exact h.ends hnone hself hterminate hnext

omit hself in
/-- The user's string is copied, and the table left as it was. -/
theorem copyString {max r : ℤ} {dest : Word} (hpos : 1 ≤ max) (hmax : max < 4096)
    (hdest : ∀ x, InRange dest max.toNat x → ¬ k.store.heap.Spans x)
    (hrun : copyStringFromTask k.currentTask v dest max k = .ok (r, k')) :
    Reaches (SystemStep image) S k k' ∧ k'.processTable = k.processTable := by
  obtain ⟨p, hp, htask⟩ := h.runs
  rw [← htask] at hrun
  refine ⟨.single (.copyString h.lt h.ne_zero hp hpos hmax hdest hrun) hnone, ?_⟩
  obtain ⟨procs, view, s⟩ := s
  have hs := s.slot i h.lt h.ne_zero
  obtain rfl := Option.some.inj (hs.object.symm.trans hp)
  have hstate := ((s.spares_refl Set.univ Set.univ).copyString hs.directory hpos hmax hdest hrun).2
  rw [hstate]

omit hnone in
/-- `isr80h_command2_getkey`. -/
theorem getkey (hrun : isr80hCommand2Getkey k = .ok (res, k')) :
    Reaches (SystemStep image) S k k' := by
  obtain ⟨c, k₁, hpop, hpure⟩ := Fallible.run_bind.1 hrun
  obtain ⟨-, rfl⟩ := Fallible.run_pure.1 hpure
  unfold keyboardPop at hpop
  rw [Fallible.run_get_bind] at hpop
  by_cases h0 : k.currentTask = 0
  · rw [if_pos h0] at hpop
    obtain ⟨-, rfl⟩ := Fallible.run_pure.1 hpop
    exact .refl _ _
  rw [if_neg h0] at hpop
  obtain ⟨t, k₂, hread, hprocess'⟩ := Fallible.run_bind.1 hpop
  obtain ⟨hprocess, rfl⟩ := h.task_spec s hread
  rw [hprocess] at hprocess'
  obtain ⟨p, k₃, hread', htaken⟩ := Fallible.run_bind.1 hprocess'
  obtain ⟨-, -, rfl⟩ := run_readProcess.1 hread'
  by_cases hc : p.keyboard.buffer (keyboardGetHeadIndex p.keyboard) = 0
  · simp only [if_pos hc] at htaken
    obtain ⟨-, rfl⟩ := Fallible.run_pure.1 htaken
    exact .refl _ _
  · simp only [if_neg hc] at htaken
    obtain ⟨k₄, hmod, hpure⟩ := Fallible.run_seq.1 htaken
    obtain ⟨-, rfl⟩ := Fallible.run_pure.1 hpure
    obtain ⟨-, q, hq, rfl⟩ := run_modifyProcess.1 hmod
    exact .single (.keyboard _ h.lt h.ne_zero hq) hself

omit hnone in
/-- `isr80h_command4_malloc`. -/
theorem malloc (hfits : CommandFits image stack i .malloc k)
    (hrun : isr80hCommand4Malloc k = .ok (res, k')) : Reaches (SystemStep image) S k k' := by
  unfold isr80hCommand4Malloc at hrun
  rw [Fallible.run_get_bind] at hrun
  obtain ⟨size, k₁, hitem, hrun⟩ := Fallible.run_bind.1 hrun
  obtain rfl := (taskGetStackItem_frame hitem).symm
  obtain ⟨t, k₂, hread, hrun⟩ := Fallible.run_bind.1 hrun
  obtain ⟨hprocess, rfl⟩ := h.task_spec s hread
  rw [hprocess] at hrun
  obtain ⟨ptr, k₃, hmalloc, hpure⟩ := Fallible.run_bind.1 hrun
  obtain ⟨-, rfl⟩ := Fallible.run_pure.1 hpure
  exact .single (.malloc h.lt h.ne_zero (hfits size hitem) hmalloc) hself

omit hnone in
/-- `isr80h_command5_free`. -/
theorem free (hrun : isr80hCommand5Free k = .ok (res, k')) : Reaches (SystemStep image) S k k' := by
  unfold isr80hCommand5Free at hrun
  rw [Fallible.run_get_bind] at hrun
  obtain ⟨ptr, k₁, hitem, hrun⟩ := Fallible.run_bind.1 hrun
  obtain rfl := (taskGetStackItem_frame hitem).symm
  obtain ⟨t, k₂, hread, hrun⟩ := Fallible.run_bind.1 hrun
  obtain ⟨hprocess, rfl⟩ := h.task_spec s hread
  rw [hprocess] at hrun
  obtain ⟨k₃, hfree, hpure⟩ := Fallible.run_seq.1 hrun
  obtain ⟨-, rfl⟩ := Fallible.run_pure.1 hpure
  exact .single (.free h.lt h.ne_zero hfree) hself

omit hnone in
/-- `isr80h_command8_get_program_arguments`. -/
theorem getProgramArguments (hfits : CommandFits image stack i .getProgramArguments k)
    (hrun : isr80hCommand8GetProgramArguments k = .ok (res, k')) :
    Reaches (SystemStep image) S k k' := by
  unfold isr80hCommand8GetProgramArguments at hrun
  rw [Fallible.run_get_bind] at hrun
  obtain ⟨t, k₁, hread, hrun⟩ := Fallible.run_bind.1 hrun
  obtain ⟨hprocess, rfl⟩ := h.task_spec s hread
  obtain ⟨item, k₂, hitem, hrun⟩ := Fallible.run_bind.1 hrun
  obtain rfl := (taskGetStackItem_frame hitem).symm
  obtain ⟨arguments, k₃, hphysical, hrun⟩ := Fallible.run_bind.1 hrun
  obtain rfl := (taskVirtualAddressToPhysical_frame hphysical).symm
  obtain ⟨k₄, hget, hpure⟩ := Fallible.run_seq.1 hrun
  obtain ⟨-, rfl⟩ := Fallible.run_pure.1 hpure
  obtain ⟨p, k₅, hread', hset⟩ := Fallible.run_bind.1 hget
  obtain ⟨-, -, rfl⟩ := run_readProcess.1 hread'
  obtain ⟨k₆, hargc, hargv⟩ := Fallible.run_seq.1 hset
  obtain ⟨s₁, hs₁, rfl⟩ := run_onStore.1 hargc
  obtain ⟨s₂, hs₂, rfl⟩ := run_onStore.1 hargv
  have h0 : arguments ≠ 0 := by
    rintro rfl
    exact absurd hs₁ Fallible.run_throw
  unfold storeWord at hs₁ hs₂
  rw [if_neg h0, Fallible.run_modify] at hs₁ hs₂
  subst hs₁ hs₂
  refine .single (.writes h.lt h.ne_zero fun x hx => hfits item arguments hitem hphysical x ?_) hself
  -- eight bytes are written
  by_contra hout
  refine hx ((Mem.store32_of_not_mem ?_).trans (Mem.store32_of_not_mem ?_))
  · unfold InRange processArgumentsArgvOffset at *
    bv_omega
  · unfold InRange at *
    bv_omega

omit hself in
/-- `isr80h_command6_process_load_start`. -/
theorem processLoadStart (hout : stack.Outside k.store.heap)
    (hfits : CommandFits image stack i .processLoadStart k) (hacts : ActsFor k (some i) ⊆ S)
    (hrun : isr80hCommand6ProcessLoadStart image stack.filename stack.path k = .ok (res, k')) :
    Reaches (SystemStep image) S k k' := by
  unfold isr80hCommand6ProcessLoadStart at hrun
  rw [Fallible.run_get_bind] at hrun
  obtain ⟨item, k₁, hitem, hrun⟩ := Fallible.run_bind.1 hrun
  obtain rfl := (taskGetStackItem_frame hitem).symm
  obtain ⟨copied, k₂, hcopy, hrun⟩ := Fallible.run_bind.1 hrun
  obtain ⟨hcopied, htable⟩ : Reaches (SystemStep image) S k k₂ ∧ k₂.processTable = k.processTable :=
    h.copyString s hnone (by decide) (by decide) hout.filename hcopy
  by_cases hneg : copied < 0
  · rw [if_pos hneg] at hrun
    obtain ⟨-, rfl⟩ := Fallible.run_pure.1 hrun
    exact hcopied
  rw [if_neg hneg, Fallible.run_get_bind] at hrun
  obtain ⟨path, k₃, hpath', hrun⟩ := Fallible.run_bind.1 hrun
  obtain ⟨hpath, hk₃⟩ := run_onArray.1 hpath'
  rw [hk₃] at hrun
  obtain ⟨r, k₄, hload, hrest⟩ := Fallible.run_bind.1 hrun
  have hloaded := processLoadSwitch_reaches (hcopied.inOrder s) hload
    (hfits item copied _ path r k₄ hitem hcopy hpath hload) (some i)
  have hloaded' := hcopied.trans (hloaded.1.mono fun b hb => hacts (by
    unfold ActsFor at hb ⊢
    rwa [htable] at hb))
  by_cases hres : r.1 < 0
  · rw [if_pos hres] at hrest
    obtain ⟨-, rfl⟩ := Fallible.run_pure.1 hrest
    exact hloaded'
  · rw [if_neg hres] at hrest
    exact hloaded'.trans (leaveToProcess_reaches hrest hnone)

end Caller

/-- `isr80h_command7_invoke_system_command`. The arguments are those of the
program that is loaded. -/
theorem isr80hCommand7InvokeSystemCommand_reaches (s : InOrder K k) (hnone : none ∈ S)
    (hfits : CommandFits image stack i .invokeSystemCommand k) (hfuel : fuel ≤ 2 ^ 30)
    (hacts : ActsFor k (some i) ⊆ S)
    (hrun : isr80hCommand7InvokeSystemCommand image fuel stack.path k = .ok (res, k')) :
    Reaches (SystemStep image) S k k' := by
  unfold isr80hCommand7InvokeSystemCommand at hrun
  rw [Fallible.run_get_bind] at hrun
  obtain ⟨item, k₁, hitem, hrun⟩ := Fallible.run_bind.1 hrun
  obtain rfl := (taskGetStackItem_frame hitem).symm
  obtain ⟨arguments, k₂, hphysical, hrun⟩ := Fallible.run_bind.1 hrun
  obtain rfl := (taskVirtualAddressToPhysical_frame hphysical).symm
  by_cases h0 : arguments = 0
  · rw [if_pos h0] at hrun
    obtain ⟨-, rfl⟩ := Fallible.run_pure.1 hrun
    exact .refl _ _
  rw [if_neg h0, Fallible.run_get_bind] at hrun
  obtain ⟨len, k₃, hlen', hrun⟩ := Fallible.run_bind.1 hrun
  obtain ⟨hlen, hk₃⟩ := run_onArray.1 hlen'
  rw [if_neg (Nat.ne_of_gt (lt_of_strlenAt hlen))] at hrun
  obtain ⟨path, k₄, hpath', hrun⟩ := Fallible.run_bind.1 hrun
  obtain ⟨hpath, hk₄⟩ := run_onArray.1 hpath'
  rw [hk₄, hk₃] at hrun
  obtain ⟨r, k₅, hload, hrest⟩ := Fallible.run_bind.1 hrun
  obtain ⟨hloaded, hregistered⟩ := processLoadSwitch_reaches s hload
    (hfits item arguments path r k₅ hitem hphysical hpath hload) (some i)
  have hloaded' := hloaded.mono hacts
  by_cases hres : r.1 < 0
  · rw [if_pos hres] at hrest
    obtain ⟨-, rfl⟩ := Fallible.run_pure.1 hrest
    exact hloaded'
  rw [if_neg hres] at hrest
  obtain ⟨slot, hlt, hfree, hne, hslot⟩ := hregistered (not_lt.1 hres)
  obtain ⟨injected, k₆, hinject, hend⟩ := Fallible.run_bind.1 hrest
  rw [← hslot] at hne hinject
  have hinjected := hloaded'.step (.inject hlt hne hfuel hinject)
    (hacts (Or.inr (Or.inr ⟨slot, rfl, hfree⟩)))
  by_cases hfailed : injected < 0
  · rw [if_pos hfailed] at hend
    obtain ⟨-, rfl⟩ := Fallible.run_pure.1 hend
    exact hinjected
  · rw [if_neg hfailed] at hend
    exact hinjected.trans (leaveToProcess_reaches hend hnone)

/-! ## The table of commands -/

variable {o o' : Os}

theorem run_inKernel {α : Type} {y : KernelM α} {b : α} :
    inKernel y o = .ok (b, o') ↔ ∃ k, y o.kernel = .ok (b, k) ∧ o' = { o with kernel := k } := by
  unfold inKernel
  cases hy : y o.kernel with
  | error e => simp
  | ok r =>
    obtain ⟨c, k⟩ := r
    constructor
    · intro h
      cases h
      exact ⟨k, rfl, rfl⟩
    · rintro ⟨k', h, rfl⟩
      cases h
      rfl

/-- The terminal is apart from the kernel. -/
theorem kernel_onTerminal {f : Terminal → Terminal × List VideoWrite} {u : PUnit}
    (hrun : onTerminal f o = .ok (u, o')) : o'.kernel = o.kernel := by
  unfold onTerminal at hrun
  rw [Fallible.run_modify.1 hrun]

/-- `isr80h_command1_print`. -/
theorem Caller.print (h : Caller o.kernel i) (s : InOrder K o.kernel)
    (hout : stack.Outside o.kernel.store.heap) (hnone : none ∈ S)
    (hrun : isr80hCommand1Print fuel stack.buffer o = .ok (res, o')) :
    Reaches (SystemStep image) S o.kernel o'.kernel := by
  unfold isr80hCommand1Print at hrun
  rw [Fallible.run_get_bind] at hrun
  obtain ⟨item, o₁, hitem', hrun⟩ := Fallible.run_bind.1 hrun
  obtain ⟨k₁, hitem, rfl⟩ := run_inKernel.1 hitem'
  obtain rfl := taskGetStackItem_frame hitem
  obtain ⟨copied, o₂, hcopy', hrest⟩ := Fallible.run_bind.1 hrun
  obtain ⟨k₂, hcopy, rfl⟩ := run_inKernel.1 hcopy'
  rw [Fallible.run_get_bind] at hrest
  obtain ⟨str, o₃, hstr', hshow⟩ := Fallible.run_bind.1 hrest
  obtain ⟨k₃, hstr, rfl⟩ := run_inKernel.1 hstr'
  obtain ⟨-, hk₃⟩ := run_onArray.1 hstr
  obtain ⟨o₄, hprint, hpure⟩ := Fallible.run_seq.1 hshow
  obtain ⟨-, rfl⟩ := Fallible.run_pure.1 hpure
  rw [kernel_onTerminal hprint, hk₃]
  exact (h.copyString s hnone (by decide) (by decide) hout.buffer hcopy).1

/-- `isr80h_command3_putchar`. -/
theorem kernel_putchar (hrun : isr80hCommand3Putchar o = .ok (res, o')) :
    o'.kernel = o.kernel := by
  unfold isr80hCommand3Putchar at hrun
  rw [Fallible.run_get_bind] at hrun
  obtain ⟨item, o₁, hitem', hrest⟩ := Fallible.run_bind.1 hrun
  obtain ⟨k₁, hitem, rfl⟩ := run_inKernel.1 hitem'
  obtain ⟨o₂, hshow, hpure⟩ := Fallible.run_seq.1 hrest
  obtain ⟨-, rfl⟩ := Fallible.run_pure.1 hpure
  rw [kernel_onTerminal hshow, taskGetStackItem_frame hitem]

/-- **A command is a run of steps** for its caller and for slots that are
free. -/
theorem Isr80hCommand.reaches {command : Isr80hCommand} (h : Caller o.kernel i)
    (s : InOrder K o.kernel) (hout : stack.Outside o.kernel.store.heap) (hfuel : fuel ≤ 2 ^ 30)
    (hfits : CommandFits image stack i command o.kernel)
    (hrun : command.run image fuel stack o = .ok (res, o')) :
    Reaches (SystemStep image) (ActsFor o.kernel (some i)) o.kernel o'.kernel := by
  have hnone : none ∈ ActsFor o.kernel (some i) := Or.inl rfl
  have hself : some i ∈ ActsFor o.kernel (some i) := Or.inr (Or.inl rfl)
  cases command with
  | exit =>
    obtain ⟨k, hexit, rfl⟩ := run_inKernel.1 hrun
    exact h.exit s hnone hself hexit
  | print => exact h.print s hout hnone hrun
  | getkey =>
    obtain ⟨k, hgetkey, rfl⟩ := run_inKernel.1 hrun
    exact h.getkey s hself hgetkey
  | putchar =>
    rw [kernel_putchar hrun]
    exact .refl _ _
  | malloc =>
    obtain ⟨k, hmalloc, rfl⟩ := run_inKernel.1 hrun
    exact h.malloc s hself hfits hmalloc
  | free =>
    obtain ⟨k, hfree, rfl⟩ := run_inKernel.1 hrun
    exact h.free s hself hfree
  | processLoadStart =>
    obtain ⟨k, hload, rfl⟩ := run_inKernel.1 hrun
    exact h.processLoadStart s hnone hout hfits subset_rfl hload
  | invokeSystemCommand =>
    obtain ⟨k, hinvoke, rfl⟩ := run_inKernel.1 hrun
    exact isr80hCommand7InvokeSystemCommand_reaches s hnone hfits hfuel subset_rfl hinvoke
  | getProgramArguments =>
    obtain ⟨k, hget, rfl⟩ := run_inKernel.1 hrun
    exact h.getProgramArguments s hself hfits hget

end OwnKernel
