import OwnKernel.Model.KernelMain
import OwnKernel.System.Handlers

/-!
# The system and its programs

`OsStep` is what happens once the kernel is set up: `kernel_main` starts
programs, a program asks for a command, an interrupt comes, or a program
stores a byte. Each begins by saving the state of the current task, or
with nothing, and goes on in steps of `SystemStep` (`OsStep.event`), so
that the system stays in order in every run (`OsRun.inv`), and an event of
one slot keeps what the programs of the others have (`OsStep.slotKept`).
-/

namespace OwnKernel

variable {K : Set Word} {o o' o₀ : Os} {k k₀ k' : Kernel} {x v : Word} {i j fuel : ℕ}
variable {image : Sectors} {stack : KernelStack} {a : Option ℕ} {l : List (Option ℕ)}
variable {frame : InterruptFrame} {command : ℤ} {res : CommandResult} {S : Set (Option ℕ)}

/-- **What the caller owes**, for the command its number is registered
for. -/
def SyscallFits (image : Sectors) (stack : KernelStack) (i : ℕ) (command : ℤ)
    (frame : InterruptFrame) (o : Os) : Prop :=
  ∀ k c, taskCurrentSaveState frame o.kernel = .ok (⟨⟩, k) →
    o.isr80hCommands command.toNat = some c → CommandFits image stack i c k

/-- **The slot an interrupt is for**: an exception is for the program that
runs, a key for the current process. -/
def InterruptFor (o : Os) (interrupt : ℕ) (a : Option ℕ) : Prop :=
  match o.interruptCallbacks interrupt with
  | some .exception => ∃ i, a = some i ∧ Caller o.kernel i
  | some .keyboard => (o.kernel.currentProcess = 0 ∧ a = none) ∨
      ∃ i < osMaxProcesses, a = some i ∧ o.kernel.processTable i ≠ 0 ∧
        o.kernel.processTable i = o.kernel.currentProcess
  | _ => a = none

/-- **What happens**, by the slot it is for. -/
inductive OsStep (image : Sectors) (fuel : ℕ) (stack : KernelStack) : Option ℕ → Os → Os → Prop
  | start {o : Os} {k' : Kernel} {filename : Cstring} {r : ℤ × Word} :
      processLoadSwitch image filename o.kernel = .ok (r, k') →
      (0 ≤ r.1 → ProgramInBlocks k' r.2) → OsStep image fuel stack none o { o with kernel := k' }
  | argument {o : Os} {k' : Kernel} {i : ℕ} {text : List Byte} {res : ℤ} :
      i < osMaxProcesses → o.kernel.processTable i ≠ 0 → text.length < sizeofArgument →
      injectArgument fuel (o.kernel.processTable i) stack.argument text o.kernel = .ok (res, k') →
      OsStep image fuel stack (some i) o { o with kernel := k' }
  | first {o : Os} {k' : Kernel} {task : Word} :
      taskRunFirstEverTask o.kernel = .ok (task, k') →
      OsStep image fuel stack none o { o with kernel := k' }
  | syscall {o o' : Os} {i : ℕ} {command : ℤ} {frame : InterruptFrame} {res : CommandResult} :
      Caller o.kernel i → SyscallFits image stack i command frame o →
      isr80hHandler image fuel stack command frame o = .ok (res, o') →
      OsStep image fuel stack (some i) o o'
  | interrupt {o o' : Os} {a : Option ℕ} {interrupt : ℕ} {frame : InterruptFrame}
      {scancode : Byte} {left : Option Word} : InterruptFor o interrupt a →
      interruptHandler scancode interrupt frame o = .ok (left, o') → OsStep image fuel stack a o o'
  | store {o : Os} {i : ℕ} {v x : Word} (b : Byte) : i < osMaxProcesses → o.kernel.SlotWrites i v x →
      OsStep image fuel stack (some i) o { o with kernel := o.kernel.storeUser x b }

/-- A run of the system and its programs. -/
abbrev OsRun (image : Sectors) (fuel : ℕ) (stack : KernelStack) := Run (OsStep image fuel stack)

/-! ## Events as steps -/

/-- **What an event comes to**: what it begins with, and a run of steps. -/
def SystemEvent (image : Sectors) (S : Set (Option ℕ)) (k k' : Kernel) : Prop :=
  ∃ k₁, Entered k k₁ ∧ Reaches (SystemStep image) S k₁ k'

/-- A run of steps alone. -/
theorem SystemEvent.of_reaches (h : Reaches (SystemStep image) S k k') : SystemEvent image S k k' :=
  ⟨k, .stays, h⟩

/-- When the state is saved only registers change. -/
theorem taskCurrentSaveState_same (hrun : taskCurrentSaveState frame k = .ok (⟨⟩, k')) :
    k'.store = k.store ∧ k'.processTable = k.processTable ∧
      k'.currentProcess = k.currentProcess := by
  obtain ⟨t, registers, -, rfl⟩ := taskCurrentSaveState_cases hrun
  exact ⟨rfl, rfl, rfl⟩

/-- The slots that are acted for depend on the table. -/
theorem actsFor_congr (h : k'.processTable = k.processTable) : ActsFor k' a = ActsFor k a := by
  unfold ActsFor
  rw [h]

/-- **A command asked for is an event** for its caller. -/
theorem isr80hHandler_event (h : Caller o.kernel i) (s : InOrder K o.kernel)
    (hout : stack.Outside o.kernel.store.heap) (hfuel : fuel ≤ 2 ^ 30)
    (hfits : SyscallFits image stack i command frame o)
    (hrun : isr80hHandler image fuel stack command frame o = .ok (res, o')) :
    SystemEvent image (ActsFor o.kernel (some i)) o.kernel o'.kernel := by
  obtain ⟨o₁, hsave', hrun⟩ := Fallible.run_seq.1 hrun
  obtain ⟨k₁, hsave, rfl⟩ := run_inKernel.1 hsave'
  have hnone : none ∈ ActsFor o.kernel (some i) := Or.inl rfl
  obtain ⟨hstore, htable, -⟩ := taskCurrentSaveState_same hsave
  have hcaller := h.saveState hsave
  obtain ⟨res', o₂, hhandle, hend⟩ := Fallible.run_bind.1 hrun
  have hhandled : Reaches (SystemStep image) (ActsFor o.kernel (some i)) k₁ o₂.kernel := by
    unfold isr80hHandleCommand at hhandle
    by_cases hbounds : command < 0 ∨ (osMaxIsr80hCommands : ℤ) ≤ command
    · rw [if_pos hbounds] at hhandle
      obtain ⟨-, rfl⟩ := Fallible.run_pure.1 hhandle
      exact .refl _ _
    rw [if_neg hbounds, Fallible.run_get_bind] at hhandle
    cases hc : o.isr80hCommands command.toNat with
    | none =>
      simp only [hc] at hhandle
      obtain ⟨-, rfl⟩ := Fallible.run_pure.1 hhandle
      exact .refl _ _
    | some c =>
      simp only [hc] at hhandle
      have hout₁ : stack.Outside k₁.store.heap := by rwa [hstore]
      rw [← actsFor_congr htable]
      exact Isr80hCommand.reaches hcaller ((Entered.saves hsave).inOrder s).1 hout₁ hfuel
        (hfits k₁ c hsave hc) hhandle
  refine ⟨k₁, .saves hsave, hhandled.trans ?_⟩
  cases res' with
  | switched task =>
    obtain ⟨-, rfl⟩ := Fallible.run_pure.1 hend
    exact .refl _ _
  | returned val =>
    obtain ⟨o₃, hpage', hpure⟩ := Fallible.run_seq.1 hend
    obtain ⟨-, rfl⟩ := Fallible.run_pure.1 hpure
    obtain ⟨k₃, hpage, rfl⟩ := run_inKernel.1 hpage'
    exact taskPage_reaches hpage hnone

/-- **A key is a run of steps** for the current process. -/
theorem classicKeyboardHandleInterrupt_reaches {scancode : Byte} {u : PUnit}
    (h : (o.kernel.currentProcess = 0 ∧ a = none) ∨ ∃ i < osMaxProcesses, a = some i ∧
      o.kernel.processTable i ≠ 0 ∧ o.kernel.processTable i = o.kernel.currentProcess)
    (hnone : none ∈ S) (ha : a ∈ S) (hrun : classicKeyboardHandleInterrupt scancode o = .ok (u, o')) :
    Reaches (SystemStep image) S o.kernel o'.kernel := by
  unfold classicKeyboardHandleInterrupt at hrun
  by_cases hreleased : scancode &&& classicKeyboardKeyReleased ≠ 0
  · rw [if_pos hreleased] at hrun
    obtain ⟨-, rfl⟩ := Fallible.run_pure.1 hrun
    exact .refl _ _
  rw [if_neg hreleased] at hrun
  obtain ⟨o₁, hlock, hrun⟩ := Fallible.run_seq.1 hrun
  have hkernel : o₁.kernel = o.kernel := by
    by_cases hcaps : scancode = classicKeyboardCapslock
    · rw [if_pos hcaps] at hlock
      rw [Fallible.run_modify.1 hlock]
    · rw [if_neg hcaps] at hlock
      rw [(Fallible.run_pure.1 hlock).2]
  rw [Fallible.run_get_bind] at hrun
  obtain ⟨c, o₂, hchar', hrest⟩ := Fallible.run_bind.1 hrun
  obtain ⟨k₂, hchar, rfl⟩ := run_inKernel.1 hchar'
  obtain ⟨-, hk₂⟩ := run_onArray.1 hchar
  obtain ⟨o₃, hpush, hpage'⟩ := Fallible.run_seq.1 hrest
  obtain ⟨k₄, hpage, rfl⟩ := run_inKernel.1 hpage'
  refine Reaches.trans ?_ (taskPage_reaches hpage hnone)
  by_cases hc : c ≠ 0
  · rw [if_pos hc] at hpush
    obtain ⟨k₃, hpushed, rfl⟩ := run_inKernel.1 hpush
    rw [← hkernel, ← hk₂]
    rw [← hkernel, ← hk₂] at h
    change keyboardPush c k₂ = _ at hpushed
    unfold keyboardPush at hpushed
    rw [Fallible.run_get_bind] at hpushed
    rcases h with ⟨h0, -⟩ | ⟨i, hi, rfl, hne, hcurrent⟩
    · rw [if_pos h0] at hpushed
      obtain ⟨-, rfl⟩ := Fallible.run_pure.1 hpushed
      exact .refl _ _
    · rw [← hcurrent, if_neg hne, if_neg hc] at hpushed
      obtain ⟨-, p, hp, rfl⟩ := run_modifyProcess.1 hpushed
      exact .single (.keyboard _ hi hne hp) ha
  · rw [if_neg hc] at hpush
    obtain ⟨-, rfl⟩ := Fallible.run_pure.1 hpush
    change Reaches (SystemStep image) S o.kernel k₂
    rw [hk₂, hkernel]
    exact .refl _ _

/-- **An interrupt that something is registered for** saves the state, and
goes on in steps. -/
theorem interruptHandler_saved {interrupt : ℕ} {scancode : Byte} {left : Option Word}
    {callback : InterruptCallback} (image : Sectors) (h : InterruptFor o interrupt a)
    (s : InOrder K o.kernel) (hcallback : o.interruptCallbacks interrupt = some callback)
    (hrun : interruptHandler scancode interrupt frame o = .ok (left, o')) :
    ∃ k₁, taskCurrentSaveState frame o.kernel = .ok (⟨⟩, k₁) ∧
      Reaches (SystemStep image) (ActsFor o.kernel a) k₁ o'.kernel := by
  have hnone : none ∈ ActsFor o.kernel a := Or.inl rfl
  have ha : a ∈ ActsFor o.kernel a := Or.inr (Or.inl rfl)
  unfold InterruptFor at h
  unfold interruptHandler at hrun
  rw [Fallible.run_get_bind] at hrun
  simp only [hcallback] at hrun h
  obtain ⟨o₁, hsave', hrest⟩ := Fallible.run_seq.1 hrun
  obtain ⟨k₁, hsave, rfl⟩ := run_inKernel.1 hsave'
  obtain ⟨-, htable, hcurrent⟩ := taskCurrentSaveState_same hsave
  obtain ⟨left', o₂, hcall, hend⟩ := Fallible.run_bind.1 hrest
  have hcalled : Reaches (SystemStep image) (ActsFor o.kernel a) k₁ o₂.kernel := by
    cases callback with
    | exception =>
      obtain ⟨i, rfl, hcaller⟩ := h
      obtain ⟨next, o₃, hexception', hpure⟩ := Fallible.run_bind.1 hcall
      obtain ⟨-, rfl⟩ := Fallible.run_pure.1 hpure
      obtain ⟨k₃, hexception, rfl⟩ := run_inKernel.1 hexception'
      exact (hcaller.saveState hsave).exception ((Entered.saves hsave).inOrder s).1 hnone ha
        hexception
    | clock =>
      obtain ⟨next, o₃, hclock', hpure⟩ := Fallible.run_bind.1 hcall
      obtain ⟨-, rfl⟩ := Fallible.run_pure.1 hpure
      obtain ⟨k₃, hclock, rfl⟩ := run_inKernel.1 hclock'
      exact taskNext_reaches hclock hnone
    | keyboard =>
      obtain ⟨o₃, hkey, hpure⟩ := Fallible.run_seq.1 hcall
      obtain ⟨-, rfl⟩ := Fallible.run_pure.1 hpure
      refine classicKeyboardHandleInterrupt_reaches (o := { o with kernel := k₁ }) ?_ hnone ha hkey
      change (k₁.currentProcess = 0 ∧ a = none) ∨ ∃ i < osMaxProcesses, a = some i ∧
        k₁.processTable i ≠ 0 ∧ k₁.processTable i = k₁.currentProcess
      rw [htable, hcurrent]
      exact h
  refine ⟨k₁, hsave, hcalled.trans ?_⟩
  cases left' with
  | some task =>
    obtain ⟨-, rfl⟩ := Fallible.run_pure.1 hend
    exact .refl _ _
  | none =>
    obtain ⟨o₃, hpage', hpure⟩ := Fallible.run_seq.1 hend
    obtain ⟨-, rfl⟩ := Fallible.run_pure.1 hpure
    obtain ⟨k₃, hpage, rfl⟩ := run_inKernel.1 hpage'
    exact taskPage_reaches hpage hnone

/-- **An interrupt is an event.** -/
theorem interruptHandler_event {interrupt : ℕ} {scancode : Byte} {left : Option Word}
    (h : InterruptFor o interrupt a) (s : InOrder K o.kernel)
    (hrun : interruptHandler scancode interrupt frame o = .ok (left, o')) :
    SystemEvent image (ActsFor o.kernel a) o.kernel o'.kernel := by
  cases hcallback : o.interruptCallbacks interrupt with
  | none =>
    unfold interruptHandler at hrun
    rw [Fallible.run_get_bind] at hrun
    simp only [hcallback] at hrun
    obtain ⟨o₁, hpage', hpure⟩ := Fallible.run_seq.1 hrun
    obtain ⟨-, rfl⟩ := Fallible.run_pure.1 hpure
    obtain ⟨k₁, hpage, rfl⟩ := run_inKernel.1 hpage'
    exact .of_reaches (taskPage_reaches hpage (Or.inl rfl))
  | some callback =>
    obtain ⟨k₁, hsave, hreaches⟩ := interruptHandler_saved image h s hcallback hrun
    exact ⟨k₁, .saves hsave, hreaches⟩

/-! ## All events -/

/-- The kernel writes an array on its stack. -/
theorem stack_reaches {m : Mem} {array : Word} {size : ℕ} (hnone : none ∈ S) (image : Sectors)
    (hm : ∀ x, m x ≠ k.store.mem x → InRange array size x)
    (hout : ∀ x, InRange array size x → ¬ k.store.heap.Spans x) :
    Reaches (SystemStep image) S k { k with store := { k.store with mem := m } } :=
  .single (.stack fun x hx => hout x (hm x hx)) hnone

/-- The argument of `kernel_main`, as it lies on the kernel's stack: a text
and its end, and no next argument. -/
def argumentMem (m : Mem) (argument : Word) (text : List Byte) : Mem :=
  (m.store argument (text ++ [0])).store32
    (argument + BitVec.ofNat 32 commandArgumentNextOffset) 0

theorem argumentMem_of_outside {m : Mem} {argument : Word} {text : List Byte}
    (htext : text.length < sizeofArgument) (hx : ¬ InRange argument sizeofCommandArgument x) :
    argumentMem m argument text x = m x := by
  refine (Mem.store32_of_not_mem fun hin => hx ?_).trans (Mem.store_of_not_mem fun hin => hx ?_)
  · unfold InRange sizeofCommandArgument commandArgumentNextOffset at *
    bv_omega
  · rw [List.length_append, List.length_singleton] at hin
    unfold InRange sizeofCommandArgument sizeofArgument at *
    omega

/-- It is written, and then put in. -/
theorem injectArgument_eq {text : List Byte} {process argument : Word} (h0 : argument ≠ 0) :
    injectArgument fuel process argument text k = processInjectArguments fuel process argument
      { k with store := { k.store with mem := argumentMem k.store.mem argument text } } := by
  have hstring : onStore (storeString argument text) k = .ok (⟨⟩, { k with
      store := { k.store with mem := k.store.mem.store argument (text ++ [0]) } }) :=
    run_onStore.2 ⟨_, Fallible.run_modify.2 rfl, rfl⟩
  have hnext : onStore (storeWord argument commandArgumentNextOffset 0) { k with
      store := { k.store with mem := k.store.mem.store argument (text ++ [0]) } } = .ok (⟨⟩, { k with
        store := { k.store with mem := argumentMem k.store.mem argument text } }) := by
    refine run_onStore.2 ⟨{ k.store with mem := argumentMem k.store.mem argument text }, ?_, rfl⟩
    unfold storeWord
    rw [if_neg h0]
    exact Fallible.run_modify.2 rfl
  unfold injectArgument
  exact (Fallible.bind_ok hstring).trans (Fallible.bind_ok hnext)

/-- The argument `kernel_main` gives to a program is a run of steps for its
slot. -/
theorem injectArgument_reaches {text : List Byte} {r : ℤ} (hi : i < osMaxProcesses)
    (h0 : k.processTable i ≠ 0) (hout : stack.Outside k.store.heap) (hfuel : fuel ≤ 2 ^ 30)
    (htext : text.length < sizeofArgument) (hnone : none ∈ S) (hself : some i ∈ S)
    (hrun : injectArgument fuel (k.processTable i) stack.argument text k = .ok (r, k')) :
    Reaches (SystemStep image) S k k' := by
  have hargument : stack.argument ≠ 0 := by
    intro hnull
    obtain ⟨k₁, -, hrun⟩ := Fallible.run_seq.1 hrun
    obtain ⟨k₂, hnext, -⟩ := Fallible.run_seq.1 hrun
    obtain ⟨s, hs, -⟩ := run_onStore.1 hnext
    rw [hnull] at hs
    exact absurd hs Fallible.run_throw
  rw [injectArgument_eq hargument] at hrun
  have hinjected : SystemStep image (some i) _ k' := .inject hi (by exact h0) hfuel hrun
  refine Reaches.step (stack_reaches hnone image (fun x hx => ?_) hout.argument) hinjected hself
  by_contra hnot
  exact hx (argumentMem_of_outside htext hnot)

/-- **What happens is an event** of the kernel. -/
theorem OsStep.event (h : OsStep image fuel stack a o o') (s : InOrder K o.kernel)
    (hout : stack.Outside o.kernel.store.heap) (hfuel : fuel ≤ 2 ^ 30) :
    SystemEvent image (ActsFor o.kernel a) o.kernel o'.kernel := by
  have hnone : none ∈ ActsFor o.kernel a := Or.inl rfl
  have ha : a ∈ ActsFor o.kernel a := Or.inr (Or.inl rfl)
  cases h with
  | start hload hfits => exact .of_reaches (processLoadSwitch_reaches s hload hfits none).1
  | argument hi h0 htext hargument =>
    exact .of_reaches (injectArgument_reaches hi h0 hout hfuel htext hnone ha hargument)
  | first hfirst =>
    unfold taskRunFirstEverTask at hfirst
    rw [Fallible.run_get_bind] at hfirst
    by_cases h0 : o.kernel.currentTask = 0
    · rw [if_pos h0] at hfirst
      exact absurd hfirst Fallible.run_throw
    rw [if_neg h0] at hfirst
    obtain ⟨r, k₁, hswitch, hpure⟩ := Fallible.run_bind.1 hfirst
    obtain ⟨-, rfl⟩ := Fallible.run_pure.1 hpure
    exact .of_reaches (taskSwitch_reaches hswitch hnone)
  | syscall hcaller hfits hhandler =>
    exact isr80hHandler_event hcaller s hout hfuel hfits hhandler
  | interrupt hfor hhandler => exact interruptHandler_event hfor s hhandler
  | @store _ i v x b hi hw =>
    refine .of_reaches (.single (.writes hi hw.1 fun y hy => ?_) ha)
    by_cases hne : y = x
    · exact ⟨v, hne ▸ hw⟩
    · exact absurd (Function.update_of_ne hne _ _) hy

/-! ## Runs -/

/-- The kernel's stack is outside a heap that has stayed in its place. -/
theorem KernelStack.Outside.samePlace {h h' : Heap} (hout : stack.Outside h) (a : h.SamePlace h') :
    stack.Outside h' :=
  ⟨fun x hx => mt a.spans_iff.1 (hout.buffer x hx), fun x hx => mt a.spans_iff.1 (hout.filename x hx),
    fun x hx => mt a.spans_iff.1 (hout.argument x hx)⟩

/-- **An event keeps the system in order**, and the kernel's own blocks
as they are. -/
theorem OsStep.inv (h : OsStep image fuel stack a o o') (s : InOrder K o.kernel)
    (hout : stack.Outside o.kernel.store.heap) (hfuel : fuel ≤ 2 ^ 30) :
    InOrder K o'.kernel ∧ Spares ∅ K o.kernel o'.kernel := by
  obtain ⟨k₁, hentered, l, -, hrun⟩ := h.event s hout hfuel
  obtain ⟨hin, hspares⟩ := hentered.inOrder s
  obtain ⟨hin', hspares'⟩ := SystemRun.inv hrun hin
  exact ⟨hin', hspares.trans hspares'⟩

/-- **The system is in order in every state that a run reaches**, and the
kernel's own blocks are what they were. -/
theorem OsRun.inv (h : OsRun image fuel stack l o₀ o) (s : InOrder K o₀.kernel)
    (hout : stack.Outside o₀.kernel.store.heap) (hfuel : fuel ≤ 2 ^ 30) :
    InOrder K o.kernel ∧ Spares ∅ K o₀.kernel o.kernel := by
  refine h.invariant (I := fun o => InOrder K o.kernel ∧ Spares ∅ K o₀.kernel o.kernel)
    (fun a o o' hs hstep => ?_) ⟨s, ?_⟩
  · obtain ⟨hin, hspares⟩ := hs
    obtain ⟨hin', hspares'⟩ := hstep.inv hin (hout.samePlace hspares.place) hfuel
    exact ⟨hin', hspares.trans hspares'⟩
  · obtain ⟨procs, view, s⟩ := s
    exact .refl s.files s.kernel

/-- **Steps for another slot**, or for a free one, keep what slot `j`
has. -/
theorem Reaches.slotStill (h : Reaches (SystemStep image) (ActsFor k₀ a) k k') (s : InOrder K k)
    (hj : j < osMaxProcesses) (htable : k.processTable j = k₀.processTable j)
    (h0 : k₀.processTable j ≠ 0) (hja : a ≠ some j) : SlotStill j k k' := by
  obtain ⟨l, hl, hrun⟩ := h
  refine SystemRun.still hrun s hj (htable ▸ h0) fun hin => ?_
  obtain hnone | hself | ⟨i, hi, hfree⟩ := hl _ hin
  · exact absurd hnone (Option.some_ne_none j)
  · exact hja hself.symm
  · obtain rfl := Option.some.inj hi
    exact h0 hfree

/-- **An event of another slot keeps what slot `j` has**, when `j` is
taken, and the registers saved for it when its program does not run. -/
theorem OsStep.slotKept (h : OsStep image fuel stack a o o') (s : InOrder K o.kernel)
    (hout : stack.Outside o.kernel.store.heap) (hfuel : fuel ≤ 2 ^ 30) (hj : j < osMaxProcesses)
    (h0 : o.kernel.processTable j ≠ 0) (hja : a ≠ some j) : SlotKept j o.kernel o'.kernel ∧
      (¬ o.kernel.Runs j → SlotStill j o.kernel o'.kernel) := by
  obtain ⟨k₁, hentered, hreaches⟩ := h.event s hout hfuel
  obtain ⟨hkept, hregisters⟩ := hentered.kept s hj h0
  have hstill := hreaches.slotStill (hentered.inOrder s).1 hj hkept.table h0 hja
  exact ⟨Trans.trans hkept hstill.toSlotKept, fun hwaits =>
    Trans.trans (⟨hkept, hregisters hwaits⟩ : SlotStill j o.kernel k₁) hstill⟩

/-- **What a program has is kept by runs of the others.** -/
theorem OsRun.kept (h : OsRun image fuel stack l o₀ o) (s : InOrder K o₀.kernel)
    (hout : stack.Outside o₀.kernel.store.heap) (hfuel : fuel ≤ 2 ^ 30) (hj : j < osMaxProcesses)
    (h0 : o₀.kernel.processTable j ≠ 0) (hl : some j ∉ l) : SlotKept j o₀.kernel o.kernel := by
  refine h.frame (R := fun o o' : Os => SlotKept j o.kernel o'.kernel) (I := fun o =>
    InOrder K o.kernel ∧ stack.Outside o.kernel.store.heap ∧ o.kernel.processTable j ≠ 0)
    (fun a => a ≠ some j) (fun a o o' hother hs hstep => ?_) (fun a ha he => hl (he ▸ ha))
    ⟨s, hout, h0⟩
  obtain ⟨hin, hout, h0⟩ := hs
  have hkept := (hstep.slotKept hin hout hfuel hj h0 hother).1
  obtain ⟨hin', hspares⟩ := hstep.inv hin hout hfuel
  exact ⟨⟨hin', hout.samePlace hspares.place, hkept.table ▸ h0⟩, hkept⟩

/-- A run of the system in which the program of slot `j` does not run. -/
abbrev OsRunBeside (image : Sectors) (fuel : ℕ) (stack : KernelStack) (j : ℕ) :=
  Run fun a o o' => OsStep image fuel stack a o o' ∧ ¬ o.kernel.Runs j

/-- **What a program has, and the registers it goes on with, are kept by
runs of the others.** -/
theorem OsRunBeside.still (h : OsRunBeside image fuel stack j l o₀ o) (s : InOrder K o₀.kernel)
    (hout : stack.Outside o₀.kernel.store.heap) (hfuel : fuel ≤ 2 ^ 30) (hj : j < osMaxProcesses)
    (h0 : o₀.kernel.processTable j ≠ 0) (hl : some j ∉ l) : SlotStill j o₀.kernel o.kernel := by
  refine h.frame (R := fun o o' : Os => SlotStill j o.kernel o'.kernel) (I := fun o =>
    InOrder K o.kernel ∧ stack.Outside o.kernel.store.heap ∧ o.kernel.processTable j ≠ 0)
    (fun a => a ≠ some j) (fun a o o' hother hs hstep => ?_) (fun a ha he => hl (he ▸ ha))
    ⟨s, hout, h0⟩
  obtain ⟨hin, hout, h0⟩ := hs
  have hstill := (hstep.1.slotKept hin hout hfuel hj h0 hother).2 hstep.2
  obtain ⟨hin', hspares⟩ := hstep.1.inv hin hout hfuel
  exact ⟨⟨hin', hout.samePlace hspares.place, hstill.table ▸ h0⟩, hstill⟩

end OwnKernel
