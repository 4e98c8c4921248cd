import OwnKernel.Fat16.Resolve
import OwnKernel.Model.KernelMain
import OwnKernel.System.Os

/-!
# The start of the system

`kernel_main` makes the heap, takes the volume on and makes the kernel's
directory. No process and no file is there before the first program is
loaded, so that the system is in order from then on, with all that is
allocated as the kernel's own blocks (`Starting.inOrder`). Its tables
of commands and interrupts are filled, and no event changes them
(`OsStep.tables`). The rest of `kernel_main` is a run of the system
(`kernelMain_run`).
-/

namespace OwnKernel

open Fallible (Keeps)

variable {K : Set Word} {mem : Mem} {o o' o₀ : Os} {k k' : Kernel} {image : Sectors} {stack : KernelStack}
variable {fuel i n : ℕ} {a : Option ℕ} {l : List (Option ℕ)} {u : PUnit} {argument task : Word}

/-! ## Taking the volume on -/

/-- The heap is in its place, and the file layer has no object. -/
structure NoFiles (s : FsState) : Prop where
  place : kernelHeapInit.SamePlace s.store.heap
  objects : s.objects = fun _ => none

namespace NoFiles

variable {size p : Word} {n : ℕ}

/-- A call of the heap leaves it where it is. -/
theorem keeps_inStore {α : Type} {x : StoreM α}
    (hx : ∀ s t a, x s = .ok (a, t) → s.heap.SamePlace t.heap) :
    Keeps NoFiles (fun _ => True) (inStore x) := fun s hs =>
  ⟨fun _ _ => trivial, fun a t hrun => by
    obtain ⟨st, hst, rfl⟩ := run_inStore.1 hrun
    exact ⟨hs.place.trans (hx _ _ _ hst), hs.objects⟩⟩

theorem keeps_zalloc : Keeps NoFiles (fun _ => True) (inStore (kernelZalloc size)) :=
  keeps_inStore fun s t a hz => by
    obtain ⟨-, -, hheap, -⟩ := kernelZalloc_run hz
    rw [hheap]
    exact s.heap.samePlace_write _

theorem keeps_free : Keeps NoFiles (fun _ => True) (inStore (kernelFree p)) := fun s hs =>
  ⟨fun _ _ => trivial, fun a t hrun => by
    rw [run_kernelFree.1 hrun]
    exact ⟨hs.place.trans (s.store.heap.samePlace_write _), hs.objects⟩⟩

theorem keeps_readDisk {α : Type} {x : Except Fault α} :
    Keeps NoFiles (fun _ => True) (readDisk x) := fun s hs =>
  ⟨fun _ _ => trivial, fun a t hrun => by rwa [(run_readDisk.1 hrun).2]⟩

theorem keeps_diskStreamNew : Keeps NoFiles (fun _ => True) diskStreamNew :=
  keeps_zalloc.bind fun _ _ _ _ _ => .ite (fun _ => .throw trivial) fun _ => .pure _

theorem keeps_setFsPrivate {x : Option FatPrivate} :
    Keeps NoFiles (fun _ => True) (setFsPrivate x) := .modify fun _ h => ⟨h.place, h.objects⟩

theorem keeps_fat16InitPrivate : Keeps NoFiles (fun _ => True) (fat16InitPrivate p) :=
  .ite (fun _ => .throw trivial) fun _ => keeps_diskStreamNew.bind fun _ _ _ _ _ =>
    keeps_diskStreamNew.bind fun _ _ _ _ _ => keeps_diskStreamNew.bind fun _ _ _ _ _ => .pure _

theorem keeps_fat16GetRootDirectory {header : FatHeader} {directory : FatDirectory} :
    Keeps NoFiles (fun _ => True) (fat16GetRootDirectory image header directory) :=
  keeps_readDisk.bind fun _ _ _ _ _ => keeps_zalloc.bind fun _ _ _ _ _ =>
    .ite (fun _ => .pure _) fun _ => keeps_readDisk.bind fun _ _ _ _ _ => .pure _

theorem keeps_fat16ResolveVolume : Keeps NoFiles (fun _ => True) (fat16ResolveVolume image) :=
  keeps_readDisk.bind fun _ _ _ _ _ => keeps_setFsPrivate.bind fun _ _ _ _ _ =>
    .ite (fun _ => .pure _) fun _ => keeps_fat16GetRootDirectory.bind fun _ _ _ _ _ =>
      keeps_setFsPrivate.bind fun _ _ _ _ _ => .ite (fun _ => .pure _) fun _ => .pure _

/-- **`fat16_resolve` makes no object of the file layer**, whether or not
the volume is one. -/
theorem keeps_fat16Resolve : Keeps NoFiles (fun _ => True) (fat16Resolve image) :=
  keeps_zalloc.bind fun _ _ _ _ _ => keeps_fat16InitPrivate.bind fun _ _ _ _ _ =>
    (Keeps.modify fun _ h => ⟨h.place, h.objects⟩).bind fun _ _ _ _ _ =>
      keeps_diskStreamNew.bind fun _ _ _ _ _ => keeps_fat16ResolveVolume.bind fun _ _ _ _ _ =>
        keeps_free.bind fun _ _ _ _ _ => .ite
          (fun _ => keeps_free.bind fun _ _ _ _ _ => keeps_setFsPrivate.bind fun _ _ _ _ _ => .pure _)
          fun _ => .pure _

theorem keeps_diskSearchAndInit : Keeps NoFiles (fun _ => True) (diskSearchAndInit image) :=
  (Keeps.modify fun _ h => ⟨h.place, h.objects⟩).bind fun _ _ _ _ _ =>
    keeps_fat16Resolve.bind fun _ _ _ _ _ => .modify fun _ h => ⟨h.place, h.objects⟩

end NoFiles

/-! ## The kernel before its first program -/

/-- **A kernel that is starting**: no file, no process. -/
structure Starting (o : Os) : Prop where
  files : NoFiles o.kernel.fsState
  processTable : o.kernel.processTable = fun _ => 0
  currentProcess : o.kernel.currentProcess = 0

namespace Starting

theorem keeps_onFs {α : Type} {x : FsM α} (hx : Keeps NoFiles (fun _ => True) x) :
    Keeps Starting (fun _ => True) (inKernel (onFs x)) := fun o ho =>
  ⟨fun _ _ => trivial, fun a o' hrun => by
    obtain ⟨k, hk, rfl⟩ := run_inKernel.1 hrun
    obtain ⟨s, hs, rfl⟩ := run_onFs.1 hk
    exact ⟨(hx _ ho.files).2 _ _ hs, ho.processTable, ho.currentProcess⟩⟩

/-- A change beside the kernel. -/
theorem keeps_modify {f : Os → Os} (hf : ∀ o, (f o).kernel = o.kernel) :
    Keeps Starting (fun _ => True) (modify f : OsM PUnit) := .modify fun o ho =>
  ⟨by rw [hf]; exact ho.files, by rw [hf]; exact ho.processTable,
    by rw [hf]; exact ho.currentProcess⟩

/-- The kernel's directory is made. -/
theorem keeps_pagingNew4gb {flags : Byte} :
    Keeps Starting (fun _ => True) (inKernel (onStore (pagingNew4gb flags))) := fun o ho =>
  ⟨fun _ _ => trivial, fun a o' hrun => by
    obtain ⟨k, hk, rfl⟩ := run_inKernel.1 hrun
    obtain ⟨s, hs, rfl⟩ := run_onStore.1 hk
    have hplace := ho.files.place
    obtain ⟨-, -, -, hext, -⟩ := pagingNew4gb_spec (hplace.ready ready_kernelHeapInit) hs
    exact ⟨⟨hplace.trans hext.place, ho.files.objects⟩, ho.processTable, ho.currentProcess⟩⟩

theorem keeps_registerCommands {x : Except Fault Isr80hCommands} :
    Keeps Starting (fun _ => True) (inKernel (onArray x)) := fun o ho =>
  ⟨fun _ _ => trivial, fun a o' hrun => by
    obtain ⟨k, hk, rfl⟩ := run_inKernel.1 hrun
    rwa [(run_onArray.1 hk).2]⟩

end Starting

/-- **The kernel after the start has no process and no file.** -/
theorem kernelMainInit_starting (hrun : kernelMainInit image (poweredOn mem) = .ok (u, o)) :
    Starting o := by
  obtain ⟨o₁, hterminal, hrun⟩ := Fallible.run_seq.1 hrun
  obtain ⟨o₂, hheap, hrun⟩ := Fallible.run_seq.1 hrun
  obtain ⟨k, hk, rfl⟩ := run_inKernel.1 hheap
  obtain ⟨s, hs, rfl⟩ := run_onStore.1 hk
  have hstart : Starting { o₁ with kernel := { o₁.kernel with store := s } } := by
    have hkernel := kernel_onTerminal hterminal
    have hheap : s.heap = kernelHeapInit := by
      unfold kernelHeapInitialize at hs
      rw [Fallible.run_modify.1 hs]
    refine ⟨⟨?_, ?_⟩, ?_, ?_⟩
    · exact hheap ▸ .refl _
    all_goals
      simp only [Kernel.fsState, hkernel]
      rfl
  refine (Keeps.bind (Starting.keeps_onFs ?_) (fun _ _ _ _ _ => ?_) _ hstart).2 _ _ hrun
  · exact .modify fun _ h => ⟨h.place, h.objects⟩
  refine (Starting.keeps_onFs NoFiles.keeps_diskSearchAndInit).bind fun _ _ _ _ _ => ?_
  refine .bind (Starting.keeps_modify (by exact fun _ => rfl)) fun _ _ _ _ _ => ?_
  refine Starting.keeps_pagingNew4gb.bind fun _ _ _ _ _ => .get_bind fun _ _ => ?_
  refine Starting.keeps_registerCommands.bind fun _ _ _ _ _ => ?_
  exact .bind (Starting.keeps_modify (by exact fun _ => rfl)) fun _ _ _ _ _ =>
    Starting.keeps_modify (by exact fun _ => rfl)

/-- All that is allocated. -/
def Kernel.allBlocks (k : Kernel) : Set Word := {x | ∃ n, k.store.heap.Owns x n}

/-- **The system is in order when it has started**, all blocks the
kernel's own. -/
theorem Starting.inOrder (h : Starting o) : InOrder o.kernel.allBlocks o.kernel := by
  have ready : o.kernel.store.heap.Ready := h.files.place.ready ready_kernelHeapInit
  have hobjects : ∀ x, o.kernel.objects x = none := fun x => congrFun h.files.objects x
  have htable : ∀ i, ¬ o.kernel.processTable i ≠ 0 := fun i h0 => h0 (congrFun h.processTable i)
  refine ⟨fun _ => .zero, fun _ => ⟨0, 0, fun _ => 0⟩, ?_⟩
  exact
    { files := ⟨ready, fun q hq => absurd (hobjects q) hq,
        fun q x hq => absurd ((hobjects q).symm.trans hq) (Option.some_ne_none _).symm,
        fun q q' x x' hq => absurd ((hobjects q).symm.trans hq) (Option.some_ne_none _).symm⟩
      kernel := fun x hx => ⟨hx, hobjects x⟩
      slot := fun i _ h0 => absurd h0 (htable i)
      apart := fun i _ j _ h0 => absurd h0 (htable i)
      kernel_apart := fun i _ h0 => absurd h0 (htable i)
      current := Or.inl h.currentProcess }

/-! ## The rest of `kernel_main` -/

/-- **A program that `kernel_main` starts**: it is loaded into a free slot,
and given its argument. -/
theorem startBlank_run {text : List Byte} (s : InOrder K o.kernel) (htext : text.length < sizeofArgument)
    (hrun : startBlank image fuel stack.argument text o.kernel = .ok (u, k'))
    (hfits : ∀ r k₁, processLoadSwitch image blankPath o.kernel = .ok (r, k₁) → 0 ≤ r.1 →
      ProgramInBlocks k₁ r.2) :
    ∃ i, OsRun image fuel stack [none, some i] o { o with kernel := k' } := by
  obtain ⟨r, k₁, hload, hrest⟩ := Fallible.run_bind.1 hrun
  by_cases hres : r.1 ≠ allOk
  · rw [if_pos hres] at hrest
    exact absurd hrest Fallible.run_throw
  rw [if_neg hres] at hrest
  obtain ⟨res, k₂, hargument, hpure⟩ := Fallible.run_bind.1 hrest
  obtain rfl := (Fallible.run_pure.1 hpure).2.symm
  have hres' : 0 ≤ r.1 := le_of_eq (not_not.1 hres).symm
  obtain ⟨slot, hlt, -, hne, hslot⟩ :=
    (processLoadSwitch_reaches s hload (hfits r k₁ hload) none).2 hres'
  rw [← hslot] at hne hargument
  have hstart : OsStep image fuel stack none o { o with kernel := k₁ } :=
    .start hload (hfits r k₁ hload)
  have hargument' : OsStep image fuel stack (some slot) { o with kernel := k₁ }
      { o with kernel := k₂ } := .argument hlt hne htext hargument
  exact ⟨slot, .cons hstart (.single hargument')⟩

/-- **`kernel_main` is the start and a run of the system**, when the
programs it loads keep to their blocks. -/
theorem kernelMain_run (hrun : kernelMain image fuel stack (poweredOn mem) = .ok (task, o))
    (hout : stack.Outside kernelHeapInit) (hfuel : fuel ≤ 2 ^ 30)
    (hfits : ∀ k r k₁, processLoadSwitch image blankPath k = .ok (r, k₁) → 0 ≤ r.1 →
      ProgramInBlocks k₁ r.2) :
    ∃ o₀ l, kernelMainInit image (poweredOn mem) = .ok (⟨⟩, o₀) ∧ OsRun image fuel stack l o₀ o := by
  obtain ⟨o₀, hinit, hrun⟩ := Fallible.run_seq.1 hrun
  obtain ⟨o₁, hfirst', hrun⟩ := Fallible.run_seq.1 hrun
  obtain ⟨o₂, hsecond', htask'⟩ := Fallible.run_seq.1 hrun
  obtain ⟨k₁, hfirst, rfl⟩ := run_inKernel.1 hfirst'
  obtain ⟨k₂, hsecond, rfl⟩ := run_inKernel.1 hsecond'
  obtain ⟨k₃, htask, rfl⟩ := run_inKernel.1 htask'
  have hstarting := kernelMainInit_starting hinit
  have hout₀ := hout.samePlace hstarting.files.place
  obtain ⟨i, hrun₁⟩ := startBlank_run hstarting.inOrder (by decide) hfirst (hfits _)
  have hinv := (OsRun.inv hrun₁ hstarting.inOrder hout₀ hfuel).1
  obtain ⟨j, hrun₂⟩ := startBlank_run (o := { o₀ with kernel := k₁ }) hinv (by decide) hsecond
    (hfits _)
  exact ⟨o₀, _, hinit, (hrun₁.append hrun₂).append (.single (.first htask))⟩

/-! ## The tables -/

/-- What is registered for the commands. -/
def registeredCommands : List Isr80hCommand :=
  [.exit, .print, .getkey, .putchar, .malloc, .free, .processLoadStart, .invokeSystemCommand,
    .getProgramArguments]

/-- What is registered for the interrupts. -/
def registeredCallbacks (interrupt : ℕ) : Option InterruptCallback :=
  if interrupt < 0x20 then some .exception
  else if interrupt = 0x20 then some .clock
  else if interrupt = 0x21 then some .keyboard
  else none

/-- **The tables are filled**: nine commands, the exceptions, the clock and
the keyboard. -/
structure Registered (o : Os) : Prop where
  commands : ∀ n, o.isr80hCommands n = registeredCommands[n]?
  callbacks : ∀ n, o.interruptCallbacks n = registeredCallbacks n

/-- The commands are registered one after the other. -/
theorem isr80hRegisterCommands_empty :
    ∃ commands, isr80hRegisterCommands (fun _ => none) = .ok commands ∧
      ∀ n, commands n = registeredCommands[n]? := by
  refine ⟨_, rfl, fun n => ?_⟩
  match n with
  | 0 | 1 | 2 | 3 | 4 | 5 | 6 | 7 | 8 => rfl
  | n + 9 => rfl

/-- A callback that is registered. -/
theorem idtRegisterInterruptCallback_apply {interrupt n : ℕ} {callback : InterruptCallback}
    {callbacks : InterruptCallbacks} (h : interrupt < totalInterrupts) :
    (idtRegisterInterruptCallback interrupt callback callbacks).2 n =
      if n = interrupt then some callback else callbacks n := by
  have hin : ¬ ((interrupt : ℤ) < 0 ∨ (totalInterrupts : ℤ) ≤ interrupt) := by omega
  unfold idtRegisterInterruptCallback
  rw [if_neg hin, Int.toNat_natCast]
  exact Function.update_apply _ _ _ _

/-- The exceptions are registered one after the other. -/
theorem idtInit_exceptions {m : ℕ} (hm : m ≤ 0x20) (n : ℕ) :
    (List.range m).foldl (fun callbacks (i : ℕ) =>
      (idtRegisterInterruptCallback i .exception callbacks).2) (fun _ => none) n =
        if n < m then some .exception else none := by
  induction m with
  | zero => rfl
  | succ m ih =>
    rw [List.range_succ, List.foldl_append, List.foldl_cons, List.foldl_nil,
      idtRegisterInterruptCallback_apply (by unfold totalInterrupts; omega), ih (by omega)]
    by_cases hn : n = m
    · rw [if_pos hn, if_pos (by omega)]
    · rw [if_neg hn]
      simp only [show n < m + 1 ↔ n < m by omega]

/-- **The start fills the tables.** -/
theorem kernelMainInit_registered (hrun : kernelMainInit image (poweredOn mem) = .ok (u, o)) :
    Registered o := by
  obtain ⟨commands, hcommands, hregistered⟩ := isr80hRegisterCommands_empty
  obtain ⟨o₁, hterminal, hrun⟩ := Fallible.run_seq.1 hrun
  obtain ⟨o₂, hheap', hrun⟩ := Fallible.run_seq.1 hrun
  obtain ⟨o₃, hfs', hrun⟩ := Fallible.run_seq.1 hrun
  obtain ⟨o₄, hdisk', hrun⟩ := Fallible.run_seq.1 hrun
  obtain ⟨o₅, hidt, hrun⟩ := Fallible.run_seq.1 hrun
  obtain ⟨chunk, o₆, hchunk', hrun⟩ := Fallible.run_bind.1 hrun
  rw [Fallible.run_get_bind] at hrun
  obtain ⟨table, o₇, htable', hrun⟩ := Fallible.run_bind.1 hrun
  obtain ⟨o₈, hset, hkeyboard⟩ := Fallible.run_seq.1 hrun
  obtain ⟨k₂, -, rfl⟩ := run_inKernel.1 hheap'
  obtain ⟨k₃, -, rfl⟩ := run_inKernel.1 hfs'
  obtain ⟨k₄, -, rfl⟩ := run_inKernel.1 hdisk'
  obtain ⟨k₆, -, rfl⟩ := run_inKernel.1 hchunk'
  obtain ⟨k₇, htable, rfl⟩ := run_inKernel.1 htable'
  obtain ⟨htable, -⟩ := run_onArray.1 htable
  have hempty : o₁.isr80hCommands = (fun _ => none) ∧ o₁.interruptCallbacks = fun _ => none := by
    unfold onTerminal at hterminal
    rw [Fallible.run_modify.1 hterminal]
    exact ⟨rfl, rfl⟩
  rw [Fallible.run_modify.1 hidt] at htable hset
  rw [hempty.1, hcommands] at htable
  obtain rfl := Except.ok.inj htable
  unfold classicKeyboardInit at hkeyboard
  rw [Fallible.run_modify.1 hkeyboard, Fallible.run_modify.1 hset]
  refine ⟨hregistered, fun n => ?_⟩
  change (idtRegisterInterruptCallback (0x21 : ℕ) .keyboard (idtRegisterInterruptCallback
    (0x20 : ℕ) .clock ((List.range 0x20).foldl (fun callbacks (i : ℕ) =>
      (idtRegisterInterruptCallback i .exception callbacks).2) o₁.interruptCallbacks)).2).2 n = _
  rw [hempty.2, idtRegisterInterruptCallback_apply (by decide),
    idtRegisterInterruptCallback_apply (by decide), idtInit_exceptions le_rfl]
  unfold registeredCallbacks
  by_cases h33 : n = 0x21
  · rw [if_pos h33, if_neg (by omega), if_neg (by omega), if_pos h33]
  by_cases h32 : n = 0x20
  · rw [if_neg h33, if_pos h32, if_neg (by omega), if_pos h32]
  · rw [if_neg h33, if_neg h32, if_neg h32, if_neg h33]

/-- The tables are these. -/
def HasTables (commands : Isr80hCommands) (callbacks : InterruptCallbacks) (o : Os) : Prop :=
  o.isr80hCommands = commands ∧ o.interruptCallbacks = callbacks

namespace HasTables

variable {commands : Isr80hCommands} {callbacks : InterruptCallbacks}

theorem keeps_inKernel {α : Type} {x : KernelM α} :
    Keeps (HasTables commands callbacks) (fun _ => True) (inKernel x) := fun _ ho =>
  ⟨fun _ _ => trivial, fun a o' hrun => by
    obtain ⟨k, -, rfl⟩ := run_inKernel.1 hrun
    exact ho⟩

theorem keeps_onTerminal {f : Terminal → Terminal × List VideoWrite} :
    Keeps (HasTables commands callbacks) (fun _ => True) (onTerminal f) := .modify fun _ ho => ho

theorem keeps_run {command : Isr80hCommand} :
    Keeps (HasTables commands callbacks) (fun _ => True) (command.run image fuel stack) := by
  cases command with
  | print =>
    exact .get_bind fun _ _ => keeps_inKernel.bind fun _ _ _ _ _ => keeps_inKernel.bind
      fun _ _ _ _ _ => .get_bind fun _ _ => keeps_inKernel.bind fun _ _ _ _ _ =>
        keeps_onTerminal.bind fun _ _ _ _ _ => .pure _
  | putchar =>
    exact .get_bind fun _ _ => keeps_inKernel.bind fun _ _ _ _ _ => keeps_onTerminal.bind
      fun _ _ _ _ _ => .pure _
  | exit | getkey | malloc | free | processLoadStart | invokeSystemCommand | getProgramArguments =>
    exact keeps_inKernel

theorem keeps_isr80hHandler {command : ℤ} {frame : InterruptFrame} :
    Keeps (HasTables commands callbacks) (fun _ => True)
      (isr80hHandler image fuel stack command frame) := by
  refine keeps_inKernel.bind fun _ _ _ _ _ => .bind (.ite (fun _ => .pure _) fun _ =>
    .get_bind fun o _ => ?_) fun _ res _ _ _ => ?_
  · cases o.isr80hCommands command.toNat with
    | none => exact .pure _
    | some c => exact keeps_run
  · cases res with
    | switched task => exact .pure _
    | returned val => exact keeps_inKernel.bind fun _ _ _ _ _ => .pure _

theorem keeps_classicKeyboardHandleInterrupt {scancode : Byte} :
    Keeps (HasTables commands callbacks) (fun _ => True) (classicKeyboardHandleInterrupt scancode) :=
  .ite (fun _ => .pure _) fun _ => .bind (.ite (fun _ => .modify fun _ ho => ho) fun _ => .pure _)
    fun _ _ _ _ _ => .get_bind fun _ _ => keeps_inKernel.bind fun _ _ _ _ _ =>
      .bind (.ite (fun _ => keeps_inKernel) fun _ => .pure _) fun _ _ _ _ _ => keeps_inKernel

theorem keeps_interruptHandler {scancode : Byte} {interrupt : ℕ} {frame : InterruptFrame} :
    Keeps (HasTables commands callbacks) (fun _ => True) (interruptHandler scancode interrupt frame) := by
  refine .get_bind fun o _ => ?_
  cases o.interruptCallbacks interrupt with
  | none => exact keeps_inKernel.bind fun _ _ _ _ _ => .pure _
  | some callback =>
    refine keeps_inKernel.bind fun _ _ _ _ _ => .bind ?_ fun _ left _ _ _ => ?_
    · cases callback with
      | exception => exact keeps_inKernel.bind fun _ _ _ _ _ => .pure _
      | clock => exact keeps_inKernel.bind fun _ _ _ _ _ => .pure _
      | keyboard => exact keeps_classicKeyboardHandleInterrupt.bind fun _ _ _ _ _ => .pure _
    · cases left with
      | none => exact keeps_inKernel.bind fun _ _ _ _ _ => .pure _
      | some task => exact .pure _

end HasTables

/-- **No event changes the tables.** -/
theorem OsStep.tables (h : OsStep image fuel stack a o o') :
    o'.isr80hCommands = o.isr80hCommands ∧ o'.interruptCallbacks = o.interruptCallbacks := by
  cases h with
  | start | argument | first | store => exact ⟨rfl, rfl⟩
  | syscall _ _ hrun => exact (HasTables.keeps_isr80hHandler o ⟨rfl, rfl⟩).2 _ _ hrun
  | interrupt _ hrun => exact (HasTables.keeps_interruptHandler o ⟨rfl, rfl⟩).2 _ _ hrun

/-- They are those of the start in every state that a run reaches. -/
theorem OsRun.registered (h : OsRun image fuel stack l o₀ o) (hr : Registered o₀) : Registered o :=
  h.invariant (fun a o o' hs hstep => by
    obtain ⟨hcommands, hcallbacks⟩ := hstep.tables
    exact ⟨fun n => by rw [hcommands]; exact hs.commands n,
      fun n => by rw [hcallbacks]; exact hs.callbacks n⟩) hr

/-! ## The start does not fail -/

/-- The file layer when the volume is looked for. -/
def startingFs (mem : Mem) : FsState := { bootFs with store := ⟨kernelHeapInit, mem⟩ }

/-- **The start, once the volume is taken on**, with room for the kernel's
directory. -/
theorem kernelMainInit_of_resolved {s : FsState} {res : ℤ}
    (hresolve : fat16Resolve image (startingFs mem) = .ok (res, s))
    (hroom : ∃ m, s.store.heap.Room m ∧ m + (n + 1026) ≤ s.store.heap.total) :
    ∃ o t, kernelMainInit image (poweredOn mem) = .ok (⟨⟩, o) ∧
      o.kernel = (poweredOn mem).kernel.withFsState { s with
        store := t
        disk := { s.disk with filesystem := if res = 0 then some .fat16 else none } } ∧
      ∃ m, t.heap.Room m ∧ m + n ≤ t.heap.total := by
  have hfiles : NoFiles s := (NoFiles.keeps_fat16Resolve _ ⟨.refl _, rfl⟩).2 _ _ hresolve
  obtain ⟨chunk, t, hchunk, hroom'⟩ := pagingNew4gb_of_budget budget_room
    (BitVec.setWidth 8 (pagingIsWriteable ||| pagingIsPresent ||| pagingAccessFromAll))
    (hfiles.place.ready ready_kernelHeapInit) hroom
  obtain ⟨commands, hcommands, -⟩ := isr80hRegisterCommands_empty
  have hdisk : diskSearchAndInit image (startingFs mem) = .ok (⟨⟩, { s with
      disk := { s.disk with filesystem := if res = 0 then some .fat16 else none } }) :=
    Fallible.run_seq.2 ⟨_, Fallible.run_modify.2 rfl, Fallible.run_bind.2 ⟨res, s, hresolve,
      Fallible.run_modify.2 rfl⟩⟩
  refine ⟨_, t, Fallible.run_seq.2 ⟨_, Fallible.run_modify.2 rfl, Fallible.run_seq.2 ⟨_,
    run_inKernel.2 ⟨_, run_onStore.2 ⟨_, Fallible.run_modify.2 rfl, rfl⟩, rfl⟩,
    Fallible.run_seq.2 ⟨_, run_inKernel.2 ⟨_, run_onFs.2 ⟨_, Fallible.run_modify.2 rfl, rfl⟩, rfl⟩,
    Fallible.run_seq.2 ⟨_, run_inKernel.2 ⟨_, run_onFs.2 ⟨_, hdisk, rfl⟩, rfl⟩,
    Fallible.run_seq.2 ⟨_, Fallible.run_modify.2 rfl, Fallible.run_bind.2 ⟨_, _,
    run_inKernel.2 ⟨_, run_onStore.2 ⟨_, hchunk, rfl⟩, rfl⟩, Fallible.run_get_bind.2
    (Fallible.run_bind.2 ⟨_, _, run_inKernel.2 ⟨_, run_onArray.2 ⟨hcommands, rfl⟩, rfl⟩,
    Fallible.run_seq.2 ⟨_, Fallible.run_modify.2 rfl, Fallible.run_modify.2 rfl⟩⟩)⟩⟩⟩⟩⟩⟩,
    rfl, hroom'⟩

/-- **The kernel starts from every volume that is one**: the header bears
the signature, the root directory has an end, and it fits in a block. What
memory held before does not matter, and the volume is mounted. -/
theorem kernelMainInit_of_volume {total : ℤ} (mem : Mem)
    (hsig : (volumeHeader image).signature = fat16Signature)
    (hentries : 0 < (volumeHeader image).rootDirEntries.toNat)
    (hle : (volumeHeader image).rootDirEntries.toNat ≤ 128)
    (htotal : fat16GetTotalItemsForDirectory image (volumeHeader image).rootDirSectorPos = .ok total) :
    ∃ o fat, kernelMainInit image (poweredOn mem) = .ok (⟨⟩, o) ∧
      o.kernel.disk = ⟨some .fat16, some fat⟩ ∧ Mounted image fat ∧ Registered o := by
  have hplace : kernelHeapInit.SamePlace (startingFs mem).store.heap := .refl _
  obtain ⟨s, hresolve⟩ := fat16Resolve_of_room hsig hentries hle htotal
    (hplace.ready ready_kernelHeapInit) room_kernelHeapInit
    (show 0 + 5 < kernelHeapInit.total by decide)
  have hsize : (volumeHeader image).rootDirSize =
      ((volumeHeader image).rootDirEntries.toNat * sizeofFatDirectoryItem : ℕ) :=
    FatHeader.rootDirSize_eq _
  have hcast : (BitVec.ofInt 32 (volumeHeader image).rootDirSize).toNat =
      (volumeHeader image).rootDirEntries.toNat * 32 := by
    rw [hsize, BitVec.toNat_ofInt]
    unfold sizeofFatDirectoryItem
    omega
  obtain ⟨m, hm, huntouched⟩ := spends_fat16Resolve (by omega) (by omega) 0 (startingFs mem) 0 s
    ⟨⟨hplace, room_kernelHeapInit⟩, fun _ => rfl, fun _ => rfl⟩ hresolve
  obtain ⟨o, t, hrun, hkernel, -⟩ := kernelMainInit_of_resolved (n := 0) hresolve
    ⟨m, huntouched.1.2, by rw [huntouched.1.total]; omega⟩
  obtain ⟨fat, hfat, hmounted⟩ := mounted_of_fat16Resolve hresolve
  refine ⟨o, fat, hrun, ?_, hmounted, kernelMainInit_registered hrun⟩
  rw [hkernel]
  change (⟨_, s.disk.fsPrivate⟩ : Disk) = _
  rw [hfat, if_pos rfl]

/-! ## A program that is started -/

section
variable {process : Word} {p : Process} {file : ElfFile} {slot : ℤ}

/-- **A program without program headers** keeps to its blocks when its task
has been made. -/
theorem HeaderLoaded.programInBlocks (h : HeaderLoaded k process p file) (r : k.store.heap.Ready)
    (hrun : processLoadTask process slot k = .ok ((0, process), k')) :
    ProgramInBlocks k' process := by
  obtain ⟨task, c, k₁, k₂, -, hb, -, -, hout, -, hcases⟩ :=
    processLoadTask_cases r h.loaded.object hrun
  obtain ⟨hneg, -⟩ | ⟨-, -, rfl⟩ := hcases
  · exact absurd hneg (lt_irrefl 0)
  intro q file' n hq helf hfile hn i hi
  have hprocess : q = { p with task := task } := by
    change k₂.processes process = _ at hq
    rw [hout.processes, setProcess_processes_self] at hq
    exact (Option.some.inj hq).symm
  have hsame : file' = file := by
    change k₂.elfFiles q.ptr = _ at hfile
    rw [hout.elfFiles, hprocess] at hfile
    change k₁.elfFiles p.ptr = _ at hfile
    rw [hb.state] at hfile
    exact Option.some.inj (hfile.symm.trans h.elfFile)
  -- the file's block is none of the tables that were written
  have hphnum : elfPhnum k₂.store.mem file.elfMemory = 0 := by
    rw [← h.phnum]
    unfold elfPhnum
    rw [Mem.load16_congr fun x hx => ?_]
    have hin : InRange file.elfMemory (4096 * 1) x := by
      unfold InRange elfPhnumOffset at hx
      unfold InRange
      bv_omega
    have hown := hb.store.owns _ _ h.owns
    rw [hout.out x (not_inTables_of_owns (k := k₁.setProcess process (some { p with task := task }))
      (hb.store.ready r) hb.mapped hown (fun hc => hb.chunk_fresh _ hc 1 h.owns) hin)]
    exact hb.store.mem _ _ h.owns x hin
  rw [hsame] at hi
  change i < elfPhnum k₂.store.mem file.elfMemory at hi
  rw [hphnum] at hi
  exact absurd hi (Nat.not_lt_zero i)

end

end OwnKernel
