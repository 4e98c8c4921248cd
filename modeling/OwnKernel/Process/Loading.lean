import OwnKernel.File.Close
import OwnKernel.Process.Load

/-!
# Loads that return

What `process_load_switch` leaves behind when it comes back, whatever the
file and the heap are. Up to the creation of the task the lists of tasks
and processes are not touched (`Loading`), and from there on a failure is
undone; so the process is registered, or the lists are what they were
(`processLoadSwitch_returns`).
-/

namespace OwnKernel

open Fallible (Keeps)

variable {k k₀ k' : Kernel} {process : Word} {image : Sectors} {filename : Cstring}

/-! ## What loading a file keeps -/

/-- **What loading a program's file keeps**, from `k₀` on: the lists, the
blocks that are not the file layer's, and the tasks of the processes. -/
structure Loading (k₀ k : Kernel) : Prop where
  files : FsOwned k.fsState
  place : k₀.store.heap.SamePlace k.store.heap
  blocks : ∀ q j, k₀.store.heap.Owns q j → k₀.objects q = none →
    k.store.heap.Owns q j ∧ k.objects q = none
  lists : SameLists k₀ k
  task : ∀ q p, k₀.processes q = some p → ∃ p', k.processes q = some p' ∧ p'.task = p.task

namespace Loading

theorem refl (o : FsOwned k.fsState) : Loading k k where
  files := o
  place := .refl _
  blocks _ _ h h0 := ⟨h, h0⟩
  lists := ⟨rfl, rfl, rfl, rfl, rfl, rfl⟩
  task _ p h := ⟨p, h, rfl⟩

/-- What the file layer does to its part. -/
theorem withFsState {s : FsState} (h : Loading k₀ k) (o : FsOwned s)
    (hplace : k.store.heap.SamePlace s.store.heap)
    (hblocks : ∀ q j, k.store.heap.Owns q j → k.objects q = none →
      s.store.heap.Owns q j ∧ s.objects q = none) : Loading k₀ (k.withFsState s) where
  files := o
  place := h.place.trans hplace
  blocks q j hq h0 := hblocks q j (h.blocks q j hq h0).1 (h.blocks q j hq h0).2
  lists := ⟨h.lists.processTable, h.lists.currentProcess, h.lists.tasks, h.lists.taskHead,
    h.lists.taskTail, h.lists.currentTask⟩
  task := h.task

/-- A step that finishes keeps it. -/
theorem keeps_of_run {α : Type} {x : KernelM α}
    (h : ∀ k a k', Loading k₀ k → x k = .ok (a, k') → Loading k₀ k') :
    Keeps (Loading k₀) (fun _ => True) x := fun k hk =>
  ⟨fun _ _ => trivial, fun a k' hrun => h k a k' hk hrun⟩

theorem keeps_zalloc {size : Word} :
    Keeps (Loading k₀) (fun _ => True) (onStore (kernelZalloc size)) := by
  refine keeps_of_run fun k p k' h hrun => ?_
  obtain ⟨s, hz, rfl⟩ := run_onStore.1 hrun
  have hext := kernelZalloc_extends h.files.ready hz
  exact h.withFsState (s := { k.fsState with store := s }) (h.files.extends_ hext) hext.place
    fun q j hq h0 => ⟨hext.owns q j hq, h0⟩

theorem keeps_fopen {modeStr : Cstring} :
    Keeps (Loading k₀) (fun _ => True) (onFs (fopen image filename modeStr)) := by
  refine keeps_of_run fun k fd k' h hrun => ?_
  obtain ⟨s, hopen, rfl⟩ := run_onFs.1 hrun
  obtain ⟨o, a⟩ := FsKeeps.of_fopen h.files hopen
  exact h.withFsState o a.place fun q j hq h0 => ⟨a.owns q j hq h0, a.objects q j hq h0⟩

theorem keeps_fclose {fd : ℤ} : Keeps (Loading k₀) (fun _ => True) (onFs (fclose fd)) := by
  refine keeps_of_run fun k r k' h hrun => ?_
  obtain ⟨s, hclose, rfl⟩ := run_onFs.1 hrun
  have a := FsKeeps.of_fclose h.files hclose
  refine h.withFsState ?_ a.place fun q j hq h0 => ⟨a.owns q j hq h0, a.objects q j hq h0⟩
  obtain ⟨-, -, rfl⟩ | ⟨-, -, x, hcloses⟩ := fclose_cases h.files hclose
  · exact h.files
  · exact hcloses.owned

theorem keeps_fread {ptr size nmemb : Word} {fd : ℤ} :
    Keeps (Loading k₀) (fun _ => True) (onFs (fread image ptr size nmemb fd)) := by
  refine keeps_of_run fun k n k' h hrun => ?_
  obtain ⟨s, hread, rfl⟩ := run_onFs.1 hrun
  obtain ⟨m, rfl⟩ := fread_frame hread
  have o := h.files
  exact h.withFsState ⟨o.ready, o.owns, o.items, o.single⟩ (.refl _) fun q j hq h0 => ⟨hq, h0⟩

theorem keeps_fstat {fd : ℤ} {stat : FileStat} :
    Keeps (Loading k₀) (fun _ => True) (onFs (fstat fd stat)) := by
  refine keeps_of_run fun k r k' h hrun => ?_
  obtain ⟨s, hstat, rfl⟩ := run_onFs.1 hrun
  obtain ⟨rfl, -⟩ := fstat_frame hstat
  exact h

/-- Members of a process but its task are changed. -/
theorem keeps_modifyProcess {f : Process → Process} (hf : ∀ p, (f p).task = p.task) :
    Keeps (Loading k₀) (fun _ => True) (modifyProcess process f) := by
  refine keeps_of_run fun k u k' h hrun => ?_
  obtain ⟨-, p, hp, rfl⟩ := run_modifyProcess.1 hrun
  refine { h with task := fun q x hx => ?_, lists := ?_ }
  · exact ⟨h.lists.processTable, h.lists.currentProcess, h.lists.tasks, h.lists.taskHead,
      h.lists.taskTail, h.lists.currentTask⟩
  · obtain ⟨p', hp', htask⟩ := h.task q x hx
    by_cases hq : q = process
    · subst hq
      rw [hp] at hp'
      cases hp'
      exact ⟨f p, setProcess_processes_self, (hf p).trans htask⟩
    · exact ⟨p', (setProcess_processes_of_ne hq).trans hp', htask⟩

/-- An ELF file's structure is changed. -/
theorem setElfFile {p : Word} {e : Option ElfFile} (h : Loading k₀ k) :
    Loading k₀ (k.setElfFile p e) :=
  ⟨h.files, h.place, h.blocks, ⟨h.lists.processTable, h.lists.currentProcess, h.lists.tasks,
    h.lists.taskHead, h.lists.taskTail, h.lists.currentTask⟩, h.task⟩

theorem keeps_readElfFile {p : Word} :
    Keeps (Loading k₀) (fun _ => True) (readElfFile p) := by
  refine keeps_of_run fun k f k' h hrun => ?_
  obtain ⟨-, -, rfl⟩ := run_readElfFile.1 hrun
  exact h

theorem keeps_modifyElfFile {p : Word} {f : ElfFile → ElfFile} :
    Keeps (Loading k₀) (fun _ => True) (modifyElfFile p f) := by
  refine keeps_of_run fun k u k' h hrun => ?_
  obtain ⟨-, e, -, rfl⟩ := run_modifyElfFile.1 hrun
  exact h.setElfFile

/-- **`elf_load`.** -/
theorem keeps_elfLoad : Keeps (Loading k₀) (fun _ => True) (elfLoad image filename) := by
  have hout : ∀ fd res, Keeps (Loading k₀) (fun _ => True) (elfLoad.elfLoadOut fd res) :=
    fun fd res => keeps_fclose.bind fun _ _ _ _ _ => .pure _
  refine keeps_zalloc.bind fun _ elfFile _ _ _ => .bind ?_ fun _ _ _ _ _ => ?_
  · exact .ite (fun _ => .pure _) fun _ => .modify fun _ h => h.setElfFile
  refine keeps_fopen.bind fun _ fd _ _ _ => .ite (fun _ => hout _ _) fun _ => ?_
  refine keeps_fstat.bind fun _ r _ _ _ => .ite (fun _ => hout _ _) fun _ => ?_
  refine keeps_zalloc.bind fun _ elfMemory _ _ _ => keeps_modifyElfFile.bind fun _ _ _ _ _ => ?_
  refine keeps_fread.bind fun _ res _ _ _ => .ite (fun _ => hout _ _) fun _ => ?_
  refine keeps_readElfFile.bind fun _ file _ _ _ => .get_bind fun k _ => ?_
  refine keeps_modifyElfFile.bind fun _ _ _ _ _ => .ite (fun _ => hout _ _) fun _ => ?_
  exact keeps_fclose.bind fun _ _ _ _ _ => .pure _

/-- **`process_load_binary`.** -/
theorem keeps_processLoadBinary :
    Keeps (Loading k₀) (fun _ => True) (processLoadBinary image filename process) := by
  have hout : ∀ fd res, Keeps (Loading k₀) (fun _ => True)
      (processLoadBinary.processLoadBinaryOut fd res) :=
    fun fd res => keeps_fclose.bind fun _ _ _ _ _ => .pure _
  refine keeps_fopen.bind fun _ fd _ _ _ => .ite (fun _ => hout _ _) fun _ => ?_
  refine keeps_fstat.bind fun _ r _ _ _ => .ite (fun _ => hout _ _) fun _ => ?_
  refine keeps_zalloc.bind fun _ programDataPtr _ _ _ => .ite (fun _ => hout _ _) fun _ => ?_
  refine keeps_fread.bind fun _ n _ _ _ => .ite (fun _ => hout _ _) fun _ => ?_
  exact .bind (keeps_modifyProcess fun _ => rfl) fun _ _ _ _ _ => hout _ _

/-- **`process_load_data`.** -/
theorem keeps_processLoadData :
    Keeps (Loading k₀) (fun _ => True) (processLoadData image filename process) := by
  have helf : Keeps (Loading k₀) (fun _ => True) (processLoadElf image filename process) :=
    keeps_elfLoad.bind fun _ r _ _ _ => .ite (fun _ => .pure _) fun _ =>
      .bind (keeps_modifyProcess fun _ => rfl) fun _ _ _ _ _ => .pure _
  exact helf.bind fun _ res _ _ _ => .ite (fun _ => keeps_processLoadBinary) fun _ => .pure _

end Loading

/-! ## A load that returns -/

section
variable {task : Word} {res : ℤ} {out : Word} {p : Process}

/-- `task_init` has found the program whose entry point it reads. -/
theorem entryReadable_of_taskInit (r : k.store.heap.Ready)
    (h : taskInit task process k = .ok (res, k')) : EntryReadable k process := by
  unfold taskInit at h
  obtain ⟨k₁, hset, h⟩ := Fallible.run_seq.1 h
  rw [Fallible.run_modify] at hset
  obtain ⟨pageDirectory, k₂, hnew', h⟩ := Fallible.run_bind.1 h
  obtain ⟨s, hnew, rfl⟩ := run_onStore.1 hnew'
  obtain ⟨k₃, hdir, h⟩ := Fallible.run_seq.1 h
  obtain ⟨-, t, -, rfl⟩ := run_modifyTask.1 hdir
  rw [hset, setTask_store] at hnew
  obtain ⟨c, hc, hat, hext, -, -⟩ := pagingNew4gb_spec r hnew
  rw [if_neg (hc ▸ (hat.owns _ c.has_chunk).ne_zero (hext.ready r))] at h
  obtain ⟨k₄, hproc, h⟩ := Fallible.run_seq.1 h
  obtain ⟨-, t₁, -, rfl⟩ := run_modifyTask.1 hproc
  obtain ⟨p, k₅, hread, h⟩ := Fallible.run_bind.1 h
  obtain ⟨h0, hp, rfl⟩ := run_readProcess.1 hread
  rw [hset] at hp
  refine ⟨h0, p, hp, fun helf => ?_⟩
  rw [if_pos helf] at h
  obtain ⟨file, k₆, hfile, h⟩ := Fallible.run_bind.1 h
  obtain ⟨hptr, hf, rfl⟩ := run_readElfFile.1 hfile
  obtain ⟨entry, k₇, hload', -⟩ := Fallible.run_bind.1 h
  obtain ⟨s', hload, -⟩ := run_onStore.1 hload'
  rw [hset] at hf
  exact ⟨hptr, file, hf, (run_loadWord.1 hload).1⟩

/-- So has `task_new`. -/
theorem entryReadable_of_taskNew (r : k.store.heap.Ready)
    (h : taskNew process k = .ok (task, k')) : EntryReadable k process := by
  unfold taskNew at h
  obtain ⟨p, k₁, hz', h⟩ := Fallible.run_bind.1 h
  obtain ⟨s, hz, rfl⟩ := run_onStore.1 hz'
  by_cases h0 : p = 0
  · rw [if_pos h0, h0] at h
    obtain ⟨k₂, hfree, -⟩ := Fallible.run_seq.1 h
    exact absurd hfree taskFree_null
  rw [if_neg h0] at h
  obtain ⟨res, k₂, hinit, -⟩ := Fallible.run_bind.1 h
  have hext := kernelZalloc_extends r hz
  exact (entryReadable_of_taskInit (hext.ready r) hinit).congr rfl rfl

/-- `process_map_memory` has found a program of one of the two types. -/
theorem filetype_of_processMapMemory (hp : k.processes process = some p)
    (h : processMapMemory process k = .ok (res, k')) :
    p.filetype = processFiletypeElf ∨ p.filetype = processFiletypeBinary := by
  obtain ⟨q, k₁, hread, h⟩ := Fallible.run_bind.1 h
  obtain ⟨-, hq, rfl⟩ := run_readProcess.1 hread
  rw [hp] at hq
  cases hq
  by_cases helf : p.filetype = processFiletypeElf
  · exact Or.inl helf
  rw [if_neg helf] at h
  by_cases hbinary : p.filetype = processFiletypeBinary
  · exact Or.inr hbinary
  rw [if_neg hbinary] at h
  exact absurd h Fallible.run_throw

/-- **A load that returns**, from the creation of the task on: it has
registered the process, or left the lists as they were. -/
theorem processLoadTask_returns {processSlot : ℤ} (h : TaskListReady k) (h0 : 0 ≤ processSlot)
    (hlt : processSlot < osMaxProcesses)
    (hrun : processLoadTask process processSlot k = .ok ((res, out), k')) :
    (0 ≤ res ∧ process ≠ 0 ∧
      k'.processTable = Function.update k.processTable processSlot.toNat process) ∨
      (res < 0 ∧ SameLists k k') := by
  have hrun' := hrun
  obtain ⟨task, k₁, hnew, hrun⟩ := Fallible.run_bind.1 hrun
  obtain ⟨hproc, p, hp, helf⟩ := entryReadable_of_taskNew h.ready hnew
  obtain ⟨c, t, hm⟩ := taskNew_spec h.ready h.tail_owned hnew
  rw [if_neg (hm.owns.ne_zero (hm.store.ready h.ready))] at hrun
  obtain ⟨k₂, hset, hrun⟩ := Fallible.run_seq.1 hrun
  obtain ⟨-, q, hq, rfl⟩ := run_modifyProcess.1 hset
  rw [hm.processes, hp] at hq
  cases hq
  obtain ⟨mapped, k₃, hmap, -⟩ := Fallible.run_bind.1 hrun
  have hftype := filetype_of_processMapMemory (p := { p with task := task })
    setProcess_processes_self hmap
  have hloaded : ProgramLoaded k process p := ⟨hproc, hp, helf, hftype⟩
  obtain ⟨res', out', k₄, hclean, hcases⟩ :=
    h.loadFailsCleanly hloaded h0 hlt (freeBlocks_of_taskNew h.ready hnew)
  rw [hclean] at hrun'
  cases hrun'
  exact hcases.imp_left fun ⟨hres, _, htable⟩ => ⟨hres, hproc, htable⟩

/-- **The kernel before a command**: the list of tasks is in order, the file
layer has its blocks, and no task is one of them. -/
structure CommandReady (k : Kernel) : Prop where
  list : TaskListReady k
  files : FsOwned k.fsState
  apart : ∀ q t, k.tasks q = some t → k.objects q = none

/-- A list stays in order while its tasks stay allocated. -/
theorem TaskListReady.congr (h : TaskListReady k) (hready : k'.store.heap.Ready)
    (howns : ∀ q t j, k.tasks q = some t → k.store.heap.Owns q j → k'.store.heap.Owns q j)
    (hlists : SameLists k k') : TaskListReady k' where
  ready := hready
  owns q t ht := by
    rw [hlists.tasks] at ht
    exact (h.owns q t ht).imp fun j => howns q t j ht
  empty := by
    rw [hlists.taskHead, hlists.taskTail, hlists.currentTask]
    exact h.empty
  head := by
    rw [hlists.taskHead, hlists.tasks]
    exact h.head
  tail := by
    rw [hlists.taskHead, hlists.taskTail, hlists.tasks]
    exact h.tail
  current := by
    rw [hlists.taskHead, hlists.currentTask, hlists.tasks]
    exact h.current

/-- A new process leaves the lists in order. -/
theorem CommandReady.newProcess {st : Store} {x : Option Process} (h : CommandReady k)
    (hext : k.store.Extends st) :
    CommandReady (({ k with store := st } : Kernel).setProcess process x) where
  list := h.list.congr (hext.ready h.list.ready) (fun q _ j _ => hext.owns q j)
    ⟨rfl, rfl, rfl, rfl, rfl, rfl⟩
  files := FsOwned.extends_ (s := k.fsState) h.files hext
  apart := h.apart

/-- The list is in order after the file is loaded, too. -/
theorem Loading.taskListReady (h : Loading k₀ k) (hlist : TaskListReady k₀)
    (hapart : ∀ q t, k₀.tasks q = some t → k₀.objects q = none) : TaskListReady k :=
  hlist.congr h.files.ready (fun q t j ht hj => (h.blocks q j hj (hapart q t ht)).1) h.lists

/-- What is in order depends on the heap, the layer's objects and the list. -/
theorem CommandReady.congr (h : CommandReady k) (hheap : k'.store.heap = k.store.heap)
    (hobjects : k'.objects = k.objects) (htasks : k'.tasks = k.tasks)
    (hhead : k'.taskHead = k.taskHead) (htail : k'.taskTail = k.taskTail)
    (hcurrent : k'.currentTask = k.currentTask) : CommandReady k' := by
  obtain ⟨⟨hready, howns, hempty, hfirst, hlast, hruns⟩, ⟨-, hfiles, hitems, hsingle⟩, hapart⟩ := h
  refine ⟨⟨?_, ?_, ?_, ?_, ?_, ?_⟩, ⟨?_, ?_, ?_, ?_⟩, ?_⟩
  all_goals simp only [Kernel.fsState, hheap, hobjects, htasks, hhead, htail, hcurrent]
  all_goals assumption

/-- Everything is in order when the file has been loaded. -/
theorem CommandReady.loading (h : CommandReady k) (l : Loading k k') : CommandReady k' where
  list := l.taskListReady h.list h.apart
  files := l.files
  apart q t ht := by
    rw [l.lists.tasks] at ht
    obtain ⟨j, hj⟩ := h.list.owns q t ht
    exact (l.blocks q j hj (h.apart q t ht)).2

/-- And when the task has been made. -/
theorem CommandReady.taskMade {task process : Word} {c : ChunkView} {t : Task} (h : CommandReady k)
    (hm : TaskMade k k' task process c t) : CommandReady k' where
  list := h.list.taskMade hm
  files := by
    rw [hm.files]
    exact h.files.extends_ hm.store
  apart q u hu := by
    have hobjects : k'.objects = k.objects := congrArg FsState.objects hm.files
    rw [hobjects]
    by_cases hq : q = task
    · rw [hq]
      exact h.files.objects_of_fresh hm.fresh
    · obtain ⟨v, hv⟩ := hm.tasks_before hq hu
      exact h.apart q v hv

theorem SameLists.refl (k : Kernel) : SameLists k k := ⟨rfl, rfl, rfl, rfl, rfl, rfl⟩

theorem SameLists.trans {k₁ k₂ : Kernel} (a : SameLists k k₁) (b : SameLists k₁ k₂) :
    SameLists k k₂ :=
  ⟨b.processTable.trans a.processTable, b.currentProcess.trans a.currentProcess,
    b.tasks.trans a.tasks, b.taskHead.trans a.taskHead, b.taskTail.trans a.taskTail,
    b.currentTask.trans a.currentTask⟩

/-- **What a load that returns has done**: the process is registered in a
slot that was free, or the lists are as they were. -/
def LoadReturns (k k' : Kernel) (res : ℤ) : Prop :=
  (0 ≤ res ∧ ∃ slot process, k.processTable slot = 0 ∧ process ≠ 0 ∧
      k'.processTable = Function.update k.processTable slot process) ∨
    (res < 0 ∧ SameLists k k')

/-- The end of `process_load_for_slot` for a process without a task. -/
theorem processLoadOut_of_no_task {q : Process} (hneg : res < 0) (hq : k.processes process = some q)
    (h0 : q.task = 0) {r : ℤ × Word} (h : processLoadOut process res k = .ok (r, k')) :
    r.1 < 0 ∧ k' = k := by
  unfold processLoadOut at h
  rw [if_pos hneg] at h
  obtain ⟨p, k₁, hread, h⟩ := Fallible.run_bind.1 h
  obtain ⟨-, hp, rfl⟩ := run_readProcess.1 hread
  rw [hq] at hp
  cases hp
  rw [if_pos h0] at h
  obtain ⟨k₂, hpure, h⟩ := Fallible.run_seq.1 h
  obtain ⟨-, rfl⟩ := Fallible.run_pure.1 hpure
  obtain ⟨rfl, rfl⟩ := Fallible.run_pure.1 h
  exact ⟨hneg, rfl⟩

/-- **`process_load_for_slot`.** -/
theorem processLoadForSlot_returns {processSlot : ℤ} {r : ℤ × Word} (h : CommandReady k)
    (h0 : 0 ≤ processSlot) (hlt : processSlot < osMaxProcesses)
    (hrun : processLoadForSlot image filename processSlot k = .ok (r, k')) :
    LoadReturns k k' r.1 := by
  unfold processLoadForSlot at hrun
  rw [Fallible.run_get_bind] at hrun
  by_cases hslot : k.processGet processSlot ≠ 0
  · rw [if_pos hslot] at hrun
    exact absurd hrun Fallible.run_throw
  rw [if_neg hslot] at hrun
  have hfree : k.processTable processSlot.toNat = 0 := by
    have hget := not_not.1 hslot
    unfold Kernel.processGet at hget
    rwa [if_neg (by omega)] at hget
  obtain ⟨process, k₁, hz', hrun⟩ := Fallible.run_bind.1 hrun
  obtain ⟨s, hz, rfl⟩ := run_onStore.1 hz'
  by_cases hnull : process = 0
  · rw [if_pos hnull] at hrun
    obtain ⟨rfl, rfl⟩ := Fallible.run_pure.1 hrun
    exact Or.inr ⟨by decide, rfl, rfl, rfl, rfl, rfl, rfl⟩
  rw [if_neg hnull] at hrun
  obtain ⟨k₂, hset, hrun⟩ := Fallible.run_seq.1 hrun
  rw [Fallible.run_modify] at hset
  -- the state with the new process, which has no task
  have hready₂ : CommandReady k₂ := hset ▸ h.newProcess (kernelZalloc_extends h.files.ready hz)
  have hlists : SameLists k k₂ := by
    rw [hset]
    exact ⟨rfl, rfl, rfl, rfl, rfl, rfl⟩
  have hnew : k₂.processes process = some .zero := by
    rw [hset]
    exact setProcess_processes_self
  have herror : ∀ {k₃ : Kernel} {res : ℤ}, Loading k₂ k₃ → res < 0 →
      processLoadOut process res k₃ = .ok (r, k') → LoadReturns k k' r.1 := by
    intro k₃ res hloading hneg hout
    obtain ⟨p, hp, htask⟩ := hloading.task process _ hnew
    obtain ⟨hres, rfl⟩ := processLoadOut_of_no_task hneg hp htask hout
    exact Or.inr ⟨hres, hlists.trans hloading.lists⟩
  obtain ⟨res, k₃, hdata, hrun⟩ := Fallible.run_bind.1 hrun
  have hloading := (Loading.keeps_processLoadData k₂ (.refl hready₂.files)).2 _ _ hdata
  by_cases hneg : res < 0
  · rw [if_pos hneg] at hrun
    exact herror hloading hneg hrun
  rw [if_neg hneg] at hrun
  obtain ⟨programStackPtr, k₄, hstack, hrun⟩ := Fallible.run_bind.1 hrun
  have hloading₄ := (Loading.keeps_zalloc k₃ hloading).2 _ _ hstack
  by_cases hnull' : programStackPtr = 0
  · rw [if_pos hnull'] at hrun
    exact herror hloading₄ (by decide) hrun
  rw [if_neg hnull'] at hrun
  obtain ⟨k₅, hmod, hrun⟩ := Fallible.run_seq.1 hrun
  have hloading₅ : Loading k₂ k₅ := by
    refine (Loading.keeps_modifyProcess ?_ k₄ hloading₄).2 _ _ hmod
    exact fun _ => rfl
  have hready := hloading₅.taskListReady hready₂.list hready₂.apart
  have hsame := hlists.trans hloading₅.lists
  obtain ⟨res, out⟩ := r
  obtain ⟨hres, hproc, htable⟩ | ⟨hres, hsame'⟩ :=
    processLoadTask_returns hready h0 hlt hrun
  · refine Or.inl ⟨hres, processSlot.toNat, process, hfree, hproc, ?_⟩
    rw [htable, hsame.processTable]
  · exact Or.inr ⟨hres, hsame.trans hsame'⟩

/-- **`process_load_switch`**: a load that fails changes no list. -/
theorem processLoadSwitch_returns {r : ℤ × Word} (h : CommandReady k)
    (hrun : processLoadSwitch image filename k = .ok (r, k')) : LoadReturns k k' r.1 := by
  obtain ⟨r', k₁, hload, hrun⟩ := Fallible.run_bind.1 hrun
  have hreturns : LoadReturns k k₁ r'.1 := by
    unfold processLoad at hload
    rw [Fallible.run_get_bind] at hload
    by_cases hslot : k.processGetFreeSlot < 0
    · rw [if_pos hslot] at hload
      obtain ⟨rfl, rfl⟩ := Fallible.run_pure.1 hload
      exact Or.inr ⟨by decide, rfl, rfl, rfl, rfl, rfl, rfl⟩
    rw [if_neg hslot] at hload
    have hlt : k.processGetFreeSlot < osMaxProcesses := by
      unfold Kernel.processGetFreeSlot
      split
      · rename_i i hi
        have := List.mem_range.1 (List.mem_of_find?_eq_some hi)
        omega
      · decide
    exact processLoadForSlot_returns h (not_lt.1 hslot) hlt hload
  by_cases hzero : r'.1 = 0
  · rw [if_pos hzero] at hrun
    obtain ⟨u, k₂, hswitch, hrun⟩ := Fallible.run_bind.1 hrun
    obtain ⟨k₃, hmod, hswitch⟩ := Fallible.run_seq.1 hswitch
    rw [Fallible.run_modify] at hmod
    obtain ⟨-, rfl⟩ := Fallible.run_pure.1 hswitch
    obtain ⟨rfl, rfl⟩ := Fallible.run_pure.1 hrun
    rw [hmod]
    exact hreturns.imp_right fun ⟨hneg, _⟩ => absurd hneg (by omega)
  · rw [if_neg hzero] at hrun
    obtain ⟨rfl, rfl⟩ := Fallible.run_pure.1 hrun
    exact hreturns

end

end OwnKernel
