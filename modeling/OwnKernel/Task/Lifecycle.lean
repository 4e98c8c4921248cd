import OwnKernel.Kernel.Objects
import OwnKernel.Model.Task
import OwnKernel.Paging.Free

/-!
# A task's life

`taskNew_spec` and `taskFree_spec` say everything `task_new` and
`task_free` do when they finish: which blocks they take or give back,
which pointers of the list they write, and that nothing else changes.
`task_new` ends in a memory error whenever one of its allocations fails,
so a call that finishes has made a task.
-/

namespace OwnKernel

variable {k k' : Kernel} {task process : Word}

/-! ## `task_init` -/

/-- The entries of a task's own directory at the start: every page
mapped to itself, for reading by the user. -/
def taskPageFlags : Byte := BitVec.setWidth 8 (pagingIsPresent ||| pagingAccessFromAll)

/-- **What `task_init` leaves.** The task is off the list, with a chunk
of fresh blocks; nothing but the store and this task changes. -/
structure TaskReady (k k' : Kernel) (task process : Word) (c : ChunkView) (t : Task) : Prop where
  state : k' = { k with store := k'.store, tasks := Function.update k.tasks task (some t) }
  store : k.store.Extends k'.store
  mapped : c.At k'.store
  fresh : ∀ q, c.Has q → k.store.heap.Fresh q
  entries : ∀ page, page < 2 ^ 20 → c.entry k'.store.mem page = identityEntry taskPageFlags page
  pageDirectory : t.pageDirectory = c.chunk
  process : t.process = process
  next : t.next = 0
  prev : t.prev = 0

/-- The registers are set on a task that is ready; it stays so. -/
theorem TaskReady.setRegisters {c : ChunkView} {t : Task} (h : TaskReady k k' task process c t)
    (f : Registers → Registers) :
    TaskReady k (k'.setTask task (some { t with registers := f t.registers })) task process c
      { t with registers := f t.registers } where
  state := by
    rw [h.state]
    simp only [Kernel.setTask, Function.update_idem]
  store := h.store
  mapped := h.mapped
  fresh := h.fresh
  entries := h.entries
  pageDirectory := h.pageDirectory
  process := h.process
  next := h.next
  prev := h.prev

theorem TaskReady.tasks_self {c : ChunkView} {t : Task} (h : TaskReady k k' task process c t) :
    k'.tasks task = some t := by
  rw [h.state]
  exact Function.update_self ..

/-- The end of `task_init`. -/
theorem taskInitSegments_spec {k₁ : Kernel} {c : ChunkView} {t : Task} {res : ℤ}
    (h : TaskReady k k₁ task process c t)
    (hrun : taskInit.taskInitSegments task k₁ = .ok (res, k')) :
    res = 0 ∧ ∃ t', TaskReady k k' task process c t' := by
  unfold taskInit.taskInitSegments at hrun
  obtain ⟨k₂, hmod, hpure⟩ := Fallible.run_seq.1 hrun
  obtain ⟨rfl, rfl⟩ := Fallible.run_pure.1 hpure
  obtain ⟨-, t', ht', rfl⟩ := run_modifyTask.1 hmod
  rw [h.tasks_self] at ht'
  cases ht'
  exact ⟨rfl, _, h.setRegisters fun r => { r with
    ss := userDataSegment
    cs := userCodeSegment
    esp := osUserProgramVirtualStackAddressStart }⟩

/-- **`task_init`, when it finishes.** -/
theorem taskInit_spec {res : ℤ} (r : k.store.heap.Ready)
    (h : taskInit task process k = .ok (res, k')) :
    res = 0 ∧ ∃ c t, TaskReady k k' task process c t := by
  unfold taskInit at h
  obtain ⟨k₁, hset, h⟩ := Fallible.run_seq.1 h
  rw [Fallible.run_modify] at hset
  obtain ⟨pageDirectory, k₂, hnew', h⟩ := Fallible.run_bind.1 h
  obtain ⟨s, hnew, rfl⟩ := run_onStore.1 hnew'
  obtain ⟨k₃, hdir, h⟩ := Fallible.run_seq.1 h
  obtain ⟨-, t, ht, rfl⟩ := run_modifyTask.1 hdir
  have hstore : k₁.store = k.store := by rw [hset, setTask_store]
  rw [hstore] at hnew
  obtain ⟨c, hc, hat, hext, hfresh, hentry⟩ := pagingNew4gb_spec r hnew
  have ht0 : t = Task.zero := by
    have : k₁.tasks task = some Task.zero := by rw [hset, setTask_tasks_self]
    exact Option.some.inj (ht.symm.trans this)
  have hne : pageDirectory ≠ 0 := by
    rw [← hc]
    exact (hat.owns _ c.has_chunk).ne_zero (hext.ready r)
  rw [if_neg hne] at h
  obtain ⟨k₄, hproc, h⟩ := Fallible.run_seq.1 h
  obtain ⟨-, t₁, ht₁, rfl⟩ := run_modifyTask.1 hproc
  rw [setTask_tasks_self] at ht₁
  cases ht₁
  rw [setTask_setTask] at h
  -- from here on only the registers change
  have hready : TaskReady k (({ k₁ with store := s } : Kernel).setTask task (some { t with
      pageDirectory := pageDirectory
      process := process
      registers := { t.registers with ip := osProgramVirtualAddress } })) task process c { t with
      pageDirectory := pageDirectory
      process := process
      registers := { t.registers with ip := osProgramVirtualAddress } } := by
    refine ⟨?_, hext, hat, hfresh, hentry, hc.symm, rfl, by rw [ht0]; rfl, by rw [ht0]; rfl⟩
    rw [hset]
    simp only [Kernel.setTask, Function.update_idem]
  obtain ⟨p, k₅, hread, h⟩ := Fallible.run_bind.1 h
  obtain ⟨-, -, rfl⟩ := run_readProcess.1 hread
  by_cases helf : p.filetype = processFiletypeElf
  · rw [if_pos helf] at h
    obtain ⟨file, k₆, hfile, h⟩ := Fallible.run_bind.1 h
    obtain ⟨-, -, rfl⟩ := run_readElfFile.1 hfile
    obtain ⟨entry, k₇, hload', h⟩ := Fallible.run_bind.1 h
    obtain ⟨s', hload, rfl⟩ := run_onStore.1 hload'
    obtain rfl : s' = s := (run_loadWord.1 hload).2.2
    obtain ⟨k₈, hip, h⟩ := Fallible.run_seq.1 h
    obtain ⟨-, t₂, ht₂, rfl⟩ := run_modifyTask.1 hip
    obtain rfl : t₂ = _ := Option.some.inj (ht₂.symm.trans hready.tasks_self)
    exact (taskInitSegments_spec (hready.setRegisters fun r => { r with ip := entry }) h).imp_right
      fun ⟨t', ht'⟩ => ⟨c, t', ht'⟩
  · rw [if_neg helf] at h
    exact (taskInitSegments_spec hready h).imp_right fun ⟨t', ht'⟩ => ⟨c, t', ht'⟩

/-! ## `task_new` -/

/-- **What `task_new` leaves.** A task made of fresh blocks at the end
of the list; of the other tasks, only the old last one changes. -/
structure TaskMade (k k' : Kernel) (task process : Word) (c : ChunkView) (t : Task) : Prop where
  store : k.store.Extends k'.store
  owns : k'.store.heap.Owns task 1
  fresh : k.store.heap.Fresh task
  mapped : c.At k'.store
  chunk_fresh : ∀ q, c.Has q → k.store.heap.Fresh q
  apart : ¬ c.Has task
  entries : ∀ page, page < 2 ^ 20 → c.entry k'.store.mem page = identityEntry taskPageFlags page
  pageDirectory : t.pageDirectory = c.chunk
  process : t.process = process
  next : t.next = 0
  prev : t.prev = if k.taskHead = 0 then 0 else k.taskTail
  tasks_self : k'.tasks task = some t
  tasks_tail : k.taskHead ≠ 0 → ∃ u, k.tasks k.taskTail = some u ∧
    k'.tasks k.taskTail = some { u with next := task }
  tasks_other : ∀ q, q ≠ task → (k.taskHead ≠ 0 → q ≠ k.taskTail) → k'.tasks q = k.tasks q
  taskHead : k'.taskHead = if k.taskHead = 0 then task else k.taskHead
  taskTail : k'.taskTail = task
  currentTask : k'.currentTask = if k.taskHead = 0 then task else k.currentTask
  processes : k'.processes = k.processes
  elfFiles : k'.elfFiles = k.elfFiles
  processTable : k'.processTable = k.processTable
  currentProcess : k'.currentProcess = k.currentProcess
  files : k'.fsState = { k.fsState with store := k'.store }

/-- A null task cannot be freed. -/
theorem taskFree_null {u : PUnit} : ¬ taskFree 0 k = .ok (u, k') := by
  intro h
  obtain ⟨t, k₁, hread, -⟩ := Fallible.run_bind.1 h
  exact (run_readTask.1 hread).1 rfl

/-- **`task_new`, when it finishes**: the task lies where the first
allocation put it. -/
theorem taskNew_alloc (r : k.store.heap.Ready)
    (htail : k.taskHead ≠ 0 → ∃ j, k.store.heap.Owns k.taskTail j)
    (h : taskNew process k = .ok (task, k')) :
    (∃ s, kernelZalloc sizeofTask k.store = .ok (task, s)) ∧
      ∃ c t, TaskMade k k' task process c t := by
  unfold taskNew at h
  obtain ⟨p, k₁, hz', h⟩ := Fallible.run_bind.1 h
  obtain ⟨s₁, hz, rfl⟩ := run_onStore.1 hz'
  by_cases h0 : p = 0
  · -- the error path frees a null task
    rw [if_pos h0, h0] at h
    obtain ⟨k₂, hfree, -⟩ := Fallible.run_seq.1 h
    exact absurd hfree taskFree_null
  rw [if_neg h0] at h
  obtain ⟨hext₁, hown₁, hfresh, -⟩ := kernelZalloc_spec r (by decide) (by decide) hz h0
  rw [show blocksFor sizeofTask.toNat = 1 by decide] at hown₁
  obtain ⟨res, k₃, hinit, h⟩ := Fallible.run_bind.1 h
  obtain ⟨rfl, c, t, hready⟩ := taskInit_spec (hext₁.ready r) hinit
  have hres : ¬ (0 : ℤ) ≠ allOk := fun hne => hne rfl
  rw [if_neg hres] at h
  rw [Fallible.run_get_bind] at h
  have hout : ∀ {q : Word} {k₄ : Kernel}, taskNewOut p 0 k₄ = .ok (q, k') → q = p ∧ k' = k₄ := by
    intro q k₄ hq
    exact Fallible.run_pure.1 hq
  have hext : k.store.Extends k₃.store := hext₁.trans hready.store
  have hown := hready.store.owns _ _ hown₁
  have hap : ¬ c.Has p := fun hin => hready.fresh p hin 1 hown₁
  have hcf : ∀ q, c.Has q → k.store.heap.Fresh q := fun q hq => hext₁.fresh (hready.fresh q hq)
  have hother : ∀ q, q ≠ p → k₃.tasks q = k.tasks q := by
    intro q hq
    rw [hready.state]
    exact Function.update_of_ne hq ..
  have hself := hready.tasks_self
  have hhead : k₃.taskHead = k.taskHead := by rw [hready.state]
  have htl : k₃.taskTail = k.taskTail := by rw [hready.state]
  have hcur : k₃.currentTask = k.currentTask := by rw [hready.state]
  have hproc : k₃.processes = k.processes := by rw [hready.state]
  have helf : k₃.elfFiles = k.elfFiles := by rw [hready.state]
  have htable : k₃.processTable = k.processTable := by rw [hready.state]
  have hcurp : k₃.currentProcess = k.currentProcess := by rw [hready.state]
  have hfiles : k₃.fsState = { k.fsState with store := k₃.store } := by
    rw [hready.state]
    rfl
  by_cases hempty : k.taskHead = 0
  · -- the first task
    rw [if_pos (hhead.trans hempty)] at h
    obtain ⟨k₄, hset, h⟩ := Fallible.run_seq.1 h
    rw [Fallible.run_set] at hset
    obtain ⟨rfl, rfl⟩ := hout h
    subst hset
    refine ⟨⟨s₁, hz⟩, c, t, hext, hown, hfresh, hready.mapped, hcf, hap, hready.entries,
      hready.pageDirectory, hready.process, hready.next, ?_, hself, fun hne => absurd hempty hne,
      fun q hq _ => hother q hq, ?_, rfl, ?_, hproc, helf, htable, hcurp, hfiles⟩
    · rw [if_pos hempty, hready.prev]
    · rw [if_pos hempty]
    · rw [if_pos hempty]
  · -- behind the last task
    rw [if_neg (by rwa [hhead])] at h
    obtain ⟨k₄, hnext, h⟩ := Fallible.run_seq.1 h
    obtain ⟨-, u, hu, rfl⟩ := run_modifyTask.1 hnext
    obtain ⟨k₅, hprev, h⟩ := Fallible.run_seq.1 h
    obtain ⟨-, t', ht', rfl⟩ := run_modifyTask.1 hprev
    obtain ⟨k₆, hmod, h⟩ := Fallible.run_seq.1 h
    rw [Fallible.run_modify] at hmod
    obtain ⟨rfl, rfl⟩ := hout h
    obtain ⟨j, hj⟩ := htail hempty
    have hne : k.taskTail ≠ task := fun he => hfresh j (he ▸ hj)
    rw [htl] at ht' hu hmod
    rw [setTask_tasks_of_ne hne.symm, hself] at ht'
    cases ht'
    rw [hother _ hne] at hu
    subst hmod
    refine ⟨⟨s₁, hz⟩, c, { t with prev := k.taskTail }, hext, hown, hfresh, hready.mapped, hcf, hap,
      hready.entries, hready.pageDirectory, hready.process, hready.next, ?_,
      setTask_tasks_self, fun _ => ⟨u, hu, ?_⟩, fun q hq hq' => ?_, ?_, rfl, ?_, hproc, helf,
      htable, hcurp, hfiles⟩
    · rw [if_neg hempty]
    · rw [show ∀ k₀ : Kernel, ({ k₀ with taskTail := task } : Kernel).tasks = k₀.tasks from
        fun _ => rfl, setTask_tasks_of_ne hne, setTask_tasks_self]
    · rw [show ∀ k₀ : Kernel, ({ k₀ with taskTail := task } : Kernel).tasks = k₀.tasks from
        fun _ => rfl, setTask_tasks_of_ne hq, setTask_tasks_of_ne (hq' hempty), hother q hq]
    · rw [if_neg hempty]
      exact hhead
    · rw [if_neg hempty]
      exact hcur

/-- **What `task_new` makes.** -/
theorem taskNew_spec (r : k.store.heap.Ready)
    (htail : k.taskHead ≠ 0 → ∃ j, k.store.heap.Owns k.taskTail j)
    (h : taskNew process k = .ok (task, k')) : ∃ c t, TaskMade k k' task process c t :=
  (taskNew_alloc r htail h).2

/-! ### With memory for it -/

/-- The program whose entry point `task_init` reads is there. -/
def EntryReadable (k : Kernel) (process : Word) : Prop :=
  process ≠ 0 ∧ ∃ p, k.processes process = some p ∧
    (p.filetype = processFiletypeElf →
      p.ptr ≠ 0 ∧ ∃ f, k.elfFiles p.ptr = some f ∧ f.elfMemory ≠ 0)

theorem EntryReadable.congr (h : EntryReadable k process) (hp : k'.processes = k.processes)
    (he : k'.elfFiles = k.elfFiles) : EntryReadable k' process := by
  unfold EntryReadable
  rw [hp, he]
  exact h

/-- Changing the registers does not fail. -/
theorem taskInitSegments_of_some {t : Task} (h0 : task ≠ 0) (ht : k.tasks task = some t) :
    ∃ k', taskInit.taskInitSegments task k = .ok (0, k') ∧ k'.store = k.store :=
  ⟨_, Fallible.run_seq.2 ⟨_, run_modifyTask.2 ⟨h0, t, ht, rfl⟩, rfl⟩, rfl⟩

/-- `task_init` with a chunk's blocks in the budget. -/
theorem taskInit_of_budget {B : Heap → ℕ → Prop} (hB : Budget B) (k : Kernel) (task : Word) {n : ℕ}
    (r : k.store.heap.Ready) (hb : B k.store.heap (n + 1026)) (h0 : task ≠ 0)
    (hread : EntryReadable k process) :
    ∃ k', taskInit task process k = .ok (0, k') ∧ B k'.store.heap n := by
  obtain ⟨hproc, p, hp, helf⟩ := hread
  obtain ⟨pageDirectory, s, hnew, hbudget⟩ := pagingNew4gb_of_budget hB taskPageFlags r hb
  obtain ⟨c, hc, hat, hext, -, -⟩ := pagingNew4gb_spec r hnew
  have hne : pageDirectory ≠ 0 := by
    rw [← hc]
    exact (hat.owns _ c.has_chunk).ne_zero (hext.ready r)
  -- the part after the entry point is known
  have hend : ∀ (k₁ : Kernel) (t : Task), k₁.store = s → k₁.tasks task = some t →
      ∃ k', taskInit.taskInitSegments task k₁ = .ok (0, k') ∧ B k'.store.heap n := by
    intro k₁ t hs ht
    obtain ⟨k', hrun, hstore⟩ := taskInitSegments_of_some h0 ht
    exact ⟨k', hrun, by rw [hstore, hs]; exact hbudget⟩
  unfold taskInit
  by_cases hf : p.filetype = processFiletypeElf
  · obtain ⟨hptr, f, hfile, hmem⟩ := helf hf
    obtain ⟨k', hrun, hbudget'⟩ := hend (({ k with store := s } : Kernel).setTask task (some
      { Task.zero with
        pageDirectory := pageDirectory
        process := process
        registers := { Registers.zero with
          ip := s.mem.load32 (f.elfMemory + BitVec.ofNat 32 elfEntryOffset) } })) _ rfl
      setTask_tasks_self
    refine ⟨k', Fallible.run_seq.2 ⟨_, Fallible.run_modify.2 rfl, ?_⟩, hbudget'⟩
    refine Fallible.run_bind.2 ⟨_, _, run_onStore.2 ⟨s, hnew, rfl⟩, ?_⟩
    refine Fallible.run_seq.2 ⟨_, run_modifyTask.2 ⟨h0, _, setTask_tasks_self, rfl⟩, ?_⟩
    rw [if_neg hne]
    refine Fallible.run_seq.2 ⟨_, run_modifyTask.2 ⟨h0, _, setTask_tasks_self, rfl⟩, ?_⟩
    refine Fallible.run_bind.2 ⟨p, _, run_readProcess.2 ⟨hproc, hp, rfl⟩, ?_⟩
    rw [if_pos hf]
    refine Fallible.run_bind.2 ⟨f, _, run_readElfFile.2 ⟨hptr, hfile, rfl⟩, ?_⟩
    refine Fallible.run_bind.2 ⟨_, _, run_onStore.2 ⟨s, run_loadWord.2 ⟨hmem, rfl, rfl⟩, rfl⟩, ?_⟩
    refine Fallible.run_seq.2 ⟨_, run_modifyTask.2 ⟨h0, _, setTask_tasks_self, rfl⟩, ?_⟩
    simp only [Kernel.setTask, Function.update_idem]
    exact hrun
  · obtain ⟨k', hrun, hbudget'⟩ := hend (({ k with store := s } : Kernel).setTask task (some
      { Task.zero with
        pageDirectory := pageDirectory
        process := process
        registers := { Registers.zero with ip := osProgramVirtualAddress } })) _ rfl
      setTask_tasks_self
    refine ⟨k', Fallible.run_seq.2 ⟨_, Fallible.run_modify.2 rfl, ?_⟩, hbudget'⟩
    refine Fallible.run_bind.2 ⟨_, _, run_onStore.2 ⟨s, hnew, rfl⟩, ?_⟩
    refine Fallible.run_seq.2 ⟨_, run_modifyTask.2 ⟨h0, _, setTask_tasks_self, rfl⟩, ?_⟩
    rw [if_neg hne]
    refine Fallible.run_seq.2 ⟨_, run_modifyTask.2 ⟨h0, _, setTask_tasks_self, rfl⟩, ?_⟩
    refine Fallible.run_bind.2 ⟨p, _, run_readProcess.2 ⟨hproc, hp, rfl⟩, ?_⟩
    rw [if_neg hf]
    simp only [Kernel.setTask, Function.update_idem]
    exact hrun

/-- **`task_new` with its 1027 blocks** in the budget. -/
theorem taskNew_of_budget {B : Heap → ℕ → Prop} (hB : Budget B) {n : ℕ} (r : k.store.heap.Ready)
    (hb : B k.store.heap (n + 1027)) (hread : EntryReadable k process)
    (htail : k.taskHead ≠ 0 → ∃ j, k.store.heap.Owns k.taskTail j)
    (hobject : k.taskHead ≠ 0 → ∃ u, k.tasks k.taskTail = some u) :
    ∃ task k', taskNew process k = .ok (task, k') ∧ B k'.store.heap n := by
  obtain ⟨task, s, hz, h0, hplace, hb₁⟩ := hB.spend r
    (show 0 < sizeofTask.toNat by decide) (by decide) hb
  obtain ⟨hext, -, hfresh, -⟩ := kernelZalloc_spec r (by decide) (by decide) hz h0
  obtain ⟨k₁, hinit, hb₂⟩ := taskInit_of_budget hB { k with store := s } task (hplace.ready r) hb₁
    h0 (hread.congr rfl rfl)
  obtain ⟨-, c, t, hready⟩ := taskInit_spec (hplace.ready r) hinit
  have hhead : k₁.taskHead = k.taskHead := by rw [hready.state]
  have htl : k₁.taskTail = k.taskTail := by rw [hready.state]
  by_cases hempty : k.taskHead = 0
  · refine ⟨task, { k₁ with taskHead := task, taskTail := task, currentTask := task }, ?_, hb₂⟩
    refine Fallible.run_bind.2 ⟨task, _, run_onStore.2 ⟨s, hz, rfl⟩, ?_⟩
    rw [if_neg h0]
    refine Fallible.run_bind.2 ⟨0, k₁, hinit, ?_⟩
    rw [if_neg (by decide), Fallible.run_get_bind, if_pos (hhead.trans hempty)]
    exact Fallible.run_seq.2 ⟨_, Fallible.run_set.2 rfl, rfl⟩
  · obtain ⟨j, hj⟩ := htail hempty
    obtain ⟨u, hu⟩ := hobject hempty
    have hne : k.taskTail ≠ task := fun he => hfresh j (he ▸ hj)
    have hu₁ : k₁.tasks k₁.taskTail = some u := by
      rw [htl, hready.state]
      exact (Function.update_of_ne hne ..).trans hu
    refine ⟨task, { ((k₁.setTask k₁.taskTail (some { u with next := task })).setTask task
      (some { t with prev := k₁.taskTail })) with taskTail := task }, ?_, hb₂⟩
    refine Fallible.run_bind.2 ⟨task, _, run_onStore.2 ⟨s, hz, rfl⟩, ?_⟩
    rw [if_neg h0]
    refine Fallible.run_bind.2 ⟨0, k₁, hinit, ?_⟩
    rw [if_neg (by decide), Fallible.run_get_bind, if_neg (by rwa [hhead])]
    refine Fallible.run_seq.2 ⟨_, run_modifyTask.2 ⟨?_, u, hu₁, rfl⟩, ?_⟩
    · rw [htl]
      exact hj.ne_zero r
    refine Fallible.run_seq.2 ⟨_, run_modifyTask.2 ⟨h0, t, ?_, rfl⟩, ?_⟩
    · rw [setTask_tasks_of_ne (by rw [htl]; exact hne.symm)]
      exact hready.tasks_self
    exact Fallible.run_seq.2 ⟨_, Fallible.run_modify.2 rfl, rfl⟩

/-! ## `task_free` -/

variable {t : Task} {c : ChunkView} {u : PUnit}

/-- The kernel after `task_list_remove`. -/
def Kernel.unlink (k : Kernel) (task : Word) (t : Task) : Kernel :=
  let head := if task = k.taskHead then t.next else k.taskHead
  { k with
    tasks := if t.prev = 0 then k.tasks else
      Function.update k.tasks t.prev ((k.tasks t.prev).map fun u => { u with next := t.next })
    taskHead := head
    taskTail := if task = k.taskTail then t.prev else k.taskTail
    currentTask := if task = k.currentTask then (if t.next = 0 then head else t.next)
      else k.currentTask }

/-- The write to the previous task does not change what the removed
task's `next` is. -/
theorem Kernel.unlink_tasks_self (ht : k.tasks task = some t) :
    ∃ t', (k.unlink task t).tasks task = some t' ∧ t'.next = t.next := by
  by_cases hp : t.prev = 0
  · exact ⟨t, by simp only [Kernel.unlink, if_pos hp]; exact ht, rfl⟩
  · simp only [Kernel.unlink, if_neg hp]
    by_cases hself : task = t.prev
    · rw [← hself, Function.update_self, ht]
      exact ⟨_, rfl, rfl⟩
    · exact ⟨t, by rw [Function.update_of_ne hself]; exact ht, rfl⟩

/-- **`task_list_remove` on live tasks.** -/
theorem taskListRemove_eq (h0 : task ≠ 0) (ht : k.tasks task = some t)
    (hp : t.prev ≠ 0 → ∃ u, k.tasks t.prev = some u) :
    taskListRemove task k = .ok (⟨⟩, k.unlink task t) := by
  obtain ⟨t', ht', hnext⟩ := Kernel.unlink_tasks_self ht
  unfold taskListRemove
  refine Fallible.run_bind.2 ⟨t, k, run_readTask.2 ⟨h0, ht, rfl⟩, ?_⟩
  refine Fallible.run_seq.2 ⟨{ k with tasks := (k.unlink task t).tasks }, ?_, ?_⟩
  · by_cases hprev : t.prev = 0
    · simp only [Kernel.unlink, if_pos hprev]
      rfl
    · obtain ⟨v, hv⟩ := hp hprev
      rw [if_neg hprev]
      refine run_modifyTask.2 ⟨hprev, v, hv, ?_⟩
      simp only [Kernel.unlink, if_neg hprev, hv, Kernel.setTask, Option.map_some]
  · refine Fallible.run_seq.2 ⟨_, Fallible.run_modify.2 rfl, ?_⟩
    refine Fallible.run_seq.2 ⟨_, Fallible.run_modify.2 rfl, ?_⟩
    rw [Fallible.run_get_bind]
    by_cases hcur : task = k.currentTask
    · rw [if_pos hcur]
      have hget : taskGetNext { k with
          tasks := (k.unlink task t).tasks
          taskHead := (k.unlink task t).taskHead
          taskTail := (k.unlink task t).taskTail } = .ok ((k.unlink task t).currentTask, { k with
          tasks := (k.unlink task t).tasks
          taskHead := (k.unlink task t).taskHead
          taskTail := (k.unlink task t).taskTail }) := by
        unfold taskGetNext
        rw [Fallible.run_get_bind]
        refine Fallible.run_bind.2 ⟨t', _, run_readTask.2 ⟨hcur ▸ h0, hcur ▸ ht', rfl⟩, ?_⟩
        rw [hnext]
        simp only [Kernel.unlink, if_pos hcur]
        by_cases hn : t.next = 0
        · rw [if_pos hn, if_pos hn]
          rfl
        · rw [if_neg hn, if_neg hn]
          rfl
      exact Fallible.run_bind.2 ⟨_, _, hget, Fallible.run_modify.2 rfl⟩
    · rw [if_neg hcur]
      refine Fallible.run_pure.2 ⟨rfl, ?_⟩
      simp only [Kernel.unlink, if_neg hcur]

/-- The kernel after `task_free`. -/
def Kernel.freeTask (k : Kernel) (task : Word) (t : Task) (c : ChunkView) : Kernel :=
  { (k.unlink task t).setTask task none with
    store := { k.store with heap := k.store.heap.freeAll (c.pointers ++ [task]) } }

theorem freeTask_store : (k.freeTask task t c).store =
    { k.store with heap := k.store.heap.freeAll (c.pointers ++ [task]) } := rfl

/-- **`task_free` on a live task**, the tables of which are in memory. -/
theorem taskFree_eq {heap : Heap} (r : heap.Ready) (h0 : task ≠ 0) (ht : k.tasks task = some t)
    (hat : c.At ⟨heap, k.store.mem⟩) (hc : t.pageDirectory = c.chunk)
    (hp : t.prev ≠ 0 → ∃ u, k.tasks t.prev = some u) :
    taskFree task k = .ok (⟨⟩, k.freeTask task t c) := by
  unfold taskFree
  refine Fallible.run_bind.2 ⟨t, k, run_readTask.2 ⟨h0, ht, rfl⟩, ?_⟩
  have hfree : pagingFree4gb t.pageDirectory k.store =
      .ok (⟨⟩, ⟨k.store.heap.freeAll c.pointers, k.store.mem⟩) := hc ▸ hat.pagingFree4gb_of_mem r
  refine Fallible.run_seq.2 ⟨_, run_onStore.2 ⟨_, hfree, rfl⟩, ?_⟩
  refine Fallible.run_seq.2 ⟨_, taskListRemove_eq (t := t) h0 ht hp, ?_⟩
  refine Fallible.run_seq.2 ⟨_, run_onStore.2 ⟨_, rfl, rfl⟩, Fallible.run_modify.2 ?_⟩
  unfold Kernel.freeTask
  rw [Heap.freeAll_append]
  generalize k.store.heap.freeAll c.pointers = h₁
  rfl

/-- **`task_free`, when it finishes.** -/
theorem taskFree_spec {heap : Heap} (r : heap.Ready) (ht : k.tasks task = some t)
    (hat : c.At ⟨heap, k.store.mem⟩) (hc : t.pageDirectory = c.chunk) (h : taskFree task k = .ok (u, k')) :
    (t.prev ≠ 0 → ∃ v, k.tasks t.prev = some v) ∧ k' = k.freeTask task t c := by
  have hrun := h
  obtain ⟨t', k₁, hread, h⟩ := Fallible.run_bind.1 h
  obtain ⟨h0, ht', rfl⟩ := run_readTask.1 hread
  rw [ht] at ht'
  cases ht'
  obtain ⟨k₂, hfree, h⟩ := Fallible.run_seq.1 h
  obtain ⟨s, -, rfl⟩ := run_onStore.1 hfree
  obtain ⟨k₃, hremove, -⟩ := Fallible.run_seq.1 h
  obtain ⟨t', k₄, hread', hremove⟩ := Fallible.run_bind.1 hremove
  obtain ⟨-, ht', rfl⟩ := run_readTask.1 hread'
  obtain rfl : t' = t := Option.some.inj (ht'.symm.trans ht)
  have hp : t'.prev ≠ 0 → ∃ v, k₁.tasks t'.prev = some v := by
    intro hne
    obtain ⟨k₅, hmod, -⟩ := Fallible.run_seq.1 hremove
    rw [if_neg hne] at hmod
    obtain ⟨-, v, hv, -⟩ := run_modifyTask.1 hmod
    exact ⟨v, hv⟩
  refine ⟨hp, ?_⟩
  exact congrArg Prod.snd (Except.ok.inj (hrun.symm.trans (taskFree_eq r h0 ht hat hc hp)))

end OwnKernel
