import OwnKernel.Process.Mapping
import OwnKernel.Task.RoundRobin

/-!
# Loads that fail

From the creation of the task on, `process_load_for_slot` can fail twice:
in `task_new`, for want of memory, and in `process_map_memory`, on a
program header no range belongs to. The second failure is undone:
`task_free` takes the new task off the list again. In the first one
`task_new` itself goes through a null pointer, and so
`processLoadTask_failsCleanly_iff` asks for the 1027 blocks of a task.
-/

namespace OwnKernel

variable {k k' : Kernel} {process task : Word} {p : Process} {t : Task} {c : ChunkView}

/-! ## The task list -/

/-- **The task list before a load**: every task is an allocation, and the
list's ends are tasks, the last one without a next. -/
structure TaskListReady (k : Kernel) : Prop where
  ready : k.store.heap.Ready
  owns : ∀ q t, k.tasks q = some t → ∃ j, k.store.heap.Owns q j
  empty : k.taskHead = 0 → k.taskTail = 0 ∧ k.currentTask = 0
  head : k.taskHead ≠ 0 → ∃ t, k.tasks k.taskHead = some t
  tail : k.taskHead ≠ 0 → ∃ t, k.tasks k.taskTail = some t ∧ t.next = 0
  current : k.taskHead ≠ 0 → ∃ t, k.tasks k.currentTask = some t

/-- Any task but the new one was there. -/
theorem TaskMade.tasks_before {q : Word} {u : Task} (hm : TaskMade k k' task process c t)
    (hq : q ≠ task) (hu : k'.tasks q = some u) : ∃ v, k.tasks q = some v := by
  by_cases hqt : k.taskHead ≠ 0 ∧ q = k.taskTail
  · obtain ⟨v, hv, -⟩ := hm.tasks_tail hqt.1
    exact ⟨v, hqt.2 ▸ hv⟩
  · exact ⟨u, (hm.tasks_other q hq fun hne he => hqt ⟨hne, he⟩).symm.trans hu⟩

namespace TaskListReady

theorem tail_owned (h : TaskListReady k) (hne : k.taskHead ≠ 0) :
    ∃ j, k.store.heap.Owns k.taskTail j := by
  obtain ⟨t, ht, -⟩ := h.tail hne
  exact h.owns _ t ht

/-- The new task is none of those there were. -/
theorem tasks_new (h : TaskListReady k) (hm : TaskMade k k' task process c t) :
    k.tasks task = none := by
  cases hu : k.tasks task with
  | none => rfl
  | some u =>
    obtain ⟨j, hj⟩ := h.owns task u hu
    exact absurd hj (hm.fresh j)

theorem ne_new {q : Word} {u : Task} (h : TaskListReady k) (hm : TaskMade k k' task process c t)
    (hu : k.tasks q = some u) : q ≠ task := by
  rintro rfl
  rw [h.tasks_new hm] at hu
  cases hu

/-- A task there was is there still. -/
theorem tasks_old {q : Word} {u : Task} (h : TaskListReady k) (hm : TaskMade k k' task process c t)
    (hu : k.tasks q = some u) : ∃ u', k'.tasks q = some u' := by
  by_cases hq : k.taskHead ≠ 0 ∧ q = k.taskTail
  · obtain ⟨v, -, hv⟩ := hm.tasks_tail hq.1
    exact ⟨_, hq.2 ▸ hv⟩
  · exact ⟨u, (hm.tasks_other q (h.ne_new hm hu) fun hne he => hq ⟨hne, he⟩).trans hu⟩

/-- **With the new task at its end** the list is in order. -/
theorem taskMade (h : TaskListReady k) (hm : TaskMade k k' task process c t) : TaskListReady k' := by
  have hready := hm.store.ready h.ready
  have htask : task ≠ 0 := hm.owns.ne_zero hready
  -- what is in the old list, or the new task where that is empty
  have hin : ∀ {a : Word}, (k.taskHead ≠ 0 → ∃ u, k.tasks a = some u) →
      ∃ u', k'.tasks (if k.taskHead = 0 then task else a) = some u' := by
    intro a ha
    by_cases hempty : k.taskHead = 0
    · rw [if_pos hempty]
      exact ⟨t, hm.tasks_self⟩
    · rw [if_neg hempty]
      exact (ha hempty).elim fun u hu => h.tasks_old hm hu
  refine ⟨hready, fun q u hu => ?_, fun h0 => ?_, fun _ => ?_, fun _ => ?_, fun _ => ?_⟩
  · by_cases hq : q = task
    · exact ⟨1, hq ▸ hm.owns⟩
    · obtain ⟨v, hv⟩ := hm.tasks_before hq hu
      exact (h.owns q v hv).imp fun j hj => hm.store.owns q j hj
  · -- the list is not empty
    rw [hm.taskHead] at h0
    by_cases hempty : k.taskHead = 0
    · rw [if_pos hempty] at h0
      exact absurd h0 htask
    · rw [if_neg hempty] at h0
      exact absurd h0 hempty
  · rw [hm.taskHead]
    exact hin h.head
  · rw [hm.taskTail]
    exact ⟨t, hm.tasks_self, hm.next⟩
  · rw [hm.currentTask]
    exact hin h.current

end TaskListReady

/-- The runs of the scheduler have such a list. -/
theorem RotationInv.taskListReady {live : List Word} {view : Word → ChunkView}
    (h : RotationInv k live view) (hnil : live = [] → k.currentTask = 0) : TaskListReady k where
  ready := h.owned.ready
  owns q t ht := ⟨1, h.owned.owns q (h.only q (by rw [ht]; exact Option.some_ne_none t))⟩
  empty h0 := by
    have hlive := h.head_eq_zero_iff.1 h0
    exact ⟨by rw [h.tail, hlive]; rfl, hnil hlive⟩
  head hne := by
    have hlive : live ≠ [] := fun he => hne (h.head_eq_zero_iff.2 he)
    rw [h.head]
    exact (h.owned.object _ (firstNode_mem hlive)).imp fun _ ht => ht.1
  tail hne := by
    have hlive : live ≠ [] := fun he => hne (h.head_eq_zero_iff.2 he)
    obtain ⟨t, ht, -⟩ := h.owned.object _ (h.tail_mem hne)
    refine ⟨t, ht, ?_⟩
    obtain ⟨l, a, rfl⟩ := (List.eq_nil_or_concat' live).resolve_left hlive
    rw [← nextOf_of_some ht, h.tail, lastNode_concat]
    exact h.chained.last a (by simp)
  current hne := by
    have hlive : live ≠ [] := fun he => hne (h.head_eq_zero_iff.2 he)
    exact (h.owned.object _ (h.current hlive)).imp fun _ ht => ht.1

/-- The list and the processes are what they were. -/
structure SameLists (k k' : Kernel) : Prop where
  processTable : k'.processTable = k.processTable
  currentProcess : k'.currentProcess = k.currentProcess
  tasks : k'.tasks = k.tasks
  taskHead : k'.taskHead = k.taskHead
  taskTail : k'.taskTail = k.taskTail
  currentTask : k'.currentTask = k.currentTask

/-- **Freeing the task just made undoes `task_new`.** `k₁` is the kernel
after `task_new`, up to memory and the process. -/
theorem TaskMade.sameLists_freeTask {k₁ : Kernel} (hm : TaskMade k k' task process c t)
    (h : TaskListReady k) (htasks : k₁.tasks = k'.tasks) (hhead : k₁.taskHead = k'.taskHead)
    (htail : k₁.taskTail = k'.taskTail) (hcur : k₁.currentTask = k'.currentTask)
    (htable : k₁.processTable = k'.processTable)
    (hcurp : k₁.currentProcess = k'.currentProcess) : SameLists k (k₁.freeTask task t c) where
  processTable := htable.trans hm.processTable
  currentProcess := hcurp.trans hm.currentProcess
  tasks := by
    funext q
    by_cases hq : q = task
    · rw [hq, h.tasks_new hm]
      exact Function.update_self ..
    by_cases hqt : k.taskHead ≠ 0 ∧ q = k.taskTail
    · -- the old last task loses its next again
      obtain ⟨u, hu, hu'⟩ := hm.tasks_tail hqt.1
      obtain ⟨v, hv, hv0⟩ := h.tail hqt.1
      rw [hqt.2] at hq ⊢
      rw [hu] at hv
      cases hv
      have hprev : t.prev = k.taskTail := by rw [hm.prev, if_neg hqt.1]
      obtain ⟨j, hj⟩ := h.tail_owned hqt.1
      rw [freeTask_tasks hq (htasks ▸ hu'), if_pos ⟨hprev ▸ hj.ne_zero h.ready, hprev.symm⟩, hu,
        hm.next, ← hv0]
    · have hout : k'.tasks q = k.tasks q := hm.tasks_other q hq fun hne he => hqt ⟨hne, he⟩
      cases hu : k.tasks q with
      | none => exact freeTask_tasks_none (by rw [htasks, hout, hu])
      | some u =>
        rw [freeTask_tasks hq (by rw [htasks, hout, hu]), if_neg]
        rintro ⟨h0, he⟩
        rw [hm.prev] at h0 he
        by_cases hne : k.taskHead = 0
        · rw [if_pos hne] at h0
          exact h0 rfl
        · rw [if_neg hne] at he
          exact hqt ⟨hne, he⟩
  taskHead := by
    change (if task = k₁.taskHead then t.next else k₁.taskHead) = _
    rw [hhead, hm.taskHead, hm.next]
    by_cases hne : k.taskHead = 0
    · rw [if_pos hne, if_pos rfl, hne]
    · obtain ⟨u, hu⟩ := h.head hne
      rw [if_neg hne, if_neg (h.ne_new hm hu).symm]
  taskTail := by
    change (if task = k₁.taskTail then t.prev else k₁.taskTail) = _
    rw [htail, hm.taskTail, if_pos rfl, hm.prev]
    by_cases hne : k.taskHead = 0
    · rw [if_pos hne, (h.empty hne).1]
    · rw [if_neg hne]
  currentTask := by
    change (if task = k₁.currentTask then
      (if t.next = 0 then (if task = k₁.taskHead then t.next else k₁.taskHead) else t.next)
      else k₁.currentTask) = _
    rw [hcur, hhead, hm.currentTask, hm.taskHead, hm.next]
    by_cases hne : k.taskHead = 0
    · rw [if_pos hne, if_pos rfl, if_pos rfl, if_pos hne, if_pos rfl, (h.empty hne).2]
    · obtain ⟨u, hu⟩ := h.current hne
      rw [if_neg hne, if_neg (h.ne_new hm hu).symm]

/-! ## A task's blocks -/

/-- **A task that is made takes 1027 free blocks.** -/
theorem freeBlocks_of_taskNew (r : k.store.heap.Ready)
    (h : taskNew process k = .ok (task, k')) : 1027 ≤ k.store.heap.freeBlocks := by
  unfold taskNew at h
  obtain ⟨q, k₁, hz', h⟩ := Fallible.run_bind.1 h
  obtain ⟨s₁, hz, rfl⟩ := run_onStore.1 hz'
  by_cases h0 : q = 0
  · rw [if_pos h0, h0] at h
    obtain ⟨k₂, hfree, -⟩ := Fallible.run_seq.1 h
    exact absurd hfree taskFree_null
  rw [if_neg h0] at h
  obtain ⟨res, k₃, hinit, -⟩ := Fallible.run_bind.1 h
  unfold taskInit at hinit
  obtain ⟨k₄, hset, hinit⟩ := Fallible.run_seq.1 hinit
  rw [Fallible.run_modify] at hset
  obtain ⟨pageDirectory, k₅, hnew', -⟩ := Fallible.run_bind.1 hinit
  obtain ⟨s, hnew, -⟩ := run_onStore.1 hnew'
  rw [hset, setTask_store] at hnew
  rcases kernelZalloc_single sizeofTask r (by decide) (by decide) with
    ⟨-, heq⟩ | ⟨p', s', heq, -, hplace, hcount⟩
  · rw [hz] at heq
    cases heq
    exact absurd rfl h0
  · rw [hz] at heq
    cases heq
    have := pagingNew4gb_freeBlocks (hplace.ready r) hnew
    omega

/-! ## A failed load -/

/-- **A load that fails is clean.** From the creation of the task on, the
call comes back without a bad pointer, and either it registers the
process, or its result is negative and the lists are what they were. -/
def LoadFailsCleanly (k : Kernel) (process : Word) (processSlot : ℤ) : Prop :=
  ∃ res out k', processLoadTask process processSlot k = .ok ((res, out), k') ∧
    (0 ≤ res ∧ out = process ∧
        k'.processTable = Function.update k.processTable processSlot.toNat process ∨
      res < 0 ∧ SameLists k k')

/-- The error path of `process_load_for_slot` on a task that is made. -/
theorem processLoadOut_eq {k₁ : Kernel} {res : ℤ} (hneg : res < 0) (h0 : process ≠ 0)
    (hp : k₁.processes process = some p) (hd : HasDirectory k₁ p.task c)
    (ht : k₁.tasks p.task = some t) (hc : t.pageDirectory = c.chunk)
    (hprev : t.prev ≠ 0 → ∃ u, k₁.tasks t.prev = some u) :
    processLoadOut process res k₁ = .ok ((res, 0), k₁.freeTask p.task t c) := by
  unfold processLoadOut
  rw [if_pos hneg]
  refine Fallible.run_bind.2 ⟨p, k₁, run_readProcess.2 ⟨h0, hp, rfl⟩, ?_⟩
  rw [if_neg hd.ne_zero]
  exact Fallible.run_seq.2 ⟨_, taskFree_eq hd.ready hd.ne_zero ht hd.mapped hc hprev, rfl⟩

/-- **With the blocks of a task** a failed load is clean. -/
theorem TaskListReady.loadFailsCleanly {processSlot : ℤ} (h : TaskListReady k)
    (hp : ProgramLoaded k process p) (h0 : 0 ≤ processSlot) (hlt : processSlot < osMaxProcesses)
    (hfree : 1027 ≤ k.store.heap.freeBlocks) : LoadFailsCleanly k process processSlot := by
  obtain ⟨task, k₁, hnew, -⟩ := taskNew_of_budget budget_freeBlocks (n := 0) h.ready
    (by omega) hp.entryReadable h.tail_owned fun hne => (h.tail hne).imp fun _ ht => ht.1
  obtain ⟨c, t, hm⟩ := taskNew_spec h.ready h.tail_owned hnew
  have hready₁ := hm.store.ready h.ready
  have htask := hm.owns.ne_zero hready₁
  -- the task is entered in the process
  have hp₁ : k₁.processes process = some p := by rw [hm.processes, hp.object]
  have hset : modifyProcess process (fun p => { p with task := task }) k₁ =
      .ok (⟨⟩, k₁.setProcess process (some { p with task := task })) :=
    run_modifyProcess.2 ⟨hp.ne_zero, p, hp₁, rfl⟩
  have hp₂ : ProgramLoaded (k₁.setProcess process (some { p with task := task })) process
      { p with task := task } :=
    ⟨hp.ne_zero, setProcess_processes_self, fun hf => by
      change p.ptr ≠ 0 ∧ ∃ f, k₁.elfFiles p.ptr = some f ∧ f.elfMemory ≠ 0
      rw [hm.elfFiles]
      exact hp.elf hf, hp.filetype⟩
  have hd : HasDirectory (k₁.setProcess process (some { p with task := task })) task c :=
    ⟨hready₁, htask, ⟨t, hm.tasks_self, hm.pageDirectory⟩, hm.mapped⟩
  obtain ⟨res, k₂, hmap, hout, hd₂⟩ := HasDirectory.processMapMemory_total hd hp₂
  by_cases hneg : res < 0
  · -- the mapping fails, and the task is freed
    have ht₂ : k₂.tasks task = some t := by
      rw [hout.tasks]
      exact hm.tasks_self
    have hprev : t.prev ≠ 0 → ∃ u, k₂.tasks t.prev = some u := by
      intro hne
      rw [hm.prev] at hne ⊢
      by_cases hhead : k.taskHead = 0
      · rw [if_pos hhead] at hne
        exact absurd rfl hne
      · obtain ⟨u, -, hu⟩ := hm.tasks_tail hhead
        rw [if_neg hhead, hout.tasks]
        exact ⟨_, hu⟩
    refine ⟨res, 0, k₂.freeTask task t c, ?_, Or.inr ⟨hneg, ?_⟩⟩
    · refine Fallible.run_bind.2 ⟨task, k₁, hnew, ?_⟩
      rw [if_neg htask]
      refine Fallible.run_seq.2 ⟨_, hset, Fallible.run_bind.2 ⟨res, k₂, hmap, ?_⟩⟩
      rw [if_pos hneg]
      exact processLoadOut_eq hneg hp.ne_zero (p := { p with task := task })
        (by rw [hout.processes]; exact setProcess_processes_self) hd₂ ht₂ hm.pageDirectory hprev
    · refine hm.sameLists_freeTask h ?_ ?_ ?_ ?_ ?_ ?_ <;> rw [hout.state] <;> rfl
  · refine ⟨res, process, { k₂ with
      processTable := Function.update k₂.processTable processSlot.toNat process }, ?_,
      Or.inl ⟨not_lt.1 hneg, rfl, ?_⟩⟩
    · refine Fallible.run_bind.2 ⟨task, k₁, hnew, ?_⟩
      rw [if_neg htask]
      refine Fallible.run_seq.2 ⟨_, hset, Fallible.run_bind.2 ⟨res, k₂, hmap, ?_⟩⟩
      rw [if_neg hneg, if_neg (by omega)]
      exact Fallible.run_seq.2 ⟨_, Fallible.run_modify.2 rfl, rfl⟩
    · have htable : k₂.processTable = k.processTable := by
        rw [hout.state]
        exact hm.processTable
      change Function.update k₂.processTable _ _ = _
      rw [htable]

/-- **When failed loads are clean**: exactly when the heap has the blocks
of a task. -/
theorem processLoadTask_failsCleanly_iff {processSlot : ℤ} (h : TaskListReady k)
    (hp : ProgramLoaded k process p) (h0 : 0 ≤ processSlot)
    (hlt : processSlot < osMaxProcesses) :
    LoadFailsCleanly k process processSlot ↔ 1027 ≤ k.store.heap.freeBlocks := by
  refine ⟨?_, h.loadFailsCleanly hp h0 hlt⟩
  rintro ⟨res, out, k', hrun, -⟩
  obtain ⟨task, k₁, hnew, -⟩ := Fallible.run_bind.1 hrun
  exact freeBlocks_of_taskNew h.ready hnew

/-- The list of a kernel that has just started. -/
theorem taskListReady_bootKernel {s : Store} {processes : Word → Option Process}
    (r : s.heap.Ready) :
    TaskListReady { bootKernel with store := s, processes := processes } where
  ready := r
  owns q t ht := by cases ht
  empty _ := ⟨rfl, rfl⟩
  head hne := absurd rfl hne
  tail hne := absurd rfl hne
  current hne := absurd rfl hne

/-- A load into the first slot of a kernel that has just started. -/
theorem processLoadTask_failsCleanly_boot : LoadFailsCleanly bootKernel 1 0 := by
  refine (processLoadTask_failsCleanly_iff (p := { Process.zero with
    filetype := processFiletypeBinary }) (taskListReady_bootKernel ready_kernelHeapInit)
    ⟨by decide, rfl, fun hf => absurd hf (by decide), Or.inr rfl⟩ (by decide) (by decide)).2 ?_
  change 1027 ≤ kernelHeapInit.freeBlocks
  rw [freeBlocks_kernelHeapInit]
  decide

/-- **Failed loads are not always clean**: the process is allocated, and
another one asks for all the rest. -/
theorem processLoadTask_not_failsCleanly :
    ¬ ∀ (k : Kernel) (process : Word) (p : Process) (processSlot : ℤ), TaskListReady k →
      ProgramLoaded k process p → 0 ≤ processSlot → processSlot < osMaxProcesses →
      LoadFailsCleanly k process processSlot := by
  intro hall
  have hroom : (⟨kernelHeapInit, fun _ => 0⟩ : Store).heap.Room 0 := room_kernelHeapInit
  have r : (⟨kernelHeapInit, fun _ => 0⟩ : Store).heap.Ready := ready_kernelHeapInit
  obtain ⟨process, s₁, hz₁, h0₁, hp₁, hroom₁⟩ := kernelZalloc_of_room sizeofProcess r hroom
    (by decide) (by decide) (by decide)
  obtain ⟨rest, s₂, hz₂, h0₂, hp₂, -⟩ := kernelZalloc_of_room 0x63FD000 (hp₁.ready r) hroom₁
    (by decide) (by decide) (by rw [hp₁.total]; decide)
  have hcount₁ := kernelZalloc_freeBlocks r (by decide) (by decide) hz₁ h0₁
  have hcount₂ := kernelZalloc_freeBlocks (hp₁.ready r) (by decide) (by decide) hz₂ h0₂
  have hfull : s₂.heap.freeBlocks = 0 := by
    rw [show (⟨kernelHeapInit, fun _ => 0⟩ : Store).heap.freeBlocks = 25600 from
      freeBlocks_kernelHeapInit] at hcount₁
    rw [show blocksFor sizeofProcess.toNat = 3 by decide] at hcount₁
    rw [show blocksFor (0x63FD000 : Word).toNat = 25597 by decide] at hcount₂
    omega
  obtain ⟨res, out, k', hrun, -⟩ := hall
    { bootKernel with
      store := s₂
      processes := fun q => if q = process then
        some { Process.zero with filetype := processFiletypeBinary } else none }
    process _ 0 (taskListReady_bootKernel (hp₂.ready (hp₁.ready r)))
    ⟨h0₁, if_pos rfl, fun hf => absurd hf (by decide), Or.inr rfl⟩ (by decide) (by decide)
  obtain ⟨task, k₁, hnew, -⟩ := Fallible.run_bind.1 hrun
  have := freeBlocks_of_taskNew (hp₂.ready (hp₁.ready r)) hnew
  change 1027 ≤ s₂.heap.freeBlocks at this
  omega

end OwnKernel
