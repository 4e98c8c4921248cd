import OwnKernel.Lib.Rotation
import OwnKernel.Task.List

/-!
# Round robin

`task_get_next` goes on to the next task of the list, or to the first
one, so that as many switches as there are tasks visit each of them and
come back, while `next` chains exactly the live tasks. `task_free` links
through the freed task's own `prev`, which nothing keeps up to date:
`scheduleRun_rotates` is about the runs in which a freed task's `prev` is
null or the task before it. `scheduleRun_not_rotates` frees a task whose
`prev` names memory that another task has since been given.
-/

namespace OwnKernel

variable {k k' : Kernel} {live : List Word} {view : Word → ChunkView} {p q task process : Word}
  {t : Task} {c : ChunkView}

/-- `n` steps of `task_switch(task_get_next())`, and the tasks switched
to. -/
def taskRotate : ℕ → KernelM (List Word)
  | 0 => pure []
  | n + 1 => do
    let task ← taskGetNext
    let _ ← taskSwitch task
    let tasks ← taskRotate n
    pure (task :: tasks)

/-- **A run of `task_new`, `task_free` and switches to the next task**
from `k₀`, each call finishing: the kernel reached and the live tasks in
creation order. `Meets` restricts the calls of `task_free`. -/
inductive ScheduleRun (Meets : Kernel → Word → Prop) (k₀ : Kernel) : Kernel → List Word → Prop
  | start : ScheduleRun Meets k₀ k₀ []
  | new {k k' : Kernel} {live : List Word} {process task : Word} :
      ScheduleRun Meets k₀ k live → taskNew process k = .ok (task, k') →
      ScheduleRun Meets k₀ k' (live ++ [task])
  | free {k k' : Kernel} {live : List Word} {task : Word} :
      ScheduleRun Meets k₀ k live → task ∈ live → Meets k task → taskFree task k = .ok (⟨⟩, k') →
      ScheduleRun Meets k₀ k' (live.erase task)
  | switch {k k' : Kernel} {live : List Word} {tasks : List Word} :
      ScheduleRun Meets k₀ k live → taskRotate 1 k = .ok (tasks, k') →
      ScheduleRun Meets k₀ k' live

/-- **The rotation**: the current task is live, and as many steps as
there are tasks switch to each of them once and end at the current
one. -/
def Rotates (k : Kernel) (live : List Word) : Prop :=
  k.currentTask ∈ live ∧ ∃ tasks k', taskRotate live.length k = .ok (tasks, k') ∧
    tasks.Perm live ∧ k'.currentTask = k.currentTask

/-- The task's `prev` is null or the task before it. -/
def PrevLinked (k : Kernel) (task : Word) : Prop :=
  k.prevOf task = 0 ∨ ∃ u, k.tasks (k.prevOf task) = some u ∧ u.next = task

/-! ## The invariant -/

/-- **The invariant of a run**: `next` chains the live tasks from head to
tail, the current task is one of them, and only the first one has no
`prev`. -/
structure RotationInv (k : Kernel) (live : List Word) (view : Word → ChunkView) : Prop where
  owned : TaskOwned k live view
  chained : Chained k.nextOf 0 live
  head : k.taskHead = firstNode 0 live
  tail : k.taskTail = lastNode 0 live
  first : ∀ p ∈ live, k.prevOf p = 0 → p = firstNode 0 live
  only : ∀ p, k.tasks p ≠ none → p ∈ live
  current : live ≠ [] → k.currentTask ∈ live

namespace RotationInv

theorem head_eq_zero_iff (h : RotationInv k live view) : k.taskHead = 0 ↔ live = [] := by
  constructor
  · intro h0
    by_contra hne
    exact h.chained.not_null _ (firstNode_mem hne) (h.head.symm.trans h0)
  · rintro rfl
    exact h.head

theorem tail_mem (h : RotationInv k live view) (hne : k.taskHead ≠ 0) : k.taskTail ∈ live := by
  rw [h.tail]
  exact lastNode_mem fun hnil => hne (h.head_eq_zero_iff.2 hnil)

/-- No task at all. -/
theorem nil (r : k.store.heap.Ready) (h0 : k.taskHead = 0) (h0' : k.taskTail = 0)
    (hnone : ∀ p, k.tasks p = none) : RotationInv k [] view :=
  ⟨.nil r, .nil, h0, h0', by simp, fun p hp => absurd (hnone p) hp, fun hne => absurd rfl hne⟩

/-! ### One switch -/

/-- `task_get_next` goes round the list. -/
theorem taskGetNext_eq (h : RotationInv k live view) (hne : live ≠ []) :
    taskGetNext k = .ok (goRound k.nextOf 0 (firstNode 0 live) k.currentTask, k) := by
  obtain ⟨t, ht, -⟩ := h.owned.object _ (h.current hne)
  unfold taskGetNext
  rw [Fallible.run_get_bind]
  refine Fallible.run_bind.2 ⟨t, k, run_readTask.2 ⟨h.chained.not_null _ (h.current hne), ht, rfl⟩, ?_⟩
  unfold goRound
  rw [nextOf_of_some ht, ← h.head]
  by_cases h0 : t.next = 0
  · rw [if_pos h0, if_pos h0]
    rfl
  · rw [if_neg h0, if_neg h0]
    rfl

/-- Any live task can be switched to. -/
theorem setCurrent (h : RotationInv k live view) (hp : p ∈ live) :
    RotationInv { k with currentTask := p } live view :=
  ⟨h.owned.congr rfl rfl, h.chained, h.head, h.tail, h.first, h.only, fun _ => hp⟩

/-- **The switches** go round the list, from the current task on. -/
theorem taskRotate_eq (h : RotationInv k live view) (hne : live ≠ []) (n : ℕ) :
    taskRotate n k = .ok
      (tabulate (fun i => (goRound k.nextOf 0 (firstNode 0 live))^[i + 1] k.currentTask) n,
      { k with currentTask := (goRound k.nextOf 0 (firstNode 0 live))^[n] k.currentTask }) := by
  induction n generalizing k with
  | zero => rfl
  | succ n ih =>
    have hmem := h.chained.goRound_mem (h.current hne)
    unfold taskRotate
    refine Fallible.run_bind.2 ⟨_, _, h.taskGetNext_eq hne, ?_⟩
    refine Fallible.run_bind.2 ⟨0, _, Fallible.run_seq.2 ⟨_, Fallible.run_modify.2 rfl, rfl⟩, ?_⟩
    refine Fallible.run_bind.2 ⟨_, _, ih (h.setCurrent hmem), Fallible.run_pure.2 ⟨?_, rfl⟩⟩
    rw [Nat.add_comm n 1, tabulate_add]
    simp only [Nat.add_comm 1]
    rfl

/-- **The invariant gives the rotation.** -/
theorem rotates (h : RotationInv k live view) (hne : live ≠ []) : Rotates k live := by
  obtain ⟨hperm, hback⟩ := h.chained.goRound_perm (h.current hne)
  exact ⟨h.current hne, _, _, h.taskRotate_eq hne live.length, hperm, hback⟩

/-! ### One step -/

/-- **A switch keeps the invariant.** -/
theorem switch {tasks : List Word} (h : RotationInv k live view)
    (hrun : taskRotate 1 k = .ok (tasks, k')) : RotationInv k' live view := by
  by_cases hne : live = []
  · -- there is no task to go on from
    exfalso
    obtain ⟨task, k₁, hnext, -⟩ := Fallible.run_bind.1 hrun
    unfold taskGetNext at hnext
    rw [Fallible.run_get_bind] at hnext
    obtain ⟨t, k₂, hread, -⟩ := Fallible.run_bind.1 hnext
    obtain ⟨-, ht, -⟩ := run_readTask.1 hread
    have hin := h.only k.currentTask (by rw [ht]; exact Option.some_ne_none t)
    rw [hne] at hin
    exact List.not_mem_nil hin
  · rw [h.taskRotate_eq hne 1] at hrun
    obtain rfl := congrArg Prod.snd (Except.ok.inj hrun)
    exact h.setCurrent (h.chained.goRound_mem (h.current hne))

/-- **`task_new` keeps the invariant.** -/
theorem new (h : RotationInv k live view) (hm : TaskMade k k' task process c t) :
    RotationInv k' (live ++ [task]) (Function.update view task c) := by
  have hown := h.owned.new hm
  have hnot : ∀ p ∈ live, p ≠ task := fun p hp => h.owned.ne_new hm hp
  have hhead : ∀ p ∈ live, k.taskHead ≠ 0 := fun p hp h0 =>
    List.ne_nil_of_mem hp (h.head_eq_zero_iff.1 h0)
  have heq_tail : ∀ p ∈ live.getLast?, p = k.taskTail := by
    intro p hp
    rw [h.tail, lastNode, Option.mem_def.1 hp]
    rfl
  have htail_last : ∀ p ∈ live, p = k.taskTail → p ∈ live.getLast? := by
    rintro p hp rfl
    obtain ⟨l, a, rfl⟩ := (List.eq_nil_or_concat' live).resolve_left (List.ne_nil_of_mem hp)
    rw [h.tail, lastNode_concat]
    simp
  -- of the old tasks only the last one is written, and only its `next`
  have hprev : ∀ p ∈ live, k'.prevOf p = k.prevOf p := fun p hp => hm.prevOf_eq (hnot p hp)
  refine ⟨hown, ?_, ?_, ?_, ?_, ?_, ?_⟩
  · refine h.chained.concat (fun hin => hnot task hin rfl) (hm.owns.ne_zero hown.ready)
      (fun p hp hne => ?_) (fun p hp => ?_) ?_
    · rw [Kernel.nextOf, hm.tasks_other p (hnot p hp) fun _ he => hne (htail_last p hp he)]
      rfl
    · obtain ⟨u, -, hu'⟩ := hm.tasks_tail (hhead p (List.mem_of_mem_getLast? hp))
      rw [heq_tail p hp, nextOf_of_some hu']
    · rw [nextOf_of_some hm.tasks_self, hm.next]
  · rw [hm.taskHead]
    by_cases h0 : k.taskHead = 0
    · rw [if_pos h0, h.head_eq_zero_iff.1 h0]
      rfl
    · rw [if_neg h0, h.head, firstNode_append fun hnil => h0 (h.head_eq_zero_iff.2 hnil)]
  · rw [hm.taskTail, lastNode_concat]
  · intro p hp h0
    by_cases hempty : live = []
    · subst hempty
      exact List.mem_singleton.1 hp
    · rw [firstNode_append hempty]
      rcases List.mem_append.1 hp with hp | hp
      · exact h.first p hp ((hprev p hp).symm.trans h0)
      · have hk : k.taskHead ≠ 0 := fun h0' => hempty (h.head_eq_zero_iff.1 h0')
        rw [List.mem_singleton.1 hp, prevOf_of_some hm.tasks_self, hm.prev, if_neg hk] at h0
        exact absurd h0 (h.chained.not_null _ (h.tail_mem hk))
  · intro p hp
    by_cases hpt : p = task
    · exact List.mem_append_right _ (List.mem_singleton.2 hpt)
    · refine List.mem_append_left _ ?_
      by_cases hlast : k.taskHead ≠ 0 ∧ p = k.taskTail
      · exact hlast.2 ▸ h.tail_mem hlast.1
      · rw [hm.tasks_other p hpt fun h0 he => hlast ⟨h0, he⟩] at hp
        exact h.only p hp
  · intro _
    rw [hm.currentTask]
    by_cases h0 : k.taskHead = 0
    · rw [if_pos h0]
      exact List.mem_append_right _ (List.mem_singleton_self _)
    · rw [if_neg h0]
      exact List.mem_append_left _ (h.current fun hnil => h0 (h.head_eq_zero_iff.2 hnil))

/-- **`task_free` keeps the invariant** when the task's `prev` is in
order. -/
theorem free (h : RotationInv k live view) (hp : p ∈ live) (ht : k.tasks p = some t)
    (hlink : PrevLinked k p) : RotationInv (k.freeTask p t (view p)) (live.erase p) view := by
  have hmem : ∀ q ∈ live.erase p, q ∈ live := fun q hq => List.mem_of_mem_erase hq
  have hne : ∀ q ∈ live.erase p, q ≠ p := by
    rintro q hq rfl
    exact h.chained.nodup.not_mem_erase hq
  have hnext : k.nextOf p = t.next := nextOf_of_some ht
  have hprevp : k.prevOf p = t.prev := prevOf_of_some ht
  -- the task before, which `prev` names
  have hpred : t.prev ≠ 0 → t.prev ∈ live ∧ k.nextOf t.prev = p := by
    intro h0
    rw [← hprevp] at h0 ⊢
    obtain ⟨u, hu, hun⟩ := hlink.resolve_left h0
    exact ⟨h.only _ (by rw [hu]; exact Option.some_ne_none u), (nextOf_of_some hu).trans hun⟩
  have hpre_iff : ∀ q ∈ live, k.nextOf q = p ↔ t.prev ≠ 0 ∧ q = t.prev := by
    intro q hq
    constructor
    · intro hqp
      have h0 : t.prev ≠ 0 := fun h0 =>
        h.chained.next_ne_first hq (hqp.trans (h.first p hp (hprevp.trans h0)))
      exact ⟨h0, h.chained.next_inj hq (hpred h0).1 hp hqp (hpred h0).2⟩
    · rintro ⟨h0, rfl⟩
      exact (hpred h0).2
  have hnextOf : ∀ q ∈ live, q ≠ p → (k.freeTask p t (view p)).nextOf q =
      if k.nextOf q = p then k.nextOf p else k.nextOf q := by
    intro q hq hqp
    obtain ⟨u, hu, -⟩ := h.owned.object q hq
    rw [nextOf_of_some (freeTask_tasks hqp hu), hnext]
    by_cases hqn : k.nextOf q = p
    · rw [if_pos hqn, if_pos ((hpre_iff q hq).1 hqn)]
    · rw [if_neg hqn, if_neg fun hc => hqn ((hpre_iff q hq).2 hc), nextOf_of_some hu]
  have hchain : Chained (k.freeTask p t (view p)).nextOf 0 (live.erase p) :=
    h.chained.erase hp hnextOf
  have hhead : (if p = k.taskHead then t.next else k.taskHead) = firstNode 0 (live.erase p) := by
    rw [h.head, ← hnext]
    exact h.chained.firstNode_erase hp
  refine ⟨h.owned.free hp fun q hq => ⟨hmem q hq, hne q hq⟩, hchain, hhead, ?_, ?_, ?_, ?_⟩
  · change (if p = k.taskTail then t.prev else k.taskTail) = _
    rw [h.tail]
    refine (h.chained.lastNode_erase t.prev hp ?_ hpred).symm
    intro h0
    exact h.first p hp (hprevp.trans h0)
  · intro q hq h0
    obtain ⟨u, hu, -⟩ := h.owned.object q (hmem q hq)
    rw [TaskInv.freeTask_prevOf (hne q hq) hu] at h0
    -- the first task keeps its place, and the freed one is another
    have hfirst := h.first q (hmem q hq) h0
    rw [← h.chained.firstNode_erase hp, if_neg (hfirst ▸ (hne q hq).symm)]
    exact hfirst
  · intro q hq
    have hin : q ∈ live := h.only q fun hnone => hq (freeTask_tasks_none hnone)
    refine (List.mem_erase_of_ne ?_).2 hin
    rintro rfl
    exact hq (Function.update_self ..)
  · intro hrest
    change (if p = k.currentTask then (if t.next = 0 then _ else t.next) else k.currentTask) ∈ _
    by_cases hcur : p = k.currentTask
    · rw [if_pos hcur]
      by_cases h0 : t.next = 0
      · rw [if_pos h0, hhead]
        exact firstNode_mem hrest
      · rw [if_neg h0, ← hnext]
        rw [← hnext] at h0
        exact (List.mem_erase_of_ne (h.chained.next_ne_self hp)).2
          ((h.chained.next_mem hp).resolve_left h0)
    · rw [if_neg hcur]
      exact (List.mem_erase_of_ne (Ne.symm hcur)).2 (h.current (List.ne_nil_of_mem hp))

/-- **Every run** whose freed tasks have their `prev` in order has the
invariant. -/
theorem of_run {k₀ : Kernel} (r : k₀.store.heap.Ready) (h0 : k₀.taskHead = 0)
    (h0' : k₀.taskTail = 0) (hnone : ∀ p, k₀.tasks p = none)
    (h : ScheduleRun PrevLinked k₀ k live) : ∃ view, RotationInv k live view := by
  induction h with
  | start => exact ⟨fun _ => ⟨0, 0, fun _ => 0⟩, nil r h0 h0' hnone⟩
  | new _ hnew ih =>
    obtain ⟨view, ih⟩ := ih
    obtain ⟨c, t, hmade⟩ := taskNew_spec ih.owned.ready
      (fun hne => ⟨1, ih.owned.owns _ (ih.tail_mem hne)⟩) hnew
    exact ⟨_, ih.new hmade⟩
  | free _ hmem hmeets hfree ih =>
    obtain ⟨view, ih⟩ := ih
    obtain ⟨t, ht, hc⟩ := ih.owned.object _ hmem
    obtain ⟨-, rfl⟩ := taskFree_spec ih.owned.ready ht (ih.owned.mapped _ hmem) hc hfree
    exact ⟨view, ih.free hmem ht hmeets⟩
  | switch _ hrun ih =>
    obtain ⟨view, ih⟩ := ih
    exact ⟨view, ih.switch hrun⟩

end RotationInv

/-- **Round robin**, in the runs in which each freed task's `prev` is in
order. -/
theorem scheduleRun_rotates {k₀ k : Kernel} {live : List Word} (r : k₀.store.heap.Ready)
    (h0 : k₀.taskHead = 0) (h0' : k₀.taskTail = 0) (hnone : ∀ p, k₀.tasks p = none)
    (h : ScheduleRun PrevLinked k₀ k live) (hne : live ≠ []) : Rotates k live := by
  obtain ⟨view, hinv⟩ := RotationInv.of_run r h0 h0' hnone h
  exact hinv.rotates hne

/-! ## Two runs -/

/-- A task can be made while there are blocks for it. -/
theorem RotationInv.exists_new {n : ℕ} (h : RotationInv k live view)
    (hfree : n + 1027 ≤ k.store.heap.freeBlocks) (hread : EntryReadable k process) :
    ∃ task k' c t s, taskNew process k = .ok (task, k') ∧
      kernelZalloc sizeofTask k.store = .ok (task, s) ∧ TaskMade k k' task process c t ∧
      n ≤ k'.store.heap.freeBlocks := by
  have hown : k.taskHead ≠ 0 → ∃ j, k.store.heap.Owns k.taskTail j := fun hne =>
    ⟨1, h.owned.owns _ (h.tail_mem hne)⟩
  have hobject : k.taskHead ≠ 0 → ∃ u, k.tasks k.taskTail = some u := fun hne =>
    (h.owned.object _ (h.tail_mem hne)).imp fun _ ht => ht.1
  obtain ⟨task, k', hnew, hroom⟩ := taskNew_of_budget budget_freeBlocks h.owned.ready hfree hread
    hown hobject
  obtain ⟨⟨s, hz⟩, c, t, hmade⟩ := taskNew_alloc h.owned.ready hown hnew
  exact ⟨task, k', c, t, s, hnew, hz, hmade, hroom⟩

/-- A live task whose `prev` is in order can be freed. -/
theorem RotationInv.exists_free (h : RotationInv k live view) (hp : p ∈ live)
    (hlink : PrevLinked k p) : ∃ t, k.tasks p = some t ∧
      taskFree p k = .ok (⟨⟩, k.freeTask p t (view p)) ∧
      RotationInv (k.freeTask p t (view p)) (live.erase p) view := by
  obtain ⟨t, ht, hc⟩ := h.owned.object p hp
  refine ⟨t, ht, ?_, h.free hp ht hlink⟩
  refine taskFree_eq h.owned.ready (h.chained.not_null p hp) ht (h.owned.mapped p hp) hc fun hne => ?_
  rw [← prevOf_of_some ht] at hne ⊢
  exact (hlink.resolve_left hne).imp fun _ hu => hu.1

/-- The address of the kernel heap's first block. -/
def firstBlock : Word := heapBlockToAddress kernelHeapInit (0 : ℕ)

/-- With the first block free, it is the one a task is given. -/
theorem eq_firstBlock {s s' : Store} (hplace : kernelHeapInit.SamePlace s.heap)
    (hfree : s.heap.Free 0) (h : kernelZalloc sizeofTask s = .ok (task, s')) :
    task = firstBlock := by
  have htotal : 0 < s.heap.total := by
    rw [hplace.total]
    decide
  have hz := kernelZalloc_first sizeofTask (hplace.ready ready_kernelHeapInit) hfree htotal
    (by decide) (by decide) (by decide)
  rw [hplace.heapBlockToAddress, h] at hz
  exact congrArg Prod.fst (Except.ok.inj hz)

/-- A task that is its own `next` is the only one the switches reach. -/
theorem taskRotate_stuck (h0 : task ≠ 0) (ht : k.tasks task = some t) (hnext : t.next = task)
    (hcur : k.currentTask = task) (n : ℕ) : taskRotate n k = .ok (List.replicate n task, k) := by
  have hget : taskGetNext k = .ok (task, k) := by
    unfold taskGetNext
    rw [Fallible.run_get_bind, hcur]
    refine Fallible.run_bind.2 ⟨t, k, run_readTask.2 ⟨h0, ht, rfl⟩, ?_⟩
    rw [hnext, if_neg h0]
    rfl
  have hself : ({ k with currentTask := task } : Kernel) = k := by
    subst hcur
    rfl
  induction n with
  | zero => rfl
  | succ n ih =>
    unfold taskRotate
    refine Fallible.run_bind.2 ⟨task, k, hget, ?_⟩
    refine Fallible.run_bind.2 ⟨0, k, ?_, ?_⟩
    · exact Fallible.run_seq.2 ⟨_, Fallible.run_modify.2 hself.symm, rfl⟩
    · exact Fallible.run_bind.2 ⟨_, k, ih, rfl⟩

/-- Two tasks can be made at the start, the first of them at the first
block. -/
theorem exists_two_scheduled (Meets : Kernel → Word → Prop) : ∃ k₁ k₂ q view c t,
    ScheduleRun Meets bootKernel k₂ [firstBlock, q] ∧ RotationInv k₁ [firstBlock] view ∧
      k₁.currentTask = firstBlock ∧ k₁.prevOf firstBlock = 0 ∧
      TaskMade k₁ k₂ q 1 c t ∧ kernelHeapInit.SamePlace k₂.store.heap ∧
      2054 ≤ k₂.store.heap.freeBlocks ∧ EntryReadable k₂ 1 := by
  have hinv₀ : RotationInv bootKernel [] fun _ => ⟨0, 0, fun _ => 0⟩ :=
    RotationInv.nil ready_kernelHeapInit rfl rfl fun _ => rfl
  have hfree : 2054 + 1027 + 1027 ≤ bootKernel.store.heap.freeBlocks := by
    rw [show bootKernel.store.heap = kernelHeapInit from rfl, freeBlocks_kernelHeapInit]
    decide
  obtain ⟨p, k₁, c₁, t₁, s, hnew₁, hz₁, hmade₁, hfree₁⟩ :=
    hinv₀.exists_new hfree entryReadable_bootKernel
  obtain rfl := eq_firstBlock (Heap.SamePlace.refl _) (room_kernelHeapInit 0 le_rfl (by decide)) hz₁
  have hread₁ : EntryReadable k₁ 1 :=
    entryReadable_bootKernel.congr hmade₁.processes hmade₁.elfFiles
  obtain ⟨q, k₂, c₂, t₂, s₂, hnew₂, -, hmade₂, hfree₂⟩ :=
    (hinv₀.new hmade₁).exists_new hfree₁ hread₁
  refine ⟨k₁, k₂, q, _, c₂, t₂, .new (.new .start hnew₁) hnew₂, hinv₀.new hmade₁, ?_, ?_, hmade₂,
    hmade₁.store.place.trans hmade₂.store.place, hfree₂,
    hread₁.congr hmade₂.processes hmade₂.elfFiles⟩
  · rw [hmade₁.currentTask]
    exact if_pos rfl
  · rw [prevOf_of_some hmade₁.tasks_self, hmade₁.prev]
    exact if_pos rfl

/-- Three tasks are made and the first is freed; the others take turns. -/
theorem scheduleRun_rotates_others : ∃ k q r,
    ScheduleRun PrevLinked bootKernel k [q, r] ∧ Rotates k [q, r] := by
  obtain ⟨k₁, k₂, q, view, c, t, hrun, hinv₁, -, hprev, hmade, -, hblocks, hread⟩ :=
    exists_two_scheduled PrevLinked
  have hinv₂ := hinv₁.new hmade
  obtain ⟨r, k₃, c₃, t₃, s₃, hnew, -, hmade₃, -⟩ := hinv₂.exists_new hblocks hread
  have hrun₃ := hrun.new hnew
  have hmem : firstBlock ∈ [firstBlock] ++ [q] := by simp
  have hmem₃ : firstBlock ∈ [firstBlock] ++ [q] ++ [r] := by simp
  have hlink : PrevLinked k₃ firstBlock := by
    left
    rw [hmade₃.prevOf_eq (hinv₂.owned.ne_new hmade₃ hmem),
      hmade.prevOf_eq (hinv₁.owned.ne_new hmade (List.mem_singleton_self _)), hprev]
  obtain ⟨u, -, hfree, -⟩ := (hinv₂.new hmade₃).exists_free hmem₃ hlink
  have hrun' := hrun₃.free hmem₃ hlink hfree
  change ScheduleRun _ _ _ (List.erase (firstBlock :: [q, r]) firstBlock) at hrun'
  rw [List.erase_cons_head] at hrun'
  exact ⟨_, q, r, hrun', scheduleRun_rotates ready_kernelHeapInit rfl rfl (fun _ => rfl) hrun'
    (List.cons_ne_nil _ _)⟩

/-- Freeing the first task gives its block back and makes the next task
the current one. -/
theorem RotationInv.free_first (h : RotationInv k [firstBlock, q] view)
    (hplace : kernelHeapInit.SamePlace k.store.heap) (hcur : k.currentTask = firstBlock)
    (ht : k.tasks firstBlock = some t) :
    (k.freeTask firstBlock t (view firstBlock)).store.heap.Free 0 ∧
      (k.freeTask firstBlock t (view firstBlock)).currentTask = q := by
  have hmem : firstBlock ∈ [firstBlock, q] := List.mem_cons_self ..
  constructor
  · have hat := h.owned.mapped firstBlock hmem
    have hown := hat.owns_freeAll h.owned.ready (h.owned.owns firstBlock hmem)
      (h.owned.chunk_apart firstBlock hmem firstBlock hmem)
    have hplace' := hplace.trans (Heap.samePlace_freeAll (view firstBlock).pointers k.store.heap)
    have haddr : firstBlock =
        heapBlockToAddress (k.store.heap.freeAll (view firstBlock).pointers) (0 : ℕ) :=
      (hplace'.heapBlockToAddress _).symm
    rw [freeTask_store, Heap.freeAll_append, Heap.freeAll_cons, Heap.freeAll_nil]
    have hfree := Heap.free_of_heapFree (hplace'.ready ready_kernelHeapInit) (b := 0)
      (by rw [hplace'.total]; decide) (k := 1) (by rwa [← haddr])
    rwa [← haddr] at hfree
  · have hnext : t.next = q := by
      rw [← nextOf_of_some ht]
      exact (List.isChain_cons_cons.1 h.chained.chain).1
    have hq : q ≠ 0 := h.chained.not_null q (by simp)
    change (if firstBlock = k.currentTask then (if t.next = 0 then _ else t.next)
      else k.currentTask) = q
    rw [if_pos hcur.symm, hnext, if_neg hq]

/-- **Freeing a task whose `prev` names the task after it** makes that
one its own `next`. -/
theorem RotationInv.free_stuck {x d : Word} (h : RotationInv k [q, x, d] view)
    (hcur : k.currentTask = q) (hprev : k.prevOf q = x) :
    ∃ k', taskFree q k = .ok (⟨⟩, k') ∧ ¬ Rotates k' [x, d] := by
  have hq : q ∈ [q, x, d] := List.mem_cons_self ..
  have hx : x ∈ [q, x, d] := by simp
  have hx0 : x ≠ 0 := h.chained.not_null x hx
  have hd := h.chained.nodup
  have hxq : x ≠ q := by
    rintro rfl
    simp at hd
  obtain ⟨t, ht, hc⟩ := h.owned.object q hq
  obtain ⟨u, hu, -⟩ := h.owned.object x hx
  have htprev : t.prev = x := (prevOf_of_some ht).symm.trans hprev
  have htnext : t.next = x := by
    rw [← nextOf_of_some ht]
    exact (List.isChain_cons_cons.1 h.chained.chain).1
  have hfree := taskFree_eq h.owned.ready (h.chained.not_null q hq) ht (h.owned.mapped q hq) hc
    fun _ => ⟨u, by rw [htprev]; exact hu⟩
  refine ⟨_, hfree, ?_⟩
  rintro ⟨-, tasks, k', hrun, hperm, -⟩
  have hself : (k.freeTask q t (view q)).tasks x = some { u with next := x } := by
    rw [freeTask_tasks hxq hu, if_pos ⟨htprev ▸ hx0, htprev.symm⟩, htnext]
  have hcur' : (k.freeTask q t (view q)).currentTask = x := by
    change (if q = k.currentTask then (if t.next = 0 then _ else t.next) else k.currentTask) = x
    rw [if_pos hcur.symm, htnext, if_neg hx0]
  rw [taskRotate_stuck hx0 hself rfl hcur'] at hrun
  have htasks : List.replicate [x, d].length x = tasks := congrArg Prod.fst (Except.ok.inj hrun)
  have hin : d ∈ List.replicate [x, d].length x := by
    rw [htasks]
    exact hperm.mem_iff.2 (by simp)
  obtain rfl : d = x := List.eq_of_mem_replicate hin
  simp at hd

/-- **The rotation can miss a task**: of two tasks the first is freed and
its block given to a third; a fourth is made, and the second is freed.
Its `prev` names the third task, which becomes its own `next`. -/
theorem scheduleRun_not_rotates :
    ¬ ∀ k live, ScheduleRun (fun _ _ => True) bootKernel k live → live ≠ [] → Rotates k live := by
  intro hall
  obtain ⟨k₁, k₂, b, view, c, t, hrun₂, hinv₁, hcur₁, hprev₁, hmade₂, hplace₂, hblocks₂, hread₂⟩ :=
    exists_two_scheduled fun _ _ => True
  have hinv₂ := hinv₁.new hmade₂
  -- the first task is freed
  have hmem : firstBlock ∈ [firstBlock] ++ [b] := by simp
  have hne : firstBlock ≠ b := hinv₁.owned.ne_new hmade₂ (List.mem_singleton_self _)
  have hlink : PrevLinked k₂ firstBlock := Or.inl ((hmade₂.prevOf_eq hne).trans hprev₁)
  obtain ⟨u, hu, hfree₂, hinv₃⟩ := hinv₂.exists_free hmem hlink
  have hhead₁ : k₁.taskHead ≠ 0 := fun h0 => List.cons_ne_nil _ _ (hinv₁.head_eq_zero_iff.1 h0)
  have hcur₂ : k₂.currentTask = firstBlock := by
    rw [hmade₂.currentTask, if_neg hhead₁, hcur₁]
  obtain ⟨hfree0, hcur₃⟩ := hinv₂.free_first hplace₂ hcur₂ hu
  have hprev₃ : (k₂.freeTask firstBlock u (Function.update view b c firstBlock)).prevOf b =
      firstBlock := by
    rw [TaskInv.freeTask_prevOf hne.symm hmade₂.tasks_self, prevOf_of_some hmade₂.tasks_self,
      hmade₂.prev, if_neg hhead₁, hinv₁.tail]
    rfl
  have hrun₃ := hrun₂.free (by simp) trivial hfree₂
  have hplace₃ : kernelHeapInit.SamePlace
      (k₂.freeTask firstBlock u (Function.update view b c firstBlock)).store.heap :=
    hplace₂.trans samePlace_freeTask
  have hblocks₃ : 1027 + 1027 ≤ (k₂.freeTask firstBlock u
      (Function.update view b c firstBlock)).store.heap.freeBlocks :=
    hblocks₂.trans freeBlocks_le_freeTask
  have hread₃ : EntryReadable (k₂.freeTask firstBlock u (Function.update view b c firstBlock)) 1 :=
    entryReadable_freeTask hread₂
  rw [List.erase_cons_head] at hrun₃
  change RotationInv _ (List.erase (firstBlock :: [b]) firstBlock) _ at hinv₃
  rw [List.erase_cons_head] at hinv₃
  generalize k₂.freeTask firstBlock u (Function.update view b c firstBlock) = k₃ at *
  -- the third task is given its block
  obtain ⟨a, k₄, c₄, t₄, s₄, hnew₄, hz₄, hmade₄, hblocks₄⟩ := hinv₃.exists_new hblocks₃ hread₃
  obtain rfl := eq_firstBlock hplace₃ hfree0 hz₄
  have hhead₃ : k₃.taskHead ≠ 0 := fun h0 => List.cons_ne_nil _ _ (hinv₃.head_eq_zero_iff.1 h0)
  have hinv₄ := hinv₃.new hmade₄
  have hprev₄ : k₄.prevOf b = firstBlock := (hmade₄.prevOf_eq hne.symm).trans hprev₃
  have hcur₄ : k₄.currentTask = b := by rw [hmade₄.currentTask, if_neg hhead₃, hcur₃]
  -- a fourth comes behind it
  obtain ⟨d, k₅, c₅, t₅, s₅, hnew₅, -, hmade₅, -⟩ := hinv₄.exists_new (n := 0) hblocks₄
    (hread₃.congr hmade₄.processes hmade₄.elfFiles)
  have hhead₄ : k₄.taskHead ≠ 0 := fun h0 => List.cons_ne_nil _ _ (hinv₄.head_eq_zero_iff.1 h0)
  have hbd : b ≠ d := hinv₄.owned.ne_new hmade₅ (List.mem_cons_self ..)
  have hprev₅ : k₅.prevOf b = firstBlock := (hmade₅.prevOf_eq hbd).trans hprev₄
  have hcur₅ : k₅.currentTask = b := by rw [hmade₅.currentTask, if_neg hhead₄, hcur₄]
  -- the second is freed
  obtain ⟨k₆, hfree₆, hnot⟩ := (hinv₄.new hmade₅).free_stuck hcur₅ hprev₅
  have hrun₆ := ((hrun₃.new hnew₄).new hnew₅).free (List.mem_cons_self ..) trivial hfree₆
  rw [List.cons_append, List.cons_append, List.erase_cons_head] at hrun₆
  exact hnot (hall k₆ _ hrun₆ (List.cons_ne_nil _ _))

end OwnKernel
