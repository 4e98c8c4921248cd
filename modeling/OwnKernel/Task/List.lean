import OwnKernel.Lib.LinkedList
import OwnKernel.Task.Owned

/-!
# The task list

`TaskListWellFormed` is what the list is meant to be: a doubly linked
list of exactly the live tasks, in creation order. `task_new` keeps it.
`task_list_remove` repairs the links of the task before the removed one
but not of the one after, so `task_free` keeps it exactly when the task
is the last one (`TaskInv.free`, `TaskInv.free_not_wellFormed`):
`taskRun_wellFormed` is about the runs that free only last tasks, and
`taskRun_not_wellFormed` frees the first of two.
-/

namespace OwnKernel

variable {k k' : Kernel} {live : List Word} {view : Word → ChunkView} {p q task process : Word}
  {t : Task} {c : ChunkView}

/-- `task->next`, null where there is no task. -/
def Kernel.nextOf (k : Kernel) (task : Word) : Word := ((k.tasks task).map Task.next).getD 0

/-- `task->prev`, null where there is no task. -/
def Kernel.prevOf (k : Kernel) (task : Word) : Word := ((k.tasks task).map Task.prev).getD 0

theorem nextOf_of_some (h : k.tasks task = some t) : k.nextOf task = t.next := by
  simp [Kernel.nextOf, h]

theorem prevOf_of_some (h : k.tasks task = some t) : k.prevOf task = t.prev := by
  simp [Kernel.prevOf, h]

/-- Making a task writes the `prev` of no other. -/
theorem TaskMade.prevOf_eq (hm : TaskMade k k' task process c t) (hp : p ≠ task) :
    k'.prevOf p = k.prevOf p := by
  by_cases hpt : k.taskHead ≠ 0 ∧ p = k.taskTail
  · obtain ⟨u, hu, hu'⟩ := hm.tasks_tail hpt.1
    rw [hpt.2, prevOf_of_some hu, prevOf_of_some hu']
  · rw [Kernel.prevOf, hm.tasks_other p hp fun h0 he => hpt ⟨h0, he⟩]
    rfl

/-- **The task list is a doubly linked list of exactly the live tasks**,
in creation order. -/
structure TaskListWellFormed (k : Kernel) (live : List Word) : Prop where
  object : ∀ t ∈ live, ∃ x, k.tasks t = some x
  visits : Visits k.nextOf 0 k.taskHead live
  once : live.Nodup
  ends : k.taskTail = lastNode 0 live
  head_prev : live ≠ [] → k.prevOf k.taskHead = 0
  next_prev : ∀ t ∈ live, k.nextOf t ≠ 0 → k.prevOf (k.nextOf t) = t
  prev_next : ∀ t ∈ live, k.prevOf t ≠ 0 → k.nextOf (k.prevOf t) = t
  next_live : ∀ t ∈ live, k.nextOf t = 0 ∨ k.nextOf t ∈ live
  prev_live : ∀ t ∈ live, k.prevOf t = 0 ∨ k.prevOf t ∈ live

/-! ## Runs -/

/-- **A run of `task_new` and `task_free`** from `k₀`, each call
finishing: the kernel reached and the live tasks in creation order.
`Meets` restricts the calls of `task_free`. -/
inductive TaskRun (Meets : Kernel → Word → Prop) (k₀ : Kernel) : Kernel → List Word → Prop
  | start : TaskRun Meets k₀ k₀ []
  | new {k k' : Kernel} {live : List Word} {process task : Word} :
      TaskRun Meets k₀ k live → taskNew process k = .ok (task, k') →
      TaskRun Meets k₀ k' (live ++ [task])
  | free {k k' : Kernel} {live : List Word} {task : Word} :
      TaskRun Meets k₀ k live → task ∈ live → Meets k task → taskFree task k = .ok (⟨⟩, k') →
      TaskRun Meets k₀ k' (live.erase task)

/-! ## The invariant -/

/-- **The invariant of a run**: the tasks are linked, and every task and
its chunk are allocations of their own. -/
structure TaskInv (k : Kernel) (live : List Word) (view : Word → ChunkView) : Prop where
  ready : k.store.heap.Ready
  linked : Linked k.nextOf k.prevOf 0 live
  head : k.taskHead = firstNode 0 live
  tail : k.taskTail = lastNode 0 live
  object : ∀ p ∈ live, ∃ t, k.tasks p = some t ∧ t.pageDirectory = (view p).chunk
  owns : ∀ p ∈ live, k.store.heap.Owns p 1
  mapped : ∀ p ∈ live, (view p).At k.store
  chunk_apart : ∀ p ∈ live, ∀ q ∈ live, ¬ (view p).Has q
  apart : ∀ p ∈ live, ∀ q ∈ live, p ≠ q → (view p).Apart (view q)

namespace TaskInv

/-- The part of the invariant that is not about the links. -/
theorem owned (h : TaskInv k live view) : TaskOwned k live view :=
  ⟨h.ready, h.object, h.owns, h.mapped, h.chunk_apart, h.apart⟩

/-- The invariant gives the list. -/
theorem wellFormed (h : TaskInv k live view) : TaskListWellFormed k live where
  object p hp := (h.object p hp).imp fun _ ht => ht.1
  visits := by rw [h.head]; exact h.linked.visits
  once := h.linked.nodup
  ends := h.tail
  head_prev hne := by
    rw [h.head]
    refine h.linked.first _ ?_
    obtain ⟨a, l, rfl⟩ := List.exists_cons_of_ne_nil hne
    rfl
  next_prev p hp hne := (h.linked.next_cases hp).resolve_left hne |>.2
  prev_next p hp hne := (h.linked.prev_cases hp).resolve_left hne |>.2
  next_live p hp := (h.linked.next_cases hp).imp_right And.left
  prev_live p hp := (h.linked.prev_cases hp).imp_right And.left

/-- There is a first task exactly when there is a task. -/
theorem head_eq_zero_iff (h : TaskInv k live view) : k.taskHead = 0 ↔ live = [] := by
  constructor
  · intro h0
    by_contra hne
    exact h.linked.not_null _ (firstNode_mem hne) (h.head.symm.trans h0)
  · rintro rfl
    exact h.head

/-- The last task is a task. -/
theorem tail_mem (h : TaskInv k live view) (hne : k.taskHead ≠ 0) : k.taskTail ∈ live := by
  rw [h.tail]
  exact lastNode_mem fun hnil => hne (h.head_eq_zero_iff.2 hnil)

/-- The pointer `getLast?` names is `task_tail`. -/
theorem eq_tail (h : TaskInv k live view) (hp : p ∈ live.getLast?) : p = k.taskTail := by
  rw [h.tail, lastNode, Option.mem_def.1 hp]
  rfl

theorem not_getLast (h : TaskInv k live view) (hp : p ∈ live) (hne : p ∉ live.getLast?) :
    p ≠ k.taskTail := by
  rintro rfl
  refine hne ?_
  obtain ⟨l, a, rfl⟩ := (List.eq_nil_or_concat' live).resolve_left (List.ne_nil_of_mem hp)
  rw [h.tail, lastNode_concat]
  simp

/-- **`task_new` keeps the invariant.** -/
theorem new (h : TaskInv k live view) (hm : TaskMade k k' task process c t) :
    TaskInv k' (live ++ [task]) (Function.update view task c) := by
  have hnot : ∀ p ∈ live, p ≠ task := fun p hp => h.owned.ne_new hm hp
  have hnin : task ∉ live := fun hin => hnot task hin rfl
  have hlive : ∀ p ∈ live, k.taskHead ≠ 0 := fun p hp h0 =>
    List.ne_nil_of_mem hp (h.head_eq_zero_iff.1 h0)
  -- of the old tasks only the last one is written, and only its `next`
  have hother : ∀ p ∈ live, p ≠ k.taskTail → k'.tasks p = k.tasks p := fun p hp hne =>
    hm.tasks_other p (hnot p hp) fun _ => hne
  have hprev : ∀ p ∈ live, k'.prevOf p = k.prevOf p := fun p hp => hm.prevOf_eq (hnot p hp)
  have hlast : ∀ p ∈ live.getLast?, k'.nextOf p = task := by
    intro p hp
    have hpm := List.mem_of_mem_getLast? hp
    obtain ⟨u, hu, hu'⟩ := hm.tasks_tail (hlive p hpm)
    rw [h.eq_tail hp, nextOf_of_some hu']
  have hown := h.owned.new hm
  refine ⟨hown.ready, ?_, ?_, ?_, hown.object, hown.owns, hown.mapped, hown.chunk_apart,
    hown.apart⟩
  · refine h.linked.concat hnin (hm.owns.ne_zero hown.ready) (fun p hp hne => ?_) hprev hlast ?_ ?_
    · rw [Kernel.nextOf, hother p hp (h.not_getLast hp hne)]
      rfl
    · rw [nextOf_of_some hm.tasks_self, hm.next]
    · rw [prevOf_of_some hm.tasks_self, hm.prev]
      by_cases h0 : k.taskHead = 0
      · rw [if_pos h0, h.head_eq_zero_iff.1 h0, lastNode_nil]
      · rw [if_neg h0, h.tail]
  · rw [hm.taskHead]
    by_cases h0 : k.taskHead = 0
    · rw [if_pos h0, h.head_eq_zero_iff.1 h0]
      rfl
    · rw [if_neg h0, h.head, firstNode_append fun hnil => h0 (h.head_eq_zero_iff.2 hnil)]
  · rw [hm.taskTail, lastNode_concat]

/-! ### `task_free` -/

/-- No `prev` is written: the next task keeps the one it had. -/
theorem freeTask_prevOf {u : Task} (hq : q ≠ task) (hu : k.tasks q = some u) :
    (k.freeTask task t c).prevOf q = k.prevOf q := by
  rw [prevOf_of_some (freeTask_tasks hq hu), prevOf_of_some hu]
  split <;> rfl

/-- **Freeing the last task keeps the invariant.** -/
theorem free (h : TaskInv k (live ++ [p]) view) (ht : k.tasks p = some t) :
    TaskInv (k.freeTask p t (view p)) live view := by
  have hd := h.linked.nodup
  have hpm : p ∈ live ++ [p] := by simp
  have hmem : ∀ q ∈ live, q ∈ live ++ [p] := fun q hq => List.mem_append_left _ hq
  have hne : ∀ q ∈ live, q ≠ p := by
    rintro q hq rfl
    exact (List.nodup_append.1 hd).2.2 q hq q (by simp) rfl
  have hnext : t.next = 0 := by
    rw [← nextOf_of_some ht]
    exact h.linked.last p (by simp)
  have hprev : t.prev = lastNode 0 live := by
    rw [← prevOf_of_some ht]
    exact h.linked.prev_last
  have hown : TaskOwned (k.freeTask p t (view p)) live view :=
    h.owned.free hpm fun q hq => ⟨hmem q hq, hne q hq⟩
  refine ⟨hown.ready, ?_, ?_, ?_, hown.object, hown.owns, hown.mapped, hown.chunk_apart,
    hown.apart⟩
  · refine h.linked.dropLast (fun q hq hnot => ?_) (fun q hq => ?_) fun q hq => ?_
    · -- not the new last task, so not the one written
      obtain ⟨u, hu, -⟩ := h.object q (hmem q hq)
      have hqp : ¬ (t.prev ≠ 0 ∧ q = t.prev) := by
        rintro ⟨-, rfl⟩
        refine hnot ?_
        obtain ⟨l, a, rfl⟩ := (List.eq_nil_or_concat' live).resolve_left (List.ne_nil_of_mem hq)
        rw [hprev, lastNode_concat]
        simp
      rw [nextOf_of_some (freeTask_tasks (hne q hq) hu), nextOf_of_some hu, if_neg hqp]
    · obtain ⟨u, hu, -⟩ := h.object q (hmem q hq)
      exact freeTask_prevOf (hne q hq) hu
    · have hqm := List.mem_of_mem_getLast? hq
      obtain ⟨u, hu, -⟩ := h.object q (hmem q hqm)
      have hqp : q = t.prev := by
        rw [hprev, lastNode, Option.mem_def.1 hq]
        rfl
      have h0 : t.prev ≠ 0 := hqp ▸ h.linked.not_null q (hmem q hqm)
      rw [nextOf_of_some (freeTask_tasks (hne q hqm) hu), if_pos ⟨h0, hqp⟩, hnext]
  · change (if p = k.taskHead then t.next else k.taskHead) = _
    rw [h.head, hnext]
    by_cases hnil : live = []
    · subst hnil
      exact if_pos rfl
    · rw [firstNode_append hnil, if_neg (hne _ (firstNode_mem hnil)).symm]
  · change (if p = k.taskTail then t.prev else k.taskTail) = _
    rw [h.tail, lastNode_concat, if_pos rfl, hprev]

/-- **Freeing any other task breaks the list**: the task after it keeps
pointing back at the freed one. -/
theorem free_not_wellFormed (h : TaskInv k live view) (hp : p ∈ live) (hlast : p ≠ k.taskTail) :
    ¬ TaskListWellFormed (k.freeTask p t (view p)) (live.erase p) := by
  intro hw
  have hnext0 : k.nextOf p ≠ 0 := fun h0 => hlast (h.eq_tail (h.linked.mem_getLast hp h0))
  obtain ⟨hmem, hback⟩ := (h.linked.next_cases hp).resolve_left hnext0
  obtain ⟨u, hu, -⟩ := h.object _ hmem
  have hne : k.nextOf p ≠ p := h.linked.next_ne_self hp
  have hprev : (k.freeTask p t (view p)).prevOf (k.nextOf p) = p :=
    (freeTask_prevOf hne hu).trans hback
  have hin : k.nextOf p ∈ live.erase p := (List.mem_erase_of_ne hne).2 hmem
  rcases hw.prev_live _ hin with h0 | hin'
  · exact h.linked.not_null p hp (hprev.symm.trans h0)
  · rw [hprev] at hin'
    exact h.linked.nodup.not_mem_erase hin'

/-- Every run that frees only last tasks has the invariant. -/
theorem of_run {k₀ : Kernel} (r : k₀.store.heap.Ready) (h0 : k₀.taskHead = 0)
    (h0' : k₀.taskTail = 0) (h : TaskRun (fun k task => task = k.taskTail) k₀ k live) :
    ∃ view, TaskInv k live view := by
  induction h with
  | start =>
    exact ⟨fun _ => ⟨0, 0, fun _ => 0⟩, r, .nil, h0, h0', by simp, by simp, by simp, by simp,
      by simp⟩
  | new _ hnew ih =>
    obtain ⟨view, ih⟩ := ih
    obtain ⟨c, t, hmade⟩ := taskNew_spec ih.ready
      (fun hne => ⟨1, ih.owns _ (ih.tail_mem hne)⟩) hnew
    exact ⟨_, ih.new hmade⟩
  | @free k k' live task _ hmem hmeets hfree ih =>
    obtain ⟨view, ih⟩ := ih
    obtain ⟨t, ht, hc⟩ := ih.object _ hmem
    obtain ⟨-, rfl⟩ := taskFree_spec ih.ready ht (ih.mapped _ hmem) hc hfree
    obtain ⟨l, a, rfl⟩ := (List.eq_nil_or_concat' live).resolve_left (List.ne_nil_of_mem hmem)
    obtain rfl : task = a := by rw [hmeets, ih.tail, lastNode_concat]
    have hnot : task ∉ l := fun hin =>
      (List.nodup_append.1 ih.linked.nodup).2.2 task hin task (by simp) rfl
    rw [List.erase_append_right _ hnot, List.erase_cons_head, List.append_nil]
    exact ⟨view, ih.free ht⟩

end TaskInv

/-- **The task list, in the runs that free only last tasks.** -/
theorem taskRun_wellFormed {k₀ k : Kernel} {live : List Word} (r : k₀.store.heap.Ready)
    (h0 : k₀.taskHead = 0) (h0' : k₀.taskTail = 0)
    (h : TaskRun (fun k task => task = k.taskTail) k₀ k live) : TaskListWellFormed k live := by
  obtain ⟨view, hinv⟩ := TaskInv.of_run r h0 h0' h
  exact hinv.wellFormed

/-! ### Two runs -/

/-- A kernel with no tasks, one binary process and the heap as
`kernel_heap_init` leaves it. -/
def bootKernel : Kernel where
  store := ⟨kernelHeapInit, fun _ => 0⟩
  tasks _ := none
  processes p := if p = 1 then some { Process.zero with filetype := processFiletypeBinary } else none
  elfFiles _ := none
  taskHead := 0
  taskTail := 0
  currentTask := 0
  processTable _ := 0
  currentProcess := 0
  objects _ := none
  disk := ⟨none, none⟩
  fileDescriptors _ := 0

theorem entryReadable_bootKernel : EntryReadable bootKernel 1 :=
  ⟨by decide, _, rfl, fun h => absurd h (by decide)⟩

/-- Two tasks can be made at the start. -/
theorem exists_two_tasks (Meets : Kernel → Word → Prop) : ∃ k₂ p q view,
    TaskRun Meets bootKernel k₂ [p, q] ∧ TaskInv k₂ [p, q] view := by
  have r : bootKernel.store.heap.Ready := ready_kernelHeapInit
  have hinv₀ : TaskInv bootKernel [] fun _ => ⟨0, 0, fun _ => 0⟩ :=
    ⟨r, .nil, rfl, rfl, by simp, by simp, by simp, by simp, by simp⟩
  have hfree : 1027 + 1027 ≤ bootKernel.store.heap.freeBlocks := by
    rw [show bootKernel.store.heap = kernelHeapInit from rfl, freeBlocks_kernelHeapInit]
    decide
  obtain ⟨p, k₁, hnew₁, hfree₁⟩ := taskNew_of_budget budget_freeBlocks r hfree
    entryReadable_bootKernel (fun h => absurd rfl h) (fun h => absurd rfl h)
  obtain ⟨c₁, t₁, hmade₁⟩ := taskNew_spec r (fun h => absurd rfl h) hnew₁
  have hinv₁ := hinv₀.new hmade₁
  have htail : k₁.taskHead ≠ 0 → ∃ j, k₁.store.heap.Owns k₁.taskTail j := fun hne =>
    ⟨1, hinv₁.owns _ (hinv₁.tail_mem hne)⟩
  have hobject : k₁.taskHead ≠ 0 → ∃ u, k₁.tasks k₁.taskTail = some u := fun hne =>
    (hinv₁.object _ (hinv₁.tail_mem hne)).imp fun _ h => h.1
  have hread : EntryReadable k₁ 1 :=
    entryReadable_bootKernel.congr hmade₁.processes hmade₁.elfFiles
  obtain ⟨q, k₂, hnew₂, -⟩ := taskNew_of_budget budget_freeBlocks (n := 0) hinv₁.ready hfree₁ hread
    htail hobject
  obtain ⟨c₂, t₂, hmade₂⟩ := taskNew_spec hinv₁.ready htail hnew₂
  exact ⟨k₂, p, q, _, .new (.new .start hnew₁) hnew₂, hinv₁.new hmade₂⟩

/-- The list after two tasks are made and the second is freed. -/
theorem taskRun_wellFormed_second : ∃ k p,
    TaskRun (fun k task => task = k.taskTail) bootKernel k [p] ∧ TaskListWellFormed k [p] := by
  obtain ⟨k₂, p, q, view, hrun, hinv⟩ := exists_two_tasks fun k task => task = k.taskTail
  obtain ⟨t, ht, hc⟩ := hinv.object q (by simp)
  have hprev : t.prev ≠ 0 → ∃ u, k₂.tasks t.prev = some u := by
    intro hne
    rw [← prevOf_of_some ht] at hne ⊢
    exact (hinv.object _ ((hinv.linked.prev_cases (by simp)).resolve_left hne).1).imp fun _ h => h.1
  have hfree := taskFree_eq hinv.ready (hinv.linked.not_null q (by simp)) ht
    (hinv.mapped q (by simp)) hc hprev
  have hpq : p ≠ q := by
    have := hinv.linked.nodup
    simpa using this
  have htail : q = k₂.taskTail := hinv.tail.symm
  have hrun' := hrun.free (show q ∈ [p, q] by simp) htail hfree
  have herase : [p, q].erase q = [p] := by
    rw [List.erase_cons_tail (by simpa using hpq), List.erase_cons_head]
  rw [herase] at hrun'
  exact ⟨_, p, hrun', taskRun_wellFormed ready_kernelHeapInit rfl rfl hrun'⟩

/-- **The list is not always well formed**: two tasks are made and the
first is freed. -/
theorem taskRun_not_wellFormed :
    ¬ ∀ k live, TaskRun (fun _ _ => True) bootKernel k live → TaskListWellFormed k live := by
  intro hall
  obtain ⟨k₂, p, q, view, hrun, hinv⟩ := exists_two_tasks fun _ _ => True
  obtain ⟨t, ht, hc⟩ := hinv.object p (by simp)
  have hprev : t.prev ≠ 0 → ∃ u, k₂.tasks t.prev = some u := by
    intro hne
    refine absurd ?_ hne
    rw [← prevOf_of_some ht]
    exact hinv.linked.first p (by simp)
  have hfree := taskFree_eq hinv.ready (hinv.linked.not_null p (by simp)) ht
    (hinv.mapped p (by simp)) hc hprev
  have hpq : p ≠ k₂.taskTail := by
    have := hinv.linked.nodup
    rw [hinv.tail]
    simpa [lastNode] using this
  exact hinv.free_not_wellFormed (by simp) hpq (hall _ _ (hrun.free (by simp) trivial hfree))

end OwnKernel
