import OwnKernel.Store.Room
import OwnKernel.Task.Lifecycle

/-!
# Tasks and their blocks

`TaskOwned` says where the live tasks are: each is one allocation, its
page tables are others, and no two tasks share one. `task_new` and
`task_free` keep it whichever task is freed; how the tasks are linked
does not matter.
-/

namespace OwnKernel

variable {k k' : Kernel} {live : List Word} {view : Word → ChunkView} {p q task process : Word}
  {t : Task} {c : ChunkView}

/-! ## What `task_free` writes -/

/-- What `task_free` does to another live task. -/
theorem freeTask_tasks {u : Task} (hq : q ≠ task) (hu : k.tasks q = some u) :
    (k.freeTask task t c).tasks q =
      some (if t.prev ≠ 0 ∧ q = t.prev then { u with next := t.next } else u) := by
  have hout : (k.freeTask task t c).tasks q = (k.unlink task t).tasks q := Function.update_of_ne hq ..
  rw [hout]
  by_cases hp : t.prev = 0
  · simp only [Kernel.unlink, if_pos hp]
    rw [hu, if_neg fun h => h.1 hp]
  · simp only [Kernel.unlink, if_neg hp]
    by_cases hqp : q = t.prev
    · rw [hqp, Function.update_self, ← hqp, hu, if_pos ⟨hqp ▸ hp, rfl⟩]
      rfl
    · rw [Function.update_of_ne hqp, hu, if_neg fun h => hqp h.2]

/-- Where there was no task there is none. -/
theorem freeTask_tasks_none (hu : k.tasks q = none) : (k.freeTask task t c).tasks q = none := by
  by_cases hq : q = task
  · rw [hq]
    exact Function.update_self ..
  · have hout : (k.freeTask task t c).tasks q = (k.unlink task t).tasks q :=
      Function.update_of_ne hq ..
    rw [hout]
    by_cases hp : t.prev = 0
    · simp only [Kernel.unlink, if_pos hp]
      exact hu
    · simp only [Kernel.unlink, if_neg hp]
      by_cases hqp : q = t.prev
      · rw [hqp, Function.update_self, ← hqp, hu]
        rfl
      · rw [Function.update_of_ne hqp, hu]

/-- The heap stays where it is. -/
theorem samePlace_freeTask : k.store.heap.SamePlace (k.freeTask task t c).store.heap := by
  rw [freeTask_store]
  exact Heap.samePlace_freeAll ..

/-- No free block is taken. -/
theorem freeBlocks_le_freeTask :
    k.store.heap.freeBlocks ≤ (k.freeTask task t c).store.heap.freeBlocks := by
  rw [freeTask_store]
  exact Heap.freeBlocks_le_freeAll ..

/-- The programs stay readable. -/
theorem entryReadable_freeTask (h : EntryReadable k process) :
    EntryReadable (k.freeTask task t c) process := h.congr rfl rfl

/-! ## The invariant -/

/-- **Every live task and its chunk are allocations of their own.** -/
structure TaskOwned (k : Kernel) (live : List Word) (view : Word → ChunkView) : Prop where
  ready : k.store.heap.Ready
  object : ∀ p ∈ live, ∃ t, k.tasks p = some t ∧ t.pageDirectory = (view p).chunk
  owns : ∀ p ∈ live, k.store.heap.Owns p 1
  mapped : ∀ p ∈ live, (view p).At k.store
  chunk_apart : ∀ p ∈ live, ∀ q ∈ live, ¬ (view p).Has q
  apart : ∀ p ∈ live, ∀ q ∈ live, p ≠ q → (view p).Apart (view q)

namespace TaskOwned

/-- No task at all. -/
theorem nil (r : k.store.heap.Ready) : TaskOwned k [] view :=
  ⟨r, by simp, by simp, by simp, by simp, by simp⟩

/-- Only the store and the tasks count. -/
theorem congr (h : TaskOwned k live view) (hs : k'.store = k.store) (ht : k'.tasks = k.tasks) :
    TaskOwned k' live view where
  ready := hs ▸ h.ready
  object p hp := ht ▸ h.object p hp
  owns p hp := hs ▸ h.owns p hp
  mapped p hp := hs ▸ h.mapped p hp
  chunk_apart := h.chunk_apart
  apart := h.apart

/-- A new task is none of the live ones. -/
theorem ne_new (h : TaskOwned k live view) (hm : TaskMade k k' task process c t) (hp : p ∈ live) :
    p ≠ task := by
  rintro rfl
  exact hm.fresh 1 (h.owns p hp)

/-- **`task_new` keeps the invariant.** -/
theorem new (h : TaskOwned k live view) (hm : TaskMade k k' task process c t) :
    TaskOwned k' (live ++ [task]) (Function.update view task c) := by
  have hchunk : ∀ p ∈ live, ¬ c.Has p := fun p hp hc => hm.chunk_fresh p hc 1 (h.owns p hp)
  have hhas : ∀ p ∈ live, ¬ (view p).Has task := fun p hp hc =>
    hm.fresh 1 ((h.mapped p hp).owns task hc)
  have hap : ∀ p ∈ live, (view p).Apart c := fun p hp x hx =>
    hm.chunk_fresh x hx.2 1 ((h.mapped p hp).owns x hx.1)
  have hview : ∀ p ∈ live, Function.update view task c p = view p := fun p hp =>
    Function.update_of_ne (h.ne_new hm hp) ..
  have hself : Function.update view task c task = c := Function.update_self ..
  refine ⟨hm.store.ready h.ready, ?_, ?_, ?_, ?_, ?_⟩
  · intro p hp
    rcases List.mem_append.1 hp with hp | hp
    · rw [hview p hp]
      obtain ⟨u, hu, hc⟩ := h.object p hp
      by_cases hpt : k.taskHead ≠ 0 ∧ p = k.taskTail
      · obtain ⟨v, hv, hv'⟩ := hm.tasks_tail hpt.1
        rw [hpt.2] at hu ⊢
        rw [hu] at hv
        cases hv
        exact ⟨_, hv', hpt.2 ▸ hc⟩
      · refine ⟨u, ?_, hc⟩
        rw [hm.tasks_other p (h.ne_new hm hp) fun h0 he => hpt ⟨h0, he⟩]
        exact hu
    · obtain rfl := List.mem_singleton.1 hp
      exact ⟨t, hm.tasks_self, by rw [hself]; exact hm.pageDirectory⟩
  · intro p hp
    rcases List.mem_append.1 hp with hp | hp
    · exact hm.store.owns p 1 (h.owns p hp)
    · exact List.mem_singleton.1 hp ▸ hm.owns
  · intro p hp
    rcases List.mem_append.1 hp with hp | hp
    · rw [hview p hp]
      exact ((h.mapped p hp).of_extends h.ready hm.store).1
    · rw [List.mem_singleton.1 hp, hself]
      exact hm.mapped
  · intro p hp q hq
    rcases List.mem_append.1 hp with hp | hp <;> rcases List.mem_append.1 hq with hq | hq
    · rw [hview p hp]
      exact h.chunk_apart p hp q hq
    · rw [hview p hp, List.mem_singleton.1 hq]
      exact hhas p hp
    · rw [List.mem_singleton.1 hp, hself]
      exact hchunk q hq
    · rw [List.mem_singleton.1 hp, List.mem_singleton.1 hq, hself]
      exact hm.apart
  · intro p hp q hq hne
    rcases List.mem_append.1 hp with hp | hp <;> rcases List.mem_append.1 hq with hq | hq
    · rw [hview p hp, hview q hq]
      exact h.apart p hp q hq hne
    · rw [hview p hp, List.mem_singleton.1 hq, hself]
      exact hap p hp
    · rw [List.mem_singleton.1 hp, hself, hview q hq]
      exact (hap q hq).symm
    · exact absurd ((List.mem_singleton.1 hp).trans (List.mem_singleton.1 hq).symm) hne

/-- The blocks of the tasks left are what they were. -/
theorem owns_freeTask {j : ℕ} (h : TaskOwned k live view) (hp : p ∈ live)
    (oq : k.store.heap.Owns q j) (hqp : q ≠ p) (hq : ¬ (view p).Has q) :
    (k.freeTask p t (view p)).store.heap.Owns q j := by
  have hat := h.mapped p hp
  rw [freeTask_store, Heap.freeAll_append]
  refine Heap.owns_heapFree ((Heap.samePlace_freeAll _ _).ready h.ready) (k := 1) ?_ ?_ hqp
  · exact hat.owns_freeAll h.ready (h.owns p hp) (h.chunk_apart p hp p hp)
  · exact hat.owns_freeAll h.ready oq hq

/-- **`task_free` keeps the invariant**, for the tasks left. -/
theorem free {rest : List Word} (h : TaskOwned k live view) (hp : p ∈ live)
    (hrest : ∀ q ∈ rest, q ∈ live ∧ q ≠ p) : TaskOwned (k.freeTask p t (view p)) rest view := by
  have hown : ∀ q ∈ rest, ∀ x j, k.store.heap.Owns x j → (x = q ∨ (view q).Has x) →
      (k.freeTask p t (view p)).store.heap.Owns x j := by
    rintro q hq x j o (rfl | hx)
    · exact h.owns_freeTask hp o (hrest x hq).2 (h.chunk_apart p hp x (hrest x hq).1)
    · refine h.owns_freeTask hp o ?_ fun hx' =>
        h.apart q (hrest q hq).1 p hp (hrest q hq).2 x ⟨hx, hx'⟩
      rintro rfl
      exact h.chunk_apart q (hrest q hq).1 x hp hx
  refine ⟨(Heap.samePlace_freeAll _ _).ready h.ready, fun q hq => ?_, fun q hq => ?_,
    fun q hq => ?_, fun q hq q' hq' => ?_, fun q hq q' hq' => ?_⟩
  · obtain ⟨u, hu, hc⟩ := h.object q (hrest q hq).1
    refine ⟨_, freeTask_tasks (hrest q hq).2 hu, ?_⟩
    split <;> exact hc
  · exact hown q hq q 1 (h.owns q (hrest q hq).1) (Or.inl rfl)
  · have hat := h.mapped q (hrest q hq).1
    exact hat.congr h.ready (fun x hx => hown q hq x 1 (hat.owns x hx) (Or.inr hx))
      (fun _ _ => rfl) fun _ _ => rfl
  · exact h.chunk_apart q (hrest q hq).1 q' (hrest q' hq').1
  · exact h.apart q (hrest q hq).1 q' (hrest q' hq').1

end TaskOwned

end OwnKernel
