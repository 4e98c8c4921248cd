import OwnKernel.Process.Allocations
import OwnKernel.Store.Past

/-!
# Requests that come to nothing

A `process_malloc` that answers null has taken a block, perhaps, and
given it back: the heap's table, the records and the mappings are what
they were (`processMalloc_null_unchanged`). That holds of requests past
the table's end too: what they mark in the table is a chain all the same,
which `heap_free` follows.
-/

namespace OwnKernel

variable {k k' : Kernel} {c : ChunkView} {process ptr size : Word} {p : Process} {i page : ℕ}

/-! ## `process_malloc` -/

/-- **What a caller that gets null finds**: the table, the records and
the page entries are what they were. -/
structure Untouched (k k' : Kernel) (process : Word) (c : ChunkView) : Prop where
  table : ∀ i, i < k.store.heap.total → k'.store.heap.entries i = k.store.heap.entries i
  records : k'.processes process = k.processes process
  entries : ∀ page, page < 2 ^ 20 → c.entry k'.store.mem page = c.entry k.store.mem page

/-- **What `process_malloc` finds in the heap** is what `heap_malloc`
answers, in the table or past its end. -/
theorem heap_of_kernelZallocPast {s s' : Store} {q : Word} (r : s.heap.Ready)
    (hplace : kernelHeapInit.SamePlace s.heap) (hz : kernelZallocPast size s = .ok (q, s')) :
    q = (heapMalloc s.heap size).1 ∧ s'.heap = s.heap.write (heapMalloc s.heap size).2 ∧
      s.Extends s' := by
  rcases kernelZallocPast_cases r hplace hz with hz | hgiven
  · obtain ⟨hq, -, hheap, -⟩ := kernelZalloc_run hz
    exact ⟨hq, hheap, kernelZalloc_extends r hz⟩
  · exact ⟨hgiven.ptr, hgiven.heap, hgiven.extended⟩

/-- A process that is given null is left as it was. -/
theorem untouched_of_null (hk : KernelHeap k.store.heap) (hp : k.processes process = some p)
    (hd : HasDirectory k p.task c) (hrun : processMallocPast process size k = .ok (0, k')) :
    Untouched k k' process c := by
  obtain ⟨q, s, hz, hcases⟩ := processMalloc_outcome hd.exists_task hp hrun
  obtain ⟨hq, hheap, hext⟩ := heap_of_kernelZallocPast hk.ready hk.samePlace hz
  have hundo := fun i => hk.clean.entries_free_malloc hk.ready size (i := i)
  obtain ⟨-, hentries⟩ := hd.mapped.of_extends hd.ready hext
  rcases hcases with ⟨-, h0, rfl⟩ | ⟨-, -, rfl⟩ | ⟨h0, hne, -⟩
  · -- the heap has no run
    refine ⟨fun i hi => ?_, rfl, hentries⟩
    have hi' := hundo i hi
    rw [← hq, h0, heapFree_null ((k.store.heap.samePlace_write _).ready hk.ready)] at hi'
    rw [← hi']
    exact congrFun (congrArg Heap.entries hheap) i
  · -- on an error the block is given back
    refine ⟨fun i hi => ?_, rfl, hentries⟩
    change (s.heap.write (heapFree s.heap q)).entries i = _
    rw [hheap, hq]
    exact hundo i hi
  · exact absurd h0.symm hne

/-- **A request that is answered null changes nothing**, whichever way it
fails, in the heap's table or past its end; and the give-back this rests
on undoes `heap_malloc` for every size. -/
theorem processMalloc_null_unchanged (hk : KernelHeap k.store.heap)
    (hp : k.processes process = some p) (hd : HasDirectory k p.task c) (size : Word) :
    (∀ k', processMallocPast process size k = .ok (0, k') → Untouched k k' process c) ∧
      ∀ i, i < k.store.heap.total →
        ((k.store.heap.write (heapMalloc k.store.heap size).2).write
          (heapFree (k.store.heap.write (heapMalloc k.store.heap size).2)
            (heapMalloc k.store.heap size).1)).entries i = k.store.heap.entries i :=
  ⟨fun _ hrun => untouched_of_null hk hp hd hrun,
    fun _ hi => hk.clean.entries_free_malloc hk.ready size hi⟩

/-- Where the table can answer, the two are the same. -/
theorem below_onStore {α : Type} {x y : StoreM α} (h : Fallible.Below x y) :
    Fallible.Below (onStore x) (onStore y) := by
  rintro k ⟨b, k'⟩ hrun
  obtain ⟨s, hs, rfl⟩ := run_onStore.1 hrun
  exact run_onStore.2 ⟨s, h _ _ hs, rfl⟩

theorem processMalloc_below {zalloc : Word → StoreM Word}
    (hbelow : ∀ size, Fallible.Below (kernelZalloc size) (zalloc size)) (process size : Word) :
    Fallible.Below (processMalloc process size) (processMallocOn zalloc process size) :=
  .bind (below_onStore (hbelow size)) fun _ => .refl _

/-- A kernel with one process, on a store that has its chunk. -/
theorem exists_process_of_chunk {s : Store} (r : s.heap.Ready) (hc : c.At s) :
    ∃ (k : Kernel) (p : Process), k.store = s ∧ k.processes 1 = some p ∧ HasDirectory k p.task c ∧
      ∀ i, p.allocations i = ⟨0, 0⟩ := by
  let k : Kernel := ({ bootKernel with store := s }).setTask 1
    (some { Task.zero with pageDirectory := c.chunk })
  have htask : k.tasks 1 = some { Task.zero with pageDirectory := c.chunk } := setTask_tasks_self
  have hdir : HasDirectory (k.setProcess 1 (some { Process.zero with task := 1 })) 1 c :=
    ⟨r, by decide, ⟨_, htask, rfl⟩, hc⟩
  exact ⟨_, _, rfl, setProcess_processes_self, hdir, fun _ => rfl⟩

/-- A kernel with one process, whose directory is the chunk `c`. -/
theorem exists_kernel_process : ∃ (k : Kernel) (p : Process) (c : ChunkView),
    KernelHeap k.store.heap ∧ k.processes 1 = some p ∧ HasDirectory k p.task c ∧
      (∀ i, p.allocations i = ⟨0, 0⟩) ∧ k.store.heap.freeBlocks + 1026 = 25600 ∧
        k.store.heap.Room 1026 ∧ c.Present k.store.mem ∧
          ∀ page, page < 2 ^ 20 → c.entry k.store.mem page = identityEntry 5 page := by
  obtain ⟨q, s, hnew, n, hroom, hn⟩ := pagingNew4gb_of_budget budget_room 5 (n := 24574)
    (s := ⟨kernelHeapInit, fun _ => 0⟩) ready_kernelHeapInit ⟨0, room_kernelHeapInit, by decide⟩
  obtain ⟨c, -, hat, hpresent, hentry⟩ := pagingNew4gb_present ready_kernelHeapInit rfl hnew
  have hk : KernelHeap s.heap := KernelHeap.pagingNew4gb .init hnew
  have hcount := pagingNew4gb_freeBlocks ready_kernelHeapInit hnew
  obtain ⟨k, p, rfl, hp, hd, hnone⟩ := exists_process_of_chunk hk.ready hat
  have htotal : k.store.heap.total = 25600 := hk.samePlace.total
  exact ⟨k, p, c, hk, hp, hd, hnone, hcount.trans freeBlocks_kernelHeapInit,
    fun i hi => hroom i (by omega), hpresent, hentry⟩

/-- **All 1024 records are used**: a byte is asked for, taken, and given
back. -/
theorem processMalloc_null_unchanged_full : ∃ (k k' : Kernel) (p : Process) (c : ChunkView),
    k.processes 1 = some p ∧ (∀ i < osMaxProgramAllocations, (p.allocations i).ptr ≠ 0) ∧
      0 < k.store.heap.freeBlocks ∧ processMallocPast 1 1 k = .ok (0, k') ∧ Untouched k k' 1 c := by
  obtain ⟨k, p, c, hk, hp, hd, -, hcount, -⟩ := exists_kernel_process
  obtain ⟨p', hp'⟩ : ∃ p' : Process, p' = { p with allocations := fun _ => ⟨heapAddress, 1⟩ } :=
    ⟨_, rfl⟩
  have hptr : ∀ i, (p'.allocations i).ptr = heapAddress := fun i => by rw [hp']
  have hfull : p'.findFreeAllocationIndex = none := by
    unfold Process.findFreeAllocationIndex Process.findAllocation
    rw [List.find?_eq_none]
    intro i _
    rw [hptr]
    decide
  obtain ⟨k₁, hk₁⟩ : ∃ k₁, k₁ = k.setProcess 1 (some p') := ⟨_, rfl⟩
  have hp₁ : k₁.processes 1 = some p' := by
    rw [hk₁]
    exact setProcess_processes_self
  have hstore : k₁.store = k.store := by rw [hk₁]; rfl
  have hd₁ : HasDirectory k₁ p'.task c := by
    rw [hk₁, hp']
    exact ⟨hd.ready, hd.ne_zero, hd.object, hd.mapped⟩
  obtain ⟨q, s, hz, hq⟩ : ∃ q s, kernelZalloc 1 k₁.store = .ok (q, s) ∧ q ≠ 0 := by
    rw [hstore]
    rcases kernelZalloc_single 1 hd.ready (by decide) (by decide) with
      ⟨hnone, -⟩ | ⟨q, s, hz, hq, -⟩
    · omega
    · exact ⟨q, s, hz, hq⟩
  -- the block is found, and no record for it
  have hrun : processMalloc 1 1 k₁ =
      .ok (0, { k₁ with store := { s with heap := s.heap.write (heapFree s.heap q) } }) := by
    refine Fallible.run_bind.2 ⟨q, _, run_onStore.2 ⟨s, hz, rfl⟩, ?_⟩
    rw [if_neg hq]
    have hread : readProcess 1 { k₁ with store := s } = .ok (p', { k₁ with store := s }) :=
      run_readProcess.2 ⟨by decide, hp₁, rfl⟩
    rw [Fallible.bind_ok hread]
    simp only [hfull]
    exact processMallocErr_eq q _
  have hk' : KernelHeap k₁.store.heap := by rwa [hstore]
  have hrun' := processMalloc_below kernelZalloc_below _ _ _ _ hrun
  refine ⟨k₁, _, p', c, hp₁, fun i _ => ?_, by rw [hstore]; omega, hrun',
    (processMalloc_null_unchanged hk' hp₁ hd₁ 1).1 _ hrun'⟩
  rw [hptr]
  decide

end OwnKernel
