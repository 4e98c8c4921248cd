import OwnKernel.Process.Requests

/-!
# What a process frees

`process_free` looks the pointer up among the records. One that is not
recorded changes nothing; null is recorded in every unused slot, and
freeing it maps no pages, clears slots that are clear, and frees a block
far past the table (`RecordsReady.free_of_not_recorded`). So
`process_terminate_allocations`, which frees the pointer of every slot,
frees the recorded ones, each once, and nothing else
(`processTerminateAllocations_frees`).
-/

namespace OwnKernel

variable {k k' : Kernel} {c : ChunkView} {process ptr size q : Word} {p : Process} {i j : ℕ}

/-- The pointer is recorded. -/
def Process.Recorded (p : Process) (ptr : Word) : Prop :=
  ptr ≠ 0 ∧ ∃ i < osMaxProgramAllocations, (p.allocations i).ptr = ptr

/-- A recorded pointer is found. -/
theorem Process.Recorded.exists_find (h : p.Recorded ptr) : ∃ i, p.findAllocation ptr = some i := by
  obtain ⟨-, i, hi, hpi⟩ := h
  cases hfind : p.findAllocation ptr with
  | none =>
    unfold Process.findAllocation at hfind
    have hnone := List.find?_eq_none.1 hfind i (List.mem_range.2 hi)
    exact absurd hpi (by simpa using hnone)
  | some j => exact ⟨j, rfl⟩

/-- **A process whose records `process_malloc` and `process_free` have
kept**: an unused slot is clear, and a recorded range is one that
`paging_map_to` carries out. -/
structure RecordsReady (k : Kernel) (process : Word) (p : Process) : Prop where
  ne_zero : process ≠ 0
  object : k.processes process = some p
  ready : k.store.heap.Ready
  task : p.task ≠ 0 ∧ ∃ t, k.tasks p.task = some t ∧ t.pageDirectory ≠ 0
  empty : ∀ i < osMaxProgramAllocations, (p.allocations i).ptr = 0 → p.allocations i = ⟨0, 0⟩
  ranges : ∀ i < osMaxProgramAllocations, (p.allocations i).ptr ≠ 0 →
    ValidRange (p.allocations i).ptr (p.allocations i).ptr
      (pagingAlignAddress ((p.allocations i).ptr + (p.allocations i).size))

/-- The kernel after `process_free` of a recorded pointer: `m` is what
the mapping left of memory. -/
def Kernel.release (k : Kernel) (process : Word) (p : Process) (ptr : Word) (m : Mem) : Kernel :=
  { k.setProcess process (some (p.allocationUnmark ptr)) with
    store := ⟨k.store.heap.write (heapFree k.store.heap ptr), m⟩ }

namespace RecordsReady

/-- The range of a slot is valid, used or not. -/
theorem validRange (h : RecordsReady k process p) (hi : i < osMaxProgramAllocations) :
    ValidRange (p.allocations i).ptr (p.allocations i).ptr
      (pagingAlignAddress ((p.allocations i).ptr + (p.allocations i).size)) := by
  by_cases h0 : (p.allocations i).ptr = 0
  · rw [h.empty i hi h0]
    decide
  · exact h.ranges i hi h0

/-- **`process_free` of a pointer some slot has.** -/
theorem free_of_find (h : RecordsReady k process p) (hfind : p.findAllocation ptr = some i) :
    ∃ m t, k.tasks p.task = some t ∧
      m = (pagingMapTo k.store.mem t.pageDirectory (p.allocations i).ptr (p.allocations i).ptr
        (pagingAlignAddress ((p.allocations i).ptr + (p.allocations i).size)) 0).2 ∧
      processFree process ptr k = .ok (⟨⟩, k.release process p ptr m) := by
  obtain ⟨h0, t, ht, hd⟩ := h.task
  obtain ⟨hi, -⟩ := AllocInv.of_findAllocation hfind
  have hmap := taskMapTo_run h0 ht hd (p.allocations i).ptr (p.allocations i).ptr
    (pagingAlignAddress ((p.allocations i).ptr + (p.allocations i).size)) 0
  rw [pagingMapTo_of_valid _ _ (h.validRange hi)] at hmap
  refine ⟨_, t, ht, rfl, ?_⟩
  unfold processFree
  refine Fallible.run_bind.2 ⟨p, k, run_readProcess.2 ⟨h.ne_zero, h.object, rfl⟩, ?_⟩
  simp only [hfind]
  refine Fallible.run_bind.2 ⟨_, _, hmap, ?_⟩
  rw [if_neg (lt_irrefl 0)]
  refine Fallible.run_seq.2 ⟨_, run_modifyProcess.2 ⟨h.ne_zero, p, h.object, rfl⟩, ?_⟩
  rfl

/-- Mapping no pages changes nothing. -/
theorem pagingMapTo_null {m : Mem} (chunk : Word) :
    (pagingMapTo m chunk 0 0 (pagingAlignAddress (0 + 0)) 0).2 = m := by
  have halign : pagingAlignAddress (0 + 0) = 0 := by decide
  rw [halign]
  rfl

/-- **A pointer that is not recorded, null included, changes nothing.** -/
theorem free_of_not_recorded (h : RecordsReady k process p) (hptr : ¬ p.Recorded ptr) :
    processFree process ptr k = .ok (⟨⟩, k) := by
  cases hfind : p.findAllocation ptr with
  | none =>
    unfold processFree
    refine Fallible.run_bind.2 ⟨p, k, run_readProcess.2 ⟨h.ne_zero, h.object, rfl⟩, ?_⟩
    simp only [hfind]
    rfl
  | some i =>
    obtain ⟨hi, hpi⟩ := AllocInv.of_findAllocation hfind
    obtain rfl : ptr = 0 := by
      by_contra h0
      exact hptr ⟨h0, i, hi, hpi⟩
    obtain ⟨m, t, -, hm, hrun⟩ := h.free_of_find hfind
    rw [h.empty i hi hpi, pagingMapTo_null] at hm
    rw [hrun, hm]
    unfold Kernel.release Kernel.setProcess
    rw [heapFree_null h.ready, p.allocationUnmark_null h.empty, ← h.object,
      Function.update_eq_self]
    rfl

/-- Releasing a pointer keeps the records in order. -/
theorem release (h : RecordsReady k process p) (ptr : Word) (m : Mem) :
    RecordsReady (k.release process p ptr m) process (p.allocationUnmark ptr) where
  ne_zero := h.ne_zero
  object := setProcess_processes_self
  ready := (k.store.heap.samePlace_write _).ready h.ready
  task := h.task
  empty i hi h0 := by
    unfold Process.allocationUnmark at h0 ⊢
    simp only at h0 ⊢
    by_cases hq : i < osMaxProgramAllocations ∧ (p.allocations i).ptr = ptr
    · rw [if_pos hq]
    · rw [if_neg hq] at h0 ⊢
      exact h.empty i hi h0
  ranges i hi h0 := by
    have heq := AllocInv.unmark_of_ne_zero h0
    rw [heq] at h0 ⊢
    exact h.ranges i hi h0

/-- **Every `process_free` keeps them in order.** -/
theorem free (h : RecordsReady k process p) (hrun : processFree process ptr k = .ok (⟨⟩, k')) :
    ∃ p', RecordsReady k' process p' := by
  by_cases hptr : p.Recorded ptr
  · obtain ⟨i, hfind⟩ := hptr.exists_find
    obtain ⟨m, t, -, -, hrun'⟩ := h.free_of_find hfind
    rw [hrun'] at hrun
    cases hrun
    exact ⟨_, h.release ptr m⟩
  · rw [h.free_of_not_recorded hptr] at hrun
    cases hrun
    exact ⟨p, h⟩

/-- A process without records. -/
theorem start (h0 : process ≠ 0) (hp : k.processes process = some p) (r : k.store.heap.Ready)
    (ht : p.task ≠ 0 ∧ ∃ t, k.tasks p.task = some t ∧ t.pageDirectory ≠ 0)
    (hnone : ∀ i < osMaxProgramAllocations, p.allocations i = ⟨0, 0⟩) :
    RecordsReady k process p where
  ne_zero := h0
  object := hp
  ready := r
  task := ht
  empty i hi _ := hnone i hi
  ranges i hi hne := absurd (by rw [hnone i hi]) hne

/-- The store may change under the records. -/
theorem of_store {s : Store} (h : RecordsReady k process p) (hplace : k.store.heap.SamePlace s.heap) :
    RecordsReady { k with store := s } process p :=
  ⟨h.ne_zero, h.object, hplace.ready h.ready, h.task, h.empty, h.ranges⟩

/-- **Every `process_malloc` keeps the records in order**, whatever size
it is asked for. -/
theorem malloc (h : RecordsReady k process p)
    (hrun : processMalloc process size k = .ok (ptr, k')) : ∃ p', RecordsReady k' process p' := by
  obtain ⟨q, s, hz, hcases⟩ := processMalloc_outcome h.task h.object hrun
  have h₁ := h.of_store (kernelZalloc_extends h.ready hz).place
  rcases hcases with ⟨-, -, rfl⟩ | ⟨-, -, rfl⟩ | ⟨-, h0, hvalid, index, k₁, hfind, hmap, rfl⟩
  · exact ⟨p, h₁⟩
  · exact ⟨p, h₁.of_store (s.heap.samePlace_write _)⟩
  · obtain ⟨ht0, t, ht, hd⟩ := h₁.task
    rw [taskMapTo_run ht0 ht hd, pagingMapTo_of_valid _ _ hvalid] at hmap
    obtain ⟨-, rfl⟩ := Prod.mk.inj (Except.ok.inj hmap)
    refine ⟨_, h.ne_zero, setProcess_processes_self, h₁.ready, h.task, fun j hj => ?_,
      fun j hj => ?_⟩
    · simp only
      by_cases hji : j = index
      · rw [hji, Function.update_self]
        exact fun hz => absurd hz h0
      · rw [Function.update_of_ne hji]
        exact h.empty j hj
    · simp only
      by_cases hji : j = index
      · rw [hji, Function.update_self]
        exact fun _ => hvalid
      · rw [Function.update_of_ne hji]
        exact h.ranges j hj

/-- **Every run of `process_malloc` and `process_free`** of a process that
starts without records keeps them in order. -/
theorem of_run {k₀ : Kernel} {Meets : Word → Prop} (h : RecordsReady k₀ process p)
    (hrun : MallocRun Meets process k₀ k) : ∃ p', RecordsReady k process p' := by
  induction hrun with
  | start => exact ⟨p, h⟩
  | malloc _ _ hcall ih =>
    obtain ⟨p', ih⟩ := ih
    exact ih.malloc hcall
  | free _ hcall ih =>
    obtain ⟨p', ih⟩ := ih
    exact ih.free hcall

end RecordsReady

/-! ## The end of a process -/

/-- **What the loop has done** when it comes to slot `i`: the pointers
`ps`, those of the slots before it, have been freed and their records
cleared. -/
structure Released (k₀ : Kernel) (process : Word) (p₀ : Process) (i : ℕ) (k : Kernel) (p : Process)
    (ps : List Word) : Prop where
  records : RecordsReady k process p
  nodup : ps.Nodup
  mem : ∀ q, q ∈ ps ↔ q ≠ 0 ∧ ∃ j < i, (p₀.allocations j).ptr = q
  slots : ∀ j < osMaxProgramAllocations,
    p.allocations j = if (p₀.allocations j).ptr ∈ ps then ⟨0, 0⟩ else p₀.allocations j
  heap : k.store.heap = k₀.store.heap.freeAll ps

namespace Released

variable {k₀ : Kernel} {p₀ : Process} {ps : List Word}

/-- Before the first slot nothing has been freed. -/
theorem start (h : RecordsReady k process p) : Released k process p 0 k p [] where
  records := h
  nodup := List.nodup_nil
  mem q := by simp
  slots _ _ := (if_neg List.not_mem_nil).symm
  heap := rfl

/-- **One slot**: `process_free` of its pointer, as it is by then. -/
theorem round (h : Released k₀ process p₀ i k p ps) (hi : i < osMaxProgramAllocations) :
    ∃ k' p' ps', processFree process (p.allocations i).ptr k = .ok (⟨⟩, k') ∧
      Released k₀ process p₀ (i + 1) k' p' ps' := by
  have hslot := h.slots i hi
  by_cases h0 : (p.allocations i).ptr = 0
  · -- unused from the start, or cleared since
    refine ⟨k, p, ps, h.records.free_of_not_recorded fun hr => hr.1 h0,
      h.records, h.nodup, fun q => ?_, h.slots, h.heap⟩
    rw [h.mem]
    refine and_congr_right fun hq => ⟨fun ⟨j, hj, hjq⟩ => ⟨j, by omega, hjq⟩, ?_⟩
    rintro ⟨j, hj, rfl⟩
    rcases Nat.lt_succ_iff_lt_or_eq.1 hj with hlt | rfl
    · exact ⟨j, hlt, rfl⟩
    · by_cases hin : (p₀.allocations j).ptr ∈ ps
      · exact ((h.mem _).1 hin).2
      · rw [if_neg hin] at hslot
        exact absurd (hslot ▸ h0) hq
  · have hnot : (p₀.allocations i).ptr ∉ ps := by
      intro hin
      rw [if_pos hin] at hslot
      exact h0 (by rw [hslot])
    rw [if_neg hnot] at hslot
    rw [hslot] at h0 ⊢
    have hrec : p.Recorded (p₀.allocations i).ptr := ⟨h0, i, hi, by rw [hslot]⟩
    obtain ⟨i', hfind⟩ := hrec.exists_find
    obtain ⟨m, t, -, -, hrun⟩ := h.records.free_of_find hfind
    refine ⟨_, _, ps ++ [(p₀.allocations i).ptr], hrun, h.records.release _ m, ?_, fun q => ?_,
      fun j hj => ?_, ?_⟩
    · exact List.nodup_append'.2 ⟨h.nodup, List.nodup_singleton _,
        List.disjoint_singleton.2 hnot⟩
    · rw [List.mem_append, List.mem_singleton, h.mem]
      constructor
      · rintro (⟨hq, j, hj, hjq⟩ | rfl)
        · exact ⟨hq, j, by omega, hjq⟩
        · exact ⟨h0, i, Nat.lt_succ_self i, rfl⟩
      · rintro ⟨hq, j, hj, hjq⟩
        rcases Nat.lt_succ_iff_lt_or_eq.1 hj with hlt | rfl
        · exact Or.inl ⟨hq, j, hlt, hjq⟩
        · exact Or.inr hjq.symm
    · have hj' := h.slots j hj
      unfold Process.allocationUnmark
      simp only [List.mem_append, List.mem_singleton]
      by_cases hin : (p₀.allocations j).ptr ∈ ps
      · rw [if_pos hin] at hj'
        rw [if_pos (Or.inl hin), hj', if_neg fun hq => h0 hq.2.symm]
      · rw [if_neg hin] at hj'
        rw [hj']
        exact if_congr ⟨fun hq => Or.inr hq.2, fun hq => ⟨hj, hq.resolve_left hin⟩⟩ rfl rfl
    · rw [Heap.freeAll_append, ← h.heap]
      rfl

/-- **The loop**, from slot `i` to the last. -/
theorem loop : ∀ {n i : ℕ} {k : Kernel} {p : Process} {ps : List Word},
    Released k₀ process p₀ i k p ps → i + n = osMaxProgramAllocations →
      ∃ k' p' ps', processTerminateAllocationsLoop process n i k = .ok (⟨⟩, k') ∧
        Released k₀ process p₀ osMaxProgramAllocations k' p' ps' := by
  intro n
  induction n with
  | zero =>
    intro i k p ps h hi
    rw [Nat.add_zero] at hi
    exact ⟨k, p, ps, rfl, hi ▸ h⟩
  | succ n ih =>
    intro i k p ps h hi
    obtain ⟨k₁, p₁, ps₁, hfree, h₁⟩ := h.round (by omega)
    obtain ⟨k', p', ps', hloop, h'⟩ := ih h₁ (by omega)
    refine ⟨k', p', ps', ?_, h'⟩
    rw [processTerminateAllocationsLoop]
    exact Fallible.run_bind.2 ⟨p, k, run_readProcess.2 ⟨h.records.ne_zero, h.records.object, rfl⟩,
      Fallible.run_seq.2 ⟨k₁, hfree, hloop⟩⟩

end Released

/-- **The end of a process** frees the recorded pointers, each once, and
leaves no record. -/
theorem processTerminateAllocations_frees (h : RecordsReady k process p) :
    ∃ k' p' ps, processTerminateAllocations process k = .ok (0, k') ∧
      RecordsReady k' process p' ∧ ps.Nodup ∧ (∀ q, q ∈ ps ↔ p.Recorded q) ∧
      k'.store.heap = k.store.heap.freeAll ps ∧
      ∀ i < osMaxProgramAllocations, p'.allocations i = ⟨0, 0⟩ := by
  obtain ⟨k', p', ps, hloop, h'⟩ := (Released.start h).loop (Nat.zero_add _)
  refine ⟨k', p', ps, ?_, h'.records, h'.nodup, h'.mem, h'.heap, fun i hi => ?_⟩
  · exact Fallible.run_seq.2 ⟨k', hloop, rfl⟩
  · rw [h'.slots i hi]
    by_cases hin : (p.allocations i).ptr ∈ ps
    · exact if_pos hin
    · rw [if_neg hin]
      refine h.empty i hi ?_
      by_contra h0
      exact hin ((h'.mem _).2 ⟨h0, i, hi, rfl⟩)

/-- Every record is an allocation of the heap, and no pointer is recorded
twice. -/
structure Process.OwnsRecords (p : Process) (h : Heap) : Prop where
  owns : ∀ i < osMaxProgramAllocations, (p.allocations i).ptr ≠ 0 →
    h.Owns (p.allocations i).ptr (blocksFor (p.allocations i).size.toNat)
  distinct : p.DistinctAllocations

/-- Entry `b` is one of a recorded allocation. -/
def Process.Holds (p : Process) (h : Heap) (b : ℕ) : Prop :=
  ∃ i < osMaxProgramAllocations, (p.allocations i).ptr ≠ 0 ∧
    h.Occupies ((p.allocations i).ptr, (p.allocations i).size) b

/-- **Of the table, freeing the recorded pointers frees the entries of
the recorded allocations and no others.** -/
theorem Process.OwnsRecords.entries_freeAll {h : Heap} {ps : List Word} (ho : p.OwnsRecords h)
    (r : h.Ready) (hd : ps.Nodup) (hps : ∀ q, q ∈ ps ↔ p.Recorded q) (b : ℕ) :
    (p.Holds h b → (h.freeAll ps).entries b = heapBlockTableEntryFree) ∧
      (¬ p.Holds h b → (h.freeAll ps).entries b = h.entries b) := by
  classical
  -- a recorded pointer has the size of its record
  have hsize : ∀ q, ∃ n, p.Recorded q → ∃ i < osMaxProgramAllocations,
      (p.allocations i).ptr = q ∧ n = blocksFor (p.allocations i).size.toNat := by
    intro q
    by_cases hq : p.Recorded q
    · obtain ⟨i, hi, hiq⟩ := hq.2
      exact ⟨_, fun _ => ⟨i, hi, hiq, rfl⟩⟩
    · exact ⟨0, fun hq' => absurd hq' hq⟩
  choose blocks hblocks using hsize
  have howns : ∀ q ∈ ps, h.Owns q (blocks q) := by
    intro q hq
    have hrec := (hps q).1 hq
    obtain ⟨i, hi, hiq, hn⟩ := hblocks q hrec
    rw [hn, ← hiq]
    exact ho.owns i hi (hiq ▸ hrec.1)
  have hiff : (∃ q ∈ ps, (q - h.startAddress).toNat / 4096 ≤ b ∧
      b < (q - h.startAddress).toNat / 4096 + blocks q) ↔ p.Holds h b := by
    constructor
    · rintro ⟨q, hq, h1, h2⟩
      have hrec := (hps q).1 hq
      obtain ⟨i, hi, hiq, hn⟩ := hblocks q hrec
      rw [hn] at h2
      exact ⟨i, hi, hiq ▸ hrec.1, hiq ▸ h1, hiq ▸ h2⟩
    · rintro ⟨i, hi, h0, h1, h2⟩
      have hrec : p.Recorded (p.allocations i).ptr := ⟨h0, i, hi, rfl⟩
      obtain ⟨j, hj, hjq, hn⟩ := hblocks _ hrec
      obtain rfl := ho.distinct i hi j hj h0 hjq.symm
      exact ⟨_, (hps _).2 hrec, h1, hn ▸ h2⟩
  rw [Heap.entries_freeAll_of_owns b r hd howns]
  exact ⟨fun hin => if_pos (hiff.2 hin), fun hout => if_neg fun hin => hout (hiff.1 hin)⟩

/-- **What `process_free` leaves alone, and what the end of a process
frees.** A pointer that is not recorded, null or any other, changes
nothing of the kernel. So the end of a process frees the recorded
pointers and no others; and where these are its own allocations, of the
heap's table it frees their entries and changes no other. -/
theorem processFree_frees_recorded (h : RecordsReady k process p) :
    (∀ ptr, ¬ p.Recorded ptr → processFree process ptr k = .ok (⟨⟩, k)) ∧
      ∃ k' p' ps, processTerminateAllocations process k = .ok (0, k') ∧
        k'.processes process = some p' ∧ (∀ i < osMaxProgramAllocations, p'.allocations i = ⟨0, 0⟩) ∧
        ps.Nodup ∧ (∀ q, q ∈ ps ↔ p.Recorded q) ∧ k'.store.heap = k.store.heap.freeAll ps ∧
        (p.OwnsRecords k.store.heap → ∀ b,
          (p.Holds k.store.heap b → k'.store.heap.entries b = heapBlockTableEntryFree) ∧
            (¬ p.Holds k.store.heap b →
              k'.store.heap.entries b = k.store.heap.entries b)) := by
  refine ⟨fun ptr hptr => h.free_of_not_recorded hptr, ?_⟩
  obtain ⟨k', p', ps, hrun, h', hd, hps, hheap, hclear⟩ := processTerminateAllocations_frees h
  refine ⟨k', p', ps, hrun, h'.object, hclear, hd, hps, hheap, fun ho b => ?_⟩
  rw [hheap]
  exact ho.entries_freeAll h.ready hd hps b

/-- **A process with a byte on record**: null and the byte's neighbour are
not, and only the byte's block is freed. -/
theorem processFree_frees_recorded_byte : ∃ (k k' : Kernel) (p p' : Process) (q : Word),
    k.processes 1 = some p ∧ (∀ ptr, p.Recorded ptr ↔ ptr = q) ∧ k.store.heap.Owns q 1 ∧
      processFree 1 0 k = .ok (⟨⟩, k) ∧ processFree 1 (q + 1) k = .ok (⟨⟩, k) ∧
      processTerminateAllocations 1 k = .ok (0, k') ∧
      k'.processes 1 = some p' ∧ (∀ i < osMaxProgramAllocations, p'.allocations i = ⟨0, 0⟩) ∧
      k'.store.heap = k.store.heap.freeAll [q] ∧
        ∀ b, (p.Holds k.store.heap b → k'.store.heap.entries b = heapBlockTableEntryFree) ∧
          (¬ p.Holds k.store.heap b → k'.store.heap.entries b = k.store.heap.entries b) := by
  obtain ⟨k₀, k, p₀, c, q, i, hp₀, hd, hnone, -, hrun, hq, hi, hp, ho⟩ :=
    exists_boot_malloc (show 0 < (1 : Word).toNat by decide) (by decide)
  obtain ⟨p, hpeq⟩ : ∃ p : Process, p = { p₀ with
    allocations := Function.update p₀.allocations i ⟨q, 1⟩ } := ⟨_, rfl⟩
  rw [← hpeq] at hp
  obtain ⟨t, ht, htc⟩ := hd.object
  have hdir : t.pageDirectory ≠ 0 := by
    rw [htc]
    exact (hd.mapped.owns _ c.has_chunk).ne_zero hd.ready
  obtain ⟨p', hready⟩ := (RecordsReady.start (by decide) hp₀ hd.ready ⟨hd.ne_zero, t, ht, hdir⟩
    hnone).malloc hrun
  obtain rfl := Option.some.inj (hp.symm.trans hready.object)
  -- the one record
  have hself : p.allocations i = ⟨q, 1⟩ := by
    rw [hpeq]
    exact Function.update_self ..
  have hother : ∀ j < osMaxProgramAllocations, j ≠ i → p.allocations j = ⟨0, 0⟩ := by
    intro j hj hne
    rw [hpeq]
    exact (Function.update_of_ne hne ..).trans (hnone j hj)
  have hone : ∀ j < osMaxProgramAllocations, (p.allocations j).ptr ≠ 0 → j = i := by
    intro j hj hne
    by_contra hji
    exact hne (by rw [hother j hj hji])
  have hrecorded : ∀ ptr, p.Recorded ptr ↔ ptr = q := by
    intro ptr
    constructor
    · rintro ⟨hne, j, hj, rfl⟩
      rw [hone j hj hne, hself]
    · rintro rfl
      exact ⟨hq, i, hi, by rw [hself]⟩
  have howns : p.OwnsRecords k.store.heap := by
    refine ⟨fun j hj hne => ?_, fun j hj j' hj' hne heq => ?_⟩
    · rw [hone j hj hne, hself]
      change k.store.heap.Owns q (blocksFor (1 : Word).toNat)
      rw [show blocksFor (1 : Word).toNat = 1 by decide]
      exact ho
    · exact (hone j hj hne).trans (hone j' hj' (heq ▸ hne)).symm
  obtain ⟨hfree, k', p', ps, hend, hp', hclear, hnodup, hps, hheap, hentries⟩ :=
    processFree_frees_recorded hready
  obtain rfl : ps = [q] := by
    refine List.perm_singleton.1 ((List.perm_ext_iff_of_nodup hnodup (List.nodup_singleton q)).2 ?_)
    intro ptr
    rw [hps, hrecorded, List.mem_singleton]
  refine ⟨k, k', p, p', q, hp, hrecorded, ho, hfree 0 fun h => h.1 rfl, hfree (q + 1) fun h => ?_,
    hend, hp', hclear, hheap, hentries howns⟩
  have hne := (hrecorded _).1 h
  bv_omega

end OwnKernel
