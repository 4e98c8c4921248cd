import OwnKernel.Heap.Serving
import OwnKernel.Paging.Ranges
import OwnKernel.Process.Mapping
import OwnKernel.Task.List

/-!
# What a process allocates

`process_malloc` records a pointer and its size and has the blocks
mapped; `process_free` takes the record and the mapping back.
`AllocInv` ties the three tables together: the recorded pointers are
allocations of the heap, each its own, and of the heap's pages exactly
theirs are writeable for the user. A size of 0 is given a block that is
not taken, and so breaks it: `mallocRun_coherent` is about the runs that
ask for at least a byte each time.
-/

namespace OwnKernel

variable {k k' : Kernel} {c : ChunkView} {process ptr size : Word} {p : Process} {page i j : ℕ}

/-! ## Coherence -/

/-- A page of the heap's blocks. -/
def HeapPage (h : Heap) (page : ℕ) : Prop :=
  h.startAddress.toNat / 4096 ≤ page ∧ page < h.startAddress.toNat / 4096 + h.total

/-- The entry lets the user write to the page. -/
def UserWriteable (entry : Word) : Prop := entry &&& userWriteableFlags = userWriteableFlags

/-- The page is one of a recorded allocation. -/
def ProcessAllocation.Covers (a : ProcessAllocation) (page : ℕ) : Prop :=
  a.ptr ≠ 0 ∧ a.ptr.toNat / 4096 ≤ page ∧ page < a.ptr.toNat / 4096 + blocksFor a.size.toNat

/-- No pointer is recorded twice. -/
def Process.DistinctAllocations (p : Process) : Prop :=
  ∀ i < osMaxProgramAllocations, ∀ j < osMaxProgramAllocations,
    (p.allocations i).ptr ≠ 0 → (p.allocations i).ptr = (p.allocations j).ptr → i = j

/-- **The records and the mappings agree**: of the heap's pages exactly
those of the recorded allocations are writeable for the user. -/
def PagesCoherent (k : Kernel) (p : Process) (c : ChunkView) : Prop :=
  ∀ page, HeapPage k.store.heap page → (UserWriteable (c.entry k.store.mem page) ↔
    ∃ i < osMaxProgramAllocations, (p.allocations i).Covers page)

/-- **A process whose records are in order**: its directory is the chunk
`c`, no pointer is recorded twice, and the mappings agree. -/
def Coherent (k : Kernel) (process : Word) (c : ChunkView) : Prop :=
  ∃ p, k.processes process = some p ∧ HasDirectory k p.task c ∧ p.DistinctAllocations ∧
    PagesCoherent k p c

/-- **A run of `process_malloc` and `process_free`** on one process, each
call finishing. `Meets` restricts the sizes asked for. -/
inductive MallocRun (Meets : Word → Prop) (process : Word) (k₀ : Kernel) : Kernel → Prop
  | start : MallocRun Meets process k₀ k₀
  | malloc {k k' : Kernel} {size ptr : Word} : MallocRun Meets process k₀ k → Meets size →
      processMalloc process size k = .ok (ptr, k') → MallocRun Meets process k₀ k'
  | free {k k' : Kernel} {ptr : Word} : MallocRun Meets process k₀ k →
      processFree process ptr k = .ok (⟨⟩, k') → MallocRun Meets process k₀ k'

/-! ## One call -/

/-- The task of a process with a directory. -/
theorem HasDirectory.exists_task {task : Word} (h : HasDirectory k task c) :
    task ≠ 0 ∧ ∃ t, k.tasks task = some t ∧ t.pageDirectory ≠ 0 := by
  obtain ⟨t, ht, hc⟩ := h.object
  refine ⟨h.ne_zero, t, ht, ?_⟩
  rw [hc]
  exact (h.mapped.owns _ c.has_chunk).ne_zero h.ready

/-- The end of `process_malloc` on an error: the block is given back. -/
theorem processMallocErr_eq (q : Word) (k : Kernel) : processMallocOn.processMallocErr q k =
    .ok (0, { k with store := { k.store with
      heap := k.store.heap.write (heapFree k.store.heap q) } }) := rfl

/-- **What a `process_malloc` that finishes has done**: it was given no
block; or it has given it back, no record being free or the pages not a
range that can be mapped; or it has mapped and recorded it. -/
theorem processMalloc_outcome {zalloc : Word → StoreM Word}
    (ht : p.task ≠ 0 ∧ ∃ t, k.tasks p.task = some t ∧ t.pageDirectory ≠ 0)
    (hp : k.processes process = some p)
    (hrun : processMallocOn zalloc process size k = .ok (ptr, k')) :
    ∃ q s, zalloc size k.store = .ok (q, s) ∧
      ((ptr = 0 ∧ q = 0 ∧ k' = { k with store := s }) ∨
        (ptr = 0 ∧ q ≠ 0 ∧
          k' = { k with store := { s with heap := s.heap.write (heapFree s.heap q) } }) ∨
        (ptr = q ∧ q ≠ 0 ∧ ValidRange q q (pagingAlignAddress (q + size)) ∧ ∃ index k₁,
          p.findFreeAllocationIndex = some index ∧
          taskMapTo p.task q q (pagingAlignAddress (q + size)) userWriteableFlags
            { k with store := s } = .ok (0, k₁) ∧
          k' = k₁.setProcess process
            (some { p with allocations := Function.update p.allocations index ⟨q, size⟩ }))) := by
  obtain ⟨q, k₁, hz', hrun⟩ := Fallible.run_bind.1 hrun
  obtain ⟨s, hz, rfl⟩ := run_onStore.1 hz'
  refine ⟨q, s, hz, ?_⟩
  by_cases h0 : q = 0
  · rw [if_pos h0] at hrun
    obtain ⟨hptr, rfl⟩ := Fallible.run_pure.1 hrun
    exact Or.inl ⟨hptr, h0, rfl⟩
  rw [if_neg h0] at hrun
  have herr : processMallocOn.processMallocErr q { k with store := s } = .ok (ptr, k') →
      ptr = 0 ∧ q ≠ 0 ∧
        k' = { k with store := { s with heap := s.heap.write (heapFree s.heap q) } } := by
    intro herr
    rw [processMallocErr_eq] at herr
    cases herr
    exact ⟨rfl, h0, rfl⟩
  obtain ⟨p', k₂, hread, hrun⟩ := Fallible.run_bind.1 hrun
  obtain ⟨-, hp', rfl⟩ := run_readProcess.1 hread
  obtain rfl : p' = p := Option.some.inj (hp'.symm.trans hp)
  cases hfind : p'.findFreeAllocationIndex with
  | none =>
    simp only [hfind] at hrun
    exact Or.inr (Or.inl (herr hrun))
  | some index =>
    simp only [hfind] at hrun
    obtain ⟨res, k₃, hmap, hrun⟩ := Fallible.run_bind.1 hrun
    obtain ⟨ht0, t, ht, hd⟩ := ht
    have hmap' := hmap
    rw [taskMapTo_run (k := { k with store := s }) ht0 ht hd] at hmap'
    by_cases hvalid : ValidRange q q (pagingAlignAddress (q + size))
    · rw [pagingMapTo_of_valid _ _ hvalid] at hmap'
      obtain ⟨rfl, rfl⟩ := Prod.mk.inj (Except.ok.inj hmap')
      rw [if_neg (lt_irrefl 0)] at hrun
      obtain ⟨k₄, hmod, hpure⟩ := Fallible.run_seq.1 hrun
      obtain ⟨rfl, rfl⟩ := Fallible.run_pure.1 hpure
      obtain ⟨-, p₂, hp₂, rfl⟩ := run_modifyProcess.1 hmod
      obtain rfl : p₂ = p' := Option.some.inj (hp₂.symm.trans hp)
      exact Or.inr (Or.inr ⟨rfl, h0, hvalid, index, _, rfl, hmap, rfl⟩)
    · rw [ChunkView.pagingMapTo_of_not_valid hvalid] at hmap'
      obtain ⟨rfl, rfl⟩ := Prod.mk.inj (Except.ok.inj hmap')
      rw [if_pos (show -invalidArgumentError < 0 by decide)] at hrun
      exact Or.inr (Or.inl (herr hrun))

/-! ## Pages and entries -/

/-- A page of the heap is a page. -/
theorem HeapPage.lt {h : Heap} (r : h.Ready) (hp : HeapPage h page) : page < 2 ^ 20 := by
  have hfits := r.placed.fits
  unfold heapBlockSize at hfits
  unfold HeapPage at hp
  omega

/-- The flags say whether a page is writeable. -/
theorem userWriteable_or {x g : Word} (hx : x.toNat % 4096 = 0) :
    UserWriteable (x ||| g) ↔ UserWriteable g := by
  have h0 : x &&& userWriteableFlags = 0#32 := by
    apply BitVec.eq_of_toNat_eq
    rw [BitVec.toNat_and]
    change x.toNat &&& 2 ^ 3 - 1 = 0
    rw [Nat.and_two_pow_sub_one_eq_mod]
    omega
  unfold UserWriteable
  rw [BitVec.and_or_distrib_right, h0, BitVec.zero_or]

/-- The pages of allocations apart are different. -/
theorem Heap.Owns.pages_disjoint {h : Heap} {q q' : Word} {m n : ℕ} (o : h.Owns q m)
    (o' : h.Owns q' n) (r : h.Ready) (hne : q ≠ q') (hq : q.toNat / 4096 ≤ page)
    (hm : page < q.toNat / 4096 + m) (hq' : q'.toNat / 4096 ≤ page) :
    ¬ page < q'.toNat / 4096 + n := by
  intro hn
  have hfits := o.toNat_add_le r
  have hal := o.aligned r
  have hal' := o'.aligned r
  have hlt' := q'.isLt
  have hx : (BitVec.ofNat 32 (4096 * page) : Word).toNat = 4096 * page := by
    rw [BitVec.toNat_ofNat]
    omega
  refine o.disjoint o' r hne (x := BitVec.ofNat 32 (4096 * page)) ?_ ?_
  · unfold InRange
    rw [BitVec.toNat_sub_of_le (BitVec.le_def.2 (by omega)), hx]
    omega
  · unfold InRange
    rw [BitVec.toNat_sub_of_le (BitVec.le_def.2 (by omega)), hx]
    omega

/-- **Mapping an allocation makes its pages, and no others, what the
flags say.** -/
theorem userWriteable_mapTo {f : PageMap} {q : Word} (flags : Word) (hq : q.toNat % 4096 = 0)
    (hfits : q.toNat + 4096 * blocksFor size.toNat < 2 ^ 32) (hp : page < 2 ^ 20) :
    UserWriteable (f.mapTo q q (pagingAlignAddress (q + size)) flags page) ↔
      if q.toNat / 4096 ≤ page ∧ page < q.toNat / 4096 + blocksFor size.toNat then
        UserWriteable flags
      else UserWriteable (f page) := by
  rw [mapTo_allocation f flags hq hfits hp]
  by_cases hin : q.toNat / 4096 ≤ page ∧ page < q.toNat / 4096 + blocksFor size.toNat
  · rw [if_pos hin, if_pos hin]
    refine userWriteable_or ?_
    have hlt := q.isLt
    rw [BitVec.toNat_add, BitVec.toNat_ofNat]
    omega
  · rw [if_neg hin, if_neg hin]

/-- Dropping null changes no record. -/
theorem Process.allocationUnmark_null
    (hempty : ∀ i < osMaxProgramAllocations, (p.allocations i).ptr = 0 → p.allocations i = ⟨0, 0⟩) :
    p.allocationUnmark 0 = p := by
  have hall : (p.allocationUnmark 0).allocations = p.allocations := by
    funext j
    unfold Process.allocationUnmark
    simp only
    by_cases hj : j < osMaxProgramAllocations ∧ (p.allocations j).ptr = 0
    · rw [if_pos hj, hempty j hj.1 hj.2]
    · rw [if_neg hj]
  calc p.allocationUnmark 0
      = { p with allocations := (p.allocationUnmark 0).allocations } := rfl
    _ = p := by rw [hall]

/-! ## The invariant -/

/-- **The invariant of a run.** -/
structure AllocInv (k : Kernel) (process : Word) (p : Process) (c : ChunkView) : Prop where
  ne_zero : process ≠ 0
  object : k.processes process = some p
  directory : HasDirectory k p.task c
  empty : ∀ i < osMaxProgramAllocations, (p.allocations i).ptr = 0 → p.allocations i = ⟨0, 0⟩
  owns : ∀ i < osMaxProgramAllocations, (p.allocations i).ptr ≠ 0 →
    k.store.heap.Owns (p.allocations i).ptr (blocksFor (p.allocations i).size.toNat)
  fits : ∀ i < osMaxProgramAllocations, (p.allocations i).ptr ≠ 0 →
    (p.allocations i).ptr.toNat + 4096 * blocksFor (p.allocations i).size.toNat < 2 ^ 32
  apart : ∀ i < osMaxProgramAllocations, (p.allocations i).ptr ≠ 0 → ¬ c.Has (p.allocations i).ptr
  distinct : p.DistinctAllocations
  pages : PagesCoherent k p c

namespace AllocInv

theorem coherent (h : AllocInv k process p c) : Coherent k process c :=
  ⟨p, h.object, h.directory, h.distinct, h.pages⟩

/-- What is written outside the directory's pages changes nothing of it. -/
theorem of_mem {m : Mem} (h : AllocInv k process p c)
    (hm : ∀ r, c.Has r → ∀ x, InRange r 4096 x → m x = k.store.mem x) :
    AllocInv { k with store := { k.store with mem := m } } process p c := by
  refine ⟨h.ne_zero, h.object, h.directory.of_mem hm, h.empty, h.owns, h.fits, h.apart, h.distinct,
    fun page hpage => ?_⟩
  have hlt := hpage.lt h.directory.ready
  have hentry : c.entry m page = c.entry k.store.mem page :=
    h.directory.mapped.entry_congr h.directory.ready hlt (hm _ (c.has_table (by omega)))
  change UserWriteable (c.entry m page) ↔ _
  rw [hentry]
  exact h.pages page hpage

/-- A process without allocations, none of the heap's pages writeable. -/
theorem start (h0 : process ≠ 0) (hp : k.processes process = some p)
    (hd : HasDirectory k p.task c) (hnone : ∀ i < osMaxProgramAllocations, p.allocations i = ⟨0, 0⟩)
    (hpages : ∀ page, HeapPage k.store.heap page → ¬ UserWriteable (c.entry k.store.mem page)) :
    AllocInv k process p c where
  ne_zero := h0
  object := hp
  directory := hd
  empty i hi _ := hnone i hi
  owns i hi hne := absurd (by rw [hnone i hi]) hne
  fits i hi hne := absurd (by rw [hnone i hi]) hne
  apart i hi hne := absurd (by rw [hnone i hi]) hne
  distinct i hi j _ hne := absurd (by rw [hnone i hi]) hne
  pages page hpage := by
    refine iff_of_false (hpages page hpage) ?_
    rintro ⟨i, hi, hne, -⟩
    rw [hnone i hi] at hne
    exact hne rfl

/-- What only adds to the store changes nothing. -/
theorem of_extends {s : Store} (h : AllocInv k process p c) (he : k.store.Extends s) :
    AllocInv { k with store := s } process p c where
  ne_zero := h.ne_zero
  object := h.object
  directory := ⟨he.ready h.directory.ready, h.directory.ne_zero, h.directory.object,
    (h.directory.mapped.of_extends h.directory.ready he).1⟩
  empty := h.empty
  owns i hi h0 := he.owns _ _ (h.owns i hi h0)
  fits := h.fits
  apart := h.apart
  distinct := h.distinct
  pages page hp := by
    have hp' : HeapPage k.store.heap page := by
      unfold HeapPage at hp ⊢
      rwa [he.place.start, he.place.total] at hp
    rw [(h.directory.mapped.of_extends h.directory.ready he).2 page (hp'.lt h.directory.ready)]
    exact h.pages page hp'

/-! ### `process_malloc` -/

/-- The free index is one, and free. -/
theorem of_findAllocation {q : Word} (h : p.findAllocation q = some i) :
    i < osMaxProgramAllocations ∧ (p.allocations i).ptr = q := by
  unfold Process.findAllocation at h
  refine ⟨List.mem_range.1 (List.mem_of_find?_eq_some h), ?_⟩
  simpa using List.find?_some h

/-- Recording an allocation adds its pages. -/
theorem covers_update {a : ProcessAllocation} (hi : i < osMaxProgramAllocations)
    (h0 : (p.allocations i).ptr = 0) :
    (∃ j < osMaxProgramAllocations, (Function.update p.allocations i a j).Covers page) ↔
      a.Covers page ∨ ∃ j < osMaxProgramAllocations, (p.allocations j).Covers page := by
  constructor
  · rintro ⟨j, hj, hc⟩
    by_cases hji : j = i
    · rw [hji, Function.update_self] at hc
      exact Or.inl hc
    · rw [Function.update_of_ne hji] at hc
      exact Or.inr ⟨j, hj, hc⟩
  · rintro (hc | ⟨j, hj, hc⟩)
    · exact ⟨i, hi, by rwa [Function.update_self]⟩
    · have hji : j ≠ i := by
        rintro rfl
        exact hc.1 h0
      exact ⟨j, hj, by rwa [Function.update_of_ne hji]⟩

/-- **An allocation is mapped and recorded.** `k₁` is the kernel after the
mapping. -/
theorem record {k₁ : Kernel} {q : Word} (h : AllocInv k process p c)
    (hi : i < osMaxProgramAllocations) (h0 : (p.allocations i).ptr = 0) (hq : q ≠ 0)
    (ho : k.store.heap.Owns q (blocksFor size.toNat))
    (hfits : q.toNat + 4096 * blocksFor size.toNat < 2 ^ 32) (hc : ¬ c.Has q)
    (hnew : ∀ j < osMaxProgramAllocations, (p.allocations j).ptr ≠ q)
    (hout : TablesOnly c k k₁) (hd : HasDirectory k₁ p.task c)
    (hentry : ∀ page, page < 2 ^ 20 → c.entry k₁.store.mem page =
      PageMap.mapTo (c.entry k.store.mem) q q (pagingAlignAddress (q + size)) userWriteableFlags
        page) :
    AllocInv (k₁.setProcess process
        (some { p with allocations := Function.update p.allocations i ⟨q, size⟩ })) process
      { p with allocations := Function.update p.allocations i ⟨q, size⟩ } c := by
  have hr := h.directory.ready
  have hcases : ∀ {motive : ProcessAllocation → Prop} j, motive ⟨q, size⟩ →
      (j ≠ i → motive (p.allocations j)) → motive (Function.update p.allocations i ⟨q, size⟩ j) := by
    intro motive j hself hother
    by_cases hji : j = i
    · rw [hji, Function.update_self]
      exact hself
    · rw [Function.update_of_ne hji]
      exact hother hji
  have hheap : k₁.store.heap = k.store.heap := hout.heap
  refine ⟨h.ne_zero, setProcess_processes_self, ⟨hd.ready, hd.ne_zero, hd.object, hd.mapped⟩,
    fun j hj => ?_, fun j hj => ?_, fun j hj => ?_, fun j hj => ?_, fun j hj j' hj' => ?_,
    fun page hp => ?_⟩
  · exact hcases (motive := fun a => a.ptr = 0 → a = ⟨0, 0⟩) j (fun hz => absurd hz hq)
      fun _ => h.empty j hj
  · change _ → k₁.store.heap.Owns _ _
    rw [hheap]
    exact hcases (motive := fun a => a.ptr ≠ 0 → k.store.heap.Owns a.ptr (blocksFor a.size.toNat)) j
      (fun _ => ho) fun _ => h.owns j hj
  · exact hcases (motive := fun a => a.ptr ≠ 0 → a.ptr.toNat + 4096 * blocksFor a.size.toNat < 2 ^ 32)
      j (fun _ => hfits) fun _ => h.fits j hj
  · exact hcases (motive := fun a => a.ptr ≠ 0 → ¬ c.Has a.ptr) j (fun _ => hc) fun _ => h.apart j hj
  · change (Function.update p.allocations i ⟨q, size⟩ j).ptr ≠ 0 →
      (Function.update p.allocations i ⟨q, size⟩ j).ptr =
        (Function.update p.allocations i ⟨q, size⟩ j').ptr → j = j'
    by_cases hji : j = i <;> by_cases hji' : j' = i
    · exact fun _ _ => hji.trans hji'.symm
    · rw [hji, Function.update_self, Function.update_of_ne hji']
      exact fun _ he => absurd he.symm (hnew j' hj')
    · rw [hji', Function.update_self, Function.update_of_ne hji]
      exact fun _ he => absurd he (hnew j hj)
    · rw [Function.update_of_ne hji, Function.update_of_ne hji']
      exact h.distinct j hj j' hj'
  · have hp' : HeapPage k.store.heap page := hheap ▸ hp
    have hlt := hp'.lt hr
    change UserWriteable (c.entry k₁.store.mem page) ↔ _
    rw [hentry page hlt, userWriteable_mapTo _ (ho.aligned hr) hfits hlt,
      covers_update hi h0, ← h.pages page hp']
    by_cases hin : q.toNat / 4096 ≤ page ∧ page < q.toNat / 4096 + blocksFor size.toNat
    · rw [if_pos hin]
      exact iff_of_true (by unfold UserWriteable; decide) (Or.inl ⟨hq, hin⟩)
    · rw [if_neg hin]
      exact ⟨Or.inr, fun hor => hor.resolve_left fun hcov => hin hcov.2⟩

/-- **`process_malloc` keeps the invariant**, when a byte is asked for. -/
theorem malloc (h : AllocInv k process p c) (hpos : 0 < size.toNat)
    (hrun : processMalloc process size k = .ok (ptr, k')) : ∃ p', AllocInv k' process p' c := by
  have hr := h.directory.ready
  obtain ⟨q, s, hz, hcases⟩ := processMalloc_outcome h.directory.exists_task h.object hrun
  rcases kernelZalloc_of_pos hr hpos hz with ⟨rfl, rfl⟩ | ⟨h0, hsize⟩
  · obtain ⟨-, -, rfl⟩ | ⟨-, hne, -⟩ | ⟨-, hne, -⟩ := hcases
    · exact ⟨p, h⟩
    · exact absurd rfl hne
    · exact absurd rfl hne
  obtain ⟨hext, ho, hfresh, -⟩ := kernelZalloc_spec hr hpos hsize hz h0
  have h₁ := h.of_extends hext
  rcases hcases with ⟨-, hq, -⟩ | ⟨-, -, rfl⟩ | ⟨-, -, hvalid, index, k₁, hfind, hmap, rfl⟩
  · exact absurd hq h0
  · -- on an error the blocks are given back
    exact ⟨p, h.of_extends (hext.free hr hfresh ho)⟩
  · obtain ⟨k₂, hmap', hout, hd, hentry⟩ := h₁.directory.taskMapTo_eq q q
      (pagingAlignAddress (q + size)) userWriteableFlags (f := c.entry s.mem) fun _ _ => rfl
    rw [hmap] at hmap'
    obtain ⟨-, rfl⟩ := Prod.mk.inj (Except.ok.inj hmap')
    obtain ⟨hi, hi0⟩ := of_findAllocation hfind
    have hfits : q.toNat + 4096 * blocksFor size.toNat < 2 ^ 32 := by
      refine lt_of_le_of_ne (ho.toNat_add_le (hext.ready hr)) fun htop => ?_
      have hne : q.toNat ≠ 0 := fun hz => h0 (BitVec.eq_of_toNat_eq hz)
      exact not_validRange_top (ho.aligned (hext.ready hr)) (Nat.pos_of_ne_zero hne) htop hvalid
    refine ⟨_, h₁.record hi hi0 h0 ho hfits (fun hc => ?_) (fun j hj he => ?_) hout hd hentry⟩
    · exact hfresh 1 (h.directory.mapped.owns q hc)
    · exact hfresh _ (he ▸ h.owns j hj (he ▸ h0))

/-! ### `process_free` -/

/-- Dropping a record drops its pages. -/
theorem covers_unmark {q : Word} :
    (∃ j < osMaxProgramAllocations, ((p.allocationUnmark q).allocations j).Covers page) ↔
      ∃ j < osMaxProgramAllocations, (p.allocations j).ptr ≠ q ∧ (p.allocations j).Covers page := by
  refine exists_congr fun j => and_congr_right fun hj => ?_
  unfold Process.allocationUnmark
  simp only
  by_cases hq : (p.allocations j).ptr = q
  · rw [if_pos ⟨hj, hq⟩]
    exact iff_of_false (fun hc => hc.1 rfl) fun hc => hc.1 hq
  · rw [if_neg fun h => hq h.2]
    exact (and_iff_right hq).symm

/-- A record that is left is one there was. -/
theorem unmark_of_ne_zero {q : Word}
    (hne : ((p.allocationUnmark q).allocations j).ptr ≠ 0) :
    (p.allocationUnmark q).allocations j = p.allocations j := by
  unfold Process.allocationUnmark at hne ⊢
  simp only at hne ⊢
  by_cases hq : j < osMaxProgramAllocations ∧ (p.allocations j).ptr = q
  · rw [if_pos hq] at hne
    exact absurd rfl hne
  · rw [if_neg hq]

/-- Of the records left none has the pointer. -/
theorem unmark_ptr_ne {q : Word} (hj : j < osMaxProgramAllocations)
    (hne : ((p.allocationUnmark q).allocations j).ptr ≠ 0) : (p.allocations j).ptr ≠ q := by
  intro hq
  unfold Process.allocationUnmark at hne
  simp only at hne
  rw [if_pos ⟨hj, hq⟩] at hne
  exact hne rfl

/-- **A record and its mapping are dropped, and the blocks freed.** `k₁`
is the kernel after the mapping. -/
theorem drop {k₁ : Kernel} (h : AllocInv k process p c) (hi : i < osMaxProgramAllocations)
    (hne : (p.allocations i).ptr ≠ 0) (hout : TablesOnly c k k₁) (hd : HasDirectory k₁ p.task c)
    (hentry : ∀ page, page < 2 ^ 20 → c.entry k₁.store.mem page =
      PageMap.mapTo (c.entry k.store.mem) (p.allocations i).ptr (p.allocations i).ptr
        (pagingAlignAddress ((p.allocations i).ptr + (p.allocations i).size)) 0 page) :
    AllocInv { k₁.setProcess process (some (p.allocationUnmark (p.allocations i).ptr)) with
        store := { k₁.store with
          heap := k₁.store.heap.write (heapFree k₁.store.heap (p.allocations i).ptr) } } process
      (p.allocationUnmark (p.allocations i).ptr) c := by
  have hr := h.directory.ready
  have hheap : k₁.store.heap = k.store.heap := hout.heap
  have ho := h.owns i hi hne
  rw [hheap]
  -- what is left is still owned
  have hleft : ∀ {q n}, k.store.heap.Owns q n → q ≠ (p.allocations i).ptr →
      (k.store.heap.write (heapFree k.store.heap (p.allocations i).ptr)).Owns q n :=
    fun oq hq => Heap.owns_heapFree hr ho oq hq
  have hr' : (k.store.heap.write (heapFree k.store.heap (p.allocations i).ptr)).Ready :=
    (k.store.heap.samePlace_write _).ready hr
  have hmapped : c.At { k₁.store with
      heap := k.store.heap.write (heapFree k.store.heap (p.allocations i).ptr) } := by
    refine hd.mapped.congr hd.ready (fun q hq => hleft ?_ ?_) (fun _ _ => rfl) fun _ _ => rfl
    · exact h.directory.mapped.owns q hq
    · exact fun he => h.apart i hi hne (he ▸ hq)
  refine ⟨h.ne_zero, setProcess_processes_self, ⟨hr', hd.ne_zero, hd.object, hmapped⟩,
    fun j hj hz => ?_, fun j hj hz => ?_, fun j hj hz => ?_, fun j hj hz => ?_,
    fun j hj j' hj' hz he => ?_, fun page hp => ?_⟩
  · unfold Process.allocationUnmark at hz ⊢
    simp only at hz ⊢
    by_cases hq : j < osMaxProgramAllocations ∧ (p.allocations j).ptr = (p.allocations i).ptr
    · rw [if_pos hq]
    · rw [if_neg hq] at hz ⊢
      exact h.empty j hj hz
  · have hptr := unmark_ptr_ne hj hz
    have heq := unmark_of_ne_zero hz
    rw [heq] at hz ⊢
    exact hleft (h.owns j hj hz) hptr
  · have heq := unmark_of_ne_zero hz
    rw [heq] at hz ⊢
    exact h.fits j hj hz
  · have heq := unmark_of_ne_zero hz
    rw [heq] at hz ⊢
    exact h.apart j hj hz
  · have hz' := hz
    rw [he] at hz'
    have heq := unmark_of_ne_zero hz
    have heq' := unmark_of_ne_zero hz'
    rw [heq] at hz he
    rw [heq'] at he
    exact h.distinct j hj j' hj' hz he
  · have hp' : HeapPage k.store.heap page := hp
    have hlt := hp'.lt hr
    change UserWriteable (c.entry k₁.store.mem page) ↔ _
    rw [hentry page hlt, userWriteable_mapTo _ (ho.aligned hr) (h.fits i hi hne) hlt, covers_unmark,
      h.pages page hp']
    by_cases hin : (p.allocations i).ptr.toNat / 4096 ≤ page ∧ page <
        (p.allocations i).ptr.toNat / 4096 + blocksFor (p.allocations i).size.toNat
    · rw [if_pos hin]
      refine iff_of_false (by unfold UserWriteable; decide) ?_
      rintro ⟨j, hj, hptr, hj0, h1, h2⟩
      exact ho.pages_disjoint (h.owns j hj hj0) hr hptr.symm hin.1 hin.2 h1 h2
    · rw [if_neg hin]
      constructor
      · rintro ⟨j, hj, hc⟩
        refine ⟨j, hj, fun he => hin ?_, hc⟩
        obtain rfl := h.distinct j hj i hi hc.1 he
        exact hc.2
      · rintro ⟨j, hj, -, hc⟩
        exact ⟨j, hj, hc⟩

/-- Freeing null finds an entry that is free, and changes nothing. -/
theorem drop_null {k₁ : Kernel} (h : AllocInv k process p c) (hout : TablesOnly c k k₁)
    (hd : HasDirectory k₁ p.task c)
    (hentry : ∀ page, page < 2 ^ 20 → c.entry k₁.store.mem page =
      PageMap.mapTo (c.entry k.store.mem) 0 0 (pagingAlignAddress (0 + 0)) 0 page) :
    AllocInv { k₁.setProcess process (some (p.allocationUnmark 0)) with
        store := { k₁.store with heap := k₁.store.heap.write (heapFree k₁.store.heap 0) } }
      process p c := by
  have hheap : k₁.store.heap = k.store.heap := hout.heap
  rw [p.allocationUnmark_null h.empty, heapFree_null hd.ready]
  refine ⟨h.ne_zero, setProcess_processes_self, ⟨hd.ready, hd.ne_zero, hd.object, hd.mapped⟩,
    h.empty, fun j hj hz => ?_, h.fits, h.apart, h.distinct, fun page hp => ?_⟩
  · change k₁.store.heap.Owns _ _
    rw [hheap]
    exact h.owns j hj hz
  · have hp' : HeapPage k.store.heap page := hheap ▸ hp
    have hlt := hp'.lt h.directory.ready
    have hnone : rangeEntry 0 0 (pagingAlignAddress (0 + 0)) 0 page = none := by
      unfold rangeEntry
      refine if_neg fun hin => absurd hin.2 ?_
      rw [show ((pagingAlignAddress (0 + 0)).toNat - (0 : Word).toNat) / 4096 = 0 by decide]
      exact Nat.not_lt_zero _
    change UserWriteable (c.entry k₁.store.mem page) ↔ _
    rw [hentry page hlt, mapTo_eq_getD _ _ _ _ _ hlt, hnone, Option.getD_none]
    exact h.pages page hp'

/-- **`process_free` keeps the invariant**, whatever it is asked to
free. -/
theorem free (h : AllocInv k process p c) (hrun : processFree process ptr k = .ok (⟨⟩, k')) :
    ∃ p', AllocInv k' process p' c := by
  have hr := h.directory.ready
  obtain ⟨p', k₁, hread, hbody⟩ := Fallible.run_bind.1 hrun
  obtain ⟨-, hp', rfl⟩ := run_readProcess.1 hread
  obtain rfl : p' = p := Option.some.inj (hp'.symm.trans h.object)
  cases hfind : p'.findAllocation ptr with
  | none =>
    simp only [hfind] at hbody
    obtain ⟨-, rfl⟩ := Fallible.run_pure.1 hbody
    exact ⟨p', h⟩
  | some i =>
    simp only [hfind] at hbody
    obtain ⟨hi, rfl⟩ := of_findAllocation hfind
    obtain ⟨res, k₂, hmap, hbody⟩ := Fallible.run_bind.1 hbody
    obtain ⟨k₃, hmap', hout, hd, hentry⟩ := h.directory.taskMapTo_eq (p'.allocations i).ptr
      (p'.allocations i).ptr
      (pagingAlignAddress ((p'.allocations i).ptr + (p'.allocations i).size)) 0
      (f := c.entry k₁.store.mem) fun _ _ => rfl
    rw [hmap] at hmap'
    obtain ⟨rfl, rfl⟩ := Prod.mk.inj (Except.ok.inj hmap')
    have hvalid : ValidRange (p'.allocations i).ptr (p'.allocations i).ptr
        (pagingAlignAddress ((p'.allocations i).ptr + (p'.allocations i).size)) := by
      by_cases hne : (p'.allocations i).ptr = 0
      · rw [h.empty i hi hne]
        decide
      · exact validRange_allocation ((h.owns i hi hne).aligned hr) (h.fits i hi hne)
    rw [if_neg (by rw [if_pos hvalid]; decide)] at hbody
    obtain ⟨k₄, hmod, hfree⟩ := Fallible.run_seq.1 hbody
    obtain ⟨-, p₂, hp₂, rfl⟩ := run_modifyProcess.1 hmod
    rw [hout.processes] at hp₂
    obtain rfl : p₂ = p' := Option.some.inj (hp₂.symm.trans h.object)
    obtain ⟨s, hfree', rfl⟩ := run_onStore.1 hfree
    rw [kernelFree_eq] at hfree'
    cases hfree'
    by_cases hne : (p₂.allocations i).ptr = 0
    · rw [h.empty i hi hne] at hentry ⊢
      exact ⟨_, h.drop_null hout hd hentry⟩
    · exact ⟨_, h.drop hi hne hout hd hentry⟩

end AllocInv

/-- **Every run that asks for at least a byte each time has the
invariant.** -/
theorem AllocInv.of_run {k₀ : Kernel} (h : MallocRun (fun size => 0 < size.toNat) process k₀ k)
    (hinv : AllocInv k₀ process p c) : ∃ p', AllocInv k process p' c := by
  induction h with
  | start => exact ⟨p, hinv⟩
  | malloc _ hpos hrun ih =>
    obtain ⟨p', ih⟩ := ih
    exact ih.malloc hpos hrun
  | free _ hrun ih =>
    obtain ⟨p', ih⟩ := ih
    exact ih.free hrun

/-- **Allocations and mappings stay coherent** in the runs that ask for
at least a byte each time. -/
theorem mallocRun_coherent {k₀ : Kernel} (h0 : process ≠ 0) (hp : k₀.processes process = some p)
    (hd : HasDirectory k₀ p.task c)
    (hnone : ∀ i < osMaxProgramAllocations, p.allocations i = ⟨0, 0⟩)
    (hpages : ∀ page, HeapPage k₀.store.heap page → ¬ UserWriteable (c.entry k₀.store.mem page))
    (h : MallocRun (fun size => 0 < size.toNat) process k₀ k) : Coherent k process c := by
  obtain ⟨p', hinv⟩ := AllocInv.of_run h (.start h0 hp hd hnone hpages)
  exact hinv.coherent

/-! ## Two runs -/

/-- A process with a task, at the start. -/
theorem exists_boot_process : ∃ (k : Kernel) (p : Process) (c : ChunkView),
    k.processes 1 = some p ∧ HasDirectory k p.task c ∧
      (∀ i < osMaxProgramAllocations, p.allocations i = ⟨0, 0⟩) ∧
      (∀ page, HeapPage k.store.heap page → ¬ UserWriteable (c.entry k.store.mem page)) ∧
      kernelHeapInit.SamePlace k.store.heap ∧
      ∃ m, k.store.heap.Room m ∧ m + 1 ≤ k.store.heap.total := by
  have r : bootKernel.store.heap.Ready := ready_kernelHeapInit
  obtain ⟨task, k, hnew, hroom⟩ := taskNew_of_budget budget_room (n := 1) r
    ⟨0, room_kernelHeapInit, by decide⟩ entryReadable_bootKernel (fun hne => absurd rfl hne)
    fun hne => absurd rfl hne
  obtain ⟨c, t, hm⟩ := taskNew_spec r (fun hne => absurd rfl hne) hnew
  have hready := hm.store.ready r
  refine ⟨k.setProcess 1 (some { Process.zero with filetype := processFiletypeBinary, task := task }),
    _, c, setProcess_processes_self, ⟨hready, hm.owns.ne_zero hready,
      ⟨t, hm.tasks_self, hm.pageDirectory⟩, hm.mapped⟩, fun _ _ => rfl, fun page hp => ?_,
    hm.store.place, hroom⟩
  have hlt := hp.lt hready
  change ¬ UserWriteable (c.entry k.store.mem page)
  rw [hm.entries page hlt]
  have halign : (BitVec.ofNat 32 (page * heapBlockSize) : Word).toNat % 4096 = 0 := by
    rw [BitVec.toNat_ofNat, heapBlockSize]
    omega
  exact fun hw => absurd ((userWriteable_or halign).1 hw) (by unfold UserWriteable; decide)

/-- A free entry is found where there is one. -/
theorem exists_findFree (hj : j < osMaxProgramAllocations) (h0 : (p.allocations j).ptr = 0) :
    ∃ i, p.findFreeAllocationIndex = some i := by
  refine Option.isSome_iff_exists.1 ?_
  unfold Process.findFreeAllocationIndex Process.findAllocation
  rw [List.find?_isSome]
  exact ⟨j, List.mem_range.2 hj, by simpa using h0⟩

/-- `process_malloc`, once it has a pointer and an entry. -/
theorem processMalloc_eq {zalloc : Word → StoreM Word} {q : Word} {s : Store} (h0 : process ≠ 0)
    (hp : k.processes process = some p) (hz : zalloc size k.store = .ok (q, s)) (hq : q ≠ 0)
    (hd : HasDirectory { k with store := s } p.task c)
    (hvalid : ValidRange q q (pagingAlignAddress (q + size)))
    (hi : p.findFreeAllocationIndex = some i) :
    ∃ k₂, processMallocOn zalloc process size k = .ok (q, k₂.setProcess process
        (some { p with allocations := Function.update p.allocations i ⟨q, size⟩ })) ∧
      TablesOnly c { k with store := s } k₂ ∧ HasDirectory k₂ p.task c ∧
      ∀ page, page < 2 ^ 20 → c.entry k₂.store.mem page =
        PageMap.mapTo (c.entry s.mem) q q (pagingAlignAddress (q + size)) userWriteableFlags page := by
  obtain ⟨k₂, hmap, hout, hd₂, hentry⟩ := hd.taskMapTo_eq q q (pagingAlignAddress (q + size))
    userWriteableFlags (f := c.entry s.mem) fun _ _ => rfl
  rw [if_pos hvalid] at hmap
  refine ⟨k₂, Fallible.run_bind.2 ⟨q, _, run_onStore.2 ⟨s, hz, rfl⟩, ?_⟩, hout, hd₂, hentry⟩
  rw [if_neg hq]
  refine Fallible.run_bind.2 ⟨p, _, run_readProcess.2 ⟨h0, hp, rfl⟩, ?_⟩
  simp only [hi]
  refine Fallible.run_bind.2 ⟨0, k₂, hmap, ?_⟩
  rw [if_neg (by decide)]
  exact Fallible.run_seq.2 ⟨_, run_modifyProcess.2 ⟨h0, p, by rw [hout.processes]; exact hp, rfl⟩, rfl⟩

/-- Up to a block, asked for at the start. -/
theorem exists_boot_malloc (hpos : 0 < size.toNat) (hsize : size.toNat ≤ 4096) :
    ∃ (k₀ k : Kernel) (p : Process) (c : ChunkView) (q : Word) (i : ℕ),
    k₀.processes 1 = some p ∧ HasDirectory k₀ p.task c ∧
      (∀ i < osMaxProgramAllocations, p.allocations i = ⟨0, 0⟩) ∧
      (∀ page, HeapPage k₀.store.heap page → ¬ UserWriteable (c.entry k₀.store.mem page)) ∧
      processMalloc 1 size k₀ = .ok (q, k) ∧ q ≠ 0 ∧ i < osMaxProgramAllocations ∧
      k.processes 1 = some { p with allocations := Function.update p.allocations i ⟨q, size⟩ } ∧
      k.store.heap.Owns q 1 := by
  obtain ⟨k₀, p, c, hp, hd, hnone, hpages, hplace, m, hroom, hm⟩ := exists_boot_process
  have hone : blocksFor size.toNat = 1 := by
    unfold blocksFor
    omega
  obtain ⟨q, s, hz, h0, -⟩ := kernelZalloc_of_room size hd.ready hroom hpos (by omega)
    (by rw [hone]; exact hm)
  obtain ⟨hext, ho, -, -⟩ := kernelZalloc_spec hd.ready hpos (by omega) hz h0
  have hr := hext.ready hd.ready
  obtain ⟨i, hi⟩ := exists_findFree (j := 0) (by decide) (by rw [hnone 0 (by decide)])
  have hd' : HasDirectory { k₀ with store := s } p.task c :=
    ⟨hr, hd.ne_zero, hd.object, (hd.mapped.of_extends hd.ready hext).1⟩
  have hfits : q.toNat + 4096 * blocksFor size.toNat < 2 ^ 32 := by
    obtain ⟨b, -, hb, hle, -⟩ := ho.exists_block hr
    have hplace' := hplace.trans hext.place
    rw [hplace'.start] at hb
    rw [hplace'.total, show kernelHeapInit.total = 25600 by decide] at hle
    rw [show kernelHeapInit.startAddress.toNat = 0x1000000 by decide] at hb
    rw [hone] at hle ⊢
    omega
  obtain ⟨k₂, hrun, hout, -⟩ := processMalloc_eq (by decide) hp hz h0 hd'
    (validRange_allocation (ho.aligned hr) hfits) hi
  refine ⟨k₀, _, p, c, q, i, hp, hd, hnone, hpages, hrun, h0, (AllocInv.of_findAllocation hi).1,
    setProcess_processes_self, ?_⟩
  change k₂.store.heap.Owns q 1
  rw [hout.heap]
  exact hone ▸ ho

/-- A process that asks for a byte. -/
theorem mallocRun_coherent_byte : ∃ k₀ k c ptr, ptr ≠ 0 ∧
    processMalloc 1 1 k₀ = .ok (ptr, k) ∧ Coherent k 1 c := by
  obtain ⟨k₀, k, p, c, q, -, hp, hd, hnone, hpages, hrun, h0, -⟩ :=
    exists_boot_malloc (show 0 < (1 : Word).toNat by decide) (by decide)
  exact ⟨k₀, k, c, q, h0, hrun, mallocRun_coherent (by decide) hp hd hnone hpages
    (.malloc .start (by decide) hrun)⟩

/-- No blocks have an address, whatever memory holds: that of the free
stretch at the table's end. -/
theorem kernelZalloc_zero {h : Heap} {m : ℕ} (r : h.Ready) (hroom : h.Room m)
    (hm : m + 1 ≤ h.total) : ∃ b, b ≤ m ∧ h.EndStretch b ∧
      ∀ mem, kernelZalloc 0 ⟨h, mem⟩ = .ok (heapBlockToAddress h b, ⟨h, mem⟩) := by
  rcases heapMalloc_of_zero r.placed (show heapTotalBlocks 0 = 0 by decide) with
    ⟨-, hlast⟩ | ⟨c, hpos, hc, heq⟩
  · exact absurd (hroom (h.total - 1) (by omega) (by omega)) (hlast.maximal (by omega))
  · have hle := hc.le
    have hb : h.total - c < h.total := by omega
    have hne := heapBlockToAddress_ne_zero r.placed hb
    refine ⟨h.total - c, ?_, hc.endStretch hpos, fun mem => ?_⟩
    · by_contra hlt
      exact hc.maximal (by omega) (hroom _ (by omega) (by omega))
    have hmalloc : kernelMalloc 0 ⟨h, mem⟩ =
        .ok (heapBlockToAddress h ((h.total - c : ℕ) : ℤ), ⟨h, mem⟩) := by
      refine Fallible.run_bind.2 ⟨_, _, rfl, ?_⟩
      simp only [heq]
      rw [if_neg (by simp)]
      rfl
    have hfill :
        mem.fill (heapBlockToAddress h ((h.total - c : ℕ) : ℤ)) (0 : Word).toNat 0 = mem := by
      funext x
      exact Mem.fill_of_not_mem (Nat.not_lt_zero _)
    refine Fallible.run_bind.2 ⟨_, _, hmalloc, ?_⟩
    rw [if_neg hne, if_neg (by decide)]
    refine Fallible.run_seq.2 ⟨_, Fallible.run_modify.2 rfl, ?_⟩
    rw [hfill]
    rfl

/-- The address is one of a page, and not null. -/
theorem heapBlockToAddress_page {h : Heap} {b : ℕ} (r : h.Ready) (hb : b < h.total) :
    heapBlockToAddress h b ≠ 0 ∧ (heapBlockToAddress h b).toNat % 4096 = 0 := by
  have haddr := toNat_heapBlockToAddress r.placed hb
  have hal := r.aligned
  exact ⟨heapBlockToAddress_ne_zero r.placed hb, by omega⟩

/-- **Allocations and mappings do not always stay coherent**: a process
asks twice for no bytes. -/
theorem mallocRun_not_coherent : ¬ ∀ (k₀ k : Kernel) (process : Word) (p : Process) (c : ChunkView),
    process ≠ 0 → k₀.processes process = some p → HasDirectory k₀ p.task c →
    (∀ i < osMaxProgramAllocations, p.allocations i = ⟨0, 0⟩) →
    (∀ page, HeapPage k₀.store.heap page → ¬ UserWriteable (c.entry k₀.store.mem page)) →
    MallocRun (fun _ => True) process k₀ k → Coherent k process c := by
  intro hall
  obtain ⟨k₀, p, c, hp, hd, hnone, hpages, -, m, hroom, hm⟩ := exists_boot_process
  obtain ⟨b, -, hstretch, hz⟩ := kernelZalloc_zero hd.ready hroom hm
  obtain ⟨hq, hal⟩ := heapBlockToAddress_page hd.ready hstretch.lt
  generalize heapBlockToAddress k₀.store.heap b = q at hz hq hal
  have hlt := q.isLt
  have hvalid : ValidRange q q (pagingAlignAddress (q + 0)) :=
    validRange_allocation hal (by rw [show blocksFor (0 : Word).toNat = 0 by decide]; omega)
  obtain ⟨i, hi⟩ := exists_findFree (j := 0) (by decide) (by rw [hnone 0 (by decide)])
  obtain ⟨hi', -⟩ := AllocInv.of_findAllocation hi
  obtain ⟨k₁, hrun₁, hout₁, hd₁, -⟩ := processMalloc_eq (by decide) hp (hz k₀.store.mem) hq hd hvalid hi
  have hheap : k₁.store.heap = k₀.store.heap := hout₁.heap
  obtain ⟨j, hj, hne⟩ : ∃ j < osMaxProgramAllocations, j ≠ i := by
    by_cases h0 : i = 0
    · exact ⟨1, by decide, by omega⟩
    · exact ⟨0, by decide, fun he => h0 he.symm⟩
  have hj0 : (Function.update p.allocations i ⟨q, 0⟩ j).ptr = 0 := by
    rw [Function.update_of_ne hne, hnone j hj]
  obtain ⟨i₂, hi₂⟩ := exists_findFree (p := { p with
    allocations := Function.update p.allocations i ⟨q, 0⟩ }) hj hj0
  obtain ⟨hi₂', hptr⟩ := AllocInv.of_findAllocation hi₂
  have hii : i ≠ i₂ := by
    rintro rfl
    simp only [Function.update_self] at hptr
    exact hq hptr
  -- the same block is found again
  have hz₂ := hz k₁.store.mem
  rw [← hheap] at hz₂
  obtain ⟨k₂, hrun₂, -, -⟩ := processMalloc_eq (k := k₁.setProcess 1 (some { p with
      allocations := Function.update p.allocations i ⟨q, 0⟩ })) (by decide)
    setProcess_processes_self hz₂ hq
    ⟨hd₁.ready, hd₁.ne_zero, hd₁.object, hd₁.mapped⟩ hvalid hi₂
  obtain ⟨p', hp', -, hdistinct, -⟩ := hall k₀ _ 1 p c (by decide) hp hd hnone hpages
    (.malloc (.malloc .start trivial hrun₁) trivial hrun₂)
  rw [setProcess_processes_self] at hp'
  cases hp'
  refine hii (hdistinct i hi' i₂ hi₂' ?_ ?_)
  · simp only [Function.update_of_ne hii, Function.update_self]
    exact hq
  · simp only [Function.update_of_ne hii, Function.update_self]

end OwnKernel
