import OwnKernel.Process.Release
import OwnKernel.Store.Confined

/-!
# The end of a process, and its own block

A process asks for memory and frees it, then it is ended. `ProcessRan`
says what the calls can have changed: of the heap's table the entries of
`T`, which were free when the process was loaded. `ProcessHolds` says what
`process_terminate` frees besides, none of which is the block the process
itself is in: so that one stays taken
(`ProcessHolds.processTerminate_keeps`).
-/

namespace OwnKernel

open Fallible (Keeps)

variable {k k₀ k₁ k' : Kernel} {c : ChunkView} {process ptr size q : Word} {p p₀ : Process}
variable {h : Heap} {T T' : Set ℕ} {b i n : ℕ}

/-! ## What a process has done -/

theorem Heap.PointsTo.mono {h' : Heap} (hp : h.PointsTo T q) (hT : T ⊆ T') (a : h.SamePlace h') :
    h'.PointsTo T' q := by
  obtain ⟨b, hb, hlt, rfl⟩ := hp
  exact ⟨b, hT hb, by rw [a.total]; exact hlt, (a.heapBlockToAddress b).symm⟩

/-- A directory stays when its blocks do. -/
theorem HasDirectory.of_heap {task : Word} (hd : HasDirectory k task c) (r : h.Ready)
    (ho : ∀ q, c.Has q → h.Owns q 1) :
    HasDirectory { k with store := { k.store with heap := h } } task c :=
  ⟨r, hd.ne_zero, hd.object, hd.mapped.congr hd.ready ho (fun _ _ => rfl) fun _ _ => rfl⟩

/-- **A process has asked for memory and freed it since `k₀`**: what it
has changed of the heap's table is confined to `T`, its records are of
blocks of `T`, and its directory is what it was. -/
structure ProcessRan (k₀ k : Kernel) (process : Word) (p₀ : Process) (c : ChunkView) (T : Set ℕ) :
    Prop where
  heap : k₀.store.heap.Confined k.store.heap T
  state : k = { k₀ with store := k.store, processes := k.processes }
  records : ∃ p, RecordsReady k process p ∧ p = { p₀ with allocations := p.allocations } ∧
    ∀ i < osMaxProgramAllocations, (p.allocations i).ptr ≠ 0 →
      k.store.heap.PointsTo T (p.allocations i).ptr
  directory : HasDirectory k p₀.task c

namespace ProcessRan

/-- A process without records has done nothing yet. -/
theorem start (h0 : process ≠ 0) (hp : k.processes process = some p)
    (hnone : ∀ i < osMaxProgramAllocations, p.allocations i = ⟨0, 0⟩) (hd : HasDirectory k p.task c) :
    ProcessRan k k process p c ∅ := by
  obtain ⟨t, ht, hc⟩ := hd.object
  refine ⟨.refl _, rfl, ⟨p, ?_, rfl, fun i hi hne => ?_⟩, hd⟩
  · refine RecordsReady.start h0 hp hd.ready ⟨hd.ne_zero, t, ht, ?_⟩ hnone
    rw [hc]
    exact (hd.mapped.owns _ c.has_chunk).ne_zero hd.ready
  · exact absurd (by rw [hnone i hi]) hne

/-- **`process_malloc`**, of any size. -/
theorem malloc (r : ProcessRan k₀ k process p₀ c T) (hd : HasDirectory k₀ p₀.task c)
    (hrun : processMalloc process size k = .ok (ptr, k')) : ∃ T', ProcessRan k₀ k' process p₀ c T' := by
  obtain ⟨p, hrec, hp, hf⟩ := r.records
  obtain ⟨p', hrec'⟩ := hrec.malloc hrun
  obtain ⟨q, s, hz, hcases⟩ := processMalloc_outcome hrec.task hrec.object hrun
  obtain ⟨T', hT, hconf, hpoints⟩ := r.heap.zalloc hrec.ready hz
  have hext := kernelZalloc_extends hrec.ready hz
  have hstate := r.state
  have hold : ∀ i < osMaxProgramAllocations, (p.allocations i).ptr ≠ 0 →
      s.heap.PointsTo T' (p.allocations i).ptr :=
    fun i hi hne => (hf i hi hne).mono hT hext.place
  have hd₁ : HasDirectory { k with store := s } p₀.task c :=
    ⟨hext.ready hrec.ready, r.directory.ne_zero, r.directory.object,
      (r.directory.mapped.of_extends hrec.ready hext).1⟩
  rcases hcases with ⟨-, -, rfl⟩ | ⟨-, h0, rfl⟩ | ⟨-, h0, -, index, k₁, -, hmap, rfl⟩
  · obtain rfl := Option.some.inj (hrec'.object.symm.trans hrec.object)
    exact ⟨T', hconf, by rw [hstate], ⟨p', hrec', hp, hold⟩, hd₁⟩
  · obtain rfl := Option.some.inj (hrec'.object.symm.trans hrec.object)
    have hfree := hconf.freeBlock (hext.ready hrec.ready) (hpoints h0)
    refine ⟨T', hfree, by rw [hstate], ⟨p', hrec', hp, fun i hi hne => ?_⟩, ?_⟩
    · exact (hold i hi hne).mono (subset_refl T') (s.heap.samePlace_write _)
    · exact hd₁.of_heap (hfree.place.ready hd.ready) fun q hq => hfree.owns (hd.mapped.owns q hq)
  · obtain rfl := Option.some.inj (hrec'.object.symm.trans setProcess_processes_self)
    -- only the tables are written
    have htask : p.task = p₀.task := by rw [hp]
    rw [htask] at hmap
    obtain ⟨k₂, hmap', hout, hd₂, -⟩ := hd₁.taskMapTo_eq q q (pagingAlignAddress (q + size))
      userWriteableFlags (f := c.entry s.mem) fun _ _ => rfl
    rw [hmap] at hmap'
    obtain ⟨-, rfl⟩ := Prod.mk.inj (Except.ok.inj hmap')
    have hheap : k₁.store.heap = s.heap := hout.heap
    refine ⟨T', ?_, ?_, ⟨_, hrec', by rw [hp], fun i hi hne => ?_⟩, ⟨hd₂.ready, hd₂.ne_zero,
      hd₂.object, hd₂.mapped⟩⟩
    · change k₀.store.heap.Confined k₁.store.heap T'
      rw [hheap]
      exact hconf
    · rw [hout.state, hstate]
      rfl
    · change k₁.store.heap.PointsTo T' (Function.update p.allocations index _ i).ptr
      change (Function.update p.allocations index _ i).ptr ≠ 0 at hne
      rw [hheap]
      by_cases hi' : i = index
      · rw [hi', Function.update_self]
        exact hpoints h0
      · rw [Function.update_of_ne hi'] at hne ⊢
        exact hold i hi hne

/-- **`process_free`**, of any pointer. -/
theorem free (r : ProcessRan k₀ k process p₀ c T) (hd : HasDirectory k₀ p₀.task c)
    (hrun : processFree process ptr k = .ok (⟨⟩, k')) : ProcessRan k₀ k' process p₀ c T := by
  obtain ⟨p, hrec, hp, hf⟩ := r.records
  by_cases hptr : p.Recorded ptr
  · obtain ⟨i, hfind⟩ := hptr.exists_find
    obtain ⟨m, t, ht, hm, hrun'⟩ := hrec.free_of_find hfind
    rw [hrun'] at hrun
    cases hrun
    obtain ⟨h0, j, hj, rfl⟩ := hptr
    have hfree := r.heap.freeBlock hrec.ready (hf j hj h0)
    -- only the directory's tables are written
    obtain ⟨t', ht', hc⟩ := r.directory.object
    have htask : p.task = p₀.task := by rw [hp]
    rw [htask] at ht
    obtain rfl : t = t' := Option.some.inj (ht.symm.trans ht')
    obtain ⟨m', hmap, hat, -, -⟩ := r.directory.mapped.pagingMapTo_spec r.directory.ready
      (p.allocations i).ptr (p.allocations i).ptr
      (pagingAlignAddress ((p.allocations i).ptr + (p.allocations i).size)) 0
      (f := c.entry k.store.mem) fun _ _ => rfl
    have hm' : m = m' := by
      rw [hm, hc]
      exact congrArg Prod.snd hmap
    have hd₁ : HasDirectory { k with store := { k.store with mem := m } } p₀.task c :=
      ⟨hrec.ready, r.directory.ne_zero, r.directory.object, hm' ▸ hat⟩
    have hd₂ := hd₁.of_heap (hfree.place.ready hd.ready) fun q hq => hfree.owns (hd.mapped.owns q hq)
    refine ⟨hfree, ?_, ⟨_, hrec.release _ m, ?_, fun j' hj' hne => ?_⟩, hd₂.ready, hd₂.ne_zero,
      hd₂.object, hd₂.mapped⟩
    · rw [r.state]
      rfl
    · unfold Process.allocationUnmark
      rw [hp]
    · have hsame := AllocInv.unmark_of_ne_zero hne
      rw [hsame] at hne ⊢
      exact (hf j' hj' hne).mono (subset_refl T) (k.store.heap.samePlace_write _)
  · rw [hrec.free_of_not_recorded hptr] at hrun
    cases hrun
    exact r

/-- **Any sequence of the two.** -/
theorem of_run {Meets : Word → Prop} (hd : HasDirectory k₀ p₀.task c)
    (r : ProcessRan k₀ k₀ process p₀ c ∅) (hrun : MallocRun Meets process k₀ k) :
    ∃ T, ProcessRan k₀ k process p₀ c T := by
  induction hrun with
  | start => exact ⟨∅, r⟩
  | malloc _ _ hcall ih =>
    obtain ⟨T, ih⟩ := ih
    exact ih.malloc hd hcall
  | free _ hcall ih =>
    obtain ⟨T, ih⟩ := ih
    exact ⟨T, ih.free hd hcall⟩

/-- **The loop of `process_terminate_allocations`** frees, too. -/
theorem terminateLoop (hd : HasDirectory k₀ p₀.task c) : ∀ {n i : ℕ} {k k' : Kernel},
    ProcessRan k₀ k process p₀ c T →
      processTerminateAllocationsLoop process n i k = .ok (⟨⟩, k') →
        ProcessRan k₀ k' process p₀ c T := by
  intro n
  induction n with
  | zero =>
    intro i k k' r hrun
    rw [(Fallible.run_pure.1 hrun).2]
    exact r
  | succ n ih =>
    intro i k k' r hrun
    rw [processTerminateAllocationsLoop] at hrun
    obtain ⟨p, k₁, hread, hrest⟩ := Fallible.run_bind.1 hrun
    rw [(run_readProcess.1 hread).2.2] at hrest
    obtain ⟨k₂, hfree, hloop⟩ := Fallible.run_seq.1 hrest
    exact ih (r.free hd hfree) hloop

/-- **`process_terminate_allocations`** comes back, and has freed. -/
theorem exists_processTerminateAllocations (r : ProcessRan k₀ k process p₀ c T)
    (hd : HasDirectory k₀ p₀.task c) : ∃ k', processTerminateAllocations process k = .ok (0, k') ∧
      ProcessRan k₀ k' process p₀ c T := by
  obtain ⟨p, hrec, -, -⟩ := r.records
  obtain ⟨k', -, -, halloc, -⟩ := processTerminateAllocations_frees hrec
  obtain ⟨k₁, hloop, hpure⟩ := Fallible.run_seq.1 halloc
  obtain ⟨-, rfl⟩ := Fallible.run_pure.1 hpure
  exact ⟨k', halloc, r.terminateLoop hd hloop⟩

end ProcessRan

/-- Freeing a pointer. -/
theorem run_freePointer {u : PUnit} : onStore (kernelFree q) k = .ok (u, k') ↔
    k' = { k with store := { k.store with heap := k.store.heap.write (heapFree k.store.heap q) } } := by
  rw [run_onStore]
  constructor
  · rintro ⟨s, hfree, rfl⟩
    rw [kernelFree_eq] at hfree
    cases hfree
    rfl
  · rintro rfl
    exact ⟨_, kernelFree_eq q k.store, rfl⟩

/-- **`process_unlink`** does not touch the store. -/
theorem keeps_store_processUnlink (s : Store) :
    Keeps (fun k : Kernel => k.store = s) (fun _ => True) (processUnlink process) := by
  refine .bind (fun k hk => ⟨fun _ _ => trivial, fun p k' hrun => ?_⟩) fun _ p _ _ _ => ?_
  · rw [(run_readProcess.1 hrun).2.2]
    exact hk
  refine .ite (fun _ => .throw trivial) fun _ => .bind (.modify fun _ hk => hk) fun _ _ _ _ _ => ?_
  refine .get_bind fun k _ => .ite (fun _ => .get_bind fun k _ => ?_) fun _ => .pure _
  cases (List.range osMaxProcesses).find? fun i => k.processTable i ≠ 0 with
  | none => exact Keeps.throw trivial
  | some i =>
    refine Keeps.bind (x := processSwitch _) (Keeps.bind (.modify fun _ hk => hk)
      fun _ _ _ _ _ => .pure _) fun _ _ _ _ _ => .pure _

/-! ## The end of a process -/

/-- **What a process holds** when it is loaded, entry `b` being the first
of its own: whatever its end frees is apart from that entry. -/
structure ProcessHolds (k : Kernel) (process : Word) (p : Process) (c : ChunkView) (b : ℕ) : Prop where
  ne_zero : process ≠ 0
  object : k.processes process = some p
  records : ∀ i < osMaxProgramAllocations, p.allocations i = ⟨0, 0⟩
  directory : HasDirectory k p.task c
  block : process = heapBlockToAddress k.store.heap b ∧ b < k.store.heap.total
  owns : ∃ n, k.store.heap.Owns process n
  task : k.store.heap.FreedApart b p.task
  tables : ∀ q, c.Has q → k.store.heap.FreedApart b q
  stack : k.store.heap.FreedApart b p.stack
  binary : p.filetype = processFiletypeBinary → k.store.heap.FreedApart b p.ptr
  elf : p.filetype = processFiletypeElf → ∃ file, k.elfFiles p.ptr = some file ∧
    k.store.heap.FreedApart b file.elfMemory ∧ k.store.heap.FreedApart b p.ptr

namespace ProcessHolds

/-- Entry `b` is taken. -/
theorem not_free (o : ProcessHolds k process p c b) : ¬ k.store.heap.Free b := by
  obtain ⟨n, hn⟩ := o.owns
  rw [o.block.1] at hn
  exact hn.not_free_first o.directory.ready o.block.2

/-- Freeing what is apart from it. -/
theorem freed (o : ProcessHolds k₀ process p c b) (f : k₀.store.heap.OnlyFreed h T b)
    (hq : k₀.store.heap.FreedApart b q) : k₀.store.heap.OnlyFreed (h.write (heapFree h q)) T b := by
  obtain ⟨n, hn⟩ := o.owns
  rw [o.block.1] at hn
  exact f.freeBlock o.directory.ready hn o.block.2 hq

/-- **`process_free_program_data`.** -/
theorem freeProgramData (o : ProcessHolds k₀ process p₀ c b) {res : ℤ}
    (f : k₀.store.heap.OnlyFreed k.store.heap T b) (helf : k.elfFiles = k₀.elfFiles)
    (hp : k.processes process = some p) (hp₀ : p = { p₀ with allocations := p.allocations })
    (hrun : processFreeProgramData process k = .ok (res, k')) :
    k₀.store.heap.OnlyFreed k'.store.heap T b ∧
      k' = { k with
        store := { k.store with heap := k'.store.heap }
        elfFiles := k'.elfFiles } := by
  obtain ⟨p', k₁, hread, hrest⟩ := Fallible.run_bind.1 hrun
  obtain ⟨-, hp', rfl⟩ := run_readProcess.1 hread
  obtain rfl : p' = p := Option.some.inj (hp'.symm.trans hp)
  have htype : p'.filetype = p₀.filetype := by rw [hp₀]
  have hptr : p'.ptr = p₀.ptr := by rw [hp₀]
  by_cases hbinary : p'.filetype = processFiletypeBinary
  · rw [if_pos hbinary] at hrest
    obtain ⟨k₂, hfree, hpure⟩ := Fallible.run_seq.1 hrest
    obtain ⟨-, rfl⟩ := Fallible.run_pure.1 hpure
    rw [run_freePointer] at hfree
    rw [hfree]
    refine ⟨o.freed f ?_, rfl⟩
    rw [hptr]
    exact o.binary (htype ▸ hbinary)
  rw [if_neg hbinary] at hrest
  by_cases helf' : p'.filetype = processFiletypeElf
  · rw [if_pos helf'] at hrest
    obtain ⟨k₂, hclose, hpure⟩ := Fallible.run_seq.1 hrest
    obtain ⟨-, rfl⟩ := Fallible.run_pure.1 hpure
    obtain ⟨file, hfile, hmemory, hown⟩ := o.elf (htype ▸ helf')
    unfold elfClose at hclose
    by_cases h0 : p'.ptr = 0
    · rw [if_pos h0] at hclose
      obtain ⟨-, rfl⟩ := Fallible.run_pure.1 hclose
      exact ⟨f, rfl⟩
    rw [if_neg h0] at hclose
    obtain ⟨file', k₃, hreadFile, hrest⟩ := Fallible.run_bind.1 hclose
    obtain ⟨-, hfile', rfl⟩ := run_readElfFile.1 hreadFile
    rw [helf, hptr, hfile] at hfile'
    cases hfile'
    obtain ⟨k₄, hfree₁, hrest⟩ := Fallible.run_seq.1 hrest
    obtain ⟨k₅, hfree₂, hmod⟩ := Fallible.run_seq.1 hrest
    rw [run_freePointer] at hfree₁ hfree₂
    rw [Fallible.run_modify] at hmod
    rw [hmod, hfree₂, hfree₁]
    refine ⟨o.freed (o.freed f hmemory) ?_, rfl⟩
    rw [hptr]
    exact hown
  · rw [if_neg helf'] at hrest
    obtain ⟨-, rfl⟩ := Fallible.run_pure.1 hrest
    exact ⟨f, rfl⟩

/-- **The end of a process leaves the entry of the process itself as it
is**, whatever the process has asked for and freed before. -/
theorem processTerminate_keeps {k₂ k₃ : Kernel} {Meets : Word → Prop} {res : ℤ}
    (o : ProcessHolds k₁ process p c b) (hrun : MallocRun Meets process k₁ k₂)
    (hterm : processTerminate process k₂ = .ok (res, k₃)) :
    k₃.store.heap.SamePlace k₁.store.heap ∧ k₃.store.heap.entries b = k₁.store.heap.entries b := by
  obtain ⟨T, r⟩ := (ProcessRan.start o.ne_zero o.object o.records o.directory).of_run o.directory hrun
  obtain ⟨k₄, halloc, r₄⟩ := r.exists_processTerminateAllocations o.directory
  unfold processTerminate at hterm
  rw [Fallible.bind_ok halloc, if_neg (lt_irrefl 0)] at hterm
  have f₄ := Heap.OnlyFreed.of_confined r₄.heap o.not_free
  have hdone : ∀ {k : Kernel}, k₁.store.heap.OnlyFreed k.store.heap T b →
      k.store.heap.SamePlace k₁.store.heap ∧ k.store.heap.entries b = k₁.store.heap.entries b :=
    fun f => ⟨⟨f.place.total.symm, f.place.start.symm⟩, f.kept⟩
  obtain ⟨res₂, k₅, hdata, hterm⟩ := Fallible.run_bind.1 hterm
  obtain ⟨p₄, hrec₄, hp₄, -⟩ := r₄.records
  obtain ⟨f₅, hk₅⟩ := o.freeProgramData f₄ (by rw [r₄.state]) hrec₄.object hp₄ hdata
  by_cases hneg : res₂ < 0
  · rw [if_pos hneg] at hterm
    obtain ⟨-, rfl⟩ := Fallible.run_pure.1 hterm
    exact hdone f₅
  rw [if_neg hneg] at hterm
  obtain ⟨p₅, k₆, hread, hterm⟩ := Fallible.run_bind.1 hterm
  obtain ⟨-, hp₅, rfl⟩ := run_readProcess.1 hread
  rw [hk₅, hrec₄.object] at hp₅
  obtain rfl := Option.some.inj hp₅
  have hstack : p₄.stack = p.stack := by rw [hp₄]
  have htask : p₄.task = p.task := by rw [hp₄]
  obtain ⟨k₇, hfree, hterm⟩ := Fallible.run_seq.1 hterm
  rw [run_freePointer] at hfree
  have f₇ : k₁.store.heap.OnlyFreed k₇.store.heap T b := by
    rw [hfree]
    exact o.freed f₅ (hstack ▸ o.stack)
  obtain ⟨k₈, htaskFree, hterm⟩ := Fallible.run_seq.1 hterm
  obtain ⟨t, ht, hc⟩ := r₄.directory.object
  have hat : c.At ⟨k₄.store.heap, k₇.store.mem⟩ := by
    rw [hfree]
    change c.At ⟨k₄.store.heap, k₆.store.mem⟩
    rw [hk₅]
    exact r₄.directory.mapped
  have ht₇ : k₇.tasks p₄.task = some t := by
    rw [hfree, htask, ← ht, hk₅]
  have hstore : k₈.store = _ := (congrArg Kernel.store
    (taskFree_spec r₄.directory.ready ht₇ hat hc htaskFree).2).trans freeTask_store
  have f₈ : k₁.store.heap.OnlyFreed k₈.store.heap T b := by
    obtain ⟨n, hn⟩ := o.owns
    rw [o.block.1] at hn
    rw [hstore]
    refine f₇.freeAll o.directory.ready hn o.block.2 fun q hq => ?_
    rcases List.mem_append.1 hq with hq | hq
    · exact o.tables q (ChunkView.mem_pointers.1 hq)
    · rw [List.mem_singleton.1 hq, htask]
      exact o.task
  obtain ⟨k₉, hunlink, hpure⟩ := Fallible.run_seq.1 hterm
  obtain ⟨-, rfl⟩ := Fallible.run_pure.1 hpure
  have hsame := (keeps_store_processUnlink _ _ rfl).2 _ _ hunlink
  exact hdone (hsame ▸ f₈)

end ProcessHolds

/-! ## It comes to its end -/

/-- `process_free_program_data` of a program of one of the two types. -/
theorem exists_processFreeProgramData (h0 : process ≠ 0) (hp : k.processes process = some p)
    (htype : p.filetype = processFiletypeElf ∨ p.filetype = processFiletypeBinary)
    (helf : p.filetype = processFiletypeElf → ∃ file, k.elfFiles p.ptr = some file) :
    ∃ k', processFreeProgramData process k = .ok (0, k') := by
  have hread : readProcess process k = .ok (p, k) := run_readProcess.2 ⟨h0, hp, rfl⟩
  by_cases hbinary : p.filetype = processFiletypeBinary
  · obtain ⟨k', hfree⟩ : ∃ k', onStore (kernelFree p.ptr) k = .ok (⟨⟩, k') :=
      ⟨_, run_freePointer.2 rfl⟩
    refine ⟨k', Fallible.run_bind.2 ⟨p, k, hread, ?_⟩⟩
    rw [if_pos hbinary]
    exact Fallible.run_seq.2 ⟨k', hfree, rfl⟩
  have hfiletype := htype.resolve_right hbinary
  obtain ⟨file, hfile⟩ := helf hfiletype
  obtain ⟨k', hclose⟩ : ∃ k', elfClose p.ptr k = .ok (⟨⟩, k') := by
    unfold elfClose
    by_cases hptr : p.ptr = 0
    · rw [if_pos hptr]
      exact ⟨k, rfl⟩
    · rw [if_neg hptr]
      exact ⟨_, Fallible.run_bind.2 ⟨file, k, run_readElfFile.2 ⟨hptr, hfile, rfl⟩,
        Fallible.run_seq.2 ⟨_, run_freePointer.2 rfl, Fallible.run_seq.2 ⟨_, run_freePointer.2 rfl,
          Fallible.run_modify.2 rfl⟩⟩⟩⟩
  refine ⟨k', Fallible.run_bind.2 ⟨p, k, hread, ?_⟩⟩
  rw [if_neg hbinary, if_pos hfiletype]
  exact Fallible.run_seq.2 ⟨k', hclose, rfl⟩

/-- `process_unlink` of a process that is not the current one. -/
theorem processUnlink_eq (h0 : process ≠ 0) (hp : k.processes process = some p)
    (hid : p.id < osMaxProcesses) (hcurrent : k.currentProcess ≠ process) :
    processUnlink process k =
      .ok (⟨⟩, { k with processTable := Function.update k.processTable p.id 0 }) := by
  refine Fallible.run_bind.2 ⟨p, k, run_readProcess.2 ⟨h0, hp, rfl⟩, ?_⟩
  rw [if_neg (not_le.2 hid)]
  refine Fallible.run_seq.2 ⟨_, Fallible.run_modify.2 rfl, ?_⟩
  rw [Fallible.run_get_bind, if_neg hcurrent]
  rfl

/-- **`process_terminate` comes back**, whatever the process has asked for
and freed, when it is not the current one. -/
theorem ProcessHolds.exists_processTerminate {k₂ : Kernel} {Meets : Word → Prop}
    (o : ProcessHolds k₁ process p c b) (hrun : MallocRun Meets process k₁ k₂)
    (htype : p.filetype = processFiletypeElf ∨ p.filetype = processFiletypeBinary)
    (hid : p.id < osMaxProcesses)
    (hprev : ∀ t, k₁.tasks p.task = some t → t.prev ≠ 0 → ∃ u, k₁.tasks t.prev = some u)
    (hcurrent : k₁.currentProcess ≠ process) : ∃ k₃, processTerminate process k₂ = .ok (0, k₃) := by
  obtain ⟨T, r⟩ := (ProcessRan.start o.ne_zero o.object o.records o.directory).of_run o.directory hrun
  obtain ⟨k₄, halloc, r₄⟩ := r.exists_processTerminateAllocations o.directory
  have f₄ := Heap.OnlyFreed.of_confined r₄.heap o.not_free
  obtain ⟨p₄, hrec₄, hp₄, -⟩ := r₄.records
  have hstate := r₄.state
  have helf₄ : k₄.elfFiles = k₁.elfFiles := by rw [hstate]
  obtain ⟨k₅, hdata⟩ := exists_processFreeProgramData (k := k₄) o.ne_zero hrec₄.object
    (by rw [hp₄]; exact htype) fun hfile => by
      rw [hp₄] at hfile ⊢
      obtain ⟨file, hfile', -⟩ := o.elf hfile
      exact ⟨file, by rw [helf₄]; exact hfile'⟩
  obtain ⟨-, hk₅⟩ := o.freeProgramData f₄ helf₄ hrec₄.object hp₄ hdata
  have hp₅ : k₅.processes process = some p₄ := by
    rw [hk₅]
    exact hrec₄.object
  obtain ⟨t, ht, hc⟩ := r₄.directory.object
  have htask : p₄.task = p.task := by rw [hp₄]
  have htasks : k₅.tasks = k₁.tasks := by
    rw [hk₅, hstate]
  -- the stack is freed, and the task
  obtain ⟨k₆, hk₆⟩ : ∃ k₆ : Kernel, k₆ = { k₅ with store := { k₅.store with
      heap := k₅.store.heap.write (heapFree k₅.store.heap p₄.stack) } } := ⟨_, rfl⟩
  have hat : c.At ⟨k₄.store.heap, k₆.store.mem⟩ := by
    rw [hk₆, hk₅]
    exact r₄.directory.mapped
  have ht₁ : k₁.tasks p₄.task = some t := by
    rw [htask, ← ht, hstate]
  have hfree := taskFree_eq (k := k₆) (t := t) r₄.directory.ready (htask ▸ o.directory.ne_zero)
    (by rw [hk₆, htasks]; exact ht₁) hat hc fun hne => by
      rw [hk₆, htasks]
      exact hprev t (htask ▸ ht₁) hne
  obtain ⟨k₃, hunlink⟩ : ∃ k₃, processUnlink process (k₆.freeTask p₄.task t c) = .ok (⟨⟩, k₃) :=
    ⟨_, processUnlink_eq (k := k₆.freeTask p₄.task t c) (p := p₄) o.ne_zero
    (by rw [hk₆]; exact hp₅) (by rw [hp₄]; exact hid) (by
      rw [hk₆, hk₅, hstate]
      exact hcurrent)⟩
  refine ⟨k₃, Fallible.run_bind.2 ⟨0, k₄, halloc, ?_⟩⟩
  rw [if_neg (lt_irrefl 0)]
  refine Fallible.run_bind.2 ⟨0, k₅, hdata, ?_⟩
  rw [if_neg (lt_irrefl 0)]
  refine Fallible.run_bind.2 ⟨p₄, k₅, run_readProcess.2 ⟨o.ne_zero, hp₅, rfl⟩, ?_⟩
  exact Fallible.run_seq.2 ⟨k₆, run_freePointer.2 hk₆, Fallible.run_seq.2 ⟨_, hfree,
    Fallible.run_seq.2 ⟨k₃, hunlink, rfl⟩⟩⟩

end OwnKernel
