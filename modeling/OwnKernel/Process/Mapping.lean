import OwnKernel.Model.Process
import OwnKernel.Paging.Refinement
import OwnKernel.Task.Owned

/-!
# A program's memory in its directory

Mapping writes entries of the task's own directory and nothing else of
the kernel: `TablesOnly`. `taskMapTo_eq` says which entries one call
writes; the loop over the program headers and the stack follow.
-/

namespace OwnKernel

variable {k k' k'' : Kernel} {c : ChunkView} {task process : Word} {p : Process}

/-- **Only entries of the chunk were written.** -/
structure TablesOnly (c : ChunkView) (k k' : Kernel) : Prop where
  state : k' = { k with store := { k.store with mem := k'.store.mem } }
  out : ∀ x, ¬ c.InTables x → k'.store.mem x = k.store.mem x

namespace TablesOnly

theorem refl (c : ChunkView) (k : Kernel) : TablesOnly c k k := ⟨rfl, fun _ _ => rfl⟩

theorem trans (a : TablesOnly c k k') (b : TablesOnly c k' k'') : TablesOnly c k k'' where
  state := by
    rw [b.state, a.state]
  out x hx := (b.out x hx).trans (a.out x hx)

theorem heap (a : TablesOnly c k k') : k'.store.heap = k.store.heap := by rw [a.state]

theorem tasks (a : TablesOnly c k k') : k'.tasks = k.tasks := by rw [a.state]

theorem processes (a : TablesOnly c k k') : k'.processes = k.processes := by rw [a.state]

theorem elfFiles (a : TablesOnly c k k') : k'.elfFiles = k.elfFiles := by rw [a.state]

end TablesOnly

/-- **The task's page directory is the chunk `c`.** -/
structure HasDirectory (k : Kernel) (task : Word) (c : ChunkView) : Prop where
  ready : k.store.heap.Ready
  ne_zero : task ≠ 0
  object : ∃ t, k.tasks task = some t ∧ t.pageDirectory = c.chunk
  mapped : c.At k.store

/-- A directory stays when its pages do. -/
theorem HasDirectory.of_mem {m : Mem} (h : HasDirectory k task c)
    (hm : ∀ r, c.Has r → ∀ x, InRange r 4096 x → m x = k.store.mem x) :
    HasDirectory { k with store := { k.store with mem := m } } task c :=
  ⟨h.ready, h.ne_zero, h.object, h.mapped.congr h.ready h.mapped.owns (hm _ c.has_chunk)
    (hm _ c.has_directory)⟩

/-- `paging_map_to` in a task's directory, whatever memory holds. -/
theorem taskMapTo_run {t : Task} (h0 : task ≠ 0) (ht : k.tasks task = some t)
    (hd : t.pageDirectory ≠ 0) (v a e flags : Word) :
    taskMapTo task v a e flags k =
      .ok ((pagingMapTo k.store.mem t.pageDirectory v a e flags).1,
        { k with store := { k.store with
          mem := (pagingMapTo k.store.mem t.pageDirectory v a e flags).2 } }) := by
  unfold taskMapTo
  refine Fallible.run_bind.2 ⟨t, k, run_readTask.2 ⟨h0, ht, rfl⟩, ?_⟩
  rw [if_neg hd]
  rfl

/-- **`paging_map_to` in a task's directory** answers by the validity of
the range, and does to the entries what `mapTo` does to the map. -/
theorem HasDirectory.taskMapTo_eq {f : PageMap} (h : HasDirectory k task c) (v a e flags : Word)
    (hf : ∀ page, page < 2 ^ 20 → c.entry k.store.mem page = f page) :
    ∃ k', taskMapTo task v a e flags k =
        .ok (if ValidRange v a e then 0 else -invalidArgumentError, k') ∧
      TablesOnly c k k' ∧ HasDirectory k' task c ∧
      ∀ page, page < 2 ^ 20 → c.entry k'.store.mem page = f.mapTo v a e flags page := by
  obtain ⟨t, ht, hc⟩ := h.object
  obtain ⟨m', hmap, hat, hentry, hout⟩ := h.mapped.pagingMapTo_spec h.ready v a e flags hf
  refine ⟨{ k with store := { k.store with mem := m' } }, ?_, ⟨rfl, hout⟩,
    ⟨h.ready, h.ne_zero, ⟨t, ht, hc⟩, hat⟩, hentry⟩
  unfold taskMapTo
  refine Fallible.run_bind.2 ⟨t, k, run_readTask.2 ⟨h.ne_zero, ht, rfl⟩, ?_⟩
  rw [if_neg (by rw [hc]; exact (h.mapped.owns _ c.has_chunk).ne_zero h.ready),
    Fallible.run_get_bind, hc, hmap]
  rfl

/-- The memory it leaves. -/
theorem HasDirectory.taskMapTo_mem {v a e flags : Word} {res : ℤ} (h : HasDirectory k task c)
    (hrun : taskMapTo task v a e flags k = .ok (res, k')) :
    pagingMapTo k.store.mem c.chunk v a e flags = (res, k'.store.mem) := by
  obtain ⟨t, ht, hc⟩ := h.object
  obtain ⟨t', k₁, hread, hmap⟩ := Fallible.run_bind.1 hrun
  obtain ⟨-, ht', rfl⟩ := run_readTask.1 hread
  rw [ht] at ht'
  cases ht'
  rw [if_neg (by rw [hc]; exact (h.mapped.owns _ c.has_chunk).ne_zero h.ready),
    Fallible.run_get_bind, hc] at hmap
  generalize pagingMapTo k₁.store.mem c.chunk v a e flags = r at hmap ⊢
  obtain ⟨k₂, hset, hret⟩ := Fallible.run_seq.1 hmap
  rw [Fallible.run_set] at hset
  obtain ⟨rfl, rfl⟩ := Fallible.run_pure.1 hret
  rw [hset]

/-- A range that is not valid is not mapped. -/
theorem HasDirectory.taskMapTo_of_not_valid {v a e : Word} (h : HasDirectory k task c) (flags : Word)
    (hv : ¬ ValidRange v a e) : taskMapTo task v a e flags k = .ok (-invalidArgumentError, k) := by
  obtain ⟨t, ht, hc⟩ := h.object
  unfold taskMapTo
  refine Fallible.run_bind.2 ⟨t, k, run_readTask.2 ⟨h.ne_zero, ht, rfl⟩, ?_⟩
  rw [if_neg (by rw [hc]; exact (h.mapped.owns _ c.has_chunk).ne_zero h.ready),
    Fallible.run_get_bind, ChunkView.pagingMapTo_of_not_valid hv]
  rfl

/-! ## The program headers -/

section

variable {file : ElfFile} {phdrs phdr : Word} {fuel i : ℕ} {res : ℤ}

/-- The header at `phdr` has a range `paging_map_to` carries out. -/
def PhdrValid (mem : Mem) (file : ElfFile) (phdr : Word) : Prop :=
  ValidRange (pagingAlignToLowerPage (mem.load32 (phdr + phdrVaddrOffset)))
    (pagingAlignToLowerPage (elfPhdrPhysAddress mem file phdr))
    (pagingAlignAddress
      (elfPhdrPhysAddress mem file phdr + mem.load32 (phdr + phdrMemszOffset)))

instance {mem : Mem} : Decidable (PhdrValid mem file phdr) :=
  inferInstanceAs (Decidable (ValidRange _ _ _))

/-- The memory after a range is mapped. -/
def pagingMapToMem (mem : Mem) (chunk v a e flags : Word) : Mem :=
  match pagingMapTo mem chunk v a e flags with
  | (_, m) => m

theorem pagingMapToMem_of_eq {mem m : Mem} {chunk v a e flags : Word}
    (h : pagingMapTo mem chunk v a e flags = (res, m)) : pagingMapToMem mem chunk v a e flags = m := by
  rw [pagingMapToMem, h]

/-- The memory after the header at `phdr` is mapped. -/
def mapPhdrMem (mem : Mem) (chunk : Word) (file : ElfFile) (phdr : Word) : Mem :=
  pagingMapToMem mem chunk (pagingAlignToLowerPage (mem.load32 (phdr + phdrVaddrOffset)))
    (pagingAlignToLowerPage (elfPhdrPhysAddress mem file phdr))
    (pagingAlignAddress
      (elfPhdrPhysAddress mem file phdr + mem.load32 (phdr + phdrMemszOffset)))
    (phdrPageFlags mem phdr)

/-- The map after the header at `phdr` is mapped. -/
def PageMap.mapPhdr (f : PageMap) (mem : Mem) (file : ElfFile) (phdr : Word) : PageMap :=
  f.mapTo (pagingAlignToLowerPage (mem.load32 (phdr + phdrVaddrOffset)))
    (pagingAlignToLowerPage (elfPhdrPhysAddress mem file phdr))
    (pagingAlignAddress
      (elfPhdrPhysAddress mem file phdr + mem.load32 (phdr + phdrMemszOffset)))
    (phdrPageFlags mem phdr)

/-- Past the last header the loop ends. -/
theorem processMapElfLoop_end
    (hend : (k.store.mem.load16 (file.elfMemory + elfPhnumOffset)).toNat ≤ i) :
    processMapElfLoop p file phdrs (fuel + 1) i res k = .ok (res, k) := by
  rw [processMapElfLoop]
  change (if _ then _ else _ : KernelM ℤ) k = _
  rw [if_pos hend]
  rfl

/-- **One header**: the loop goes on when its range is valid, and ends
with the error when it is not. -/
theorem HasDirectory.processMapElfLoop_round {f : PageMap} (h : HasDirectory k p.task c) (fuel : ℕ)
    (res : ℤ) (hlt : i < (k.store.mem.load16 (file.elfMemory + elfPhnumOffset)).toNat)
    (hphdr : phdrs + BitVec.ofNat 32 i * sizeofElf32Phdr = phdr)
    (hf : ∀ page, page < 2 ^ 20 → c.entry k.store.mem page = f page) :
    ∃ k', processMapElfLoop p file phdrs (fuel + 1) i res k =
        (if PhdrValid k.store.mem file phdr then processMapElfLoop p file phdrs fuel (i + 1) 0 k'
          else .ok (-invalidArgumentError, k')) ∧
      TablesOnly c k k' ∧ HasDirectory k' p.task c ∧
      k'.store.mem = mapPhdrMem k.store.mem c.chunk file phdr ∧
      ∀ page, page < 2 ^ 20 → c.entry k'.store.mem page = f.mapPhdr k.store.mem file phdr page := by
  obtain ⟨k', hmap, hout, h', hentry⟩ := h.taskMapTo_eq
    (pagingAlignToLowerPage (k.store.mem.load32 (phdr + phdrVaddrOffset)))
    (pagingAlignToLowerPage (elfPhdrPhysAddress k.store.mem file phdr))
    (pagingAlignAddress
      (elfPhdrPhysAddress k.store.mem file phdr + k.store.mem.load32 (phdr + phdrMemszOffset)))
    (phdrPageFlags k.store.mem phdr) hf
  refine ⟨k', ?_, hout, h', (pagingMapToMem_of_eq (h.taskMapTo_mem hmap)).symm, hentry⟩
  rw [processMapElfLoop]
  change (if _ then _ else _ : KernelM ℤ) k = _
  rw [if_neg (by omega)]
  simp only [hphdr]
  change Except.bind (taskMapTo _ _ _ _ _ k) _ = _
  rw [hmap]
  by_cases hvalid : PhdrValid k.store.mem file phdr
  · have hvalid' := hvalid
    unfold PhdrValid at hvalid'
    rw [if_pos hvalid, if_pos hvalid']
    rfl
  · have hvalid' := hvalid
    unfold PhdrValid at hvalid'
    rw [if_neg hvalid, if_neg hvalid']
    rfl

/-- The loop over the headers ends, at the latest at the 65535-th,
whatever the headers say. -/
theorem HasDirectory.processMapElfLoop_total (file : ElfFile) (phdrs : Word) :
    ∀ (fuel : ℕ) {i : ℕ} {k : Kernel} (res : ℤ), HasDirectory k p.task c → i < 2 ^ 16 →
      2 ^ 16 ≤ fuel + i →
      ∃ res' k', processMapElfLoop p file phdrs fuel i res k = .ok (res', k') ∧
        TablesOnly c k k' ∧ HasDirectory k' p.task c := by
  intro fuel
  induction fuel with
  | zero => exact fun _ _ hi hfuel => absurd hfuel (by omega)
  | succ fuel ih =>
    intro i k res h hi hfuel
    by_cases hend : (k.store.mem.load16 (file.elfMemory + elfPhnumOffset)).toNat ≤ i
    · exact ⟨res, k, processMapElfLoop_end hend, .refl c k, h⟩
    · have hphnum := (k.store.mem.load16 (file.elfMemory + elfPhnumOffset)).isLt
      have hlt : i < (k.store.mem.load16 (file.elfMemory + elfPhnumOffset)).toNat := by omega
      obtain ⟨k₁, hround, hout, h₁, -⟩ := h.processMapElfLoop_round fuel res hlt rfl
        (f := c.entry k.store.mem) fun _ _ => rfl
      rw [hround]
      by_cases hvalid : PhdrValid k.store.mem file (phdrs + BitVec.ofNat 32 i * sizeofElf32Phdr)
      · obtain ⟨res', k', hloop, hout', h'⟩ := ih (i := i + 1) 0 h₁ (by omega) (by omega)
        exact ⟨res', k', by rw [if_pos hvalid, hloop], hout.trans hout', h'⟩
      · exact ⟨_, k₁, by rw [if_neg hvalid], hout, h₁⟩

end

/-! ## The whole program -/

/-- A process with a program to map: its ELF file, or its bytes. -/
structure ProgramLoaded (k : Kernel) (process : Word) (p : Process) : Prop where
  ne_zero : process ≠ 0
  object : k.processes process = some p
  elf : p.filetype = processFiletypeElf →
    p.ptr ≠ 0 ∧ ∃ f, k.elfFiles p.ptr = some f ∧ f.elfMemory ≠ 0
  filetype : p.filetype = processFiletypeElf ∨ p.filetype = processFiletypeBinary

theorem ProgramLoaded.congr (h : ProgramLoaded k process p) (hp : k'.processes = k.processes)
    (he : k'.elfFiles = k.elfFiles) : ProgramLoaded k' process p where
  ne_zero := h.ne_zero
  object := hp ▸ h.object
  elf := he ▸ h.elf
  filetype := h.filetype

theorem ProgramLoaded.entryReadable (h : ProgramLoaded k process p) : EntryReadable k process :=
  ⟨h.ne_zero, p, h.object, h.elf⟩

/-- The stack is mapped; the answer is the one given. -/
theorem HasDirectory.processMapStack_total (h : HasDirectory k p.task c)
    (hp : ProgramLoaded k process p) (res : ℤ) :
    ∃ k', processMapMemory.processMapStack process res k = .ok (res, k') ∧ TablesOnly c k k' ∧
      HasDirectory k' p.task c := by
  obtain ⟨k₁, hmap, hout, h₁, -⟩ := h.taskMapTo_eq osUserProgramVirtualStackAddressEnd p.stack
    (pagingAlignAddress (p.stack + osUserProgramVirtualStackSize)) userWriteableFlags
    (f := c.entry k.store.mem) fun _ _ => rfl
  exact ⟨k₁, Fallible.run_bind.2 ⟨p, k, run_readProcess.2 ⟨hp.ne_zero, hp.object, rfl⟩,
    Fallible.run_bind.2 ⟨_, k₁, hmap, rfl⟩⟩, hout, h₁⟩

/-- **`process_map_memory` finishes** on a task with a directory, and
writes that directory only. -/
theorem HasDirectory.processMapMemory_total (h : HasDirectory k p.task c)
    (hp : ProgramLoaded k process p) :
    ∃ res k', processMapMemory process k = .ok (res, k') ∧ TablesOnly c k k' ∧
      HasDirectory k' p.task c := by
  have hread : readProcess process k = .ok (p, k) :=
    run_readProcess.2 ⟨hp.ne_zero, hp.object, rfl⟩
  unfold processMapMemory
  rcases hp.filetype with hf | hf
  · -- an ELF file
    obtain ⟨hptr, f, hfile, -⟩ := hp.elf hf
    obtain ⟨res, k₁, hloop, hout, h₁⟩ := h.processMapElfLoop_total f
      ((elfPheader k.store.mem f.elfMemory).run []).1 (2 ^ 16) (i := 0) 0 (by decide) (by decide)
    have helf : processMapElf process k = .ok (res, k₁) :=
      Fallible.run_bind.2 ⟨p, k, hread, Fallible.run_bind.2 ⟨f, k,
        run_readElfFile.2 ⟨hptr, hfile, rfl⟩, hloop⟩⟩
    by_cases hneg : res < 0
    · refine ⟨res, k₁, Fallible.run_bind.2 ⟨p, k, hread, ?_⟩, hout, h₁⟩
      rw [if_pos hf]
      exact Fallible.run_bind.2 ⟨res, k₁, helf, by rw [if_pos hneg]; rfl⟩
    · obtain ⟨k₂, hstack, hout₂, h₂⟩ := h₁.processMapStack_total
        (hp.congr hout.processes hout.elfFiles) res
      refine ⟨res, k₂, Fallible.run_bind.2 ⟨p, k, hread, ?_⟩, hout.trans hout₂, h₂⟩
      rw [if_pos hf]
      exact Fallible.run_bind.2 ⟨res, k₁, helf, by rw [if_neg hneg]; exact hstack⟩
  · -- a binary file
    obtain ⟨k₁, hmap, hout, h₁, -⟩ := h.taskMapTo_eq osProgramVirtualAddress p.ptr
      (pagingAlignAddress (p.ptr + p.size)) userWriteableFlags
      (f := c.entry k.store.mem) fun _ _ => rfl
    have hbin : processMapBinary process k = .ok (0, k₁) :=
      Fallible.run_bind.2 ⟨p, k, hread, Fallible.run_bind.2 ⟨_, k₁, hmap, rfl⟩⟩
    obtain ⟨k₂, hstack, hout₂, h₂⟩ := h₁.processMapStack_total
      (hp.congr hout.processes hout.elfFiles) 0
    refine ⟨0, k₂, Fallible.run_bind.2 ⟨p, k, hread, ?_⟩, hout.trans hout₂, h₂⟩
    rw [if_neg (by rw [hf]; decide), if_pos hf]
    exact Fallible.run_bind.2 ⟨0, k₁, hbin, by rw [if_neg (by decide)]; exact hstack⟩

end OwnKernel
