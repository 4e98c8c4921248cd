import OwnKernel.System.Calls
import OwnKernel.System.Pages

/-!
# A process comes to the others

`process_load_for_slot` takes the blocks of a new process one after the
other, each beside those there are. So it spares the blocks of the other
processes whatever comes of it, and a process that it enters in the table
holds blocks of its own (`SystemInv.load`).
-/

namespace OwnKernel

variable {K P R : Set Word} {k k₀ k₁ k₂ k' : Kernel} {c : ChunkView} {process task out x : Word}
variable {p p' : Process} {res slot : ℤ} {image : Sectors} {filename : Cstring}
variable {procs procs' : ℕ → Process} {view view' : ℕ → ChunkView} {n : ℕ}

/-! ## One block after the other -/

/-- The order in which the blocks are taken. -/
def Holding.rank : Holding → ℕ
  | .process => 0
  | .elfFile => 1
  | .image => 2
  | .stack => 3
  | .task => 4
  | .table => 5
  | .record => 6

theorem Holding.rank_injective : Function.Injective Holding.rank := by
  intro h h' heq
  cases h <;> cases h' <;> first | rfl | cases heq

/-- The blocks there are when those of a kind are taken, `P` being those of
the others. -/
def takenBefore (k : Kernel) (process : Word) (p : Process) (P : Set Word) : Holding → Set Word
  | .process => P
  | .elfFile => insert process P
  | .image => {x | p.filetype = processFiletypeElf ∧ x = p.ptr} ∪ insert process P
  | .stack => insert (k.programMemory p)
      ({x | p.filetype = processFiletypeElf ∧ x = p.ptr} ∪ insert process P)
  | .task => insert p.stack (insert (k.programMemory p)
      ({x | p.filetype = processFiletypeElf ∧ x = p.ptr} ∪ insert process P))
  | .table | .record => insert p.task (insert p.stack (insert (k.programMemory p)
      ({x | p.filetype = processFiletypeElf ∧ x = p.ptr} ∪ insert process P)))

theorem subset_takenBefore (h : Holding) : P ⊆ takenBefore k process p P h := by
  intro x hx
  cases h <;> simp [takenBefore, hx]

/-- What is held is there for those that come later. -/
theorem Held.mem_takenBefore {h h' : Holding} (hx : Held k process p c x h)
    (hlt : h.rank < h'.rank) (hnone : ∀ j < osMaxProgramAllocations, p.allocations j = ⟨0, 0⟩)
    (htable : h = .table → h' ≠ .record) : x ∈ takenBefore k process p P h' := by
  cases hx with
  | process => cases h' <;> simp [takenBefore, Holding.rank] at hlt ⊢
  | elfFile helf => cases h' <;> simp [takenBefore, Holding.rank, helf] at hlt ⊢
  | image => cases h' <;> simp [takenBefore, Holding.rank] at hlt ⊢
  | stack => cases h' <;> simp [takenBefore, Holding.rank] at hlt ⊢
  | task => cases h' <;> simp [takenBefore, Holding.rank] at hlt ⊢
  | table hin => cases h' <;> simp [Holding.rank] at hlt htable
  | record hj h0 =>
    rw [hnone _ hj] at h0
    exact absurd rfl h0

/-- **Blocks that are taken one after the other are different.** -/
theorem held_distinct (hnone : ∀ j < osMaxProgramAllocations, p.allocations j = ⟨0, 0⟩)
    (hnew : ∀ x h, Held k process p c x h → x ∉ takenBefore k process p P h) {h h' : Holding}
    (hx : Held k process p c x h) (hx' : Held k process p c x h') : h = h' := by
  have hrecord : ∀ {h}, Held k process p c x h → h ≠ .record := by
    rintro _ hx rfl
    cases hx with
    | record hj h0 =>
      rw [hnone _ hj] at h0
      exact h0 rfl
  apply Holding.rank_injective
  rcases lt_trichotomy h.rank h'.rank with hlt | heq | hlt
  · exact absurd (hx.mem_takenBefore hlt hnone fun _ => hrecord hx') (hnew x h' hx')
  · exact heq
  · exact absurd (hx'.mem_takenBefore hlt hnone fun _ => hrecord hx) (hnew x h hx)

/-! ## From the task on -/

/-- **`process_load_for_slot` from the creation of the task on**: the task
is made and the program mapped into its directory, and then the process is
entered in the table, or the task is freed again. -/
theorem processLoadTask_cases (r : k.store.heap.Ready) (hp : k.processes process = some p)
    (hrun : processLoadTask process slot k = .ok ((res, out), k')) :
    ∃ task c k₁ k₂, taskNew process k = .ok (task, k₁) ∧ TaskBuilt k k₁ task process c ∧
      ProgramLoaded k process p ∧
      processMapMemory process (k₁.setProcess process (some { p with task := task })) =
        .ok (res, k₂) ∧
      TablesOnly c (k₁.setProcess process (some { p with task := task })) k₂ ∧
      HasDirectory k₂ task c ∧
      ((res < 0 ∧ ∃ t, k₂.tasks task = some t ∧ k' = k₂.freeTask task t c) ∨
        (0 ≤ res ∧ out = process ∧ k' = { k₂ with
          processTable := Function.update k₂.processTable slot.toNat process })) := by
  obtain ⟨task, k₁, hnew, hrun⟩ := Fallible.run_bind.1 hrun
  obtain ⟨hproc, p', hp', helf⟩ := entryReadable_of_taskNew r hnew
  obtain rfl : p' = p := Option.some.inj (hp'.symm.trans hp)
  obtain ⟨c, hb⟩ := taskNew_built r hnew
  have hprocesses : k₁.processes = k.processes := by rw [hb.state]
  have helfFiles : k₁.elfFiles = k.elfFiles := by rw [hb.state]
  have hready₁ := hb.store.ready r
  have htask := hb.owns.ne_zero hready₁
  rw [if_neg htask] at hrun
  obtain ⟨k₂, hset, hrun⟩ := Fallible.run_seq.1 hrun
  obtain ⟨-, q, hq, rfl⟩ := run_modifyProcess.1 hset
  rw [hprocesses, hp'] at hq
  obtain rfl := Option.some.inj hq
  obtain ⟨mapped, k₃, hmap, hrun⟩ := Fallible.run_bind.1 hrun
  have hftype := filetype_of_processMapMemory (p := { p' with task := task })
    setProcess_processes_self hmap
  have hloaded : ProgramLoaded (k₁.setProcess process (some { p' with task := task })) process
      { p' with task := task } :=
    ⟨hproc, setProcess_processes_self, fun hf => by
      obtain ⟨hptr, f, hfile, hmem⟩ := helf hf
      exact ⟨hptr, f, by rw [← hfile]; exact congrFun helfFiles _, hmem⟩, hftype⟩
  have hd : HasDirectory (k₁.setProcess process (some { p' with task := task })) task c :=
    ⟨hready₁, htask, hb.exists_task, hb.mapped⟩
  obtain ⟨mapped', k₄, hmap', hout, hd'⟩ := HasDirectory.processMapMemory_total
    (p := { p' with task := task }) hd hloaded
  rw [hmap] at hmap'
  obtain ⟨rfl, rfl⟩ := Prod.mk.inj (Except.ok.inj hmap')
  have hcase : mapped = res ∧ ((mapped < 0 ∧ ∃ t, k₃.tasks task = some t ∧
      k' = k₃.freeTask task t c) ∨ (0 ≤ mapped ∧ out = process ∧ k' = { k₃ with
        processTable := Function.update k₃.processTable slot.toNat process })) := by
    by_cases hneg : mapped < 0
    · -- the task is freed
      rw [if_pos hneg] at hrun
      unfold processLoadOut at hrun
      rw [if_pos hneg] at hrun
      obtain ⟨p₅, k₅, hread, hrun⟩ := Fallible.run_bind.1 hrun
      obtain ⟨-, hp₅, rfl⟩ := run_readProcess.1 hread
      rw [hout.processes, setProcess_processes_self] at hp₅
      obtain rfl := Option.some.inj hp₅
      obtain ⟨k₆, hfree, hpure⟩ := Fallible.run_seq.1 hrun
      obtain ⟨hres, rfl⟩ := Fallible.run_pure.1 hpure
      rw [if_neg htask] at hfree
      obtain ⟨t, ht, hc⟩ := hd'.object
      exact ⟨(congrArg Prod.fst hres).symm, Or.inl ⟨hneg, t, ht,
        (taskFree_spec hd'.ready ht hd'.mapped hc hfree).2⟩⟩
    · rw [if_neg hneg] at hrun
      by_cases hslot : slot < 0 ∨ (osMaxProcesses : ℤ) ≤ slot
      · rw [if_pos hslot] at hrun
        exact absurd hrun Fallible.run_throw
      rw [if_neg hslot] at hrun
      obtain ⟨k₅, hmod, hpure⟩ := Fallible.run_seq.1 hrun
      obtain ⟨hres, rfl⟩ := Fallible.run_pure.1 hpure
      rw [Fallible.run_modify] at hmod
      exact ⟨(congrArg Prod.fst hres).symm, Or.inr ⟨not_lt.1 hneg, congrArg Prod.snd hres, hmod⟩⟩
  obtain ⟨rfl, hcases⟩ := hcase
  exact ⟨task, c, k₁, k₃, hnew, hb, ⟨hproc, hp', helf, hftype⟩, hmap, hout, hd', hcases⟩

/-- It spares the blocks that are not the process's, and either enters the
process in the table or leaves the table as it was. -/
theorem Spares.processLoadTask (a : Spares R P k₀ k) (hprocess : process ∉ P)
    (hp : k.processes process = some p)
    (hrun : OwnKernel.processLoadTask process slot k = .ok ((res, out), k')) :
    Spares R P k₀ k' ∧ k'.currentProcess = k.currentProcess ∧
      ((res < 0 ∧ k'.processTable = k.processTable) ∨ (0 ≤ res ∧ out = process ∧
        k'.processTable = Function.update k.processTable slot.toNat process)) := by
  obtain ⟨task, c, k₁, k₂, -, hb, -, -, hout, hd, hcases⟩ := processLoadTask_cases a.ready hp hrun
  have hfresh : ∀ x, c.Has x → x ∉ P := fun x hx => a.not_mem_of_fresh (hb.chunk_fresh x hx)
  have a₂ := ((a.taskBuilt hb).setProcess (p := some { p with task := task }) hprocess).tables
    hb.mapped hfresh hout
  have hstate : k₂.processTable = k.processTable ∧ k₂.currentProcess = k.currentProcess ∧
      k₂.objects = k.objects := by
    rw [hout.state]
    change k₁.processTable = _ ∧ k₁.currentProcess = _ ∧ k₁.objects = _
    rw [hb.state]
    exact ⟨rfl, rfl, rfl⟩
  obtain ⟨hneg, t, -, rfl⟩ | ⟨hres, hown, rfl⟩ := hcases
  · have ho : k₂.store.heap.Owns task 1 := by
      rw [hout.heap]
      exact hb.owns
    refine ⟨a₂.freeTask hd.mapped ho hb.apart (a.not_mem_of_fresh hb.fresh) hfresh fun x hx => ?_,
      hstate.2.1, Or.inl ⟨hneg, hstate.1⟩⟩
    rw [hstate.2.2]
    obtain hin | rfl := hx
    · exact a.files.objects_of_fresh (hb.chunk_fresh x hin)
    · exact a.files.objects_of_fresh hb.fresh
  · refine ⟨⟨a₂.files, a₂.place, a₂.owned, a₂.owns, a₂.mem, a₂.objects, a₂.processes, a₂.elfFiles,
      a₂.directories, a₂.registers, a₂.disk⟩, hstate.2.1, Or.inr ⟨hres, hown, ?_⟩⟩
    change Function.update k₂.processTable _ _ = _
    rw [hstate.1]

/-! ## The new process -/

/-- **The ELF file of a process keeps to its blocks**, as it lies in
memory. -/
def ProgramInBlocks (k : Kernel) (process : Word) : Prop :=
  ∀ p file n, k.processes process = some p → p.filetype = processFiletypeElf →
    k.elfFiles p.ptr = some file → k.store.heap.Owns file.elfMemory n →
      SegmentsInBlocks k.store.mem file.elfMemory n

/-- **A process with its program and its stack**, before its task is made:
its blocks have been taken one after the other. -/
structure Prepared (R P : Set Word) (k : Kernel) (process : Word) (p : Process) : Prop where
  ne_zero : process ≠ 0
  object : k.processes process = some p
  records : ∀ j < osMaxProgramAllocations, p.allocations j = ⟨0, 0⟩
  live : Spares R (takenBefore k process p P .task) k k
  process_new : process ∉ P
  elfFile_new : p.filetype = processFiletypeElf → p.ptr ∉ takenBefore k process p P .elfFile
  image_new : k.programMemory p ∉ takenBefore k process p P .image
  stack_new : p.stack ∉ takenBefore k process p P .stack
  stack : k.store.heap.Owns p.stack 4
  elf : p.filetype = processFiletypeElf →
    ∃ file, k.elfFiles p.ptr = some file ∧ HeaderValid k.store.mem file.elfMemory
  binary : p.filetype = processFiletypeBinary →
    k.store.heap.Owns p.ptr (blocksFor p.size.toNat)

namespace Prepared

variable (h : Prepared R P k process p) (hp' : p' = { p with task := task })
  (hmemory : k'.programMemory p' = k.programMemory p)
include h hp' hmemory

omit h in
/-- The blocks before its task are the same with the task. -/
theorem takenBefore_eq {g : Holding} (ht : g ≠ .table) (hr : g ≠ .record) :
    takenBefore k' process p' P g = takenBefore k process p P g := by
  have htype : p'.filetype = p.filetype := by rw [hp']
  have hptr : p'.ptr = p.ptr := by rw [hp']
  have hstack : p'.stack = p.stack := by rw [hp']
  cases g <;> simp [takenBefore, hmemory, htype, hptr, hstack] at ht hr ⊢

/-- What it holds has been taken before its task, if it is not part of
it. -/
theorem mem_of_held {g : Holding} (hx : Held k' process p' c x g) (hlt : g.rank < 4) :
    x ∈ takenBefore k process p P .task := by
  rw [← takenBefore_eq hp' hmemory (by decide) (by decide)]
  refine hx.mem_takenBefore hlt ?_ fun hg => ?_
  · rw [hp']
    exact h.records
  · rw [hg] at hlt
    exact absurd hlt (by decide)

/-- **With a task of new blocks**, each of its blocks is another one. -/
theorem held_new (htask : task ∉ takenBefore k process p P .task)
    (htables : ∀ x, c.Has x → x ∉ takenBefore k process p P .task) (hap : ¬ c.Has task) {g : Holding}
    (hx : Held k' process p' c x g) : x ∉ takenBefore k' process p' P g := by
  cases hx with
  | process =>
    rw [takenBefore_eq hp' hmemory (by decide) (by decide)]
    exact h.process_new
  | elfFile helf =>
    rw [takenBefore_eq hp' hmemory (by decide) (by decide)]
    rw [hp'] at helf ⊢
    exact h.elfFile_new helf
  | image =>
    rw [takenBefore_eq hp' hmemory (by decide) (by decide), hmemory]
    exact h.image_new
  | stack =>
    rw [takenBefore_eq hp' hmemory (by decide) (by decide), hp']
    exact h.stack_new
  | task =>
    rw [takenBefore_eq hp' hmemory (by decide) (by decide), hp']
    exact htask
  | table hin =>
    have hlast : takenBefore k' process p' P .table =
        insert task (takenBefore k process p P .task) := by
      rw [← takenBefore_eq hp' hmemory (by decide) (by decide)]
      have htask' : p'.task = task := by rw [hp']
      rw [← htask']
      rfl
    rw [hlast]
    rintro (rfl | hbefore)
    · exact hap hin
    · exact htables _ hin hbefore
  | record hj h0 =>
    rw [hp'] at h0
    rw [h.records _ hj] at h0
    exact absurd rfl h0

end Prepared

/-- **What its directory lets the user write** when its program is mapped:
pages of its program and of its stack. -/
theorem Prepared.writeable (h : Prepared R P k process p) (hp' : p' = { p with task := task })
    (hb : TaskBuilt k k₁ task process c) (hloaded : ProgramLoaded k process p)
    (hrun : processMapMemory process (k₁.setProcess process (some p')) = .ok (res, k₂))
    (hres : 0 ≤ res) (hout : TablesOnly c (k₁.setProcess process (some p')) k₂)
    (hfits : ∀ file n, k.elfFiles p.ptr = some file → p.filetype = processFiletypeElf →
      k₂.store.heap.Owns file.elfMemory n → SegmentsInBlocks k₂.store.mem file.elfMemory n)
    {page : ℕ} (hpage : page < 2 ^ 20) (hw : UserWriteable (c.entry k₂.store.mem page)) :
    ∃ x n, (x = k.programMemory p ∨ x = p.stack) ∧ k₂.store.heap.Owns x n ∧
      InRange x (4096 * n) (c.entry k₂.store.mem page &&& pagingAddressMask) := by
  obtain ⟨k₁', hk₁'⟩ : ∃ k₁', k₁' = k₁.setProcess process (some p') := ⟨_, rfl⟩
  rw [← hk₁'] at hrun hout
  have hstore : k₁'.store = k₁.store := by rw [hk₁']; rfl
  have hobject : k₁'.processes process = some p' := by
    rw [hk₁']
    exact setProcess_processes_self
  have hd : HasDirectory k₁' p'.task c := by
    rw [hk₁', hp']
    exact ⟨hb.store.ready h.live.ready, hb.owns.ne_zero (hb.store.ready h.live.ready), hb.exists_task,
      hb.mapped⟩
  have hheap : k₂.store.heap = k₁'.store.heap := hout.heap
  have hstack : k₁'.store.heap.Owns p'.stack 4 := by
    rw [hstore, hp']
    exact hb.store.owns _ _ h.stack
  have hbase : ∀ page < 2 ^ 20, ¬ UserWriteable (c.entry k₁'.store.mem page) := by
    intro page hpage
    rw [hstore, hb.entries page hpage]
    exact not_userWriteable_identityEntry page
  obtain helf | hbinary := hloaded.filetype
  · -- an ELF file
    obtain ⟨file, hfile, hvalid⟩ := h.elf helf
    obtain ⟨hptr, file', hfile', -⟩ := hloaded.elf helf
    have hmemory : k.programMemory p = file.elfMemory := by
      unfold Kernel.programMemory
      rw [if_pos helf, hfile]
      rfl
    have hin : file.elfMemory ∈ takenBefore k process p P .task := by
      rw [← hmemory]
      exact Or.inr (Set.mem_insert _ _)
    obtain ⟨n, hn⟩ := h.live.owned _ hin
    have hn₁ := hb.store.owns _ _ hn
    have hap : ¬ c.Has file.elfMemory := fun hc => hb.chunk_fresh _ hc n hn
    have hmem₁ : ∀ x, InRange file.elfMemory (4096 * n) x → k₁'.store.mem x = k.store.mem x := by
      intro x hx
      rw [hstore]
      exact hb.store.mem _ _ hn x hx
    have hsame : ∀ x, InRange file.elfMemory (4096 * n) x → k₁'.store.mem x = k₂.store.mem x := by
      intro x hx
      refine (hout.out x (not_inTables_of_owns hd.ready hd.mapped ?_ hap hx)).symm
      rw [hstore]
      exact hn₁
    have hloaded' : ElfLoaded k₁' process p' file c n := by
      refine ⟨hd, h.ne_zero, hobject, by rw [hp']; exact hptr, ?_, ?_, by rw [hstore]; exact hn₁, hap⟩
      · rw [hk₁', hp']
        change k₁.elfFiles _ = _
        rw [hb.state]
        exact hfile
      · refine (headerValid_block fun x hx => hmem₁ x ?_).2 hvalid
        have hblocks := hn.pos
        unfold InRange at hx ⊢
        omega
    have helf' : p'.filetype = processFiletypeElf := by rw [hp']; exact helf
    obtain rfl := hloaded'.processMapMemory_eq_zero helf' hrun hres
    have hn₂ : k₂.store.heap.Owns file.elfMemory n := by
      rw [hheap, hstore]
      exact hn₁
    obtain hprogram | hstack' := hloaded'.writeable helf' hrun
      ((hfits file n hfile helf hn₂).congr hn.pos hsame) hbase hstack hpage hw
    · exact ⟨file.elfMemory, n, Or.inl hmemory.symm, hn₂, hprogram⟩
    · refine ⟨p.stack, 4, Or.inr rfl, ?_, ?_⟩
      · rw [hheap, hstore]
        exact hb.store.owns _ _ h.stack
      · rw [hp'] at hstack'
        exact hstack'
  · -- a binary file
    have hmemory : k.programMemory p = p.ptr := by
      unfold Kernel.programMemory
      rw [if_neg (by rw [hbinary]; decide)]
    have hown := hb.store.owns _ _ (h.binary hbinary)
    have hptr : p'.ptr = p.ptr := by rw [hp']
    obtain hprogram | hstack' := processMapMemory_binary_writeable hd hobject
      (by rw [hp']; exact hbinary) hrun (n := blocksFor p.size.toNat)
      (by rw [hstore, hptr]; exact hown) (by rw [hp']; exact le_blocksFor_mul _) hbase hstack hpage hw
    · refine ⟨p.ptr, _, Or.inl hmemory.symm, ?_, hptr ▸ hprogram⟩
      rw [hheap, hstore]
      exact hown
    · refine ⟨p.stack, 4, Or.inr rfl, ?_, ?_⟩
      · rw [hheap, hstore]
        exact hb.store.owns _ _ h.stack
      · rw [hp'] at hstack'
        exact hstack'

/-- **A prepared process that is entered in the table is in order**, and
holds none of the blocks there were. -/
theorem Prepared.slotInv (h : Prepared R P k process p) (hslot : slot.toNat = p.id)
    (hrun : processLoadTask process slot k = .ok ((res, out), k')) (hres : 0 ≤ res)
    (hfits : ProgramInBlocks k' process) :
    ∃ p' c, SlotInv k' p.id p' c ∧ ∀ x h, Held k' process p' c x h → x ∉ P := by
  obtain ⟨task, c, k₁, k₂, -, hb, hloaded, hmap, hout, hd, hcases⟩ :=
    processLoadTask_cases h.live.ready h.object hrun
  obtain ⟨hneg, -⟩ | ⟨-, -, hk'⟩ := hcases
  · exact absurd hres (not_le.2 hneg)
  obtain ⟨p', hp'⟩ : ∃ p' : Process, p' = { p with task := task } := ⟨_, rfl⟩
  rw [← hp'] at hmap hout
  have htables : ∀ x, c.Has x → x ∉ takenBefore k process p P .task := fun x hx =>
    h.live.not_mem_of_fresh (hb.chunk_fresh x hx)
  -- what is where
  have hprocesses : k'.processes process = some p' := by
    rw [hk']
    change k₂.processes process = _
    rw [hout.processes]
    exact setProcess_processes_self
  have helfFiles : k'.elfFiles = k.elfFiles := by
    rw [hk']
    change k₂.elfFiles = _
    rw [hout.elfFiles]
    change k₁.elfFiles = _
    rw [hb.state]
  have hobjects : k'.objects = k.objects := by
    rw [hk']
    change k₂.objects = _
    rw [hout.state]
    change k₁.objects = _
    rw [hb.state]
  have hstore : k'.store = k₂.store := by rw [hk']
  have hheap : k₂.store.heap = k₁.store.heap := hout.heap
  have hself : k'.processTable p.id = process := by
    rw [hk', ← hslot]
    exact Function.update_self ..
  have hmemory : k'.programMemory p' = k.programMemory p := by
    rw [hp']
    exact programMemory_congr fun _ => congrFun helfFiles _
  have hnone : ∀ j < osMaxProgramAllocations, p'.allocations j = ⟨0, 0⟩ := by
    rw [hp']
    exact h.records
  have hnull : ∀ j < osMaxProgramAllocations, (p'.allocations j).ptr = 0 := by
    intro j hj
    rw [hnone j hj]
  have hnew : ∀ x g, Held k' process p' c x g → x ∉ takenBefore k' process p' P g := fun x g =>
    h.held_new hp' hmemory (h.live.not_mem_of_fresh hb.fresh) htables hb.apart
  have howned : ∀ x g, Held k' process p' c x g →
      (∃ n, k'.store.heap.Owns x n) ∧ k'.objects x = none := by
    intro x g hx
    rw [hstore, hobjects, hheap]
    have hfresh : ∀ {x}, k.store.heap.Fresh x → k.objects x = none := h.live.files.objects_of_fresh
    by_cases hlt : g.rank < 4
    · have hin := h.mem_of_held hp' hmemory hx hlt
      exact ⟨(h.live.owned x hin).imp fun n hn => hb.store.owns x n hn, h.live.objects x hin⟩
    · cases hx with
      | process | elfFile | image | stack => exact absurd (by decide) hlt
      | task =>
        rw [hp']
        exact ⟨⟨1, hb.owns⟩, hfresh hb.fresh⟩
      | table hin => exact ⟨⟨1, hb.mapped.owns x hin⟩, hfresh (hb.chunk_fresh x hin)⟩
      | record hj h0 => exact absurd (hnull _ hj) h0
  refine ⟨p', c, ⟨by rw [hself]; exact h.ne_zero, by rw [hself]; exact hprocesses, by rw [hp'],
    ⟨by rw [hstore]; exact hd.ready, by rw [hp']; exact hd.ne_zero, by rw [hk', hp']; exact hd.object,
      by rw [hstore]; exact hd.mapped⟩, fun x g hx => howned x g (hself ▸ hx),
    fun x g g' hx hx' => ?_, ⟨fun j hj _ => hnone j hj, fun j hj h0 => absurd (hnull j hj) h0,
      fun j hj h0 => absurd (hnull j hj) h0, fun j hj _ _ h0 => absurd (hnull j hj) h0⟩,
    fun page hpage hw => ?_, fun j hj page hcov => absurd (hnull j hj) hcov.1, ?_, ?_⟩,
    fun x g hx hin => hnew x g hx (subset_takenBefore g hin)⟩
  · rw [hself] at hx hx'
    exact held_distinct hnone hnew hx hx'
  · rw [hstore] at hw ⊢
    obtain ⟨x, n, hx, hn, hframe⟩ := h.writeable hp' hb hloaded hmap hres hout
      (fun file n hfile helf hn => by
        rw [← hstore] at hn ⊢
        refine hfits p' file n hprocesses (by rw [hp']; exact helf) ?_ hn
        rw [helfFiles, hp']
        exact hfile) hpage hw
    obtain rfl | rfl := hx
    · refine ⟨k.programMemory p, .image, n, ?_, Or.inl rfl, by rw [hstore]; exact hn, hframe,
        fun hne => Holding.noConfusion hne⟩
      rw [← hmemory]
      exact .image
    · refine ⟨p.stack, .stack, n, ?_, Or.inr (Or.inl rfl), by rw [hstore]; exact hn, hframe,
        fun hne => Holding.noConfusion hne⟩
      have hheld : Held k' (k'.processTable p.id) p' c p'.stack .stack := .stack
      rw [hp'] at hheld ⊢
      exact hheld
  · rw [hstore]
    exact ChunkView.OpenDirectory.tables (k := k₁.setProcess process (some p')) hb.opened hb.mapped
      (hb.store.ready h.live.ready) hout
  · obtain ⟨t, ht, -, hprocess⟩ := hb.object
    refine ⟨t, ?_, by rw [hself]; exact hprocess⟩
    rw [hk', hp']
    change k₂.tasks task = _
    rw [hout.state]
    exact ht

/-! ## All of it -/

/-- The blocks of a program that is loaded. -/
theorem ProgramIn.live (g : ProgramIn (insert process P) k p) (b : Spares R (insert process P) k k)
    (helf : p.filetype = processFiletypeElf →
      ∃ f, k.elfFiles p.ptr = some f ∧ f.elfMemory ≠ 0) :
    Spares R (takenBefore k process p P .stack) k k ∧
      (p.filetype = processFiletypeElf → p.ptr ∉ takenBefore k process p P .elfFile) ∧
      k.programMemory p ∉ takenBefore k process p P .image := by
  obtain hfile | hbinary := g.filetype
  · obtain ⟨file, hf⟩ := g.elf hfile
    obtain ⟨file', hfile', hne⟩ := helf hfile
    rw [hf.object] at hfile'
    obtain rfl := Option.some.inj hfile'
    obtain ⟨hnew, hown, hobject, -⟩ := hf.memory hne
    have hmemory : k.programMemory p = file.elfMemory := by
      unfold Kernel.programMemory
      rw [if_pos hfile, hf.object]
      rfl
    refine ⟨((b.add hf.owned.1 hf.owned.2).add hown hobject).mono ?_, fun _ => hf.not_mem, ?_⟩
    · rintro x (rfl | ⟨-, rfl⟩ | hx)
      · rw [hmemory]
        exact Or.inl rfl
      · exact Or.inr (Or.inl rfl)
      · exact Or.inr (Or.inr hx)
    · rw [hmemory]
      rintro (⟨-, hptr⟩ | hx)
      · exact hnew (Or.inl hptr)
      · exact hnew (Or.inr hx)
  · obtain ⟨hnew, hown, hobject⟩ := g.binary hbinary
    have hne : p.filetype ≠ processFiletypeElf := by
      rw [hbinary]
      decide
    have hmemory : k.programMemory p = p.ptr := if_neg hne
    refine ⟨(b.add ⟨_, hown⟩ hobject).mono ?_, fun hfile => absurd hfile hne, ?_⟩
    · rintro x (rfl | ⟨hfile, -⟩ | hx)
      · rw [hmemory]
        exact Or.inl rfl
      · exact absurd hfile hne
      · exact Or.inr hx
    · rw [hmemory]
      rintro (⟨hfile, -⟩ | hx)
      · exact hne hfile
      · exact hnew hx

/-- **With a stack, a process whose program is loaded is prepared.** -/
theorem DataLoaded.prepared {stack : Word} {id : ℕ} (d : DataLoaded R P k₀ k process .zero p res)
    (hprocess : process ∉ P) (hres : 0 ≤ res)
    (hz : onStore (kernelZalloc osUserProgramVirtualStackSize) k = .ok (stack, k₁))
    (hstack : stack ≠ 0) (hp' : p' = { p with
      stack := stack
      id := id })
    (helf : p.filetype = processFiletypeElf →
      ∃ f, k.elfFiles p.ptr = some f ∧ f.elfMemory ≠ 0) :
    Prepared R P (k₁.setProcess process (some p')) process p' := by
  have b := d.spares.add d.owned.1 d.owned.2
  have g := d.program hres
  obtain ⟨live, hfileNew, himageNew⟩ := g.live b helf
  obtain ⟨live₁, hstackNew⟩ := live.zalloc hz
  obtain ⟨hown, hobject⟩ := live.owns_zalloc hz (by decide) hstack
  rw [show blocksFor osUserProgramVirtualStackSize.toNat = 4 by decide] at hown
  have live₂ := (live₁.add ⟨4, hown⟩ hobject).now_setProcess process (some p')
  have hprocess0 : process ≠ 0 := by
    obtain ⟨⟨n, hn⟩, -⟩ := d.owned
    exact hn.ne_zero d.spares.ready
  -- the members that count are those of `p`
  have htype : p'.filetype = p.filetype := by rw [hp']
  have hptr : p'.ptr = p.ptr := by rw [hp']
  have hsize : p'.size = p.size := by rw [hp']
  have hstack' : p'.stack = stack := by rw [hp']
  have hz' : ∃ s, k₁ = { k with store := s } := by
    obtain ⟨s, -, rfl⟩ := run_onStore.1 hz
    exact ⟨s, rfl⟩
  obtain ⟨s, hk₁⟩ := hz'
  have hfiles : (k₁.setProcess process (some p')).elfFiles = k.elfFiles := by rw [hk₁]; rfl
  have hmemory : (k₁.setProcess process (some p')).programMemory p' = k.programMemory p := by
    unfold Kernel.programMemory
    rw [htype, hptr, hfiles]
  have hbefore : ∀ {h : Holding}, h.rank < 4 →
      takenBefore (k₁.setProcess process (some p')) process p' P h =
        takenBefore k process p P h := by
    intro h hlt
    cases h <;> simp [takenBefore, Holding.rank, hmemory, htype, hptr] at hlt ⊢
  have hrecords : p.allocations = Process.zero.allocations := by rw [d.same]
  refine ⟨hprocess0, setProcess_processes_self, fun j _ => ?_, ?_, hprocess, fun hf => ?_, ?_, ?_, ?_,
    fun hf => ?_, fun hbinary => ?_⟩
  · rw [hp']
    change p.allocations j = _
    rw [hrecords]
    rfl
  · have hlast : takenBefore (k₁.setProcess process (some p')) process p' P .task =
        insert stack (takenBefore k process p P .stack) := by
      rw [← hbefore (by decide), ← hstack']
      rfl
    rw [hlast]
    exact live₂
  · rw [hbefore (by decide), hptr]
    exact hfileNew (htype ▸ hf)
  · rw [hbefore (by decide), hmemory]
    exact himageNew
  · rw [hbefore (by decide), hstack']
    exact hstackNew
  · rw [hstack']
    exact hown
  · have hf' : p.filetype = processFiletypeElf := htype ▸ hf
    obtain ⟨file, hfile⟩ := g.elf hf'
    obtain ⟨file', hfile', hne⟩ := helf hf'
    rw [hfile.object] at hfile'
    obtain rfl := Option.some.inj hfile'
    obtain ⟨-, ⟨n, hn⟩, -, hvalid⟩ := hfile.memory hne
    refine ⟨file, by rw [hfiles, hptr]; exact hfile.object, ?_⟩
    have hin : file.elfMemory ∈ takenBefore k process p P .stack := by
      refine Or.inl ?_
      unfold Kernel.programMemory
      rw [if_pos hf', hfile.object]
      rfl
    refine (headerValid_block fun x hx => ?_).2 hvalid
    have hblocks := hn.pos
    refine live₁.mem _ hin n hn x ?_
    unfold InRange at hx ⊢
    omega
  · rw [hptr, hsize]
    have hown' := (g.binary (htype ▸ hbinary)).2.1
    have hin : p.ptr ∈ takenBefore k process p P .stack := by
      refine Or.inl ?_
      have hne : p.filetype ≠ processFiletypeElf := by
        rw [← htype, hbinary]
        decide
      exact (if_neg hne).symm
    exact live₁.owns _ hin _ hown'

/-- **`process_load_for_slot`**: an error leaves the processes as they
were, and a process that is entered is in order with them. The file of the
process, if it is an ELF file, keeps to its blocks. -/
theorem SystemInv.load (s : SystemInv K k procs view) (h0 : 0 ≤ slot) (hlt : slot < osMaxProcesses)
    (hrun : processLoadForSlot image filename slot k = .ok ((res, out), k'))
    (hfits : 0 ≤ res → ProgramInBlocks k' out) :
    ∃ procs' view', CallFor R K slot.toNat k k' procs procs' view view' ∧
      ((res < 0 ∧ k'.processTable = k.processTable) ∨ (0 ≤ res ∧ out ≠ 0 ∧
        k'.processTable = Function.update k.processTable slot.toNat out)) := by
  obtain ⟨P, hP⟩ : ∃ P, P = BlocksOf K k procs view Set.univ := ⟨_, rfl⟩
  have a : Spares R P k k := hP ▸ s.spares_refl R _
  have hfail : ∀ {k₁ : Kernel}, Spares R P k k₁ → k₁.processTable = k.processTable →
      k₁.currentProcess = k.currentProcess → CallFor R K slot.toNat k k₁ procs procs view view := by
    intro k₁ a₁ htable hcurrent
    exact s.callFor_of_spared _ (hP ▸ a₁) htable hcurrent
  unfold processLoadForSlot at hrun
  rw [Fallible.run_get_bind] at hrun
  by_cases htaken : k.processGet slot ≠ 0
  · rw [if_pos htaken] at hrun
    exact absurd hrun Fallible.run_throw
  rw [if_neg htaken] at hrun
  obtain ⟨process, k₁, hz, hrun⟩ := Fallible.run_bind.1 hrun
  obtain ⟨a₁, hprocess⟩ := a.zalloc hz
  have hstate₁ : k₁.processTable = k.processTable ∧ k₁.currentProcess = k.currentProcess := by
    obtain ⟨t, -, rfl⟩ := run_onStore.1 hz
    exact ⟨rfl, rfl⟩
  by_cases hnull : process = 0
  · rw [if_pos hnull] at hrun
    obtain ⟨hres, rfl⟩ := Fallible.run_pure.1 hrun
    obtain rfl : res = -noMemoryError := congrArg Prod.fst hres
    exact ⟨procs, view, hfail a₁ hstate₁.1 hstate₁.2, Or.inl ⟨by decide, hstate₁.1⟩⟩
  rw [if_neg hnull] at hrun
  obtain ⟨hown, hobject⟩ := a.owns_zalloc hz (by decide) hnull
  obtain ⟨k₂, hset, hrun⟩ := Fallible.run_seq.1 hrun
  rw [Fallible.run_modify] at hset
  have a₂ : Spares R P k k₂ := hset ▸ a₁.setProcess hprocess
  have hown₂ : (∃ n, k₂.store.heap.Owns process n) ∧ k₂.objects process = none := by
    rw [hset]
    exact ⟨⟨_, hown⟩, hobject⟩
  have hnew : k₂.processes process = some .zero := by
    rw [hset]
    exact setProcess_processes_self
  have hstate₂ : k₂.processTable = k.processTable ∧ k₂.currentProcess = k.currentProcess := by
    rw [hset]
    exact hstate₁
  obtain ⟨r, k₃, hdata, hrun⟩ := Fallible.run_bind.1 hrun
  obtain ⟨p, d⟩ := a₂.processLoadData hprocess hown₂.1 hown₂.2 hnew hdata
  have hlists := ((Loading.keeps_processLoadData k₂ (.refl a₂.files)).2 _ _ hdata).lists
  have hstate₃ : k₃.processTable = k.processTable ∧ k₃.currentProcess = k.currentProcess :=
    ⟨hlists.processTable.trans hstate₂.1, hlists.currentProcess.trans hstate₂.2⟩
  have htask : p.task = 0 := by rw [d.same]; rfl
  by_cases hneg : r < 0
  · rw [if_pos hneg] at hrun
    obtain ⟨hres, rfl⟩ := processLoadOut_of_no_task hneg d.object htask hrun
    exact ⟨procs, view, hfail d.spares hstate₃.1 hstate₃.2, Or.inl ⟨hres, hstate₃.1⟩⟩
  rw [if_neg hneg] at hrun
  obtain ⟨stack, k₄, hstack, hrun⟩ := Fallible.run_bind.1 hrun
  obtain ⟨a₄, -⟩ := d.spares.zalloc hstack
  obtain ⟨t, -, hk₄⟩ := run_onStore.1 hstack
  have hp₄ : k₄.processes process = some p := by
    rw [hk₄]
    exact d.object
  have hstate₄ : k₄.processTable = k.processTable ∧ k₄.currentProcess = k.currentProcess := by
    rw [hk₄]
    exact hstate₃
  by_cases hnull' : stack = 0
  · rw [if_pos hnull'] at hrun
    obtain ⟨hres, rfl⟩ := processLoadOut_of_no_task (by decide) hp₄ htask hrun
    exact ⟨procs, view, hfail a₄ hstate₄.1 hstate₄.2, Or.inl ⟨hres, hstate₄.1⟩⟩
  rw [if_neg hnull'] at hrun
  obtain ⟨k₅, hmod, hrun⟩ := Fallible.run_seq.1 hrun
  have a₅ := a₄.modifyProcess hprocess hmod
  obtain ⟨-, q, hq, hk₅⟩ := run_modifyProcess.1 hmod
  obtain rfl := Option.some.inj (hp₄.symm.trans hq)
  obtain ⟨p', hp'⟩ : ∃ p' : Process, p' = { p with
    stack := stack
    id := slot.toNat % 2 ^ 16 } := ⟨_, rfl⟩
  rw [← hp'] at hk₅
  have hp₅ : k₅.processes process = some p' := by
    rw [hk₅]
    exact setProcess_processes_self
  have hstate₅ : k₅.processTable = k.processTable ∧ k₅.currentProcess = k.currentProcess := by
    rw [hk₅]
    exact hstate₄
  obtain ⟨a', hcurrent', hcases⟩ := a₅.processLoadTask hprocess hp₅ hrun
  rw [hstate₅.2] at hcurrent'
  rw [hstate₅.1] at hcases
  obtain ⟨hres, htable⟩ | ⟨hres, rfl, htable⟩ := hcases
  · exact ⟨procs, view, hfail a' htable hcurrent', Or.inl ⟨hres, htable⟩⟩
  -- the process is entered
  have hid : p'.id = slot.toNat := by
    rw [hp']
    have h12 : (osMaxProcesses : ℤ) = 12 := by decide
    exact Nat.mod_eq_of_lt (by omega)
  obtain ⟨-, -, -, -, -, -, hloaded, -⟩ := processLoadTask_cases a₅.ready hp₅ hrun
  have helf : p.filetype = processFiletypeElf →
      ∃ f, k₃.elfFiles p.ptr = some f ∧ f.elfMemory ≠ 0 := by
    intro hf
    obtain ⟨-, hfile⟩ := hloaded.elf (by rw [hp']; exact hf)
    rw [hk₅, hk₄, hp'] at hfile
    exact hfile
  have hprepared := d.prepared hprocess (not_lt.1 hneg) hstack hnull' hp' helf
  rw [← hk₅] at hprepared
  obtain ⟨p'', c, hslot, hnone⟩ := hprepared.slotInv hid.symm hrun hres (hfits hres)
  rw [hid] at hslot
  have hself : k'.processTable slot.toNat = out := by
    rw [htable]
    exact Function.update_self ..
  refine ⟨_, _, s.callFor (a'.mono ?_) (fun j hne => ?_) ?_ fun _ => ⟨hslot, fun x h hx hin => ?_⟩,
    Or.inr ⟨hres, hnull, htable⟩⟩
  · rw [hP]
    exact BlocksOf.mono (Set.subset_univ _)
  · rw [htable]
    exact Function.update_of_ne hne ..
  · rw [hcurrent', htable]
    obtain hzero | ⟨j, hj, hj0, hrunning⟩ := s.current
    · exact Or.inl hzero
    · have hfree : k.processTable slot.toNat = 0 := by
        have hget : k.processGet slot = k.processTable slot.toNat := by
          unfold Kernel.processGet
          exact if_neg (by omega)
        rw [← hget]
        exact not_not.1 htaken
      have hne : j ≠ slot.toNat := fun he => hj0 (he ▸ hfree)
      refine Or.inr ⟨j, hj, ?_, ?_⟩
      · rwa [Function.update_of_ne hne]
      · rw [Function.update_of_ne hne]
        exact hrunning
  · rw [hself] at hx
    refine hnone x h hx ?_
    rw [hP]
    exact BlocksOf.mono (Set.subset_univ _) hin

end OwnKernel
