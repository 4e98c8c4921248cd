import OwnKernel.Process.Release
import OwnKernel.System.Spared

/-!
# The blocks of the processes

A registered process holds blocks of the kernel's heap: its own structure,
its program, its stack, its task with the page tables, and what it has
asked for. `SystemInv` says that the processes of the table hold different
blocks, and that what a directory lets the user write are blocks of its
own process. So what two of them may write is disjoint
(`SystemInv.disjoint`), and a call for one process that spares the blocks
of the others leaves them as they were (`SystemInv.step`).
-/

namespace OwnKernel

variable {K P R : Set Word} {k k' : Kernel} {c : ChunkView} {process x y : Word} {p : Process}
variable {procs : ℕ → Process} {view : ℕ → ChunkView} {page i j n : ℕ}

/-! ## What a process holds -/

/-- What a process holds a block for. -/
inductive Holding
  | process
  | elfFile
  | image
  | stack
  | task
  | table
  | record
  deriving DecidableEq

/-- The blocks that are given to the program itself. -/
def Holding.Given (h : Holding) : Prop := h = .image ∨ h = .stack ∨ h = .record

/-- Where a process's program is. -/
def Kernel.programMemory (k : Kernel) (p : Process) : Word :=
  if p.filetype = processFiletypeElf then ((k.elfFiles p.ptr).map ElfFile.elfMemory).getD 0
  else p.ptr

/-- **The blocks of a process**, whose directory is the chunk `c`. -/
inductive Held (k : Kernel) (process : Word) (p : Process) (c : ChunkView) :
    Word → Holding → Prop
  | process : Held k process p c process .process
  | elfFile : p.filetype = processFiletypeElf → Held k process p c p.ptr .elfFile
  | image : Held k process p c (k.programMemory p) .image
  | stack : Held k process p c p.stack .stack
  | task : Held k process p c p.task .task
  | table {x : Word} : c.Has x → Held k process p c x .table
  | record {j : ℕ} : j < osMaxProgramAllocations → (p.allocations j).ptr ≠ 0 →
      Held k process p c (p.allocations j).ptr .record

/-- They depend on the kernel by where the program is. -/
theorem Held.congr {h : Holding} (hx : Held k process p c x h)
    (hmemory : k'.programMemory p = k.programMemory p) : Held k' process p c x h := by
  cases hx with
  | process => exact .process
  | elfFile helf => exact .elfFile helf
  | image => exact hmemory ▸ .image
  | stack => exact .stack
  | task => exact .task
  | table hin => exact .table hin
  | record hj h0 => exact .record hj h0

/-- The ELF file's structure says where it is. -/
theorem programMemory_congr
    (h : p.filetype = processFiletypeElf → k'.elfFiles p.ptr = k.elfFiles p.ptr) :
    k'.programMemory p = k.programMemory p := by
  unfold Kernel.programMemory
  by_cases helf : p.filetype = processFiletypeElf
  · rw [if_pos helf, if_pos helf, h helf]
  · rw [if_neg helf, if_neg helf]

/-- **The records of a process are in order**: what is recorded is
allocated by its size, each pointer once. -/
structure Process.RecordsOwned (p : Process) (h : Heap) : Prop where
  empty : ∀ j < osMaxProgramAllocations, (p.allocations j).ptr = 0 → p.allocations j = ⟨0, 0⟩
  owns : ∀ j < osMaxProgramAllocations, (p.allocations j).ptr ≠ 0 →
    h.Owns (p.allocations j).ptr (blocksFor (p.allocations j).size.toNat)
  fits : ∀ j < osMaxProgramAllocations, (p.allocations j).ptr ≠ 0 →
    (p.allocations j).ptr.toNat + 4096 * blocksFor (p.allocations j).size.toNat < 2 ^ 32
  distinct : p.DistinctAllocations

/-- **A page's frame is in a block of the process's program.** A block the
process has asked for is at its own address. -/
def GivenPage (k : Kernel) (process : Word) (p : Process) (c : ChunkView) (page : ℕ)
    (frame : Word) : Prop :=
  ∃ x h n, Held k process p c x h ∧ h.Given ∧ k.store.heap.Owns x n ∧
    InRange x (4096 * n) frame ∧ (h = .record → frame = BitVec.ofNat 32 (4096 * page))

/-- **The process of a slot.** -/
structure SlotInv (k : Kernel) (i : ℕ) (p : Process) (c : ChunkView) : Prop where
  ne_zero : k.processTable i ≠ 0
  object : k.processes (k.processTable i) = some p
  id : p.id = i
  directory : HasDirectory k p.task c
  owned : ∀ x h, Held k (k.processTable i) p c x h →
    (∃ n, k.store.heap.Owns x n) ∧ k.objects x = none
  distinct : ∀ x h h', Held k (k.processTable i) p c x h → Held k (k.processTable i) p c x h' →
    h = h'
  records : p.RecordsOwned k.store.heap
  /-- What the user may write is the program's own. -/
  writeable : ∀ page < 2 ^ 20, UserWriteable (c.entry k.store.mem page) →
    GivenPage k (k.processTable i) p c page (c.entry k.store.mem page &&& pagingAddressMask)
  /-- What the process has asked for it may write, at its own address. -/
  granted : ∀ j < osMaxProgramAllocations, ∀ page, (p.allocations j).Covers page →
    c.entry k.store.mem page = BitVec.ofNat 32 (4096 * page) ||| userWriteableFlags
  opened : c.OpenDirectory k.store.mem
  /-- The task is the process's. -/
  task : ∃ t, k.tasks p.task = some t ∧ t.process = k.processTable i

namespace SlotInv

/-- A page of a record is a page. -/
theorem lt_of_covers (s : SlotInv k i p c) (hj : j < osMaxProgramAllocations)
    (h : (p.allocations j).Covers page) : page < 2 ^ 20 := by
  have hfits := s.records.fits j hj h.1
  have hlt := h.2.2
  omega

/-- **A process whose blocks are spared is what it was.** -/
theorem spared (s : SlotInv k i p c) (a : Spares R P k k')
    (hP : ∀ x h, Held k (k.processTable i) p c x h → x ∈ P)
    (htable : k'.processTable i = k.processTable i) :
    SlotInv k' i p c ∧ (∀ x h, Held k' (k'.processTable i) p c x h →
        Held k (k.processTable i) p c x h) ∧
      ∀ page < 2 ^ 20, c.entry k'.store.mem page = c.entry k.store.mem page := by
  have hmemory : k'.programMemory p = k.programMemory p :=
    programMemory_congr fun helf => a.elfFiles _ (hP _ _ (.elfFile helf))
  have hback : ∀ x h, Held k' (k'.processTable i) p c x h → Held k (k.processTable i) p c x h := by
    intro x h hx
    rw [htable] at hx
    exact hx.congr hmemory.symm
  have hkeep : ∀ x h n, Held k (k.processTable i) p c x h → k.store.heap.Owns x n →
      k'.store.heap.Owns x n := fun x h n hx hn => a.owns x (hP x h hx) n hn
  obtain ⟨hd, hentry⟩ := s.directory.spared a (hP _ _ .task) fun x hx => hP _ _ (.table hx)
  refine ⟨⟨by rw [htable]; exact s.ne_zero, ?_, s.id, hd,
    fun x h hx => ?_, fun x h h' hx hx' => s.distinct x h h' (hback x h hx) (hback x h' hx'),
    ⟨s.records.empty, fun j hj h0 => ?_, s.records.fits, s.records.distinct⟩, fun page hpage hw => ?_,
    fun j hj page hcov => ?_, ?_, ?_⟩, hback, hentry⟩
  · rw [htable, a.processes _ (hP _ _ .process)]
    exact s.object
  · have hold := hback x h hx
    obtain ⟨⟨n, hn⟩, -⟩ := s.owned x h hold
    exact ⟨⟨n, hkeep x h n hold hn⟩, a.objects x (hP x h hold)⟩
  · exact hkeep _ _ _ (.record hj h0) (s.records.owns j hj h0)
  · rw [hentry page hpage] at hw ⊢
    obtain ⟨x, h, n, hx, hgiven, hn, hin, hrec⟩ := s.writeable page hpage hw
    refine ⟨x, h, n, ?_, hgiven, hkeep x h n hx hn, hin, hrec⟩
    rw [htable]
    exact hx.congr hmemory
  · rw [hentry page (s.lt_of_covers hj hcov)]
    exact s.granted j hj page hcov
  · refine s.opened.congr s.directory.mapped s.directory.ready fun x hx => ?_
    exact a.mem _ (hP _ _ (.table c.has_directory)) 1 (s.directory.mapped.owns _ c.has_directory) x
      (by rwa [Nat.mul_one])
  · obtain ⟨t, ht, hprocess⟩ := s.task
    obtain ⟨u, hu, -, hup⟩ := exists_task_of_map_owner (a.directories _ (hP _ _ .task)) ht
    exact ⟨u, hu, by rw [hup, hprocess, htable]⟩

/-- The records of a process can be freed. -/
theorem recordsReady (s : SlotInv k i p c) : RecordsReady k (k.processTable i) p where
  ne_zero := s.ne_zero
  object := s.object
  ready := s.directory.ready
  task := s.directory.exists_task
  empty := s.records.empty
  ranges j hj h0 :=
    validRange_allocation ((s.records.owns j hj h0).aligned s.directory.ready) (s.records.fits j hj h0)

end SlotInv

/-! ## The processes together -/

/-- **The system's invariant**: the processes of the table, with their
directories, hold different blocks, none of them the file layer's or one
of the blocks `K` the kernel has for itself; and the current process is
one of them, if there is one. -/
structure SystemInv (K : Set Word) (k : Kernel) (procs : ℕ → Process) (view : ℕ → ChunkView) : Prop where
  files : FsOwned k.fsState
  kernel : ∀ x ∈ K, (∃ n, k.store.heap.Owns x n) ∧ k.objects x = none
  slot : ∀ i < osMaxProcesses, k.processTable i ≠ 0 → SlotInv k i (procs i) (view i)
  apart : ∀ i < osMaxProcesses, ∀ j < osMaxProcesses, k.processTable i ≠ 0 → k.processTable j ≠ 0 →
    ∀ x h h', Held k (k.processTable i) (procs i) (view i) x h →
      Held k (k.processTable j) (procs j) (view j) x h' → i = j
  kernel_apart : ∀ i < osMaxProcesses, k.processTable i ≠ 0 →
    ∀ x h, Held k (k.processTable i) (procs i) (view i) x h → x ∉ K
  current : k.currentProcess = 0 ∨
    ∃ i < osMaxProcesses, k.processTable i ≠ 0 ∧ k.processTable i = k.currentProcess

/-- The kernel's own blocks, and those of the processes in the slots `S`. -/
def BlocksOf (K : Set Word) (k : Kernel) (procs : ℕ → Process) (view : ℕ → ChunkView)
    (S : Set ℕ) : Set Word :=
  K ∪ {x | ∃ i < osMaxProcesses, i ∈ S ∧ k.processTable i ≠ 0 ∧
    ∃ h, Held k (k.processTable i) (procs i) (view i) x h}

theorem BlocksOf.mono {S T : Set ℕ} (h : S ⊆ T) :
    BlocksOf K k procs view S ⊆ BlocksOf K k procs view T := by
  rintro x (hx | ⟨i, hi, hS, h0, hx⟩)
  · exact Or.inl hx
  · exact Or.inr ⟨i, hi, h hS, h0, hx⟩

namespace SystemInv

/-- They are allocated, and none of the file layer's. -/
theorem spares_refl (s : SystemInv K k procs view) (R : Set Word) (S : Set ℕ) :
    Spares R (BlocksOf K k procs view S) k k := by
  refine .refl s.files ?_
  rintro x (hx | ⟨i, hi, -, h0, h, hx⟩)
  · exact s.kernel x hx
  · exact (s.slot i hi h0).owned x h hx

/-- A block of one process is none of the others', and none of the
kernel's. -/
theorem not_mem_others (s : SystemInv K k procs view) (hi : i < osMaxProcesses)
    (h0 : k.processTable i ≠ 0) {h : Holding}
    (hx : Held k (k.processTable i) (procs i) (view i) x h) :
    x ∉ BlocksOf K k procs view {j | j ≠ i} := by
  rintro (hx' | ⟨j, hj, hne, hj0, h', hx'⟩)
  · exact s.kernel_apart i hi h0 x h hx hx'
  · exact hne (s.apart i hi j hj h0 hj0 x h h' hx hx').symm

/-- The kernel's own blocks are still its own. -/
theorem kernel_spared (s : SystemInv K k procs view) (a : Spares R P k k') (hP : K ⊆ P) :
    ∀ x ∈ K, (∃ n, k'.store.heap.Owns x n) ∧ k'.objects x = none := by
  intro x hx
  obtain ⟨n, hn⟩ := (s.kernel x hx).1
  exact ⟨⟨n, a.owns x (hP hx) n hn⟩, a.objects x (hP hx)⟩

/-- **A call for slot `i`** that spares the blocks of the other slots, and
after which the slot is empty or its process in order, with no block of
theirs. -/
theorem step (s : SystemInv K k procs view)
    (a : Spares R (BlocksOf K k procs view {j | j ≠ i}) k k')
    (htable : ∀ j, j ≠ i → k'.processTable j = k.processTable j)
    (hcurrent : k'.currentProcess = 0 ∨
      ∃ j < osMaxProcesses, k'.processTable j ≠ 0 ∧ k'.processTable j = k'.currentProcess)
    (hslot : k'.processTable i ≠ 0 → SlotInv k' i p c ∧
      ∀ x h, Held k' (k'.processTable i) p c x h → x ∉ BlocksOf K k procs view {j | j ≠ i}) :
    SystemInv K k' (Function.update procs i p) (Function.update view i c) := by
  have hother : ∀ j < osMaxProcesses, j ≠ i → k'.processTable j ≠ 0 →
      k.processTable j ≠ 0 ∧ SlotInv k' j (procs j) (view j) ∧
        ∀ x h, Held k' (k'.processTable j) (procs j) (view j) x h →
          Held k (k.processTable j) (procs j) (view j) x h := by
    intro j hj hne h0
    rw [htable j hne] at h0
    obtain ⟨hinv, hback, -⟩ := (s.slot j hj h0).spared a
      (fun x h hx => Or.inr ⟨j, hj, hne, h0, h, hx⟩) (htable j hne)
    exact ⟨h0, hinv, hback⟩
  have hkernel := s.kernel_spared a Set.subset_union_left
  refine ⟨a.files, hkernel, fun j hj h0 => ?_, fun j hj j' hj' h0 h0' x h h' hx hx' => ?_,
    fun j hj h0 x h hx => ?_, hcurrent⟩
  · by_cases hne : j = i
    · subst hne
      rw [Function.update_self, Function.update_self]
      exact (hslot h0).1
    · rw [Function.update_of_ne hne, Function.update_of_ne hne]
      exact (hother j hj hne h0).2.1
  · by_cases hne : j = i <;> by_cases hne' : j' = i
    · exact hne.trans hne'.symm
    · subst hne
      rw [Function.update_self, Function.update_self] at hx
      rw [Function.update_of_ne hne', Function.update_of_ne hne'] at hx'
      obtain ⟨hk0, -, hback⟩ := hother j' hj' hne' h0'
      exact absurd (Or.inr ⟨j', hj', hne', hk0, h', hback x h' hx'⟩) ((hslot h0).2 x h hx)
    · subst hne'
      rw [Function.update_self, Function.update_self] at hx'
      rw [Function.update_of_ne hne, Function.update_of_ne hne] at hx
      obtain ⟨hk0, -, hback⟩ := hother j hj hne h0
      exact absurd (Or.inr ⟨j, hj, hne, hk0, h, hback x h hx⟩) ((hslot h0').2 x h' hx')
    · rw [Function.update_of_ne hne, Function.update_of_ne hne] at hx
      rw [Function.update_of_ne hne', Function.update_of_ne hne'] at hx'
      obtain ⟨hk0, -, hback⟩ := hother j hj hne h0
      obtain ⟨hk0', -, hback'⟩ := hother j' hj' hne' h0'
      exact s.apart j hj j' hj' hk0 hk0' x h h' (hback x h hx) (hback' x h' hx')
  · by_cases hne : j = i
    · subst hne
      rw [Function.update_self, Function.update_self] at hx
      exact fun hin => (hslot h0).2 x h hx (Or.inl hin)
    · rw [Function.update_of_ne hne, Function.update_of_ne hne] at hx
      obtain ⟨hk0, -, hback⟩ := hother j hj hne h0
      exact s.kernel_apart j hj hk0 x h (hback x h hx)

/-- **A call that spares all their blocks.** -/
theorem spared (s : SystemInv K k procs view) (a : Spares R (BlocksOf K k procs view Set.univ) k k')
    (htable : k'.processTable = k.processTable) (hcurrent : k'.currentProcess = k.currentProcess) :
    SystemInv K k' procs view := by
  have hall : ∀ i < osMaxProcesses, k.processTable i ≠ 0 → SlotInv k' i (procs i) (view i) ∧
      ∀ x h, Held k' (k'.processTable i) (procs i) (view i) x h →
        Held k (k.processTable i) (procs i) (view i) x h := by
    intro i hi h0
    obtain ⟨hinv, hback, -⟩ := (s.slot i hi h0).spared a
      (fun x h hx => Or.inr ⟨i, hi, trivial, h0, h, hx⟩) (by rw [htable])
    exact ⟨hinv, hback⟩
  have hkernel := s.kernel_spared a Set.subset_union_left
  refine ⟨a.files, hkernel, fun i hi h0 => ?_, fun i hi j hj h0 h0' x h h' hx hx' => ?_,
    fun i hi h0 x h hx => ?_, ?_⟩
  · rw [htable] at h0
    exact (hall i hi h0).1
  · rw [htable] at h0 h0'
    exact s.apart i hi j hj h0 h0' x h h' ((hall i hi h0).2 x h hx) ((hall j hj h0').2 x h' hx')
  · rw [htable] at h0
    exact s.kernel_apart i hi h0 x h ((hall i hi h0).2 x h hx)
  · rw [htable, hcurrent]
    exact s.current

/-- **Bytes of different processes' blocks are different.** -/
theorem disjoint (s : SystemInv K k procs view) (hi : i < osMaxProcesses) (hj : j < osMaxProcesses)
    (hi0 : k.processTable i ≠ 0) (hj0 : k.processTable j ≠ 0) (hij : i ≠ j) {x' : Word}
    {h h' : Holding} {n' : ℕ} (hx : Held k (k.processTable i) (procs i) (view i) x h)
    (hx' : Held k (k.processTable j) (procs j) (view j) x' h') (hn : k.store.heap.Owns x n)
    (hn' : k.store.heap.Owns x' n') (hin : InRange x (4096 * n) y) :
    ¬ InRange x' (4096 * n') y := by
  refine hn.disjoint hn' s.files.ready ?_ hin
  rintro rfl
  exact hij (s.apart i hi j hj hi0 hj0 x h h' hx hx')

/-- **The structures of the processes are different.** -/
theorem processTable_injective (s : SystemInv K k procs view) (hi : i < osMaxProcesses)
    (hj : j < osMaxProcesses) (hi0 : k.processTable i ≠ 0)
    (heq : k.processTable i = k.processTable j) : i = j := by
  have hj0 : k.processTable j ≠ 0 := heq ▸ hi0
  have hself : Held k (k.processTable i) (procs i) (view i) (k.processTable j) .process :=
    heq ▸ .process
  exact s.apart i hi j hj hi0 hj0 _ _ _ hself .process

end SystemInv

end OwnKernel
