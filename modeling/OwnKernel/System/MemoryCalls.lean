import OwnKernel.System.Granted
import OwnKernel.Task.Switch

/-!
# The calls for memory

What commands 4 and 5 come to while programs run. `malloc` answers null or
blocks that were free, cleared, and the caller's alone from then on; and it
does not answer null where a run of blocks and a record are left
(`malloc_served`). `free` gives back what the caller has on record: the
heap has the blocks again, and no program can write them
(`free_served`). Any other pointer it leaves alone.
-/

namespace OwnKernel

variable {K : Set Word} {k k' k₁ : Kernel} {h : Heap} {st : Store} {mem : Mem} {o o' o₀ : Os}
variable {image : Sectors} {stack : KernelStack} {fuel i j n b : ℕ} {p : Process} {t : Task}
variable {c : ChunkView} {procs : ℕ → Process} {view : ℕ → ChunkView} {frame : InterruptFrame}
variable {ptr size v x : Word}

/-! ## Blocks that are free -/

/-- The block that has a byte of the heap. -/
def Heap.blockAt (h : Heap) (x : Word) : ℕ := (x - h.startAddress).toNat / 4096

theorem Heap.blockAt_mem (hb : ptr.toNat = h.startAddress.toNat + 4096 * b)
    (hle : ptr.toNat + 4096 * n ≤ 2 ^ 32) (hx : InRange ptr (4096 * n) x) :
    b ≤ h.blockAt x ∧ h.blockAt x < b + n := by
  have hlt := x.isLt
  have hstart := h.startAddress.isLt
  have hin : ptr.toNat ≤ x.toNat ∧ x.toNat < ptr.toNat + 4096 * n := by
    unfold InRange at hx
    rw [BitVec.toNat_sub] at hx
    omega
  unfold Heap.blockAt
  rw [BitVec.toNat_sub]
  omega

/-- A byte of an allocation is not in a free block. -/
theorem Heap.Owns.not_free_blockAt (o : h.Owns ptr n) (r : h.Ready) (hx : InRange ptr (4096 * n) x) :
    ¬ h.Free (h.blockAt x) := by
  obtain ⟨b, -, hb, -, c⟩ := o.exists_block r
  obtain ⟨hle, hlt⟩ := Heap.blockAt_mem hb (o.toNat_add_le r) hx
  exact c.not_free hle hlt

/-- After `heap_free` it is. -/
theorem Heap.Owns.free_blockAt (o : h.Owns ptr n) (r : h.Ready) (hx : InRange ptr (4096 * n) x) :
    (h.write (heapFree h ptr)).Free (h.blockAt x) := by
  obtain ⟨b, hp, hb, hle, c⟩ := o.exists_block r
  have hpos := c.pos
  obtain ⟨hle', hlt⟩ := Heap.blockAt_mem hb (o.toNat_add_le r) hx
  have hlow := r.low
  unfold Heap.Free
  rw [hp, OwnKernel.entries_heapFree r.placed c hle (by omega), if_pos ⟨hle', hlt⟩]
  decide

/-- **The blocks from `ptr` on are free.** -/
def Kernel.Unused (k : Kernel) (ptr : Word) (n : ℕ) : Prop :=
  ∀ x, InRange ptr (4096 * n) x → k.store.heap.Free (k.store.heap.blockAt x)

/-- No program can write there. -/
theorem SystemInv.not_slotWrites_of_unused (s : SystemInv K k procs view) (hi : i < osMaxProcesses)
    (hfree : k.Unused ptr n) (hx : InRange ptr (4096 * n) x) : ¬ k.SlotWrites i v x := by
  intro hw
  obtain ⟨y, _, m, -, -, ho, hin⟩ := (s.slot i hi hw.1).lands hw
  exact ho.not_free_blockAt s.files.ready hin (hfree x hx)

/-! ## What the calls do -/

/-- What the heap gives was free. -/
theorem Kernel.unused_of_kernelZalloc (r : k.store.heap.Ready) (hpos : 0 < size.toNat)
    (hsize : size.toNat ≤ 0xFFFFF000) (hz : kernelZalloc size k.store = .ok (ptr, st))
    (hptr : ptr ≠ 0) : k.Unused ptr (blocksFor size.toNat) := by
  intro x hx
  obtain ⟨hext, ho, -, -⟩ := kernelZalloc_spec r hpos hsize hz hptr
  obtain ⟨hnull, -⟩ | ⟨b, hb, hq, -⟩ := kernelZalloc_cases r hpos hsize hz
  · exact absurd hnull hptr
  have hfits : b + blocksFor size.toNat ≤ k.store.heap.total := hb.1.1
  have hblocks := blocksFor_pos hpos
  have htop := ho.toNat_add_le (hext.ready r)
  have haddress := toNat_heapBlockToAddress r.placed (show b < k.store.heap.total by omega)
  obtain ⟨hle, hlt⟩ := Heap.blockAt_mem (hq ▸ haddress) htop hx
  exact hb.1.2 _ hle hlt

/-- **What is cleared stays so when it is mapped**: the tables that are
written are other blocks. -/
theorem SlotInv.cleared_of_taskMapTo {flags : Word} {res : ℤ}
    (s : SlotInv k i p c) (hpos : 0 < size.toNat) (hsize : size.toNat ≤ 0xFFFFF000)
    (hz : kernelZalloc size k.store = .ok (ptr, st)) (hptr : ptr ≠ 0)
    (hmap : taskMapTo p.task ptr ptr (pagingAlignAddress (ptr + size)) flags
      { k with store := st } = .ok (res, k₁)) (hx : InRange ptr size.toNat x) :
    k₁.store.mem x = 0 := by
  have hr := s.directory.ready
  obtain ⟨hext, ho, hfresh, hzero⟩ := kernelZalloc_spec hr hpos hsize hz hptr
  have hd : HasDirectory { k with store := st } p.task c :=
    ⟨hext.ready hr, s.directory.ne_zero, s.directory.object,
      (s.directory.mapped.of_extends hr hext).1⟩
  obtain ⟨k₂, hmap', hout, -⟩ := hd.taskMapTo_eq ptr ptr
    (pagingAlignAddress (ptr + size)) flags (f := c.entry st.mem) fun _ _ => rfl
  rw [hmap] at hmap'
  obtain ⟨-, rfl⟩ := Prod.mk.inj (Except.ok.inj hmap')
  refine (hout.out x ?_).trans (hzero x hx)
  rintro ⟨e, he, hin⟩
  have hy : c.Has (c.table e) := c.has_table he
  obtain ⟨y, hyt⟩ : ∃ y, c.table e = y := ⟨_, rfl⟩
  rw [hyt] at hin hy
  have hne : y ≠ ptr := by
    rintro rfl
    exact hfresh 1 (s.directory.mapped.owns _ hy)
  have hin' : InRange y (4096 * 1) x := by rwa [Nat.mul_one]
  refine (hd.mapped.owns y hy).disjoint ho (hext.ready hr) hne hin' ?_
  have hle := le_blocksFor_mul size.toNat
  unfold InRange at hx ⊢
  omega

/-- **What `process_malloc` answers** was free, is cleared, and is given to
the process alone. -/
structure Kernel.NewlyGiven (k k' : Kernel) (i : ℕ) (ptr size : Word) : Prop
    extends k'.GivenTo i ptr (blocksFor size.toNat) where
  unused : k.Unused ptr (blocksFor size.toNat)
  cleared : ∀ x, InRange ptr size.toNat x → k'.store.mem x = 0

theorem SystemInv.newlyGiven (s : SystemInv K k procs view) (hi : i < osMaxProcesses)
    (h0 : k.processTable i ≠ 0) (hpos : 0 < size.toNat)
    (hrun : processMalloc (k.processTable i) size k = .ok (ptr, k')) (hptr : ptr ≠ 0) :
    k.NewlyGiven k' i ptr size := by
  obtain ⟨procs', view', hcall, htable⟩ := s.malloc (R := ∅) hi h0 hpos hrun
  have hs := s.slot i hi h0
  have hr := s.files.ready
  -- the block is on record
  obtain ⟨index, hfind, hobject⟩ := hs.malloc_record hrun hptr
  have hindex := (AllocInv.of_findAllocation hfind).1
  have hs' := hcall.inv.slot i hi (htable ▸ h0)
  have hrecord : (procs' i).allocations index = ⟨ptr, size⟩ := by
    have hobject' := hs'.object
    rw [htable, hobject] at hobject'
    rw [← Option.some.inj hobject']
    exact Process.record_self
  have hgiven := hcall.inv.givenTo hi hs' hindex (hrecord ▸ hptr)
  rw [hrecord] at hgiven
  -- and it is the one the heap had
  obtain ⟨q, st, hz, hcases⟩ := processMalloc_outcome hs.directory.exists_task hs.object hrun
  obtain ⟨hnull, -⟩ | ⟨hnull, -⟩ | ⟨rfl, -, -, index', k₁, -, hmap, rfl⟩ := hcases
  · exact absurd hnull hptr
  · exact absurd hnull hptr
  obtain ⟨-, hsize⟩ := (kernelZalloc_of_pos hr hpos hz).resolve_left fun hnull => hptr hnull.1
  have hcleared : ∀ x, InRange ptr size.toNat x → k₁.store.mem x = 0 := fun x hx =>
    hs.cleared_of_taskMapTo hpos hsize hz hptr hmap hx
  exact ⟨hgiven, Kernel.unused_of_kernelZalloc hr hpos hsize hz hptr, hcleared⟩

/-- **`process_malloc` comes back** from what the heap's table can answer,
and not with null where there are blocks and a record. -/
theorem SlotInv.exists_answer (s : SlotInv k i p c) (hplace : kernelHeapInit.SamePlace k.store.heap)
    (hpos : 0 < size.toNat) (hans : k.store.heap.Answers (blocksFor size.toNat)) :
    ∃ ptr k', processMalloc (k.processTable i) size k = .ok (ptr, k') ∧
      ((∃ b, FirstFit k.store.heap.Free k.store.heap.total (blocksFor size.toNat) b) →
        p.findFreeAllocationIndex ≠ none → ptr ≠ 0) := by
  have hr := s.directory.ready
  obtain ⟨q, st, hz⟩ := (kernelZalloc_granted_iff hr).2 hans
  rcases processMalloc_cases s.ne_zero s.object s.directory hz (kernelZalloc_extends hr hz) with
    ⟨⟨k', hrun, -⟩, -⟩ | ⟨hq, -, k', hrun, -⟩
  · refine ⟨0, k', hrun, fun ⟨b, hb⟩ hfind => ?_⟩
    -- the blocks are found, and recorded
    obtain ⟨index, hindex⟩ := Option.ne_none_iff_exists'.1 hfind
    have htotal : k.store.heap.total = 25600 := hplace.total
    have hfits := hb.1.1
    have hblocks := blocksFor_pos hpos
    have hlarge : size.toNat ≤ 0xFFFFF000 := by
      have hle := le_blocksFor_mul size.toNat
      omega
    have hz' := kernelZalloc_of_firstFit hr hpos hlarge hb
    have hb' : heapBlockToAddress k.store.heap b ≠ 0 :=
      heapBlockToAddress_ne_zero hr.placed (show b < k.store.heap.total by omega)
    obtain ⟨k₁, hcall⟩ := s.exists_processMalloc hplace hpos hlarge hz' hb' hindex
    obtain ⟨h0, -⟩ := Prod.mk.inj (Except.ok.inj (hrun.symm.trans hcall))
    exact absurd h0.symm hb'
  · exact ⟨q, k', hrun, fun _ _ => hq⟩

/-- **What `process_free` takes back**: the pointer is no longer on record,
its blocks are free, and no program can write them. -/
structure Kernel.TakenBack (k : Kernel) (i : ℕ) (ptr : Word) (n : ℕ) : Prop where
  unused : k.Unused ptr n
  unwriteable : ∀ x, InRange ptr (4096 * n) x → ∀ j < osMaxProcesses, ∀ v, ¬ k.SlotWrites j v x
  unrecorded : ∀ p, k.processes (k.processTable i) = some p → ¬ p.Recorded ptr

theorem SystemInv.takenBack (s : SystemInv K k procs view) (hi : i < osMaxProcesses)
    (h0 : k.processTable i ≠ 0) (hj : j < osMaxProgramAllocations)
    (hne : ((procs i).allocations j).ptr ≠ 0) :
    ∃ k', processFree (k.processTable i) ((procs i).allocations j).ptr k = .ok (⟨⟩, k') ∧
      k'.TakenBack i ((procs i).allocations j).ptr
        (blocksFor ((procs i).allocations j).size.toNat) := by
  have hs := s.slot i hi h0
  have hr := s.files.ready
  obtain ⟨ptr, hptr⟩ : ∃ ptr, ((procs i).allocations j).ptr = ptr := ⟨_, rfl⟩
  have hrecorded : (procs i).Recorded ptr := ⟨hptr ▸ hne, j, hj, hptr⟩
  have ho := hs.records.owns j hj hne
  rw [hptr] at ho ⊢
  obtain ⟨n, hfind⟩ := hrecorded.exists_find
  obtain ⟨m, t, -, -, hrun⟩ := hs.recordsReady.free_of_find hfind
  obtain ⟨procs', view', hcall, htable⟩ := s.free (R := ∅) hi h0 hrun
  have hunused : (k.release (k.processTable i) (procs i) ptr m).Unused ptr
      (blocksFor ((procs i).allocations j).size.toNat) := fun x hx => ho.free_blockAt hr hx
  refine ⟨_, hrun, hunused, fun x hx j hj v => hcall.inv.not_slotWrites_of_unused hj hunused hx, ?_⟩
  rintro p hp ⟨hptr0, l, hl, hrecord⟩
  obtain rfl := Option.some.inj (setProcess_processes_self.symm.trans hp)
  have hleft : (((procs i).allocationUnmark ptr).allocations l).ptr ≠ 0 := by rwa [hrecord]
  have hsame := AllocInv.unmark_of_ne_zero hleft
  rw [hsame] at hrecord
  exact AllocInv.unmark_ptr_ne hl hleft hrecord

/-! ## Commands 4 and 5 -/

/-- **The state when a command begins**, with the caller's state saved. -/
structure OsReached.Saved (K : Set Word) (o : Os) (k : Kernel) (i : ℕ) : Prop where
  inOrder : InOrder K k
  caller : Caller k i
  store : k.store = o.kernel.store
  processTable : k.processTable = o.kernel.processTable
  processes : k.processes = o.kernel.processes

theorem OsReached.saved (h : OsReached image mem fuel stack o₀ o) (hi : Caller o.kernel i)
    (hsave : taskCurrentSaveState frame o.kernel = .ok (⟨⟩, k)) :
    OsReached.Saved o₀.kernel.allBlocks o k i := by
  obtain ⟨hstore, htable, -⟩ := taskCurrentSaveState_same hsave
  refine ⟨((Entered.saves hsave).inOrder h.inv.1).1, hi.saveState hsave, hstore, htable, ?_⟩
  obtain ⟨t, registers, -, rfl⟩ := taskCurrentSaveState_cases hsave
  rfl

/-- The caller's process is what it was. -/
theorem OsReached.Saved.process_eq (h : OsReached.Saved K o k i) (s : SystemInv K k procs view)
    (hp : o.kernel.processes (o.kernel.processTable i) = some p) : procs i = p := by
  have hobject := (s.slot i h.caller.lt h.caller.ne_zero).object
  rw [h.processes, h.processTable, hp] at hobject
  exact (Option.some.inj hobject).symm

/-- `isr80h_command4_malloc` of the caller, with what it has asked for. -/
theorem Caller.malloc_iff {res : CommandResult} (hi : Caller k i) (s : InOrder K k)
    (hsize : taskGetStackItem k.currentTask 0 k = .ok (size, k)) :
    isr80hCommand4Malloc k = .ok (res, k') ↔
      ∃ ptr, processMalloc (k.processTable i) size k = .ok (ptr, k') ∧ res = .returned ptr := by
  obtain ⟨t, hread, hprocess⟩ := hi.exists_task s
  unfold isr80hCommand4Malloc
  rw [Fallible.run_get_bind, Fallible.bind_ok hsize, Fallible.bind_ok hread, hprocess]
  constructor
  · intro hrun
    obtain ⟨ptr, k₁, hmalloc, hpure⟩ := Fallible.run_bind.1 hrun
    obtain ⟨rfl, rfl⟩ := Fallible.run_pure.1 hpure
    exact ⟨ptr, hmalloc, rfl⟩
  · rintro ⟨ptr, hmalloc, rfl⟩
    exact Fallible.run_bind.2 ⟨ptr, k', hmalloc, rfl⟩

/-- **Command 4 comes to `process_malloc`** for the caller. -/
theorem OsReached.malloc_iff {res : CommandResult} (h : OsReached image mem fuel stack o₀ o)
    (hi : Caller o.kernel i) (hsave : taskCurrentSaveState frame o.kernel = .ok (⟨⟩, k))
    (hsize : taskGetStackItem k.currentTask 0 k = .ok (size, k)) :
    isr80hHandler image fuel stack 4 frame o = .ok (res, o') ↔
      ∃ ptr k', processMalloc (k.processTable i) size k = .ok (ptr, k') ∧ res = .returned ptr ∧
        o' = { o with kernel := k' } := by
  have hsaved := h.saved hi hsave
  have hmalloc : ∀ {res k'}, isr80hCommand4Malloc k = .ok (res, k') ↔
      ∃ ptr, processMalloc (k.processTable i) size k = .ok (ptr, k') ∧ res = .returned ptr :=
    hsaved.caller.malloc_iff hsaved.inOrder hsize
  rw [h.isr80hHandler_iff hsave rfl rfl fun r k' hrun => by
    obtain ⟨ptr, -, hr⟩ := hmalloc.1 hrun
    exact ⟨ptr, hr⟩]
  constructor
  · rintro ⟨k', hcommand, rfl⟩
    obtain ⟨ptr, hcall, rfl⟩ := hmalloc.1 hcommand
    exact ⟨ptr, k', hcall, rfl, rfl⟩
  · rintro ⟨ptr, k', hcall, rfl, rfl⟩
    exact ⟨k', hmalloc.2 ⟨ptr, hcall, rfl⟩, rfl⟩

/-- `isr80h_command5_free` of the caller. -/
theorem Caller.free_iff {res : CommandResult} (hi : Caller k i) (s : InOrder K k)
    (hptr : taskGetStackItem k.currentTask 0 k = .ok (ptr, k)) :
    isr80hCommand5Free k = .ok (res, k') ↔
      processFree (k.processTable i) ptr k = .ok (⟨⟩, k') ∧ res = .returned 0 := by
  obtain ⟨t, hread, hprocess⟩ := hi.exists_task s
  unfold isr80hCommand5Free
  rw [Fallible.run_get_bind, Fallible.bind_ok hptr, Fallible.bind_ok hread, hprocess,
    Fallible.run_seq]
  constructor
  · rintro ⟨k₁, hfree, hpure⟩
    obtain ⟨rfl, rfl⟩ := Fallible.run_pure.1 hpure
    exact ⟨hfree, rfl⟩
  · rintro ⟨hfree, rfl⟩
    exact ⟨k', hfree, rfl⟩

/-- **`malloc` is served**, when the heap's table can answer: what comes
back is null or newly given to the caller, and it is not null where the
heap has a run of blocks and the process a record. -/
theorem malloc_served (h : OsReached image mem fuel stack o₀ o) (hi : Caller o.kernel i)
    (hsave : taskCurrentSaveState frame o.kernel = .ok (⟨⟩, k))
    (hsize : taskGetStackItem k.currentTask 0 k = .ok (size, k)) (hpos : 0 < size.toNat)
    (hans : o.kernel.store.heap.Answers (blocksFor size.toNat)) :
    ∃ ptr o', isr80hHandler image fuel stack 4 frame o = .ok (.returned ptr, o') ∧
      (ptr ≠ 0 → o.kernel.NewlyGiven o'.kernel i ptr size) ∧
      ((∃ b, FirstFit o.kernel.store.heap.Free o.kernel.store.heap.total (blocksFor size.toNat) b) →
        (∃ p, o.kernel.processes (o.kernel.processTable i) = some p ∧
          p.findFreeAllocationIndex ≠ none) → ptr ≠ 0) := by
  obtain ⟨-, -, -, hplace⟩ := h.inv
  have hsaved := h.saved hi hsave
  have hi' := hsaved.caller
  rw [← hsaved.store] at hans hplace ⊢
  obtain ⟨procs, view, s⟩ := hsaved.inOrder
  have hs := s.slot i hi'.lt hi'.ne_zero
  obtain ⟨ptr, k', hcall, hgranted⟩ := hs.exists_answer hplace hpos hans
  refine ⟨ptr, _, (h.malloc_iff hi hsave hsize).2 ⟨ptr, k', hcall, rfl, rfl⟩, fun hptr => ?_,
    fun hfirst ⟨p, hp, hfind⟩ => ?_⟩
  · have hnew := s.newlyGiven hi'.lt hi'.ne_zero hpos hcall hptr
    refine ⟨hnew.toGivenTo, ?_, hnew.cleared⟩
    unfold Kernel.Unused
    rw [← hsaved.store]
    exact hnew.unused
  · obtain rfl := hsaved.process_eq s hp
    exact hgranted hfirst hfind

/-- **`free` is served**, whatever it is asked to free: what is on record
is taken back, and else nothing changes but the saved state. -/
theorem free_served (h : OsReached image mem fuel stack o₀ o) (hi : Caller o.kernel i)
    (hsave : taskCurrentSaveState frame o.kernel = .ok (⟨⟩, k))
    (hptr : taskGetStackItem k.currentTask 0 k = .ok (ptr, k)) :
    ∃ o', isr80hHandler image fuel stack 5 frame o = .ok (.returned 0, o') ∧
      ∀ p, o.kernel.processes (o.kernel.processTable i) = some p →
        (¬ p.Recorded ptr → o' = { o with kernel := k }) ∧
        ∀ j < osMaxProgramAllocations, ptr ≠ 0 → (p.allocations j).ptr = ptr →
          o'.kernel.TakenBack i ptr (blocksFor (p.allocations j).size.toNat) := by
  have hsaved := h.saved hi hsave
  have hi' := hsaved.caller
  have hfree : ∀ {res k'}, isr80hCommand5Free k = .ok (res, k') ↔
      processFree (k.processTable i) ptr k = .ok (⟨⟩, k') ∧ res = .returned 0 :=
    hi'.free_iff hsaved.inOrder hptr
  have hhandler : ∀ {res o'}, isr80hHandler image fuel stack 5 frame o = .ok (res, o') ↔
      ∃ k', isr80hCommand5Free k = .ok (res, k') ∧ o' = { o with kernel := k' } :=
    h.isr80hHandler_iff hsave rfl rfl fun r k' hrun => ⟨0, (hfree.1 hrun).2⟩
  obtain ⟨procs, view, s⟩ := hsaved.inOrder
  have hs := s.slot i hi'.lt hi'.ne_zero
  by_cases hrecorded : (procs i).Recorded ptr
  · obtain ⟨hne, n, hn, rfl⟩ := hrecorded
    obtain ⟨k', hrun, htaken⟩ := s.takenBack hi'.lt hi'.ne_zero hn hne
    refine ⟨_, hhandler.2 ⟨k', hfree.2 ⟨hrun, rfl⟩, rfl⟩, fun p hp => ?_⟩
    obtain rfl := hsaved.process_eq s hp
    refine ⟨fun hnot => absurd ⟨hne, n, hn, rfl⟩ hnot, fun j hj _ heq => ?_⟩
    obtain rfl : n = j := hs.records.distinct n hn j hj hne heq.symm
    exact htaken
  · have hrun := hs.recordsReady.free_of_not_recorded hrecorded
    refine ⟨_, hhandler.2 ⟨k, hfree.2 ⟨hrun, rfl⟩, rfl⟩, fun p hp => ?_⟩
    obtain rfl := hsaved.process_eq s hp
    exact ⟨fun _ => rfl, fun j hj hne heq => absurd ⟨hne, j, hj, heq⟩ hrecorded⟩

/-! ## A program that asks -/

/-- **The word on the caller's stack**, where the program can write it. -/
theorem Caller.stackItem_eq {esp : Word} (hi : Caller k i) (s : InOrder K k)
    (hesp : ∀ t, k.tasks k.currentTask = some t → t.registers.esp = esp)
    (hw : ∀ x, InRange esp 4 x → k.SlotWrites i x x) :
    taskGetStackItem k.currentTask 0 k = .ok (k.store.mem.load32 esp, k) := by
  obtain ⟨t, hread, -⟩ := hi.exists_task s
  obtain ⟨procs, view, s⟩ := s
  have hs := s.slot i hi.lt hi.ne_zero
  obtain ⟨p, hp, htask⟩ := hi.runs
  obtain rfl := Option.some.inj (hs.object.symm.trans hp)
  obtain ⟨u, hu, hc⟩ := hs.directory.object
  obtain ⟨-, ht, -⟩ := run_readTask.1 hread
  obtain rfl : t = u := Option.some.inj (ht.symm.trans (htask ▸ hu))
  have hspace : ∀ x, InRange esp 4 x →
      taskSpace (k.store.mem.load32 t.pageDirectory) k.store.mem x = some x := by
    intro x hx
    obtain ⟨-, q, u, hq, hu', hspace, -⟩ := hw x hx
    obtain rfl := Option.some.inj (hp.symm.trans hq)
    obtain rfl := Option.some.inj (hu.symm.trans hu')
    exact hspace
  have hchunk : t.pageDirectory ≠ 0 := by
    rw [hc]
    exact (hs.directory.mapped.owns _ (view i).has_chunk).ne_zero s.files.ready
  have hload : loadWord t.pageDirectory 0 k.store =
      .ok (k.store.mem.load32 t.pageDirectory, k.store) :=
    run_loadWord.2 ⟨hchunk, congrArg k.store.mem.load32 (BitVec.add_zero _).symm, rfl⟩
  have hitem : t.registers.esp + BitVec.ofNat 32 (4 * 0) = esp := by
    rw [hesp t ht]
    exact BitVec.add_zero esp
  unfold taskGetStackItem
  rw [Fallible.bind_ok hread, Fallible.bind_ok (run_onStore.2 ⟨k.store, hload, rfl⟩), hitem]
  exact run_onStore.2 ⟨k.store, loadWordThrough_eq hspace, rfl⟩

/-- **A program stores what it likes** in memory it has on record. -/
theorem OsReached.exists_stored (h : OsReached image mem fuel stack o₀ o)
    (hp : o.kernel.ProgramOf i p t) (hn : n < osMaxProgramAllocations)
    (hne : (p.allocations n).ptr ≠ 0) (bytes : ℕ → Byte) : ∀ l ≤ 4096,
    ∃ o' m, OsReached image mem fuel stack o₀ o' ∧
      o'.kernel = { o.kernel with store := { o.kernel.store with mem := m } } ∧
      ∀ x, InRange (p.allocations n).ptr l x → m x = bytes (x - (p.allocations n).ptr).toNat := by
  intro l
  induction l with
  | zero => exact fun _ => ⟨o, o.kernel.store.mem, h, rfl, fun x hx => absurd hx (Nat.not_lt_zero _)⟩
  | succ l ih =>
    intro hl
    obtain ⟨o', m, h', hkernel, hm⟩ := ih (by omega)
    have hp' : o'.kernel.ProgramOf i p t := by
      rw [hkernel]
      exact ⟨hp.lt, hp.ne_zero, hp.process, hp.task⟩
    obtain ⟨⟨procs, view, s⟩, -⟩ := h'.inv
    have hgiven := s.givenTo hp'.lt (s.of_programOf hp').1 hn hne
    have hpos := hgiven.owns.pos
    have hlast : InRange (p.allocations n).ptr
        (4096 * blocksFor (p.allocations n).size.toNat) ((p.allocations n).ptr + BitVec.ofNat 32 l) := by
      unfold InRange
      bv_omega
    have hstep : OsStep image fuel stack (some i) o' { o' with
        kernel := o'.kernel.storeUser ((p.allocations n).ptr + BitVec.ofNat 32 l) (bytes l) } :=
      .store (bytes l) hp.lt (hgiven.writes _ hlast)
    refine ⟨_, Function.update m ((p.allocations n).ptr + BitVec.ofNat 32 l) (bytes l),
      h'.trans (.single hstep), ?_, fun x hx => ?_⟩
    · change o'.kernel.storeUser _ _ = _
      rw [hkernel]
      rfl
    · by_cases hxl : x = (p.allocations n).ptr + BitVec.ofNat 32 l
      · have hlen : (x - (p.allocations n).ptr).toNat = l := by
          rw [hxl]
          bv_omega
        rw [hlen, hxl]
        exact Function.update_self ..
      · refine (Function.update_of_ne hxl ..).trans (hm x ?_)
        unfold InRange at hx ⊢
        bv_omega

/-- **A program that makes a call**, with a word of its choice on its stack:
the stack is what it has on record. -/
theorem exists_calling (word : Word → Word) : ∃ o₀ o frame k p n m,
    OsReached programVolume (fun _ => 0) 1025 lowStack o₀ o ∧ Caller o.kernel 0 ∧
      taskCurrentSaveState frame o.kernel = .ok (⟨⟩, k) ∧
      o.kernel.processes (o.kernel.processTable 0) = some p ∧ o.kernel.CanGive p m ∧
      n < osMaxProgramAllocations ∧ (p.allocations n).ptr ≠ 0 ∧
      taskGetStackItem k.currentTask 0 k = .ok (word (p.allocations n).ptr, k) := by
  obtain ⟨o₀, o, p', m', h, hcaller, -, hp', hgive, p, n, hp, -, hn, hne⟩ := exists_hasRecord
  obtain rfl := Option.some.inj (hp.symm.trans hp')
  obtain ⟨⟨procs, view, s⟩, -⟩ := h.inv
  obtain ⟨t, ht⟩ := s.exists_programOf (i := 0) (by decide) hcaller.ne_zero
  obtain rfl := Option.some.inj (hp.symm.trans ht.process)
  obtain ⟨ptr, hptr⟩ : ∃ ptr, ((procs 0).allocations n).ptr = ptr := ⟨_, rfl⟩
  -- the program writes the word
  obtain ⟨o', m, h', hkernel, hm⟩ := h.exists_stored ht hn hne
    (fun l => (Mem.bytes32 (word ptr)).getD l 0) 4 (by decide)
  have hword : m.load32 ptr = word ptr := by
    refine (Mem.load32_congr fun x hx => ?_).trans
      (Mem.load32_store32_self (m := o.kernel.store.mem) (a := ptr))
    rw [hm x (hptr ▸ hx), hptr]
    exact (Mem.store_of_mem hx).symm
  have hcaller' : Caller o'.kernel 0 := by
    rw [hkernel]
    exact ⟨hcaller.lt, hcaller.ne_zero, hcaller.runs⟩
  have hp' : o'.kernel.processes (o'.kernel.processTable 0) = some (procs 0) := by
    rw [hkernel]
    exact hp
  have hmem : o'.kernel.store.mem = m := by rw [hkernel]
  have hgive' : o'.kernel.CanGive (procs 0) m' := by
    rw [hkernel]
    exact ⟨hgive.place, hgive.room, hgive.lt, hgive.slot⟩
  -- and goes on with its stack there
  obtain ⟨k, hsave, hesp⟩ :=
    hcaller'.exists_saveState h'.inv.1 { userFrame 0x3FEFF8 0x202 with esp := ptr }
  have hsaved := h'.saved hcaller' hsave
  have hw : ∀ x, InRange ptr 4 x → k.SlotWrites 0 x x := by
    obtain ⟨procs', view', s'⟩ := hsaved.inOrder
    have hs := s'.slot 0 hsaved.caller.lt hsaved.caller.ne_zero
    rw [hsaved.process_eq s' hp'] at hs
    have hgiven := s'.givenTo hsaved.caller.lt hs hn hne
    have hpos := hgiven.owns.pos
    intro x hx
    refine hgiven.writes x ?_
    rw [hptr]
    unfold InRange at hx ⊢
    omega
  refine ⟨o₀, o', _, k, procs 0, n, m', h', hcaller', hsave, hp', hgive', hn, hne, ?_⟩
  rw [hsaved.caller.stackItem_eq hsaved.inOrder hesp hw, hsaved.store, hmem, hptr, hword]

/-- A program that asks for a byte, which it is given. -/
theorem malloc_served_program : ∃ o₀ o o' frame ptr,
    OsReached programVolume (fun _ => 0) 1025 lowStack o₀ o ∧ Caller o.kernel 0 ∧
      isr80hHandler programVolume 1025 lowStack 4 frame o = .ok (.returned ptr, o') ∧ ptr ≠ 0 ∧
        o.kernel.NewlyGiven o'.kernel 0 ptr 1 := by
  obtain ⟨o₀, o, frame, k, p, -, m, h, hcaller, hsave, hp, hgive, -, -, hsize⟩ :=
    exists_calling fun _ => 1
  have htotal : o.kernel.store.heap.total = 25600 := hgive.place.total
  have hlt := hgive.lt
  have hone : blocksFor (1 : Word).toNat = 1 := by decide
  obtain ⟨b, -, hb⟩ := hgive.room.exists_firstFit (show m + 1 ≤ o.kernel.store.heap.total by omega)
  obtain ⟨index, hindex⟩ := Process.exists_free_of_usedSlots hgive.slot
  obtain ⟨ptr, o', hrun, hnew, hgranted⟩ := malloc_served h hcaller hsave hsize (by decide)
    (by rw [hone]; exact Or.inl ⟨b, hb.1⟩)
  have hptr : ptr ≠ 0 := hgranted (by rw [hone]; exact ⟨b, hb⟩)
    ⟨p, hp, by rw [hindex]; exact Option.some_ne_none _⟩
  exact ⟨o₀, o, o', frame, ptr, h, hcaller, hrun, hptr, hnew hptr⟩

/-- A program that gives back what it has on record. -/
theorem free_served_program : ∃ o₀ o o' frame ptr n,
    OsReached programVolume (fun _ => 0) 1025 lowStack o₀ o ∧ o.kernel.GivenTo 0 ptr n ∧
      isr80hHandler programVolume 1025 lowStack 5 frame o = .ok (.returned 0, o') ∧
        o'.kernel.TakenBack 0 ptr n := by
  obtain ⟨o₀, o, frame, k, p, n, -, h, hcaller, hsave, hp, -, hn, hne, hptr⟩ := exists_calling id
  obtain ⟨o', hrun, htaken⟩ := free_served h hcaller hsave hptr
  obtain ⟨⟨procs, view, s⟩, -⟩ := h.inv
  have hs := s.slot 0 hcaller.lt hcaller.ne_zero
  obtain rfl := Option.some.inj (hs.object.symm.trans hp)
  exact ⟨o₀, o, o', frame, _, _, h, s.givenTo hcaller.lt hs hn hne, hrun, (htaken _ hp).2 n hn hne rfl⟩

end OwnKernel
