import OwnKernel.System.Isolation

/-!
# Memory that a program is given

What a process has on record it has been given: the block is allocated,
and the program, but no other, can write each of its bytes at the byte's
own address (`granted_usable`).
-/

namespace OwnKernel

open Fallible (Keeps)

variable {k k' : Kernel} {c : ChunkView} {mem : Mem} {o o' o₀ : Os} {image : Sectors}
variable {stack : KernelStack} {fuel i j n index : ℕ} {p : Process} {process ptr size q v : Word}
variable {K : Set Word} {procs : ℕ → Process} {view : ℕ → ChunkView} {st : Store}

/-- Such a page is present. -/
theorem UserWriteable.present {entry : Word} (h : UserWriteable entry) :
    entry &&& pagingIsPresent ≠ 0 := by
  have hflag : userWriteableFlags &&& pagingIsPresent = pagingIsPresent := by decide
  unfold UserWriteable at h
  rw [← hflag, ← BitVec.and_assoc, h, hflag]
  decide

/-- **A page mapped at its own address, for the user to write**, is written
there. -/
theorem ChunkView.At.userWrites_of_entry {st : Store} (h : c.At st) (hopen : c.OpenDirectory st.mem)
    (hentry : c.entry st.mem (v.toNat / 4096) =
      BitVec.ofNat 32 (4096 * (v.toNat / 4096)) ||| userWriteableFlags) :
    UserWrites st.mem c.directory v v := by
  have hlt := ChunkView.At.page_lt v
  have hwriteable : UserWriteable (c.entry st.mem (v.toNat / 4096)) := by
    rw [hentry]
    refine (userWriteable_or ?_).2 ?_
    · rw [BitVec.toNat_ofNat]
      omega
    · unfold UserWriteable
      decide
  have hopened := hopen (v.toNat / 4096 / 1024) (by omega)
  refine h.userWrites_iff.2 ⟨?_, hopened, hwriteable⟩
  rw [h.taskSpace_eq, if_neg]
  · -- the page is at its own address
    unfold ChunkView.physical
    rw [hentry, pageAddress_or_and_addressMask]
    congr 1
    apply BitVec.eq_of_toNat_eq
    rw [BitVec.toNat_add, BitVec.toNat_umod, BitVec.toNat_ofNat]
    have hv := v.isLt
    change (4096 * (v.toNat / 4096) % 2 ^ 32 + v.toNat % 4096) % 2 ^ 32 = v.toNat
    omega
  · rintro (h | h)
    · exact hopened.present h
    · exact hwriteable.present h

/-- **What a process has asked for its program can write**, at the address
it was told. -/
theorem SlotInv.slotWrites_of_record (s : SlotInv k i p c) (hj : j < osMaxProgramAllocations)
    (h0 : (p.allocations j).ptr ≠ 0)
    (hv : InRange (p.allocations j).ptr (4096 * blocksFor (p.allocations j).size.toNat) v) :
    k.SlotWrites i v v := by
  have hal := (s.records.owns j hj h0).aligned s.directory.ready
  have hfits := s.records.fits j hj h0
  have hv' : (p.allocations j).ptr.toNat ≤ v.toNat ∧ v.toNat <
      (p.allocations j).ptr.toNat + 4096 * blocksFor (p.allocations j).size.toNat := by
    unfold InRange at hv
    rw [BitVec.toNat_sub] at hv
    omega
  have hentry := s.granted j hj (v.toNat / 4096) ⟨h0, by omega, by omega⟩
  exact s.slotWrites_iff.2 (s.directory.mapped.userWrites_of_entry s.opened hentry)

/-- **A block that is the program's of slot `i`**: it is allocated, and the
program, but no other, can write each of its bytes at the byte's own
address. -/
structure Kernel.GivenTo (k : Kernel) (i : ℕ) (ptr : Word) (n : ℕ) : Prop where
  owns : k.store.heap.Owns ptr n
  writes : ∀ v, InRange ptr (4096 * n) v → k.SlotWrites i v v
  alone : ∀ v, InRange ptr (4096 * n) v → ∀ j < osMaxProcesses, j ≠ i → ∀ w, ¬ k.SlotWrites j w v

/-- **What is on record is given.** -/
theorem SystemInv.givenTo (s : SystemInv K k procs view) (hi : i < osMaxProcesses)
    (hs : SlotInv k i p c) (hn : n < osMaxProgramAllocations) (h0 : (p.allocations n).ptr ≠ 0) :
    k.GivenTo i (p.allocations n).ptr (blocksFor (p.allocations n).size.toNat) := by
  have hw : ∀ v, InRange (p.allocations n).ptr
      (4096 * blocksFor (p.allocations n).size.toNat) v → k.SlotWrites i v v := fun v hv =>
    hs.slotWrites_of_record hn h0 hv
  exact ⟨hs.records.owns n hn h0, hw, fun v hv j hj hne w =>
    s.slotWrites_disjoint hi hj (Ne.symm hne) (hw v hv)⟩

/-- **What a process has on record is its own to use** in every state that
is reached. -/
theorem granted_usable (h : OsReached image mem fuel stack o₀ o) :
    ∀ i p t, o.kernel.ProgramOf i p t → ∀ n < osMaxProgramAllocations, (p.allocations n).ptr ≠ 0 →
      o.kernel.GivenTo i (p.allocations n).ptr (blocksFor (p.allocations n).size.toNat) := by
  obtain ⟨⟨procs, view, s⟩, -⟩ := h.inv
  intro i p t hp n hn h0
  obtain ⟨hs, -⟩ := s.of_programOf hp
  exact s.givenTo hp.lt hs hn h0

/-! ## A program with a record -/

/-- The process is the one that runs, and has something on record. -/
def HasRecord (process : Word) (k : Kernel) : Prop :=
  ∃ p n, k.processes process = some p ∧ p.task = k.currentTask ∧ n < osMaxProgramAllocations ∧
    (p.allocations n).ptr ≠ 0

theorem HasRecord.runs (h : HasRecord process k) :
    ∃ p, k.processes process = some p ∧ p.task = k.currentTask := by
  obtain ⟨p, -, hp, htask, -⟩ := h
  exact ⟨p, hp, htask⟩

/-- A slot in use is a record. -/
theorem HasRecord.of_usedSlots (hp : k.processes process = some p) (htask : p.task = k.currentTask)
    (hused : 0 < p.usedSlots) : HasRecord process k := by
  obtain ⟨n, hn⟩ := Finset.card_pos.1 hused
  obtain ⟨hn, h0⟩ := Finset.mem_filter.1 hn
  exact ⟨p, n, hp, htask, Finset.mem_range.1 hn, h0⟩

/-- **A block that the heap gives a process can have**, when it can record
it. -/
theorem SlotInv.exists_processMalloc (s : SlotInv k i p c)
    (hplace : kernelHeapInit.SamePlace k.store.heap) (hpos : 0 < size.toNat)
    (hsize : size.toNat ≤ 0xFFFFF000) (hz : kernelZalloc size k.store = .ok (q, st)) (hq : q ≠ 0)
    (hfind : p.findFreeAllocationIndex = some index) :
    ∃ k', processMalloc (k.processTable i) size k = .ok (q, k') := by
  have hr := s.directory.ready
  obtain ⟨hext, ho, -, -⟩ := kernelZalloc_spec hr hpos hsize hz hq
  have hplace' := hplace.trans hext.place
  have hr' := hext.ready hr
  have hfits : q.toNat + 4096 * blocksFor size.toNat < 2 ^ 32 := by
    obtain ⟨b, -, hb, hle', -⟩ := ho.exists_block hr'
    rw [hplace'.total] at hle'
    rw [hplace'.start] at hb
    change q.toNat = 0x01000000 + _ at hb
    change _ ≤ 104857600 / 4096 at hle'
    omega
  have hd : HasDirectory { k with store := st } p.task c :=
    ⟨hr', s.directory.ne_zero, s.directory.object, (s.directory.mapped.of_extends hr hext).1⟩
  obtain ⟨k₂, hmalloc, -, -⟩ := processMalloc_eq s.ne_zero s.object hz hq hd
    (validRange_allocation (ho.aligned hr') hfits) hfind
  exact ⟨_, hmalloc⟩

/-- **A program with a record**: the one that runs is given an argument.
Memory and records are left. -/
theorem exists_hasRecord : ∃ o₀ o p n, OsReached programVolume (fun _ => 0) 1025 lowStack o₀ o ∧
    Caller o.kernel 0 ∧ o.kernel.processTable 1 ≠ 0 ∧
    o.kernel.processes (o.kernel.processTable 0) = some p ∧ o.kernel.CanGive p n ∧
      HasRecord (o.kernel.processTable 0) o.kernel := by
  obtain ⟨o₀, o, p, q, h, htwo, m, hroom, hm⟩ := exists_osReached 1025 (by decide)
  obtain ⟨hin, -, hout, hplace⟩ := h.inv
  have htotal : o.kernel.store.heap.total = 25600 := hplace.total
  -- the argument is written to the kernel's stack
  obtain ⟨k₁, hk₁⟩ : ∃ k₁, k₁ = { o.kernel with store := { o.kernel.store with
    mem := argumentMem o.kernel.store.mem lowStack.argument [] } } := ⟨_, rfl⟩
  have hreaches : Reaches (SystemStep programVolume) Set.univ o.kernel k₁ := by
    rw [hk₁]
    refine stack_reaches (Set.mem_univ none) programVolume (fun x hx => ?_) hout.argument
    by_contra hnot
    exact hx (argumentMem_of_outside (by decide) hnot)
  have hsame : k₁.processTable = o.kernel.processTable ∧ k₁.store.heap = o.kernel.store.heap ∧
      k₁.processes = o.kernel.processes ∧ k₁.currentTask = o.kernel.currentTask := by
    rw [hk₁]
    exact ⟨rfl, rfl, rfl, rfl⟩
  obtain ⟨htable, hheap, hprocesses, hcurrent⟩ := hsame
  have hne : k₁.processTable 0 ≠ 0 := htable ▸ htwo.ne_zero.1
  have hlast : k₁.store.mem.load32
      (lowStack.argument + BitVec.ofNat 32 commandArgumentNextOffset) = 0 := by
    rw [hk₁]
    exact Mem.load32_store32_self
  obtain ⟨procs, view, s⟩ := hreaches.inOrder hin
  have hs := s.slot 0 (by decide) hne
  obtain rfl : procs 0 = p := by
    have hobject := hs.object
    rw [htable, hprocesses, htwo.first] at hobject
    exact (Option.some.inj hobject).symm
  have hused : (procs 0).usedSlots = 0 :=
    Process.usedSlots_eq_zero fun j => by rw [htwo.records]; rfl
  have hgive : k₁.CanGive (procs 0) m :=
    ⟨hheap ▸ hplace, hheap ▸ hroom, by omega, by omega⟩
  have hlist : ArgumentList k₁.store.mem lowStack.argument [lowStack.argument] :=
    ⟨by decide, rfl, hlast⟩
  have hnodes : ∀ x, InNodes [lowStack.argument] x → ¬ k₁.store.heap.Spans x := by
    rintro x ⟨y, hy, hx⟩
    rw [List.mem_singleton.1 hy] at hx
    rw [hheap]
    exact hout.argument x hx
  obtain ⟨k', p', hrun, hp', htask, hgive', hpos, -⟩ := processInjectArguments_of_room 1025
    hs.ne_zero hs.object hs.directory hgive hlist (List.cons_ne_nil _ _)
    (by rw [List.length_singleton]; omega) (by rw [List.length_singleton]; omega) hnodes
    (by rw [List.length_singleton]; decide)
  have hlists := (keeps_sameLists_processInjectArguments k₁ (.refl _)).2 _ _ hrun
  have hrecord := HasRecord.of_usedSlots hp'
    (htask.trans ((htwo.runs.trans hcurrent.symm).trans hlists.currentTask.symm)) hpos
  -- the program runs with it
  have hinject : injectArgument 1025 (o.kernel.processTable 0) lowStack.argument [] o.kernel =
      .ok (0, k') := by
    rw [htable, hk₁] at hrun
    exact (injectArgument_eq (by decide)).trans hrun
  have hstep : OsStep programVolume 1025 lowStack (some 0) o { o with kernel := k' } :=
    .argument (by decide) htwo.ne_zero.1 (by decide) hinject
  have hkept : k'.processTable = o.kernel.processTable := hlists.processTable.trans htable
  rw [htable, ← hkept] at hp' hrecord
  refine ⟨o₀, { o with kernel := k' }, p', m + 2, h.trans (.single hstep),
    ⟨by decide, hkept ▸ htwo.ne_zero.1, hrecord.runs⟩, hkept ▸ htwo.ne_zero.2, hp', hgive', hrecord⟩

/-- A program that has been given memory. -/
theorem granted_usable_program : ∃ o₀ o i p t n,
    OsReached programVolume (fun _ => 0) 1025 lowStack o₀ o ∧ o.kernel.ProgramOf i p t ∧
      n < osMaxProgramAllocations ∧ (p.allocations n).ptr ≠ 0 ∧
        o.kernel.GivenTo i (p.allocations n).ptr (blocksFor (p.allocations n).size.toNat) := by
  obtain ⟨o₀, o, -, -, h, hcaller, -, -, -, p, n, hp, -, hn, hne⟩ := exists_hasRecord
  obtain ⟨⟨procs, view, s⟩, -⟩ := h.inv
  obtain ⟨t, ht⟩ := s.exists_programOf (i := 0) (by decide) hcaller.ne_zero
  obtain rfl := Option.some.inj (hp.symm.trans ht.process)
  exact ⟨o₀, o, 0, _, t, n, h, ht, hn, hne, granted_usable h 0 _ t ht n hn hne⟩

end OwnKernel
