import OwnKernel.Process.ArgumentWalk
import OwnKernel.System.Access

/-!
# What the kernel writes for a program

Strings of a program are copied through its own tables to the kernel's
stack, which leaves all blocks as they were (`SystemInv.copyString`).
Arguments go into blocks the program is given (`SystemInv.inject`). The
vector of pointers has a block of its own, and each string takes a record,
so that it has room for all of them: there are as many records as pointers
in a block.
-/

namespace OwnKernel

variable {K P R : Set Word} {k k₀ k₁ k' : Kernel} {c : ChunkView} {task v dest ptr size argv current : Word}
variable {p : Process} {procs procs' : ℕ → Process} {view view' : ℕ → ChunkView} {i j n fuel : ℕ}
variable {m : Mem} {res max argc : ℤ}

/-- Bytes of no block are written. -/
theorem Spares.writes (a : Spares R P k₀ k) (hm : ∀ x ∈ P, ∀ n, k.store.heap.Owns x n →
      ∀ y, InRange x (4096 * n) y → m y = k.store.mem y) :
    Spares R P k₀ { k with store := { k.store with mem := m } } :=
  a.trans ⟨⟨a.ready, a.files.owns, a.files.items, a.files.single⟩, .refl _, a.now.owned,
    fun _ _ _ hn => hn, hm, a.objects, fun _ _ => rfl, fun _ _ => rfl, fun _ _ => rfl,
    fun _ _ _ => rfl, rfl⟩

/-! ## `copy_string_from_task` -/

/-- **`copy_string_from_task` to the kernel's stack** leaves all blocks as
they were. -/
theorem Spares.copyString (a : Spares R P k₀ k) (hd : HasDirectory k task c) (hpos : 1 ≤ max)
    (hmax : max < 4096) (hdest : ∀ x, InRange dest max.toNat x → ¬ k.store.heap.Spans x)
    (hrun : copyStringFromTask task v dest max k = .ok (res, k')) :
    Spares R P k₀ k' ∧ k' = { k with store := k'.store } := by
  obtain ⟨-, rfl⟩ | ⟨s, s', hz, hbeside, hthrough, rfl⟩ := copyStringFromTask_run hd hpos hmax hrun
  · exact ⟨a, rfl⟩
  obtain ⟨tmp, htmp⟩ : ∃ tmp, tmp = copyBlock k max := ⟨_, rfl⟩
  rw [← htmp] at hz hbeside hthrough
  have hext := kernelZalloc_extends a.ready hz
  have hz' : onStore (kernelZalloc (BitVec.ofInt 32 max)) k = .ok (tmp, { k with store := s }) :=
    run_onStore.2 ⟨s, hz, rfl⟩
  obtain ⟨a₁, htmpP⟩ := a.zalloc hz'
  have hspans : ∀ x, InRange dest max.toNat x → ¬ s.heap.Spans x := fun x hx hin =>
    hdest x hx (hext.place.spans_iff.1 hin)
  have h0 : tmp ≠ 0 := hbeside.owned.ne_zero a₁.ready
  have hobject : k.objects tmp = none := by
    have hsize := toNat_ofInt_max hpos hmax
    exact (a.owns_zalloc hz' (by omega) h0).2
  obtain ⟨-, hheap, hmem, -⟩ := copyStringThrough_spec hbeside hpos hmax hspans hthrough
  have a₂ : Spares R P k₀ { k with store := { s with mem := s'.mem } } := by
    refine a₁.writes fun x hx n hn y hy => hmem y (fun hin => ?_) fun hin => ?_
    · exact hspans y hin (hn.spans a₁.ready hy)
    · exact hn.disjoint hbeside.owned a₁.ready (ne_of_mem_of_not_mem hx htmpP) hy
        (by rwa [Nat.mul_one])
  have a₃ := a₂.free htmpP hbeside.owned hobject
  have hstore : s' = { s with
      heap := s.heap.write (heapFree s.heap tmp)
      mem := s'.mem } := by rw [← hheap]
  rw [hstore]
  exact ⟨a₃, rfl⟩

/-- In the system, for any slot. -/
theorem SystemInv.copyString (s : SystemInv K k procs view) (hd : HasDirectory k task c)
    (hpos : 1 ≤ max) (hmax : max < 4096)
    (hdest : ∀ x, InRange dest max.toNat x → ¬ k.store.heap.Spans x)
    (hrun : copyStringFromTask task v dest max k = .ok (res, k')) (i : ℕ) :
    CallFor R K i k k' procs procs view view := by
  obtain ⟨a, hstate⟩ := (s.spares_refl R Set.univ).copyString hd hpos hmax hdest hrun
  exact s.callFor_of_spared i a (by rw [hstate]) (by rw [hstate])

/-! ## `process_inject_arguments` -/

/-- What a `process_malloc` that answers has recorded. -/
theorem SlotInv.malloc_record (s : SlotInv k i p c)
    (hrun : processMalloc (k.processTable i) size k = .ok (ptr, k')) (hptr : ptr ≠ 0) :
    ∃ index, p.findFreeAllocationIndex = some index ∧
      k'.processes (k.processTable i) = some (p.record index ptr size) := by
  obtain ⟨q, st, -, hcases⟩ := processMalloc_outcome s.directory.exists_task s.object hrun
  obtain ⟨hnull, -⟩ | ⟨hnull, -⟩ | ⟨rfl, -, -, index, k₁, hfind, -, rfl⟩ := hcases
  · exact absurd hnull hptr
  · exact absurd hnull hptr
  · exact ⟨index, hfind, setProcess_processes_self⟩

/-- The process has a block of at least one byte on record. -/
def Process.OnRecord (p : Process) (ptr size : Word) : Prop :=
  ptr ≠ 0 ∧ 0 < size.toNat ∧ ∃ j < osMaxProgramAllocations, p.allocations j = ⟨ptr, size⟩

/-- The first bytes of such a block are given to the program. -/
theorem SlotInv.given_onRecord (s : SlotInv k i p c) (h : p.OnRecord ptr size) {x : Word}
    (hx : InRange ptr 4096 x) :
    ∃ y h n, Held k (k.processTable i) p c y h ∧ h.Given ∧ k.store.heap.Owns y n ∧
      InRange y (4096 * n) x := by
  obtain ⟨h0, hpos, j, hj, hrecord⟩ := h
  have hptr : (p.allocations j).ptr = ptr := by rw [hrecord]
  have hn := s.records.owns j hj (by rwa [hptr])
  have hheld : Held k (k.processTable i) p c (p.allocations j).ptr .record :=
    .record hj (by rwa [hptr])
  rw [hptr] at hheld
  rw [hrecord] at hn
  have hblocks : 0 < blocksFor size.toNat := by
    unfold blocksFor
    omega
  exact ⟨ptr, _, blocksFor size.toNat, hheld, Or.inr (Or.inr rfl), hn, by unfold InRange at hx ⊢; omega⟩

/-- A new record keeps the others. -/
theorem Process.OnRecord.record {q size' : Word} (h : p.OnRecord ptr size)
    (hfind : p.findFreeAllocationIndex = some j) : (p.record j q size').OnRecord ptr size := by
  obtain ⟨h0, hpos, i, hi, hrecord⟩ := h
  refine ⟨h0, hpos, i, hi, ?_⟩
  rw [Process.record_of_ne, hrecord]
  rintro rfl
  rw [(AllocInv.of_findAllocation hfind).2.symm.trans (by rw [hrecord])] at h0
  exact h0 rfl

/-- What has just been recorded is on record. -/
theorem Process.onRecord_self (hfind : p.findFreeAllocationIndex = some j) (h0 : ptr ≠ 0)
    (hpos : 0 < size.toNat) : (p.record j ptr size).OnRecord ptr size :=
  ⟨h0, hpos, j, (AllocInv.of_findAllocation hfind).1, Process.record_self⟩

/-- What is counted, by the rounds. -/
theorem processCountCommandArgumentsLoop_le : ∀ {fuel : ℕ} {current : Word} {a : ℤ}, 0 ≤ a →
    a + fuel ≤ 2 ^ 30 → processCountCommandArgumentsLoop fuel current a k = .ok (argc, k') →
      k' = k ∧ 0 ≤ argc ∧ argc < 2 ^ 30 := by
  intro fuel
  induction fuel with
  | zero =>
    intro current a _ _ hrun
    exact absurd hrun Fallible.run_throw
  | succ fuel ih =>
    intro current a ha hle hrun
    by_cases h0 : current = 0
    · rw [processCountCommandArgumentsLoop, if_pos h0] at hrun
      obtain ⟨rfl, rfl⟩ := Fallible.run_pure.1 hrun
      exact ⟨rfl, ha, by omega⟩
    · rw [processCountCommandArgumentsLoop_succ h0, int32_of_range (by omega) (by omega)] at hrun
      exact ih (by omega) (by omega) hrun

/-- **One string and its pointer**, in blocks on record. -/
theorem SystemInv.argument {k₂ k₃ : Kernel} {u w : PUnit} {size' : Word}
    (s : SystemInv K k procs view) (hi : i < osMaxProcesses) (h0 : k.processTable i ≠ 0)
    (hargv : (procs i).OnRecord argv size) (hptr : (procs i).OnRecord ptr size') (hn : n < 1024)
    (hcopy : onStore (strncpy kernelSpace ptr current sizeofArgument) k = .ok (u, k₂))
    (hstore : onStore (storeWord argv (4 * n) ptr) k₂ = .ok (w, k₃)) :
    ∃ procs' view', CallFor R K i k k₃ procs procs' view view' ∧
      k₃ = { k with store := { k.store with mem := k₃.store.mem } } := by
  have hs := s.slot i hi h0
  obtain ⟨m, hm, hout, -⟩ := exists_strncpy k ptr current
  rw [hm] at hcopy
  obtain ⟨-, rfl⟩ := Prod.mk.inj (Except.ok.inj hcopy)
  obtain ⟨t, ht, rfl⟩ := run_onStore.1 hstore
  unfold storeWord at ht
  rw [if_neg hargv.1, Fallible.run_modify] at ht
  subst ht
  have hgiven : ∀ x, m.store32 (argv + BitVec.ofNat 32 (4 * n)) ptr x ≠ k.store.mem x →
      ∃ y h n, Held k (k.processTable i) (procs i) (view i) y h ∧ h.Given ∧
        k.store.heap.Owns y n ∧ InRange y (4096 * n) x := by
    intro x hx
    by_cases hin : InRange (argv + BitVec.ofNat 32 (4 * n)) 4 x
    · exact hs.given_onRecord hargv (inRange_vector hn hin)
    · have hstring : InRange ptr 512 x := by
        by_contra hnot
        exact hx ((Mem.store32_of_not_mem hin).trans (hout x hnot))
      exact hs.given_onRecord hptr (by unfold InRange at hstring ⊢; omega)
  obtain ⟨procs', view', hcall⟩ := s.writes hi h0 hgiven
  exact ⟨procs', view', hcall, rfl⟩

/-- **The strings**: what is written at index `n` is in the vector's block,
for each round so far has used a record. -/
theorem SystemInv.injectLoop (hi : i < osMaxProcesses) : ∀ {fuel n : ℕ} {current : Word} {k : Kernel}
    {procs : ℕ → Process} {view : ℕ → ChunkView}, SystemInv K k procs view →
    k.processTable i ≠ 0 → (procs i).OnRecord argv size → n + 1 ≤ (procs i).usedSlots →
    processInjectArgumentsLoop (k.processTable i) argv fuel current n k = .ok (res, k') →
      ∃ procs' view', CallFor R K i k k' procs procs' view view' ∧
        k'.processTable = k.processTable := by
  intro fuel
  induction fuel with
  | zero =>
    intro n current k procs view _ _ _ _ hrun
    exact absurd hrun Fallible.run_throw
  | succ fuel ih =>
    intro n current k procs view s h0 hargv hused hrun
    by_cases hcur : current = 0
    · rw [processInjectArgumentsLoop, processInjectArgumentsLoopOn, if_pos hcur] at hrun
      obtain ⟨-, rfl⟩ := Fallible.run_pure.1 hrun
      exact ⟨procs, view, s.callFor_of_spared i (s.spares_refl R _) rfl rfl, rfl⟩
    rw [processInjectArgumentsLoop, processInjectArgumentsLoopOn, if_neg hcur] at hrun
    obtain ⟨ptr, k₁, hmalloc, hrun⟩ := Fallible.run_bind.1 hrun
    obtain ⟨procs₁, view₁, hcall₁, htable₁⟩ := s.malloc (R := R) hi h0 (by decide) hmalloc
    by_cases hptr : ptr = 0
    · rw [if_pos hptr] at hrun
      obtain ⟨-, rfl⟩ := Fallible.run_pure.1 hrun
      exact ⟨procs₁, view₁, hcall₁, htable₁⟩
    rw [if_neg hptr] at hrun
    -- the block is recorded
    have h0₁ : k₁.processTable i ≠ 0 := by rwa [htable₁]
    have s₁ := hcall₁.inv
    have hs₁ := s₁.slot i hi h0₁
    obtain ⟨index, hfind, hprocess⟩ := (s.slot i hi h0).malloc_record hmalloc hptr
    have hprocs₁ : procs₁ i = (procs i).record index ptr (BitVec.ofNat 32 sizeofArgument) := by
      have hobject := hs₁.object
      rw [htable₁] at hobject
      exact Option.some.inj (hobject.symm.trans hprocess)
    have hargv₁ : (procs₁ i).OnRecord argv size := hprocs₁ ▸ hargv.record hfind
    have hptr₁ : (procs₁ i).OnRecord ptr (BitVec.ofNat 32 sizeofArgument) :=
      hprocs₁ ▸ Process.onRecord_self hfind hptr (by decide)
    have hused₁ : n + 2 ≤ (procs₁ i).usedSlots := by
      rw [hprocs₁, Process.usedSlots_record _ hfind hptr]
      omega
    have hle := (procs₁ i).usedSlots_le
    -- the string is copied, and its pointer stored
    obtain ⟨k₂, hcopy, hrun⟩ := Fallible.run_seq.1 hrun
    obtain ⟨k₃, hstore, hrun⟩ := Fallible.run_seq.1 hrun
    obtain ⟨procs₃, view₃, hcall₃, hk₃⟩ := s₁.argument (R := R) hi h0₁ hargv₁ hptr₁ (by omega) hcopy hstore
    obtain ⟨next, k₄, hread, hrest⟩ := Fallible.run_bind.1 hrun
    obtain ⟨t, ht, rfl⟩ := run_onStore.1 hread
    obtain ⟨-, -, rfl⟩ := run_loadWord.1 ht
    have htable₃ : k₃.processTable = k.processTable := by rw [hk₃, htable₁]
    have h0₃ : k₃.processTable i ≠ 0 := by rwa [htable₃]
    have hprocs₃ : procs₃ i = procs₁ i := by
      have hobject := (hcall₃.inv.slot i hi h0₃).object
      rw [hk₃] at hobject
      exact Option.some.inj (hobject.symm.trans hs₁.object)
    rw [← hprocs₃] at hargv₁ hused₁
    rw [← htable₃] at hrest
    obtain ⟨procs₄, view₄, hcall₄, htable₄⟩ := ih hcall₃.inv h0₃ hargv₁ hused₁ hrest
    exact ⟨procs₄, view₄, (hcall₁.trans hcall₃).trans hcall₄, htable₄.trans htable₃⟩

/-- **`process_inject_arguments`**, of a list that is shorter than memory
has words. -/
theorem SystemInv.inject (s : SystemInv K k procs view) (hi : i < osMaxProcesses)
    (h0 : k.processTable i ≠ 0) (hfuel : fuel ≤ 2 ^ 30)
    (hrun : processInjectArguments fuel (k.processTable i) current k = .ok (res, k')) :
    ∃ procs' view', CallFor R K i k k' procs procs' view view' ∧ k'.processTable = k.processTable := by
  obtain ⟨argc, k₀, hcount, hrun⟩ := Fallible.run_bind.1 hrun
  obtain ⟨rfl, hargc, hlt⟩ := processCountCommandArgumentsLoop_le (le_refl 0) (by omega) hcount
  have hsame : ∀ {res' : ℤ}, (pure res' : KernelM ℤ) k₀ = .ok (res, k') →
      ∃ procs' view', CallFor R K i k₀ k' procs procs' view view' ∧
        k'.processTable = k₀.processTable := by
    intro res' hpure
    obtain ⟨-, rfl⟩ := Fallible.run_pure.1 hpure
    exact ⟨procs, view, s.callFor_of_spared i (s.spares_refl R _) rfl rfl, rfl⟩
  by_cases hzero : argc = 0
  · rw [if_pos hzero] at hrun
    exact hsame hrun
  rw [if_neg hzero] at hrun
  -- the vector
  obtain ⟨argv, k₁, hmalloc, hrun⟩ := Fallible.run_bind.1 hrun
  have hsize : 0 < (BitVec.ofInt 32 (4 * argc)).toNat := by
    rw [BitVec.toNat_ofInt]
    omega
  obtain ⟨procs₁, view₁, hcall₁, htable₁⟩ := s.malloc (R := R) hi h0 hsize hmalloc
  by_cases hargv : argv = 0
  · rw [if_pos hargv] at hrun
    obtain ⟨-, rfl⟩ := Fallible.run_pure.1 hrun
    exact ⟨procs₁, view₁, hcall₁, htable₁⟩
  rw [if_neg hargv] at hrun
  have h0₁ : k₁.processTable i ≠ 0 := by rwa [htable₁]
  obtain ⟨index, hfind, hprocess⟩ := (s.slot i hi h0).malloc_record hmalloc hargv
  have hprocs₁ : procs₁ i = (procs i).record index argv (BitVec.ofInt 32 (4 * argc)) := by
    have hobject := (hcall₁.inv.slot i hi h0₁).object
    rw [htable₁] at hobject
    exact Option.some.inj (hobject.symm.trans hprocess)
  obtain ⟨res₂, k₂, hloop, hrun⟩ := Fallible.run_bind.1 hrun
  rw [← htable₁] at hloop
  obtain ⟨procs₂, view₂, hcall₂, htable₂⟩ := SystemInv.injectLoop (R := R) hi hcall₁.inv h0₁
    (hprocs₁ ▸ Process.onRecord_self hfind hargv hsize)
    (by rw [hprocs₁, Process.usedSlots_record _ hfind hargv]; omega) hloop
  have hcall := hcall₁.trans hcall₂
  have htable := htable₂.trans htable₁
  by_cases hneg : res₂ < 0
  · rw [if_pos hneg] at hrun
    obtain ⟨-, rfl⟩ := Fallible.run_pure.1 hrun
    exact ⟨procs₂, view₂, hcall, htable⟩
  -- the arguments are set
  rw [if_neg hneg] at hrun
  obtain ⟨k₃, hmod, hpure⟩ := Fallible.run_seq.1 hrun
  obtain ⟨-, rfl⟩ := Fallible.run_pure.1 hpure
  obtain ⟨-, p, hp, rfl⟩ := run_modifyProcess.1 hmod
  have h0₂ : k₂.processTable i ≠ 0 := by rwa [htable]
  rw [← htable] at hp
  obtain rfl := Option.some.inj ((hcall.inv.slot i hi h0₂).object.symm.trans hp)
  obtain ⟨p', hp'⟩ : ∃ p' : Process, p' = { procs₂ i with arguments := ⟨argc, argv⟩ } := ⟨_, rfl⟩
  have hset : p' = { procs₂ i with
      keyboard := p'.keyboard
      arguments := p'.arguments } := by rw [hp']
  obtain ⟨procs₃, view₃, hcall₃⟩ := hcall.inv.setProcess hi h0₂ hset
  rw [hp'] at hcall₃
  rw [htable] at hcall₃
  exact ⟨procs₃, view₃, hcall.trans hcall₃, htable⟩

end OwnKernel
