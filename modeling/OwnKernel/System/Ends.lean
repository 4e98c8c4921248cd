import OwnKernel.Process.Terminate
import OwnKernel.System.Calls

/-!
# The end of a process among others

`process_terminate` gives back what the process has asked for, its
program, its stack and its task, and takes it out of the table. While it
does so the process is not in order any more, so what is left of its
blocks is carried along with the blocks of the others (`BlocksLeft`). In
the end the slot is empty, and the system is in order
(`SystemInv.terminate`).
-/

namespace OwnKernel

variable {K R : Set Word} {k k' k₁ : Kernel} {process q : Word} {p : Process} {res : ℤ}
variable {procs procs' : ℕ → Process} {view view' : ℕ → ChunkView} {i n : ℕ} {gone : Set Holding}

/-! ## What is left -/

/-- **The blocks that are left** when slot `i` has given back what it held
for `gone`: its others, and those of the other slots. -/
def BlocksLeft (K : Set Word) (k : Kernel) (procs : ℕ → Process) (view : ℕ → ChunkView) (i : ℕ)
    (gone : Set Holding) : Set Word :=
  BlocksOf K k procs view {j | j ≠ i} ∪
    {x | ∃ h, h ∉ gone ∧ Held k (k.processTable i) (procs i) (view i) x h}

theorem BlocksLeft.mono {gone' : Set Holding} (h : gone ⊆ gone') :
    BlocksLeft K k procs view i gone' ⊆ BlocksLeft K k procs view i gone := by
  rintro x (hx | ⟨h', hne, hx⟩)
  · exact Or.inl hx
  · exact Or.inr ⟨h', fun hin => hne (h hin), hx⟩

namespace SystemInv

/-- At first all are left. -/
theorem spares_blocksLeft (s : SystemInv K k procs view) (hi : i < osMaxProcesses)
    (h0 : k.processTable i ≠ 0) (gone : Set Holding) :
    Spares R (BlocksLeft K k procs view i gone) k k := by
  refine (s.spares_refl R Set.univ).mono ?_
  rintro x (hx | ⟨h, -, hx⟩)
  · exact BlocksOf.mono (Set.subset_univ _) hx
  · exact Or.inr ⟨i, hi, trivial, h0, h, hx⟩

/-- What is given back is not left. -/
theorem not_mem_blocksLeft (s : SystemInv K k procs view) (hi : i < osMaxProcesses)
    (h0 : k.processTable i ≠ 0) {x : Word} {h : Holding}
    (hx : Held k (k.processTable i) (procs i) (view i) x h) (hgone : h ∈ gone) :
    x ∉ BlocksLeft K k procs view i gone := by
  rintro (hin | ⟨h', hne, hx'⟩)
  · exact s.not_mem_others hi h0 hx hin
  · exact hne ((s.slot i hi h0).distinct x h h' hx hx' ▸ hgone)

/-- **A block that is left is given back.** -/
theorem spares_free (s : SystemInv K k procs view) (hi : i < osMaxProcesses)
    (h0 : k.processTable i ≠ 0) {h : Holding}
    (hx : Held k (k.processTable i) (procs i) (view i) q h)
    (a : Spares R (BlocksLeft K k procs view i gone) k k') (hh : h ∉ gone) :
    Spares R (BlocksLeft K k procs view i (insert h gone)) k
      { k' with store := { k'.store with heap := k'.store.heap.write (heapFree k'.store.heap q) } } := by
  have hleft : q ∈ BlocksLeft K k procs view i gone := Or.inr ⟨h, hh, hx⟩
  obtain ⟨n, hn⟩ := a.now.owned q hleft
  refine (a.mono (BlocksLeft.mono (Set.subset_insert _ _))).free ?_ hn (a.objects q hleft)
  exact s.not_mem_blocksLeft hi h0 hx (Set.mem_insert _ _)

/-! ## What it has asked for -/

/-- **`process_terminate_allocations`**, from slot `n` of the records. -/
theorem terminateAllocationsLoop : ∀ {m n : ℕ} {k k' : Kernel} {procs : ℕ → Process}
    {view : ℕ → ChunkView}, SystemInv K k procs view → i < osMaxProcesses → k.processTable i ≠ 0 →
      processTerminateAllocationsLoop (k.processTable i) m n k = .ok (⟨⟩, k') →
        ∃ procs' view', CallFor R K i k k' procs procs' view view' ∧
          k'.processTable = k.processTable := by
  intro m
  induction m with
  | zero =>
    intro n k k' procs view s hi h0 hrun
    obtain ⟨-, rfl⟩ := Fallible.run_pure.1 hrun
    exact ⟨procs, view, s.callFor_of_spared i (s.spares_refl R _) rfl rfl, rfl⟩
  | succ m ih =>
    intro n k k' procs view s hi h0 hrun
    rw [processTerminateAllocationsLoop] at hrun
    obtain ⟨p, k₁, hread, hrun⟩ := Fallible.run_bind.1 hrun
    obtain ⟨-, -, rfl⟩ := run_readProcess.1 hread
    obtain ⟨k₂, hfree, hloop⟩ := Fallible.run_seq.1 hrun
    obtain ⟨procs₂, view₂, hcall, htable⟩ := s.free (R := R) hi h0 hfree
    rw [← htable] at h0 hloop
    obtain ⟨procs', view', hrest, htable'⟩ := ih hcall.inv hi h0 hloop
    exact ⟨procs', view', hcall.trans hrest, htable'.trans htable⟩

/-! ## Its program -/

/-- What a program gives back. -/
abbrev programHoldings : Set Holding := insert .elfFile (insert .image ∅)

/-- **`process_free_program_data`.** -/
theorem freeProgramData (s : SystemInv K k procs view) (hi : i < osMaxProcesses)
    (h0 : k.processTable i ≠ 0)
    (hrun : processFreeProgramData (k.processTable i) k = .ok (res, k')) :
    (res < 0 ∧ k' = k) ∨ (res = 0 ∧ Spares R (BlocksLeft K k procs view i programHoldings) k k' ∧
      k' = { k with store := k'.store, elfFiles := k'.elfFiles }) := by
  have hs := s.slot i hi h0
  have a := s.spares_blocksLeft (R := R) hi h0 ∅
  have himage : Held k (k.processTable i) (procs i) (view i) (k.programMemory (procs i)) .image :=
    .image
  obtain ⟨p, k₁, hread, hrest⟩ := Fallible.run_bind.1 hrun
  obtain ⟨-, hp, rfl⟩ := run_readProcess.1 hread
  rw [hs.object] at hp
  obtain rfl := Option.some.inj hp
  by_cases hbinary : (procs i).filetype = processFiletypeBinary
  · rw [if_pos hbinary] at hrest
    obtain ⟨k₂, hfree, hpure⟩ := Fallible.run_seq.1 hrest
    obtain ⟨rfl, rfl⟩ := Fallible.run_pure.1 hpure
    have hmemory : k₁.programMemory (procs i) = (procs i).ptr := by
      unfold Kernel.programMemory
      rw [if_neg (by rw [hbinary]; decide)]
    rw [hmemory] at himage
    rw [run_freePointer] at hfree
    refine Or.inr ⟨rfl, ?_, by rw [hfree]⟩
    rw [hfree]
    exact (s.spares_free hi h0 himage a (Set.notMem_empty _)).mono
      (BlocksLeft.mono (Set.subset_insert _ _))
  rw [if_neg hbinary] at hrest
  by_cases helf : (procs i).filetype = processFiletypeElf
  · rw [if_pos helf] at hrest
    obtain ⟨k₂, hclose, hpure⟩ := Fallible.run_seq.1 hrest
    obtain ⟨rfl, rfl⟩ := Fallible.run_pure.1 hpure
    have hfile : Held k₁ (k₁.processTable i) (procs i) (view i) (procs i).ptr .elfFile :=
      .elfFile helf
    unfold elfClose at hclose
    have hptr : (procs i).ptr ≠ 0 := by
      obtain ⟨⟨n, hn⟩, -⟩ := hs.owned _ _ hfile
      exact hn.ne_zero s.files.ready
    rw [if_neg hptr] at hclose
    obtain ⟨file, k₃, hreadFile, hfrees⟩ := Fallible.run_bind.1 hclose
    obtain ⟨-, hobject, rfl⟩ := run_readElfFile.1 hreadFile
    obtain ⟨k₄, hfreeMemory, hrest'⟩ := Fallible.run_seq.1 hfrees
    obtain ⟨k₅, hfreeFile, hmod⟩ := Fallible.run_seq.1 hrest'
    have hmemory : k₃.programMemory (procs i) = file.elfMemory := by
      unfold Kernel.programMemory
      rw [if_pos helf, hobject]
      rfl
    rw [hmemory] at himage
    rw [run_freePointer] at hfreeMemory hfreeFile
    rw [Fallible.run_modify] at hmod
    have a₄ := s.spares_free hi h0 himage a (Set.notMem_empty _)
    rw [← hfreeMemory] at a₄
    have a₅ := s.spares_free hi h0 hfile a₄ (by simp)
    rw [← hfreeFile] at a₅
    refine Or.inr ⟨rfl, ?_, by rw [hmod, hfreeFile, hfreeMemory]; rfl⟩
    rw [hmod]
    exact a₅.setElfFile (s.not_mem_blocksLeft hi h0 hfile (Set.mem_insert _ _))
  · rw [if_neg helf] at hrest
    obtain ⟨rfl, rfl⟩ := Fallible.run_pure.1 hrest
    exact Or.inl ⟨by decide, rfl⟩

/-! ## The table -/

/-- **`process_unlink`** empties the slot, and leaves another process
running if it was this one. -/
theorem processUnlink_cases {process : Word} (hp : k.processes process = some p)
    (hrun : processUnlink process k = .ok (⟨⟩, k')) :
    ∃ current, k' = { k with
        processTable := Function.update k.processTable p.id 0
        currentProcess := current } ∧
      ((k.currentProcess ≠ process ∧ current = k.currentProcess) ∨
        ∃ j < osMaxProcesses, Function.update k.processTable p.id 0 j ≠ 0 ∧
          Function.update k.processTable p.id 0 j = current) := by
  obtain ⟨p', k₁, hread, hrun⟩ := Fallible.run_bind.1 hrun
  obtain ⟨-, hp', rfl⟩ := run_readProcess.1 hread
  rw [hp] at hp'
  obtain rfl := Option.some.inj hp'
  by_cases hid : osMaxProcesses ≤ p.id
  · rw [if_pos hid] at hrun
    exact absurd hrun Fallible.run_throw
  rw [if_neg hid] at hrun
  obtain ⟨k₂, hmod, hrun⟩ := Fallible.run_seq.1 hrun
  rw [Fallible.run_modify] at hmod
  subst hmod
  rw [Fallible.run_get_bind] at hrun
  by_cases hcurrent : k₁.currentProcess = process
  · rw [if_pos hcurrent] at hrun
    unfold processSwitchToAny at hrun
    rw [Fallible.run_get_bind] at hrun
    cases hfind : (List.range osMaxProcesses).find?
        fun j => Function.update k₁.processTable p.id 0 j ≠ 0 with
    | none =>
      simp only [hfind] at hrun
      exact absurd hrun Fallible.run_throw
    | some j =>
      simp only [hfind] at hrun
      obtain ⟨r, k₃, hswitch, hpure⟩ := Fallible.run_bind.1 hrun
      obtain ⟨-, rfl⟩ := Fallible.run_pure.1 hpure
      obtain ⟨k₄, hset, hpure'⟩ := Fallible.run_seq.1 hswitch
      obtain ⟨-, rfl⟩ := Fallible.run_pure.1 hpure'
      rw [Fallible.run_modify] at hset
      have hj := List.mem_range.1 (List.mem_of_find?_eq_some hfind)
      have hne : Function.update k₁.processTable p.id 0 j ≠ 0 := by
        simpa using List.find?_some hfind
      exact ⟨_, hset, Or.inr ⟨j, hj, hne, rfl⟩⟩
  · rw [if_neg hcurrent] at hrun
    obtain ⟨-, rfl⟩ := Fallible.run_pure.1 hrun
    exact ⟨k₁.currentProcess, rfl, Or.inl ⟨hcurrent, rfl⟩⟩

/-! ## All of it -/

/-- **`process_terminate`**: with its program, the process is gone from the
table, and otherwise only what it has asked for is given back. -/
theorem terminate (s : SystemInv K k procs view) (hi : i < osMaxProcesses)
    (h0 : k.processTable i ≠ 0) (hrun : processTerminate (k.processTable i) k = .ok (res, k')) :
    ∃ procs' view', CallFor R K i k k' procs procs' view view' ∧
      ((res < 0 ∧ k'.processTable = k.processTable) ∨ (res = 0 ∧ k'.processTable i = 0)) := by
  obtain ⟨r, k₁, hallocs, hrun⟩ := Fallible.run_bind.1 hrun
  obtain ⟨k₂, hloop, hpure⟩ := Fallible.run_seq.1 hallocs
  obtain ⟨rfl, rfl⟩ := Fallible.run_pure.1 hpure
  rw [if_neg (lt_irrefl 0)] at hrun
  obtain ⟨procs₁, view₁, hcall, htable⟩ := s.terminateAllocationsLoop (R := R) hi h0 hloop
  have s₁ := hcall.inv
  rw [← htable] at h0 hrun
  have hs₁ := s₁.slot i hi h0
  obtain ⟨r, k₃, hdata, hrest⟩ := Fallible.run_bind.1 hrun
  obtain ⟨hneg, rfl⟩ | ⟨rfl, a₃, hk₃⟩ := s₁.freeProgramData hi h0 hdata
  · -- a program of neither type is kept, and the process with it
    rw [if_pos hneg] at hrest
    obtain ⟨rfl, rfl⟩ := Fallible.run_pure.1 hrest
    exact ⟨procs₁, view₁, hcall, Or.inl ⟨hneg, htable⟩⟩
  rw [if_neg (lt_irrefl 0)] at hrest
  obtain ⟨p, k₄, hread, hrest'⟩ := Fallible.run_bind.1 hrest
  obtain ⟨-, hp, rfl⟩ := run_readProcess.1 hread
  have hobject : k₄.processes (k₁.processTable i) = some (procs₁ i) := by
    rw [hk₃]
    exact hs₁.object
  rw [hobject] at hp
  obtain rfl := Option.some.inj hp
  -- the stack
  obtain ⟨k₅, hstack, hend⟩ := Fallible.run_seq.1 hrest'
  rw [run_freePointer] at hstack
  have a₅ := s₁.spares_free hi h0 .stack a₃ (by simp)
  rw [← hstack] at a₅
  -- the task, with its directory
  obtain ⟨k₆, htask, hend'⟩ := Fallible.run_seq.1 hend
  have hmem : ∀ {x h}, Held k₁ (k₁.processTable i) (procs₁ i) (view₁ i) x h →
      h ∉ insert .stack programHoldings →
        x ∈ BlocksLeft K k₁ procs₁ view₁ i (insert .stack programHoldings) :=
    fun hx hh => Or.inr ⟨_, hh, hx⟩
  obtain ⟨hd, -⟩ := hs₁.directory.spared a₅ (hmem .task (by simp)) fun x hx =>
    hmem (.table hx) (by simp)
  obtain ⟨t, ht, hc⟩ := hd.object
  have hfree := (taskFree_spec hd.ready ht hd.mapped hc htask).2
  have hout : ∀ {x h}, Held k₁ (k₁.processTable i) (procs₁ i) (view₁ i) x h →
      x ∉ BlocksOf K k₁ procs₁ view₁ {j | j ≠ i} := fun hx => s₁.not_mem_others hi h0 hx
  have a₆ : Spares R (BlocksOf K k₁ procs₁ view₁ {j | j ≠ i}) k₁ k₆ := by
    obtain ⟨n, hn⟩ := a₅.now.owned _ (hmem .task (by simp))
    rw [hfree]
    refine (a₅.mono fun x hx => Or.inl hx).freeTask hd.mapped hn (fun hin => ?_) (hout .task)
      (fun x hx => hout (.table hx)) fun x hx => ?_
    · exact Holding.noConfusion (hs₁.distinct _ _ _ (.table hin) .task)
    · obtain hx | rfl := hx
      · exact a₅.objects x (hmem (.table hx) (by simp))
      · exact a₅.objects _ (hmem .task (by simp))
  -- the table
  obtain ⟨k₇, hunlink, hpure'⟩ := Fallible.run_seq.1 hend'
  obtain ⟨rfl, rfl⟩ := Fallible.run_pure.1 hpure'
  have hobject₆ : k₆.processes (k₁.processTable i) = some (procs₁ i) := by
    rw [hfree, hstack]
    exact hobject
  have hstate₆ : k₆.processTable = k₁.processTable ∧ k₆.currentProcess = k₁.currentProcess := by
    rw [hfree, hstack]
    change k₄.processTable = _ ∧ k₄.currentProcess = _
    rw [hk₃]
    exact ⟨rfl, rfl⟩
  obtain ⟨current, hk₇, hcurrent⟩ := processUnlink_cases hobject₆ hunlink
  rw [hs₁.id, hstate₆.1] at hk₇ hcurrent
  rw [hstate₆.2] at hcurrent
  have htable' : k'.processTable = Function.update k₁.processTable i 0 := by rw [hk₇]
  have hself : k'.processTable i = 0 := by
    rw [htable']
    exact Function.update_self ..
  have hlast : CallFor R K i k₁ k' procs₁ (Function.update procs₁ i (procs₁ i)) view₁
      (Function.update view₁ i (view₁ i)) := by
    refine s₁.callFor ?_ (fun j hne => ?_) ?_ fun hne => absurd hself hne
    · rw [hk₇]
      exact ⟨a₆.files, a₆.place, a₆.owned, a₆.owns, a₆.mem, a₆.objects, a₆.processes, a₆.elfFiles,
        a₆.directories, a₆.registers, a₆.disk⟩
    · rw [htable']
      exact Function.update_of_ne hne ..
    · rw [htable']
      have hcurrent' : k'.currentProcess = current := by rw [hk₇]
      rw [hcurrent']
      obtain ⟨hne, rfl⟩ | hany := hcurrent
      · -- another process was running, or none
        obtain hzero | ⟨j, hj, hj0, hrunning⟩ := s₁.current
        · exact Or.inl hzero
        · have hji : j ≠ i := fun he => hne (he ▸ hrunning.symm)
          refine Or.inr ⟨j, hj, ?_, ?_⟩
          · rwa [Function.update_of_ne hji]
          · rw [Function.update_of_ne hji]
            exact hrunning
      · exact Or.inr hany
  exact ⟨_, _, hcall.trans hlast, Or.inr ⟨rfl, hself⟩⟩

end SystemInv

end OwnKernel
