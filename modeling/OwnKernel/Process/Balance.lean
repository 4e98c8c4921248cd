import OwnKernel.Process.Held
import OwnKernel.Process.Invoke
import OwnKernel.Process.Terminate

/-!
# What a process leaves behind

`process_load_for_slot` allocates the structure of the process, and
`process_terminate` frees what is reached from it, but not the structure
itself. So after a load that succeeds, any calls of `process_malloc` and
`process_free`, and the end of the process, the structure's first block is
taken, which was free before the load
(`processTerminate_not_balanced`).
-/

namespace OwnKernel

variable {k k₀ k₁ k₂ k₃ k' : Kernel} {c : ChunkView} {process size q : Word} {p : Process}
variable {image : Sectors} {filename : Cstring} {b n : ℕ} {res r processSlot : ℤ}

/-! ## A load into a slot -/

/-- **A process that is loaded into a slot**: entry `b`, the first of its
own, was free, and it can be ended. -/
structure SlotLoaded (k k' : Kernel) (process : Word) (p : Process) (c : ChunkView) (b : ℕ) : Prop where
  holds : ProcessHolds k' process p c b
  place : k.store.heap.SamePlace k'.store.heap
  free : k.store.heap.Free b
  filetype : p.filetype = processFiletypeElf ∨ p.filetype = processFiletypeBinary
  id : p.id < osMaxProcesses
  prev : ∀ t, k'.tasks p.task = some t → t.prev ≠ 0 → ∃ u, k'.tasks t.prev = some u
  currentProcess : k'.currentProcess = k.currentProcess

/-- An allocation that is made later is apart from the process. -/
theorem ProcessAt.freedApart_of_owns (h : ProcessAt k process b) {heap : Heap}
    (hplace : k.store.heap.SamePlace heap) (hfresh : k.store.heap.Fresh q) (hq : heap.Owns q n) :
    heap.FreedApart b q := by
  refine Or.inr (Or.inl ⟨?_, n, hq⟩)
  rintro rfl
  obtain ⟨m, hm⟩ := h.owns
  rw [h.block, ← hplace.heapBlockToAddress] at hm
  exact hfresh m hm

/-- **A new process** is in the first run of free blocks. -/
theorem CommandReady.exists_newProcess {s : Store} (h : CommandReady k)
    (hz : kernelZalloc sizeofProcess k.store = .ok (process, s)) (h0 : process ≠ 0) :
    ∃ b, k.store.heap.Free b ∧
      ProcessAt (({ k with store := s } : Kernel).setProcess process (some .zero)) process b := by
  have hext := kernelZalloc_extends h.files.ready hz
  obtain ⟨-, hown, hfresh, -⟩ := kernelZalloc_spec h.files.ready (by decide) (by decide) hz h0
  obtain ⟨hnull, -⟩ | ⟨b, hb, hq, -⟩ := kernelZalloc_cases h.files.ready (by decide) (by decide) hz
  · exact absurd hnull h0
  have hblocks : 0 < blocksFor sizeofProcess.toNat := by decide
  have hle := hb.1.1
  refine ⟨b, hb.1.2 b (le_refl b) (by omega), (h.newProcess hext).files, ?_, ?_, ⟨_, hown⟩,
    h.files.objects_of_fresh hfresh⟩
  · exact hq.trans (hext.place.heapBlockToAddress b).symm
  · change b < s.heap.total
    rw [hext.place.total]
    omega

/-- **What the process holds** once it has its file, its stack and its
task. -/
theorem ProcessAt.holds {task : Word} {t : Task} (h : ProcessAt k process b) (h0 : process ≠ 0)
    (hfile : FileHeld k p b) (hstack : k.Apart b p.stack) (hm : TaskMade k k₁ task process c t)
    (hp : k'.processes process = some { p with task := task }) (hd : HasDirectory k' task c)
    (hheap : k'.store.heap = k₁.store.heap) (helf : k'.elfFiles = k.elfFiles) :
    ProcessHolds k' process { p with task := task } c b := by
  have htaken : ∀ {x : Word}, k.Apart b x → k'.store.heap.FreedApart b x := by
    intro x hx
    rw [hheap]
    exact hx.freedApart.extends_ hm.store
  have hnew : ∀ {x : Word}, k.store.heap.Fresh x → k₁.store.heap.Owns x 1 →
      k'.store.heap.FreedApart b x := by
    intro x hx ho
    rw [hheap]
    exact h.freedApart_of_owns hm.store.place hx ho
  have hplace : k.store.heap.SamePlace k'.store.heap := by
    rw [hheap]
    exact hm.store.place
  refine ⟨h0, hp, fun i _ => ?_, hd, ⟨?_, ?_⟩, ?_, hnew hm.fresh hm.owns,
    fun x hx => hnew (hm.chunk_fresh x hx) (hm.mapped.owns x hx), htaken hstack,
    fun hbinary => htaken (hfile.binary hbinary), fun hf => ?_⟩
  · change p.allocations i = _
    rw [hfile.records]
    rfl
  · exact h.block.trans (hplace.heapBlockToAddress b).symm
  · rw [hplace.total]
    exact h.lt
  · obtain ⟨j, hj⟩ := h.owns
    rw [hheap]
    exact ⟨j, hm.store.owns _ j hj⟩
  · obtain ⟨file, hfile', hmemory, hown⟩ := hfile.elf hf
    exact ⟨file, by rw [helf]; exact hfile', htaken hmemory, htaken hown⟩

/-- The task before a new one is a task. -/
theorem TaskMade.exists_prev {task : Word} {t : Task} (hm : TaskMade k k₁ task process c t)
    (hne : t.prev ≠ 0) : ∃ u, k₁.tasks t.prev = some u := by
  rw [hm.prev] at hne ⊢
  by_cases hhead : k.taskHead = 0
  · rw [if_pos hhead] at hne
    exact absurd rfl hne
  · obtain ⟨u, -, hu⟩ := hm.tasks_tail hhead
    rw [if_neg hhead]
    exact ⟨_, hu⟩

/-- **`process_load_for_slot`, when it succeeds.** -/
theorem processLoadForSlot_loaded (h : CommandReady k)
    (hrun : processLoadForSlot image filename processSlot k = .ok ((res, process), k'))
    (hres : 0 ≤ res) : ∃ p c b, SlotLoaded k k' process p c b := by
  unfold processLoadForSlot at hrun
  rw [Fallible.run_get_bind] at hrun
  by_cases hslot : k.processGet processSlot ≠ 0
  · rw [if_pos hslot] at hrun
    exact absurd hrun Fallible.run_throw
  rw [if_neg hslot] at hrun
  have herror : ∀ {q : Word} {k₃ : Kernel} {r : ℤ}, r < 0 →
      ¬ processLoadOut q r k₃ = .ok ((res, process), k') := fun hneg hout =>
    absurd (processLoadOut_res hneg hout ▸ hres) (not_le.2 hneg)
  -- the process
  obtain ⟨q, k₁, hz', hrun⟩ := Fallible.run_bind.1 hrun
  obtain ⟨s, hz, rfl⟩ := run_onStore.1 hz'
  by_cases hnull : q = 0
  · rw [if_pos hnull] at hrun
    exact absurd ((Prod.mk.inj (Fallible.run_pure.1 hrun).1).1 ▸ hres) (by decide)
  rw [if_neg hnull] at hrun
  have hext := kernelZalloc_extends h.files.ready hz
  obtain ⟨b, hfree, hat⟩ := h.exists_newProcess hz hnull
  obtain ⟨k₂, hset, hrun⟩ := Fallible.run_seq.1 hrun
  rw [Fallible.run_modify] at hset
  rw [← hset] at hat
  have hready₂ : CommandReady k₂ := hset ▸ h.newProcess hext
  have hp₂ : k₂.processes q = some .zero := by
    rw [hset]
    exact setProcess_processes_self
  -- its file
  obtain ⟨res₁, k₃, hdata, hrun⟩ := Fallible.run_bind.1 hrun
  have l₃ := (Loading.keeps_processLoadData k₂ (.refl hready₂.files)).2 _ _ hdata
  by_cases hneg : res₁ < 0
  · rw [if_pos hneg] at hrun
    exact absurd hrun (herror hneg)
  rw [if_neg hneg] at hrun
  obtain ⟨p₃, hp₃, hheld⟩ := hat.processLoadData_held hp₂ rfl hdata (not_lt.1 hneg)
  have hat₃ := hat.loading l₃
  -- its stack
  obtain ⟨programStackPtr, k₄, hstack, hrun⟩ := Fallible.run_bind.1 hrun
  have l₄ := (Loading.keeps_zalloc k₃ (.refl l₃.files)).2 _ _ hstack
  have a₄ := hat₃.zalloc hstack
  obtain ⟨s₄, -, hk₄⟩ := run_onStore.1 hstack
  by_cases hnull' : programStackPtr = 0
  · rw [if_pos hnull'] at hrun
    exact absurd hrun (herror (by decide))
  rw [if_neg hnull'] at hrun
  obtain ⟨k₅, hmod, hrun⟩ := Fallible.run_seq.1 hrun
  have hkeep : ∀ {k₀ : Kernel}, Loading k₀ k₄ → Loading k₀ k₅ := by
    refine fun l => (Loading.keeps_modifyProcess ?_ k₄ l).2 _ _ hmod
    exact fun _ => rfl
  have l₅ := hkeep l₄
  obtain ⟨-, p₄, hp₄, hk₅⟩ := run_modifyProcess.1 hmod
  have hsame : k₄.processes q = some p₃ := by
    rw [hk₄]
    exact hp₃
  obtain rfl : p₄ = p₃ := Option.some.inj (hp₄.symm.trans hsame)
  have hp₅ : k₅.processes q = some { p₄ with
      stack := programStackPtr
      id := processSlot.toNat % 2 ^ 16 } := by
    rw [hk₅]
    exact setProcess_processes_self
  have helf₅ : k₅.elfFiles = k₃.elfFiles := by
    rw [hk₅, hk₄]
    rfl
  have hheld₅ : FileHeld k₅ { p₄ with
      stack := programStackPtr
      id := processSlot.toNat % 2 ^ 16 } b :=
    ⟨hheld.records, (hheld.loading l₅ helf₅).binary, (hheld.loading l₅ helf₅).elf⟩
  -- its task
  have hlist : TaskListReady k₅ :=
    (hkeep ((Loading.keeps_zalloc k₃ l₃).2 _ _ hstack)).taskListReady hready₂.list hready₂.apart
  obtain ⟨rfl, task, c, t, k₆, hm, hobject, hd, hheap, helf, htasks, hcurrent, hfiletype, hslot0,
    hslot12⟩ := processLoadTask_made hlist hp₅ hrun hres
  have hplace : k.store.heap.SamePlace k₅.store.heap := by
    have hplace := l₃.place.trans l₅.place
    rw [hset] at hplace
    exact hext.place.trans hplace
  refine ⟨_, c, b, (hat₃.loading l₅).holds hnull hheld₅ (a₄.loading (hkeep (.refl l₄.files))) hm
    hobject hd hheap helf, ?_, hfree, hfiletype, ?_, fun u hu hne => ?_, ?_⟩
  · rw [hheap]
    exact hplace.trans hm.store.place
  · change processSlot.toNat % 2 ^ 16 < osMaxProcesses
    unfold osMaxProcesses at hslot12 ⊢
    omega
  · rw [htasks] at hu ⊢
    obtain rfl : t = u := Option.some.inj (hm.tasks_self.symm.trans hu)
    exact hm.exists_prev hne
  · rw [hcurrent, (l₃.lists.trans l₅.lists).currentProcess, hset]
    rfl

/-! ## The balance -/

/-- **The heap's table is what it was.** -/
def ResourcesBalanced (k k' : Kernel) : Prop :=
  ∀ i < k.store.heap.total, k'.store.heap.entries i = k.store.heap.entries i

/-- The entry is taken when the process has ended. -/
theorem SlotLoaded.not_balanced {Meets : Word → Prop} (l : SlotLoaded k k₁ process p c b)
    (hrun : MallocRun Meets process k₁ k₂) (hterm : processTerminate process k₂ = .ok (r, k₃)) :
    ¬ ResourcesBalanced k k₃ := by
  intro hbalanced
  obtain ⟨-, hkept⟩ := l.holds.processTerminate_keeps hrun hterm
  have hlt : b < k.store.heap.total := by
    rw [← l.place.total]
    exact l.holds.block.2
  have hentry := hbalanced b hlt
  rw [hkept] at hentry
  refine l.holds.not_free ?_
  unfold Heap.Free
  rw [hentry]
  exact l.free

/-- The process can be ended, when it is not made the current one. -/
theorem SlotLoaded.exists_processTerminate {Meets : Word → Prop} (l : SlotLoaded k k₁ process p c b)
    (hrun : MallocRun Meets process k₁ k₂) (hcurrent : k.currentProcess ≠ process) :
    ∃ k₃, processTerminate process k₂ = .ok (0, k₃) :=
  l.holds.exists_processTerminate hrun l.filetype l.id l.prev (by rw [l.currentProcess]; exact hcurrent)

/-- **A process is never given back whole**: whatever its file is, and
whatever it has asked for and freed, when it has ended an entry is taken
that was free before it was loaded. -/
theorem processTerminate_not_balanced (h : CommandReady k)
    (hload : processLoadForSlot image filename processSlot k = .ok ((res, process), k₁))
    (hres : 0 ≤ res) (hrun : MallocRun (fun _ => True) process k₁ k₂)
    (hterm : processTerminate process k₂ = .ok (r, k₃)) : ¬ ResourcesBalanced k k₃ := by
  obtain ⟨p, c, b, l⟩ := processLoadForSlot_loaded h hload hres
  exact l.not_balanced hrun hterm

/-- **The program is loaded and ended**, in a kernel that has just mounted
its volume. -/
theorem exists_loaded_and_ended : ∃ (k k₁ k₃ : Kernel) (process : Word), CommandReady k ∧
    processLoadForSlot programVolume programPath 0 k = .ok ((0, process), k₁) ∧
      processTerminate process k₁ = .ok (0, k₃) := by
  obtain ⟨s₀, fat, n, -, hn, huntouched, hdisk, hmounted, hfind⟩ :=
    oneFile_programVolume.exists_resolved
  have hfiles : FsOwned (bootKernel.withFsState s₀).fsState := huntouched.fsOwned
  have hboot : TaskListReady { bootKernel with store := s₀.store } :=
    taskListReady_bootKernel hfiles.ready
  have hlist : TaskListReady (bootKernel.withFsState s₀) :=
    hboot.congr hfiles.ready (fun _ _ _ _ hq => hq) ⟨rfl, rfl, rfl, rfl, rfl, rfl⟩
  have hready : CommandReady (bootKernel.withFsState s₀) :=
    ⟨hlist, hfiles, fun q _ _ => huntouched.2.1 q⟩
  have hprogram : ProgramReady programVolume (bootKernel.withFsState s₀) fat programItem n :=
    programReady_programVolume hfiles huntouched.1 hdisk hmounted hfind huntouched.2.2
  obtain ⟨process, k₁, _, _, hload, hs⟩ := hprogram.exists_processLoadForSlot (N := 0) hready
    (show (0 : ℤ) ≤ 0 ∧ (0 : ℤ) < osMaxProcesses by decide) rfl (by omega)
  obtain ⟨p, c, b, l⟩ := processLoadForSlot_loaded hready hload (le_refl 0)
  have hstart : MallocRun (fun _ => True) process k₁ k₁ := .start
  obtain ⟨k₃, hterm⟩ := l.exists_processTerminate hstart (Ne.symm hs.ne_zero)
  exact ⟨_, k₁, k₃, process, hready, hload, hterm⟩

/-- The program, ended as soon as it is loaded. -/
theorem processTerminate_not_balanced_program : ∃ (k k₁ k₃ : Kernel) (process : Word),
    processLoadForSlot programVolume programPath 0 k = .ok ((0, process), k₁) ∧
      processTerminate process k₁ = .ok (0, k₃) ∧ ¬ ResourcesBalanced k k₃ := by
  obtain ⟨k, k₁, k₃, process, hready, hload, hterm⟩ := exists_loaded_and_ended
  exact ⟨k, k₁, k₃, process, hload, hterm,
    processTerminate_not_balanced hready hload (le_refl 0) .start hterm⟩

/-- **Loading and ending is not balanced.** -/
theorem processTerminate_not_always_balanced :
    ¬ ∀ (image : Sectors) (filename : Cstring) (processSlot res r : ℤ) (process : Word)
      (k k₁ k₂ k₃ : Kernel), CommandReady k →
        processLoadForSlot image filename processSlot k = .ok ((res, process), k₁) → 0 ≤ res →
          MallocRun (fun _ => True) process k₁ k₂ → processTerminate process k₂ = .ok (r, k₃) →
            ResourcesBalanced k k₃ := by
  intro hall
  obtain ⟨k, k₁, k₃, process, hready, hload, hterm⟩ := exists_loaded_and_ended
  obtain ⟨p, c, b, l⟩ := processLoadForSlot_loaded hready hload (le_refl 0)
  have hstart : MallocRun (fun _ => True) process k₁ k₁ := .start
  exact l.not_balanced hstart hterm
    (hall _ _ _ _ _ _ _ _ _ _ hready hload (le_refl 0) hstart hterm)

end OwnKernel
