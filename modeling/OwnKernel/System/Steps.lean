import OwnKernel.Lib.Interleaving
import OwnKernel.System.Arguments
import OwnKernel.System.Ends
import OwnKernel.System.Loads

/-!
# The system, step by step

What the kernel and the programs do is made of the steps of `SystemStep`,
each for one slot of the process table or for none. A step keeps the
system in order, and the blocks of the other slots with the registers
saved there (`SystemStep.callFor`). The registers of the current task are
saved before any step (`taskCurrentSaveState_callFor`).
-/

namespace OwnKernel

variable {K P R : Set Word} {k k₀ k₁ k' : Kernel} {c : ChunkView} {task v x y : Word} {p : Process}
variable {procs procs' : ℕ → Process} {view view' : ℕ → ChunkView} {i j n : ℕ} {m : Mem}
variable {image : Sectors} {a : Option ℕ} {l : List (Option ℕ)} {frame : InterruptFrame} {u : PUnit}

/-! ## Steps -/

/-- **What happens to the system**, for a slot or for none. Memory asked
for is at least a byte; an ELF file that is loaded keeps to its blocks; a
list of arguments is shorter than memory has words; and what is written
for a program it may write itself. -/
inductive SystemStep (image : Sectors) : Option ℕ → Kernel → Kernel → Prop
  | load {k k' : Kernel} {filename : Cstring} {slot res : ℤ} {out : Word} :
      0 ≤ slot → slot < osMaxProcesses →
      processLoadForSlot image filename slot k = .ok ((res, out), k') →
      (0 ≤ res → ProgramInBlocks k' out) → SystemStep image (some slot.toNat) k k'
  | malloc {k k' : Kernel} {i : ℕ} {size ptr : Word} :
      i < osMaxProcesses → k.processTable i ≠ 0 → 0 < size.toNat →
      processMalloc (k.processTable i) size k = .ok (ptr, k') → SystemStep image (some i) k k'
  | free {k k' : Kernel} {i : ℕ} {ptr : Word} :
      i < osMaxProcesses → k.processTable i ≠ 0 →
      processFree (k.processTable i) ptr k = .ok (⟨⟩, k') → SystemStep image (some i) k k'
  | inject {k k' : Kernel} {i fuel : ℕ} {root : Word} {res : ℤ} :
      i < osMaxProcesses → k.processTable i ≠ 0 → fuel ≤ 2 ^ 30 →
      processInjectArguments fuel (k.processTable i) root k = .ok (res, k') →
      SystemStep image (some i) k k'
  | terminate {k k' : Kernel} {i : ℕ} {res : ℤ} :
      i < osMaxProcesses → k.processTable i ≠ 0 →
      processTerminate (k.processTable i) k = .ok (res, k') → SystemStep image (some i) k k'
  | switch {k : Kernel} {i : ℕ} : i < osMaxProcesses → k.processTable i ≠ 0 →
      SystemStep image (some i) k { k with currentProcess := k.processTable i }
  | writes {k : Kernel} {i : ℕ} {m : Mem} : i < osMaxProcesses → k.processTable i ≠ 0 →
      (∀ x, m x ≠ k.store.mem x → ∃ v, k.SlotWrites i v x) →
      SystemStep image (some i) k { k with store := { k.store with mem := m } }
  | keyboard {k : Kernel} {i : ℕ} {p : Process} (keyboard : KeyboardBuffer) :
      i < osMaxProcesses → k.processTable i ≠ 0 → k.processes (k.processTable i) = some p →
      SystemStep image (some i) k
        (k.setProcess (k.processTable i) (some { p with keyboard := keyboard }))
  | copyString {k k' : Kernel} {i : ℕ} {p : Process} {v dest : Word} {max res : ℤ} :
      i < osMaxProcesses → k.processTable i ≠ 0 → k.processes (k.processTable i) = some p →
      1 ≤ max → max < 4096 → (∀ x, InRange dest max.toNat x → ¬ k.store.heap.Spans x) →
      copyStringFromTask p.task v dest max k = .ok (res, k') → SystemStep image none k k'
  | stack {k : Kernel} {m : Mem} : (∀ x, m x ≠ k.store.mem x → ¬ k.store.heap.Spans x) →
      SystemStep image none k { k with store := { k.store with mem := m } }
  | taskSwitch {k : Kernel} (task : Word) :
      SystemStep image none k { k with currentTask := task }

/-- Saving the state sets registers of the current task. -/
theorem taskCurrentSaveState_cases (hrun : taskCurrentSaveState frame k = .ok (u, k')) :
    ∃ t registers, k.tasks k.currentTask = some t ∧
      k' = k.setTask k.currentTask (some { t with registers := registers }) := by
  unfold taskCurrentSaveState at hrun
  rw [Fallible.run_get_bind] at hrun
  by_cases h0 : k.currentTask = 0
  · rw [if_pos h0] at hrun
    exact absurd hrun Fallible.run_throw
  rw [if_neg h0] at hrun
  obtain ⟨-, t, ht, rfl⟩ := run_modifyTask.1 hrun
  exact ⟨t, _, ht, rfl⟩

/-- All blocks are spared by it, with the registers of other tasks. -/
theorem Spares.taskCurrentSaveState (a : Spares R P k₀ k) (hR : k.currentTask ∉ R)
    (hrun : OwnKernel.taskCurrentSaveState frame k = .ok (u, k')) : Spares R P k₀ k' := by
  obtain ⟨t, registers, ht, rfl⟩ := taskCurrentSaveState_cases hrun
  refine ⟨a.files, a.place, a.owned, a.owns, a.mem, a.objects, a.processes, a.elfFiles,
    fun x hx => ?_, fun x hx hr => ?_, a.disk⟩
  · refine Eq.trans (map_setTask Task.owner ht ?_ x) (a.directories x hx)
    rfl
  · rw [setTask_tasks_of_ne (ne_of_mem_of_not_mem hr hR)]
    exact a.registers x hx hr

/-- **Saving the state is a call for any slot**, but for the registers of
the current task. -/
theorem taskCurrentSaveState_callFor (s : SystemInv K k procs view) (i : ℕ)
    (hrun : taskCurrentSaveState frame k = .ok (u, k')) :
    CallFor {x | x ≠ k.currentTask} K i k k' procs procs view view := by
  have hspares := (s.spares_refl {x | x ≠ k.currentTask} Set.univ).taskCurrentSaveState
    (fun hne => hne rfl) hrun
  obtain ⟨t, registers, -, rfl⟩ := taskCurrentSaveState_cases hrun
  exact s.callFor_of_spared i hspares rfl rfl

/-- **A step is a call for its slot**, or one that all slots are spared by. -/
theorem SystemStep.callFor (h : SystemStep image a k k') (s : SystemInv K k procs view)
    (hi : ∀ b ∈ a, b = i) :
    ∃ procs' view', CallFor R K i k k' procs procs' view view' := by
  cases h with
  | load h0 hlt hrun hfits =>
    obtain rfl := hi _ rfl
    obtain ⟨procs', view', hcall, -⟩ := s.load h0 hlt hrun hfits
    exact ⟨procs', view', hcall⟩
  | malloc hb h0 hpos hrun =>
    obtain rfl := hi _ rfl
    obtain ⟨procs', view', hcall, -⟩ := s.malloc hb h0 hpos hrun
    exact ⟨procs', view', hcall⟩
  | free hb h0 hrun =>
    obtain rfl := hi _ rfl
    obtain ⟨procs', view', hcall, -⟩ := s.free hb h0 hrun
    exact ⟨procs', view', hcall⟩
  | inject hb h0 hfuel hrun =>
    obtain rfl := hi _ rfl
    obtain ⟨procs', view', hcall, -⟩ := s.inject hb h0 hfuel hrun
    exact ⟨procs', view', hcall⟩
  | terminate hb h0 hrun =>
    obtain rfl := hi _ rfl
    obtain ⟨procs', view', hcall, -⟩ := s.terminate hb h0 hrun
    exact ⟨procs', view', hcall⟩
  | switch hb h0 =>
    obtain rfl := hi _ rfl
    exact s.switch hb h0
  | writes hb h0 hm =>
    obtain rfl := hi _ rfl
    refine s.writes hb h0 fun x hx => ?_
    obtain ⟨v, hw⟩ := hm x hx
    exact (s.slot _ hb h0).lands hw
  | keyboard keyboard hb h0 hp =>
    obtain rfl := hi _ rfl
    obtain rfl := Option.some.inj ((s.slot _ hb h0).object.symm.trans hp)
    exact s.setProcess hb h0 rfl
  | copyString hb h0 hp hpos hmax hdest hrun =>
    have hs := s.slot _ hb h0
    obtain rfl := Option.some.inj (hs.object.symm.trans hp)
    exact ⟨procs, view, s.copyString hs.directory hpos hmax hdest hrun i⟩
  | stack hm =>
    refine ⟨procs, view, s.callFor_of_spared i ?_ rfl rfl⟩
    refine (s.spares_refl _ Set.univ).writes fun x hx n hn y hy => ?_
    by_contra hne
    exact hm y hne (hn.spans s.files.ready hy)
  | taskSwitch task =>
    have hspares := s.spares_refl R Set.univ
    exact ⟨procs, view, s.callFor_of_spared i ⟨hspares.files, hspares.place, hspares.owned,
      hspares.owns, hspares.mem, hspares.objects, hspares.processes, hspares.elfFiles,
      hspares.directories, hspares.registers, hspares.disk⟩ rfl rfl⟩

end OwnKernel
