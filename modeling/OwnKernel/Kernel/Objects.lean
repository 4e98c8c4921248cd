import OwnKernel.Model.Kernel

/-!
# Kernel objects, step by step

What it means for the primitives of `KernelM` to finish: one lemma each,
to be used with `Fallible.run_bind`. The `set` operations change the
object they are aimed at and nothing else.
-/

namespace OwnKernel

variable {k k' : Kernel} {p q : Word} {u : PUnit}

/-- A program of the memory layer changes the store only. -/
theorem run_onStore {α : Type} {x : StoreM α} {a : α} :
    onStore x k = .ok (a, k') ↔ ∃ s, x k.store = .ok (a, s) ∧ k' = { k with store := s } := by
  unfold onStore
  cases hx : x k.store with
  | error e => simp
  | ok r =>
    obtain ⟨b, s⟩ := r
    constructor
    · intro h
      cases h
      exact ⟨s, rfl, rfl⟩
    · rintro ⟨s', h, rfl⟩
      cases h
      rfl

/-- A program of the file layer changes its part of the kernel. -/
theorem run_onFs {α : Type} {x : FsM α} {a : α} :
    onFs x k = .ok (a, k') ↔ ∃ s, x k.fsState = .ok (a, s) ∧ k' = k.withFsState s := by
  unfold onFs
  cases hx : x k.fsState with
  | error e => simp
  | ok r =>
    obtain ⟨b, s⟩ := r
    constructor
    · intro h
      cases h
      exact ⟨s, rfl, rfl⟩
    · rintro ⟨s', h, rfl⟩
      cases h
      rfl

/-- A pointer that is read is not null and refers to a live object. -/
theorem run_deref {β : Type} {objects : Kernel → Word → Option β} {x : β} :
    deref objects p k = .ok (x, k') ↔ p ≠ 0 ∧ objects k p = some x ∧ k' = k := by
  unfold deref
  by_cases h0 : p = 0
  · rw [if_pos h0]
    exact ⟨fun h => absurd h Fallible.run_throw, fun h => absurd h0 h.1⟩
  rw [if_neg h0, Fallible.run_bind]
  constructor
  · rintro ⟨k₁, k₂, hget, h⟩
    obtain ⟨rfl, rfl⟩ := Fallible.run_get.1 hget
    cases ho : objects k₂ p with
    | none =>
      simp only [ho] at h
      exact absurd h Fallible.run_throw
    | some y =>
      simp only [ho] at h
      obtain ⟨rfl, rfl⟩ := Fallible.run_pure.1 h
      exact ⟨h0, rfl, rfl⟩
  · rintro ⟨-, ho, rfl⟩
    refine ⟨k', k', Fallible.run_get.2 ⟨rfl, rfl⟩, ?_⟩
    simp only [ho]
    exact Fallible.run_pure.2 ⟨rfl, rfl⟩

theorem run_readTask {t : Task} :
    readTask p k = .ok (t, k') ↔ p ≠ 0 ∧ k.tasks p = some t ∧ k' = k := run_deref

theorem run_readProcess {t : Process} :
    readProcess p k = .ok (t, k') ↔ p ≠ 0 ∧ k.processes p = some t ∧ k' = k := run_deref

theorem run_readElfFile {t : ElfFile} :
    readElfFile p k = .ok (t, k') ↔ p ≠ 0 ∧ k.elfFiles p = some t ∧ k' = k := run_deref

/-- Members of a live task are changed. -/
theorem run_modifyTask {f : Task → Task} :
    modifyTask p f k = .ok (u, k') ↔
      p ≠ 0 ∧ ∃ t, k.tasks p = some t ∧ k' = k.setTask p (some (f t)) := by
  unfold modifyTask
  simp only [Fallible.run_bind, run_readTask, Fallible.run_modify]
  constructor
  · rintro ⟨t, _, ⟨h0, ht, rfl⟩, rfl⟩
    exact ⟨h0, t, ht, rfl⟩
  · rintro ⟨h0, t, ht, rfl⟩
    exact ⟨t, k, ⟨h0, ht, rfl⟩, rfl⟩

/-- Members of a live process are changed. -/
theorem run_modifyProcess {f : Process → Process} :
    modifyProcess p f k = .ok (u, k') ↔
      p ≠ 0 ∧ ∃ t, k.processes p = some t ∧ k' = k.setProcess p (some (f t)) := by
  unfold modifyProcess
  simp only [Fallible.run_bind, run_readProcess, Fallible.run_modify]
  constructor
  · rintro ⟨t, _, ⟨h0, ht, rfl⟩, rfl⟩
    exact ⟨h0, t, ht, rfl⟩
  · rintro ⟨h0, t, ht, rfl⟩
    exact ⟨t, k, ⟨h0, ht, rfl⟩, rfl⟩

/-- Members of a live file are changed. -/
theorem run_modifyElfFile {f : ElfFile → ElfFile} :
    modifyElfFile p f k = .ok (u, k') ↔
      p ≠ 0 ∧ ∃ t, k.elfFiles p = some t ∧ k' = k.setElfFile p (some (f t)) := by
  unfold modifyElfFile
  simp only [Fallible.run_bind, run_readElfFile, Fallible.run_modify]
  constructor
  · rintro ⟨t, _, ⟨h0, ht, rfl⟩, rfl⟩
    exact ⟨h0, t, ht, rfl⟩
  · rintro ⟨h0, t, ht, rfl⟩
    exact ⟨t, k, ⟨h0, ht, rfl⟩, rfl⟩

/-! ## One object changed -/

variable {t : Option Task} {o : Option Process} {e : Option ElfFile}

@[simp] theorem setTask_tasks_self : (k.setTask p t).tasks p = t := Function.update_self ..

theorem setTask_tasks_of_ne (h : q ≠ p) : (k.setTask p t).tasks q = k.tasks q :=
  Function.update_of_ne h ..

@[simp] theorem setTask_store : (k.setTask p t).store = k.store := rfl

@[simp] theorem setTask_processes : (k.setTask p t).processes = k.processes := rfl

@[simp] theorem setTask_elfFiles : (k.setTask p t).elfFiles = k.elfFiles := rfl

@[simp] theorem setTask_taskHead : (k.setTask p t).taskHead = k.taskHead := rfl

@[simp] theorem setTask_taskTail : (k.setTask p t).taskTail = k.taskTail := rfl

@[simp] theorem setTask_currentTask : (k.setTask p t).currentTask = k.currentTask := rfl

/-- Writing a task twice leaves the second value. -/
@[simp] theorem setTask_setTask {t' : Option Task} :
    (k.setTask p t).setTask p t' = k.setTask p t' := by
  unfold Kernel.setTask
  rw [Function.update_idem]

@[simp] theorem setProcess_processes_self : (k.setProcess p o).processes p = o :=
  Function.update_self ..

theorem setProcess_processes_of_ne (h : q ≠ p) : (k.setProcess p o).processes q = k.processes q :=
  Function.update_of_ne h ..

@[simp] theorem setElfFile_elfFiles_self : (k.setElfFile p e).elfFiles p = e :=
  Function.update_self ..

theorem setElfFile_elfFiles_of_ne (h : q ≠ p) : (k.setElfFile p e).elfFiles q = k.elfFiles q :=
  Function.update_of_ne h ..

end OwnKernel
