import OwnKernel.File.Delivered
import OwnKernel.Process.Allocations
import OwnKernel.Process.Headers
import OwnKernel.Process.Held

/-!
# What a call of the kernel leaves alone

The blocks of a process lie in the kernel's heap beside those of all the
others. `Spares R P k₀ k` says of a set `P` of blocks that they are in `k`
what they were in `k₀`: allocated, with the same bytes and the same
structures in them, and for the tasks in `R` with the registers saved
there. Each step of the kernel spares the blocks it was not given.
-/

namespace OwnKernel

open Fallible (Keeps)

variable {P Q R : Set Word} {k k₀ k₁ k' : Kernel} {c : ChunkView} {process task q : Word} {n : ℕ}
variable {image : Sectors} {filename : Cstring}

/-- What a task is for: its directory and its process. -/
def Task.owner (t : Task) : Word × Word := (t.pageDirectory, t.process)

/-- All of a task but its links. -/
def Task.body (t : Task) : (Word × Word) × Registers := (t.owner, t.registers)

/-- **The blocks of `P` are as they were in `k₀`**, and so are the disk and,
for the tasks in `R`, the registers. The links of a task do not count, for
they change when its neighbours come and go. -/
structure Spares (R P : Set Word) (k₀ k : Kernel) : Prop where
  files : FsOwned k.fsState
  place : k₀.store.heap.SamePlace k.store.heap
  owned : ∀ x ∈ P, ∃ n, k₀.store.heap.Owns x n
  owns : ∀ x ∈ P, ∀ n, k₀.store.heap.Owns x n → k.store.heap.Owns x n
  mem : ∀ x ∈ P, ∀ n, k₀.store.heap.Owns x n →
    ∀ y, InRange x (4096 * n) y → k.store.mem y = k₀.store.mem y
  objects : ∀ x ∈ P, k.objects x = none
  processes : ∀ x ∈ P, k.processes x = k₀.processes x
  elfFiles : ∀ x ∈ P, k.elfFiles x = k₀.elfFiles x
  directories : ∀ x ∈ P, (k.tasks x).map Task.owner = (k₀.tasks x).map Task.owner
  registers : ∀ x ∈ P, x ∈ R →
    (k.tasks x).map Task.registers = (k₀.tasks x).map Task.registers
  disk : k.disk = k₀.disk

namespace Spares

theorem refl (o : FsOwned k.fsState)
    (h : ∀ x ∈ P, (∃ n, k.store.heap.Owns x n) ∧ k.objects x = none) : Spares R P k k where
  files := o
  place := .refl _
  owned x hx := (h x hx).1
  owns _ _ _ hn := hn
  mem _ _ _ _ _ _ := rfl
  objects x hx := (h x hx).2
  processes _ _ := rfl
  elfFiles _ _ := rfl
  directories _ _ := rfl
  registers _ _ _ := rfl
  disk := rfl

theorem trans (a : Spares R P k₀ k₁) (b : Spares R P k₁ k) : Spares R P k₀ k where
  files := b.files
  place := a.place.trans b.place
  owned := a.owned
  owns x hx n hn := b.owns x hx n (a.owns x hx n hn)
  mem x hx n hn y hy := (b.mem x hx n (a.owns x hx n hn) y hy).trans (a.mem x hx n hn y hy)
  objects := b.objects
  processes x hx := (b.processes x hx).trans (a.processes x hx)
  elfFiles x hx := (b.elfFiles x hx).trans (a.elfFiles x hx)
  directories x hx := (b.directories x hx).trans (a.directories x hx)
  registers x hx hr := (b.registers x hx hr).trans (a.registers x hx hr)
  disk := b.disk.trans a.disk

/-- Of fewer blocks all the more. -/
theorem mono (a : Spares R P k₀ k) (h : Q ⊆ P) : Spares R Q k₀ k where
  files := a.files
  place := a.place
  owned x hx := a.owned x (h hx)
  owns x hx := a.owns x (h hx)
  mem x hx := a.mem x (h hx)
  objects x hx := a.objects x (h hx)
  processes x hx := a.processes x (h hx)
  elfFiles x hx := a.elfFiles x (h hx)
  directories x hx := a.directories x (h hx)
  registers x hx := a.registers x (h hx)
  disk := a.disk

/-- And of fewer registers. -/
theorem mono_registers {S : Set Word} (a : Spares R P k₀ k) (h : S ⊆ R) : Spares S P k₀ k :=
  { a with registers := fun x hx hr => a.registers x hx (h hr) }

/-- The blocks are still there. -/
theorem now (a : Spares R P k₀ k) : Spares R P k k :=
  refl a.files fun x hx => ⟨(a.owned x hx).imp fun n hn => a.owns x hx n hn, a.objects x hx⟩

/-- One more block. -/
theorem add (a : Spares R P k₀ k) (ho : ∃ n, k.store.heap.Owns q n) (h0 : k.objects q = none) :
    Spares R (insert q P) k k := by
  refine refl a.files fun x hx => ?_
  obtain rfl | hx := hx
  · exact ⟨ho, h0⟩
  · exact ⟨a.now.owned x hx, a.objects x hx⟩

theorem ready (a : Spares R P k₀ k) : k.store.heap.Ready := a.files.ready

/-- A block that is not allocated is none of them. -/
theorem not_mem_of_fresh (a : Spares R P k₀ k) (h : k.store.heap.Fresh q) : q ∉ P := by
  intro hq
  obtain ⟨n, hn⟩ := a.owned q hq
  exact h n (a.owns q hq n hn)

theorem null_not_mem (a : Spares R P k₀ k) : (0 : Word) ∉ P := by
  intro h0
  obtain ⟨n, hn⟩ := a.owned 0 h0
  exact (a.owns 0 h0 n hn).ne_zero a.ready rfl

/-! ## Structures -/

theorem setProcess {p : Option Process} (a : Spares R P k₀ k) (hq : q ∉ P) :
    Spares R P k₀ (k.setProcess q p) :=
  ⟨a.files, a.place, a.owned, a.owns, a.mem, a.objects, fun x hx =>
    (setProcess_processes_of_ne (ne_of_mem_of_not_mem hx hq)).trans (a.processes x hx), a.elfFiles,
    a.directories, a.registers, a.disk⟩

/-- The process itself may be among the blocks from here on. -/
theorem now_setProcess (a : Spares R P k₀ k) (q : Word) (p : Option Process) :
    Spares R P (k.setProcess q p) (k.setProcess q p) :=
  refl a.files fun x hx => ⟨a.now.owned x hx, a.objects x hx⟩

theorem setElfFile {f : Option ElfFile} (a : Spares R P k₀ k) (hq : q ∉ P) :
    Spares R P k₀ (k.setElfFile q f) :=
  ⟨a.files, a.place, a.owned, a.owns, a.mem, a.objects, a.processes, fun x hx =>
    (setElfFile_elfFiles_of_ne (ne_of_mem_of_not_mem hx hq)).trans (a.elfFiles x hx), a.directories,
    a.registers, a.disk⟩

theorem modifyProcess {f : Process → Process} {u : PUnit} (a : Spares R P k₀ k) (hq : q ∉ P)
    (hrun : OwnKernel.modifyProcess q f k = .ok (u, k')) : Spares R P k₀ k' := by
  obtain ⟨-, p, -, rfl⟩ := run_modifyProcess.1 hrun
  exact a.setProcess hq

theorem modifyElfFile {f : ElfFile → ElfFile} {u : PUnit} (a : Spares R P k₀ k) (hq : q ∉ P)
    (hrun : OwnKernel.modifyElfFile q f k = .ok (u, k')) : Spares R P k₀ k' := by
  obtain ⟨-, e, -, rfl⟩ := run_modifyElfFile.1 hrun
  exact a.setElfFile hq

/-! ## The heap -/

/-- What only adds to the store. -/
theorem extends_ {s : Store} (a : Spares R P k₀ k) (he : k.store.Extends s) :
    Spares R P k₀ { k with store := s } :=
  a.trans ⟨FsOwned.extends_ (s := k.fsState) a.files he, he.place, a.now.owned,
    fun x _ n hn => he.owns x n hn, fun x _ n hn => he.mem x n hn, a.objects, fun _ _ => rfl,
    fun _ _ => rfl, fun _ _ => rfl, fun _ _ _ => rfl, rfl⟩

/-- **`kernel_zalloc`** spares what is allocated, and what it answers is
none of it. -/
theorem zalloc {size : Word} (a : Spares R P k₀ k)
    (hrun : onStore (kernelZalloc size) k = .ok (q, k')) : Spares R P k₀ k' ∧ q ∉ P := by
  obtain ⟨s, hz, rfl⟩ := run_onStore.1 hrun
  have a' := a.extends_ (kernelZalloc_extends a.ready hz)
  refine ⟨a', fun hq => ?_⟩
  by_cases h0 : q = 0
  · exact a.null_not_mem (h0 ▸ hq)
  by_cases hpos : 0 < size.toNat
  · obtain ⟨hnull, -⟩ | ⟨-, hsize⟩ := kernelZalloc_of_pos a.ready hpos hz
    · exact h0 hnull
    · exact a.not_mem_of_fresh (kernelZalloc_spec a.ready hpos hsize hz h0).2.2.1 hq
  · -- nothing was asked for
    obtain ⟨n, hn⟩ := a'.now.owned q hq
    exact kernelZalloc_not_owns_of_zero a.ready (by omega) hz hn

/-- What `kernel_zalloc` answers is allocated, when a byte is asked for. -/
theorem owns_zalloc {size : Word} (a : Spares R P k₀ k)
    (hrun : onStore (kernelZalloc size) k = .ok (q, k')) (hpos : 0 < size.toNat) (h0 : q ≠ 0) :
    k'.store.heap.Owns q (blocksFor size.toNat) ∧ k'.objects q = none := by
  obtain ⟨s, hz, rfl⟩ := run_onStore.1 hrun
  obtain ⟨hnull, -⟩ | ⟨-, hsize⟩ := kernelZalloc_of_pos a.ready hpos hz
  · exact absurd hnull h0
  · obtain ⟨-, ho, hfresh, -⟩ := kernelZalloc_spec a.ready hpos hsize hz h0
    exact ⟨ho, a.files.objects_of_fresh hfresh⟩

/-- **`kernel_free`** of another block. -/
theorem free (a : Spares R P k₀ k) (hq : q ∉ P) (ho : k.store.heap.Owns q n)
    (hobject : k.objects q = none) : Spares R P k₀
      { k with store := { k.store with heap := k.store.heap.write (heapFree k.store.heap q) } } := by
  have hkeep : ∀ {x : Word} {m : ℕ}, x ≠ q → k.store.heap.Owns x m →
      (k.store.heap.write (heapFree k.store.heap q)).Owns x m := fun hne hx =>
    Heap.owns_heapFree a.ready ho hx hne
  have hplace := k.store.heap.samePlace_write (heapFree k.store.heap q)
  refine a.trans ⟨⟨hplace.ready a.ready, fun x hx => ?_, a.files.items, a.files.single⟩, hplace,
    a.now.owned, fun x hx m hm => hkeep (ne_of_mem_of_not_mem hx hq) hm, fun _ _ _ _ _ _ => rfl, a.objects,
    fun _ _ => rfl, fun _ _ => rfl, fun _ _ => rfl, fun _ _ _ => rfl, rfl⟩
  refine hkeep ?_ (a.files.owns x hx)
  rintro rfl
  exact hx hobject

/-- **Entries of other tables** are written. -/
theorem tables (a : Spares R P k₀ k) (hat : c.At k.store) (hc : ∀ x, c.Has x → x ∉ P)
    (hout : TablesOnly c k k') : Spares R P k₀ k' := by
  have hkept : ∀ x ∈ P, ∀ n, k.store.heap.Owns x n →
      ∀ y, InRange x (4096 * n) y → k'.store.mem y = k.store.mem y := fun x hx n hn y hy =>
    hout.out y (not_inTables_of_owns a.ready hat hn (fun hin => hc x hin hx) hy)
  rw [hout.state]
  exact a.trans ⟨⟨a.ready, a.files.owns, a.files.items, a.files.single⟩, .refl _, a.now.owned,
    fun _ _ _ hn => hn, hkept, a.objects, fun _ _ => rfl, fun _ _ => rfl, fun _ _ => rfl,
    fun _ _ _ => rfl, rfl⟩

/-! ## The file layer -/

theorem withFsState {s : FsState} (a : Spares R P k₀ k) (o : FsOwned s) (h : FsKeeps k.fsState s) :
    Spares R P k₀ (k.withFsState s) :=
  a.trans ⟨o, h.place, a.now.owned, fun x hx n hn => h.owns x n hn (a.objects x hx),
    fun x hx n hn => h.mem x n hn (a.objects x hx), fun x hx => by
      obtain ⟨n, hn⟩ := a.now.owned x hx
      exact h.objects x n hn (a.objects x hx), fun _ _ => rfl, fun _ _ => rfl, fun _ _ => rfl,
    fun _ _ _ => rfl, h.disk⟩

theorem fopen {modeStr : Cstring} {fd : ℤ} (a : Spares R P k₀ k)
    (hrun : onFs (OwnKernel.fopen image filename modeStr) k = .ok (fd, k')) : Spares R P k₀ k' := by
  obtain ⟨s, hopen, rfl⟩ := run_onFs.1 hrun
  obtain ⟨o, h⟩ := FsKeeps.of_fopen a.files hopen
  exact a.withFsState o h

theorem fclose {fd r : ℤ} (a : Spares R P k₀ k)
    (hrun : onFs (OwnKernel.fclose fd) k = .ok (r, k')) : Spares R P k₀ k' := by
  obtain ⟨s, hclose, rfl⟩ := run_onFs.1 hrun
  refine a.withFsState ?_ (FsKeeps.of_fclose a.files hclose)
  obtain ⟨-, -, rfl⟩ | ⟨-, -, x, hcloses⟩ := fclose_cases a.files hclose
  · exact a.files
  · exact hcloses.owned

theorem fstat {fd : ℤ} {stat : FileStat} {r : ℤ × FileStat} (a : Spares R P k₀ k)
    (hrun : onFs (OwnKernel.fstat fd stat) k = .ok (r, k')) : Spares R P k₀ k' := by
  obtain ⟨s, hstat, rfl⟩ := run_onFs.1 hrun
  obtain ⟨rfl, -⟩ := fstat_frame hstat
  exact a

/-- **`fread` into another block**, which was allocated by the size read,
or of no bytes. -/
theorem fread {size : Word} {fd r : ℤ} (a : Spares R P k₀ k) (hq : q ∉ P)
    (ho : q ≠ 0 → 0 < size.toNat → k.store.heap.Owns q (blocksFor size.toNat))
    (hrun : onFs (OwnKernel.fread image q size 1 fd) k = .ok (r, k')) : Spares R P k₀ k' := by
  obtain ⟨s, hread, rfl⟩ := run_onFs.1 hrun
  obtain rfl | ⟨h0, hpos, bytes, hlen, rfl⟩ := fread_writes hread
  · exact a
  refine a.trans ⟨⟨a.ready, a.files.owns, a.files.items, a.files.single⟩, .refl _, a.now.owned,
    fun _ _ _ hn => hn, fun x hx n hn y hy => ?_, a.objects, fun _ _ => rfl, fun _ _ => rfl,
    fun _ _ => rfl, fun _ _ _ => rfl, rfl⟩
  have hout := hn.disjoint (ho h0 hpos) a.ready (ne_of_mem_of_not_mem hx hq) hy
  refine Mem.store_of_not_mem fun hin => hout ?_
  have hbytes := le_blocksFor_mul size.toNat
  unfold InRange at hin ⊢
  omega

end Spares

/-! ## Tasks -/

/-- Changing other members of a task. -/
theorem map_setTask {α : Type} (f : Task → α) {t u : Task} (ht : k.tasks task = some t)
    (hu : f u = f t) (x : Word) :
    ((k.setTask task (some u)).tasks x).map f = (k.tasks x).map f := by
  by_cases hx : x = task
  · rw [hx, setTask_tasks_self, ht, Option.map_some, Option.map_some, hu]
  · rw [setTask_tasks_of_ne hx]

/-- A task with the same owner. -/
theorem exists_task_of_map_owner {x y : Option Task} {t : Task}
    (h : y.map Task.owner = x.map Task.owner) (ht : x = some t) :
    ∃ u, y = some u ∧ u.pageDirectory = t.pageDirectory ∧ u.process = t.process := by
  rw [ht, Option.map_some] at h
  obtain ⟨u, hu, howner⟩ := Option.map_eq_some_iff.1 h
  obtain ⟨hdirectory, hprocess⟩ := Prod.mk.inj howner
  exact ⟨u, hu, hdirectory, hprocess⟩

/-- The owner and the registers, from the two together. -/
theorem map_of_body {x y : Option Task} (h : y.map Task.body = x.map Task.body) :
    y.map Task.owner = x.map Task.owner ∧ y.map Task.registers = x.map Task.registers := by
  have howner := congrArg (Option.map Prod.fst) h
  have hregisters := congrArg (Option.map Prod.snd) h
  rw [Option.map_map, Option.map_map] at howner hregisters
  exact ⟨howner, hregisters⟩

/-- **The directory's own entries let the user write**; what he may do is
up to the tables. -/
def ChunkView.OpenDirectory (c : ChunkView) (m : Mem) : Prop :=
  ∀ n < 1024, UserWriteable (m.load32 (entryAddress c.directory n))

/-- They are in the directory's block. -/
theorem ChunkView.OpenDirectory.congr {m m' : Mem} {s : Store} (h : c.OpenDirectory m)
    (hat : c.At s) (r : s.heap.Ready) (hm : ∀ x, InRange c.directory 4096 x → m' x = m x) :
    c.OpenDirectory m' := by
  intro n hn
  rw [load32_entry_congr (hat.directory_aligned r) hn hm]
  exact h n hn

/-- They stay when entries of its tables are written. -/
theorem ChunkView.OpenDirectory.tables (h : c.OpenDirectory k.store.mem) (hat : c.At k.store)
    (r : k.store.heap.Ready) (hout : TablesOnly c k k') : c.OpenDirectory k'.store.mem := by
  refine h.congr hat r fun x hx => hout.out x ?_
  rintro ⟨i, hi, hin⟩
  refine (hat.owns _ c.has_directory).disjoint (hat.owns _ (c.has_table hi)) r ?_ (by rwa [Nat.mul_one])
    (by rwa [Nat.mul_one])
  exact (hat.table_ne i hi).2.symm

/-- The store, and the directory of a task. -/
def DirectoryMade (s : Store) (chunk task : Word) (k : Kernel) : Prop :=
  k.store = s ∧ (k.tasks task).map Task.pageDirectory = some chunk

namespace DirectoryMade

variable {s : Store} {chunk : Word}

theorem keeps_modifyTask {f : Task → Task} (hf : ∀ t, (f t).pageDirectory = t.pageDirectory) :
    Keeps (DirectoryMade s chunk task) (fun _ => True) (modifyTask task f) := fun _ hk =>
  ⟨fun _ _ => trivial, fun a k' hrun => by
    obtain ⟨-, u, hu, rfl⟩ := run_modifyTask.1 hrun
    exact ⟨hk.1, (map_setTask Task.pageDirectory hu (hf u) task).trans hk.2⟩⟩

theorem keeps_readProcess : Keeps (DirectoryMade s chunk task) (fun _ => True) (readProcess process) :=
  fun _ hk => ⟨fun _ _ => trivial, fun p k' hrun => by rwa [(run_readProcess.1 hrun).2.2]⟩

theorem keeps_readElfFile : Keeps (DirectoryMade s chunk task) (fun _ => True) (readElfFile q) :=
  fun _ hk => ⟨fun _ _ => trivial, fun p k' hrun => by rwa [(run_readElfFile.1 hrun).2.2]⟩

theorem keeps_loadWord : Keeps (DirectoryMade s chunk task) (fun _ => True) (onStore (loadWord q n)) :=
  fun _ hk => ⟨fun _ _ => trivial, fun a k' hrun => by
    obtain ⟨t, ht, rfl⟩ := run_onStore.1 hrun
    exact ⟨(run_loadWord.1 ht).2.2.trans hk.1, hk.2⟩⟩

theorem keeps_taskInitSegments :
    Keeps (DirectoryMade s chunk task) (fun _ => True) (taskInit.taskInitSegments task) :=
  (keeps_modifyTask (by exact fun _ => rfl)).bind fun _ _ _ _ _ => .pure _

end DirectoryMade

/-- **`task_init`'s directory** is the one it asks for. -/
theorem taskInit_chunk {res : ℤ} (h : taskInit task process k = .ok (res, k')) :
    ∃ chunk, pagingNew4gb taskPageFlags k.store = .ok (chunk, k'.store) ∧
      (k'.tasks task).map Task.pageDirectory = some chunk := by
  unfold taskInit at h
  obtain ⟨k₁, hset, h⟩ := Fallible.run_seq.1 h
  rw [Fallible.run_modify] at hset
  obtain ⟨chunk, k₂, hnew', h⟩ := Fallible.run_bind.1 h
  obtain ⟨s, hnew, rfl⟩ := run_onStore.1 hnew'
  obtain ⟨k₃, hdir, h⟩ := Fallible.run_seq.1 h
  obtain ⟨-, t, -, rfl⟩ := run_modifyTask.1 hdir
  have hstore : k₁.store = k.store := by rw [hset, setTask_store]
  rw [hstore] at hnew
  -- from here on neither is written
  have hmade : DirectoryMade s chunk task (({ k₁ with store := s } : Kernel).setTask task
      (some { t with pageDirectory := chunk })) := by
    refine ⟨rfl, ?_⟩
    rw [setTask_tasks_self]
    rfl
  have hmade' : DirectoryMade s chunk task k' := by
    refine (Keeps.ite (E := fun _ => True) (fun _ => .pure _) (fun _ => ?_) _ hmade).2 _ _ h
    refine .bind (DirectoryMade.keeps_modifyTask (by exact fun _ => rfl)) fun _ _ _ _ _ => ?_
    refine DirectoryMade.keeps_readProcess.bind fun _ _ _ _ _ => .ite (fun _ => ?_) fun _ => ?_
    · refine DirectoryMade.keeps_readElfFile.bind fun _ _ _ _ _ => ?_
      refine DirectoryMade.keeps_loadWord.bind fun _ _ _ _ _ => ?_
      exact .bind (DirectoryMade.keeps_modifyTask (by exact fun _ => rfl)) fun _ _ _ _ _ =>
        DirectoryMade.keeps_taskInitSegments
    · exact DirectoryMade.keeps_taskInitSegments
  exact ⟨chunk, hmade'.1 ▸ hnew, hmade'.2⟩

/-- Its entries let the user write. -/
theorem TaskReady.opened {t : Task} {res : ℤ} (h : TaskReady k k' task process c t)
    (r : k.store.heap.Ready) (hinit : taskInit task process k = .ok (res, k')) :
    c.OpenDirectory k'.store.mem := by
  obtain ⟨chunk, hnew, hchunk⟩ := taskInit_chunk hinit
  obtain ⟨c', hc', hat, -, -, hdirectory, -⟩ := pagingNew4gb_made r hnew
  rw [h.tasks_self, Option.map_some, h.pageDirectory, ← hc'] at hchunk
  have heq : c.directory = c'.directory := by
    rw [← h.mapped.directory_eq, ← hat.directory_eq, Option.some.inj hchunk]
  intro n hn
  rw [heq, hdirectory n hn]
  refine (userWriteable_or ((hat.owns _ (c'.has_table hn)).aligned ?_)).2 ?_
  · exact h.store.ready r
  · unfold UserWriteable
    decide

/-- **What `task_new` makes, wherever `task_tail` points**: a task of fresh
blocks with a directory, beside tasks that keep theirs. -/
structure TaskBuilt (k k' : Kernel) (task process : Word) (c : ChunkView) : Prop where
  store : k.store.Extends k'.store
  owns : k'.store.heap.Owns task 1
  fresh : k.store.heap.Fresh task
  mapped : c.At k'.store
  chunk_fresh : ∀ x, c.Has x → k.store.heap.Fresh x
  apart : ¬ c.Has task
  entries : ∀ page, page < 2 ^ 20 → c.entry k'.store.mem page = identityEntry taskPageFlags page
  opened : c.OpenDirectory k'.store.mem
  object : ∃ t, k'.tasks task = some t ∧ t.pageDirectory = c.chunk ∧ t.process = process
  others : ∀ x, x ≠ task → (k'.tasks x).map Task.body = (k.tasks x).map Task.body
  state : k' = { k with
    store := k'.store
    tasks := k'.tasks
    taskHead := k'.taskHead
    taskTail := k'.taskTail
    currentTask := k'.currentTask }

/-- The directory is the task's. -/
theorem TaskBuilt.exists_task (h : TaskBuilt k k' task process c) :
    ∃ t, k'.tasks task = some t ∧ t.pageDirectory = c.chunk := by
  obtain ⟨t, ht, hc, -⟩ := h.object
  exact ⟨t, ht, hc⟩

/-- A task that is linked is built all the same. -/
theorem TaskBuilt.linked {tasks : Word → Option Task} {taskHead taskTail currentTask : Word}
    (h : TaskBuilt k k' task process c)
    (ht : ∀ x, (tasks x).map Task.body = (k'.tasks x).map Task.body) :
    TaskBuilt k { k' with
      tasks := tasks
      taskHead := taskHead
      taskTail := taskTail
      currentTask := currentTask } task process c where
  store := h.store
  owns := h.owns
  fresh := h.fresh
  mapped := h.mapped
  chunk_fresh := h.chunk_fresh
  apart := h.apart
  entries := h.entries
  opened := h.opened
  object := by
    obtain ⟨t, ht', hc, hprocess⟩ := h.object
    obtain ⟨u, hu, huc, hup⟩ := exists_task_of_map_owner (map_of_body (ht task)).1 ht'
    exact ⟨u, hu, huc.trans hc, hup.trans hprocess⟩
  others x hx := (ht x).trans (h.others x hx)
  state := by
    rw [h.state]

/-- **`task_new`, when it finishes.** -/
theorem taskNew_built (r : k.store.heap.Ready) (h : taskNew process k = .ok (task, k')) :
    ∃ c, TaskBuilt k k' task process c := by
  unfold taskNew at h
  obtain ⟨p, k₁, hz', h⟩ := Fallible.run_bind.1 h
  obtain ⟨s₁, hz, rfl⟩ := run_onStore.1 hz'
  by_cases h0 : p = 0
  · -- the error path frees a null task
    rw [if_pos h0, h0] at h
    obtain ⟨k₂, hfree, -⟩ := Fallible.run_seq.1 h
    exact absurd hfree taskFree_null
  rw [if_neg h0] at h
  obtain ⟨hext₁, hown₁, hfresh, -⟩ := kernelZalloc_spec r (by decide) (by decide) hz h0
  rw [show blocksFor sizeofTask.toNat = 1 by decide] at hown₁
  obtain ⟨res, k₃, hinit, h⟩ := Fallible.run_bind.1 h
  obtain ⟨rfl, c, t, hready⟩ := taskInit_spec (hext₁.ready r) hinit
  have hres : ¬ (0 : ℤ) ≠ allOk := fun hne => hne rfl
  rw [if_neg hres, Fallible.run_get_bind] at h
  have hout : ∀ {q : Word} {k₄ : Kernel}, taskNewOut p 0 k₄ = .ok (q, k') → q = p ∧ k' = k₄ := by
    intro q k₄ hq
    exact Fallible.run_pure.1 hq
  have hbuilt : TaskBuilt k k₃ p process c := by
    refine ⟨hext₁.trans hready.store, hready.store.owns _ _ hown₁, hfresh, hready.mapped,
      fun x hx => hext₁.fresh (hready.fresh x hx), fun hin => hready.fresh p hin 1 hown₁,
      hready.entries, hready.opened (hext₁.ready r) hinit,
      ⟨t, hready.tasks_self, hready.pageDirectory, hready.process⟩, fun x hx => ?_, ?_⟩
    · rw [hready.state]
      exact congrArg _ (Function.update_of_ne hx ..)
    · rw [hready.state]
  by_cases hempty : k₃.taskHead = 0
  · -- the first task
    rw [if_pos hempty] at h
    obtain ⟨k₄, hset, h⟩ := Fallible.run_seq.1 h
    rw [Fallible.run_set] at hset
    obtain ⟨rfl, rfl⟩ := hout h
    rw [hset]
    exact ⟨c, hbuilt.linked fun _ => rfl⟩
  · -- behind the last task
    rw [if_neg hempty] at h
    obtain ⟨k₄, hnext, h⟩ := Fallible.run_seq.1 h
    obtain ⟨-, u, hu, rfl⟩ := run_modifyTask.1 hnext
    obtain ⟨k₅, hprev, h⟩ := Fallible.run_seq.1 h
    obtain ⟨-, v, hv, rfl⟩ := run_modifyTask.1 hprev
    obtain ⟨k₆, hmod, h⟩ := Fallible.run_seq.1 h
    rw [Fallible.run_modify] at hmod
    obtain ⟨rfl, rfl⟩ := hout h
    rw [hmod]
    refine ⟨c, hbuilt.linked fun x => ?_⟩
    exact (map_setTask Task.body (u := { v with prev := k₃.taskTail }) hv rfl x).trans
      (map_setTask Task.body (u := { u with next := task }) hu rfl x)

/-- **A directory the blocks of which are spared** is still the task's, with
the same entries. -/
theorem HasDirectory.spared (h : HasDirectory k₀ task c) (a : Spares R P k₀ k) (htask : task ∈ P)
    (hc : ∀ x, c.Has x → x ∈ P) : HasDirectory k task c ∧
      ∀ page < 2 ^ 20, c.entry k.store.mem page = c.entry k₀.store.mem page := by
  have hmem : ∀ x, c.Has x → ∀ y, InRange x 4096 y → k.store.mem y = k₀.store.mem y :=
    fun x hx => a.mem x (hc x hx) 1 (h.mapped.owns x hx)
  refine ⟨⟨a.ready, h.ne_zero, ?_, ?_⟩, fun page hpage => ?_⟩
  · obtain ⟨t, ht, htc⟩ := h.object
    obtain ⟨t', ht', htc', -⟩ := exists_task_of_map_owner (a.directories task htask) ht
    exact ⟨t', ht', htc'.trans htc⟩
  · exact h.mapped.congr h.ready (fun x hx => a.owns x (hc x hx) 1 (h.mapped.owns x hx))
      (hmem _ c.has_chunk) (hmem _ c.has_directory)
  · exact h.mapped.entry_congr h.ready hpage (hmem _ (c.has_table (by omega)))

/-- **`task_new`** spares what is allocated. -/
theorem Spares.taskBuilt (a : Spares R P k₀ k) (h : TaskBuilt k k' task process c) : Spares R P k₀ k' := by
  have hbody : ∀ x ∈ P, (k'.tasks x).map Task.body = (k.tasks x).map Task.body := by
    refine fun x hx => h.others x ?_
    rintro rfl
    exact a.not_mem_of_fresh h.fresh hx
  refine a.trans ⟨?_, h.store.place, a.now.owned, fun x _ n hn => h.store.owns x n hn,
    fun x _ n hn => h.store.mem x n hn, ?_, ?_, ?_, fun x hx => (map_of_body (hbody x hx)).1,
    fun x hx _ => (map_of_body (hbody x hx)).2, ?_⟩
  · rw [h.state]
    exact FsOwned.extends_ (s := k.fsState) a.files h.store
  · rw [h.state]
    exact a.objects
  · rw [h.state]
    exact fun _ _ => rfl
  · rw [h.state]
    exact fun _ _ => rfl
  · rw [h.state]

/-- What `task_free` leaves of other tasks. -/
theorem map_body_freeTask {t : Task} {x : Word} (hx : x ≠ task) :
    ((k.freeTask task t c).tasks x).map Task.body = (k.tasks x).map Task.body := by
  cases hu : k.tasks x with
  | none => rw [freeTask_tasks_none hu]
  | some u =>
    rw [freeTask_tasks hx hu, Option.map_some, Option.map_some]
    split <;> rfl

/-- **`task_free`** of another task. -/
theorem Spares.freeTask {t : Task} (a : Spares R P k₀ k) (hat : c.At k.store)
    (ho : k.store.heap.Owns task n) (hap : ¬ c.Has task) (htask : task ∉ P)
    (hc : ∀ x, c.Has x → x ∉ P) (hobjects : ∀ x, c.Has x ∨ x = task → k.objects x = none) :
    Spares R P k₀ (k.freeTask task t c) := by
  have hmem : ∀ x, x ∈ c.pointers ++ [task] ↔ c.Has x ∨ x = task := by
    intro x
    rw [List.mem_append, ChunkView.mem_pointers, List.mem_singleton]
  have hnodup : (c.pointers ++ [task]).Nodup := by
    refine List.nodup_append'.2 ⟨hat.nodup_pointers, List.nodup_singleton _, ?_⟩
    exact List.disjoint_singleton.2 fun hin => hap (ChunkView.mem_pointers.1 hin)
  have hkeep : ∀ {x : Word} {m : ℕ}, ¬ (c.Has x ∨ x = task) → k.store.heap.Owns x m →
      (k.freeTask task t c).store.heap.Owns x m := by
    intro x m hx hm
    refine Heap.owns_freeAll a.ready hnodup (fun y hy => ?_) hm fun hin => hx ((hmem x).1 hin)
    obtain hy | rfl := (hmem y).1 hy
    · exact ⟨1, hat.owns y hy⟩
    · exact ⟨n, ho⟩
  have hother : ∀ x ∈ P, ¬ (c.Has x ∨ x = task) := by
    rintro x hx (hin | rfl)
    · exact hc x hin hx
    · exact htask hx
  have hplace : k.store.heap.SamePlace (k.freeTask task t c).store.heap := samePlace_freeTask
  have hbody : ∀ x ∈ P, ((k.freeTask task t c).tasks x).map Task.body = (k.tasks x).map Task.body :=
    fun x hx => map_body_freeTask fun h => hother x hx (Or.inr h)
  refine a.trans ⟨⟨hplace.ready a.ready, fun x hx => ?_, a.files.items, a.files.single⟩, hplace,
    a.now.owned, fun x hx m hm => hkeep (hother x hx) hm, fun _ _ _ _ _ _ => rfl, a.objects,
    fun _ _ => rfl, fun _ _ => rfl, fun x hx => (map_of_body (hbody x hx)).1,
    fun x hx _ => (map_of_body (hbody x hx)).2, rfl⟩
  exact hkeep (fun hin => hx (hobjects x hin)) (a.files.owns x hx)

end OwnKernel
