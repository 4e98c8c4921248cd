import OwnKernel.Elf.Bounds
import OwnKernel.Process.Loading
import OwnKernel.Store.Confined

/-!
# What a loaded process holds

A process is in the block `process_load_for_slot` allocates first, the
first entry of which is `b`. What the load allocates after it, the ELF
file's structure, the file's bytes and the task with its tables, is apart
from that block (`ProcessAt.processLoadData_held`), and the file layer
does not free it.
-/

namespace OwnKernel

open Fallible (Keeps)

variable {k k₀ k₁ k' : Kernel} {c : ChunkView} {process size q : Word} {p : Process}
variable {image : Sectors} {filename : Cstring} {b n : ℕ} {res : ℤ} {mem : Mem} {file : ElfFile}

/-! ## The file's block -/

/-- Going through headers leaves the file where it is. -/
theorem foldl_withHeader_elfMemory (mem : Mem) (l : List ℕ) : ∀ file : ElfFile,
    (l.foldl (ElfFile.withHeader mem) file).elfMemory = file.elfMemory := by
  induction l with
  | nil => exact fun _ => rfl
  | cons i l ih =>
    intro file
    rw [List.foldl_cons, ih, ElfFile.withHeader_elfMemory]

/-- So does processing it. -/
theorem elfProcessLoaded_elfMemory (mem : Mem) (file : ElfFile) :
    ((elfProcessLoaded mem file).run []).1.2.elfMemory = file.elfMemory := by
  obtain ⟨l, hchecks, -⟩ := elfValidateLoaded_logs mem file.elfMemory
  by_cases hvalid : HeaderValid mem file.elfMemory
  · rw [if_pos hvalid] at hchecks
    obtain ⟨l', hloop⟩ := elfProcessPheadersLoop_loads mem (elfPhnum mem file.elfMemory) 0 file
      hvalid.2.2.2
    have hheaders : Logs (elfProcessPheaders mem file) _ _ := readHalf_logs.bind hloop
    have hok : ¬ allOk < 0 := by decide
    have hrun : Logs (elfProcessLoaded mem file) _ _ :=
      hchecks.bind (by rw [if_neg hok]; exact hheaders)
    rw [hrun.run_nil]
    exact foldl_withHeader_elfMemory mem _ file
  · rw [if_neg hvalid] at hchecks
    have herror : -invalidFormatError < 0 := by decide
    have hrun : Logs (elfProcessLoaded mem file) (-invalidFormatError, file) _ :=
      hchecks.bind (by rw [if_pos herror]; exact .pure _)
    rw [hrun.run_nil]

/-! ## Blocks beside the process -/

/-- **A process is an allocation**, the first entry of which is `b`, and
none of the file layer's. -/
structure ProcessAt (k : Kernel) (process : Word) (b : ℕ) : Prop where
  files : FsOwned k.fsState
  block : process = heapBlockToAddress k.store.heap b
  lt : b < k.store.heap.total
  owns : ∃ n, k.store.heap.Owns process n
  object : k.objects process = none

/-- **A pointer whose block is freed apart from entry `b`**, and is none of
the file layer's. -/
def Kernel.Apart (k : Kernel) (b : ℕ) (q : Word) : Prop :=
  q = 0 ∨ (q ≠ heapBlockToAddress k.store.heap b ∧ (∃ n, k.store.heap.Owns q n) ∧
    k.objects q = none) ∨ ∃ i, b < i ∧ i < k.store.heap.total ∧ q = heapBlockToAddress k.store.heap i

theorem Kernel.Apart.freedApart (a : k.Apart b q) : k.store.heap.FreedApart b q :=
  a.imp_right fun a => a.imp_left fun ⟨hne, hown, _⟩ => ⟨hne, hown⟩

/-- What is apart stays so while blocks are taken. -/
theorem Heap.FreedApart.extends_ {s s' : Store} (a : s.heap.FreedApart b q) (e : s.Extends s') :
    s'.heap.FreedApart b q := by
  rcases a with rfl | ⟨hne, n, hn⟩ | ⟨i, hi, hlt, rfl⟩
  · exact Or.inl rfl
  · exact Or.inr (Or.inl ⟨by rwa [e.place.heapBlockToAddress], n, e.owns _ _ hn⟩)
  · exact Or.inr (Or.inr ⟨i, hi, by rwa [e.place.total], (e.place.heapBlockToAddress i).symm⟩)

/-- It stays so through the parts of a load. -/
theorem Kernel.Apart.loading (a : k.Apart b q) (l : Loading k k') : k'.Apart b q := by
  rcases a with rfl | ⟨hne, ⟨n, hn⟩, h0⟩ | ⟨i, hi, hlt, rfl⟩
  · exact Or.inl rfl
  · obtain ⟨hn', h0'⟩ := l.blocks q n hn h0
    exact Or.inr (Or.inl ⟨by rwa [l.place.heapBlockToAddress], ⟨n, hn'⟩, h0'⟩)
  · exact Or.inr (Or.inr ⟨i, hi, by rwa [l.place.total], (l.place.heapBlockToAddress i).symm⟩)

namespace ProcessAt

/-- So does the process. -/
theorem loading (h : ProcessAt k process b) (l : Loading k k') : ProcessAt k' process b := by
  obtain ⟨n, hn⟩ := h.owns
  obtain ⟨hn', h0'⟩ := l.blocks process n hn h.object
  exact ⟨l.files, by rw [l.place.heapBlockToAddress]; exact h.block, by rw [l.place.total]; exact h.lt,
    ⟨n, hn'⟩, h0'⟩

/-- Its entry is taken. -/
theorem not_free (h : ProcessAt k process b) : ¬ k.store.heap.Free b := by
  obtain ⟨n, hn⟩ := h.owns
  rw [h.block] at hn
  exact hn.not_free_first h.files.ready h.lt

/-- **What `kernel_zalloc` answers is apart from it**, whatever size it is
asked for. -/
theorem zalloc (h : ProcessAt k process b) (hz : onStore (kernelZalloc size) k = .ok (q, k')) :
    k'.Apart b q := by
  obtain ⟨s, hzalloc, rfl⟩ := run_onStore.1 hz
  have r : k.store.heap.Ready := h.files.ready
  have hext := kernelZalloc_extends r hzalloc
  by_cases hpos : 0 < size.toNat
  · obtain ⟨h0, -⟩ | ⟨h0, hsize⟩ := kernelZalloc_of_pos r hpos hzalloc
    · exact Or.inl h0
    · obtain ⟨-, hown, hfresh, -⟩ := kernelZalloc_spec r hpos hsize hzalloc h0
      refine Or.inr (Or.inl ⟨?_, ⟨_, hown⟩, h.files.objects_of_fresh hfresh⟩)
      obtain ⟨n, hn⟩ := h.owns
      have hb : heapBlockToAddress s.heap b = process :=
        (hext.place.heapBlockToAddress b).trans h.block.symm
      rintro rfl
      exact hfresh n (hb.symm ▸ hn)
  · -- a stretch of free blocks, which the process is not in
    have htotal := heapTotalBlocks_eq_zero fun hsize => hpos hsize.1
    obtain ⟨hp, -, hheap, -⟩ := kernelZalloc_run hzalloc
    rw [heapMalloc_writes_of_zero r.placed htotal] at hheap
    have hs : s.heap = k.store.heap := hheap
    rcases heapMalloc_of_zero r.placed htotal with ⟨heq, -⟩ | ⟨n, hn, hscan, heq⟩
    · rw [heq] at hp
      exact Or.inl hp
    · rw [heq] at hp
      have hle := hscan.le
      have hlt := h.lt
      refine Or.inr (Or.inr ⟨k.store.heap.total - n, ?_, ?_, ?_⟩)
      · by_contra hge
        exact h.not_free (hscan.run b (by omega) hlt)
      · change _ < s.heap.total
        rw [hs]
        omega
      · change q = heapBlockToAddress s.heap _
        rw [hs]
        exact hp

end ProcessAt

/-! ## Loading the file -/

/-- The structures of processes are not touched by what is run on the store
or by the file layer. -/
theorem keeps_processes_onStore {α : Type} {x : StoreM α} (ps : Word → Option Process) :
    Keeps (fun k : Kernel => k.processes = ps) (fun _ => True) (onStore x) := fun k hk =>
  ⟨fun _ _ => trivial, fun a k' hrun => by
    obtain ⟨s, -, rfl⟩ := run_onStore.1 hrun
    exact hk⟩

theorem keeps_processes_onFs {α : Type} {x : FsM α} (ps : Word → Option Process) :
    Keeps (fun k : Kernel => k.processes = ps) (fun _ => True) (onFs x) := fun k hk =>
  ⟨fun _ _ => trivial, fun a k' hrun => by
    obtain ⟨s, -, rfl⟩ := run_onFs.1 hrun
    exact hk⟩

theorem keeps_processes_modifyElfFile {f : ElfFile → ElfFile} (ps : Word → Option Process) :
    Keeps (fun k : Kernel => k.processes = ps) (fun _ => True) (modifyElfFile q f) := fun k hk =>
  ⟨fun _ _ => trivial, fun a k' hrun => by
    obtain ⟨-, e, -, rfl⟩ := run_modifyElfFile.1 hrun
    exact hk⟩

/-- **`elf_load` touches no process.** -/
theorem keeps_processes_elfLoad (ps : Word → Option Process) :
    Keeps (fun k : Kernel => k.processes = ps) (fun _ => True) (elfLoad image filename) := by
  have hout : ∀ fd res, Keeps (fun k : Kernel => k.processes = ps) (fun _ => True)
      (elfLoad.elfLoadOut fd res) :=
    fun fd res => (keeps_processes_onFs ps).bind fun _ _ _ _ _ => .pure _
  refine (keeps_processes_onStore ps).bind fun _ elfFile _ _ _ => .bind ?_ fun _ _ _ _ _ => ?_
  · exact .ite (fun _ => .pure _) fun _ => .modify fun _ h => h
  refine (keeps_processes_onFs ps).bind fun _ fd _ _ _ => .ite (fun _ => hout _ _) fun _ => ?_
  refine (keeps_processes_onFs ps).bind fun _ r _ _ _ => .ite (fun _ => hout _ _) fun _ => ?_
  refine (keeps_processes_onStore ps).bind fun _ elfMemory _ _ _ =>
    (keeps_processes_modifyElfFile ps).bind fun _ _ _ _ _ => ?_
  refine (keeps_processes_onFs ps).bind fun _ res _ _ _ => .ite (fun _ => hout _ _) fun _ => ?_
  refine .bind (fun k hk => ⟨fun _ _ => trivial, fun f k' hrun => ?_⟩) fun _ file _ _ _ =>
    .get_bind fun k _ => ?_
  · rw [(run_readElfFile.1 hrun).2.2]
    exact hk
  refine (keeps_processes_modifyElfFile ps).bind fun _ _ _ _ _ => .ite (fun _ => hout _ _) fun _ => ?_
  exact (keeps_processes_onFs ps).bind fun _ _ _ _ _ => .pure _

/-- The error path of `elf_load` does not succeed. -/
theorem elfLoadOut_res {fd r : ℤ} {elfFile : Word}
    (h : elfLoad.elfLoadOut fd r k = .ok ((res, elfFile), k')) : res = r := by
  obtain ⟨_, k₁, -, hpure⟩ := Fallible.run_bind.1 h
  exact congrArg Prod.fst (Fallible.run_pure.1 hpure).1

/-- **`elf_load`, when it succeeds**: the structure it answers and the
file's block are apart from the process. -/
theorem ProcessAt.elfLoad_apart {elfFile : Word} (h : ProcessAt k process b)
    (hrun : elfLoad image filename k = .ok ((res, elfFile), k')) (hres : 0 ≤ res) :
    k'.Apart b elfFile ∧ ∃ file, k'.elfFiles elfFile = some file ∧ k'.Apart b file.elfMemory := by
  obtain ⟨q, k₁, hz₁, hrun⟩ := Fallible.run_bind.1 hrun
  have l₁ := (Loading.keeps_zalloc k (.refl h.files)).2 _ _ hz₁
  have a₁ := h.zalloc hz₁
  obtain ⟨k₂, hset, hrun⟩ := Fallible.run_seq.1 hrun
  have hset' : Keeps (Loading k₁) (fun _ => True) (if q = 0 then (pure ⟨⟩ : KernelM PUnit) else
      modify fun k => k.setElfFile q (some .zero)) :=
    .ite (fun _ => .pure _) fun _ => .modify fun _ hl => hl.setElfFile
  have l₂ := (hset' k₁ (.refl l₁.files)).2 _ _ hset
  obtain ⟨fd, k₃, hopen, hrun⟩ := Fallible.run_bind.1 hrun
  have l₃ := (Loading.keeps_fopen k₂ l₂).2 _ _ hopen
  by_cases hfd : fd ≤ 0
  · rw [if_pos hfd] at hrun
    exact absurd (elfLoadOut_res hrun ▸ hres) (by decide)
  rw [if_neg hfd] at hrun
  obtain ⟨r, k₄, hstat, hrun⟩ := Fallible.run_bind.1 hrun
  have l₄ := (Loading.keeps_fstat k₃ l₃).2 _ _ hstat
  by_cases hneg : r.1 < 0
  · rw [if_pos hneg] at hrun
    exact absurd (elfLoadOut_res hrun ▸ hres) (not_le.2 hneg)
  rw [if_neg hneg] at hrun
  obtain ⟨elfMemory, k₅, hz₅, hrun⟩ := Fallible.run_bind.1 hrun
  have l₅ := (Loading.keeps_zalloc k₄ l₄).2 _ _ hz₅
  have a₅ := ((h.loading l₁).loading l₄).zalloc hz₅
  obtain ⟨k₆, hmod, hrun⟩ := Fallible.run_seq.1 hrun
  have l₆ := (Loading.keeps_modifyElfFile k₅ l₅).2 _ _ hmod
  have m₆ := (Loading.keeps_modifyElfFile k₅ (.refl l₅.files)).2 _ _ hmod
  obtain ⟨-, f₀, -, hk₆⟩ := run_modifyElfFile.1 hmod
  obtain ⟨n, k₇, hread, hrun⟩ := Fallible.run_bind.1 hrun
  have l₇ := (Loading.keeps_fread k₆ l₆).2 _ _ hread
  have m₇ := (Loading.keeps_fread k₆ m₆).2 _ _ hread
  obtain ⟨s₇, -, hk₇⟩ := run_onFs.1 hread
  by_cases hneg' : n < 0
  · rw [if_pos hneg'] at hrun
    exact absurd (elfLoadOut_res hrun ▸ hres) (not_le.2 hneg')
  rw [if_neg hneg'] at hrun
  obtain ⟨file, k₈, hfile, hrun⟩ := Fallible.run_bind.1 hrun
  obtain ⟨-, hfile', hk₈⟩ := run_readElfFile.1 hfile
  rw [hk₈, Fallible.run_get_bind] at hrun
  have hmemory : file.elfMemory = elfMemory := by
    rw [hk₇, hk₆] at hfile'
    have hself : some { f₀ with elfMemory := elfMemory } = some file :=
      (setElfFile_elfFiles_self (k := k₅) (p := q)).symm.trans hfile'
    rw [← Option.some.inj hself]
  obtain ⟨k₉, hmod', hrun⟩ := Fallible.run_seq.1 hrun
  have l₉ := (Loading.keeps_modifyElfFile k₇ l₇).2 _ _ hmod'
  have m₉ := (Loading.keeps_modifyElfFile k₇ m₇).2 _ _ hmod'
  obtain ⟨-, f₁, -, hk₉⟩ := run_modifyElfFile.1 hmod'
  by_cases hinvalid : ((elfProcessLoaded k₇.store.mem file).run []).1.1 < 0
  · rw [if_pos hinvalid] at hrun
    exact absurd (elfLoadOut_res hrun ▸ hres) (not_le.2 hinvalid)
  rw [if_neg hinvalid] at hrun
  obtain ⟨_, k₁₀, hclose, hpure⟩ := Fallible.run_bind.1 hrun
  obtain ⟨hresult, rfl⟩ := Fallible.run_pure.1 hpure
  obtain rfl : elfFile = q := congrArg Prod.snd hresult
  have l₁₀ := (Loading.keeps_fclose k₉ l₉).2 _ _ hclose
  have m₁₀ := (Loading.keeps_fclose k₉ m₉).2 _ _ hclose
  obtain ⟨s₁₀, -, hk₁₀⟩ := run_onFs.1 hclose
  refine ⟨a₁.loading l₁₀, ((elfProcessLoaded k₇.store.mem file).run []).1.2, ?_, ?_⟩
  · rw [hk₁₀, hk₉]
    exact setElfFile_elfFiles_self
  · rw [elfProcessLoaded_elfMemory, hmemory]
    exact a₅.loading m₁₀

/-- **A process has its file**: it has no records, and what its end frees of
the file is apart from the process. -/
structure FileHeld (k : Kernel) (p : Process) (b : ℕ) : Prop where
  records : p.allocations = Process.zero.allocations
  binary : p.filetype = processFiletypeBinary → k.Apart b p.ptr
  elf : p.filetype = processFiletypeElf → ∃ file, k.elfFiles p.ptr = some file ∧
    k.Apart b file.elfMemory ∧ k.Apart b p.ptr

/-- It keeps it while more is allocated. -/
theorem FileHeld.loading (h : FileHeld k p b) (l : Loading k k') (helf : k'.elfFiles = k.elfFiles) :
    FileHeld k' p b where
  records := h.records
  binary hbinary := (h.binary hbinary).loading l
  elf hfile := by
    obtain ⟨file, hfile', hmemory, hown⟩ := h.elf hfile
    exact ⟨file, by rw [helf]; exact hfile', hmemory.loading l, hown.loading l⟩

/-- The end of `process_load_binary`. -/
theorem processLoadBinaryOut_res {fd r : ℤ}
    (h : processLoadBinary.processLoadBinaryOut fd r k = .ok (res, k')) :
    res = r ∧ ∃ r', onFs (fclose fd) k = .ok (r', k') := by
  obtain ⟨r', k₁, hclose, hpure⟩ := Fallible.run_bind.1 h
  obtain ⟨hres, rfl⟩ := Fallible.run_pure.1 hpure
  exact ⟨hres, r', hclose⟩

/-- **`process_load_binary`, when it succeeds.** -/
theorem ProcessAt.processLoadBinary_held (h : ProcessAt k process b) (hp : k.processes process = some p)
    (hnone : p.allocations = Process.zero.allocations)
    (hrun : processLoadBinary image filename process k = .ok (res, k')) (hres : 0 ≤ res) :
    ∃ p', k'.processes process = some p' ∧ FileHeld k' p' b := by
  obtain ⟨fd, k₁, hopen, hrun⟩ := Fallible.run_bind.1 hrun
  have l₁ := (Loading.keeps_fopen k (.refl h.files)).2 _ _ hopen
  obtain ⟨s₁, -, hk₁⟩ := run_onFs.1 hopen
  by_cases hfd : fd = 0
  · rw [if_pos hfd] at hrun
    exact absurd ((processLoadBinaryOut_res hrun).1 ▸ hres) (by decide)
  rw [if_neg hfd] at hrun
  obtain ⟨r, k₂, hstat', hrun⟩ := Fallible.run_bind.1 hrun
  obtain ⟨s₂, hstat, hk₂⟩ := run_onFs.1 hstat'
  have l₂ := (Loading.keeps_fstat k₁ l₁).2 _ _ hstat'
  by_cases hneg : r.1 ≠ allOk
  · rw [if_pos hneg] at hrun
    have hle := (fstat_frame hstat).2
    have hzero : r.1 = 0 := le_antisymm hle ((processLoadBinaryOut_res hrun).1 ▸ hres)
    exact absurd hzero hneg
  rw [if_neg hneg] at hrun
  obtain ⟨programDataPtr, k₃, hz, hrun⟩ := Fallible.run_bind.1 hrun
  have l₃ := (Loading.keeps_zalloc k₂ l₂).2 _ _ hz
  have a₃ := (h.loading l₂).zalloc hz
  obtain ⟨s₃, -, hk₃⟩ := run_onStore.1 hz
  by_cases hnull : programDataPtr = 0
  · rw [if_pos hnull] at hrun
    exact absurd ((processLoadBinaryOut_res hrun).1 ▸ hres) (by decide)
  rw [if_neg hnull] at hrun
  obtain ⟨m, k₄, hread, hrun⟩ := Fallible.run_bind.1 hrun
  have l₄ := (Loading.keeps_fread k₃ (.refl l₃.files)).2 _ _ hread
  obtain ⟨s₄, -, hk₄⟩ := run_onFs.1 hread
  by_cases hone : m ≠ 1
  · rw [if_pos hone] at hrun
    exact absurd ((processLoadBinaryOut_res hrun).1 ▸ hres) (by decide)
  rw [if_neg hone] at hrun
  obtain ⟨k₅, hmod, hrun⟩ := Fallible.run_seq.1 hrun
  have l₅ : Loading k₃ k₅ := by
    refine (Loading.keeps_modifyProcess ?_ k₄ l₄).2 _ _ hmod
    exact fun _ => rfl
  obtain ⟨-, p', hp', hk₅⟩ := run_modifyProcess.1 hmod
  have hsame : k₄.processes process = some p := by
    rw [hk₄, hk₃, hk₂, hk₁]
    exact hp
  obtain rfl : p' = p := Option.some.inj (hp'.symm.trans hsame)
  obtain ⟨-, r', hclose⟩ := processLoadBinaryOut_res hrun
  have l₆ := (Loading.keeps_fclose k₅ l₅).2 _ _ hclose
  obtain ⟨s₆, -, hk₆⟩ := run_onFs.1 hclose
  refine ⟨{ p' with
    filetype := processFiletypeBinary
    ptr := programDataPtr
    size := r.2.filesize }, ?_, hnone, fun _ => a₃.loading l₆, fun helf => ?_⟩
  · rw [hk₆, hk₅]
    exact setProcess_processes_self
  · exact absurd (show processFiletypeBinary = processFiletypeElf from helf) (by decide)

/-- **`process_load_data`, when it succeeds.** -/
theorem ProcessAt.processLoadData_held (h : ProcessAt k process b) (hp : k.processes process = some p)
    (hnone : p.allocations = Process.zero.allocations)
    (hrun : processLoadData image filename process k = .ok (res, k')) (hres : 0 ≤ res) :
    ∃ p', k'.processes process = some p' ∧ FileHeld k' p' b := by
  obtain ⟨res₁, k₁, helf, hrun⟩ := Fallible.run_bind.1 hrun
  obtain ⟨⟨res₂, elfFile⟩, k₂, hload, helf⟩ := Fallible.run_bind.1 helf
  have l₂ := (Loading.keeps_elfLoad k (.refl h.files)).2 _ _ hload
  have hp₂ : k₂.processes process = some p := by
    rw [(keeps_processes_elfLoad _ k rfl).2 _ _ hload]
    exact hp
  by_cases hneg : res₂ < 0
  · -- it is no ELF file
    rw [if_pos hneg] at helf
    obtain ⟨rfl, rfl⟩ := Fallible.run_pure.1 helf
    by_cases hformat : res₁ = -invalidFormatError
    · rw [if_pos hformat] at hrun
      exact (h.loading l₂).processLoadBinary_held hp₂ hnone hrun hres
    · rw [if_neg hformat] at hrun
      exact absurd ((Fallible.run_pure.1 hrun).1 ▸ hres) (not_le.2 hneg)
  · rw [if_neg hneg] at helf
    obtain ⟨ha, file, hfile, hmemory⟩ := h.elfLoad_apart hload (not_lt.1 hneg)
    obtain ⟨k₃, hmod, hpure⟩ := Fallible.run_seq.1 helf
    obtain ⟨rfl, rfl⟩ := Fallible.run_pure.1 hpure
    have hformat : res₁ ≠ -invalidFormatError := by
      have herror : -invalidFormatError < 0 := by decide
      omega
    rw [if_neg hformat] at hrun
    obtain ⟨-, rfl⟩ := Fallible.run_pure.1 hrun
    obtain ⟨-, p', hp', hk'⟩ := run_modifyProcess.1 hmod
    obtain rfl : p' = p := Option.some.inj (hp'.symm.trans hp₂)
    have l' : Loading k₂ k' := by
      refine (Loading.keeps_modifyProcess ?_ k₂ (.refl l₂.files)).2 _ _ hmod
      exact fun _ => rfl
    refine ⟨{ p' with
      filetype := processFiletypeElf
      ptr := elfFile }, ?_, hnone, fun hbinary => ?_, fun _ => ⟨file, ?_, hmemory.loading l',
        ha.loading l'⟩⟩
    · rw [hk']
      exact setProcess_processes_self
    · exact absurd (show processFiletypeElf = processFiletypeBinary from hbinary) (by decide)
    · rw [hk']
      exact hfile

/-- The error path of `process_load_for_slot` does not succeed. -/
theorem processLoadOut_res {out : Word} {r : ℤ} (hneg : r < 0)
    (h : processLoadOut process r k = .ok ((res, out), k')) : res = r := by
  unfold processLoadOut at h
  rw [if_pos hneg] at h
  obtain ⟨p, k₁, -, h⟩ := Fallible.run_bind.1 h
  obtain ⟨k₂, -, hpure⟩ := Fallible.run_seq.1 h
  exact congrArg Prod.fst (Fallible.run_pure.1 hpure).1

/-- **A load, from the creation of the task on**, when it succeeds. -/
theorem processLoadTask_made {processSlot : ℤ} {out : Word} (h : TaskListReady k)
    (hp : k.processes process = some p)
    (hrun : processLoadTask process processSlot k = .ok ((res, out), k')) (hres : 0 ≤ res) :
    out = process ∧ ∃ task c t k₁, TaskMade k k₁ task process c t ∧
      k'.processes process = some { p with task := task } ∧ HasDirectory k' task c ∧
      k'.store.heap = k₁.store.heap ∧ k'.elfFiles = k.elfFiles ∧ k'.tasks = k₁.tasks ∧
      k'.currentProcess = k.currentProcess ∧
      (p.filetype = processFiletypeElf ∨ p.filetype = processFiletypeBinary) ∧
      0 ≤ processSlot ∧ processSlot < osMaxProcesses := by
  obtain ⟨task, k₁, hnew, hrun⟩ := Fallible.run_bind.1 hrun
  obtain ⟨hproc, p', hp', helf⟩ := entryReadable_of_taskNew h.ready hnew
  obtain rfl : p' = p := Option.some.inj (hp'.symm.trans hp)
  obtain ⟨c, t, hm⟩ := taskNew_spec h.ready h.tail_owned hnew
  have hready₁ := hm.store.ready h.ready
  have htask := hm.owns.ne_zero hready₁
  rw [if_neg htask] at hrun
  obtain ⟨k₂, hset, hrun⟩ := Fallible.run_seq.1 hrun
  obtain ⟨-, q, hq, rfl⟩ := run_modifyProcess.1 hset
  rw [hm.processes, hp'] at hq
  cases hq
  obtain ⟨mapped, k₃, hmap, hrun⟩ := Fallible.run_bind.1 hrun
  have hftype := filetype_of_processMapMemory (p := { p' with task := task })
    setProcess_processes_self hmap
  have hloaded : ProgramLoaded (k₁.setProcess process (some { p' with task := task })) process
      { p' with task := task } :=
    ⟨hproc, setProcess_processes_self, fun hf => by
      change p'.ptr ≠ 0 ∧ ∃ f, k₁.elfFiles p'.ptr = some f ∧ f.elfMemory ≠ 0
      rw [hm.elfFiles]
      exact helf hf, hftype⟩
  have hd : HasDirectory (k₁.setProcess process (some { p' with task := task })) task c :=
    ⟨hready₁, htask, ⟨t, hm.tasks_self, hm.pageDirectory⟩, hm.mapped⟩
  obtain ⟨mapped', k₄, hmap', hout, hd₄⟩ := HasDirectory.processMapMemory_total hd hloaded
  obtain ⟨rfl, rfl⟩ := Prod.mk.inj (Except.ok.inj (hmap.symm.trans hmap'))
  by_cases hneg : mapped < 0
  · -- a mapping that fails is no success
    rw [if_pos hneg] at hrun
    exact absurd (processLoadOut_res hneg hrun ▸ hres) (not_le.2 hneg)
  rw [if_neg hneg] at hrun
  by_cases hslot : processSlot < 0 ∨ (osMaxProcesses : ℤ) ≤ processSlot
  · rw [if_pos hslot] at hrun
    exact absurd hrun Fallible.run_throw
  rw [if_neg hslot] at hrun
  obtain ⟨k₅, hmod, hpure⟩ := Fallible.run_seq.1 hrun
  rw [Fallible.run_modify] at hmod
  obtain ⟨hresult, rfl⟩ := Fallible.run_pure.1 hpure
  refine ⟨(Prod.mk.inj hresult).2, task, c, t, k₁, hm, ?_, ?_, ?_, ?_, ?_, ?_, hftype, by omega,
    by omega⟩
  · rw [hmod]
    change k₃.processes process = _
    rw [hout.processes]
    exact setProcess_processes_self
  · rw [hmod]
    exact ⟨hd₄.ready, hd₄.ne_zero, hd₄.object, hd₄.mapped⟩
  · rw [hmod]
    exact hout.heap
  · rw [hmod]
    exact hout.elfFiles.trans hm.elfFiles
  · rw [hmod]
    exact hout.tasks
  · rw [hmod]
    change k₃.currentProcess = _
    rw [hout.state]
    exact hm.currentProcess

end OwnKernel
