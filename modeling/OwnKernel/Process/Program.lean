import OwnKernel.Process.Held

/-!
# A program that is loaded

What a load needs to succeed: the program `A` is found in the root
directory of the volume, its file is an ELF header without program
headers, a slot is free, and there is room in the heap. Then
`process_load_switch` answers with a process
(`ProgramReady.exists_processLoadSwitch`), whose directory is its own.
-/

namespace OwnKernel

variable {k k' : Kernel} {n : ℕ} {image : Sectors} {fat : FatPrivate} {item : FatDirectoryItem}
variable {fd r : ℤ} {q : Word} {bytes : List Byte}

/-! ## A file's bytes in a block -/

/-- A block of any size, with room. -/
theorem FsState.KernelRoom.exists_onStore (size : Word) (h : k.fsState.KernelRoom n)
    (hpos : 0 < size.toNat) (hsize : size.toNat ≤ 0xFFFFF000)
    (hn : n + blocksFor size.toNat ≤ 25600) : ∃ q st,
      kernelZalloc size k.store = .ok (q, st) ∧
        onStore (kernelZalloc size) k = .ok (q, { k with store := st }) ∧ q ≠ 0 ∧
        k.store.Extends st ∧ st.heap.Owns q (blocksFor size.toNat) ∧ k.store.heap.Fresh q ∧
        ({ k with store := st } : Kernel).fsState.KernelRoom (n + blocksFor size.toNat) := by
  obtain ⟨q, st, hz, h0, hplace, hroom⟩ := kernelZalloc_of_room size h.ready h.2 hpos hsize
    (by rw [h.total]; exact hn)
  obtain ⟨hext, hown, hfresh, -⟩ := kernelZalloc_spec h.ready hpos hsize hz h0
  exact ⟨q, st, hz, run_onStore.2 ⟨st, hz, rfl⟩, h0, hext, hown, hfresh, h.1.trans hplace, hroom⟩

/-- **A file is open** since `k`, at its start and as the only one, and the
heap is free from entry `n` on. -/
structure FileOpen (k k' : Kernel) (fd : ℤ) (fat : FatPrivate) (item : FatDirectoryItem) (n : ℕ) :
    Prop where
  owned : FsOwned k'.fsState
  keeps : FsKeeps k.fsState k'.fsState
  room : k'.fsState.KernelRoom n
  file : OpenFile k'.fsState fd fat item 0
  only : ∀ i, k'.fileDescriptors i ≠ 0 → i = (fd - 1).toNat ∧
    ∃ p, k'.objects (k'.fileDescriptors i) = some (.fileDescriptor ⟨fd, some .fat16, p⟩)

namespace FileOpen

/-- An ELF file's structure is none of the layer's. -/
theorem setElfFile {p : Word} {e : Option ElfFile} (f : FileOpen k k' fd fat item n) :
    FileOpen k (k'.setElfFile p e) fd fat item n := ⟨f.owned, f.keeps, f.room, f.file, f.only⟩

/-- It was open since an earlier kernel. -/
theorem trans {k₀ : Kernel} (a : FsKeeps k₀.fsState k.fsState) (f : FileOpen k k' fd fat item n) :
    FileOpen k₀ k' fd fat item n := ⟨f.owned, a.trans f.keeps, f.room, f.file, f.only⟩

/-- A block is taken. -/
theorem exists_zalloc (f : FileOpen k k' fd fat item n) (size : Word) (hpos : 0 < size.toNat)
    (hsize : size.toNat ≤ 4096) (hn : n < 25600) : ∃ q k₁,
      onStore (kernelZalloc size) k' = .ok (q, k₁) ∧ q ≠ 0 ∧ FileOpen k k₁ fd fat item (n + 1) ∧
        FsPending k.fsState k₁.fsState q 1 ∧ k₁.elfFiles = k'.elfFiles := by
  have hone : blocksFor size.toNat = 1 := by
    unfold blocksFor
    omega
  obtain ⟨q, s, -, hz, h0, hext, hown, hfresh, hroom⟩ := f.room.exists_onStore size hpos (by omega)
    (by omega)
  rw [hone] at hown hroom
  exact ⟨q, _, hz, h0, ⟨f.owned.extends_ hext, f.keeps.extends_ hext, hroom, f.file.congr rfl rfl rfl,
      f.only⟩, ⟨f.keeps.ours_of_fresh hfresh, hown, f.owned.objects_of_fresh hfresh⟩, rfl⟩

/-- The file is read into it. -/
theorem exists_fread (f : FileOpen k k' fd fat item n) (hq : FsPending k.fsState k'.fsState q 1)
    (r₀ : k.store.heap.Ready) (h0 : q ≠ 0) (hsize : item.filesize ≠ 0)
    (hread : fat16ReadRecord image fat item 0 item.filesize 1 = .ok (r, bytes))
    (hbytes : bytes ≠ []) (hlen : bytes.length ≤ 4096) : ∃ k₁,
      onFs (fread image q item.filesize 1 fd) k' = .ok (r, k₁) ∧ FileOpen k k₁ fd fat item n ∧
        FsPending k.fsState k₁.fsState q 1 ∧ k₁.elfFiles = k'.elfFiles ∧
        k₁.store.mem = k'.store.mem.store q bytes := by
  refine ⟨_, run_onFs.2 ⟨_, f.file.fread_eq hsize (by decide) h0 hread hbytes, rfl⟩,
    ⟨?_, ?_, f.room, f.file.congr rfl rfl rfl, f.only⟩, ⟨hq.ours, hq.owns, hq.objects⟩, rfl, rfl⟩
  · exact ⟨f.owned.ready, f.owned.owns, f.owned.items, f.owned.single⟩
  · exact f.keeps.store r₀ hq.ours hq.owns (by omega)

/-- The file is closed. -/
theorem exists_fclose (f : FileOpen k k' fd fat item n) : ∃ k₁,
    onFs (fclose fd) k' = .ok (allOk, k₁) ∧ FsOwned k₁.fsState ∧ FsKeeps k'.fsState k₁.fsState ∧
      k₁.fsState.KernelRoom n ∧ k₁.elfFiles = k'.elfFiles ∧ ∀ i, k₁.fileDescriptors i = 0 := by
  obtain ⟨s, hclose⟩ := f.file.exists_fclose
  obtain ⟨m, hm, hroom⟩ := spends_fclose n _ _ _ f.room hclose
  obtain ⟨-, -, -, -, hd0, -⟩ := f.file.descriptors
  have hget : k'.fsState.fileGetDescriptor fd = k'.fileDescriptors (fd - 1).toNat :=
    congrArg Prod.fst (Except.ok.inj f.file.fileGetDescriptor_eq)
  obtain ⟨h0, -⟩ | ⟨-, -, x, hcloses⟩ := fclose_cases f.owned hclose
  · exact absurd (hget.symm.trans h0) hd0
  refine ⟨_, run_onFs.2 ⟨s, hclose, rfl⟩, hcloses.owned, hcloses.keeps, hroom.mono hm, rfl,
    fun i => ?_⟩
  -- its slot was the only one in use
  obtain ⟨-, p, hp⟩ := f.only _ hd0
  have hobject := hcloses.object
  rw [hget] at hobject
  obtain rfl : x = ⟨fd, some .fat16, p⟩ := by
    have hsame := hobject.symm.trans hp
    cases hsame
    rfl
  change s.fileDescriptors i = 0
  rw [hcloses.table]
  by_cases hi : i = (fd - 1).toNat
  · rw [hi]
    exact Function.update_self ..
  · refine (Function.update_of_ne hi ..).trans (not_not.1 fun hne => hi (f.only i hne).1)

end FileOpen

/-! ## The program's file -/

/-- A file without program headers is processed as it is. -/
theorem elfProcessLoaded_of_no_headers {mem : Mem} {file : ElfFile}
    (hvalid : HeaderValid mem file.elfMemory)
    (h0 : elfPhnum mem file.elfMemory = 0) :
    ((elfProcessLoaded mem file).run []).1 = (0, file) := by
  obtain ⟨l, hchecks, -⟩ := elfValidateLoaded_logs mem file.elfMemory
  rw [if_pos hvalid] at hchecks
  have hheaders : ∃ l', Logs (elfProcessPheaders mem file) (0, file) l' := by
    refine ⟨_, readHalf_logs.bind (m := []) ?_⟩
    change Logs (elfProcessPheadersLoop mem (elfPhnum mem file.elfMemory) 0 file) _ _
    rw [h0]
    exact .pure _
  obtain ⟨l', hheaders⟩ := hheaders
  have hrun : Logs (elfProcessLoaded mem file) (0, file) (l ++ l') := hchecks.bind hheaders
  rw [hrun.run_nil]

/-- **A program without program headers**: what is read of its file is an
ELF header which is accepted, and has none. -/
def ReadsHeader (image : Sectors) (fat : FatPrivate) (item : FatDirectoryItem) : Prop :=
  ∃ r bytes, fat16ReadRecord image fat item 0 item.filesize 1 = .ok (r, bytes) ∧ 0 ≤ r ∧ bytes ≠ [] ∧
    bytes.length ≤ 4096 ∧ ∀ (m : Mem) (base : Word),
      HeaderValid (m.store base bytes) base ∧ elfPhnum (m.store base bytes) base = 0

/-- **The program `A` can be loaded**: it is in the root directory, no file
is open, and the heap is free from entry `n` on. -/
structure ProgramReady (image : Sectors) (k : Kernel) (fat : FatPrivate) (item : FatDirectoryItem)
    (n : ℕ) : Prop where
  owned : FsOwned k.fsState
  room : k.fsState.KernelRoom n
  disk : k.disk = ⟨some .fat16, some fat⟩
  found : fat16FindItemInDirectory image fat.rootDirectory [0x41] =
    fat16NewFatItemForDirectoryItem image item
  isFile : item.attributes &&& fatFileSubdirectory = 0
  table : ∀ i, k.fileDescriptors i = 0
  size : 0 < item.filesize.toNat ∧ item.filesize.toNat ≤ 4096
  header : ReadsHeader image fat item

/-- The path of the program. -/
abbrev programPath : Cstring := [0x30, colon, slash, 0x41]

/-- It is opened. -/
theorem ProgramReady.exists_fopen (h : ProgramReady image k fat item n) (hn : n + 17 ≤ 25600) :
    ∃ k' m, onFs (fopen image programPath [0x72]) k = .ok (1, k') ∧ FileOpen k k' 1 fat item m ∧
      m ≤ n + 17 ∧ k'.elfFiles = k.elfFiles := by
  have hslot : k.fsState.freeSlot = some 0 :=
    FsState.freeSlot_eq_some.2 ⟨by decide, h.table 0, fun j hj => absurd hj (Nat.not_lt_zero j)⟩
  obtain ⟨s, m, hopen, hm, hroom, hfile⟩ := OwnKernel.exists_fopen (c := [0x41]) h.owned h.room hn
    ⟨by decide, by decide⟩ (by decide) h.disk (show fileGetModeByString [0x72] = .read from rfl)
    h.found h.isFile hslot
  obtain ⟨h0, -⟩ | ⟨hneg, -⟩ | ⟨i, d, hi, hopens⟩ := fopen_cases h.owned hopen
  · exact absurd h0 (by decide)
  · exact absurd hneg (by decide)
  obtain rfl : i = 0 := by omega
  refine ⟨_, m, run_onFs.2 ⟨s, hopen, rfl⟩, ⟨hopens.owned, hopens.keeps, hroom, hfile (by decide),
    fun j hj => ?_⟩, hm, rfl⟩
  change s.fileDescriptors j ≠ 0 at hj
  change _ ∧ ∃ p, s.objects (s.fileDescriptors j) = _
  rw [hopens.table] at hj ⊢
  have hj0 : j = 0 := by
    by_contra hne
    rw [Function.update_of_ne hne] at hj
    exact hj (h.table j)
  rw [hj0, Function.update_self]
  exact ⟨rfl, hopens.object⟩

/-- **The program's file is in memory**: the structure `elfFile` refers to
the block `elfMemory`, in which there is a file without program headers. -/
structure ProgramRead (k k' : Kernel) (elfFile elfMemory : Word) (n : ℕ) : Prop where
  owned : FsOwned k'.fsState
  keeps : FsKeeps k.fsState k'.fsState
  room : k'.fsState.KernelRoom n
  ne_zero : elfFile ≠ 0 ∧ elfMemory ≠ 0
  file : k'.elfFiles elfFile = some (.unread elfMemory)
  pending : FsPending k.fsState k'.fsState elfMemory 1
  phnum : elfPhnum k'.store.mem elfMemory = 0
  table : ∀ i, k'.fileDescriptors i = 0

/-- **`elf_load` of a program without program headers.** -/
theorem ProgramReady.exists_elfLoad (h : ProgramReady image k fat item n) (hn : n + 19 ≤ 25600) :
    ∃ elfFile elfMemory k' m, elfLoad image programPath k = .ok ((0, elfFile), k') ∧
      ProgramRead k k' elfFile elfMemory m ∧ m ≤ n + 19 := by
  obtain ⟨r, bytes, hread, hr, hbytes, hlen, helf⟩ := h.header
  obtain ⟨hpos, hsize⟩ := h.size
  obtain ⟨elfFile, s₁, -, hz₁, h0₁, hext₁, -, -, hroom₁⟩ :=
    h.room.exists_onStore sizeofElfFile (by decide) (by decide) (by
      rw [show blocksFor sizeofElfFile.toNat = 1 by decide]
      omega)
  rw [show blocksFor sizeofElfFile.toNat = 1 by decide] at hroom₁
  have h₂ : ProgramReady image (({ k with store := s₁ } : Kernel).setElfFile elfFile (some .zero))
      fat item (n + 1) :=
    ⟨h.owned.extends_ hext₁, hroom₁, h.disk, h.found, h.isFile, h.table, h.size, h.header⟩
  have a₂ : FsKeeps k.fsState (({ k with store := s₁ } : Kernel).setElfFile elfFile
      (some .zero)).fsState := (FsKeeps.refl k.fsState).extends_ (t := k.fsState) hext₁
  have hset₂ : onStore (kernelZalloc sizeofElfFile) k = .ok (elfFile, _) := hz₁
  have helf₂ : (({ k with store := s₁ } : Kernel).setElfFile elfFile (some .zero)).elfFiles elfFile =
    some .zero := Function.update_self ..
  generalize hk₂ : ({ k with store := s₁ } : Kernel).setElfFile elfFile (some .zero) = k₂ at *
  obtain ⟨k₃, m, hopen, f₃', hm, helf₃⟩ := h₂.exists_fopen (by omega)
  have f₃ := f₃'.trans a₂
  obtain ⟨flags, hstat⟩ := f₃.file.fstat_eq ⟨0, 0⟩
  have hstat₃ : onFs (fstat 1 ⟨0, 0⟩) k₃ = .ok ((0, ⟨flags, item.filesize⟩), k₃) :=
    run_onFs.2 ⟨_, hstat, rfl⟩
  obtain ⟨elfMemory, k₄, hz₄, h0₄, f₄, hpending, helf₄⟩ :=
    f₃.exists_zalloc item.filesize hpos hsize (by omega)
  have hset₄ : modifyElfFile elfFile (fun file => { file with elfMemory := elfMemory }) k₄ =
      .ok (⟨⟩, k₄.setElfFile elfFile (some (.unread elfMemory))) :=
    run_modifyElfFile.2 ⟨h0₁, .zero, by rw [helf₄, helf₃, helf₂], rfl⟩
  obtain ⟨k₅, hread₅, f₅, hpending₅, helf₅, hmem₅⟩ :=
    (f₄.setElfFile (p := elfFile) (e := some (.unread elfMemory))).exists_fread hpending h.owned.ready
      h0₄ (fun h0 => by rw [h0] at hpos; exact absurd hpos (by decide)) hread hbytes hlen
  have hmem₅' : k₅.store.mem = k₄.store.mem.store elfMemory bytes := hmem₅
  have hfile₅ : k₅.elfFiles elfFile = some (.unread elfMemory) := by
    rw [helf₅]
    exact Function.update_self ..
  -- it is an ELF file, without program headers
  obtain ⟨hvalid, hphnum⟩ := helf k₄.store.mem elfMemory
  have hprocess : ((elfProcessLoaded k₅.store.mem (.unread elfMemory)).run []).1 =
      (0, .unread elfMemory) := by
    rw [hmem₅']
    exact elfProcessLoaded_of_no_headers hvalid hphnum
  have hset₅ : modifyElfFile elfFile (fun _ => .unread elfMemory) k₅ =
      .ok (⟨⟩, k₅.setElfFile elfFile (some (.unread elfMemory))) :=
    run_modifyElfFile.2 ⟨h0₁, _, hfile₅, rfl⟩
  obtain ⟨k₆, hclose, o₆, a₆, hroom₆, helf₆, htable₆⟩ :=
    (f₅.setElfFile (p := elfFile) (e := some (.unread elfMemory))).exists_fclose
  refine ⟨elfFile, elfMemory, k₆, m + 1, ?_, ?_, by omega⟩
  · refine Fallible.run_bind.2 ⟨elfFile, _, hset₂, Fallible.run_seq.2 ⟨k₂, ?_, ?_⟩⟩
    · rw [if_neg h0₁]
      exact Fallible.run_modify.2 hk₂.symm
    refine Fallible.run_bind.2 ⟨1, k₃, hopen, ?_⟩
    rw [if_neg (by decide)]
    refine Fallible.run_bind.2 ⟨_, k₃, hstat₃, ?_⟩
    rw [if_neg (lt_irrefl 0)]
    refine Fallible.run_bind.2 ⟨elfMemory, k₄, hz₄, Fallible.run_seq.2 ⟨_, hset₄, ?_⟩⟩
    refine Fallible.run_bind.2 ⟨r, k₅, hread₅, ?_⟩
    rw [if_neg (not_lt.2 hr)]
    refine Fallible.run_bind.2 ⟨_, k₅, run_readElfFile.2 ⟨h0₁, hfile₅, rfl⟩, ?_⟩
    rw [Fallible.run_get_bind]
    simp only [hprocess]
    refine Fallible.run_seq.2 ⟨_, hset₅, ?_⟩
    rw [if_neg (lt_irrefl 0)]
    exact Fallible.run_bind.2 ⟨_, k₆, hclose, rfl⟩
  · refine ⟨o₆, f₅.keeps.trans a₆, hroom₆, ⟨h0₁, h0₄⟩, ?_, ⟨hpending₅.ours,
      a₆.owns _ _ hpending₅.owns hpending₅.objects, a₆.objects _ _ hpending₅.owns hpending₅.objects⟩,
      ?_, htable₆⟩
    · rw [helf₆]
      exact Function.update_self ..
    · -- closing the file leaves the block
      have hsame : ∀ x, InRange elfMemory 4096 x → k₆.store.mem x = k₅.store.mem x :=
        a₆.mem _ _ hpending₅.owns hpending₅.objects
      rw [← hphnum, ← hmem₅']
      unfold elfPhnum
      rw [Mem.load16_congr fun x hx => hsame x ?_]
      unfold InRange elfPhnumOffset at hx
      unfold InRange
      bv_omega

/-! ## Its process -/

section
variable {process : Word} {p : Process} {file : ElfFile} {N : ℕ}

/-- **A process with an ELF file without program headers.** -/
structure HeaderLoaded (k : Kernel) (process : Word) (p : Process) (file : ElfFile) : Prop where
  loaded : ProgramLoaded k process p
  elf : p.filetype = processFiletypeElf
  elfFile : k.elfFiles p.ptr = some file
  owns : k.store.heap.Owns file.elfMemory 1
  phnum : elfPhnum k.store.mem file.elfMemory = 0

/-- The file stays as it is when blocks are taken. -/
theorem HeaderLoaded.extends_ (h : HeaderLoaded k process p file) (hext : k.store.Extends k'.store)
    (hprocesses : k'.processes = k.processes) (hfiles : k'.elfFiles = k.elfFiles) :
    HeaderLoaded k' process p file where
  loaded := h.loaded.congr hprocesses hfiles
  elf := h.elf
  elfFile := hfiles ▸ h.elfFile
  owns := hext.owns _ _ h.owns
  phnum := by
    rw [← h.phnum]
    unfold elfPhnum
    rw [Mem.load16_congr fun x hx => hext.mem _ _ h.owns x ?_]
    unfold InRange elfPhnumOffset at hx
    unfold InRange
    bv_omega

/-- Other members of the process are changed. -/
theorem HeaderLoaded.setProcess (h : HeaderLoaded k process p file) {p' : Process}
    (htype : p'.filetype = p.filetype) (hptr : p'.ptr = p.ptr) :
    HeaderLoaded (k.setProcess process (some p')) process p' file where
  loaded := ⟨h.loaded.ne_zero, setProcess_processes_self, fun hf => by
    rw [hptr]
    exact h.loaded.elf (htype ▸ hf), by rw [htype]; exact h.loaded.filetype⟩
  elf := htype.trans h.elf
  elfFile := hptr ▸ h.elfFile
  owns := h.owns
  phnum := h.phnum

/-- **A task has been made**: it is the last of the list, and the one that
runs where there was none. -/
structure TaskAppended (k k' : Kernel) (task : Word) : Prop where
  ne_zero : task ≠ 0
  head : k'.taskHead = if k.taskHead = 0 then task else k.taskHead
  tail : k'.taskTail = task
  current : k'.currentTask = if k.taskHead = 0 then task else k.currentTask
  last : ∃ t, k'.tasks task = some t ∧ t.next = 0
  before : k.taskHead ≠ 0 → ∃ u, k'.tasks k.taskTail = some u ∧ u.next = task

/-- Of the kernel before, only the list's ends matter. -/
theorem TaskAppended.of_sameLists {k₀ : Kernel} {task : Word} (h : TaskAppended k k' task)
    (hl : SameLists k₀ k) : TaskAppended k₀ k' task where
  ne_zero := h.ne_zero
  head := by rw [h.head, hl.taskHead]
  tail := h.tail
  current := by rw [h.current, hl.taskHead, hl.currentTask]
  last := h.last
  before := by
    rw [← hl.taskHead, ← hl.taskTail]
    exact h.before

/-- **A program is started**: its task has a directory of its own, and the
file layer is what it was. -/
structure TaskStarted (k k' : Kernel) (slot : ℤ) (process : Word) (p : Process) (task : Word)
    (c : ChunkView) (n : ℕ) : Prop where
  run : processLoadTask process slot k = .ok ((0, process), k')
  object : k'.processes process = some { p with task := task }
  directory : HasDirectory k' task c
  store : k.store.Extends k'.store
  fresh : ∀ q, c.Has q → k.store.heap.Fresh q
  room : ∃ m, k'.store.heap.Room m ∧ m + n ≤ k'.store.heap.total
  files : k'.fsState = { k.fsState with store := k'.store }
  ready : CommandReady k'
  list : TaskAppended k k' task

/-- **A program without program headers is started**: its task is made,
its stack is mapped, and it is entered in the table. -/
theorem HeaderLoaded.exists_processLoadTask {slot : ℤ} {n : ℕ} (hp : HeaderLoaded k process p file)
    (hready : CommandReady k) (hroom : ∃ m, k.store.heap.Room m ∧ m + (n + 1027) ≤ k.store.heap.total)
    (h0 : 0 ≤ slot) (hlt : slot < osMaxProcesses) :
    ∃ task c k', TaskStarted k k' slot process p task c n := by
  have h := hready.list
  obtain ⟨task, k₁, hnew, hroom₁⟩ := taskNew_of_budget budget_room h.ready hroom
    hp.loaded.entryReadable h.tail_owned fun hne => (h.tail hne).imp fun _ ht => ht.1
  obtain ⟨c, t, hm⟩ := taskNew_spec h.ready h.tail_owned hnew
  have hready₁ := hm.store.ready h.ready
  have htask := hm.owns.ne_zero hready₁
  have h₁ : HeaderLoaded k₁ process p file := hp.extends_ hm.store hm.processes hm.elfFiles
  have hset : modifyProcess process (fun p => { p with task := task }) k₁ =
      .ok (⟨⟩, k₁.setProcess process (some { p with task := task })) :=
    run_modifyProcess.2 ⟨hp.loaded.ne_zero, p, h₁.loaded.object, rfl⟩
  have h₂ : HeaderLoaded (k₁.setProcess process (some { p with task := task })) process
      { p with task := task } file := h₁.setProcess rfl rfl
  have hd : HasDirectory (k₁.setProcess process (some { p with task := task })) task c :=
    ⟨hready₁, htask, ⟨t, hm.tasks_self, hm.pageDirectory⟩, hm.mapped⟩
  have hstore : (k₁.setProcess process (some { p with task := task })).store = k₁.store := rfl
  generalize hk₂ : k₁.setProcess process (some { p with task := task }) = k₂ at hset h₂ hd hstore
  have hread := run_readProcess.2 ⟨hp.loaded.ne_zero, h₂.loaded.object, rfl⟩
  -- there is no header to map
  have hmapElf : processMapElf process k₂ = .ok (0, k₂) :=
    Fallible.run_bind.2 ⟨_, k₂, hread, Fallible.run_bind.2 ⟨file, k₂,
      run_readElfFile.2 ⟨(h₂.loaded.elf h₂.elf).1, h₂.elfFile, rfl⟩,
      processMapElfLoop_end (Nat.le_of_eq h₂.phnum)⟩⟩
  obtain ⟨k₃, hstack, hout, hd₃⟩ := HasDirectory.processMapStack_total hd h₂.loaded 0
  have hmap : processMapMemory process k₂ = .ok (0, k₃) := by
    refine Fallible.run_bind.2 ⟨_, k₂, hread, ?_⟩
    rw [if_pos h₂.elf]
    exact Fallible.run_bind.2 ⟨0, k₂, hmapElf, by rw [if_neg (lt_irrefl 0)]; exact hstack⟩
  obtain ⟨k₄, hk₄⟩ : ∃ k₄ : Kernel, k₄ = { k₃ with
    processTable := Function.update k₃.processTable slot.toNat process } := ⟨_, rfl⟩
  -- after the task is made only its directory is written
  have hk₃ : k₃ = ({ k₁ with store := k₃.store } : Kernel).setProcess process
      (some { p with task := task }) := by
    rw [hout.state, ← hk₂]
    rfl
  have hstore₄ : k₄.store = k₃.store := by rw [hk₄]
  have hheap : k₄.store.heap = k₁.store.heap := by rw [hstore₄, hout.heap, hstore]
  have hlists : k₄.tasks = k₁.tasks ∧ k₄.taskHead = k₁.taskHead ∧ k₄.taskTail = k₁.taskTail ∧
      k₄.currentTask = k₁.currentTask ∧ k₄.objects = k₁.objects ∧ k₄.disk = k₁.disk ∧
      k₄.fileDescriptors = k₁.fileDescriptors := by
    rw [hk₄, hk₃]
    exact ⟨rfl, rfl, rfl, rfl, rfl, rfl, rfl⟩
  obtain ⟨htasks, hhead, htail, hcurrent, hobjects, hdisk, hdescriptors⟩ := hlists
  have hready₄ : CommandReady k₄ := (hready.taskMade hm).congr hheap hobjects htasks hhead htail
    hcurrent
  have hlists : TaskAppended k k₄ task := by
    refine ⟨htask, hhead.trans hm.taskHead, htail.trans hm.taskTail, hcurrent.trans hm.currentTask,
      ⟨t, htasks ▸ hm.tasks_self, hm.next⟩, fun hne => ?_⟩
    obtain ⟨u, -, hu⟩ := hm.tasks_tail hne
    exact ⟨_, htasks ▸ hu, rfl⟩
  refine ⟨task, c, k₄, ?_, ?_, ?_, ?_, hm.chunk_fresh, ?_, ?_, hready₄, hlists⟩
  · refine Fallible.run_bind.2 ⟨task, k₁, hnew, ?_⟩
    rw [if_neg htask]
    refine Fallible.run_seq.2 ⟨k₂, hset, Fallible.run_bind.2 ⟨0, k₃, hmap, ?_⟩⟩
    rw [if_neg (lt_irrefl 0), if_neg (by omega)]
    exact Fallible.run_seq.2 ⟨_, Fallible.run_modify.2 hk₄, rfl⟩
  · rw [hk₄]
    change k₃.processes process = _
    rw [hout.processes]
    exact h₂.loaded.object
  · rw [hk₄]
    exact ⟨hd₃.ready, hd₃.ne_zero, hd₃.object, hd₃.mapped⟩
  · -- the tables written are none of the blocks there were
    refine ⟨?_, fun q j hq => ?_, fun q j hq x hx => ?_⟩
    · rw [hheap]
      exact hm.store.place
    · rw [hheap]
      exact hm.store.owns q j hq
    · rw [hstore₄]
      refine (hout.out x ?_).trans ((congrArg (fun s => s.mem x) hstore).trans (hm.store.mem q j hq x hx))
      rintro ⟨i, hi, hin⟩
      refine (hm.store.owns q j hq).disjoint (hm.mapped.owns _ (c.has_table hi)) hready₁ ?_ hx hin
      rintro rfl
      exact hm.chunk_fresh _ (c.has_table hi) j hq
  · rw [hheap]
    exact hroom₁
  · have hfiles := hm.files
    unfold Kernel.fsState at hfiles ⊢
    rw [hobjects, hdisk, hdescriptors]
    simp only [FsState.mk.injEq] at hfiles ⊢
    exact ⟨trivial, hfiles.2⟩

/-- The first slot that is free. -/
theorem Kernel.processGetFreeSlot_eq {i : ℕ} (hi : i < osMaxProcesses) (h0 : k.processTable i = 0)
    (hbefore : ∀ j < i, k.processTable j ≠ 0) : k.processGetFreeSlot = i := by
  have hfind : ((List.range osMaxProcesses).find? fun i => k.processTable i = 0) = some i := by
    rw [List.find?_range_eq_some]
    simp only [decide_eq_true_eq, List.mem_range, Bool.not_eq_true', decide_eq_false_iff_not]
    exact ⟨h0, hi, hbefore⟩
  unfold Kernel.processGetFreeSlot
  rw [hfind]

/-- **A load that succeeds**: the process has a directory of its own and no
records, the blocks that are not the file layer's are what they were, and
the program can be loaded again. -/
structure ProgramStarted (image : Sectors) (k k' : Kernel) (slot : ℤ) (process : Word)
    (fat : FatPrivate) (item : FatDirectoryItem) (N : ℕ) (p : Process) (c : ChunkView) : Prop where
  ne_zero : process ≠ 0
  object : k'.processes process = some p
  records : p.allocations = Process.zero.allocations
  directory : HasDirectory k' p.task c
  blocks : ∀ q j, k.store.heap.Owns q j → k.objects q = none → k'.store.heap.Owns q j ∧
    (∀ x, InRange q (4096 * j) x → k'.store.mem x = k.store.mem x) ∧ ¬ c.Has q
  list : TaskAppended k k' p.task
  ready : CommandReady k'
  again : ∃ m, ProgramReady image k' fat item m ∧ m + N ≤ 25600
  made : ∃ k₁ p₁ file, HeaderLoaded k₁ process p₁ file ∧ k₁.store.heap.Ready ∧
    processLoadTask process slot k₁ = .ok ((0, process), k')

/-- **`process_load_data` of the program.** -/
theorem ProgramReady.exists_processLoadData (h : ProgramReady image k fat item n)
    (h0 : process ≠ 0) (hp : k.processes process = some p) (hn : n + 19 ≤ 25600) :
    ∃ k' p' file m, processLoadData image programPath process k = .ok (0, k') ∧
      HeaderLoaded k' process p' file ∧ p'.allocations = p.allocations ∧ Loading k k' ∧
      FsKeeps k.fsState k'.fsState ∧ (∀ i, k'.fileDescriptors i = 0) ∧
      k'.fsState.KernelRoom m ∧ m ≤ n + 19 := by
  obtain ⟨elfFile, elfMemory, k₁, m, helf, hread, hm⟩ := h.exists_elfLoad (by omega)
  have hloading := (Loading.keeps_elfLoad k (.refl h.owned)).2 _ _ helf
  have hp₁ : k₁.processes process = some p := by
    rw [(keeps_processes_elfLoad _ k rfl).2 _ _ helf]
    exact hp
  have hset : modifyProcess process (fun p => { p with
      filetype := processFiletypeElf
      ptr := elfFile }) k₁ = .ok (⟨⟩, k₁.setProcess process (some { p with
        filetype := processFiletypeElf
        ptr := elfFile })) := run_modifyProcess.2 ⟨h0, p, hp₁, rfl⟩
  have hload : processLoadElf image programPath process k =
      .ok (0, k₁.setProcess process (some { p with
        filetype := processFiletypeElf
        ptr := elfFile })) := by
    refine Fallible.run_bind.2 ⟨(0, elfFile), k₁, helf, ?_⟩
    rw [if_neg (lt_irrefl 0)]
    exact Fallible.run_seq.2 ⟨_, hset, Fallible.run_pure.2 ⟨rfl, rfl⟩⟩
  have hkeep : Loading k (k₁.setProcess process (some { p with
      filetype := processFiletypeElf
      ptr := elfFile })) := by
    refine (Loading.keeps_modifyProcess ?_ k₁ hloading).2 _ _ hset
    exact fun _ => rfl
  refine ⟨k₁.setProcess process (some { p with filetype := processFiletypeElf, ptr := elfFile }),
    { p with filetype := processFiletypeElf, ptr := elfFile }, .unread elfMemory, m,
    Fallible.run_bind.2 ⟨0, _, hload, ?_⟩, ⟨⟨h0, ?_, fun _ => ⟨hread.ne_zero.1, ?_⟩, Or.inl rfl⟩,
    rfl, hread.file, hread.pending.owns, hread.phnum⟩, rfl, hkeep, hread.keeps, hread.table,
    hread.room, hm⟩
  · rw [if_neg (by decide)]
    exact Fallible.run_pure.2 ⟨rfl, rfl⟩
  · exact setProcess_processes_self
  · exact ⟨_, hread.file, hread.ne_zero.2⟩

/-- **`process_load_for_slot` of the program**, in a slot that is free. -/
theorem ProgramReady.exists_processLoadForSlot {slot : ℤ} (h : ProgramReady image k fat item n)
    (hready : CommandReady k) (hslot : 0 ≤ slot ∧ slot < osMaxProcesses) (h0 : k.processGet slot = 0)
    (hn : n + 1053 + N ≤ 25600) :
    ∃ process k' p c, processLoadForSlot image programPath slot k = .ok ((0, process), k') ∧
      ProgramStarted image k k' slot process fat item N p c := by
  obtain ⟨process, s₁, -, hz₁, h0₁, hext₁, -, -, hroom₁⟩ := h.room.exists_onStore sizeofProcess
    (by decide) (by decide) (by rw [show blocksFor sizeofProcess.toNat = 3 by decide]; omega)
  rw [show blocksFor sizeofProcess.toNat = 3 by decide] at hroom₁
  obtain ⟨k₂, hk₂⟩ : ∃ k₂, k₂ = ({ k with store := s₁ } : Kernel).setProcess process (some .zero) :=
    ⟨_, rfl⟩
  have hready₂ : CommandReady k₂ := hk₂ ▸ hready.newProcess hext₁
  have h₂ : ProgramReady image k₂ fat item (n + 3) := by
    rw [hk₂]
    exact ⟨hk₂ ▸ hready₂.files, hroom₁, h.disk, h.found, h.isFile, h.table, h.size, h.header⟩
  have hp₂ : k₂.processes process = some .zero := by
    rw [hk₂]
    exact setProcess_processes_self
  have hlists₂ : SameLists k k₂ := by
    rw [hk₂]
    exact ⟨rfl, rfl, rfl, rfl, rfl, rfl⟩
  have hkept₂ : k.store.Extends k₂.store ∧ k₂.objects = k.objects ∧ k₂.disk = k.disk := by
    rw [hk₂]
    exact ⟨hext₁, rfl, rfl⟩
  obtain ⟨hext₂, hobjects₂, hdisk₂⟩ := hkept₂
  obtain ⟨k₃, p₃, file, m, hdata, hp₃, hrecords₃, hloading₃, hkeeps₃, htable₃, hroom₃, hm⟩ :=
    h₂.exists_processLoadData h0₁ hp₂ (by omega)
  obtain ⟨stack, s₄, -, hz₄, h0₄, hext₄, -, -, hroom₄⟩ := hroom₃.exists_onStore
    osUserProgramVirtualStackSize (by decide) (by decide) (by
      rw [show blocksFor osUserProgramVirtualStackSize.toNat = 4 by decide]
      omega)
  rw [show blocksFor osUserProgramVirtualStackSize.toNat = 4 by decide] at hroom₄
  have hp₄ : HeaderLoaded { k₃ with store := s₄ } process p₃ file := hp₃.extends_ hext₄ rfl rfl
  obtain ⟨p₄, hp₄eq⟩ : ∃ p₄ : Process, p₄ = { p₃ with
    stack := stack
    id := slot.toNat % 2 ^ 16 } := ⟨_, rfl⟩
  obtain ⟨k₅, hk₅⟩ : ∃ k₅, k₅ = ({ k₃ with store := s₄ } : Kernel).setProcess process (some p₄) :=
    ⟨_, rfl⟩
  have hset : modifyProcess process (fun p => { p with
      stack := stack
      id := slot.toNat % 2 ^ 16 }) { k₃ with store := s₄ } = .ok (⟨⟩, k₅) :=
    run_modifyProcess.2 ⟨h0₁, p₃, hp₄.loaded.object, by rw [hk₅, hp₄eq]⟩
  have hp₅ : HeaderLoaded k₅ process p₄ file := by
    rw [hk₅]
    exact hp₄.setProcess (by rw [hp₄eq]) (by rw [hp₄eq])
  have hready₅ : CommandReady k₅ := hk₅ ▸ (hready₂.loading hloading₃).newProcess hext₄
  have hroom₅ : k₅.fsState.KernelRoom (m + 4) := by
    rw [hk₅]
    exact hroom₄
  have hlists₅ : SameLists k k₅ := by
    have hlists : SameLists k k₃ := hlists₂.trans hloading₃.lists
    rw [hk₅]
    exact ⟨hlists.processTable, hlists.currentProcess, hlists.tasks, hlists.taskHead,
      hlists.taskTail, hlists.currentTask⟩
  have hfiles₅ : k₅.disk = k.disk ∧ k₅.fileDescriptors = k₃.fileDescriptors := by
    rw [hk₅]
    exact ⟨hkeeps₃.disk.trans hdisk₂, rfl⟩
  obtain ⟨task, c, k₆, hs⟩ := hp₅.exists_processLoadTask (n := N) hready₅
    ⟨_, hroom₅.2, by
      rw [show k₅.store.heap.total = 25600 from hroom₅.total]
      omega⟩ hslot.1 hslot.2
  have hagain : ∃ m, ProgramReady image k₆ fat item m ∧ m + N ≤ 25600 := by
    obtain ⟨m₆, hroom₆, hm₆⟩ := hs.room
    have hplace₆ : kernelHeapInit.SamePlace k₆.store.heap := hroom₅.1.trans hs.store.place
    have hfiles := hs.files
    have hdisk₆ : k₆.disk = k.disk := (congrArg FsState.disk hfiles).trans hfiles₅.1
    have htable₆ : k₆.fileDescriptors = k₃.fileDescriptors :=
      (congrArg FsState.fileDescriptors hfiles).trans hfiles₅.2
    refine ⟨m₆, ⟨hs.ready.files, ⟨hplace₆, hroom₆⟩, hdisk₆.trans h.disk, h.found, h.isFile,
      fun i => ?_, h.size, h.header⟩, ?_⟩
    · rw [htable₆]
      exact htable₃ i
    · rwa [show k₆.store.heap.total = 25600 from hplace₆.total] at hm₆
  refine ⟨process, k₆, { p₄ with task := task }, c, ?_, h0₁, hs.object, ?_, hs.directory,
    fun q j hq hq0 => ?_, hs.list.of_sameLists hlists₅, hs.ready, hagain,
    ⟨k₅, p₄, file, hp₅, hready₅.list.ready, hs.run⟩⟩
  · unfold processLoadForSlot
    rw [Fallible.run_get_bind, if_neg (not_not.2 h0)]
    refine Fallible.run_bind.2 ⟨process, _, hz₁, ?_⟩
    rw [if_neg h0₁]
    refine Fallible.run_seq.2 ⟨k₂, Fallible.run_modify.2 hk₂, Fallible.run_bind.2 ⟨0, k₃, hdata, ?_⟩⟩
    rw [if_neg (lt_irrefl 0)]
    refine Fallible.run_bind.2 ⟨stack, _, hz₄, ?_⟩
    rw [if_neg h0₄]
    exact Fallible.run_seq.2 ⟨_, hset, hs.run⟩
  · rw [hp₄eq]
    exact hrecords₃
  · -- the block is kept by each part
    have h₂' := hext₂.owns q j hq
    rw [← hobjects₂] at hq0
    have h₃' := hkeeps₃.owns q j h₂' hq0
    have h₄' : k₅.store.heap.Owns q j := by
      rw [hk₅]
      exact hext₄.owns q j h₃'
    have hmem₅ : ∀ x, InRange q (4096 * j) x → k₅.store.mem x = k₃.store.mem x := by
      rw [hk₅]
      exact hext₄.mem q j h₃'
    refine ⟨hs.store.owns q j h₄', fun x hx => ?_, fun hc => hs.fresh q hc j h₄'⟩
    rw [hs.store.mem q j h₄' x hx]
    exact (hmem₅ x hx).trans ((hkeeps₃.mem q j h₂' hq0 x hx).trans (hext₂.mem q j hq x hx))

/-- **`process_load_switch` of the program**, in the first slot that is
free. -/
theorem ProgramReady.exists_processLoadSwitch {i : ℕ} (h : ProgramReady image k fat item n)
    (hready : CommandReady k) (hi : i < osMaxProcesses) (h0 : k.processTable i = 0)
    (hbefore : ∀ j < i, k.processTable j ≠ 0) (hn : n + 1053 + N ≤ 25600) :
    ∃ process k₁ p c, processLoadForSlot image programPath i k = .ok ((0, process), k₁) ∧
      processLoadSwitch image programPath k =
        .ok ((0, process), { k₁ with currentProcess := process }) ∧
      ProgramStarted image k k₁ i process fat item N p c := by
  have hget : k.processGet i = 0 := by
    unfold Kernel.processGet
    rw [if_neg (by omega)]
    exact h0
  obtain ⟨process, k₁, p, c, hload, hs⟩ :=
    h.exists_processLoadForSlot hready ⟨by omega, by omega⟩ hget hn
  refine ⟨process, k₁, p, c, hload, Fallible.run_bind.2 ⟨(0, process), k₁, ?_, ?_⟩, hs⟩
  · unfold processLoad
    rw [Fallible.run_get_bind, Kernel.processGetFreeSlot_eq hi h0 hbefore, if_neg (by omega)]
    exact hload
  · rw [if_pos rfl]
    exact Fallible.run_bind.2 ⟨0, _, Fallible.run_seq.2 ⟨_, Fallible.run_modify.2 rfl, rfl⟩, rfl⟩

end

end OwnKernel
