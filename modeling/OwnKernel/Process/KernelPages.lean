import OwnKernel.Process.Headers
import OwnKernel.Task.List

/-!
# The kernel's pages in a task's directory

A task's directory maps every page to itself to begin with, and the
kernel runs on it: its image, its interrupt stack and its heap are used
at these addresses. `process_map_elf` maps a program header at whatever
address the file asks for. `processMapMemory_sparesKernel_iff` says for
which files the kernel's pages stay where they are.
-/

namespace OwnKernel

variable {k k' : Kernel} {c : ChunkView} {process : Word} {p : Process} {file : ElfFile}
  {v a e flags : Word} {f : PageMap} {mem mem' : Mem} {page i j n : ℕ}

/-! ## The kernel's pages -/

/-- **The pages the kernel uses on a task's directory**: its image, of
`imagePages` pages from 0x100000 on, the page below `tss.esp0`, and the
heap. -/
def KernelPage (imagePages page : ℕ) : Prop :=
  (0x100 ≤ page ∧ page < 0x100 + imagePages) ∨ page = 0x600000 / heapBlockSize - 1 ∨
    (heapAddress.toNat / heapBlockSize ≤ page ∧
      page < heapAddress.toNat / heapBlockSize + heapSizeBytes / heapBlockSize)

/-- The entry has the page at its own address. -/
def MapsToItself (entry : Word) (page : ℕ) : Prop :=
  entry &&& pagingAddressMask = BitVec.ofNat 32 (page * heapBlockSize) ∧
    entry &&& pagingIsPresent ≠ 0

/-- A flag stays under an address. -/
theorem or_and_ne_zero {x g : Word} (h : g &&& pagingIsPresent ≠ 0) :
    (x ||| g) &&& pagingIsPresent ≠ 0 := by
  intro h0
  rw [BitVec.and_or_distrib_right] at h0
  exact h (BitVec.or_eq_zero_iff.1 h0).2

/-- A page of a range maps to itself when the range does. -/
theorem mapsToItself_of_rangeEntry {w : Word} (hw : rangeEntry v a e flags page = some w)
    (hp : page < 2 ^ 20) (hflags : flags.toNat < 4096) (hpresent : flags &&& pagingIsPresent ≠ 0) :
    MapsToItself w page ↔ v = a := by
  unfold rangeEntry at hw
  by_cases hin : ValidRange v a e ∧ pageOffset v page < (e.toNat - a.toNat) / 4096
  · rw [if_pos hin] at hw
    cases hw
    obtain ⟨⟨hv, ha, -, -⟩, -⟩ := hin
    have hv' := ChunkView.At.page_lt v
    have hlt := a.isLt
    have hsum : (a + BitVec.ofNat 32 (4096 * pageOffset v page)).toNat =
        (a.toNat + 4096 * pageOffset v page) % 2 ^ 32 := by
      rw [BitVec.toNat_add, BitVec.toNat_ofNat]
      omega
    have hoff : pageOffset v page = (page + 2 ^ 20 - v.toNat / 4096) % 2 ^ 20 := rfl
    unfold MapsToItself
    rw [or_flags_and_addressMask (by omega) hflags, and_iff_left (or_and_ne_zero hpresent)]
    constructor
    · intro heq
      have := congrArg BitVec.toNat heq
      rw [hsum, BitVec.toNat_ofNat, heapBlockSize] at this
      apply BitVec.eq_of_toNat_eq
      omega
    · rintro rfl
      apply BitVec.eq_of_toNat_eq
      rw [hsum, BitVec.toNat_ofNat, heapBlockSize]
      omega
  · rw [if_neg hin] at hw
    cases hw

/-- At the start every page maps to itself. -/
theorem mapsToItself_identityEntry (page : ℕ) :
    MapsToItself (identityEntry taskPageFlags page) page := by
  refine ⟨or_flags_and_addressMask ?_ (by decide), or_and_ne_zero (by decide)⟩
  rw [BitVec.toNat_ofNat, heapBlockSize]
  omega

/-! ## What the headers map -/

theorem phdrPageFlags_lt (mem : Mem) (phdr : Word) : (phdrPageFlags mem phdr).toNat < 4096 := by
  unfold phdrPageFlags
  simp only
  split <;> decide

theorem phdrPageFlags_present (mem : Mem) (phdr : Word) :
    phdrPageFlags mem phdr &&& pagingIsPresent ≠ 0 := by
  unfold phdrPageFlags
  simp only
  split <;> decide

/-- **What header `i` maps**, where the loop gets that far: no header up
to it has a range that is not carried out. -/
def phdrEntry (mem : Mem) (file : ElfFile) (i page : ℕ) : Option Word :=
  let phdr := elfPhdrAddress mem file.elfMemory i
  if ∀ j ≤ i, PhdrValid mem file (elfPhdrAddress mem file.elfMemory j) then
    rangeEntry (pagingAlignToLowerPage (mem.load32 (phdr + phdrVaddrOffset)))
      (pagingAlignToLowerPage (elfPhdrPhysAddress mem file phdr))
      (pagingAlignAddress (elfPhdrPhysAddress mem file phdr + mem.load32 (phdr + phdrMemszOffset)))
      (phdrPageFlags mem phdr) page
  else none

/-- **The headers spare the kernel's pages**: the last header that maps
one of them has it at its own address. -/
def HeadersSpareKernel (mem : Mem) (file : ElfFile) (imagePages : ℕ) : Prop :=
  ∀ page, KernelPage imagePages page → ∀ i v,
    LastAt (phdrEntry mem file) (elfPhnum mem file.elfMemory) i page v →
      pagingAlignToLowerPage
          (mem.load32 (elfPhdrAddress mem file.elfMemory i + phdrVaddrOffset)) =
        pagingAlignToLowerPage
          (elfPhdrPhysAddress mem file (elfPhdrAddress mem file.elfMemory i))

/-- The words of a header whose bytes are the same. -/
theorem phdr_load32_congr {q o : Word} (h : ∀ x, InRange q 32 x → mem' x = mem x)
    (ho : o.toNat + 4 ≤ 32) : mem'.load32 (q + o) = mem.load32 (q + o) := by
  refine Mem.load32_congr fun x hx => h x ?_
  unfold InRange at hx ⊢
  have := q.isLt
  bv_omega

theorem phdrValid_congr {q : Word} (h : ∀ x, InRange q 32 x → mem' x = mem x) :
    PhdrValid mem' file q ↔ PhdrValid mem file q := by
  unfold PhdrValid elfPhdrPhysAddress
  rw [phdr_load32_congr h (by decide), phdr_load32_congr h (by decide),
    phdr_load32_congr h (by decide)]

theorem phdrRange_congr {q : Word} (h : ∀ x, InRange q 32 x → mem' x = mem x) :
    phdrRange mem' file q page = phdrRange mem file q page := by
  unfold phdrRange elfPhdrPhysAddress phdrPageFlags
  rw [phdr_load32_congr h (by decide), phdr_load32_congr h (by decide),
    phdr_load32_congr h (by decide), phdr_load32_congr h (by decide)]

/-- The headers are read from outside the tables that are written. -/
structure HeadersApart (c : ChunkView) (mem : Mem) (base : Word) : Prop where
  phnum : ∀ x, InRange (base + elfPhnumOffset) 2 x → ¬ c.InTables x
  phdr : ∀ i < elfPhnum mem base, ∀ x, InRange (elfPhdrAddress mem base i) 32 x → ¬ c.InTables x

/-- A header table in the file is read from outside them. -/
theorem headersApart_of_owns {base : Word} (r : k.store.heap.Ready) (hat : c.At k.store)
    (o : k.store.heap.Owns base n) (hbase : ¬ c.Has base)
    (hphdr : ∀ i < elfPhnum mem base, ∀ x, InRange (elfPhdrAddress mem base i) 32 x →
      InRange base (4096 * n) x) : HeadersApart c mem base := by
  exact ⟨phnumApart_of_owns r hat o hbase, fun i hi x hx =>
    not_inTables_of_owns r hat o hbase (hphdr i hi x hx)⟩

/-- Headers apart from the tables are read as they were. -/
theorem HeadersApart.headerEntry_eq (hap : HeadersApart c k.store.mem file.elfMemory)
    (hat : c.At k.store) (r : k.store.heap.Ready) (hi : i < elfPhnum k.store.mem file.elfMemory) :
    headerEntry k.store.mem c.chunk file i page = phdrEntry k.store.mem file i page := by
  have hsame : ∀ j ≤ i, ∀ x, InRange (elfPhdrAddress k.store.mem file.elfMemory j) 32 x →
      headerMem k.store.mem c.chunk file j x = k.store.mem x := fun j hj x hx =>
    (headerMem_out hat r file j).2 x (hap.phdr j (by omega) x hx)
  have hvalid : (∀ j ≤ i, HeaderMaps k.store.mem c.chunk file j) ↔
      ∀ j ≤ i, PhdrValid k.store.mem file (elfPhdrAddress k.store.mem file.elfMemory j) :=
    forall₂_congr fun j hj => phdrValid_congr (hsame j hj)
  unfold headerEntry phdrEntry
  exact if_congr hvalid (phdrRange_congr (hsame i le_rfl)) rfl

/-! ## The whole program -/

theorem kernelPage_iff {imagePages : ℕ} : KernelPage imagePages page ↔
    (0x100 ≤ page ∧ page < 0x100 + imagePages) ∨ page = 0x5FF ∨
      (0x1000 ≤ page ∧ page < 0x1000 + 25600) := by
  have h0 : 0x600000 / heapBlockSize - 1 = 0x5FF := by decide
  have h1 : heapAddress.toNat / heapBlockSize = 0x1000 := by decide
  have h2 : heapSizeBytes / heapBlockSize = 25600 := by decide
  rw [KernelPage, h0, h1, h2]

/-- Kernel pages are pages. -/
theorem KernelPage.lt {imagePages : ℕ} (himage : imagePages ≤ 0x2FB)
    (hk : KernelPage imagePages page) : page < 2 ^ 20 := by
  rw [kernelPage_iff] at hk
  omega

/-- The stack is mapped at its own four pages only. -/
theorem rangeEntry_stack (stack flags : Word) (hlt : page < 2 ^ 20)
    (hout : page < 0x3FB ∨ 0x3FF ≤ page) :
    rangeEntry osUserProgramVirtualStackAddressEnd stack
      (pagingAlignAddress (stack + osUserProgramVirtualStackSize)) flags page = none := by
  have h2 : osUserProgramVirtualStackAddressEnd.toNat / 4096 = 0x3FB := by decide
  unfold rangeEntry
  refine if_neg ?_
  rintro ⟨⟨-, ha, -, hle⟩, hin⟩
  have hsum : (stack + osUserProgramVirtualStackSize).toNat = (stack.toNat + 0x4000) % 2 ^ 32 := by
    rw [BitVec.toNat_add]
    rfl
  have halign : pagingAlignAddress (stack + osUserProgramVirtualStackSize) =
      stack + osUserProgramVirtualStackSize := by
    refine if_neg (not_not.2 ?_)
    apply BitVec.eq_of_toNat_eq
    rw [BitVec.toNat_umod, hsum]
    change _ % 4096 = 0
    omega
  rw [halign] at hle hin
  have hle' : stack.toNat ≤ (stack + osUserProgramVirtualStackSize).toNat := hle
  unfold pageOffset at hin
  rw [h2] at hin
  omega

/-- The stack's pages are none of the kernel's. -/
theorem KernelPage.not_stack {imagePages : ℕ} (himage : imagePages ≤ 0x2FB)
    (hk : KernelPage imagePages page) : page < 0x3FB ∨ 0x3FF ≤ page := by
  rw [kernelPage_iff] at hk
  omega

/-- The end of `process_map_memory` leaves the kernel's pages alone. -/
theorem HasDirectory.processMapStack_kernelPages {imagePages : ℕ} (himage : imagePages ≤ 0x2FB)
    (h : HasDirectory k p.task c) (h0 : process ≠ 0) (hp : k.processes process = some p)
    (res : ℤ) : ∃ k', processMapMemory.processMapStack process res k = .ok (res, k') ∧
      ∀ page, KernelPage imagePages page → c.entry k'.store.mem page = c.entry k.store.mem page := by
  obtain ⟨k', hmap, -, -, hentry⟩ := h.taskMapTo_eq osUserProgramVirtualStackAddressEnd p.stack
    (pagingAlignAddress (p.stack + osUserProgramVirtualStackSize)) userWriteableFlags
    (f := c.entry k.store.mem) fun _ _ => rfl
  refine ⟨k', Fallible.run_bind.2 ⟨p, k, run_readProcess.2 ⟨h0, hp, rfl⟩,
    Fallible.run_bind.2 ⟨_, k', hmap, rfl⟩⟩, fun page hk => ?_⟩
  have hlt := hk.lt himage
  rw [hentry page hlt, mapTo_eq_getD _ _ _ _ _ hlt, rangeEntry_stack _ _ hlt (hk.not_stack himage)]
  rfl

/-- What `process_map_memory` leaves in the kernel's pages: the headers
laid over the directory there was. -/
theorem HasDirectory.processMapMemory_kernelPages {imagePages : ℕ} (himage : imagePages ≤ 0x2FB)
    (h : HasDirectory k p.task c) (hp : ProgramLoaded k process p)
    (helf : p.filetype = processFiletypeElf) (hfile : k.elfFiles p.ptr = some file)
    (hphoff : elfPhoff k.store.mem file.elfMemory ≠ 0)
    (hap : HeadersApart c k.store.mem file.elfMemory) :
    ∃ res k', processMapMemory process k = .ok (res, k') ∧
      ∀ page, KernelPage imagePages page → c.entry k'.store.mem page =
        overlays (c.entry k.store.mem) (phdrEntry k.store.mem file)
          (elfPhnum k.store.mem file.elfMemory) page := by
  have hread : readProcess process k = .ok (p, k) :=
    run_readProcess.2 ⟨hp.ne_zero, hp.object, rfl⟩
  obtain ⟨hptr, f, hf, -⟩ := hp.elf helf
  obtain ⟨res, k₁, helf', hout, h₁, -, hlayers⟩ := h.processMapElf_layers hp.ne_zero hp.object hptr
    hfile hphoff hap.phnum (f := c.entry k.store.mem) fun _ _ => rfl
  have hentry : ∀ page, page < 2 ^ 20 → c.entry k₁.store.mem page =
      overlays (c.entry k.store.mem) (phdrEntry k.store.mem file)
        (elfPhnum k.store.mem file.elfMemory) page := fun page hp =>
    (hlayers page hp).trans (overlays_congr fun i hi => hap.headerEntry_eq h.mapped h.ready hi)
  unfold processMapMemory
  by_cases hneg : res < 0
  · refine ⟨res, k₁, Fallible.run_bind.2 ⟨p, k, hread, ?_⟩, fun page hk =>
      hentry page (hk.lt himage)⟩
    rw [if_pos helf]
    exact Fallible.run_bind.2 ⟨res, k₁, helf', by rw [if_pos hneg]; rfl⟩
  · obtain ⟨k₂, hstack, hsame⟩ := h₁.processMapStack_kernelPages himage hp.ne_zero
      (by rw [hout.processes]; exact hp.object) res
    refine ⟨res, k₂, Fallible.run_bind.2 ⟨p, k, hread, ?_⟩, fun page hk =>
      (hsame page hk).trans (hentry page (hk.lt himage))⟩
    rw [if_pos helf]
    exact Fallible.run_bind.2 ⟨res, k₁, helf', by rw [if_neg hneg]; exact hstack⟩

/-- **For which files the kernel keeps its pages.** `process_map_memory`
on the fresh directory of a task leaves the kernel's pages at their own
addresses exactly when the file's headers spare them. -/
theorem processMapMemory_sparesKernel_iff {imagePages : ℕ} (himage : imagePages ≤ 0x2FB)
    (h : HasDirectory k p.task c)
    (hfresh : ∀ page, page < 2 ^ 20 → c.entry k.store.mem page = identityEntry taskPageFlags page)
    (hp : ProgramLoaded k process p) (helf : p.filetype = processFiletypeElf)
    (hfile : k.elfFiles p.ptr = some file) (haccepted : HeaderValid k.store.mem file.elfMemory)
    (hap : HeadersApart c k.store.mem file.elfMemory) :
    (∃ res k', processMapMemory process k = .ok (res, k') ∧
      ∀ page, KernelPage imagePages page → MapsToItself (c.entry k'.store.mem page) page) ↔
      HeadersSpareKernel k.store.mem file imagePages := by
  obtain ⟨res, k₁, hrun, hentry⟩ := h.processMapMemory_kernelPages himage hp helf hfile
    haccepted.2.2.2 hap
  -- page by page, the last header counts
  have hpage : ∀ page, KernelPage imagePages page →
      (MapsToItself (c.entry k₁.store.mem page) page ↔
        ∀ i v, LastAt (phdrEntry k.store.mem file) (elfPhnum k.store.mem file.elfMemory) i page v →
          pagingAlignToLowerPage
              (k.store.mem.load32 (elfPhdrAddress k.store.mem file.elfMemory i + phdrVaddrOffset)) =
            pagingAlignToLowerPage (elfPhdrPhysAddress k.store.mem file
              (elfPhdrAddress k.store.mem file.elfMemory i))) := by
    intro page hk
    have hlt := hk.lt himage
    rw [hentry page hk, overlays_iff (P := fun entry => MapsToItself entry page)
      (by rw [hfresh page hlt]; exact mapsToItself_identityEntry page)]
    refine forall₂_congr fun i v => forall_congr' fun hlast => ?_
    have hv := hlast.2.1
    unfold phdrEntry at hv
    simp only at hv
    by_cases hall : ∀ j ≤ i, PhdrValid k.store.mem file (elfPhdrAddress k.store.mem file.elfMemory j)
    · rw [if_pos hall] at hv
      exact mapsToItself_of_rangeEntry hv hlt (phdrPageFlags_lt _ _) (phdrPageFlags_present _ _)
    · rw [if_neg hall] at hv
      cases hv
  constructor
  · rintro ⟨res', k', hrun', hself⟩ page hk
    rw [hrun] at hrun'
    cases hrun'
    exact (hpage page hk).1 (hself page hk)
  · exact fun hspare => ⟨res, k₁, hrun, fun page hk => (hpage page hk).2 (hspare page hk)⟩

/-! ## Two programs -/

/-- An ELF file of one program header, which has a byte mapped at
`vaddr`. -/
def oneHeaderElf (vaddr : Word) : List Byte :=
  [0x7F, 0x45, 0x4C, 0x46, 1, 1] ++ List.replicate 22 0 ++ [52, 0, 0, 0] ++ List.replicate 12 0 ++
    [1, 0] ++ List.replicate 6 0 ++ [1, 0, 0, 0, 0, 0, 0, 0] ++ Mem.bytes32 vaddr ++
    [0, 0, 0, 0, 0, 0, 0, 0, 1, 0, 0, 0] ++ List.replicate 8 0

/-- The memory with a file in the first block. -/
def memWithFile (bytes : List Byte) : Mem := Mem.store (fun _ => 0) heapAddress bytes

/-- **A task with a file to map**: the file is in the heap's first block. -/
theorem exists_elf_task (bytes : List Byte) : ∃ (k : Kernel) (process : Word) (p : Process)
    (file : ElfFile) (c : ChunkView), HasDirectory k p.task c ∧
      (∀ page, page < 2 ^ 20 →
        c.entry k.store.mem page = identityEntry taskPageFlags page) ∧
      ProgramLoaded k process p ∧ p.filetype = processFiletypeElf ∧
      k.elfFiles p.ptr = some file ∧ file.elfMemory = heapAddress ∧
      k.store.heap.Owns heapAddress 1 ∧ ¬ c.Has heapAddress ∧
      ∀ x, InRange heapAddress 4096 x → k.store.mem x = memWithFile bytes x := by
  have r₀ : (⟨kernelHeapInit, fun _ => 0⟩ : Store).heap.Ready := ready_kernelHeapInit
  have hfirst := kernelZalloc_first (s := ⟨kernelHeapInit, fun _ => 0⟩) 4096 r₀
    (room_kernelHeapInit 0 le_rfl (by decide)) (by decide) (by decide) (by decide) (by decide)
  have haddress : heapBlockToAddress kernelHeapInit (0 : ℕ) = heapAddress := by decide
  rw [haddress] at hfirst
  have hroom₀ : (⟨kernelHeapInit, fun _ => 0⟩ : Store).heap.Room 0 := room_kernelHeapInit
  obtain ⟨base, s₁, hz₁, h0₁, hplace₁, hroom₁⟩ := kernelZalloc_of_room 4096 r₀ hroom₀
    (by decide) (by decide) (by decide)
  obtain rfl : base = heapAddress := by
    rw [hz₁] at hfirst
    exact congrArg Prod.fst (Except.ok.inj hfirst)
  obtain ⟨-, hown₁, -, -⟩ := kernelZalloc_spec r₀ (by decide) (by decide) hz₁ h0₁
  have hcount₁ := kernelZalloc_freeBlocks r₀ (by decide) (by decide) hz₁ h0₁
  have hfree₀ : (⟨kernelHeapInit, fun _ => 0⟩ : Store).heap.freeBlocks = 25600 :=
    freeBlocks_kernelHeapInit
  rw [show blocksFor (4096 : Word).toNat = 1 by decide] at hown₁ hcount₁
  -- the file is read into its block
  have r₁ : ({ s₁ with mem := memWithFile bytes } : Store).heap.Ready := hplace₁.ready r₀
  obtain ⟨process, s₂, hz₂, h0₂, hplace₂, hroom₂⟩ := kernelZalloc_of_room sizeofProcess r₁ hroom₁
    (by decide) (by decide) (by rw [show ({ s₁ with mem := memWithFile bytes } : Store).heap.total =
      kernelHeapInit.total from hplace₁.total]; decide)
  obtain ⟨hext₂, -, -, -⟩ := kernelZalloc_spec r₁ (by decide) (by decide) hz₂ h0₂
  have hcount₂ := kernelZalloc_freeBlocks r₁ (by decide) (by decide) hz₂ h0₂
  have r₂ := hext₂.ready r₁
  obtain ⟨elf, s₃, hz₃, h0₃, hplace₃, -⟩ := kernelZalloc_of_room sizeofElfFile r₂ hroom₂
    (by decide) (by decide) (by rw [hplace₂.total, show ({ s₁ with mem := memWithFile bytes } :
      Store).heap.total = kernelHeapInit.total from hplace₁.total]; decide)
  obtain ⟨hext₃, -, -, -⟩ := kernelZalloc_spec r₂ (by decide) (by decide) hz₃ h0₃
  have hcount₃ := kernelZalloc_freeBlocks r₂ (by decide) (by decide) hz₃ h0₃
  rw [show blocksFor sizeofProcess.toNat = 3 by decide] at hcount₂
  rw [show blocksFor sizeofElfFile.toNat = 1 by decide] at hcount₃
  have hfree : 1027 ≤ s₃.heap.freeBlocks := by
    change s₂.heap.freeBlocks + 3 = s₁.heap.freeBlocks at hcount₂
    omega
  have hext := hext₂.trans hext₃
  have r₃ := hext.ready r₁
  have hp : ProgramLoaded { bootKernel with
      store := s₃
      processes := fun q => if q = process then some { Process.zero with ptr := elf } else none
      elfFiles := fun q => if q = elf then some { ElfFile.zero with elfMemory := heapAddress }
        else none } process { Process.zero with ptr := elf } :=
    ⟨h0₂, if_pos rfl, fun _ => ⟨h0₃, _, if_pos rfl, by decide⟩, Or.inl rfl⟩
  obtain ⟨task, k₁, hnew, -⟩ := taskNew_of_budget budget_freeBlocks (n := 0) r₃ (by omega)
    hp.entryReadable (fun hne => absurd rfl hne) fun hne => absurd rfl hne
  obtain ⟨c, t, hm⟩ := taskNew_spec r₃ (fun hne => absurd rfl hne) hnew
  have hext' := hext.trans hm.store
  have hown₃ := hext.owns _ _ hown₁
  have helf : k₁.elfFiles elf = some { ElfFile.zero with elfMemory := heapAddress } := by
    rw [hm.elfFiles]
    exact if_pos rfl
  refine ⟨k₁.setProcess process (some { Process.zero with ptr := elf, task := task }), process,
    { Process.zero with ptr := elf, task := task }, { ElfFile.zero with elfMemory := heapAddress },
    c, ⟨hm.store.ready r₃, hm.owns.ne_zero (hm.store.ready r₃),
      ⟨t, hm.tasks_self, hm.pageDirectory⟩, hm.mapped⟩, hm.entries, ⟨h0₂,
      setProcess_processes_self, fun _ => ⟨h0₃, _, helf, show heapAddress ≠ 0 by decide⟩,
      Or.inl rfl⟩, rfl, helf, rfl, hext'.owns _ _ hown₁, fun hc => hm.chunk_fresh _ hc 1 hown₃,
    fun x hx => hext'.mem _ _ hown₁ x hx⟩

/-- What the file of `oneHeaderElf` reads as in the first block. -/
def OneHeader (m : Mem) (vaddr : Word) : Prop :=
  HeaderValid m heapAddress ∧ elfPhoff m heapAddress = 52 ∧ elfPhnum m heapAddress = 1 ∧
    m.load32 (heapAddress + 52 + phdrOffsetOffset) = 0 ∧
    m.load32 (heapAddress + 52 + phdrVaddrOffset) = vaddr ∧
    m.load32 (heapAddress + 52 + phdrMemszOffset) = 1 ∧
    m.load32 (heapAddress + 52 + phdrFlagsOffset) = 0

instance {m : Mem} {vaddr : Word} : Decidable (OneHeader m vaddr) :=
  inferInstanceAs (Decidable (_ ∧ _ ∧ _ ∧ _ ∧ _ ∧ _ ∧ _))

/-- A word of a block is read from its bytes. -/
theorem load32_block {base : Word} (hmem : ∀ x, InRange base 4096 x → mem' x = mem x) {o : Word}
    (ho : o.toNat + 4 ≤ 4096) : mem'.load32 (base + o) = mem.load32 (base + o) := by
  refine Mem.load32_congr fun x hx => hmem x ?_
  unfold InRange at hx ⊢
  have := o.isLt
  bv_omega

/-- So is the number of headers. -/
theorem elfPhnum_block {base : Word} (hmem : ∀ x, InRange base 4096 x → mem' x = mem x) :
    elfPhnum mem' base = elfPhnum mem base := by
  refine congrArg BitVec.toNat (Mem.load16_congr fun x hx => hmem x ?_)
  have hoff : elfPhnumOffset = 44 := rfl
  unfold InRange at hx ⊢
  rw [hoff] at hx
  bv_omega

/-- And what the header is checked for. -/
theorem headerValid_block {base : Word} (hmem : ∀ x, InRange base 4096 x → mem' x = mem x) :
    HeaderValid mem' base ↔ HeaderValid mem base := by
  have hbyte : ∀ i < 4096, mem' (base + BitVec.ofNat 32 i) = mem (base + BitVec.ofNat 32 i) := by
    intro i hi
    exact hmem _ ((inRange_add (by omega)).2 hi)
  have hsig : mem'.load base 4 = mem.load base 4 := by
    refine List.map_congr_left fun i hi => hbyte i ?_
    rw [List.mem_range] at hi
    omega
  have hclass : mem' (base + eiClass) = mem (base + eiClass) := hbyte 4 (by decide)
  have hencoding : mem' (base + eiData) = mem (base + eiData) := hbyte 5 (by decide)
  unfold HeaderValid SignatureValid ClassValid EncodingValid elfPhoff
  rw [hsig, hclass, hencoding, load32_block hmem (by decide)]

/-- The block's bytes are all it takes. -/
theorem OneHeader.congr {vaddr : Word} (h : OneHeader mem vaddr)
    (hmem : ∀ x, InRange heapAddress 4096 x → mem' x = mem x) : OneHeader mem' vaddr := by
  have hload : ∀ o : Word, o.toNat + 4 ≤ 4000 →
      mem'.load32 (heapAddress + 52 + o) = mem.load32 (heapAddress + 52 + o) := by
    intro o ho
    rw [BitVec.add_assoc]
    exact load32_block hmem (by bv_omega)
  unfold OneHeader elfPhoff at h ⊢
  rw [headerValid_block hmem, elfPhnum_block hmem, load32_block hmem (by decide), hload _ (by decide),
    hload _ (by decide), hload _ (by decide), hload _ (by decide)]
  exact h

/-- **What the one header maps**: the first block, at its page. -/
theorem OneHeader.phdrEntry_eq {vaddr : Word} (h : OneHeader mem vaddr)
    (hbase : file.elfMemory = heapAddress) (page : ℕ) : phdrEntry mem file 0 page =
      rangeEntry (pagingAlignToLowerPage vaddr) heapAddress (heapAddress + 0x1000)
        (pagingIsPresent ||| pagingAccessFromAll) page := by
  obtain ⟨-, hphoff, -, hoff, hvaddr, hmemsz, hflags⟩ := h
  have hphdr : elfPhdrAddress mem file.elfMemory 0 = heapAddress + 52 := by
    unfold elfPhdrAddress
    rw [hbase, hphoff]
    decide
  have hphys : elfPhdrPhysAddress mem file (heapAddress + 52) = heapAddress := by
    unfold elfPhdrPhysAddress
    rw [hoff, hbase]
    decide
  have hflags' : phdrPageFlags mem (heapAddress + 52) = pagingIsPresent ||| pagingAccessFromAll := by
    unfold phdrPageFlags
    rw [hflags]
    rfl
  have hlow : pagingAlignToLowerPage heapAddress = heapAddress := by decide
  have hend : pagingAlignAddress (heapAddress + 1) = heapAddress + 0x1000 := by decide
  have hvalid : ∀ j ≤ 0, PhdrValid mem file (elfPhdrAddress mem file.elfMemory j) := by
    intro j hj
    obtain rfl := Nat.le_zero.1 hj
    have hmod : (pagingAlignToLowerPage vaddr).toNat % 4096 = 0 := by
      unfold pagingAlignToLowerPage
      have : (vaddr % 4096).toNat = vaddr.toNat % 4096 := BitVec.toNat_umod
      rw [BitVec.toNat_sub, this]
      omega
    unfold PhdrValid
    rw [hphdr, hphys, hvaddr, hmemsz, hlow, hend]
    exact ⟨hmod, by decide, by decide, by decide⟩
  unfold phdrEntry
  simp only
  rw [if_pos hvalid, hphdr, hphys, hvaddr, hmemsz, hflags', hlow, hend]

/-- The header lies outside the task's tables. -/
theorem OneHeader.headersApart {vaddr : Word} (h : OneHeader k.store.mem vaddr)
    (hd : HasDirectory k p.task c) (o : k.store.heap.Owns heapAddress 1)
    (hc : ¬ c.Has heapAddress) : HeadersApart c k.store.mem heapAddress := by
  refine headersApart_of_owns hd.ready hd.mapped o hc fun i hi x hx => ?_
  obtain ⟨-, hphoff, hphnum, -⟩ := h
  rw [hphnum] at hi
  obtain rfl := Nat.lt_one_iff.1 hi
  have hphdr : elfPhdrAddress k.store.mem heapAddress 0 = heapAddress + 52 := by
    unfold elfPhdrAddress
    rw [hphoff]
    decide
  rw [hphdr] at hx
  unfold InRange at hx ⊢
  bv_omega

/-- A program at the address programs are meant to have. -/
theorem processMapMemory_sparesKernel_program : ∃ (k : Kernel) (process : Word) (c : ChunkView)
    (res : ℤ) (k' : Kernel), processMapMemory process k = .ok (res, k') ∧
      ∀ page, KernelPage 13 page → MapsToItself (c.entry k'.store.mem page) page := by
  obtain ⟨k, process, p, file, c, hd, hfresh, hp, helf, hfile, hbase, hown, hc, hmem⟩ :=
    exists_elf_task (oneHeaderElf osProgramVirtualAddress)
  have hone : OneHeader (memWithFile (oneHeaderElf osProgramVirtualAddress))
      osProgramVirtualAddress := by decide
  have hone' := hone.congr hmem
  obtain ⟨res, k', hrun, hself⟩ := (processMapMemory_sparesKernel_iff
    (show 13 ≤ 0x2FB by decide)
    hd hfresh hp helf hfile (hbase ▸ hone'.1) (hbase ▸ hone'.headersApart hd hown hc)).2 (by
      rintro page hk i v ⟨hi, hv, -⟩
      rw [hbase, hone'.2.2.1] at hi
      obtain rfl := Nat.lt_one_iff.1 hi
      rw [hone'.phdrEntry_eq hbase] at hv
      refine absurd hv ?_
      rw [rangeEntry, if_neg]
      · exact Option.some_ne_none v ∘ Eq.symm
      · rintro ⟨-, hin⟩
        have h1 : (pagingAlignToLowerPage osProgramVirtualAddress).toNat / 4096 = 0x400 := by decide
        have h2 : ((heapAddress + 0x1000).toNat - heapAddress.toNat) / 4096 = 1 := by decide
        unfold pageOffset at hin
        rw [h1, h2] at hin
        rw [kernelPage_iff] at hk
        omega)
  exact ⟨k, process, c, res, k', hrun, hself⟩

/-- **The kernel does not always keep its pages**: a header at the page
of the interrupt stack. -/
theorem processMapMemory_not_sparesKernel :
    ¬ ∀ (imagePages : ℕ) (k : Kernel) (process : Word) (p : Process) (file : ElfFile)
      (c : ChunkView), imagePages ≤ 0x2FB → HasDirectory k p.task c →
      (∀ page, page < 2 ^ 20 → c.entry k.store.mem page = identityEntry taskPageFlags page) →
      ProgramLoaded k process p → p.filetype = processFiletypeElf →
      k.elfFiles p.ptr = some file → HeaderValid k.store.mem file.elfMemory →
      HeadersApart c k.store.mem file.elfMemory →
      ∃ res k', processMapMemory process k = .ok (res, k') ∧
        ∀ page, KernelPage imagePages page → MapsToItself (c.entry k'.store.mem page) page := by
  intro hall
  obtain ⟨k, process, p, file, c, hd, hfresh, hp, helf, hfile, hbase, hown, hc, hmem⟩ :=
    exists_elf_task (oneHeaderElf 0x5FF000)
  have hone : OneHeader (memWithFile (oneHeaderElf 0x5FF000)) 0x5FF000 := by decide
  have hone' := hone.congr hmem
  have hap : HeadersApart c k.store.mem file.elfMemory := hbase ▸ hone'.headersApart hd hown hc
  have hpage : KernelPage 13 0x5FF := kernelPage_iff.2 (Or.inr (Or.inl rfl))
  obtain ⟨res, k', hrun, hself⟩ := hall 13 k process p file c (by decide) hd hfresh hp helf hfile
    (hbase ▸ hone'.1) hap
  obtain ⟨res', k₁, hrun', hentry⟩ := hd.processMapMemory_kernelPages
    (show 13 ≤ 0x2FB by decide) hp helf hfile (hbase ▸ hone'.1.2.2.2) hap
  rw [hrun] at hrun'
  cases hrun'
  have hself' := hself 0x5FF hpage
  rw [hentry 0x5FF hpage, hbase, hone'.2.2.1, overlays_succ, hone'.phdrEntry_eq hbase] at hself'
  have hentry' : rangeEntry (pagingAlignToLowerPage 0x5FF000) heapAddress (heapAddress + 0x1000)
      (pagingIsPresent ||| pagingAccessFromAll) 0x5FF =
      some (heapAddress ||| (pagingIsPresent ||| pagingAccessFromAll)) := by decide
  rw [hentry', Option.getD_some] at hself'
  exact absurd hself'.1 (by decide)

end OwnKernel
