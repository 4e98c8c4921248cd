import OwnKernel.Process.KernelPages

/-!
# A program's pages

What an accepted file's headers leave in the task's directory, page by
page: the last header that maps a page says where it goes
(`headerEntry_and_addressMask`), and the stack comes after them all
(`ElfLoaded.processMapMemory_entries`). The end of the file has files of
one segment.
-/

namespace OwnKernel

variable {k k' : Kernel} {c : ChunkView} {process chunk base : Word} {p : Process} {file : ElfFile}
  {v w a e flags offset vaddr filesz memsz : Word} {f : PageMap} {mem mem' : Mem}
  {page i j n : ℕ}

/-- **A process whose file is loaded**: the file is accepted, and is in
`n` blocks of its own. -/
structure ElfLoaded (k : Kernel) (process : Word) (p : Process) (file : ElfFile) (c : ChunkView)
    (n : ℕ) : Prop where
  directory : HasDirectory k p.task c
  ne_zero : process ≠ 0
  object : k.processes process = some p
  ptr : p.ptr ≠ 0
  elfFile : k.elfFiles p.ptr = some file
  accepted : HeaderValid k.store.mem file.elfMemory
  owns : k.store.heap.Owns file.elfMemory n
  apart : ¬ c.Has file.elfMemory

/-! ## The last header on a page -/

/-- `p_memsz`. -/
def phdrMemsz (mem : Mem) (base : Word) (i : ℕ) : Word :=
  mem.load32 (elfPhdrAddress mem base i + phdrMemszOffset)

/-- Where header `i` puts a page of its range. -/
def headerFrame (mem : Mem) (chunk : Word) (file : ElfFile) (i page : ℕ) : Word :=
  let m := headerMem mem chunk file i
  let phdr := elfPhdrAddress mem file.elfMemory i
  pagingAlignToLowerPage (elfPhdrPhysAddress m file phdr) +
    BitVec.ofNat 32
      (4096 * pageOffset (pagingAlignToLowerPage (m.load32 (phdr + phdrVaddrOffset))) page)

/-- A range's entry has the address of its page. -/
theorem rangeEntry_and_addressMask (h : rangeEntry v a e flags page = some w)
    (hflags : flags.toNat < 4096) :
    w &&& pagingAddressMask = a + BitVec.ofNat 32 (4096 * pageOffset v page) := by
  obtain ⟨⟨-, ha, -, -⟩, -, rfl⟩ := rangeEntry_eq_some_iff.1 h
  refine or_flags_and_addressMask ?_ hflags
  rw [BitVec.toNat_add, BitVec.toNat_ofNat]
  omega

/-- **A header's entry has the address of its frame.** -/
theorem headerEntry_and_addressMask (h : headerEntry mem chunk file i page = some w) :
    w &&& pagingAddressMask = headerFrame mem chunk file i page := by
  unfold headerEntry at h
  by_cases hall : ∀ j ≤ i, HeaderMaps mem chunk file j
  · rw [if_pos hall] at h
    exact rangeEntry_and_addressMask h (phdrPageFlags_lt _ _)
  · rw [if_neg hall] at h
    cases h

namespace ElfLoaded

variable (h : ElfLoaded k process p file c n)
include h

theorem phnumApart : PhnumApart c file.elfMemory :=
  phnumApart_of_owns h.directory.ready h.directory.mapped h.owns h.apart

/-- **What `process_map_elf` leaves.** -/
theorem processMapElf_entries : ∃ res k', processMapElf process k = .ok (res, k') ∧
    TablesOnly c k k' ∧ HasDirectory k' p.task c ∧
    res = (if ∀ j < elfPhnum k.store.mem file.elfMemory,
      HeaderMaps k.store.mem c.chunk file j then 0 else -invalidArgumentError) ∧
    ∀ page, page < 2 ^ 20 → c.entry k'.store.mem page =
      overlays (c.entry k.store.mem) (headerEntry k.store.mem c.chunk file)
        (elfPhnum k.store.mem file.elfMemory) page :=
  h.directory.processMapElf_layers h.ne_zero h.object h.ptr h.elfFile h.accepted.2.2.2 h.phnumApart
    fun _ _ => rfl

end ElfLoaded

/-! ## The whole program -/

/-- What the headers map, one after the other, and after them the stack. -/
def programEntry (mem : Mem) (chunk : Word) (p : Process) (file : ElfFile) (i page : ℕ) :
    Option Word :=
  if i < elfPhnum mem file.elfMemory then headerEntry mem chunk file i page
  else rangeEntry osUserProgramVirtualStackAddressEnd p.stack
    (pagingAlignAddress (p.stack + osUserProgramVirtualStackSize)) userWriteableFlags page

/-- The entries of the program's pages. -/
def programMap (c : ChunkView) (mem : Mem) (p : Process) (file : ElfFile) : PageMap :=
  overlays (c.entry mem) (programEntry mem c.chunk p file) (elfPhnum mem file.elfMemory + 1)

/-- The stack is the last layer. -/
theorem programMap_apply (hp : page < 2 ^ 20) : programMap c mem p file page =
    (PageMap.mapTo (overlays (c.entry mem) (headerEntry mem c.chunk file)
      (elfPhnum mem file.elfMemory)) osUserProgramVirtualStackAddressEnd p.stack
      (pagingAlignAddress (p.stack + osUserProgramVirtualStackSize)) userWriteableFlags) page := by
  rw [mapTo_eq_getD _ _ _ _ _ hp, programMap, overlays_succ]
  have hheaders : overlays (c.entry mem) (programEntry mem c.chunk p file)
      (elfPhnum mem file.elfMemory) page =
      overlays (c.entry mem) (headerEntry mem c.chunk file) (elfPhnum mem file.elfMemory) page :=
    overlays_congr fun i hi => if_pos hi
  rw [hheaders, programEntry, if_neg (lt_irrefl _)]

/-- **What `process_map_memory` leaves** of an accepted ELF file when it
succeeds. -/
theorem ElfLoaded.processMapMemory_entries (h : ElfLoaded k process p file c n)
    (helf : p.filetype = processFiletypeElf)
    (hrun : processMapMemory process k = .ok (0, k')) :
    TablesOnly c k k' ∧ HasDirectory k' p.task c ∧
      ∀ page, page < 2 ^ 20 → c.entry k'.store.mem page = programMap c k.store.mem p file page := by
  obtain ⟨res, k₁, hmapelf, hout, h₁, -, hentry⟩ := h.processMapElf_entries
  have hread : readProcess process k = .ok (p, k) :=
    run_readProcess.2 ⟨h.ne_zero, h.object, rfl⟩
  obtain ⟨p', k₀, hread', hrun₁⟩ := Fallible.run_bind.1 hrun
  rw [hread] at hread'
  cases hread'
  rw [if_pos helf] at hrun₁
  obtain ⟨res', k₂, helf', hrun₂⟩ := Fallible.run_bind.1 hrun₁
  rw [hmapelf] at helf'
  cases helf'
  by_cases hneg : res < 0
  · -- an error is handed on
    rw [if_pos hneg] at hrun₂
    obtain ⟨hres, -⟩ := Fallible.run_pure.1 hrun₂
    omega
  · rw [if_neg hneg] at hrun₂
    obtain ⟨k₃, hmap, hout₃, h₃, hentry₃⟩ := h₁.taskMapTo_eq osUserProgramVirtualStackAddressEnd
      p.stack (pagingAlignAddress (p.stack + osUserProgramVirtualStackSize)) userWriteableFlags
      (f := overlays (c.entry k.store.mem) (headerEntry k.store.mem c.chunk file)
        (elfPhnum k.store.mem file.elfMemory)) hentry
    obtain ⟨p', k₀, hread', hrun₃⟩ := Fallible.run_bind.1 hrun₂
    have hobject : k₁.processes process = some p := by
      rw [hout.processes]
      exact h.object
    rw [run_readProcess.2 ⟨h.ne_zero, hobject, rfl⟩] at hread'
    cases hread'
    obtain ⟨ans, k₄, hmap', hret⟩ := Fallible.run_bind.1 hrun₃
    rw [hmap] at hmap'
    cases hmap'
    obtain ⟨-, rfl⟩ := Fallible.run_pure.1 hret
    exact ⟨hout.trans hout₃, h₃, fun page hp => (hentry₃ page hp).trans (programMap_apply hp).symm⟩

/-! ## Programs of one segment -/

/-- What a file of one segment reads as in the first block. -/
def OneSegment (m : Mem) (offset vaddr filesz memsz : Word) : Prop :=
  HeaderValid m heapAddress ∧ elfPhoff m heapAddress = 52 ∧ elfPhnum m heapAddress = 1 ∧
    m.load32 (heapAddress + 52) = ptLoad ∧
    m.load32 (heapAddress + 52 + phdrOffsetOffset) = offset ∧
    m.load32 (heapAddress + 52 + phdrVaddrOffset) = vaddr ∧
    m.load32 (heapAddress + 52 + phdrFileszOffset) = filesz ∧
    m.load32 (heapAddress + 52 + phdrMemszOffset) = memsz ∧
    m.load32 (heapAddress + 52 + phdrFlagsOffset) = 0

instance {m : Mem} : Decidable (OneSegment m offset vaddr filesz memsz) :=
  inferInstanceAs (Decidable (_ ∧ _ ∧ _ ∧ _ ∧ _ ∧ _ ∧ _ ∧ _ ∧ _))

/-- The pages and the memory that the segment asks for. -/
def segmentRange (offset vaddr memsz : Word) (page : ℕ) : Option Word :=
  rangeEntry (pagingAlignToLowerPage vaddr) (pagingAlignToLowerPage (heapAddress + offset))
    (pagingAlignAddress (heapAddress + offset + memsz)) (pagingIsPresent ||| pagingAccessFromAll) page

namespace OneSegment

variable (h : OneSegment mem offset vaddr filesz memsz)
include h

/-- The block's bytes are all it takes. -/
theorem congr (hmem : ∀ x, InRange heapAddress 4096 x → mem' x = mem x) :
    OneSegment mem' offset vaddr filesz memsz := by
  have hload : ∀ o : Word, o.toNat + 4 ≤ 4000 →
      mem'.load32 (heapAddress + 52 + o) = mem.load32 (heapAddress + 52 + o) := by
    intro o ho
    rw [BitVec.add_assoc]
    exact load32_block hmem (by bv_omega)
  unfold OneSegment elfPhoff at h ⊢
  rw [headerValid_block hmem, elfPhnum_block hmem, load32_block hmem (o := elfPhoffOffset) (by decide),
    load32_block hmem (o := 52) (by decide), hload _ (by decide), hload _ (by decide),
    hload _ (by decide), hload _ (by decide), hload _ (by decide)]
  exact h

theorem phnum : elfPhnum mem heapAddress = 1 := h.2.2.1

theorem phdrAddress : elfPhdrAddress mem heapAddress 0 = heapAddress + 52 := by
  unfold elfPhdrAddress
  rw [h.2.1]
  decide

/-- The one header is the segment's. -/
theorem loads_eq : loads mem heapAddress = [0] := by
  have hload : IsLoad mem heapAddress 0 := by
    unfold IsLoad
    rw [h.phdrAddress]
    exact h.2.2.2.1
  unfold loads
  rw [h.phnum, show List.range 1 = [0] from rfl, List.filter_cons, if_pos (decide_eq_true hload),
    List.filter_nil]

theorem phdrOffset_eq : phdrOffset mem heapAddress 0 = offset := by
  unfold phdrOffset
  rw [h.phdrAddress]
  exact h.2.2.2.2.1

theorem phdrVaddr_eq : phdrVaddr mem heapAddress 0 = vaddr := by
  unfold phdrVaddr
  rw [h.phdrAddress]
  exact h.2.2.2.2.2.1

theorem phdrFilesz_eq : phdrFilesz mem heapAddress 0 = filesz := by
  unfold phdrFilesz
  rw [h.phdrAddress]
  exact h.2.2.2.2.2.2.1

theorem phdrMemsz_eq : phdrMemsz mem heapAddress 0 = memsz := by
  unfold phdrMemsz
  rw [h.phdrAddress]
  exact h.2.2.2.2.2.2.2.1

theorem phdrPhysAddress_eq (hbase : file.elfMemory = heapAddress) :
    elfPhdrPhysAddress mem file (heapAddress + 52) = heapAddress + offset := by
  unfold elfPhdrPhysAddress
  rw [hbase, h.2.2.2.2.1]

/-- The header has a valid range when the segment does. -/
theorem headerMaps (hbase : file.elfMemory = heapAddress)
    (hvalid : ValidRange (pagingAlignToLowerPage vaddr) (pagingAlignToLowerPage (heapAddress + offset))
      (pagingAlignAddress (heapAddress + offset + memsz))) :
    ∀ j < elfPhnum mem file.elfMemory, HeaderMaps mem chunk file j := by
  intro j hj
  rw [hbase, h.phnum] at hj
  obtain rfl := Nat.lt_one_iff.1 hj
  unfold HeaderMaps PhdrValid headerMem
  rw [hbase, h.phdrAddress, h.phdrPhysAddress_eq hbase, h.2.2.2.2.2.1, h.2.2.2.2.2.2.2.1]
  exact hvalid

/-- **What it maps.** -/
theorem headerEntry_eq (hbase : file.elfMemory = heapAddress)
    (hvalid : ValidRange (pagingAlignToLowerPage vaddr) (pagingAlignToLowerPage (heapAddress + offset))
      (pagingAlignAddress (heapAddress + offset + memsz))) :
    headerEntry mem chunk file 0 page = segmentRange offset vaddr memsz page := by
  have hmaps : ∀ j < elfPhnum mem file.elfMemory, HeaderMaps mem chunk file j :=
    h.headerMaps hbase hvalid
  rw [hbase, h.phnum] at hmaps
  have hflags : phdrPageFlags mem (heapAddress + 52) = pagingIsPresent ||| pagingAccessFromAll := by
    unfold phdrPageFlags
    rw [h.2.2.2.2.2.2.2.2]
    rfl
  unfold headerEntry phdrRange headerMem segmentRange
  rw [if_pos fun j hj => hmaps j (Nat.lt_succ_of_le hj), hbase, h.phdrAddress,
    h.phdrPhysAddress_eq hbase, h.2.2.2.2.2.1, h.2.2.2.2.2.2.2.1, hflags]

theorem headerFrame_eq (hbase : file.elfMemory = heapAddress) :
    headerFrame mem chunk file 0 page = pagingAlignToLowerPage (heapAddress + offset) +
      BitVec.ofNat 32 (4096 * pageOffset (pagingAlignToLowerPage vaddr) page) := by
  unfold headerFrame headerMem
  simp only
  rw [hbase, h.phdrAddress, h.phdrPhysAddress_eq hbase, h.2.2.2.2.2.1]

end OneSegment

/-- **A process with a file of one segment**, in the first block. -/
structure SegmentLoaded (k : Kernel) (process : Word) (p : Process) (file : ElfFile) (c : ChunkView)
    (bytes : List Byte) (offset vaddr filesz memsz : Word) : Prop where
  loaded : ElfLoaded k process p file c 1
  filetype : p.filetype = processFiletypeElf
  base : file.elfMemory = heapAddress
  segment : OneSegment k.store.mem offset vaddr filesz memsz
  fresh : ∀ page, page < 2 ^ 20 → c.entry k.store.mem page = identityEntry taskPageFlags page
  block : ∀ x, InRange heapAddress 4096 x → k.store.mem x = memWithFile bytes x
  valid : ValidRange (pagingAlignToLowerPage vaddr) (pagingAlignToLowerPage (heapAddress + offset))
    (pagingAlignAddress (heapAddress + offset + memsz))

theorem exists_segmentLoaded (bytes : List Byte)
    (h : OneSegment (memWithFile bytes) offset vaddr filesz memsz)
    (hvalid : ValidRange (pagingAlignToLowerPage vaddr) (pagingAlignToLowerPage (heapAddress + offset))
      (pagingAlignAddress (heapAddress + offset + memsz))) :
    ∃ (k : Kernel) (process : Word) (p : Process) (file : ElfFile) (c : ChunkView),
      SegmentLoaded k process p file c bytes offset vaddr filesz memsz := by
  obtain ⟨k, process, p, file, c, hd, hfresh, hp, helf, hfile, hbase, hown, hc, hmem⟩ :=
    exists_elf_task bytes
  have hone := h.congr hmem
  refine ⟨k, process, p, file, c, ⟨hd, hp.ne_zero, hp.object, (hp.elf helf).1, hfile, ?_, ?_, ?_⟩,
    helf, hbase, hone, hfresh, hmem, hvalid⟩
  · rw [hbase]
    exact hone.1
  · rw [hbase]
    exact hown
  · rw [hbase]
    exact hc

namespace SegmentLoaded

variable {bytes : List Byte} (h : SegmentLoaded k process p file c bytes offset vaddr filesz memsz)
include h

/-- Its headers are laid over the directory as its one segment is. -/
theorem overlays_headers : overlays f (headerEntry k.store.mem c.chunk file)
    (elfPhnum k.store.mem file.elfMemory) page =
      (segmentRange offset vaddr memsz page).getD (f page) := by
  rw [h.base, h.segment.phnum, overlays_succ, h.segment.headerEntry_eq h.base h.valid]
  rfl

/-- **`process_map_elf` maps it.** -/
theorem processMapElf_run : ∃ k', processMapElf process k = .ok (0, k') ∧
    HasDirectory k' p.task c ∧ ∀ page, page < 2 ^ 20 → c.entry k'.store.mem page =
      (segmentRange offset vaddr memsz page).getD (c.entry k.store.mem page) := by
  obtain ⟨res, k', hrun, -, h', hres, hentry⟩ := h.loaded.processMapElf_entries
  rw [if_pos (h.segment.headerMaps h.base h.valid)] at hres
  subst hres
  exact ⟨k', hrun, h', fun page hp => (hentry page hp).trans h.overlays_headers⟩

/-- So does `process_map_memory`; the stack takes none of its pages. -/
theorem processMapMemory_run : ∃ k', processMapMemory process k = .ok (0, k') ∧
    TablesOnly c k k' ∧ HasDirectory k' p.task c ∧
      ∀ page, page < 2 ^ 20 → 0x3FF ≤ page → c.entry k'.store.mem page =
        (segmentRange offset vaddr memsz page).getD (c.entry k.store.mem page) := by
  obtain ⟨res, k₁, hmapelf, hout, h₁, hres, -⟩ := h.loaded.processMapElf_entries
  rw [if_pos (h.segment.headerMaps h.base h.valid)] at hres
  subst hres
  have hobject : k₁.processes process = some p := by
    rw [hout.processes]
    exact h.loaded.object
  have hfiles : k₁.elfFiles p.ptr = some file := by
    rw [hout.elfFiles]
    exact h.loaded.elfFile
  have hne : file.elfMemory ≠ 0 := by
    rw [h.base]
    decide
  obtain ⟨k₂, hstack, -, -⟩ := h₁.processMapStack_total
    (⟨h.loaded.ne_zero, hobject, fun _ => ⟨h.loaded.ptr, file, hfiles, hne⟩, Or.inl h.filetype⟩) 0
  have hrun : processMapMemory process k = .ok (0, k₂) := by
    refine Fallible.run_bind.2 ⟨p, k, run_readProcess.2 ⟨h.loaded.ne_zero, h.loaded.object, rfl⟩, ?_⟩
    rw [if_pos h.filetype]
    exact Fallible.run_bind.2 ⟨0, k₁, hmapelf, by rw [if_neg (lt_irrefl _)]; exact hstack⟩
  obtain ⟨hout₂, h₂, hentry⟩ := h.loaded.processMapMemory_entries h.filetype hrun
  refine ⟨k₂, hrun, hout₂, h₂, fun page hp hpage => ?_⟩
  rw [hentry page hp, programMap_apply hp, mapTo_eq_getD _ _ _ _ _ hp,
    rangeEntry_stack _ _ hp (Or.inr hpage), Option.getD_none, h.overlays_headers]

end SegmentLoaded

end OwnKernel
