import OwnKernel.Process.Segments
import OwnKernel.Task.CopyString

/-!
# Where a program's segments are

What an accepted ELF file may rely on once it is mapped: which files keep
to their own blocks (`processMapElf_confined_iff`), which find their
segments where they are linked (`processMapElf_translates_iff`), and
which find the rest of a segment zero (`processMapMemory_bssZero_iff`).
-/

namespace OwnKernel

variable {k k' : Kernel} {c : ChunkView} {process chunk base : Word} {p : Process} {file : ElfFile}
  {v w a : Word} {f : PageMap} {mem : Mem} {page i n : ℕ}

/-! ## Confinement -/

/-- **The pages whose entries changed are pages of the file's blocks.** -/
def Confined (c : ChunkView) (m m' : Mem) (base : Word) (n : ℕ) : Prop :=
  ∀ page, page < 2 ^ 20 → c.entry m' page ≠ c.entry m page →
    ∀ x, InRange (c.entry m' page &&& pagingAddressMask) 4096 x → InRange base (4096 * n) x

/-- **The headers keep to the file**: the last header that maps a page,
if the entry is not what it was, has a page of the file's blocks there. -/
def HeadersInBlocks (c : ChunkView) (mem : Mem) (file : ElfFile) (n : ℕ) : Prop :=
  ∀ page, page < 2 ^ 20 → ∀ i w,
    LastAt (headerEntry mem c.chunk file) (elfPhnum mem file.elfMemory) i page w →
      w ≠ c.entry mem page →
        ∀ x, InRange (headerFrame mem c.chunk file i page) 4096 x → InRange file.elfMemory (4096 * n) x

/-- **For which files `process_map_elf` gives out the file's own blocks
only.** -/
theorem processMapElf_confined_iff (h : ElfLoaded k process p file c n) :
    (∃ res k', processMapElf process k = .ok (res, k') ∧
      Confined c k.store.mem k'.store.mem file.elfMemory n) ↔
      HeadersInBlocks c k.store.mem file n := by
  obtain ⟨res, k₁, hrun, -, -, -, hentry⟩ := h.processMapElf_entries
  have hconfined : Confined c k.store.mem k₁.store.mem file.elfMemory n ↔
      HeadersInBlocks c k.store.mem file n := by
    refine forall₂_congr fun page hp => ?_
    rw [hentry page hp, overlays_iff (P := fun entry => entry ≠ c.entry k.store.mem page →
      ∀ x, InRange (entry &&& pagingAddressMask) 4096 x → InRange file.elfMemory (4096 * n) x)
      fun hne => absurd rfl hne]
    refine forall₂_congr fun i w => forall_congr' fun hlast => ?_
    rw [headerEntry_and_addressMask hlast.2.1]
  rw [← hconfined]
  constructor
  · rintro ⟨res', k', hrun', hc⟩
    rw [hrun] at hrun'
    cases hrun'
    exact hc
  · exact fun hc => ⟨res, k₁, hrun, hc⟩

/-- A program of one byte gets its own block. -/
theorem processMapElf_confined_oneByte : ∃ (k : Kernel) (process : Word) (p : Process)
    (file : ElfFile) (c : ChunkView), ElfLoaded k process p file c 1 ∧
      ∃ res k', processMapElf process k = .ok (res, k') ∧
        Confined c k.store.mem k'.store.mem file.elfMemory 1 := by
  have hone : OneSegment (memWithFile (elfImage [loadPhdr 0 0x400000 1 1 0])) 0 0x400000 1 1 := by
    decide +kernel
  obtain ⟨k, process, p, file, c, h⟩ := exists_segmentLoaded _ hone (by decide)
  refine ⟨k, process, p, file, c, h.loaded, (processMapElf_confined_iff h.loaded).2 ?_⟩
  rintro page - i w ⟨hi, hw, -⟩ - x hx
  rw [h.base, h.segment.phnum] at hi
  obtain rfl := Nat.lt_one_iff.1 hi
  rw [h.segment.headerEntry_eq h.base h.valid] at hw
  -- the range is of one page
  have hoff : pageOffset (pagingAlignToLowerPage 0x400000) page < 1 :=
    (rangeEntry_eq_some_iff.1 hw).2.1
  rw [h.segment.headerFrame_eq h.base, Nat.lt_one_iff.1 hoff] at hx
  rw [h.base]
  exact hx

/-- **A segment may name more memory than the file has**: two pages of
memory in a file of one block. -/
theorem processMapElf_not_confined :
    ¬ ∀ (k : Kernel) (process : Word) (p : Process) (file : ElfFile) (c : ChunkView) (n : ℕ),
      ElfLoaded k process p file c n → ∃ res k', processMapElf process k = .ok (res, k') ∧
        Confined c k.store.mem k'.store.mem file.elfMemory n := by
  intro hall
  have hone : OneSegment (memWithFile (elfImage [loadPhdr 0 0x400000 1 0x2000 0])) 0 0x400000 1
      0x2000 := by
    decide +kernel
  obtain ⟨k, process, p, file, c, h⟩ := exists_segmentLoaded _ hone (by decide)
  obtain ⟨res, k', hrun, hconfined⟩ := hall k process p file c 1 h.loaded
  obtain ⟨k₁, hrun', -, hentry⟩ := h.processMapElf_run
  rw [hrun] at hrun'
  cases hrun'
  have hpage := hconfined 0x401 (by decide)
  have hrange : segmentRange 0 0x400000 0x2000 0x401 =
      some (0x1001000 ||| (pagingIsPresent ||| pagingAccessFromAll)) := by decide
  rw [hentry 0x401 (by decide), hrange, Option.getD_some, h.fresh 0x401 (by decide), h.base] at hpage
  exact absurd (hpage (by decide) 0x1001000 (by decide)) (by decide)

/-! ## Translation -/

/-- A frame and an offset are an address when they are its own. -/
theorem frame_add_mod_eq_iff {t : Word} (ha : a.toNat % 4096 = 0) :
    a + v % 4096 = t ↔ a = pagingAlignToLowerPage t ∧ v % 4096 = t % 4096 := by
  have hv : (v % 4096).toNat = v.toNat % 4096 := BitVec.toNat_umod
  have ht : (t % 4096).toNat = t.toNat % 4096 := BitVec.toNat_umod
  have hat := a.isLt
  have htt := t.isLt
  have hsum : (a + v % 4096).toNat = a.toNat + v.toNat % 4096 := by
    rw [BitVec.toNat_add, hv]
    omega
  have hlow : (pagingAlignToLowerPage t).toNat = t.toNat / 4096 * 4096 := by
    unfold pagingAlignToLowerPage
    rw [BitVec.toNat_sub, ht]
    omega
  constructor
  · rintro rfl
    constructor <;> apply BitVec.eq_of_toNat_eq
    · rw [hlow, hsum]
      omega
    · rw [ht, hv, hsum]
      omega
  · rintro ⟨h1, h2⟩
    apply BitVec.eq_of_toNat_eq
    have h1' := congrArg BitVec.toNat h1
    have h2' := congrArg BitVec.toNat h2
    rw [hlow] at h1'
    rw [hv, ht] at h2'
    rw [hsum]
    omega

/-- Adding the same on both sides of a congruence. -/
theorem add_mod_page_iff (o : Word) : (v + o) % 4096 = (w + o) % 4096 ↔ v % 4096 = w % 4096 := by
  have hmod : ∀ x : Word, (x % 4096).toNat = x.toNat % 4096 := fun x => BitVec.toNat_umod
  have hadd : ∀ x : Word, ((x + o) % 4096).toNat = (x.toNat + o.toNat) % 4096 := by
    intro x
    rw [hmod, BitVec.toNat_add]
    omega
  constructor
  · intro h
    have h' := congrArg BitVec.toNat h
    rw [hadd, hadd] at h'
    apply BitVec.eq_of_toNat_eq
    rw [hmod, hmod]
    omega
  · intro h
    have h' := congrArg BitVec.toNat h
    rw [hmod, hmod] at h'
    apply BitVec.eq_of_toNat_eq
    rw [hadd, hadd]
    omega

/-- **The bytes of the segments are where they are linked**: `p_vaddr + o`
translates to the file's byte `p_offset + o`. -/
def SegmentsTranslate (mem m' : Mem) (chunk base : Word) : Prop :=
  ∀ i ∈ loads mem base, ∀ o < (phdrFilesz mem base i).toNat,
    pagingGetPhysicalAddress m' (m'.load32 chunk) (phdrVaddr mem base i + BitVec.ofNat 32 o) =
      base + phdrOffset mem base i + BitVec.ofNat 32 o

/-- The last header that maps the page of `v` maps it to the page of
`target`; without one, that is where it was. -/
def Places (c : ChunkView) (mem : Mem) (file : ElfFile) (v target : Word) : Prop :=
  (∀ j w, LastAt (headerEntry mem c.chunk file) (elfPhnum mem file.elfMemory) j (v.toNat / 4096) w →
      headerFrame mem c.chunk file j (v.toNat / 4096) = pagingAlignToLowerPage target) ∧
    ((∀ j < elfPhnum mem file.elfMemory, headerEntry mem c.chunk file j (v.toNat / 4096) = none) →
      c.entry mem (v.toNat / 4096) &&& pagingAddressMask = pagingAlignToLowerPage target)

/-- **The headers place the segments**: `p_vaddr` and the segment's place
in memory agree modulo the page size, and each byte's page is mapped to
the file's page that the byte is in. -/
def SegmentsPlaced (c : ChunkView) (mem : Mem) (file : ElfFile) : Prop :=
  ∀ i ∈ loads mem file.elfMemory, ∀ o < (phdrFilesz mem file.elfMemory i).toNat,
    phdrVaddr mem file.elfMemory i % 4096 =
        (file.elfMemory + phdrOffset mem file.elfMemory i) % 4096 ∧
      Places c mem file (phdrVaddr mem file.elfMemory i + BitVec.ofNat 32 o)
        (file.elfMemory + phdrOffset mem file.elfMemory i + BitVec.ofNat 32 o)

/-- **For which files the segments are where they are linked.** -/
theorem processMapElf_translates_iff (h : ElfLoaded k process p file c n)
    (hrun : processMapElf process k = .ok (0, k')) :
    SegmentsTranslate k.store.mem k'.store.mem c.chunk file.elfMemory ↔
      SegmentsPlaced c k.store.mem file := by
  obtain ⟨res, k₁, hrun', -, h₁, -, hentry⟩ := h.processMapElf_entries
  rw [hrun] at hrun'
  cases hrun'
  refine forall₂_congr fun i hi => forall₂_congr fun o ho => ?_
  have hmask : ∀ x : Word, (x &&& pagingAddressMask).toNat % 4096 = 0 := by
    intro x
    rw [toNat_and_addressMask]
    exact Nat.mul_mod_left _ _
  rw [h₁.mapped.directory_eq, h₁.mapped.pagingGetPhysicalAddress_eq, ChunkView.physical,
    frame_add_mod_eq_iff (hmask _), add_mod_page_iff, hentry _ (ChunkView.At.page_lt _), and_comm]
  refine and_congr_right fun _ => ?_
  rw [overlays_iff_cases (P := fun entry => entry &&& pagingAddressMask = pagingAlignToLowerPage _)]
  refine and_congr_left fun _ => forall₂_congr fun j w => forall_congr' fun hlast => ?_
  rw [headerEntry_and_addressMask hlast.2.1]

/-! ### Two programs -/

/-- The segments lie in a file of `size` bytes. -/
def LoadsInFile (mem : Mem) (base : Word) (size : ℕ) : Prop :=
  ∀ i ∈ loads mem base, LoadInFile mem base size i

/-- Their addresses are their own. -/
def LoadsDisjoint (mem : Mem) (base : Word) : Prop :=
  ∀ i ∈ loads mem base, ∀ j ∈ loads mem base, i ≠ j →
    (phdrVaddr mem base i).toNat + (phdrMemsz mem base i).toNat ≤ (phdrVaddr mem base j).toNat ∨
      (phdrVaddr mem base j).toNat + (phdrMemsz mem base j).toNat ≤ (phdrVaddr mem base i).toNat

namespace SegmentLoaded

variable {bytes : List Byte} {offset vaddr filesz memsz : Word}
  (h : SegmentLoaded k process p file c bytes offset vaddr filesz memsz)
include h

/-- The one segment is where it says. -/
theorem loadsInFile {size : ℕ} (hoffset : 0 ≤ offset.toInt)
    (hsize : offset.toInt + filesz.toNat ≤ size) :
    LoadsInFile k.store.mem file.elfMemory size := by
  intro i hi
  rw [h.base, h.segment.loads_eq, List.mem_singleton] at hi
  subst hi
  have hin : 0 ≤ (phdrOffset k.store.mem file.elfMemory 0).toInt ∧
      (phdrOffset k.store.mem file.elfMemory 0).toInt +
        (phdrFilesz k.store.mem file.elfMemory 0).toNat ≤ size := by
    rw [h.base, h.segment.phdrOffset_eq, h.segment.phdrFilesz_eq]
    exact ⟨hoffset, hsize⟩
  exact hin

/-- And is alone. -/
theorem mem_loads_iff : i ∈ loads k.store.mem file.elfMemory ↔ i = 0 := by
  rw [h.base, h.segment.loads_eq, List.mem_singleton]

theorem loadsDisjoint : LoadsDisjoint k.store.mem file.elfMemory := fun _ hi _ hj hne =>
  absurd ((h.mem_loads_iff.1 hi).trans (h.mem_loads_iff.1 hj).symm) hne

end SegmentLoaded

/-- A program whose segment is at the start of a page, in the file and in
memory. -/
theorem processMapElf_translates_start : ∃ (k : Kernel) (process : Word) (file : ElfFile)
    (c : ChunkView) (k' : Kernel), processMapElf process k = .ok (0, k') ∧
      loads k.store.mem file.elfMemory = [0] ∧
      SegmentsTranslate k.store.mem k'.store.mem c.chunk file.elfMemory := by
  have hone : OneSegment (memWithFile (elfImage [loadPhdr 0 0x400000 1 1 0])) 0 0x400000 1 1 := by
    decide +kernel
  obtain ⟨k, process, p, file, c, h⟩ := exists_segmentLoaded _ hone (by decide)
  obtain ⟨k', hrun, -⟩ := h.processMapElf_run
  refine ⟨k, process, file, c, k', hrun, by rw [h.base, h.segment.loads_eq],
    (processMapElf_translates_iff h.loaded hrun).2 fun i hi o ho => ?_⟩
  obtain rfl := h.mem_loads_iff.1 hi
  rw [h.base, h.segment.phdrFilesz_eq] at ho
  obtain rfl := Nat.lt_one_iff.1 ho
  rw [h.base, h.segment.phdrVaddr_eq, h.segment.phdrOffset_eq]
  refine ⟨by decide, fun j w hlast => ?_, fun hnone => ?_⟩
  · obtain ⟨hj, -⟩ := hlast
    rw [h.base, h.segment.phnum] at hj
    obtain rfl := Nat.lt_one_iff.1 hj
    rw [h.segment.headerFrame_eq h.base]
    decide
  · -- the header maps the page
    have hzero := hnone 0 (by rw [h.base, h.segment.phnum]; exact Nat.zero_lt_one)
    rw [h.segment.headerEntry_eq h.base h.valid] at hzero
    exact absurd hzero (by decide)

/-- **A segment in the middle of a page**: its first byte, the fifth of
the file, is looked for where the file's first byte is. -/
theorem processMapElf_not_translates :
    ¬ ∀ (k : Kernel) (process : Word) (p : Process) (file : ElfFile) (c : ChunkView) (n size : ℕ)
      (k' : Kernel), ElfLoaded k process p file c n → size ≤ 4096 * n →
      LoadsInFile k.store.mem file.elfMemory size → LoadsDisjoint k.store.mem file.elfMemory →
      processMapElf process k = .ok (0, k') →
      SegmentsTranslate k.store.mem k'.store.mem c.chunk file.elfMemory := by
  intro hall
  have hone : OneSegment (memWithFile (elfImage [loadPhdr 4 0x400000 1 1 0])) 4 0x400000 1 1 := by
    decide +kernel
  obtain ⟨k, process, p, file, c, h⟩ := exists_segmentLoaded _ hone (by decide)
  obtain ⟨k', hrun, h', hentry⟩ := h.processMapElf_run
  have htranslate := hall k process p file c 1 84 k' h.loaded (by decide)
    (h.loadsInFile (by decide) (by decide)) h.loadsDisjoint hrun 0 (h.mem_loads_iff.2 rfl) 0
    (by rw [h.base, h.segment.phdrFilesz_eq]; decide)
  have hrange : segmentRange 4 0x400000 1 0x400 =
      some (heapAddress ||| (pagingIsPresent ||| pagingAccessFromAll)) := by decide
  rw [h.base, h.segment.phdrVaddr_eq, h.segment.phdrOffset_eq, h'.mapped.directory_eq,
    h'.mapped.pagingGetPhysicalAddress_eq, ChunkView.physical,
    show (0x400000 + BitVec.ofNat 32 0 : Word).toNat / 4096 = 0x400 by decide,
    hentry 0x400 (by decide), hrange, Option.getD_some] at htranslate
  exact absurd htranslate (by decide)

/-! ## The rest of a segment -/

/-- Every byte of the tables is one of an entry. -/
theorem ChunkView.InTables.exists_slot {s : Store} {x : Word} (hat : c.At s) (r : s.heap.Ready)
    (hx : c.InTables x) : ∃ page, page < 2 ^ 20 ∧ InRange (c.slot page) 4 x := by
  obtain ⟨i, hi, hin⟩ := hx
  have hal := (hat.owns _ (c.has_table hi)).aligned r
  unfold InRange at hin
  have hlt : (x - c.table i).toNat / 4 < 1024 := by omega
  refine ⟨1024 * i + (x - c.table i).toNat / 4, by omega, ?_⟩
  have hdiv : (1024 * i + (x - c.table i).toNat / 4) / 1024 = i := by omega
  have hmod : (1024 * i + (x - c.table i).toNat / 4) % 1024 = (x - c.table i).toNat / 4 := by omega
  have hslot := toNat_entryAddress hal hlt
  unfold ChunkView.slot InRange
  rw [hdiv, hmod]
  generalize entryAddress (c.table i) ((x - c.table i).toNat / 4) = q at hslot ⊢
  bv_omega

/-- **The byte at `x` is zero with `f` in the tables**: it is not one of
the tables' and was zero, or it is one of a zero byte of `f`'s entries. -/
def ZeroWith (c : ChunkView) (mem : Mem) (f : PageMap) (x : Word) : Prop :=
  (¬ c.InTables x → mem x = 0) ∧ ∀ page, page < 2 ^ 20 → InRange (c.slot page) 4 x →
    (Mem.bytes32 (f page)).getD (x - c.slot page).toNat 0 = 0

/-- Where memory has changed in the tables only it says what is zero. -/
theorem zeroWith_iff {s : Store} (hat : c.At s) (r : s.heap.Ready)
    (hout : ∀ x, ¬ c.InTables x → s.mem x = mem x)
    (hf : ∀ page, page < 2 ^ 20 → c.entry s.mem page = f page) (x : Word) :
    s.mem x = 0 ↔ ZeroWith c mem f x := by
  have hbyte : ∀ page, page < 2 ^ 20 → InRange (c.slot page) 4 x →
      (Mem.bytes32 (f page)).getD (x - c.slot page).toNat 0 = s.mem x := by
    intro page hp hx
    rw [← hf page hp]
    exact Mem.bytes32_load32 hx
  constructor
  · intro h0
    exact ⟨fun hx => (hout x hx).symm.trans h0, fun page hp hx => (hbyte page hp hx).trans h0⟩
  · rintro ⟨h1, h2⟩
    by_cases hx : c.InTables x
    · obtain ⟨page, hp, hslot⟩ := hx.exists_slot hat r
      exact (hbyte page hp hslot).symm.trans (h2 page hp hslot)
    · exact (hout x hx).trans (h1 hx)

/-- **The rest of each segment reads as zero**: `p_vaddr + o` from
`p_filesz` up to `p_memsz`. -/
def BssZero (mem m' : Mem) (chunk base : Word) : Prop :=
  ∀ i ∈ loads mem base, ∀ o, (phdrFilesz mem base i).toNat ≤ o → o < (phdrMemsz mem base i).toNat →
    m' (pagingGetPhysicalAddress m' (m'.load32 chunk)
      (phdrVaddr mem base i + BitVec.ofNat 32 o)) = 0

/-- The last of the headers and the stack that maps the page of `v` maps
it to one where the byte is zero; without one, it was there before. -/
def MapsToZero (c : ChunkView) (mem : Mem) (p : Process) (file : ElfFile) (v : Word) : Prop :=
  (∀ j w, LastAt (programEntry mem c.chunk p file) (elfPhnum mem file.elfMemory + 1) j
      (v.toNat / 4096) w →
    ZeroWith c mem (programMap c mem p file) ((w &&& pagingAddressMask) + v % 4096)) ∧
  ((∀ j < elfPhnum mem file.elfMemory + 1,
      programEntry mem c.chunk p file j (v.toNat / 4096) = none) →
    ZeroWith c mem (programMap c mem p file)
      ((c.entry mem (v.toNat / 4096) &&& pagingAddressMask) + v % 4096))

/-- **What is mapped there is zero.** -/
def BssMappedZero (c : ChunkView) (mem : Mem) (p : Process) (file : ElfFile) : Prop :=
  ∀ i ∈ loads mem file.elfMemory, ∀ o, (phdrFilesz mem file.elfMemory i).toNat ≤ o →
    o < (phdrMemsz mem file.elfMemory i).toNat →
      MapsToZero c mem p file (phdrVaddr mem file.elfMemory i + BitVec.ofNat 32 o)

/-- **For which files the rest of the segments is zero.** -/
theorem processMapMemory_bssZero_iff (h : ElfLoaded k process p file c n)
    (helf : p.filetype = processFiletypeElf)
    (hrun : processMapMemory process k = .ok (0, k')) :
    BssZero k.store.mem k'.store.mem c.chunk file.elfMemory ↔
      BssMappedZero c k.store.mem p file := by
  obtain ⟨hout, h', hentry⟩ := h.processMapMemory_entries helf hrun
  refine forall₂_congr fun i hi => forall₂_congr fun o hfilesz => forall_congr' fun hmemsz => ?_
  rw [h'.mapped.directory_eq, h'.mapped.pagingGetPhysicalAddress_eq,
    zeroWith_iff h'.mapped h'.ready hout.out hentry, ChunkView.physical,
    hentry _ (ChunkView.At.page_lt _)]
  exact overlays_iff_cases (P := fun entry => ZeroWith c k.store.mem
    (programMap c k.store.mem p file) ((entry &&& pagingAddressMask) + _ % 4096))

/-! ### Two programs -/

/-- The segments agree with the file modulo the page size. -/
def LoadsCongruent (mem : Mem) (base : Word) : Prop :=
  ∀ i ∈ loads mem base, phdrVaddr mem base i % 4096 = phdrOffset mem base i % 4096

/-- Their pages are their own. -/
def LoadsPagesDisjoint (mem : Mem) (base : Word) : Prop :=
  ∀ i ∈ loads mem base, ∀ j ∈ loads mem base, i ≠ j →
    ((phdrVaddr mem base i).toNat + (phdrMemsz mem base i).toNat + 4095) / 4096 ≤
        (phdrVaddr mem base j).toNat / 4096 ∨
      ((phdrVaddr mem base j).toNat + (phdrMemsz mem base j).toNat + 4095) / 4096 ≤
        (phdrVaddr mem base i).toNat / 4096

/-- A byte apart from the tables is what it was. -/
theorem zeroWith_of_not_inTables {s : Store} {x : Word} (hat : c.At s) (r : s.heap.Ready)
    (hx : ¬ c.InTables x) (h0 : mem x = 0) : ZeroWith c mem f x := by
  refine ⟨fun _ => h0, fun page hp hslot => absurd ?_ hx⟩
  have hi : page / 1024 < 1024 := by omega
  exact ⟨page / 1024, hi, inRange_of_entry ((hat.owns _ (c.has_table hi)).aligned r)
    (Nat.mod_lt _ (by decide)) hslot⟩

/-- A program whose segment ends where the file does. -/
theorem processMapMemory_bssZero_end : ∃ (k : Kernel) (process : Word) (file : ElfFile)
    (c : ChunkView) (k' : Kernel), processMapMemory process k = .ok (0, k') ∧
      loads k.store.mem file.elfMemory = [0] ∧
      BssZero k.store.mem k'.store.mem c.chunk file.elfMemory := by
  have hone : OneSegment (memWithFile (elfImage [loadPhdr 83 0x400053 1 2 0])) 83 0x400053 1 2 := by
    decide +kernel
  obtain ⟨k, process, p, file, c, h⟩ := exists_segmentLoaded _ hone (by decide)
  obtain ⟨k', hrun, -⟩ := h.processMapMemory_run
  refine ⟨k, process, file, c, k', hrun, by rw [h.base, h.segment.loads_eq],
    (processMapMemory_bssZero_iff h.loaded h.filetype hrun).2 fun i hi o hfilesz hmemsz => ?_⟩
  obtain rfl := h.mem_loads_iff.1 hi
  rw [h.base, h.segment.phdrFilesz_eq] at hfilesz
  rw [h.base, h.segment.phdrMemsz_eq] at hmemsz
  obtain rfl : o = 1 := Nat.le_antisymm (Nat.le_of_lt_succ hmemsz) hfilesz
  rw [h.base, h.segment.phdrVaddr_eq]
  have hpage : (0x400053 + BitVec.ofNat 32 1 : Word).toNat / 4096 = 0x400 := by decide
  have hrange : segmentRange 83 0x400053 2 0x400 =
      some (heapAddress ||| (pagingIsPresent ||| pagingAccessFromAll)) := by decide
  have hfirst : programEntry k.store.mem c.chunk p file 0 0x400 =
      some (heapAddress ||| (pagingIsPresent ||| pagingAccessFromAll)) := by
    rw [programEntry, if_pos (by rw [h.base, h.segment.phnum]; exact Nat.zero_lt_one),
      h.segment.headerEntry_eq h.base h.valid, hrange]
  unfold MapsToZero
  rw [h.base, h.segment.phnum, hpage]
  refine ⟨fun j w hlast => ?_, fun hnone => ?_⟩
  · -- the stack is elsewhere, so it is the segment
    obtain ⟨hj, hw, -⟩ := hlast
    obtain rfl : j = 0 := by
      rcases Nat.lt_succ_iff_lt_or_eq.1 hj with hlt | rfl
      · exact Nat.lt_one_iff.1 hlt
      · rw [programEntry, if_neg (by rw [h.base, h.segment.phnum]; exact lt_irrefl 1),
          rangeEntry_stack _ _ (by decide) (Or.inr (by decide))] at hw
        cases hw
    rw [hfirst] at hw
    cases hw
    have hbyte : InRange heapAddress 4096
        (((heapAddress ||| (pagingIsPresent ||| pagingAccessFromAll)) &&& pagingAddressMask) +
          (0x400053 + BitVec.ofNat 32 1) % 4096) := by decide
    refine zeroWith_of_not_inTables h.loaded.directory.mapped h.loaded.directory.ready
      (not_inTables_of_owns h.loaded.directory.ready h.loaded.directory.mapped h.loaded.owns
        h.loaded.apart (by rw [h.base]; exact hbyte)) ?_
    rw [h.block _ hbyte]
    decide +kernel
  · rw [hnone 0 (by decide)] at hfirst
    cases hfirst

/-- **What follows a segment in the file is read after it**: the second
letter of the signature, where a zero byte should be. -/
theorem processMapMemory_not_bssZero :
    ¬ ∀ (k : Kernel) (process : Word) (p : Process) (file : ElfFile) (c : ChunkView) (n size : ℕ)
      (k' : Kernel), ElfLoaded k process p file c n → p.filetype = processFiletypeElf →
      size ≤ 4096 * n → LoadsInFile k.store.mem file.elfMemory size →
      LoadsCongruent k.store.mem file.elfMemory → LoadsPagesDisjoint k.store.mem file.elfMemory →
      processMapMemory process k = .ok (0, k') →
      BssZero k.store.mem k'.store.mem c.chunk file.elfMemory := by
  intro hall
  have hone : OneSegment (memWithFile (elfImage [loadPhdr 0 0x400000 1 2 0])) 0 0x400000 1 2 := by
    decide +kernel
  obtain ⟨k, process, p, file, c, h⟩ := exists_segmentLoaded _ hone (by decide)
  obtain ⟨k', hrun, hout, h', hentry⟩ := h.processMapMemory_run
  have hcongruent : LoadsCongruent k.store.mem file.elfMemory := by
    intro i hi
    obtain rfl := h.mem_loads_iff.1 hi
    rw [h.base, h.segment.phdrVaddr_eq, h.segment.phdrOffset_eq]
    decide
  have hpages : LoadsPagesDisjoint k.store.mem file.elfMemory := fun i hi j hj hne =>
    absurd ((h.mem_loads_iff.1 hi).trans (h.mem_loads_iff.1 hj).symm) hne
  have hzero := hall k process p file c 1 84 k' h.loaded h.filetype (by decide)
    (h.loadsInFile (by decide) (by decide)) hcongruent hpages hrun 0 (h.mem_loads_iff.2 rfl) 1
    (by rw [h.base, h.segment.phdrFilesz_eq]; decide) (by rw [h.base, h.segment.phdrMemsz_eq]; decide)
  have hrange : segmentRange 0 0x400000 2 0x400 =
      some (heapAddress ||| (pagingIsPresent ||| pagingAccessFromAll)) := by decide
  have hplace : ((heapAddress ||| (pagingIsPresent ||| pagingAccessFromAll)) &&& pagingAddressMask) +
      (0x400000 + BitVec.ofNat 32 1) % 4096 = heapAddress + 1 := by decide
  rw [h.base, h.segment.phdrVaddr_eq, h'.mapped.directory_eq, h'.mapped.pagingGetPhysicalAddress_eq,
    ChunkView.physical, show (0x400000 + BitVec.ofNat 32 1 : Word).toNat / 4096 = 0x400 by decide,
    hentry 0x400 (by decide) (by decide), hrange, Option.getD_some, hplace] at hzero
  -- the file's second byte
  have hbyte : InRange heapAddress 4096 (heapAddress + 1) := by decide
  rw [hout.out _ (not_inTables_of_owns h.loaded.directory.ready h.loaded.directory.mapped
    h.loaded.owns h.loaded.apart (by rw [h.base]; exact hbyte)), h.block _ hbyte] at hzero
  exact absurd hzero (by decide +kernel)

end OwnKernel
