import OwnKernel.Elf.Reads
import OwnKernel.Lib.Running

/-!
# The bounds of a loaded program

`elf_process_pheaders` keeps the lowest and the highest address of the
`PT_LOAD` segments in the `struct elf_file`, and takes 0 there for "none
yet". `elfProcessPheaders_bounds_iff` says for which header tables these
are the program's bounds: a segment at address 0 is forgotten unless it
is the last.
-/

namespace OwnKernel

variable {mem : Mem} {base q : Word} {file : ElfFile} {i n : ℕ}

/-! ## The segments -/

instance : Decidable (IsLoad mem base i) := inferInstanceAs (Decidable (_ = _))

/-- The `PT_LOAD` headers, in order. -/
def loads (mem : Mem) (base : Word) : List ℕ :=
  (List.range (elfPhnum mem base)).filter (IsLoad mem base ·)

/-- `p_vaddr` of program header `i`. -/
def phdrVaddr (mem : Mem) (base : Word) (i : ℕ) : Word :=
  mem.load32 (elfPhdrAddress mem base i + phdrVaddrOffset)

/-- `p_offset`. -/
def phdrOffset (mem : Mem) (base : Word) (i : ℕ) : Word :=
  mem.load32 (elfPhdrAddress mem base i + phdrOffsetOffset)

/-- `p_filesz`. -/
def phdrFilesz (mem : Mem) (base : Word) (i : ℕ) : Word :=
  mem.load32 (elfPhdrAddress mem base i + phdrFileszOffset)

/-- The header's address in the program, and in memory. -/
def loadBase (mem : Mem) (base : Word) (i : ℕ) : Word × Word :=
  (phdrVaddr mem base i, base + phdrOffset mem base i)

/-- The end of the header's bytes in the program, and in memory. -/
def loadEnd (mem : Mem) (base : Word) (i : ℕ) : Word × Word :=
  (phdrVaddr mem base i + phdrFilesz mem base i,
    base + phdrOffset mem base i + phdrFilesz mem base i)

/-- **The file's bounds are those of its segments**, each with the address
in memory of a segment that has it. -/
structure BoundsOf (mem : Mem) (base : Word) (file : ElfFile) : Prop where
  lowest : ∃ i ∈ loads mem base,
    (file.virtualBaseAddress, file.physicalBaseAddress) = loadBase mem base i ∧
      ∀ j ∈ loads mem base, (phdrVaddr mem base i).toNat ≤ (phdrVaddr mem base j).toNat
  highest : ∃ i ∈ loads mem base,
    (file.virtualEndAddress, file.physicalEndAddress) = loadEnd mem base i ∧
      ∀ j ∈ loads mem base, (phdrVaddr mem base j).toNat + (phdrFilesz mem base j).toNat ≤
        (phdrVaddr mem base i).toNat + (phdrFilesz mem base i).toNat

/-- A segment at address 0 is the last. -/
def ZeroBaseLast (mem : Mem) (base : Word) : Prop :=
  (∃ i ∈ loads mem base, phdrVaddr mem base i = 0) →
    ∀ i ∈ (loads mem base).getLast?, phdrVaddr mem base i = 0

/-! ## The loop -/

/-- What a bound is compared by. -/
def boundKey (bound : Word × Word) : ℕ := bound.1.toNat

theorem boundKey_eq_bot {bound : Word × Word} : boundKey bound = ⊥ ↔ bound.1 = 0 := by
  unfold boundKey
  rw [Nat.bot_eq_zero, ← BitVec.toNat_inj]
  rfl

/-- The file with these bounds. -/
def ElfFile.withBounds (file : ElfFile) (low high : Word × Word) : ElfFile :=
  ⟨file.elfMemory, low.1, high.1, low.2, high.2⟩

theorem ElfFile.withBounds_bounds (file : ElfFile) (low high : Word × Word) :
    ((file.withBounds low high).virtualBaseAddress, (file.withBounds low high).physicalBaseAddress) =
        low ∧
      ((file.withBounds low high).virtualEndAddress, (file.withBounds low high).physicalEndAddress) =
        high :=
  ⟨rfl, rfl⟩

/-- The file after a `PT_LOAD` segment with these bounds. -/
def ElfFile.withLoad (file : ElfFile) (lowest highest : Word × Word) : ElfFile :=
  file.withBounds
    (keepLeast boundKey (file.virtualBaseAddress, file.physicalBaseAddress) lowest)
    (keepGreatest boundKey (file.virtualEndAddress, file.physicalEndAddress) highest)

/-- **`elf_process_phdr_pt_load`** keeps the lower and the higher
bound. -/
theorem elfProcessPhdrPtLoad_logs (mem : Mem) (file : ElfFile) (q : Word) : ∃ l,
    Logs (elfProcessPhdrPtLoad mem file q)
      (0, file.withLoad
        (mem.load32 (q + phdrVaddrOffset), file.elfMemory + mem.load32 (q + phdrOffsetOffset))
        (mem.load32 (q + phdrVaddrOffset) + mem.load32 (q + phdrFileszOffset),
          file.elfMemory + mem.load32 (q + phdrOffsetOffset) +
            mem.load32 (q + phdrFileszOffset))) l := by
  refine ⟨_, .bind readWord_logs <| .bind readWord_logs <| .bind (m := []) readWord_logs ?_⟩
  convert Logs.pure _ using 2
  generalize mem.load32 (q + phdrVaddrOffset) = vaddr
  generalize mem.load32 (q + phdrOffsetOffset) = offset
  generalize mem.load32 (q + phdrFileszOffset) = filesz
  unfold ElfFile.withLoad ElfFile.withBounds keepLeast keepGreatest
  simp only [boundKey_eq_bot]
  unfold boundKey
  simp only
  by_cases hlow : vaddr.toNat ≤ file.virtualBaseAddress.toNat ∨ file.virtualBaseAddress = 0
  · by_cases hhigh : file.virtualEndAddress.toNat ≤ (vaddr + filesz).toNat ∨
        file.virtualEndAddress = 0
    · simp only [if_pos hlow, if_pos hhigh]
    · simp only [if_pos hlow, if_neg hhigh]
  · by_cases hhigh : file.virtualEndAddress.toNat ≤ (vaddr + filesz).toNat ∨
        file.virtualEndAddress = 0
    · simp only [if_neg hlow, if_pos hhigh]
    · simp only [if_neg hlow, if_neg hhigh]

/-- `elf_pheader`'s table, at header `i`. -/
theorem elfProgramHeader_logs (h0 : elfPhoff mem base ≠ 0) (i : ℕ) : ∃ l,
    Logs (elfProgramHeader mem base i) (elfPhdrAddress mem base i) l := by
  refine ⟨_, .bind_pure (g := fun phdrs => phdrs + BitVec.ofNat 32 i * sizeofElf32Phdr)
    (v := base + elfPhoff mem base) (.bind (m := []) readWord_logs ?_)⟩
  change Logs (if elfPhoff mem base = 0 then _ else _) _ _
  rw [if_neg h0]
  exact .pure _

/-- The file after header `i`. -/
def ElfFile.withHeader (mem : Mem) (file : ElfFile) (i : ℕ) : ElfFile :=
  file.withLoad (loadBase mem file.elfMemory i) (loadEnd mem file.elfMemory i)

/-- `elf_process_pheader` passes over what is no `PT_LOAD`. -/
theorem elfProcessPheader_withHeader (mem : Mem) (file : ElfFile) (i : ℕ) : ∃ l,
    Logs (elfProcessPheader mem file (elfPhdrAddress mem file.elfMemory i))
      (0, if IsLoad mem file.elfMemory i then file.withHeader mem i else file) l := by
  by_cases htype : IsLoad mem file.elfMemory i
  · have htype' : mem.load32 (elfPhdrAddress mem file.elfMemory i) = ptLoad := htype
    obtain ⟨l, hload⟩ := elfProcessPhdrPtLoad_logs mem file (elfPhdrAddress mem file.elfMemory i)
    refine ⟨_, .bind (m := l) readWord_logs ?_⟩
    rw [if_pos htype', if_pos htype]
    exact hload
  · have htype' : ¬ mem.load32 (elfPhdrAddress mem file.elfMemory i) = ptLoad := htype
    refine ⟨_, .bind (m := []) readWord_logs ?_⟩
    rw [if_neg htype', if_neg htype]
    exact .pure _

@[simp] theorem ElfFile.withHeader_elfMemory (mem : Mem) (file : ElfFile) (i : ℕ) :
    (file.withHeader mem i).elfMemory = file.elfMemory := by
  cases file
  rfl

/-- **The loop of `elf_process_pheaders`** goes through the `PT_LOAD`
headers. -/
theorem elfProcessPheadersLoop_loads (mem : Mem) (n : ℕ) : ∀ (i : ℕ) (file : ElfFile),
    elfPhoff mem file.elfMemory ≠ 0 → ∃ l, Logs (elfProcessPheadersLoop mem n i file)
      (0, ((List.range' i n).filter (IsLoad mem file.elfMemory ·)).foldl
        (ElfFile.withHeader mem) file) l := by
  induction n with
  | zero => exact fun i file _ => ⟨[], .pure _⟩
  | succ n ih =>
    intro i file h0
    obtain ⟨l₀, hphdr⟩ := elfProgramHeader_logs h0 i
    obtain ⟨l₁, hone⟩ := elfProcessPheader_withHeader mem file i
    rw [List.range'_succ, List.filter_cons]
    simp only [decide_eq_true_eq]
    by_cases htype : IsLoad mem file.elfMemory i
    · rw [if_pos htype] at hone
      obtain ⟨l₂, hrest⟩ := ih (i + 1) (file.withHeader mem i)
        (by rw [ElfFile.withHeader_elfMemory]; exact h0)
      rw [ElfFile.withHeader_elfMemory] at hrest
      refine ⟨_, hphdr.bind (hone.bind (m := l₂) ?_)⟩
      rw [if_neg (lt_irrefl (0 : ℤ)), if_pos htype, List.foldl_cons]
      exact hrest
    · rw [if_neg htype] at hone
      obtain ⟨l₂, hrest⟩ := ih (i + 1) file h0
      refine ⟨_, hphdr.bind (hone.bind (m := l₂) ?_)⟩
      rw [if_neg (lt_irrefl (0 : ℤ)), if_neg htype]
      exact hrest

/-- The bounds after header `i`. -/
theorem ElfFile.withHeader_bounds (mem : Mem) (file : ElfFile) (i : ℕ) :
    ((file.withHeader mem i).virtualBaseAddress, (file.withHeader mem i).physicalBaseAddress) =
        keepLeast boundKey (file.virtualBaseAddress, file.physicalBaseAddress)
          (loadBase mem file.elfMemory i) ∧
      ((file.withHeader mem i).virtualEndAddress, (file.withHeader mem i).physicalEndAddress) =
        keepGreatest boundKey (file.virtualEndAddress, file.physicalEndAddress)
          (loadEnd mem file.elfMemory i) := by
  unfold ElfFile.withHeader ElfFile.withLoad
  exact ElfFile.withBounds_bounds ..

/-- Going through headers keeps the lowest base and the highest end. -/
theorem foldl_withHeader (mem : Mem) (l : List ℕ) : ∀ file : ElfFile,
    ((l.foldl (ElfFile.withHeader mem) file).virtualBaseAddress,
      (l.foldl (ElfFile.withHeader mem) file).physicalBaseAddress) =
        (l.map (loadBase mem file.elfMemory)).foldl (keepLeast boundKey)
          (file.virtualBaseAddress, file.physicalBaseAddress) ∧
    ((l.foldl (ElfFile.withHeader mem) file).virtualEndAddress,
      (l.foldl (ElfFile.withHeader mem) file).physicalEndAddress) =
        (l.map (loadEnd mem file.elfMemory)).foldl (keepGreatest boundKey)
          (file.virtualEndAddress, file.physicalEndAddress) := by
  induction l with
  | nil => exact fun file => ⟨rfl, rfl⟩
  | cons i l ih =>
    intro file
    obtain ⟨hlow, hhigh⟩ := file.withHeader_bounds mem i
    have h := ih (file.withHeader mem i)
    rw [ElfFile.withHeader_elfMemory, hlow, hhigh] at h
    rw [List.foldl_cons, List.map_cons, List.map_cons, List.foldl_cons, List.foldl_cons]
    exact h

/-- The cleared structure `elf_load` passes, with the file at `base`. -/
def ElfFile.unread (base : Word) : ElfFile := { ElfFile.zero with elfMemory := base }

/-- **`elf_process_pheaders`** on the structure `elf_load` passes. -/
theorem elfProcessPheaders_loads (h0 : elfPhoff mem base ≠ 0) :
    ((elfProcessPheaders mem (.unread base)).run []).1 =
      (0, (loads mem base).foldl (ElfFile.withHeader mem) (.unread base)) := by
  obtain ⟨l, hloop⟩ := elfProcessPheadersLoop_loads mem (elfPhnum mem base) 0
    (.unread base) h0
  have hrun : Logs (elfProcessPheaders mem (.unread base)) _ _ := readHalf_logs.bind hloop
  rw [hrun.run_nil, loads, List.range_eq_range']
  rfl

/-! ## The bounds -/

/-- The lowest base kept, from nothing on. -/
theorem lowest_iff (mem : Mem) (base : Word) {l : List ℕ} {kept : Word × Word} (hl : l ≠ [])
    (hkept : kept = (l.map (loadBase mem base)).foldl (keepLeast boundKey) (0, 0)) :
    (∃ i ∈ l, kept = loadBase mem base i ∧
        ∀ j ∈ l, (phdrVaddr mem base i).toNat ≤ (phdrVaddr mem base j).toNat) ↔
      ((∃ i ∈ l, phdrVaddr mem base i = 0) → ∀ i ∈ l.getLast?, phdrVaddr mem base i = 0) := by
  obtain ⟨i, l, rfl⟩ := List.exists_cons_of_ne_nil hl
  have hfirst : keepLeast boundKey (0, 0) (loadBase mem base i) = loadBase mem base i :=
    keepLeast_of_bot (boundKey_eq_bot.2 rfl)
  rw [List.map_cons, List.foldl_cons, hfirst] at hkept
  have hmem := foldl_keepLeast_mem boundKey (l.map (loadBase mem base)) (loadBase mem base i)
  have hiff := foldl_keepLeast_iff boundKey (l.map (loadBase mem base)) (loadBase mem base i)
  rw [← hkept, ← List.map_cons] at hmem hiff
  have hmarker : (∃ b ∈ (i :: l).map (loadBase mem base), boundKey b = ⊥) ↔
      ∃ j ∈ i :: l, phdrVaddr mem base j = 0 := by
    constructor
    · rintro ⟨b, hb, hbot⟩
      obtain ⟨j, hj, rfl⟩ := List.mem_map.1 hb
      exact ⟨j, hj, boundKey_eq_bot.1 hbot⟩
    · rintro ⟨j, hj, h0⟩
      exact ⟨_, List.mem_map_of_mem hj, boundKey_eq_bot.2 h0⟩
  have hlast : boundKey ((l.map (loadBase mem base)).getLastD (loadBase mem base i)) = ⊥ ↔
      ∀ j ∈ (i :: l).getLast?, phdrVaddr mem base j = 0 := by
    rw [List.getLastD_map, boundKey_eq_bot, List.getLast?_cons, List.getLastD_eq_getLast?]
    constructor
    · rintro h0 j hj
      cases hj
      exact h0
    · exact fun h => h _ rfl
  rw [hmarker, hlast] at hiff
  rw [← hiff]
  constructor
  · rintro ⟨j, -, rfl, hle⟩ b hb
    obtain ⟨j', hj', rfl⟩ := List.mem_map.1 hb
    exact hle j' hj'
  · intro hle
    obtain ⟨j, hj, hjk⟩ := List.mem_map.1 hmem
    refine ⟨j, hj, hjk.symm, fun j' hj' => ?_⟩
    have := hle _ (List.mem_map_of_mem hj')
    rw [← hjk] at this
    exact this

/-- The highest end kept, from nothing on, is the segments'. -/
theorem exists_highest (mem : Mem) (base : Word) {l : List ℕ} {kept : Word × Word} (hl : l ≠ [])
    (hwrap : ∀ i ∈ l, (phdrVaddr mem base i).toNat + (phdrFilesz mem base i).toNat < 2 ^ 32)
    (hkept : kept = (l.map (loadEnd mem base)).foldl (keepGreatest boundKey) (0, 0)) :
    ∃ i ∈ l, kept = loadEnd mem base i ∧
      ∀ j ∈ l, (phdrVaddr mem base j).toNat + (phdrFilesz mem base j).toNat ≤
        (phdrVaddr mem base i).toNat + (phdrFilesz mem base i).toNat := by
  have hkey : ∀ i ∈ l, boundKey (loadEnd mem base i) =
      (phdrVaddr mem base i).toNat + (phdrFilesz mem base i).toNat := by
    intro i hi
    unfold boundKey loadEnd
    rw [BitVec.toNat_add, Nat.mod_eq_of_lt (hwrap i hi)]
  obtain ⟨i, l, rfl⟩ := List.exists_cons_of_ne_nil hl
  have hfirst : keepGreatest boundKey (0, 0) (loadEnd mem base i) = loadEnd mem base i :=
    keepGreatest_of_bot (boundKey_eq_bot.2 rfl)
  rw [List.map_cons, List.foldl_cons, hfirst] at hkept
  obtain ⟨hmem, hle⟩ := foldl_keepGreatest boundKey (l.map (loadEnd mem base)) (loadEnd mem base i)
  rw [← hkept, ← List.map_cons] at hmem hle
  obtain ⟨j, hj, hjk⟩ := List.mem_map.1 hmem
  refine ⟨j, hj, hjk.symm, fun j' hj' => ?_⟩
  have := hle _ (List.mem_map_of_mem hj')
  rw [← hjk, hkey j' hj', hkey j hj] at this
  exact this

/-- **When the bounds are right**: a segment at address 0, if there is
one, is the last. -/
theorem elfProcessPheaders_bounds_iff (mem : Mem) (base : Word) (h0 : elfPhoff mem base ≠ 0)
    (hload : loads mem base ≠ [])
    (hwrap : ∀ i ∈ loads mem base,
      (phdrVaddr mem base i).toNat + (phdrFilesz mem base i).toNat < 2 ^ 32) :
    BoundsOf mem base ((elfProcessPheaders mem (.unread base)).run []).1.2 ↔
      ZeroBaseLast mem base := by
  rw [elfProcessPheaders_loads h0]
  obtain ⟨hlow, hhigh⟩ := foldl_withHeader mem (loads mem base) (.unread base)
  generalize (loads mem base).foldl (ElfFile.withHeader mem) (.unread base) = file at hlow hhigh
  have hlowest := lowest_iff mem base hload hlow
  have hhighest := exists_highest mem base hload hwrap hhigh
  unfold ZeroBaseLast
  rw [← hlowest]
  exact ⟨fun h => h.lowest, fun h => ⟨h, hhighest⟩⟩

/-! ## Two programs -/

/-- An ELF file that begins with its header and its program headers. -/
def elfImage (phdrs : List (List Byte)) : List Byte :=
  [0x7F, 0x45, 0x4C, 0x46, 1, 1] ++ List.replicate 22 0 ++ [52, 0, 0, 0] ++ List.replicate 12 0 ++
    [BitVec.ofNat 8 phdrs.length, 0] ++ List.replicate 6 0 ++ phdrs.flatten

/-- The bytes of a `PT_LOAD` header. -/
def loadPhdr (offset vaddr filesz memsz flags : Word) : List Byte :=
  Mem.bytes32 ptLoad ++ Mem.bytes32 offset ++ Mem.bytes32 vaddr ++ [0, 0, 0, 0] ++
    Mem.bytes32 filesz ++ Mem.bytes32 memsz ++ Mem.bytes32 flags ++ [0, 0, 0, 0]

/-- A file of two segments of one byte, in the heap's first block. -/
def twoSegments (v w : Word) : Mem :=
  Mem.store (fun _ => 0) heapAddress (elfImage [loadPhdr 0 v 1 1 0, loadPhdr 0 w 1 1 0])

/-- A program whose segment at address 0 is the last. -/
theorem elfProcessPheaders_bounds_zero_last :
    BoundsOf (twoSegments 0x400000 0) heapAddress
        ((elfProcessPheaders (twoSegments 0x400000 0) (.unread heapAddress)).run
          []).1.2 ↔
      ZeroBaseLast (twoSegments 0x400000 0) heapAddress :=
  elfProcessPheaders_bounds_iff _ _ (by decide +kernel) (by decide +kernel) (by decide +kernel)

/-- **A program linked at address 0** of two segments: the second one's
address is taken for the lowest. -/
theorem elfProcessPheaders_not_bounds :
    ¬ ∀ (mem : Mem) (base : Word), elfPhoff mem base ≠ 0 → loads mem base ≠ [] →
      (∀ i ∈ loads mem base,
        (phdrVaddr mem base i).toNat + (phdrFilesz mem base i).toNat < 2 ^ 32) →
      BoundsOf mem base ((elfProcessPheaders mem (.unread base)).run []).1.2 := by
  intro h
  have h0 : elfPhoff (twoSegments 0 0x400000) heapAddress ≠ 0 := by decide +kernel
  have hload : loads (twoSegments 0 0x400000) heapAddress = [0, 1] := by decide +kernel
  have hne : loads (twoSegments 0 0x400000) heapAddress ≠ [] := by
    rw [hload]
    exact List.cons_ne_nil _ _
  have hbounds := (h _ _ h0 hne (by decide +kernel)).lowest
  rw [elfProcessPheaders_loads h0] at hbounds
  have hiff := lowest_iff _ _ hne
    (foldl_withHeader (twoSegments 0 0x400000) _ (.unread heapAddress)).1
  rw [hload] at hiff hbounds
  have hzero : phdrVaddr (twoSegments 0 0x400000) heapAddress 0 = 0 := by decide +kernel
  have hlast : phdrVaddr (twoSegments 0 0x400000) heapAddress 1 ≠ 0 := by decide +kernel
  exact hlast (hiff.1 hbounds ⟨0, List.mem_cons_self, hzero⟩ 1 rfl)

end OwnKernel
