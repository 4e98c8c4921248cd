import OwnKernel.Process.Allocations
import OwnKernel.System.Programs

/-!
# What a program may write

The directory of a program that is loaded has every page, at its own
address, as one the user may read. What the user may write are pages of
the program and of the stack, if an ELF file's headers keep to its blocks
(`ElfLoaded.writeable`, `processMapMemory_binary_writeable`).
-/

namespace OwnKernel

variable {k k' : Kernel} {c : ChunkView} {process base v a e o m flags w : Word} {p : Process}
variable {file : ElfFile} {mem mem' : Mem} {page i n : ℕ} {res : ℤ}

/-! ## Ranges in a block -/

theorem toNat_pagingAlignToLowerPage (x : Word) :
    (pagingAlignToLowerPage x).toNat = x.toNat / 4096 * 4096 := by
  have hmod : (x % 4096).toNat = x.toNat % 4096 := BitVec.toNat_umod
  have hlt := x.isLt
  unfold pagingAlignToLowerPage
  rw [BitVec.toNat_sub, hmod]
  omega

theorem toNat_pagingAlignAddress (x : Word) :
    (pagingAlignAddress x).toNat = (x.toNat + 4095) / 4096 * 4096 % 2 ^ 32 := by
  have hmod : (x % 4096).toNat = x.toNat % 4096 := BitVec.toNat_umod
  have hlt := x.isLt
  unfold pagingAlignAddress
  by_cases h0 : x % 4096 = 0
  · rw [if_neg (not_not.2 h0)]
    rw [h0] at hmod
    change 0 = _ at hmod
    omega
  · have hne : x.toNat % 4096 ≠ 0 := fun h => h0 (BitVec.eq_of_toNat_eq (hmod.trans h))
    rw [if_pos h0, BitVec.toNat_sub, BitVec.toNat_add, hmod]
    change (2 ^ 32 - _ + (x.toNat + 4096) % 2 ^ 32) % 2 ^ 32 = _
    omega

/-- **The frames of a range of bytes are in the block that has the
bytes.** -/
theorem inRange_of_rangeEntry (hbase : base.toNat % 4096 = 0) (hn : base.toNat + 4096 * n ≤ 2 ^ 32)
    (hfit : o.toNat + m.toNat ≤ 4096 * n) (hflags : flags.toNat < 4096)
    (h : rangeEntry v (pagingAlignToLowerPage (base + o)) (pagingAlignAddress (base + o + m)) flags
      page = some w) : InRange base (4096 * n) (w &&& pagingAddressMask) := by
  rw [rangeEntry_and_addressMask h hflags]
  obtain ⟨⟨-, -, -, hle⟩, hoff, -⟩ := rangeEntry_eq_some_iff.1 h
  have hphys : (base + o).toNat = (base.toNat + o.toNat) % 2 ^ 32 := BitVec.toNat_add ..
  have hend : (base + o + m).toNat = ((base + o).toNat + m.toNat) % 2 ^ 32 := BitVec.toNat_add ..
  have hlow := toNat_pagingAlignToLowerPage (base + o)
  have hup := toNat_pagingAlignAddress (base + o + m)
  have hlt := base.isLt
  unfold InRange
  rw [BitVec.toNat_sub, BitVec.toNat_add, BitVec.toNat_ofNat]
  generalize (pagingAlignToLowerPage (base + o)).toNat = a at *
  generalize (pagingAlignAddress (base + o + m)).toNat = e at *
  generalize (base + o + m).toNat = x at *
  generalize (base + o).toNat = y at *
  generalize pageOffset v page = j at *
  omega

/-- So are those of a range from the block's start. -/
theorem inRange_of_rangeEntry_start (hbase : base.toNat % 4096 = 0)
    (hn : base.toNat + 4096 * n ≤ 2 ^ 32) (hfit : m.toNat ≤ 4096 * n) (hflags : flags.toNat < 4096)
    (h : rangeEntry v base (pagingAlignAddress (base + m)) flags page = some w) :
    InRange base (4096 * n) (w &&& pagingAddressMask) := by
  have hzero : base + 0 = base := BitVec.add_zero base
  have hlow : pagingAlignToLowerPage base = base := by
    apply BitVec.eq_of_toNat_eq
    rw [toNat_pagingAlignToLowerPage]
    omega
  have hoffset : (0 : Word).toNat + m.toNat ≤ 4096 * n := by
    change 0 + m.toNat ≤ _
    omega
  have hrange : rangeEntry v (pagingAlignToLowerPage (base + 0)) (pagingAlignAddress (base + 0 + m))
      flags page = some w := by
    rw [hzero, hlow]
    exact h
  exact inRange_of_rangeEntry hbase hn hoffset hflags hrange

/-- A range's entry is writeable if its flags say so. -/
theorem userWriteable_rangeEntry (h : rangeEntry v a e flags page = some w) :
    UserWriteable w ↔ UserWriteable flags := by
  obtain ⟨⟨-, ha, -, -⟩, -, rfl⟩ := rangeEntry_eq_some_iff.1 h
  refine userWriteable_or ?_
  rw [BitVec.toNat_add, BitVec.toNat_ofNat]
  omega

/-- A task starts with nothing the user may write. -/
theorem not_userWriteable_identityEntry (page : ℕ) :
    ¬ UserWriteable (identityEntry taskPageFlags page) := by
  unfold identityEntry
  rw [userWriteable_or (by rw [BitVec.toNat_ofNat, heapBlockSize]; omega)]
  unfold UserWriteable
  decide

/-! ## ELF files -/

/-- **A file keeps to its blocks**: its `n` blocks have its program headers,
and the segments that are writeable. -/
def SegmentsInBlocks (mem : Mem) (base : Word) (n : ℕ) : Prop :=
  ∀ i < elfPhnum mem base, (elfPhoff mem base).toNat + 32 * (i + 1) ≤ 4096 * n ∧
    (mem.load32 (elfPhdrAddress mem base i + phdrFlagsOffset) &&& pfW ≠ 0 →
      (phdrOffset mem base i).toNat + (phdrMemsz mem base i).toNat ≤ 4096 * n)

/-- A header's bytes in the file's blocks. -/
theorem inRange_of_phdr (hi : i < elfPhnum mem base)
    (hin : (elfPhoff mem base).toNat + 32 * (i + 1) ≤ 4096 * n) {x : Word}
    (hx : InRange (elfPhdrAddress mem base i) 32 x) : InRange base (4096 * n) x := by
  have hnum : elfPhnum mem base < 2 ^ 16 := (mem.load16 (base + elfPhnumOffset)).isLt
  have haddr : (elfPhdrAddress mem base i).toNat =
      (base.toNat + (elfPhoff mem base).toNat + 32 * i) % 2 ^ 32 := by
    unfold elfPhdrAddress sizeofElf32Phdr
    rw [BitVec.toNat_add, BitVec.toNat_add, BitVec.toNat_mul, BitVec.toNat_ofNat]
    change (_ + i % 2 ^ 32 * 32 % 2 ^ 32) % 2 ^ 32 = _
    omega
  have hlt := (elfPhoff mem base).isLt
  have hbase := base.isLt
  have hxlt := x.isLt
  unfold InRange at hx ⊢
  rw [BitVec.toNat_sub] at hx ⊢
  generalize (elfPhdrAddress mem base i).toNat = y at *
  generalize (elfPhoff mem base).toNat = z at *
  omega

/-- It depends on the blocks only. -/
theorem SegmentsInBlocks.congr (h : SegmentsInBlocks mem base n) (hn : 0 < n)
    (hmem : ∀ x, InRange base (4096 * n) x → mem' x = mem x) : SegmentsInBlocks mem' base n := by
  have hfirst : ∀ x, InRange base 4096 x → mem' x = mem x := by
    intro x hx
    refine hmem x ?_
    unfold InRange at hx ⊢
    omega
  have hphoff : elfPhoff mem' base = elfPhoff mem base := load32_block hfirst (by decide)
  have haddr : ∀ i, elfPhdrAddress mem' base i = elfPhdrAddress mem base i := by
    intro i
    unfold elfPhdrAddress
    rw [hphoff]
  intro i hi
  rw [elfPhnum_block hfirst] at hi
  obtain ⟨hin, hfit⟩ := h i hi
  have hphdr : ∀ x, InRange (elfPhdrAddress mem base i) 32 x → mem' x = mem x := fun x hx =>
    hmem x (inRange_of_phdr hi hin hx)
  unfold phdrOffset phdrMemsz at hfit ⊢
  rw [hphoff, haddr, phdr_load32_congr hphdr (by decide), phdr_load32_congr hphdr (by decide),
    phdr_load32_congr hphdr (by decide)]
  exact ⟨hin, hfit⟩

/-- **What an ELF file that keeps to its blocks lets the user write**: pages
of these blocks, and of the stack. -/
theorem ElfLoaded.writeable (h : ElfLoaded k process p file c n)
    (helf : p.filetype = processFiletypeElf) (hrun : processMapMemory process k = .ok (0, k'))
    (hfit : SegmentsInBlocks k.store.mem file.elfMemory n)
    (hbase : ∀ page < 2 ^ 20, ¬ UserWriteable (c.entry k.store.mem page))
    (hstack : k.store.heap.Owns p.stack 4) (hp : page < 2 ^ 20)
    (hw : UserWriteable (c.entry k'.store.mem page)) :
    InRange file.elfMemory (4096 * n) (c.entry k'.store.mem page &&& pagingAddressMask) ∨
      InRange p.stack (4096 * 4) (c.entry k'.store.mem page &&& pagingAddressMask) := by
  have hr := h.directory.ready
  obtain ⟨-, -, hentry⟩ := h.processMapMemory_entries helf hrun
  have hap : HeadersApart c k.store.mem file.elfMemory :=
    headersApart_of_owns hr h.directory.mapped h.owns h.apart fun i hi x hx =>
      inRange_of_phdr hi (hfit i hi).1 hx
  rw [hentry page hp] at hw ⊢
  revert hw
  refine (overlays_iff_cases (P := fun entry => UserWriteable entry →
    InRange file.elfMemory (4096 * n) (entry &&& pagingAddressMask) ∨
      InRange p.stack (4096 * 4) (entry &&& pagingAddressMask))).2
    ⟨fun i w hlast hw => ?_, fun _ hw => absurd hw (hbase page hp)⟩
  have hlayer := hlast.2.1
  unfold programEntry at hlayer
  by_cases hi : i < elfPhnum k.store.mem file.elfMemory
  · -- a header
    rw [if_pos hi, hap.headerEntry_eq h.directory.mapped hr hi] at hlayer
    unfold phdrEntry at hlayer
    simp only at hlayer
    split at hlayer
    · refine Or.inl (inRange_of_rangeEntry (h.owns.aligned hr) (h.owns.toNat_add_le hr)
        ((hfit i hi).2 fun hread => ?_) (phdrPageFlags_lt _ _) hlayer)
      -- a segment that is not writeable is mapped without the flag
      rw [userWriteable_rangeEntry hlayer] at hw
      unfold phdrPageFlags at hw
      simp only at hw
      rw [if_pos hread] at hw
      exact absurd hw (by unfold UserWriteable; decide)
    · cases hlayer
  · rw [if_neg hi] at hlayer
    exact Or.inr (inRange_of_rangeEntry_start (hstack.aligned hr) (hstack.toNat_add_le hr) (by decide)
      (by decide) hlayer)

/-- Mapping an ELF file answers 0 or an error. -/
theorem ElfLoaded.processMapMemory_eq_zero (h : ElfLoaded k process p file c n)
    (helf : p.filetype = processFiletypeElf) (hrun : processMapMemory process k = .ok (res, k'))
    (hres : 0 ≤ res) : res = 0 := by
  obtain ⟨res₁, k₁, hmap, -, -, hvalue, -⟩ := h.processMapElf_entries
  obtain ⟨p₂, k₂, hread, hrun⟩ := Fallible.run_bind.1 hrun
  obtain ⟨-, hp₂, rfl⟩ := run_readProcess.1 hread
  obtain rfl := Option.some.inj (h.object.symm.trans hp₂)
  rw [if_pos helf, Fallible.bind_ok hmap] at hrun
  have hneg : -invalidArgumentError < 0 := by decide
  by_cases hall : ∀ j < elfPhnum k₂.store.mem file.elfMemory, HeaderMaps k₂.store.mem c.chunk file j
  · rw [if_pos hall] at hvalue
    rw [hvalue, if_neg (lt_irrefl 0)] at hrun
    obtain ⟨p₃, k₃, -, hrun⟩ := Fallible.run_bind.1 hrun
    obtain ⟨r, k₄, -, hpure⟩ := Fallible.run_bind.1 hrun
    exact (Fallible.run_pure.1 hpure).1
  · rw [if_neg hall] at hvalue
    rw [hvalue, if_pos hneg] at hrun
    obtain ⟨rfl, -⟩ := Fallible.run_pure.1 hrun
    exact absurd hres (not_le.2 hneg)

/-! ## Binary files -/

/-- **What a binary file lets the user write.** -/
theorem processMapMemory_binary_writeable (h : HasDirectory k p.task c)
    (hobject : k.processes process = some p) (hbinary : p.filetype = processFiletypeBinary)
    (hrun : processMapMemory process k = .ok (res, k'))
    (howns : k.store.heap.Owns p.ptr n) (hsize : p.size.toNat ≤ 4096 * n)
    (hbase : ∀ page < 2 ^ 20, ¬ UserWriteable (c.entry k.store.mem page))
    (hstack : k.store.heap.Owns p.stack 4) (hp : page < 2 ^ 20)
    (hw : UserWriteable (c.entry k'.store.mem page)) :
    InRange p.ptr (4096 * n) (c.entry k'.store.mem page &&& pagingAddressMask) ∨
      InRange p.stack (4096 * 4) (c.entry k'.store.mem page &&& pagingAddressMask) := by
  have hr := h.ready
  have hne : p.filetype ≠ processFiletypeElf := by
    rw [hbinary]
    decide
  obtain ⟨p₁, k₁, hread, hrun⟩ := Fallible.run_bind.1 hrun
  obtain ⟨-, hp₁, rfl⟩ := run_readProcess.1 hread
  obtain rfl := Option.some.inj (hobject.symm.trans hp₁)
  rw [if_neg hne, if_pos hbinary] at hrun
  obtain ⟨r, k₂, hmapBinary, hrun⟩ := Fallible.run_bind.1 hrun
  obtain ⟨p₂, k₃, hread₂, hmapBinary⟩ := Fallible.run_bind.1 hmapBinary
  obtain ⟨-, hp₂, rfl⟩ := run_readProcess.1 hread₂
  obtain rfl := Option.some.inj (hobject.symm.trans hp₂)
  obtain ⟨r₄, k₄, hmap, hpure⟩ := Fallible.run_bind.1 hmapBinary
  obtain ⟨rfl, rfl⟩ := Fallible.run_pure.1 hpure
  obtain ⟨k₅, hmap', hout, h₅, hentry⟩ := h.taskMapTo_eq osProgramVirtualAddress p.ptr
    (pagingAlignAddress (p.ptr + p.size)) userWriteableFlags (f := c.entry k₃.store.mem)
    fun _ _ => rfl
  rw [hmap'] at hmap
  obtain ⟨-, rfl⟩ := Prod.mk.inj (Except.ok.inj hmap)
  rw [if_neg (lt_irrefl 0)] at hrun
  obtain ⟨p₆, k₆, hread₆, hrun⟩ := Fallible.run_bind.1 hrun
  obtain ⟨-, hp₆, rfl⟩ := run_readProcess.1 hread₆
  rw [hout.processes] at hp₆
  obtain rfl := Option.some.inj (hobject.symm.trans hp₆)
  obtain ⟨r₇, k₇, hstackMap, hpure⟩ := Fallible.run_bind.1 hrun
  obtain ⟨-, rfl⟩ := Fallible.run_pure.1 hpure
  obtain ⟨k₈, hmap₈, -, -, hentry₈⟩ := h₅.taskMapTo_eq osUserProgramVirtualStackAddressEnd p.stack
    (pagingAlignAddress (p.stack + osUserProgramVirtualStackSize)) userWriteableFlags hentry
  rw [hmap₈] at hstackMap
  obtain ⟨-, rfl⟩ := Prod.mk.inj (Except.ok.inj hstackMap)
  rw [hentry₈ page hp, mapTo_eq_getD _ _ _ _ _ hp] at hw ⊢
  cases hs : rangeEntry osUserProgramVirtualStackAddressEnd p.stack
      (pagingAlignAddress (p.stack + osUserProgramVirtualStackSize)) userWriteableFlags page with
  | some w =>
    rw [Option.getD_some]
    exact Or.inr (inRange_of_rangeEntry_start (hstack.aligned hr) (hstack.toNat_add_le hr) (by decide)
      (by decide) hs)
  | none =>
    rw [hs, Option.getD_none, mapTo_eq_getD _ _ _ _ _ hp] at hw
    rw [Option.getD_none, mapTo_eq_getD _ _ _ _ _ hp]
    cases hb : rangeEntry osProgramVirtualAddress p.ptr (pagingAlignAddress (p.ptr + p.size))
        userWriteableFlags page with
    | some w =>
      rw [Option.getD_some]
      exact Or.inl (inRange_of_rangeEntry_start (howns.aligned hr) (howns.toNat_add_le hr) hsize
        (by decide) hb)
    | none =>
      rw [hb, Option.getD_none] at hw
      exact absurd hw (hbase page hp)

end OwnKernel
