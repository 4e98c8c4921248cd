import OwnKernel.Heap.Blocks

/-!
# Heap calls on a placed heap

A heap's table indexes blocks; its callers hold pointers. Where the
blocks lie in the address space without wrapping (`Heap.Placed`), the
two correspond, and `heapMalloc_cases` and `heapFree_of_chain` restate
the table facts of `Heap.Blocks` for `heap_malloc` and `heap_free`.
-/

namespace OwnKernel

variable {h : Heap} {size : Word} {b k : ℕ}

/-- **A heap in the address space**: its blocks start above address 0
and end at or below the top of memory. `heap_create` is called with such
a range. -/
structure Heap.Placed (h : Heap) : Prop where
  pos : h.startAddress ≠ 0
  fits : h.startAddress.toNat + heapBlockSize * h.total ≤ 2 ^ 32

namespace Heap.Placed

/-- A placed heap's table has fewer than `2 ^ 20` entries. -/
theorem total_lt (hp : h.Placed) : h.total < 2 ^ 20 := by
  have h1 := hp.fits
  have h2 : 0 < h.startAddress.toNat := by
    have := hp.pos
    bv_omega
  unfold heapBlockSize at h1
  omega

/-- Table writes do not move a heap. -/
theorem write (hp : h.Placed) (ws : List TableWrite) : (h.write ws).Placed :=
  ⟨hp.pos, hp.fits⟩

end Heap.Placed


/-- The kernel's heap lies in the address space. -/
theorem placed_kernelHeapInit : kernelHeapInit.Placed := ⟨by decide, by decide⟩

/-! ## Blocks and addresses -/

/-- The address of a block. -/
theorem toNat_heapBlockToAddress (hp : h.Placed) (hb : b < h.total) :
    (heapBlockToAddress h b).toNat = h.startAddress.toNat + 4096 * b := by
  have h1 := hp.fits
  have h2 := h.startAddress.isLt
  unfold heapBlockSize at h1
  unfold heapBlockToAddress heapBlockSize
  rw [BitVec.toNat_add, BitVec.toNat_ofInt]
  have hcast : ((b : ℤ) * ((4096 : ℕ) : ℤ) % ((2 ^ 32 : ℕ) : ℤ)).toNat = 4096 * b := by omega
  rw [hcast]
  omega

/-- No block lies at the null pointer. -/
theorem heapBlockToAddress_ne_zero (hp : h.Placed) (hb : b < h.total) :
    heapBlockToAddress h b ≠ 0 := by
  have h1 := toNat_heapBlockToAddress hp hb
  have h2 := hp.pos
  bv_omega

/-- The offset of a block from the heap's start. -/
theorem toNat_heapBlockToAddress_sub (hp : h.Placed) (hb : b < h.total) :
    (heapBlockToAddress h b - h.startAddress).toNat = 4096 * b := by
  have h1 := toNat_heapBlockToAddress hp hb
  have h2 := hp.fits
  unfold heapBlockSize at h2
  bv_omega

/-- Blocks at different indexes have different addresses. -/
theorem heapBlockToAddress_inj (hp : h.Placed) {b' : ℕ} (hb : b < h.total) (hb' : b' < h.total)
    (heq : heapBlockToAddress h b = heapBlockToAddress h b') : b = b' := by
  have h1 := toNat_heapBlockToAddress hp hb
  have h2 := toNat_heapBlockToAddress hp hb'
  rw [heq] at h1
  omega

/-- **A block's address leads back to the block**, in the lower 2 GiB of
the heap: the source divides a signed offset. -/
theorem heapAddressToBlock_heapBlockToAddress (hp : h.Placed) (hb : b < h.total)
    (hlow : b < 2 ^ 19) : heapAddressToBlock h (heapBlockToAddress h b) = b := by
  have hoff := toNat_heapBlockToAddress_sub hp hb
  unfold heapAddressToBlock heapBlockSize
  rw [BitVec.toInt_eq_toNat_of_lt (by omega), hoff,
    Int.tdiv_eq_ediv_of_nonneg (by omega)]
  omega

/-! ## `heap_malloc` -/

/-- `⌈size / 4096⌉`, the blocks an allocation takes. -/
def blocksFor (size : ℕ) : ℕ := (size + 4095) / 4096

/-- Up to the last page of the address space, `heap_malloc` asks for the
blocks its size needs. -/
theorem toNat_heapTotalBlocks (hsize : size.toNat ≤ 0xFFFFF000) :
    (heapTotalBlocks size).toNat = blocksFor size.toNat := by
  have hmod : (size % 4096).toNat = size.toNat % 4096 := rfl
  have hdiv : ∀ w : Word, (w / 4096).toNat = w.toNat / 4096 := fun _ => rfl
  have hpage : (4096 : Word).toNat = 4096 := rfl
  unfold heapTotalBlocks heapAlignValueToUpper blocksFor
  rw [hdiv]
  split
  · next hzero =>
    have h0 : size.toNat % 4096 = 0 := by rw [← hmod, hzero]; rfl
    omega
  · next hzero =>
    have h0 : size.toNat % 4096 ≠ 0 := fun h => hzero (BitVec.eq_of_toNat_eq (hmod.trans h))
    have hsub : (size - size % 4096).toNat = size.toNat - size.toNat % 4096 := by
      rw [BitVec.toNat_sub_of_le (by rw [BitVec.le_def, hmod]; omega), hmod]
    rw [BitVec.toNat_add, hsub, hpage]
    omega

theorem blocksFor_pos {size : ℕ} (hsize : 0 < size) : 0 < blocksFor size := by
  unfold blocksFor; omega

/-- A page takes one block. -/
theorem blocksFor_page : blocksFor (4096 : Word).toNat = 1 := by decide

theorem le_blocksFor_mul (size : ℕ) : size ≤ 4096 * blocksFor size := by
  unfold blocksFor; omega

/-- **What `heap_malloc` does.** It takes the lowest free run that is
long enough; failing that, it takes a run that starts with the free
stretch at the table's end and goes past it; where the last entry is
taken it returns null. -/
theorem heapMalloc_cases (hp : h.Placed) (hpos : 0 < size.toNat)
    (hsize : size.toNat ≤ 0xFFFFF000) :
    (∃ b, FirstFit h.Free h.total (blocksFor size.toNat) b ∧
      heapMalloc h size =
        (heapBlockToAddress h b, heapMarkBlocksTaken b (heapTotalBlocks size))) ∨
    (∃ c, Scan h.Free (blocksFor size.toNat) h.total c ∧ 0 < c ∧
      heapMalloc h size = (heapBlockToAddress h ((h.total - c : ℕ) : ℤ),
        heapMarkBlocksTaken ((h.total - c : ℕ) : ℤ) (heapTotalBlocks size))) ∨
    (Scan h.Free (blocksFor size.toNat) h.total 0 ∧ heapMalloc h size = (0, [])) := by
  have htot := hp.total_lt
  have hblocks := toNat_heapTotalBlocks hsize
  have hk : 0 < (heapTotalBlocks size).toNat := hblocks ▸ blocksFor_pos hpos
  unfold heapMalloc heapMallocBlocks
  rw [← hblocks]
  rcases heapGetStartBlock_cases (h := h) (by omega) hk with ⟨b, hb, heq⟩ | ⟨c, hc, heq⟩
  · refine Or.inl ⟨b, hb, ?_⟩
    simp only [heq]
    rw [if_neg (by omega)]
  · have hle := hc.le
    rcases Nat.eq_zero_or_pos c with rfl | hcpos
    · refine Or.inr (Or.inr ⟨hc, ?_⟩)
      simp only [heq, if_true]
      rw [if_pos (by decide)]
    · refine Or.inr (Or.inl ⟨c, hc, hcpos, ?_⟩)
      rw [if_neg (by omega)] at heq
      simp only [heq]
      rw [if_neg (by omega)]

/-- With a run to take, `heap_malloc` takes it. -/
theorem heapMalloc_of_firstFit (hp : h.Placed) (hpos : 0 < size.toNat)
    (hsize : size.toNat ≤ 0xFFFFF000)
    (hfit : FirstFit h.Free h.total (blocksFor size.toNat) b) :
    heapMalloc h size = (heapBlockToAddress h b, heapMarkBlocksTaken b (heapTotalBlocks size)) := by
  rcases heapMalloc_cases hp hpos hsize with ⟨b', hb', heq⟩ | ⟨c, hc, -, -⟩ | ⟨hc, -⟩
  · rw [heq, hb'.unique hfit]
  · exact absurd hfit.1 (hc.passed b)
  · exact absurd hfit.1 (hc.passed b)

/-! ### No blocks

A size of 0, and one within a page of `2 ^ 32`, come to no blocks. The
scan is never satisfied then: it goes through the whole table, and
answers with where the free stretch at its end starts. No entry is
written. -/

/-- The top sizes wrap. -/
theorem heapTotalBlocks_top (hsize : 0xFFFFF000 < size.toNat) : heapTotalBlocks size = 0 := by
  have hmod : (size % 4096).toNat = size.toNat % 4096 := rfl
  have hlt := size.isLt
  have hne : ¬ size % 4096 = 0 := by
    intro h
    rw [h] at hmod
    change 0 = _ at hmod
    omega
  have hsum : size - size % 4096 + 4096 = 0 := by
    apply BitVec.eq_of_toNat_eq
    rw [BitVec.toNat_add, BitVec.toNat_sub_of_le (by rw [BitVec.le_def, hmod]; omega), hmod]
    change (size.toNat - size.toNat % 4096 + 4096) % 2 ^ 32 = 0
    omega
  unfold heapTotalBlocks heapAlignValueToUpper
  rw [if_neg hne, hsum]
  rfl

/-- The sizes that come to no blocks. -/
theorem heapTotalBlocks_eq_zero (hsize : ¬ (0 < size.toNat ∧ size.toNat ≤ 0xFFFFF000)) :
    heapTotalBlocks size = 0 := by
  by_cases hzero : size.toNat = 0
  · have hsize0 : size = 0 := BitVec.eq_of_toNat_eq hzero
    rw [hsize0]
    decide
  · exact heapTotalBlocks_top (by omega)

/-- No entry is marked for no blocks. -/
theorem heapMarkBlocksTaken_zero (hb : b < 2 ^ 31) : heapMarkBlocksTaken b 0 = [] := by
  have hend : int32 ((b : ℤ) + (0 : Word).toNat - 1) = b - 1 := by
    have h0 : (((0 : Word).toNat : ℕ) : ℤ) = 0 := rfl
    rw [h0, int32_of_range (by omega) (by omega)]
    omega
  unfold heapMarkBlocksTaken
  simp only [hend]
  rw [show ((b : ℤ) - 1 + 1 - b).toNat = 0 by omega]
  rfl

/-- **`heap_malloc` for no blocks** writes nothing. It answers null with
the last entry taken, and else where the free stretch at the table's end
starts. -/
theorem heapMalloc_of_zero (hp : h.Placed) (h0 : heapTotalBlocks size = 0) :
    (heapMalloc h size = (0, []) ∧ Scan h.Free (2 ^ 32) h.total 0) ∨
      ∃ c, 0 < c ∧ Scan h.Free (2 ^ 32) h.total c ∧
        heapMalloc h size = (heapBlockToAddress h ((h.total - c : ℕ) : ℤ), []) := by
  have htot := hp.total_lt
  unfold heapMalloc heapMallocBlocks
  rw [h0]
  rcases heapGetStartBlock_spec (h := h) (by omega) 0 with ⟨b, hb, -⟩ | ⟨c, hc, heq⟩
  · have hle : b + 2 ^ 32 ≤ h.total := hb.1.1
    omega
  · have hle := hc.le
    rcases Nat.eq_zero_or_pos c with rfl | hpos
    · refine Or.inl ⟨?_, hc⟩
      rw [if_pos rfl] at heq
      simp only [heq]
      rw [if_pos (by decide)]
    · refine Or.inr ⟨c, hpos, hc, ?_⟩
      rw [if_neg (by omega), int32_of_range (by omega) (by omega)] at heq
      simp only [heq]
      rw [if_neg (by omega), heapMarkBlocksTaken_zero (by omega)]

/-- For no blocks no entry is written. -/
theorem heapMalloc_writes_of_zero (hp : h.Placed) (h0 : heapTotalBlocks size = 0) :
    (heapMalloc h size).2 = [] := by
  rcases heapMalloc_of_zero hp h0 with ⟨heq, -⟩ | ⟨c, -, -, heq⟩
  · rw [heq]
  · rw [heq]

/-! ## `heap_free` -/

/-- `heap_free` of a chain in the lower 2 GiB frees its blocks. -/
theorem heapFree_of_chain (hp : h.Placed) (c : h.Chain b k) (hle : b + k ≤ h.total)
    (hlow : b < 2 ^ 19) :
    heapFree h (heapBlockToAddress h b) =
      (List.range' b k).map fun i => (i, heapBlockTableEntryFree) := by
  have hpos := c.pos
  unfold heapFree
  rw [heapAddressToBlock_heapBlockToAddress hp (by omega) hlow]
  exact heapMarkBlocksFree_of_chain c hle (by omega)

/-- The table after it. -/
theorem entries_heapFree (hp : h.Placed) (c : h.Chain b k) (hle : b + k ≤ h.total)
    (hlow : b < 2 ^ 19) (i : ℕ) :
    (h.write (heapFree h (heapBlockToAddress h b))).entries i =
      if b ≤ i ∧ i < b + k then heapBlockTableEntryFree else h.entries i := by
  have hpos := c.pos
  unfold heapFree
  rw [heapAddressToBlock_heapBlockToAddress hp (by omega) hlow]
  exact entries_markBlocksFree c hle (by omega)

/-- **A pointer 2 GiB or more above the heap's start frees nothing**: the
signed offset is negative, and the block it gives lies past the table. -/
theorem heapFree_of_high (hp : h.Placed) (hb : b < h.total) (hhigh : 2 ^ 19 ≤ b) :
    heapFree h (heapBlockToAddress h b) = [] := by
  have htot := hp.total_lt
  have hoff := toNat_heapBlockToAddress_sub hp hb
  have hint : (heapBlockToAddress h b - h.startAddress).toInt = ((b : ℤ) - 2 ^ 20) * 4096 := by
    rw [BitVec.toInt_eq_toNat_cond, if_neg (by omega), hoff]
    push_cast
    ring
  have hblock : heapAddressToBlock h (heapBlockToAddress h b) = (b : ℤ) - 2 ^ 20 := by
    unfold heapAddressToBlock heapBlockSize
    rw [hint]
    exact Int.mul_tdiv_cancel _ (by decide)
  unfold heapFree
  refine heapMarkBlocksFree_past ?_
  rw [hblock]
  unfold uint32
  omega

/-- The heap after pointers are freed one after the other. -/
def Heap.freeAll (h : Heap) (ps : List Word) : Heap :=
  ps.foldl (fun h p => h.write (heapFree h p)) h

@[simp] theorem Heap.freeAll_nil (h : Heap) : h.freeAll [] = h := rfl

@[simp] theorem Heap.freeAll_cons (h : Heap) (p : Word) (ps : List Word) :
    h.freeAll (p :: ps) = (h.write (heapFree h p)).freeAll ps := rfl

@[simp] theorem Heap.freeAll_total (h : Heap) (ps : List Word) : (h.freeAll ps).total = h.total := by
  induction ps generalizing h with
  | nil => rfl
  | cons p ps ih => exact ih _

theorem Heap.freeAll_append (h : Heap) (ps qs : List Word) :
    h.freeAll (ps ++ qs) = (h.freeAll ps).freeAll qs := List.foldl_append ..

end OwnKernel
