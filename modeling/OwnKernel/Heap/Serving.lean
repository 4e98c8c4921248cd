import OwnKernel.Heap.Runs

/-!
# What `heap_malloc` answers

A caller of `heap_malloc_blocks` expects the lowest run that is long
enough, and null when there is none (`Heap.AllocatesFirstFit`); a caller
of `heap_malloc` expects that the bytes it asked for are marked
(`Heap.MarksAnswer`). Neither holds of every table. The search returns
the free stretch at the table's end however short it is, and a size that
rounds to no blocks is answered with that stretch as well, so each
expectation is met exactly when a run is there or the table's last entry
is taken.
-/

namespace OwnKernel

variable {h : Heap} {k size : Word} {b t : ℕ}

/-! ## First fit -/

/-- **First fit**: the address of the lowest run of `k` free entries; and
null, with the table as it was, exactly when there is no such run. -/
def Heap.AllocatesFirstFit (h : Heap) (k : Word) : Prop :=
  (∀ b, FirstFit h.Free h.total k.toNat b → (heapMallocBlocks h k).1 = heapBlockToAddress h b) ∧
    (heapMallocBlocks h k = (0, []) ↔ ¬ ∃ b, Fits h.Free h.total k.toNat b)

/-- The free stretch at the table's end starts at entry `t`. -/
structure Heap.EndStretch (h : Heap) (t : ℕ) : Prop where
  lt : t < h.total
  free : ∀ i, t ≤ i → i < h.total → h.Free i
  maximal : 0 < t → ¬ h.Free (t - 1)

/-- The stretch at the table's end is one. -/
theorem Heap.EndStretch.unique {t' : ℕ} (e : h.EndStretch t) (e' : h.EndStretch t') : t = t' := by
  have hlt := e.lt
  have hlt' := e'.lt
  by_contra hne
  rcases Nat.lt_or_gt_of_ne hne with h1 | h1
  · exact e'.maximal (by omega) (e.free (t' - 1) (by omega) (by omega))
  · exact e.maximal (by omega) (e'.free (t - 1) (by omega) (by omega))

/-- With the last entry free there is such a stretch. -/
theorem Heap.exists_endStretch (h0 : 0 < h.total) (hlast : h.Free (h.total - 1)) :
    ∃ t, h.EndStretch t := by
  classical
  have hex : ∃ t, t < h.total ∧ ∀ i, t ≤ i → i < h.total → h.Free i := by
    refine ⟨h.total - 1, by omega, fun i h1 h2 => ?_⟩
    rwa [show i = h.total - 1 by omega]
  refine ⟨Nat.find hex, (Nat.find_spec hex).1, (Nat.find_spec hex).2, fun hpos hfree => ?_⟩
  -- a free entry below the lowest start would be a lower one
  refine Nat.find_min hex (Nat.sub_lt hpos Nat.one_pos) ⟨?_, fun i h1 h2 => ?_⟩
  · have := (Nat.find_spec hex).1
    omega
  · by_cases hi : i = Nat.find hex - 1
    · exact hi ▸ hfree
    · exact (Nat.find_spec hex).2 i (by omega) h2

/-- A search that ends with a count ends in that stretch. -/
theorem Scan.endStretch {c n : ℕ} (hc : Scan h.Free n h.total c) (hpos : 0 < c) :
    h.EndStretch (h.total - c) := by
  have hle := hc.le
  exact ⟨by omega, fun i h1 h2 => hc.run i (by omega) h2, fun h0 => hc.maximal (by omega)⟩

/-- A search that ends without one ends at a taken entry. -/
theorem Scan.not_endStretch {n : ℕ} (hc : Scan h.Free n h.total 0) : ¬ h.EndStretch t := by
  intro e
  have hlt := e.lt
  exact hc.maximal (by omega) (e.free (h.total - 1) (by omega) (by omega))

/-- The answer for the block found: an index past the `int`s reads as an
error. -/
def Heap.answer (h : Heap) (k : Word) (b : ℕ) : Word × List TableWrite :=
  if b < 2 ^ 31 then (heapBlockToAddress h b, heapMarkBlocksTaken b k) else (0, [])

/-- **What `heap_malloc_blocks` does**, for a table as long as a `size_t`
can say. -/
theorem heapMallocBlocks_cases (htot : h.total < 2 ^ 32) (hk : 0 < k.toNat) :
    (∃ b, FirstFit h.Free h.total k.toNat b ∧ heapMallocBlocks h k = h.answer k b) ∨
    (∃ t, (∀ b, ¬ Fits h.Free h.total k.toNat b) ∧ h.EndStretch t ∧
      heapMallocBlocks h k = h.answer k t) ∨
    ((∀ b, ¬ Fits h.Free h.total k.toNat b) ∧ (∀ t, ¬ h.EndStretch t) ∧
      heapMallocBlocks h k = (0, [])) := by
  have hanswer : ∀ b : ℕ, b < 2 ^ 32 → heapGetStartBlock h k = int32 b →
      heapMallocBlocks h k = h.answer k b := by
    intro b hb heq
    unfold heapMallocBlocks Heap.answer
    simp only [heq]
    by_cases hlt : b < 2 ^ 31
    · rw [int32_of_range (by omega) (by omega), if_neg (by omega), if_pos hlt]
    · rw [if_pos (by unfold int32; omega), if_neg hlt]
  rcases heapGetStartBlock_spec htot k with ⟨b, hb, heq⟩ | ⟨c, hc, heq⟩
  · rw [searchLength_of_pos hk] at hb
    have hle := hb.1.1
    exact Or.inl ⟨b, hb, hanswer b (by omega) heq⟩
  · rw [searchLength_of_pos hk] at hc
    rcases Nat.eq_zero_or_pos c with rfl | hpos
    · rw [if_pos rfl] at heq
      refine Or.inr (Or.inr ⟨hc.passed, fun t => hc.not_endStretch, ?_⟩)
      unfold heapMallocBlocks
      simp only [heq]
      rw [if_pos (by decide)]
    · rw [if_neg (by omega)] at heq
      exact Or.inr (Or.inl ⟨_, hc.passed, hc.endStretch hpos, hanswer _ (by omega) heq⟩)

/-- Marking writes something unless the run's last index is past the
`int`s. -/
theorem heapMarkBlocksTaken_eq_nil (hk : 0 < k.toNat) (hb : b < 2 ^ 31) :
    heapMarkBlocksTaken b k = [] ↔ 2 ^ 31 < b + k.toNat := by
  have hlt := k.isLt
  constructor
  · intro hnil
    by_contra hle
    rw [heapMarkBlocksTaken_eq hk (by omega), List.map_eq_nil_iff, List.range_eq_nil] at hnil
    omega
  · intro hlong
    have hend : int32 ((b : ℤ) + k.toNat - 1) = (b : ℤ) + k.toNat - 1 - 2 ^ 32 := by
      unfold int32
      omega
    unfold heapMarkBlocksTaken
    simp only [hend]
    have hrounds : ((b : ℤ) + k.toNat - 1 - 2 ^ 32 + 1 - b).toNat = 0 := by omega
    rw [hrounds]
    rfl

/-- The answer for block `b` is null, with nothing marked. -/
def Heap.Silent (h : Heap) (k : Word) (b : ℕ) : Prop :=
  2 ^ 31 ≤ b ∨ heapBlockToAddress h b = 0 ∧ 2 ^ 31 < b + k.toNat

theorem answer_eq_zero (hk : 0 < k.toNat) : h.answer k b = (0, []) ↔ h.Silent k b := by
  unfold Heap.answer Heap.Silent
  by_cases hb : b < 2 ^ 31
  · rw [if_pos hb, Prod.mk.injEq, heapMarkBlocksTaken_eq_nil hk hb]
    exact ⟨Or.inr, fun hs => hs.resolve_left (by omega)⟩
  · rw [if_neg hb]
    exact ⟨fun _ => Or.inl (by omega), fun _ => rfl⟩

/-- **The requests served first fit.** The lowest run is one the answer
can name; and where there is no run, nor is there a free stretch at the
table's end, or the answer cannot name it. -/
structure Heap.Serves (h : Heap) (k : Word) : Prop where
  found : ∀ b, FirstFit h.Free h.total k.toNat b → ¬ h.Silent k b
  refused : (∀ b, ¬ Fits h.Free h.total k.toNat b) → ∀ t, h.EndStretch t → h.Silent k t

/-- In the address space every block can be named, so what is served is
what the table answers: there is a run, or the last entry is taken. -/
theorem serves_iff_answers (hp : h.Placed) (hk : 0 < k.toNat) :
    h.Serves k ↔ h.Answers k.toNat := by
  have htot := hp.total_lt
  have hnamed : ∀ b, b < h.total → ¬ h.Silent k b := by
    rintro b hb (hbig | ⟨hnull, -⟩)
    · omega
    · exact heapBlockToAddress_ne_zero hp hb hnull
  constructor
  · intro hs
    by_cases hfit : ∃ b, Fits h.Free h.total k.toNat b
    · exact Or.inl hfit
    · refine Or.inr ?_
      by_contra hlast
      obtain ⟨h0, hfree⟩ := not_or.1 hlast
      obtain ⟨t, he⟩ := h.exists_endStretch (by omega) (not_not.1 hfree)
      exact hnamed t he.lt (hs.refused (fun b hb => hfit ⟨b, hb⟩) t he)
  · intro ha
    refine ⟨fun b hb => ?_, fun hno t he => ?_⟩
    · have hle := hb.1.1
      exact hnamed b (by omega)
    · have hlt := he.lt
      rcases ha with ⟨b, hb⟩ | h0 | hlast
      · exact absurd hb (hno b)
      · omega
      · exact absurd (he.free (h.total - 1) (by omega) (by omega)) hlast

/-- **When `heap_malloc_blocks` is first fit**, for tables of any length
and contents. -/
theorem heapMallocBlocks_firstFit_iff (htot : h.total < 2 ^ 32) (hk : 0 < k.toNat) :
    (h.AllocatesFirstFit k ↔ h.Serves k) ∧ (h.Placed → (h.Serves k ↔ h.Answers k.toNat)) := by
  refine ⟨?_, fun hp => serves_iff_answers hp hk⟩
  rcases heapMallocBlocks_cases htot hk with ⟨b, hb, heq⟩ | ⟨t, hno, he, heq⟩ | ⟨hno, hend, heq⟩
  · -- there is a run, and the answer is for the lowest
    have hfit : ∃ b, Fits h.Free h.total k.toNat b := ⟨b, hb.1⟩
    constructor
    · rintro ⟨-, hnull⟩
      refine ⟨fun b' hb' hs => ?_, fun hno => absurd hb.1 (hno b)⟩
      rw [hb'.unique hb, ← answer_eq_zero hk, ← heq] at hs
      exact hnull.1 hs hfit
    · intro hs
      have hne := hs.found b hb
      have hlt : b < 2 ^ 31 := by
        by_contra hge
        exact hne (Or.inl (by omega))
      refine ⟨fun b' hb' => ?_, fun hnull => ?_, fun hno => absurd hfit hno⟩
      · rw [heq, Heap.answer, if_pos hlt, hb'.unique hb]
      · rw [heq, answer_eq_zero hk] at hnull
        exact absurd hnull hne
  · -- there is none, and the answer is for the stretch at the table's end
    constructor
    · rintro ⟨-, hnull⟩
      refine ⟨fun b hb => absurd hb.1 (hno b), fun _ t' he' => ?_⟩
      rw [he'.unique he, ← answer_eq_zero hk, ← heq]
      exact hnull.2 fun ⟨b, hb⟩ => hno b hb
    · intro hs
      refine ⟨fun b hb => absurd hb.1 (hno b), fun _ ⟨b, hb⟩ => hno b hb, fun _ => ?_⟩
      rw [heq, answer_eq_zero hk]
      exact hs.refused hno t he
  · constructor
    · intro _
      exact ⟨fun b hb => absurd hb.1 (hno b), fun _ t he => absurd he (hend t)⟩
    · intro _
      exact ⟨fun b hb => absurd hb.1 (hno b), fun _ ⟨b, hb⟩ => hno b hb, fun _ => heq⟩

/-- The kernel's heap serves a request for two blocks. -/
theorem heapMallocBlocks_firstFit_iff_kernelHeapInit :
    (kernelHeapInit.AllocatesFirstFit 2 ↔ kernelHeapInit.Serves 2) ∧
      (kernelHeapInit.Placed → (kernelHeapInit.Serves 2 ↔ kernelHeapInit.Answers 2)) :=
  heapMallocBlocks_firstFit_iff (by decide) (by decide)

/-- **`heap_malloc_blocks` is not first fit**: one free block, and two
asked for. -/
theorem heapMallocBlocks_not_firstFit :
    ¬ ∀ (h : Heap) (k : Word), h.Placed → 0 < k.toNat → h.AllocatesFirstFit k := by
  intro hall
  let h : Heap := ⟨fun _ => heapBlockTableEntryFree, 1, heapAddress⟩
  have hnull := (hall h 2 ⟨by decide, by decide⟩ (by decide)).2.2 fun ⟨b, hb⟩ => by
    have hle : b + 2 ≤ 1 := hb.1
    omega
  have hwrites : (heapMallocBlocks h 2).2 = [(0, 0xC1), (1, 0x01)] := by decide
  rw [hnull] at hwrites
  cases hwrites

/-! ## Sizes -/

/-- **A pointer stands for marked blocks**: where `heap_malloc` answers
with a pointer, the `⌈size / 4096⌉` blocks from it on, and one at least,
were free entries of the table and are taken after. -/
def Heap.MarksAnswer (h : Heap) (size : Word) : Prop :=
  (heapMalloc h size).1 ≠ 0 →
    ∀ i, ((heapMalloc h size).1 - h.startAddress).toNat / 4096 ≤ i →
      i < ((heapMalloc h size).1 - h.startAddress).toNat / 4096 + max 1 (blocksFor size.toNat) →
        i < h.total ∧ h.Free i ∧ ¬ (h.write (heapMalloc h size).2).Free i

/-- The requests that are answered as they should be: the size comes to
blocks and a run is there, or the table's last entry is taken. -/
def Heap.HonoursSize (h : Heap) (size : Word) : Prop :=
  (0 < size.toNat ∧ size.toNat ≤ 0xFFFFF000 ∧
    ∃ b, Fits h.Free h.total (blocksFor size.toNat) b) ∨
  h.total = 0 ∨ ¬ h.Free (h.total - 1)

/-- The block a pointer to one stands for. -/
theorem block_of_address (hp : h.Placed) (hb : b < h.total) :
    (heapBlockToAddress h b - h.startAddress).toNat / 4096 = b := by
  rw [toNat_heapBlockToAddress_sub hp hb]
  omega

/-- A run is marked whole. -/
theorem marksAnswer_of_fits (hp : h.Placed) (hpos : 0 < size.toNat)
    (hsize : size.toNat ≤ 0xFFFFF000) (hfit : Fits h.Free h.total (blocksFor size.toNat) b)
    (heq : heapMalloc h size =
      (heapBlockToAddress h b, heapMarkBlocksTaken b (heapTotalBlocks size))) :
    h.MarksAnswer size := by
  intro _ i h1 h2
  have htot := hp.total_lt
  have hle := hfit.1
  have hk := blocksFor_pos hpos
  have hblocks := toNat_heapTotalBlocks hsize
  rw [heq] at h1 h2 ⊢
  rw [block_of_address hp (by omega)] at h1 h2
  rw [max_eq_right hk] at h2
  have hc := chain_markBlocksTaken (h := h) (b := b) (k := heapTotalBlocks size)
    (by omega) (by omega)
  rw [hblocks] at hc
  exact ⟨by omega, hfit.2 i h1 h2, hc.not_free h1 h2⟩

/-- A stretch shorter than the request is not in the table whole. -/
theorem not_marksAnswer_of_short {c : ℕ} (hp : h.Placed) (hcpos : 0 < c)
    (hc : Scan h.Free (blocksFor size.toNat) h.total c)
    (heq : (heapMalloc h size).1 = heapBlockToAddress h ((h.total - c : ℕ) : ℤ)) :
    ¬ h.MarksAnswer size := by
  intro hmarks
  have hle := hc.le
  have hlt := hc.lt
  have hb : h.total - c < h.total := by omega
  have hne : (heapMalloc h size).1 ≠ 0 := heq ▸ heapBlockToAddress_ne_zero hp hb
  have hblock : ((heapMalloc h size).1 - h.startAddress).toNat / 4096 = h.total - c :=
    heq ▸ block_of_address hp hb
  have hmarks' := hmarks hne h.total
  rw [hblock] at hmarks'
  exact absurd (hmarks' (by omega) (by omega)).1 (Nat.lt_irrefl _)

/-- With nothing written, nothing is taken that was free. -/
theorem not_marksAnswer_of_nil (hp : h.Placed) (hb : b < h.total)
    (heq : heapMalloc h size = (heapBlockToAddress h b, [])) : ¬ h.MarksAnswer size := by
  intro hmarks
  have hmarks' := hmarks (by rw [heq]; exact heapBlockToAddress_ne_zero hp hb) b
  rw [heq, block_of_address hp hb] at hmarks'
  obtain ⟨-, hfree, htaken⟩ := hmarks' le_rfl (by omega)
  exact htaken hfree

/-- **When a pointer stands for marked blocks**, for every size and every
table, whatever led to it. -/
theorem heapMalloc_marksAnswer_iff (hp : h.Placed) :
    h.MarksAnswer size ↔ h.HonoursSize size := by
  have hnull : heapMalloc h size = (0, []) → h.MarksAnswer size := by
    intro heq hne
    rw [heq] at hne
    exact absurd rfl hne
  have hlast : ∀ {n : ℕ}, Scan h.Free n h.total 0 → h.HonoursSize size := by
    intro n hs
    refine Or.inr ?_
    by_contra hno
    obtain ⟨h0, hfree⟩ := not_or.1 hno
    exact hs.maximal (by omega) (not_not.1 hfree)
  by_cases hsize : 0 < size.toNat ∧ size.toNat ≤ 0xFFFFF000
  · rcases heapMalloc_cases hp hsize.1 hsize.2 with ⟨b, hb, heq⟩ | ⟨c, hc, hcpos, heq⟩ | ⟨hc, heq⟩
    · exact ⟨fun _ => Or.inl ⟨hsize.1, hsize.2, b, hb.1⟩,
        fun _ => marksAnswer_of_fits hp hsize.1 hsize.2 hb.1 heq⟩
    · refine ⟨fun hm => absurd hm (not_marksAnswer_of_short hp hcpos hc (by rw [heq])), ?_⟩
      have hle := hc.le
      rintro (⟨-, -, b, hb⟩ | h0 | htaken)
      · exact absurd hb (hc.passed b)
      · omega
      · exact absurd (hc.run _ (by omega) (by omega)) htaken
    · exact ⟨fun _ => hlast hc, fun _ => hnull heq⟩
  · -- the size comes to no blocks
    rcases heapMalloc_of_zero hp (heapTotalBlocks_eq_zero hsize) with ⟨heq, hc⟩ | ⟨c, hcpos, hc, heq⟩
    · exact ⟨fun _ => hlast hc, fun _ => hnull heq⟩
    · have hle := hc.le
      refine ⟨fun hm => absurd hm (not_marksAnswer_of_nil hp (by omega) heq), ?_⟩
      rintro (⟨h1, h2, -⟩ | htot | htaken)
      · exact absurd ⟨h1, h2⟩ hsize
      · omega
      · exact absurd (hc.run _ (by omega) (by omega)) htaken

/-- The kernel's heap, and a request of one byte. -/
theorem heapMalloc_marksAnswer_iff_kernelHeapInit :
    kernelHeapInit.MarksAnswer 1 ↔ kernelHeapInit.HonoursSize 1 :=
  heapMalloc_marksAnswer_iff placed_kernelHeapInit

/-- **A pointer need not stand for marked blocks**: no bytes are asked
for, and the first block's address is answered. -/
theorem heapMalloc_not_marksAnswer :
    ¬ ∀ (h : Heap) (size : Word), h.Placed → h.MarksAnswer size := by
  intro hall
  let h : Heap := ⟨fun _ => heapBlockTableEntryFree, 1, heapAddress⟩
  have hp : h.Placed := ⟨by decide, by decide⟩
  have heq : heapMalloc h 0 = (heapBlockToAddress h (0 : ℕ), []) := by decide
  exact not_marksAnswer_of_nil hp Nat.one_pos heq (hall h 0 hp)

end OwnKernel
