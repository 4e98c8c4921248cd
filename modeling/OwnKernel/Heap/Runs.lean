import OwnKernel.Heap.Calls
import Mathlib.Logic.Relation
import Mathlib.Data.List.Nodup

/-!
# Runs of the block heap

A run is any sequence of `heap_malloc` and `heap_free` calls in which
only live pointers are freed. `HeapRun` pairs the heap with the ghost
list of live allocations; `HeapRun.Sound` is what a caller expects of
the two: live allocations are whole, disjoint and inside the table, and
nothing else is taken. A request that no run of free entries can serve,
made while the last entry is free, is the one the source gets wrong: the
search falls off the table with a partial run in hand and the marking
loop goes on past the end (`heapMalloc_overrun`).
-/

namespace OwnKernel

/-- A heap and the live allocations: pointer and size, newest first. -/
structure HeapRun where
  heap : Heap
  live : List (Word × Word)

/-- A call of the heap's interface. -/
inductive HeapCall
  | malloc (size : Word)
  | free (ptr : Word)

/-- The table writes of a call. -/
def HeapCall.writes (s : HeapRun) : HeapCall → List TableWrite
  | .malloc size => (heapMalloc s.heap size).2
  | .free ptr => heapFree s.heap ptr

/-- The live allocations after a call. -/
def HeapCall.live (s : HeapRun) : HeapCall → List (Word × Word)
  | .malloc size =>
    let ptr := (heapMalloc s.heap size).1
    if ptr = 0 then s.live else (ptr, size) :: s.live
  | .free ptr => s.live.filter fun a => a.1 ≠ ptr

/-- The run after a call. -/
def HeapRun.call (s : HeapRun) (c : HeapCall) : HeapRun where
  heap := s.heap.write (c.writes s)
  live := c.live s

/-- **The calls a caller may make**: sizes from 1 to the last page of the
address space, and frees of live pointers. -/
def HeapCall.Allowed (s : HeapRun) : HeapCall → Prop
  | .malloc size => 0 < size.toNat ∧ size.toNat ≤ 0xFFFFF000
  | .free ptr => ∃ a ∈ s.live, a.1 = ptr

/-- Entry `i` is one of the `⌈size / 4096⌉` blocks from the pointer on. -/
def Heap.Occupies (h : Heap) (a : Word × Word) (i : ℕ) : Prop :=
  (a.1 - h.startAddress).toNat / 4096 ≤ i ∧
    i < (a.1 - h.startAddress).toNat / 4096 + blocksFor a.2.toNat

/-- **What callers expect of a heap.** -/
structure HeapRun.Sound (s : HeapRun) : Prop where
  /-- A live allocation's blocks are in the table. -/
  below : ∀ a ∈ s.live, ∀ i, s.heap.Occupies a i → i < s.heap.total
  /-- Live allocations are pairwise disjoint. -/
  disjoint : s.live.Pairwise fun a a' => ∀ i, ¬ (s.heap.Occupies a i ∧ s.heap.Occupies a' i)
  /-- The taken entries are those of live allocations. -/
  taken : ∀ i, i < s.heap.total → (¬ s.heap.Free i ↔ ∃ a ∈ s.live, s.heap.Occupies a i)

/-- Every entry of the table is free. -/
def Heap.AllFree (h : Heap) : Prop := ∀ i, i < h.total → h.entries i = heapBlockTableEntryFree

/-- A request for `k` blocks that the table can answer: `k` consecutive
entries are free, or the last entry is taken. -/
def Heap.Answers (h : Heap) (k : ℕ) : Prop :=
  (∃ b, Fits h.Free h.total k b) ∨ h.total = 0 ∨ ¬ h.Free (h.total - 1)

/-- **The calls the source serves correctly**: requests the table can
answer, and frees in the lower 2 GiB of the heap. -/
def HeapCall.Meets (s : HeapRun) : HeapCall → Prop
  | .malloc size => s.heap.Answers (blocksFor size.toNat)
  | .free ptr => (ptr - s.heap.startAddress).toNat < 2 ^ 31

/-- Some allowed call leads from one run to the next. -/
def HeapStep (s t : HeapRun) : Prop := ∃ c : HeapCall, c.Allowed s ∧ t = s.call c

/-- Some allowed call that meets the condition does. -/
def HeapStepMeets (s t : HeapRun) : Prop := ∃ c : HeapCall, c.Allowed s ∧ c.Meets s ∧ t = s.call c

/-! ## The invariant -/

/-- **The invariant.** The heap is the one the run began with, up to its
entries; live pointers are distinct, each starts a chain of its size in
the table, and no other entry is taken. -/
structure HeapRun.Inv (h : Heap) (s : HeapRun) : Prop where
  total : s.heap.total = h.total
  start : s.heap.startAddress = h.startAddress
  nodup : (s.live.map Prod.fst).Nodup
  chain : ∀ a ∈ s.live, ∃ b : ℕ, a.1 = heapBlockToAddress s.heap b ∧
    b + blocksFor a.2.toNat ≤ h.total ∧ s.heap.Chain b (blocksFor a.2.toNat)
  covered : ∀ i, i < h.total → ¬ s.heap.Free i → ∃ a ∈ s.live, s.heap.Occupies a i

variable {h : Heap} {s : HeapRun} {size ptr : Word} {a a' : Word × Word} {i b k : ℕ}

namespace HeapRun.Inv

/-- The heap of the run is placed where the first one was. -/
theorem placed (hi : s.Inv h) (hp : h.Placed) : s.heap.Placed :=
  ⟨hi.start ▸ hp.pos, hi.total ▸ hi.start ▸ hp.fits⟩

/-- Where a live allocation starts. -/
theorem exists_block (hi : s.Inv h) (hp : h.Placed) (ha : a ∈ s.live) :
    ∃ b : ℕ, a.1 = heapBlockToAddress s.heap b ∧ (a.1 - s.heap.startAddress).toNat / 4096 = b ∧
      b + blocksFor a.2.toNat ≤ s.heap.total ∧ s.heap.Chain b (blocksFor a.2.toNat) := by
  obtain ⟨b, hb, hle, hc⟩ := hi.chain a ha
  have hpos := hc.pos
  rw [← hi.total] at hle
  refine ⟨b, hb, ?_, hle, hc⟩
  rw [hb, toNat_heapBlockToAddress_sub (hi.placed hp) (by omega)]
  omega

/-- **The invariant gives what callers expect.** -/
theorem sound (hi : s.Inv h) (hp : h.Placed) : s.Sound where
  below a ha i hocc := by
    obtain ⟨b, -, hb, hle, -⟩ := hi.exists_block hp ha
    have := hocc.2
    omega
  disjoint := by
    have hpw : s.live.Pairwise fun a a' => a.1 ≠ a'.1 := List.pairwise_map.1 hi.nodup
    refine hpw.imp_of_mem fun {a a'} ha ha' hne i hocc => ?_
    obtain ⟨b, hptr, hb, -, hc⟩ := hi.exists_block hp ha
    obtain ⟨b', hptr', hb', -, hc'⟩ := hi.exists_block hp ha'
    have hbb : b ≠ b' := fun h => hne (by rw [hptr, hptr', h])
    obtain ⟨⟨h1, h2⟩, h3, h4⟩ := hocc
    rw [hb] at h1 h2
    rw [hb'] at h3 h4
    rcases hc.disjoint hc' hbb with hd | hd <;> omega
  taken i hlt := by
    refine ⟨hi.covered i (hi.total ▸ hlt), ?_⟩
    rintro ⟨a, ha, h1, h2⟩
    obtain ⟨b, -, hb, -, hc⟩ := hi.exists_block hp ha
    rw [hb] at h1 h2
    exact hc.not_free h1 h2

/-- A taken run's blocks are none of a chain's. -/
theorem chain_disjoint_fits (hi : s.Inv h) (hp : h.Placed) (ha : a ∈ s.live)
    (hb : Fits s.heap.Free s.heap.total k b) :
    ∀ j, s.heap.Occupies a j → ¬ (b ≤ j ∧ j < b + k) := by
  rintro j ⟨h1, h2⟩ ⟨h3, h4⟩
  obtain ⟨b', -, hb', -, hc⟩ := hi.exists_block hp ha
  rw [hb'] at h1 h2
  exact hc.not_free h1 h2 (hb.2 j h3 h4)

/-- **Taking a free run keeps the invariant.** -/
theorem malloc (hi : s.Inv h) (hp : h.Placed) (hpos : 0 < size.toNat)
    (hsize : size.toNat ≤ 0xFFFFF000)
    (hfit : Fits s.heap.Free s.heap.total (blocksFor size.toNat) b) :
    HeapRun.Inv h
      { heap := s.heap.write (heapMarkBlocksTaken b (heapTotalBlocks size)),
        live := (heapBlockToAddress s.heap b, size) :: s.live } := by
  have hp' := hi.placed hp
  have htot := hp'.total_lt
  have hblocks := toNat_heapTotalBlocks hsize
  have hk := blocksFor_pos hpos
  have hle := hfit.1
  have hentries : ∀ j, (s.heap.write (heapMarkBlocksTaken b (heapTotalBlocks size))).entries j =
      if b ≤ j ∧ j < b + blocksFor size.toNat then chainEntry (blocksFor size.toNat) (j - b)
      else s.heap.entries j := by
    intro j
    rw [entries_markBlocksTaken (by omega) (by omega), hblocks]
  refine ⟨hi.total, hi.start, ?_, ?_, ?_⟩
  · -- a live pointer's block is taken, the new one's was free
    refine List.nodup_cons.2 ⟨fun hmem => ?_, hi.nodup⟩
    obtain ⟨a, ha, hptr⟩ := List.mem_map.1 hmem
    obtain ⟨b', hb', -, hle', hc⟩ := hi.exists_block hp ha
    have hcpos := hc.pos
    have hbb : b' = b := heapBlockToAddress_inj hp' (by omega) (by omega) (hb'.symm.trans hptr)
    exact hc.not_free (i := b) (by omega) (by omega) (hfit.2 b le_rfl (by omega))
  · intro a ha
    rcases List.mem_cons.1 ha with rfl | ha
    · refine ⟨b, rfl, hi.total ▸ hle, ?_⟩
      have hc := chain_markBlocksTaken (h := s.heap) (b := b) (k := heapTotalBlocks size)
        (by omega) (by omega)
      rwa [hblocks] at hc
    · obtain ⟨b', hb', hoff, hle', hc⟩ := hi.exists_block hp ha
      refine ⟨b', hb', hi.total ▸ hle', hc.congr fun j h1 h2 => ?_⟩
      rw [hentries, if_neg (hi.chain_disjoint_fits hp ha hfit j ⟨by omega, by omega⟩)]
  · intro j hj hnf
    by_cases hin : b ≤ j ∧ j < b + blocksFor size.toNat
    · refine ⟨_, List.mem_cons_self, ?_⟩
      have hoff := toNat_heapBlockToAddress_sub hp' (b := b) (by omega)
      simp only [Heap.Occupies, Heap.write_startAddress, hoff]
      constructor <;> omega
    · have hnf' : ¬ s.heap.Free j := by
        unfold Heap.Free at hnf ⊢
        rwa [hentries, if_neg hin] at hnf
      obtain ⟨a, ha, hocc⟩ := hi.covered j hj hnf'
      exact ⟨a, List.mem_cons_of_mem _ ha, hocc⟩

/-- **Freeing a live allocation keeps the invariant.** -/
theorem free (hi : s.Inv h) (hp : h.Placed) (ha : a ∈ s.live)
    (hlow : (a.1 - s.heap.startAddress).toNat < 2 ^ 31) :
    HeapRun.Inv h
      { heap := s.heap.write (heapFree s.heap a.1),
        live := s.live.filter fun a' => a'.1 ≠ a.1 } := by
  have hp' := hi.placed hp
  obtain ⟨b, hb, hoff, hle, hc⟩ := hi.exists_block hp ha
  have hcpos := hc.pos
  have hentries := entries_heapFree hp' hc hle (by omega)
  rw [← hb] at hentries
  have hmem : ∀ a', a' ∈ s.live.filter (fun a' => a'.1 ≠ a.1) ↔ a' ∈ s.live ∧ a'.1 ≠ a.1 := by
    intro a'; simp [List.mem_filter]
  refine ⟨hi.total, hi.start, ?_, ?_, ?_⟩
  · exact hi.nodup.sublist (List.filter_sublist.map _)
  · intro a' ha'
    obtain ⟨ha', hne⟩ := (hmem a').1 ha'
    obtain ⟨b', hb', -, hle', hc'⟩ := hi.exists_block hp ha'
    have hbb : b ≠ b' := fun h => hne (by rw [hb, hb', h])
    refine ⟨b', hb', hi.total ▸ hle', hc'.congr fun j h1 h2 => ?_⟩
    rw [hentries, if_neg]
    rcases hc.disjoint hc' hbb with hd | hd <;> omega
  · intro j hj hnf
    have hout : ¬ (b ≤ j ∧ j < b + blocksFor a.2.toNat) := by
      intro hin
      unfold Heap.Free at hnf
      rw [hentries, if_pos hin] at hnf
      exact hnf (by decide)
    have hnf' : ¬ s.heap.Free j := by
      unfold Heap.Free at hnf ⊢
      rwa [hentries, if_neg hout] at hnf
    obtain ⟨a', ha', hocc⟩ := hi.covered j hj hnf'
    refine ⟨a', (hmem a').2 ⟨ha', fun hptr => hout ?_⟩, hocc⟩
    have haa : a' = a := List.inj_on_of_nodup_map hi.nodup ha' ha hptr
    subst haa
    obtain ⟨h1, h2⟩ : s.heap.Occupies a' j := hocc
    omega

end HeapRun.Inv

/-! ## Runs -/

/-- One step from the invariant keeps it. -/
theorem HeapRun.Inv.step {t : HeapRun} (hi : s.Inv h) (hp : h.Placed)
    (hstep : HeapStepMeets s t) : t.Inv h := by
  obtain ⟨c, hallow, hmeets, rfl⟩ := hstep
  have hp' := hi.placed hp
  cases c with
  | malloc size =>
    obtain ⟨hpos, hsize⟩ := hallow
    simp only [HeapRun.call, HeapCall.writes, HeapCall.live]
    rcases heapMalloc_cases hp' hpos hsize with ⟨b, hb, heq⟩ | ⟨c, hc, hcpos, heq⟩ | ⟨-, heq⟩
    · have hk := blocksFor_pos hpos
      have hle := hb.1.1
      simp only [heq]
      rw [if_neg (heapBlockToAddress_ne_zero hp' (by omega))]
      exact hi.malloc hp hpos hsize hb.1
    · -- the partial run at the end of the table is what the condition excludes
      have hle := hc.le
      rcases hmeets with ⟨b, hb⟩ | h0 | hnf
      · exact absurd hb (hc.passed b)
      · omega
      · exact absurd (hc.run _ (by omega) (by omega)) hnf
    · simp only [heq, if_true, Heap.write_nil]
      exact hi
  | free ptr =>
    obtain ⟨a, ha, rfl⟩ := hallow
    exact hi.free hp ha hmeets

/-- **The writes of a call stay in the table**, from the invariant. -/
theorem HeapRun.Inv.writes_lt (hi : s.Inv h) (hp : h.Placed) {c : HeapCall}
    (hallow : c.Allowed s) (hmeets : c.Meets s) {w : TableWrite} (hw : w ∈ c.writes s) :
    w.1 < h.total := by
  have hp' := hi.placed hp
  rw [← hi.total]
  cases c with
  | malloc size =>
    obtain ⟨hpos, hsize⟩ := hallow
    simp only [HeapCall.writes] at hw
    rcases heapMalloc_cases hp' hpos hsize with ⟨b, hb, heq⟩ | ⟨c, hc, hcpos, heq⟩ | ⟨-, heq⟩
    · have htot := hp'.total_lt
      have hle := hb.1.1
      have hblocks := toNat_heapTotalBlocks hsize
      have hk := blocksFor_pos hpos
      rw [heq, heapMarkBlocksTaken_eq (by omega) (by omega)] at hw
      obtain ⟨j, hj, rfl⟩ := List.mem_map.1 hw
      rw [List.mem_range] at hj
      simp only
      omega
    · have hle := hc.le
      rcases hmeets with ⟨b, hb⟩ | h0 | hnf
      · exact absurd hb (hc.passed b)
      · omega
      · exact absurd (hc.run _ (by omega) (by omega)) hnf
    · rw [heq] at hw
      cases hw
  | free ptr =>
    obtain ⟨a, ha, rfl⟩ := hallow
    obtain ⟨b, hb, hoff, hle, hc⟩ := hi.exists_block hp ha
    have hlow : (a.1 - s.heap.startAddress).toNat < 2 ^ 31 := hmeets
    simp only [HeapCall.writes, hb] at hw
    rw [heapFree_of_chain hp' hc hle (by omega)] at hw
    obtain ⟨i, hi, rfl⟩ := List.mem_map.1 hw
    rw [List.mem_range'_1] at hi
    exact lt_of_lt_of_le hi.2 hle

/-- An all-free heap with nothing live satisfies the invariant. -/
theorem HeapRun.Inv.start_allFree (hfree : h.AllFree) : HeapRun.Inv h ⟨h, []⟩ where
  total := rfl
  start := rfl
  nodup := List.nodup_nil
  chain _ ha := absurd ha List.not_mem_nil
  covered i hi hnf := by
    refine absurd ?_ hnf
    change heapGetEntryType (h.entries i) = _
    rw [hfree i hi]; rfl

/-- **Every run whose calls meet the condition is sound, and its calls
write inside the table.** -/
theorem heapRun_sound (hp : h.Placed) (hfree : h.AllFree)
    (hrun : Relation.ReflTransGen HeapStepMeets ⟨h, []⟩ s) :
    s.Sound ∧ ∀ c : HeapCall, c.Allowed s → c.Meets s → ∀ w ∈ c.writes s, w.1 < h.total := by
  have hi : s.Inv h := by
    induction hrun with
    | refl => exact HeapRun.Inv.start_allFree hfree
    | tail _ hstep ih => exact ih.step hp hstep
  exact ⟨hi.sound hp, fun c hallow hmeets w hw => hi.writes_lt hp hallow hmeets hw⟩

/-- A two-block request and its release on the kernel's heap. -/
theorem heapRun_sound_kernelHeapInit :
    let s := (HeapRun.mk kernelHeapInit []).call (.malloc 8192)
    (s.call (.free heapAddress)).Sound ∧
      ∀ c : HeapCall, c.Allowed (s.call (.free heapAddress)) → c.Meets (s.call (.free heapAddress)) →
        ∀ w ∈ c.writes (s.call (.free heapAddress)), w.1 < kernelHeapInit.total := by
  intro s
  have hmalloc : heapMalloc kernelHeapInit 8192 = (heapAddress, [(0, 0xC1), (1, 0x01)]) := by
    decide
  have hlive : s.live = [(heapAddress, 8192)] := by
    change (if (heapMalloc kernelHeapInit 8192).1 = 0 then ([] : List (Word × Word))
      else [((heapMalloc kernelHeapInit 8192).1, 8192)]) = _
    rw [hmalloc]; rfl
  have h1 : HeapStepMeets ⟨kernelHeapInit, []⟩ s :=
    ⟨.malloc 8192, ⟨by decide, by decide⟩, Or.inl ⟨0, by decide, fun _ _ _ => by
      change heapGetEntryType heapBlockTableEntryFree = _; rfl⟩, rfl⟩
  have h2 : HeapStepMeets s (s.call (.free heapAddress)) :=
    ⟨.free heapAddress, ⟨_, hlive ▸ List.mem_cons_self, rfl⟩,
      show (heapAddress - kernelHeapInit.startAddress).toNat < 2 ^ 31 by decide, rfl⟩
  exact heapRun_sound placed_kernelHeapInit (fun _ _ => rfl)
    ((Relation.ReflTransGen.single h1).tail h2)

/-- **Without the condition the heap is not sound**: two blocks from a
table of one. -/
theorem heapRun_unsound :
    ¬ ∀ (h : Heap) (s : HeapRun), h.Placed → h.AllFree →
      Relation.ReflTransGen HeapStep ⟨h, []⟩ s →
        s.Sound ∧ ∀ c : HeapCall, c.Allowed s → ∀ w ∈ c.writes s, w.1 < h.total := by
  intro hall
  let h : Heap := ⟨fun _ => heapBlockTableEntryFree, 1, heapAddress⟩
  have hwrites := (hall h ⟨h, []⟩ ⟨by decide, by decide⟩ (fun _ _ => rfl)
    Relation.ReflTransGen.refl).2 (.malloc 8192) ⟨by decide, by decide⟩
  have hmem : (1, 0x01) ∈ HeapCall.writes ⟨h, []⟩ (.malloc 8192) := by decide
  exact absurd (hwrites _ hmem) (by decide)

/-- **A request the table cannot answer writes past it.** The condition
on requests leaves out nothing the source serves correctly. -/
theorem heapMalloc_overrun (hp : h.Placed) (hpos : 0 < size.toNat)
    (hsize : size.toNat ≤ 0xFFFFF000) (hno : ¬ h.Answers (blocksFor size.toNat)) :
    ∃ w ∈ (heapMalloc h size).2, w.1 = h.total := by
  rcases heapMalloc_cases hp hpos hsize with ⟨b, hb, -⟩ | ⟨c, hc, hcpos, heq⟩ | ⟨hc, -⟩
  · exact absurd (Or.inl ⟨b, hb.1⟩) hno
  · have htot := hp.total_lt
    have hle := hc.le
    have hlt := hc.lt
    have hblocks := toNat_heapTotalBlocks hsize
    have hk := (heapTotalBlocks size).isLt
    rw [heq, heapMarkBlocksTaken_eq (by omega) (by unfold blocksFor at hblocks; omega)]
    refine ⟨_, List.mem_map.2 ⟨c, List.mem_range.2 (by omega), rfl⟩, ?_⟩
    simp only
    omega
  · refine absurd (Or.inr ?_) hno
    rcases Nat.eq_zero_or_pos h.total with h0 | h0
    · exact Or.inl h0
    · exact Or.inr (hc.maximal h0)

end OwnKernel
