import OwnKernel.Store.Taken

/-!
# What the calls since a state of the heap can have changed

`heap_free` clears entries for as long as they have a next, so a pointer
whose chain is no longer its own is freed with what lies behind it.
`Heap.Confined` bounds that: the entries changed since `h₀` are among
those of `T`, which were free then, and no entry of `T` has its next
outside. `kernel_zalloc` of any size keeps it, for a larger `T`, and so
does freeing what it has answered since.
-/

namespace OwnKernel

variable {h h₀ h₁ : Heap} {s s' : Store} {size p q : Word} {b i j k n : ℕ} {T : Set ℕ}

/-! ## What freeing clears -/

/-- The loop clears an entry when all those before it have a next. -/
theorem hasNext_of_mem_heapMarkBlocksFreeLoop {w : TableWrite} : ∀ {n i : ℕ},
    w ∈ heapMarkBlocksFreeLoop h n i → i ≤ w.1 ∧ w.1 < i + n ∧
      ∀ j, i ≤ j → j < w.1 → h.entries j &&& heapBlockHasNext ≠ 0 := by
  intro n
  induction n with
  | zero => exact fun hw => absurd hw List.not_mem_nil
  | succ n ih =>
    intro i hw
    rw [heapMarkBlocksFreeLoop] at hw
    rcases List.mem_cons.1 hw with rfl | hw
    · exact ⟨le_refl i, by omega, fun j h1 h2 => absurd h1 (by omega)⟩
    · by_cases hnext : h.entries i &&& heapBlockHasNext = 0
      · rw [if_pos hnext] at hw
        exact absurd hw List.not_mem_nil
      · rw [if_neg hnext] at hw
        obtain ⟨hle, hlt, hall⟩ := ih hw
        refine ⟨by omega, by omega, fun j h1 h2 => ?_⟩
        rcases Nat.eq_or_lt_of_le h1 with rfl | h1
        · exact hnext
        · exact hall j h1 h2

/-- Writing the free entry changes an entry to that or not at all. -/
theorem Heap.write_free_cases (i : ℕ) : ∀ {ws : List TableWrite} {h : Heap},
    (∀ w ∈ ws, w.2 = heapBlockTableEntryFree) → (h.write ws).entries i = h.entries i ∨
      ((h.write ws).entries i = heapBlockTableEntryFree ∧ ∃ w ∈ ws, w.1 = i) := by
  intro ws
  induction ws with
  | nil => exact fun _ => Or.inl rfl
  | cons w ws ih =>
    intro h hws
    rcases ih (h := h.write [w]) fun w' hw' => hws w' (List.mem_cons_of_mem _ hw') with
      heq | ⟨hfree, w', hw', hi⟩
    · by_cases hi : w.1 = i
      · refine Or.inr ⟨?_, w, List.mem_cons_self, hi⟩
        refine heq.trans ?_
        change Function.update h.entries w.1 w.2 i = _
        rw [hi, Function.update_self]
        exact hws w List.mem_cons_self
      · refine Or.inl (heq.trans ?_)
        change Function.update h.entries w.1 w.2 i = _
        rw [Function.update_of_ne (Ne.symm hi)]
    · exact Or.inr ⟨hfree, w', List.mem_cons_of_mem _ hw', hi⟩

/-- **What `heap_free` does to an entry**: nothing, or it is cleared, and
all the entries from the pointer's block on have a next. -/
theorem heapFree_cases (r : h.Ready) (hb : b < h.total) (i : ℕ) :
    (h.write (heapFree h (heapBlockToAddress h b))).entries i = h.entries i ∨
      ((h.write (heapFree h (heapBlockToAddress h b))).entries i = heapBlockTableEntryFree ∧
        b ≤ i ∧ i < h.total ∧ ∀ j, b ≤ j → j < i → h.entries j &&& heapBlockHasNext ≠ 0) := by
  have hlow := r.low
  unfold heapFree
  rw [heapAddressToBlock_heapBlockToAddress r.placed hb (by omega)]
  unfold heapMarkBlocksFree
  rw [uint32_natCast (by omega)]
  refine (h.write_free_cases i fun w hw => heapMarkBlocksFreeLoop_free hw).imp_right ?_
  rintro ⟨hfree, w, hw, rfl⟩
  obtain ⟨hle, hlt, hall⟩ := hasNext_of_mem_heapMarkBlocksFreeLoop hw
  exact ⟨hfree, hle, by omega, hall⟩

/-! ## Changes that are confined -/

/-- **The entries changed since `h₀` are among those of `T`**, which were
free, and of which none has its next outside. -/
structure Heap.Confined (h₀ h : Heap) (T : Set ℕ) : Prop where
  place : h₀.SamePlace h
  free : ∀ i ∈ T, h₀.Free i
  outside : ∀ i, i ∉ T → h.entries i = h₀.entries i
  closed : ∀ i ∈ T, i + 1 < h.total → h.entries i &&& heapBlockHasNext ≠ 0 → i + 1 ∈ T

/-- A pointer to a block of `T`. -/
def Heap.PointsTo (h : Heap) (T : Set ℕ) (p : Word) : Prop :=
  ∃ b ∈ T, b < h.total ∧ p = heapBlockToAddress h b

namespace Heap.Confined

theorem refl (h : Heap) : h.Confined h ∅ where
  place := .refl h
  free _ hi := hi.elim
  outside _ _ := rfl
  closed _ hi := hi.elim

/-- An entry that is free was free. -/
theorem free_start (c : h₀.Confined h T) (hi : h.Free i) : h₀.Free i := by
  by_cases hT : i ∈ T
  · exact c.free i hT
  · unfold Heap.Free at hi ⊢
    rw [← c.outside i hT]
    exact hi

/-- **What was allocated is so still.** -/
theorem owns (c : h₀.Confined h T) (o : h₀.Owns p k) : h.Owns p k := by
  obtain ⟨b, hp, hle, hc⟩ := o
  refine ⟨b, hp.trans (c.place.heapBlockToAddress b).symm, by rw [c.place.total]; exact hle, ?_⟩
  exact hc.congr fun i h1 h2 => c.outside i fun hT => hc.not_free h1 h2 (c.free i hT)

/-- **Freeing a pointer to a block of `T`.** -/
theorem freeBlock (c : h₀.Confined h T) (r : h.Ready) (hp : h.PointsTo T p) :
    h₀.Confined (h.write (heapFree h p)) T := by
  obtain ⟨b, hT, hb, rfl⟩ := hp
  -- what is cleared is reached from `b` by nexts
  have hin : ∀ i, b ≤ i → i < h.total →
      (∀ j, b ≤ j → j < i → h.entries j &&& heapBlockHasNext ≠ 0) → i ∈ T := by
    intro i hle
    induction i, hle using Nat.le_induction with
    | base => exact fun _ _ => hT
    | succ i hle ih =>
      intro hlt hall
      exact c.closed i (ih (by omega) fun j h1 h2 => hall j h1 (by omega)) hlt
        (hall i hle (Nat.lt_succ_self i))
  refine ⟨⟨c.place.total, c.place.start⟩, c.free, fun i hi => ?_, fun i hi hlt hnext => ?_⟩
  · rcases heapFree_cases r hb i with heq | ⟨-, hle, hlt, hall⟩
    · exact heq.trans (c.outside i hi)
    · exact absurd (hin i hle hlt hall) hi
  · rcases heapFree_cases r hb i with heq | ⟨hfree, -⟩
    · exact c.closed i hi hlt (heq ▸ hnext)
    · rw [hfree] at hnext
      exact absurd rfl hnext

/-- A size that is not 0. -/
theorem zalloc_of_pos (c : h₀.Confined s.heap T) (r : s.heap.Ready) (hpos : 0 < size.toNat)
    (hsize : size.toNat ≤ 0xFFFFF000)
    (hfit : FirstFit s.heap.Free s.heap.total (blocksFor size.toNat) b) :
    h₀.Confined (s.zalloc size b).heap (T ∪ {i | b ≤ i ∧ i < b + blocksFor size.toNat}) := by
  have hblocks := toNat_heapTotalBlocks hsize
  have hk := blocksFor_pos hpos
  have hle := hfit.1.1
  have htot := r.placed.total_lt
  have hentries : ∀ i, (s.zalloc size b).heap.entries i =
      if b ≤ i ∧ i < b + blocksFor size.toNat then chainEntry (blocksFor size.toNat) (i - b)
      else s.heap.entries i := by
    intro i
    change (s.heap.write (heapMarkBlocksTaken b (heapTotalBlocks size))).entries i = _
    rw [entries_markBlocksTaken (by omega) (by omega), hblocks]
  refine ⟨⟨c.place.total, c.place.start⟩, ?_, fun i hi => ?_, ?_⟩
  · rintro i (hi | ⟨h1, h2⟩)
    · exact c.free i hi
    · exact c.free_start (hfit.1.2 i h1 h2)
  · have hin : ¬ (b ≤ i ∧ i < b + blocksFor size.toNat) := fun hin => hi (Or.inr hin)
    rw [hentries, if_neg hin]
    exact c.outside i fun hT => hi (Or.inl hT)
  · intro i hi hlt hnext
    rw [hentries] at hnext
    by_cases hin : b ≤ i ∧ i < b + blocksFor size.toNat
    · rw [if_pos hin] at hnext
      have hlast := not_not.1 (mt chainEntry_hasNext.2 hnext)
      exact Or.inr ⟨by omega, by omega⟩
    · rw [if_neg hin] at hnext
      exact Or.inl (c.closed i (hi.resolve_right hin) hlt hnext)

/-- **`kernel_zalloc`**, whatever size it is asked for: what it answers
points to a block that was free. -/
theorem zalloc (c : h₀.Confined s.heap T) (r : s.heap.Ready)
    (hz : kernelZalloc size s = .ok (p, s')) :
    ∃ T', T ⊆ T' ∧ h₀.Confined s'.heap T' ∧ (p ≠ 0 → s'.heap.PointsTo T' p) := by
  have hkeep : p = 0 → s'.heap = s.heap →
      ∃ T', T ⊆ T' ∧ h₀.Confined s'.heap T' ∧ (p ≠ 0 → s'.heap.PointsTo T' p) := by
    intro h0 hs
    rw [hs]
    exact ⟨T, subset_refl T, c, fun hne => absurd h0 hne⟩
  by_cases hpos : 0 < size.toNat
  · obtain ⟨h0, rfl⟩ | ⟨hne, hsize⟩ := kernelZalloc_of_pos r hpos hz
    · exact hkeep h0 rfl
    · obtain ⟨h0, -⟩ | ⟨b, hb, rfl, rfl⟩ := kernelZalloc_cases r hpos hsize hz
      · exact absurd h0 hne
      have hk := blocksFor_pos hpos
      have hle := hb.1.1
      have hlt : b < s.heap.total := by omega
      exact ⟨_, Set.subset_union_left, c.zalloc_of_pos r hpos hsize hb, fun _ =>
        ⟨b, Or.inr ⟨le_refl b, by omega⟩, hlt, rfl⟩⟩
  · -- no block is taken, and the answer is the stretch of free ones at the end
    have h0 := heapTotalBlocks_eq_zero fun hsize => hpos hsize.1
    obtain ⟨hp, -, hheap, -⟩ := kernelZalloc_run hz
    rw [heapMalloc_writes_of_zero r.placed h0] at hheap
    rcases heapMalloc_of_zero r.placed h0 with ⟨heq, -⟩ | ⟨n, hn, hscan, heq⟩
    · rw [heq] at hp
      exact hkeep hp hheap
    · rw [heq] at hp
      have hle := hscan.le
      have hs : s'.heap = s.heap := hheap
      refine ⟨T ∪ {i | s.heap.total - n ≤ i ∧ i < s.heap.total}, Set.subset_union_left, ?_, fun _ =>
        ⟨s.heap.total - n, Or.inr ⟨le_refl _, by omega⟩, by rw [hs]; omega, by rw [hs]; exact hp⟩⟩
      rw [hs]
      refine ⟨c.place, ?_, fun i hi => c.outside i fun hT => hi (Or.inl hT), ?_⟩
      · rintro i (hi | ⟨h1, h2⟩)
        · exact c.free i hi
        · exact c.free_start (hscan.run i (by omega) h2)
      · rintro i (hi | ⟨h1, h2⟩) hlt hnext
        · exact Or.inl (c.closed i hi hlt hnext)
        · exact Or.inr ⟨by omega, hlt⟩

end Heap.Confined

/-! ## An entry that is not cleared -/

/-- The first entry of an allocation is taken. -/
theorem Heap.Owns.not_free_first (o : h.Owns (heapBlockToAddress h b) n) (r : h.Ready)
    (hb : b < h.total) : ¬ h.Free b := by
  obtain ⟨b', hb', -, hle, hc⟩ := o.exists_block r
  have hpos := hc.pos
  obtain rfl := heapBlockToAddress_inj r.placed hb (by omega) hb'
  exact hc.not_free (le_refl b) (by omega)

/-- **What is freed and leaves entry `b` alone**: null, an allocation that
is not at `b`, or a block behind it. -/
def Heap.FreedApart (h : Heap) (b : ℕ) (p : Word) : Prop :=
  p = 0 ∨ (p ≠ heapBlockToAddress h b ∧ ∃ k, h.Owns p k) ∨
    ∃ i, b < i ∧ i < h.total ∧ p = heapBlockToAddress h i

/-- **Since `h₁` entries outside `T` have only been cleared**, and entry `b`
not. -/
structure Heap.OnlyFreed (h₁ h : Heap) (T : Set ℕ) (b : ℕ) : Prop where
  place : h₁.SamePlace h
  free : ∀ i ∈ T, h₁.Free i
  cleared : ∀ i, i ∉ T → h.entries i = h₁.entries i ∨ h.entries i = heapBlockTableEntryFree
  kept : h.entries b = h₁.entries b

namespace Heap.OnlyFreed

/-- What is confined leaves an allocation. -/
theorem of_confined (c : h₁.Confined h T) (hb : ¬ h₁.Free b) : h₁.OnlyFreed h T b where
  place := c.place
  free := c.free
  cleared i hi := Or.inl (c.outside i hi)
  kept := c.outside b fun hT => hb (c.free b hT)

/-- **Freeing a pointer apart from `b`.** -/
theorem freeBlock (f : h₁.OnlyFreed h T b) (r : h₁.Ready) (o : h₁.Owns (heapBlockToAddress h₁ b) n)
    (hb : b < h₁.total) (hp : h₁.FreedApart b p) : h₁.OnlyFreed (h.write (heapFree h p)) T b := by
  have r' : h.Ready := f.place.ready r
  rcases hp with rfl | hp
  · rw [heapFree_null r']
    exact f
  -- the block that is freed, from which `b` is not reached
  obtain ⟨i, hi, rfl, hout⟩ : ∃ i, i < h.total ∧ p = heapBlockToAddress h i ∧
      ¬ (i ≤ b ∧ ∀ j, i ≤ j → j < b → h.entries j &&& heapBlockHasNext ≠ 0) := by
    rcases hp with ⟨hne, k, hk⟩ | ⟨i, hlt, hi, rfl⟩
    · obtain ⟨i, rfl, -, hle, hc⟩ := hk.exists_block r
      obtain ⟨b', hb', -, hle', hc'⟩ := o.exists_block r
      have hpos := hc.pos
      have hpos' := hc'.pos
      obtain rfl := heapBlockToAddress_inj r.placed hb (by omega) hb'
      refine ⟨i, by rw [f.place.total]; omega, (f.place.heapBlockToAddress i).symm, ?_⟩
      rintro ⟨hib, hall⟩
      have hdisj := hc.disjoint hc' fun he => hne (by rw [he])
      -- the last entry of the chain has no next, cleared or not
      refine hall (i + k - 1) (by omega) (by omega) ?_
      have hlast : h₁.entries (i + k - 1) = chainEntry k (k - 1) := by
        rw [show i + k - 1 = i + (k - 1) by omega]
        exact hc.entry (k - 1) (by omega)
      rcases f.cleared (i + k - 1) fun hT => hc.not_free (by omega) (by omega)
        (f.free (i + k - 1) hT) with heq | heq
      · rw [heq, hlast]
        exact chainEntry_hasNext.2 (by omega)
      · rw [heq]
        rfl
    · exact ⟨i, by rw [f.place.total]; exact hi, (f.place.heapBlockToAddress i).symm, fun hin =>
        absurd hin.1 (by omega)⟩
  refine ⟨⟨f.place.total, f.place.start⟩, f.free, fun j hj => ?_, ?_⟩
  · rcases heapFree_cases r' hi j with heq | ⟨hfree, -⟩
    · rw [heq]
      exact f.cleared j hj
    · exact Or.inr hfree
  · rcases heapFree_cases r' hi b with heq | ⟨-, hle, -, hall⟩
    · exact heq.trans f.kept
    · exact absurd ⟨hle, hall⟩ hout

/-- **Freeing many.** -/
theorem freeAll (r : h₁.Ready) (o : h₁.Owns (heapBlockToAddress h₁ b) n) (hb : b < h₁.total) :
    ∀ {ps : List Word} {h : Heap}, h₁.OnlyFreed h T b → (∀ p ∈ ps, h₁.FreedApart b p) →
      h₁.OnlyFreed (h.freeAll ps) T b
  | [], _, f, _ => f
  | p :: _, _, f, hps => by
    rw [Heap.freeAll_cons]
    exact freeAll r o hb (f.freeBlock r o hb (hps p List.mem_cons_self)) fun q hq =>
      hps q (List.mem_cons_of_mem _ hq)

end Heap.OnlyFreed

end OwnKernel
