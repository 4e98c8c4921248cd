import Mathlib.Data.Finset.Dedup
import Mathlib.Data.List.Perm.Subperm
import OwnKernel.Heap.Undo
import OwnKernel.Store.Room

/-!
# Blocks taken and given back

What is needed to say that a heap's table is as it was: `KernelHeap`
names the tables the kernel's heap can have, in which a free entry is the
free entry (`Heap.Clean`); `Heap.Took` says which single blocks have been
taken since; and freeing them, in any order, restores the table
(`Heap.Took.entries_freeAll`).
-/

namespace OwnKernel

/-! ## The kernel's heap -/

/-- **A state of the kernel's heap**: what `kernel_heap_init` made, after
any calls of `heap_malloc` and `heap_free`. -/
inductive KernelHeap : Heap → Prop
  | init : KernelHeap kernelHeapInit
  | malloc {h : Heap} (size : Word) : KernelHeap h → KernelHeap (h.write (heapMalloc h size).2)
  | free {h : Heap} (ptr : Word) : KernelHeap h → KernelHeap (h.write (heapFree h ptr))

/-- A free entry of the table is the one freeing writes. -/
def Heap.Clean (h : Heap) : Prop :=
  ∀ i, i < h.total → h.Free i → h.entries i = heapBlockTableEntryFree

variable {h h' h'' : Heap} {s s' : Store} {size p x : Word} {b i : ℕ}

/-- Writing taken entries and free ones keeps a table clean. -/
theorem Heap.Clean.write {ws : List TableWrite} (hc : h.Clean)
    (hws : ∀ w ∈ ws, heapGetEntryType w.2 = heapBlockTableEntryFree →
      w.2 = heapBlockTableEntryFree) : (h.write ws).Clean := by
  induction ws generalizing h with
  | nil => exact hc
  | cons w ws ih =>
    refine ih (h := h.write [w]) (fun i hi hfree => ?_) fun w' hw' =>
      hws w' (List.mem_cons_of_mem _ hw')
    change heapGetEntryType (Function.update h.entries w.1 w.2 i) = _ at hfree
    change Function.update h.entries w.1 w.2 i = _
    by_cases heq : i = w.1
    · rw [heq, Function.update_self] at hfree ⊢
      exact hws w List.mem_cons_self hfree
    · rw [Function.update_of_ne heq] at hfree ⊢
      exact hc i hi hfree

/-- The marking loop writes no free entry, once it does not start with
one. -/
theorem heapMarkBlocksTakenLoop_taken {endBlock : ℤ} : ∀ {n : ℕ} {i : ℤ} {entry : Byte}
    {w : TableWrite}, heapGetEntryType entry ≠ heapBlockTableEntryFree →
      w ∈ heapMarkBlocksTakenLoop endBlock n i entry →
        heapGetEntryType w.2 ≠ heapBlockTableEntryFree := by
  intro n
  induction n with
  | zero => exact fun _ hw => absurd hw List.not_mem_nil
  | succ n ih =>
    intro i entry w hentry hw
    rcases List.mem_cons.1 hw with rfl | hw
    · exact hentry
    · refine ih ?_ hw
      split <;> decide

/-- `heap_malloc` writes taken entries. -/
theorem heapMalloc_taken {w : TableWrite} (hw : w ∈ (heapMalloc h size).2) :
    heapGetEntryType w.2 ≠ heapBlockTableEntryFree := by
  unfold heapMalloc heapMallocBlocks at hw
  simp only at hw
  split at hw
  · exact absurd hw List.not_mem_nil
  · refine heapMarkBlocksTakenLoop_taken ?_ hw
    split <;> decide

/-- What is free after taken entries are written was free before. -/
theorem Heap.Free.of_write : ∀ {ws : List TableWrite} {h : Heap}, (h.write ws).Free i →
    (∀ w ∈ ws, heapGetEntryType w.2 ≠ heapBlockTableEntryFree) → h.Free i := by
  intro ws
  induction ws with
  | nil => exact fun hfree _ => hfree
  | cons w ws ih =>
    intro h hfree hws
    have hfree₁ := ih (h := h.write [w]) hfree fun w' hw' => hws w' (List.mem_cons_of_mem _ hw')
    change heapGetEntryType (Function.update h.entries w.1 w.2 i) = _ at hfree₁
    by_cases heq : i = w.1
    · rw [heq, Function.update_self] at hfree₁
      exact absurd hfree₁ (hws w List.mem_cons_self)
    · rwa [Function.update_of_ne heq] at hfree₁

/-- What is free after an allocation was free before. -/
theorem free_of_kernelZalloc (hz : kernelZalloc size s = .ok (p, s')) (hfree : s'.heap.Free i) :
    s.heap.Free i := by
  obtain ⟨-, -, hheap, -⟩ := kernelZalloc_run hz
  rw [hheap] at hfree
  exact hfree.of_write fun _ hw => heapMalloc_taken hw

namespace KernelHeap

/-- The kernel's heap stays where it is. -/
theorem samePlace (hk : KernelHeap h) : kernelHeapInit.SamePlace h := by
  induction hk with
  | init => exact .refl _
  | malloc size _ ih => exact ⟨ih.total, ih.start⟩
  | free ptr _ ih => exact ⟨ih.total, ih.start⟩

/-- The kernel's heap is ready. -/
theorem ready (hk : KernelHeap h) : h.Ready := hk.samePlace.ready ready_kernelHeapInit

/-- The kernel's table is clean. -/
theorem clean (hk : KernelHeap h) : h.Clean := by
  induction hk with
  | init => exact fun _ _ _ => rfl
  | malloc size _ ih => exact ih.write fun w hw hfree => absurd hfree (heapMalloc_taken hw)
  | free ptr _ ih => exact ih.write fun w hw _ => heapMarkBlocksFreeLoop_free hw

/-- An allocation leaves a state of the kernel's heap. -/
theorem zalloc (hk : KernelHeap s.heap) (hz : kernelZalloc size s = .ok (p, s')) :
    KernelHeap s'.heap := by
  obtain ⟨-, -, hheap, -⟩ := kernelZalloc_run hz
  rw [hheap]
  exact hk.malloc size

end KernelHeap

/-! ## Where the blocks are -/

/-- A byte of the heap's blocks. -/
def Heap.Spans (h : Heap) (x : Word) : Prop := InRange h.startAddress (heapBlockSize * h.total) x

/-- The bytes of an allocation are the heap's. -/
theorem Heap.Owns.spans {n : ℕ} (o : h.Owns p n) (r : h.Ready)
    (hx : InRange p (4096 * n) x) : h.Spans x := by
  have hfits := r.placed.fits
  obtain ⟨b, -, hb, hle, -⟩ := o.exists_block r
  unfold heapBlockSize at hfits
  unfold Heap.Spans heapBlockSize
  unfold InRange at hx ⊢
  bv_omega

/-- A heap that stays in its place has the bytes it had. -/
theorem Heap.SamePlace.spans_iff {h' : Heap} (a : h.SamePlace h') : h'.Spans x ↔ h.Spans x := by
  unfold Heap.Spans
  rw [a.start, a.total]

/-- The blocks of the kernel's heap are high. -/
theorem KernelHeap.le_of_spans (hk : KernelHeap h) (hx : h.Spans x) :
    0x1000000 ≤ x.toNat := by
  unfold Heap.Spans InRange heapBlockSize at hx
  rw [hk.samePlace.start, hk.samePlace.total] at hx
  have hstart : kernelHeapInit.startAddress = 0x1000000 := rfl
  have htotal : kernelHeapInit.total = 25600 := rfl
  rw [hstart, htotal] at hx
  bv_omega

/-! ## One allocation -/

/-- Freeing a block that is free writes the free entry again. -/
theorem Heap.Clean.entries_heapFree (hc : h.Clean) (r : h.Ready) (hb : b < h.total)
    (hfree : h.Free b) : (h.write (heapFree h (heapBlockToAddress h b))).entries i = h.entries i := by
  have hlow := r.low
  have hentry := hc b hb hfree
  obtain ⟨n, hn⟩ := Nat.exists_eq_add_of_lt (Nat.sub_pos_of_lt hb)
  have hwrites : heapFree h (heapBlockToAddress h b) = [(b, heapBlockTableEntryFree)] := by
    unfold heapFree heapMarkBlocksFree
    rw [heapAddressToBlock_heapBlockToAddress r.placed hb (by omega), uint32_natCast (by omega), hn,
      Nat.zero_add, heapMarkBlocksFreeLoop, hentry]
    rfl
  rw [hwrites]
  change Function.update h.entries b heapBlockTableEntryFree i = _
  rw [← hentry, Function.update_eq_self]

/-- **Freeing what `heap_malloc` answers undoes it**, for every size and
every clean table: a null, a run, a run past the table's end, and the
block it names for no blocks. -/
theorem Heap.Clean.entries_free_malloc (hc : h.Clean) (r : h.Ready) (size : Word)
    (hi : i < h.total) :
    ((h.write (heapMalloc h size).2).write
      (heapFree (h.write (heapMalloc h size).2) (heapMalloc h size).1)).entries i =
        h.entries i := by
  by_cases hsize : 0 < size.toNat ∧ size.toNat ≤ 0xFFFFF000
  · by_cases h0 : (heapMalloc h size).1 = 0
    · rcases heapMalloc_cases r.placed hsize.1 hsize.2 with
        ⟨b, hb, heq⟩ | ⟨c, hs, hcpos, heq⟩ | ⟨-, heq⟩
      · have hle := hb.1.1
        have hk := blocksFor_pos hsize.1
        rw [heq] at h0
        exact absurd h0 (heapBlockToAddress_ne_zero r.placed (by omega))
      · have hle := hs.le
        rw [heq] at h0
        exact absurd h0 (heapBlockToAddress_ne_zero r.placed (by omega))
      · rw [heq, Heap.write_nil, heapFree_null r, Heap.write_nil]
    · obtain ⟨b, hopen, heq⟩ := heapMalloc_of_ne r.placed hsize.1 hsize.2 h0
      have hlow := r.low
      have hb := hopen.lt
      have hchain := hopen.clippedChain r.placed hsize.1 hsize.2
      have hfree := hchain.entries_heapFree (r.placed.write _) (by omega) i
      rw [heq]
      refine hfree.trans ?_
      by_cases hin : b ≤ i ∧ i < b + blocksFor size.toNat
      · rw [Heap.write_total, if_pos (by omega), hc i hi (hopen.free i hin.1 hin.2 hi)]
      · rw [Heap.write_total, if_neg (by omega), hopen.entries r.placed hsize.1 hsize.2, if_neg hin]
  · rcases heapMalloc_of_zero r.placed (heapTotalBlocks_eq_zero hsize) with ⟨heq, -⟩ | ⟨c, hcpos, hs, heq⟩
    · rw [heq, Heap.write_nil, heapFree_null r, Heap.write_nil]
    · have hle := hs.le
      rw [heq, Heap.write_nil]
      exact hc.entries_heapFree r (by omega) (hs.run _ (by omega) (by omega))

/-! ## Single blocks -/

/-- **The blocks `bs` have been taken since**, one by one, and nothing
else has changed. -/
structure Heap.Took (h h' : Heap) (bs : List ℕ) : Prop where
  place : h.SamePlace h'
  nodup : bs.Nodup
  free : ∀ b ∈ bs, b < h.total ∧ h.Free b
  entries : ∀ i, h'.entries i = if i ∈ bs then chainEntry 1 0 else h.entries i

namespace Heap.Took

variable {bs bs' : List ℕ}

theorem refl (h : Heap) : h.Took h [] where
  place := .refl h
  nodup := List.nodup_nil
  free _ hb := absurd hb List.not_mem_nil
  entries _ := (if_neg List.not_mem_nil).symm

/-- A taken block is one of them, or was taken before. -/
theorem not_free (t : h.Took h' bs) (hb : b ∈ bs) : ¬ h'.Free b := by
  unfold Heap.Free
  rw [t.entries, if_pos hb]
  exact entryType_chainEntry 1 0

theorem trans (t : h.Took h' bs) (t' : h'.Took h'' bs') : h.Took h'' (bs ++ bs') where
  place := t.place.trans t'.place
  nodup := List.nodup_append'.2 ⟨t.nodup, t'.nodup, fun b hb hb' => t.not_free hb (t'.free b hb').2⟩
  free b hb := by
    rcases List.mem_append.1 hb with hb | hb
    · exact t.free b hb
    · have hnot : b ∉ bs := fun hin => t.not_free hin (t'.free b hb).2
      obtain ⟨hlt, hfree⟩ := t'.free b hb
      unfold Heap.Free at hfree
      rw [t.entries, if_neg hnot] at hfree
      exact ⟨t.place.total ▸ hlt, hfree⟩
  entries i := by
    rw [t'.entries, t.entries]
    by_cases h2 : i ∈ bs'
    · rw [if_pos h2, if_pos (List.mem_append_right _ h2)]
    · by_cases h1 : i ∈ bs
      · rw [if_neg h2, if_pos h1, if_pos (List.mem_append_left _ h1)]
      · rw [if_neg h2, if_neg h1, if_neg (by simp [h1, h2])]

/-- A block taken is an allocation of one block. -/
theorem owns (t : h.Took h' bs) (hb : b ∈ bs) : h'.Owns (heapBlockToAddress h b) 1 := by
  refine ⟨b, (t.place.heapBlockToAddress b).symm, ?_, Nat.one_pos, fun j hj => ?_⟩
  · rw [t.place.total]
    exact (t.free b hb).1
  · obtain rfl : j = 0 := by omega
    rw [Nat.add_zero, t.entries, if_pos hb]

/-- **An allocation of one block that is new is one of the blocks
taken.** -/
theorem mem_of_owns (t : h.Took h' bs) (o : h'.Owns p 1) (hfresh : h.Fresh p) :
    ∃ b ∈ bs, p = heapBlockToAddress h b := by
  obtain ⟨b, hp, hle, c⟩ := o
  rw [t.place.heapBlockToAddress] at hp
  refine ⟨b, ?_, hp⟩
  by_contra hnot
  refine hfresh 1 ⟨b, hp, t.place.total ▸ hle, Nat.one_pos, fun j hj => ?_⟩
  obtain rfl : j = 0 := by omega
  have hentry := c.entry 0 Nat.one_pos
  rw [Nat.add_zero, t.entries, if_neg hnot] at hentry
  exact hentry

/-- The free blocks are as many less. -/
theorem freeBlocks (t : h.Took h' bs) : h'.freeBlocks + bs.length = h.freeBlocks := by
  have hsub : bs.toFinset ⊆ (Finset.range h.total).filter h.Free := by
    intro b hb
    obtain ⟨hlt, hfree⟩ := t.free b (List.mem_toFinset.1 hb)
    exact Finset.mem_filter.2 ⟨Finset.mem_range.2 hlt, hfree⟩
  have hset : (Finset.range h'.total).filter h'.Free =
      ((Finset.range h.total).filter h.Free) \ bs.toFinset := by
    ext i
    rw [Finset.mem_sdiff, Finset.mem_filter, Finset.mem_filter, List.mem_toFinset, t.place.total]
    by_cases hi : i ∈ bs
    · exact iff_of_false (fun hin => t.not_free hi hin.2) fun hin => hin.2 hi
    · unfold Heap.Free
      rw [t.entries, if_neg hi]
      exact ⟨fun hin => ⟨hin, hi⟩, fun hin => hin.1⟩
  have hcard := Finset.card_sdiff_add_card_eq_card hsub
  rw [← hset, List.toFinset_card_of_nodup t.nodup] at hcard
  exact hcard

end Heap.Took

/-- **`kernel_zalloc` of up to a block takes one**, or answers null. -/
theorem kernelZalloc_took (r : s.heap.Ready) (hpos : 0 < size.toNat) (hsize : size.toNat ≤ 4096)
    (hz : kernelZalloc size s = .ok (p, s')) (hp : p ≠ 0) :
    ∃ b : ℕ, p = heapBlockToAddress s.heap b ∧ s.heap.Took s'.heap [b] := by
  have hone : blocksFor size.toNat = 1 := by
    unfold blocksFor
    omega
  rcases kernelZalloc_cases r hpos (by omega) hz with ⟨h0, -⟩ | ⟨b, hb, rfl, rfl⟩
  · exact absurd h0 hp
  · have hle := hb.1.1
    have htot := r.placed.total_lt
    have hblocks : (heapTotalBlocks size).toNat = blocksFor size.toNat :=
      toNat_heapTotalBlocks (by omega)
    rw [hone] at hle hblocks
    refine ⟨b, rfl, ⟨rfl, rfl⟩, List.nodup_singleton b, fun b' hb' => ?_, fun i => ?_⟩
    · rw [List.mem_singleton.1 hb']
      exact ⟨by omega, hb.1.2 b le_rfl (by omega)⟩
    · change (s.heap.write (heapMarkBlocksTaken b (heapTotalBlocks size))).entries i = _
      rw [entries_markBlocksTaken (by omega) (by omega), hblocks]
      by_cases hi : i = b
      · rw [if_pos (by omega), if_pos (List.mem_singleton.2 hi), hi, Nat.sub_self]
      · rw [if_neg (by omega), if_neg fun hin => hi (List.mem_singleton.1 hin)]

/-- **Giving back what was taken, in any order, restores the table.** -/
theorem Heap.Took.entries_freeAll {bs : List ℕ} {ps : List Word} (t : h.Took h' bs)
    (r : h.Ready) (hc : h.Clean) (hps : ps.Nodup) (hlen : ps.length = bs.length)
    (howns : ∀ p ∈ ps, h'.Owns p 1 ∧ h.Fresh p) (hi : i < h.total) :
    (h'.freeAll ps).entries i = h.entries i := by
  have r' := t.place.ready r
  -- the pointers are the taken blocks in some order
  have hsub : ps ⊆ bs.map fun b : ℕ => heapBlockToAddress h b := by
    intro p hp
    obtain ⟨b, hb, rfl⟩ := t.mem_of_owns (howns p hp).1 (howns p hp).2
    exact List.mem_map.2 ⟨b, hb, rfl⟩
  have hperm : ps.Perm (bs.map fun b : ℕ => heapBlockToAddress h b) :=
    (List.subperm_of_subset hps hsub).perm_of_length_le (by rw [List.length_map, hlen])
  have hblock : ∀ b : ℕ, b < h.total →
      (heapBlockToAddress h b - h'.startAddress).toNat / 4096 = b := by
    intro b hb
    rw [t.place.start, toNat_heapBlockToAddress_sub r.placed hb]
    omega
  rw [@Heap.entries_freeAll_of_owns (fun _ => 1) i ps _ r' hps fun p hp => (howns p hp).1]
  by_cases hin : i ∈ bs
  · have hmem : heapBlockToAddress h i ∈ ps :=
      hperm.mem_iff.2 (List.mem_map.2 ⟨i, hin, rfl⟩)
    have hbi := hblock i hi
    rw [if_pos ⟨_, hmem, by omega, by omega⟩, hc i hi (t.free i hin).2]
  · rw [if_neg, t.entries, if_neg hin]
    rintro ⟨p, hp, h1, h2⟩
    obtain ⟨b, hb, rfl⟩ := List.mem_map.1 (hperm.mem_iff.1 hp)
    rw [hblock b (t.free b hb).1] at h1 h2
    obtain rfl : i = b := by omega
    exact hin hb

end OwnKernel
