import Mathlib.Order.Interval.Finset.Nat
import OwnKernel.Store.Owned

/-!
# Allocations that succeed

`Heap.Room n` says that the table is free from entry `n` on. An
allocation of `k` blocks with `n + k` in the table succeeds, and leaves
the table free from `n + k` on: where the run it takes starts does not
matter. For single blocks it is enough to count: `Heap.freeBlocks` is how
many entries are free, and an allocation of one block succeeds exactly
when there is one: they are a `Budget`. Freeing keeps every free entry
free.
-/

namespace OwnKernel

variable {h : Heap} {s : Store} {n b k : ℕ}

/-- The table is free from entry `n` on. -/
def Heap.Room (h : Heap) (n : ℕ) : Prop := ∀ i, n ≤ i → i < h.total → h.Free i

/-- The kernel's heap is ready. -/
theorem ready_kernelHeapInit : kernelHeapInit.Ready :=
  ⟨placed_kernelHeapInit, by decide, by decide⟩

/-- A heap `kernel_heap_init` made has room from the start. -/
theorem room_kernelHeapInit : kernelHeapInit.Room 0 := fun _ _ _ =>
  show heapGetEntryType heapBlockTableEntryFree = heapBlockTableEntryFree by decide

/-- Where there is room there is a lowest run. -/
theorem Heap.Room.exists_firstFit (hr : h.Room n) (hk : n + k ≤ h.total) :
    ∃ b, b ≤ n ∧ FirstFit h.Free h.total k b := by
  classical
  have hex : ∃ b, Fits h.Free h.total k b := ⟨n, hk, fun i h1 _ => hr i h1 (by omega)⟩
  refine ⟨Nat.find hex, Nat.find_min' hex ⟨hk, fun i h1 _ => hr i h1 (by omega)⟩,
    Nat.find_spec hex, fun b' hlt => Nat.find_min hex hlt⟩

/-- **`kernel_zalloc` with room.** -/
theorem kernelZalloc_of_room (size : Word) (r : s.heap.Ready) (hr : s.heap.Room n) (hpos : 0 < size.toNat)
    (hsize : size.toNat ≤ 0xFFFFF000) (hk : n + blocksFor size.toNat ≤ s.heap.total) :
    ∃ p s', kernelZalloc size s = .ok (p, s') ∧ p ≠ 0 ∧ s.heap.SamePlace s'.heap ∧
      s'.heap.Room (n + blocksFor size.toNat) := by
  obtain ⟨b, hle, hb⟩ := hr.exists_firstFit hk
  have hpos' := blocksFor_pos hpos
  have hfit := hb.1.1
  have htot := r.placed.total_lt
  have hblocks := toNat_heapTotalBlocks hsize
  refine ⟨_, _, kernelZalloc_of_firstFit r hpos hsize hb,
    heapBlockToAddress_ne_zero r.placed (by omega), ⟨rfl, rfl⟩, fun i h1 h2 => ?_⟩
  have hi : ¬ (b ≤ i ∧ i < b + (heapTotalBlocks size).toNat) := by omega
  have hfree := hr i (by omega) h2
  unfold Heap.Free at hfree ⊢
  simp only [Store.zalloc]
  rw [entries_markBlocksTaken (by omega) (by omega), if_neg hi]
  exact hfree

/-! ## Single blocks -/

/-- How many entries of the table are free. -/
def Heap.freeBlocks (h : Heap) : ℕ := ((Finset.range h.total).filter h.Free).card

/-- The entries of a room are counted. -/
theorem Heap.Room.le_freeBlocks {h : Heap} (hr : h.Room n) : h.total ≤ n + h.freeBlocks := by
  have hsub : Finset.Ico n h.total ⊆ (Finset.range h.total).filter h.Free := by
    intro i hi
    obtain ⟨hn, hlt⟩ := Finset.mem_Ico.1 hi
    exact Finset.mem_filter.2 ⟨Finset.mem_range.2 hlt, hr i hn hlt⟩
  have hcard := Finset.card_le_card hsub
  rw [Nat.card_Ico] at hcard
  unfold Heap.freeBlocks
  omega

/-- Where there are no other free entries, those before it are taken. -/
theorem Heap.Room.not_free {h : Heap} {i : ℕ} (hr : h.Room n) (hcount : n + h.freeBlocks ≤ h.total)
    (hi : i < n) : ¬ h.Free i := by
  intro hfree
  have hsub : insert i (Finset.Ico n h.total) ⊆ (Finset.range h.total).filter h.Free := by
    intro j hj
    rcases Finset.mem_insert.1 hj with rfl | hj
    · exact Finset.mem_filter.2 ⟨Finset.mem_range.2 (by omega), hfree⟩
    · obtain ⟨hn, hlt⟩ := Finset.mem_Ico.1 hj
      exact Finset.mem_filter.2 ⟨Finset.mem_range.2 hlt, hr j hn hlt⟩
  have hcard := Finset.card_le_card hsub
  have hnot : i ∉ Finset.Ico n h.total := fun hin => absurd (Finset.mem_Ico.1 hin).1 (Nat.not_le.2 hi)
  rw [Finset.card_insert_of_notMem hnot, Nat.card_Ico] at hcard
  unfold Heap.freeBlocks at hcount
  omega

/-- Marking a free run taken leaves that many free blocks less. -/
theorem Heap.freeBlocks_markBlocksTaken {size : Word} (r : h.Ready) (hpos : 0 < size.toNat)
    (hsize : size.toNat ≤ 0xFFFFF000) (hb : Fits h.Free h.total (blocksFor size.toNat) b) :
    (h.write (heapMarkBlocksTaken b (heapTotalBlocks size))).freeBlocks + blocksFor size.toNat =
      h.freeBlocks := by
  have hblocks := toNat_heapTotalBlocks hsize
  have hk := blocksFor_pos hpos
  have hle := hb.1
  have htot := r.placed.total_lt
  have hchain := chain_markBlocksTaken (h := h) (b := b) (k := heapTotalBlocks size) (by omega)
    (by omega)
  have hset : (Finset.range h.total).filter
      (h.write (heapMarkBlocksTaken b (heapTotalBlocks size))).Free =
      ((Finset.range h.total).filter h.Free) \ Finset.Ico b (b + blocksFor size.toNat) := by
    ext i
    rw [Finset.mem_sdiff, Finset.mem_filter, Finset.mem_filter, Finset.mem_Ico]
    by_cases hi : b ≤ i ∧ i < b + blocksFor size.toNat
    · exact iff_of_false (fun hin => hchain.not_free hi.1 (by omega) hin.2) fun hin => hin.2 hi
    · have hentry : (h.write (heapMarkBlocksTaken b (heapTotalBlocks size))).entries i =
          h.entries i := by
        rw [entries_markBlocksTaken (by omega) (by omega), if_neg (by omega)]
      unfold Heap.Free
      rw [hentry]
      exact ⟨fun hin => ⟨hin, hi⟩, fun hin => hin.1⟩
  have hsub : Finset.Ico b (b + blocksFor size.toNat) ⊆ (Finset.range h.total).filter h.Free := by
    intro i hi
    rw [Finset.mem_Ico] at hi
    exact Finset.mem_filter.2 ⟨Finset.mem_range.2 (by omega), hb.2 i hi.1 hi.2⟩
  have hcard := Finset.card_sdiff_add_card_eq_card hsub
  rw [Nat.card_Ico, Nat.add_sub_cancel_left] at hcard
  unfold Heap.freeBlocks
  rw [Heap.write_total, hset]
  exact hcard

/-- A run of two blocks is two free blocks. -/
theorem Heap.two_le_freeBlocks (hfit : Fits h.Free h.total 2 b) :
    2 ≤ h.freeBlocks := by
  have hle := hfit.1
  have hsub : ({b, b + 1} : Finset ℕ) ⊆ (Finset.range h.total).filter h.Free := by
    intro i hi
    rw [Finset.mem_insert, Finset.mem_singleton] at hi
    exact Finset.mem_filter.2 ⟨Finset.mem_range.2 (by omega), hfit.2 i (by omega) (by omega)⟩
  have hcard := Finset.card_le_card hsub
  rwa [Finset.card_pair (by omega)] at hcard

/-- **An allocation takes its blocks from the free ones.** -/
theorem kernelZalloc_freeBlocks {size p : Word} {s' : Store} (r : s.heap.Ready)
    (hpos : 0 < size.toNat) (hsize : size.toNat ≤ 0xFFFFF000)
    (hz : kernelZalloc size s = .ok (p, s')) (hp : p ≠ 0) :
    s'.heap.freeBlocks + blocksFor size.toNat = s.heap.freeBlocks := by
  rcases kernelZalloc_cases r hpos hsize hz with ⟨h0, -⟩ | ⟨b, hb, -, rfl⟩
  · exact absurd h0 hp
  · exact Heap.freeBlocks_markBlocksTaken r hpos hsize hb.1

/-- **An allocation of up to a block** takes a free one, or returns null
where there is none. -/
theorem kernelZalloc_single (size : Word) (r : s.heap.Ready) (hpos : 0 < size.toNat)
    (hsize : size.toNat ≤ 4096) :
    (s.heap.freeBlocks = 0 ∧ kernelZalloc size s = .ok (0, s)) ∨
      ∃ p s', kernelZalloc size s = .ok (p, s') ∧ p ≠ 0 ∧ s.heap.SamePlace s'.heap ∧
        s'.heap.freeBlocks + 1 = s.heap.freeBlocks := by
  have hone : blocksFor size.toNat = 1 := by
    unfold blocksFor
    omega
  have htot := r.placed.total_lt
  rcases heapMalloc_cases r.placed hpos (by omega) with ⟨b, hb, -⟩ | ⟨c, hc, hcpos, -⟩ | ⟨hc, heq⟩
  · have hle := hb.1.1
    have hcount := Heap.freeBlocks_markBlocksTaken r hpos (by omega) hb.1
    rw [hone] at hcount
    exact Or.inr ⟨_, _, kernelZalloc_of_firstFit r hpos (by omega) hb,
      heapBlockToAddress_ne_zero r.placed (by omega), ⟨rfl, rfl⟩, hcount⟩
  · -- a stretch of less than one block
    have := hc.lt
    omega
  · refine Or.inl ⟨?_, ?_⟩
    · rw [Heap.freeBlocks, Finset.card_eq_zero, Finset.filter_eq_empty_iff]
      intro i hi hfree
      rw [Finset.mem_range] at hi
      refine hc.passed i ⟨by omega, fun j h1 h2 => ?_⟩
      obtain rfl : j = i := by omega
      exact hfree
    · have hmalloc : kernelMalloc size s = .ok (0, s) := by
        refine Fallible.run_bind.2 ⟨s, s, rfl, ?_⟩
        simp only [heq]
        rw [if_neg (by simp)]
        rfl
      refine Fallible.run_bind.2 ⟨0, s, hmalloc, ?_⟩
      rw [if_pos rfl]
      rfl

/-- **A budget of single blocks**: with one more block in the budget, an
allocation of up to a block succeeds and spends it. -/
structure Budget (B : Heap → ℕ → Prop) : Prop where
  spend : ∀ {size : Word} {s : Store} {n : ℕ}, s.heap.Ready → 0 < size.toNat →
    size.toNat ≤ 4096 → B s.heap (n + 1) → ∃ p s', kernelZalloc size s = .ok (p, s') ∧ p ≠ 0 ∧
      s.heap.SamePlace s'.heap ∧ B s'.heap n

/-- The free blocks are a budget. -/
theorem budget_freeBlocks : Budget fun h n => n ≤ h.freeBlocks := by
  refine ⟨fun {size s n} r hpos hsize hn => ?_⟩
  rcases kernelZalloc_single size r hpos hsize with ⟨h0, -⟩ | ⟨p, s', hz, h0, hplace, hcount⟩
  · omega
  · exact ⟨p, s', hz, h0, hplace, by omega⟩

/-- The entries after the last taken one are a budget. -/
theorem budget_room : Budget fun h n => ∃ m, h.Room m ∧ m + n ≤ h.total := by
  refine ⟨fun {size s n} r hpos hsize hb => ?_⟩
  obtain ⟨m, hroom, hle⟩ := hb
  have hone : blocksFor size.toNat = 1 := by
    unfold blocksFor
    omega
  obtain ⟨p, s', hz, h0, hplace, hroom'⟩ := kernelZalloc_of_room size r hroom hpos (by omega)
    (by omega)
  exact ⟨p, s', hz, h0, hplace, _, hroom', by rw [hplace.total, hone]; omega⟩

/-- All the blocks of the kernel's heap are free at the start. -/
theorem freeBlocks_kernelHeapInit : kernelHeapInit.freeBlocks = 25600 := by
  unfold Heap.freeBlocks
  rw [Finset.filter_true_of_mem fun i hi => room_kernelHeapInit i (Nat.zero_le i)
    (Finset.mem_range.1 hi), Finset.card_range]
  decide

/-! ## Freeing -/

/-- Writing free entries keeps the free ones. -/
theorem Heap.Free.write {i : ℕ} {ws : List TableWrite} (hf : h.Free i)
    (hws : ∀ w ∈ ws, w.2 = heapBlockTableEntryFree) : (h.write ws).Free i := by
  induction ws generalizing h with
  | nil => exact hf
  | cons w ws ih =>
    have hw : (h.write [w]).Free i := by
      change heapGetEntryType (Function.update h.entries w.1 w.2 i) = heapBlockTableEntryFree
      by_cases hi : i = w.1
      · rw [hi, Function.update_self, hws w (List.mem_cons_self ..)]
        rfl
      · rw [Function.update_of_ne hi]
        exact hf
    exact ih hw fun w' hw' => hws w' (List.mem_cons_of_mem _ hw')

/-- The freeing loop writes free entries only. -/
theorem heapMarkBlocksFreeLoop_free : ∀ {n i : ℕ} {w : TableWrite},
    w ∈ heapMarkBlocksFreeLoop h n i → w.2 = heapBlockTableEntryFree := by
  intro n
  induction n with
  | zero => exact fun hw => absurd hw List.not_mem_nil
  | succ n ih =>
    intro i w hw
    rcases List.mem_cons.1 hw with rfl | hw
    · rfl
    · split at hw
      · exact absurd hw List.not_mem_nil
      · exact ih hw

/-- `heap_free` keeps the free entries, whatever it frees. -/
theorem Heap.Free.heapFree {i : ℕ} (hf : h.Free i) (p : Word) : (h.write (heapFree h p)).Free i :=
  hf.write fun _ hw => heapMarkBlocksFreeLoop_free hw

/-- Freeing takes no free block away. -/
theorem Heap.freeBlocks_le_freeAll (h : Heap) (ps : List Word) :
    h.freeBlocks ≤ (h.freeAll ps).freeBlocks := by
  induction ps generalizing h with
  | nil => exact le_rfl
  | cons p ps ih =>
    refine le_trans (Finset.card_le_card fun i hi => ?_) (ih (h.write (heapFree h p)))
    rw [Finset.mem_filter] at hi ⊢
    exact ⟨hi.1, hi.2.heapFree p⟩

/-- A freed block is free. -/
theorem Heap.free_of_heapFree (r : h.Ready) (hb : b < h.total)
    (o : h.Owns (heapBlockToAddress h b) k) :
    (h.write (heapFree h (heapBlockToAddress h b))).Free b := by
  obtain ⟨b', hp, hle, c⟩ := o
  have hpos := c.pos
  have hlow := r.low
  obtain rfl : b = b' := heapBlockToAddress_inj r.placed hb (by omega) hp
  unfold Heap.Free
  rw [entries_heapFree r.placed c hle (by omega), if_pos (by omega)]
  rfl

/-- With the first block free, an allocation of one block takes it. -/
theorem kernelZalloc_first (size : Word) (r : s.heap.Ready) (hfree : s.heap.Free 0)
    (htotal : 0 < s.heap.total) (hpos : 0 < size.toNat) (hsize : size.toNat ≤ 0xFFFFF000)
    (hone : blocksFor size.toNat = 1) :
    kernelZalloc size s = .ok (heapBlockToAddress s.heap (0 : ℕ), s.zalloc size 0) := by
  refine kernelZalloc_of_firstFit r hpos hsize ⟨?_, fun b hb => absurd hb (Nat.not_lt_zero b)⟩
  rw [hone]
  refine ⟨by omega, fun i _ h2 => ?_⟩
  obtain rfl : i = 0 := by omega
  exact hfree

end OwnKernel
