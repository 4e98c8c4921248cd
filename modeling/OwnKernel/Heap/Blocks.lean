import OwnKernel.Lib.Scan
import OwnKernel.Model.Heap
import Mathlib.Tactic.IntervalCases

/-!
# The block heap, call by call

What each function of the heap does to the table. The search returns the
lowest run of free entries, or the free stretch at the table's end where
no run is long enough, or an error (`heapGetStartBlock_cases`). Marking
writes a chain: the first entry carries `IS_FIRST`, every entry but the
last `HAS_NEXT` (`heapMarkBlocksTaken_eq`). Freeing follows the chain and
writes exactly it (`heapMarkBlocksFree_of_chain`). Since only a chain's
first entry carries `IS_FIRST`, two chains that start apart are disjoint
(`Chain.disjoint`): the table alone says which blocks belong together.
-/

namespace OwnKernel

variable {h : Heap} {k : Word} {b i j n : ℕ}

/-- The entry's block is free. -/
def Heap.Free (h : Heap) (i : ℕ) : Prop :=
  heapGetEntryType (h.entries i) = heapBlockTableEntryFree

instance : DecidablePred h.Free := fun _ => inferInstanceAs (Decidable (_ = _))

/-! ## The search -/

/-- The length of the run the search goes for. The count of free entries
never comes to 0 again below `2 ^ 32`, so a request for no blocks is one
that is never met. -/
def searchLength (k : Word) : ℕ := if k.toNat = 0 then 2 ^ 32 else k.toNat

theorem searchLength_pos (k : Word) : 0 < searchLength k := by
  unfold searchLength; split <;> omega

theorem searchLength_of_pos (hk : 0 < k.toNat) : searchLength k = k.toNat :=
  if_neg (by omega)

/-- The count, kept in an `int`, is compared unsigned. -/
theorem uint32_int32_natCast (h : n < 2 ^ 32) : uint32 (int32 n) = n := by
  unfold uint32 int32; omega

theorem int32_int32_add_one (c : ℕ) : int32 (int32 c + 1) = int32 ((c + 1 : ℕ) : ℤ) := by
  unfold int32; push_cast; omega

/-- An index below the last a `size_t` holds is not mistaken for the mark
of no stretch. -/
theorem int32_natCast_ne (h : n + 1 < 2 ^ 32) : int32 n ≠ -1 := by
  unfold int32; omega

/-- `block_start` with `c` free entries counted below index `i`. -/
def stretchStart (i c : ℕ) : ℤ := if c = 0 then -1 else int32 ((i - c : ℕ) : ℤ)

/-- The loop from a scan's state ends at the lowest run, or at the end of
the table with a scan of all of it. -/
theorem heapGetStartBlockLoop_cases (htot : h.total < 2 ^ 32) :
    ∀ {n i c : ℕ}, Scan h.Free (searchLength k) i c → i + n = h.total →
      (∃ b, FirstFit h.Free h.total (searchLength k) b ∧
        heapGetStartBlockLoop h k n i (stretchStart i c) (int32 c) = int32 b) ∨
      (∃ c', Scan h.Free (searchLength k) h.total c' ∧
        heapGetStartBlockLoop h k n i (stretchStart i c) (int32 c) = stretchStart h.total c') := by
  intro n
  induction n with
  | zero =>
    intro i c hs hi
    have hi' : i = h.total := by omega
    exact Or.inr ⟨c, hi' ▸ hs, by rw [heapGetStartBlockLoop, hi']⟩
  | succ n ih =>
    intro i c hs hi
    have hci := hs.le
    have hcu : uint32 (int32 ((c + 1 : ℕ) : ℤ)) = c + 1 := uint32_int32_natCast (by omega)
    rw [heapGetStartBlockLoop]
    by_cases hfree : h.Free i
    · -- the entry is free: the stretch starts here or goes on
      have hstart : (if stretchStart i c = -1 then int32 i else stretchStart i c) =
          int32 ((i - c : ℕ) : ℤ) := by
        unfold stretchStart
        by_cases hc0 : c = 0
        · rw [if_pos (if_pos hc0), hc0, Nat.sub_zero]
        · rw [if_neg hc0, if_neg (int32_natCast_ne (by omega))]
      have htype : ¬ heapGetEntryType (h.entries i) ≠ heapBlockTableEntryFree := not_not.2 hfree
      simp only [hstart, int32_int32_add_one, hcu, if_neg htype]
      by_cases hk : c + 1 = k.toNat
      · rw [if_pos hk]
        have hlen : c + 1 = searchLength k := hk.trans (searchLength_of_pos (by omega)).symm
        exact Or.inl ⟨i - c, hs.firstFit hfree hlen (by omega), rfl⟩
      · rw [if_neg hk]
        have hlt : c + 1 < searchLength k := by
          have hlt := hs.lt
          unfold searchLength at hlt ⊢
          split_ifs at hlt ⊢ <;> omega
        have hnext := ih (hs.extend hfree hlt) (by omega)
        unfold stretchStart at hnext
        rwa [if_neg (Nat.succ_ne_zero c), Nat.add_sub_add_right] at hnext
    · rw [if_pos (by exact hfree)]
      exact ih (hs.reset hfree) (by omega)

/-- **What the search returns**, for a table as long as a `size_t` can
say. The lowest run of `k` free entries; or, when there is none, the
start of the free stretch at the table's end; or an error when there is
no such stretch either. The index is returned as an `int`. -/
theorem heapGetStartBlock_spec (htot : h.total < 2 ^ 32) (k : Word) :
    (∃ b, FirstFit h.Free h.total (searchLength k) b ∧ heapGetStartBlock h k = int32 b) ∨
    (∃ c, Scan h.Free (searchLength k) h.total c ∧
      heapGetStartBlock h k =
        if c = 0 then -noMemoryError else int32 ((h.total - c : ℕ) : ℤ)) := by
  have hloop := heapGetStartBlockLoop_cases (k := k) htot (n := h.total)
    (Scan.start (searchLength_pos k)) (Nat.zero_add _)
  change (∃ b, _ ∧ heapGetStartBlockLoop h k h.total 0 (-1) 0 = _) ∨
    (∃ c, _ ∧ heapGetStartBlockLoop h k h.total 0 (-1) 0 = _) at hloop
  unfold heapGetStartBlock
  rcases hloop with ⟨b, hb, heq⟩ | ⟨c, hc, heq⟩
  · refine Or.inl ⟨b, hb, ?_⟩
    have hle := hb.1.1
    have hpos := searchLength_pos k
    simp only [heq]
    rw [if_neg (int32_natCast_ne (by omega))]
  · refine Or.inr ⟨c, hc, ?_⟩
    simp only [heq, stretchStart]
    by_cases h0 : c = 0
    · rw [if_pos h0, if_pos h0, if_pos rfl]
    · rw [if_neg h0, if_neg h0, if_neg (int32_natCast_ne (by omega))]

/-- The same where the indexes are `int`s. -/
theorem heapGetStartBlock_cases (htot : h.total < 2 ^ 31) (hk : 0 < k.toNat) :
    (∃ b, FirstFit h.Free h.total k.toNat b ∧ heapGetStartBlock h k = b) ∨
    (∃ c, Scan h.Free k.toNat h.total c ∧
      heapGetStartBlock h k = if c = 0 then -noMemoryError else ((h.total - c : ℕ) : ℤ)) := by
  have hspec := heapGetStartBlock_spec (h := h) (by omega) k
  rw [searchLength_of_pos hk] at hspec
  rcases hspec with ⟨b, hb, heq⟩ | ⟨c, hc, heq⟩
  · have hle := hb.1.1
    exact Or.inl ⟨b, hb, by rw [heq, int32_of_range (by omega) (by omega)]⟩
  · exact Or.inr ⟨c, hc, by rw [heq, int32_of_range (by omega) (by omega)]⟩

/-! ## Marking -/

/-- The entry of the `j`-th block of a chain of `k`. -/
def chainEntry (k j : ℕ) : Byte :=
  heapBlockTableEntryTaken ||| (if j = 0 then heapBlockIsFirst else 0) |||
    (if j + 1 < k then heapBlockHasNext else 0)

/-- A chain's entries are taken. -/
theorem entryType_chainEntry (k j : ℕ) :
    heapGetEntryType (chainEntry k j) ≠ heapBlockTableEntryFree := by
  unfold chainEntry; split <;> split <;> decide

/-- An entry has `HAS_NEXT` exactly when it is not the chain's last. -/
theorem chainEntry_hasNext {k j : ℕ} :
    chainEntry k j &&& heapBlockHasNext = 0 ↔ ¬ j + 1 < k := by
  unfold chainEntry; split <;> split <;> simp_all <;> decide

/-- An entry has `IS_FIRST` exactly when it is the chain's first. -/
theorem chainEntry_isFirst {k j : ℕ} :
    chainEntry k j &&& heapBlockIsFirst = 0 ↔ j ≠ 0 := by
  unfold chainEntry; split <;> split <;> simp_all <;> decide

/-- The marking loop writes the rest of the chain. -/
theorem heapMarkBlocksTakenLoop_eq {k : ℕ} : ∀ {n j : ℕ}, j + n = k →
    heapMarkBlocksTakenLoop ((b : ℤ) + k - 1) n ((b + j : ℕ) : ℤ) (chainEntry k j) =
      (List.range' j n).map fun j => (b + j, chainEntry k j) := by
  intro n
  induction n with
  | zero => intro j _; rfl
  | succ n ih =>
    intro j hj
    rw [heapMarkBlocksTakenLoop, List.range'_succ, List.map_cons, Int.toNat_natCast]
    congr 1
    rcases Nat.eq_zero_or_pos n with rfl | hn
    · rfl
    · -- the value stored next is the chain's next entry
      have hnext : (if ((b + j : ℕ) : ℤ) ≠ (b : ℤ) + k - 1 - 1 then
          heapBlockTableEntryTaken ||| heapBlockHasNext else heapBlockTableEntryTaken) =
          chainEntry k (j + 1) := by
        by_cases hlast : j + 2 = k
        · rw [if_neg (by omega)]
          simp [chainEntry, show ¬ j + 1 + 1 < k by omega]
        · rw [if_pos (by omega)]
          simp [chainEntry, show j + 1 + 1 < k by omega]
      simp only [hnext]
      have := ih (j := j + 1) (by omega)
      rwa [show ((b + (j + 1) : ℕ) : ℤ) = ((b + j : ℕ) : ℤ) + 1 by omega] at this

/-- **Marking `k` blocks from `b` on writes a chain**, entry by entry. -/
theorem heapMarkBlocksTaken_eq (hk : 0 < k.toNat) (hb : b + k.toNat ≤ 2 ^ 31) :
    heapMarkBlocksTaken b k =
      (List.range k.toNat).map fun j => (b + j, chainEntry k.toNat j) := by
  have hend : int32 ((b : ℤ) + k.toNat - 1) = (b : ℤ) + k.toNat - 1 :=
    int32_of_range (by omega) (by omega)
  have hfirst : (if 1 < k.toNat then
      heapBlockTableEntryTaken ||| heapBlockIsFirst ||| heapBlockHasNext
      else heapBlockTableEntryTaken ||| heapBlockIsFirst) = chainEntry k.toNat 0 := by
    unfold chainEntry; split <;> simp_all
  unfold heapMarkBlocksTaken
  simp only [hend, hfirst]
  rw [show ((b : ℤ) + k.toNat - 1 + 1 - b).toNat = k.toNat by omega, List.range_eq_range']
  exact heapMarkBlocksTakenLoop_eq (b := b) (j := 0) (by omega)

/-! ## The table after the writes -/

@[simp] theorem Heap.write_total (h : Heap) (ws : List TableWrite) :
    (h.write ws).total = h.total := rfl

@[simp] theorem Heap.write_startAddress (h : Heap) (ws : List TableWrite) :
    (h.write ws).startAddress = h.startAddress := rfl

@[simp] theorem Heap.write_nil (h : Heap) : h.write [] = h := rfl

/-- Writing `f` along consecutive indexes changes those and no others. -/
theorem foldl_update_range' (f : ℕ → Byte) : ∀ (n b : ℕ) (e : ℕ → Byte),
    ((List.range' b n).map fun i => (i, f i)).foldl (fun e w => Function.update e w.1 w.2) e =
      fun i => if b ≤ i ∧ i < b + n then f i else e i := by
  intro n
  induction n with
  | zero =>
    intro b e
    funext i
    rw [if_neg (by omega)]; rfl
  | succ n ih =>
    intro b e
    rw [List.range'_succ, List.map_cons, List.foldl_cons, ih]
    funext i
    by_cases hi : i = b
    · subst hi; simp
    · by_cases hr : b + 1 ≤ i ∧ i < b + 1 + n
      · rw [if_pos hr, if_pos (by omega)]
      · rw [if_neg hr, if_neg (by omega), Function.update_of_ne hi]

/-- The indexes and values a chain's marking writes, from the block on. -/
theorem map_range_add (f : ℕ → Byte) (b n : ℕ) :
    ((List.range n).map fun j => (b + j, f j)) =
      (List.range' b n).map fun i => (i, f (i - b)) := by
  have hshift : List.range' b n = (List.range n).map (b + ·) := by
    rw [List.range_eq_range', List.map_add_range', Nat.add_zero]
  rw [hshift, List.map_map]
  refine List.map_congr_left fun j _ => ?_
  simp

/-- **The table after marking.** -/
theorem entries_markBlocksTaken (hk : 0 < k.toNat) (hb : b + k.toNat ≤ 2 ^ 31) :
    (h.write (heapMarkBlocksTaken b k)).entries i =
      if b ≤ i ∧ i < b + k.toNat then chainEntry k.toNat (i - b) else h.entries i := by
  rw [heapMarkBlocksTaken_eq hk hb, map_range_add, Heap.write,
    foldl_update_range' fun i => chainEntry k.toNat (i - b)]

/-! ## Chains -/

/-- **The blocks `b, …, b + k − 1` are one allocation**: their entries are
the ones marking `k` blocks writes. -/
structure Heap.Chain (h : Heap) (b k : ℕ) : Prop where
  pos : 0 < k
  entry : ∀ j, j < k → h.entries (b + j) = chainEntry k j

namespace Heap.Chain

variable {k k' b' : ℕ}

/-- A chain's block is taken. -/
theorem not_free (c : h.Chain b k) (h1 : b ≤ i) (h2 : i < b + k) : ¬ h.Free i := by
  obtain ⟨j, rfl⟩ := Nat.exists_eq_add_of_le h1
  unfold Heap.Free
  rw [c.entry j (by omega)]
  exact entryType_chainEntry k j

/-- A chain is read off the table, so agreeing on its entries is enough. -/
theorem congr {h' : Heap} (c : h.Chain b k)
    (heq : ∀ i, b ≤ i → i < b + k → h'.entries i = h.entries i) : h'.Chain b k where
  pos := c.pos
  entry j hj := by rw [heq _ (by omega) (by omega), c.entry j hj]

/-- The chain that starts at a block is determined by the table. -/
theorem length_unique (c : h.Chain b k) (c' : h.Chain b k') : k = k' := by
  by_contra hne
  wlog hlt : k < k' generalizing k k'
  · exact this c' c (Ne.symm hne) (by omega)
  have hpos := c.pos
  have h1 := c.entry (k - 1) (by omega)
  have h2 := c'.entry (k - 1) (by omega)
  have hend : chainEntry k (k - 1) &&& heapBlockHasNext = 0 := chainEntry_hasNext.2 (by omega)
  rw [← h1, h2, chainEntry_hasNext] at hend
  omega

/-- **Chains that start apart are disjoint**: the later start would be a
first entry inside the earlier chain. -/
theorem disjoint (c : h.Chain b k) (c' : h.Chain b' k') (hne : b ≠ b') :
    b + k ≤ b' ∨ b' + k' ≤ b := by
  by_contra hcon
  wlog hlt : b < b' generalizing b b' k k'
  · exact this c' c (Ne.symm hne) (by omega) (by omega)
  have hpos := c'.pos
  have h1 := c.entry (b' - b) (by omega)
  rw [show b + (b' - b) = b' by omega] at h1
  have h2 := c'.entry 0 hpos
  rw [Nat.add_zero] at h2
  have hfirst : chainEntry k' 0 &&& heapBlockIsFirst ≠ 0 := by
    rw [Ne, chainEntry_isFirst]; simp
  rw [← h2, h1, Ne, chainEntry_isFirst] at hfirst
  omega

end Heap.Chain

/-- Marking makes a chain. -/
theorem chain_markBlocksTaken (hk : 0 < k.toNat) (hb : b + k.toNat ≤ 2 ^ 31) :
    (h.write (heapMarkBlocksTaken b k)).Chain b k.toNat where
  pos := hk
  entry j hj := by
    rw [entries_markBlocksTaken hk hb, if_pos (by omega), Nat.add_sub_cancel_left]

/-- The freeing loop writes the rest of the chain, as far as the table
goes, and stops. -/
theorem heapMarkBlocksFreeLoop_of_chain {k : ℕ} : ∀ {n j : ℕ}, j < k →
    (∀ j', j ≤ j' → j' < k → j' < j + n → h.entries (b + j') = chainEntry k j') →
      heapMarkBlocksFreeLoop h n (b + j) =
        (List.range' (b + j) (min (k - j) n)).map fun i => (i, heapBlockTableEntryFree) := by
  intro n
  induction n with
  | zero =>
    intro j _ _
    rw [Nat.min_zero]
    rfl
  | succ n ih =>
    intro j hj hentry
    have hmin : min (k - j) (n + 1) = min (k - (j + 1)) n + 1 := by omega
    rw [heapMarkBlocksFreeLoop, hentry j le_rfl hj (by omega), hmin, List.range'_succ,
      List.map_cons]
    by_cases hlast : j + 1 < k
    · rw [if_neg (by rw [chainEntry_hasNext]; omega)]
      exact congrArg _ (ih (j := j + 1) hlast fun j' h1 h2 h3 => hentry j' (by omega) h2 (by omega))
    · have hend : min (k - (j + 1)) n = 0 := by omega
      rw [if_pos (chainEntry_hasNext.2 hlast), hend]
      rfl

/-- **Freeing a chain writes exactly it.** -/
theorem heapMarkBlocksFree_of_chain {k : ℕ} (c : h.Chain b k) (hle : b + k ≤ h.total)
    (hb : b < 2 ^ 32) :
    heapMarkBlocksFree h b = (List.range' b k).map fun i => (i, heapBlockTableEntryFree) := by
  unfold heapMarkBlocksFree
  rw [uint32_natCast hb]
  have hloop := heapMarkBlocksFreeLoop_of_chain (n := h.total - b) c.pos
    fun j' _ hj' _ => c.entry j' hj'
  rwa [Nat.add_zero, Nat.sub_zero, min_eq_left (by omega)] at hloop

/-- **The table after freeing a chain.** -/
theorem entries_markBlocksFree {k : ℕ} (c : h.Chain b k) (hle : b + k ≤ h.total)
    (hb : b < 2 ^ 32) :
    (h.write (heapMarkBlocksFree h b)).entries i =
      if b ≤ i ∧ i < b + k then heapBlockTableEntryFree else h.entries i := by
  rw [heapMarkBlocksFree_of_chain c hle hb, Heap.write,
    foldl_update_range' fun _ => heapBlockTableEntryFree]

/-- A block past the table is freed by doing nothing. -/
theorem heapMarkBlocksFree_past {z : ℤ} (hz : h.total ≤ uint32 z) :
    heapMarkBlocksFree h z = [] := by
  unfold heapMarkBlocksFree
  rw [Nat.sub_eq_zero_of_le hz]
  rfl

end OwnKernel
