import OwnKernel.Heap.Runs
import Mathlib.Data.List.Perm.Basic
import Mathlib.Data.List.Dedup

/-!
# `heap_free` undoes `heap_malloc`

The table stores no length: `heap_free` follows the flags that marking
left. `MarkedRun` keeps, beside the heap, each live pointer with the
table writes that marked it, so that what a free undoes can be compared
with what its allocation did. The calls are any that succeed, those that
run past the table's end included: of such an allocation the part in the
table is a chain cut short (`Heap.ClippedChain`), and the free stops at
the table's end.
-/

namespace OwnKernel

/-- A heap and its live allocations, newest first: what `heap_malloc`
answered, and the writes it made. -/
structure MarkedRun where
  heap : Heap
  live : List (Word × List TableWrite)

/-- The run after `heap_malloc`. -/
def MarkedRun.malloc (s : MarkedRun) (size : Word) : MarkedRun where
  heap := s.heap.write (heapMalloc s.heap size).2
  live := heapMalloc s.heap size :: s.live

/-- The run after `heap_free`. -/
def MarkedRun.free (s : MarkedRun) (ptr : Word) : MarkedRun where
  heap := s.heap.write (heapFree s.heap ptr)
  live := s.live.filter fun a => a.1 ≠ ptr

/-- **One call**: a `heap_malloc` that succeeds, of a size from 1 to the
last page of the address space, or a `heap_free` of a live pointer. -/
inductive MarkedStep : MarkedRun → MarkedRun → Prop
  | malloc {s : MarkedRun} {size : Word} : 0 < size.toNat → size.toNat ≤ 0xFFFFF000 →
      (heapMalloc s.heap size).1 ≠ 0 → MarkedStep s (s.malloc size)
  | free {s : MarkedRun} {a : Word × List TableWrite} : a ∈ s.live → MarkedStep s (s.free a.1)

/-- The pointer is less than 2 GiB above the heap's start. -/
def MarkedRun.Low (s : MarkedRun) (ptr : Word) : Prop :=
  (ptr - s.heap.startAddress).toNat < 2 ^ 31

/-- One call, whose pointer is low when it is a free. -/
inductive MarkedStepLow : MarkedRun → MarkedRun → Prop
  | malloc {s : MarkedRun} {size : Word} : 0 < size.toNat → size.toNat ≤ 0xFFFFF000 →
      (heapMalloc s.heap size).1 ≠ 0 → MarkedStepLow s (s.malloc size)
  | free {s : MarkedRun} {a : Word × List TableWrite} : a ∈ s.live → s.Low a.1 →
      MarkedStepLow s (s.free a.1)

/-- The allocation marked entry `i`. -/
def Marked (a : Word × List TableWrite) (i : ℕ) : Prop := ∃ w ∈ a.2, w.1 = i

/-- **Freeing the allocation undoes its marking.** -/
structure MarkedRun.Undone (s : MarkedRun) (a : Word × List TableWrite) : Prop where
  /-- The free sets the entries of the table that the allocation marked. -/
  frees : ∀ i, i < s.heap.total → Marked a i →
    (s.heap.write (heapFree s.heap a.1)).entries i = heapBlockTableEntryFree
  /-- It changes nothing else. -/
  keeps : ∀ i, ¬ (i < s.heap.total ∧ Marked a i) →
    (s.heap.write (heapFree s.heap a.1)).entries i = s.heap.entries i

/-- Freeing every live pointer, in any order, frees the table. -/
def MarkedRun.FreesAll (s : MarkedRun) : Prop :=
  ∀ ptrs : List Word, ptrs.Perm (s.live.map Prod.fst) → (s.heap.freeAll ptrs).AllFree

variable {h : Heap} {s : MarkedRun} {size ptr : Word} {a a' : Word × List TableWrite} {i b k : ℕ}

/-! ## Chains that may leave the table -/

/-- **The blocks `b, …, b + k − 1` are one allocation**, as far as the
table goes. -/
structure Heap.ClippedChain (h : Heap) (b k : ℕ) : Prop where
  pos : 0 < k
  lt : b < h.total
  entry : ∀ j, j < k → b + j < h.total → h.entries (b + j) = chainEntry k j

namespace Heap.ClippedChain

variable {k' b' : ℕ}

theorem not_free (c : h.ClippedChain b k) (h1 : b ≤ i) (h2 : i < b + k) (h3 : i < h.total) :
    ¬ h.Free i := by
  obtain ⟨j, rfl⟩ := Nat.exists_eq_add_of_le h1
  unfold Heap.Free
  rw [c.entry j (by omega) h3]
  exact entryType_chainEntry k j

theorem congr {h' : Heap} (c : h.ClippedChain b k) (htot : h'.total = h.total)
    (heq : ∀ i, b ≤ i → i < b + k → i < h.total → h'.entries i = h.entries i) :
    h'.ClippedChain b k where
  pos := c.pos
  lt := htot ▸ c.lt
  entry j hj hlt := by
    rw [htot] at hlt
    rw [heq _ (by omega) (by omega) hlt, c.entry j hj hlt]

/-- Allocations that start apart are disjoint. -/
theorem disjoint (c : h.ClippedChain b k) (c' : h.ClippedChain b' k') (hne : b ≠ b') :
    b + k ≤ b' ∨ b' + k' ≤ b := by
  by_contra hcon
  wlog hlt : b < b' generalizing b b' k k'
  · exact this c' c (Ne.symm hne) (by omega) (by omega)
  -- the later start would be a first entry inside the earlier chain
  have hpos := c'.pos
  have hin := c'.lt
  have h1 := c.entry (b' - b) (by omega) (by omega)
  rw [show b + (b' - b) = b' by omega] at h1
  have h2 := c'.entry 0 hpos hin
  rw [Nat.add_zero] at h2
  have hfirst : chainEntry k' 0 &&& heapBlockIsFirst ≠ 0 := by
    rw [Ne, chainEntry_isFirst]; simp
  rw [← h2, h1, Ne, chainEntry_isFirst] at hfirst
  omega

/-- **`heap_free` of it**: the entries of the table that are its own, in
the lower 2 GiB of the heap. -/
theorem entries_heapFree (c : h.ClippedChain b k) (hp : h.Placed) (hlow : b < 2 ^ 19) (i : ℕ) :
    (h.write (heapFree h (heapBlockToAddress h b))).entries i =
      if b ≤ i ∧ i < b + min k (h.total - b) then heapBlockTableEntryFree else h.entries i := by
  have hlt := c.lt
  have htot := hp.total_lt
  unfold heapFree heapMarkBlocksFree
  rw [heapAddressToBlock_heapBlockToAddress hp hlt hlow, uint32_natCast (by omega)]
  have hloop := heapMarkBlocksFreeLoop_of_chain (h := h) (n := h.total - b) c.pos
    fun j' _ hj' hj => c.entry j' hj' (by omega)
  rw [Nat.add_zero, Nat.sub_zero] at hloop
  rw [hloop, Heap.write, foldl_update_range' fun _ => heapBlockTableEntryFree]

end Heap.ClippedChain

/-! ## What a successful `heap_malloc` marks -/

/-- A free stretch from `b` on that is long enough, or goes to the
table's end. -/
structure Heap.OpenAt (h : Heap) (b k : ℕ) : Prop where
  lt : b < h.total
  free : ∀ i, b ≤ i → i < b + k → i < h.total → h.Free i

/-- **What `heap_malloc` does when it succeeds.** -/
theorem heapMalloc_of_ne (hp : h.Placed) (hpos : 0 < size.toNat) (hsize : size.toNat ≤ 0xFFFFF000)
    (hne : (heapMalloc h size).1 ≠ 0) :
    ∃ b, h.OpenAt b (blocksFor size.toNat) ∧ heapMalloc h size =
      (heapBlockToAddress h b, heapMarkBlocksTaken b (heapTotalBlocks size)) := by
  have hk := blocksFor_pos hpos
  rcases heapMalloc_cases hp hpos hsize with ⟨b, hb, heq⟩ | ⟨c, hc, hcpos, heq⟩ | ⟨-, heq⟩
  · have hle := hb.1.1
    exact ⟨b, ⟨by omega, fun i h1 h2 _ => hb.1.2 i h1 h2⟩, heq⟩
  · have hle := hc.le
    exact ⟨h.total - c, ⟨by omega, fun i h1 _ h3 => hc.run i (by omega) h3⟩, heq⟩
  · rw [heq] at hne
    exact absurd rfl hne

/-- An allocation has at most as many blocks as the address space. -/
theorem blocksFor_le (hsize : size.toNat ≤ 0xFFFFF000) : blocksFor size.toNat ≤ 2 ^ 20 := by
  unfold blocksFor
  omega

/-- The table after the marking. -/
theorem Heap.OpenAt.entries (o : h.OpenAt b (blocksFor size.toNat)) (hp : h.Placed)
    (hpos : 0 < size.toNat) (hsize : size.toNat ≤ 0xFFFFF000) (i : ℕ) :
    (h.write (heapMarkBlocksTaken b (heapTotalBlocks size))).entries i =
      if b ≤ i ∧ i < b + blocksFor size.toNat then chainEntry (blocksFor size.toNat) (i - b)
      else h.entries i := by
  have hlt := o.lt
  have htot := hp.total_lt
  have hblocks := toNat_heapTotalBlocks hsize
  have hk := blocksFor_pos hpos
  have hlong := blocksFor_le hsize
  rw [entries_markBlocksTaken (by omega) (by omega), hblocks]

/-- Marking makes a chain, as far as the table goes. -/
theorem Heap.OpenAt.clippedChain (o : h.OpenAt b (blocksFor size.toNat)) (hp : h.Placed)
    (hpos : 0 < size.toNat) (hsize : size.toNat ≤ 0xFFFFF000) :
    (h.write (heapMarkBlocksTaken b (heapTotalBlocks size))).ClippedChain b
      (blocksFor size.toNat) where
  pos := blocksFor_pos hpos
  lt := o.lt
  entry j hj _ := by
    rw [o.entries hp hpos hsize, if_pos (by omega), Nat.add_sub_cancel_left]

/-- The entries marked. -/
theorem marked_iff (hpos : 0 < size.toNat) (hsize : size.toNat ≤ 0xFFFFF000) (hb : b < 2 ^ 20)
    (ptr : Word) :
    Marked (ptr, heapMarkBlocksTaken b (heapTotalBlocks size)) i ↔
      b ≤ i ∧ i < b + blocksFor size.toNat := by
  have hblocks := toNat_heapTotalBlocks hsize
  have hk := blocksFor_pos hpos
  have hlong := blocksFor_le hsize
  unfold Marked
  rw [heapMarkBlocksTaken_eq (by omega) (by omega), hblocks]
  constructor
  · rintro ⟨w, hw, rfl⟩
    obtain ⟨j, hj, rfl⟩ := List.mem_map.1 hw
    rw [List.mem_range] at hj
    exact ⟨Nat.le_add_right b j, Nat.add_lt_add_left hj b⟩
  · rintro ⟨h1, h2⟩
    refine ⟨_, List.mem_map.2 ⟨i - b, List.mem_range.2 (by omega), rfl⟩, ?_⟩
    exact Nat.add_sub_of_le h1

/-! ## The invariant -/

/-- **The live allocations.** The heap is the one the run began with, up
to its entries; live pointers are distinct; each is the address of a
chain, cut at the table's end, of the entries its allocation marked. -/
structure MarkedRun.Chains (h : Heap) (s : MarkedRun) : Prop where
  total : s.heap.total = h.total
  start : s.heap.startAddress = h.startAddress
  nodup : (s.live.map Prod.fst).Nodup
  chain : ∀ a ∈ s.live, ∃ b k : ℕ, a.1 = heapBlockToAddress s.heap b ∧ s.heap.ClippedChain b k ∧
    ∀ i, Marked a i ↔ b ≤ i ∧ i < b + k

namespace MarkedRun.Chains

theorem placed (hc : s.Chains h) (hp : h.Placed) : s.heap.Placed :=
  ⟨hc.start ▸ hp.pos, hc.total ▸ hc.start ▸ hp.fits⟩

/-- **A free of a low pointer** sets the entries of the table its
allocation marked, and no others. -/
theorem undone (hc : s.Chains h) (hp : h.Placed) (ha : a ∈ s.live) (hlow : s.Low a.1) :
    s.Undone a := by
  obtain ⟨b, k, hptr, c, hm⟩ := hc.chain a ha
  have hlt := c.lt
  have hoff := toNat_heapBlockToAddress_sub (hc.placed hp) hlt
  unfold MarkedRun.Low at hlow
  rw [hptr, hoff] at hlow
  have hentries := c.entries_heapFree (hc.placed hp) (by omega)
  rw [← hptr] at hentries
  constructor
  · intro i hi hin
    rw [hm] at hin
    rw [hentries, if_pos (by omega)]
  · intro i hout
    rw [hm] at hout
    rw [hentries, if_neg (by omega)]

/-- **A free of another pointer** does nothing. -/
theorem heapFree_eq_nil (hc : s.Chains h) (hp : h.Placed) (ha : a ∈ s.live) (hhigh : ¬ s.Low a.1) :
    heapFree s.heap a.1 = [] := by
  obtain ⟨b, k, hptr, c, -⟩ := hc.chain a ha
  have hoff := toNat_heapBlockToAddress_sub (hc.placed hp) c.lt
  unfold MarkedRun.Low at hhigh
  rw [hptr, hoff] at hhigh
  rw [hptr]
  exact heapFree_of_high (hc.placed hp) c.lt (by omega)

/-- An allocation has an entry, and it is not free. -/
theorem exists_marked (hc : s.Chains h) (ha : a ∈ s.live) :
    ∃ i, i < s.heap.total ∧ Marked a i ∧ s.heap.entries i ≠ heapBlockTableEntryFree := by
  obtain ⟨b, k, -, c, hm⟩ := hc.chain a ha
  have hpos := c.pos
  refine ⟨b, c.lt, (hm b).2 ⟨le_rfl, by omega⟩, fun hfree => ?_⟩
  refine c.not_free le_rfl (by omega) c.lt ?_
  unfold Heap.Free
  rw [hfree]
  rfl

/-- **When a free undoes its allocation.** -/
theorem undone_iff (hc : s.Chains h) (hp : h.Placed) (ha : a ∈ s.live) :
    s.Undone a ↔ s.Low a.1 := by
  refine ⟨fun hu => ?_, hc.undone hp ha⟩
  by_contra hhigh
  obtain ⟨i, hi, hm, hne⟩ := hc.exists_marked ha
  have hfree := hu.frees i hi hm
  rw [hc.heapFree_eq_nil hp ha hhigh, Heap.write_nil] at hfree
  exact hne hfree

/-- Distinct live allocations mark different entries. -/
theorem disjoint (hc : s.Chains h) (ha : a ∈ s.live) (ha' : a' ∈ s.live) (hne : a.1 ≠ a'.1)
    (hm : Marked a i) : ¬ Marked a' i := by
  obtain ⟨b, k, hptr, c, hmark⟩ := hc.chain a ha
  obtain ⟨b', k', hptr', c', hmark'⟩ := hc.chain a' ha'
  have hbb : b ≠ b' := fun he => hne (by rw [hptr, hptr', he])
  rw [hmark] at hm
  rw [hmark']
  rcases c.disjoint c' hbb with hd | hd <;> omega

/-- A free, low or not, writes no entry of another allocation. -/
theorem entries_free_of_ne (hc : s.Chains h) (hp : h.Placed) (ha : a ∈ s.live) (ha' : a' ∈ s.live)
    (hne : a'.1 ≠ a.1) (hm : Marked a' i) :
    (s.free a.1).heap.entries i = s.heap.entries i := by
  by_cases hlow : s.Low a.1
  · exact (hc.undone hp ha hlow).keeps i fun hin => hc.disjoint ha' ha hne hm hin.2
  · change (s.heap.write (heapFree s.heap a.1)).entries i = _
    rw [hc.heapFree_eq_nil hp ha hlow, Heap.write_nil]

/-- What is live after a free. -/
theorem mem_live_free : a' ∈ (s.free ptr).live ↔ a' ∈ s.live ∧ a'.1 ≠ ptr := by
  simp [MarkedRun.free, List.mem_filter]

/-- **A free keeps the live allocations.** -/
theorem free (hc : s.Chains h) (hp : h.Placed) (ha : a ∈ s.live) : (s.free a.1).Chains h := by
  refine ⟨hc.total, hc.start, hc.nodup.sublist (List.filter_sublist.map _), fun a' hl => ?_⟩
  obtain ⟨ha', hne⟩ := mem_live_free.1 hl
  obtain ⟨b', k', hptr', c', hmark'⟩ := hc.chain a' ha'
  refine ⟨b', k', hptr', c'.congr rfl fun j h1 h2 _ => ?_, hmark'⟩
  exact hc.entries_free_of_ne hp ha ha' hne ((hmark' j).2 ⟨h1, h2⟩)

/-- The pointers left after a free. -/
theorem map_live_free (hc : s.Chains h) (ptr : Word) :
    (s.free ptr).live.map Prod.fst = (s.live.map Prod.fst).erase ptr := by
  rw [hc.nodup.erase_eq_filter, List.filter_map]
  refine congrArg _ (List.filter_congr fun a _ => ?_)
  by_cases hptr : a.1 = ptr <;> simp [hptr]

/-- **The entries of an allocation stay**, whatever other live pointers are
freed: by induction on the order. -/
theorem entries_freeAll (hp : h.Placed) (hm : Marked a i) :
    ∀ {ptrs : List Word} {s : MarkedRun}, s.Chains h → a ∈ s.live → a.1 ∉ ptrs → ptrs.Nodup →
      (∀ ptr ∈ ptrs, ptr ∈ s.live.map Prod.fst) →
        (s.heap.freeAll ptrs).entries i = s.heap.entries i := by
  intro ptrs
  induction ptrs with
  | nil => exact fun _ _ _ _ _ => rfl
  | cons ptr ptrs ih =>
    intro s hc ha hnot hnodup hlive
    obtain ⟨a', ha', rfl⟩ := List.mem_map.1 (hlive ptr List.mem_cons_self)
    obtain ⟨hfirst, hnodup⟩ := List.nodup_cons.1 hnodup
    have hne : a.1 ≠ a'.1 := fun he => hnot (he ▸ List.mem_cons_self)
    rw [Heap.freeAll_cons]
    refine (ih (hc.free hp ha') (mem_live_free.2 ⟨ha, hne⟩) (fun hin => hnot
      (List.mem_cons_of_mem _ hin)) hnodup fun ptr hin => ?_).trans
        (hc.entries_free_of_ne hp ha' ha hne hm)
    obtain ⟨c, hcl, rfl⟩ := List.mem_map.1 (hlive ptr (List.mem_cons_of_mem _ hin))
    exact List.mem_map_of_mem (mem_live_free.2 ⟨hcl, fun he => hfirst (he ▸ hin)⟩)

/-- **With a live pointer that is not low the table is not freed.** -/
theorem low_of_freesAll (hc : s.Chains h) (hp : h.Placed) (hall : s.FreesAll) (ha : a ∈ s.live) :
    s.Low a.1 := by
  by_contra hhigh
  obtain ⟨i, hi, hm, hne⟩ := hc.exists_marked ha
  have hin : a.1 ∈ s.live.map Prod.fst := List.mem_map_of_mem ha
  have hfree := hall _ (List.perm_cons_erase hin).symm i (by rwa [Heap.freeAll_total])
  rw [Heap.freeAll_cons, hc.heapFree_eq_nil hp ha hhigh, Heap.write_nil,
    hc.entries_freeAll hp hm ha (hc.nodup.not_mem_erase) (hc.nodup.erase _)
      fun ptr hptr => List.mem_of_mem_erase hptr] at hfree
  exact hne hfree

end MarkedRun.Chains

/-- **The invariant.** The live allocations are there, and the other
entries of the table are free. -/
structure MarkedRun.Inv (h : Heap) (s : MarkedRun) : Prop extends s.Chains h where
  rest : ∀ i, i < s.heap.total → (∀ a ∈ s.live, ¬ Marked a i) →
    s.heap.entries i = heapBlockTableEntryFree

namespace MarkedRun.Inv

/-- An all-free heap with nothing live. -/
theorem start_allFree (hfree : h.AllFree) : MarkedRun.Inv h ⟨h, []⟩ where
  total := rfl
  start := rfl
  nodup := List.nodup_nil
  chain _ ha := absurd ha List.not_mem_nil
  rest i hi _ := hfree i hi

/-- **A successful allocation keeps the invariant.** -/
theorem malloc (hi : s.Inv h) (hp : h.Placed) (hpos : 0 < size.toNat)
    (hsize : size.toNat ≤ 0xFFFFF000) (hne : (heapMalloc s.heap size).1 ≠ 0) :
    (s.malloc size).Inv h := by
  have hp' := hi.placed hp
  have htot := hp'.total_lt
  have hk := blocksFor_pos hpos
  obtain ⟨b, hopen, heq⟩ := heapMalloc_of_ne hp' hpos hsize hne
  have hb := hopen.lt
  have hmark : ∀ i, Marked (heapMalloc s.heap size) i ↔ b ≤ i ∧ i < b + blocksFor size.toNat := by
    intro i
    rw [heq]
    exact marked_iff hpos hsize (by omega) _
  have hentries : ∀ j, (s.malloc size).heap.entries j =
      if b ≤ j ∧ j < b + blocksFor size.toNat then chainEntry (blocksFor size.toNat) (j - b)
      else s.heap.entries j := by
    intro j
    change (s.heap.write (heapMalloc s.heap size).2).entries j = _
    rw [heq, hopen.entries hp' hpos hsize]
  -- a live allocation's entries are taken, the new one's were free
  have hapart : ∀ b' k', s.heap.ClippedChain b' k' → ∀ j, j < s.heap.total →
      b' ≤ j → j < b' + k' → ¬ (b ≤ j ∧ j < b + blocksFor size.toNat) := by
    intro b' k' c j h1 h2 h3 ⟨h4, h5⟩
    exact c.not_free h2 h3 h1 (hopen.free j h4 h5 h1)
  refine ⟨⟨hi.total, hi.start, List.nodup_cons.2 ⟨fun hmem => ?_, hi.nodup⟩, ?_⟩, ?_⟩
  · obtain ⟨a, ha, hptr⟩ := List.mem_map.1 hmem
    obtain ⟨b', k', hb', c, -⟩ := hi.chain a ha
    have hpos' := c.pos
    have haddr : heapBlockToAddress s.heap b' = heapBlockToAddress s.heap b := by
      rw [← hb', hptr, heq]
    have hbb : b' = b := heapBlockToAddress_inj hp' c.lt hb haddr
    exact hapart b' k' c b hb (by omega) (by omega) ⟨le_rfl, by omega⟩
  · intro a ha
    rcases List.mem_cons.1 ha with rfl | ha
    · refine ⟨b, blocksFor size.toNat, by rw [heq]; rfl, ?_, hmark⟩
      change (s.heap.write (heapMalloc s.heap size).2).ClippedChain b _
      rw [heq]
      exact hopen.clippedChain hp' hpos hsize
    · obtain ⟨b', k', hb', c, hm⟩ := hi.chain a ha
      refine ⟨b', k', hb', c.congr rfl fun j h1 h2 h3 => ?_, hm⟩
      rw [hentries, if_neg (hapart b' k' c j h3 h1 h2)]
  · intro j hj hno
    have hout := hno _ List.mem_cons_self
    rw [hmark] at hout
    rw [hentries, if_neg hout]
    exact hi.rest j hj fun a ha => hno a (List.mem_cons_of_mem _ ha)

/-- **A free of a low pointer keeps the invariant.** -/
theorem free (hi : s.Inv h) (hp : h.Placed) (ha : a ∈ s.live) (hlow : s.Low a.1) :
    (s.free a.1).Inv h := by
  have hu := hi.toChains.undone hp ha hlow
  refine ⟨hi.toChains.free hp ha, fun j hj hno => ?_⟩
  by_cases hm : Marked a j
  · exact hu.frees j hj hm
  · refine (hu.keeps j fun hin => hm hin.2).trans (hi.rest j hj fun a' ha' hm' => ?_)
    by_cases hptr : a'.1 = a.1
    · have haa : a' = a := List.inj_on_of_nodup_map hi.nodup ha' ha hptr
      exact hm (haa ▸ hm')
    · exact hno a' (Chains.mem_live_free.2 ⟨ha', hptr⟩) hm'

/-- **Freeing every live pointer frees the table**, when they are low: by
induction on the order. -/
theorem allFree_freeAll (hp : h.Placed) :
    ∀ {ptrs : List Word} {s : MarkedRun}, s.Inv h → (∀ a ∈ s.live, s.Low a.1) →
      ptrs.Perm (s.live.map Prod.fst) → (s.heap.freeAll ptrs).AllFree := by
  intro ptrs
  induction ptrs with
  | nil =>
    intro s hi _ hperm i hlt
    have hnil : s.live = [] := List.map_eq_nil_iff.1 hperm.symm.eq_nil
    exact hi.rest i hlt fun a ha => absurd (hnil ▸ ha) List.not_mem_nil
  | cons ptr ptrs ih =>
    intro s hi hlow hperm
    obtain ⟨hmem, hrest⟩ := List.cons_perm_iff_perm_erase.1 hperm
    obtain ⟨a, ha, rfl⟩ := List.mem_map.1 hmem
    exact ih (hi.free hp ha (hlow a ha)) (fun a' ha' => hlow a' (Chains.mem_live_free.1 ha').1)
      (hi.toChains.map_live_free a.1 ▸ hrest)

/-- When every order of frees frees the table. -/
theorem freesAll_iff (hi : s.Inv h) (hp : h.Placed) : s.FreesAll ↔ ∀ a ∈ s.live, s.Low a.1 :=
  ⟨fun hall _ ha => hi.toChains.low_of_freesAll hp hall ha,
    fun hlow _ hperm => allFree_freeAll hp hi hlow hperm⟩

/-- Every call that meets the condition keeps the invariant. -/
theorem step {t : MarkedRun} (hi : s.Inv h) (hp : h.Placed) (hstep : MarkedStepLow s t) :
    t.Inv h := by
  cases hstep with
  | malloc hpos hsize hne => exact hi.malloc hp hpos hsize hne
  | free ha hlow => exact hi.free hp ha hlow

end MarkedRun.Inv

/-- **Freeing undoes marking in every run of frees of low pointers**, from
an all-free table: of exactly the low live pointers, and all frees
together free the table exactly when every live pointer is low. -/
theorem markedRun_undoes_iff (hp : h.Placed) (hfree : h.AllFree)
    (hrun : Relation.ReflTransGen MarkedStepLow ⟨h, []⟩ s) :
    (∀ a ∈ s.live, s.Undone a ↔ s.Low a.1) ∧ (s.FreesAll ↔ ∀ a ∈ s.live, s.Low a.1) := by
  have hi : s.Inv h := by
    induction hrun with
    | refl => exact MarkedRun.Inv.start_allFree hfree
    | tail _ hstep ih => exact ih.step hp hstep
  exact ⟨fun _ ha => hi.toChains.undone_iff hp ha, hi.freesAll_iff hp⟩

/-- A block from the kernel's heap, given back, and two more. -/
theorem markedRun_undoes_kernelHeapInit :
    let s := (((MarkedRun.mk kernelHeapInit []).malloc 4096).free heapAddress).malloc 8192
    (∀ a ∈ s.live, s.Undone a ↔ s.Low a.1) ∧ (s.FreesAll ↔ ∀ a ∈ s.live, s.Low a.1) := by
  intro s
  have hfirst : heapMalloc kernelHeapInit 4096 = (heapAddress, [(0, 0x41)]) := by decide
  have hlive : ((MarkedRun.mk kernelHeapInit []).malloc 4096).live =
      [(heapAddress, [(0, 0x41)])] := congrArg (fun a => [a]) hfirst
  have h1 : MarkedStepLow ⟨kernelHeapInit, []⟩ ((MarkedRun.mk kernelHeapInit []).malloc 4096) :=
    .malloc (by decide) (by decide) (by rw [hfirst]; decide)
  have h2 : MarkedStepLow ((MarkedRun.mk kernelHeapInit []).malloc 4096)
      (((MarkedRun.mk kernelHeapInit []).malloc 4096).free heapAddress) :=
    .free (a := (heapAddress, [(0, 0x41)])) (hlive ▸ List.mem_cons_self)
      (show (heapAddress - kernelHeapInit.startAddress).toNat < 2 ^ 31 by decide)
  have h3 : MarkedStepLow (((MarkedRun.mk kernelHeapInit []).malloc 4096).free heapAddress) s :=
    .malloc (by decide) (by decide) (by decide)
  exact markedRun_undoes_iff placed_kernelHeapInit (fun _ _ => rfl)
    (((Relation.ReflTransGen.single h1).tail h2).tail h3)

/-- **A heap of more than 2 GiB is not freed**: after half the address
space, the block behind it is 2 GiB above the start. -/
theorem markedRun_not_undoes :
    ¬ ∀ (h : Heap) (s : MarkedRun), h.Placed → h.AllFree →
      Relation.ReflTransGen MarkedStep ⟨h, []⟩ s → (∀ a ∈ s.live, s.Undone a) ∧ s.FreesAll := by
  intro hall
  obtain ⟨h, hh⟩ : ∃ h : Heap, h = ⟨fun _ => heapBlockTableEntryFree, 2 ^ 19 + 1, 4096⟩ := ⟨_, rfl⟩
  have hp : h.Placed := by
    rw [hh]
    exact ⟨by decide, by decide⟩
  have hfree : h.AllFree := by
    rw [hh]
    exact fun _ _ => rfl
  have htotal : h.total = 2 ^ 19 + 1 := by rw [hh]
  have hopen : ∀ i, h.Free i := by
    rw [hh]
    intro i
    change heapGetEntryType heapBlockTableEntryFree = heapBlockTableEntryFree
    decide
  -- half the address space is taken first
  have hsize : blocksFor (0x80000000 : Word).toNat = 2 ^ 19 := by decide
  have hfit : FirstFit h.Free h.total (blocksFor (0x80000000 : Word).toNat) 0 := by
    rw [hsize, htotal]
    exact ⟨⟨by decide, fun i _ _ => hopen i⟩, fun b hb => absurd hb (Nat.not_lt_zero b)⟩
  have hfirst := heapMalloc_of_firstFit hp (by decide) (by decide) hfit
  obtain ⟨s, hs⟩ : ∃ s, s = (MarkedRun.mk h []).malloc 0x80000000 := ⟨_, rfl⟩
  have hne : (heapMalloc h 0x80000000).1 ≠ 0 := by
    rw [hfirst]
    exact heapBlockToAddress_ne_zero hp (by omega)
  have hi : s.Inv h := by
    rw [hs]
    exact (MarkedRun.Inv.start_allFree hfree).malloc hp (by decide) (by decide) hne
  have hentries : ∀ i, s.heap.entries i =
      if 0 ≤ i ∧ i < 0 + 2 ^ 19 then chainEntry (2 ^ 19) (i - 0) else h.entries i := by
    intro i
    have hat : h.OpenAt 0 (blocksFor (0x80000000 : Word).toNat) := ⟨by omega, fun i _ _ _ => hopen i⟩
    have hmark := hat.entries hp (by decide) (by decide) i
    rw [hsize] at hmark
    rw [hs, ← hmark]
    change (h.write (heapMalloc h 0x80000000).2).entries i = _
    rw [hfirst]
  -- and then the one block behind it
  have hp' := hi.toChains.placed hp
  have hone : blocksFor (4096 : Word).toNat = 1 := by decide
  have hlast : FirstFit s.heap.Free s.heap.total (blocksFor (4096 : Word).toNat) (2 ^ 19) := by
    rw [hone, hi.total, htotal]
    refine ⟨⟨le_rfl, fun i h1 _ => ?_⟩, fun b hb hfit => ?_⟩
    · unfold Heap.Free
      rw [hentries, if_neg (by omega)]
      exact hopen i
    · have hnot := hfit.2 b le_rfl (by omega)
      unfold Heap.Free at hnot
      rw [hentries, if_pos (by omega)] at hnot
      exact entryType_chainEntry _ _ hnot
  have hsecond := heapMalloc_of_firstFit hp' (by decide) (by decide) hlast
  have hlt : 2 ^ 19 < s.heap.total := by rw [hi.total, htotal]; omega
  have hne' : (heapMalloc s.heap 4096).1 ≠ 0 := by
    rw [hsecond]
    exact heapBlockToAddress_ne_zero hp' hlt
  have hi' := hi.malloc hp (by decide) (by decide) hne'
  have hrun : Relation.ReflTransGen MarkedStep ⟨h, []⟩ (s.malloc 4096) := by
    refine .tail (.single ?_) (.malloc (by decide) (by decide) hne')
    rw [hs]
    exact .malloc (by decide) (by decide) hne
  have hin : heapMalloc s.heap 4096 ∈ (s.malloc 4096).live := List.mem_cons_self
  have hlow := (hi'.toChains.undone_iff hp hin).1 ((hall h _ hp hfree hrun).1 _ hin)
  have hoff := toNat_heapBlockToAddress_sub hp' hlt
  unfold MarkedRun.Low at hlow
  change ((heapMalloc s.heap 4096).1 - s.heap.startAddress).toNat < 2 ^ 31 at hlow
  rw [hsecond] at hlow
  exact absurd (hoff ▸ hlow) (by decide)

end OwnKernel
