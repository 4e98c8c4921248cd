import OwnKernel.Heap.Calls
import OwnKernel.Model.Store

/-!
# Owned blocks

The memory layer's programs hold pointers the kernel heap gave them.
`Store.Owns p k` says that `p` is one of these, with `k` blocks: the
heap's table has a chain of `k` entries there. Pointers owned apart have
disjoint blocks (`Owns.disjoint`), so a program that allocates and
writes only what it allocated leaves everything owned before as it was
(`Store.Extends`). The specifications of `kernel_zalloc` and
`kernel_free` are stated in these terms.
-/

namespace OwnKernel

/-- **A heap the memory layer can work on**: placed, on page boundaries,
and at most 2 GiB. -/
structure Heap.Ready (h : Heap) : Prop where
  placed : h.Placed
  aligned : h.startAddress.toNat % 4096 = 0
  low : h.total ≤ 2 ^ 19

/-- The heap starts where it did and is as long as it was. -/
structure Heap.SamePlace (h h' : Heap) : Prop where
  total : h'.total = h.total
  start : h'.startAddress = h.startAddress

namespace Heap.SamePlace

variable {h h' h'' : Heap}

theorem refl (h : Heap) : h.SamePlace h := ⟨rfl, rfl⟩

theorem trans (a : h.SamePlace h') (b : h'.SamePlace h'') : h.SamePlace h'' :=
  ⟨b.total.trans a.total, b.start.trans a.start⟩

theorem ready (a : h.SamePlace h') (r : h.Ready) : h'.Ready :=
  ⟨⟨a.start ▸ r.placed.pos, by rw [a.start, a.total]; exact r.placed.fits⟩,
    by rw [a.start]; exact r.aligned, by rw [a.total]; exact r.low⟩

theorem heapBlockToAddress (a : h.SamePlace h') (z : ℤ) :
    OwnKernel.heapBlockToAddress h' z = OwnKernel.heapBlockToAddress h z := by
  unfold OwnKernel.heapBlockToAddress
  rw [a.start]

end Heap.SamePlace

/-- **`p` is a live allocation of `k` blocks.** -/
def Heap.Owns (h : Heap) (p : Word) (k : ℕ) : Prop :=
  ∃ b : ℕ, p = heapBlockToAddress h b ∧ b + k ≤ h.total ∧ h.Chain b k

namespace Heap.Owns

variable {h h' : Heap} {p q x : Word} {j k : ℕ}

theorem pos (o : h.Owns p k) : 0 < k := by
  obtain ⟨_, _, _, c⟩ := o
  exact c.pos

/-- The block a pointer names, with its address. -/
theorem exists_block (o : h.Owns p k) (r : h.Ready) :
    ∃ b : ℕ, p = heapBlockToAddress h b ∧ p.toNat = h.startAddress.toNat + 4096 * b ∧
      b + k ≤ h.total ∧ h.Chain b k := by
  obtain ⟨b, hp, hle, c⟩ := o
  have hpos := c.pos
  exact ⟨b, hp, hp ▸ toNat_heapBlockToAddress r.placed (by omega), hle, c⟩

/-- The blocks end at or below the top of memory. -/
theorem toNat_add_le (o : h.Owns p k) (r : h.Ready) : p.toNat + 4096 * k ≤ 2 ^ 32 := by
  obtain ⟨b, -, hb, hle, -⟩ := o.exists_block r
  have := r.placed.fits
  unfold heapBlockSize at this
  omega

/-- An owned pointer is page-aligned. -/
theorem aligned (o : h.Owns p k) (r : h.Ready) : p.toNat % 4096 = 0 := by
  obtain ⟨b, -, hb, -, -⟩ := o.exists_block r
  have := r.aligned
  omega

/-- An owned pointer is not null. -/
theorem ne_zero (o : h.Owns p k) (r : h.Ready) : p ≠ 0 := by
  obtain ⟨b, hp, hle, c⟩ := o
  have := c.pos
  exact hp ▸ heapBlockToAddress_ne_zero r.placed (by omega)

/-- A pointer's length is determined by the table. -/
theorem length_unique (o : h.Owns p k) (o' : h.Owns p j) (r : h.Ready) : k = j := by
  obtain ⟨b, hp, hle, c⟩ := o
  obtain ⟨b', hp', hle', c'⟩ := o'
  have hpos := c.pos
  have hpos' := c'.pos
  have hbb : b = b' :=
    heapBlockToAddress_inj r.placed (by omega) (by omega) (hp.symm.trans hp')
  subst hbb
  exact c.length_unique c'

/-- **Pointers owned apart have disjoint blocks.** -/
theorem disjoint (o : h.Owns p k) (o' : h.Owns q j) (r : h.Ready) (hne : p ≠ q)
    (hx : InRange p (4096 * k) x) : ¬ InRange q (4096 * j) x := by
  intro hx'
  have hlt := o.toNat_add_le r
  have hlt' := o'.toNat_add_le r
  obtain ⟨b, hp, hb, -, c⟩ := o.exists_block r
  obtain ⟨b', hq, hb', -, c'⟩ := o'.exists_block r
  have hbb : b ≠ b' := fun h => hne (by rw [hp, hq, h])
  unfold InRange at hx hx'
  rcases c.disjoint c' hbb with hd | hd <;> bv_omega

end Heap.Owns

/-! ## Extension -/

/-- **Only fresh blocks were touched.** Everything owned before is owned
after, and its bytes are what they were. -/
structure Store.Extends (s s' : Store) : Prop where
  place : s.heap.SamePlace s'.heap
  owns : ∀ p k, s.heap.Owns p k → s'.heap.Owns p k
  mem : ∀ p k, s.heap.Owns p k → ∀ x, InRange p (4096 * k) x → s'.mem x = s.mem x

/-- No live allocation starts at `p`. -/
def Heap.Fresh (h : Heap) (p : Word) : Prop := ∀ k, ¬ h.Owns p k

namespace Store.Extends

variable {s s' s'' : Store} {p : Word} {k : ℕ}

theorem refl (s : Store) : s.Extends s := ⟨.refl _, fun _ _ h => h, fun _ _ _ _ _ => rfl⟩

theorem trans (a : s.Extends s') (b : s'.Extends s'') : s.Extends s'' where
  place := a.place.trans b.place
  owns p k h := b.owns p k (a.owns p k h)
  mem p k h x hx := (b.mem p k (a.owns p k h) x hx).trans (a.mem p k h x hx)

theorem ready (a : s.Extends s') (r : s.heap.Ready) : s'.heap.Ready := a.place.ready r

/-- What is fresh afterwards was fresh before. -/
theorem fresh (a : s.Extends s') (h : s'.heap.Fresh p) : s.heap.Fresh p :=
  fun k o => h k (a.owns p k o)

/-- **Writing a block that was fresh keeps the extension.** -/
theorem write (a : s.Extends s') (r : s.heap.Ready) (hfresh : s.heap.Fresh p)
    (o : s'.heap.Owns p k) {m : Mem}
    (hm : ∀ x, ¬ InRange p (4096 * k) x → m x = s'.mem x) :
    s.Extends { s' with mem := m } where
  place := a.place
  owns := a.owns
  mem q j oq x hx := by
    have hne : q ≠ p := fun h => hfresh j (h ▸ oq)
    have hout := (a.owns q j oq).disjoint o (a.ready r) hne hx
    exact (hm x hout).trans (a.mem q j oq x hx)

end Store.Extends

/-! ## `kernel_zalloc` -/

variable {s s' : Store} {size p q : Word} {b j k : ℕ}

/-- Marking a free run keeps every allocation and adds one. -/
theorem Heap.owns_markBlocksTaken {h : Heap} (r : h.Ready) (hpos : 0 < size.toNat)
    (hsize : size.toNat ≤ 0xFFFFF000)
    (hfit : Fits h.Free h.total (blocksFor size.toNat) b) :
    (h.write (heapMarkBlocksTaken b (heapTotalBlocks size))).Owns (heapBlockToAddress h b)
        (blocksFor size.toNat) ∧
      (∀ q j, h.Owns q j → (h.write (heapMarkBlocksTaken b (heapTotalBlocks size))).Owns q j) ∧
      h.Fresh (heapBlockToAddress h b) := by
  have htot := r.placed.total_lt
  have hblocks := toNat_heapTotalBlocks hsize
  have hk := blocksFor_pos hpos
  have hle := hfit.1
  refine ⟨⟨b, rfl, hle, ?_⟩, ?_, ?_⟩
  · have hc := chain_markBlocksTaken (h := h) (b := b) (k := heapTotalBlocks size)
      (by omega) (by omega)
    rwa [hblocks] at hc
  · rintro q j ⟨b', hq, hle', c⟩
    refine ⟨b', hq, hle', c.congr fun i h1 h2 => ?_⟩
    rw [entries_markBlocksTaken (by omega) (by omega), hblocks, if_neg]
    exact fun hin => c.not_free h1 h2 (hfit.2 i hin.1 hin.2)
  · rintro j ⟨b', hq, hle', c⟩
    have hcpos := c.pos
    have hbb : b = b' := heapBlockToAddress_inj r.placed (by omega) (by omega) hq
    exact c.not_free (i := b) (by omega) (by omega) (hfit.2 b le_rfl (by omega))

/-- The state `kernel_zalloc` leaves when it takes the run at `b`. -/
def Store.zalloc (s : Store) (size : Word) (b : ℕ) : Store where
  heap := s.heap.write (heapMarkBlocksTaken b (heapTotalBlocks size))
  mem := s.mem.fill (heapBlockToAddress s.heap b) size.toNat 0

/-- **`kernel_zalloc` with a run to take.** -/
theorem kernelZalloc_of_firstFit (r : s.heap.Ready) (hpos : 0 < size.toNat)
    (hsize : size.toNat ≤ 0xFFFFF000)
    (hfit : FirstFit s.heap.Free s.heap.total (blocksFor size.toNat) b) :
    kernelZalloc size s = .ok (heapBlockToAddress s.heap b, s.zalloc size b) := by
  have htot := r.placed.total_lt
  have hblocks := toNat_heapTotalBlocks hsize
  have hk := blocksFor_pos hpos
  have hle := hfit.1.1
  have hbytes := le_blocksFor_mul size.toNat
  have heq := heapMalloc_of_firstFit r.placed hpos hsize hfit
  have hin : ¬ ∃ w ∈ heapMarkBlocksTaken b (heapTotalBlocks size), s.heap.total ≤ w.1 := by
    rintro ⟨w, hw, hge⟩
    rw [heapMarkBlocksTaken_eq (by omega) (by omega)] at hw
    obtain ⟨j, hj, rfl⟩ := List.mem_map.1 hw
    rw [List.mem_range] at hj
    simp only at hge
    omega
  have hmalloc : kernelMalloc size s = .ok (heapBlockToAddress s.heap b,
      { s with heap := s.heap.write (heapMarkBlocksTaken b (heapTotalBlocks size)) }) := by
    refine Fallible.run_bind.2 ⟨s, s, rfl, ?_⟩
    simp only [heq]
    rw [if_neg hin]
    rfl
  refine Fallible.run_bind.2 ⟨_, _, hmalloc, ?_⟩
  rw [if_neg (heapBlockToAddress_ne_zero r.placed (by omega)),
    if_neg (by unfold heapBlockSize; omega)]
  rfl

/-- **What `kernel_zalloc` does when it does not fail**, for any size: the
answer and the table are `heap_malloc`'s, which stayed in the table; and
what is not null is cleared, and as long as was asked. -/
theorem kernelZalloc_run (h : kernelZalloc size s = .ok (p, s')) :
    p = (heapMalloc s.heap size).1 ∧ (∀ w ∈ (heapMalloc s.heap size).2, w.1 < s.heap.total) ∧
      s'.heap = s.heap.write (heapMalloc s.heap size).2 ∧
      ((p = 0 ∧ s'.mem = s.mem) ∨
        (p ≠ 0 ∧ size.toNat ≤ heapBlockSize * (heapTotalBlocks size).toNat ∧
          s'.mem = s.mem.fill p size.toNat 0)) := by
  obtain ⟨q, t, hmalloc, hrest⟩ := Fallible.run_bind.1 h
  obtain ⟨s₀, t₀, hget, hset⟩ := Fallible.run_bind.1 hmalloc
  obtain ⟨rfl, rfl⟩ := Fallible.run_get.1 hget
  by_cases hout : ∃ w ∈ (heapMalloc t₀.heap size).2, t₀.heap.total ≤ w.1
  · rw [if_pos hout] at hset
    exact absurd hset Fallible.run_throw
  rw [if_neg hout] at hset
  cases hset
  have hin : ∀ w ∈ (heapMalloc t₀.heap size).2, w.1 < t₀.heap.total := by
    intro w hw
    by_contra hge
    exact hout ⟨w, hw, not_lt.1 hge⟩
  by_cases h0 : (heapMalloc t₀.heap size).1 = 0
  · rw [if_pos h0] at hrest
    obtain ⟨rfl, rfl⟩ := Fallible.run_pure.1 hrest
    exact ⟨rfl, hin, rfl, Or.inl ⟨h0, rfl⟩⟩
  rw [if_neg h0] at hrest
  by_cases hlong : heapBlockSize * (heapTotalBlocks size).toNat < size.toNat
  · rw [if_pos hlong] at hrest
    exact absurd hrest Fallible.run_throw
  rw [if_neg hlong] at hrest
  obtain ⟨t₁, hfill, hpure⟩ := Fallible.run_seq.1 hrest
  rw [Fallible.run_modify] at hfill
  obtain ⟨rfl, rfl⟩ := Fallible.run_pure.1 hpure
  rw [hfill]
  exact ⟨rfl, hin, rfl, Or.inr ⟨h0, not_lt.1 hlong, rfl⟩⟩

/-- A store is its heap and its memory. -/
theorem Store.ext_parts (hheap : s'.heap = s.heap) (hmem : s'.mem = s.mem) : s' = s := by
  obtain ⟨heap, mem⟩ := s'
  obtain rfl : heap = s.heap := hheap
  obtain rfl : mem = s.mem := hmem
  rfl

/-- **A size that does not wrap.** It returns null and changes nothing,
for want of a run, or it takes the lowest run. -/
theorem kernelZalloc_cases (r : s.heap.Ready) (hpos : 0 < size.toNat)
    (hsize : size.toNat ≤ 0xFFFFF000) (h : kernelZalloc size s = .ok (p, s')) :
    (p = 0 ∧ s' = s) ∨
      ∃ b, FirstFit s.heap.Free s.heap.total (blocksFor size.toNat) b ∧
        p = heapBlockToAddress s.heap b ∧ s' = s.zalloc size b := by
  obtain ⟨hp, hin, hheap, hmem⟩ := kernelZalloc_run h
  rcases heapMalloc_cases r.placed hpos hsize with ⟨b, hb, -⟩ | ⟨c, hc, hcpos, heq⟩ | ⟨-, heq⟩
  · rw [kernelZalloc_of_firstFit r hpos hsize hb] at h
    cases h
    exact Or.inr ⟨b, hb, rfl, rfl⟩
  · -- the partial run at the table's end writes past the table
    exfalso
    have htot := r.placed.total_lt
    have hle := hc.le
    have hlt := hc.lt
    have hblocks := toNat_heapTotalBlocks hsize
    have hk := (heapTotalBlocks size).isLt
    rw [heq, heapMarkBlocksTaken_eq (by omega) (by unfold blocksFor at hblocks; omega)] at hin
    have hlast := hin _ (List.mem_map.2 ⟨c, List.mem_range.2 (by omega), rfl⟩)
    simp only at hlast
    omega
  · rw [heq] at hp hheap
    refine Or.inl ⟨hp, Store.ext_parts hheap ?_⟩
    rcases hmem with ⟨-, hmem⟩ | ⟨hne, -, -⟩
    · exact hmem
    · exact absurd hp hne

/-- **`kernel_zalloc`, for its callers.** A pointer that is not null is a
fresh allocation of the size's blocks, cleared; everything else is as it
was. -/
theorem kernelZalloc_spec (r : s.heap.Ready) (hpos : 0 < size.toNat)
    (hsize : size.toNat ≤ 0xFFFFF000) (h : kernelZalloc size s = .ok (p, s')) (hp : p ≠ 0) :
    s.Extends s' ∧ s'.heap.Owns p (blocksFor size.toNat) ∧ s.heap.Fresh p ∧
      ∀ x, InRange p size.toNat x → s'.mem x = 0 := by
  rcases kernelZalloc_cases r hpos hsize h with ⟨h0, -⟩ | ⟨b, hb, rfl, rfl⟩
  · exact absurd h0 hp
  · obtain ⟨hown, howns, hfresh⟩ := Heap.owns_markBlocksTaken r hpos hsize hb.1
    refine ⟨⟨⟨rfl, rfl⟩, howns, ?_⟩, hown, hfresh, fun x hx => if_pos hx⟩
    intro q j oq x hx
    have hne : q ≠ heapBlockToAddress s.heap b := fun he => hfresh j (he ▸ oq)
    have hr : (s.zalloc size b).heap.Ready := Heap.SamePlace.ready (h := s.heap) ⟨rfl, rfl⟩ r
    have hout := (howns q j oq).disjoint hown hr hne hx
    refine Mem.fill_of_not_mem fun hin => hout ?_
    have := le_blocksFor_mul size.toNat
    unfold InRange at hin ⊢
    omega

/-- **A size that is not 0**: null and no change, or a size that does not
wrap. -/
theorem kernelZalloc_of_pos (r : s.heap.Ready) (hpos : 0 < size.toNat)
    (h : kernelZalloc size s = .ok (p, s')) :
    (p = 0 ∧ s' = s) ∨ (p ≠ 0 ∧ size.toNat ≤ 0xFFFFF000) := by
  obtain ⟨hp, -, hheap, hmem⟩ := kernelZalloc_run h
  by_cases hsize : size.toNat ≤ 0xFFFFF000
  · rcases hmem with ⟨h0, -⟩ | ⟨hne, -⟩
    · rcases kernelZalloc_cases r hpos hsize h with hnull | ⟨b, hb, rfl, -⟩
      · exact Or.inl hnull
      · have hle := hb.1.1
        have hk := blocksFor_pos hpos
        exact absurd h0 (heapBlockToAddress_ne_zero r.placed (by omega))
    · exact Or.inr ⟨hne, hsize⟩
  · -- a size that wraps is not cleared
    have hz := heapTotalBlocks_top (show 0xFFFFF000 < size.toNat by omega)
    rcases hmem with ⟨h0, hmem⟩ | ⟨-, hlong, -⟩
    · rw [heapMalloc_writes_of_zero r.placed hz] at hheap
      exact Or.inl ⟨h0, Store.ext_parts hheap hmem⟩
    · rw [hz] at hlong
      change size.toNat ≤ 0 at hlong
      omega

/-- **Whatever size is asked for, only fresh blocks are touched.** -/
theorem kernelZalloc_extends (r : s.heap.Ready) (h : kernelZalloc size s = .ok (p, s')) :
    s.Extends s' := by
  by_cases hpos : 0 < size.toNat
  · rcases kernelZalloc_of_pos r hpos h with ⟨-, rfl⟩ | ⟨h0, hsize⟩
    · exact .refl _
    · exact (kernelZalloc_spec r hpos hsize h h0).1
  · -- no bytes are cleared, and no block is taken
    obtain ⟨-, -, hheap, hmem⟩ := kernelZalloc_run h
    have hz := heapTotalBlocks_eq_zero fun hsize => hpos hsize.1
    rw [heapMalloc_writes_of_zero r.placed hz] at hheap
    have hsame : s'.mem = s.mem := by
      rcases hmem with ⟨-, hmem⟩ | ⟨-, -, hmem⟩
      · exact hmem
      · rw [hmem]
        funext x
        exact Mem.fill_of_not_mem (by unfold InRange; omega)
    exact Store.ext_parts hheap hsame ▸ .refl _

/-- With a block taken, less than 2 GiB can be allocated. -/
theorem kernelZalloc_lt_of_owns (r : s.heap.Ready) (hpos : 0 < size.toNat) (o : s.heap.Owns q j)
    (h : kernelZalloc size s = .ok (p, s')) (hp : p ≠ 0) : size.toNat < 2 ^ 31 := by
  by_contra hge
  obtain ⟨h0, -⟩ | ⟨-, hsize⟩ := kernelZalloc_of_pos r hpos h
  · exact hp h0
  obtain ⟨h0, -⟩ | ⟨b, hb, -, -⟩ := kernelZalloc_cases r hpos hsize h
  · exact hp h0
  -- the run would be the whole heap
  obtain ⟨b', -, hle, hchain⟩ := o
  have hrun := hb.1.1
  have hlow := r.low
  have hpos' := hchain.pos
  unfold blocksFor at hrun
  exact hchain.not_free (le_refl b') (by omega)
    (hb.1.2 b' (by omega) (by unfold blocksFor; omega))

/-- **A pointer to no bytes is no allocation**: the block it names is
free. -/
theorem kernelZalloc_not_owns_of_zero (r : s.heap.Ready) (h0 : size.toNat = 0)
    (h : kernelZalloc size s = .ok (p, s')) : ¬ s'.heap.Owns p k := by
  intro hown
  have hz := @heapTotalBlocks_eq_zero size fun hsize => by omega
  have hext := kernelZalloc_extends r h
  obtain ⟨hp, -, hheap, -⟩ := kernelZalloc_run h
  rw [heapMalloc_writes_of_zero r.placed hz] at hheap
  obtain ⟨b, hb, hle, hchain⟩ := hown
  have hpos := hchain.pos
  rcases heapMalloc_of_zero r.placed hz with ⟨heq, -⟩ | ⟨c, hc, hscan, heq⟩
  · rw [heq] at hp
    have hready := hext.ready r
    exact heapBlockToAddress_ne_zero hready.placed (by omega) (hb.symm.trans hp)
  · rw [heq] at hp
    have hclt := hscan.le
    rw [hheap] at hb hle hchain
    have hbb : b = s.heap.total - c := heapBlockToAddress_inj r.placed
      (show b < s.heap.total by change b + k ≤ s.heap.total at hle; omega) (by omega)
      (hb.symm.trans hp)
    exact hchain.not_free (le_refl b) (by omega)
      (hscan.run b (by omega) (by change b + k ≤ s.heap.total at hle; omega))

/-! ## `kernel_free` -/

/-- `kernel_free` never fails and touches the table only. -/
theorem kernelFree_eq (p : Word) (s : Store) :
    kernelFree p s = .ok (⟨⟩, { s with heap := s.heap.write (heapFree s.heap p) }) := rfl

/-- **Freeing an owned pointer keeps the others.** -/
theorem Heap.owns_heapFree {h : Heap} (r : h.Ready) (o : h.Owns p k) (oq : h.Owns q j)
    (hne : q ≠ p) : (h.write (heapFree h p)).Owns q j := by
  obtain ⟨b, hp, hle, c⟩ := o
  obtain ⟨b', hq, hle', c'⟩ := oq
  have hpos := c.pos
  have hlow := r.low
  have hbb : b ≠ b' := fun he => hne (by rw [hp, hq, he])
  refine ⟨b', hq, hle', c'.congr fun i h1 h2 => ?_⟩
  rw [hp, entries_heapFree r.placed c hle (by omega), if_neg]
  rcases c.disjoint c' hbb with hd | hd <;> omega

/-- Freeing null writes nothing: it lies past the table. -/
theorem heapFree_null {h : Heap} (r : h.Ready) : heapFree h 0 = [] := by
  have hfits := r.placed.fits
  have hlow := r.low
  have hal := r.aligned
  have hne : h.startAddress.toNat ≠ 0 := fun h0 => r.placed.pos (BitVec.eq_of_toNat_eq h0)
  have hlt := h.startAddress.isLt
  have hsub : (0 - h.startAddress).toNat = 2 ^ 32 - h.startAddress.toNat := by
    rw [BitVec.toNat_sub]
    change (2 ^ 32 - h.startAddress.toNat + 0) % 2 ^ 32 = _
    omega
  unfold heapBlockSize at hfits
  refine heapMarkBlocksFree_past ?_
  unfold heapAddressToBlock heapBlockSize uint32
  rw [BitVec.toInt_eq_toNat_cond, hsub]
  split
  · rw [Int.tdiv_eq_ediv_of_nonneg (by omega)]
    omega
  · -- a negative block, an index past any table
    obtain ⟨n, hn⟩ := Nat.dvd_of_mod_eq_zero hal
    have hneg : ((2 ^ 32 - h.startAddress.toNat : ℕ) : ℤ) - ((2 ^ 32 : ℕ) : ℤ) =
        -(n : ℤ) * ((4096 : ℕ) : ℤ) := by omega
    rw [hneg, Int.mul_tdiv_cancel _ (by norm_num)]
    omega

/-- What was fresh is given back. -/
theorem Store.Extends.free (a : s.Extends s') (r : s.heap.Ready) (hfresh : s.heap.Fresh p)
    (o : s'.heap.Owns p k) :
    s.Extends { s' with heap := s'.heap.write (heapFree s'.heap p) } where
  place := ⟨a.place.total, a.place.start⟩
  owns q j oq := Heap.owns_heapFree (a.ready r) o (a.owns q j oq) fun he => hfresh j (he ▸ oq)
  mem := a.mem

/-- Freeing does not move the heap. -/
theorem Heap.samePlace_write (h : Heap) (ws : List TableWrite) : h.SamePlace (h.write ws) :=
  ⟨rfl, rfl⟩

/-! ## Words -/

/-- A word is read through a pointer that is not null. -/
theorem run_loadWord {v : Word} {offset : ℕ} : loadWord p offset s = .ok (v, s') ↔
    p ≠ 0 ∧ v = s.mem.load32 (p + BitVec.ofNat 32 offset) ∧ s' = s := by
  unfold loadWord
  by_cases h0 : p = 0
  · rw [if_pos h0]
    exact ⟨fun h => absurd h Fallible.run_throw, fun h => absurd h0 h.1⟩
  · rw [if_neg h0, Fallible.run_get_bind, Fallible.run_pure]
    exact ⟨fun h => ⟨h0, h⟩, fun h => h.2⟩

/-! ## Freeing several pointers -/

theorem Heap.samePlace_freeAll : ∀ (ps : List Word) (h : Heap), h.SamePlace (h.freeAll ps)
  | [], h => .refl h
  | p :: ps, h => (h.samePlace_write (heapFree h p)).trans (Heap.samePlace_freeAll ps _)

/-- **Freeing distinct owned pointers keeps the others.** -/
theorem Heap.owns_freeAll : ∀ {ps : List Word} {h : Heap}, h.Ready → ps.Nodup →
    (∀ p ∈ ps, ∃ k, h.Owns p k) → h.Owns q j → q ∉ ps → (h.freeAll ps).Owns q j
  | [], _, _, _, _, oq, _ => oq
  | p :: ps, h, r, hd, hps, oq, hq => by
    obtain ⟨k, o⟩ := hps p (List.mem_cons_self ..)
    rw [List.nodup_cons] at hd
    rw [List.mem_cons, not_or] at hq
    rw [Heap.freeAll_cons]
    refine Heap.owns_freeAll ((h.samePlace_write _).ready r) hd.2 (fun p' hp' => ?_)
      (Heap.owns_heapFree r o oq hq.1) hq.2
    obtain ⟨k', o'⟩ := hps p' (List.mem_cons_of_mem _ hp')
    exact ⟨k', Heap.owns_heapFree r o o' fun he => hd.1 (he ▸ hp')⟩

/-- The block an owned pointer names. -/
theorem Heap.Owns.block {h : Heap} (o : h.Owns p k) (r : h.Ready) :
    h.Chain ((p - h.startAddress).toNat / 4096) k ∧
      (p - h.startAddress).toNat / 4096 + k ≤ h.total ∧
        p = heapBlockToAddress h ((p - h.startAddress).toNat / 4096 : ℕ) := by
  obtain ⟨b, hp, hle, c⟩ := o
  have hpos := c.pos
  have hb : (p - h.startAddress).toNat / 4096 = b := by
    rw [hp, toNat_heapBlockToAddress_sub r.placed (by omega)]
    omega
  rw [hb]
  exact ⟨c, hle, hp⟩

/-- The table after an owned pointer is freed. -/
theorem Heap.Owns.entries_heapFree {h : Heap} (o : h.Owns p k) (r : h.Ready) (i : ℕ) :
    (h.write (heapFree h p)).entries i =
      if (p - h.startAddress).toNat / 4096 ≤ i ∧ i < (p - h.startAddress).toNat / 4096 + k then
        heapBlockTableEntryFree
      else h.entries i := by
  obtain ⟨c, hle, hp⟩ := o.block r
  have hpos := c.pos
  have hlow := r.low
  have hentry := OwnKernel.entries_heapFree r.placed c hle (by omega) i
  rwa [← hp] at hentry

/-- **The table after distinct owned pointers are freed**: their blocks
are free, and nothing else has changed. -/
theorem Heap.entries_freeAll_of_owns {blocks : Word → ℕ} (i : ℕ) : ∀ {ps : List Word} {h : Heap},
    h.Ready → ps.Nodup → (∀ p ∈ ps, h.Owns p (blocks p)) →
      (h.freeAll ps).entries i =
        if ∃ p ∈ ps, (p - h.startAddress).toNat / 4096 ≤ i ∧
            i < (p - h.startAddress).toNat / 4096 + blocks p then heapBlockTableEntryFree
        else h.entries i := by
  intro ps
  induction ps with
  | nil =>
    intro h _ _ _
    rw [if_neg (by simp)]
    rfl
  | cons p ps ih =>
    intro h r hd hps
    obtain ⟨hnot, hd⟩ := List.nodup_cons.1 hd
    have o := hps p List.mem_cons_self
    have hentry := o.entries_heapFree r i
    have hrest := ih (h := h.write (heapFree h p)) ((h.samePlace_write _).ready r) hd
      fun q hq => Heap.owns_heapFree r o (hps q (List.mem_cons_of_mem _ hq))
        fun he => hnot (he ▸ hq)
    rw [Heap.write_startAddress] at hrest
    rw [Heap.freeAll_cons, hrest]
    by_cases hin : ∃ q ∈ ps, (q - h.startAddress).toNat / 4096 ≤ i ∧
        i < (q - h.startAddress).toNat / 4096 + blocks q
    · obtain ⟨q, hq, hqi⟩ := hin
      rw [if_pos ⟨q, hq, hqi⟩, if_pos ⟨q, List.mem_cons_of_mem _ hq, hqi⟩]
    · rw [if_neg hin, hentry]
      by_cases hp : (p - h.startAddress).toNat / 4096 ≤ i ∧
          i < (p - h.startAddress).toNat / 4096 + blocks p
      · rw [if_pos hp, if_pos ⟨p, List.mem_cons_self, hp⟩]
      · rw [if_neg hp, if_neg]
        rintro ⟨q, hq, hqi⟩
        rcases List.mem_cons.1 hq with rfl | hq
        · exact hp hqi
        · exact hin ⟨q, hq, hqi⟩

end OwnKernel
