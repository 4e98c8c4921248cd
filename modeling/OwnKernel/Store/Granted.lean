import OwnKernel.Heap.Serving
import OwnKernel.Store.Room

/-!
# Requests that are carried out

`kernel_zalloc` comes to an end exactly when the table can answer the
request (`kernelZalloc_granted_iff`). Otherwise it has written past the
table's end, or cleared bytes it was not given. What it answers starts a
block that was free, so the bytes of the blocks taken are told apart from
those of every allocation before.
-/

namespace OwnKernel

variable {s s' : Store} {h h' h'' : Heap} {size q p x : Word} {b n : ℕ}

/-- A block the search returns was free. -/
theorem kernelZalloc_block (r : s.heap.Ready) (hz : kernelZalloc size s = .ok (q, s'))
    (h0 : q ≠ 0) :
    ∃ b : ℕ, b < s.heap.total ∧ q = heapBlockToAddress s.heap b ∧ s.heap.Free b := by
  obtain ⟨hq, -, -, -⟩ := kernelZalloc_run hz
  by_cases hpos : 0 < size.toNat
  · rcases kernelZalloc_of_pos r hpos hz with ⟨hnull, -⟩ | ⟨-, hsize⟩
    · exact absurd hnull h0
    rcases kernelZalloc_cases r hpos hsize hz with ⟨hnull, -⟩ | ⟨b, hb, hqb, -⟩
    · exact absurd hnull h0
    · have hle := hb.1.1
      have hk := blocksFor_pos hpos
      exact ⟨b, by omega, hqb, hb.1.2 b le_rfl (by omega)⟩
  · -- for no bytes the stretch at the end is answered
    rcases heapMalloc_of_zero r.placed (heapTotalBlocks_eq_zero fun hsize => hpos hsize.1) with
      ⟨heq, -⟩ | ⟨c, hcpos, hc, heq⟩
    · exact absurd (hq.trans (congrArg Prod.fst heq)) h0
    · have hle := hc.le
      exact ⟨s.heap.total - c, by omega, hq.trans (congrArg Prod.fst heq),
        hc.run _ (by omega) (by omega)⟩

/-- Without blocks to mark, and with none to clear, it ends. -/
theorem kernelZalloc_of_nil (heq : heapMalloc s.heap size = (q, []))
    (hsize : q = 0 ∨ size.toNat = 0) : ∃ s', kernelZalloc size s = .ok (q, s') := by
  have hmalloc : kernelMalloc size s = .ok (q, s) := by
    refine Fallible.run_bind.2 ⟨s, s, rfl, ?_⟩
    simp only [heq]
    rw [if_neg fun ⟨_, hw, _⟩ => List.not_mem_nil hw]
    rfl
  by_cases h0 : q = 0
  · exact ⟨s, Fallible.run_bind.2 ⟨q, s, hmalloc, by rw [if_pos h0]; rfl⟩⟩
  · have hzero := hsize.resolve_left h0
    refine ⟨{ s with mem := s.mem.fill q size.toNat 0 }, Fallible.run_bind.2 ⟨q, s, hmalloc, ?_⟩⟩
    rw [if_neg h0, if_neg (by omega)]
    exact Fallible.run_seq.2 ⟨_, Fallible.run_modify.2 rfl, rfl⟩

/-- A table that answers has no short stretch at its end. -/
theorem Heap.Answers.not_scan {k c : ℕ} (ha : h.Answers n) (hc : Scan h.Free k h.total c)
    (hk : ∀ b, Fits h.Free h.total n b → Fits h.Free h.total k b) : ¬ 0 < c := by
  intro hpos
  have hle := hc.le
  rcases ha with ⟨b, hb⟩ | htot | hlast
  · exact hc.passed b (hk b hb)
  · omega
  · exact hlast (hc.run _ (by omega) (by omega))

/-- **When `kernel_zalloc` comes to an end.** -/
theorem kernelZalloc_granted_iff (r : s.heap.Ready) :
    (∃ q s', kernelZalloc size s = .ok (q, s')) ↔ s.heap.Answers (blocksFor size.toNat) := by
  have htot := r.placed.total_lt
  constructor
  · rintro ⟨q, s', hz⟩
    obtain ⟨hq, hin, -, hmem⟩ := kernelZalloc_run hz
    by_contra hno
    by_cases hsize : 0 < size.toNat ∧ size.toNat ≤ 0xFFFFF000
    · obtain ⟨w, hw, hend⟩ := heapMalloc_overrun r.placed hsize.1 hsize.2 hno
      have hlt := hin w hw
      omega
    have hzero := heapTotalBlocks_eq_zero hsize
    rcases Nat.eq_zero_or_pos size.toNat with h0 | hpos
    · rw [h0] at hno
      exact hno (Or.inl ⟨0, Nat.zero_le _, fun i h1 h2 => absurd h2 (Nat.not_lt.2 h1)⟩)
    rcases heapMalloc_of_zero r.placed hzero with ⟨-, hc⟩ | ⟨c, hcpos, hc, heq⟩
    · by_cases htotal : s.heap.total = 0
      · exact hno (Or.inr (Or.inl htotal))
      · exact hno (Or.inr (Or.inr (hc.maximal (Nat.pos_of_ne_zero htotal))))
    · -- bytes are cleared, and no block is taken for them
      have hle := hc.le
      have hne : q ≠ 0 := by
        rw [hq, heq]
        exact heapBlockToAddress_ne_zero r.placed (by omega)
      rcases hmem with ⟨hnull, -⟩ | ⟨-, hbytes, -⟩
      · exact hne hnull
      · rw [hzero] at hbytes
        exact absurd hbytes (Nat.not_le.2 hpos)
  · intro hans
    by_cases hsize : 0 < size.toNat ∧ size.toNat ≤ 0xFFFFF000
    · rcases heapMalloc_cases r.placed hsize.1 hsize.2 with
        ⟨b, hb, -⟩ | ⟨c, hc, hcpos, -⟩ | ⟨-, heq⟩
      · exact ⟨_, _, kernelZalloc_of_firstFit r hsize.1 hsize.2 hb⟩
      · exact absurd hcpos (hans.not_scan hc fun _ hfit => hfit)
      · exact ⟨0, kernelZalloc_of_nil heq (Or.inl rfl)⟩
    have hzero := heapTotalBlocks_eq_zero hsize
    rcases heapMalloc_of_zero r.placed hzero with ⟨heq, -⟩ | ⟨c, hcpos, hc, heq⟩
    · exact ⟨0, kernelZalloc_of_nil heq (Or.inl rfl)⟩
    rcases Nat.eq_zero_or_pos size.toNat with h0 | hpos
    · exact ⟨_, kernelZalloc_of_nil heq (Or.inr h0)⟩
    · -- a size at the top has no run in any table
      refine absurd hcpos (hans.not_scan hc fun b hfit => ?_)
      have hle := hfit.1
      unfold blocksFor at hle
      omega

/-! ## New blocks -/

/-- A byte of a block that was free and is taken. -/
def NewByte (h h' : Heap) (x : Word) : Prop :=
  ∃ b < h.total, h.Free b ∧ ¬ h'.Free b ∧ InRange (heapBlockToAddress h b) 4096 x

/-- The block an allocation starts with is not free. -/
theorem Heap.Owns.not_free (o : h.Owns p n) (r : h.Ready) (hb : b < h.total)
    (hp : p = heapBlockToAddress h b) : ¬ h.Free b := by
  have hn := o.pos
  obtain ⟨b', hp', hle, c⟩ := o
  obtain rfl : b = b' := heapBlockToAddress_inj r.placed hb (by omega) (hp.symm.trans hp')
  exact c.not_free le_rfl (by omega)

/-- A live allocation is not in a free block. -/
theorem Heap.Owns.not_inRange_free (o : h.Owns p n) (r : h.Ready) (hb : b < h.total)
    (hfree : h.Free b) (hx : InRange p (4096 * n) x) : ¬ InRange (heapBlockToAddress h b) 4096 x := by
  intro hx'
  have hfits := r.placed.fits
  have haddr := toNat_heapBlockToAddress r.placed hb
  obtain ⟨b', -, hb', hle, c⟩ := o.exists_block r
  have hout : ¬ (b' ≤ b ∧ b < b' + n) := fun hin => c.not_free hin.1 hin.2 hfree
  unfold heapBlockSize at hfits haddr
  unfold InRange at hx hx'
  bv_omega

/-- Nor in a new one. -/
theorem Heap.Owns.not_newByte (o : h.Owns p n) (r : h.Ready) (hx : InRange p (4096 * n) x) :
    ¬ NewByte h h' x := fun ⟨_, hb, hfree, _, hin⟩ => o.not_inRange_free r hb hfree hx hin

/-- What was free and is an allocation is new. -/
theorem newByte_of_owns (r : h.Ready) (hplace : h.SamePlace h') (hfit : Fits h.Free h.total n b)
    (o : h'.Owns (heapBlockToAddress h b) n) (hx : InRange (heapBlockToAddress h b) (4096 * n) x) :
    NewByte h h' x := by
  have hn := o.pos
  have hle := hfit.1
  have hfits := r.placed.fits
  obtain ⟨b', hp, hle', c⟩ := o
  have htot := hplace.total
  rw [hplace.heapBlockToAddress] at hp
  have heq : b = b' := heapBlockToAddress_inj r.placed (by omega) (by omega) hp
  -- the block the byte is in
  have haddr := toNat_heapBlockToAddress r.placed (b := b) (by omega)
  unfold InRange at hx
  have hj : (x - heapBlockToAddress h b).toNat / 4096 < n := by omega
  have haddr' := toNat_heapBlockToAddress r.placed
    (b := b + (x - heapBlockToAddress h b).toNat / 4096) (by omega)
  unfold heapBlockSize at hfits haddr haddr'
  refine ⟨b + (x - heapBlockToAddress h b).toNat / 4096, by omega,
    hfit.2 _ (by omega) (by omega), c.not_free (by omega) (by omega), ?_⟩
  unfold InRange
  generalize heapBlockToAddress h ((b + (x - heapBlockToAddress h b).toNat / 4096 : ℕ) : ℤ) = q
    at haddr' ⊢
  generalize heapBlockToAddress h (b : ℤ) = p at haddr haddr' hx ⊢
  bv_omega

/-- What an allocation clears is new. -/
theorem newByte_of_kernelZalloc (r : s.heap.Ready) (hz : kernelZalloc size s = .ok (q, s'))
    (h0 : q ≠ 0) (hplace : s.heap.SamePlace h') (howns : ∀ p n, s'.heap.Owns p n → h'.Owns p n)
    (hx : InRange q size.toNat x) : NewByte s.heap h' x := by
  have hpos : 0 < size.toNat := by
    unfold InRange at hx
    omega
  rcases kernelZalloc_of_pos r hpos hz with ⟨hnull, -⟩ | ⟨-, hsize⟩
  · exact absurd hnull h0
  obtain ⟨-, hown, -, -⟩ := kernelZalloc_spec r hpos hsize hz h0
  rcases kernelZalloc_cases r hpos hsize hz with ⟨hnull, -⟩ | ⟨b, hb, rfl, -⟩
  · exact absurd hnull h0
  · have hbytes := le_blocksFor_mul size.toNat
    exact newByte_of_owns r hplace hb.1 (howns _ _ hown) (by unfold InRange at hx ⊢; omega)

/-- What it does not clear stays. -/
theorem kernelZalloc_mem (hz : kernelZalloc size s = .ok (q, s')) (hx : ¬ InRange q size.toNat x) :
    s'.mem x = s.mem x := by
  obtain ⟨-, -, -, ⟨-, heq⟩ | ⟨-, -, heq⟩⟩ := kernelZalloc_run hz
  · rw [heq]
  · rw [heq]
    exact Mem.fill_of_not_mem hx

/-- New in the end is new before. -/
theorem NewByte.mono (hplace : h.SamePlace h') (hfree : ∀ b, h'.Free b → h.Free b)
    (hx : NewByte h' h'' x) : NewByte h h'' x := by
  obtain ⟨b, hb, hf, hnot, hin⟩ := hx
  rw [hplace.heapBlockToAddress] at hin
  exact ⟨b, hplace.total ▸ hb, hfree b hf, hnot, hin⟩

end OwnKernel
