import OwnKernel.Paging.Refinement

/-!
# Ranges of pages

What mapping a range does to one page: `mapTo_eq_getD`. A range that
belongs to an allocation covers the pages of its blocks
(`mapTo_allocation`).
-/

namespace OwnKernel

variable {v a e flags q size : Word} {f : PageMap} {page n : ℕ}

/-- The place of a page in the pages from `v` on, wrapping. -/
def pageOffset (v : Word) (page : ℕ) : ℕ := (page + 2 ^ 20 - v.toNat / 4096) % 2 ^ 20

/-- What mapping a range says about a page. -/
def rangeEntry (v a e flags : Word) (page : ℕ) : Option Word :=
  if ValidRange v a e ∧ pageOffset v page < (e.toNat - a.toNat) / 4096 then
    some ((a + BitVec.ofNat 32 (4096 * pageOffset v page)) ||| flags)
  else none

/-- The pages a range says something about, and what. -/
theorem rangeEntry_eq_some_iff {w : Word} : rangeEntry v a e flags page = some w ↔
    ValidRange v a e ∧ pageOffset v page < (e.toNat - a.toNat) / 4096 ∧
      w = (a + BitVec.ofNat 32 (4096 * pageOffset v page)) ||| flags := by
  unfold rangeEntry
  by_cases hin : ValidRange v a e ∧ pageOffset v page < (e.toNat - a.toNat) / 4096
  · rw [if_pos hin, Option.some_inj]
    exact ⟨fun h => ⟨hin.1, hin.2, h.symm⟩, fun h => h.2.2.symm⟩
  · rw [if_neg hin]
    exact ⟨fun h => absurd h (Option.some_ne_none w).symm, fun h => absurd ⟨h.1, h.2.1⟩ hin⟩

theorem overwrite_apply (f : PageMap) (a flags : Word) (hp : page < 2 ^ 20) (hn : n ≤ 2 ^ 20) :
    f.overwrite (v.toNat / 4096) a flags n page =
      if pageOffset v page < n then (a + BitVec.ofNat 32 (4096 * pageOffset v page)) ||| flags
      else f page := by
  have hv := ChunkView.At.page_lt v
  induction n with
  | zero => exact (if_neg (Nat.not_lt_zero _)).symm
  | succ n ih =>
    rw [PageMap.overwrite]
    by_cases heq : page = (v.toNat / 4096 + n) % 2 ^ 20
    · have hoff : pageOffset v page = n := by
        unfold pageOffset
        omega
      rw [hoff, if_pos (Nat.lt_succ_self n), heq, Function.update_self]
    · have hoff : pageOffset v page ≠ n := by
        unfold pageOffset
        omega
      rw [Function.update_of_ne heq, ih (by omega)]
      exact if_congr (by omega) rfl rfl

/-- **`mapTo` overlays the map with the range.** -/
theorem mapTo_eq_getD (f : PageMap) (v a e flags : Word) (hp : page < 2 ^ 20) :
    f.mapTo v a e flags page = (rangeEntry v a e flags page).getD (f page) := by
  unfold PageMap.mapTo rangeEntry
  by_cases hvalid : ValidRange v a e
  · have he := e.isLt
    rw [if_pos hvalid, overwrite_apply f a flags hp (by omega)]
    by_cases hlt : pageOffset v page < (e.toNat - a.toNat) / 4096
    · rw [if_pos hlt, if_pos ⟨hvalid, hlt⟩]
      rfl
    · rw [if_neg hlt, if_neg fun h => hlt h.2]
      rfl
  · rw [if_neg hvalid, if_neg fun h => hvalid h.1]
    rfl

/-! ## Whatever memory holds

A range that is carried out is carried out to its end, in any memory: the
loop's steps keep both addresses on page boundaries. -/

/-- Aligned addresses are mapped. -/
theorem pagingMap_fst {m : Mem} (chunk flags : Word) (hv : v.toNat % 4096 = 0)
    (ha : a.toNat % 4096 = 0) : (pagingMap m chunk v a flags).1 = 0 := by
  have hal : ¬ ¬ pagingIsAligned v := not_not.2 hv
  have hor : ¬ (v.toNat % heapBlockSize ≠ 0 ∨ a.toNat % heapBlockSize ≠ 0) :=
    not_or.2 ⟨not_not.2 hv, not_not.2 ha⟩
  unfold pagingMap pagingSetPhysicalAddress
  rw [if_neg hor, if_neg hal, ChunkView.At.pagingGetIndexes_eq hv]
  rfl

/-- So is every page of a range of them. -/
theorem pagingMapRangeLoop_fst {chunk flags : Word} : ∀ {n : ℕ} {v a : Word} {m : Mem},
    v.toNat % 4096 = 0 → a.toNat % 4096 = 0 →
      (pagingMapRangeLoop chunk flags n 0 v a m).1 = 0 := by
  intro n
  induction n with
  | zero => exact fun _ _ => rfl
  | succ n ih =>
    intro v a m hv ha
    have hnext : ∀ w : Word, w.toNat % 4096 = 0 → (w + 4096).toNat % 4096 = 0 := by
      intro w hw
      rw [BitVec.toNat_add]
      change (w.toNat + 4096) % 2 ^ 32 % 4096 = 0
      omega
    have hmap := pagingMap_fst (m := m) chunk flags hv ha
    rw [pagingMapRangeLoop]
    simp only [hmap, lt_irrefl, if_false]
    exact ih (hnext v hv) (hnext a ha)

/-- **A valid range is mapped.** -/
theorem pagingMapTo_of_valid {m : Mem} (chunk flags : Word) (h : ValidRange v a e) :
    (pagingMapTo m chunk v a e flags).1 = 0 := by
  obtain ⟨hv, ha, he, hle⟩ := h
  unfold pagingMapTo pagingMapRange
  rw [if_neg (not_not.2 hv), if_neg (not_not.2 ha), if_neg (not_not.2 he),
    if_neg (BitVec.not_lt.2 hle)]
  exact pagingMapRangeLoop_fst hv ha

/-! ## An allocation's pages -/

/-- The end of a range of bytes, rounded up, from a page boundary on. -/
theorem toNat_pagingAlignAddress_add (size : Word) (hq : q.toNat % 4096 = 0) :
    (pagingAlignAddress (q + size)).toNat =
      (q.toNat + 4096 * blocksFor size.toNat) % 2 ^ 32 := by
  have hsum : (q + size).toNat = (q.toNat + size.toNat) % 2 ^ 32 := BitVec.toNat_add ..
  have hmod : ((q + size) % 4096).toNat = (q.toNat + size.toNat) % 4096 := by
    rw [BitVec.toNat_umod, hsum]
    change _ % 4096 = _
    omega
  unfold blocksFor pagingAlignAddress
  by_cases h0 : (q + size) % 4096 = 0
  · rw [if_neg (not_not.2 h0), hsum]
    rw [h0] at hmod
    change 0 = _ at hmod
    omega
  · have hne : (q.toNat + size.toNat) % 4096 ≠ 0 := fun h => h0 (BitVec.eq_of_toNat_eq (hmod.trans h))
    rw [if_pos h0, BitVec.toNat_sub, BitVec.toNat_add, hmod, hsum]
    change _ = (q.toNat + 4096 * ((size.toNat + 4095) / 4096)) % 4294967296
    change (2 ^ 32 - _ + ((q.toNat + size.toNat) % 2 ^ 32 + 4096) % 2 ^ 32) % 2 ^ 32 = _
    omega

/-- The range of an allocation is one that is mapped. -/
theorem validRange_allocation (hq : q.toNat % 4096 = 0)
    (hfits : q.toNat + 4096 * blocksFor size.toNat < 2 ^ 32) :
    ValidRange q q (pagingAlignAddress (q + size)) := by
  have he := toNat_pagingAlignAddress_add size hq
  rw [Nat.mod_eq_of_lt hfits] at he
  exact ⟨hq, hq, by omega, BitVec.le_def.2 (by omega)⟩

/-- **The blocks of an allocation, mapped at their own addresses.** -/
theorem mapTo_allocation (f : PageMap) (flags : Word) (hq : q.toNat % 4096 = 0)
    (hfits : q.toNat + 4096 * blocksFor size.toNat < 2 ^ 32) (hp : page < 2 ^ 20) :
    f.mapTo q q (pagingAlignAddress (q + size)) flags page =
      if q.toNat / 4096 ≤ page ∧ page < q.toNat / 4096 + blocksFor size.toNat then
        (q + BitVec.ofNat 32 (4096 * pageOffset q page)) ||| flags
      else f page := by
  have he := toNat_pagingAlignAddress_add size hq
  rw [Nat.mod_eq_of_lt hfits] at he
  have hvalid := validRange_allocation hq hfits
  have hoff : pageOffset q page < (pagingAlignAddress (q + size)).toNat / 4096 - q.toNat / 4096 ↔
      q.toNat / 4096 ≤ page ∧ page < q.toNat / 4096 + blocksFor size.toNat := by
    unfold pageOffset
    omega
  have hpages : ((pagingAlignAddress (q + size)).toNat - q.toNat) / 4096 =
      (pagingAlignAddress (q + size)).toNat / 4096 - q.toNat / 4096 := by omega
  rw [mapTo_eq_getD _ _ _ _ _ hp, rangeEntry, hpages]
  by_cases hin : q.toNat / 4096 ≤ page ∧ page < q.toNat / 4096 + blocksFor size.toNat
  · rw [if_pos ⟨hvalid, hoff.2 hin⟩, if_pos hin, Option.getD_some]
  · rw [if_neg fun h => hin (hoff.1 h.2), if_neg hin, Option.getD_none]

/-- An allocation that ends at the top of the address space has no end
to give. -/
theorem not_validRange_top (hq : q.toNat % 4096 = 0) (hne : 0 < q.toNat)
    (htop : q.toNat + 4096 * blocksFor size.toNat = 2 ^ 32) :
    ¬ ValidRange q q (pagingAlignAddress (q + size)) := by
  rintro ⟨-, -, -, hle⟩
  have he := toNat_pagingAlignAddress_add size hq
  have hle' := BitVec.le_def.1 hle
  rw [htop] at he
  omega

end OwnKernel
