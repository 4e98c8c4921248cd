import OwnKernel.Heap.Runs

/-!
# Creating a heap

`heap_create` is to refuse a range that is not made of whole blocks and
a table of another length than the range has blocks. It refuses the
first. The check of the table is declared `bool`, its error code comes
out as 1, and the caller tests for a negative result: a table of the
wrong length is cleared and used (`heapCreate_of_mismatch`).
-/

namespace OwnKernel

variable {heap : Heap} {ptr end' : Word} {table : HeapTable}

/-- Both ends of the range are block addresses. -/
def BlockAligned (ptr end' : Word) : Prop :=
  ptr.toNat % heapBlockSize = 0 ∧ end'.toNat % heapBlockSize = 0

/-- The table has an entry for each block of the range. -/
def HeapTable.Matches (table : HeapTable) (ptr end' : Word) : Prop :=
  table.total = (end' - ptr).toNat / heapBlockSize

instance : Decidable (table.Matches ptr end') := inferInstanceAs (Decidable (_ = _))

/-- The check of the table: its error code has become 1. -/
theorem heapValidateTable_eq :
    heapValidateTable ptr end' table = if table.Matches ptr end' then 0 else 1 := by
  unfold heapValidateTable
  by_cases hm : table.Matches ptr end'
  · exact (if_neg (not_not.2 hm)).trans (if_pos hm).symm
  · exact (if_pos hm).trans (if_neg hm).symm

/-- **What a caller of `heap_create` expects**: an error, with the table
as it was, for a range or a table that will not do; and else 0, with
every entry free. -/
structure CreatesChecked (heap : Heap) (ptr end' : Word) (table : HeapTable) : Prop where
  refused : ¬ (BlockAligned ptr end' ∧ table.Matches ptr end') →
    (heapCreate heap ptr end' table).1 < 0 ∧
      (heapCreate heap ptr end' table).2.2.entries = table.entries
  created : BlockAligned ptr end' ∧ table.Matches ptr end' →
    (heapCreate heap ptr end' table).1 = 0 ∧
      ∀ i, i < table.total →
        (heapCreate heap ptr end' table).2.2.entries i = heapBlockTableEntryFree

/-- A range that is not made of whole blocks is refused before anything
is written. -/
theorem heapCreate_of_not_aligned (h : ¬ BlockAligned ptr end') :
    heapCreate heap ptr end' table = (-invalidArgumentError, heap, table) := by
  unfold heapCreate
  rw [if_pos]
  by_contra hno
  obtain ⟨h1, h2⟩ := not_or.1 hno
  exact h ⟨not_not.1 h1, not_not.1 h2⟩

/-- The check of the table is never negative, so nothing else is refused. -/
theorem heapCreate_of_aligned (h : BlockAligned ptr end') :
    heapCreate heap ptr end' table =
      (heapValidateTable ptr end' table,
        ⟨fun i => if i < table.total then heapBlockTableEntryFree else table.entries i,
          table.total, ptr⟩,
        ⟨fun i => if i < table.total then heapBlockTableEntryFree else table.entries i,
          table.total⟩) := by
  have hcheck : ¬ heapValidateTable ptr end' table < 0 := by
    rw [heapValidateTable_eq]
    split <;> omega
  have halign : ¬ (¬ heapValidateAlignment ptr ∨ ¬ heapValidateAlignment end') :=
    not_or.2 ⟨not_not.2 h.1, not_not.2 h.2⟩
  unfold heapCreate
  rw [if_neg halign]
  simp only
  rw [if_neg hcheck]

/-- **A table of the wrong length is used**: the result is 1 and every
entry is cleared. -/
theorem heapCreate_of_mismatch (h : BlockAligned ptr end') (hm : ¬ table.Matches ptr end') :
    (heapCreate heap ptr end' table).1 = 1 ∧
      ∀ i, i < table.total →
        (heapCreate heap ptr end' table).2.1.entries i = heapBlockTableEntryFree := by
  rw [heapCreate_of_aligned h, heapValidateTable_eq]
  exact ⟨if_neg hm, fun i hi => if_pos hi⟩

/-- A heap of a table that matches its range is placed there and free. -/
theorem placed_heapCreate (h : BlockAligned ptr end') (hm : table.Matches ptr end')
    (hpos : ptr ≠ 0) (hle : ptr ≤ end') :
    (heapCreate heap ptr end' table).2.1.Placed ∧
      (heapCreate heap ptr end' table).2.1.AllFree := by
  rw [heapCreate_of_aligned h]
  refine ⟨⟨hpos, ?_⟩, fun i hi => if_pos hi⟩
  unfold HeapTable.Matches at hm
  simp only [hm]
  have hsub : (end' - ptr).toNat = end'.toNat - ptr.toNat := BitVec.toNat_sub_of_le hle
  have hle' : ptr.toNat ≤ end'.toNat := hle
  have hlt := end'.isLt
  rw [hsub]
  unfold heapBlockSize
  omega

/-- The kernel's heap is created, up to the memory past its table. -/
theorem heapCreate_kernelHeapInit (entries : ℕ → Byte) :
    let r := heapCreate heap heapAddress (heapAddress + BitVec.ofNat 32 heapSizeBytes)
      ⟨entries, heapSizeBytes / heapBlockSize⟩
    r.1 = 0 ∧ r.2.1.startAddress = kernelHeapInit.startAddress ∧
      r.2.1.total = kernelHeapInit.total ∧
        ∀ i, i < kernelHeapInit.total → r.2.1.entries i = kernelHeapInit.entries i := by
  have halign : BlockAligned heapAddress (heapAddress + BitVec.ofNat 32 heapSizeBytes) :=
    ⟨by decide, by decide⟩
  have hm : HeapTable.Matches ⟨entries, heapSizeBytes / heapBlockSize⟩ heapAddress
      (heapAddress + BitVec.ofNat 32 heapSizeBytes) :=
    show heapSizeBytes / heapBlockSize =
      (heapAddress + BitVec.ofNat 32 heapSizeBytes - heapAddress).toNat / heapBlockSize by decide
  rw [heapCreate_of_aligned halign, heapValidateTable_eq, if_pos hm]
  exact ⟨rfl, rfl, rfl, fun i hi => if_pos hi⟩

/-- **When `heap_create` checks what it is given.** -/
theorem heapCreate_checked_iff (heap : Heap) (ptr end' : Word) (table : HeapTable) :
    CreatesChecked heap ptr end' table ↔
      ¬ BlockAligned ptr end' ∨ table.Matches ptr end' := by
  constructor
  · intro hc
    by_contra hno
    obtain ⟨halign, hm⟩ := not_or.1 hno
    have hneg := (hc.refused fun h => hm h.2).1
    rw [(heapCreate_of_mismatch (not_not.1 halign) hm).1] at hneg
    omega
  · intro h
    by_cases halign : BlockAligned ptr end'
    · have hm := h.resolve_left (not_not.2 halign)
      refine ⟨fun hno => absurd ⟨halign, hm⟩ hno, fun _ => ?_⟩
      rw [heapCreate_of_aligned halign, heapValidateTable_eq]
      exact ⟨if_pos hm, fun i hi => if_pos hi⟩
    · refine ⟨fun _ => ?_, fun hin => absurd hin.1 halign⟩
      rw [heapCreate_of_not_aligned halign]
      exact ⟨show -invalidArgumentError < 0 by decide, rfl⟩

/-- **`heap_create` does not check the table**: two entries for a range
of one block. -/
theorem heapCreate_not_checked : ¬ ∀ (heap : Heap) (ptr end' : Word) (table : HeapTable),
    CreatesChecked heap ptr end' table := by
  intro hall
  have hc := hall kernelHeapInit 0x1000 0x2000 ⟨fun _ => heapBlockTableEntryFree, 2⟩
  have hmatch : ¬ HeapTable.Matches ⟨fun _ => heapBlockTableEntryFree, 2⟩ 0x1000 0x2000 := by
    change ¬ 2 = ((0x2000 : Word) - 0x1000).toNat / heapBlockSize
    decide
  have hneg := (hc.refused fun h => hmatch h.2).1
  rw [(heapCreate_of_mismatch ⟨by decide, by decide⟩ hmatch).1] at hneg
  omega

end OwnKernel
