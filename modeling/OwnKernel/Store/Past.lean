import OwnKernel.Store.Granted
import OwnKernel.Store.Taken

/-!
# Requests past the table's end

Where the heap's last stretch is free and too short, `heap_malloc`
answers it all the same: the marks go on behind the table, in memory, and
the bytes cleared go on behind the heap. `kernelZallocPast` is
`kernel_zalloc` with such requests. Those the table can answer are
answered as by `kernelZalloc` (`kernelZalloc_below`); the others leave
every allocation as it was, and of memory change the bytes asked for and
those behind the table (`kernelZallocPast_of_not_answers`).
-/

namespace OwnKernel

variable {s s' : Store} {h : Heap} {size q x : Word} {b : ℕ}

/-- The bytes of memory that a request marks behind the table. -/
def Heap.MarksBehind (h : Heap) (size x : Word) : Prop :=
  ∃ w ∈ (heapMalloc h size).2, h.total ≤ w.1 ∧ x = heapTableEntryAddress w.1

/-- **What stays in the table** is answered as before. -/
theorem kernelZalloc_below (size : Word) :
    Fallible.Below (kernelZalloc size) (kernelZallocPast size) := by
  rintro s ⟨q, s'⟩ hz
  obtain ⟨-, hin, -, -⟩ := kernelZalloc_run hz
  refine Fallible.run_bind.2 ⟨s, s, rfl, ?_⟩
  rw [if_pos hin]
  exact hz

/-- Other bytes stay. -/
theorem Mem.writeBehind_of_not_mem {n : ℕ} : ∀ {ws : List TableWrite} {m : Mem},
    (∀ w ∈ ws, n ≤ w.1 → x ≠ heapTableEntryAddress w.1) → m.writeBehind n ws x = m x := by
  intro ws
  induction ws with
  | nil => exact fun _ => rfl
  | cons w ws ih =>
    intro m hx
    have hrest := ih (m := m.writeBehind n [w]) fun w' hw' => hx w' (List.mem_cons_of_mem _ hw')
    refine hrest.trans ?_
    change (if n ≤ w.1 then Function.update m (heapTableEntryAddress w.1) w.2 else m) x = m x
    by_cases hw : n ≤ w.1
    · rw [if_pos hw, Function.update_of_ne (hx w List.mem_cons_self hw)]
    · rw [if_neg hw]

/-- **What a request past the table's end is given**: the free stretch at
the end, and memory behind it. -/
structure GivenPast (s s' : Store) (size q : Word) : Prop where
  ne_zero : q ≠ 0
  ptr : q = (heapMalloc s.heap size).1
  heap : s'.heap = s.heap.write (heapMalloc s.heap size).2
  extended : s.Extends s'
  block : ∃ b : ℕ, b < s.heap.total ∧ q = heapBlockToAddress s.heap b ∧ s.heap.Free b
  free : ∀ b, s'.heap.Free b → s.heap.Free b
  mem : ∀ x, ¬ InRange q size.toNat x → ¬ s.heap.MarksBehind size x → s'.mem x = s.mem x
  long : 1 < blocksFor size.toNat

/-- A request for one block, or none, is one that can be answered. -/
theorem Heap.one_lt_of_not_answers {k : ℕ} (hno : ¬ h.Answers k) : 1 < k := by
  by_contra hle
  refine hno ?_
  rcases Nat.eq_zero_or_pos h.total with h0 | hpos
  · exact Or.inr (Or.inl h0)
  by_cases hfree : h.Free (h.total - 1)
  · exact Or.inl ⟨h.total - 1, by omega, fun i h1 h2 => (show h.total - 1 = i by omega) ▸ hfree⟩
  · exact Or.inr (Or.inr hfree)

/-- What lies from a block of a free stretch at the end on is in no
allocation. -/
theorem Heap.Owns.not_inRange_tail {p : Word} {n k : ℕ} (o : h.Owns p n) (r : h.Ready)
    (hb : b < h.total) (hfree : ∀ i, b ≤ i → i < h.total → h.Free i)
    (htop : (heapBlockToAddress h b).toNat + k ≤ 2 ^ 32) (hx : InRange p (4096 * n) x) :
    ¬ InRange (heapBlockToAddress h b) k x := by
  intro hin
  have hfits := r.placed.fits
  have haddr := toNat_heapBlockToAddress r.placed hb
  have hpos := o.pos
  obtain ⟨b', -, hb', hle, c⟩ := o.exists_block r
  have hout : b' + n ≤ b := by
    by_contra hlt
    exact c.not_free (i := max b b') (by omega) (by omega) (hfree _ (by omega) (by omega))
  unfold heapBlockSize at hfits
  unfold InRange at hx hin
  bv_omega

/-- Such a request is answered with the free stretch at the end. -/
theorem heapMalloc_of_not_answers (hp : h.Placed) (hpos : 0 < size.toNat)
    (hsize : size.toNat ≤ 0xFFFFF000) (hno : ¬ h.Answers (blocksFor size.toNat)) :
    ∃ b : ℕ, b < h.total ∧ (∀ i, b ≤ i → i < h.total → h.Free i) ∧
      h.total < b + blocksFor size.toNat ∧ heapMalloc h size =
        (heapBlockToAddress h b, heapMarkBlocksTaken b (heapTotalBlocks size)) := by
  obtain ⟨w, hw, -⟩ := heapMalloc_overrun hp hpos hsize hno
  rcases heapMalloc_cases hp hpos hsize with ⟨b, hb, -⟩ | ⟨c, hc, hcpos, heq⟩ | ⟨-, heq⟩
  · exact absurd (Or.inl ⟨b, hb.1⟩) hno
  · have hle := hc.le
    have hlt := hc.lt
    exact ⟨h.total - c, by omega, fun i h1 h2 => hc.run i (by omega) h2, by omega, heq⟩
  · rw [heq] at hw
    exact absurd hw List.not_mem_nil

/-- The pointer is not null, whatever the size. -/
theorem heapMalloc_ne_zero (hp : h.Placed) (hno : ¬ h.Answers (blocksFor size.toNat)) :
    (heapMalloc h size).1 ≠ 0 := by
  by_cases hsize : 0 < size.toNat ∧ size.toNat ≤ 0xFFFFF000
  · obtain ⟨b, hlt, -, -, heq⟩ := heapMalloc_of_not_answers hp hsize.1 hsize.2 hno
    rw [heq]
    exact heapBlockToAddress_ne_zero hp hlt
  · have hlong := Heap.one_lt_of_not_answers hno
    rcases heapMalloc_of_zero hp (heapTotalBlocks_eq_zero hsize) with ⟨-, hc⟩ | ⟨c, hcpos, hc, heq⟩
    · refine absurd (Or.inr ?_) hno
      rcases Nat.eq_zero_or_pos h.total with h0 | h0
      · exact Or.inl h0
      · exact Or.inr (hc.maximal h0)
    · have hle := hc.le
      rw [heq]
      exact heapBlockToAddress_ne_zero hp (by omega)

/-- Its outcome: the table marked, the marks behind it in memory, and the
bytes cleared. -/
def Store.takenPast (s : Store) (size : Word) : Store where
  heap := s.heap.write (heapMalloc s.heap size).2
  mem := (s.mem.writeBehind s.heap.total (heapMalloc s.heap size).2).fill
    (heapMalloc s.heap size).1 size.toNat 0

/-- **That leaves the allocations**, while the marks stay below the kernel
and the bytes below the top of memory. -/
theorem givenPast_takenPast (r : s.heap.Ready) (hplace : kernelHeapInit.SamePlace s.heap)
    (hout : ¬ ∀ w ∈ (heapMalloc s.heap size).2, w.1 < s.heap.total)
    (hlow : ∀ w ∈ (heapMalloc s.heap size).2, heapTableAddress.toNat + w.1 < kernelLoadAddress)
    (htop : (heapMalloc s.heap size).1.toNat + size.toNat ≤ 2 ^ 32) :
    GivenPast s (s.takenPast size) size (heapMalloc s.heap size).1 := by
  have hno : ¬ s.heap.Answers (blocksFor size.toNat) := fun hans => by
    obtain ⟨q, s', hz⟩ := (kernelZalloc_granted_iff r).2 hans
    exact hout (kernelZalloc_run hz).2.1
  have hmarks : 0 < size.toNat ∧ size.toNat ≤ 0xFFFFF000 := by
    by_contra hzero
    refine hout fun w hw => ?_
    rcases heapMalloc_of_zero r.placed (heapTotalBlocks_eq_zero hzero) with ⟨heq, -⟩ | ⟨c, -, -, heq⟩
    · rw [heq] at hw
      exact absurd hw List.not_mem_nil
    · rw [heq] at hw
      exact absurd hw List.not_mem_nil
  have htotal : s.heap.total = 25600 := hplace.total
  have hstart : s.heap.startAddress.toNat = 0x1000000 := by
    rw [hplace.start]
    rfl
  have hblocks := toNat_heapTotalBlocks hmarks.2
  obtain ⟨b, hlt, hfree, hend, heq⟩ := heapMalloc_of_not_answers r.placed hmarks.1 hmarks.2 hno
  have hptr : (heapMalloc s.heap size).1 = heapBlockToAddress s.heap b := by rw [heq]
  have haddr := toNat_heapBlockToAddress r.placed hlt
  have hlong := Heap.one_lt_of_not_answers hno
  have hfits : b + (heapTotalBlocks size).toNat ≤ 2 ^ 31 := by
    have hwraps := size.isLt
    rw [hblocks, blocksFor]
    omega
  -- the marks end below the kernel, and so below the heap
  have hbehind : ∀ x, s.heap.MarksBehind size x → x.toNat < 0x100000 := by
    rintro x ⟨w, hw, -, rfl⟩
    have hw := hlow w hw
    rw [show heapTableAddress.toNat = 0x7E00 from rfl] at hw
    unfold kernelLoadAddress at hw
    unfold heapTableEntryAddress heapTableAddress
    bv_omega
  have hmem : ∀ x, ¬ InRange (heapMalloc s.heap size).1 size.toNat x →
      ¬ s.heap.MarksBehind size x → (s.takenPast size).mem x = s.mem x := fun x hx hnot =>
    (Mem.fill_of_not_mem hx).trans
      (Mem.writeBehind_of_not_mem fun w hw hge hxw => hnot ⟨w, hw, hge, hxw⟩)
  refine ⟨heapMalloc_ne_zero r.placed hno, rfl, rfl, ⟨⟨rfl, rfl⟩, ?_, ?_⟩,
    ⟨b, hlt, hptr, hfree b le_rfl hlt⟩, ?_, hmem, hlong⟩
  · rintro p k ⟨b', hp, hle', chain⟩
    refine ⟨b', hp, hle', chain.congr fun i h1 h2 => ?_⟩
    change (s.heap.write (heapMalloc s.heap size).2).entries i = _
    rw [heq, entries_markBlocksTaken (by omega) hfits, if_neg]
    exact fun hin => chain.not_free h1 h2 (hfree i hin.1 (by omega))
  · intro p k o x hx
    rw [hptr] at htop
    refine hmem x (hptr ▸ o.not_inRange_tail r hlt hfree htop hx) fun hnot => ?_
    have hlow := hbehind x hnot
    have hspan := o.spans r hx
    unfold Heap.Spans InRange heapBlockSize at hspan
    bv_omega
  · exact fun i hi => Heap.Free.of_write (h := s.heap) hi fun w hw => heapMalloc_taken hw

/-- **What `kernel_zalloc` does**, in the table or past its end, when it
returns. -/
theorem kernelZallocPast_cases (r : s.heap.Ready) (hplace : kernelHeapInit.SamePlace s.heap)
    (hz : kernelZallocPast size s = .ok (q, s')) :
    kernelZalloc size s = .ok (q, s') ∨ GivenPast s s' size q := by
  obtain ⟨s₁, s₂, hget, hrun⟩ := Fallible.run_bind.1 hz
  obtain ⟨rfl, rfl⟩ := Fallible.run_get.1 hget
  by_cases hin : ∀ w ∈ (heapMalloc s₂.heap size).2, w.1 < s₂.heap.total
  · rw [if_pos hin] at hrun
    exact Or.inl hrun
  rw [if_neg hin] at hrun
  by_cases hover : (∃ w ∈ (heapMalloc s₂.heap size).2,
      kernelLoadAddress ≤ heapTableAddress.toNat + w.1) ∨
      2 ^ 32 < (heapMalloc s₂.heap size).1.toNat + size.toNat
  · rw [if_pos hover] at hrun
    exact absurd hrun Fallible.run_throw
  rw [if_neg hover] at hrun
  obtain ⟨hlow, htop⟩ := not_or.1 hover
  obtain ⟨s₃, hset, hpure⟩ := Fallible.run_seq.1 hrun
  rw [Fallible.run_set] at hset
  obtain ⟨rfl, rfl⟩ := Fallible.run_pure.1 hpure
  rw [hset]
  exact Or.inr (givenPast_takenPast r hplace hin
    (fun w hw => not_le.1 fun hge => hlow ⟨w, hw, hge⟩) (not_lt.1 htop))

/-- **A request past the table's end** is carried out, if what it asks
for ends below the top of memory. -/
theorem kernelZallocPast_of_not_answers (r : s.heap.Ready)
    (hplace : kernelHeapInit.SamePlace s.heap) (hno : ¬ s.heap.Answers (blocksFor size.toNat))
    (hbound : blocksFor size.toNat ≤ 838861) :
    ∃ q s', kernelZallocPast size s = .ok (q, s') ∧ GivenPast s s' size q := by
  have hlong := Heap.one_lt_of_not_answers hno
  have hbytes := le_blocksFor_mul size.toNat
  have hsize : size.toNat ≤ 0xFFFFF000 := by omega
  have hpos : 0 < size.toNat := by
    unfold blocksFor at hlong
    omega
  have htotal : s.heap.total = 25600 := hplace.total
  have hstart : s.heap.startAddress.toNat = 0x1000000 := by
    rw [hplace.start]
    rfl
  have hblocks := toNat_heapTotalBlocks hsize
  obtain ⟨b, hlt, -, -, heq⟩ := heapMalloc_of_not_answers r.placed hpos hsize hno
  have haddr := toNat_heapBlockToAddress r.placed hlt
  obtain ⟨w, hw, hpast⟩ := heapMalloc_overrun r.placed hpos hsize hno
  have hin : ¬ ∀ w ∈ (heapMalloc s.heap size).2, w.1 < s.heap.total := fun hin => by
    have hlt := hin w hw
    omega
  have hmarks := heapMarkBlocksTaken_eq (b := b) (k := heapTotalBlocks size) (by omega) (by omega)
  rw [hblocks] at hmarks
  have hlow : ∀ w ∈ (heapMalloc s.heap size).2, heapTableAddress.toNat + w.1 < kernelLoadAddress := by
    intro w hw
    rw [heq, hmarks] at hw
    obtain ⟨j, hj, rfl⟩ := List.mem_map.1 hw
    rw [List.mem_range] at hj
    rw [show heapTableAddress.toNat = 0x7E00 from rfl]
    unfold kernelLoadAddress
    simp only
    omega
  have htop : (heapMalloc s.heap size).1.toNat + size.toNat ≤ 2 ^ 32 := by
    rw [show (heapMalloc s.heap size).1 = heapBlockToAddress s.heap b by rw [heq]]
    omega
  refine ⟨_, s.takenPast size, Fallible.run_bind.2 ⟨s, s, rfl, ?_⟩,
    givenPast_takenPast r hplace hin hlow htop⟩
  rw [if_neg hin, if_neg]
  · rfl
  · rintro (⟨w, hw, hge⟩ | hwrap)
    · exact absurd (hlow w hw) (Nat.not_lt.2 hge)
    · exact absurd htop (Nat.not_le.2 hwrap)

end OwnKernel
