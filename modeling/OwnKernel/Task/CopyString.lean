import OwnKernel.Paging.Restore
import OwnKernel.Process.Requests
import OwnKernel.Store.Strncpy

/-!
# A user's string, copied

`copy_string_from_task` maps a fresh block into the caller's own tables,
copies through it and puts the entry back. On every way out the tables
and the heap's table are what they were; the copy is the string as the
caller's directory translates it, if the string is apart from what is
changed meanwhile: the block's page and the word its entry is kept in.
-/

namespace OwnKernel

variable {k k' : Kernel} {c : ChunkView} {s s' : Store} {task tmp v dest x : Word} {max res : ℤ}
  {m : Mem} {g : ℕ → Byte} {val : Word}

/-! ## The processor on a chunk -/

namespace ChunkView

/-- Where the chunk's entries send an address. -/
def physical (c : ChunkView) (m : Mem) (v : Word) : Word :=
  (c.entry m (v.toNat / 4096) &&& pagingAddressMask) + v % 4096

variable (h : c.At s)
include h

theorem At.pagingGetPhysicalAddress_eq (v : Word) :
    pagingGetPhysicalAddress s.mem c.directory v = c.physical s.mem v := by
  have hphysical := (h.agrees fun _ _ => rfl).physical v
  rw [h.directory_eq] at hphysical
  exact hphysical

/-- What the processor finds is what `paging_get_physical_address`
computes. -/
theorem At.eq_physical (hx : taskSpace c.directory s.mem v = some x) : x = c.physical s.mem v := by
  rw [← h.pagingGetPhysicalAddress_eq]
  simp only [taskSpace] at hx
  split at hx
  · exact absurd hx (Option.some_ne_none x).symm
  · exact (Option.some.inj hx).symm

/-- With everything present it finds something. -/
theorem At.exists_taskSpace (hp : c.Present s.mem) (v : Word) :
    ∃ x, taskSpace c.directory s.mem v = some x := by
  have hmod : (v % 4096).toNat = v.toNat % 4096 := BitVec.toNat_umod
  have hlow : (pagingAlignToLowerPage v).toNat = v.toNat / 4096 * 4096 := by
    unfold pagingAlignToLowerPage
    rw [BitVec.toNat_sub, hmod]
    omega
  have hpage : (pagingAlignToLowerPage v).toNat / 4096 = v.toNat / 4096 := by omega
  have hlt := At.page_lt v
  have hget : pagingGet s.mem c.directory (pagingAlignToLowerPage v) =
      c.entry s.mem (v.toNat / 4096) := by
    rw [← h.directory_eq, h.pagingGet_eq (by omega), hpage]
  refine ⟨_, if_neg fun hnone => ?_⟩
  rcases hnone with hnone | hnone
  · rw [At.pagingGetIndexes_eq (by omega), hpage] at hnone
    exact hp.1 (v.toNat / 4096 / 1024) (by omega) hnone
  · rw [hget] at hnone
    exact hp.2 _ hlt hnone

/-- `paging_set_physical_address` on an aligned address writes the page's
entry. -/
theorem At.pagingSetPhysicalAddress_eq (hv : v.toNat % 4096 = 0) (val : Word) :
    pagingSetPhysicalAddress s.mem c.directory v val =
      (0, s.mem.store32 (c.slot (v.toNat / 4096)) val) := by
  have hal : ¬ ¬ pagingIsAligned v := not_not.2 hv
  unfold pagingSetPhysicalAddress
  rw [if_neg hal, At.pagingGetIndexes_eq hv, ← h.directory_eq]
  simp only [h.table_eq (At.page_lt v)]
  rfl

end ChunkView

/-! ## Through the block -/

/-- The flags the block is mapped with. -/
def copyFlags : Word := pagingIsWriteable ||| pagingIsPresent ||| pagingAccessFromAll

/-- **A block beside a chunk**, both live. -/
structure ChunkView.Beside (c : ChunkView) (s : Store) (tmp : Word) : Prop where
  ready : s.heap.Ready
  mapped : c.At s
  owned : s.heap.Owns tmp 1
  apart : ¬ c.Has tmp

namespace ChunkView.Beside

/-- The block's page. -/
theorem page_lt (_h : c.Beside s tmp) : tmp.toNat / 4096 < 2 ^ 20 := At.page_lt tmp

theorem aligned (h : c.Beside s tmp) : tmp.toNat % 4096 = 0 := h.owned.aligned h.ready

/-- The chunk's pages are not in the block. -/
theorem not_inRange {p : Word} (h : c.Beside s tmp) (hp : c.Has p) (hx : InRange p 4096 x) :
    ¬ InRange tmp 4096 x :=
  (h.mapped.owns p hp).disjoint h.owned h.ready (fun he => h.apart (he ▸ hp)) hx

/-- The word the block's entry is kept in is not in the block. -/
theorem slot_not_inRange (h : c.Beside s tmp) (hx : InRange (c.slot (tmp.toNat / 4096)) 4 x) :
    ¬ InRange tmp 4096 x := by
  have hlt := h.page_lt
  have hi : tmp.toNat / 4096 / 1024 < 1024 := by omega
  exact h.not_inRange (c.has_table hi)
    (inRange_of_entry (h.mapped.table_aligned h.ready hi) (Nat.mod_lt _ (by decide)) hx)

/-- The block stays beside the chunk, and the entries what they are, when
the block is written. -/
theorem sameOutside (h : c.Beside s tmp) (hm : SameOutside tmp 4096 s.mem m) :
    c.Beside { s with mem := m } tmp ∧
      ∀ page, page < 2 ^ 20 → c.entry m page = c.entry s.mem page := by
  have hkeep : ∀ p, c.Has p → ∀ x, InRange p 4096 x → m x = s.mem x := fun p hp x hx =>
    hm x (h.not_inRange hp hx)
  refine ⟨⟨h.ready, ?_, h.owned, h.apart⟩, fun page hlt => ?_⟩
  · exact h.mapped.congr h.ready h.mapped.owns (hkeep _ c.has_chunk) (hkeep _ c.has_directory)
  · exact h.mapped.entry_congr h.ready hlt (hkeep _ (c.has_table (by omega)))

/-- So does writing an entry. -/
theorem store_slot (h : c.Beside s tmp) {page : ℕ} (hp : page < 2 ^ 20) (val : Word) :
    c.Beside { s with mem := s.mem.store32 (c.slot page) val } tmp :=
  ⟨h.ready, (h.mapped.store_slot h.ready page val hp).1, h.owned, h.apart⟩

/-- **The block is mapped to itself** once its entry says so, whatever is
written to it. -/
theorem writesItself (h : c.Beside s tmp) {N : ℕ} (hN : N < 4096) :
    WritesItself (taskSpace c.directory)
      (s.mem.store32 (c.slot (tmp.toNat / 4096)) (tmp ||| copyFlags)) tmp N := by
  intro m' hm i hi x hx
  have hal := h.aligned
  obtain ⟨h', hentries⟩ := (h.store_slot h.page_lt (tmp ||| copyFlags)).sameOutside (m := m')
    fun y hy => hm y fun hin => hy (by unfold InRange at hin ⊢; omega)
  have hpage : (tmp + BitVec.ofNat 32 i).toNat / 4096 = tmp.toNat / 4096 := by bv_omega
  have hoffset : (tmp + BitVec.ofNat 32 i) % 4096 = BitVec.ofNat 32 i := by
    have hmod : ((tmp + BitVec.ofNat 32 i) % 4096).toNat =
        (tmp + BitVec.ofNat 32 i).toNat % 4096 := BitVec.toNat_umod
    apply BitVec.eq_of_toNat_eq
    rw [hmod, BitVec.toNat_add, BitVec.toNat_ofNat]
    omega
  have hentry := (h.mapped.store_slot h.ready _ (tmp ||| copyFlags) h.page_lt).2.1 _ h.page_lt
  rw [if_pos rfl] at hentry
  rw [h'.mapped.eq_physical hx, physical, hpage, hentries _ h.page_lt, hoffset]
  exact congrArg (· + BitVec.ofNat 32 i) ((congrArg (· &&& pagingAddressMask) hentry).trans
    (or_flags_and_addressMask hal (by decide)))

end ChunkView.Beside

/-- **From the task's directory on**: the entry is put back, the block is
given back, and the destination has the string that was read. -/
theorem copyStringThrough_spec (h : c.Beside s tmp) (hpos : 1 ≤ max) (hmax : max < 4096)
    (hdest : ∀ x, InRange dest max.toNat x → ¬ s.heap.Spans x)
    (hrun : copyStringFromTask.copyStringThrough v dest max c.chunk tmp s = .ok (res, s')) :
    res = 0 ∧ s'.heap = s.heap.write (heapFree s.heap tmp) ∧
      (∀ x, ¬ InRange dest max.toNat x → ¬ InRange tmp 4096 x → s'.mem x = s.mem x) ∧
      ∀ g, ReadsString (taskSpace c.directory)
          (s.mem.store32 (c.slot (tmp.toNat / 4096)) (tmp ||| copyFlags)) tmp v g (max - 1).toNat →
        HoldsString s'.mem dest g (max - 1).toNat := by
  have hchunk := (h.mapped.owns _ c.has_chunk).ne_zero h.ready
  have hal := h.aligned
  have hN : (max - 1).toNat + 1 = max.toNat := by omega
  obtain ⟨directory, s₀, hload, hrun⟩ := Fallible.run_bind.1 hrun
  obtain ⟨-, rfl, hs⟩ := run_loadWord.1 hload
  rw [hs, BitVec.add_zero, h.mapped.directory_eq, Fallible.run_get_bind,
    ← h.mapped.directory_eq, h.mapped.pagingGet_eq hal, h.mapped.directory_eq,
    h.mapped.pagingMap_eq _ hal hal] at hrun
  obtain ⟨s₁, hset, hrun⟩ := Fallible.run_seq.1 hrun
  rw [Fallible.run_set] at hset
  -- the string is copied into the block
  obtain ⟨s₂, hcopy, hrun⟩ := Fallible.run_seq.1 hrun
  have hwrites := h.writesItself (N := (max - 1).toNat) (by omega)
  have hmem₁ : s₁.mem = s.mem.store32 (c.slot (tmp.toNat / 4096)) (tmp ||| copyFlags) := by
    rw [hset]
    rfl
  rw [← hmem₁] at hwrites ⊢
  obtain ⟨hheap₂, hmem₂⟩ := strncpyLoop_frame hwrites (by omega) (Nat.le_of_eq (Nat.zero_add _))
    (.refl _ _ _) hcopy
  rw [hN] at hmem₂
  have hblock : ∀ x, ¬ InRange tmp 4096 x → s₂.mem x = s₁.mem x := fun x hx =>
    hmem₂ x fun hin => hx (by unfold InRange at hin ⊢; omega)
  -- the entry is put back
  have h₂ := ((h.store_slot h.page_lt (tmp ||| copyFlags)).sameOutside (m := s₂.mem)
    (hmem₁ ▸ hblock)).1
  rw [Fallible.run_get_bind, h₂.mapped.pagingSetPhysicalAddress_eq hal] at hrun
  obtain ⟨s₃, hset₃, hrun⟩ := Fallible.run_seq.1 hrun
  rw [Fallible.run_set] at hset₃
  have hmem₃ : s₃.mem = s₂.mem.store32 (c.slot (tmp.toNat / 4096))
      (c.entry s.mem (tmp.toNat / 4096)) := by rw [hset₃]
  have hback : ∀ x, ¬ InRange tmp 4096 x → s₃.mem x = s.mem x := by
    intro x hx
    rw [hmem₃]
    by_cases hin : InRange (c.slot (tmp.toNat / 4096)) 4 x
    · exact Mem.store32_load32 hin
    · rw [Mem.store32_of_not_mem hin, hblock x hx, hmem₁, Mem.store32_of_not_mem hin]
  -- the copy is copied
  rw [if_neg (by decide)] at hrun
  obtain ⟨s₄, hcopy₄, hrun⟩ := Fallible.run_seq.1 hrun
  obtain ⟨hheap₄, hmem₄⟩ := strncpyLoop_frame (writesItself_kernelSpace _ _ _) (by omega)
    (Nat.le_of_eq (Nat.zero_add _)) (.refl _ _ _) hcopy₄
  rw [hN] at hmem₄
  -- the block is given back
  obtain ⟨s₅, hfree, hrun⟩ := Fallible.run_seq.1 hrun
  rw [kernelFree_eq] at hfree
  obtain ⟨rfl, rfl⟩ := Fallible.run_pure.1 hrun
  cases hfree
  have hheap : s₄.heap = s.heap := by
    rw [hheap₄, hset₃, hheap₂, hset]
  refine ⟨rfl, by rw [hheap], fun x hx hx' => ?_, fun g hg => ?_⟩
  · exact (hmem₄ x hx).trans (hback x hx')
  · have hin : ∀ i ≤ (max - 1).toNat, InRange tmp 4096 (tmp + BitVec.ofNat 32 i) := fun i hi =>
      (inRange_add (by omega)).2 (by omega)
    have hfirst := strncpyLoop_holds hwrites hg (by omega) (Nat.zero_add _) (.refl _ _ _)
      (fun j hj => absurd hj (Nat.not_lt_zero j)) (fun j hj => absurd hj (Nat.not_lt_zero j)) hcopy
    have hsecond := strncpyLoop_holds (writesItself_kernelSpace _ _ _)
      (g := fun j => s₃.mem (tmp + BitVec.ofNat 32 j)) (fun m' hm' i hi _ x hx => ?_) (by omega)
      (Nat.zero_add _) (.refl _ _ _)
      (fun j hj => absurd hj (Nat.not_lt_zero j)) (fun j hj => absurd hj (Nat.not_lt_zero j)) hcopy₄
    · refine (hfirst.congr fun i hi => ?_).trans hsecond
      rw [hmem₃]
      exact Mem.store32_of_not_mem fun hslot => h.slot_not_inRange hslot (hin i hi)
    · obtain rfl := Option.some.inj hx
      refine hm' _ fun hd => hdest _ (hN ▸ hd) ?_
      exact h.owned.spans h.ready (hin i (by omega))

/-! ## The whole call -/

/-- The block `copy_string_from_task` takes. -/
def copyBlock (k : Kernel) (max : ℤ) : Word :=
  (heapMalloc k.store.heap (BitVec.ofInt 32 max)).1

/-- **What every way out leaves as it was**: the heap's table, the task's
tables, and every byte but the destination's and the block's. -/
structure CopyFrame (k k' : Kernel) (c : ChunkView) (dest : Word) (max : ℤ) : Prop where
  state : k' = { k with store := k'.store }
  table : ∀ i, i < k.store.heap.total → k'.store.heap.entries i = k.store.heap.entries i
  entries : ∀ page, page < 2 ^ 20 → c.entry k'.store.mem page = c.entry k.store.mem page
  mem : ∀ x, ¬ InRange dest max.toNat x → ¬ InRange (copyBlock k max) 4096 x →
    k'.store.mem x = k.store.mem x

theorem CopyFrame.refl (k : Kernel) (c : ChunkView) (dest : Word) (max : ℤ) :
    CopyFrame k k c dest max := ⟨rfl, fun _ _ => rfl, fun _ _ => rfl, fun _ _ _ => rfl⟩

/-- The size asked for. -/
theorem toNat_ofInt_max (hpos : 1 ≤ max) (hmax : max < 4096) :
    (BitVec.ofInt 32 max).toNat = max.toNat := by
  rw [BitVec.toNat_ofInt]
  omega

/-- A fresh block is beside the chunk. -/
theorem HasDirectory.beside {size p : Word} (hd : HasDirectory k task c) (hpos : 0 < size.toNat)
    (hsize : size.toNat ≤ 4096) (hz : kernelZalloc size k.store = .ok (p, s)) (h0 : p ≠ 0) :
    c.Beside s p := by
  obtain ⟨hext, hown, hfresh, -⟩ := kernelZalloc_spec hd.ready hpos (by omega) hz h0
  have hone : blocksFor size.toNat = 1 := by
    unfold blocksFor
    omega
  exact ⟨hext.ready hd.ready, (hd.mapped.of_extends hd.ready hext).1, hone ▸ hown,
    fun hhas => hfresh 1 (hd.mapped.owns _ hhas)⟩

/-- **The call, when it finishes**: without a block it has changed
nothing; with one it goes on beside the task's chunk. -/
theorem copyStringFromTask_run (hd : HasDirectory k task c) (hpos : 1 ≤ max) (hmax : max < 4096)
    (hrun : copyStringFromTask task v dest max k = .ok (res, k')) :
    (res = -noMemoryError ∧ k' = k) ∨
      ∃ s s', kernelZalloc (BitVec.ofInt 32 max) k.store = .ok (copyBlock k max, s) ∧
        c.Beside s (copyBlock k max) ∧
        copyStringFromTask.copyStringThrough v dest max c.chunk (copyBlock k max) s =
          .ok (res, s') ∧ k' = { k with store := s' } := by
  have hsize := toNat_ofInt_max hpos hmax
  unfold copyStringFromTask at hrun
  rw [if_neg (by unfold heapBlockSize; omega)] at hrun
  obtain ⟨tmp, k₁, hz', hrun⟩ := Fallible.run_bind.1 hrun
  obtain ⟨s, hz, rfl⟩ := run_onStore.1 hz'
  have htmp : tmp = copyBlock k max := (kernelZalloc_run hz).1
  by_cases h0 : tmp = 0
  · rw [if_pos h0] at hrun
    obtain ⟨rfl, rfl⟩ := Fallible.run_pure.1 hrun
    rcases kernelZalloc_of_pos hd.ready (by omega) hz with ⟨-, rfl⟩ | ⟨hne, -⟩
    · exact Or.inl ⟨rfl, rfl⟩
    · exact absurd h0 hne
  · rw [if_neg h0] at hrun
    have hbeside := hd.beside (by omega) (by omega) hz h0
    obtain ⟨t, k₂, hread, hrun⟩ := Fallible.run_bind.1 hrun
    obtain ⟨-, ht, rfl⟩ := run_readTask.1 hread
    obtain ⟨t', ht', hchunk⟩ := hd.object
    obtain rfl : t = t' := Option.some.inj (ht.symm.trans ht')
    rw [hchunk] at hrun
    obtain ⟨s', hthrough, rfl⟩ := run_onStore.1 hrun
    exact Or.inr ⟨s, s', htmp ▸ hz, htmp ▸ hbeside, htmp ▸ hthrough, rfl⟩

/-- Writing an entry that is present, and the block, leaves everything
present. -/
theorem ChunkView.Beside.present (h : c.Beside s tmp) (hp : c.Present s.mem)
    (hm : SameOutside tmp 4096
      (s.mem.store32 (c.slot (tmp.toNat / 4096)) (tmp ||| copyFlags)) m) : c.Present m := by
  have hlt := h.page_lt
  have hslot := h.mapped.store_slot h.ready _ (tmp ||| copyFlags) hlt
  obtain ⟨-, hentries⟩ := (h.store_slot hlt (tmp ||| copyFlags)).sameOutside hm
  have hi : tmp.toNat / 4096 / 1024 < 1024 := by omega
  refine ⟨fun i hlti => ?_, fun page hpage => ?_⟩
  · -- the directory is neither in the block nor in a table
    have hdirectory : ∀ x, InRange c.directory 4096 x → m x = s.mem x := by
      intro x hx
      rw [hm x (h.not_inRange c.has_directory hx)]
      refine Mem.store32_of_not_mem fun hin => ?_
      exact (h.mapped.owns _ c.has_directory).disjoint (h.mapped.owns _ (c.has_table hi)) h.ready
        (h.mapped.table_ne _ hi).2.symm hx
        (inRange_of_entry (h.mapped.table_aligned h.ready hi) (Nat.mod_lt _ (by decide)) hin)
    rw [load32_entry_congr (h.mapped.directory_aligned h.ready) hlti hdirectory]
    exact hp.1 i hlti
  · rw [hentries page hpage]
    refine ne_of_eq_of_ne (congrArg (· &&& pagingIsPresent) (hslot.2.1 page hpage)) ?_
    by_cases hpe : page = tmp.toNat / 4096
    · rw [if_pos hpe, BitVec.and_or_distrib_right]
      intro h0
      exact absurd (BitVec.or_eq_zero_iff.1 h0).2 (by decide)
    · rw [if_neg hpe]
      exact hp.2 page hpage

/-- A kernel stack is below the heap. -/
theorem KernelHeap.not_spans {h : Heap} {n : ℕ} (hk : KernelHeap h) (hn : n ≤ 4096)
    (hx : InRange 0x5000 n x) : ¬ h.Spans x := by
  intro hspans
  have hlow := hk.le_of_spans hspans
  unfold InRange at hx
  bv_omega

/-- A page mapped to itself is where it is. -/
theorem ChunkView.physical_identity {flags : Byte}
    (hentry : c.entry m (v.toNat / 4096) = identityEntry flags (v.toNat / 4096)) :
    c.physical m v = v := by
  have hlt := ChunkView.At.page_lt v
  have hmod : (v % 4096).toNat = v.toNat % 4096 := BitVec.toNat_umod
  have hv := v.isLt
  unfold ChunkView.physical
  rw [hentry, identityEntry_and_addressMask hlt]
  apply BitVec.eq_of_toNat_eq
  rw [BitVec.toNat_add, toNat_pageAddress hlt, hmod]
  unfold heapBlockSize
  omega

end OwnKernel
