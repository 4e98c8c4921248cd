import OwnKernel.Paging.Free
import OwnKernel.Paging.Refinement

/-!
# Chunks, built and given back

From any state of the kernel's heap with 1026 free blocks
`paging_new_4gb` builds the identity map out of them, and after any
mappings `paging_free_4gb` leaves the heap's table as it was before
(`pagingNew4gb_restores`). With fewer it does not come to an end: no
allocation is looked at before it is written through
(`pagingNew4gb_safe_iff`).
-/

namespace OwnKernel

/-- The arguments of `paging_map_to`, but the chunk. -/
structure MapCall where
  virtualAddress : Word
  physicalAddress : Word
  physicalEndAddress : Word
  flags : Word

/-- The memory after some calls of `paging_map_to` on a chunk. -/
def pagingMaps (chunk : Word) (m : Mem) (calls : List MapCall) : Mem :=
  calls.foldl (fun m c => (pagingMapTo m chunk c.virtualAddress c.physicalAddress
    c.physicalEndAddress c.flags).2) m

variable {s s' : Store} {c : ChunkView} {flags : Byte} {page : ℕ} {v p : Word}

/-- A chunk stays in memory whatever is mapped in it. -/
theorem ChunkView.At.pagingMaps {h : Heap} (r : h.Ready) : ∀ {calls : List MapCall} {m : Mem},
    c.At ⟨h, m⟩ → c.At ⟨h, OwnKernel.pagingMaps c.chunk m calls⟩ := by
  intro calls
  induction calls with
  | nil => exact fun hc => hc
  | cons call calls ih =>
    intro m hc
    obtain ⟨m', heq, hc', -, -⟩ := hc.pagingMapTo_spec r call.virtualAddress call.physicalAddress
      call.physicalEndAddress call.flags (f := c.entry m) fun _ _ => rfl
    refine ih (m := (pagingMapTo m c.chunk call.virtualAddress call.physicalAddress
      call.physicalEndAddress call.flags).2) ?_
    rw [heq]
    exact hc'

/-! ## The identity map -/

/-- The address of a page. -/
theorem toNat_pageAddress (hp : page < 2 ^ 20) :
    (BitVec.ofNat 32 (page * heapBlockSize)).toNat = page * heapBlockSize := by
  rw [BitVec.toNat_ofNat]
  unfold heapBlockSize
  omega

/-- The address part of the identity's entry. -/
theorem identityEntry_and_addressMask (hp : page < 2 ^ 20) :
    identityEntry flags page &&& pagingAddressMask = BitVec.ofNat 32 (page * heapBlockSize) := by
  refine or_flags_and_addressMask ?_ ?_
  · rw [toNat_pageAddress hp]
    exact Nat.mul_mod_left page 4096
  · rw [BitVec.toNat_setWidth]
    have := flags.isLt
    omega

/-- A chunk of identity entries translates every address to itself. -/
theorem Agrees.physical_identity {m : Mem} (ha : Agrees m p (identityEntry flags)) (v : Word) :
    pagingGetPhysicalAddress m (m.load32 p) v = v := by
  have hpage := ChunkView.At.page_lt v
  rw [ha.physical, identityEntry_and_addressMask hpage]
  apply BitVec.eq_of_toNat_eq
  have hmod : (v % 4096).toNat = v.toNat % 4096 := BitVec.toNat_umod
  have hlt := v.isLt
  rw [BitVec.toNat_add, toNat_pageAddress hpage, hmod]
  unfold heapBlockSize
  omega

/-- Its entries carry the flags and nothing else. -/
theorem Agrees.get_identity {m : Mem} (ha : Agrees m p (identityEntry flags))
    (hv : pagingIsAligned v) : pagingGet m (m.load32 p) v = v ||| flags.setWidth 32 := by
  have hpage := ChunkView.At.page_lt v
  have haddr : BitVec.ofNat 32 (v.toNat / 4096 * heapBlockSize) = v := by
    apply BitVec.eq_of_toNat_eq
    rw [toNat_pageAddress hpage]
    exact Nat.div_mul_cancel (Nat.dvd_of_mod_eq_zero hv)
  rw [ha.get v hv, identityEntry, haddr]

/-! ## Built and given back -/

/-- A chunk has 1026 pointers. -/
theorem ChunkView.length_pointers (c : ChunkView) : c.pointers.length = 1026 := by
  unfold ChunkView.pointers
  rw [List.length_append, List.length_map, List.length_range', List.length_cons,
    List.length_singleton]

/-- **Freeing a chunk gives back what building it took.** -/
theorem entries_freeAll_pointers {h h' : Heap} {bs : List ℕ} {m : Mem} {i : ℕ} (hc : c.At ⟨h', m⟩)
    (htook : h.Took h' bs) (hlen : bs.length = 1026) (hk : KernelHeap h)
    (hfresh : ∀ q, c.Has q → h.Fresh q) (hi : i < h.total) :
    (h'.freeAll c.pointers).entries i = h.entries i := by
  refine htook.entries_freeAll hk.ready hk.clean hc.nodup_pointers ?_ (fun q hq => ?_) hi
  · rw [c.length_pointers, hlen]
  · have hhas := ChunkView.mem_pointers.1 hq
    exact ⟨hc.owns q hhas, hfresh q hhas⟩

/-- **A chunk, built and given back.** With 1026 free blocks
`paging_new_4gb` maps every address to itself under the flags, in 1026
distinct blocks; and whatever is mapped then, `paging_free_4gb` leaves
every entry of the heap's table as it was before. -/
theorem pagingNew4gb_restores (flags : Byte) (hk : KernelHeap s.heap)
    (hfree : 1026 ≤ s.heap.freeBlocks) :
    ∃ p s', pagingNew4gb flags s = .ok (p, s') ∧
      (∀ v, pagingGetPhysicalAddress s'.mem (s'.mem.load32 p) v = v) ∧
      (∀ v, pagingIsAligned v →
        pagingGet s'.mem (s'.mem.load32 p) v = v ||| flags.setWidth 32) ∧
      (∃ c : ChunkView, c.chunk = p ∧ c.At s' ∧ c.pointers.Nodup ∧ c.pointers.length = 1026) ∧
      ∀ calls : List MapCall, ∃ s'',
        pagingFree4gb p { s' with mem := pagingMaps p s'.mem calls } = .ok (⟨⟩, s'') ∧
          ∀ i, i < s.heap.total → s''.heap.entries i = s.heap.entries i := by
  obtain ⟨p, s', hnew, -⟩ := pagingNew4gb_of_budget budget_freeBlocks flags (n := 0) hk.ready
    (by omega)
  obtain ⟨c, rfl, hc, hext, hfresh, hentry⟩ := pagingNew4gb_spec hk.ready hnew
  obtain ⟨bs, htook, hlen⟩ := pagingNew4gb_took hk.ready hnew
  have hr' := hext.ready hk.ready
  have hagrees := hc.agrees hentry
  refine ⟨_, s', hnew, hagrees.physical_identity, fun v hv => hagrees.get_identity hv,
    ⟨c, rfl, hc, hc.nodup_pointers, c.length_pointers⟩, fun calls => ?_⟩
  have hmaps : c.At { s' with mem := pagingMaps c.chunk s'.mem calls } := hc.pagingMaps hr'
  exact ⟨_, hmaps.pagingFree4gb_eq hr', fun i hi =>
    entries_freeAll_pointers hmaps htook hlen hk hfresh hi⟩

/-- The kernel's heap as it is made, and the flags of a task's chunk. -/
theorem pagingNew4gb_restores_kernelHeapInit :
    ∃ p s', pagingNew4gb 5 ⟨kernelHeapInit, fun _ => 0⟩ = .ok (p, s') ∧
      (∀ v, pagingGetPhysicalAddress s'.mem (s'.mem.load32 p) v = v) ∧
      (∀ v, pagingIsAligned v →
        pagingGet s'.mem (s'.mem.load32 p) v = v ||| (5 : Byte).setWidth 32) ∧
      (∃ c : ChunkView, c.chunk = p ∧ c.At s' ∧ c.pointers.Nodup ∧ c.pointers.length = 1026) ∧
      ∀ calls : List MapCall, ∃ s'',
        pagingFree4gb p { s' with mem := pagingMaps p s'.mem calls } = .ok (⟨⟩, s'') ∧
          ∀ i, i < kernelHeapInit.total → s''.heap.entries i = kernelHeapInit.entries i :=
  pagingNew4gb_restores (s := ⟨kernelHeapInit, fun _ => 0⟩) 5 .init
    (by rw [freeBlocks_kernelHeapInit]; decide)

/-! ## Without memory for it -/

/-- **What `task_init` relies on**: `paging_new_4gb` comes to an end,
having written through no null pointer, with a complete chunk, or with
null and the heap's table as it was. -/
def NewChunkSafe (flags : Byte) (s : Store) : Prop :=
  ∃ p s', pagingNew4gb flags s = .ok (p, s') ∧
    ((∃ c : ChunkView, c.chunk = p ∧ c.At s' ∧
      ∀ page, page < 2 ^ 20 → c.entry s'.mem page = identityEntry flags page) ∨
    (p = 0 ∧ ∀ i, i < s.heap.total → s'.heap.entries i = s.heap.entries i))

/-- **When `paging_new_4gb` is safe**: it needs 1026 free blocks. -/
theorem pagingNew4gb_safe_iff (flags : Byte) (r : s.heap.Ready) :
    NewChunkSafe flags s ↔ 1026 ≤ s.heap.freeBlocks := by
  constructor
  · rintro ⟨p, s', hnew, -⟩
    have hcount := pagingNew4gb_freeBlocks r hnew
    omega
  · intro hfree
    obtain ⟨p, s', hnew, -⟩ := pagingNew4gb_of_budget budget_freeBlocks flags (n := 0) r (by omega)
    obtain ⟨c, hp, hc, -, -, hentry⟩ := pagingNew4gb_spec r hnew
    exact ⟨p, s', hnew, Or.inl ⟨c, hp, hc, hentry⟩⟩

/-- The kernel's heap as it is made. -/
theorem pagingNew4gb_safe_iff_kernelHeapInit :
    NewChunkSafe 5 ⟨kernelHeapInit, fun _ => 0⟩ ↔ 1026 ≤ kernelHeapInit.freeBlocks :=
  pagingNew4gb_safe_iff (s := ⟨kernelHeapInit, fun _ => 0⟩) 5 ready_kernelHeapInit

/-- A request for as many blocks as an all-free table has takes them. -/
theorem freeBlocks_heapMalloc_all {h : Heap} {size : Word} (r : h.Ready) (hpos : 0 < size.toNat)
    (hsize : size.toNat ≤ 0xFFFFF000) (hroom : h.Room 0) (hall : blocksFor size.toNat = h.total)
    (hcount : h.freeBlocks = h.total) : (h.write (heapMalloc h size).2).freeBlocks = 0 := by
  have hfit : Fits h.Free h.total (blocksFor size.toNat) 0 :=
    ⟨by omega, fun i _ h2 => hroom i (Nat.zero_le i) (by omega)⟩
  have hmark := Heap.freeBlocks_markBlocksTaken r hpos hsize hfit
  rw [heapMalloc_of_firstFit r.placed hpos hsize ⟨hfit, fun b hb => absurd hb (Nat.not_lt_zero b)⟩]
  simp only
  omega

/-- One request takes the whole of the kernel's heap. -/
theorem exists_full_kernelHeap : ∃ h, KernelHeap h ∧ h.freeBlocks = 0 :=
  ⟨_, .malloc 104857600 .init, freeBlocks_heapMalloc_all ready_kernelHeapInit (by decide)
    (by decide) room_kernelHeapInit (by decide) (by rw [freeBlocks_kernelHeapInit]; decide)⟩

/-- **`paging_new_4gb` is not safe** with the heap used up. -/
theorem pagingNew4gb_not_safe :
    ¬ ∀ (flags : Byte) (s : Store), KernelHeap s.heap → NewChunkSafe flags s := by
  intro hall
  obtain ⟨h, hk, h0⟩ := exists_full_kernelHeap
  obtain ⟨p, s', hnew, -⟩ := hall 5 ⟨h, fun _ => 0⟩ hk
  have hcount : s'.heap.freeBlocks + 1026 = h.freeBlocks := pagingNew4gb_freeBlocks hk.ready hnew
  omega

end OwnKernel
