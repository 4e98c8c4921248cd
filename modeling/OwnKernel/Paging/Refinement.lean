import OwnKernel.Paging.Chunk

/-!
# Paging refines a flat page map

A `PageMap` gives each of the 2 ^ 20 pages of an address space an entry.
`paging_new_4gb` builds the identity map, and `paging_map_to` overwrites
the entries of a range of pages, wrapping at the top
(`PageMap.mapTo`). `pagingRun_refines` says that a machine holding any
number of chunks and one holding their maps cannot be told apart by
`paging_get` and `paging_get_physical_address`.
-/

namespace OwnKernel

/-! ## The reference -/

/-- A flat page map: the entry of each page. -/
abbrev PageMap := ℕ → Word

/-- The map after `n` pages from `first` on, wrapping, have been given
the frames from `start` on. -/
def PageMap.overwrite (f : PageMap) (first : ℕ) (start flags : Word) : ℕ → PageMap
  | 0 => f
  | n + 1 => Function.update (f.overwrite first start flags n) ((first + n) % 2 ^ 20)
      ((start + BitVec.ofNat 32 (4096 * n)) ||| flags)

/-- The calls `paging_map_to` carries out. -/
def ValidRange (virtualAddress physicalAddress physicalEndAddress : Word) : Prop :=
  virtualAddress.toNat % 4096 = 0 ∧ physicalAddress.toNat % 4096 = 0 ∧
    physicalEndAddress.toNat % 4096 = 0 ∧ physicalAddress ≤ physicalEndAddress

instance {v a e : Word} : Decidable (ValidRange v a e) :=
  inferInstanceAs (Decidable (_ ∧ _ ∧ _ ∧ _))

/-- What `paging_map_to` does to a map. -/
def PageMap.mapTo (f : PageMap) (virtualAddress physicalAddress physicalEndAddress flags : Word) :
    PageMap :=
  if ValidRange virtualAddress physicalAddress physicalEndAddress then
    f.overwrite (virtualAddress.toNat / 4096) physicalAddress flags
      ((physicalEndAddress.toNat - physicalAddress.toNat) / 4096)
  else f

/-- **A chunk and a map cannot be told apart.** -/
structure Agrees (m : Mem) (chunk : Word) (f : PageMap) : Prop where
  get : ∀ v, pagingIsAligned v → pagingGet m (m.load32 chunk) v = f (v.toNat / 4096)
  physical : ∀ v, pagingGetPhysicalAddress m (m.load32 chunk) v =
    (f (v.toNat / 4096) &&& pagingAddressMask) + v % 4096

/-! ## One entry -/

namespace ChunkView.At

variable {c : ChunkView} {s : Store} {v a e val flags : Word} {page : ℕ} {m : Mem}

/-- The indexes of an aligned address are those of its page. -/
theorem pagingGetIndexes_eq (hv : v.toNat % 4096 = 0) :
    pagingGetIndexes v = (0, v.toNat / 4096 / 1024, v.toNat / 4096 % 1024) := by
  have hal : ¬ ¬ pagingIsAligned v := not_not.2 hv
  unfold pagingGetIndexes
  rw [if_neg hal]
  have h1 : v.toNat / (pagingTotalEntriesPerTable * heapBlockSize) = v.toNat / 4096 / 1024 := by
    rw [Nat.div_div_eq_div_mul, Nat.mul_comm 4096]
  have h2 : v.toNat % (pagingTotalEntriesPerTable * heapBlockSize) / heapBlockSize =
      v.toNat / 4096 % 1024 := by
    rw [Nat.mul_comm, Nat.mod_mul_right_div_self]
  rw [h1, h2]

theorem page_lt (v : Word) : v.toNat / 4096 < 2 ^ 20 := by
  have := v.isLt
  omega

/-- The table an aligned address is looked up in. -/
theorem table_eq (h : c.At s) (hp : page < 2 ^ 20) :
    s.mem.load32 (entryAddress (s.mem.load32 c.chunk) (page / 1024)) &&& pagingAddressMask =
      c.table (page / 1024) := by
  rw [h.directory_eq]
  exact h.entry_eq _ (by omega)

/-- **`paging_get` reads the page's entry.** -/
theorem pagingGet_eq (h : c.At s) (hv : v.toNat % 4096 = 0) :
    pagingGet s.mem (s.mem.load32 c.chunk) v = c.entry s.mem (v.toNat / 4096) := by
  unfold pagingGet
  rw [pagingGetIndexes_eq hv]
  simp only [h.table_eq (page_lt v)]
  rfl

/-- A chunk agrees with the map of its entries. -/
theorem agrees {f : PageMap} (h : c.At s)
    (hf : ∀ page, page < 2 ^ 20 → c.entry s.mem page = f page) : Agrees s.mem c.chunk f where
  get v hv := by rw [h.pagingGet_eq hv, hf _ (page_lt v)]
  physical v := by
    have hmod : (v % 4096).toNat = v.toNat % 4096 := BitVec.toNat_umod
    have hlow : (pagingAlignToLowerPage v).toNat = v.toNat / 4096 * 4096 := by
      unfold pagingAlignToLowerPage
      rw [BitVec.toNat_sub, hmod]
      omega
    have hpage : (pagingAlignToLowerPage v).toNat / 4096 = v.toNat / 4096 := by omega
    have hdiff : v - pagingAlignToLowerPage v = v % 4096 := by
      unfold pagingAlignToLowerPage
      generalize v % 4096 = d
      bv_omega
    unfold pagingGetPhysicalAddress
    simp only [h.pagingGet_eq (v := pagingAlignToLowerPage v) (by omega), hpage, hdiff,
      hf _ (page_lt v)]

end ChunkView.At

/-! ## Writing an entry -/

namespace ChunkView

variable {c c' : ChunkView} {s : Store} {v a e val flags : Word} {page : ℕ} {m : Mem}

/-- Where a page's entry lies. -/
def slot (c : ChunkView) (page : ℕ) : Word := entryAddress (c.table (page / 1024)) (page % 1024)

/-- A byte of one of the tables. -/
def InTables (c : ChunkView) (x : Word) : Prop := ∃ i, i < 1024 ∧ InRange (c.table i) 4096 x

/-- `paging_map` on aligned addresses writes the page's entry. -/
theorem At.pagingMap_eq (h : c.At s) (flags : Word) (hv : v.toNat % 4096 = 0) (ha : a.toNat % 4096 = 0) :
    pagingMap s.mem c.chunk v a flags =
      (0, s.mem.store32 (c.slot (v.toNat / 4096)) (a ||| flags)) := by
  have hal : ¬ ¬ pagingIsAligned v := not_not.2 hv
  unfold pagingMap pagingSetPhysicalAddress
  rw [if_neg (by unfold heapBlockSize; omega), if_neg hal, At.pagingGetIndexes_eq hv]
  simp only [h.table_eq (At.page_lt v)]
  rfl

/-- **A chunk after one of its entries is written.** -/
theorem At.store_slot (h : c.At s) (r : s.heap.Ready) (page : ℕ) (val : Word) (hp : page < 2 ^ 20) :
    c.At { s with mem := s.mem.store32 (c.slot page) val } ∧
      (∀ page', page' < 2 ^ 20 → c.entry (s.mem.store32 (c.slot page) val) page' =
        if page' = page then val else c.entry s.mem page') ∧
      ∀ x, ¬ c.InTables x → s.mem.store32 (c.slot page) val x = s.mem x := by
  have hi : page / 1024 < 1024 := by omega
  have hlt : page % 1024 < 1024 := Nat.mod_lt _ (by decide)
  have htable := h.owns _ (c.has_table hi)
  have hal := htable.aligned r
  have hout : ∀ x, ¬ InRange (c.table (page / 1024)) 4096 x →
      s.mem.store32 (c.slot page) val x = s.mem x := fun x hx =>
    Mem.store32_of_not_mem fun hin => hx (inRange_of_entry hal hlt hin)
  refine ⟨h.congr r h.owns ?_ ?_, fun page' hp' => ?_, fun x hx => hout x fun hin =>
    hx ⟨_, hi, hin⟩⟩
  · exact fun x hx => hout x ((h.owns _ c.has_chunk).disjoint htable r (h.table_ne _ hi).1.symm hx)
  · exact fun x hx =>
      hout x ((h.owns _ c.has_directory).disjoint htable r (h.table_ne _ hi).2.symm hx)
  · by_cases heq : page' = page
    · rw [if_pos heq, heq]
      exact Mem.load32_store32_self
    · rw [if_neg heq]
      by_cases htab : page' / 1024 = page / 1024
      · -- another entry of the same table
        unfold ChunkView.entry ChunkView.slot
        rw [htab]
        exact load32_entry_store_of_ne hal hlt (Nat.mod_lt _ (by decide)) (by omega)
      · have hi' : page' / 1024 < 1024 := by omega
        have hne : c.table (page' / 1024) ≠ c.table (page / 1024) := fun he =>
          htab (h.table_inj _ _ hi' hi he)
        exact h.entry_congr r hp' fun x hx =>
          hout x ((h.owns _ (c.has_table hi')).disjoint htable r hne hx)

/-! ## Mapping a range -/

/-- **The loop of `paging_map_range`** from the `i`-th page on, over a
chunk that holds the map with the first `i` pages overwritten. -/
theorem At.pagingMapRangeLoop_spec {f : PageMap} (flags : Word) (hv : v.toNat % 4096 = 0)
    (ha : a.toNat % 4096 = 0) :
    ∀ {n i : ℕ} {m : Mem} {h : Heap}, c.At ⟨h, m⟩ → h.Ready →
      (∀ page, page < 2 ^ 20 →
        c.entry m page = f.overwrite (v.toNat / 4096) a flags i page) →
      ∃ m', pagingMapRangeLoop c.chunk flags n 0 (v + BitVec.ofNat 32 (4096 * i))
          (a + BitVec.ofNat 32 (4096 * i)) m = (0, m') ∧
        c.At ⟨h, m'⟩ ∧
        (∀ page, page < 2 ^ 20 →
          c.entry m' page = f.overwrite (v.toNat / 4096) a flags (i + n) page) ∧
        ∀ x, ¬ c.InTables x → m' x = m x := by
  intro n
  induction n with
  | zero => exact fun hc _ hf => ⟨_, rfl, hc, hf, fun _ _ => rfl⟩
  | succ n ih =>
    intro i m h hc r hf
    have hvi : (v + BitVec.ofNat 32 (4096 * i)).toNat % 4096 = 0 := by
      rw [BitVec.toNat_add, BitVec.toNat_ofNat]; omega
    have hai : (a + BitVec.ofNat 32 (4096 * i)).toNat % 4096 = 0 := by
      rw [BitVec.toNat_add, BitVec.toNat_ofNat]; omega
    have hpage : (v + BitVec.ofNat 32 (4096 * i)).toNat / 4096 = (v.toNat / 4096 + i) % 2 ^ 20 := by
      have := v.isLt
      rw [BitVec.toNat_add, BitVec.toNat_ofNat]; omega
    have hnext : ∀ w : Word, w + BitVec.ofNat 32 (4096 * i) + 4096 =
        w + BitVec.ofNat 32 (4096 * (i + 1)) := fun w => by
      rw [BitVec.add_assoc, Nat.mul_add_one, BitVec.ofNat_add]
      rfl
    obtain ⟨hc₁, hentry, hout⟩ := hc.store_slot r ((v.toNat / 4096 + i) % 2 ^ 20)
      ((a + BitVec.ofNat 32 (4096 * i)) ||| flags) (Nat.mod_lt _ (by decide))
    obtain ⟨m', hloop, hc', hentry', hout'⟩ := ih (i := i + 1) hc₁ r fun page hp => by
      rw [hentry page hp, PageMap.overwrite]
      by_cases heq : page = (v.toNat / 4096 + i) % 2 ^ 20
      · rw [if_pos heq, heq, Function.update_self]
      · rw [if_neg heq, Function.update_of_ne heq, hf page hp]
    have hmap := hc.pagingMap_eq flags hvi hai
    rw [hpage] at hmap
    refine ⟨m', ?_, hc', ?_, fun x hx => (hout' x hx).trans (hout x hx)⟩
    · rw [pagingMapRangeLoop]
      simp only [hmap, hnext, lt_irrefl, if_false]
      exact hloop
    · rwa [show i + 1 + n = i + (n + 1) by omega] at hentry'

/-- The calls that are not carried out. -/
theorem pagingMapTo_of_not_valid {p : Word} (h : ¬ ValidRange v a e) :
    pagingMapTo m p v a e flags = (-invalidArgumentError, m) := by
  unfold pagingMapTo
  by_cases hv : v.toNat % 4096 = 0
  · by_cases ha : a.toNat % 4096 = 0
    · by_cases he : e.toNat % 4096 = 0
      · have hlt : e < a := BitVec.not_le.1 fun hle => h ⟨hv, ha, he, hle⟩
        rw [if_neg (not_not.2 hv), if_neg (not_not.2 ha), if_neg (not_not.2 he), if_pos hlt]
      · rw [if_neg (not_not.2 hv), if_neg (not_not.2 ha), if_pos he]
    · rw [if_neg (not_not.2 hv), if_pos ha]
  · rw [if_pos hv]

/-- **`paging_map_to` on a chunk.** It does to the chunk's entries what
`mapTo` does to the map, answers accordingly, and touches nothing but
the chunk's tables. -/
theorem At.pagingMapTo_spec {f : PageMap} (h : c.At s) (r : s.heap.Ready) (v a e flags : Word)
    (hf : ∀ page, page < 2 ^ 20 → c.entry s.mem page = f page) :
    ∃ m', pagingMapTo s.mem c.chunk v a e flags =
        (if ValidRange v a e then 0 else -invalidArgumentError, m') ∧
      c.At { s with mem := m' } ∧
      (∀ page, page < 2 ^ 20 → c.entry m' page = f.mapTo v a e flags page) ∧
      ∀ x, ¬ c.InTables x → m' x = s.mem x := by
  by_cases hvalid : ValidRange v a e
  · obtain ⟨hv, ha, he, hle⟩ := hvalid
    obtain ⟨m', hloop, hc', hentry, hout⟩ := At.pagingMapRangeLoop_spec flags hv ha
      (n := (e.toNat - a.toNat) / 4096) (i := 0) (f := f) h r hf
    rw [Nat.mul_zero, BitVec.add_zero, BitVec.add_zero] at hloop
    rw [Nat.zero_add] at hentry
    have hbytes : (e - a).toNat = e.toNat - a.toNat := BitVec.toNat_sub_of_le hle
    refine ⟨m', ?_, hc', ?_, hout⟩
    · rw [if_pos ⟨hv, ha, he, hle⟩]
      unfold pagingMapTo pagingMapRange
      rw [if_neg (not_not.2 hv), if_neg (not_not.2 ha), if_neg (not_not.2 he),
        if_neg (BitVec.not_lt.2 hle)]
      simp only [hbytes]
      exact hloop
    · unfold PageMap.mapTo
      rwa [if_pos ⟨hv, ha, he, hle⟩]
  · refine ⟨s.mem, ?_, h, ?_, fun _ _ => rfl⟩
    · rw [if_neg hvalid]
      exact pagingMapTo_of_not_valid hvalid
    · unfold PageMap.mapTo
      rwa [if_neg hvalid]

/-- A chunk apart from the one written survives with its entries. -/
theorem At.of_apart (h : c.At s) (h' : c'.At s) (r : s.heap.Ready) (hap : c.Apart c')
    (hout : ∀ x, ¬ c'.InTables x → m x = s.mem x) :
    c.At { s with mem := m } ∧ ∀ page, page < 2 ^ 20 → c.entry m page = c.entry s.mem page := by
  have hpage : ∀ p, c.Has p → ∀ x, InRange p 4096 x → m x = s.mem x := by
    rintro p hp x hx
    refine hout x ?_
    rintro ⟨i, hi, hin⟩
    have hne : p ≠ c'.table i := fun he => hap p ⟨hp, he ▸ c'.has_table hi⟩
    exact (h.owns p hp).disjoint (h'.owns _ (c'.has_table hi)) r hne hx hin
  exact ⟨h.congr r h.owns (hpage _ c.has_chunk) (hpage _ c.has_directory),
    fun page hp => h.entry_congr r hp (hpage _ (c.has_table (by omega)))⟩

end ChunkView

/-! ## Runs -/

/-- **A run of the paging layer** from `s₀`: the store, the chunks built
so far, and their reference maps. -/
inductive PagingRun (s₀ : Store) : Store → List Word → (Word → PageMap) → Prop
  | start (ref : Word → PageMap) : PagingRun s₀ s₀ [] ref
  /-- A chunk is built, all its allocations succeeding. -/
  | new {s s' : Store} {chunks : List Word} {ref : Word → PageMap} {flags : Byte} {p : Word} :
      PagingRun s₀ s chunks ref → pagingNew4gb flags s = .ok (p, s') →
      PagingRun s₀ s' (p :: chunks) (Function.update ref p (identityEntry flags))
  /-- `paging_map_to` is called on one of the chunks, with any arguments. -/
  | mapTo {s : Store} {chunks : List Word} {ref : Word → PageMap} {p : Word}
      (v a e flags : Word) : PagingRun s₀ s chunks ref → p ∈ chunks →
      PagingRun s₀ { s with mem := (pagingMapTo s.mem p v a e flags).2 } chunks
        (Function.update ref p ((ref p).mapTo v a e flags))

/-- **The invariant of a run.** Every chunk is in memory, chunks hold no
block in common, and their entries are the reference's. -/
structure PagingInv (s : Store) (chunks : List Word) (ref : Word → PageMap)
    (view : Word → ChunkView) : Prop where
  ready : s.heap.Ready
  chunk : ∀ p ∈ chunks, (view p).chunk = p
  mapped : ∀ p ∈ chunks, (view p).At s
  apart : ∀ p ∈ chunks, ∀ q ∈ chunks, p ≠ q → (view p).Apart (view q)
  entries : ∀ p ∈ chunks, ∀ page, page < 2 ^ 20 → (view p).entry s.mem page = ref p page

namespace PagingInv

variable {s s' : Store} {chunks : List Word} {ref : Word → PageMap} {view : Word → ChunkView}
  {p : Word}

/-- The invariant's chunks agree with their maps. -/
theorem agrees (h : PagingInv s chunks ref view) (hp : p ∈ chunks) :
    Agrees s.mem p (ref p) := by
  have := (h.mapped p hp).agrees (h.entries p hp)
  rwa [h.chunk p hp] at this

/-- A new chunk joins the others. -/
theorem new {flags : Byte} (h : PagingInv s chunks ref view)
    (hnew : pagingNew4gb flags s = .ok (p, s')) :
    ∃ view', PagingInv s' (p :: chunks) (Function.update ref p (identityEntry flags)) view' := by
  obtain ⟨c, hc, hat, hext, hfresh, hentry⟩ := pagingNew4gb_spec h.ready hnew
  -- the new chunk's pointer is none of the old ones
  have hnot : ∀ q ∈ chunks, q ≠ p := by
    rintro q hq rfl
    refine hfresh q (hc ▸ c.has_chunk) 1 ((h.mapped q hq).owns _ ?_)
    rw [← h.chunk q hq, h.chunk q hq]
    exact Or.inl (h.chunk q hq).symm
  have hap : ∀ q ∈ chunks, (view q).Apart c := fun q hq x hx =>
    hfresh x hx.2 1 ((h.mapped q hq).owns x hx.1)
  refine ⟨Function.update view p c, hext.ready h.ready, ?_, ?_, ?_, ?_⟩
  · intro q hq
    rcases List.mem_cons.1 hq with rfl | hq
    · rw [Function.update_self, hc]
    · rw [Function.update_of_ne (hnot q hq), h.chunk q hq]
  · intro q hq
    rcases List.mem_cons.1 hq with rfl | hq
    · rwa [Function.update_self]
    · rw [Function.update_of_ne (hnot q hq)]
      exact ((h.mapped q hq).of_extends h.ready hext).1
  · intro q hq q' hq' hne
    rcases List.mem_cons.1 hq with rfl | hq <;> rcases List.mem_cons.1 hq' with h' | hq'
    · exact absurd h'.symm hne
    · rw [Function.update_self, Function.update_of_ne (hnot q' hq')]
      exact (hap q' hq').symm
    · rw [h', Function.update_self, Function.update_of_ne (hnot q hq)]
      exact hap q hq
    · rw [Function.update_of_ne (hnot q hq), Function.update_of_ne (hnot q' hq')]
      exact h.apart q hq q' hq' hne
  · intro q hq page hpage
    rcases List.mem_cons.1 hq with rfl | hq
    · rw [Function.update_self, Function.update_self]
      exact hentry page hpage
    · rw [Function.update_of_ne (hnot q hq), Function.update_of_ne (hnot q hq),
        ((h.mapped q hq).of_extends h.ready hext).2 page hpage, h.entries q hq page hpage]

/-- **A call of `paging_map_to` keeps the invariant**, and its answer says
whether the range is valid. -/
theorem mapTo (h : PagingInv s chunks ref view) (hp : p ∈ chunks) (v a e flags : Word) :
    (pagingMapTo s.mem p v a e flags).1 =
        (if ValidRange v a e then 0 else -invalidArgumentError) ∧
      PagingInv { s with mem := (pagingMapTo s.mem p v a e flags).2 } chunks
        (Function.update ref p ((ref p).mapTo v a e flags)) view := by
  obtain ⟨m', hmap, hat, hentry, hout⟩ := (h.mapped p hp).pagingMapTo_spec h.ready v a e flags
    (h.entries p hp)
  rw [h.chunk p hp] at hmap
  rw [hmap]
  have hother : ∀ q ∈ chunks, q ≠ p → (view q).At { s with mem := m' } ∧
      ∀ page, page < 2 ^ 20 → (view q).entry m' page = (view q).entry s.mem page :=
    fun q hq hne => (h.mapped q hq).of_apart (h.mapped p hp) h.ready (h.apart q hq p hp hne) hout
  refine ⟨rfl, h.ready, h.chunk, fun q hq => ?_, h.apart, fun q hq page hpage => ?_⟩
  · by_cases hne : q = p
    · exact hne ▸ hat
    · exact (hother q hq hne).1
  · by_cases hne : q = p
    · subst hne
      rw [Function.update_self]
      exact hentry page hpage
    · rw [Function.update_of_ne hne]
      exact ((hother q hq hne).2 page hpage).trans (h.entries q hq page hpage)

/-- Every run has the invariant. -/
theorem of_run {s₀ : Store} (r : s₀.heap.Ready) (h : PagingRun s₀ s chunks ref) :
    ∃ view, PagingInv s chunks ref view := by
  induction h with
  | start ref => exact ⟨fun _ => ⟨0, 0, fun _ => 0⟩, r, by simp, by simp, by simp, by simp⟩
  | new _ hnew ih =>
    obtain ⟨view, ih⟩ := ih
    exact ih.new hnew
  | mapTo v a e flags _ hp ih =>
    obtain ⟨view, ih⟩ := ih
    exact ⟨view, (ih.mapTo hp v a e flags).2⟩

end PagingInv

/-- **Two-level paging refines a flat page map.** In every state of every
run, each chunk agrees with its reference; a further call answers by the
validity of its range, changes nothing when the range is not valid, and
leaves every chunk in agreement: its own with the overwritten map, the
others with the map they had. -/
theorem pagingRun_refines {s₀ s : Store} {chunks : List Word} {ref : Word → PageMap}
    (r : s₀.heap.Ready) (h : PagingRun s₀ s chunks ref) :
    (∀ p ∈ chunks, Agrees s.mem p (ref p)) ∧
      ∀ p ∈ chunks, ∀ v a e flags,
        (pagingMapTo s.mem p v a e flags).1 =
            (if ValidRange v a e then 0 else -invalidArgumentError) ∧
          (¬ ValidRange v a e → (pagingMapTo s.mem p v a e flags).2 = s.mem) ∧
          Agrees (pagingMapTo s.mem p v a e flags).2 p ((ref p).mapTo v a e flags) ∧
          ∀ q ∈ chunks, q ≠ p → Agrees (pagingMapTo s.mem p v a e flags).2 q (ref q) := by
  obtain ⟨view, hinv⟩ := PagingInv.of_run r h
  refine ⟨fun p hp => hinv.agrees hp, fun p hp v a e flags => ?_⟩
  obtain ⟨hres, hnext⟩ := hinv.mapTo hp v a e flags
  refine ⟨hres, fun hv => by rw [ChunkView.pagingMapTo_of_not_valid hv], ?_, fun q hq hne => ?_⟩
  · have := hnext.agrees hp
    rwa [Function.update_self] at this
  · have := hnext.agrees hq
    rwa [Function.update_of_ne hne] at this

/-- The refinement along a run of the kernel's heap that builds a chunk
and maps two pages of it. -/
theorem pagingRun_refines_two_pages : ∃ (s : Store) (p : Word),
    PagingRun ⟨kernelHeapInit, fun _ => 0⟩ s [p]
        (Function.update (Function.update (fun _ _ => 0) p (identityEntry 5)) p
          (PageMap.mapTo (identityEntry 5) 0x400000 0x2000 0x4000 7)) ∧
      pagingGet s.mem (s.mem.load32 p) 0x401000 = 0x3007 ∧
      pagingGetPhysicalAddress s.mem (s.mem.load32 p) 0x401abc = 0x3abc := by
  have r : kernelHeapInit.Ready := ready_kernelHeapInit
  obtain ⟨p, s, hnew, -⟩ := pagingNew4gb_of_budget budget_freeBlocks 5 (n := 0)
    (s := ⟨kernelHeapInit, fun _ => 0⟩) r (by rw [freeBlocks_kernelHeapInit]; decide)
  have hrun := (PagingRun.new (PagingRun.start fun _ _ => 0) hnew).mapTo
    0x400000 0x2000 0x4000 7 (List.mem_cons_self ..)
  simp only [Function.update_self] at hrun
  have hag := (pagingRun_refines r hrun).1 p (List.mem_cons_self ..)
  rw [Function.update_self] at hag
  refine ⟨_, p, hrun, ?_, ?_⟩
  · rw [hag.get 0x401000 (by decide)]
    decide
  · rw [hag.physical 0x401abc]
    decide

end OwnKernel
