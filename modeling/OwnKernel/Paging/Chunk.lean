import OwnKernel.Paging.Entries
import OwnKernel.Store.Taken

/-!
# Chunks in memory

`ChunkView` names the pages of a chunk: the chunk object, its directory
and its 1024 tables. `ChunkView.At` says that they are where the view
says, distinct, and owned. A chunk's entries survive whatever leaves its
pages alone (`At.congr`), and `paging_new_4gb`, when all its allocations
succeed, builds one out of fresh blocks with every page mapped to itself
(`pagingNew4gb_spec`).
-/

namespace OwnKernel

/-- The pages of a chunk. -/
structure ChunkView where
  chunk : Word
  directory : Word
  table : ℕ → Word

namespace ChunkView

/-- The pointers a chunk holds from the heap. -/
def Has (c : ChunkView) (p : Word) : Prop :=
  p = c.chunk ∨ p = c.directory ∨ ∃ i, i < 1024 ∧ p = c.table i

/-- **The chunk is in memory as the view says.** -/
structure At (c : ChunkView) (s : Store) : Prop where
  owns : ∀ p, c.Has p → s.heap.Owns p 1
  chunk_ne : c.chunk ≠ c.directory
  table_ne : ∀ i, i < 1024 → c.table i ≠ c.chunk ∧ c.table i ≠ c.directory
  table_inj : ∀ i j, i < 1024 → j < 1024 → c.table i = c.table j → i = j
  directory_eq : s.mem.load32 c.chunk = c.directory
  entry_eq : ∀ i, i < 1024 →
    s.mem.load32 (entryAddress c.directory i) &&& pagingAddressMask = c.table i

/-- The entry of a page, of the 2 ^ 20 there are. -/
def entry (c : ChunkView) (m : Mem) (page : ℕ) : Word :=
  m.load32 (entryAddress (c.table (page / 1024)) (page % 1024))

/-- Every table and every page is present. -/
def Present (c : ChunkView) (m : Mem) : Prop :=
  (∀ i, i < 1024 → m.load32 (entryAddress c.directory i) &&& pagingIsPresent ≠ 0) ∧
    ∀ page, page < 2 ^ 20 → c.entry m page &&& pagingIsPresent ≠ 0

/-- Two chunks hold no pointer in common. -/
def Apart (c c' : ChunkView) : Prop := ∀ p, ¬ (c.Has p ∧ c'.Has p)

theorem Apart.symm {c c' : ChunkView} (h : c.Apart c') : c'.Apart c := fun p hp => h p ⟨hp.2, hp.1⟩

theorem has_chunk (c : ChunkView) : c.Has c.chunk := Or.inl rfl

theorem has_directory (c : ChunkView) : c.Has c.directory := Or.inr (Or.inl rfl)

theorem has_table (c : ChunkView) {i : ℕ} (hi : i < 1024) : c.Has (c.table i) :=
  Or.inr (Or.inr ⟨i, hi, rfl⟩)

end ChunkView

namespace ChunkView.At

variable {c : ChunkView} {s s' : Store} {m : Mem} {page : ℕ} {i : ℕ}

theorem table_aligned (h : c.At s) (r : s.heap.Ready) (hi : i < 1024) :
    (c.table i).toNat % 4096 = 0 := (h.owns _ (c.has_table hi)).aligned r

theorem directory_aligned (h : c.At s) (r : s.heap.Ready) : c.directory.toNat % 4096 = 0 :=
  (h.owns _ c.has_directory).aligned r

/-- An entry is read from its table's page. -/
theorem entry_congr (h : c.At s) (r : s.heap.Ready) (hp : page < 2 ^ 20)
    (hm : ∀ x, InRange (c.table (page / 1024)) 4096 x → m x = s.mem x) :
    c.entry m page = c.entry s.mem page :=
  load32_entry_congr (h.table_aligned r (by omega)) (Nat.mod_lt _ (by decide)) hm

/-- **A chunk survives what leaves its pages alone.** -/
theorem congr (h : c.At s) (r : s.heap.Ready) (ho : ∀ p, c.Has p → s'.heap.Owns p 1)
    (hc : ∀ x, InRange c.chunk 4096 x → s'.mem x = s.mem x)
    (hd : ∀ x, InRange c.directory 4096 x → s'.mem x = s.mem x) : c.At s' where
  owns := ho
  chunk_ne := h.chunk_ne
  table_ne := h.table_ne
  table_inj := h.table_inj
  directory_eq := by
    rw [← h.directory_eq]
    exact Mem.load32_congr fun x hx => hc x (by unfold InRange at hx ⊢; omega)
  entry_eq i hi := by
    rw [← h.entry_eq i hi]
    exact congrArg (· &&& pagingAddressMask)
      (load32_entry_congr (h.directory_aligned r) hi hd)

/-- A chunk survives an extension of the store, with its entries. -/
theorem of_extends (h : c.At s) (r : s.heap.Ready) (he : s.Extends s') :
    c.At s' ∧ ∀ page, page < 2 ^ 20 → c.entry s'.mem page = c.entry s.mem page :=
  ⟨h.congr r (fun p hp => he.owns p 1 (h.owns p hp))
      (fun x hx => he.mem _ _ (h.owns _ c.has_chunk) x hx)
      (fun x hx => he.mem _ _ (h.owns _ c.has_directory) x hx),
    fun page hp => h.entry_congr r hp fun x hx =>
      he.mem _ _ (h.owns _ (c.has_table (by omega))) x hx⟩

end ChunkView.At

/-! ## `paging_new_4gb` -/

variable {s s' : Store} {flags : Byte} {directory offset : Word}

/-- The entry `paging_new_4gb` writes for a page: the page mapped to
itself. -/
def identityEntry (flags : Byte) (page : ℕ) : Word :=
  BitVec.ofNat 32 (page * heapBlockSize) ||| flags.setWidth 32

/-- The flags of a directory's entries: the tables' own, and writeable. -/
def directoryFlags (flags : Byte) : Word := flags.setWidth 32 ||| pagingIsWriteable

/-- Offsets and indexes of the outer loop, in bytes. -/
theorem ofNat_offset_add (i e : ℕ) :
    BitVec.ofNat 32 (i * 1024 * 4096) + BitVec.ofNat 32 (e * 4096) =
      BitVec.ofNat 32 ((1024 * i + e) * 4096) := by
  apply BitVec.eq_of_toNat_eq
  simp only [BitVec.toNat_add, BitVec.toNat_ofNat]
  omega

/-- The next table's offset. -/
theorem ofNat_offset_next (i : ℕ) :
    BitVec.ofNat 32 (i * 1024 * 4096) +
      BitVec.ofNat 32 (pagingTotalEntriesPerTable * heapBlockSize) =
      BitVec.ofNat 32 ((i + 1) * 1024 * 4096) := by
  rw [← BitVec.ofNat_add, Nat.mul_assoc i, Nat.mul_assoc (i + 1), Nat.add_one_mul i]

/-- **One round of the outer loop.** It allocates a fresh table, fills it
and writes the directory's entry `i`; everything owned before but the
directory is as it was. -/
theorem pagingNew4gbLoop_round {n i : ℕ} (r : s.heap.Ready) (hd : s.heap.Owns directory 1)
    (hi : i < 1024)
    (h : pagingNew4gbLoop directory flags (n + 1) i (BitVec.ofNat 32 (i * 1024 * 4096)) s =
      .ok (⟨⟩, s')) :
    ∃ entry s₁, s.heap.SamePlace s₁.heap ∧ s₁.heap.Owns entry 1 ∧ s.heap.Fresh entry ∧
      (∀ p k, s.heap.Owns p k → s₁.heap.Owns p k) ∧
      (∀ p k, s.heap.Owns p k → p ≠ directory →
        ∀ x, InRange p (4096 * k) x → s₁.mem x = s.mem x) ∧
      (∀ j, j < 1024 → j ≠ i → s₁.mem.load32 (entryAddress directory j) =
        s.mem.load32 (entryAddress directory j)) ∧
      s₁.mem.load32 (entryAddress directory i) = entry ||| directoryFlags flags ∧
      (∀ e, e < 1024 →
        s₁.mem.load32 (entryAddress entry e) = identityEntry flags (1024 * i + e)) ∧
      pagingNew4gbLoop directory flags n (i + 1) (BitVec.ofNat 32 ((i + 1) * 1024 * 4096)) s₁ =
        .ok (⟨⟩, s') := by
  obtain ⟨entry, s₁, hz, h⟩ := Fallible.run_bind.1 h
  by_cases h0 : entry = 0
  · rw [if_pos h0] at h
    exact absurd h Fallible.run_throw
  rw [if_neg h0] at h
  obtain ⟨hext, hown, hfresh, -⟩ := kernelZalloc_spec r (by decide) (by decide) hz h0
  rw [blocksFor_page] at hown
  have r₁ := hext.ready r
  have he := hown.aligned r₁
  have hda := hd.aligned r
  have hd₁ := hext.owns _ _ hd
  have hed : entry ≠ directory := fun he => hfresh 1 (he ▸ hd)
  obtain ⟨s₂, hfill, h⟩ := Fallible.run_seq.1 h
  rw [Fallible.run_modify] at hfill
  obtain ⟨s₃, hstore, h⟩ := Fallible.run_seq.1 h
  rw [storeWord, if_neg (hd.ne_zero r), Fallible.run_modify] at hstore
  obtain ⟨hf1, -, hf3⟩ := pagingFillTable_spec (BitVec.ofNat 32 (i * 1024 * 4096)) flags
    he (n := pagingTotalEntriesPerTable) (j := 0) (m := s₁.mem)
    (Nat.le_of_eq (Nat.zero_add _))
  -- the filled table's memory is a variable from here on
  generalize pagingFillTable entry (BitVec.ofNat 32 (i * 1024 * 4096)) flags
    pagingTotalEntriesPerTable 0 s₁.mem = m₂ at hfill hf1 hf3
  have hheap₂ : s₂.heap = s₁.heap := by rw [hfill]
  have hmem₂ : s₂.mem = m₂ := by rw [hfill]
  have hheap₃ : s₃.heap = s₁.heap := by rw [hstore, hheap₂]
  have hmem₃ : s₃.mem = s₂.mem.store32 (entryAddress directory i)
      (entry ||| flags.setWidth 32 ||| pagingIsWriteable) := by rw [hstore]; rfl
  -- outside the directory and the new table nothing has changed
  have hout : ∀ x, ¬ InRange directory 4096 x → ¬ InRange entry 4096 x →
      s₃.mem x = s₁.mem x := by
    intro x hx hx'
    rw [hmem₃, Mem.store32_of_not_mem fun hin => hx (inRange_of_entry hda hi hin), hmem₂,
      hf3 x hx']
  rw [ofNat_offset_next] at h
  refine ⟨entry, s₃, by rw [hheap₃]; exact hext.place, by rw [hheap₃]; exact hown, hfresh,
    fun p k o => by rw [hheap₃]; exact hext.owns p k o, ?_, ?_, ?_, ?_, h⟩
  · intro p k o hne x hx
    have hpe : p ≠ entry := fun he => hfresh k (he ▸ o)
    have o₁ := hext.owns p k o
    rw [hout x (o₁.disjoint hd₁ r₁ hne hx) (o₁.disjoint hown r₁ hpe hx), hext.mem p k o x hx]
  · intro j hj hne
    rw [hmem₃, load32_entry_store_of_ne hda hi hj (Ne.symm hne)]
    refine load32_entry_congr hda hj fun x hx => ?_
    rw [hmem₂, hf3 x (hd₁.disjoint hown r₁ (Ne.symm hed) hx), hext.mem _ _ hd x hx]
  · rw [hmem₃, Mem.load32_store32_self, BitVec.or_assoc]
    rfl
  · intro e hlt
    have hkeep : s₃.mem.load32 (entryAddress entry e) = s₂.mem.load32 (entryAddress entry e) := by
      refine load32_entry_congr he hlt fun x hx => ?_
      rw [hmem₃, Mem.store32_of_not_mem fun hin =>
        hown.disjoint hd₁ r₁ hed hx (inRange_of_entry hda hi hin)]
    rw [hkeep, hmem₂, hf1 e (Nat.zero_le _) (by omega), ofNat_offset_add]
    rfl

/-- **The outer loop.** The tables it builds are fresh, distinct and
filled; the directory's entries from `i` on point to them; everything
owned before but the directory is as it was. -/
theorem pagingNew4gbLoop_spec :
    ∀ {n i : ℕ} {s s' : Store}, s.heap.Ready → s.heap.Owns directory 1 → i + n ≤ 1024 →
      pagingNew4gbLoop directory flags n i (BitVec.ofNat 32 (i * 1024 * 4096)) s = .ok (⟨⟩, s') →
      ∃ table : ℕ → Word,
        s.heap.SamePlace s'.heap ∧
        (∀ p k, s.heap.Owns p k → s'.heap.Owns p k) ∧
        (∀ p k, s.heap.Owns p k → p ≠ directory →
          ∀ x, InRange p (4096 * k) x → s'.mem x = s.mem x) ∧
        (∀ j, j < i → s'.mem.load32 (entryAddress directory j) =
          s.mem.load32 (entryAddress directory j)) ∧
        (∀ j, i ≤ j → j < i + n → s'.heap.Owns (table j) 1 ∧ s.heap.Fresh (table j) ∧
          s'.mem.load32 (entryAddress directory j) = table j ||| directoryFlags flags ∧
          ∀ e, e < 1024 → s'.mem.load32 (entryAddress (table j) e) =
            identityEntry flags (1024 * j + e)) ∧
        (∀ j j', i ≤ j → j < i + n → i ≤ j' → j' < i + n → table j = table j' → j = j') := by
  intro n
  induction n with
  | zero =>
    intro i s s' _ _ _ h
    cases h
    exact ⟨fun _ => 0, .refl _, fun _ _ h => h, fun _ _ _ _ _ _ => rfl, fun _ _ => rfl,
      fun j h1 h2 => by omega, fun j _ h1 h2 => by omega⟩
  | succ n ih =>
    intro i s s' r hd hle h
    obtain ⟨entry, s₁, hp₁, hown, hfresh, ho₁, hm₁, hlow₁, hdir, hfill, h⟩ :=
      pagingNew4gbLoop_round r hd (by omega) h
    obtain ⟨table, hp, ho, hm, hlow, htab, hinj⟩ :=
      ih (hp₁.ready r) (ho₁ _ _ hd) (by omega) h
    have he := hown.aligned (hp₁.ready r)
    have hed : entry ≠ directory := fun he => hfresh 1 (he ▸ hd)
    have hfr : ∀ j, i + 1 ≤ j → j < i + 1 + n → table j ≠ entry ∧ s.heap.Fresh (table j) := by
      intro j h1 h2
      have hfj := (htab j h1 h2).2.1
      exact ⟨fun he => hfj 1 (he ▸ hown), fun k o => hfj k (ho₁ _ _ o)⟩
    refine ⟨fun j => if j = i then entry else table j, hp₁.trans hp,
      fun p k o => ho p k (ho₁ p k o), ?_, ?_, ?_, ?_⟩
    · intro p k o hne x hx
      rw [hm p k (ho₁ p k o) hne x hx, hm₁ p k o hne x hx]
    · intro j hj
      rw [hlow j (by omega), hlow₁ j (by omega) (by omega)]
    · intro j h1 h2
      by_cases hji : j = i
      · subst hji
        simp only [if_true]
        refine ⟨ho _ _ hown, hfresh, by rw [hlow j (by omega)]; exact hdir, fun e hlt => ?_⟩
        rw [← hfill e hlt]
        exact load32_entry_congr he hlt fun x hx => hm _ _ hown hed x hx
      · simp only [if_neg hji]
        obtain ⟨a1, -, a3, a4⟩ := htab j (by omega) (by omega)
        exact ⟨a1, (hfr j (by omega) (by omega)).2, a3, a4⟩
    · intro j j' h1 h2 h3 h4 heq
      by_cases hji : j = i <;> by_cases hji' : j' = i
      · omega
      · simp only [if_pos hji, if_neg hji'] at heq
        exact absurd heq.symm (hfr j' (by omega) (by omega)).1
      · simp only [if_neg hji, if_pos hji'] at heq
        exact absurd heq (hfr j (by omega) (by omega)).1
      · simp only [if_neg hji, if_neg hji'] at heq
        exact hinj j j' (by omega) (by omega) (by omega) (by omega) heq

/-- The outer loop does not survive a null directory. -/
theorem pagingNew4gbLoop_null {n i : ℕ} {u : PUnit} :
    ¬ pagingNew4gbLoop 0 flags (n + 1) i offset s = .ok (u, s') := by
  intro h
  obtain ⟨entry, s₁, -, h⟩ := Fallible.run_bind.1 h
  by_cases h0 : entry = 0
  · rw [if_pos h0] at h
    exact Fallible.run_throw h
  · rw [if_neg h0] at h
    obtain ⟨s₂, -, h⟩ := Fallible.run_seq.1 h
    obtain ⟨s₃, hstore, -⟩ := Fallible.run_seq.1 h
    exact Fallible.run_throw hstore

/-- **`paging_new_4gb`, when it does not fail**, with the directory's
entries. -/
theorem pagingNew4gb_made {p : Word} (r : s.heap.Ready) (h : pagingNew4gb flags s = .ok (p, s')) :
    ∃ c : ChunkView, c.chunk = p ∧ c.At s' ∧ s.Extends s' ∧ (∀ q, c.Has q → s.heap.Fresh q) ∧
      (∀ i, i < 1024 →
        s'.mem.load32 (entryAddress c.directory i) = c.table i ||| directoryFlags flags) ∧
      ∀ page, page < 2 ^ 20 → c.entry s'.mem page = identityEntry flags page := by
  obtain ⟨directory, s₁, hz, h⟩ := Fallible.run_bind.1 h
  obtain ⟨s₂, hloop, h⟩ := Fallible.run_seq.1 h
  obtain ⟨chunk, s₃, hz', h⟩ := Fallible.run_bind.1 h
  obtain ⟨s₄, hstore, h⟩ := Fallible.run_seq.1 h
  obtain ⟨rfl, rfl⟩ := Fallible.run_pure.1 h
  have hdir0 : directory ≠ 0 := by
    rintro rfl
    exact pagingNew4gbLoop_null hloop
  have hchunk0 : p ≠ 0 := by
    rintro rfl
    exact Fallible.run_throw hstore
  rw [storeWord, if_neg hchunk0, Fallible.run_modify, BitVec.add_zero] at hstore
  -- the directory
  obtain ⟨hext₁, hown₁, hfresh₁, -⟩ := kernelZalloc_spec r (by decide) (by decide) hz hdir0
  rw [blocksFor_page] at hown₁
  have r₁ := hext₁.ready r
  -- the tables
  rw [show (0 : Word) = BitVec.ofNat 32 (0 * 1024 * 4096) by simp] at hloop
  obtain ⟨table, hplace, howns, hmem, -, htab, hinj⟩ :=
    pagingNew4gbLoop_spec r₁ hown₁ (Nat.le_of_eq (Nat.zero_add _)) hloop
  rw [Nat.zero_add] at htab hinj
  have r₂ := hplace.ready r₁
  have hsame : ∀ q k, s.heap.Owns q k → ∀ x, InRange q (4096 * k) x → s₂.mem x = s.mem x := by
    intro q k o x hx
    have hne : q ≠ directory := fun he => hfresh₁ k (he ▸ o)
    rw [hmem q k (hext₁.owns q k o) hne x hx, hext₁.mem q k o x hx]
  have hext₂ : s.Extends s₂ :=
    ⟨hext₁.place.trans hplace, fun q k o => howns q k (hext₁.owns q k o), hsame⟩
  -- the chunk object
  obtain ⟨hext₃, hown₃, hfresh₃, -⟩ := kernelZalloc_spec r₂ (by decide) (by decide) hz' hchunk0
  rw [show blocksFor (4 : Word).toNat = 1 by decide] at hown₃
  have hext₄ : s₂.Extends s' := by
    rw [hstore]
    exact hext₃.write r₂ hfresh₃ hown₃ fun x hx =>
      Mem.store32_of_not_mem fun hin => hx (by unfold InRange at hin ⊢; omega)
  have hheap₄ : s'.heap = s₃.heap := by rw [hstore]
  have hown₄ : s'.heap.Owns p 1 := by rw [hheap₄]; exact hown₃
  have hdir₂ := howns _ _ hown₁
  have hchunk : s₁.heap.Fresh p := fun k o => hfresh₃ k (howns _ _ o)
  have htable₂ : ∀ i, i < 1024 → s₂.heap.Owns (table i) 1 := fun i hi =>
    (htab i (Nat.zero_le i) hi).1
  have hfresh : ∀ i, i < 1024 → s₁.heap.Fresh (table i) := fun i hi =>
    (htab i (Nat.zero_le i) hi).2.1
  have hentries : ∀ i, i < 1024 →
      s'.mem.load32 (entryAddress directory i) = table i ||| directoryFlags flags := fun i hi =>
    (load32_entry_congr (hdir₂.aligned r₂) hi (hext₄.mem _ _ hdir₂)).trans
      (htab i (Nat.zero_le i) hi).2.2.1
  refine ⟨⟨p, directory, table⟩, rfl, ?_, hext₂.trans hext₄, ?_, hentries, ?_⟩
  · constructor
    · rintro q (rfl | rfl | ⟨i, hi, rfl⟩)
      · exact hown₄
      · exact hext₄.owns _ _ hdir₂
      · exact hext₄.owns _ _ (htable₂ i hi)
    · exact fun (he : p = directory) => hchunk 1 (he ▸ hown₁)
    · exact fun i hi => ⟨fun (he : table i = p) => hfresh₃ 1 (he ▸ htable₂ i hi),
        fun (he : table i = directory) => hfresh i hi 1 (he ▸ hown₁)⟩
    · exact fun i j hi hj => hinj i j (Nat.zero_le i) hi (Nat.zero_le j) hj
    · rw [hstore]
      exact Mem.load32_store32_self
    · intro i hi
      rw [hentries i hi]
      exact or_flags_and_addressMask ((htable₂ i hi).aligned r₂) (toNat_flags_lt flags)
  · rintro q (rfl | rfl | ⟨i, hi, rfl⟩)
    · exact hext₁.fresh hchunk
    · exact hfresh₁
    · exact hext₁.fresh (hfresh i hi)
  · intro page hlt
    have hi : page / 1024 < 1024 := by omega
    have htable := htable₂ _ hi
    have hentry := (htab _ (Nat.zero_le _) hi).2.2.2 (page % 1024) (Nat.mod_lt _ (by decide))
    rw [Nat.div_add_mod] at hentry
    refine Eq.trans ?_ hentry
    exact load32_entry_congr (htable.aligned r₂) (Nat.mod_lt _ (by decide)) (hext₄.mem _ _ htable)

/-- The chunk is in memory, made of fresh blocks only, with every page
mapped to itself. -/
theorem pagingNew4gb_spec {p : Word} (r : s.heap.Ready) (h : pagingNew4gb flags s = .ok (p, s')) :
    ∃ c : ChunkView, c.chunk = p ∧ c.At s' ∧ s.Extends s' ∧ (∀ q, c.Has q → s.heap.Fresh q) ∧
      ∀ page, page < 2 ^ 20 → c.entry s'.mem page = identityEntry flags page := by
  obtain ⟨c, hp, hc, hext, hfresh, -, hentry⟩ := pagingNew4gb_made r h
  exact ⟨c, hp, hc, hext, hfresh, hentry⟩

/-- A chunk made with the present flag is present. -/
theorem pagingNew4gb_present {p : Word} (r : s.heap.Ready) (hf : flags &&& 1 = 1)
    (h : pagingNew4gb flags s = .ok (p, s')) :
    ∃ c : ChunkView, c.chunk = p ∧ c.At s' ∧ c.Present s'.mem ∧
      ∀ page, page < 2 ^ 20 → c.entry s'.mem page = identityEntry flags page := by
  obtain ⟨c, hp, hc, -, -, hdirectory, hentry⟩ := pagingNew4gb_made r h
  have hflags : flags.setWidth 32 &&& pagingIsPresent = 1 := by
    have hwide := congrArg (BitVec.setWidth 32) hf
    rw [BitVec.setWidth_and] at hwide
    exact hwide
  -- the flag stays where it is set
  have hkeep : ∀ a b : Word, b &&& pagingIsPresent = 1 → (a ||| b) &&& pagingIsPresent ≠ 0 := by
    intro a b hb h0
    rw [BitVec.and_or_distrib_right, hb] at h0
    have hone := (BitVec.or_eq_zero_iff.1 h0).2
    exact absurd hone (by decide)
  refine ⟨c, hp, hc, ⟨fun i hi => ?_, fun page hlt => ?_⟩, hentry⟩
  · rw [hdirectory i hi]
    refine hkeep _ _ ?_
    rw [directoryFlags, BitVec.and_or_distrib_right, hflags]
    rfl
  · rw [hentry page hlt]
    exact hkeep _ _ hflags

/-- The outer loop with its tables in the budget. -/
theorem pagingNew4gbLoop_of_budget {B : Heap → ℕ → Prop} (hB : Budget B) (flags : Byte)
    (hdir : directory ≠ 0) : ∀ {n i m : ℕ} {o : Word} {s : Store}, s.heap.Ready →
      B s.heap (m + n) → ∃ s', pagingNew4gbLoop directory flags n i o s = .ok (⟨⟩, s') ∧
        s.heap.SamePlace s'.heap ∧ B s'.heap m := by
  intro n
  induction n with
  | zero => exact fun _ hb => ⟨_, rfl, .refl _, hb⟩
  | succ n ih =>
    intro i m o s r hb
    obtain ⟨entry, s₁, hz, h0, hp, hb₁⟩ := hB.spend r
      (show 0 < (4096 : Word).toNat by decide) (by decide) (show B s.heap (m + n + 1) from hb)
    -- filling the table and writing the directory leave the heap alone
    have hrest : ∀ m₂ : Mem, ∃ s', pagingNew4gbLoop directory flags n (i + 1)
        (o + BitVec.ofNat 32 (pagingTotalEntriesPerTable * heapBlockSize))
        { heap := s₁.heap, mem := m₂ } = .ok (⟨⟩, s') ∧
        s.heap.SamePlace s'.heap ∧ B s'.heap m := by
      intro m₂
      obtain ⟨s', h, hp', hb'⟩ := ih (i := i + 1) (m := m)
        (o := o + BitVec.ofNat 32 (pagingTotalEntriesPerTable * heapBlockSize))
        (s := { heap := s₁.heap, mem := m₂ }) (hp.ready r) hb₁
      exact ⟨s', h, hp.trans hp', hb'⟩
    obtain ⟨s', h, hp', hb'⟩ := hrest
      ((pagingFillTable entry o flags pagingTotalEntriesPerTable 0 s₁.mem).store32
        (directory + BitVec.ofNat 32 (4 * i)) (entry ||| flags.setWidth 32 ||| pagingIsWriteable))
    refine ⟨s', Fallible.run_bind.2 ⟨entry, s₁, hz, ?_⟩, hp', hb'⟩
    rw [if_neg h0]
    refine Fallible.run_seq.2 ⟨_, Fallible.run_modify.2 rfl, ?_⟩
    refine Fallible.run_seq.2 ⟨_, ?_, h⟩
    rw [storeWord, if_neg hdir, Fallible.run_modify]

/-- **`paging_new_4gb` with its 1026 blocks** in the budget. -/
theorem pagingNew4gb_of_budget {B : Heap → ℕ → Prop} (hB : Budget B) (flags : Byte) {n : ℕ}
    (r : s.heap.Ready) (hb : B s.heap (n + 1026)) :
    ∃ p s', pagingNew4gb flags s = .ok (p, s') ∧ B s'.heap n := by
  have hN : 1026 = 1 + pagingTotalEntriesPerTable + 1 := rfl
  rw [hN, ← Nat.add_assoc, ← Nat.add_assoc] at hb
  obtain ⟨directory, s₁, hz, h0, hp₁, hb₁⟩ := hB.spend r
    (show 0 < (4096 : Word).toNat by decide) (by decide) hb
  obtain ⟨s₂, hloop, hp₂, hb₂⟩ := pagingNew4gbLoop_of_budget hB flags h0 (i := 0) (o := 0)
    (n := pagingTotalEntriesPerTable) (hp₁.ready r) hb₁
  obtain ⟨chunk, s₃, hz', h0', hp₃, hb₃⟩ := hB.spend ((hp₁.trans hp₂).ready r)
    (show 0 < (4 : Word).toNat by decide) (by decide) hb₂
  have hstore : storeWord chunk 0 directory s₃ = .ok (⟨⟩, { s₃ with
      mem := s₃.mem.store32 (chunk + BitVec.ofNat 32 0) directory }) := by
    rw [storeWord, if_neg h0', Fallible.run_modify]
  exact ⟨chunk, _, Fallible.run_bind.2 ⟨_, _, hz, Fallible.run_seq.2 ⟨_, hloop,
    Fallible.run_bind.2 ⟨_, _, hz', Fallible.run_seq.2 ⟨_, hstore, rfl⟩⟩⟩⟩, hb₃⟩

/-! ## What it takes from the heap -/

section

variable {P : ℕ → Heap → Prop}

/-- What each allocation of up to a block does to a count of blocks, the
outer loop does for each of its tables. -/
theorem pagingNew4gbLoop_heap {flags : Byte} {u : PUnit}
    (hstep : ∀ {size p : Word} {s s' : Store} {m : ℕ}, 0 < size.toNat → size.toNat ≤ 4096 →
      kernelZalloc size s = .ok (p, s') → p ≠ 0 → P m s.heap → P (m + 1) s'.heap) :
    ∀ {n i m : ℕ} {o : Word} {s s' : Store}, P m s.heap →
      pagingNew4gbLoop directory flags n i o s = .ok (u, s') → P (m + n) s'.heap := by
  intro n
  induction n with
  | zero =>
    intro i m o s s' hP h
    obtain ⟨-, rfl⟩ := Fallible.run_pure.1 h
    exact hP
  | succ n ih =>
    intro i m o s s' hP h
    obtain ⟨entry, s₁, hz, h⟩ := Fallible.run_bind.1 h
    by_cases h0 : entry = 0
    · rw [if_pos h0] at h
      exact absurd h Fallible.run_throw
    rw [if_neg h0] at h
    have hP₁ := hstep (by decide) (by decide) hz h0 hP
    obtain ⟨s₂, hfill, h⟩ := Fallible.run_seq.1 h
    rw [Fallible.run_modify] at hfill
    obtain ⟨s₃, hstore, h⟩ := Fallible.run_seq.1 h
    unfold storeWord at hstore
    by_cases hdir : directory = 0
    · rw [if_pos hdir] at hstore
      exact absurd hstore Fallible.run_throw
    rw [if_neg hdir, Fallible.run_modify] at hstore
    -- only the allocation has touched the heap
    have hheap : s₃.heap = s₁.heap := by rw [hstore, hfill]
    rw [← hheap] at hP₁
    have hP' := ih hP₁ h
    rwa [Nat.add_assoc, Nat.add_comm 1 n] at hP'

/-- **`paging_new_4gb`, when it finishes**, has made 1026 allocations. -/
theorem pagingNew4gb_heap {flags : Byte} {p : Word} {m : ℕ}
    (hstep : ∀ {size p : Word} {s s' : Store} {m : ℕ}, 0 < size.toNat → size.toNat ≤ 4096 →
      kernelZalloc size s = .ok (p, s') → p ≠ 0 → P m s.heap → P (m + 1) s'.heap)
    (hP : P m s.heap) (h : pagingNew4gb flags s = .ok (p, s')) : P (m + 1026) s'.heap := by
  have hN : 1026 = 1 + pagingTotalEntriesPerTable + 1 := rfl
  obtain ⟨directory, s₁, hz, h⟩ := Fallible.run_bind.1 h
  obtain ⟨s₂, hloop, h⟩ := Fallible.run_seq.1 h
  obtain ⟨chunk, s₃, hz', h⟩ := Fallible.run_bind.1 h
  obtain ⟨s₄, hstore, h⟩ := Fallible.run_seq.1 h
  obtain ⟨-, rfl⟩ := Fallible.run_pure.1 h
  have hdir0 : directory ≠ 0 := by
    rintro rfl
    exact pagingNew4gbLoop_null hloop
  have hchunk0 : chunk ≠ 0 := by
    rintro rfl
    exact Fallible.run_throw hstore
  rw [storeWord, if_neg hchunk0, Fallible.run_modify] at hstore
  have hP₁ := hstep (by decide) (by decide) hz hdir0 hP
  have hP₃ := hstep (by decide) (by decide) hz' hchunk0 (pagingNew4gbLoop_heap hstep hP₁ hloop)
  rw [hN, hstore]
  rwa [Nat.add_assoc m, Nat.add_assoc m] at hP₃

end

/-- The blocks it takes. -/
theorem pagingNew4gb_took {flags : Byte} {p : Word} {s' : Store} (r : s.heap.Ready)
    (h : pagingNew4gb flags s = .ok (p, s')) :
    ∃ bs, s.heap.Took s'.heap bs ∧ bs.length = 1026 := by
  have htook := pagingNew4gb_heap (P := fun m h' => ∃ bs, s.heap.Took h' bs ∧ bs.length = m)
    (fun hpos hsize hz h0 hbs => ?_) (m := 0) ⟨[], .refl _, rfl⟩ h
  · rwa [Nat.zero_add] at htook
  · obtain ⟨bs, htook, hlen⟩ := hbs
    obtain ⟨b, -, hb⟩ := kernelZalloc_took (htook.place.ready r) hpos hsize hz h0
    exact ⟨bs ++ [b], htook.trans hb, by rw [List.length_append, hlen, List.length_singleton]⟩

/-- So many free blocks there were. -/
theorem pagingNew4gb_freeBlocks {flags : Byte} {p : Word} {s' : Store} (r : s.heap.Ready)
    (h : pagingNew4gb flags s = .ok (p, s')) : s'.heap.freeBlocks + 1026 = s.heap.freeBlocks := by
  obtain ⟨bs, htook, hlen⟩ := pagingNew4gb_took r h
  rw [← hlen]
  exact htook.freeBlocks

/-- The kernel's heap stays one. -/
theorem KernelHeap.pagingNew4gb {flags : Byte} {p : Word} {s' : Store} (hk : KernelHeap s.heap)
    (h : OwnKernel.pagingNew4gb flags s = .ok (p, s')) : KernelHeap s'.heap :=
  pagingNew4gb_heap (P := fun _ h' => KernelHeap h') (fun _ _ hz _ hk => hk.zalloc hz) (m := 0) hk h

end OwnKernel
