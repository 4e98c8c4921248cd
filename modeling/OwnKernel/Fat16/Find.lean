import OwnKernel.Fat16.Names
import OwnKernel.Fat16.Resolve
import OwnKernel.Strings.Compare

/-!
# Finding an item in a directory

`fat16_find_item_in_directory` looks at as many records as
`fat16_get_total_items_for_directory` counted, from the first on. The
count leaves deleted records out, and the table does not: a deleted
record among the first ones is looked at, and a live one behind them is
not. `findsLive_iff` says which root directories are searched right.
-/

namespace OwnKernel

variable {image : Sectors} {d : FatDirectory} {name t u : Cstring} {l : List ℕ} {fItem : Word}
variable {entries i j n T : ℕ} {s s' : FsState}

/-! ## The search -/

/-- The name of record `i`, as it is read. -/
def FatDirectory.nameOf (d : FatDirectory) (i : ℕ) : Except Fault Cstring :=
  fat16GetFullRelativeFilename (d.bytes.drop (sizeofFatDirectoryItem * i)) osMaxPath

/-- The first byte of record `i`. -/
def FatDirectory.firstByte (d : FatDirectory) (i : ℕ) : Byte :=
  d.bytes.getD (sizeofFatDirectoryItem * i) 0

/-- A record that is not deleted. -/
def FatDirectory.Live (d : FatDirectory) (i : ℕ) : Prop := d.firstByte i ≠ 0xE5

instance : DecidablePred d.Live := fun i => inferInstanceAs (Decidable (d.firstByte i ≠ 0xE5))

/-- The items of the records `l` made one after the other, of which the
last is returned. -/
def makeItems (image : Sectors) (d : FatDirectory) (l : List ℕ) (fItem : Word) : FsM Word :=
  l.foldlM (fun _ i => do
    let item ← readDisk (d.record i)
    fat16NewFatItemForDirectoryItem image item) fItem

/-- What is read of the disk without an error. -/
theorem readDisk_bind_ok {α β : Type} {x : Except Fault α} {a : α} {f : α → FsM β} (h : x = .ok a) :
    readDisk x >>= f = f a := by
  funext s
  exact Fallible.bind_ok (run_readDisk.2 ⟨h, rfl⟩)

/-- **The search makes the items of the records that match.** -/
theorem fat16FindItemLoop_eq_makeItems (h : fat16FindItemMet d name n i = .ok l) :
    fat16FindItemLoop image d name n i fItem = makeItems image d l fItem := by
  induction n generalizing i l fItem with
  | zero =>
    cases h
    rfl
  | succ n ih =>
    unfold fat16FindItemMet at h
    unfold fat16FindItemLoop
    cases hname : fat16GetFullRelativeFilename (d.bytes.drop (sizeofFatDirectoryItem * i)) osMaxPath
      with
    | error e =>
      rw [hname] at h
      cases h
    | ok t =>
      rw [hname] at h
      rw [readDisk_bind_ok rfl]
      cases hrest : fat16FindItemMet d name n (i + 1) with
      | error e =>
        rw [hrest] at h
        cases h
      | ok rest =>
        rw [hrest] at h
        have hl := Except.ok.inj h
        by_cases hmatch : istrncmp t name osMaxPath = 0
        · rw [if_pos hmatch] at hl ⊢
          rw [← hl, makeItems, List.foldlM_cons, bind_assoc]
          exact bind_congr fun item => bind_congr fun fItem => ih hrest
        · rw [if_neg hmatch] at hl ⊢
          rw [← hl]
          exact ih hrest

/-- A search in which a name cannot be read does not finish. -/
theorem fat16FindItemLoop_of_error {e : Fault} (h : fat16FindItemMet d name n i = .error e)
    {p : Word} : fat16FindItemLoop image d name n i fItem s ≠ .ok (p, s') := by
  induction n generalizing i fItem s with
  | zero => cases h
  | succ n ih =>
    unfold fat16FindItemMet at h
    unfold fat16FindItemLoop
    intro hrun
    obtain ⟨t, s₁, hread, hrun⟩ := Fallible.run_bind.1 hrun
    obtain ⟨hname, -⟩ := run_readDisk.1 hread
    rw [hname] at h
    have hrest : fat16FindItemMet d name n (i + 1) = .error e := by
      cases hrest : fat16FindItemMet d name n (i + 1) with
      | error e' =>
        rw [hrest] at h
        exact congrArg _ (Except.error.inj h)
      | ok rest =>
        rw [hrest] at h
        cases h
    by_cases hmatch : istrncmp t name osMaxPath = 0
    · rw [if_pos hmatch] at hrun
      obtain ⟨item, s₂, -, hrun⟩ := Fallible.run_bind.1 hrun
      obtain ⟨fItem', s₃, -, hrun⟩ := Fallible.run_bind.1 hrun
      exact ih hrest hrun
    · rw [if_neg hmatch] at hrun
      exact ih hrest hrun

/-- **The records a search makes items of**: those it looks at whose name
is the one that is sought. -/
theorem fat16FindItemMet_cases (d : FatDirectory) (name : Cstring) (n i : ℕ) :
    (∃ e, fat16FindItemMet d name n i = .error e ∧
      ∃ k, i ≤ k ∧ k < i + n ∧ ∀ t, d.nameOf k ≠ .ok t) ∨
    ∃ l, fat16FindItemMet d name n i = .ok l ∧ l.Pairwise (· < ·) ∧
      (∀ k, i ≤ k → k < i + n → ∃ t, d.nameOf k = .ok t) ∧
      ∀ k, k ∈ l ↔ i ≤ k ∧ k < i + n ∧ ∃ t, d.nameOf k = .ok t ∧ istrncmp t name osMaxPath = 0 := by
  induction n generalizing i with
  | zero =>
    exact Or.inr ⟨[], rfl, .nil, fun k hlo hhi => absurd hhi (by omega),
      fun k => ⟨fun h => (nomatch h), fun h => absurd h.2.1 (by omega)⟩⟩
  | succ n ih =>
    unfold fat16FindItemMet
    change (∃ e, (do
      let t ← d.nameOf i
      let rest ← fat16FindItemMet d name n (i + 1)
      pure (if istrncmp t name osMaxPath = 0 then i :: rest else rest)) = .error e ∧ _) ∨ ∃ l, (do
      let t ← d.nameOf i
      let rest ← fat16FindItemMet d name n (i + 1)
      pure (if istrncmp t name osMaxPath = 0 then i :: rest else rest)) = .ok l ∧ _
    cases hname : d.nameOf i with
    | error e =>
      refine Or.inl ⟨e, rfl, i, le_rfl, by omega, fun t ht => ?_⟩
      rw [hname] at ht
      cases ht
    | ok t =>
      rcases ih (i + 1) with ⟨e, herror, k, hlo, hhi, hk⟩ | ⟨rest, hrest, hsorted, hall, hmem⟩
      · rw [herror]
        exact Or.inl ⟨e, rfl, k, by omega, by omega, hk⟩
      · rw [hrest]
        refine Or.inr ⟨_, rfl, ?_, fun k hlo hhi => ?_, fun k => ?_⟩
        · split
          · exact List.pairwise_cons.2 ⟨fun k hk => ((hmem k).1 hk).1, hsorted⟩
          · exact hsorted
        · rcases eq_or_lt_of_le hlo with rfl | hlt
          · exact ⟨t, hname⟩
          · exact hall k hlt (by omega)
        · by_cases hk : k = i
          · subst hk
            have hnot : k ∉ rest := fun hin => absurd ((hmem k).1 hin).1 (by omega)
            split
            · rename_i hmatch
              exact iff_of_true List.mem_cons_self ⟨le_rfl, by omega, t, hname, hmatch⟩
            · rename_i hmatch
              refine iff_of_false hnot fun ⟨_, _, t', ht', hmatch'⟩ => hmatch ?_
              rw [hname] at ht'
              exact Except.ok.inj ht' ▸ hmatch'
          · have hcons : k ∈ (if istrncmp t name osMaxPath = 0 then i :: rest else rest) ↔
                k ∈ rest := by
              split
              · rw [List.mem_cons, or_iff_right hk]
              · exact Iff.rfl
            rw [hcons, hmem k]
            exact ⟨fun ⟨h1, h2, h3⟩ => ⟨by omega, by omega, h3⟩,
              fun ⟨h1, h2, h3⟩ => ⟨by omega, by omega, h3⟩⟩

/-! ## The root directory -/

/-- **A root directory** of `entries` records that ends with record `T`,
with the number of its items. -/
structure RootTable (d : FatDirectory) (entries T : ℕ) : Prop where
  length : d.bytes.length = entries * sizeofFatDirectoryItem
  lt : T < entries
  ends : d.firstByte T = 0x00
  before : ∀ i < T, d.firstByte i ≠ 0x00
  total : d.total = ((List.range T).filter d.Live).length

/-- The records of the buffer are those of the volume. -/
theorem firstByte_fat16RootDirectory {header : FatHeader} {dir : Word} {total : ℤ}
    (h : i < header.rootDirEntries.toNat) :
    (fat16RootDirectory header dir (bytesAt image (int32 (header.rootSector * sectorSize))
      (header.rootDirEntries.toNat * sizeofFatDirectoryItem)) total).firstByte i =
        recordByte image (header.rootDirSectorPos * sectorSize) i := by
  have hlt : sizeofFatDirectoryItem * i < header.rootDirEntries.toNat * sizeofFatDirectoryItem := by
    unfold sizeofFatDirectoryItem
    omega
  unfold FatDirectory.firstByte recordByte fat16RootDirectory bytesAt
  simp only
  rw [getD_tabulate hlt, int32_int32_add, header.rootDirSectorPos_eq, Nat.cast_mul]

/-- **What `fat16_get_root_directory` reads** is a root directory with its
items counted. -/
theorem rootTable_of_run {header : FatHeader} {old : FatDirectory}
    (h : fat16GetRootDirectory image header old s = .ok ((0, d), s'))
    (hT : T < header.rootDirEntries.toNat) (hend : d.firstByte T = 0x00)
    (hbefore : ∀ i < T, d.firstByte i ≠ 0x00) : RootTable d header.rootDirEntries.toNat T := by
  rcases fat16GetRootDirectory_cases h with ⟨hne, -⟩ | ⟨-, dir, total, -, htotal, hd⟩
  · exact absurd rfl hne
  obtain ⟨counted, n, -, hlen, hcounts⟩ := fat16GetTotalItemsForDirectory_cases htotal
  have hbyte : ∀ i < header.rootDirEntries.toNat,
      d.firstByte i = recordByte image (header.rootDirSectorPos * sectorSize) i := by
    intro i hi
    rw [hd]
    exact firstByte_fat16RootDirectory hi
  have hn : n = T := by
    have hzero := hcounts.ends
    rw [Nat.zero_add] at hzero
    rcases lt_trichotomy n T with hlt | heq | hgt
    · exact absurd ((hbyte n (hlt.trans hT)).trans hzero) (hbefore n hlt)
    · exact heq
    · exact absurd ((hbyte T hT).symm.trans hend) (hcounts.before T (Nat.zero_le T) (by omega))
  subst hn
  refine ⟨?_, hT, hend, hbefore, ?_⟩
  · rw [hd]
    exact length_bytesAt
  · have hd_total : d.total = total := by
      rw [hd]
      rfl
    rw [hd_total, hlen, hcounts.counted, ← List.range_eq_range']
    congr 2
    refine List.filter_congr fun i hi => ?_
    rw [← hbyte i ((List.mem_range.1 hi).trans hT)]
    rfl

/-- There are no more items than records before the end. -/
theorem RootTable.total_le (h : RootTable d entries T) : d.total.toNat ≤ T := by
  have hle := List.length_filter_le d.Live (List.range T)
  rw [List.length_range] at hle
  rw [h.total]
  exact hle

/-- Where none of the first records is deleted, all items are among
them. -/
theorem RootTable.lt_total (h : RootTable d entries T) (hlive : ∀ i < d.total.toNat, d.Live i)
    (hj : j < T) (hjlive : d.Live j) : j < d.total.toNat := by
  by_contra hge
  have hnodup : (j :: List.range d.total.toNat).Nodup :=
    List.nodup_cons.2 ⟨fun hin => hge (List.mem_range.1 hin), List.nodup_range⟩
  have hsub : (j :: List.range d.total.toNat) ⊆ (List.range T).filter d.Live := by
    intro i hi
    rw [List.mem_filter, List.mem_range, decide_eq_true_eq]
    rcases List.mem_cons.1 hi with rfl | hi
    · exact ⟨hj, hjlive⟩
    · have hlt := List.mem_range.1 hi
      exact ⟨hlt.trans_le h.total_le, hlive i hlt⟩
  have hle := (hnodup.subperm hsub).length_le
  have htotal := h.total
  rw [List.length_cons, List.length_range] at hle
  omega

/-! ## What the search is for -/

/-- **A live record that bears a name of its own**: its fields hold the
name, and no other live record is read as that name. -/
structure Named (d : FatDirectory) (T j : ℕ) (s : ShortName) (attributes : Byte) : Prop where
  lt : j < T
  live : d.Live j
  record : ∃ rest, d.bytes.drop (sizeofFatDirectoryItem * j) = s.field ++ attributes :: rest
  name : 0x00 ∉ s.name
  ext : 0x00 ∉ s.ext
  unique : ∀ i < T, i ≠ j → d.Live i → ∀ t, d.nameOf i = .ok t → istrncmp t s.text osMaxPath ≠ 0

/-- **What `fat16_find_item_in_directory` is for**: sought by its name, a
live record is the one that an item is made of, and no item is made of a
deleted record. -/
structure FindsLive (image : Sectors) (d : FatDirectory) (T : ℕ) : Prop where
  found : ∀ j s attributes, Named d T j s attributes → ∃ item, d.record j = .ok item ∧
    fat16FindItemInDirectory image d s.text = fat16NewFatItemForDirectoryItem image item
  deleted : ∀ name l, fat16FindItemMet d name d.total.toNat 0 = .ok l → ∀ i ∈ l, d.Live i

/-- The names of the records a search looks at can be read. -/
def NamesRead (d : FatDirectory) : Prop := ∀ i < d.total.toNat, ∃ t, d.nameOf i = .ok t

/-- **The live records come first**, and the search reads their names as
they are: either no record it looks at is deleted and every name of a
live one ends as it should, or a name cannot be read and there is none to
find. -/
def SearchedRight (d : FatDirectory) (T : ℕ) : Prop :=
  (NamesRead d ∧ (∀ i < d.total.toNat, d.Live i) ∧
    ∀ j s attributes, Named d T j s attributes → s.Ends attributes) ∨
  (¬ NamesRead d ∧ ∀ j s attributes, ¬ Named d T j s attributes)

/-- A record is read in the buffer. -/
theorem RootTable.exists_record (h : RootTable d entries T) (hj : j < T) :
    ∃ item, d.record j = .ok item := by
  have hlt := h.lt
  have hlen : ¬ (d.bytes.drop (sizeofFatDirectoryItem * j)).length < sizeofFatDirectoryItem := by
    rw [List.length_drop, h.length]
    unfold sizeofFatDirectoryItem
    omega
  exact ⟨_, if_neg hlen⟩

/-- The record's own name, as it is read. -/
theorem Named.match_iff {s : ShortName} {attributes : Byte} (h : Named d T j s attributes)
    (ht : d.nameOf j = .ok t) : istrncmp t s.text osMaxPath = 0 ↔ s.Ends attributes := by
  obtain ⟨rest, hrecord⟩ := h.record
  unfold FatDirectory.nameOf at ht
  rw [hrecord] at ht
  constructor
  · intro hmatch
    have hshort : s.text.length < osMaxPath := by
      have hname := s.name_le
      have hext := s.ext_le
      unfold ShortName.text osMaxPath
      split
      · omega
      · rw [List.length_append, List.length_cons]
        omega
    exact ShortName.ends_of_length h.name h.ext ht (length_eq_of_istrncmp
      (ShortName.zero_notMem_of_fat16GetFullRelativeFilename ht)
      (ShortName.zero_notMem_text h.name h.ext) hshort hmatch)
  · intro hends
    rw [hends.fat16GetFullRelativeFilename_eq] at ht
    rw [← Except.ok.inj ht]
    exact istrncmp_self _ _

/-! ### With and without memory -/

/-- Without memory no item is made. -/
theorem fat16NewFatItem_of_full (image : Sectors) (item : FatDirectoryItem)
    (r : s.store.heap.Ready) (hfull : s.store.heap.freeBlocks = 0) :
    fat16NewFatItemForDirectoryItem image item s = .ok (0, s) := by
  have halloc : inStore (kernelZalloc sizeofFatItem) s = .ok (0, s) := by
    rcases kernelZalloc_single sizeofFatItem r (by decide) (by decide) with
      ⟨-, hnull⟩ | ⟨p, t, -, -, -, hblocks⟩
    · exact run_inStore.2 ⟨_, hnull, rfl⟩
    · omega
  unfold fat16NewFatItemForDirectoryItem
  rw [Fallible.bind_ok halloc, if_pos rfl]
  rfl

/-- With memory, an item that is made is not null. -/
theorem fat16NewFatItem_ne_zero {item : FatDirectoryItem} {p : Word} (r : s.store.heap.Ready)
    (hr : s.store.heap.Room 0) (hpos : 0 < s.store.heap.total)
    (h : fat16NewFatItemForDirectoryItem image item s = .ok (p, s')) : p ≠ 0 := by
  obtain ⟨q, t, halloc, hq, -⟩ := inStore_kernelZalloc_of_room sizeofFatItem r hr (by decide)
    (by decide) hpos
  unfold fat16NewFatItemForDirectoryItem at h
  rw [Fallible.bind_ok halloc, if_neg hq] at h
  obtain ⟨t₁, -, h⟩ := Fallible.run_seq.1 h
  obtain ⟨copy, t₂, -, h⟩ := Fallible.run_bind.1 h
  obtain ⟨t₃, -, h⟩ := Fallible.run_seq.1 h
  rw [(Fallible.run_pure.1 h).1]
  exact hq

/-- The start, with a heap of no blocks. -/
def fullFs : FsState := { bootFs with store := ⟨{ kernelHeapInit with total := 0 }, fun _ => 0⟩ }

theorem ready_fullFs : fullFs.store.heap.Ready :=
  ⟨⟨placed_kernelHeapInit.pos, by decide⟩, by decide, by decide⟩

/-! ### When it does that -/

/-- The only member of a list in order. -/
theorem eq_singleton_of_mem_iff (hsorted : l.Pairwise (· < ·)) (h : ∀ k, k ∈ l ↔ k = j) :
    l = [j] := by
  cases l with
  | nil => exact absurd ((h j).2 rfl) List.not_mem_nil
  | cons a rest =>
    obtain rfl : a = j := (h a).1 List.mem_cons_self
    cases rest with
    | nil => rfl
    | cons b rest =>
      have hlt := (List.pairwise_cons.1 hsorted).1 b List.mem_cons_self
      have hb := (h b).1 (List.mem_cons_of_mem _ List.mem_cons_self)
      omega

/-- A record that matches a record's own name is that record. -/
theorem Named.eq_of_match {sn : ShortName} {attributes : Byte} (h : Named d T j sn attributes)
    (hi : i < T) (hlive : d.Live i) (ht : d.nameOf i = .ok t)
    (hmatch : istrncmp t sn.text osMaxPath = 0) : i = j := by
  by_contra hne
  exact h.unique i hi hne hlive t ht hmatch

/-- Where the search is right, a name is found. -/
theorem RootTable.found (h : RootTable d entries T) (hread : NamesRead d)
    (hlive : ∀ i < d.total.toNat, d.Live i) {sn : ShortName} {attributes : Byte}
    (hnamed : Named d T j sn attributes) (hends : sn.Ends attributes) :
    ∃ item, d.record j = .ok item ∧
      fat16FindItemInDirectory image d sn.text = fat16NewFatItemForDirectoryItem image item := by
  obtain ⟨item, hitem⟩ := h.exists_record hnamed.lt
  have hj := h.lt_total hlive hnamed.lt hnamed.live
  obtain ⟨t, ht⟩ := hread j hj
  rcases fat16FindItemMet_cases d sn.text d.total.toNat 0 with
    ⟨e, -, k, -, hk, herror⟩ | ⟨l, hl, hsorted, -, hmem⟩
  · obtain ⟨t, ht⟩ := hread k (by omega)
    exact absurd ht (herror t)
  have hsingle : l = [j] := by
    refine eq_singleton_of_mem_iff hsorted fun k => ?_
    rw [hmem k, Nat.zero_add]
    constructor
    · rintro ⟨-, hk, t, ht, hmatch⟩
      exact hnamed.eq_of_match (hk.trans_le h.total_le) (hlive k hk) ht hmatch
    · rintro rfl
      exact ⟨Nat.zero_le k, hj, t, ht, (hnamed.match_iff ht).2 hends⟩
  refine ⟨item, hitem, ?_⟩
  unfold fat16FindItemInDirectory
  rw [fat16FindItemLoop_eq_makeItems hl, hsingle, makeItems, List.foldlM_cons,
    readDisk_bind_ok hitem]
  exact bind_pure _

/-- Where it is not, there is a state that tells the search and the making
of the item apart. -/
theorem FindsLive.ends (h : FindsLive image d T) (htable : RootTable d entries T)
    (hread : NamesRead d) {sn : ShortName} {attributes : Byte}
    (hnamed : Named d T j sn attributes) : sn.Ends attributes := by
  by_contra hends
  obtain ⟨item, -, hsearch⟩ := h.found j sn attributes hnamed
  rcases fat16FindItemMet_cases d sn.text d.total.toNat 0 with
    ⟨e, -, k, -, hk, herror⟩ | ⟨l, hl, -, -, hmem⟩
  · obtain ⟨t, ht⟩ := hread k (by omega)
    exact absurd ht (herror t)
  -- no record matches, so that null is returned also where there is memory
  have hnone : l = [] := by
    refine List.eq_nil_iff_forall_not_mem.2 fun k hk => ?_
    obtain ⟨-, hlt, t, ht, hmatch⟩ := (hmem k).1 hk
    rw [Nat.zero_add] at hlt
    obtain rfl := hnamed.eq_of_match (hlt.trans_le htable.total_le)
      (h.deleted _ l hl k hk) ht hmatch
    exact hends ((hnamed.match_iff ht).1 hmatch)
  have hnull : fat16NewFatItemForDirectoryItem image item bootFs = .ok (0, bootFs) := by
    rw [← hsearch, fat16FindItemInDirectory, fat16FindItemLoop_eq_makeItems hl, hnone]
    rfl
  exact fat16NewFatItem_ne_zero ready_kernelHeapInit room_kernelHeapInit (by decide) hnull rfl

/-- **Which root directories are searched right.** -/
theorem RootTable.findsLive_iff_searchedRight (h : RootTable d entries T) :
    FindsLive image d T ↔ SearchedRight d T := by
  constructor
  · intro finds
    by_cases hread : NamesRead d
    · refine Or.inl ⟨hread, fun i hi => ?_, fun j sn attributes hnamed => finds.ends h hread hnamed⟩
      -- a record that is looked at is found under its own name
      obtain ⟨t, ht⟩ := hread i hi
      rcases fat16FindItemMet_cases d t d.total.toNat 0 with
        ⟨e, -, k, -, hk, herror⟩ | ⟨l, hl, -, -, hmem⟩
      · obtain ⟨t, ht⟩ := hread k (by omega)
        exact absurd ht (herror t)
      · exact finds.deleted t l hl i
          ((hmem i).2 ⟨Nat.zero_le i, by omega, t, ht, istrncmp_self t _⟩)
    · refine Or.inr ⟨hread, fun j sn attributes hnamed => ?_⟩
      obtain ⟨item, -, hsearch⟩ := finds.found j sn attributes hnamed
      rcases fat16FindItemMet_cases d sn.text d.total.toNat 0 with
        ⟨e, herror, -⟩ | ⟨l, -, -, hall, -⟩
      · have hnull := fat16NewFatItem_of_full image item ready_fullFs
          (Finset.card_eq_zero.2 rfl)
        rw [← hsearch] at hnull
        exact fat16FindItemLoop_of_error herror hnull
      · exact hread fun i hi => hall i (Nat.zero_le i) (by omega)
  · rintro (⟨hread, hlive, hends⟩ | ⟨hread, hnone⟩)
    · refine ⟨fun j sn attributes hnamed => h.found hread hlive hnamed (hends j sn attributes hnamed),
        fun name l hl i hi => ?_⟩
      rcases fat16FindItemMet_cases d name d.total.toNat 0 with
        ⟨e, herror, -⟩ | ⟨l', hl', -, -, hmem⟩
      · rw [hl] at herror
        cases herror
      · rw [hl] at hl'
        cases hl'
        exact hlive i (by have := ((hmem i).1 hi).2.1; omega)
    · refine ⟨fun j sn attributes hnamed => absurd hnamed (hnone j sn attributes),
        fun name l hl => ?_⟩
      rcases fat16FindItemMet_cases d name d.total.toNat 0 with
        ⟨e, herror, -⟩ | ⟨l', -, -, hall, -⟩
      · rw [hl] at herror
        cases herror
      · exact absurd (fun i hi => hall i (Nat.zero_le i) (by omega)) hread

/-- **Which root directories are searched right**, of those that
`fat16_get_root_directory` reads and that end within their records. -/
theorem findsLive_iff {header : FatHeader} {old : FatDirectory}
    (h : fat16GetRootDirectory image header old s = .ok ((0, d), s'))
    (hT : T < header.rootDirEntries.toNat) (hend : d.firstByte T = 0x00)
    (hbefore : ∀ i < T, d.firstByte i ≠ 0x00) : FindsLive image d T ↔ SearchedRight d T :=
  (rootTable_of_run h hT hend hbefore).findsLive_iff_searchedRight

/-! ### Two small root directories -/

/-- The root directory of a small volume is read. -/
theorem exists_fat16GetRootDirectory_smallVolume {root : ℕ → Byte} (hn : n < 16)
    (hend : root (32 * n) = 0) (hbefore : ∀ j < n, root (32 * j) ≠ 0) :
    ∃ d s', fat16GetRootDirectory (smallVolume 1 16 root) (volumeHeader (smallVolume 1 16 root))
      clearedFatPrivate.rootDirectory bootFs = .ok ((0, d), s') ∧
        d.bytes = bytesAt (smallVolume 1 16 root) 1024 512 ∧
        ∀ i < 16, d.firstByte i = root (32 * i) := by
  obtain ⟨total, htotal⟩ := @fat16GetTotalItemsForDirectory_of_ends
    (smallVolume 1 16 root) n 2 (by decide) (show (1024 : ℤ) + 32 * n < 2 ^ 31 by omega)
    (by rw [recordByte_smallVolume hn, hend])
    (fun j hj => by rw [recordByte_smallVolume (hj.trans hn)]; exact hbefore j hj)
  obtain ⟨d, t, hrun⟩ := @fat16GetRootDirectory_of_room (smallVolume 1 16 root)
    (volumeHeader (smallVolume 1 16 root)) bootFs 0 clearedFatPrivate.rootDirectory total
    (by rw [volumeHeader_smallVolume]; decide) (by rw [volumeHeader_smallVolume]; decide)
    (by rw [rootDirSectorPos_smallVolume]; exact htotal)
    ready_kernelHeapInit room_kernelHeapInit (by decide)
  refine ⟨d, _, hrun, ?_⟩
  rcases fat16GetRootDirectory_cases hrun with ⟨hne, -⟩ | ⟨-, dir, total', -, -, hd⟩
  · exact absurd rfl hne
  have hentries : (volumeHeader (smallVolume 1 16 root)).rootDirEntries.toNat = 16 := by
    rw [volumeHeader_smallVolume]
    rfl
  refine ⟨?_, fun i hi => ?_⟩
  · have hsector : (volumeHeader (smallVolume 1 16 root)).rootSector = 2 := by
      rw [volumeHeader_smallVolume]
      rfl
    have hstart : int32 ((2 : ℕ) * sectorSize) = 1024 := by decide
    have hsize : 16 * sizeofFatDirectoryItem = 512 := by decide
    rw [hd, hentries, hsector, hstart, hsize, fat16RootDirectory]
  · rw [hd, firstByte_fat16RootDirectory (by omega), rootDirSectorPos_smallVolume,
      recordByte_smallVolume hi]

/-- A name of one letter. -/
def letterName (c : Byte) (hc : c ≠ 0x20) : ShortName where
  name := [c]
  ext := []
  name_ne_nil := List.cons_ne_nil c []
  name_le := by simp
  ext_le := Nat.zero_le 3
  name_blank := by simpa using hc.symm
  ext_blank := List.not_mem_nil

/-- Record `j` holds the letter `c`, blanks, and no attributes. -/
def FatDirectory.Letter (d : FatDirectory) (j : ℕ) (c : Byte) : Prop :=
  ∃ rest, d.bytes.drop (sizeofFatDirectoryItem * j) =
    c :: (List.replicate 10 0x20 ++ 0x00 :: rest)

/-- It is read as the letter. -/
theorem FatDirectory.Letter.nameOf {c : Byte} (h : d.Letter j c) (hc : isNameChar c = true) :
    d.nameOf j = .ok [c] := by
  obtain ⟨rest, hrest⟩ := h
  obtain ⟨h0, hblank⟩ := isNameChar_iff.1 hc
  have hends : (letterName c hblank).Ends 0x00 :=
    ⟨by simpa [letterName] using h0.symm, List.not_mem_nil, fun _ => rfl, fun _ => Or.inl rfl⟩
  unfold FatDirectory.nameOf
  rw [hrest]
  exact hends.fat16GetFullRelativeFilename_eq rest

/-- Whatever name its fields hold ends as it should: the letter is all of
it. -/
theorem FatDirectory.Letter.ends {c attributes : Byte} {sn : ShortName} (h : d.Letter j c)
    (hn : Named d T j sn attributes) : sn.Ends attributes := by
  obtain ⟨rest, hrest⟩ := h
  obtain ⟨rest', hfield⟩ := hn.record
  rw [hrest] at hfield
  refine ⟨hn.name, hn.ext, fun hfull => ?_, fun _ => Or.inl ?_⟩
  · -- the byte behind the letter is a blank
    have hsecond : sn.name[1]? = some 0x20 := by
      have hget : some (0x20 : Byte) = (sn.field ++ attributes :: rest')[1]? :=
        congrArg (fun l : List Byte => l[1]?) hfield
      unfold ShortName.field at hget
      simp only [List.append_assoc] at hget
      rw [List.getElem?_append_left (show 1 < sn.name.length by omega)] at hget
      exact hget.symm
    exact absurd (List.mem_of_getElem? hsecond) sn.name_blank
  · have hget : some (0x00 : Byte) = (sn.field ++ attributes :: rest')[11]? :=
      congrArg (fun l : List Byte => l[11]?) hfield
    rw [List.getElem?_append_right (by rw [sn.length_field]), sn.length_field] at hget
    exact (Option.some.inj hget).symm

/-- **Two letters before a deleted record**: each is found, and the deleted
one is not. -/
theorem findsLive_letters : ∃ d : FatDirectory,
    Named d 3 0 (letterName 0x41 (by decide)) 0x00 ∧
    Named d 3 1 (letterName 0x42 (by decide)) 0x00 ∧ ¬ d.Live 2 ∧
      FindsLive (smallVolume 1 16 lettersRoot) d 3 := by
  obtain ⟨hend, hbefore⟩ := lettersRoot_ends
  obtain ⟨d, s', hrun, hbytes, hbyte⟩ := @exists_fat16GetRootDirectory_smallVolume 3 lettersRoot
    (by decide) hend hbefore
  have hT : 3 < (volumeHeader (smallVolume 1 16 lettersRoot)).rootDirEntries.toNat := by
    rw [volumeHeader_smallVolume]
    decide
  have hend' : d.firstByte 3 = 0x00 := (hbyte 3 (by decide)).trans hend
  have hbefore' : ∀ i < 3, d.firstByte i ≠ 0x00 := fun i hi =>
    (hbyte i (by omega)).trans_ne (hbefore i hi)
  -- the records
  have hzero : d.Letter 0 0x41 := by
    unfold FatDirectory.Letter
    rw [hbytes, show (512 : ℕ) = 12 + 500 from rfl, bytesAt_add]
    exact ⟨_, rfl⟩
  have hone : d.Letter 1 0x42 := by
    unfold FatDirectory.Letter
    rw [hbytes, show (512 : ℕ) = 44 + 468 from rfl, bytesAt_add]
    exact ⟨_, rfl⟩
  have hlive0 : d.Live 0 := (hbyte 0 (by decide)).trans_ne (by decide)
  have hlive1 : d.Live 1 := (hbyte 1 (by decide)).trans_ne (by decide)
  have hdeleted : ¬ d.Live 2 := not_not.2 (hbyte 2 (by decide))
  have hname0 : d.nameOf 0 = .ok [0x41] := hzero.nameOf (by decide)
  have hname1 : d.nameOf 1 = .ok [0x42] := hone.nameOf (by decide)
  have htable := rootTable_of_run hrun hT hend' hbefore'
  have htotal : d.total.toNat = 2 := by
    rw [htable.total, List.range_succ, List.range_succ, List.range_one, List.filter_append,
      List.filter_append, List.filter_cons_of_pos (by simpa using hlive0), List.filter_nil,
      List.filter_cons_of_pos (by simpa using hlive1), List.filter_nil,
      List.filter_cons_of_neg (by simpa using hdeleted), List.filter_nil]
    rfl
  refine ⟨d, ?_, ?_, hdeleted, (findsLive_iff hrun hT hend' hbefore').2 (Or.inl ⟨?_, ?_, ?_⟩)⟩
  · obtain ⟨rest, hrest⟩ := hzero
    refine ⟨by decide, hlive0, ⟨rest, hrest⟩, by decide, List.not_mem_nil, ?_⟩
    intro i hi hne hlive t ht
    interval_cases i
    · exact absurd rfl hne
    · rw [hname1] at ht
      cases ht
      decide
    · exact absurd hlive hdeleted
  · obtain ⟨rest, hrest⟩ := hone
    refine ⟨by decide, hlive1, ⟨rest, hrest⟩, by decide, List.not_mem_nil, ?_⟩
    intro i hi hne hlive t ht
    interval_cases i
    · rw [hname0] at ht
      cases ht
      decide
    · exact absurd rfl hne
    · exact absurd hlive hdeleted
  · intro i hi
    rw [htotal] at hi
    interval_cases i
    · exact ⟨_, hname0⟩
    · exact ⟨_, hname1⟩
  · intro i hi
    rw [htotal] at hi
    interval_cases i
    · exact hlive0
    · exact hlive1
  · intro j sn attributes hnamed
    have hlt := hnamed.lt
    interval_cases j
    · exact hzero.ends hnamed
    · exact hone.ends hnamed
    · exact absurd hnamed.live hdeleted

/-- **A live record behind a deleted one.** There is one item, and it is
the deleted record that is looked at. -/
theorem not_findsLive : ¬ ∀ (image : Sectors) (header : FatHeader) (old d : FatDirectory)
    (s s' : FsState) (T : ℕ), fat16GetRootDirectory image header old s = .ok ((0, d), s') →
      T < header.rootDirEntries.toNat → d.firstByte T = 0x00 → (∀ i < T, d.firstByte i ≠ 0x00) →
        FindsLive image d T := by
  intro h
  obtain ⟨d, s', hrun, hbytes, hbyte⟩ := @exists_fat16GetRootDirectory_smallVolume 2
    (fun i => if i = 0 then 0xE5 else if i = 32 then 0x41 else 0) (by decide) rfl (by decide)
  have hT : 2 < (volumeHeader (smallVolume 1 16 fun i =>
      if i = 0 then 0xE5 else if i = 32 then 0x41 else 0)).rootDirEntries.toNat := by
    rw [volumeHeader_smallVolume]
    decide
  have hend : d.firstByte 2 = 0x00 := hbyte 2 (by decide)
  have hbefore : ∀ i < 2, d.firstByte i ≠ 0x00 := by
    intro i hi
    rw [hbyte i (by omega)]
    interval_cases i
    · decide
    · decide
  have htable := rootTable_of_run hrun hT hend hbefore
  have hdeleted : ¬ d.Live 0 := not_not.2 (hbyte 0 (by decide))
  have htotal : d.total.toNat = 1 := by
    have hlive : d.Live 1 := by
      unfold FatDirectory.Live
      rw [hbyte 1 (by decide)]
      decide
    rw [htable.total, List.range_succ, List.range_one, List.filter_append,
      List.filter_cons_of_neg (by simpa using hdeleted), List.filter_nil,
      List.filter_cons_of_pos (by simpa using hlive), List.filter_nil]
    rfl
  rcases htable.findsLive_iff_searchedRight.1 (h _ _ _ _ _ _ _ hrun hT hend hbefore) with
    ⟨-, hall, -⟩ | ⟨hread, -⟩
  · exact hdeleted (hall 0 (by omega))
  · -- the name of the deleted record can be read
    refine hread fun i hi => ?_
    obtain rfl : i = 0 := by omega
    refine ⟨[0xE5], ?_⟩
    unfold FatDirectory.nameOf
    rw [hbytes, show (512 : ℕ) = 9 + 503 from rfl, bytesAt_add]
    rfl

end OwnKernel
