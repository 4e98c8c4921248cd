import OwnKernel.Fat16.Find
import OwnKernel.Fat16.Load
import OwnKernel.File.Open

/-!
# Looking a path up in a tree

A directory of the volume holds the records of its entries, and the
record of a subdirectory leads to another directory (`SubdirectoryAt`):
`PathNames` follows a path from one to the next.
`fat16_get_directory_entry` would do the same, but each item it is given
has type FILE, so that it gives up at the second part of a path.
`fat16GetDirectoryEntry_resolves_iff` says which paths are resolved.
-/

namespace OwnKernel

variable {image : Sectors} {fat : FatPrivate} {d : FatDirectory} {item : FatDirectoryItem}
variable {s s' : FsState} {p path fItem : Word} {c name t u v : Cstring} {names : List Cstring}
variable {i j n : ℕ} {sn : ShortName}

/-! ## What a path names -/

/-- **Record `i` of the directory** is `item`, and bears a name of fewer
than eight characters. -/
structure FatDirectory.Bears (d : FatDirectory) (i : ℕ) (sn : ShortName)
    (item : FatDirectoryItem) : Prop where
  lt : (i : ℤ) < d.total
  record : d.record i = .ok item
  field : item.toList.take 11 = sn.field
  short : sn.text.length < 8
  name : 0x00 ∉ sn.name
  ext : 0x00 ∉ sn.ext

/-- A directory without deleted entries, of entries with different
names. -/
structure FatDirectory.Regular (d : FatDirectory) : Prop where
  live : ∀ i : ℕ, (i : ℤ) < d.total → d.Live i
  bears : ∀ i : ℕ, (i : ℤ) < d.total → ∃ sn item, d.Bears i sn item
  unique : ∀ i j sn sn' item item', d.Bears i sn item → d.Bears j sn' item' →
    istrncmp sn.text sn'.text osMaxPath = 0 → i = j

/-- **The directory that the record of a subdirectory leads to**: the
records in its cluster, up to the one that begins with 0x00 or to the
cluster's end. -/
structure SubdirectoryAt (image : Sectors) (header : FatHeader) (item : FatDirectoryItem)
    (d : FatDirectory) : Prop where
  nonneg : 0 ≤ d.total
  fits : sizeofFatDirectoryItem * d.total.toNat ≤ sizeOfClusterBytes header
  bytes : d.bytes = (clusterBytes image header item.low16BitsFirstCluster.toNat).take
    (sizeofFatDirectoryItem * d.total.toNat)
  before : ∀ i : ℕ, (i : ℤ) < d.total → d.firstByte i ≠ 0x00
  ends : sizeofFatDirectoryItem * d.total.toNat < sizeOfClusterBytes header →
    (clusterBytes image header item.low16BitsFirstCluster.toNat).getD
      (sizeofFatDirectoryItem * d.total.toNat) 0 = 0x00

/-- The directories of a volume: its root directory, and those that the
records of subdirectories lead to. -/
inductive DirectoryOf (image : Sectors) (fat : FatPrivate) : FatDirectory → Prop
  | root : DirectoryOf image fat fat.rootDirectory
  | sub {d d' : FatDirectory} {i : ℕ} {sn : ShortName} {item : FatDirectoryItem}
      (hd : DirectoryOf image fat d) (h : d.Bears i sn item)
      (hsub : item.attributes &&& fatFileSubdirectory ≠ 0)
      (h' : SubdirectoryAt image fat.header item d') : DirectoryOf image fat d'

/-- **A tree of directories** of a cluster each. -/
structure DirectoryTree (image : Sectors) (fat : FatPrivate) : Prop where
  regular : ∀ d, DirectoryOf image fat d → d.Regular
  fits : ∀ d i sn item, DirectoryOf image fat d → d.Bears i sn item →
    item.attributes &&& fatFileSubdirectory ≠ 0 → ∃ d', SubdirectoryAt image fat.header item d'

/-- **The entry that a path names**, component by component, whatever the
case of its letters. -/
inductive PathNames (image : Sectors) (header : FatHeader) :
    FatDirectory → List Cstring → FatDirectoryItem → Prop
  | entry {d : FatDirectory} {i : ℕ} {sn : ShortName} {item : FatDirectoryItem} {c : Cstring}
      (h : d.Bears i sn item) (hc : istrncmp sn.text c osMaxPath = 0) :
      PathNames image header d [c] item
  | under {d d' : FatDirectory} {i : ℕ} {sn : ShortName} {item item' : FatDirectoryItem}
      {c : Cstring} {names : List Cstring} (h : d.Bears i sn item)
      (hc : istrncmp sn.text c osMaxPath = 0) (hsub : item.attributes &&& fatFileSubdirectory ≠ 0)
      (hd : SubdirectoryAt image header item d') (rest : PathNames image header d' names item') :
      PathNames image header d (c :: names) item'

/-- **The item at `p` is that of an entry**: of type DIRECTORY exactly for
a subdirectory, whose contents it then holds, and otherwise with the
entry's record. -/
def ItemHolds (image : Sectors) (header : FatHeader) (s : FsState) (p : Word)
    (item : FatDirectoryItem) : Prop :=
  ∃ x, s.objects p = some (.fatItem x) ∧
    (x.type = fatItemTypeDirectory ↔ item.attributes &&& fatFileSubdirectory ≠ 0) ∧
    if item.attributes &&& fatFileSubdirectory ≠ 0 then
      ∃ d, s.objects x.ptr = some (.fatDirectory d) ∧ SubdirectoryAt image header item d
    else s.objects x.ptr = some (.fatDirectoryItem item)

/-- **What `fat16_get_directory_entry` is for**: the item of the entry that
the path names, and null when it names none. -/
structure EntryResolved (image : Sectors) (fat : FatPrivate) (s : FsState) (path : Word)
    (names : List Cstring) : Prop where
  named : ∀ item, PathNames image fat.header fat.rootDirectory names item →
    ∃ p s', fat16GetDirectoryEntry image path s = .ok (p, s') ∧ p ≠ 0 ∧
      ItemHolds image fat.header s' p item
  unnamed : ∀ p s', fat16GetDirectoryEntry image path s = .ok (p, s') → p ≠ 0 →
    ∃ item, PathNames image fat.header fat.rootDirectory names item

/-- Every name in the directory ends where it should. -/
def FatDirectory.NamesEnd (d : FatDirectory) : Prop :=
  ∀ i sn item, d.Bears i sn item → sn.Ends item.attributes

/-! ## Records -/

/-- The bytes of a record. -/
theorem take_drop_of_record (h : d.record i = .ok item) :
    (d.bytes.drop (sizeofFatDirectoryItem * i)).take sizeofFatDirectoryItem = item.toList := by
  unfold FatDirectory.record at h
  simp only at h
  split at h
  · cases h
  rename_i hlen
  rw [← Except.ok.inj h]
  refine List.ext_getElem ?_ fun k hk hk' => ?_
  · rw [List.length_take, Vector.length_toList]
    omega
  · rw [List.length_take] at hk
    rw [List.getElem_take, Vector.getElem_toList, Vector.getElem_ofFn,
      List.getD_eq_getElem _ _ (by omega)]

/-- A record begins with its name, and its attributes are behind it. -/
theorem drop_of_record (h : d.record i = .ok item) (hfield : item.toList.take 11 = sn.field) :
    ∃ rest, d.bytes.drop (sizeofFatDirectoryItem * i) = sn.field ++ item.attributes :: rest := by
  have htake := take_drop_of_record h
  have hlen : 11 < item.toList.length := by
    rw [Vector.length_toList]
    decide
  have hattributes : item.toList[11] = item.attributes := Vector.getElem_toList ..
  refine ⟨item.toList.drop 12 ++ (d.bytes.drop (sizeofFatDirectoryItem * i)).drop
    sizeofFatDirectoryItem, ?_⟩
  rw [← List.cons_append, ← List.append_assoc, ← hattributes, ← hfield,
    ← List.drop_eq_getElem_cons hlen, List.take_append_drop, ← htake, List.take_append_drop]

/-! ## The items made -/

/-- **An item has type FILE**, and a copy of the record, where there was
memory for one. -/
theorem fat16NewFatItem_object (h : fat16NewFatItemForDirectoryItem image item s = .ok (p, s'))
    (hp : p ≠ 0) : ∃ q, s'.objects p = some (.fatItem ⟨q, fatItemTypeFile⟩) ∧
      (q ≠ 0 → q ≠ p → s'.objects q = some (.fatDirectoryItem item)) := by
  obtain ⟨fItem, t₁, hz, h₁⟩ := Fallible.run_bind.1 h
  split at h₁
  · exact absurd (Fallible.run_pure.1 h₁).1 hp
  obtain ⟨t₂, hdir, h₂⟩ := Fallible.run_seq.1 h₁
  obtain ⟨copy, t₃, hclone, h₃⟩ := Fallible.run_bind.1 h₂
  obtain ⟨t₄, hw, h₄⟩ := Fallible.run_seq.1 h₃
  obtain ⟨-, rfl⟩ := run_writeObject.1 hw
  obtain ⟨rfl, rfl⟩ := Fallible.run_pure.1 h₄
  refine ⟨copy, setObject_objects_self, fun hc hne => ?_⟩
  obtain ⟨st, -, rfl⟩ := run_fat16CloneDirectoryItem.1 hclone
  rw [setObject_objects_of_ne hne, if_neg hc, setObject_objects_self]

/-- **The item a search returns** is the one it was given, or that of a
record it looked at. -/
theorem fat16FindItemLoop_made (o : FsOwned s)
    (h : fat16FindItemLoop image d name n i fItem s = .ok (p, s')) :
    (p = fItem ∧ s' = s) ∨ ∃ k t item s₁, i ≤ k ∧ k < i + n ∧ d.nameOf k = .ok t ∧
      istrncmp t name osMaxPath = 0 ∧ d.record k = .ok item ∧ FsOwned s₁ ∧
        fat16NewFatItemForDirectoryItem image item s₁ = .ok (p, s') := by
  induction n generalizing i fItem s with
  | zero =>
    obtain ⟨rfl, rfl⟩ := Fallible.run_pure.1 h
    exact Or.inl ⟨rfl, rfl⟩
  | succ n ih =>
    obtain ⟨t, t₁, hname, h₁⟩ := Fallible.run_bind.1 h
    obtain ⟨ht, rfl⟩ := run_readDisk.1 hname
    split at h₁
    · rename_i hmatch
      obtain ⟨item, t₂, hitem, h₂⟩ := Fallible.run_bind.1 h₁
      obtain ⟨x, t₃, hnew, h₃⟩ := Fallible.run_bind.1 h₂
      obtain ⟨hrecord, rfl⟩ := run_readDisk.1 hitem
      rcases ih (fat16NewFatItemForDirectoryItem_step o hnew).owned h₃ with
        ⟨rfl, rfl⟩ | ⟨k, u, item', s₁, hlo, hhi, hrest⟩
      · exact Or.inr ⟨i, t, item, _, le_rfl, by omega, ht, hmatch, hrecord, o, hnew⟩
      · exact Or.inr ⟨k, u, item', s₁, by omega, by omega, hrest⟩
    · rcases ih o h₁ with heq | ⟨k, u, item', s₁, hlo, hhi, hrest⟩
      · exact Or.inl heq
      · exact Or.inr ⟨k, u, item', s₁, by omega, by omega, hrest⟩

/-- **An item that is returned** is that of a record of the root directory,
and the path has one part. -/
theorem fat16GetDirectoryEntry_made (o : FsOwned s) (hfat : s.disk.fsPrivate = some fat)
    (hparts : PartsFrom s path (c :: names))
    (h : fat16GetDirectoryEntry image path s = .ok (p, s')) (hp : p ≠ 0) :
    names = [] ∧ fat16FindItemInDirectory image fat.rootDirectory c s = .ok (p, s') ∧
      ∃ (k : ℕ) (t : Cstring) (item : FatDirectoryItem) (s₁ : FsState),
        (k : ℤ) < fat.rootDirectory.total ∧ fat.rootDirectory.nameOf k = .ok t ∧
        istrncmp t c osMaxPath = 0 ∧ fat.rootDirectory.record k = .ok item ∧ FsOwned s₁ ∧
          fat16NewFatItemForDirectoryItem image item s₁ = .ok (p, s') := by
  obtain ⟨part, hpath, hobject, rfl, hnext⟩ : ∃ part : PathPart, path ≠ 0 ∧
      s.objects path = some (.pathPart part) ∧ part.text = c ∧ PartsFrom s part.next names := by
    cases hparts with
    | @cons _ part _ h0 hpart rest => exact ⟨part, h0, hpart, rfl, rest⟩
  obtain ⟨fat', t₁, hfat', h₁⟩ := Fallible.run_bind.1 h
  obtain ⟨part', t₂, hpart, h₂⟩ := Fallible.run_bind.1 h₁
  obtain ⟨root, t₃, hroot, h₃⟩ := Fallible.run_bind.1 h₂
  obtain ⟨hsome, rfl⟩ := run_diskFsPrivate.1 hfat'
  obtain ⟨-, hobject', rfl⟩ := read_object (t := .pathPart) hpart
  obtain rfl : fat = fat' := Option.some.inj (hfat.symm.trans hsome)
  obtain rfl : part = part' := FsObject.pathPart.inj (Option.some.inj (hobject.symm.trans hobject'))
  split at h₃
  · exact absurd (Fallible.run_pure.1 h₃).1 hp
  rename_i h0
  have hmade := (fat16FindItemLoop_made o hroot).resolve_left fun heq => h0 heq.1
  rw [show osMaxPath = 107 + 1 from rfl, fat16GetDirectoryEntryLoop] at h₃
  split at h₃
  · rename_i hzero
    obtain ⟨rfl, rfl⟩ := Fallible.run_pure.1 h₃
    have hnil : names = [] := (hzero ▸ hnext).unique .nil
    obtain ⟨k, t, item, s₁, -, hhi, hrest⟩ := hmade
    exact ⟨hnil, hroot, k, t, item, s₁, by omega, hrest⟩
  · -- the type of the item is not DIRECTORY
    obtain ⟨current, t₄, hcurrent, h₄⟩ := Fallible.run_bind.1 h₃
    obtain ⟨-, hobj, rfl⟩ := read_object (t := .fatItem) hcurrent
    have htype := ((fat16FindItemLoop_step o hroot).owned.items _ _ hobj).1
    rw [if_pos (by rw [htype]; decide)] at h₄
    exact absurd (Fallible.run_pure.1 h₄).1 hp

/-! ## Which paths are resolved -/

/-- A name this short ends where it should, save for a full extension in
front of attributes that do not stop the copy. -/
theorem FatDirectory.Bears.ends (h : d.Bears i sn item)
    (hfull : sn.ext.length = 3 → item.attributes = 0x00 ∨ item.attributes = 0x20) :
    sn.Ends item.attributes := by
  refine ⟨h.name, h.ext, fun hname => ?_, hfull⟩
  have hshort := h.short
  unfold ShortName.text at hshort
  split at hshort
  · omega
  · rw [List.length_append] at hshort
    omega

/-- The record of an entry, with the name as it is read. -/
theorem FatDirectory.Bears.nameOf_eq (h : d.Bears i sn item) (hends : sn.Ends item.attributes) :
    d.nameOf i = .ok sn.text := by
  obtain ⟨rest, hdrop⟩ := drop_of_record h.record h.field
  unfold FatDirectory.nameOf
  rw [hdrop]
  exact hends.fat16GetFullRelativeFilename_eq rest

/-- **A record that is read as a name of the right length** bears it, and
the name ends where it should. -/
theorem FatDirectory.Bears.ends_of_match (h : d.Bears i sn item) (hrecord : d.record j = .ok item)
    (ht : d.nameOf j = .ok t) (hc : istrncmp sn.text c osMaxPath = 0)
    (hmatch : istrncmp t c osMaxPath = 0) : sn.Ends item.attributes := by
  obtain ⟨rest, hdrop⟩ := drop_of_record hrecord h.field
  unfold FatDirectory.nameOf at ht
  rw [hdrop] at ht
  have hshort : sn.text.length < osMaxPath := h.short.trans (by decide)
  exact ShortName.ends_of_length h.name h.ext ht (length_eq_of_istrncmp
    (ShortName.zero_notMem_of_fat16GetFullRelativeFilename ht)
    (ShortName.zero_notMem_text h.name h.ext) hshort (istrncmp_of_match hmatch hc))

/-- A path of one component names an entry of the directory itself. -/
theorem PathNames.of_single {header : FatHeader} (h : PathNames image header d [c] item) :
    ∃ i sn, d.Bears i sn item ∧ istrncmp sn.text c osMaxPath = 0 := by
  cases h with
  | entry h hc => exact ⟨_, _, h, hc⟩
  | under h hc hsub hd rest => nomatch rest

/-- **What is resolved**: an entry of the root directory that is no
subdirectory, and whose name ends where it should. -/
theorem EntryResolved.plain (e : EntryResolved image fat s path names) (o : FsOwned s)
    (hfat : s.disk.fsPrivate = some fat) (hparts : PartsFrom s path names)
    (hitem : PathNames image fat.header fat.rootDirectory names item) :
    names.length = 1 ∧ item.attributes &&& fatFileSubdirectory = 0 ∧
      ∃ i sn, fat.rootDirectory.Bears i sn item ∧ sn.Ends item.attributes := by
  obtain ⟨p, s', hrun, hp, x, hx, htype, hholds⟩ := e.named item hitem
  cases names with
  | nil => nomatch hitem
  | cons c names =>
    obtain ⟨rfl, -, k, t, item', s₁, hk, ht, hmatch, hrecord, o₁, hnew⟩ :=
      fat16GetDirectoryEntry_made o hfat hparts hrun hp
    obtain ⟨q, hq, hcopy⟩ := fat16NewFatItem_object hnew hp
    rw [hq] at hx
    cases hx
    have hfile : item.attributes &&& fatFileSubdirectory = 0 :=
      not_not.1 fun hsub => Nat.one_ne_zero (htype.2 hsub)
    rw [if_neg (not_not.2 hfile)] at hholds
    have hne : q ≠ p := by
      rintro rfl
      rw [hq] at hholds
      cases hholds
    have o' := (fat16NewFatItemForDirectoryItem_step o₁ hnew).owned
    have h0 : q ≠ 0 := (o'.owns q (by rw [hholds]; nofun)).ne_zero o'.ready
    rw [hcopy h0 hne] at hholds
    obtain rfl : item' = item := FsObject.fatDirectoryItem.inj (Option.some.inj hholds)
    obtain ⟨i, sn, hbears, hc⟩ := hitem.of_single
    exact ⟨rfl, hfile, i, sn, hbears, hbears.ends_of_match hrecord ht hc hmatch⟩

/-- **The search for an entry** makes its item. -/
theorem FatDirectory.Regular.find_eq (h : d.Regular) (hends : d.NamesEnd)
    (hb : d.Bears j sn item) (hc : istrncmp sn.text c osMaxPath = 0) :
    fat16FindItemInDirectory image d c = fat16NewFatItemForDirectoryItem image item := by
  have hread : ∀ i : ℕ, (i : ℤ) < d.total → ∃ sn item, d.Bears i sn item ∧ d.nameOf i = .ok sn.text :=
    fun i hi => (h.bears i hi).imp fun sn ⟨item, hbears⟩ =>
      ⟨item, hbears, hbears.nameOf_eq (hends _ _ _ hbears)⟩
  rcases fat16FindItemMet_cases d c d.total.toNat 0 with
    ⟨e, -, k, -, hk, herror⟩ | ⟨l, hl, hsorted, -, hmem⟩
  · obtain ⟨sn, item, -, ht⟩ := hread k (by omega)
    exact absurd ht (herror _)
  have hsingle : l = [j] := by
    refine eq_singleton_of_mem_iff hsorted fun k => ?_
    rw [hmem k, Nat.zero_add]
    constructor
    · rintro ⟨-, hk, t, ht, hmatch⟩
      obtain ⟨sn', item', hb', ht'⟩ := hread k (by omega)
      rw [ht'] at ht
      cases ht
      exact h.unique _ _ _ _ _ _ hb' hb (istrncmp_of_match hmatch hc)
    · rintro rfl
      have hlt := hb.lt
      exact ⟨Nat.zero_le k, by omega, _, hb.nameOf_eq (hends _ _ _ hb), hc⟩
  unfold fat16FindItemInDirectory
  rw [fat16FindItemLoop_eq_makeItems hl, hsingle, makeItems, List.foldlM_cons,
    readDisk_bind_ok hb.record]
  exact bind_pure _

/-- **The item of a file needs two blocks**, itself and its record. -/
theorem exists_fat16NewFatItem_iff (o : FsOwned s)
    (hfile : item.attributes &&& fatFileSubdirectory = 0) :
    (∃ p s', fat16NewFatItemForDirectoryItem image item s = .ok (p, s') ∧ p ≠ 0 ∧
      ∃ q, s'.objects p = some (.fatItem ⟨q, fatItemTypeFile⟩) ∧
        s'.objects q = some (.fatDirectoryItem item)) ↔ 2 ≤ s.store.heap.freeBlocks := by
  constructor
  · rintro ⟨p, s', hrun, hp, q, hobject, hq⟩
    have o' := (fat16NewFatItemForDirectoryItem_step o hrun).owned
    have h0 : q ≠ 0 := (o'.owns q (by rw [hq]; nofun)).ne_zero o'.ready
    obtain ⟨fItem, t₁, hz, h₁⟩ := Fallible.run_bind.1 hrun
    obtain ⟨st, hz', rfl⟩ := run_inStore.1 hz
    by_cases hfItem : fItem = 0
    · rw [if_pos hfItem] at h₁
      exact absurd (Fallible.run_pure.1 h₁).1 hp
    have hfirst := kernelZalloc_freeBlocks o.ready (by decide) (by decide) hz' hfItem
    rw [if_neg hfItem, if_pos hfile] at h₁
    obtain ⟨t₂, hpure, h₂⟩ := Fallible.run_seq.1 h₁
    obtain ⟨-, rfl⟩ := Fallible.run_pure.1 hpure
    obtain ⟨copy, t₃, hclone, h₃⟩ := Fallible.run_bind.1 h₂
    obtain ⟨t₄, hw, h₄⟩ := Fallible.run_seq.1 h₃
    obtain ⟨-, rfl⟩ := run_writeObject.1 hw
    obtain ⟨rfl, rfl⟩ := Fallible.run_pure.1 h₄
    rw [setObject_objects_self] at hobject
    cases hobject
    obtain ⟨st', hrecord, -⟩ := run_fat16CloneDirectoryItem.1 hclone
    have hsecond := kernelZalloc_freeBlocks ((kernelZalloc_extends o.ready hz').ready o.ready)
      (by decide) (by decide) hrecord h0
    have hone : blocksFor sizeofFatItem.toNat = 1 := by decide
    have hone' : blocksFor (BitVec.ofNat 32 sizeofFatDirectoryItem).toNat = 1 := by decide
    change st.heap.freeBlocks + _ = _ at hfirst
    omega
  · intro hfree
    obtain ⟨p, st, hz, hp, hplace, hcount⟩ := (kernelZalloc_single sizeofFatItem o.ready (by decide)
      (by decide)).resolve_left fun h => by omega
    have r := hplace.ready o.ready
    obtain ⟨q, st', hz', hq, -, -⟩ := (kernelZalloc_single (BitVec.ofNat 32 sizeofFatDirectoryItem) r
      (by decide) (by decide)).resolve_left fun h => by omega
    have hne : q ≠ p := by
      -- the item's block is taken when the record's is
      obtain ⟨-, hown, -⟩ := kernelZalloc_spec o.ready (by decide) (by decide) hz hp
      obtain ⟨-, -, hfresh, -⟩ := kernelZalloc_spec r (by decide) (by decide) hz' hq
      rintro rfl
      exact hfresh _ hown
    refine ⟨p, _, fat16NewFatItem_of_zalloc hfile hz hp hz' hq, hp, q, setObject_objects_self, ?_⟩
    rw [setObject_objects_of_ne hne, setObject_objects_self]

/-- **Which paths `fat16_get_directory_entry` resolves.** A path that names
an entry is resolved only when it has one component, and names no
subdirectory and an entry whose name ends where it should. When all names
of the root directory do, that and two free blocks are enough, and a path
that names no entry is given no item. -/
theorem fat16GetDirectoryEntry_resolves_iff (tree : DirectoryTree image fat) (o : FsOwned s)
    (hfat : s.disk.fsPrivate = some fat) (hparts : PartsFrom s path names) (hne : names ≠ []) :
    (EntryResolved image fat s path names →
      ∀ item, PathNames image fat.header fat.rootDirectory names item →
        names.length = 1 ∧ item.attributes &&& fatFileSubdirectory = 0 ∧
          ∃ i sn, fat.rootDirectory.Bears i sn item ∧ sn.Ends item.attributes) ∧
    (fat.rootDirectory.NamesEnd → (EntryResolved image fat s path names ↔
      ∀ item, PathNames image fat.header fat.rootDirectory names item →
        names.length = 1 ∧ item.attributes &&& fatFileSubdirectory = 0 ∧
          2 ≤ s.store.heap.freeBlocks)) := by
  have hregular := tree.regular _ .root
  obtain ⟨c, names, rfl⟩ := List.exists_cons_of_ne_nil hne
  refine ⟨fun e item hitem => e.plain o hfat hparts hitem, fun hends => ⟨fun e item hitem => ?_,
    fun h => ⟨fun item hitem => ?_, fun p s' hrun hp => ?_⟩⟩⟩
  · obtain ⟨hone, hfile, -⟩ := e.plain o hfat hparts hitem
    obtain rfl : names = [] := List.eq_nil_of_length_eq_zero (Nat.succ.inj hone)
    obtain ⟨i, sn, hbears, hc⟩ := hitem.of_single
    obtain ⟨p, s', hrun, hp, x, hx, -, hholds⟩ := e.named item hitem
    rw [if_neg (not_not.2 hfile)] at hholds
    obtain ⟨-, hfind, k, t, item', s₁, -, -, -, -, -, hnew⟩ :=
      fat16GetDirectoryEntry_made o hfat hparts hrun hp
    obtain ⟨q, hq, -⟩ := fat16NewFatItem_object hnew hp
    rw [hq] at hx
    cases hx
    rw [hregular.find_eq hends hbears hc] at hfind
    exact ⟨hone, hfile, (exists_fat16NewFatItem_iff o hfile).1 ⟨p, s', hfind, hp, q, hq, hholds⟩⟩
  · obtain ⟨hone, hfile, hfree⟩ := h item hitem
    obtain rfl : names = [] := List.eq_nil_of_length_eq_zero (Nat.succ.inj hone)
    obtain ⟨i, sn, hbears, hc⟩ := hitem.of_single
    obtain ⟨p, s', hnew, hp, q, hq, hcopy⟩ :=
      (@exists_fat16NewFatItem_iff image item s o hfile).2 hfree
    obtain ⟨part, hpath, hpart, rfl, hnext⟩ := hparts.single
    refine ⟨p, s', fat16GetDirectoryEntry_of_find hfat hpart hpath hnext ?_ hp, hp, _, hq, ?_, ?_⟩
    · rw [hregular.find_eq hends hbears hc]
      exact hnew
    · exact iff_of_false Nat.one_ne_zero (not_not.2 hfile)
    · rw [if_neg (not_not.2 hfile)]
      exact hcopy
  · obtain ⟨rfl, -, k, t, item', s₁, hk, ht, hmatch, -⟩ :=
      fat16GetDirectoryEntry_made o hfat hparts hrun hp
    obtain ⟨sn, item, hbears⟩ := hregular.bears k hk
    rw [hbears.nameOf_eq (hends _ _ _ hbears)] at ht
    cases ht
    exact ⟨item, .entry hbears hmatch⟩

/-! ### A root directory of one entry -/

/-- The record of an entry `D` with the first cluster 2. -/
def entryItem (attributes : Byte) : FatDirectoryItem :=
  ⟨#[0x44, 0x20, 0x20, 0x20, 0x20, 0x20, 0x20, 0x20, 0x20, 0x20, 0x20, attributes, 0, 0, 0, 0, 0, 0, 0,
    0, 0, 0, 0, 0, 0, 0, 2, 0, 0, 0, 0, 0], rfl⟩

/-- Its name. -/
def entryName : ShortName := letterName 0x44 (by decide)

/-- The driver's data of a volume with that entry in its root directory. -/
def oneEntryFat (attributes : Byte) : FatPrivate :=
  { twoClusterFat with rootDirectory := { twoClusterFat.rootDirectory with
    bytes := (entryItem attributes).toList, total := 1 } }

variable {attributes : Byte}

/-- The records of a buffer that holds one. -/
theorem record_of_bytes (h : d.bytes = item.toList) : d.record 0 = .ok item := by
  have hlen : item.toList.length = sizeofFatDirectoryItem := Vector.length_toList
  unfold FatDirectory.record
  rw [h]
  simp only [Nat.mul_zero, List.drop_zero]
  rw [if_neg (by omega)]
  refine congrArg Except.ok (Vector.ext fun k hk => ?_)
  rw [Vector.getElem_ofFn, List.getD_eq_getElem _ _ (by omega), Vector.getElem_toList]

/-- It bears its name. -/
theorem bears_oneEntryFat :
    (oneEntryFat attributes).rootDirectory.Bears 0 entryName (entryItem attributes) :=
  ⟨one_pos, record_of_bytes rfl, rfl, by decide, by decide, by decide⟩

/-- No other record does. -/
theorem eq_of_bears_oneEntryFat (h : (oneEntryFat attributes).rootDirectory.Bears i sn item) :
    i = 0 ∧ item = entryItem attributes := by
  have hlt : (i : ℤ) < 1 := h.lt
  obtain rfl : i = 0 := by omega
  exact ⟨rfl, Except.ok.inj (h.record.symm.trans (record_of_bytes rfl))⟩

/-- The entry's cluster. -/
theorem cluster_entryItem : (entryItem attributes).low16BitsFirstCluster.toNat = 2 := by
  change (halfWord 2 0).toNat = 2
  decide

/-- Cluster 2 is empty. -/
theorem clusterBytes_twoClusterVolume :
    (clusterBytes (twoClusterVolume 0) twoClusterFat.header 2).getD 0 0 = 0x00 := by
  unfold clusterBytes
  rw [getD_tabulate (by decide)]
  decide

/-- The directory it holds has no record. -/
theorem total_of_subdirectoryAt
    (h : SubdirectoryAt (twoClusterVolume 0) twoClusterFat.header (entryItem attributes) d) :
    d.total = 0 := by
  have hnonneg := h.nonneg
  by_contra hpos
  -- its first record would begin with the cluster's first byte
  refine h.before 0 (by omega) ?_
  have htake : 0 < sizeofFatDirectoryItem * d.total.toNat :=
    Nat.mul_pos (by decide) (by omega)
  unfold FatDirectory.firstByte
  rw [h.bytes, cluster_entryItem, Nat.mul_zero, List.getD_eq_getElem?_getD, List.getElem?_take_of_lt htake,
    ← List.getD_eq_getElem?_getD]
  exact clusterBytes_twoClusterVolume

/-- The directories of the volume: besides the root directory only empty
ones. -/
theorem total_of_directoryOf (h : DirectoryOf (twoClusterVolume 0) (oneEntryFat attributes) d) :
    d = (oneEntryFat attributes).rootDirectory ∨ d.total = 0 := by
  induction h with
  | root => exact Or.inl rfl
  | sub hd hb hsub h' ih =>
    refine Or.inr ?_
    rcases ih with rfl | h0
    · obtain ⟨-, rfl⟩ := eq_of_bears_oneEntryFat hb
      exact total_of_subdirectoryAt h'
    · have hlt := hb.lt
      omega

/-- That directory. -/
theorem subdirectoryAt_empty : SubdirectoryAt (twoClusterVolume 0) twoClusterFat.header
    (entryItem attributes) ⟨0, [], 0, 0, 0⟩ where
  nonneg := le_rfl
  fits := Nat.zero_le _
  bytes := List.take_zero.symm
  before i hi := absurd hi (Int.not_lt.2 (Int.natCast_nonneg i))
  ends _ := by
    rw [cluster_entryItem]
    exact clusterBytes_twoClusterVolume

/-- **The volume's directories are a tree.** -/
theorem directoryTree_oneEntryFat :
    DirectoryTree (twoClusterVolume 0) (oneEntryFat attributes) where
  regular d hd := by
    rcases total_of_directoryOf hd with rfl | h0
    · have hzero : ∀ i : ℕ, (i : ℤ) < (oneEntryFat attributes).rootDirectory.total → i = 0 := by
        intro i hi
        change (i : ℤ) < 1 at hi
        omega
      refine ⟨fun i hi => ?_, fun i hi => ?_, fun i j _ _ _ _ hi hj _ => ?_⟩
      · rw [hzero i hi]
        exact (by decide : (0x44 : Byte) ≠ 0xE5)
      · rw [hzero i hi]
        exact ⟨_, _, bears_oneEntryFat⟩
      · rw [hzero i hi.lt, hzero j hj.lt]
    · exact ⟨fun i hi => absurd hi (by omega), fun i hi => absurd hi (by omega),
        fun i j _ _ _ _ hi => absurd hi.lt (by omega)⟩
  fits d i sn item hd hb hsub := by
    rcases total_of_directoryOf hd with rfl | h0
    · obtain ⟨-, rfl⟩ := eq_of_bears_oneEntryFat hb
      exact ⟨_, subdirectoryAt_empty⟩
    · exact absurd hb.lt (by omega)

/-- The path of the entry, parsed on that volume. -/
theorem exists_partsFrom_entry (attributes : Byte) : ∃ (s : FsState) (path : Word), FsOwned s ∧
    s.disk.fsPrivate = some (oneEntryFat attributes) ∧ PartsFrom s path [[0x44]] ∧
      2 ≤ s.store.heap.freeBlocks := by
  have h : FsState.Untouched 0
      { bootFs with disk := ⟨some .fat16, some (oneEntryFat attributes)⟩ } := untouched_bootFs
  obtain ⟨root, first, b, t, hparse, -, -, hfirst, hpart⟩ := @pathparserParse_component _ 0 [0x44] h.1
    (by decide) ⟨by decide, by decide⟩ (by decide)
  have a := pathparserParse_step h.fsOwned hparse
  obtain ⟨m, hm, hroom⟩ := spends_pathparserParse 0 _ root t h.1 hparse
  refine ⟨t, first, a.owned, congrArg Disk.fsPrivate a.keeps.disk, .cons hfirst hpart .nil, ?_⟩
  refine Heap.two_le_freeBlocks (b := m) ⟨?_, fun i hlo hhi => hroom.2 i hlo ?_⟩
  · rw [hroom.total]
    simp only [List.length_cons, List.length_nil] at hm
    omega
  · rw [hroom.total]
    simp only [List.length_cons, List.length_nil] at hm
    omega

/-- **A file of the root directory** is resolved. -/
theorem fat16GetDirectoryEntry_resolves_file : ∃ s path,
    EntryResolved (twoClusterVolume 0) (oneEntryFat 0x00) s path [[0x44]] := by
  obtain ⟨s, path, o, hfat, hparts, hfree⟩ := exists_partsFrom_entry 0x00
  refine ⟨s, path, ((fat16GetDirectoryEntry_resolves_iff directoryTree_oneEntryFat o hfat hparts
    (List.cons_ne_nil _ _)).2 fun i sn item hb => ?_).2 fun item hitem => ?_⟩
  · obtain ⟨-, rfl⟩ := eq_of_bears_oneEntryFat hb
    exact hb.ends fun _ => Or.inl rfl
  · obtain ⟨i, sn, hb, -⟩ := hitem.of_single
    obtain ⟨-, rfl⟩ := eq_of_bears_oneEntryFat hb
    exact ⟨rfl, by decide, hfree⟩

/-- **A subdirectory of the root directory**: its item has type FILE. -/
theorem not_entryResolved : ¬ ∀ (image : Sectors) (fat : FatPrivate) (s : FsState) (path : Word)
    (names : List Cstring), DirectoryTree image fat → FsOwned s → s.disk.fsPrivate = some fat →
      PartsFrom s path names → names ≠ [] → EntryResolved image fat s path names := by
  intro h
  obtain ⟨s, path, o, hfat, hparts, -⟩ := exists_partsFrom_entry 0x10
  have e := h _ _ s path _ directoryTree_oneEntryFat o hfat hparts (List.cons_ne_nil _ _)
  obtain ⟨-, hfile, -⟩ := e.plain o hfat hparts (.entry bears_oneEntryFat (by decide))
  exact absurd hfile (by decide)

end OwnKernel
