import OwnKernel.Fat16.Directory
import OwnKernel.Fat16.Pieces
import OwnKernel.File.Owned
import OwnKernel.File.PathParser

/-!
# Loading a subdirectory

`fat16_load_fat_directory` makes a structure and an array of records, and
fills the array from the disk. Where one of the two last steps fails it
frees what it made, and returns the pointer to it all the same.
`fat16LoadFatDirectory_iff` says when what it returns can be relied on.
-/

namespace OwnKernel

variable {image : Sectors} {fat : FatPrivate} {item : FatDirectoryItem} {s s' : FsState}
variable {t u : Store} {p directory items : Word} {total : ℤ} {x : FatDirectory}

/-! ## What is returned -/

/-- `directory_size`. -/
def directorySize (total : ℤ) : ℤ := int32 (total * sizeofFatDirectoryItem)

/-- **The directory `x` of `item` at `p`**: the records counted were read,
each in full, and the structure and the array of records are allocated. -/
structure DirectoryLoaded (image : Sectors) (fat : FatPrivate) (item : FatDirectoryItem)
    (s : FsState) (p : Word) (x : FatDirectory) : Prop where
  object : s.objects p = some (.fatDirectory x)
  block : s.store.heap.Owns p 1
  counted : fat16GetTotalItemsForDirectory image
    (fat16ClusterToSector fat (fat16GetFirstCluster item)) = .ok x.total
  read : fat16ReadInternal image fat (fat16GetFirstCluster item) 0 (directorySize x.total) =
    .ok (allOk, x.bytes)
  length : x.bytes.length = x.total * sizeofFatDirectoryItem
  items : ∃ k, s.store.heap.Owns x.item k ∧ x.bytes.length ≤ 4096 * k

/-- **What is returned can be relied on**: a pointer to a directory that
was loaded, or null and the heap's table as it was. -/
def LoadsDirectory (image : Sectors) (fat : FatPrivate) (item : FatDirectoryItem)
    (s s' : FsState) (p : Word) : Prop :=
  if p = 0 then s'.store.heap = s.store.heap else ∃ x, DirectoryLoaded image fat item s' p x

/-- **A load that is served**: behind the structure the heap has an array
for the records counted, there are some, and reading them is not an
error. -/
def LoadServed (image : Sectors) (fat : FatPrivate) (item : FatDirectoryItem) (st : Store) : Prop :=
  ∀ (directory items : Word) (t u : Store) (total : ℤ),
    kernelZalloc sizeofFatDirectory st = .ok (directory, t) → directory ≠ 0 →
    fat16GetTotalItemsForDirectory image
      (fat16ClusterToSector fat (fat16GetFirstCluster item)) = .ok total →
    kernelZalloc (BitVec.ofInt 32 (directorySize total)) t = .ok (items, u) →
    items ≠ 0 ∧ ∀ r, fat16ReadInternal image fat (fat16GetFirstCluster item) 0
      (directorySize total) = .ok r → total ≠ 0 ∧ r.1 = allOk

/-- A first cluster is an `int`. -/
theorem int32_fat16GetFirstCluster (item : FatDirectoryItem) :
    int32 (fat16GetFirstCluster item) = fat16GetFirstCluster item := by
  have hlt : fat16GetFirstCluster item < 2 ^ 16 := BitVec.isLt _
  exact int32_of_range (by omega) (by omega)

/-- `fat16_load_fat_directory` behind its allocations. -/
theorem fat16LoadFatDirectory_eq (hsub : item.attributes &&& fatFileSubdirectory ≠ 0)
    (hfat : s.disk.fsPrivate = some fat)
    (hz : kernelZalloc sizeofFatDirectory s.store = .ok (directory, t)) (h0 : directory ≠ 0)
    (htotal : fat16GetTotalItemsForDirectory image
      (fat16ClusterToSector fat (fat16GetFirstCluster item)) = .ok total)
    (hz' : kernelZalloc (BitVec.ofInt 32 (directorySize total)) t = .ok (items, u)) :
    fat16LoadFatDirectory image item s = (if items = 0 then do
        fat16FreeDirectory directory
        pure directory
      else do
        let r ← readDisk (fat16ReadInternal image fat (fat16GetFirstCluster item) 0
          (directorySize total))
        writeObject directory (.fatDirectory ⟨items, r.2, total, 0, 0⟩)
        if r.1 ≠ allOk then do
          fat16FreeDirectory directory
          pure directory
        else pure directory : FsM Word)
      (({ s with store := u } : FsState).setObject directory
        (some (.fatDirectory ⟨items, [], total, 0, 0⟩))) := by
  have hstruct : inStore (kernelZalloc sizeofFatDirectory) s = .ok (directory, { s with store := t }) :=
    run_inStore.2 ⟨t, hz, rfl⟩
  have hprivate : diskFsPrivate { s with store := t } = .ok (fat, { s with store := t }) :=
    run_diskFsPrivate.2 ⟨hfat, rfl⟩
  have hcount : readDisk (fat16GetTotalItemsForDirectory image
      (fat16ClusterToSector fat (fat16GetFirstCluster item))) { s with store := t } =
      .ok (total, { s with store := t }) := run_readDisk.2 ⟨htotal, rfl⟩
  have harray : inStore (kernelZalloc (BitVec.ofInt 32 (directorySize total)))
      { s with store := t } = .ok (items, { s with store := u }) := run_inStore.2 ⟨u, hz', rfl⟩
  have hwrite : writeObject directory (.fatDirectory ⟨items, [], total, 0, 0⟩)
      { s with store := u } = .ok (⟨⟩, _) := run_writeObject.2 ⟨h0, rfl⟩
  unfold fat16LoadFatDirectory
  rw [if_neg hsub, Fallible.bind_ok hstruct, if_neg h0, Fallible.bind_ok hprivate]
  simp only [int32_fat16GetFirstCluster]
  rw [Fallible.bind_ok hcount]
  unfold directorySize at harray
  rw [Fallible.bind_ok harray]
  exact Fallible.bind_ok hwrite

/-- **The structure freed** is forgotten. -/
theorem exists_fat16FreeDirectory (hp : p ≠ 0) (hx : s.objects p = some (.fatDirectory x)) :
    ∃ s', fat16FreeDirectory p s = .ok (⟨⟩, s') ∧ s'.objects p = none := by
  have hread : readObject FsObject.asFatDirectory p s = .ok (x, s) :=
    run_readObject.2 ⟨hp, by rw [hx]; rfl, rfl⟩
  unfold fat16FreeDirectory
  rw [if_neg hp, Fallible.bind_ok hread]
  by_cases hitem : x.item = 0
  · rw [if_pos hitem]
    exact ⟨_, freeObject_eq, setObject_objects_self⟩
  · rw [if_neg hitem]
    exact ⟨_, freeObject_eq, setObject_objects_self⟩

/-- What was freed was not loaded. -/
theorem LoadsDirectory.objects_ne_none (h : LoadsDirectory image fat item s s' p) (hp : p ≠ 0) :
    s'.objects p ≠ none := by
  intro hnone
  unfold LoadsDirectory at h
  rw [if_neg hp] at h
  obtain ⟨x, hx⟩ := h
  have hobject := hx.object
  rw [hnone] at hobject
  cases hobject

/-- **A load without an array** returns a structure that was freed. -/
theorem exists_fat16LoadFatDirectory_of_null (hsub : item.attributes &&& fatFileSubdirectory ≠ 0)
    (hfat : s.disk.fsPrivate = some fat)
    (hz : kernelZalloc sizeofFatDirectory s.store = .ok (directory, t)) (h0 : directory ≠ 0)
    (htotal : fat16GetTotalItemsForDirectory image
      (fat16ClusterToSector fat (fat16GetFirstCluster item)) = .ok total)
    (hz' : kernelZalloc (BitVec.ofInt 32 (directorySize total)) t = .ok (0, u)) :
    ∃ s', fat16LoadFatDirectory image item s = .ok (directory, s') ∧ s'.objects directory = none := by
  obtain ⟨s', hfree, hnone⟩ := exists_fat16FreeDirectory (s := ({ s with store := u } :
    FsState).setObject directory (some (.fatDirectory ⟨0, [], total, 0, 0⟩))) h0
    setObject_objects_self
  refine ⟨s', ?_, hnone⟩
  rw [fat16LoadFatDirectory_eq hsub hfat hz h0 htotal hz', if_pos rfl, Fallible.bind_ok hfree]
  rfl

/-- The block of the structure. -/
theorem owns_of_zalloc_fatDirectory (r : s.store.heap.Ready)
    (hz : kernelZalloc sizeofFatDirectory s.store = .ok (directory, t)) (h0 : directory ≠ 0) :
    t.heap.Ready ∧ t.heap.Owns directory 1 := by
  obtain ⟨hext, hown, -⟩ := kernelZalloc_spec r (by decide) (by decide) hz h0
  exact ⟨hext.ready r, hown⟩

/-- The size asked for the records. -/
theorem toNat_directorySize (hlo : 0 ≤ total) (hhi : total < 2 ^ 27) :
    ((BitVec.ofInt 32 (directorySize total)).toNat : ℤ) = total * sizeofFatDirectoryItem := by
  change ((BitVec.ofInt 32 (int32 (total * 32))).toNat : ℤ) = total * 32
  rw [BitVec.toNat_ofInt]
  unfold int32
  omega

/-- **The array of records**, where there are some. -/
theorem owns_of_zalloc_records (r : t.heap.Ready) (o : t.heap.Owns directory 1)
    (hlo : 0 < total) (hhi : total < 2 ^ 27)
    (hz : kernelZalloc (BitVec.ofInt 32 (directorySize total)) t = .ok (items, u))
    (h0 : items ≠ 0) :
    directorySize total = total * sizeofFatDirectoryItem ∧ u.heap.Owns directory 1 ∧
      ∃ k, u.heap.Owns items k ∧ total * sizeofFatDirectoryItem ≤ 4096 * k := by
  have hsize := toNat_directorySize hlo.le hhi
  change _ = total * 32 at hsize
  have hpos : 0 < (BitVec.ofInt 32 (directorySize total)).toNat := by omega
  have hlt := kernelZalloc_lt_of_owns r hpos o hz h0
  obtain ⟨hext, hown, -⟩ := kernelZalloc_spec r hpos (by omega) hz h0
  have hint : int32 (total * 32) = total * 32 := int32_of_range (by omega) (by omega)
  refine ⟨hint, hext.owns _ _ o, _, hown, ?_⟩
  have hle := le_blocksFor_mul (BitVec.ofInt 32 (directorySize total)).toNat
  change total * 32 ≤ _
  omega

/-- A load that is served delivers the directory. -/
theorem directoryLoaded_of_served (m : Mounted image fat) (r : s.store.heap.Ready)
    (hz : kernelZalloc sizeofFatDirectory s.store = .ok (directory, t)) (h0 : directory ≠ 0)
    (htotal : fat16GetTotalItemsForDirectory image
      (fat16ClusterToSector fat (fat16GetFirstCluster item)) = .ok total)
    (hz' : kernelZalloc (BitVec.ofInt 32 (directorySize total)) t = .ok (items, u))
    (hitems : items ≠ 0) (hsome : total ≠ 0) {bytes : List Byte}
    (hread : fat16ReadInternal image fat (fat16GetFirstCluster item) 0 (directorySize total) =
      .ok (allOk, bytes)) :
    DirectoryLoaded image fat item (({ s with store := u } : FsState).setObject directory
      (some (.fatDirectory ⟨items, bytes, total, 0, 0⟩))) directory ⟨items, bytes, total, 0, 0⟩ := by
  obtain ⟨hready, hown⟩ := owns_of_zalloc_fatDirectory r hz h0
  obtain ⟨hlo, hhi⟩ := fat16GetTotalItemsForDirectory_bounds htotal
  obtain ⟨hsize, hown', k, hrecords, hle⟩ :=
    owns_of_zalloc_records hready hown (by omega) hhi hz' hitems
  have hlength : (bytes.length : ℤ) = total * sizeofFatDirectoryItem := by
    obtain ⟨n, rfl⟩ := Int.eq_ofNat_of_zero_le hlo
    have hread' := hread
    rw [hsize, ← Nat.cast_mul] at hread'
    have hcluster : fat16GetFirstCluster item < 2 ^ 16 := BitVec.isLt _
    obtain ⟨-, rfl⟩ := (fat16ReadInternal_ok_iff m.dataSector (sizeOfClusterBytes_pos_of_read hread)
      hcluster (by unfold sizeofFatDirectoryItem; omega) rfl).1 hread'
    rw [length_tabulate, Nat.cast_mul]
  rw [← hlength] at hle
  exact ⟨setObject_objects_self, hown', htotal, hread, hlength, k, hrecords, Int.ofNat_le.1 hle⟩

/-! ## When it can be relied on -/

/-- **How far a load that returns has come**: it had no structure, and
left the heap as it was, or it asked for the records. -/
theorem fat16LoadFatDirectory_cases (hsub : item.attributes &&& fatFileSubdirectory ≠ 0)
    (hfat : s.disk.fsPrivate = some fat) (r : s.store.heap.Ready)
    (h : fat16LoadFatDirectory image item s = .ok (p, s')) :
    (p = 0 ∧ s'.store.heap = s.store.heap) ∨ ∃ directory t total items u,
      kernelZalloc sizeofFatDirectory s.store = .ok (directory, t) ∧ directory ≠ 0 ∧
      fat16GetTotalItemsForDirectory image
        (fat16ClusterToSector fat (fat16GetFirstCluster item)) = .ok total ∧
      kernelZalloc (BitVec.ofInt 32 (directorySize total)) t = .ok (items, u) := by
  unfold fat16LoadFatDirectory at h
  rw [if_neg hsub] at h
  obtain ⟨directory, t₁, h₁, h⟩ := Fallible.run_bind.1 h
  obtain ⟨t, hz, rfl⟩ := run_inStore.1 h₁
  by_cases h0 : directory = 0
  · rw [if_pos h0] at h
    obtain ⟨rfl, rfl⟩ := Fallible.run_pure.1 h
    obtain ⟨-, rfl⟩ | ⟨hne, -⟩ := kernelZalloc_of_pos r (by decide) hz
    · exact Or.inl ⟨rfl, rfl⟩
    · exact absurd h0 hne
  rw [if_neg h0] at h
  obtain ⟨fat', t₂, h₂, h⟩ := Fallible.run_bind.1 h
  obtain ⟨total, t₃, h₃, h⟩ := Fallible.run_bind.1 h
  obtain ⟨items, t₄, h₄, -⟩ := Fallible.run_bind.1 h
  obtain ⟨hfat', rfl⟩ := run_diskFsPrivate.1 h₂
  obtain ⟨htotal, rfl⟩ := run_readDisk.1 h₃
  obtain ⟨u, hz', -⟩ := run_inStore.1 h₄
  obtain rfl : fat = fat' := Option.some.inj (hfat.symm.trans hfat')
  rw [int32_fat16GetFirstCluster] at htotal
  exact Or.inr ⟨directory, t, total, items, u, hz, h0, htotal, hz'⟩

/-- **When a loaded directory can be relied on**: when the record is that
of no subdirectory, or the load is served. -/
theorem fat16LoadFatDirectory_iff (m : Mounted image fat) (hfat : s.disk.fsPrivate = some fat)
    (r : s.store.heap.Ready) :
    (∀ p s', fat16LoadFatDirectory image item s = .ok (p, s') →
        LoadsDirectory image fat item s s' p) ↔
      item.attributes &&& fatFileSubdirectory = 0 ∨ LoadServed image fat item s.store := by
  by_cases hsub : item.attributes &&& fatFileSubdirectory = 0
  · refine iff_of_true (fun p s' h => ?_) (Or.inl hsub)
    unfold fat16LoadFatDirectory at h
    rw [if_pos hsub] at h
    obtain ⟨rfl, rfl⟩ := Fallible.run_pure.1 h
    unfold LoadsDirectory
    rw [if_pos rfl]
  constructor
  · intro h
    refine Or.inr fun directory items t u total hz h0 htotal hz' => ?_
    have hrun := fat16LoadFatDirectory_eq hsub hfat hz h0 htotal hz'
    have hitems : items ≠ 0 := by
      rintro rfl
      obtain ⟨s', hload, hnone⟩ := exists_fat16LoadFatDirectory_of_null hsub hfat hz h0 htotal hz'
      exact (h _ _ hload).objects_ne_none h0 hnone
    rw [if_neg hitems] at hrun
    refine ⟨hitems, fun read hread => ?_⟩
    rw [Fallible.bind_ok (run_readDisk.2 ⟨hread, rfl⟩),
      Fallible.bind_ok ((run_writeObject (u := ⟨⟩)).2 ⟨h0, rfl⟩)] at hrun
    have hok : read.1 = allOk := by
      by_contra herr
      rw [if_pos herr] at hrun
      obtain ⟨s', hfree, hnone⟩ := exists_fat16FreeDirectory h0 setObject_objects_self
      rw [Fallible.bind_ok hfree] at hrun
      exact (h _ _ hrun).objects_ne_none h0 hnone
    refine ⟨?_, hok⟩
    rintro rfl
    -- no block is marked for no records
    rw [if_neg (not_not.2 hok)] at hrun
    have hloads := h _ _ hrun
    unfold LoadsDirectory at hloads
    rw [if_neg h0] at hloads
    obtain ⟨x, hx⟩ := hloads
    have hobject := hx.object
    rw [setObject_objects_self] at hobject
    cases hobject
    obtain ⟨k, hown, -⟩ := hx.items
    obtain ⟨hready, -⟩ := owns_of_zalloc_fatDirectory r hz h0
    exact kernelZalloc_not_owns_of_zero hready (by decide) hz' hown
  · rintro (hno | hserved) p s' h
    · exact absurd hno hsub
    obtain ⟨rfl, hheap⟩ | ⟨directory, t, total, items, u, hz, h0, htotal, hz'⟩ :=
      fat16LoadFatDirectory_cases hsub hfat r h
    · unfold LoadsDirectory
      rwa [if_pos rfl]
    obtain ⟨hitems, hserved⟩ := hserved directory items t u total hz h0 htotal hz'
    rw [fat16LoadFatDirectory_eq hsub hfat hz h0 htotal hz', if_neg hitems] at h
    obtain ⟨⟨res, bytes⟩, t₁, h₁, h⟩ := Fallible.run_bind.1 h
    obtain ⟨t₂, h₂, h⟩ := Fallible.run_seq.1 h
    obtain ⟨hread, rfl⟩ := run_readDisk.1 h₁
    obtain ⟨hsome, hok⟩ := hserved _ hread
    obtain rfl : res = allOk := hok
    obtain ⟨-, rfl⟩ := run_writeObject.1 h₂
    rw [if_neg (not_not.2 rfl)] at h
    obtain ⟨rfl, rfl⟩ := Fallible.run_pure.1 h
    unfold LoadsDirectory
    rw [if_neg h0, setObject_setObject]
    exact ⟨_, directoryLoaded_of_served m r hz h0 htotal hz' hitems hsome hread⟩

/-! ### A subdirectory of one record -/

/-- The record of a subdirectory at cluster 2. -/
def subdirectoryItem : FatDirectoryItem :=
  ⟨#[0, 0, 0, 0, 0, 0, 0, 0, 0, 0, 0, 0x10, 0, 0, 0, 0, 0, 0, 0, 0, 0, 0, 0, 0, 0, 0, 2, 0, 0, 0, 0, 0],
    rfl⟩

/-- The file layer with that volume mounted. -/
def subdirectoryFs (heap : Heap) : FsState :=
  { bootFs with
    store := ⟨heap, fun _ => 0⟩
    disk := ⟨some .fat16, some twoClusterFat⟩ }

/-- One record is counted at cluster 2. -/
theorem fat16GetTotalItemsForDirectory_twoClusterVolume :
    fat16GetTotalItemsForDirectory (twoClusterVolume 7)
      (fat16ClusterToSector twoClusterFat (fat16GetFirstCluster subdirectoryItem)) = .ok 1 := by
  have hsector : fat16ClusterToSector twoClusterFat (fat16GetFirstCluster subdirectoryItem) = 4 := by
    decide
  have hfirst : recordByte (twoClusterVolume 7) (4 * sectorSize) 0 = 7 := by decide
  have hsecond : recordByte (twoClusterVolume 7) (4 * sectorSize) 1 = 0 := by decide
  obtain ⟨total, htotal⟩ := fat16GetTotalItemsForDirectory_of_ends (n := 1) (show (0 : ℤ) ≤ 4 by decide)
    (by decide) hsecond fun j hj => by
      obtain rfl : j = 0 := by omega
      rw [hfirst]
      decide
  obtain ⟨counted, n, -, rfl, hcounts⟩ := fat16GetTotalItemsForDirectory_cases htotal
  have hn : n = 1 := by
    rcases Nat.lt_trichotomy n 1 with hlt | heq | hgt
    · obtain rfl : n = 0 := by omega
      have hends := hcounts.ends
      rw [hfirst] at hends
      exact absurd hends (by decide)
    · exact heq
    · exact absurd hsecond (hcounts.before 1 (by omega) (by omega))
  have hcounted : counted = [0] := by
    rw [hcounts.counted, hn, List.range'_one, List.filter_cons_of_pos (by rw [hfirst]; decide),
      List.filter_nil]
  rw [hsector, htotal, hcounted]
  rfl

/-- With an empty heap the subdirectory is loaded. -/
theorem fat16LoadFatDirectory_one_record :
    subdirectoryItem.attributes &&& fatFileSubdirectory ≠ 0 ∧
      ∀ p s', fat16LoadFatDirectory (twoClusterVolume 7) subdirectoryItem
          (subdirectoryFs kernelHeapInit) = .ok (p, s') →
        LoadsDirectory (twoClusterVolume 7) twoClusterFat subdirectoryItem
          (subdirectoryFs kernelHeapInit) s' p := by
  refine ⟨by decide, (fat16LoadFatDirectory_iff (mounted_twoClusterVolume 7) rfl
    ready_kernelHeapInit).2 (Or.inr fun directory items t u total hz h0 htotal hz' => ?_)⟩
  obtain rfl : total = 1 :=
    Except.ok.inj (htotal.symm.trans fat16GetTotalItemsForDirectory_twoClusterVolume)
  obtain ⟨p, t', hz₁, -, hplace, hroom⟩ := kernelZalloc_of_room (s := (subdirectoryFs
    kernelHeapInit).store) sizeofFatDirectory ready_kernelHeapInit room_kernelHeapInit (by decide)
    (by decide) (by decide)
  obtain ⟨rfl, rfl⟩ := Prod.mk.inj (Except.ok.inj (hz₁.symm.trans hz))
  obtain ⟨q, u', hz₂, hq, -⟩ := kernelZalloc_of_room (BitVec.ofInt 32 (directorySize 1))
    (hplace.ready ready_kernelHeapInit) hroom (by decide) (by decide)
    (by rw [hplace.total]; decide)
  obtain ⟨rfl, rfl⟩ := Prod.mk.inj (Except.ok.inj (hz₂.symm.trans hz'))
  refine ⟨hq, fun r hr => ⟨one_ne_zero, ?_⟩⟩
  have hread : fat16ReadInternal (twoClusterVolume 7) twoClusterFat (2 : ℕ) 0 (32 : ℕ) =
      .ok (allOk, _) :=
    fat16ReadInternal_of_readable (mounted_twoClusterVolume 7).dataSector (by decide) (by decide)
      32 0 rfl (by decide) fun j hj => by
        rw [show sizeOfClusterBytes twoClusterFat.header = 512 from rfl] at hj ⊢
        obtain rfl : j = 0 := by omega
        exact .of_lt (i := 0) (by decide) (by decide) (by decide)
  obtain rfl := Except.ok.inj (hread.symm.trans hr)
  rfl

/-- A heap with one free block, the first. -/
def oneBlockHeap : Heap := { kernelHeapInit with
  entries := fun i => if i = 0 then heapBlockTableEntryFree
    else heapBlockTableEntryTaken ||| heapBlockIsFirst }

theorem ready_oneBlockHeap : oneBlockHeap.Ready :=
  Heap.SamePlace.ready (h := kernelHeapInit) ⟨rfl, rfl⟩ ready_kernelHeapInit

theorem freeBlocks_oneBlockHeap : oneBlockHeap.freeBlocks = 1 := by
  rw [Heap.freeBlocks, Finset.card_eq_one]
  refine ⟨0, ?_⟩
  ext i
  rw [Finset.mem_filter, Finset.mem_range, Finset.mem_singleton]
  constructor
  · rintro ⟨-, hfree⟩
    by_contra hi
    change heapGetEntryType (if i = 0 then heapBlockTableEntryFree
      else heapBlockTableEntryTaken ||| heapBlockIsFirst) = heapBlockTableEntryFree at hfree
    rw [if_neg hi] at hfree
    exact absurd hfree (by decide)
  · rintro rfl
    exact ⟨by decide, by decide⟩

/-- **A subdirectory loaded with one block free**: the structure takes it,
and is returned after it was freed. -/
theorem not_loadsDirectory :
    ¬ ∀ (image : Sectors) (fat : FatPrivate) (item : FatDirectoryItem) (s s' : FsState) (p : Word),
      Mounted image fat → s.disk.fsPrivate = some fat → s.store.heap.Ready →
        fat16LoadFatDirectory image item s = .ok (p, s') → LoadsDirectory image fat item s s' p := by
  intro h
  obtain ⟨h0, -⟩ | ⟨p, t, hz, hp, hplace, hcount⟩ := kernelZalloc_single (s := (subdirectoryFs
    oneBlockHeap).store) sizeofFatDirectory ready_oneBlockHeap (by decide) (by decide)
  · change oneBlockHeap.freeBlocks = 0 at h0
    rw [freeBlocks_oneBlockHeap] at h0
    exact absurd h0 one_ne_zero
  change t.heap.freeBlocks + 1 = oneBlockHeap.freeBlocks at hcount
  rw [freeBlocks_oneBlockHeap] at hcount
  obtain ⟨-, hz'⟩ | ⟨q, u, -, -, -, hcount'⟩ := kernelZalloc_single
    (BitVec.ofInt 32 (directorySize 1)) (hplace.ready ready_oneBlockHeap) (by decide) (by decide)
  · obtain ⟨s', hload, hnone⟩ := exists_fat16LoadFatDirectory_of_null (s := subdirectoryFs
      oneBlockHeap) (show subdirectoryItem.attributes &&& fatFileSubdirectory ≠ 0 by decide) rfl hz
      hp fat16GetTotalItemsForDirectory_twoClusterVolume hz'
    exact (h _ _ _ _ _ _ (mounted_twoClusterVolume 7) rfl ready_oneBlockHeap hload).objects_ne_none
      hp hnone
  · omega

end OwnKernel
