import OwnKernel.Fat16.Directory
import OwnKernel.File.PathParser

/-!
# The volumes that are accepted

`fat16_resolve` reads the header, checks its signature, and reads the
root directory. What it keeps of a volume it accepts is
`fat16Resolve_cases`; that it does accept one is
`fat16Resolve_of_room`.
-/

namespace OwnKernel

variable {image : Sectors} {header : FatHeader} {s s' t : FsState} {res : ℤ}

/-- The header of a volume. -/
def volumeHeader (image : Sectors) : FatHeader :=
  FatHeader.ofBytes (bytesAt image 0 sizeofFatH)

/-- The header is read from the volume's start. -/
theorem diskStreamRead_header (image : Sectors) :
    ∃ stream, diskStreamRead image ⟨0⟩ sizeofFatH = .ok (bytesAt image 0 sizeofFatH, stream) :=
  ⟨_, diskStreamRead_eq ⟨by decide, by decide, Or.inl le_rfl⟩ sizeofFatH⟩

/-- **A root directory that was read**: its records are counted, and the
bytes of all of them are there. -/
theorem fat16GetRootDirectory_cases {old directory : FatDirectory}
    (h : fat16GetRootDirectory image header old s = .ok ((res, directory), s')) :
    (res ≠ 0 ∧ directory = old) ∨
      res = 0 ∧ ∃ dir total, dir ≠ 0 ∧
        fat16GetTotalItemsForDirectory image header.rootDirSectorPos = .ok total ∧
        directory = fat16RootDirectory header dir (bytesAt image
          (int32 (header.rootSector * sectorSize)) (header.rootDirEntries.toNat * sizeofFatDirectoryItem))
          total := by
  unfold fat16GetRootDirectory at h
  obtain ⟨total, t₁, htotal, h⟩ := Fallible.run_bind.1 h
  obtain ⟨dir, t₂, -, h⟩ := Fallible.run_bind.1 h
  by_cases hdir : dir = 0
  · rw [if_pos hdir] at h
    obtain ⟨hres, -⟩ := Fallible.run_pure.1 h
    cases hres
    exact Or.inl ⟨by decide, rfl⟩
  rw [if_neg hdir] at h
  obtain ⟨r, t₃, hread, h⟩ := Fallible.run_bind.1 h
  obtain ⟨hres, -⟩ := Fallible.run_pure.1 h
  cases hres
  refine Or.inr ⟨rfl, dir, total, hdir, (run_readDisk.1 htotal).1, ?_⟩
  have hbytes := (run_readDisk.1 hread).1
  unfold fat16SectoreToAbsolute at hbytes
  rw [header.rootDirSectorPos_eq, header.rootDirSize_eq] at hbytes
  have hpos : StreamPosition (int32 ((header.rootSector : ℤ) * sectorSize)) :=
    streamPosition_int32 (Dvd.intro_left _ rfl)
  change diskStreamRead image ⟨int32 _⟩ _ = _ at hbytes
  rw [diskStreamRead_eq hpos] at hbytes
  rw [← Except.ok.inj hbytes]

/-- The header is in the first sector. -/
theorem volumeHeader_congr {image' : Sectors} (h : image 0 = image' 0) :
    volumeHeader image = volumeHeader image' := by
  unfold volumeHeader bytesAt
  refine congrArg FatHeader.ofBytes (tabulate_inj.2 fun i hi => ?_)
  have hlt : i < 62 := hi
  have hpos : int32 (0 + (i : ℤ)) = i := by
    rw [zero_add]
    exact int32_of_range (by omega) (by omega)
  unfold byteAt
  rw [hpos, show (i : ℤ) / 512 = 0 by omega, h]

/-- What is kept of a disk. -/
theorem run_setFsPrivate {x : Option FatPrivate} {u : PUnit} :
    setFsPrivate x s = .ok (u, s') ↔ s' = { s with disk := { s.disk with fsPrivate := x } } :=
  Fallible.run_modify

/-- A stream is a block of the heap. -/
theorem diskStreamNew_frame {p : Word} (h : diskStreamNew s = .ok (p, s')) :
    ∃ t, s' = { s with store := t } := by
  unfold diskStreamNew at h
  obtain ⟨q, t₁, halloc, h⟩ := Fallible.run_bind.1 h
  obtain ⟨t, -, rfl⟩ := run_inStore.1 halloc
  split at h
  · exact absurd h Fallible.run_throw
  · exact ⟨t, (Fallible.run_pure.1 h).2⟩

/-- Reading the root directory only takes a block of the heap. -/
theorem fat16GetRootDirectory_frame {old : FatDirectory} {r : ℤ × FatDirectory}
    (h : fat16GetRootDirectory image header old s = .ok (r, s')) :
    ∃ t, s' = { s with store := t } := by
  unfold fat16GetRootDirectory at h
  obtain ⟨total, t₁, htotal, h⟩ := Fallible.run_bind.1 h
  obtain ⟨dir, t₂, halloc, h⟩ := Fallible.run_bind.1 h
  obtain ⟨t, -, rfl⟩ := run_inStore.1 halloc
  have e₁ := (run_readDisk.1 htotal).2
  split at h
  · exact ⟨t, by rw [(Fallible.run_pure.1 h).2, e₁]⟩
  · obtain ⟨r, t₃, hread, h⟩ := Fallible.run_bind.1 h
    exact ⟨t, by rw [(Fallible.run_pure.1 h).2, (run_readDisk.1 hread).2, e₁]⟩

/-- **The part of `fat16_resolve` that looks at the volume**, when it finds
no error. -/
theorem fat16ResolveVolume_cases (h : fat16ResolveVolume image s = .ok (res, s')) (hres : ¬ res < 0) :
    res = 0 ∧ ∃ dir total, dir ≠ 0 ∧ (volumeHeader image).signature = fat16Signature ∧
      fat16GetTotalItemsForDirectory image (volumeHeader image).rootDirSectorPos = .ok total ∧
      s'.disk = ⟨s.disk.filesystem, some ⟨volumeHeader image, fat16RootDirectory (volumeHeader image)
        dir (bytesAt image (int32 ((volumeHeader image).rootSector * sectorSize))
          ((volumeHeader image).rootDirEntries.toNat * sizeofFatDirectoryItem)) total⟩⟩ := by
  unfold fat16ResolveVolume at h
  obtain ⟨r, t₁, hread, h⟩ := Fallible.run_bind.1 h
  obtain ⟨hbytes, ht₁⟩ := run_readDisk.1 hread
  obtain ⟨stream, hheader⟩ := diskStreamRead_header image
  rw [hheader] at hbytes
  rw [← Except.ok.inj hbytes] at h
  change (do
    setFsPrivate (some { clearedFatPrivate with header := volumeHeader image })
    if (volumeHeader image).signature ≠ fat16Signature then pure (-fileSystemNotUsError)
    else do
      let root ← fat16GetRootDirectory image (volumeHeader image) clearedFatPrivate.rootDirectory
      setFsPrivate (some ⟨volumeHeader image, root.2⟩)
      if root.1 ≠ allOk then pure (-ioError) else pure 0 : FsM ℤ) t₁ = _ at h
  obtain ⟨t₂, hset, h⟩ := Fallible.run_seq.1 h
  by_cases hsig : (volumeHeader image).signature = fat16Signature
  · rw [if_neg (not_not.2 hsig)] at h
    obtain ⟨root, t₃, hroot, h⟩ := Fallible.run_bind.1 h
    obtain ⟨t₄, hkeep, h⟩ := Fallible.run_seq.1 h
    by_cases hok : root.1 = allOk
    · rw [if_neg (not_not.2 hok)] at h
      obtain ⟨rfl, rfl⟩ := Fallible.run_pure.1 h
      obtain ⟨t, hframe⟩ := fat16GetRootDirectory_frame hroot
      rcases fat16GetRootDirectory_cases hroot with ⟨hne, -⟩ | ⟨-, dir, total, hdir, htotal, hd⟩
      · exact absurd hok hne
      refine ⟨rfl, dir, total, hdir, hsig, htotal, ?_⟩
      rw [run_setFsPrivate.1 hkeep, hframe, run_setFsPrivate.1 hset, ht₁, hd]
    · rw [if_pos hok] at h
      exact absurd (Fallible.run_pure.1 h).1 (fun h => hres (h ▸ by decide))
  · rw [if_pos hsig] at h
    exact absurd (Fallible.run_pure.1 h).1 (fun h => hres (h ▸ by decide))

/-- **A volume that was accepted.** It bears the signature, and its header
and root directory are kept. -/
theorem fat16Resolve_cases (h : fat16Resolve image s = .ok (0, s')) :
    ∃ dir total, dir ≠ 0 ∧ (volumeHeader image).signature = fat16Signature ∧
      fat16GetTotalItemsForDirectory image (volumeHeader image).rootDirSectorPos = .ok total ∧
      s'.disk = ⟨some .fat16, some ⟨volumeHeader image, fat16RootDirectory (volumeHeader image) dir
        (bytesAt image (int32 ((volumeHeader image).rootSector * sectorSize))
          ((volumeHeader image).rootDirEntries.toNat * sizeofFatDirectoryItem)) total⟩⟩ := by
  unfold fat16Resolve at h
  obtain ⟨fatPrivate, t₁, -, h⟩ := Fallible.run_bind.1 h
  obtain ⟨t₂, -, h⟩ := Fallible.run_seq.1 h
  obtain ⟨t₃, hdisk, h⟩ := Fallible.run_seq.1 h
  obtain ⟨stream, t₄, hstream, h⟩ := Fallible.run_bind.1 h
  obtain ⟨res, t₅, hvolume, h⟩ := Fallible.run_bind.1 h
  obtain ⟨t₆, hfree, h⟩ := Fallible.run_seq.1 h
  -- an error is what is returned
  by_cases hneg : res < 0
  · rw [if_pos hneg] at h
    obtain ⟨t₇, -, h⟩ := Fallible.run_seq.1 h
    obtain ⟨t₈, -, h⟩ := Fallible.run_seq.1 h
    exact absurd (Fallible.run_pure.1 h).1 (by omega)
  rw [if_neg hneg] at h
  obtain ⟨-, hs'⟩ := Fallible.run_pure.1 h
  obtain ⟨-, dir, total, hdir, hsig, htotal, hkept⟩ := fat16ResolveVolume_cases hvolume hneg
  obtain ⟨t, hframe⟩ := diskStreamNew_frame hstream
  refine ⟨dir, total, hdir, hsig, htotal, ?_⟩
  rw [hs', run_kernelFree.1 hfree]
  change t₅.disk = _
  rw [hkept, hframe, Fallible.run_modify.1 hdisk]

/-- **What is kept of a volume is that volume's.** -/
theorem mounted_of_fat16Resolve (h : fat16Resolve image s = .ok (0, s')) :
    ∃ fat, s'.disk.fsPrivate = some fat ∧ Mounted image fat := by
  obtain ⟨dir, total, -, -, -, hdisk⟩ := fat16Resolve_cases h
  refine ⟨_, by rw [hdisk], rfl, ?_⟩
  simp only [fat16RootDirectory_endingSectorPos]

/-! ## Accepting a volume -/

section
variable {n : ℕ}

/-- A stream is made where there is room for one block. -/
theorem diskStreamNew_of_room (r : s.store.heap.Ready) (hr : s.store.heap.Room n)
    (hn : n < s.store.heap.total) :
    ∃ p t, diskStreamNew s = .ok (p, { s with store := t }) ∧ s.store.heap.SamePlace t.heap ∧
      t.heap.Room (n + 1) := by
  obtain ⟨p, t, halloc, hp, hext, -, -, hroom⟩ := inStore_kernelZalloc_of_room sizeofDiskStream r hr
    (by decide) (by decide) hn
  refine ⟨p, t, ?_, hext.place, hroom⟩
  unfold diskStreamNew
  rw [Fallible.bind_ok halloc, if_neg hp]
  rfl

/-- The driver's own data needs three streams. -/
theorem fat16InitPrivate_of_room {fatPrivate : Word} (hfat : fatPrivate ≠ 0)
    (r : s.store.heap.Ready) (hr : s.store.heap.Room n) (hn : n + 2 < s.store.heap.total) :
    ∃ t, fat16InitPrivate fatPrivate s = .ok (⟨⟩, { s with store := t }) ∧
      s.store.heap.SamePlace t.heap ∧ t.heap.Room (n + 3) := by
  obtain ⟨p₁, t₁, h₁, e₁, r₁⟩ := diskStreamNew_of_room r hr (by omega)
  have htotal₁ := e₁.total
  obtain ⟨p₂, t₂, h₂, e₂, r₂⟩ := @diskStreamNew_of_room { s with store := t₁ } (n + 1)
    (e₁.ready r) r₁ (by change _ < t₁.heap.total; omega)
  have htotal₂ := e₂.total
  obtain ⟨p₃, t₃, h₃, e₃, r₃⟩ := @diskStreamNew_of_room { s with store := t₂ } (n + 2)
    (e₂.ready (e₁.ready r)) r₂ (by change _ < t₂.heap.total; change _ = t₁.heap.total at htotal₂; omega)
  refine ⟨t₃, ?_, (e₁.trans e₂).trans e₃, r₃⟩
  unfold fat16InitPrivate
  rw [if_neg hfat, Fallible.bind_ok h₁, Fallible.bind_ok h₂, Fallible.bind_ok h₃]
  rfl

/-- A root directory of up to 128 records needs one block. -/
theorem fat16GetRootDirectory_of_room (old : FatDirectory) {total : ℤ}
    (hentries : 0 < header.rootDirEntries.toNat) (hle : header.rootDirEntries.toNat ≤ 128)
    (htotal : fat16GetTotalItemsForDirectory image header.rootDirSectorPos = .ok total)
    (r : s.store.heap.Ready) (hr : s.store.heap.Room n) (hn : n < s.store.heap.total) :
    ∃ directory t, fat16GetRootDirectory image header old s =
      .ok ((0, directory), { s with store := t }) := by
  have hsize : (BitVec.ofInt 32 header.rootDirSize).toNat = header.rootDirEntries.toNat * 32 := by
    rw [header.rootDirSize_eq, BitVec.ofInt_natCast, BitVec.toNat_ofNat]
    change header.rootDirEntries.toNat * 32 % 2 ^ 32 = _
    exact Nat.mod_eq_of_lt (by omega)
  obtain ⟨dir, t, halloc, hdir, -⟩ := inStore_kernelZalloc_of_room
    (BitVec.ofInt 32 header.rootDirSize) r hr (by omega) (by omega) hn
  have hpos : StreamPosition (int32 ((header.rootSector : ℤ) * sectorSize)) :=
    streamPosition_int32 (Dvd.intro_left _ rfl)
  obtain ⟨b, hread⟩ : ∃ b, diskStreamRead image
      (diskStreamSeek ⟨0⟩ (fat16SectoreToAbsolute header.rootDirSectorPos)) header.rootDirSize =
        .ok b := by
    unfold fat16SectoreToAbsolute
    rw [header.rootDirSectorPos_eq, header.rootDirSize_eq]
    exact ⟨_, diskStreamRead_eq hpos _⟩
  refine ⟨fat16RootDirectory header dir b.1 total, t, ?_⟩
  unfold fat16GetRootDirectory
  rw [Fallible.bind_ok (run_readDisk.2 ⟨htotal, rfl⟩), Fallible.bind_ok halloc, if_neg hdir,
    Fallible.bind_ok (run_readDisk.2 ⟨hread, rfl⟩)]
  rfl

/-- **A volume that is accepted.** It bears the signature, its root
directory is counted, and the heap has six blocks. -/
theorem fat16Resolve_of_room {total : ℤ} (hsig : (volumeHeader image).signature = fat16Signature)
    (hentries : 0 < (volumeHeader image).rootDirEntries.toNat)
    (hle : (volumeHeader image).rootDirEntries.toNat ≤ 128)
    (htotal : fat16GetTotalItemsForDirectory image (volumeHeader image).rootDirSectorPos = .ok total)
    (r : s.store.heap.Ready) (hr : s.store.heap.Room n) (hn : n + 5 < s.store.heap.total) :
    ∃ s', fat16Resolve image s = .ok (0, s') := by
  obtain ⟨p, t₁, h₁, hp, e₁, -, -, r₁⟩ := inStore_kernelZalloc_of_room sizeofFatPrivate r hr
    (by decide) (by decide) (by omega)
  have htotal₁ := e₁.place.total
  obtain ⟨t₂, h₂, e₂, r₂⟩ := @fat16InitPrivate_of_room { s with store := t₁ } (n + 1) p hp
    (e₁.place.ready r) r₁ (by change _ < t₁.heap.total; omega)
  have htotal₂ : t₂.heap.total = t₁.heap.total := e₂.total
  obtain ⟨q, t₃, h₃, e₃, r₃⟩ := @diskStreamNew_of_room
    { s with store := t₂, disk := ⟨some .fat16, some clearedFatPrivate⟩ } (n + 4)
    (e₂.ready (e₁.place.ready r)) r₂ (by change _ < t₂.heap.total; omega)
  have htotal₃ : t₃.heap.total = t₂.heap.total := e₃.total
  obtain ⟨stream, hheader⟩ := diskStreamRead_header image
  obtain ⟨directory, t₄, h₄⟩ := @fat16GetRootDirectory_of_room image (volumeHeader image)
    { s with store := t₃, disk := ⟨some .fat16,
      some { clearedFatPrivate with header := volumeHeader image }⟩ } (n + 5)
    clearedFatPrivate.rootDirectory total hentries hle htotal
    (e₃.ready (e₂.ready (e₁.place.ready r))) r₃ (by change _ < t₃.heap.total; omega)
  have hvolume : fat16ResolveVolume image
      { s with store := t₃, disk := ⟨some .fat16, some clearedFatPrivate⟩ } =
        .ok (0, { s with
          store := t₄, disk := ⟨some .fat16, some ⟨volumeHeader image, directory⟩⟩ }) := by
    unfold fat16ResolveVolume
    rw [Fallible.bind_ok (run_readDisk.2 ⟨hheader, rfl⟩)]
    change (do
      setFsPrivate (some { clearedFatPrivate with header := volumeHeader image })
      if (volumeHeader image).signature ≠ fat16Signature then pure (-fileSystemNotUsError)
      else do
        let root ← fat16GetRootDirectory image (volumeHeader image) clearedFatPrivate.rootDirectory
        setFsPrivate (some ⟨volumeHeader image, root.2⟩)
        if root.1 ≠ allOk then pure (-ioError) else pure 0 : FsM ℤ) _ = _
    rw [if_neg (not_not.2 hsig)]
    refine Fallible.run_seq.2 ⟨_, run_setFsPrivate.2 rfl, Fallible.run_bind.2 ⟨_, _, h₄, ?_⟩⟩
    refine Fallible.run_seq.2 ⟨{ s with
      store := t₄, disk := ⟨some .fat16, some ⟨volumeHeader image, directory⟩⟩ }, ?_, ?_⟩
    · exact run_setFsPrivate.2 rfl
    · exact Fallible.run_pure.2 ⟨rfl, rfl⟩
  refine ⟨{ s with
    store := { t₄ with heap := t₄.heap.write (heapFree t₄.heap q) }
    disk := ⟨some .fat16, some ⟨volumeHeader image, directory⟩⟩ }, ?_⟩
  unfold fat16Resolve
  refine Fallible.run_bind.2 ⟨_, _, h₁, Fallible.run_seq.2 ⟨_, h₂, Fallible.run_seq.2 ⟨_,
    Fallible.run_modify.2 rfl, Fallible.run_bind.2 ⟨_, _, h₃, Fallible.run_bind.2 ⟨_, _, hvolume,
      Fallible.run_seq.2 ⟨_, run_kernelFree.2 rfl, ?_⟩⟩⟩⟩⟩⟩
  exact Fallible.run_pure.2 ⟨rfl, rfl⟩

end

/-! ## Items and records -/

/-- **The root directory ends.** No record behind it is reached that is
not deleted: the first record that begins with 0x00 is in it, or only
deleted ones are between its end and that record. -/
def RootEnds (image : Sectors) (header : FatHeader) : Prop :=
  ∀ j, (∀ i ≤ j, recordByte image (header.rootDirSectorPos * sectorSize) i ≠ 0x00) →
    recordByte image (header.rootDirSectorPos * sectorSize) j ≠ 0xE5 →
      j < header.rootDirEntries.toNat

/-- **What the count of a root directory is for**: there are no more items
than records, every item's record is in the buffer, and no record behind
the directory was counted. -/
structure DirectoryBounded (image : Sectors) (fat : FatPrivate) : Prop where
  nonneg : 0 ≤ fat.rootDirectory.total
  le : fat.rootDirectory.total ≤ fat.header.rootDirEntries.toNat
  inside : ∀ i : ℕ, i < fat.rootDirectory.total →
    sizeofFatDirectoryItem * (i + 1) ≤ fat.rootDirectory.bytes.length
  counted : ∃ counted,
    fat16GetTotalItemsForDirectoryMet image fat.header.rootDirSectorPos = .ok counted ∧
      fat.rootDirectory.total = counted.length ∧
      ∀ j ∈ counted, j < fat.header.rootDirEntries.toNat

/-- What is counted of a directory that ends is inside it. -/
theorem CountsUpTo.lt_iff {counted : List ℕ} {n : ℕ}
    (h : CountsUpTo image (header.rootDirSectorPos * sectorSize) 0 n counted) :
    (∀ j ∈ counted, j < header.rootDirEntries.toNat) ↔ RootEnds image header := by
  have hmem : ∀ j, j ∈ counted ↔
      j < n ∧ recordByte image (header.rootDirSectorPos * sectorSize) j ≠ 0xE5 := by
    intro j
    rw [h.counted, List.mem_filter, List.mem_range'_1, decide_eq_true_eq, Nat.zero_add]
    exact ⟨fun hj => ⟨hj.1.2, hj.2⟩, fun hj => ⟨⟨Nat.zero_le j, hj.1⟩, hj.2⟩⟩
  have hend := h.ends
  rw [Nat.zero_add] at hend
  constructor
  · intro hall j hbefore hlive
    have hlt : j < n := by
      by_contra hle
      exact hbefore n (not_lt.1 hle) hend
    exact hall j ((hmem j).2 ⟨hlt, hlive⟩)
  · intro hroot j hj
    obtain ⟨hlt, hlive⟩ := (hmem j).1 hj
    exact hroot j (fun i hi => h.before i (Nat.zero_le i) (by omega)) hlive

/-- No more records are counted than there are numbers for. -/
theorem CountsUpTo.length_le {counted : List ℕ} {start : ℤ} {n b : ℕ}
    (h : CountsUpTo image start 0 n counted) (hb : ∀ j ∈ counted, j < b) : counted.length ≤ b := by
  have hnodup : counted.Nodup := by
    rw [h.counted]
    have hrange : (List.range' 0 n).Nodup := List.nodup_range'
    exact hrange.filter _
  have hle := (hnodup.subperm fun j hj => List.mem_range.2 (hb j hj)).length_le
  rwa [List.length_range] at hle

/-- **When no more items are counted than there are records**: the root
directory ends. -/
theorem directoryBounded_iff (h : fat16Resolve image s = .ok (0, s')) :
    ∃ fat, s'.disk.fsPrivate = some fat ∧
      (DirectoryBounded image fat ↔ RootEnds image (volumeHeader image)) := by
  obtain ⟨dir, total, -, -, htotal, hdisk⟩ := fat16Resolve_cases h
  obtain ⟨counted, n, hmet, hlen, hcounts⟩ := fat16GetTotalItemsForDirectory_cases htotal
  rw [hdisk]
  refine ⟨_, rfl, ?_⟩
  rw [← hcounts.lt_iff]
  constructor
  · intro hbounded
    obtain ⟨counted', hmet', -, hlt⟩ := hbounded.counted
    change fat16GetTotalItemsForDirectoryMet image (volumeHeader image).rootDirSectorPos = _ at hmet'
    rw [hmet] at hmet'
    cases hmet'
    exact hlt
  · intro hlt
    have hle := hcounts.length_le hlt
    refine ⟨?_, ?_, fun i hi => ?_, counted, hmet, hlen, hlt⟩
    · change 0 ≤ total
      omega
    · change total ≤ (volumeHeader image).rootDirEntries.toNat
      omega
    · change (i : ℤ) < total at hi
      change 32 * (i + 1) ≤ (bytesAt _ _ _).length
      rw [length_bytesAt]
      change 32 * (i + 1) ≤ _ * 32
      omega

/-! ### Small volumes -/

/-- The first byte of a record of sector 2. -/
theorem recordByte_eq (image : Sectors) {j : ℕ} (h : j < 16) :
    recordByte image (2 * sectorSize) j = image 2 (32 * j) := by
  have hpos : int32 (2 * sectorSize + sizeofFatDirectoryItem * j) = 1024 + 32 * j :=
    int32_of_range (by unfold sectorSize sizeofFatDirectoryItem; omega)
      (by unfold sectorSize sizeofFatDirectoryItem; omega)
  have hsector : (1024 + 32 * (j : ℤ)) / 512 = 2 := by omega
  have hoffset : ((1024 + 32 * (j : ℤ)) % 512).toNat = 32 * j := by omega
  unfold recordByte byteAt
  rw [hpos, hsector, hoffset]

/-- A volume with one reserved sector, one table of a sector, and its root
directory, the bytes `root`, from sector 2 on. -/
def smallVolume (sectorsPerCluster rootDirEntries : Byte) (root : ℕ → Byte) : Sectors := fun lba i =>
  if lba = 0 then [0, 0, 0, 0, 0, 0, 0, 0, 0, 0, 0, 0, 0, sectorsPerCluster, 1, 0, 1, rootDirEntries,
    0, 0, 0, 0, 1, 0, 0, 0, 0, 0, 0, 0, 0, 0, 0, 0, 0, 0, 0, 0, 0x29].getD i 0
  else if lba = 2 then root i
  else 0

section
variable {sectorsPerCluster rootDirEntries : Byte} {root : ℕ → Byte}

theorem volumeHeader_smallVolume :
    volumeHeader (smallVolume sectorsPerCluster rootDirEntries root) =
      ⟨sectorsPerCluster, 1, 1, halfWord rootDirEntries 0, 1, 0x29⟩ := by
  unfold volumeHeader FatHeader.ofBytes bytesAt
  simp only [getD_tabulate, sizeofFatH, Nat.reduceLT]
  simp [byteAt, int32, smallVolume, halfWord]

theorem rootDirSectorPos_smallVolume :
    (volumeHeader (smallVolume sectorsPerCluster rootDirEntries root)).rootDirSectorPos = 2 := by
  rw [volumeHeader_smallVolume, FatHeader.rootDirSectorPos_eq]
  rfl

/-- The first bytes of the records of its first sector. -/
theorem recordByte_smallVolume {j : ℕ} (h : j < 16) :
    recordByte (smallVolume sectorsPerCluster rootDirEntries root) (2 * sectorSize) j =
      root (32 * j) := recordByte_eq _ h

/-- It is accepted when the root directory ends in its first sector. -/
theorem fat16Resolve_smallVolume {n : ℕ} (hentries : 0 < rootDirEntries.toNat)
    (hle : rootDirEntries.toNat ≤ 128) (hn : n < 16) (hend : root (32 * n) = 0)
    (hbefore : ∀ j < n, root (32 * j) ≠ 0) :
    ∃ s', fat16Resolve (smallVolume sectorsPerCluster rootDirEntries root) bootFs = .ok (0, s') := by
  have hhalf : (halfWord rootDirEntries 0).toNat = rootDirEntries.toNat := by
    unfold halfWord
    rw [BitVec.toNat_append]
    simp
  obtain ⟨total, htotal⟩ := @fat16GetTotalItemsForDirectory_of_ends
    (smallVolume sectorsPerCluster rootDirEntries root) n 2 (by decide)
    (show (1024 : ℤ) + 32 * n < 2 ^ 31 by omega) (by rw [recordByte_smallVolume hn, hend])
    (fun j hj => by rw [recordByte_smallVolume (hj.trans hn)]; exact hbefore j hj)
  exact @fat16Resolve_of_room _ bootFs 0 total (by rw [volumeHeader_smallVolume]; rfl)
    (by rw [volumeHeader_smallVolume, hhalf]; exact hentries)
    (by rw [volumeHeader_smallVolume, hhalf]; exact hle)
    (by rw [rootDirSectorPos_smallVolume]; exact htotal)
    ready_kernelHeapInit room_kernelHeapInit (by decide)

end

/-- Three records and the end mark: two with a name of one letter, padded
with blanks, and one that is deleted. -/
def lettersRoot (i : ℕ) : Byte :=
  if i < 96 then
    if i % 32 = 0 then [0x41, 0x42, 0xE5].getD (i / 32) 0 else if i % 32 < 11 then 0x20 else 0
  else 0

/-- The third record is deleted and the fourth is the end mark. -/
theorem lettersRoot_ends : lettersRoot (32 * 3) = 0 ∧ (∀ j < 3, lettersRoot (32 * j) ≠ 0) := by
  decide

/-- **Two items and a deleted record**, in a directory of sixteen. -/
theorem directoryBounded_letters :
    ∃ (s' : FsState) (fat : FatPrivate),
      fat16Resolve (smallVolume 1 16 lettersRoot) bootFs = .ok (0, s') ∧
      s'.disk.fsPrivate = some fat ∧ fat.rootDirectory.total = 2 ∧
        DirectoryBounded (smallVolume 1 16 lettersRoot) fat := by
  obtain ⟨hend, hbefore⟩ := lettersRoot_ends
  obtain ⟨s', h⟩ := @fat16Resolve_smallVolume 1 16 lettersRoot 3 (by decide) (by decide)
    (by decide) hend hbefore
  obtain ⟨dir, total, -, -, htotal, hdisk⟩ := fat16Resolve_cases h
  obtain ⟨counted, n, -, hlen, hcounts⟩ := fat16GetTotalItemsForDirectory_cases htotal
  obtain ⟨fat, hfat, hiff⟩ := directoryBounded_iff h
  rw [rootDirSectorPos_smallVolume] at hcounts
  have hbyte : ∀ j < 16, recordByte (smallVolume 1 16 lettersRoot) (2 * sectorSize) j =
      lettersRoot (32 * j) := fun j hj => recordByte_smallVolume hj
  -- the count comes to the end mark
  have hn : n = 3 := by
    have hzero := hcounts.ends
    rw [Nat.zero_add] at hzero
    rcases lt_trichotomy n 3 with hlt | heq | hgt
    · exact absurd ((hbyte n (by omega)).symm.trans hzero) (hbefore n hlt)
    · exact heq
    · exact absurd ((hbyte 3 (by decide)).trans hend)
        (hcounts.before 3 (Nat.zero_le 3) (by omega))
  have hcounted : counted = [0, 1] := by
    rw [hcounts.counted, hn, ← List.range_eq_range']
    have hfilter : (List.range 3).filter (fun j => decide (lettersRoot (32 * j) ≠ 0xE5)) = [0, 1] := by
      decide
    rw [← hfilter]
    refine List.filter_congr fun j hj => ?_
    rw [hbyte j (by have := List.mem_range.1 hj; omega)]
  have heq := hfat
  rw [hdisk] at heq
  refine ⟨s', fat, h, hfat, ?_, hiff.2 fun j hnonzero _ => ?_⟩
  · rw [← Option.some.inj heq]
    change total = 2
    rw [hlen, hcounted]
    rfl
  · rw [rootDirSectorPos_smallVolume] at hnonzero
    rw [volumeHeader_smallVolume]
    change j < 16
    by_contra hge
    exact hnonzero 3 (by omega) ((hbyte 3 (by decide)).trans hend)

/-- **A root directory of one record**, with another behind it that is
counted too. -/
theorem not_directoryBounded :
    ¬ ∀ (image : Sectors) (s s' : FsState), fat16Resolve image s = .ok (0, s') →
      ∀ fat, s'.disk.fsPrivate = some fat → DirectoryBounded image fat := by
  intro h
  obtain ⟨s', hresolve⟩ := @fat16Resolve_smallVolume 1 1 (fun i => if i < 64 then 0x41 else 0) 2
    (by decide) (by decide) (by decide) rfl (by decide)
  obtain ⟨dir, total, -, -, htotal, hdisk⟩ := fat16Resolve_cases hresolve
  obtain ⟨counted, n, hmet, -, hcounts⟩ := fat16GetTotalItemsForDirectory_cases htotal
  have hbounded := h _ _ _ hresolve _ (by rw [hdisk])
  obtain ⟨counted', hmet', -, hlt⟩ := hbounded.counted
  change fat16GetTotalItemsForDirectoryMet _
    (volumeHeader (smallVolume 1 1 fun i => if i < 64 then 0x41 else 0)).rootDirSectorPos = _ at hmet'
  rw [hmet] at hmet'
  cases hmet'
  -- record 1 is counted, behind a directory of one
  have hroot := hcounts.lt_iff.1 hlt
  unfold RootEnds at hroot
  rw [rootDirSectorPos_smallVolume, volumeHeader_smallVolume] at hroot
  have hfalse := hroot 1 (fun i hi => by
    rw [recordByte_smallVolume (by omega), if_pos (by omega)]
    decide) (by
    rw [recordByte_smallVolume (by decide)]
    decide)
  exact absurd hfalse (by decide)

end OwnKernel
