import Mathlib.Algebra.Group.Action.Defs
import Mathlib.Algebra.Order.Interval.Set.Group
import Mathlib.Order.CompletePartialOrder
import Mathlib.Data.Int.ConditionallyCompleteOrder
import OwnKernel.Fat16.Clusters
import OwnKernel.Model.Fat16Resolve

/-!
# Where a volume's parts lie

The sectors of a volume by what they hold: the reserved sectors, the
copies of the table, the root directory, and the clusters from where
`fat16_get_root_directory` says that they begin. They lie apart when the
root directory fills its sectors (`volumeLayout_iff`). The position of a
byte in a cluster is an `int` and right below 2 GiB
(`exactPosition_iff`), which is less than a volume may have.
-/

namespace OwnKernel

variable {header : FatHeader} {fat : FatPrivate} {item : Word} {bytes : List Byte} {total : ℤ}
variable {c d : ℕ}

/-! ## The numbers `fat16_get_root_directory` computes -/

/-- The root directory begins less than 2^24 sectors into the volume. -/
theorem FatHeader.rootSector_lt (h : FatHeader) : h.rootSector < 2 ^ 24 := by
  have hreserved := h.reservedSectors.isLt
  have hcopies := h.fatCopies.isLt
  have htables : h.fatCopies.toNat * h.sectorsPerFat.toNat ≤ 255 * 65535 :=
    Nat.mul_le_mul (by omega) (by have := h.sectorsPerFat.isLt; omega)
  unfold FatHeader.rootSector
  omega

/-- The records end where the data begins, or in its first sector. -/
theorem FatHeader.dataSector_eq (h : FatHeader) :
    h.dataSector = h.rootSector + h.rootDirEntries.toNat / 16 := by
  unfold FatHeader.dataSector sizeofFatDirectoryItem sectorSize
  omega

theorem FatHeader.rootDirSectorPos_eq (h : FatHeader) : h.rootDirSectorPos = h.rootSector := by
  have hlt := h.rootSector_lt
  unfold FatHeader.rootDirSectorPos
  rw [← Nat.cast_mul, ← Nat.cast_add]
  exact int32_of_range (x := h.rootSector) (by omega) (by omega)

theorem FatHeader.rootDirSize_eq (h : FatHeader) :
    h.rootDirSize = (h.rootDirEntries.toNat * sizeofFatDirectoryItem : ℕ) := by
  have hentries := h.rootDirEntries.isLt
  unfold FatHeader.rootDirSize
  rw [← Nat.cast_mul]
  exact int32_of_range (by omega) (by unfold sizeofFatDirectoryItem; omega)

/-- **The clusters begin at the data sector**, with the root directory's
size rounded down. -/
theorem fat16RootDirectory_endingSectorPos :
    (fat16RootDirectory header item bytes total).endingSectorPos = header.dataSector := by
  have hlt := header.dataSector_lt
  unfold fat16RootDirectory
  simp only
  rw [header.rootDirSectorPos_eq, header.rootDirSize_eq, Int.tdiv_eq_ediv_of_nonneg (by omega),
    ← Int.natCast_ediv, ← Nat.cast_add]
  exact int32_of_range (x := header.dataSector) (by omega) (by omega)

/-! ## The parts of a volume -/

/-- The sectors of a cluster. -/
def clusterSectors (fat : FatPrivate) (c : ℕ) : Set ℤ :=
  Set.Ico (fat16ClusterToSector fat c)
    (fat16ClusterToSector fat c + fat.header.sectorsPerCluster.toNat)

/-- The reserved sectors. -/
def reservedArea (header : FatHeader) : Set ℤ := Set.Ico 0 (header.reservedSectors.toNat : ℤ)

/-- The sectors of copy `i` of the table. -/
def tableSectors (header : FatHeader) (i : ℕ) : Set ℤ :=
  Set.Ico (header.reservedSectors.toNat + i * header.sectorsPerFat.toNat : ℤ)
    (header.reservedSectors.toNat + (i + 1) * header.sectorsPerFat.toNat)

/-- The sectors that hold a byte of a record of the root directory. -/
def recordSectors (header : FatHeader) : Set ℤ :=
  {s | ∃ j < header.rootDirEntries.toNat, ∃ b < sizeofFatDirectoryItem,
    s = (header.rootDirSectorPos * sectorSize + (sizeofFatDirectoryItem * j + b : ℕ)) / sectorSize}

/-- A data cluster whose sectors have numbers that are `int`s. -/
structure DataCluster (header : FatHeader) (c : ℕ) : Prop where
  two_le : 2 ≤ c
  fits : header.dataSector + ((c : ℤ) - 1) * header.sectorsPerCluster.toNat < 2 ^ 31

/-- **What the layout of a volume is for**: the clusters lie apart from
each other and from everything else. -/
structure VolumeLayout (fat : FatPrivate) : Prop where
  clusters : ∀ c d, DataCluster fat.header c → DataCluster fat.header d → c ≠ d →
    Disjoint (clusterSectors fat c) (clusterSectors fat d)
  reserved : ∀ c, DataCluster fat.header c →
    Disjoint (clusterSectors fat c) (reservedArea fat.header)
  tables : ∀ c, DataCluster fat.header c → ∀ i < fat.header.fatCopies.toNat,
    Disjoint (clusterSectors fat c) (tableSectors fat.header i)
  rootDirectory : ∀ c, DataCluster fat.header c →
    Disjoint (clusterSectors fat c) (recordSectors fat.header)

/-- A cluster's sectors are as many as its number is behind 2. -/
theorem clusterSectors_eq (hdata : fat.rootDirectory.endingSectorPos = fat.header.dataSector)
    (h : DataCluster fat.header c) :
    clusterSectors fat c = Set.Ico
      ((fat.header.dataSector : ℤ) + ((c : ℤ) - 2) • (fat.header.sectorsPerCluster.toNat : ℤ))
      (fat.header.dataSector + (((c : ℤ) - 2) + 1) • (fat.header.sectorsPerCluster.toNat : ℤ)) := by
  have htwo := h.two_le
  have hfits := h.fits
  have hlo : 0 ≤ ((c : ℤ) - 2) * fat.header.sectorsPerCluster.toNat :=
    Int.mul_nonneg (by omega) (by omega)
  have hend : ((c : ℤ) - 1) * fat.header.sectorsPerCluster.toNat =
      ((c : ℤ) - 2) * fat.header.sectorsPerCluster.toNat + fat.header.sectorsPerCluster.toNat := by
    ring
  unfold clusterSectors fat16ClusterToSector
  rw [hdata, int32_of_range (by omega) (by omega)]
  congr 1
  rw [smul_eq_mul, add_one_mul]
  ring

/-- Clusters begin where the data does. -/
theorem dataSector_le_of_mem (hdata : fat.rootDirectory.endingSectorPos = fat.header.dataSector)
    (h : DataCluster fat.header c) {s : ℤ} (hs : s ∈ clusterSectors fat c) :
    (fat.header.dataSector : ℤ) ≤ s := by
  have htwo := h.two_le
  rw [clusterSectors_eq hdata h] at hs
  have hlo : 0 ≤ ((c : ℤ) - 2) * fat.header.sectorsPerCluster.toNat :=
    Int.mul_nonneg (by omega) (by omega)
  have hle := hs.1
  rw [smul_eq_mul] at hle
  omega

/-- The tables lie before the root directory. -/
theorem lt_rootSector_of_mem_tableSectors {i : ℕ} (hi : i < header.fatCopies.toNat) {s : ℤ}
    (hs : s ∈ tableSectors header i) : s < header.rootSector := by
  have hmul : (i + 1) * header.sectorsPerFat.toNat ≤
      header.fatCopies.toNat * header.sectorsPerFat.toNat := Nat.mul_le_mul_right _ hi
  have hlt := hs.2
  rw [← Nat.cast_one, ← Nat.cast_add, ← Nat.cast_mul] at hlt
  unfold FatHeader.rootSector
  omega

/-- The sectors that hold records, by their number. -/
theorem mem_recordSectors {s : ℤ} : s ∈ recordSectors header ↔
    ∃ j < header.rootDirEntries.toNat, s = header.rootSector + (j / 16 : ℕ) := by
  unfold recordSectors sizeofFatDirectoryItem sectorSize
  rw [header.rootDirSectorPos_eq]
  constructor
  · rintro ⟨j, hj, b, hb, rfl⟩
    exact ⟨j, hj, by omega⟩
  · rintro ⟨j, hj, rfl⟩
    exact ⟨j, hj, 0, by decide, by omega⟩

/-- Where the root directory does not fill its sectors, cluster 2 begins
in the sector of its last records. -/
theorem not_disjoint_recordSectors
    (hdata : fat.rootDirectory.endingSectorPos = fat.header.dataSector)
    (hspc : 1 ≤ fat.header.sectorsPerCluster.toNat) (h : fat.header.rootDirEntries.toNat % 16 ≠ 0) :
    DataCluster fat.header 2 ∧
      ¬ Disjoint (clusterSectors fat 2) (recordSectors fat.header) := by
  have hspc' := fat.header.sectorsPerCluster.isLt
  have hlt := fat.header.dataSector_lt
  have htwo : DataCluster fat.header 2 := ⟨le_rfl, by omega⟩
  refine ⟨htwo, Set.not_disjoint_iff.2 ⟨fat.header.dataSector, ?_, ?_⟩⟩
  · rw [clusterSectors_eq hdata htwo]
    refine ⟨?_, ?_⟩
    · simp
    · simp only [smul_eq_mul]
      omega
  · refine mem_recordSectors.2 ⟨fat.header.rootDirEntries.toNat - 1, by omega, ?_⟩
    rw [fat.header.dataSector_eq]
    omega

/-- Clusters lie apart from everything before the data. -/
theorem disjoint_of_lt_dataSector
    (hdata : fat.rootDirectory.endingSectorPos = fat.header.dataSector)
    (h : DataCluster fat.header c) {part : Set ℤ} (hpart : ∀ s ∈ part, s < fat.header.dataSector) :
    Disjoint (clusterSectors fat c) part :=
  Set.disjoint_left.2 fun _ hs hin => absurd (hpart _ hin) (dataSector_le_of_mem hdata h hs).not_gt

/-- The parts lie apart where the root directory fills its sectors. -/
theorem volumeLayout_of_full (hdata : fat.rootDirectory.endingSectorPos = fat.header.dataSector)
    (h : fat.header.rootDirEntries.toNat % 16 = 0) : VolumeLayout fat where
  clusters c d hc hd hne := by
    rw [clusterSectors_eq hdata hc, clusterSectors_eq hdata hd]
    exact Set.pairwise_disjoint_Ico_add_zsmul _ _ (by omega)
  reserved c hc := by
    refine disjoint_of_lt_dataSector hdata hc fun s hs => ?_
    have hlt : s < fat.header.reservedSectors.toNat := hs.2
    have hroot : fat.header.reservedSectors.toNat ≤ fat.header.rootSector := Nat.le_add_left _ _
    rw [fat.header.dataSector_eq]
    omega
  tables c hc i hi := by
    refine disjoint_of_lt_dataSector hdata hc fun s hs => ?_
    have hlt := lt_rootSector_of_mem_tableSectors hi hs
    rw [fat.header.dataSector_eq]
    omega
  rootDirectory c hc := by
    refine disjoint_of_lt_dataSector hdata hc fun s hs => ?_
    obtain ⟨j, hj, rfl⟩ := mem_recordSectors.1 hs
    rw [fat.header.dataSector_eq]
    omega

/-- **When a volume's parts lie apart**: the root directory fills its
sectors. -/
theorem volumeLayout_iff (hspc : 1 ≤ header.sectorsPerCluster.toNat) (item : Word)
    (bytes : List Byte) (total : ℤ) :
    VolumeLayout ⟨header, fat16RootDirectory header item bytes total⟩ ↔
      header.rootDirEntries.toNat % 16 = 0 := by
  constructor
  · intro layout
    by_contra hpart
    obtain ⟨htwo, hmeet⟩ := @not_disjoint_recordSectors
      ⟨header, fat16RootDirectory header item bytes total⟩
      fat16RootDirectory_endingSectorPos hspc hpart
    exact hmeet (layout.rootDirectory 2 htwo)
  · exact @volumeLayout_of_full ⟨header, fat16RootDirectory header item bytes total⟩
      fat16RootDirectory_endingSectorPos

/-- A root directory of one sector. -/
theorem volumeLayout_one_sector :
    VolumeLayout ⟨⟨1, 1, 2, 16, 1, 0x29⟩, fat16RootDirectory ⟨1, 1, 2, 16, 1, 0x29⟩ 0 [] 0⟩ ↔
      (16 : BitVec 16).toNat % 16 = 0 :=
  volumeLayout_iff (by decide) 0 [] 0

/-- **A root directory of eight records** shares its sector with cluster
2. -/
theorem not_volumeLayout :
    ¬ ∀ (header : FatHeader) (item : Word) (bytes : List Byte) (total : ℤ),
      1 ≤ header.sectorsPerCluster.toNat →
        VolumeLayout ⟨header, fat16RootDirectory header item bytes total⟩ := by
  intro h
  have layout := h ⟨1, 1, 2, 8, 1, 0x29⟩ 0 [] 0 (by decide)
  obtain ⟨htwo, hmeet⟩ := @not_disjoint_recordSectors
    ⟨⟨1, 1, 2, 8, 1, 0x29⟩, fat16RootDirectory ⟨1, 1, 2, 8, 1, 0x29⟩ 0 [] 0⟩
    fat16RootDirectory_endingSectorPos (by decide) (by decide)
  exact hmeet (layout.rootDirectory 2 htwo)

/-! ## The position of a byte -/

/-- The positions `fat16_read_internal_from_stream` seeks. -/
theorem fat16ReadInternal_seeks (image : Sectors) (fat : FatPrivate) (cluster offset total : ℤ) :
    fat16ReadInternal image fat cluster offset total =
      (if sizeOfClusterBytes fat.header = 0 then .error .divideError
      else do
        let clusterToUse ← fat16GetClusterForOffset image fat cluster offset
        if clusterToUse < 0 then pure (clusterToUse, [])
        else do
          let totalToRead := if total > sizeOfClusterBytes fat.header then
            (sizeOfClusterBytes fat.header : ℤ) else total
          let r ← diskStreamRead image
            (diskStreamSeek ⟨0⟩ (fat16StartingPos fat clusterToUse offset)) totalToRead
          if total - totalToRead > 0 then do
            let rest ← fat16ReadInternal image fat cluster (int32 (offset + totalToRead))
              (total - totalToRead)
            pure (rest.1, r.1 ++ rest.2)
          else pure (allOk, r.1)) := by
  rw [fat16ReadInternal]
  rfl

/-- **The position of byte `o` of cluster `c` is exact**, and so are the
sector and the offset that are made of it. -/
structure ExactPosition (fat : FatPrivate) (c o : ℕ) : Prop where
  position : fat16StartingPos fat c o = fat.header.clusterPosition c + o
  sector : (diskStreamSeek ⟨0⟩ (fat16StartingPos fat c o)).sector =
    (fat.header.clusterPosition c + o) / 512
  offset : (diskStreamSeek ⟨0⟩ (fat16StartingPos fat c o)).offset =
    (fat.header.clusterPosition c + o) % 512

/-- The position that is sought, before it is an `int`. -/
theorem fat16StartingPos_eq (hdata : fat.rootDirectory.endingSectorPos = fat.header.dataSector)
    (hc : c < 2 ^ 16) {o : ℕ} (ho : o < sizeOfClusterBytes fat.header) :
    fat16StartingPos fat c o = int32 (fat.header.clusterPosition c + o) := by
  unfold fat16StartingPos
  rw [fat16ClusterToSector_mul hdata hc, Int.tmod_eq_of_lt (by omega) (by omega)]

theorem FatHeader.clusterPosition_nonneg (h : FatHeader) (hc : 2 ≤ c) : 0 ≤ h.clusterPosition c := by
  have hmul : 0 ≤ ((c : ℤ) - 2) * h.sectorsPerCluster.toNat := Int.mul_nonneg (by omega) (by omega)
  unfold FatHeader.clusterPosition
  omega

/-- **When the position of a byte is exact**: below 2 GiB. This is so on
any volume, whether or not it ends below 4 GB. -/
theorem exactPosition_iff (header : FatHeader) (item : Word) (bytes : List Byte) (total : ℤ)
    {c o : ℕ} (hc : 2 ≤ c) (hle : c ≤ 0xFFEF) (ho : o < sizeOfClusterBytes header) :
    ExactPosition ⟨header, fat16RootDirectory header item bytes total⟩ c o ↔
      header.clusterPosition c + o < 2 ^ 31 := by
  have h0 := header.clusterPosition_nonneg hc
  have hlt : c < 2 ^ 16 := hle.trans_lt (by decide)
  have hpos : fat16StartingPos ⟨header, fat16RootDirectory header item bytes total⟩ c o =
      int32 (header.clusterPosition c + o) :=
    @fat16StartingPos_eq ⟨header, fat16RootDirectory header item bytes total⟩ c
      fat16RootDirectory_endingSectorPos hlt o ho
  constructor
  · intro h
    have hexact : fat16StartingPos _ c o = header.clusterPosition c + o := h.position
    rw [← hexact, hpos]
    exact int32_hi _
  · intro h
    have hnonneg : 0 ≤ header.clusterPosition c + o := by omega
    rw [int32_of_range (by omega) h] at hpos
    refine ⟨hpos, ?_, ?_⟩
    · rw [hpos]
      exact Int.tdiv_eq_ediv_of_nonneg hnonneg
    · rw [hpos]
      exact Int.tmod_eq_emod_of_nonneg hnonneg

/-- The header of the repository's boot sector. -/
def bootHeader : FatHeader := ⟨0x80, 200, 2, 0x40, 0x100, 0x29⟩

/-- The last byte of the volume the boot sector declares that is sought where
it is, and the next one: they lie in one cluster. -/
theorem exactPosition_boot :
    ExactPosition ⟨bootHeader, fat16RootDirectory bootHeader 0 [] 0⟩ 32764 26623 ∧
      ¬ ExactPosition ⟨bootHeader, fat16RootDirectory bootHeader 0 [] 0⟩ 32764 26624 :=
  ⟨(exactPosition_iff bootHeader 0 [] 0 (by decide) (by decide) (by decide)).2 (by decide),
    fun hexact => absurd ((exactPosition_iff bootHeader 0 [] 0 (by decide) (by decide)
      (by decide)).1 hexact) (by decide)⟩

/-- A cluster that ends inside a volume of `totalSectors`. -/
structure InVolume (header : FatHeader) (totalSectors c : ℕ) : Prop where
  two_le : 2 ≤ c
  le : c ≤ 0xFFEF
  fits : header.dataSector + ((c : ℤ) - 1) * header.sectorsPerCluster.toNat ≤ totalSectors

/-- **Cluster 32765 of that volume** is sought at a negative position. -/
theorem not_exactPosition :
    ¬ ∀ (header : FatHeader) (item : Word) (bytes : List Byte) (total : ℤ)
      (totalSectors c o : ℕ), totalSectors * sectorSize ≤ 2 ^ 32 →
        InVolume header totalSectors c → o < sizeOfClusterBytes header →
        ExactPosition ⟨header, fat16RootDirectory header item bytes total⟩ c o := by
  intro h
  have exact : fat16StartingPos _ _ _ = bootHeader.clusterPosition 32765 + (0 : ℕ) :=
    (h bootHeader 0 [] 0 7812500 32765 0 (by decide) ⟨by decide, by decide, by decide⟩
      (by decide)).position
  have hpos := @fat16StartingPos_eq ⟨bootHeader, fat16RootDirectory bootHeader 0 [] 0⟩ 32765
    fat16RootDirectory_endingSectorPos (by decide) 0 (by decide)
  rw [hpos] at exact
  exact absurd exact (by decide)

end OwnKernel
