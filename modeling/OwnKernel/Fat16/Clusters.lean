import OwnKernel.Disk.Stream
import OwnKernel.Model.Fat16
import Mathlib.Logic.Function.Iterate

/-!
# Following a file's clusters

What a FAT16 volume holds, by the positions its header gives
(`FatHeader.clusterPosition`, `fatEntry`, `FileChain`), against what
`fat16_read` delivers. The source seeks the *product* of the table's
position and the entry's, so the link it follows is `productEntry` and
not `fatEntry`. `fat16ReadInternal_eq` says what it reads,
`fat16Read_delivers_iff` when that is the file.
-/

namespace OwnKernel

variable {image : Sectors} {fat : FatPrivate} {header : FatHeader} {item : FatDirectoryItem}
variable {clusters : List ℕ} {c k n first : ℕ}

/-! ## What the volume holds -/

/-- The sector the root directory starts at. -/
def FatHeader.rootSector (h : FatHeader) : ℕ :=
  h.fatCopies.toNat * h.sectorsPerFat.toNat + h.reservedSectors.toNat

/-- The sector the data clusters start at. -/
def FatHeader.dataSector (h : FatHeader) : ℕ :=
  h.rootSector + h.rootDirEntries.toNat * sizeofFatDirectoryItem / sectorSize

/-- The position of cluster `c`, in bytes. -/
def FatHeader.clusterPosition (h : FatHeader) (c : ℕ) : ℤ :=
  (h.dataSector + ((c : ℤ) - 2) * h.sectorsPerCluster.toNat) * 512

/-- The 16-bit entry of cluster `c` in the volume's first table. -/
def fatEntry (image : Sectors) (header : FatHeader) (c : ℕ) : ℕ :=
  let position : ℤ := header.reservedSectors.toNat * 512 + 2 * c
  (halfWord (byteAt image position) (byteAt image (position + 1))).toNat

/-- The bytes of cluster `c`. -/
def clusterBytes (image : Sectors) (header : FatHeader) (c : ℕ) : List Byte :=
  tabulate (fun i => byteAt image (header.clusterPosition c + i)) (sizeOfClusterBytes header)

/-- What the chain `clusters` holds. -/
def chainBytes (image : Sectors) (header : FatHeader) (clusters : List ℕ) : List Byte :=
  clusters.flatMap (clusterBytes image header)

/-- A header of a volume that can be read: clusters are not empty, and the
root directory fills its sectors. -/
structure FatHeader.Valid (h : FatHeader) : Prop where
  clusters : 0 < h.sectorsPerCluster.toNat
  rootDirEntries : h.rootDirEntries.toNat % 16 = 0

/-- The driver's data is that of the volume. -/
structure Mounted (image : Sectors) (fat : FatPrivate) : Prop where
  header : fat.header = FatHeader.ofBytes (bytesAt image 0 sizeofFatH)
  dataSector : fat.rootDirectory.endingSectorPos = fat.header.dataSector

/-- **The chain of a file**: it starts at the record's cluster, goes from
link to link through the table up to an end mark, and has room for the
file. -/
structure FileChain (image : Sectors) (header : FatHeader) (item : FatDirectoryItem)
    (clusters : List ℕ) : Prop where
  high : item.high16BitsFirstCluster = 0
  first : clusters.head? = some item.low16BitsFirstCluster.toNat
  data : ∀ c ∈ clusters, 2 ≤ c ∧ c < 0xFFF0
  links : clusters.IsChain fun c d => fatEntry image header c = d
  last : ∀ c ∈ clusters.getLast?, 0xFFF8 ≤ fatEntry image header c
  covers : item.filesize.toNat ≤ clusters.length * sizeOfClusterBytes header

/-- The cluster the driver starts at is the chain's first. -/
theorem FileChain.fat16GetFirstCluster_eq (f : FileChain image header item clusters) :
    fat16GetFirstCluster item = clusters.getD 0 0 := by
  unfold fat16GetFirstCluster
  rw [f.high]
  change (0#16 ||| item.low16BitsFirstCluster).toNat = _
  rw [BitVec.zero_or]
  have := f.first
  cases clusters with
  | nil => cases this
  | cons c cs => exact (Option.some.inj this).symm

/-- The file's bytes, by index. -/
theorem take_chainBytes (hsize : 0 < sizeOfClusterBytes header)
    (hn : n ≤ clusters.length * sizeOfClusterBytes header) :
    (chainBytes image header clusters).take n = tabulate (fun i =>
      byteAt image (header.clusterPosition (clusters.getD (i / sizeOfClusterBytes header) 0) +
        (i % sizeOfClusterBytes header : ℕ))) n := by
  unfold chainBytes clusterBytes
  rw [flatMap_tabulate hsize 0 fun c i => byteAt image (header.clusterPosition c + (i : ℕ)),
    take_tabulate hn]

/-! ## What the driver follows -/

/-- The product of the table's position and the entry's. -/
def productPosition (header : FatHeader) (c : ℕ) : ℕ :=
  header.reservedSectors.toNat * sectorSize * (2 * c)

/-- The half word the driver takes for the entry of cluster `c`. -/
def productEntry (image : Sectors) (header : FatHeader) (c : ℕ) : ℕ :=
  let position : ℤ := productPosition header c
  (halfWord (byteAt image (int32 position)) (byteAt image (int32 (position + 1)))).toNat

/-- The cluster `k` such links from `first`. -/
def productCluster (image : Sectors) (header : FatHeader) (first k : ℕ) : ℕ :=
  (productEntry image header)^[k] first

/-- The first `k` links from `first` meet none of the entries the driver
stops at. -/
def NoMarker (image : Sectors) (header : FatHeader) (first k : ℕ) : Prop :=
  ∀ j < k, ¬ Fat16Marker (productCluster image header first (j + 1))

/-- No links meet nothing. -/
theorem noMarker_zero : NoMarker image header first 0 := fun j hj => absurd hj (Nat.not_lt_zero j)

theorem productEntry_lt : productEntry image header c < 2 ^ 16 := (halfWord _ _).isLt

theorem productCluster_lt (h : first < 2 ^ 16) :
    productCluster image header first k < 2 ^ 16 := by
  cases k with
  | zero => exact h
  | succ k =>
    unfold productCluster
    rw [Function.iterate_succ_apply']
    exact productEntry_lt

/-- The first link, then the others. -/
theorem productCluster_succ : productCluster image header first (k + 1) =
    productCluster image header (productEntry image header first) k := rfl

/-- The product is a sector boundary. -/
theorem dvd_productPosition (header : FatHeader) (c : ℕ) : (512 : ℤ) ∣ productPosition header c := by
  refine Int.natCast_dvd_natCast.2 ?_
  unfold productPosition
  exact Dvd.dvd.mul_right (Dvd.intro_left _ rfl) _

/-- **`fat16_get_fat_entry` reads at the product.** -/
theorem fat16GetFatEntry_eq (h : c < 2 ^ 16) :
    fat16GetFatEntry image fat c = .ok (productEntry image fat.header c : ℤ) := by
  have hr := fat.header.reservedSectors.isLt
  have htable : uint32 (fat16GetFirstFatSector fat * sectorSize) =
      fat.header.reservedSectors.toNat * sectorSize := by
    unfold fat16GetFirstFatSector
    rw [← Nat.cast_mul]
    exact uint32_natCast (by unfold sectorSize; omega)
  have hentry : uint32 ((c : ℤ) * fat16FatEntrySize) = 2 * c := by
    unfold fat16FatEntrySize uint32; omega
  have hpos := streamPosition_int32 (dvd_productPosition fat.header c)
  unfold fat16GetFatEntry
  simp only [htable, hentry, diskStreamSeek]
  rw [← Nat.cast_mul]
  change (do
    let r ← diskStreamRead image ⟨int32 (productPosition fat.header c)⟩ ((2 : ℕ) : ℤ)
    pure (((halfWord (r.1.getD 0 0) (r.1.getD 1 0)).toNat : ℕ) : ℤ)) = _
  rw [diskStreamRead_eq hpos 2]
  simp only [bind, Except.bind, pure, Except.pure]
  unfold productEntry bytesAt
  rw [getD_tabulate (by decide), getD_tabulate (by decide), int32_int32_add, int32_int32_add]
  simp

/-- **The loop of `fat16_get_cluster_for_offset`**, where no link stops
it. -/
theorem fat16FollowClusters_eq (h : first < 2 ^ 16) (hn : NoMarker image fat.header first n) :
    fat16FollowClusters image fat n first = .ok (productCluster image fat.header first n : ℤ) := by
  induction n generalizing first with
  | zero => rfl
  | succ n ih =>
    unfold fat16FollowClusters
    rw [fat16GetFatEntry_eq h]
    simp only [bind, Except.bind]
    have hfirst : ¬ Fat16Marker (productEntry image fat.header first) := hn 0 (Nat.succ_pos _)
    rw [if_neg hfirst, ih productEntry_lt fun j hj => hn (j + 1) (by omega), productCluster_succ]

/-- The loop, where a link stops it. -/
theorem fat16FollowClusters_of_marker (h : first < 2 ^ 16)
    (hn : ¬ NoMarker image fat.header first n) :
    fat16FollowClusters image fat n first = .ok (-ioError) := by
  induction n generalizing first with
  | zero => exact absurd (fun j hj => absurd hj (Nat.not_lt_zero j)) hn
  | succ n ih =>
    unfold fat16FollowClusters
    rw [fat16GetFatEntry_eq h]
    simp only [bind, Except.bind]
    by_cases hm : Fat16Marker (productEntry image fat.header first)
    · rw [if_pos hm]
      rfl
    · rw [if_neg hm]
      refine ih productEntry_lt fun hall => hn fun j hj => ?_
      cases j with
      | zero => exact hm
      | succ j => exact hall j (by omega)

/-- **`fat16_get_cluster_for_offset`**, where no link stops it. -/
theorem fat16GetClusterForOffset_of_noMarker {o : ℤ} (hsize : 0 < sizeOfClusterBytes fat.header)
    (h : first < 2 ^ 16)
    (hn : NoMarker image fat.header first (o.tdiv (sizeOfClusterBytes fat.header)).toNat) :
    fat16GetClusterForOffset image fat first o =
      .ok (productCluster image fat.header first
        (o.tdiv (sizeOfClusterBytes fat.header)).toNat : ℤ) := by
  unfold fat16GetClusterForOffset
  rw [if_neg (by omega)]
  simp only
  rw [fat16FollowClusters_eq h hn]

/-- `fat16_get_cluster_for_offset`, where a link stops it. -/
theorem fat16GetClusterForOffset_of_not_noMarker {o : ℤ}
    (hsize : 0 < sizeOfClusterBytes fat.header) (h : first < 2 ^ 16)
    (hn : ¬ NoMarker image fat.header first (o.tdiv (sizeOfClusterBytes fat.header)).toNat) :
    fat16GetClusterForOffset image fat first o = .ok (-ioError) := by
  unfold fat16GetClusterForOffset
  rw [if_neg (by omega)]
  simp only
  rw [fat16FollowClusters_of_marker h hn]

/-- The cluster of an offset in the file. -/
theorem toNat_tdiv (o size : ℕ) : ((o : ℤ).tdiv size).toNat = o / size := by
  rw [Int.tdiv_eq_ediv_of_nonneg (by omega), ← Int.natCast_ediv, Int.toNat_natCast]

/-- The cluster found for an offset in the file. -/
theorem fat16GetClusterForOffset_eq (image : Sectors) (o : ℕ)
    (hsize : 0 < sizeOfClusterBytes fat.header)
    (h : first < 2 ^ 16) (hn : NoMarker image fat.header first (o / sizeOfClusterBytes fat.header)) :
    fat16GetClusterForOffset image fat first o =
      .ok (productCluster image fat.header first (o / sizeOfClusterBytes fat.header) : ℤ) := by
  rw [← toNat_tdiv] at hn ⊢
  exact fat16GetClusterForOffset_of_noMarker hsize h hn

/-- No cluster is found for an offset behind a link that stops it. -/
theorem fat16GetClusterForOffset_of_marker (image : Sectors) (o : ℕ)
    (hsize : 0 < sizeOfClusterBytes fat.header)
    (h : first < 2 ^ 16)
    (hn : ¬ NoMarker image fat.header first (o / sizeOfClusterBytes fat.header)) :
    fat16GetClusterForOffset image fat first o = .ok (-ioError) := by
  rw [← toNat_tdiv] at hn
  exact fat16GetClusterForOffset_of_not_noMarker hsize h hn

/-! ## What the driver delivers -/

/-- The data begins less than 2^25 sectors into the volume. -/
theorem FatHeader.dataSector_lt (h : FatHeader) : h.dataSector < 2 ^ 25 := by
  have hcopies := h.fatCopies.isLt
  have hentries := h.rootDirEntries.isLt
  have hreserved := h.reservedSectors.isLt
  have hfats : h.fatCopies.toNat * h.sectorsPerFat.toNat ≤ 255 * 65535 :=
    Nat.mul_le_mul (by omega) (by have := h.sectorsPerFat.isLt; omega)
  unfold FatHeader.dataSector FatHeader.rootSector sizeofFatDirectoryItem sectorSize
  omega

/-- **`fat16_cluster_to_sector` is right**: the sector of a cluster is an
`int`, and begins at the cluster's position. -/
theorem fat16ClusterToSector_mul (hdata : fat.rootDirectory.endingSectorPos = fat.header.dataSector)
    (h : c < 2 ^ 16) :
    fat16ClusterToSector fat c * sectorSize = fat.header.clusterPosition c := by
  have hlt := fat.header.dataSector_lt
  have hspc : c * fat.header.sectorsPerCluster.toNat ≤ 65535 * 255 :=
    Nat.mul_le_mul (by omega) (by have := fat.header.sectorsPerCluster.isLt; omega)
  have hspc' := fat.header.sectorsPerCluster.isLt
  have hmul : ((c : ℤ) - 2) * fat.header.sectorsPerCluster.toNat =
      (c * fat.header.sectorsPerCluster.toNat : ℕ) -
        2 * (fat.header.sectorsPerCluster.toNat : ℤ) := by
    push_cast
    ring
  unfold fat16ClusterToSector FatHeader.clusterPosition
  rw [hdata, hmul, int32_of_range (by omega) (by omega)]
  rfl

/-- Clusters begin at sector boundaries. -/
theorem FatHeader.dvd_clusterPosition (h : FatHeader) (c : ℕ) : (512 : ℤ) ∣ h.clusterPosition c :=
  Dvd.intro_left _ rfl

/-- **One piece of `fat16_read_internal_from_stream`**: the bytes up to
the piece's end or the request's, then the rest from the piece behind. -/
theorem fat16ReadInternal_step (hdata : fat.rootDirectory.endingSectorPos = fat.header.dataSector)
    (hsize : 0 < sizeOfClusterBytes fat.header) {cluster offset : ℤ} {w : ℕ} (hw : w < 2 ^ 16)
    (hcluster : fat16GetClusterForOffset image fat cluster offset = .ok (w : ℤ))
    (hpos : StreamPosition (int32 (fat.header.clusterPosition w +
      offset.tmod (sizeOfClusterBytes fat.header)))) (n : ℕ) :
    fat16ReadInternal image fat cluster offset n =
      if sizeOfClusterBytes fat.header < n then do
        let rest ← fat16ReadInternal image fat cluster
          (int32 (offset + sizeOfClusterBytes fat.header)) (n - sizeOfClusterBytes fat.header : ℕ)
        pure (rest.1, bytesAt image (int32 (fat.header.clusterPosition w +
          offset.tmod (sizeOfClusterBytes fat.header))) (sizeOfClusterBytes fat.header) ++ rest.2)
      else .ok (allOk, bytesAt image (int32 (fat.header.clusterPosition w +
        offset.tmod (sizeOfClusterBytes fat.header))) n) := by
  rw [fat16ReadInternal]
  simp only [diskStreamSeek]
  rw [if_neg (by omega), hcluster]
  simp only [bind, Except.bind]
  rw [if_neg (by omega), fat16ClusterToSector_mul hdata hw]
  by_cases hlt : sizeOfClusterBytes fat.header < n
  · rw [if_pos hlt, if_pos (by omega), diskStreamRead_eq hpos]
    simp only
    rw [if_pos (by omega), Nat.cast_sub (by omega)]
  · rw [if_neg hlt, if_neg (by omega), diskStreamRead_eq hpos]
    simp only
    rw [if_neg (by omega)]
    rfl

/-- What the driver takes for byte `o` of the file. -/
def productByte (image : Sectors) (header : FatHeader) (first o : ℕ) : Byte :=
  byteAt image (int32 (header.clusterPosition
    (productCluster image header first (o / sizeOfClusterBytes header)) +
      (o % sizeOfClusterBytes header : ℕ)))

/-- The bytes of one piece. -/
theorem bytesAt_eq_tabulate_productByte (hsize : 0 < sizeOfClusterBytes header)
    (hn : n ≤ sizeOfClusterBytes header) :
    bytesAt image (int32 (header.clusterPosition (productCluster image header first k))) n =
      tabulate (fun i => productByte image header first (k * sizeOfClusterBytes header + i)) n := by
  refine tabulate_inj.2 fun i hi => ?_
  unfold productByte
  rw [Nat.mul_comm, Nat.mul_add_div hsize, Nat.div_eq_of_lt (by omega), Nat.add_zero,
    Nat.mul_add_mod, Nat.mod_eq_of_lt (by omega), int32_int32_add]

/-- One piece from the start of the file's cluster `k` on. -/
theorem fat16ReadInternal_piece
    (hdata : fat.rootDirectory.endingSectorPos = fat.header.dataSector)
    (hsize : 0 < sizeOfClusterBytes fat.header) (h : first < 2 ^ 16)
    (hmark : NoMarker image fat.header first k)
    (hfit : k * sizeOfClusterBytes fat.header + n ≤ 2 ^ 31) :
    fat16ReadInternal image fat first (k * sizeOfClusterBytes fat.header : ℕ) n =
      if sizeOfClusterBytes fat.header < n then do
        let rest ← fat16ReadInternal image fat first
          ((k + 1) * sizeOfClusterBytes fat.header : ℕ) (n - sizeOfClusterBytes fat.header : ℕ)
        pure (rest.1, tabulate (fun i => productByte image fat.header first
          (k * sizeOfClusterBytes fat.header + i)) (sizeOfClusterBytes fat.header) ++ rest.2)
      else .ok (allOk, tabulate (fun i => productByte image fat.header first
        (k * sizeOfClusterBytes fat.header + i)) n) := by
  have hk : k * sizeOfClusterBytes fat.header / sizeOfClusterBytes fat.header = k :=
    Nat.mul_div_cancel _ hsize
  have hcluster := fat16GetClusterForOffset_eq image (k * sizeOfClusterBytes fat.header) hsize h
    (hk.symm ▸ hmark)
  have hmod : ((k * sizeOfClusterBytes fat.header : ℕ) : ℤ).tmod
      (sizeOfClusterBytes fat.header) = 0 := by
    push_cast
    exact Int.mul_tmod_left ..
  rw [hk] at hcluster
  rw [fat16ReadInternal_step hdata hsize (productCluster_lt h) hcluster
    (by rw [hmod, Int.add_zero]; exact streamPosition_int32 (fat.header.dvd_clusterPosition _)),
    hmod, Int.add_zero]
  by_cases hlt : sizeOfClusterBytes fat.header < n
  · rw [if_pos hlt, if_pos hlt, bytesAt_eq_tabulate_productByte hsize le_rfl,
      int32_of_range (by omega) (by omega), Nat.add_one_mul, Nat.cast_add]
  · rw [if_neg hlt, if_neg hlt, bytesAt_eq_tabulate_productByte hsize (by omega)]

/-- The piece a request from cluster `k`'s start on ends in. -/
def lastPiece (size k n : ℕ) : ℕ := (k * size + n - 1) / size

theorem le_lastPiece {size : ℕ} (hsize : 0 < size) (hpos : 0 < n) : k ≤ lastPiece size k n := by
  unfold lastPiece
  rw [Nat.le_div_iff_mul_le hsize]
  omega

/-- The rest of a request ends where the request does. -/
theorem lastPiece_succ {size : ℕ} (h : size < n) :
    lastPiece size (k + 1) (n - size) = lastPiece size k n := by
  unfold lastPiece
  rw [Nat.add_one_mul]
  congr 1
  omega

/-- A request within a piece ends in it. -/
theorem lastPiece_of_le {size : ℕ} (hpos : 0 < n) (h : n ≤ size) : lastPiece size k n = k := by
  unfold lastPiece
  rw [Nat.add_sub_assoc hpos, Nat.mul_comm, Nat.mul_add_div (by omega), Nat.div_eq_of_lt (by omega),
    Nat.add_zero]

/-- **What `fat16_read_internal` delivers from a cluster's start on**,
where no link stops it. -/
theorem fat16ReadInternal_eq (hdata : fat.rootDirectory.endingSectorPos = fat.header.dataSector)
    (hsize : 0 < sizeOfClusterBytes fat.header) (h : first < 2 ^ 16) (n : ℕ) :
    ∀ k, 0 < n → k * sizeOfClusterBytes fat.header + n ≤ 2 ^ 31 →
      NoMarker image fat.header first (lastPiece (sizeOfClusterBytes fat.header) k n) →
      fat16ReadInternal image fat first (k * sizeOfClusterBytes fat.header : ℕ) n =
        .ok (allOk, tabulate (fun i => productByte image fat.header first
          (k * sizeOfClusterBytes fat.header + i)) n) := by
  induction n using Nat.strong_induction_on with
  | _ n ih =>
    intro k hpos hfit hmark
    have hle := le_lastPiece (k := k) hsize hpos
    rw [fat16ReadInternal_piece hdata hsize h (fun j hj => hmark j (by omega)) hfit]
    by_cases hlt : sizeOfClusterBytes fat.header < n
    · rw [if_pos hlt, ih _ (by omega) _ (by omega) (by rw [Nat.add_one_mul]; omega)
        (by rw [lastPiece_succ hlt]; exact hmark)]
      obtain ⟨m, rfl⟩ := Nat.exists_eq_add_of_le (Nat.le_of_lt hlt)
      simp only [bind, Except.bind, pure, Except.pure]
      rw [tabulate_add, Nat.add_sub_cancel_left]
      simp only [Nat.add_one_mul, Nat.add_assoc]
    · rw [if_neg hlt]

/-- A link that stops the driver is an error. -/
theorem fat16ReadInternal_of_marker
    (hdata : fat.rootDirectory.endingSectorPos = fat.header.dataSector)
    (hsize : 0 < sizeOfClusterBytes fat.header) (h : first < 2 ^ 16) (n : ℕ) :
    ∀ k, 0 < n → k * sizeOfClusterBytes fat.header + n ≤ 2 ^ 31 →
      ¬ NoMarker image fat.header first (lastPiece (sizeOfClusterBytes fat.header) k n) →
      ∃ bytes, fat16ReadInternal image fat first (k * sizeOfClusterBytes fat.header : ℕ) n =
        .ok (-ioError, bytes) := by
  induction n using Nat.strong_induction_on with
  | _ n ih =>
    intro k hpos hfit hmark
    by_cases hk : NoMarker image fat.header first k
    · rw [fat16ReadInternal_piece hdata hsize h hk hfit]
      by_cases hlt : sizeOfClusterBytes fat.header < n
      · obtain ⟨bytes, hrest⟩ := ih (n - sizeOfClusterBytes fat.header) (by omega) (k + 1)
          (by omega) (by rw [Nat.add_one_mul]; omega) (by rw [lastPiece_succ hlt]; exact hmark)
        rw [if_pos hlt, hrest]
        exact ⟨_, rfl⟩
      · rw [lastPiece_of_le hpos (by omega)] at hmark
        exact absurd hk hmark
    · -- the first link that stops it is on the way to this piece
      have hcluster := fat16GetClusterForOffset_of_marker image
        (k * sizeOfClusterBytes fat.header) hsize h (by rw [Nat.mul_div_cancel _ hsize]; exact hk)
      rw [fat16ReadInternal]
      simp only
      rw [if_neg (by omega), hcluster]
      simp only [bind, Except.bind]
      rw [if_pos (by decide)]
      exact ⟨[], rfl⟩

end OwnKernel
