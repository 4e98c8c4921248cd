import OwnKernel.Fat16.Clusters

/-!
# Reading a whole file

`fat16_read` of all of a file, from a fresh descriptor. What it delivers
is the file exactly when, for every cluster of the chain, the links at
the product positions lead to a cluster that holds the same bytes
(`PieceFound`, `fat16Read_delivers_iff`). That is so for the first
cluster of a volume below 2 GiB, and for the second by chance only
(`fat16Read_not_delivered`).
-/

namespace OwnKernel

variable {image : Sectors} {fat : FatPrivate} {header : FatHeader} {item : FatDirectoryItem}
variable {clusters : List ℕ} {k n : ℕ}

/-- **The driver finds cluster `k` of the file**: the first `k` links it
follows do not stop it, and lead to a cluster whose position, wrapped,
holds the bytes of the file there. -/
structure PieceFound (image : Sectors) (header : FatHeader) (clusters : List ℕ) (filesize k : ℕ) :
    Prop where
  links : NoMarker image header (clusters.getD 0 0) k
  bytes : ∀ i < sizeOfClusterBytes header, k * sizeOfClusterBytes header + i < filesize →
    byteAt image (int32 (header.clusterPosition
      (productCluster image header (clusters.getD 0 0) k) + i)) =
        byteAt image (header.clusterPosition (clusters.getD k 0) + i)

/-- Links that lead to the chain's own cluster find it below 2 GiB. -/
theorem PieceFound.of_cluster (hlinks : NoMarker image header (clusters.getD 0 0) k)
    (hcluster : productCluster image header (clusters.getD 0 0) k = clusters.getD k 0)
    (hlo : 0 ≤ header.clusterPosition (clusters.getD k 0))
    (hhi : header.clusterPosition (clusters.getD k 0) + sizeOfClusterBytes header ≤ 2 ^ 31) :
    PieceFound image header clusters n k where
  links := hlinks
  bytes i hi _ := by
    rw [hcluster, int32_of_range (by omega) (by omega)]

/-- The pieces, byte by byte. -/
theorem pieceFound_iff (hsize : 0 < sizeOfClusterBytes header) (hpos : 0 < n) :
    (∀ k, k * sizeOfClusterBytes header < n → PieceFound image header clusters n k) ↔
      NoMarker image header (clusters.getD 0 0) (lastPiece (sizeOfClusterBytes header) 0 n) ∧
        ∀ o < n, productByte image header (clusters.getD 0 0) o =
          byteAt image (header.clusterPosition (clusters.getD (o / sizeOfClusterBytes header) 0) +
            (o % sizeOfClusterBytes header : ℕ)) := by
  constructor
  · intro h
    refine ⟨(h _ ?_).links, fun o ho => ?_⟩
    · have := Nat.div_mul_le_self (n - 1) (sizeOfClusterBytes header)
      unfold lastPiece
      rw [Nat.zero_mul, Nat.zero_add]
      omega
    · have hsplit := Nat.div_add_mod' o (sizeOfClusterBytes header)
      exact (h (o / sizeOfClusterBytes header) (by omega)).bytes _ (Nat.mod_lt _ hsize) (by omega)
  · rintro ⟨hlinks, hbytes⟩ k hk
    refine ⟨fun j hj => hlinks j ?_, fun i hi hlt => ?_⟩
    · have hle : k ≤ lastPiece (sizeOfClusterBytes header) 0 n := by
        unfold lastPiece
        rw [Nat.le_div_iff_mul_le hsize]
        omega
      omega
    · have h := hbytes _ hlt
      unfold productByte at h
      rwa [Nat.mul_comm, Nat.mul_add_div hsize, Nat.div_eq_of_lt hi, Nat.add_zero,
        Nat.mul_add_mod, Nat.mod_eq_of_lt hi] at h

/-- One item read is one request. -/
theorem fat16ReadRecord_one (pos size : Word) :
    fat16ReadRecord image fat item pos size 1 = (do
      let r ← fat16ReadInternal image fat (fat16GetFirstCluster item) (int32 pos.toNat)
        (int32 size.toNat)
      pure (if r.1 < 0 then r.1 else (1 : ℤ), r.2)) := by
  have hone : (1 : Word).toNat = 1 := rfl
  have hres : int32 (1 : ℕ) = 1 := by decide
  unfold fat16ReadRecord
  rw [hone, hres]
  unfold fat16ReadLoop
  cases fat16ReadInternal image fat (fat16GetFirstCluster item) (int32 pos.toNat)
    (int32 size.toNat) with
  | error e => rfl
  | ok r =>
    simp only [bind, Except.bind, pure, Except.pure]
    by_cases hneg : r.1 < 0
    · rw [if_pos hneg, if_pos hneg]
      simp only
      rw [if_pos hneg]
    · rw [if_neg hneg, if_neg hneg]
      simp only [fat16ReadLoop, pure, Except.pure]
      rw [if_neg (by decide), List.append_nil]

/-- A size of 2 GiB or more is a negative `int`: nothing is read. -/
theorem fat16ReadInternal_of_nonpos (hsize : 0 < sizeOfClusterBytes fat.header) {first : ℕ}
    (h : first < 2 ^ 16) {o total : ℤ}
    (hlinks : NoMarker image fat.header first (o.tdiv (sizeOfClusterBytes fat.header)).toNat)
    (hneg : total ≤ 0) :
    fat16ReadInternal image fat first o total = .ok (allOk, []) := by
  rw [fat16ReadInternal]
  simp only [diskStreamSeek]
  rw [if_neg (by omega), fat16GetClusterForOffset_of_noMarker hsize h hlinks]
  simp only [bind, Except.bind]
  obtain ⟨stream, hread⟩ := diskStreamRead_of_nonpos image
    (int32 (fat16ClusterToSector fat (productCluster image fat.header first
      (o.tdiv (sizeOfClusterBytes fat.header)).toNat) * sectorSize +
        o.tmod (sizeOfClusterBytes fat.header))) hneg
  rw [if_neg (by omega), if_neg (by omega), hread]
  simp only
  rw [if_neg (by omega)]
  rfl

/-- **When `fat16_read` delivers a file.** The read of all of a file, from
a fresh descriptor, returns 1 and the bytes of the file's chain exactly
when the file is below 2 GiB and the driver finds each of its clusters. -/
theorem fat16Read_delivers_iff (m : Mounted image fat) (v : fat.header.Valid)
    (f : FileChain image fat.header item clusters) (hpos : 0 < item.filesize.toNat) :
    fat16ReadRecord image fat item 0 item.filesize 1 =
        .ok (1, (chainBytes image fat.header clusters).take item.filesize.toNat) ↔
      item.filesize.toNat < 2 ^ 31 ∧
        ∀ k, k * sizeOfClusterBytes fat.header < item.filesize.toNat →
          PieceFound image fat.header clusters item.filesize.toNat k := by
  have hsize : 0 < sizeOfClusterBytes fat.header := Nat.mul_pos v.clusters (by decide)
  have hfirst := f.fat16GetFirstCluster_eq
  have h16 : clusters.getD 0 0 < 2 ^ 16 := hfirst ▸ BitVec.isLt _
  have hpos0 : int32 (0 : Word).toNat = 0 := by decide
  rw [fat16ReadRecord_one, hfirst, take_chainBytes hsize f.covers, hpos0]
  by_cases hlt : item.filesize.toNat < 2 ^ 31
  · have hzero : ((0 * sizeOfClusterBytes fat.header : ℕ) : ℤ) = 0 := by rw [Nat.zero_mul]; rfl
    rw [int32_of_range (by omega) (by omega), ← hzero, pieceFound_iff hsize hpos]
    by_cases hlinks : NoMarker image fat.header (clusters.getD 0 0)
      (lastPiece (sizeOfClusterBytes fat.header) 0 item.filesize.toNat)
    · rw [fat16ReadInternal_eq m.dataSector hsize h16 _ 0 hpos (by omega) hlinks]
      simp only [bind, Except.bind, pure, Except.pure, Nat.zero_mul, Nat.zero_add]
      rw [if_neg (by decide), ← tabulate_inj]
      constructor
      · intro h
        exact ⟨hlt, hlinks, (Prod.mk.inj (Except.ok.inj h)).2⟩
      · rintro ⟨-, -, h⟩
        rw [h]
    · obtain ⟨bytes, hread⟩ :=
        fat16ReadInternal_of_marker m.dataSector hsize h16 _ 0 hpos (by omega) hlinks
      rw [hread]
      constructor
      · intro h
        cases h
      · exact fun h => absurd h.2.1 hlinks
  · have hneg : int32 item.filesize.toNat ≤ 0 := by
      have := item.filesize.isLt
      unfold int32
      omega
    rw [fat16ReadInternal_of_nonpos hsize h16 (by rw [Int.zero_tdiv]; exact noMarker_zero) hneg]
    constructor
    · intro h
      have hlen := congrArg List.length (Prod.mk.inj (Except.ok.inj h)).2
      rw [length_tabulate] at hlen
      simp only [List.length_nil] at hlen
      omega
    · exact fun h => absurd h.1 hlt

/-! ## A file of two clusters -/

/-- A volume of one table sector and a root directory of one sector, with
clusters of one sector from sector 4 on. Its table says that cluster 3
follows cluster 2 and is the last. Cluster 2 begins with the byte `lead`,
which is where the driver looks for the entry of cluster 2. -/
def twoClusterVolume (lead : Byte) : Sectors := fun lba i =>
  if lba = 0 then [0, 0, 0, 0, 0, 0, 0, 0, 0, 0, 0, 0, 0, 1, 1, 0, 2, 16, 0, 0, 0, 0, 1].getD i 0
  else if lba = 1 then [0, 0, 0, 0, 3, 0, 0xFF, 0xFF].getD i 0
  else if lba = 4 then if i = 0 then lead else 0
  else 7

/-- The driver's data for it. -/
def twoClusterFat : FatPrivate where
  header := ⟨1, 1, 2, 16, 1, 0⟩
  rootDirectory := ⟨0, [], 0, 3, 4⟩

/-- The record of a file of 1024 bytes that begins at cluster 2. -/
def twoClusterItem : FatDirectoryItem :=
  ⟨#[0, 0, 0, 0, 0, 0, 0, 0, 0, 0, 0, 0, 0, 0, 0, 0, 0, 0, 0, 0, 0, 0, 0, 0, 0, 0, 2, 0, 0, 4, 0, 0],
    rfl⟩

theorem mounted_twoClusterVolume (lead : Byte) :
    Mounted (twoClusterVolume lead) twoClusterFat where
  header := by
    unfold FatHeader.ofBytes bytesAt
    simp only [getD_tabulate, sizeofFatH, Nat.reduceLT]
    simp [twoClusterFat, byteAt, int32, twoClusterVolume, halfWord]
  dataSector := by decide

theorem valid_twoClusterFat : twoClusterFat.header.Valid := ⟨by decide, by decide⟩

theorem fileChain_twoClusterVolume (lead : Byte) :
    FileChain (twoClusterVolume lead) twoClusterFat.header twoClusterItem [2, 3] where
  high := by decide
  first := by decide
  data := by decide
  links := List.isChain_pair.2 (by simp [fatEntry, twoClusterFat, byteAt, twoClusterVolume, halfWord])
  last := by
    intro c hc
    cases hc
    simp [fatEntry, twoClusterFat, byteAt, twoClusterVolume, halfWord]
  covers := by decide

/-- The product of the table's position and the entry's is the start of
cluster 2. -/
theorem productEntry_twoClusterVolume (lead : Byte) :
    productEntry (twoClusterVolume lead) twoClusterFat.header 2 = lead.toNat := by
  simp [productEntry, productPosition, twoClusterFat, byteAt, int32, twoClusterVolume, halfWord]
  rw [BitVec.toNat_append]
  simp

/-- The product leads from cluster 2 to cluster 3 as the table does. -/
theorem noMarker_twoClusterVolume (hk : k < 2) :
    NoMarker (twoClusterVolume 3) twoClusterFat.header 2 k := by
  intro j hj
  obtain rfl : j = 0 := by omega
  change ¬ Fat16Marker (productEntry (twoClusterVolume 3) twoClusterFat.header 2)
  rw [productEntry_twoClusterVolume]
  decide

/-- The product leads to the entry of a free cluster. -/
theorem not_noMarker_twoClusterVolume :
    ¬ NoMarker (twoClusterVolume 0) twoClusterFat.header 2 1 := by
  intro h
  have hentry : ¬ Fat16Marker (productEntry (twoClusterVolume 0) twoClusterFat.header 2) :=
    h 0 (by decide)
  rw [productEntry_twoClusterVolume] at hentry
  exact hentry (by decide)

/-- Every cluster of the file is found when the product leads to cluster
3 as the table does. -/
theorem pieceFound_twoClusterVolume (hk : k * sizeOfClusterBytes twoClusterFat.header < 1024) :
    PieceFound (twoClusterVolume 3) twoClusterFat.header [2, 3] 1024 k := by
  have hk2 : k < 2 := by
    rw [show sizeOfClusterBytes twoClusterFat.header = 512 from rfl] at hk
    omega
  have hlinks := noMarker_twoClusterVolume hk2
  interval_cases k
  · exact .of_cluster hlinks rfl (by decide) (by decide)
  · exact .of_cluster hlinks (productEntry_twoClusterVolume 3) (by decide) (by decide)

/-- A file of two clusters that is delivered. -/
theorem fat16Read_delivers_two_clusters :
    fat16ReadRecord (twoClusterVolume 3) twoClusterFat twoClusterItem 0 twoClusterItem.filesize 1 =
      .ok (1, (chainBytes (twoClusterVolume 3) twoClusterFat.header [2, 3]).take
        twoClusterItem.filesize.toNat) :=
  (fat16Read_delivers_iff (mounted_twoClusterVolume 3) valid_twoClusterFat
    (fileChain_twoClusterVolume 3) (by decide)).2
      ⟨by decide, fun _ hk => pieceFound_twoClusterVolume hk⟩

/-- **A file that is not delivered.** Where cluster 2 begins with zeros
the driver takes these for the entry of cluster 2, a free cluster, and the
read is an error. -/
theorem fat16Read_not_delivered :
    ¬ ∀ (image : Sectors) (fat : FatPrivate) (item : FatDirectoryItem) (clusters : List ℕ),
      Mounted image fat → fat.header.Valid → FileChain image fat.header item clusters →
        0 < item.filesize.toNat → fat16ReadRecord image fat item 0 item.filesize 1 =
          .ok (1, (chainBytes image fat.header clusters).take item.filesize.toNat) := by
  intro h
  have hread := h _ _ _ _ (mounted_twoClusterVolume 0) valid_twoClusterFat
    (fileChain_twoClusterVolume 0) (by decide)
  obtain ⟨bytes, hstop⟩ : ∃ bytes, fat16ReadInternal (twoClusterVolume 0) twoClusterFat (2 : ℕ)
      (0 * sizeOfClusterBytes twoClusterFat.header : ℕ) (1024 : ℕ) = .ok (-ioError, bytes) :=
    fat16ReadInternal_of_marker (by decide) (by decide) (by decide) 1024 0 (by decide)
      (by decide) not_noMarker_twoClusterVolume
  rw [fat16ReadRecord_one, show fat16GetFirstCluster twoClusterItem = 2 by decide,
    show int32 (0 : Word).toNat = 0 by decide,
    show int32 twoClusterItem.filesize.toNat = 1024 by decide] at hread
  rw [show fat16ReadInternal (twoClusterVolume 0) twoClusterFat (2 : ℕ) 0 1024 = _ from hstop]
    at hread
  cases hread

end OwnKernel
