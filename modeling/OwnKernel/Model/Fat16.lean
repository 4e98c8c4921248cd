import OwnKernel.Model.Disk
import Mathlib.Data.Vector.Basic

/-!
# Reading a FAT16 volume (`fileSystem/fat/fat16.c`)

The volume's header, its 32-byte directory records, and the functions
that follow a file's clusters. A stream is sought before each read of
it, so the streams of `struct fat_private` hold nothing between calls:
each function below makes its own. Data a function writes through an
`out` pointer is what it returns beside its result.
-/

namespace OwnKernel

/-- A little-endian half word. -/
def halfWord (lo hi : Byte) : BitVec 16 := hi ++ lo

/-- The members of `struct fat_header` and of the extended header that
are used. -/
structure FatHeader where
  sectorsPerCluster : Byte
  reservedSectors : BitVec 16
  fatCopies : Byte
  rootDirEntries : BitVec 16
  sectorsPerFat : BitVec 16
  signature : Byte
  deriving DecidableEq

/-- `sizeof(struct fat_h)`. -/
def sizeofFatH : ℕ := 62

/-- The header laid over the first bytes of the volume. -/
def FatHeader.ofBytes (bytes : List Byte) : FatHeader where
  sectorsPerCluster := bytes.getD 13 0
  reservedSectors := halfWord (bytes.getD 14 0) (bytes.getD 15 0)
  fatCopies := bytes.getD 16 0
  rootDirEntries := halfWord (bytes.getD 17 0) (bytes.getD 18 0)
  sectorsPerFat := halfWord (bytes.getD 22 0) (bytes.getD 23 0)
  signature := bytes.getD 38 0

/-- `sizeof(struct fat_directory_item)`. -/
abbrev sizeofFatDirectoryItem : ℕ := 32

/-- `struct fat_directory_item`, as its bytes. -/
abbrev FatDirectoryItem := Vector Byte sizeofFatDirectoryItem

namespace FatDirectoryItem

variable (item : FatDirectoryItem)

def attributes : Byte := item[11]

def high16BitsFirstCluster : BitVec 16 := halfWord item[20] item[21]

def low16BitsFirstCluster : BitVec 16 := halfWord item[26] item[27]

def filesize : Word := halfWord item[30] item[31] ++ halfWord item[28] item[29]

end FatDirectoryItem

/-- `FAT_FILE_READ_ONLY`. -/
def fatFileReadOnly : Byte := 0x01

/-- `FAT_FILE_SUBDIRECTORY`. -/
def fatFileSubdirectory : Byte := 0x10

/-- `struct fat_directory`, with the bytes that `item` points to. -/
structure FatDirectory where
  item : Word
  bytes : List Byte
  total : ℤ
  sectorPos : ℤ
  endingSectorPos : ℤ
  deriving DecidableEq

/-- `struct fat_private`. -/
structure FatPrivate where
  header : FatHeader
  rootDirectory : FatDirectory
  deriving DecidableEq

/-- `fat16_get_first_cluster`. -/
def fat16GetFirstCluster (item : FatDirectoryItem) : ℕ :=
  (item.high16BitsFirstCluster ||| item.low16BitsFirstCluster).toNat

/-- `fat16_cluster_to_sector`. -/
def fat16ClusterToSector (fat : FatPrivate) (cluster : ℤ) : ℤ :=
  int32 (fat.rootDirectory.endingSectorPos + (cluster - 2) * fat.header.sectorsPerCluster.toNat)

/-- `fat16_get_first_fat_sector`. -/
def fat16GetFirstFatSector (fat : FatPrivate) : ℕ := fat.header.reservedSectors.toNat

/-- `OS_FAT16_FAT_ENTRY_SIZE`. -/
def fat16FatEntrySize : ℤ := 2

/-- `OS_FAT16_BAD_SECTOR`. -/
def fat16BadSector : ℤ := 0xF77

/-- `fat16_get_fat_entry`. The position sought is the *product* of the
table's position and the entry's. -/
def fat16GetFatEntry (image : Sectors) (fat : FatPrivate) (cluster : ℤ) : Except Fault ℤ := do
  let fatTablePosition := uint32 (fat16GetFirstFatSector fat * sectorSize)
  let position := int32 (fatTablePosition * uint32 (cluster * fat16FatEntrySize))
  let r ← diskStreamRead image (diskStreamSeek ⟨0⟩ position) 2
  pure (halfWord (r.1.getD 0 0) (r.1.getD 1 0)).toNat

/-- The entries `fat16_get_cluster_for_offset` stops at. -/
def Fat16Marker (entry : ℤ) : Prop :=
  entry = 0xFF8 ∨ entry = 0xFFF ∨ entry = fat16BadSector ∨ entry = 0xFF0 ∨ entry = 0xFF6 ∨
    entry = 0

instance : DecidablePred Fat16Marker := fun _ => inferInstanceAs (Decidable (_ ∨ _))

/-- The loop of `fat16_get_cluster_for_offset`: `ahead` links from
`cluster`. -/
def fat16FollowClusters (image : Sectors) (fat : FatPrivate) : ℕ → ℤ → Except Fault ℤ
  | 0, cluster => pure cluster
  | ahead + 1, cluster => do
    let entry ← fat16GetFatEntry image fat cluster
    if Fat16Marker entry then pure (-ioError)
    else fat16FollowClusters image fat ahead entry

/-- `size_of_cluster_bytes`. -/
def sizeOfClusterBytes (header : FatHeader) : ℕ := header.sectorsPerCluster.toNat * sectorSize

/-- `fat16_get_cluster_for_offset`. -/
def fat16GetClusterForOffset (image : Sectors) (fat : FatPrivate) (startingCluster offset : ℤ) :
    Except Fault ℤ :=
  if sizeOfClusterBytes fat.header = 0 then .error .divideError
  else
    let clusterAhead := offset.tdiv (sizeOfClusterBytes fat.header)
    fat16FollowClusters image fat clusterAhead.toNat startingCluster

/-- The same loop, with the entries it is given. -/
def fat16FollowClustersMet (image : Sectors) (fat : FatPrivate) :
    ℕ → ℤ → Except Fault (ℤ × List ℤ)
  | 0, cluster => pure (cluster, [])
  | ahead + 1, cluster => do
    let entry ← fat16GetFatEntry image fat cluster
    if Fat16Marker entry then pure (-ioError, [entry])
    else do
      let r ← fat16FollowClustersMet image fat ahead entry
      pure (r.1, entry :: r.2)

/-- `fat16_get_cluster_for_offset`, with the entries it is given. -/
def fat16GetClusterForOffsetMet (image : Sectors) (fat : FatPrivate)
    (startingCluster offset : ℤ) : Except Fault (ℤ × List ℤ) :=
  if sizeOfClusterBytes fat.header = 0 then .error .divideError
  else
    let clusterAhead := offset.tdiv (sizeOfClusterBytes fat.header)
    fat16FollowClustersMet image fat clusterAhead.toNat startingCluster

/-- `starting_pos`, in `fat16_read_internal_from_stream`. -/
def fat16StartingPos (fat : FatPrivate) (clusterToUse offset : ℤ) : ℤ :=
  int32 (fat16ClusterToSector fat clusterToUse * sectorSize +
    offset.tmod (sizeOfClusterBytes fat.header))

/-- Behind a cluster's bytes there is less left to read. -/
theorem toNat_rest_lt {size : ℕ} {total : ℤ} (hsize : ¬ size = 0)
    (hrest : total - (if total > size then (size : ℤ) else total) > 0) :
    (total - (if total > size then (size : ℤ) else total)).toNat < total.toNat := by
  by_cases hgt : total > size
  · rw [if_pos hgt]
    omega
  · rw [if_neg hgt] at hrest
    omega

/-- `fat16_read_internal_from_stream`: the result, and the bytes written
to `out`. -/
def fat16ReadInternal (image : Sectors) (fat : FatPrivate) (cluster offset total : ℤ) :
    Except Fault (ℤ × List Byte) :=
  let size := sizeOfClusterBytes fat.header
  -- the division is that of `fat16_get_cluster_for_offset`
  if size = 0 then .error .divideError
  else do
    let clusterToUse ← fat16GetClusterForOffset image fat cluster offset
    if clusterToUse < 0 then pure (clusterToUse, [])
    else do
      let offsetFromCluster := offset.tmod size
      let startingSector := fat16ClusterToSector fat clusterToUse
      let startingPos := int32 (startingSector * sectorSize + offsetFromCluster)
      let totalToRead := if total > size then (size : ℤ) else total
      let r ← diskStreamRead image (diskStreamSeek ⟨0⟩ startingPos) totalToRead
      if total - totalToRead > 0 then do
        let rest ← fat16ReadInternal image fat cluster (int32 (offset + totalToRead))
          (total - totalToRead)
        pure (rest.1, r.1 ++ rest.2)
      else pure (allOk, r.1)
termination_by total.toNat
decreasing_by exact toNat_rest_lt (by assumption) (by assumption)

/-- `fat16_read_internal_from_stream`: the `total`s of the calls it makes
of itself, its own before them. -/
def fat16ReadInternalTotals (image : Sectors) (fat : FatPrivate) (cluster offset total : ℤ) :
    List ℤ :=
  let size := sizeOfClusterBytes fat.header
  if size = 0 then [total]
  else match fat16GetClusterForOffset image fat cluster offset with
    | .error _ => [total]
    | .ok clusterToUse =>
      if clusterToUse < 0 then [total]
      else
        let totalToRead := if total > size then (size : ℤ) else total
        match diskStreamRead image
            (diskStreamSeek ⟨0⟩ (fat16StartingPos fat clusterToUse offset)) totalToRead with
        | .error _ => [total]
        | .ok _ =>
          if total - totalToRead > 0 then
            total :: fat16ReadInternalTotals image fat cluster (int32 (offset + totalToRead))
              (total - totalToRead)
          else [total]
termination_by total.toNat
decreasing_by exact toNat_rest_lt (by assumption) (by assumption)

/-- The loop of `fat16_read`: `nmemb` reads of `size` bytes, each from
where the one before ended. -/
def fat16ReadLoop (image : Sectors) (fat : FatPrivate) (cluster : ℤ) (size : Word) :
    ℕ → ℤ → Except Fault (ℤ × List Byte)
  | 0, _ => pure (allOk, [])
  | nmemb + 1, offset => do
    let r ← fat16ReadInternal image fat cluster offset (int32 size.toNat)
    if r.1 < 0 then pure r
    else do
      let rest ← fat16ReadLoop image fat cluster size nmemb (int32 (offset + size.toNat))
      pure (rest.1, r.2 ++ rest.2)

/-- `fat16_read` of the record `item` from the descriptor's `pos`. The
descriptor is only read: `pos` stays as it is. -/
def fat16ReadRecord (image : Sectors) (fat : FatPrivate) (item : FatDirectoryItem)
    (pos size nmemb : Word) : Except Fault (ℤ × List Byte) := do
  let r ← fat16ReadLoop image fat (fat16GetFirstCluster item) size nmemb.toNat (int32 pos.toNat)
  if r.1 < 0 then pure r else pure (int32 nmemb.toNat, r.2)

end OwnKernel
