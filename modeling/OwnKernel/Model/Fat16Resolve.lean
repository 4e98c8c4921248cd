import OwnKernel.Model.Fat16Files

/-!
# Taking a volume on (`fileSystem/fat/fat16.c`)

`fat16_resolve` decides whether a disk holds a FAT16 volume, and keeps
its header and root directory in `disk->fs_private`. The streams made
here are not kept track of: every other function makes its own.
-/

namespace OwnKernel

/-- `sizeof(struct fat_private)`. -/
def sizeofFatPrivate : Word := 92

/-- `sizeof(struct disk_stream)`. -/
def sizeofDiskStream : Word := 8

/-- `OS_FAT16_SIGNATURE`. -/
def fat16Signature : Byte := 0x29

/-- `disk_stream_new`, on the one disk there is. The members are set
without a check of the pointer, so that it does not return null. -/
def diskStreamNew : FsM Word := do
  let streamer ← inStore (kernelZalloc sizeofDiskStream)
  if streamer = 0 then throw .badPointer else pure streamer

/-- `fat16_init_private`. -/
def fat16InitPrivate (fatPrivate : Word) : FsM PUnit :=
  if fatPrivate = 0 then throw .badPointer
  else do
    let _clusterReadStream ← diskStreamNew
    let _fatReadStream ← diskStreamNew
    let _directoryStream ← diskStreamNew
    pure ⟨⟩

/-- `fat16_sectore_to_absolute`. -/
def fat16SectoreToAbsolute (sector : ℤ) : ℤ := int32 (sector * sectorSize)

/-- `root_dir_sector_pos`. -/
def FatHeader.rootDirSectorPos (header : FatHeader) : ℤ :=
  int32 (header.fatCopies.toNat * header.sectorsPerFat.toNat + header.reservedSectors.toNat)

/-- `root_dir_size`. -/
def FatHeader.rootDirSize (header : FatHeader) : ℤ :=
  int32 (header.rootDirEntries.toNat * sizeofFatDirectoryItem)

/-- What `fat16_get_root_directory` sets. The sectors are counted with
the last one rounded up as well, in a variable that is not used. -/
def fat16RootDirectory (header : FatHeader) (item : Word) (bytes : List Byte) (total : ℤ) :
    FatDirectory where
  item := item
  bytes := bytes
  total := total
  sectorPos := header.rootDirSectorPos
  endingSectorPos := int32 (header.rootDirSectorPos + header.rootDirSize.tdiv sectorSize)

/-- `fat16_get_root_directory`. What `directory` held before is returned
on an error. -/
def fat16GetRootDirectory (image : Sectors) (header : FatHeader) (directory : FatDirectory) :
    FsM (ℤ × FatDirectory) := do
  let totalItems ← readDisk (fat16GetTotalItemsForDirectory image header.rootDirSectorPos)
  let dir ← inStore (kernelZalloc (BitVec.ofInt 32 header.rootDirSize))
  if dir = 0 then pure (-noMemoryError, directory)
  else do
    let r ← readDisk (diskStreamRead image
      (diskStreamSeek ⟨0⟩ (fat16SectoreToAbsolute header.rootDirSectorPos)) header.rootDirSize)
    pure (0, fat16RootDirectory header dir r.1 totalItems)

/-- `struct fat_private`, cleared. -/
def clearedFatPrivate : FatPrivate where
  header := FatHeader.ofBytes []
  rootDirectory := ⟨0, [], 0, 0, 0⟩

/-- `*disk->fs_private = …`. -/
def setFsPrivate (fsPrivate : Option FatPrivate) : FsM PUnit :=
  modify fun s => { s with disk := { s.disk with fsPrivate := fsPrivate } }

/-- What `fat16_resolve` does between its allocations and `out`. -/
def fat16ResolveVolume (image : Sectors) : FsM ℤ := do
  let r ← readDisk (diskStreamRead image ⟨0⟩ sizeofFatH)
  let header := FatHeader.ofBytes r.1
  setFsPrivate (some { clearedFatPrivate with header := header })
  if header.signature ≠ fat16Signature then pure (-fileSystemNotUsError)
  else do
    let root ← fat16GetRootDirectory image header clearedFatPrivate.rootDirectory
    setFsPrivate (some ⟨header, root.2⟩)
    if root.1 ≠ allOk then pure (-ioError) else pure 0

/-- `fat16_resolve`. -/
def fat16Resolve (image : Sectors) : FsM ℤ := do
  let fatPrivate ← inStore (kernelZalloc sizeofFatPrivate)
  fat16InitPrivate fatPrivate
  modify fun s => { s with disk := ⟨some .fat16, some clearedFatPrivate⟩ }
  let stream ← diskStreamNew
  let res ← fat16ResolveVolume image
  inStore (kernelFree stream)
  if res < 0 then do
    inStore (kernelFree fatPrivate)
    setFsPrivate none
    pure res
  else pure res

end OwnKernel
