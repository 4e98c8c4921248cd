import OwnKernel.Model.FileState

/-!
# Files of a FAT16 volume (`fileSystem/fat/fat16.c`)

Looking a path up, and the operations on an open file. The disk is a
parameter `image`; what is read of it goes to structures of the file
layer. A `struct fat_item` is tagged with its type, which says which
member of its union is meant.
-/

namespace OwnKernel

/-- `FILE_MODE`. -/
inductive FileMode
  | read
  | write
  | append
  | invalid
  deriving DecidableEq

/-- `FILE_SEEK_MODE`, with one value for all the others of its type. -/
inductive FileSeekMode
  | set
  | cur
  | endOfFile
  | other
  deriving DecidableEq

/-- `FILE_STAT_READ_ONLY`. -/
def fileStatReadOnly : Word := 1

/-- `struct file_stat`. -/
structure FileStat where
  flags : Word
  filesize : Word

/-- `FAT_ITEM_TYPE_DIRECTORY`. -/
def fatItemTypeDirectory : ℕ := 0

/-- `FAT_ITEM_TYPE_FILE`. -/
def fatItemTypeFile : ℕ := 1

/-- `sizeof(struct fat_directory)`. -/
def sizeofFatDirectory : Word := 16

/-- `sizeof(struct fat_item)`. -/
def sizeofFatItem : Word := 8

/-- `sizeof(struct fat_file_descriptor)`. -/
def sizeofFatFileDescriptor : Word := 8

/-- A read of the disk, made by the file layer. -/
def readDisk {α : Type} (x : Except Fault α) : FsM α := fun s =>
  match x with
  | .ok a => .ok (a, s)
  | .error e => .error e

/-- `*disk->fs_private`. -/
def diskFsPrivate : FsM FatPrivate := do
  let s ← get
  match s.disk.fsPrivate with
  | some fat => pure fat
  | none => throw .badPointer

/-! ## Directories -/

/-- The loop of `fat16_get_total_items_for_directory`, with `fuel` records
left to read. -/
def fat16TotalItemsLoop (image : Sectors) : ℕ → DiskStream → ℤ → Except Fault ℤ
  | 0, _, _ => .error .diverges
  | fuel + 1, stream, i => do
    let r ← diskStreamRead image stream sizeofFatDirectoryItem
    if r.1.headD 0 = 0x00 then pure i
    else if r.1.headD 0 = 0xE5 then fat16TotalItemsLoop image fuel r.2 i
    else fat16TotalItemsLoop image fuel r.2 (int32 (i + 1))

/-- More records than a stream's positions allow. -/
def fat16TotalItemsFuel : ℕ := 2 ^ 27

/-- `fat16_get_total_items_for_directory`. -/
def fat16GetTotalItemsForDirectory (image : Sectors) (directoryStartSector : ℤ) :
    Except Fault ℤ :=
  fat16TotalItemsLoop image fat16TotalItemsFuel
    (diskStreamSeek ⟨0⟩ (int32 (directoryStartSector * sectorSize))) 0

/-- The loop of `fat16_get_total_items_for_directory`, with the numbers of
the records it counts. Record `k` is read next. -/
def fat16TotalItemsLoopMet (image : Sectors) : ℕ → DiskStream → ℕ → Except Fault (List ℕ)
  | 0, _, _ => .error .diverges
  | fuel + 1, stream, k => do
    let r ← diskStreamRead image stream sizeofFatDirectoryItem
    if r.1.headD 0 = 0x00 then pure []
    else if r.1.headD 0 = 0xE5 then fat16TotalItemsLoopMet image fuel r.2 (k + 1)
    else do
      let rest ← fat16TotalItemsLoopMet image fuel r.2 (k + 1)
      pure (k :: rest)

/-- `fat16_get_total_items_for_directory`, with the numbers of the records
it counts. -/
def fat16GetTotalItemsForDirectoryMet (image : Sectors) (directoryStartSector : ℤ) :
    Except Fault (List ℕ) :=
  fat16TotalItemsLoopMet image fat16TotalItemsFuel
    (diskStreamSeek ⟨0⟩ (int32 (directoryStartSector * sectorSize))) 0

/-- A character of a name that is padded with blanks. -/
def isNameChar (c : Byte) : Bool := c ≠ 0x00 ∧ c ≠ 0x20

/-- `fat16_to_proper_string`: the characters copied to `out`, which has
`room` bytes left. `bytes` is what memory holds from `in` on. -/
def fat16ToProperString (room : ℕ) (bytes : List Byte) : Except Fault Cstring :=
  let text := bytes.takeWhile isNameChar
  match bytes.dropWhile isNameChar with
  | [] => .error .outOfBounds
  | c :: _ =>
    -- a blank is replaced by a terminator, which needs a byte too
    if room < text.length ∨ (c = 0x20 ∧ room = text.length) then .error .outOfBounds
    else .ok text

/-- `fat16_get_full_relative_filename` of the record that `bytes` starts
with. -/
def fat16GetFullRelativeFilename (bytes : List Byte) (maxLen : ℕ) : Except Fault Cstring := do
  let filename ← fat16ToProperString maxLen bytes
  let ext := bytes.drop 8
  if ext.headD 0 ≠ 0x00 ∧ ext.headD 0 ≠ 0x20 then
    if maxLen ≤ filename.length then .error .outOfBounds
    else do
      let e ← fat16ToProperString (maxLen - (filename.length + 1)) ext
      pure (filename ++ 0x2E :: e)
  else pure filename

/-- `directory->item[i]`. -/
def FatDirectory.record (directory : FatDirectory) (i : ℕ) : Except Fault FatDirectoryItem :=
  let bytes := directory.bytes.drop (sizeofFatDirectoryItem * i)
  if bytes.length < sizeofFatDirectoryItem then .error .outOfBounds
  else .ok (Vector.ofFn fun j => bytes.getD j 0)

/-- `fat16_clone_directory_item`. -/
def fat16CloneDirectoryItem (item : FatDirectoryItem) : FsM Word := do
  let itemCopy ← inStore (kernelZalloc (BitVec.ofNat 32 sizeofFatDirectoryItem))
  if itemCopy = 0 then pure 0
  else do
    writeObject itemCopy (.fatDirectoryItem item)
    pure itemCopy

/-- `fat16_free_directory`. -/
def fat16FreeDirectory (directory : Word) : FsM PUnit :=
  if directory = 0 then pure ⟨⟩
  else do
    let d ← readObject FsObject.asFatDirectory directory
    (if d.item = 0 then pure ⟨⟩ else inStore (kernelFree d.item))
    freeObject directory

/-- `fat16_fat_item_free`. -/
def fat16FatItemFree (item : Word) : FsM PUnit := do
  let x ← readObject FsObject.asFatItem item
  (if x.type = fatItemTypeDirectory then fat16FreeDirectory x.ptr
    else if x.type = fatItemTypeFile then freeObject x.ptr
    else pure ⟨⟩)
  freeObject item

/-- `fat16_load_fat_directory`. A directory that cannot be read is freed,
and its pointer returned all the same. -/
def fat16LoadFatDirectory (image : Sectors) (item : FatDirectoryItem) : FsM Word := do
  if item.attributes &&& fatFileSubdirectory = 0 then pure 0
  else do
    let directory ← inStore (kernelZalloc sizeofFatDirectory)
    if directory = 0 then pure 0
    else do
      let fat ← diskFsPrivate
      let cluster := int32 (fat16GetFirstCluster item)
      let clusterSector := fat16ClusterToSector fat cluster
      let totalItems ← readDisk (fat16GetTotalItemsForDirectory image clusterSector)
      let directorySize := int32 (totalItems * sizeofFatDirectoryItem)
      let items ← inStore (kernelZalloc (BitVec.ofInt 32 directorySize))
      writeObject directory (.fatDirectory ⟨items, [], totalItems, 0, 0⟩)
      if items = 0 then do
        fat16FreeDirectory directory
        pure directory
      else do
        let r ← readDisk (fat16ReadInternal image fat cluster 0 directorySize)
        writeObject directory (.fatDirectory ⟨items, r.2, totalItems, 0, 0⟩)
        if r.1 ≠ allOk then do
          fat16FreeDirectory directory
          pure directory
        else pure directory

/-- `fat16_new_fat_item_for_directory_item`. The type set for a directory
is set again below. -/
def fat16NewFatItemForDirectoryItem (image : Sectors) (item : FatDirectoryItem) : FsM Word := do
  let fItem ← inStore (kernelZalloc sizeofFatItem)
  if fItem = 0 then pure 0
  else do
    (if item.attributes &&& fatFileSubdirectory = 0 then pure ⟨⟩
      else do
        let directory ← fat16LoadFatDirectory image item
        writeObject fItem (.fatItem ⟨directory, fatItemTypeDirectory⟩))
    let copy ← fat16CloneDirectoryItem item
    writeObject fItem (.fatItem ⟨copy, fatItemTypeFile⟩)
    pure fItem

/-- The loop of `fat16_find_item_in_directory` at index `i`, with `n`
records left. -/
def fat16FindItemLoop (image : Sectors) (directory : FatDirectory) (name : Cstring) :
    ℕ → ℕ → Word → FsM Word
  | 0, _, fItem => pure fItem
  | n + 1, i, fItem => do
    let tmpFilename ← readDisk (fat16GetFullRelativeFilename
      (directory.bytes.drop (sizeofFatDirectoryItem * i)) osMaxPath)
    if istrncmp tmpFilename name osMaxPath = 0 then do
      let item ← readDisk (directory.record i)
      let fItem ← fat16NewFatItemForDirectoryItem image item
      fat16FindItemLoop image directory name n (i + 1) fItem
    else fat16FindItemLoop image directory name n (i + 1) fItem

/-- The records that the loop makes items of, by their index, in order. -/
def fat16FindItemMet (directory : FatDirectory) (name : Cstring) : ℕ → ℕ → Except Fault (List ℕ)
  | 0, _ => pure []
  | n + 1, i => do
    let tmpFilename ← fat16GetFullRelativeFilename
      (directory.bytes.drop (sizeofFatDirectoryItem * i)) osMaxPath
    let rest ← fat16FindItemMet directory name n (i + 1)
    pure (if istrncmp tmpFilename name osMaxPath = 0 then i :: rest else rest)

/-- `fat16_find_item_in_directory`. -/
def fat16FindItemInDirectory (image : Sectors) (directory : FatDirectory) (name : Cstring) :
    FsM Word :=
  fat16FindItemLoop image directory name directory.total.toNat 0 0

/-- The loop of `fat16_get_directory_entry`, with `fuel` parts left. -/
def fat16GetDirectoryEntryLoop (image : Sectors) : ℕ → Word → Word → FsM Word
  | 0, _, _ => throw .diverges
  | fuel + 1, currentItem, nextPart =>
    if nextPart = 0 then pure currentItem
    else do
      let current ← readObject FsObject.asFatItem currentItem
      if current.type ≠ fatItemTypeDirectory then pure 0
      else do
        let directory ← readObject FsObject.asFatDirectory current.ptr
        let part ← readObject FsObject.asPathPart nextPart
        let tmpItem ← fat16FindItemInDirectory image directory part.text
        fat16FatItemFree currentItem
        fat16GetDirectoryEntryLoop image fuel tmpItem part.next

/-- `fat16_get_directory_entry`. A path has no more parts than
characters. -/
def fat16GetDirectoryEntry (image : Sectors) (path : Word) : FsM Word := do
  let fat ← diskFsPrivate
  let part ← readObject FsObject.asPathPart path
  let rootItem ← fat16FindItemInDirectory image fat.rootDirectory part.text
  if rootItem = 0 then pure 0
  else fat16GetDirectoryEntryLoop image osMaxPath rootItem part.next

/-! ## Open files -/

/-- `ISERR`. -/
def isErr (p : Word) : Bool := p.toInt < 0

/-- `(void *)res`, a status code as a pointer. -/
def fsErrorPointer (res : ℤ) : Word := BitVec.ofInt 32 res

/-- `fat16_open`: the descriptor's pointer, or a status code. -/
def fat16Open (image : Sectors) (path : Word) (mode : FileMode) : FsM Word :=
  if mode ≠ .read then pure (fsErrorPointer (-readOnlyError))
  else do
    let descriptor ← inStore (kernelZalloc sizeofFatFileDescriptor)
    if descriptor = 0 then pure (fsErrorPointer (-noMemoryError))
    else do
      let item ← fat16GetDirectoryEntry image path
      writeObject descriptor (.fatFileDescriptor ⟨item, 0⟩)
      if item = 0 then pure (fsErrorPointer (-ioError)) else pure descriptor

/-- `fat16_read`: the result, and the bytes written to `out_ptr`. -/
def fat16Read (image : Sectors) (descriptor size nmemb : Word) : FsM (ℤ × List Byte) := do
  let fat ← diskFsPrivate
  let d ← readObject FsObject.asFatFileDescriptor descriptor
  let fatItem ← readObject FsObject.asFatItem d.item
  let item ← readObject FsObject.asFatDirectoryItem fatItem.ptr
  readDisk (fat16ReadRecord image fat item d.pos size nmemb)

/-- `fat16_seek`. -/
def fat16Seek (descriptor offset : Word) (seekMode : FileSeekMode) : FsM ℤ := do
  let d ← readObject FsObject.asFatFileDescriptor descriptor
  let descriptorItem ← readObject FsObject.asFatItem d.item
  if descriptorItem.type ≠ fatItemTypeFile then pure (-invalidArgumentError)
  else do
    let rootItem ← readObject FsObject.asFatDirectoryItem descriptorItem.ptr
    if rootItem.filesize.toNat ≤ offset.toNat then pure (-ioError)
    else match seekMode with
      | .set => do
        writeObject descriptor (.fatFileDescriptor { d with pos := offset })
        pure 0
      | .endOfFile => pure (-unimplementedError)
      | .cur => do
        writeObject descriptor (.fatFileDescriptor { d with pos := d.pos + offset })
        pure 0
      | .other => pure (-invalidArgumentError)

/-- `fat16_stat`. What `stat` held before is returned on an error. -/
def fat16Stat (descriptor : Word) (stat : FileStat) : FsM (ℤ × FileStat) := do
  let d ← readObject FsObject.asFatFileDescriptor descriptor
  let descriptorItem ← readObject FsObject.asFatItem d.item
  if descriptorItem.type ≠ fatItemTypeFile then pure (-invalidArgumentError, stat)
  else do
    let rootItem ← readObject FsObject.asFatDirectoryItem descriptorItem.ptr
    let flags := if rootItem.attributes &&& fatFileReadOnly = 0 then 0 else fileStatReadOnly
    pure (0, ⟨flags, rootItem.filesize⟩)

/-- `fat16_close`. -/
def fat16Close (descriptor : Word) : FsM ℤ := do
  let d ← readObject FsObject.asFatFileDescriptor descriptor
  fat16FatItemFree d.item
  freeObject descriptor
  pure 0

end OwnKernel
