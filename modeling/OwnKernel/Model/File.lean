import OwnKernel.Model.Fat16Files
import OwnKernel.Model.PathParser

/-!
# Files (`fileSystem/file.c`)

The table of file descriptors. A handle is an index into it plus one, so
that 0 can say that a file could not be opened. There is one disk, and
its filesystem is FAT16.
-/

namespace OwnKernel

/-- `sizeof(struct file_descriptor)`. -/
def sizeofFileDescriptor : Word := 16

/-- `file_free_descriptor`. -/
def fileFreeDescriptor (descriptor : Word) : FsM PUnit := do
  let d ← readObject FsObject.asFileDescriptor descriptor
  modify fun s =>
    { s with fileDescriptors := Function.update s.fileDescriptors (d.index - 1).toNat 0 }
  freeObject descriptor

/-- `file_new_descriptor`: the result, and the descriptor. -/
def fileNewDescriptor : FsM (ℤ × Word) := do
  let s ← get
  match (List.range osMaxFileDescriptors).find? fun i => s.fileDescriptors i = 0 with
  | none => pure (-noMemoryError, 0)
  | some i => do
    let descriptor ← inStore (kernelZalloc sizeofFileDescriptor)
    writeObject descriptor (.fileDescriptor ⟨i + 1, none, 0⟩)
    modify fun s => { s with fileDescriptors := Function.update s.fileDescriptors i descriptor }
    pure (0, descriptor)

/-- `file_get_descriptor`, of a table. -/
def FsState.fileGetDescriptor (s : FsState) (fd : ℤ) : Word :=
  if fd ≤ 0 ∨ (osMaxFileDescriptors : ℤ) ≤ fd then 0 else s.fileDescriptors (fd - 1).toNat

/-- `file_get_descriptor`. -/
def fileGetDescriptor (fd : ℤ) : FsM Word := do
  let s ← get
  pure (s.fileGetDescriptor fd)

/-- `file_get_mode_by_string`. -/
def fileGetModeByString (str : Cstring) : FileMode :=
  if strncmp str [0x72] 1 = 0 then .read
  else if strncmp str [0x77] 1 = 0 then .write
  else if strncmp str [0x61] 1 = 0 then .append
  else .invalid

/-- `fopen`. An error is reported as 0, except that of
`file_new_descriptor`. -/
def fopen (image : Sectors) (filename modeStr : Cstring) : FsM ℤ := do
  let rootPath ← pathparserParse filename
  if rootPath = 0 then pure 0
  else do
    let root ← readObject FsObject.asPathRoot rootPath
    if root.first = 0 then pure 0
    -- `disk_get` knows the disk 0
    else if root.driveNumber ≠ 0 then pure 0
    else do
      let s ← get
      match s.disk.filesystem with
      | none => pure 0
      | some .fat16 =>
        if fileGetModeByString modeStr = .invalid then pure 0
        else do
          let privateData ← fat16Open image root.first (fileGetModeByString modeStr)
          if isErr privateData then pure 0
          else do
            let r ← fileNewDescriptor
            if r.1 < 0 then pure r.1
            else do
              let d ← readObject FsObject.asFileDescriptor r.2
              writeObject r.2 (.fileDescriptor { d with
                filesystem := some .fat16
                privateData := privateData })
              pure d.index

/-- The filesystem of a descriptor, and the descriptor's private data. -/
def descriptorPrivate (descriptor : Word) : FsM Word := do
  let d ← readObject FsObject.asFileDescriptor descriptor
  match d.filesystem with
  | none => throw .badPointer
  | some .fat16 => pure d.privateData

/-- The bytes a read delivers, stored from `ptr` on. -/
def storeBytes (ptr : Word) (bytes : List Byte) : FsM PUnit :=
  if bytes = [] then pure ⟨⟩
  else if ptr = 0 then throw .badPointer
  else modify fun s => { s with store := { s.store with mem := s.store.mem.store ptr bytes } }

/-- `fread`. -/
def fread (image : Sectors) (ptr size nmemb : Word) (fd : ℤ) : FsM ℤ :=
  if size = 0 ∨ nmemb = 0 ∨ fd < 1 then pure (-invalidArgumentError)
  else do
    let descriptor ← fileGetDescriptor fd
    if descriptor = 0 then pure (-invalidArgumentError)
    else do
      let privateData ← descriptorPrivate descriptor
      let r ← fat16Read image privateData size nmemb
      storeBytes ptr r.2
      pure r.1

/-- `fseek`. -/
def fseek (fd offset : ℤ) (whence : FileSeekMode) : FsM ℤ := do
  let descriptor ← fileGetDescriptor fd
  if descriptor = 0 then pure (-invalidArgumentError)
  else do
    let privateData ← descriptorPrivate descriptor
    fat16Seek privateData (BitVec.ofInt 32 offset) whence

/-- `fstat`. -/
def fstat (fd : ℤ) (stat : FileStat) : FsM (ℤ × FileStat) := do
  let descriptor ← fileGetDescriptor fd
  if descriptor = 0 then pure (-invalidArgumentError, stat)
  else do
    let privateData ← descriptorPrivate descriptor
    fat16Stat privateData stat

/-- `fclose`. -/
def fclose (fd : ℤ) : FsM ℤ := do
  let descriptor ← fileGetDescriptor fd
  if descriptor = 0 then pure (-invalidArgumentError)
  else do
    let privateData ← descriptorPrivate descriptor
    let res ← fat16Close privateData
    if res = allOk then do
      fileFreeDescriptor descriptor
      pure res
    else pure res

end OwnKernel
