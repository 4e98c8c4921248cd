import OwnKernel.Model.Cstring
import OwnKernel.Model.Fat16

/-!
# The file layer's state (`fileSystem/`)

The file layer keeps its structures in heap blocks. `FsState` holds them
by their address, in one table of objects, beside the kernel heap and the
globals. A program over it is an `FsM`; using a pointer to no object of
the type wanted is a `Fault.badPointer`.
-/

namespace OwnKernel

/-- `struct path_root`. -/
structure PathRoot where
  driveNumber : ℤ
  first : Word

/-- `struct path_part`, with the characters `part` points to. -/
structure PathPart where
  part : Word
  text : Cstring
  next : Word

/-- `struct fat_item`. `ptr` is the union of `item` and `directory`. -/
structure FatItem where
  ptr : Word
  type : ℕ

/-- `struct fat_file_descriptor`. -/
structure FatFileDescriptor where
  item : Word
  pos : Word

/-- The filesystems there are. -/
inductive FilesystemName
  | fat16
  deriving DecidableEq

/-- `struct file_descriptor`. There is one disk, which `disk` is not kept
for. -/
structure FileDescriptor where
  index : ℤ
  filesystem : Option FilesystemName
  privateData : Word

/-- A structure of the file layer. -/
inductive FsObject
  | pathRoot (root : PathRoot)
  | pathPart (part : PathPart)
  | fatItem (item : FatItem)
  | fatDirectory (directory : FatDirectory)
  | fatDirectoryItem (item : FatDirectoryItem)
  | fatFileDescriptor (descriptor : FatFileDescriptor)
  | fileDescriptor (descriptor : FileDescriptor)

/-- The types of these structures. -/
inductive FsType
  | pathRoot
  | pathPart
  | fatItem
  | fatDirectory
  | fatDirectoryItem
  | fatFileDescriptor
  | fileDescriptor

/-- The structures of a type. -/
abbrev FsType.Struct : FsType → Type
  | .pathRoot => PathRoot
  | .pathPart => PathPart
  | .fatItem => FatItem
  | .fatDirectory => FatDirectory
  | .fatDirectoryItem => FatDirectoryItem
  | .fatFileDescriptor => FatFileDescriptor
  | .fileDescriptor => FileDescriptor

/-- A structure of a type, as one of the file layer. -/
abbrev FsType.object : (t : FsType) → t.Struct → FsObject
  | .pathRoot => .pathRoot
  | .pathPart => .pathPart
  | .fatItem => .fatItem
  | .fatDirectory => .fatDirectory
  | .fatDirectoryItem => .fatDirectoryItem
  | .fatFileDescriptor => .fatFileDescriptor
  | .fileDescriptor => .fileDescriptor

/-- `struct disk`, the members that change. -/
structure Disk where
  filesystem : Option FilesystemName
  fsPrivate : Option FatPrivate

/-- The kernel heap, the objects in it, and the globals. -/
structure FsState where
  store : Store
  objects : Word → Option FsObject
  /-- `disk`. -/
  disk : Disk
  /-- `file_descriptors[]`. -/
  fileDescriptors : ℕ → Word

/-- A program of the file layer. -/
abbrev FsM := Fallible FsState Fault

/-- A program of the memory layer, run by the file layer. -/
def inStore {α : Type} (x : StoreM α) : FsM α := fun s =>
  match x s.store with
  | .ok (a, t) => .ok (a, { s with store := t })
  | .error e => .error e

/-- The object at a pointer, when it is one of the type `view` looks
for. -/
def readObject {β : Type} (view : FsObject → Option β) (p : Word) : FsM β := do
  let s ← get
  match (s.objects p).bind view with
  | some x => if p = 0 then throw .badPointer else pure x
  | none => throw .badPointer

/-- `*p = …`. -/
def FsState.setObject (s : FsState) (p : Word) (o : Option FsObject) : FsState :=
  { s with objects := Function.update s.objects p o }

/-- The first store to a structure through a pointer that was just made. -/
def writeObject (p : Word) (o : FsObject) : FsM PUnit :=
  if p = 0 then throw .badPointer else modify fun s => s.setObject p (some o)

/-- `kernel_free` of an object. -/
def freeObject (p : Word) : FsM PUnit := do
  inStore (kernelFree p)
  modify fun s => s.setObject p none

/-- Looks for a structure of a type. -/
def FsObject.asType : (t : FsType) → FsObject → Option t.Struct
  | .pathRoot, .pathRoot x => some x
  | .pathPart, .pathPart x => some x
  | .fatItem, .fatItem x => some x
  | .fatDirectory, .fatDirectory x => some x
  | .fatDirectoryItem, .fatDirectoryItem x => some x
  | .fatFileDescriptor, .fatFileDescriptor x => some x
  | .fileDescriptor, .fileDescriptor x => some x
  | _, _ => none

/-- Looks for a `struct path_root`. -/
def FsObject.asPathRoot : FsObject → Option PathRoot := asType .pathRoot

/-- Looks for a `struct path_part`. -/
def FsObject.asPathPart : FsObject → Option PathPart := asType .pathPart

/-- Looks for a `struct fat_item`. -/
def FsObject.asFatItem : FsObject → Option FatItem := asType .fatItem

/-- Looks for a `struct fat_directory`. -/
def FsObject.asFatDirectory : FsObject → Option FatDirectory := asType .fatDirectory

/-- Looks for a `struct fat_directory_item`. -/
def FsObject.asFatDirectoryItem : FsObject → Option FatDirectoryItem := asType .fatDirectoryItem

/-- Looks for a `struct fat_file_descriptor`. -/
def FsObject.asFatFileDescriptor : FsObject → Option FatFileDescriptor := asType .fatFileDescriptor

/-- Looks for a `struct file_descriptor`. -/
def FsObject.asFileDescriptor : FsObject → Option FileDescriptor := asType .fileDescriptor

end OwnKernel
