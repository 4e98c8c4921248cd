import OwnKernel.Model.FileState

/-!
# Paths (`fileSystem/pathParser.c`)

A path is a drive number and a list of parts. The cursor `path` of the
source is here what is left of the string, returned with the result.
-/

namespace OwnKernel

/-- `sizeof(struct path_root)`. -/
def sizeofPathRoot : Word := 8

/-- `sizeof(struct path_part)`. -/
def sizeofPathPart : Word := 8

/-- `'/'`. -/
def slash : Byte := 0x2F

/-- `':'`. -/
def colon : Byte := 0x3A

/-- `pathparser_path_valid_format`. -/
def pathparserPathValidFormat (filename : Cstring) : Bool :=
  3 ≤ strnlen filename osMaxPath ∧ isDigit (filename.headD 0) ∧
    (filename.getD 1 0 = colon ∧ filename.getD 2 0 = slash)

/-- `pathparser_extract_drive_by_path`. -/
def pathparserExtractDriveByPath (path : Cstring) : ℤ × Cstring :=
  if pathparserPathValidFormat path then (toNumericDigit (path.headD 0), path.drop 3)
  else (-badPathError, path)

/-- `pathparser_create_root`. -/
def pathparserCreateRoot (driveNumber : ℤ) : FsM Word := do
  let root ← inStore (kernelZalloc sizeofPathRoot)
  writeObject root (.pathRoot ⟨driveNumber, 0⟩)
  pure root

/-- The characters of a part. -/
def isPartChar (c : Byte) : Bool := c ≠ slash ∧ c ≠ 0

/-- `pathparser_extract_path_part`: the part's string, its characters and
the rest of the path. -/
def pathparserExtractPathPart (path : Cstring) : FsM (Word × Cstring × Cstring) := do
  let resultPathPart ← inStore (kernelZalloc (BitVec.ofNat 32 osMaxPath))
  let text := path.takeWhile isPartChar
  let rest := path.dropWhile isPartChar
  let rest := if rest.headD 0 = slash then rest.drop 1 else rest
  if text = [] then do
    inStore (kernelFree resultPathPart)
    pure (0, text, rest)
  else if resultPathPart = 0 then throw .badPointer
  else if osMaxPath < text.length then throw .outOfBounds
  else pure (resultPathPart, text, rest)

/-- `pathparser_parse_path_part`: the part, null at the path's end, and the
rest of the path. -/
def pathparserParsePathPart (lastPart : Word) (path : Cstring) : FsM (Word × Cstring) := do
  let r ← pathparserExtractPathPart path
  if r.1 = 0 then pure (0, r.2.2)
  else do
    let part ← inStore (kernelZalloc sizeofPathPart)
    writeObject part (.pathPart ⟨r.1, r.2.1, 0⟩)
    if lastPart = 0 then pure (part, r.2.2)
    else do
      let last ← readObject FsObject.asPathPart lastPart
      writeObject lastPart (.pathPart { last with next := part })
      pure (part, r.2.2)

/-- The loop of `pathparser_parse`. Each round takes characters off the
path, so it ends within as many rounds as there are. -/
def pathparserParseLoop (firstPart : Word) : ℕ → Cstring → FsM PUnit
  | 0, _ => throw .diverges
  | fuel + 1, path => do
    let r ← pathparserParsePathPart firstPart path
    if r.1 = 0 then pure ⟨⟩
    else pathparserParseLoop firstPart fuel r.2

/-- `pathparser_parse`. Every part after the first is linked to the
first. -/
def pathparserParse (path : Cstring) : FsM Word :=
  if osMaxPath < strlen path then pure 0
  else
    let drive := pathparserExtractDriveByPath path
    if drive.1 < 0 then pure 0
    else do
      let root ← pathparserCreateRoot drive.1
      let r ← pathparserParsePathPart 0 drive.2
      if r.1 = 0 then pure root
      else do
        let x ← readObject FsObject.asPathRoot root
        writeObject root (.pathRoot { x with first := r.1 })
        pathparserParseLoop r.1 (path.length + 1) r.2
        pure root

end OwnKernel
