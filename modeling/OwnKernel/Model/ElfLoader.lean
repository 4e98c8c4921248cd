import OwnKernel.Model.File
import OwnKernel.Model.Kernel

/-!
# Loading an ELF file (`loader/formats/elfloader.c`)

The file lies in memory from `elf_memory` on, and its headers are read
where they lie. `Reads` keeps the addresses of the bytes read, in order;
the `struct elf_file` being filled is passed along.
-/

namespace OwnKernel

/-- A program that reads memory, with the addresses it has read. -/
abbrev Reads := StateM (List Word)

/-- `*(char *)p`. -/
def readByte (mem : Mem) (p : Word) : Reads Byte := do
  modify fun log => log ++ [p]
  pure (mem p)

/-- `*(uint16_t *)p`. -/
def readHalf (mem : Mem) (p : Word) : Reads (BitVec 16) := do
  modify fun log => log ++ [p, p + 1]
  pure (mem.load16 p)

/-- `*(uint32_t *)p`. -/
def readWord (mem : Mem) (p : Word) : Reads Word := do
  modify fun log => log ++ [p, p + 1, p + 2, p + 3]
  pure (mem.load32 p)

/-- `memcmp` with a constant array. -/
def memcmp (mem : Mem) (p : Word) : List Byte → Reads ℤ
  | [] => pure 0
  | c :: cs => do
    let x ← readByte mem p
    if x ≠ c then pure (if x.toInt < c.toInt then -1 else 1) else memcmp mem (p + 1) cs

/-- `elf_signature`. -/
def elfSignature : List Byte := [0x7F, 0x45, 0x4C, 0x46]

/-- `EI_CLASS`. -/
def eiClass : Word := 4

/-- `EI_DATA`. -/
def eiData : Word := 5

/-- The offset of `e_phoff` in `struct elf_header`. -/
def elfPhoffOffset : Word := 28

/-- The offset of `e_phnum` in `struct elf_header`. -/
def elfPhnumOffset : Word := 44

/-- `sizeof(struct elf32_phdr)`. -/
def sizeofElf32Phdr : Word := 32

/-- The offset of `p_offset` in `struct elf32_phdr`. -/
def phdrOffsetOffset : Word := 4

/-- The offset of `p_vaddr`. -/
def phdrVaddrOffset : Word := 8

/-- The offset of `p_filesz`. -/
def phdrFileszOffset : Word := 16

/-- The offset of `p_memsz`. -/
def phdrMemszOffset : Word := 20

/-- The offset of `p_flags`. -/
def phdrFlagsOffset : Word := 24

/-- `PT_LOAD`. -/
def ptLoad : Word := 1

/-- `PF_W`. -/
def pfW : Word := 2

/-- `sizeof(struct elf_file)`. -/
def sizeofElfFile : Word := 132

/-- `elf_valid_signature`. -/
def elfValidSignature (mem : Mem) (buffer : Word) : Reads Bool := do
  let r ← memcmp mem buffer elfSignature
  pure (r = 0)

/-- `elf_valid_class`. -/
def elfValidClass (mem : Mem) (header : Word) : Reads Bool := do
  let c ← readByte mem (header + eiClass)
  pure (c = 0 ∨ c = 1)

/-- `elf_valid_encoding`. -/
def elfValidEncoding (mem : Mem) (header : Word) : Reads Bool := do
  let c ← readByte mem (header + eiData)
  pure (c = 0 ∨ c = 1)

/-- `elf_has_program_header`. -/
def elfHasProgramHeader (mem : Mem) (header : Word) : Reads Bool := do
  let phoff ← readWord mem (header + elfPhoffOffset)
  pure (phoff ≠ 0)

/-- `elf_validate_loaded`. Each check is made when those before it
hold. -/
def elfValidateLoaded (mem : Mem) (header : Word) : Reads ℤ := do
  if !(← elfValidSignature mem header) then pure (-invalidFormatError)
  else if !(← elfValidClass mem header) then pure (-invalidFormatError)
  else if !(← elfValidEncoding mem header) then pure (-invalidFormatError)
  else if !(← elfHasProgramHeader mem header) then pure (-invalidFormatError)
  else pure allOk

/-- `elf_pheader`. -/
def elfPheader (mem : Mem) (header : Word) : Reads Word := do
  let phoff ← readWord mem (header + elfPhoffOffset)
  if phoff = 0 then pure 0 else pure (header + phoff)

/-- `elf_program_header`. -/
def elfProgramHeader (mem : Mem) (header : Word) (index : ℕ) : Reads Word := do
  let phdrs ← elfPheader mem header
  pure (phdrs + BitVec.ofNat 32 index * sizeofElf32Phdr)

/-- `elf_process_phdr_pt_load`. -/
def elfProcessPhdrPtLoad (mem : Mem) (elfFile : ElfFile) (phdr : Word) : Reads (ℤ × ElfFile) := do
  let vaddr ← readWord mem (phdr + phdrVaddrOffset)
  let offset ← readWord mem (phdr + phdrOffsetOffset)
  let filesz ← readWord mem (phdr + phdrFileszOffset)
  let elfFile := if vaddr.toNat ≤ elfFile.virtualBaseAddress.toNat ∨ elfFile.virtualBaseAddress = 0
    then { elfFile with
      virtualBaseAddress := vaddr
      physicalBaseAddress := elfFile.elfMemory + offset }
    else elfFile
  let endVirtualAddress := vaddr + filesz
  let elfFile := if elfFile.virtualEndAddress.toNat ≤ endVirtualAddress.toNat ∨
      elfFile.virtualEndAddress = 0
    then { elfFile with
      virtualEndAddress := endVirtualAddress
      physicalEndAddress := elfFile.elfMemory + offset + filesz }
    else elfFile
  pure (0, elfFile)

/-- `elf_process_pheader`. -/
def elfProcessPheader (mem : Mem) (elfFile : ElfFile) (phdr : Word) : Reads (ℤ × ElfFile) := do
  let type ← readWord mem phdr
  if type = ptLoad then elfProcessPhdrPtLoad mem elfFile phdr else pure (0, elfFile)

/-- The loop of `elf_process_pheaders` at header `i`, with `n` left. -/
def elfProcessPheadersLoop (mem : Mem) : ℕ → ℕ → ElfFile → Reads (ℤ × ElfFile)
  | 0, _, elfFile => pure (0, elfFile)
  | n + 1, i, elfFile => do
    let phdr ← elfProgramHeader mem elfFile.elfMemory i
    let r ← elfProcessPheader mem elfFile phdr
    if r.1 < 0 then pure r else elfProcessPheadersLoop mem n (i + 1) r.2

/-- `elf_process_pheaders`. -/
def elfProcessPheaders (mem : Mem) (elfFile : ElfFile) : Reads (ℤ × ElfFile) := do
  let phnum ← readHalf mem (elfFile.elfMemory + elfPhnumOffset)
  elfProcessPheadersLoop mem phnum.toNat 0 elfFile

/-- `elf_process_loaded`. -/
def elfProcessLoaded (mem : Mem) (elfFile : ElfFile) : Reads (ℤ × ElfFile) := do
  let res ← elfValidateLoaded mem elfFile.elfMemory
  if res < 0 then pure (res, elfFile) else elfProcessPheaders mem elfFile

/-- `elf_load`: the result, and the file. -/
def elfLoad (image : Sectors) (filename : Cstring) : KernelM (ℤ × Word) := do
  let elfFile ← onStore (kernelZalloc sizeofElfFile)
  (if elfFile = 0 then pure ⟨⟩ else modify fun k => k.setElfFile elfFile (some .zero))
  let fd ← onFs (fopen image filename [0x72])
  if fd ≤ 0 then elfLoadOut 0 (-ioError)
  else do
    let r ← onFs (fstat fd ⟨0, 0⟩)
    if r.1 < 0 then elfLoadOut fd r.1
    else do
      let elfMemory ← onStore (kernelZalloc r.2.filesize)
      modifyElfFile elfFile fun file => { file with elfMemory := elfMemory }
      let res ← onFs (fread image elfMemory r.2.filesize 1 fd)
      if res < 0 then elfLoadOut fd res
      else do
        let file ← readElfFile elfFile
        let k ← get
        let loaded := (elfProcessLoaded k.store.mem file).run []
        modifyElfFile elfFile fun _ => loaded.1.2
        if loaded.1.1 < 0 then elfLoadOut fd loaded.1.1
        else do
          let _ ← onFs (fclose fd)
          pure (loaded.1.1, elfFile)
where
  /-- The end of `elf_load` on an error. -/
  elfLoadOut (fd res : ℤ) : KernelM (ℤ × Word) := do
    let _ ← onFs (fclose fd)
    pure (res, 0)

/-- `elf_close`. -/
def elfClose (file : Word) : KernelM PUnit :=
  if file = 0 then pure ⟨⟩
  else do
    let f ← readElfFile file
    onStore (kernelFree f.elfMemory)
    onStore (kernelFree file)
    modify fun k => k.setElfFile file none

/-- `elf_phdr_phys_address`. -/
def elfPhdrPhysAddress (mem : Mem) (file : ElfFile) (phdr : Word) : Word :=
  file.elfMemory + mem.load32 (phdr + phdrOffsetOffset)

end OwnKernel
