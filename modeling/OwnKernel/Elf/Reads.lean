import OwnKernel.Lib.Logged
import OwnKernel.Model.ElfLoader

/-!
# What the ELF loader reads

No check of the loader looks at the file's size. `ElfConfined` is what
the size asks for: an accepted file's program headers and `PT_LOAD`
ranges lie in it, and nothing outside it is read. It holds exactly of the
files that bring these bounds with them (`elfProcessLoaded_confined_iff`,
`ElfFits`); a file of three bytes is already read past its end
(`elfProcessLoaded_not_confined`).
-/

namespace OwnKernel

variable {mem : Mem} {base p a : Word} {size n i : ℕ} {elfFile : ElfFile}

/-! ## The file's fields -/

/-- `e_phoff`. -/
def elfPhoff (mem : Mem) (base : Word) : Word := mem.load32 (base + elfPhoffOffset)

/-- `e_phnum`. -/
def elfPhnum (mem : Mem) (base : Word) : ℕ := (mem.load16 (base + elfPhnumOffset)).toNat

/-- The address of program header `i`. -/
def elfPhdrAddress (mem : Mem) (base : Word) (i : ℕ) : Word :=
  base + elfPhoff mem base + BitVec.ofNat 32 i * sizeofElf32Phdr

/-- Program header `i` lies in the file. -/
def PhdrInFile (mem : Mem) (base : Word) (size i : ℕ) : Prop :=
  0 ≤ (elfPhoff mem base).toInt ∧ (elfPhoff mem base).toInt + 32 * (i + 1) ≤ size

/-- The range of the file that program header `i` names lies in it. -/
def LoadInFile (mem : Mem) (base : Word) (size i : ℕ) : Prop :=
  let offset := mem.load32 (elfPhdrAddress mem base i + phdrOffsetOffset)
  let filesz := mem.load32 (elfPhdrAddress mem base i + phdrFileszOffset)
  0 ≤ offset.toInt ∧ offset.toInt + filesz.toNat ≤ size

/-- Program header `i` is a `PT_LOAD`. -/
def IsLoad (mem : Mem) (base : Word) (i : ℕ) : Prop :=
  mem.load32 (elfPhdrAddress mem base i) = ptLoad

/-- The program headers and the ranges of the `PT_LOAD` ones lie in the
file. -/
def PhdrsInFile (mem : Mem) (base : Word) (size : ℕ) : Prop :=
  ∀ i < elfPhnum mem base, PhdrInFile mem base size i ∧
    (IsLoad mem base i → LoadInFile mem base size i)

/-- **What the loader is to keep to**, for a file of `size` bytes from
`elf_memory` on: an accepted file's headers and ranges lie in it, and no
byte outside it is read. -/
def ElfConfined (mem : Mem) (elfFile : ElfFile) (size : ℕ) : Prop :=
  (((elfProcessLoaded mem elfFile).run []).1.1 = allOk → PhdrsInFile mem elfFile.elfMemory size) ∧
    ∀ a ∈ ((elfProcessLoaded mem elfFile).run []).2, InRange elfFile.elfMemory size a

/-! ## The checks -/

/-- How many bytes `memcmp` looks at. -/
def comparedBytes (mem : Mem) (p : Word) : List Byte → ℕ
  | [] => 0
  | c :: cs => if mem p = c then comparedBytes mem (p + 1) cs + 1 else 1

/-- The signature is there. -/
def SignatureValid (mem : Mem) (base : Word) : Prop := mem.load base 4 = elfSignature

/-- The class is accepted. -/
def ClassValid (mem : Mem) (base : Word) : Prop := mem (base + eiClass) = 0 ∨ mem (base + eiClass) = 1

/-- The encoding is accepted. -/
def EncodingValid (mem : Mem) (base : Word) : Prop := mem (base + eiData) = 0 ∨ mem (base + eiData) = 1

instance : Decidable (SignatureValid mem base) := inferInstanceAs (Decidable (_ = _))
instance : Decidable (ClassValid mem base) := inferInstanceAs (Decidable (_ ∨ _))
instance : Decidable (EncodingValid mem base) := inferInstanceAs (Decidable (_ ∨ _))

/-- The checks of `elf_validate_loaded` all hold. -/
def HeaderValid (mem : Mem) (base : Word) : Prop :=
  SignatureValid mem base ∧ ClassValid mem base ∧ EncodingValid mem base ∧ elfPhoff mem base ≠ 0

instance : Decidable (HeaderValid mem base) := inferInstanceAs (Decidable (_ ∧ _ ∧ _ ∧ _))

/-- The bytes looked at up to the first check that fails are in the
file. -/
def HeaderFits (mem : Mem) (base : Word) (size : ℕ) : Prop :=
  comparedBytes mem base elfSignature ≤ size ∧ (SignatureValid mem base → 4 < size ∧
    (ClassValid mem base → 5 < size ∧ (EncodingValid mem base → 31 < size)))

/-- **A file that brings its bounds with it**: it is long enough for the
checks that are made, and when they all hold, for `e_phnum`, its program
headers and the ranges these name. -/
def ElfFits (mem : Mem) (base : Word) (size : ℕ) : Prop :=
  HeaderFits mem base size ∧ (HeaderValid mem base → 45 < size ∧ PhdrsInFile mem base size)

theorem readByte_logs : Logs (readByte mem p) (mem p) [p] := .tell _

theorem readHalf_logs : Logs (readHalf mem p) (mem.load16 p) [p, p + 1] := .tell _

theorem readWord_logs : Logs (readWord mem p) (mem.load32 p) [p, p + 1, p + 2, p + 3] := .tell _

/-- The bytes of a range are in the file exactly when the range's end
is. -/
theorem forall_inRange_iff {k : ℕ} (hk : k ≤ 2 ^ 32) :
    (∀ a ∈ (List.range k).map fun i => base + BitVec.ofNat 32 i, InRange base size a) ↔
      k ≤ size := by
  constructor
  · intro h
    rcases Nat.eq_zero_or_pos k with rfl | hpos
    · exact Nat.zero_le _
    · have hlast := h _ (List.mem_map.2 ⟨k - 1, List.mem_range.2 (by omega), rfl⟩)
      rw [inRange_add (by omega)] at hlast
      omega
  · intro h a ha
    obtain ⟨i, hi, rfl⟩ := List.mem_map.1 ha
    rw [List.mem_range] at hi
    exact (inRange_add (by omega)).2 (by omega)

theorem comparedBytes_le (mem : Mem) : ∀ (cs : List Byte) (p : Word), comparedBytes mem p cs ≤ cs.length
  | [], _ => le_rfl
  | c :: cs, p => by
    have := comparedBytes_le mem cs (p + 1)
    rw [comparedBytes, List.length_cons]
    split <;> omega

/-- The next bytes of a range. -/
theorem load_succ (mem : Mem) (p : Word) (n : ℕ) :
    mem.load p (n + 1) = mem p :: mem.load (p + 1) n := by
  unfold Mem.load
  rw [List.range_succ_eq_map, List.map_cons, List.map_map, BitVec.add_zero]
  congr 1
  refine List.map_congr_left fun i _ => ?_
  simp only [Function.comp_apply]
  congr 1
  bv_omega

/-- **`memcmp`** reads up to the first byte that differs, and is 0 when
none does. -/
theorem memcmp_logs (mem : Mem) : ∀ (cs : List Byte) (p : Word), ∃ v,
    Logs (memcmp mem p cs) v ((List.range (comparedBytes mem p cs)).map fun i =>
      p + BitVec.ofNat 32 i) ∧ (v = 0 ↔ mem.load p cs.length = cs)
  | [], p => ⟨0, .pure 0, by simp [Mem.load]⟩
  | c :: cs, p => by
    rw [comparedBytes, List.length_cons, load_succ]
    by_cases hc : mem p = c
    · obtain ⟨v, hv, h0⟩ := memcmp_logs mem cs (p + 1)
      refine ⟨v, ?_, ?_⟩
      · have hshift : (List.range (comparedBytes mem (p + 1) cs + 1)).map
            (fun i => p + BitVec.ofNat 32 i) = [p] ++
              (List.range (comparedBytes mem (p + 1) cs)).map fun i => p + 1 + BitVec.ofNat 32 i := by
          rw [List.range_succ_eq_map, List.map_cons, List.map_map, BitVec.add_zero]
          refine congrArg (p :: ·) (List.map_congr_left fun i _ => ?_)
          simp only [Function.comp_apply]
          bv_omega
        rw [if_pos hc, hshift]
        refine Logs.bind readByte_logs ?_
        rw [if_neg (fun hne => hne hc)]
        exact hv
      · rw [h0, hc]
        exact ⟨fun h => by rw [h], fun h => (List.cons.inj h).2⟩
    · refine ⟨if (mem p).toInt < c.toInt then -1 else 1, ?_, ?_⟩
      · rw [if_neg hc]
        have hone : (List.range 1).map (fun i => p + BitVec.ofNat 32 i) = [p] ++ [] := by
          simp
        rw [hone]
        refine Logs.bind readByte_logs ?_
        rw [if_pos hc]
        exact .pure _
      · refine iff_of_false ?_ fun h => hc (List.cons.inj h).1
        split <;> decide

/-- Checks made one after the other, and all at once. -/
theorem ite_and_and {α : Type} (P Q R S : Prop) [Decidable P] [Decidable Q] [Decidable R]
    [Decidable S] [Decidable (P ∧ Q ∧ R ∧ S)] (x y : α) : (if P ∧ Q ∧ R ∧ S then x else y) =
      if P then if Q then if R then if S then x else y else y else y else y := by
  split_ifs <;> tauto

/-- **The checks**, and what they read. -/
theorem elfValidateLoaded_logs (mem : Mem) (base : Word) : ∃ l,
    Logs (elfValidateLoaded mem base)
      (if HeaderValid mem base then allOk else -invalidFormatError) l ∧
      ∀ size, (∀ a ∈ l, InRange base size a) ↔ HeaderFits mem base size := by
  obtain ⟨v, hv, h0⟩ := memcmp_logs mem elfSignature base
  have hle := comparedBytes_le mem elfSignature base
  have hsig : ∀ size, (∀ a ∈ (List.range (comparedBytes mem base elfSignature)).map fun i =>
      base + BitVec.ofNat 32 i, InRange base size a) ↔ comparedBytes mem base elfSignature ≤ size :=
    fun size => forall_inRange_iff (by have : elfSignature.length = 4 := rfl; omega)
  have hbyte : ∀ (i size : ℕ), i < 2 ^ 32 →
      ((∀ a ∈ [base + BitVec.ofNat 32 i], InRange base size a) ↔ i < size) := by
    intro i size hi
    rw [List.forall_mem_singleton, inRange_add hi]
  have hword : ∀ size, (∀ a ∈ [base + elfPhoffOffset, base + elfPhoffOffset + 1,
      base + elfPhoffOffset + 2, base + elfPhoffOffset + 3], InRange base size a) ↔ 31 < size := by
    intro size
    have h28 : InRange base size (base + BitVec.ofNat 32 28) ↔ 28 < size :=
      inRange_add (by decide)
    have h29 : InRange base size (base + BitVec.ofNat 32 29) ↔ 29 < size :=
      inRange_add (by decide)
    have h30 : InRange base size (base + BitVec.ofNat 32 30) ↔ 30 < size :=
      inRange_add (by decide)
    have h31 : InRange base size (base + BitVec.ofNat 32 31) ↔ 31 < size :=
      inRange_add (by decide)
    have e1 : base + elfPhoffOffset + 1 = base + BitVec.ofNat 32 29 := by
      rw [BitVec.add_assoc]; rfl
    have e2 : base + elfPhoffOffset + 2 = base + BitVec.ofNat 32 30 := by
      rw [BitVec.add_assoc]; rfl
    have e3 : base + elfPhoffOffset + 3 = base + BitVec.ofNat 32 31 := by
      rw [BitVec.add_assoc]; rfl
    have e0 : base + elfPhoffOffset = base + BitVec.ofNat 32 28 := rfl
    rw [e1, e2, e3, e0]
    simp only [List.forall_mem_cons, h28, h29, h30, h31, List.not_mem_nil, false_implies,
      implies_true, and_true]
    omega
  have hvalid : Logs (elfValidateLoaded mem base) _ _ :=
    .check (.bind_pure hv) <| .check (.bind_pure readByte_logs) <|
      .check (.bind_pure readByte_logs) <| .check (.bind_pure readWord_logs) (.pure allOk)
  have hclass : ∀ size, (∀ a ∈ [base + eiClass], InRange base size a) ↔ 4 < size := fun size =>
    hbyte 4 size (by decide)
  have hdata : ∀ size, (∀ a ∈ [base + eiData], InRange base size a) ↔ 5 < size := fun size =>
    hbyte 5 size (by decide)
  have hsv : v = 0 ↔ SignatureValid mem base := h0
  have hvalue : (if HeaderValid mem base then allOk else -invalidFormatError) =
      if decide (v = 0) = true then
        if decide (mem (base + eiClass) = 0 ∨ mem (base + eiClass) = 1) = true then
          if decide (mem (base + eiData) = 0 ∨ mem (base + eiData) = 1) = true then
            if decide (mem.load32 (base + elfPhoffOffset) ≠ 0) = true then allOk
            else -invalidFormatError
          else -invalidFormatError
        else -invalidFormatError
      else -invalidFormatError := by
    unfold HeaderValid ClassValid EncodingValid elfPhoff
    simp only [decide_eq_true_eq, hsv]
    exact ite_and_and ..
  rw [← hvalue] at hvalid
  refine ⟨_, hvalid, fun size => ?_⟩
  rw [Logs.forall_mem_check, hsig]
  unfold HeaderFits ClassValid EncodingValid
  simp only [Logs.forall_mem_check, hclass, hdata, hword, List.not_mem_nil, false_implies,
    implies_true, and_true]
  simp only [decide_eq_true_eq, hsv]

/-! ## The program headers -/

/-- What the loader reads of program header `i` lies in it, or is
`e_phoff`. -/
def PhdrRead (mem : Mem) (base : Word) (i : ℕ) (a : Word) : Prop :=
  InRange (base + elfPhoffOffset) 4 a ∨ InRange (elfPhdrAddress mem base i) 32 a

theorem mem_readWord {d : ℕ} (hd : d < 29) {q : Word}
    (ha : a ∈ [q + BitVec.ofNat 32 d, q + BitVec.ofNat 32 d + 1, q + BitVec.ofNat 32 d + 2,
      q + BitVec.ofNat 32 d + 3]) : InRange q (d + 4) a := by
  unfold InRange
  simp only [List.mem_cons, List.not_mem_nil, or_false] at ha
  rcases ha with rfl | rfl | rfl | rfl <;> bv_omega

/-- **One program header.** -/
theorem elfProcessPheader_logs (mem : Mem) (elfFile : ElfFile) (q : Word) : ∃ file l,
    Logs (elfProcessPheader mem elfFile q) (0, file) l ∧ file.elfMemory = elfFile.elfMemory ∧
      ∀ a ∈ l, InRange q 32 a := by
  have hin : ∀ d : ℕ, d < 29 → ∀ a ∈ [q + BitVec.ofNat 32 d, q + BitVec.ofNat 32 d + 1,
      q + BitVec.ofNat 32 d + 2, q + BitVec.ofNat 32 d + 3], InRange q 32 a := by
    intro d hd a ha
    have := mem_readWord hd ha
    unfold InRange at this ⊢
    omega
  have htype : ∀ a ∈ [q, q + 1, q + 2, q + 3], InRange q 32 a := by
    have := hin 0 (by decide)
    rwa [BitVec.add_zero] at this
  by_cases hload : mem.load32 q = ptLoad
  · have hrun : Logs (elfProcessPhdrPtLoad mem elfFile q) _ _ :=
      .bind readWord_logs <| .bind readWord_logs <| .bind readWord_logs <| .pure _
    refine ⟨_, _, readWord_logs.bind (by rw [if_pos hload]; exact hrun), ?_, ?_⟩
    · split <;> split <;> rfl
    · simp only [List.forall_mem_append]
      exact ⟨htype, hin 8 (by decide), hin 4 (by decide), hin 16 (by decide), by simp⟩
  · refine ⟨elfFile, _, readWord_logs.bind (by rw [if_neg hload]; exact .pure _), rfl, ?_⟩
    rw [List.append_nil]
    exact htype

/-- **The loop over the program headers.** -/
theorem elfProcessPheadersLoop_logs (h0 : elfPhoff mem base ≠ 0) : ∀ (n i : ℕ) (elfFile : ElfFile),
    elfFile.elfMemory = base → ∃ file l, Logs (elfProcessPheadersLoop mem n i elfFile) (0, file) l ∧
      ∀ a ∈ l, ∃ j, i ≤ j ∧ j < i + n ∧ PhdrRead mem base j a
  | 0, i, elfFile, _ => ⟨elfFile, [], .pure _, by simp⟩
  | n + 1, i, elfFile, hbase => by
    have hphdr : Logs (elfProgramHeader mem elfFile.elfMemory i) (elfPhdrAddress mem base i)
        ([base + elfPhoffOffset, base + elfPhoffOffset + 1, base + elfPhoffOffset + 2,
          base + elfPhoffOffset + 3] ++ []) := by
      rw [hbase]
      refine .bind_pure (g := fun phdrs => phdrs + BitVec.ofNat 32 i * sizeofElf32Phdr)
        (v := base + elfPhoff mem base) (.bind readWord_logs ?_)
      change Logs (if elfPhoff mem base = 0 then _ else _) _ _
      rw [if_neg h0]
      exact .pure _
    obtain ⟨file, l, hone, hmem, hl⟩ := elfProcessPheader_logs mem elfFile (elfPhdrAddress mem base i)
    obtain ⟨file', l', hloop, hl'⟩ := elfProcessPheadersLoop_logs h0 n (i + 1) file (hmem.trans hbase)
    have hrest : ¬ (0, file).1 < (0 : ℤ) := lt_irrefl 0
    refine ⟨file', _, hphdr.bind (hone.bind (by rw [if_neg hrest]; exact hloop)), fun a ha => ?_⟩
    rw [List.append_nil] at ha
    rcases List.mem_append.1 ha with ha | ha
    · exact ⟨i, le_rfl, by omega, Or.inl (mem_readWord (d := 0) (by decide) (by rwa [BitVec.add_zero]))⟩
    · rcases List.mem_append.1 ha with ha | ha
      · exact ⟨i, le_rfl, by omega, Or.inr (hl a ha)⟩
      · obtain ⟨j, h1, h2, hj⟩ := hl' a ha
        exact ⟨j, by omega, by omega, hj⟩

/-! ## The file -/

/-- A header in the file is read in the file. -/
theorem PhdrInFile.inRange (h : PhdrInFile mem base size i) (hi : i < 2 ^ 16)
    (ha : InRange (elfPhdrAddress mem base i) 32 a) : InRange base size a := by
  obtain ⟨hneg, hend⟩ := h
  unfold InRange elfPhdrAddress at *
  generalize elfPhoff mem base = phoff at *
  have hphoff : phoff.toInt = phoff.toNat := by
    rw [BitVec.toInt_eq_toNat_cond] at hneg ⊢
    have := phoff.isLt
    split at hneg <;> split <;> omega
  rw [hphoff] at hend
  have hmul : (BitVec.ofNat 32 i * sizeofElf32Phdr).toNat = i * 32 := by
    rw [BitVec.toNat_mul, BitVec.toNat_ofNat, show sizeofElf32Phdr.toNat = 32 from rfl]
    omega
  generalize BitVec.ofNat 32 i * sizeofElf32Phdr = step at *
  bv_omega

/-- **What the loader keeps to, exactly**: the file brings its bounds
with it. -/
theorem elfProcessLoaded_confined_iff (mem : Mem) (elfFile : ElfFile) (size : ℕ) :
    ElfConfined mem elfFile size ↔ ElfFits mem elfFile.elfMemory size := by
  obtain ⟨l, hvalidate, hl⟩ := elfValidateLoaded_logs mem elfFile.elfMemory
  unfold ElfConfined ElfFits
  by_cases hv : HeaderValid mem elfFile.elfMemory
  · -- the checks hold, so the headers are read and the file is accepted
    rw [if_pos hv] at hvalidate
    obtain ⟨file, l', hloop, hl'⟩ := elfProcessPheadersLoop_logs hv.2.2.2
      (elfPhnum mem elfFile.elfMemory) 0 elfFile rfl
    have hok : ¬ allOk < 0 := by decide
    have hrun : Logs (elfProcessLoaded mem elfFile) (0, file) _ :=
      hvalidate.bind (by rw [if_neg hok]; exact readHalf_logs.bind hloop)
    rw [hrun.run_nil]
    have h44 : InRange elfFile.elfMemory size (elfFile.elfMemory + BitVec.ofNat 32 44) ↔
        44 < size := inRange_add (by decide)
    have h45 : InRange elfFile.elfMemory size (elfFile.elfMemory + BitVec.ofNat 32 45) ↔
        45 < size := inRange_add (by decide)
    have e44 : elfFile.elfMemory + elfPhnumOffset = elfFile.elfMemory + BitVec.ofNat 32 44 := rfl
    have e45 : elfFile.elfMemory + elfPhnumOffset + 1 = elfFile.elfMemory + BitVec.ofNat 32 45 := by
      rw [BitVec.add_assoc]; rfl
    rw [e45, e44]
    simp only [List.forall_mem_append, List.forall_mem_cons, h44, h45, hl]
    constructor
    · rintro ⟨haccept, hheader, ⟨-, h45', -⟩, -⟩
      exact ⟨hheader, fun _ => ⟨h45', haccept rfl⟩⟩
    · rintro ⟨hheader, hfits⟩
      obtain ⟨h45', hphdrs⟩ := hfits hv
      refine ⟨fun _ => hphdrs, hheader, ⟨by omega, h45', by simp⟩, fun a ha => ?_⟩
      obtain ⟨j, -, hj, hread⟩ := hl' a ha
      rw [Nat.zero_add] at hj
      have hj' : j < 2 ^ 16 := lt_of_lt_of_le hj (BitVec.isLt _).le
      rcases hread with hread | hread
      · unfold InRange at hread ⊢
        have : elfPhoffOffset = 28 := rfl
        bv_omega
      · exact (hphdrs j hj).1.inRange hj' hread
  · -- the file is rejected at the first check that fails
    rw [if_neg hv] at hvalidate
    have hneg : -invalidFormatError < 0 := by decide
    have hrun : Logs (elfProcessLoaded mem elfFile) (-invalidFormatError, elfFile) _ :=
      hvalidate.bind (by rw [if_pos hneg]; exact .pure _)
    rw [hrun.run_nil, List.append_nil, hl]
    constructor
    · exact fun h => ⟨h.2, fun hv' => absurd hv' hv⟩
    · exact fun h => ⟨fun hres => absurd (show -invalidFormatError = allOk from hres) (by decide), h.1⟩

/-- **The loader does not keep to the file**: three bytes of a signature
are a file whose fourth byte is read. -/
theorem elfProcessLoaded_not_confined :
    ¬ ∀ (mem : Mem) (elfFile : ElfFile) (bytes : List Byte),
      mem.load elfFile.elfMemory bytes.length = bytes → ElfConfined mem elfFile bytes.length := by
  intro hall
  have hload : (Mem.store (fun _ => 0) heapAddress [0x7F, 0x45, 0x4C]).load heapAddress 3 =
      [0x7F, 0x45, 0x4C] := by decide
  have hconfined := hall _ { ElfFile.zero with elfMemory := heapAddress } [0x7F, 0x45, 0x4C] hload
  -- the signature's four bytes are compared first
  have hread : heapAddress + 3 ∈ ((elfProcessLoaded (Mem.store (fun _ => 0) heapAddress
      [0x7F, 0x45, 0x4C]) { ElfFile.zero with elfMemory := heapAddress }).run []).2 := by decide
  exact absurd (hconfined.2 _ hread) (by decide)

end OwnKernel
