import OwnKernel.Process.Segments
import OwnKernel.System.Spared

/-!
# A program among other blocks

What reading a program's file leaves behind, in a heap that others use:
the blocks there were are spared, and when the file is accepted it lies in
blocks of its own (`Spares.elfLoad`, `Spares.processLoadData`).
-/

namespace OwnKernel

variable {P R : Set Word} {k k₀ k' : Kernel} {process elfFile : Word} {p : Process} {res : ℤ}
variable {image : Sectors} {filename : Cstring} {mem : Mem} {file : ElfFile} {n : ℕ}

/-- **A file that `elf_load` has read**, in blocks beside `P`. Where there
was no memory for it, it has been looked for at the address 0. -/
structure FileIn (P : Set Word) (k : Kernel) (elfFile : Word) (file : ElfFile) : Prop where
  not_mem : elfFile ∉ P
  owned : (∃ n, k.store.heap.Owns elfFile n) ∧ k.objects elfFile = none
  object : k.elfFiles elfFile = some file
  memory : file.elfMemory ≠ 0 → file.elfMemory ∉ insert elfFile P ∧
    (∃ n, k.store.heap.Owns file.elfMemory n) ∧ k.objects file.elfMemory = none ∧
      HeaderValid k.store.mem file.elfMemory

/-- A file that is processed without an error has been found valid. -/
theorem headerValid_of_loaded (h : 0 ≤ ((elfProcessLoaded mem file).run []).1.1) :
    HeaderValid mem file.elfMemory := by
  by_contra hinvalid
  obtain ⟨l, hchecks, -⟩ := elfValidateLoaded_logs mem file.elfMemory
  rw [if_neg hinvalid] at hchecks
  have herror : -invalidFormatError < 0 := by decide
  have hrun : Logs (elfProcessLoaded mem file) (-invalidFormatError, file) _ :=
    hchecks.bind (by rw [if_pos herror]; exact .pure _)
  rw [hrun.run_nil] at h
  exact absurd h (not_le.2 herror)

namespace Spares

/-- The error path of `elf_load`. -/
theorem elfLoadOut {fd r : ℤ} (a : Spares R P k₀ k)
    (hrun : OwnKernel.elfLoad.elfLoadOut fd r k = .ok ((res, elfFile), k')) :
    Spares R P k₀ k' ∧ res = r := by
  obtain ⟨x, k₁, hclose, hpure⟩ := Fallible.run_bind.1 hrun
  obtain ⟨hres, rfl⟩ := Fallible.run_pure.1 hpure
  exact ⟨a.fclose hclose, congrArg Prod.fst hres⟩

/-- **`elf_load`**, whatever comes of it. -/
theorem elfLoad (a : Spares R P k₀ k)
    (hrun : OwnKernel.elfLoad image filename k = .ok ((res, elfFile), k')) :
    Spares R P k₀ k' ∧ (0 ≤ res → ∃ file, FileIn P k' elfFile file) := by
  obtain ⟨q, k₁, hz₁, hrun⟩ := Fallible.run_bind.1 hrun
  obtain ⟨a₁, hq⟩ := a.zalloc hz₁
  obtain ⟨k₂, hset, hrun⟩ := Fallible.run_seq.1 hrun
  have hk₂ : k₂ = k₁ ∨ k₂ = k₁.setElfFile q (some .zero) := by
    by_cases h0 : q = 0
    · rw [if_pos h0] at hset
      exact Or.inl (Fallible.run_pure.1 hset).2
    · rw [if_neg h0, Fallible.run_modify] at hset
      exact Or.inr hset
  have a₂ : Spares R P k₀ k₂ := by
    obtain rfl | rfl := hk₂
    · exact a₁
    · exact a₁.setElfFile hq
  obtain ⟨fd, k₃, hopen, hrun⟩ := Fallible.run_bind.1 hrun
  have a₃ := a₂.fopen hopen
  by_cases hfd : fd ≤ 0
  · rw [if_pos hfd] at hrun
    obtain ⟨a', rfl⟩ := a₃.elfLoadOut hrun
    exact ⟨a', fun hres => absurd hres (by decide)⟩
  rw [if_neg hfd] at hrun
  obtain ⟨r, k₄, hstat, hrun⟩ := Fallible.run_bind.1 hrun
  have a₄ := a₃.fstat hstat
  by_cases hneg : r.1 < 0
  · rw [if_pos hneg] at hrun
    obtain ⟨a', rfl⟩ := a₄.elfLoadOut hrun
    exact ⟨a', fun hres => absurd hres (not_le.2 hneg)⟩
  rw [if_neg hneg] at hrun
  obtain ⟨elfMemory, k₅, hz₅, hrun⟩ := Fallible.run_bind.1 hrun
  have a₅ := (a₄.zalloc hz₅).1
  obtain ⟨k₆, hmod, hrun⟩ := Fallible.run_seq.1 hrun
  obtain ⟨h0, f₀, -, hk₆⟩ := run_modifyElfFile.1 hmod
  -- the structure is a block, so the file is read into another one
  have b₂ : Spares R (insert q P) k₂ k₂ := by
    obtain ⟨ho, hobject⟩ := a.owns_zalloc hz₁ (by decide) h0
    have hown : (∃ n, k₂.store.heap.Owns q n) ∧ k₂.objects q = none := by
      obtain rfl | rfl := hk₂
      · exact ⟨⟨_, ho⟩, hobject⟩
      · exact ⟨⟨_, ho⟩, hobject⟩
    exact a₂.add hown.1 hown.2
  obtain ⟨b₅, hmemory⟩ := ((b₂.fopen hopen).fstat hstat).zalloc hz₅
  have a₆ := a₅.modifyElfFile hq hmod
  have b₆ : Spares R (insert q P) k₆ k₆ := by
    obtain ⟨⟨n, hn⟩, hobject⟩ := And.intro (b₅.now.owned q (Set.mem_insert _ _))
      (b₅.objects q (Set.mem_insert _ _))
    rw [hk₆]
    exact (hk₆ ▸ a₆).add ⟨n, hn⟩ hobject
  obtain ⟨m, k₇, hread, hrun⟩ := Fallible.run_bind.1 hrun
  have ho₆ : elfMemory ≠ 0 → 0 < r.2.filesize.toNat →
      k₆.store.heap.Owns elfMemory (blocksFor r.2.filesize.toNat) ∧ k₆.objects elfMemory = none := by
    intro hne hpos
    have hown := ((b₂.fopen hopen).fstat hstat).owns_zalloc hz₅ hpos hne
    rw [hk₆]
    exact hown
  have b₇ := b₆.fread hmemory (fun hne hpos => (ho₆ hne hpos).1) hread
  have a₇ := a₆.trans (b₇.mono (Set.subset_insert q P))
  by_cases hneg' : m < 0
  · rw [if_pos hneg'] at hrun
    obtain ⟨a', rfl⟩ := a₇.elfLoadOut hrun
    exact ⟨a', fun hres => absurd hres (not_le.2 hneg')⟩
  rw [if_neg hneg'] at hrun
  obtain ⟨s₇, hfread, hk₇⟩ := run_onFs.1 hread
  obtain ⟨mem₇, hmem₇⟩ := fread_frame hfread
  have hpos := fread_size_pos hfread (not_lt.1 hneg')
  obtain ⟨file, k₈, hfile, hrun⟩ := Fallible.run_bind.1 hrun
  obtain ⟨-, hfile', hk₈⟩ := run_readElfFile.1 hfile
  rw [hk₈, Fallible.run_get_bind] at hrun
  have helfMemory : file.elfMemory = elfMemory := by
    rw [hk₇, hk₆] at hfile'
    have hself : some { f₀ with elfMemory := elfMemory } = some file :=
      (setElfFile_elfFiles_self (k := k₅) (p := q)).symm.trans hfile'
    rw [← Option.some.inj hself]
  obtain ⟨k₉, hmod', hrun⟩ := Fallible.run_seq.1 hrun
  have a₉ := a₇.modifyElfFile hq hmod'
  obtain ⟨-, f₁, -, hk₉⟩ := run_modifyElfFile.1 hmod'
  by_cases hinvalid : ((elfProcessLoaded k₇.store.mem file).run []).1.1 < 0
  · rw [if_pos hinvalid] at hrun
    obtain ⟨a', rfl⟩ := a₉.elfLoadOut hrun
    exact ⟨a', fun hres => absurd hres (not_le.2 hinvalid)⟩
  rw [if_neg hinvalid] at hrun
  obtain ⟨x, k₁₀, hclose, hpure⟩ := Fallible.run_bind.1 hrun
  obtain ⟨hresult, rfl⟩ := Fallible.run_pure.1 hpure
  obtain rfl : elfFile = q := congrArg Prod.snd hresult
  -- closing the file leaves the blocks
  have b₉ : Spares R (insert elfFile P) k₉ k₉ := by
    obtain ⟨⟨n, hn⟩, hobject⟩ := And.intro (b₇.now.owned elfFile (Set.mem_insert _ _))
      (b₇.objects elfFile (Set.mem_insert _ _))
    rw [hk₉]
    exact (hk₉ ▸ a₉).add ⟨n, hn⟩ hobject
  have b' := b₉.fclose hclose
  have hself : elfFile ∈ insert elfFile P := Set.mem_insert _ _
  refine ⟨a₉.fclose hclose, fun _ => ⟨((elfProcessLoaded k₇.store.mem file).run []).1.2, hq,
    ⟨b'.now.owned _ hself, b'.objects _ hself⟩, ?_, fun hne => ?_⟩⟩
  · rw [b'.elfFiles _ hself, hk₉]
    exact setElfFile_elfFiles_self
  · rw [elfProcessLoaded_elfMemory, helfMemory] at hne ⊢
    obtain ⟨ho, hobject⟩ := ho₆ hne hpos
    have hown : k₉.store.heap.Owns elfMemory (blocksFor r.2.filesize.toNat) ∧
        k₉.objects elfMemory = none := by
      rw [hk₉, hk₇, hmem₇]
      exact ⟨ho, hobject⟩
    have c' := (b₉.add ⟨_, hown.1⟩ hown.2).fclose hclose
    have hin : elfMemory ∈ insert elfMemory (insert elfFile P) := Set.mem_insert _ _
    refine ⟨hmemory, c'.now.owned _ hin, c'.objects _ hin, ?_⟩
    have hvalid := headerValid_of_loaded (not_lt.1 hinvalid)
    rw [helfMemory] at hvalid
    have hmem₉ : k₉.store.mem = k₇.store.mem := by rw [hk₉]; rfl
    rw [← hmem₉] at hvalid
    refine (headerValid_block fun y hy => ?_).2 hvalid
    refine c'.mem _ hin _ hown.1 y ?_
    have hblocks := hown.1.pos
    unfold InRange at hy ⊢
    omega

end Spares

/-! ## The process and its program -/

/-- **A program that is loaded**, in blocks beside `P`. -/
structure ProgramIn (P : Set Word) (k : Kernel) (p : Process) : Prop where
  filetype : p.filetype = processFiletypeElf ∨ p.filetype = processFiletypeBinary
  elf : p.filetype = processFiletypeElf → ∃ file, FileIn P k p.ptr file
  binary : p.filetype = processFiletypeBinary → p.ptr ∉ P ∧
    k.store.heap.Owns p.ptr (blocksFor p.size.toNat) ∧ k.objects p.ptr = none

/-- **What loading the program of `process` leaves behind**, from `k₀` on:
`p` has been the process before, and `p'` is it now. -/
structure DataLoaded (R P : Set Word) (k₀ k : Kernel) (process : Word) (p p' : Process) (res : ℤ) :
    Prop where
  spares : Spares R P k₀ k
  owned : (∃ n, k.store.heap.Owns process n) ∧ k.objects process = none
  object : k.processes process = some p'
  same : p' = { p with
    filetype := p'.filetype
    ptr := p'.ptr
    size := p'.size }
  program : 0 ≤ res → ProgramIn (insert process P) k p'

/-- An error leaves the process as it was. -/
theorem DataLoaded.of_spares (a : Spares R P k₀ k) (b : Spares R (insert process P) k k')
    (hp : k.processes process = some p) (hres : res < 0) :
    DataLoaded R P k₀ k' process p p res where
  spares := a.trans (b.mono (Set.subset_insert _ _))
  owned := ⟨b.now.owned _ (Set.mem_insert _ _), b.objects _ (Set.mem_insert _ _)⟩
  object := (b.processes _ (Set.mem_insert _ _)).trans hp
  same := rfl
  program h := absurd h (not_le.2 hres)

namespace Spares

variable (a : Spares R P k₀ k) (hprocess : process ∉ P) (ho : ∃ n, k.store.heap.Owns process n)
  (hobject : k.objects process = none) (hp : k.processes process = some p)
include a hprocess ho hobject hp

/-- **`process_load_binary`.** -/
theorem processLoadBinary
    (hrun : OwnKernel.processLoadBinary image filename process k = .ok (res, k')) :
    ∃ p', DataLoaded R P k₀ k' process p p' res := by
  have b := a.add ho hobject
  have hout : ∀ {k₁ : Kernel} {fd r : ℤ}, Spares R (insert process P) k k₁ → r < 0 →
      OwnKernel.processLoadBinary.processLoadBinaryOut fd r k₁ = .ok (res, k') →
        ∃ p', DataLoaded R P k₀ k' process p p' res := by
    intro k₁ fd r b₁ hneg hrun
    obtain ⟨rfl, r', hclose⟩ := processLoadBinaryOut_res hrun
    exact ⟨p, .of_spares a (b₁.fclose hclose) hp hneg⟩
  obtain ⟨fd, k₁, hopen, hrun⟩ := Fallible.run_bind.1 hrun
  have b₁ := b.fopen hopen
  by_cases hfd : fd = 0
  · rw [if_pos hfd] at hrun
    exact hout b₁ (by decide) hrun
  rw [if_neg hfd] at hrun
  obtain ⟨r, k₂, hstat, hrun⟩ := Fallible.run_bind.1 hrun
  have b₂ := b₁.fstat hstat
  by_cases hneg : r.1 ≠ allOk
  · rw [if_pos hneg] at hrun
    obtain ⟨s₂, hstat', -⟩ := run_onFs.1 hstat
    exact hout b₂ (lt_of_le_of_ne (fstat_frame hstat').2 hneg) hrun
  rw [if_neg hneg] at hrun
  obtain ⟨programDataPtr, k₃, hz, hrun⟩ := Fallible.run_bind.1 hrun
  obtain ⟨b₃, hnew⟩ := b₂.zalloc hz
  by_cases hnull : programDataPtr = 0
  · rw [if_pos hnull] at hrun
    exact hout b₃ (by decide) hrun
  rw [if_neg hnull] at hrun
  obtain ⟨m, k₄, hread, hrun⟩ := Fallible.run_bind.1 hrun
  have b₄ := b₃.fread hnew (fun _ hpos => (b₂.owns_zalloc hz hpos hnull).1) hread
  by_cases hone : m ≠ 1
  · rw [if_pos hone] at hrun
    exact hout b₄ (by decide) hrun
  rw [if_neg hone] at hrun
  obtain ⟨k₅, hmod, hrun⟩ := Fallible.run_seq.1 hrun
  have a₅ := (a.trans (b₄.mono (Set.subset_insert _ _))).modifyProcess hprocess hmod
  obtain ⟨-, p', hp', hk₅⟩ := run_modifyProcess.1 hmod
  rw [(b₄.processes _ (Set.mem_insert _ _)).trans hp] at hp'
  obtain rfl := Option.some.inj hp'
  -- the process and its program stay while the file is closed
  have hself := And.intro (b₄.now.owned _ (Set.mem_insert _ _)) (b₄.objects _ (Set.mem_insert _ _))
  have hdata : k₅.store.heap.Owns programDataPtr (blocksFor r.2.filesize.toNat) ∧
      k₅.objects programDataPtr = none := by
    obtain ⟨s₄, hfread, hk₄⟩ := run_onFs.1 hread
    obtain ⟨mem₄, rfl⟩ := fread_frame hfread
    have hpos := fread_size_pos hfread (by rw [not_not.1 hone]; decide)
    have hown := b₂.owns_zalloc hz hpos hnull
    rw [hk₅, hk₄]
    exact hown
  have b₅ : Spares R (insert process P) k₅ k₅ := by
    refine a₅.add ?_ ?_
    · rw [hk₅]
      exact hself.1
    · rw [hk₅]
      exact hself.2
  obtain ⟨rfl, r', hclose⟩ := processLoadBinaryOut_res hrun
  have c' := (b₅.add ⟨_, hdata.1⟩ hdata.2).fclose hclose
  have hin : process ∈ insert programDataPtr (insert process P) := Or.inr (Set.mem_insert _ _)
  refine ⟨{ p with
    filetype := processFiletypeBinary
    ptr := programDataPtr
    size := r.2.filesize }, a₅.fclose hclose, ⟨c'.now.owned _ hin, c'.objects _ hin⟩, ?_, rfl,
    fun _ => ⟨Or.inr rfl, fun helf => ?_, fun _ => ⟨hnew, c'.owns _ (Set.mem_insert _ _) _ hdata.1,
      c'.objects _ (Set.mem_insert _ _)⟩⟩⟩
  · rw [c'.processes _ hin, hk₅]
    exact setProcess_processes_self
  · exact absurd (show processFiletypeBinary = processFiletypeElf from helf) (by decide)

/-- **`process_load_data`.** -/
theorem processLoadData
    (hrun : OwnKernel.processLoadData image filename process k = .ok (res, k')) :
    ∃ p', DataLoaded R P k₀ k' process p p' res := by
  obtain ⟨res₁, k₁, helf, hrun⟩ := Fallible.run_bind.1 hrun
  obtain ⟨⟨res₂, elfFile⟩, k₂, hload, helf⟩ := Fallible.run_bind.1 helf
  obtain ⟨b₂, hfile⟩ := (a.add ho hobject).elfLoad hload
  have hin : process ∈ insert process P := Set.mem_insert _ _
  have hp₂ := (b₂.processes _ hin).trans hp
  by_cases hneg : res₂ < 0
  · -- it is no ELF file
    rw [if_pos hneg] at helf
    obtain ⟨rfl, rfl⟩ := Fallible.run_pure.1 helf
    by_cases hformat : res₁ = -invalidFormatError
    · rw [if_pos hformat] at hrun
      exact (a.trans (b₂.mono (Set.subset_insert _ _))).processLoadBinary hprocess
        (b₂.now.owned _ hin) (b₂.objects _ hin) hp₂ hrun
    · rw [if_neg hformat] at hrun
      obtain ⟨rfl, rfl⟩ := Fallible.run_pure.1 hrun
      exact ⟨p, .of_spares a b₂ hp hneg⟩
  · rw [if_neg hneg] at helf
    obtain ⟨k₃, hmod, hpure⟩ := Fallible.run_seq.1 helf
    obtain ⟨rfl, rfl⟩ := Fallible.run_pure.1 hpure
    have hformat : res₁ ≠ -invalidFormatError := by
      have herror : -invalidFormatError < 0 := by decide
      omega
    rw [if_neg hformat] at hrun
    obtain ⟨-, rfl⟩ := Fallible.run_pure.1 hrun
    have a' := (a.trans (b₂.mono (Set.subset_insert _ _))).modifyProcess hprocess hmod
    obtain ⟨-, p', hp', hk'⟩ := run_modifyProcess.1 hmod
    obtain rfl : p' = p := Option.some.inj (hp'.symm.trans hp₂)
    obtain ⟨file, hf⟩ := hfile (not_lt.1 hneg)
    rw [hk'] at a' ⊢
    refine ⟨{ p' with
      filetype := processFiletypeElf
      ptr := elfFile }, a', ⟨b₂.now.owned _ hin, b₂.objects _ hin⟩, setProcess_processes_self, rfl,
      fun _ => ⟨Or.inl rfl, fun _ => ⟨file, hf.not_mem, hf.owned, hf.object, hf.memory⟩,
        fun hbinary => ?_⟩⟩
    exact absurd (show processFiletypeElf = processFiletypeBinary from hbinary) (by decide)

end Spares

end OwnKernel
