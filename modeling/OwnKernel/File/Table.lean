import OwnKernel.Fat16.Find
import OwnKernel.File.Open

/-!
# The table of open files

A run of `fopen` and `fclose` from an empty table, with the files that
are open: each by its handle and its descriptor. `file_new_descriptor`
takes the first free slot of all 512, and `file_get_descriptor` knows the
handles below 512, so the file in the last slot has none. Below it every
handle is accepted until it is closed (`fileTableRun_sound`).
-/

namespace OwnKernel

open Fallible (Spends)

variable {image : Sectors} {filename modeStr : Cstring} {s s' s₀ : FsState} {fd r : ℤ} {d : Word}
variable {files : List (ℤ × Word)} {i j : ℕ}

/-! ## Slots -/

theorem FsState.freeSlot_eq_some : s.freeSlot = some i ↔
    i < osMaxFileDescriptors ∧ s.fileDescriptors i = 0 ∧ ∀ j < i, s.fileDescriptors j ≠ 0 := by
  unfold FsState.freeSlot
  rw [List.find?_range_eq_some]
  simp only [decide_eq_true_eq, List.mem_range, Bool.not_eq_true', decide_eq_false_iff_not]
  tauto

/-- **A slot below the last one is free.** -/
def FsState.HasSlot (s : FsState) : Prop :=
  ∃ i, i + 1 < osMaxFileDescriptors ∧ s.fileDescriptors i = 0

/-- The first free slot is then below the last one. -/
theorem FsState.hasSlot_iff :
    s.HasSlot ↔ ∃ i, s.freeSlot = some i ∧ i + 1 < osMaxFileDescriptors := by
  classical
  constructor
  · intro h
    obtain ⟨hlt, hzero⟩ := Nat.find_spec h
    refine ⟨Nat.find h, freeSlot_eq_some.2 ⟨by omega, hzero, fun j hj hfree => ?_⟩, hlt⟩
    exact Nat.find_min h hj ⟨by omega, hfree⟩
  · rintro ⟨i, hslot, hlt⟩
    exact ⟨i, hlt, (freeSlot_eq_some.1 hslot).2.1⟩

/-- The handle of a slot. -/
theorem FsState.fileGetDescriptor_slot (hi : i + 1 < osMaxFileDescriptors) :
    s.fileGetDescriptor (i + 1 : ℕ) = s.fileDescriptors i := by
  unfold FsState.fileGetDescriptor
  rw [if_neg (by omega)]
  congr 1
  omega

/-- A handle that is known is that of a slot below the last one. -/
theorem FsState.slot_of_fileGetDescriptor (h : s.fileGetDescriptor fd ≠ 0) :
    ∃ i : ℕ, fd = (i + 1 : ℕ) ∧ i + 1 < osMaxFileDescriptors := by
  unfold FsState.fileGetDescriptor at h
  split at h
  · exact absurd rfl h
  · exact ⟨(fd - 1).toNat, by omega, by omega⟩

/-! ## What a handle is for -/

/-- **The handle `fd` is accepted for the descriptor `d`**: each of the
four functions goes on with `d`, whose index is the handle. -/
structure Accepted (image : Sectors) (s : FsState) (fd : ℤ) (d : Word) : Prop where
  index : ∃ privateData, s.objects d = some (.fileDescriptor ⟨fd, some .fat16, privateData⟩)
  fstat : ∀ stat, fstat fd stat s = (do
    let privateData ← descriptorPrivate d
    fat16Stat privateData stat) s
  fread : ∀ ptr size nmemb, size ≠ 0 → nmemb ≠ 0 → fread image ptr size nmemb fd s = (do
    let privateData ← descriptorPrivate d
    let r ← fat16Read image privateData size nmemb
    storeBytes ptr r.2
    pure r.1) s
  fseek : ∀ offset whence, fseek fd offset whence s = (do
    let privateData ← descriptorPrivate d
    fat16Seek privateData (BitVec.ofInt 32 offset) whence) s
  fclose : fclose fd s = (do
    let privateData ← descriptorPrivate d
    let res ← fat16Close privateData
    if res = allOk then do
      fileFreeDescriptor d
      pure res
    else pure res) s

/-- A handle that is known is accepted. -/
theorem accepted_of_fileGetDescriptor (hget : s.fileGetDescriptor fd = d) (h0 : d ≠ 0)
    (hindex : ∃ privateData, s.objects d = some (.fileDescriptor ⟨fd, some .fat16, privateData⟩)) :
    Accepted image s fd d := by
  have hrun : fileGetDescriptor fd s = .ok (d, s) := by
    rw [← hget]
    rfl
  have hpos : ¬ fd < 1 := by
    obtain ⟨i, hi, -⟩ := FsState.slot_of_fileGetDescriptor (hget ▸ h0)
    omega
  refine ⟨hindex, fun stat => ?_, fun ptr size nmemb hsize hnmemb => ?_, fun offset whence => ?_, ?_⟩
  · exact (Fallible.bind_ok hrun).trans (by rw [if_neg h0])
  · unfold OwnKernel.fread
    rw [if_neg (not_or.2 ⟨hsize, not_or.2 ⟨hnmemb, hpos⟩⟩)]
    exact (Fallible.bind_ok hrun).trans (by rw [if_neg h0])
  · exact (Fallible.bind_ok hrun).trans (by rw [if_neg h0])
  · exact (Fallible.bind_ok hrun).trans (by rw [if_neg h0])

/-- **An answer of `fopen`**: 0, or a handle that is not in use and is
accepted for a descriptor that was none before. -/
def FopenSound (image : Sectors) (files : List (ℤ × Word)) (s s' : FsState) (fd : ℤ) : Prop :=
  fd = 0 ∨ 0 < fd ∧ fd ∉ files.map Prod.fst ∧
    (∀ x, s.objects (s'.fileGetDescriptor fd) ≠ some (.fileDescriptor x)) ∧
    Accepted image s' fd (s'.fileGetDescriptor fd)

/-- **The handle of the last slot** is not accepted. -/
theorem FsOpens.not_sound_of_last (a : FsOpens s s' i d) (hi : ¬ i + 1 < osMaxFileDescriptors) :
    ¬ FopenSound image files s s' (i + 1) := by
  have hget : s'.fileGetDescriptor (i + 1) = 0 := by
    unfold FsState.fileGetDescriptor
    rw [if_pos (Or.inr (by omega))]
  rintro (hfd | ⟨-, -, -, haccepted⟩)
  · omega
  · rw [hget] at haccepted
    obtain ⟨p, hp⟩ := haccepted.index
    exact (a.owned.owns 0 (by rw [hp]; nofun)).ne_zero a.owned.ready rfl

/-- **The files that are open** have handles of their own, which are
accepted, and closing a file frees its slot alone. -/
structure FilesSound (image : Sectors) (s : FsState) (files : List (ℤ × Word)) : Prop where
  distinct : (files.map Prod.fst).Nodup
  accepted : ∀ fd d, (fd, d) ∈ files → 0 < fd ∧ Accepted image s fd d
  closes : ∀ fd d r s', (fd, d) ∈ files → fclose fd s = .ok (r, s') → r = allOk ∧
    s'.fileDescriptors = Function.update s.fileDescriptors (fd - 1).toNat 0
  refuses : ∀ fd r s', fd ∉ files.map Prod.fst → fclose fd s = .ok (r, s') →
    r = -invalidArgumentError ∧ s' = s

/-! ## Runs -/

/-- **A run of `fopen` and `fclose`** from `s₀`, each call returning: the
state reached and the files that are open. `Meets` restricts the calls of
`fopen`. -/
inductive FileTableRun (image : Sectors) (Meets : FsState → Cstring → Cstring → Prop)
    (s₀ : FsState) : FsState → List (ℤ × Word) → Prop
  | start : FileTableRun image Meets s₀ s₀ []
  | notOpened {s s' : FsState} {files : List (ℤ × Word)} {filename modeStr : Cstring} :
      FileTableRun image Meets s₀ s files → Meets s filename modeStr →
      fopen image filename modeStr s = .ok (0, s') → FileTableRun image Meets s₀ s' files
  | opened {s s' : FsState} {files : List (ℤ × Word)} {filename modeStr : Cstring} {fd : ℤ} :
      FileTableRun image Meets s₀ s files → Meets s filename modeStr →
      fopen image filename modeStr s = .ok (fd, s') → fd ≠ 0 →
      FileTableRun image Meets s₀ s' ((fd, s'.fileGetDescriptor fd) :: files)
  | closed {s s' : FsState} {files : List (ℤ × Word)} {fd r : ℤ} :
      FileTableRun image Meets s₀ s files → fclose fd s = .ok (r, s') →
      FileTableRun image Meets s₀ s' (files.filter fun f => f.1 ≠ fd)

/-- **The file can be opened**: the path is parsed and begins with a part,
its drive has a filesystem, and `fat16_open` finds the file. What is left
to do is to take a descriptor. -/
def FileOpens (image : Sectors) (s : FsState) (filename modeStr : Cstring) : Prop :=
  ∃ rootPath root t privateData t', pathparserParse filename s = .ok (rootPath, t) ∧ rootPath ≠ 0 ∧
    t.objects rootPath = some (.pathRoot root) ∧ root.first ≠ 0 ∧ root.driveNumber = 0 ∧
    t.disk.filesystem = some .fat16 ∧ fileGetModeByString modeStr ≠ .invalid ∧
    fat16Open image root.first (fileGetModeByString modeStr) t = .ok (privateData, t') ∧
    isErr privateData = false

/-- **A file that can be opened finds a slot** below the last one. -/
def SlotForFile (image : Sectors) (s : FsState) (filename modeStr : Cstring) : Prop :=
  FileOpens image s filename modeStr → s.HasSlot

/-- With the path parsed, what else it takes. -/
theorem fileOpens_iff {rootPath : Word} {root : PathRoot} {t : FsState}
    (hparse : pathparserParse filename s = .ok (rootPath, t)) (hroot : rootPath ≠ 0)
    (hobj : t.objects rootPath = some (.pathRoot root)) :
    FileOpens image s filename modeStr ↔ root.first ≠ 0 ∧ root.driveNumber = 0 ∧
      t.disk.filesystem = some .fat16 ∧ fileGetModeByString modeStr ≠ .invalid ∧
      ∃ privateData t', fat16Open image root.first (fileGetModeByString modeStr) t =
        .ok (privateData, t') ∧ isErr privateData = false := by
  constructor
  · rintro ⟨_, root', _, p, t', hparse', -, hobj', hfirst, hdrive, hfs, hmode, hopen⟩
    obtain ⟨rfl, rfl⟩ := Prod.mk.inj (Except.ok.inj (hparse.symm.trans hparse'))
    obtain rfl := FsObject.pathRoot.inj (Option.some.inj (hobj.symm.trans hobj'))
    exact ⟨hfirst, hdrive, hfs, hmode, p, t', hopen⟩
  · rintro ⟨hfirst, hdrive, hfs, hmode, p, t', hopen⟩
    exact ⟨rootPath, root, t, p, t', hparse, hroot, hobj, hfirst, hdrive, hfs, hmode, hopen⟩

/-- What `fopen` returns once the file is open: the index of a slot, or the
error of a full table. -/
theorem handle_ne_zero {privateData : Word} (o : FsOwned s) (h : (do
    let r ← fileNewDescriptor
    if r.1 < 0 then pure r.1
    else do
      let d ← readObject FsObject.asFileDescriptor r.2
      writeObject r.2 (.fileDescriptor { d with
        filesystem := some .fat16
        privateData := privateData })
      pure d.index : FsM ℤ) s = .ok (fd, s')) : fd ≠ 0 := by
  obtain ⟨x, t, hnew, h⟩ := Fallible.run_bind.1 h
  obtain ⟨hx, -, -⟩ | ⟨i, st, hx, -, -, -, -, rfl⟩ := fileNewDescriptor_cases o hnew
  · rw [hx, if_pos (by decide)] at h
    obtain ⟨rfl, -⟩ := Fallible.run_pure.1 h
    decide
  · rw [hx, if_neg (by decide)] at h
    obtain ⟨y, t₁, hread, h⟩ := Fallible.run_bind.1 h
    obtain ⟨t₂, -, h⟩ := Fallible.run_seq.1 h
    obtain ⟨-, hobj, -⟩ := read_object (t := .fileDescriptor) hread
    obtain ⟨rfl, -⟩ := Fallible.run_pure.1 h
    obtain rfl := FsObject.fileDescriptor.inj (Option.some.inj (hobj.symm.trans setObject_objects_self))
    exact Int.ne_of_gt (Int.natCast_succ_pos i)

/-- **A file that is not opened could not be.** -/
theorem fopen_eq_zero_iff (o : FsOwned s) (h : fopen image filename modeStr s = .ok (fd, s')) :
    fd = 0 ↔ ¬ FileOpens image s filename modeStr := by
  obtain ⟨rootPath, t₁, hparse, h₁⟩ := Fallible.run_bind.1 h
  split at h₁
  · rename_i h0
    obtain ⟨rfl, -⟩ := Fallible.run_pure.1 h₁
    refine iff_of_true rfl ?_
    rintro ⟨_, _, _, _, _, hparse', hne, -⟩
    exact hne ((Prod.mk.inj (Except.ok.inj (hparse.symm.trans hparse'))).1 ▸ h0)
  rename_i hroot0
  obtain ⟨root, t₂, hroot, h₂⟩ := Fallible.run_bind.1 h₁
  obtain ⟨-, hobj, rfl⟩ := read_object (t := .pathRoot) hroot
  rw [fileOpens_iff hparse hroot0 hobj]
  split at h₂
  · rename_i hfirst
    obtain ⟨rfl, -⟩ := Fallible.run_pure.1 h₂
    exact iff_of_true rfl fun hopens => hopens.1 hfirst
  split at h₂
  · rename_i hdrive
    obtain ⟨rfl, -⟩ := Fallible.run_pure.1 h₂
    exact iff_of_true rfl fun hopens => hdrive hopens.2.1
  rename_i hfirst hdrive
  rw [Fallible.run_get_bind] at h₂
  cases hfs : t₂.disk.filesystem with
  | none =>
    rw [hfs] at h₂
    obtain ⟨rfl, -⟩ := Fallible.run_pure.1 h₂
    exact iff_of_true rfl fun hopens => (nomatch hopens.2.2.1)
  | some name =>
    cases name
    rw [hfs] at h₂
    simp only at h₂
    split at h₂
    · rename_i hmode
      obtain ⟨rfl, -⟩ := Fallible.run_pure.1 h₂
      exact iff_of_true rfl fun hopens => hopens.2.2.2.1 hmode
    rename_i hmode
    obtain ⟨privateData, t₃, hopen, h₃⟩ := Fallible.run_bind.1 h₂
    split at h₃
    · rename_i herr
      obtain ⟨rfl, -⟩ := Fallible.run_pure.1 h₃
      refine iff_of_true rfl ?_
      rintro ⟨-, -, -, -, p, t', hopen', hok⟩
      obtain ⟨rfl, -⟩ := Prod.mk.inj (Except.ok.inj (hopen.symm.trans hopen'))
      rw [herr] at hok
      cases hok
    · rename_i herr
      refine iff_of_false ?_ (not_not.2 ⟨hfirst, not_not.1 hdrive, rfl, hmode, privateData, t₃, hopen,
        Bool.eq_false_iff.2 herr⟩)
      exact handle_ne_zero (fat16Open_step (pathparserParse_step o hparse).owned hopen).owned h₃

/-! ## The invariant -/

/-- **The invariant of a run**: each slot that is taken is below the last
one and has the descriptor with its index, and the files open are those
of the slots. -/
structure FilesInv (s : FsState) (files : List (ℤ × Word)) : Prop where
  owned : FsOwned s
  slot : ∀ i, s.fileDescriptors i ≠ 0 → i + 1 < osMaxFileDescriptors ∧ ∃ privateData,
    s.objects (s.fileDescriptors i) = some (.fileDescriptor ⟨i + 1, some .fat16, privateData⟩)
  mem_iff : ∀ fd d, (fd, d) ∈ files ↔ ∃ i : ℕ, fd = i + 1 ∧ s.fileDescriptors i = d ∧ d ≠ 0
  distinct : (files.map Prod.fst).Nodup

namespace FilesInv

/-- An empty table. -/
theorem start (o : FsOwned s) (h : ∀ i, s.fileDescriptors i = 0) : FilesInv s [] where
  owned := o
  slot i hi := absurd (h i) hi
  mem_iff fd d := by
    refine iff_of_false List.not_mem_nil ?_
    rintro ⟨i, -, rfl, h0⟩
    exact h0 (h i)
  distinct := List.nodup_nil

/-- Two slots have two descriptors. -/
theorem slot_inj (h : FilesInv s files) (hi : s.fileDescriptors i ≠ 0)
    (hij : s.fileDescriptors i = s.fileDescriptors j) : i = j := by
  obtain ⟨-, p, hp⟩ := h.slot i hi
  obtain ⟨-, q, hq⟩ := h.slot j (hij ▸ hi)
  rw [hij, hq] at hp
  have hindex := congrArg FileDescriptor.index (FsObject.fileDescriptor.inj (Option.some.inj hp))
  change (j : ℤ) + 1 = i + 1 at hindex
  omega

/-- A handle in use is that of a slot in use. -/
theorem slot_of_mem (h : FilesInv s files) (hfd : fd ∈ files.map Prod.fst) :
    ∃ i : ℕ, fd = i + 1 ∧ s.fileDescriptors i ≠ 0 := by
  obtain ⟨⟨fd', d⟩, hmem, rfl⟩ := List.mem_map.1 hfd
  obtain ⟨i, hi, rfl, h0⟩ := (h.mem_iff fd' d).1 hmem
  exact ⟨i, hi, h0⟩

/-- A file that is open is known by its handle. -/
theorem fileGetDescriptor_eq (h : FilesInv s files) (hmem : (fd, d) ∈ files) :
    s.fileGetDescriptor fd = d ∧ d ≠ 0 := by
  obtain ⟨i, rfl, rfl, h0⟩ := (h.mem_iff fd d).1 hmem
  exact ⟨FsState.fileGetDescriptor_slot (h.slot i h0).1, h0⟩

/-- Only the handles in use are known. -/
theorem fileGetDescriptor_of_notMem (h : FilesInv s files) (hfd : fd ∉ files.map Prod.fst) :
    s.fileGetDescriptor fd = 0 := by
  by_contra h0
  obtain ⟨i, rfl, hi⟩ := FsState.slot_of_fileGetDescriptor h0
  rw [FsState.fileGetDescriptor_slot hi] at h0
  exact hfd (List.mem_map_of_mem ((h.mem_iff _ _).2 ⟨i, rfl, rfl, h0⟩))

/-- The files that are open are accepted. -/
theorem accepted (h : FilesInv s files) (hmem : (fd, d) ∈ files) :
    0 < fd ∧ Accepted image s fd d := by
  obtain ⟨hget, h0⟩ := h.fileGetDescriptor_eq hmem
  obtain ⟨i, rfl, rfl, -⟩ := (h.mem_iff fd d).1 hmem
  exact ⟨by omega, accepted_of_fileGetDescriptor hget h0 (h.slot i h0).2⟩

/-- **`fclose` of a file that is open.** -/
theorem fclose_open (h : FilesInv s files) (hmem : (fd, d) ∈ files)
    (hrun : fclose fd s = .ok (r, s')) : r = allOk ∧ ∃ (i : ℕ) (x : FileDescriptor),
      fd = i + 1 ∧ s.fileDescriptors i = d ∧ d ≠ 0 ∧ x.index = i + 1 ∧ FsCloses s s' d x := by
  obtain ⟨hget, h0⟩ := h.fileGetDescriptor_eq hmem
  obtain ⟨i, hfd, hi, -⟩ := (h.mem_iff fd d).1 hmem
  obtain ⟨hnull, -, -⟩ | ⟨-, hr, x, hcloses⟩ := fclose_cases h.owned hrun
  · exact absurd (hget.symm.trans hnull) h0
  rw [hget] at hcloses
  obtain ⟨-, p, hp⟩ := h.slot i (hi ▸ h0)
  rw [hi] at hp
  obtain rfl := FsObject.fileDescriptor.inj (Option.some.inj (hcloses.object.symm.trans hp))
  exact ⟨hr, i, _, hfd, hi, h0, rfl, hcloses⟩

/-- **`fclose` of any other handle.** -/
theorem fclose_other (h : FilesInv s files) (hfd : fd ∉ files.map Prod.fst)
    (hrun : fclose fd s = .ok (r, s')) : r = -invalidArgumentError ∧ s' = s := by
  obtain ⟨-, hr, hs⟩ | ⟨hne, -, -⟩ := fclose_cases h.owned hrun
  · exact ⟨hr, hs⟩
  · exact absurd (h.fileGetDescriptor_of_notMem hfd) hne

/-- The invariant says that the files are as they should be. -/
theorem sound (h : FilesInv s files) : FilesSound image s files where
  distinct := h.distinct
  accepted _ _ hmem := h.accepted hmem
  closes fd d r s' hmem hrun := by
    obtain ⟨hr, i, x, rfl, -, -, hindex, hcloses⟩ := h.fclose_open hmem hrun
    exact ⟨hr, by rw [hcloses.table, hindex]⟩
  refuses _ _ _ hfd hrun := h.fclose_other hfd hrun

/-- **`fopen` takes no slot.** -/
theorem step (h : FilesInv s files) (a : FsStep s s') : FilesInv s' files where
  owned := a.owned
  slot i hi := by
    rw [a.table] at hi ⊢
    obtain ⟨hlt, p, hp⟩ := h.slot i hi
    exact ⟨hlt, p, a.descriptors _ _ hp⟩
  mem_iff fd d := by
    rw [a.table]
    exact h.mem_iff fd d
  distinct := h.distinct

/-- **`fopen` takes the slot `i`.** -/
theorem opens (h : FilesInv s files) (a : FsOpens s s' i d) (hi : i + 1 < osMaxFileDescriptors) :
    FilesInv s' (((i : ℤ) + 1, d) :: files) where
  owned := a.owned
  slot j hj := by
    rw [a.table] at hj ⊢
    by_cases hji : j = i
    · subst hji
      rw [Function.update_self]
      exact ⟨hi, a.object⟩
    · rw [Function.update_of_ne hji] at hj ⊢
      obtain ⟨hlt, p, hp⟩ := h.slot j hj
      exact ⟨hlt, p, (a.descriptors _ _ hp).2⟩
  mem_iff fd q := by
    rw [List.mem_cons, h.mem_iff, a.table]
    constructor
    · rintro (heq | ⟨j, hfd, hq, h0⟩)
      · obtain ⟨rfl, rfl⟩ := Prod.mk.inj heq
        exact ⟨i, rfl, Function.update_self .., a.ne_zero⟩
      · refine ⟨j, hfd, ?_, h0⟩
        rw [Function.update_of_ne, hq]
        rintro rfl
        exact h0 (hq.symm.trans (FsState.freeSlot_eq_some.1 a.slot).2.1)
    · rintro ⟨j, hfd, hq, h0⟩
      by_cases hji : j = i
      · subst hji
        rw [Function.update_self] at hq
        exact Or.inl (Prod.ext hfd hq.symm)
      · rw [Function.update_of_ne hji] at hq
        exact Or.inr ⟨j, hfd, hq, h0⟩
  distinct := by
    rw [List.map_cons, List.nodup_cons]
    refine ⟨fun hmem => ?_, h.distinct⟩
    obtain ⟨j, hj, h0⟩ := h.slot_of_mem hmem
    obtain rfl : i = j := by
      change (i : ℤ) + 1 = j + 1 at hj
      omega
    exact h0 (FsState.freeSlot_eq_some.1 a.slot).2.1

/-- **`fclose` frees the slot of its file** alone. -/
theorem closes {x : FileDescriptor} (h : FilesInv s files) (hi : s.fileDescriptors i = d)
    (hindex : x.index = i + 1) (a : FsCloses s s' d x) :
    FilesInv s' (files.filter fun f => f.1 ≠ i + 1) := by
  have htable : s'.fileDescriptors = Function.update s.fileDescriptors i 0 := by
    rw [a.table, hindex]
    congr 1
    omega
  refine ⟨a.owned, fun j hj => ?_, fun fd q => ?_, ?_⟩
  · rw [htable] at hj ⊢
    have hji : j ≠ i := by
      rintro rfl
      exact hj (Function.update_self ..)
    rw [Function.update_of_ne hji] at hj ⊢
    obtain ⟨hlt, p, hp⟩ := h.slot j hj
    refine ⟨hlt, p, a.descriptors _ _ (fun heq => hji ?_) hp⟩
    exact h.slot_inj hj (heq.trans hi.symm)
  · rw [List.mem_filter, h.mem_iff, htable, decide_eq_true_eq]
    constructor
    · rintro ⟨⟨j, rfl, hq, hq0⟩, hne⟩
      refine ⟨j, rfl, ?_, hq0⟩
      rw [Function.update_of_ne, hq]
      rintro rfl
      exact hne rfl
    · rintro ⟨j, rfl, hq, hq0⟩
      have hji : j ≠ i := by
        rintro rfl
        exact hq0 (hq.symm.trans (Function.update_self ..))
      rw [Function.update_of_ne hji] at hq
      exact ⟨⟨j, rfl, hq, hq0⟩, by change (j : ℤ) + 1 ≠ i + 1; omega⟩
  · exact h.distinct.sublist ((List.filter_sublist).map _)

/-- Closing a handle that is not in use leaves the files alone. -/
theorem filter_of_notMem (hfd : fd ∉ files.map Prod.fst) :
    files.filter (fun f => f.1 ≠ fd) = files := by
  refine List.filter_eq_self.2 fun f hf => ?_
  rw [decide_eq_true_eq]
  rintro rfl
  exact hfd (List.mem_map_of_mem hf)

/-- **Which answers of `fopen` are right.** -/
theorem fopenSound_iff (h : FilesInv s files) (hrun : fopen image filename modeStr s = .ok (fd, s')) :
    FopenSound image files s s' fd ↔ SlotForFile image s filename modeStr := by
  have hzero := fopen_eq_zero_iff h.owned hrun
  obtain ⟨rfl, -⟩ | ⟨rfl, hnone, -⟩ | ⟨i, d, rfl, a⟩ := fopen_cases h.owned hrun
  · exact iff_of_true (Or.inl rfl) fun hopens => absurd hopens (hzero.1 rfl)
  · refine iff_of_false ?_ fun hslot => ?_
    · rintro (hfd | ⟨hpos, -⟩)
      · exact absurd hfd (by decide)
      · exact absurd hpos (by decide)
    · obtain ⟨i, hi, -⟩ := FsState.hasSlot_iff.1
        (hslot (not_not.1 fun hopens => absurd (hzero.2 hopens) (by decide)))
      rw [hnone] at hi
      cases hi
  · have hopens : FileOpens image s filename modeStr := not_not.1 fun hopens =>
      absurd (hzero.2 hopens) (by omega)
    by_cases hi : i + 1 < osMaxFileDescriptors
    · refine iff_of_true (Or.inr ?_) fun _ => FsState.hasSlot_iff.2 ⟨i, a.slot, hi⟩
      have hinv := h.opens a hi
      have hnodup := hinv.distinct
      rw [List.map_cons, List.nodup_cons] at hnodup
      obtain ⟨hpos, haccepted⟩ := hinv.accepted List.mem_cons_self
      rw [(hinv.fileGetDescriptor_eq List.mem_cons_self).1]
      exact ⟨hpos, hnodup.1, fun x hx => (a.descriptors d x hx).1 rfl, haccepted⟩
    · refine iff_of_false (a.not_sound_of_last hi) fun hslot => ?_
      obtain ⟨j, hj, hlt⟩ := FsState.hasSlot_iff.1 (hslot hopens)
      obtain rfl := Option.some.inj (a.slot.symm.trans hj)
      exact hi hlt

end FilesInv

/-- **What a run keeps.** -/
theorem FileTableRun.inv (o : FsOwned s₀) (h0 : ∀ i, s₀.fileDescriptors i = 0)
    (run : FileTableRun image (SlotForFile image) s₀ s files) : FilesInv s files := by
  induction run with
  | start => exact .start o h0
  | notOpened _ _ hrun ih =>
    obtain ⟨-, a⟩ | ⟨hfd, -⟩ | ⟨i, d, hfd, -⟩ := fopen_cases ih.owned hrun
    · exact ih.step a
    · exact absurd hfd (by decide)
    · omega
  | opened _ hslot hrun hne ih =>
    have hsound := (ih.fopenSound_iff hrun).2 hslot
    obtain ⟨hfd, -⟩ | ⟨rfl, -⟩ | ⟨i, d, rfl, a⟩ := fopen_cases ih.owned hrun
    · exact absurd hfd hne
    · obtain hfd | ⟨hpos, -⟩ := hsound
      · exact absurd hfd hne
      · exact absurd hpos (by decide)
    · obtain ⟨j, hj, hlt⟩ := FsState.hasSlot_iff.1
        (hslot (not_not.1 fun hopens => hne ((fopen_eq_zero_iff ih.owned hrun).2 hopens)))
      obtain rfl := Option.some.inj (a.slot.symm.trans hj)
      have hinv := ih.opens a hlt
      rwa [(hinv.fileGetDescriptor_eq List.mem_cons_self).1]
  | @closed s s' files fd r _ hrun ih =>
    by_cases hfd : fd ∈ files.map Prod.fst
    · obtain ⟨⟨fd', d⟩, hmem, rfl⟩ := List.mem_map.1 hfd
      obtain ⟨-, i, x, rfl, hi, -, hindex, hcloses⟩ := ih.fclose_open hmem hrun
      exact ih.closes hi hindex hcloses
    · obtain ⟨-, rfl⟩ := ih.fclose_other hfd hrun
      rwa [FilesInv.filter_of_notMem hfd]

/-- **What a run of `fopen` and `fclose` gets right.** While every file
that can be opened finds a slot below the last one, the handles of the
open files are distinct and accepted, and closing one frees its slot
alone; and the next answer of `fopen` is right exactly when its file finds
such a slot, too. -/
theorem fileTableRun_sound (o : FsOwned s₀) (h0 : ∀ i, s₀.fileDescriptors i = 0)
    (run : FileTableRun image (SlotForFile image) s₀ s files) :
    FilesSound image s files ∧ ∀ filename modeStr fd s',
      fopen image filename modeStr s = .ok (fd, s') →
        (FopenSound image files s s' fd ↔ SlotForFile image s filename modeStr) :=
  ⟨(run.inv o h0).sound, fun _ _ _ _ hrun => (run.inv o h0).fopenSound_iff hrun⟩

/-! ### The last slot -/

/-- What is done to the store alone. -/
theorem spends_inStore {α : Type} {x : StoreM α} {k : ℕ}
    (h : Spends FsState.KernelRoom k (inStore x)) : Spends FsState.Untouched k (inStore x) := by
  intro n s a t ⟨hroom, hobjects, htable⟩ hrun
  obtain ⟨m, hm, hroom'⟩ := h n s a t hroom hrun
  obtain ⟨st, -, rfl⟩ := run_inStore.1 hrun
  exact ⟨m, hm, hroom', hobjects, htable⟩

theorem spends_readDisk {α : Type} {x : Except Fault α} :
    Spends FsState.Untouched 0 (readDisk x) := by
  intro n s a t h hrun
  rw [(run_readDisk.1 hrun).2]
  exact ⟨n, le_rfl, h⟩

theorem spends_diskStreamNew : Spends FsState.Untouched 1 diskStreamNew :=
  .bind (k := 0) (spends_inStore (spends_kernelZalloc (by decide) (by decide))) fun _ =>
    .ite .throw (.pure _)

theorem spends_fat16InitPrivate {p : Word} : Spends FsState.Untouched 3 (fat16InitPrivate p) :=
  .ite .throw (spends_diskStreamNew.bind fun _ => spends_diskStreamNew.bind fun _ =>
    .bind (k := 0) spends_diskStreamNew fun _ => .pure _)

theorem spends_setFsPrivate {x : Option FatPrivate} :
    Spends FsState.Untouched 0 (setFsPrivate x) := .modify fun _ _ h => h

/-- Taking a volume on spends a block for each structure, and one for a
root directory of up to a block. -/
theorem spends_fat16Resolve (hpos : 0 < (BitVec.ofInt 32 (volumeHeader image).rootDirSize).toNat)
    (hle : (BitVec.ofInt 32 (volumeHeader image).rootDirSize).toNat ≤ 4096) :
    Spends FsState.Untouched 6 (fat16Resolve image) := by
  have hroot : Spends FsState.Untouched 1
      (fat16GetRootDirectory image (volumeHeader image) clearedFatPrivate.rootDirectory) := by
    refine spends_readDisk.bind_zero fun total => ?_
    refine .bind (j := 1) (k := 0) (spends_inStore (spends_kernelZalloc hpos hle)) fun dir => ?_
    exact .ite (.pure _) (spends_readDisk.bind_zero fun r => .pure _)
  have hvolume : Spends FsState.Untouched 1 (fat16ResolveVolume image) := by
    obtain ⟨stream, hheader⟩ := diskStreamRead_header image
    unfold fat16ResolveVolume
    rw [readDisk_bind_ok hheader]
    refine spends_setFsPrivate.bind_zero fun _ => .ite (.pure _) ?_
    refine .bind (j := 1) (k := 0) hroot fun root => spends_setFsPrivate.bind_zero fun _ => ?_
    exact .ite (.pure _) (.pure _)
  refine .bind (j := 1) (k := 5) (spends_inStore (spends_kernelZalloc (by decide) (by decide)))
    fun fatPrivate => ?_
  refine .bind (j := 3) (k := 2) spends_fat16InitPrivate fun _ => ?_
  refine .bind_zero (.modify fun _ _ h => h) fun _ => ?_
  refine .bind (j := 1) (k := 1) spends_diskStreamNew fun stream => ?_
  refine .bind (j := 1) (k := 0) hvolume fun res => ?_
  refine (spends_inStore spends_kernelFree).bind_zero fun _ => .ite ?_ (.pure _)
  exact (spends_inStore spends_kernelFree).bind_zero fun _ =>
    spends_setFsPrivate.bind_zero fun _ => .pure _

section
variable {item : FatDirectoryItem} {clusterSize : Byte}

/-- **A volume with the file `A`** in its root directory, whose record is
`item`. -/
structure OneFile (image : Sectors) (clusterSize : Byte) (item : FatDirectoryItem) : Prop where
  header : volumeHeader image = ⟨clusterSize, 1, 1, 16, 1, 0x29⟩
  record : ∀ j < 32, image 2 j = item.toList.getD j 0
  name : item.toList.take 12 = [0x41, 0x20, 0x20, 0x20, 0x20, 0x20, 0x20, 0x20, 0x20, 0x20, 0x20, 0]
  ends : image 2 32 = 0

/-- The first record is the file's, and the directory ends there. -/
theorem OneFile.recordByte_eq (h : OneFile image clusterSize item) :
    recordByte image (2 * sectorSize) 0 = 0x41 ∧ recordByte image (2 * sectorSize) 1 = 0 := by
  have hhead : item.toList.getD 0 0 = (item.toList.take 12).getD 0 0 := by
    rw [List.getD_eq_getElem?_getD, List.getD_eq_getElem?_getD, List.getElem?_take_of_lt (by decide)]
  refine ⟨?_, (OwnKernel.recordByte_eq image (by decide)).trans h.ends⟩
  rw [OwnKernel.recordByte_eq image (by decide), h.record _ (by decide), hhead, h.name]
  rfl

/-- The root directory begins with the record. -/
theorem OneFile.exists_bytesAt (h : OneFile image clusterSize item) : ∃ rest,
    bytesAt image 1024 512 = item.toList ++ rest ∧ rest.length = 480 := by
  refine ⟨bytesAt image (int32 (1024 + (32 : ℕ))) 480, ?_, length_bytesAt⟩
  rw [show 512 = 32 + 480 from rfl, bytesAt_add]
  congr 1
  refine List.ext_getElem ?_ fun j h₁ h₂ => ?_
  · rw [length_bytesAt, Vector.length_toList]
  rw [length_bytesAt] at h₁
  have hpos : int32 (1024 + (j : ℤ)) = 1024 + j := int32_of_range (by omega) (by omega)
  have hbyte : byteAt image (int32 (1024 + (j : ℤ))) = image 2 j := by
    rw [hpos]
    unfold byteAt
    rw [show (1024 + (j : ℤ)) / 512 = 2 by omega, show ((1024 + (j : ℤ)) % 512).toNat = j by omega]
  have hget : (bytesAt image 1024 32).getD j 0 = item.toList.getD j 0 := by
    rw [bytesAt, getD_tabulate h₁, hbyte, h.record j h₁]
  rwa [List.getD_eq_getElem _ _ (by rwa [length_bytesAt]), List.getD_eq_getElem _ _ h₂] at hget

/-- **It is accepted**, and the file is found. -/
theorem OneFile.exists_resolved (h : OneFile image clusterSize item) : ∃ s₀ fat m,
    fat16Resolve image bootFs = .ok (0, s₀) ∧ m ≤ 6 ∧ s₀.Untouched m ∧
      s₀.disk = ⟨some .fat16, some fat⟩ ∧ Mounted image fat ∧
      fat16FindItemInDirectory image fat.rootDirectory [0x41] =
        fat16NewFatItemForDirectoryItem image item := by
  obtain ⟨hfirst, hsecond⟩ := h.recordByte_eq
  have hentries : (volumeHeader image).rootDirEntries.toNat = 16 := by
    rw [h.header]
    rfl
  have hsector : (volumeHeader image).rootDirSectorPos = 2 := by
    rw [h.header, FatHeader.rootDirSectorPos_eq]
    rfl
  have hsize : (volumeHeader image).rootDirSize = 512 := by
    rw [FatHeader.rootDirSize_eq, hentries]
    rfl
  have hends : recordByte image (2 * sectorSize) 1 = 0x00 := hsecond
  obtain ⟨total', htotal'⟩ := @fat16GetTotalItemsForDirectory_of_ends image 1 2 (by decide)
    (by decide) hends fun j hj => by
      obtain rfl : j = 0 := Nat.lt_one_iff.1 hj
      rw [hfirst]
      decide
  obtain ⟨s₀, hrun⟩ : ∃ s₀, fat16Resolve image bootFs = .ok (0, s₀) :=
    @fat16Resolve_of_room _ bootFs 0 total' (by rw [h.header]; rfl) (by rw [hentries]; decide)
      (by rw [hentries]; decide) (by rw [hsector]; exact htotal') ready_kernelHeapInit
      room_kernelHeapInit (by decide)
  obtain ⟨m, hm, huntouched⟩ := spends_fat16Resolve (by rw [hsize]; decide) (by rw [hsize]; decide)
    0 bootFs 0 s₀ untouched_bootFs hrun
  obtain ⟨fat, hfat, hmounted⟩ := mounted_of_fat16Resolve hrun
  obtain ⟨dir, total, -, -, htotal, hdisk⟩ := fat16Resolve_cases hrun
  rw [hsector] at htotal
  have hstart : int32 ((volumeHeader image).rootSector * sectorSize) = 1024 := by
    rw [FatHeader.rootDirSectorPos_eq] at hsector
    rw [hsector]
    decide
  obtain ⟨rest, hbytes, hlength⟩ := h.exists_bytesAt
  rw [hentries, hstart, show 16 * sizeofFatDirectoryItem = 512 from rfl, hbytes] at hdisk
  -- the one item of the root directory is counted
  have hone : total = 1 := by
    obtain ⟨counted, n, -, hlen, hcounts⟩ := fat16GetTotalItemsForDirectory_cases htotal
    have hend := hcounts.ends
    rw [Nat.zero_add] at hend
    obtain rfl : n = 1 := by
      rcases lt_trichotomy n 1 with hlt | heq | hgt
      · obtain rfl : n = 0 := by omega
        exact absurd (hfirst.symm.trans hend) (by decide)
      · exact heq
      · exact absurd hsecond (hcounts.before 1 (by omega) (by omega))
    rw [hlen, hcounts.counted, List.range'_one, List.filter_cons_of_pos, List.filter_nil]
    · rfl
    · rw [decide_eq_true_eq, hfirst]
      decide
  obtain ⟨d, hd⟩ : ∃ d, d = fat16RootDirectory (volumeHeader image) dir (item.toList ++ rest) 1 :=
    ⟨_, rfl⟩
  rw [hone, ← hd] at hdisk
  rw [hdisk] at hfat
  obtain rfl := Option.some.inj hfat
  have hd_bytes : d.bytes = item.toList ++ rest := by rw [hd]; rfl
  have hmet : fat16FindItemMet d [0x41] 1 0 = .ok [0] := by
    have hnameOf : fat16GetFullRelativeFilename (d.bytes.drop (sizeofFatDirectoryItem * 0)) osMaxPath =
        .ok [0x41] := by
      rw [hd_bytes, ← List.take_append_drop 12 item.toList, h.name]
      rfl
    unfold fat16FindItemMet
    rw [hnameOf]
    rfl
  have hrecord : d.record 0 = .ok item := by
    have hlen : ¬ (item.toList ++ rest).length < sizeofFatDirectoryItem := by
      rw [List.length_append, hlength]
      exact Nat.not_lt.2 (Nat.le_add_left 32 _)
    unfold FatDirectory.record
    simp only [hd_bytes, Nat.mul_zero, List.drop_zero]
    refine (if_neg hlen).trans (congrArg Except.ok (Vector.ext fun j hj => ?_))
    rw [Vector.getElem_ofFn, List.getD_eq_getElem?_getD, List.getElem?_append_left (by simpa using hj)]
    simp [hj]
  have htotal_one : d.total.toNat = 1 := by rw [hd]; rfl
  refine ⟨s₀, _, m, hrun, by omega, huntouched, hdisk, hmounted, ?_⟩
  unfold fat16FindItemInDirectory
  rw [htotal_one, fat16FindItemLoop_eq_makeItems hmet, makeItems, List.foldlM_cons,
    readDisk_bind_ok hrecord]
  exact bind_pure _

end

/-- A root directory with the file `A`. -/
def oneFileRoot (i : ℕ) : Byte := if i = 0 then 0x41 else if i < 11 then 0x20 else 0

/-- A volume with the file `A` in its root directory. -/
def oneFileVolume : Sectors := smallVolume 1 16 oneFileRoot

/-- The record of the file, which is empty. -/
def oneFileItem : FatDirectoryItem :=
  Vector.ofFn fun j => if j.val = 0 then 0x41 else if j.val < 11 then 0x20 else 0

/-- Whatever the size of its clusters is. -/
theorem oneFile_smallVolume (clusterSize : Byte) :
    OneFile (smallVolume clusterSize 16 oneFileRoot) clusterSize oneFileItem where
  header := volumeHeader_smallVolume
  record := show ∀ j < 32, oneFileRoot j = oneFileItem.toList.getD j 0 by decide
  name := by decide
  ends := rfl

/-- It is accepted, and the file is found. -/
theorem exists_oneFileVolume : ∃ s₀ fat item m, fat16Resolve oneFileVolume bootFs = .ok (0, s₀) ∧
    m ≤ 6 ∧ s₀.Untouched m ∧ s₀.disk = ⟨some .fat16, some fat⟩ ∧
    fat16FindItemInDirectory oneFileVolume fat.rootDirectory [0x41] =
      fat16NewFatItemForDirectoryItem oneFileVolume item ∧
    item.attributes &&& fatFileSubdirectory = 0 := by
  obtain ⟨s₀, fat, m, hrun, hm, huntouched, hdisk, -, hfind⟩ :=
    (oneFile_smallVolume 1).exists_resolved
  exact ⟨s₀, fat, oneFileItem, m, hrun, hm, huntouched, hdisk, hfind, by decide⟩

section
variable {fat : FatPrivate} {item : FatDirectoryItem} {k m n : ℕ}

/-- The file is opened once more. -/
theorem exists_fopen_next (o : FsOwned s) (hroom : s.KernelRoom n) (hn : n + 17 ≤ 25600)
    (hdisk : s.disk = ⟨some .fat16, some fat⟩)
    (hfind : fat16FindItemInDirectory image fat.rootDirectory [0x41] =
      fat16NewFatItemForDirectoryItem image item)
    (hfile : item.attributes &&& fatFileSubdirectory = 0) (hslot : s.freeSlot = some k) :
    ∃ s' d m, fopen image [0x30, colon, slash, 0x41] [0x72] s = .ok ((k : ℤ) + 1, s') ∧
      FsOpens s s' k d ∧ m ≤ n + 17 ∧ s'.KernelRoom m ∧
      (k + 1 < osMaxFileDescriptors → OpenFile s' (k + 1) fat item 0) := by
  obtain ⟨s', m, hopen, hm, hroom', hopened⟩ := exists_fopen (c := [0x41]) o hroom hn
    ⟨by decide, by decide⟩ (by decide) hdisk (show fileGetModeByString [0x72] = .read from rfl) hfind hfile
    hslot
  obtain ⟨hfd, -⟩ | ⟨hfd, -⟩ | ⟨i, d, hfd, a⟩ := fopen_cases o hopen
  · omega
  · unfold noMemoryError at hfd
    omega
  · obtain rfl : k = i := by omega
    exact ⟨s', d, m, hopen, a, hm, hroom', hopened⟩

/-- **The file opened `k` times** takes the first `k` slots. -/
theorem exists_run_of_opens (hm : m ≤ 6) (h₀ : s₀.Untouched m)
    (hdisk : s₀.disk = ⟨some .fat16, some fat⟩)
    (hfind : fat16FindItemInDirectory image fat.rootDirectory [0x41] =
      fat16NewFatItemForDirectoryItem image item)
    (hfile : item.attributes &&& fatFileSubdirectory = 0) :
    ∀ k < osMaxFileDescriptors, ∃ s files n,
      FileTableRun image (SlotForFile image) s₀ s files ∧ files.length = k ∧ FsOwned s ∧
        s.KernelRoom n ∧ n ≤ 6 + 17 * k ∧ s.disk = s₀.disk ∧ s.freeSlot = some k ∧
        ∀ j, k ≤ j → s.fileDescriptors j = 0
  | 0, _ => by
    refine ⟨s₀, [], m, .start, rfl, h₀.fsOwned, h₀.1, by omega, rfl, ?_, fun j _ => h₀.2.2 j⟩
    exact FsState.freeSlot_eq_some.2 ⟨by decide, h₀.2.2 0, fun j hj => absurd hj (Nat.not_lt_zero j)⟩
  | k + 1, hk => by
    obtain ⟨s, files, n, run, hlen, o, hroom, hn, hs, hslot, hfree⟩ :=
      exists_run_of_opens hm h₀ hdisk hfind hfile k (by omega)
    have hmax : k + 1 < 512 := hk
    obtain ⟨s', d, n', hopen, a, hn', hroom', -⟩ :=
      exists_fopen_next o hroom (by omega) (hs.trans hdisk) hfind hfile hslot
    have hfree' : ∀ j, k + 1 ≤ j → s'.fileDescriptors j = 0 := by
      intro j hj
      rw [a.table, Function.update_of_ne (by omega), hfree j (by omega)]
    refine ⟨s', _, n', .opened run (fun _ => FsState.hasSlot_iff.2 ⟨k, hslot, hk⟩) hopen (by omega),
      by rw [List.length_cons, hlen], a.owned, hroom', by omega, a.keeps.disk.trans hs, ?_, hfree'⟩
    refine FsState.freeSlot_eq_some.2 ⟨hk, hfree' _ le_rfl, fun j hj => ?_⟩
    rw [a.table]
    by_cases hjk : j = k
    · rw [hjk, Function.update_self]
      exact a.ne_zero
    · rw [Function.update_of_ne hjk]
      exact (FsState.freeSlot_eq_some.1 hslot).2.2 j (by omega)

end

/-- A run whose calls meet more. -/
theorem FileTableRun.mono {Meets Meets' : FsState → Cstring → Cstring → Prop}
    (h : ∀ s filename modeStr, Meets s filename modeStr → Meets' s filename modeStr)
    (run : FileTableRun image Meets s₀ s files) : FileTableRun image Meets' s₀ s files := by
  induction run with
  | start => exact .start
  | notOpened _ hmeets hrun ih => exact .notOpened ih (h _ _ _ hmeets) hrun
  | opened _ hmeets hrun hne ih => exact .opened ih (h _ _ _ hmeets) hrun hne
  | closed _ hrun ih => exact .closed ih hrun

/-- Two files open. -/
theorem fileTableRun_sound_two_files : ∃ s files, files.length = 2 ∧
    FilesSound oneFileVolume s files ∧ ∀ filename modeStr fd s',
      fopen oneFileVolume filename modeStr s = .ok (fd, s') →
        (FopenSound oneFileVolume files s s' fd ↔ SlotForFile oneFileVolume s filename modeStr) := by
  obtain ⟨s₀, fat, item, m, -, hm, h₀, hdisk, hfind, hfile⟩ := exists_oneFileVolume
  obtain ⟨s, files, n, run, hlen, -⟩ := exists_run_of_opens hm h₀ hdisk hfind hfile 2 (by decide)
  exact ⟨s, files, hlen, fileTableRun_sound h₀.fsOwned h₀.2.2 run⟩

/-- **The file opened 512 times.** The last handle is 512, which no
function accepts. -/
theorem not_fopenSound : ¬ ∀ (image : Sectors) (s₀ s : FsState) (files : List (ℤ × Word)),
    FsOwned s₀ → (∀ i, s₀.fileDescriptors i = 0) →
      FileTableRun image (fun _ _ _ => True) s₀ s files → ∀ filename modeStr fd s',
        fopen image filename modeStr s = .ok (fd, s') → FopenSound image files s s' fd := by
  intro h
  obtain ⟨s₀, fat, item, m, -, hm, h₀, hdisk, hfind, hfile⟩ := exists_oneFileVolume
  obtain ⟨s, files, n, run, -, o, hroom, hn, hs, hslot, -⟩ :=
    exists_run_of_opens hm h₀ hdisk hfind hfile 511 (by decide)
  obtain ⟨s', d, -, hopen, a, -⟩ :=
    exists_fopen_next o hroom (by omega) (hs.trans hdisk) hfind hfile hslot
  exact a.not_sound_of_last (by decide) (h oneFileVolume s₀ s files h₀.fsOwned h₀.2.2
    (run.mono fun _ _ _ _ => trivial) _ _ _ _ hopen)

end OwnKernel
