import OwnKernel.File.Table

/-!
# Divisions by the size of a cluster

The size of a cluster is computed from the header wherever it is divided
by, and `fat16_resolve` looks at nothing of the header but its signature.
`fileAccessSafe_iff` says of which of the volumes it accepts files can be
opened and read without a division by zero.
-/

namespace OwnKernel

open Fallible (Keeps)

variable {image : Sectors} {fat : FatPrivate} {item : FatDirectoryItem} {s s' t : FsState}
variable {α β : Type}

/-! ## Errors of reads -/

/-- A sequence does not stop with an error that neither part stops with. -/
theorem bind_ne_error {x : Except Fault α} {f : α → Except Fault β} {e : Fault}
    (hx : x ≠ .error e) (hf : ∀ a, f a ≠ .error e) : (x >>= f) ≠ .error e := by
  cases x with
  | error e' => exact fun h => hx (congrArg _ (Except.error.inj h))
  | ok a => exact hf a

theorem ok_ne_error {a : α} {e : Fault} : (Except.ok a : Except Fault α) ≠ .error e :=
  fun h => (nomatch h)

theorem ite_ne_error {P : Prop} [Decidable P] {x y : Except Fault α} {e : Fault}
    (hx : P → x ≠ .error e) (hy : ¬ P → y ≠ .error e) : (if P then x else y) ≠ .error e := by
  split
  · exact hx ‹_›
  · exact hy ‹_›

theorem readBuffer_ne_divideError (buffer : ℕ → Byte) (offset count : ℤ) :
    readBuffer buffer offset count ≠ .error .divideError := by
  unfold readBuffer
  refine ite_ne_error (fun _ => ok_ne_error) fun _ => ite_ne_error (fun _ => ?_) fun _ => ok_ne_error
  exact fun h => (nomatch Except.error.inj h)

/-- A stream is read without a division by what is on the disk. -/
theorem diskStreamRead_ne_divideError (image : Sectors) (stream : DiskStream) (total : ℤ) :
    diskStreamRead image stream total ≠ .error .divideError := by
  induction stream, total using diskStreamRead.induct with
  | case1 stream total offset hover totalToRead ih =>
    rw [diskStreamRead]
    simp only
    rw [if_pos hover]
    exact bind_ne_error (readBuffer_ne_divideError _ _ _) fun _ =>
      bind_ne_error ih fun _ => ok_ne_error
  | case2 stream total offset hover =>
    rw [diskStreamRead]
    simp only
    rw [if_neg hover]
    exact bind_ne_error (readBuffer_ne_divideError _ _ _) fun _ => ok_ne_error

theorem fat16GetFatEntry_ne_divideError (cluster : ℤ) :
    fat16GetFatEntry image fat cluster ≠ .error .divideError :=
  bind_ne_error (diskStreamRead_ne_divideError _ _ _) fun _ => ok_ne_error

theorem fat16FollowClusters_ne_divideError (n : ℕ) (cluster : ℤ) :
    fat16FollowClusters image fat n cluster ≠ .error .divideError := by
  induction n generalizing cluster with
  | zero => exact ok_ne_error
  | succ n ih =>
    unfold fat16FollowClusters
    refine bind_ne_error (fat16GetFatEntry_ne_divideError cluster) fun entry => ?_
    exact ite_ne_error (fun _ => ok_ne_error) fun _ => ih entry

theorem fat16GetClusterForOffset_ne_divideError (hsize : sizeOfClusterBytes fat.header ≠ 0)
    (cluster offset : ℤ) :
    fat16GetClusterForOffset image fat cluster offset ≠ .error .divideError := by
  unfold fat16GetClusterForOffset
  rw [if_neg hsize]
  exact fat16FollowClusters_ne_divideError _ _

/-- **A file is read without a division by zero** where clusters are not
empty. -/
theorem fat16ReadInternal_ne_divideError (hsize : sizeOfClusterBytes fat.header ≠ 0)
    (cluster : ℤ) (n : ℕ) : ∀ offset total : ℤ, total.toNat = n →
      fat16ReadInternal image fat cluster offset total ≠ .error .divideError := by
  induction n using Nat.strong_induction_on with
  | _ n ih =>
    intro offset total htotal
    rw [fat16ReadInternal_seeks, if_neg hsize]
    refine bind_ne_error (fat16GetClusterForOffset_ne_divideError hsize _ _) fun c => ?_
    refine ite_ne_error (fun _ => ok_ne_error) fun _ => ?_
    refine bind_ne_error (diskStreamRead_ne_divideError _ _ _) fun r => ?_
    refine ite_ne_error (fun hrest => ?_) fun _ => ok_ne_error
    refine bind_ne_error (ih _ ?_ _ _ rfl) fun _ => ok_ne_error
    split at hrest <;> omega

theorem fat16ReadLoop_ne_divideError (hsize : sizeOfClusterBytes fat.header ≠ 0) (cluster : ℤ)
    (size : Word) (nmemb : ℕ) (offset : ℤ) :
    fat16ReadLoop image fat cluster size nmemb offset ≠ .error .divideError := by
  induction nmemb generalizing offset with
  | zero => exact ok_ne_error
  | succ nmemb ih =>
    unfold fat16ReadLoop
    refine bind_ne_error (fat16ReadInternal_ne_divideError hsize _ _ _ _ rfl) fun r => ?_
    exact ite_ne_error (fun _ => ok_ne_error) fun _ => bind_ne_error (ih _) fun _ => ok_ne_error

theorem fat16ReadRecord_ne_divideError (hsize : sizeOfClusterBytes fat.header ≠ 0)
    (item : FatDirectoryItem) (pos size nmemb : Word) :
    fat16ReadRecord image fat item pos size nmemb ≠ .error .divideError := by
  refine bind_ne_error (fat16ReadLoop_ne_divideError hsize _ _ _ _) fun r => ?_
  exact ite_ne_error (fun _ => ok_ne_error) fun _ => ok_ne_error

theorem fat16TotalItemsLoop_ne_divideError (fuel : ℕ) (stream : DiskStream) (i : ℤ) :
    fat16TotalItemsLoop image fuel stream i ≠ .error .divideError := by
  induction fuel generalizing stream i with
  | zero => exact fun h => (nomatch Except.error.inj h)
  | succ fuel ih =>
    unfold fat16TotalItemsLoop
    refine bind_ne_error (diskStreamRead_ne_divideError _ _ _) fun r => ?_
    exact ite_ne_error (fun _ => ok_ne_error) fun _ =>
      ite_ne_error (fun _ => ih _ _) fun _ => ih _ _

theorem fat16ToProperString_ne_divideError (room : ℕ) (bytes : List Byte) :
    fat16ToProperString room bytes ≠ .error .divideError := by
  unfold fat16ToProperString
  simp only
  split
  · exact fun h => (nomatch Except.error.inj h)
  split
  · exact fun h => (nomatch Except.error.inj h)
  · exact ok_ne_error

theorem fat16GetFullRelativeFilename_ne_divideError (bytes : List Byte) (maxLen : ℕ) :
    fat16GetFullRelativeFilename bytes maxLen ≠ .error .divideError := by
  refine bind_ne_error (fat16ToProperString_ne_divideError _ _) fun name => ?_
  refine ite_ne_error (fun _ => ite_ne_error (fun _ => ?_) fun _ => ?_) fun _ => ok_ne_error
  · exact fun h => (nomatch Except.error.inj h)
  · exact bind_ne_error (fat16ToProperString_ne_divideError _ _) fun _ => ok_ne_error

theorem record_ne_divideError (directory : FatDirectory) (i : ℕ) :
    directory.record i ≠ .error .divideError := by
  unfold FatDirectory.record
  simp only
  split
  · exact fun h => (nomatch Except.error.inj h)
  · exact ok_ne_error

/-! ## Errors of the file layer -/

/-- **The program does not divide by zero** where the driver's data is
`fat`, and leaves that data as it is. -/
abbrev Undivided (fat : FatPrivate) (x : FsM α) : Prop :=
  Keeps (fun s => s.disk.fsPrivate = some fat) (· ≠ .divideError) x

theorem undivided_inStore {x : StoreM α} (h : Fallible.Never Fault.divideError x) :
    Undivided fat (inStore x) := by
  intro s hs
  unfold inStore
  cases hx : x s.store with
  | error e =>
    refine ⟨fun e' he => ?_, fun a t hrun => (nomatch hrun)⟩
    rintro rfl
    exact h s.store (hx.trans (congrArg _ (Except.error.inj he)))
  | ok r =>
    refine ⟨fun e he => (nomatch he), fun a t hrun => ?_⟩
    cases hrun
    exact hs

theorem undivided_kernelZalloc {size : Word} : Undivided fat (inStore (kernelZalloc size)) :=
  undivided_inStore (.bind (.bind .get fun _ => .ite (.throw (by decide))
    (.bind (.set _) fun _ => .pure _))
      fun _ => .ite (.pure _) (.ite (.throw (by decide)) (.bind (.modify _) fun _ => .pure _)))

theorem undivided_kernelFree {p : Word} : Undivided fat (inStore (kernelFree p)) :=
  undivided_inStore (.modify _)

theorem undivided_readDisk {x : Except Fault α} (h : x ≠ .error .divideError) :
    Undivided fat (readDisk x) := by
  intro s hs
  unfold readDisk
  cases x with
  | error e =>
    refine ⟨fun e' he => ?_, fun a t hrun => (nomatch hrun)⟩
    rintro rfl
    exact h (congrArg _ (Except.error.inj he))
  | ok a =>
    refine ⟨fun e he => (nomatch he), fun a t hrun => ?_⟩
    cases hrun
    exact hs

theorem undivided_readObject {view : FsObject → Option β} {p : Word} :
    Undivided fat (readObject view p) := by
  refine .get_bind fun s _ => ?_
  cases (s.objects p).bind view with
  | none => exact .throw (by decide)
  | some x => exact .ite (fun _ => .throw (by decide)) fun _ => .pure x

theorem undivided_writeObject {p : Word} {o : FsObject} : Undivided fat (writeObject p o) :=
  .ite (fun _ => .throw (by decide)) fun _ => .modify fun _ hs => hs

theorem undivided_freeObject {p : Word} : Undivided fat (freeObject p) :=
  .bind undivided_kernelFree fun _ _ _ _ _ => .modify fun _ hs => hs

/-- The driver's data is what is divided by. -/
theorem undivided_diskFsPrivate_bind {f : FatPrivate → FsM β} (h : Undivided fat (f fat)) :
    Undivided fat (diskFsPrivate >>= f) := by
  intro s hs
  have hrun : diskFsPrivate s = .ok (fat, s) := run_diskFsPrivate.2 ⟨hs, rfl⟩
  rw [Fallible.bind_ok hrun]
  exact h s hs

theorem undivided_fat16FreeDirectory {directory : Word} :
    Undivided fat (fat16FreeDirectory directory) :=
  .ite (fun _ => .pure _) fun _ => .bind undivided_readObject fun _ _ _ _ _ =>
    .bind (.ite (fun _ => .pure _) fun _ => undivided_kernelFree) fun _ _ _ _ _ =>
      undivided_freeObject

theorem undivided_fat16FatItemFree {item : Word} : Undivided fat (fat16FatItemFree item) :=
  .bind undivided_readObject fun _ _ _ _ _ =>
    .bind (.ite (fun _ => undivided_fat16FreeDirectory) fun _ =>
      .ite (fun _ => undivided_freeObject) fun _ => .pure _) fun _ _ _ _ _ => undivided_freeObject

theorem undivided_fat16CloneDirectoryItem {item : FatDirectoryItem} :
    Undivided fat (fat16CloneDirectoryItem item) :=
  .bind undivided_kernelZalloc fun _ _ _ _ _ => .ite (fun _ => .pure _) fun _ =>
    .bind undivided_writeObject fun _ _ _ _ _ => .pure _

/-- **A subdirectory is loaded without a division by zero.** -/
theorem undivided_fat16LoadFatDirectory (hsize : sizeOfClusterBytes fat.header ≠ 0)
    (image : Sectors) (item : FatDirectoryItem) :
    Undivided fat (fat16LoadFatDirectory image item) := by
  refine .ite (fun _ => .pure _) fun _ => .bind undivided_kernelZalloc fun _ directory _ _ _ => ?_
  refine .ite (fun _ => .pure _) fun _ => undivided_diskFsPrivate_bind ?_
  refine .bind (undivided_readDisk (fat16TotalItemsLoop_ne_divideError _ _ _))
    fun _ totalItems _ _ _ => ?_
  refine .bind undivided_kernelZalloc fun _ items _ _ _ => ?_
  refine .bind undivided_writeObject fun _ _ _ _ _ => .ite (fun _ => ?_) fun _ => ?_
  · exact .bind undivided_fat16FreeDirectory fun _ _ _ _ _ => .pure _
  refine .bind (undivided_readDisk (fat16ReadInternal_ne_divideError hsize _ _ _ _ rfl))
    fun _ r _ _ _ => ?_
  refine .bind undivided_writeObject fun _ _ _ _ _ => .ite (fun _ => ?_) fun _ => .pure _
  exact .bind undivided_fat16FreeDirectory fun _ _ _ _ _ => .pure _

theorem undivided_fat16NewFatItem (hsize : sizeOfClusterBytes fat.header ≠ 0)
    (image : Sectors) (item : FatDirectoryItem) :
    Undivided fat (fat16NewFatItemForDirectoryItem image item) := by
  refine .bind undivided_kernelZalloc fun _ fItem _ _ _ => .ite (fun _ => .pure _) fun _ => ?_
  refine .bind (.ite (fun _ => .pure _) fun _ => ?_) fun _ _ _ _ _ => ?_
  · exact .bind (undivided_fat16LoadFatDirectory hsize image item) fun _ _ _ _ _ =>
      undivided_writeObject
  · exact .bind undivided_fat16CloneDirectoryItem fun _ _ _ _ _ =>
      .bind undivided_writeObject fun _ _ _ _ _ => .pure _

theorem undivided_fat16FindItemLoop (hsize : sizeOfClusterBytes fat.header ≠ 0)
    (image : Sectors) (directory : FatDirectory) (name : Cstring) (n i : ℕ) (fItem : Word) :
    Undivided fat (fat16FindItemLoop image directory name n i fItem) := by
  induction n generalizing i fItem with
  | zero => exact .pure _
  | succ n ih =>
    unfold fat16FindItemLoop
    refine .bind (undivided_readDisk (fat16GetFullRelativeFilename_ne_divideError _ _))
      fun _ _ _ _ _ => .ite (fun _ => ?_) fun _ => ih _ _
    refine .bind (undivided_readDisk (record_ne_divideError _ _)) fun _ item _ _ _ => ?_
    exact .bind (undivided_fat16NewFatItem hsize image item) fun _ _ _ _ _ => ih _ _

theorem undivided_fat16GetDirectoryEntryLoop (hsize : sizeOfClusterBytes fat.header ≠ 0)
    (image : Sectors) (fuel : ℕ) (currentItem nextPart : Word) :
    Undivided fat (fat16GetDirectoryEntryLoop image fuel currentItem nextPart) := by
  induction fuel generalizing currentItem nextPart with
  | zero => exact .throw (by decide)
  | succ fuel ih =>
    unfold fat16GetDirectoryEntryLoop
    refine .ite (fun _ => .pure _) fun _ => .bind undivided_readObject fun _ current _ _ _ => ?_
    refine .ite (fun _ => .pure _) fun _ => .bind undivided_readObject fun _ directory _ _ _ => ?_
    refine .bind undivided_readObject fun _ part _ _ _ => ?_
    refine .bind (undivided_fat16FindItemLoop hsize _ _ _ _ _ _) fun _ tmpItem _ _ _ => ?_
    exact .bind undivided_fat16FatItemFree fun _ _ _ _ _ => ih _ _

/-- **`fat16_open` does not divide by zero.** -/
theorem undivided_fat16Open (hsize : sizeOfClusterBytes fat.header ≠ 0) (image : Sectors)
    (path : Word) (mode : FileMode) : Undivided fat (fat16Open image path mode) := by
  refine .ite (fun _ => .pure _) fun _ => .bind undivided_kernelZalloc fun _ descriptor _ _ _ => ?_
  refine .ite (fun _ => .pure _) fun _ => .bind (undivided_diskFsPrivate_bind ?_)
    fun _ item _ _ _ => ?_
  · refine .bind undivided_readObject fun _ part _ _ _ => ?_
    refine .bind (undivided_fat16FindItemLoop hsize _ _ _ _ _ _) fun _ rootItem _ _ _ => ?_
    exact .ite (fun _ => .pure _) fun _ => undivided_fat16GetDirectoryEntryLoop hsize _ _ _ _
  · exact .bind undivided_writeObject fun _ _ _ _ _ => .ite (fun _ => .pure _) fun _ => .pure _

/-- **`fat16_read` does not divide by zero.** -/
theorem undivided_fat16Read (hsize : sizeOfClusterBytes fat.header ≠ 0) (image : Sectors)
    (descriptor size nmemb : Word) : Undivided fat (fat16Read image descriptor size nmemb) := by
  refine undivided_diskFsPrivate_bind (.bind undivided_readObject fun _ d _ _ _ => ?_)
  refine .bind undivided_readObject fun _ fatItem _ _ _ => ?_
  refine .bind undivided_readObject fun _ item _ _ _ => ?_
  exact undivided_readDisk (fat16ReadRecord_ne_divideError hsize _ _ _ _)

/-! ## Volumes whose clusters are empty -/

/-- A call of `fat16_read_internal_from_stream` is its last, or has read
some of what it was to read before the next. -/
theorem fat16ReadInternalTotals_cases (image : Sectors) (fat : FatPrivate)
    (cluster offset total : ℤ) :
    fat16ReadInternalTotals image fat cluster offset total = [total] ∨
      ∃ n, 0 < n ∧ n < total ∧ fat16ReadInternalTotals image fat cluster offset total =
        total :: fat16ReadInternalTotals image fat cluster (int32 (offset + n)) (total - n) := by
  rw [fat16ReadInternalTotals]
  simp only
  have hread : sizeOfClusterBytes fat.header ≠ 0 →
      total - (if total > sizeOfClusterBytes fat.header then
        (sizeOfClusterBytes fat.header : ℤ) else total) > 0 →
      0 < (if total > sizeOfClusterBytes fat.header then
        (sizeOfClusterBytes fat.header : ℤ) else total) := by
    intro hsize hrest
    split at hrest <;> omega
  generalize (if total > sizeOfClusterBytes fat.header then
    (sizeOfClusterBytes fat.header : ℤ) else total) = n at hread ⊢
  split
  · exact Or.inl rfl
  rename_i hsize
  split
  · exact Or.inl rfl
  split
  · exact Or.inl rfl
  split
  · exact Or.inl rfl
  split
  · rename_i hrest
    exact Or.inr ⟨n, hread hsize hrest, by omega, rfl⟩
  · exact Or.inl rfl

/-- **The recursion makes progress**: less is left to read in every
call. -/
theorem isChain_fat16ReadInternalTotals (image : Sectors) (fat : FatPrivate) (cluster : ℤ) (n : ℕ) :
    ∀ offset total : ℤ, total.toNat = n →
      (fat16ReadInternalTotals image fat cluster offset total).IsChain (· > ·) := by
  induction n using Nat.strong_induction_on with
  | _ n ih =>
    intro offset total htotal
    rcases fat16ReadInternalTotals_cases image fat cluster offset total with
      hlast | ⟨m, hpos, hlt, hnext⟩
    · rw [hlast]
      exact List.isChain_singleton _
    · have hchain := ih _ (by omega) (int32 (offset + m)) (total - m) rfl
      rw [hnext]
      have hhead : ∃ rest, fat16ReadInternalTotals image fat cluster (int32 (offset + m))
          (total - m) = (total - m) :: rest := by
        rcases fat16ReadInternalTotals_cases image fat cluster (int32 (offset + m)) (total - m)
          with h | ⟨_, _, _, h⟩
        · exact ⟨_, h⟩
        · exact ⟨_, h⟩
      obtain ⟨rest, hrest⟩ := hhead
      rw [hrest] at hchain ⊢
      exact List.isChain_cons_cons.2 ⟨by omega, hchain⟩

/-- **What is wanted of a disk that was accepted**: files are opened and
read on it without a division by zero, in whatever state the file layer
is then, and a read makes progress with every cluster. -/
structure FileAccessSafe (image : Sectors) (disk : Disk) : Prop where
  fat16Open : ∀ (t : FsState) (path : Word) (mode : FileMode), t.disk = disk →
    OwnKernel.fat16Open image path mode t ≠ .error .divideError
  fat16Read : ∀ (t : FsState) (descriptor size nmemb : Word), t.disk = disk →
    OwnKernel.fat16Read image descriptor size nmemb t ≠ .error .divideError
  progress : ∀ fat, disk.fsPrivate = some fat → ∀ cluster offset total,
    (fat16ReadInternalTotals image fat cluster offset total).IsChain (· > ·)

/-- A byte of an open file is read with a division by the size of a
cluster. -/
theorem OpenFile.exists_divideError {fd : ℤ} {pos : Word} (f : OpenFile s fd fat item pos)
    (hsize : sizeOfClusterBytes fat.header = 0) (image : Sectors) :
    ∃ descriptor, fat16Read image descriptor 1 1 s = .error .divideError := by
  obtain ⟨-, descriptor, fatItem, record, -, -, h0, hdescriptor, h0', hitem, h0'', hrecord⟩ :=
    f.descriptors
  have hread : fat16ReadRecord image fat item pos 1 1 = .error .divideError := by
    rw [fat16ReadRecord_one, fat16ReadInternal_seeks, if_pos hsize]
    rfl
  refine ⟨descriptor, ?_⟩
  unfold fat16Read
  rw [Fallible.bind_ok (run_diskFsPrivate.2 ⟨f.mounted, rfl⟩),
    Fallible.bind_ok (run_readObject.2 ⟨h0, by rw [hdescriptor]; rfl, rfl⟩),
    Fallible.bind_ok (run_readObject.2 ⟨h0', by rw [hitem]; rfl, rfl⟩),
    Fallible.bind_ok (run_readObject.2 ⟨h0'', by rw [hrecord]; rfl, rfl⟩), hread]
  rfl

/-- **On which disks files are read without a division by zero**: of those
`fat16_resolve` accepts, the ones whose clusters have sectors. -/
theorem fileAccessSafe_iff (h : fat16Resolve image s = .ok (0, s')) :
    FileAccessSafe image s'.disk ↔ (volumeHeader image).sectorsPerCluster ≠ 0 := by
  obtain ⟨fat, hfat, hmounted⟩ := mounted_of_fat16Resolve h
  have hsize : sizeOfClusterBytes fat.header = 0 ↔ (volumeHeader image).sectorsPerCluster = 0 := by
    unfold volumeHeader
    rw [← hmounted.header, sizeOfClusterBytes, Nat.mul_eq_zero, or_iff_left (by decide)]
    exact BitVec.toNat_inj (y := 0)
  constructor
  · intro safe hzero
    have hopen : OpenFile { openTwoByte with disk := s'.disk } 1 fat twoByteItem 0 :=
      ⟨hfat, openFile_openTwoByte.handle, openFile_openTwoByte.descriptors⟩
    obtain ⟨descriptor, hread⟩ := hopen.exists_divideError (hsize.2 hzero) image
    exact safe.fat16Read { openTwoByte with disk := s'.disk } descriptor 1 1 rfl hread
  · intro hne
    have hkept : ∀ t : FsState, t.disk = s'.disk → t.disk.fsPrivate = some fat :=
      fun t ht => by rw [ht, hfat]
    refine ⟨fun t path mode ht herror => ?_, fun t descriptor size nmemb ht herror => ?_,
      fun fat _ cluster offset total => isChain_fat16ReadInternalTotals image fat cluster _ _ _ rfl⟩
    · exact (undivided_fat16Open (mt hsize.1 hne) image path mode t (hkept t ht)).1 _ herror rfl
    · exact (undivided_fat16Read (mt hsize.1 hne) image descriptor size nmemb t
        (hkept t ht)).1 _ herror rfl

/-- A volume with clusters of one sector. -/
theorem fileAccessSafe_one_sector : ∃ s' : FsState,
    fat16Resolve (smallVolume 1 16 oneFileRoot) bootFs = .ok (0, s') ∧
      FileAccessSafe (smallVolume 1 16 oneFileRoot) s'.disk := by
  obtain ⟨s', fat, m, hrun, -⟩ := (oneFile_smallVolume 1).exists_resolved
  refine ⟨s', hrun, (fileAccessSafe_iff hrun).2 ?_⟩
  rw [(oneFile_smallVolume 1).header]
  decide

/-- A volume with clusters of no sectors is accepted, its file `A` is opened,
and a byte of it is read with a division by zero. -/
theorem exists_divideError_of_fopen : ∃ s s' descriptor,
    fat16Resolve (smallVolume 0 16 oneFileRoot) bootFs = .ok (0, s) ∧
      fopen (smallVolume 0 16 oneFileRoot) [0x30, colon, slash, 0x41] [0x72] s = .ok (1, s') ∧
      s'.disk = s.disk ∧
      fat16Read (smallVolume 0 16 oneFileRoot) descriptor 1 1 s' = .error .divideError := by
  obtain ⟨s, fat, m, hrun, hm, hs, hdisk, hmounted, hfind⟩ := (oneFile_smallVolume 0).exists_resolved
  have hslot : s.freeSlot = some 0 :=
    FsState.freeSlot_eq_some.2 ⟨by decide, hs.2.2 0, fun j hj => absurd hj (Nat.not_lt_zero j)⟩
  obtain ⟨s', d, n, hopen, a, -, -, hfile⟩ :=
    exists_fopen_next hs.fsOwned hs.1 (by omega) hdisk hfind (by decide) hslot
  have hheader : fat.header = ⟨0, 1, 1, 16, 1, 0x29⟩ :=
    hmounted.header.trans (oneFile_smallVolume 0).header
  obtain ⟨descriptor, hread⟩ := (hfile (by decide)).exists_divideError (by rw [hheader]; rfl) _
  exact ⟨s, s', descriptor, hrun, hopen, a.keeps.disk, hread⟩

/-- **A volume with clusters of no sectors** is accepted, and reading its
file is an error. -/
theorem not_fileAccessSafe : ¬ ∀ (image : Sectors) (s s' : FsState),
    fat16Resolve image s = .ok (0, s') → FileAccessSafe image s'.disk := by
  intro h
  obtain ⟨s, s', descriptor, hresolve, -, hdisk, hread⟩ := exists_divideError_of_fopen
  exact (h _ _ _ hresolve).fat16Read s' descriptor 1 1 hdisk hread

end OwnKernel
