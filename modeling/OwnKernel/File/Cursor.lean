import OwnKernel.Fat16.Read
import OwnKernel.File.Objects
import OwnKernel.Model.File

/-!
# An open file as bytes with a cursor

A file of one cluster, and what `fread` and `fseek` on one descriptor do
to it. The descriptor's `pos` is what was sought and `fat16_read` never
moves it (`FileRun.openFile`), so a read delivers the bytes at the
position sought, and not those behind the reads made since
(`fileRun_delivers_iff`).
-/

namespace OwnKernel

variable {image : Sectors} {fat : FatPrivate} {item : FatDirectoryItem} {c n o nmemb : ℕ}
variable {size pos : Word}

/-! ## Reads within a cluster -/

/-- A cluster is at most 255 sectors. -/
theorem sizeOfClusterBytes_lt (header : FatHeader) : sizeOfClusterBytes header < 2 ^ 17 := by
  have := header.sectorsPerCluster.isLt
  unfold sizeOfClusterBytes sectorSize
  omega

/-- One item read from within the first cluster. -/
theorem fat16ReadInternal_within
    (hdata : fat.rootDirectory.endingSectorPos = fat.header.dataSector) (hc : c < 2 ^ 16)
    (hpos : 0 ≤ fat.header.clusterPosition c)
    (hlow : fat.header.clusterPosition c + (o + n : ℕ) ≤ 2 ^ 31) (hn : 0 < n)
    (hin : o + n ≤ sizeOfClusterBytes fat.header) :
    fat16ReadInternal image fat c o n = .ok (allOk,
      tabulate (fun i => byteAt image (fat.header.clusterPosition c + (o + i : ℕ))) n) := by
  have hdiv : o / sizeOfClusterBytes fat.header = 0 := Nat.div_eq_of_lt (by omega)
  have hcluster : fat16GetClusterForOffset image fat c o = .ok _ :=
    fat16GetClusterForOffset_eq image o (by omega) hc
      (by rw [hdiv]; exact fun j hj => absurd hj (Nat.not_lt_zero j))
  rw [hdiv] at hcluster
  have hmod : (o : ℤ).tmod (sizeOfClusterBytes fat.header) = o :=
    Int.tmod_eq_of_lt (by omega) (by omega)
  have hstart : int32 (fat.header.clusterPosition c + o) = fat.header.clusterPosition c + o :=
    int32_of_range (by omega) (by omega)
  rw [fat16ReadInternal_step hdata (by omega) hc hcluster
    (by rw [hmod, hstart]; exact ⟨by omega, by omega, Or.inl (by omega)⟩),
    if_neg (by omega), hmod, hstart]
  congr 2
  refine tabulate_inj.2 fun i hi => ?_
  rw [int32_of_range (by omega) (by omega), Int.add_assoc, ← Nat.cast_add]

/-- **The loop of `fat16_read`** within the first cluster: each read goes
on where the one before ended. -/
theorem fat16ReadLoop_within
    (hdata : fat.rootDirectory.endingSectorPos = fat.header.dataSector) (hc : c < 2 ^ 16)
    (hpos : 0 ≤ fat.header.clusterPosition c) (hsize : 0 < size.toNat)
    (hlow : fat.header.clusterPosition c + (o + size.toNat * nmemb : ℕ) ≤ 2 ^ 31)
    (hin : o + size.toNat * nmemb ≤ sizeOfClusterBytes fat.header) :
    fat16ReadLoop image fat c size nmemb o = .ok (allOk, tabulate
      (fun i => byteAt image (fat.header.clusterPosition c + (o + i : ℕ))) (size.toNat * nmemb)) := by
  induction nmemb generalizing o with
  | zero => rfl
  | succ nmemb ih =>
    have hlt := sizeOfClusterBytes_lt fat.header
    rw [Nat.mul_succ] at hlow hin
    have hfirst : fat16ReadInternal image fat c o size.toNat = .ok (allOk, tabulate
        (fun i => byteAt image (fat.header.clusterPosition c + (o + i : ℕ))) size.toNat) :=
      fat16ReadInternal_within hdata hc hpos (by omega) hsize (by omega)
    have hint : int32 size.toNat = size.toNat := int32_of_range (by omega) (by omega)
    have hnext : int32 ((o : ℤ) + size.toNat) = (o + size.toNat : ℕ) := by
      rw [int32_of_range (by omega) (by omega), Nat.cast_add]
    have hrest := @ih (o + size.toNat) (by omega) (by omega)
    unfold fat16ReadLoop
    rw [hint, hfirst, hnext]
    simp only [bind, Except.bind]
    rw [if_neg (by decide), hrest]
    simp only [pure, Except.pure]
    rw [Nat.mul_succ, Nat.add_comm (size.toNat * nmemb), tabulate_add]
    simp only [Nat.add_assoc]

/-- `fat16_read` within the first cluster. -/
theorem fat16ReadRecord_within
    (hdata : fat.rootDirectory.endingSectorPos = fat.header.dataSector)
    (hfirst : fat16GetFirstCluster item = c) (hc : c < 2 ^ 16)
    (hpos : 0 ≤ fat.header.clusterPosition c) {nmemb : Word} (hsize : 0 < size.toNat)
    (hlow : fat.header.clusterPosition c + (pos.toNat + size.toNat * nmemb.toNat : ℕ) ≤ 2 ^ 31)
    (hin : pos.toNat + size.toNat * nmemb.toNat ≤ sizeOfClusterBytes fat.header) :
    fat16ReadRecord image fat item pos size nmemb = .ok ((nmemb.toNat : ℤ), tabulate
      (fun i => byteAt image (fat.header.clusterPosition c + (pos.toNat + i : ℕ)))
      (size.toNat * nmemb.toNat)) := by
  have hle : nmemb.toNat ≤ size.toNat * nmemb.toNat := Nat.le_mul_of_pos_left _ hsize
  have hlt := sizeOfClusterBytes_lt fat.header
  unfold fat16ReadRecord
  rw [hfirst, int32_of_range (by omega) (by omega),
    fat16ReadLoop_within hdata hc hpos hsize hlow hin]
  simp only [bind, Except.bind]
  rw [if_neg (by decide), int32_of_range (by omega) (by omega)]
  rfl

/-! ## An open file -/

/-- **An open file**: the handle `fd` leads through its descriptors to the
record `item`, and the position is `pos`. -/
structure OpenFile (s : FsState) (fd : ℤ) (fat : FatPrivate) (item : FatDirectoryItem)
    (pos : Word) : Prop where
  mounted : s.disk.fsPrivate = some fat
  handle : 0 < fd ∧ fd < osMaxFileDescriptors
  descriptors : ∃ index privateData fatItem record : _,
    s.fileDescriptors (fd - 1).toNat ≠ 0 ∧
    s.objects (s.fileDescriptors (fd - 1).toNat) =
      some (.fileDescriptor ⟨index, some .fat16, privateData⟩) ∧
    privateData ≠ 0 ∧ s.objects privateData = some (.fatFileDescriptor ⟨fatItem, pos⟩) ∧
    fatItem ≠ 0 ∧ s.objects fatItem = some (.fatItem ⟨record, fatItemTypeFile⟩) ∧
    record ≠ 0 ∧ s.objects record = some (.fatDirectoryItem item)

section
variable {s s' : FsState} {u : PUnit} {ptr : Word}

/-- `storeBytes` only writes memory. -/
theorem storeBytes_frame {bytes : List Byte} (h : storeBytes ptr bytes s = .ok (u, s')) :
    ∃ m, s' = { s with store := { s.store with mem := m } } := by
  unfold storeBytes at h
  split at h
  · exact ⟨s.store.mem, (Fallible.run_pure.1 h).2⟩
  · split at h
    · exact absurd h Fallible.run_throw
    · exact ⟨_, Fallible.run_modify.1 h⟩

/-- `fat16_read` changes no state. -/
theorem fat16Read_frame {descriptor size nmemb : Word} {r : ℤ × List Byte}
    (h : fat16Read image descriptor size nmemb s = .ok (r, s')) : s' = s := by
  unfold fat16Read at h
  obtain ⟨d, t₁, h₁, h⟩ := Fallible.run_bind.1 h
  obtain ⟨x, t₂, h₂, h⟩ := Fallible.run_bind.1 h
  obtain ⟨y, t₃, h₃, h⟩ := Fallible.run_bind.1 h
  obtain ⟨z, t₄, h₄, h⟩ := Fallible.run_bind.1 h
  have e₁ := (run_diskFsPrivate.1 h₁).2
  have e₂ := (run_readObject.1 h₂).2.2
  have e₃ := (run_readObject.1 h₃).2.2
  have e₄ := (run_readObject.1 h₄).2.2
  rw [(run_readDisk.1 h).2, e₄, e₃, e₂, e₁]

/-- **`fread` only writes memory.** -/
theorem fread_frame {size nmemb : Word} {fd r : ℤ}
    (h : fread image ptr size nmemb fd s = .ok (r, s')) :
    ∃ m, s' = { s with store := { s.store with mem := m } } := by
  unfold fread at h
  split at h
  · exact ⟨s.store.mem, (Fallible.run_pure.1 h).2⟩
  obtain ⟨descriptor, t₁, h₁, h⟩ := Fallible.run_bind.1 h
  have e₁ : t₁ = s := (Fallible.run_pure.1 h₁).2
  split at h
  · exact ⟨s.store.mem, (Fallible.run_pure.1 h).2.trans e₁⟩
  obtain ⟨privateData, t₂, h₂, h⟩ := Fallible.run_bind.1 h
  obtain ⟨d, t₀, h₀, h₂⟩ := Fallible.run_bind.1 h₂
  have e₂ : t₂ = t₀ := by
    cases hname : d.filesystem with
    | none =>
      rw [hname] at h₂
      exact absurd h₂ Fallible.run_throw
    | some name =>
      rw [hname] at h₂
      exact (Fallible.run_pure.1 h₂).2
  obtain ⟨x, t₃, h₃, h⟩ := Fallible.run_bind.1 h
  obtain ⟨t₄, h₄, h⟩ := Fallible.run_seq.1 h
  have e₃ := fat16Read_frame h₃
  rw [e₂, (run_readObject.1 h₀).2.2, e₁] at e₃
  obtain ⟨m, e₄⟩ := storeBytes_frame h₄
  exact ⟨m, by rw [(Fallible.run_pure.1 h).2, e₄, e₃]⟩

end

/-- A descriptor's private data. -/
theorem descriptorPrivate_eq {s : FsState} {descriptor privateData : Word} {index : ℤ}
    (h0 : descriptor ≠ 0)
    (hd : s.objects descriptor = some (.fileDescriptor ⟨index, some .fat16, privateData⟩)) :
    descriptorPrivate descriptor s = .ok (privateData, s) := by
  unfold descriptorPrivate
  rw [Fallible.bind_ok (run_readObject.2 ⟨h0, by rw [hd]; rfl, rfl⟩)]
  rfl

/-- Objects of two types are at two places. -/
theorem ne_of_view {α : Type} {view : FsObject → Option α} {s : FsState} {p q : Word}
    {x y : FsObject} (hp : s.objects p = some x) (hq : s.objects q = some y)
    (hx : (view x).isSome) (hy : view y = none) : p ≠ q := by
  rintro rfl
  rw [hp] at hq
  cases hq
  rw [hy] at hx
  cases hx

namespace OpenFile

variable {s s' : FsState} {fd r : ℤ} {ptr : Word} {bytes : List Byte}

/-- What is open is not changed by a state that keeps the objects and the
table. -/
theorem congr (f : OpenFile s fd fat item pos) (hdisk : s'.disk = s.disk)
    (hobjects : s'.objects = s.objects) (htable : s'.fileDescriptors = s.fileDescriptors) :
    OpenFile s' fd fat item pos where
  mounted := hdisk ▸ f.mounted
  handle := f.handle
  descriptors := by
    rw [hobjects, htable]
    exact f.descriptors

/-- The handle is resolved. -/
theorem fileGetDescriptor_eq (f : OpenFile s fd fat item pos) :
    fileGetDescriptor fd s = .ok (s.fileDescriptors (fd - 1).toNat, s) := by
  have hhandle := f.handle
  have hget : s.fileGetDescriptor fd = s.fileDescriptors (fd - 1).toNat := by
    unfold FsState.fileGetDescriptor
    rw [if_neg (by omega)]
  rw [← hget]
  rfl

/-- **`fread` on an open file** stores what `fat16_read` reads of the
record. -/
theorem fread_eq_storeBytes (f : OpenFile s fd fat item pos) {nmemb : Word} (hsize : size ≠ 0)
    (hnmemb : nmemb ≠ 0) :
    fread image ptr size nmemb fd s = (do
      let r ← readDisk (fat16ReadRecord image fat item pos size nmemb)
      storeBytes ptr r.2
      pure r.1 : FsM ℤ) s := by
  obtain ⟨index, privateData, i, record, hd0, hd, hp0, hp, hi0, hi, hr0, hr⟩ := f.descriptors
  have hhandle := f.handle
  have hfat : diskFsPrivate s = .ok (fat, s) := run_diskFsPrivate.2 ⟨f.mounted, rfl⟩
  unfold fread
  rw [if_neg (by rintro (h | h | h); exacts [hsize h, hnmemb h, by omega]),
    Fallible.bind_ok f.fileGetDescriptor_eq, if_neg hd0,
    Fallible.bind_ok (descriptorPrivate_eq hd0 hd), fat16Read]
  simp only [bind_assoc]
  rw [Fallible.bind_ok hfat, Fallible.bind_ok (run_readObject.2 ⟨hp0, by rw [hp]; rfl, rfl⟩),
    Fallible.bind_ok (run_readObject.2 ⟨hi0, by rw [hi]; rfl, rfl⟩),
    Fallible.bind_ok (run_readObject.2 ⟨hr0, by rw [hr]; rfl, rfl⟩)]

/-- What an `fread` on an open file has read. -/
theorem of_fread (f : OpenFile s fd fat item pos) {nmemb : Word} (hsize : size ≠ 0)
    (hnmemb : nmemb ≠ 0) (h : fread image ptr size nmemb fd s = .ok (r, s')) :
    ∃ bytes, fat16ReadRecord image fat item pos size nmemb = .ok (r, bytes) := by
  rw [f.fread_eq_storeBytes hsize hnmemb] at h
  obtain ⟨⟨res, bytes⟩, t, hread, h⟩ := Fallible.run_bind.1 h
  obtain ⟨t', -, h⟩ := Fallible.run_seq.1 h
  obtain ⟨rfl, -⟩ := Fallible.run_pure.1 h
  exact ⟨bytes, (run_readDisk.1 hread).1⟩

/-- `fread` on an open file stores the bytes of the record. -/
theorem fread_eq (f : OpenFile s fd fat item pos) {nmemb : Word} (hsize : size ≠ 0)
    (hnmemb : nmemb ≠ 0) (hptr : ptr ≠ 0)
    (hread : fat16ReadRecord image fat item pos size nmemb = .ok (r, bytes)) (hbytes : bytes ≠ []) :
    fread image ptr size nmemb fd s =
      .ok (r, { s with store := { s.store with mem := s.store.mem.store ptr bytes } }) := by
  rw [f.fread_eq_storeBytes hsize hnmemb, hread]
  change (storeBytes ptr bytes >>= fun _ => pure r : FsM ℤ) s = _
  unfold storeBytes
  rw [if_neg hbytes, if_neg hptr]
  rfl

/-- `fread` on an open file returns what `fat16_read` does. -/
theorem exists_fread (f : OpenFile s fd fat item pos) {nmemb : Word} (hsize : size ≠ 0)
    (hnmemb : nmemb ≠ 0) (hptr : ptr ≠ 0)
    (hread : fat16ReadRecord image fat item pos size nmemb = .ok (r, bytes)) :
    ∃ s', fread image ptr size nmemb fd s = .ok (r, s') := by
  by_cases hbytes : bytes = []
  · rw [f.fread_eq_storeBytes hsize hnmemb, hread]
    refine ⟨s, ?_⟩
    change (storeBytes ptr bytes >>= fun _ => pure r : FsM ℤ) s = _
    unfold storeBytes
    rw [if_pos hbytes]
    rfl
  · exact ⟨_, f.fread_eq hsize hnmemb hptr hread hbytes⟩

/-- The position is where the handle leads. -/
theorem pos_unique (f : OpenFile s fd fat item pos) {pos' : Word}
    (f' : OpenFile s fd fat item pos') : pos = pos' := by
  obtain ⟨index, privateData, i, record, -, hd, -, hp, -⟩ := f.descriptors
  obtain ⟨index', privateData', i', record', -, hd', -, hp', -⟩ := f'.descriptors
  rw [hd] at hd'
  cases hd'
  rw [hp] at hp'
  cases hp'
  rfl

/-- What `fseek` returns on a file of `filesize` bytes. -/
def seekResult (filesize : ℕ) (offset : Word) (whence : FileSeekMode) : ℤ :=
  if filesize ≤ offset.toNat then -ioError
  else match whence with
    | .set | .cur => 0
    | .endOfFile => -unimplementedError
    | .other => -invalidArgumentError

/-- The position `fseek` leaves. -/
def seekPosition (filesize : ℕ) (pos offset : Word) (whence : FileSeekMode) : Word :=
  if filesize ≤ offset.toNat then pos
  else match whence with
    | .set => offset
    | .cur => pos + offset
    | .endOfFile | .other => pos

/-- **`fseek` on an open file.** -/
theorem fseek_eq (f : OpenFile s fd fat item pos) (offset : ℤ) (whence : FileSeekMode) :
    ∃ s', fseek fd offset whence s =
        .ok (seekResult item.filesize.toNat (BitVec.ofInt 32 offset) whence, s') ∧
      OpenFile s' fd fat item
        (seekPosition item.filesize.toNat pos (BitVec.ofInt 32 offset) whence) := by
  obtain ⟨index, privateData, i, record, hd0, hd, hp0, hp, hi0, hi, hr0, hr⟩ := f.descriptors
  -- the call, peeled off down to `fat16_seek`
  have hcall : fseek fd offset whence s =
      fat16Seek privateData (BitVec.ofInt 32 offset) whence s := by
    unfold fseek
    rw [Fallible.bind_ok f.fileGetDescriptor_eq, if_neg hd0,
      Fallible.bind_ok (descriptorPrivate_eq hd0 hd)]
  rw [hcall]
  unfold fat16Seek seekResult seekPosition
  rw [Fallible.bind_ok (run_readObject.2 ⟨hp0, by rw [hp]; rfl, rfl⟩),
    Fallible.bind_ok (run_readObject.2 ⟨hi0, by rw [hi]; rfl, rfl⟩),
    if_neg (not_not.2 rfl), Fallible.bind_ok (run_readObject.2 ⟨hr0, by rw [hr]; rfl, rfl⟩)]
  by_cases hin : item.filesize.toNat ≤ (BitVec.ofInt 32 offset).toNat
  · rw [if_pos hin, if_pos hin, if_pos hin]
    exact ⟨s, rfl, f⟩
  rw [if_neg hin, if_neg hin, if_neg hin]
  -- a new position is stored where the old one was
  have hmove : ∀ pos' : Word, ∃ s', (do
      writeObject privateData (.fatFileDescriptor ⟨i, pos'⟩)
      pure (0 : ℤ) : FsM ℤ) s = .ok (0, s') ∧ OpenFile s' fd fat item pos' := by
    intro pos'
    have hother : ∀ {p : Word} {x : FsObject}, s.objects p = some x →
        x.asFatFileDescriptor = none →
        (s.setObject privateData (some (.fatFileDescriptor ⟨i, pos'⟩))).objects p = some x := by
      intro p x hx hview
      rw [setObject_objects_of_ne (ne_of_view hp hx rfl hview).symm, hx]
    refine ⟨_, Fallible.run_seq.2 ⟨_, run_writeObject.2 ⟨hp0, rfl⟩,
      Fallible.run_pure.2 ⟨rfl, rfl⟩⟩, ?_⟩
    exact ⟨f.mounted, f.handle, index, privateData, i, record, hd0, hother hd rfl, hp0,
      setObject_objects_self, hi0, hother hi rfl, hr0, hother hr rfl⟩
  cases whence with
  | set => exact hmove _
  | cur => exact hmove _
  | endOfFile => exact ⟨s, rfl, f⟩
  | other => exact ⟨s, rfl, f⟩

/-- A successful `fseek` on an open file sought a place inside it, and
the position is the one wanted. -/
theorem of_fseek (f : OpenFile s fd fat item pos) {offset : ℤ} {whence : FileSeekMode}
    (h : fseek fd offset whence s = .ok (0, s')) :
    (BitVec.ofInt 32 offset).toNat < item.filesize.toNat ∧
      ((whence = .set ∧ OpenFile s' fd fat item (BitVec.ofInt 32 offset)) ∨
        (whence = .cur ∧ OpenFile s' fd fat item (pos + BitVec.ofInt 32 offset))) := by
  obtain ⟨t, hseek, f'⟩ := f.fseek_eq offset whence
  rw [hseek] at h
  obtain ⟨hres, rfl⟩ := Prod.mk.inj (Except.ok.inj h)
  unfold seekResult at hres
  unfold seekPosition at f'
  by_cases hin : item.filesize.toNat ≤ (BitVec.ofInt 32 offset).toNat
  · rw [if_pos hin] at hres
    exact absurd hres (by decide)
  rw [if_neg hin] at hres f'
  refine ⟨by omega, ?_⟩
  cases whence with
  | set => exact Or.inl ⟨rfl, f'⟩
  | cur => exact Or.inr ⟨rfl, f'⟩
  | endOfFile => exact absurd hres (by decide)
  | other => exact absurd hres (by decide)

end OpenFile

/-! ## Calls on an open file -/

/-- A call on an open file. -/
inductive FileCall
  | fread (ptr size nmemb : Word)
  | fseekSet (offset : ℤ)
  | fseekCur (offset : ℤ)

/-- What a call does to the cursor of a sequence of bytes. -/
def FileCall.cursor : FileCall → ℕ → ℕ
  | .fread _ size nmemb, k => k + size.toNat * nmemb.toNat
  | .fseekSet offset, _ => offset.toNat
  | .fseekCur offset, k => k + offset.toNat

/-- What a call adds to the position sought. A read adds nothing. -/
def FileCall.sought : FileCall → ℕ → ℕ
  | .fread .., k => k
  | .fseekSet offset, _ => offset.toNat
  | .fseekCur offset, k => k + offset.toNat

/-- The cursor after the calls, the latest of them first. -/
def cursorAfter (calls : List FileCall) : ℕ := calls.foldr FileCall.cursor 0

/-- The position sought by the calls, the latest of them first. -/
def soughtAfter (calls : List FileCall) : ℕ := calls.foldr FileCall.sought 0

/-- Reads only move the cursor ahead of what was sought. -/
theorem soughtAfter_le_cursorAfter : ∀ calls : List FileCall,
    soughtAfter calls ≤ cursorAfter calls
  | [] => Nat.le_refl 0
  | call :: calls => by
    have ih := soughtAfter_le_cursorAfter calls
    unfold soughtAfter cursorAfter at ih ⊢
    rw [List.foldr_cons, List.foldr_cons]
    cases call with
    | fread ptr size nmemb => exact Nat.le_add_right_of_le ih
    | fseekSet offset => exact Nat.le_refl _
    | fseekCur offset => exact Nat.add_le_add_right ih _

/-- **A run of calls on one descriptor**, from a state in which it was just
opened: reads that stay inside the file as the cursor has it, and seeks
that succeed. The calls are listed from the latest on. -/
inductive FileRun (image : Sectors) (fd : ℤ) (filesize : ℕ) (s : FsState) :
    List FileCall → FsState → Prop
  | opened : FileRun image fd filesize s [] s
  | fread {calls : List FileCall} {t t' : FsState} {ptr size nmemb : Word} {r : ℤ} :
      FileRun image fd filesize s calls t →
      cursorAfter calls + size.toNat * nmemb.toNat ≤ filesize →
      fread image ptr size nmemb fd t = .ok (r, t') →
      FileRun image fd filesize s (.fread ptr size nmemb :: calls) t'
  | fseekSet {calls : List FileCall} {t t' : FsState} {offset : ℤ} :
      FileRun image fd filesize s calls t → -2 ^ 31 ≤ offset → offset < 2 ^ 31 →
      fseek fd offset .set t = .ok (0, t') →
      FileRun image fd filesize s (.fseekSet offset :: calls) t'
  | fseekCur {calls : List FileCall} {t t' : FsState} {offset : ℤ} :
      FileRun image fd filesize s calls t → -2 ^ 31 ≤ offset → offset < 2 ^ 31 →
      fseek fd offset .cur t = .ok (0, t') →
      FileRun image fd filesize s (.fseekCur offset :: calls) t'

section
variable {s t : FsState} {fd : ℤ} {calls : List FileCall}

/-- **The descriptor after a run.** The position is the one sought. -/
theorem FileRun.openFile (hopen : OpenFile s fd fat item 0) (hfile : item.filesize.toNat < 2 ^ 31)
    (run : FileRun image fd item.filesize.toNat s calls t) :
    ∃ pos : Word, OpenFile t fd fat item pos ∧ pos.toNat = soughtAfter calls % 2 ^ 32 := by
  induction run with
  | opened => exact ⟨0, hopen, rfl⟩
  | fread run hin hread ih =>
    obtain ⟨pos, f, hpos⟩ := ih
    obtain ⟨m, rfl⟩ := fread_frame hread
    exact ⟨pos, f.congr rfl rfl rfl, hpos⟩
  | @fseekSet calls t t' offset run hlo hhi hseek ih =>
    obtain ⟨pos, f, hpos⟩ := ih
    obtain ⟨hin, ⟨-, f'⟩ | ⟨hw, -⟩⟩ := f.of_fseek hseek
    · refine ⟨_, f', ?_⟩
      change _ = offset.toNat % 2 ^ 32
      rw [BitVec.toNat_ofInt] at hin ⊢
      omega
    · cases hw
  | @fseekCur calls t t' offset run hlo hhi hseek ih =>
    obtain ⟨pos, f, hpos⟩ := ih
    obtain ⟨hin, ⟨hw, -⟩ | ⟨-, f'⟩⟩ := f.of_fseek hseek
    · cases hw
    · refine ⟨_, f', ?_⟩
      change _ = (soughtAfter calls + offset.toNat) % 2 ^ 32
      rw [BitVec.toNat_ofInt] at hin
      rw [BitVec.toNat_add, BitVec.toNat_ofInt, hpos]
      omega

/-- Byte `i` of a file that is stored in cluster `c`. -/
def fileByte (image : Sectors) (header : FatHeader) (c i : ℕ) : Byte :=
  byteAt image (header.clusterPosition c + (i : ℕ))

/-- Memory holds the `n` bytes of the file from `k` on at `ptr`. -/
def HoldsFile (image : Sectors) (header : FatHeader) (c k n : ℕ) (ptr : Word) (mem : Mem) : Prop :=
  ∀ i < n, mem (ptr + BitVec.ofNat 32 i) = fileByte image header c (k + i)

/-- What the run's next read delivers: all its items, from the position
sought on. -/
theorem fileRun_exists_fread (m : Mounted image fat) (f : FileChain image fat.header item [c])
    (hlow : fat.header.clusterPosition c + item.filesize.toNat ≤ 2 ^ 31)
    (hopen : OpenFile s fd fat item 0)
    (run : FileRun image fd item.filesize.toNat s calls t) {ptr size nmemb : Word}
    (hptr : ptr ≠ 0) (hsize : size ≠ 0) (hnmemb : nmemb ≠ 0)
    (hin : cursorAfter calls + size.toNat * nmemb.toNat ≤ item.filesize.toNat) :
    ∃ t', fread image ptr size nmemb fd t = .ok ((nmemb.toNat : ℤ), t') ∧
      HoldsFile image fat.header c (soughtAfter calls) (size.toNat * nmemb.toNat) ptr
        t'.store.mem := by
  have hcover := f.covers
  have hdata := f.data c (List.mem_singleton_self c)
  have hcluster := sizeOfClusterBytes_lt fat.header
  have hfirst := f.fat16GetFirstCluster_eq
  have hle := soughtAfter_le_cursorAfter calls
  rw [List.length_singleton, Nat.one_mul] at hcover
  change _ = c at hfirst
  obtain ⟨pos, hfile, hpos⟩ := run.openFile hopen (by omega)
  rw [Nat.mod_eq_of_lt (by omega)] at hpos
  have hsize0 : 0 < size.toNat := by bv_omega
  have hnmemb0 : 0 < nmemb.toNat := by bv_omega
  have hn := Nat.mul_pos hsize0 hnmemb0
  have hstart : 0 ≤ fat.header.clusterPosition c := by
    unfold FatHeader.clusterPosition
    have := Int.mul_nonneg (a := (c : ℤ) - 2) (b := fat.header.sectorsPerCluster.toNat)
      (by omega) (by omega)
    omega
  have hread : fat16ReadRecord image fat item pos size nmemb = .ok ((nmemb.toNat : ℤ), tabulate
      (fun i => byteAt image (fat.header.clusterPosition c + (pos.toNat + i : ℕ)))
      (size.toNat * nmemb.toNat)) :=
    fat16ReadRecord_within m.dataSector hfirst (by omega) hstart hsize0 (by omega) (by omega)
  refine ⟨_, hfile.fread_eq hsize hnmemb hptr hread fun h => ?_, fun i hi => ?_⟩
  · have hlen := congrArg List.length h
    rw [length_tabulate] at hlen
    exact absurd hlen (by simpa using hn.ne')
  · have hmem : InRange ptr (size.toNat * nmemb.toNat) (ptr + BitVec.ofNat 32 i) :=
      (inRange_add (by omega)).2 hi
    change t.store.mem.store ptr _ _ = _
    rw [Mem.store_of_mem (by rwa [length_tabulate]), toNat_add_sub_self (by omega),
      getD_tabulate hi, hpos]
    rfl

/-- **What the reads of a run deliver.** On a file of one cluster in the
first 2 GiB of its disk, a read made after any calls finishes with all its
items, and delivers the bytes from the cursor on exactly when these are
the bytes from the position sought on. -/
theorem fileRun_delivers_iff (m : Mounted image fat)
    (f : FileChain image fat.header item [c])
    (hlow : fat.header.clusterPosition c + item.filesize.toNat ≤ 2 ^ 31)
    (hopen : OpenFile s fd fat item 0)
    (run : FileRun image fd item.filesize.toNat s calls t) {ptr size nmemb : Word}
    (hptr : ptr ≠ 0) (hsize : size ≠ 0) (hnmemb : nmemb ≠ 0)
    (hin : cursorAfter calls + size.toNat * nmemb.toNat ≤ item.filesize.toNat) :
    ∃ t', fread image ptr size nmemb fd t = .ok ((nmemb.toNat : ℤ), t') ∧
      (HoldsFile image fat.header c (cursorAfter calls) (size.toNat * nmemb.toNat) ptr
          t'.store.mem ↔
        ∀ i < size.toNat * nmemb.toNat, fileByte image fat.header c (soughtAfter calls + i) =
          fileByte image fat.header c (cursorAfter calls + i)) := by
  obtain ⟨t', hread, hholds⟩ := fileRun_exists_fread m f hlow hopen run hptr hsize hnmemb hin
  refine ⟨t', hread, forall₂_congr fun i hi => ?_⟩
  rw [hholds i hi]

end

/-! ### Two reads of a byte -/

/-- A volume with clusters of one sector from sector 4 on. Its table says
that cluster 2 is the last of its file, and byte `i` of the cluster is
`i`. -/
def oneClusterVolume : Sectors := fun lba i =>
  if lba = 0 then [0, 0, 0, 0, 0, 0, 0, 0, 0, 0, 0, 0, 0, 1, 1, 0, 2, 16, 0, 0, 0, 0, 1].getD i 0
  else if lba = 1 then [0, 0, 0, 0, 0xFF, 0xFF].getD i 0
  else BitVec.ofNat 8 i

/-- The record of a file of 2 bytes at cluster 2. -/
def twoByteItem : FatDirectoryItem :=
  ⟨#[0, 0, 0, 0, 0, 0, 0, 0, 0, 0, 0, 0, 0, 0, 0, 0, 0, 0, 0, 0, 0, 0, 0, 0, 0, 0, 2, 0, 2, 0, 0, 0],
    rfl⟩

theorem mounted_oneClusterVolume : Mounted oneClusterVolume twoClusterFat where
  header := by
    unfold FatHeader.ofBytes bytesAt
    simp only [getD_tabulate, sizeofFatH, Nat.reduceLT]
    simp [twoClusterFat, byteAt, int32, oneClusterVolume, halfWord]
  dataSector := mounted_twoClusterVolume 0 |>.dataSector

theorem fileChain_oneClusterVolume :
    FileChain oneClusterVolume twoClusterFat.header twoByteItem [2] where
  high := by decide
  first := by decide
  data := by decide
  links := List.isChain_singleton 2
  last := by
    intro c hc
    cases hc
    simp [fatEntry, twoClusterFat, byteAt, oneClusterVolume, halfWord]
  covers := by decide

/-- The file, open as handle 1. -/
def openTwoByte : FsState where
  store := ⟨kernelHeapInit, fun _ => 0⟩
  objects p :=
    if p = 1 then some (.fileDescriptor ⟨1, some .fat16, 2⟩)
    else if p = 2 then some (.fatFileDescriptor ⟨3, 0⟩)
    else if p = 3 then some (.fatItem ⟨4, fatItemTypeFile⟩)
    else if p = 4 then some (.fatDirectoryItem twoByteItem)
    else none
  disk := ⟨some .fat16, some twoClusterFat⟩
  fileDescriptors i := if i = 0 then 1 else 0

theorem openFile_openTwoByte : OpenFile openTwoByte 1 twoClusterFat twoByteItem 0 where
  mounted := rfl
  handle := by decide
  descriptors := ⟨1, 2, 3, 4, by decide, rfl, by decide, rfl, by decide, rfl, by decide, rfl⟩

/-- A byte is read and byte 1 sought, which the next read delivers. -/
theorem fileRun_delivers_sought : ∃ t t',
    FileRun oneClusterVolume 1 twoByteItem.filesize.toNat openTwoByte
        [.fseekSet 1, .fread 0x2000 1 1] t ∧
      fread oneClusterVolume 0x2000 1 1 1 t = .ok (1, t') ∧
      HoldsFile oneClusterVolume twoClusterFat.header 2 1 1 0x2000 t'.store.mem := by
  obtain ⟨t₁, hfirst, -⟩ := fileRun_exists_fread mounted_oneClusterVolume fileChain_oneClusterVolume
    (by decide) openFile_openTwoByte .opened (show (0x2000 : Word) ≠ 0 by decide)
    (show (1 : Word) ≠ 0 by decide) (show (1 : Word) ≠ 0 by decide) (by decide)
  have run₁ : FileRun oneClusterVolume 1 twoByteItem.filesize.toNat openTwoByte
      [.fread 0x2000 1 1] t₁ := .fread .opened (by decide) hfirst
  obtain ⟨pos, hopen₁, -⟩ := run₁.openFile openFile_openTwoByte (by decide)
  obtain ⟨t, hseek, -⟩ := hopen₁.fseek_eq 1 .set
  have run : FileRun oneClusterVolume 1 twoByteItem.filesize.toNat openTwoByte
      [.fseekSet 1, .fread 0x2000 1 1] t := .fseekSet run₁ (by decide) (by decide) hseek
  obtain ⟨t', hread, hiff⟩ := fileRun_delivers_iff mounted_oneClusterVolume
    fileChain_oneClusterVolume (by decide) openFile_openTwoByte run
    (show (0x2000 : Word) ≠ 0 by decide) (show (1 : Word) ≠ 0 by decide)
    (show (1 : Word) ≠ 0 by decide) (by decide)
  exact ⟨t, t', run, hread, hiff.2 fun _ _ => rfl⟩

/-- **The second read of a file's two bytes** delivers the first byte
again. -/
theorem fileRun_not_delivers :
    ¬ ∀ (image : Sectors) (fat : FatPrivate) (item : FatDirectoryItem) (c : ℕ) (s t : FsState)
      (fd : ℤ) (calls : List FileCall) (ptr size nmemb : Word),
      Mounted image fat → FileChain image fat.header item [c] →
        fat.header.clusterPosition c + item.filesize.toNat ≤ 2 ^ 31 → OpenFile s fd fat item 0 →
        FileRun image fd item.filesize.toNat s calls t → ptr ≠ 0 → size ≠ 0 → nmemb ≠ 0 →
        cursorAfter calls + size.toNat * nmemb.toNat ≤ item.filesize.toNat →
        ∃ t', fread image ptr size nmemb fd t = .ok ((nmemb.toNat : ℤ), t') ∧
          HoldsFile image fat.header c (cursorAfter calls) (size.toNat * nmemb.toNat) ptr
            t'.store.mem := by
  intro h
  obtain ⟨t, hfirst, -⟩ := fileRun_exists_fread mounted_oneClusterVolume fileChain_oneClusterVolume
    (by decide) openFile_openTwoByte .opened (show (0x2000 : Word) ≠ 0 by decide)
    (show (1 : Word) ≠ 0 by decide) (show (1 : Word) ≠ 0 by decide) (by decide)
  have run : FileRun oneClusterVolume 1 twoByteItem.filesize.toNat openTwoByte
      [.fread 0x2000 1 1] t := .fread .opened (by decide) hfirst
  obtain ⟨t₁, hread₁, hcursor⟩ := h _ _ _ _ _ _ _ _ 0x2000 1 1 mounted_oneClusterVolume
    fileChain_oneClusterVolume (by decide) openFile_openTwoByte run (by decide) (by decide)
    (by decide) (by decide)
  obtain ⟨t₂, hread₂, hsought⟩ := fileRun_exists_fread mounted_oneClusterVolume
    fileChain_oneClusterVolume (by decide) openFile_openTwoByte run
    (show (0x2000 : Word) ≠ 0 by decide) (show (1 : Word) ≠ 0 by decide)
    (show (1 : Word) ≠ 0 by decide) (by decide)
  obtain rfl : t₁ = t₂ := by
    rw [hread₁] at hread₂
    cases hread₂
    rfl
  -- byte 1 is expected where byte 0 is found
  have hbytes := (hcursor 0 (by decide)).symm.trans (hsought 0 (by decide))
  exact absurd hbytes (by decide)

end OwnKernel
