import OwnKernel.Fat16.Pieces
import OwnKernel.File.Cursor

/-!
# Reading past the end of a file

`fat16_read` asks for its items one after the other, and never compares
the position with the file's size. What ends a read is the chain of
clusters only: `fread_pastEnd_iff` says when a read over the end of the
file is refused.
-/

namespace OwnKernel

variable {image : Sectors} {fat : FatPrivate} {item : FatDirectoryItem} {first n : ℕ} {o : ℤ}
variable {size pos nmemb : Word} {r : ℤ × List Byte}

/-! ## The requests of `fat16_read` -/

/-- **All the requests of a read can be read**: clusters are not empty,
and item `k` can be read from `k` sizes behind the position. -/
structure RequestsReadable (image : Sectors) (fat : FatPrivate) (item : FatDirectoryItem)
    (pos size nmemb : Word) : Prop where
  clusters : 0 < sizeOfClusterBytes fat.header
  requests : ∀ k < nmemb.toNat, RequestReadable image fat.header (fat16GetFirstCluster item)
    (int32 (pos.toNat + (size.toNat * k : ℕ))) (int32 size.toNat)

/-- The loop of `fat16_read` ends with an error or with `ALL_OK`. -/
theorem fat16ReadLoop_result (hread : fat16ReadLoop image fat first size n o = .ok r) :
    r.1 = allOk ∨ r.1 < 0 := by
  induction n generalizing o r with
  | zero =>
    cases hread
    exact Or.inl rfl
  | succ n ih =>
    unfold fat16ReadLoop at hread
    cases hitem : fat16ReadInternal image fat first o (int32 size.toNat) with
    | error e =>
      rw [hitem] at hread
      cases hread
    | ok x =>
      rw [hitem] at hread
      simp only [bind, Except.bind] at hread
      by_cases hneg : x.1 < 0
      · rw [if_pos hneg] at hread
        cases hread
        exact Or.inr hneg
      · rw [if_neg hneg] at hread
        cases hrest : fat16ReadLoop image fat first size n (int32 (o + size.toNat)) with
        | error e =>
          rw [hrest] at hread
          cases hread
        | ok rest =>
          rw [hrest] at hread
          cases hread
          exact ih (r := rest) hrest

/-- **When all items are read.** -/
theorem exists_fat16ReadLoop_iff
    (hdata : fat.rootDirectory.endingSectorPos = fat.header.dataSector)
    (hsize : 0 < sizeOfClusterBytes fat.header) (h : first < 2 ^ 16) (n : ℕ) :
    ∀ o : ℤ, (∃ bytes, fat16ReadLoop image fat first size n (int32 o) = .ok (allOk, bytes)) ↔
      ∀ k < n, RequestReadable image fat.header first (int32 (o + (size.toNat * k : ℕ)))
        (int32 size.toNat) := by
  induction n with
  | zero => exact fun o => ⟨fun _ k hk => absurd hk (Nat.not_lt_zero k), fun _ => ⟨[], rfl⟩⟩
  | succ n ih =>
    intro o
    have hhead : (∃ bytes, fat16ReadInternal image fat first (int32 o) (int32 size.toNat) =
        .ok (allOk, bytes)) ↔ _ :=
      exists_fat16ReadInternal_iff hdata hsize h (int32_int32 o) _
    have hnext : ∀ k : ℕ, o + size.toNat + (size.toNat * k : ℕ) =
        o + (size.toNat * (k + 1) : ℕ) := by
      intro k
      push_cast
      ring
    have hzero : o = o + (size.toNat * 0 : ℕ) := by rw [Nat.mul_zero, Nat.cast_zero, Int.add_zero]
    unfold fat16ReadLoop
    rw [int32_int32_add]
    constructor
    · rintro ⟨bytes, hread⟩
      cases hitem : fat16ReadInternal image fat first (int32 o) (int32 size.toNat) with
      | error e =>
        rw [hitem] at hread
        cases hread
      | ok x =>
        obtain ⟨res, item⟩ := x
        rw [hitem] at hread
        simp only [bind, Except.bind] at hread
        obtain rfl | hneg : res = allOk ∨ res < 0 := fat16ReadInternal_result hitem
        · rw [if_neg (by decide)] at hread
          cases hrest : fat16ReadLoop image fat first size n (int32 (o + size.toNat)) with
          | error e =>
            rw [hrest] at hread
            cases hread
          | ok y =>
            obtain ⟨res, rest⟩ := y
            rw [hrest] at hread
            cases hread
            intro k hk
            cases k with
            | zero => exact hzero ▸ hhead.1 ⟨item, hitem⟩
            | succ k =>
              exact hnext k ▸ (ih (o + size.toNat)).1 ⟨rest, hrest⟩ k (Nat.lt_of_succ_lt_succ hk)
        · rw [if_pos hneg] at hread
          cases hread
          exact absurd hneg (lt_irrefl 0)
    · intro hall
      obtain ⟨item, hitem⟩ := hhead.2 (hzero ▸ hall 0 (Nat.succ_pos n))
      obtain ⟨rest, hrest⟩ := (ih (o + size.toNat)).2 fun k hk =>
        hnext k ▸ hall (k + 1) (Nat.succ_lt_succ hk)
      rw [hitem, hrest]
      exact ⟨item ++ rest, rfl⟩

/-- What `fat16_read` returns is an error or the number of items. -/
theorem fat16ReadRecord_result (hread : fat16ReadRecord image fat item pos size nmemb = .ok r) :
    r.1 < 0 ∨ r.1 = int32 nmemb.toNat ∧ ∃ bytes, fat16ReadLoop image fat
      (fat16GetFirstCluster item) size nmemb.toNat (int32 pos.toNat) = .ok (allOk, bytes) := by
  unfold fat16ReadRecord at hread
  cases hloop : fat16ReadLoop image fat (fat16GetFirstCluster item) size nmemb.toNat
      (int32 pos.toNat) with
  | error e =>
    rw [hloop] at hread
    cases hread
  | ok x =>
    obtain ⟨res, bytes⟩ := x
    rw [hloop] at hread
    simp only [bind, Except.bind] at hread
    obtain rfl | hneg : res = allOk ∨ res < 0 := fat16ReadLoop_result hloop
    · rw [if_neg (by decide)] at hread
      obtain rfl := Except.ok.inj hread
      exact Or.inr ⟨rfl, bytes, rfl⟩
    · rw [if_pos hneg] at hread
      cases hread
      exact Or.inl hneg

/-- A read of the volume that returned has clusters that are not empty. -/
theorem sizeOfClusterBytes_pos_of_loop (hn : 0 < n)
    (hread : fat16ReadLoop image fat first size n o = .ok r) :
    0 < sizeOfClusterBytes fat.header := by
  obtain ⟨n, rfl⟩ := Nat.exists_eq_succ_of_ne_zero hn.ne'
  unfold fat16ReadLoop at hread
  cases hitem : fat16ReadInternal image fat first o (int32 size.toNat) with
  | error e =>
    rw [hitem] at hread
    cases hread
  | ok x => exact sizeOfClusterBytes_pos_of_read hitem

/-- **When `fat16_read` reads all items.** -/
theorem exists_fat16ReadLoop_iff_requestsReadable (m : Mounted image fat) (hn : 0 < nmemb.toNat) :
    (∃ bytes, fat16ReadLoop image fat (fat16GetFirstCluster item) size nmemb.toNat
        (int32 pos.toNat) = .ok (allOk, bytes)) ↔
      RequestsReadable image fat item pos size nmemb := by
  have h16 : fat16GetFirstCluster item < 2 ^ 16 := BitVec.isLt _
  constructor
  · rintro ⟨bytes, hread⟩
    have hsize := sizeOfClusterBytes_pos_of_loop hn hread
    exact ⟨hsize, (exists_fat16ReadLoop_iff m.dataSector hsize h16 _ _).1 ⟨bytes, hread⟩⟩
  · exact fun hall => (exists_fat16ReadLoop_iff m.dataSector hall.clusters h16 _ _).2 hall.requests

/-! ## The end of the file -/

/-- **A read over the end of the file is refused**: it returns an error or
fewer items, none of them behind the end. -/
def PastEndRefused (filesize : ℕ) (pos size nmemb : Word) (res : ℤ) : Prop :=
  res < 0 ∨ (res < nmemb.toNat ∧ pos.toNat + size.toNat * res ≤ filesize)

/-- **When a read over the end of a file is refused**: when the count is
negative as an `int`, or one of the items cannot be read from the disk. -/
theorem fread_pastEnd_iff (m : Mounted image fat) {s : FsState} {fd : ℤ} {ptr : Word}
    (f : OpenFile s fd fat item pos) (hsize : size ≠ 0) (hnmemb : nmemb ≠ 0) (hptr : ptr ≠ 0)
    (hend : item.filesize.toNat < pos.toNat + size.toNat * nmemb.toNat) :
    (∀ res s', fread image ptr size nmemb fd s = .ok (res, s') →
        PastEndRefused item.filesize.toNat pos size nmemb res) ↔
      2 ^ 31 ≤ nmemb.toNat ∨ ¬ RequestsReadable image fat item pos size nmemb := by
  have hn : 0 < nmemb.toNat := by bv_omega
  have hloop : (∃ bytes, fat16ReadLoop image fat (fat16GetFirstCluster item) size nmemb.toNat
      (int32 pos.toNat) = .ok (allOk, bytes)) ↔ _ := exists_fat16ReadLoop_iff_requestsReadable m hn
  constructor
  · intro h
    by_contra hcond
    rw [not_or, not_not] at hcond
    obtain ⟨hlt, hreadable⟩ := hcond
    obtain ⟨bytes, hread⟩ := hloop.2 hreadable
    have hcount : int32 nmemb.toNat = nmemb.toNat := int32_of_range (by omega) (by omega)
    have hrecord : fat16ReadRecord image fat item pos size nmemb =
        .ok ((nmemb.toNat : ℤ), bytes) := by
      unfold fat16ReadRecord
      rw [hread, hcount]
      rfl
    obtain ⟨s', hfread⟩ := f.exists_fread hsize hnmemb hptr hrecord
    obtain hneg | ⟨-, hin⟩ := h _ _ hfread
    · omega
    · -- all the items are within the file
      rw [← Nat.cast_mul, ← Nat.cast_add] at hin
      omega
  · intro hcond res s' hfread
    obtain ⟨bytes, hrecord⟩ := f.of_fread hsize hnmemb hfread
    obtain hneg | ⟨hres, hread⟩ := fat16ReadRecord_result hrecord
    · exact Or.inl hneg
    · rcases hcond with hbig | hnot
      · refine Or.inl ?_
        have := nmemb.isLt
        change res = _ at hres
        rw [hres]
        unfold int32
        omega
      · exact absurd (hloop.1 hread) hnot

/-- 600 bytes of a file of two cannot be read where its table ends the
chain. -/
theorem not_requestsReadable_twoByte :
    ¬ RequestsReadable (twoClusterVolume 0) twoClusterFat twoByteItem 0 600 1 := by
  intro h
  obtain ⟨-, hpieces⟩ := h.requests 0 (by decide)
  rw [show fat16GetFirstCluster twoByteItem = 2 by decide,
    show int32 ((0 : Word).toNat + ((600 : Word).toNat * 0 : ℕ)) = 0 by decide] at hpieces
  have hlinks := (hpieces 1 (by decide)).links
  rw [show ((int32 (0 + (1 * sizeOfClusterBytes twoClusterFat.header : ℕ))).tdiv
    (sizeOfClusterBytes twoClusterFat.header)).toNat = 1 by decide] at hlinks
  exact not_noMarker_twoClusterVolume hlinks

/-- 2^31 items of a byte of a file of two are refused, and 600 bytes are
where the chain ends before them. -/
theorem fread_pastEnd_two_bytes :
    (∀ res s', fread oneClusterVolume 0x2000 1 0x80000000 1 openTwoByte = .ok (res, s') →
      PastEndRefused twoByteItem.filesize.toNat 0 1 0x80000000 res) ∧
    ∀ res s', fread (twoClusterVolume 0) 0x2000 600 1 1 openTwoByte = .ok (res, s') →
      PastEndRefused twoByteItem.filesize.toNat 0 600 1 res :=
  ⟨(fread_pastEnd_iff mounted_oneClusterVolume openFile_openTwoByte (by decide) (by decide)
      (by decide) (by decide)).2 (Or.inl (by decide)),
    (fread_pastEnd_iff (mounted_twoClusterVolume 0) openFile_openTwoByte (by decide) (by decide)
      (by decide) (by decide)).2 (Or.inr not_requestsReadable_twoByte)⟩

/-- **A read that is not refused.** Three bytes of a file of two are read:
the last of them is behind the end of the file, in its cluster. -/
theorem not_fread_pastEnd :
    ¬ ∀ (image : Sectors) (fat : FatPrivate) (item : FatDirectoryItem) (s s' : FsState) (fd res : ℤ)
      (ptr pos size nmemb : Word), Mounted image fat → OpenFile s fd fat item pos → size ≠ 0 →
        nmemb ≠ 0 → ptr ≠ 0 → item.filesize.toNat < pos.toNat + size.toNat * nmemb.toNat →
        fread image ptr size nmemb fd s = .ok (res, s') →
        PastEndRefused item.filesize.toNat pos size nmemb res := by
  intro h
  have hthree : (3 : Word) ≠ 0 := by decide
  have hone : (1 : Word) ≠ 0 := by decide
  have hptr : (0x2000 : Word) ≠ 0 := by decide
  have hrecord : fat16ReadRecord oneClusterVolume twoClusterFat twoByteItem 0 3 1 = .ok (_, _) :=
    fat16ReadRecord_within mounted_oneClusterVolume.dataSector rfl (by decide) (by decide)
      (by decide) (by decide) (by decide)
  obtain ⟨s', hread⟩ := openFile_openTwoByte.exists_fread hthree hone hptr hrecord
  obtain hneg | ⟨hless, -⟩ := h _ _ _ _ _ _ _ _ _ _ _ mounted_oneClusterVolume openFile_openTwoByte
    hthree hone hptr (by decide) hread
  · exact absurd hneg (by decide)
  · exact absurd hless (lt_irrefl _)

end OwnKernel
