import OwnKernel.Fat16.Layout
import OwnKernel.File.Objects
import OwnKernel.Lib.Pieces

/-!
# How many records a directory has

`fat16_get_total_items_for_directory` counts the records up to the first
that begins with 0x00, and leaves out those that begin with 0xE5. It is
told where the directory begins, and not where it ends: with no such
record in the directory it goes on behind it. `directoryBounded_iff` says
which of the volumes that `fat16_resolve` accepts have no more items than
records.
-/

namespace OwnKernel

variable {image : Sectors} {start p : ℤ} {fuel k n : ℕ} {counted : List ℕ}

/-! ## Counting -/

/-- The first byte of record `j` of a directory that begins at `start`. -/
def recordByte (image : Sectors) (start : ℤ) (j : ℕ) : Byte :=
  byteAt image (int32 (start + sizeofFatDirectoryItem * j))

/-- **A record that is read** begins with its first byte, and the next one
is behind it. -/
theorem diskStreamRead_record {r : List Byte × DiskStream}
    (h : diskStreamRead image ⟨int32 (start + sizeofFatDirectoryItem * k)⟩ sizeofFatDirectoryItem =
      .ok r) :
    r.1.headD 0 = recordByte image start k ∧
      r.2 = ⟨int32 (start + sizeofFatDirectoryItem * (k + 1 : ℕ))⟩ := by
  have hpos : StreamPosition (int32 (start + sizeofFatDirectoryItem * k)) :=
    .of_diskStreamRead (by decide) (int32_lo _) (int32_hi _) h
  rw [diskStreamRead_eq hpos] at h
  cases h
  refine ⟨?_, ?_⟩
  · unfold bytesAt
    rw [show sizeofFatDirectoryItem = 1 + 31 from rfl, tabulate_add]
    change byteAt image (int32 (int32 _ + 0)) = _
    rw [int32_int32_add, Int.add_zero]
    rfl
  · have hsum : start + (sizeofFatDirectoryItem : ℤ) * k + (sizeofFatDirectoryItem : ℕ) =
        start + sizeofFatDirectoryItem * (k + 1 : ℕ) := by
      push_cast
      ring
    change (⟨int32 (int32 _ + (sizeofFatDirectoryItem : ℕ))⟩ : DiskStream) = _
    rw [int32_int32_add, hsum]

/-- The loop is the same loop with its records left out. -/
theorem fat16TotalItemsLoop_eq_length (image : Sectors) (stream : DiskStream) (k i : ℕ)
    (hi : i + fuel < 2 ^ 31) :
    fat16TotalItemsLoop image fuel stream i =
      (fat16TotalItemsLoopMet image fuel stream k).map fun counted => ((i + counted.length : ℕ) : ℤ) := by
  induction fuel generalizing stream k i with
  | zero => rfl
  | succ fuel ih =>
    unfold fat16TotalItemsLoop fat16TotalItemsLoopMet
    generalize diskStreamRead image stream sizeofFatDirectoryItem = read
    rcases read with e | r
    · rfl
    simp only [bind, Except.bind]
    by_cases hend : r.1.headD 0 = 0x00
    · rw [if_pos hend, if_pos hend]
      rfl
    rw [if_neg hend, if_neg hend]
    by_cases hdel : r.1.headD 0 = 0xE5
    · rw [if_pos hdel, if_pos hdel]
      exact ih r.2 (k + 1) i (by omega)
    · have hnext : int32 ((i : ℤ) + 1) = (i + 1 : ℕ) := by
        rw [int32_of_range (by omega) (by omega), Nat.cast_add, Nat.cast_one]
      rw [if_neg hdel, if_neg hdel, hnext, ih r.2 (k + 1) (i + 1) (by omega)]
      generalize fat16TotalItemsLoopMet image fuel r.2 (k + 1) = rest
      rcases rest with e | rest
      · rfl
      · simp only [Except.map, pure, Except.pure]
        rw [List.length_cons, Nat.add_assoc, Nat.add_comm 1]

/-- **The records that are counted**: those that are not deleted, up to
the first that begins with 0x00. -/
structure CountsUpTo (image : Sectors) (start : ℤ) (k n : ℕ) (counted : List ℕ) : Prop where
  counted : counted = (List.range' k n).filter fun j => recordByte image start j ≠ 0xE5
  ends : recordByte image start (k + n) = 0x00
  before : ∀ j, k ≤ j → j < k + n → recordByte image start j ≠ 0x00

/-- The loop, from record `k` on. -/
theorem countsUpTo_of_loop
    (h : fat16TotalItemsLoopMet image fuel ⟨int32 (start + sizeofFatDirectoryItem * k)⟩ k =
      .ok counted) :
    ∃ n, CountsUpTo image start k n counted := by
  induction fuel generalizing k counted with
  | zero => cases h
  | succ fuel ih =>
    unfold fat16TotalItemsLoopMet at h
    cases hread : diskStreamRead image ⟨int32 (start + sizeofFatDirectoryItem * k)⟩
      sizeofFatDirectoryItem with
    | error e =>
      rw [hread] at h
      cases h
    | ok r =>
      obtain ⟨hhead, hnext⟩ := diskStreamRead_record hread
      rw [hread] at h
      simp only [bind, Except.bind, hhead, hnext] at h
      by_cases hend : recordByte image start k = 0x00
      · rw [if_pos hend] at h
        cases h
        exact ⟨0, rfl, hend, fun j hlo hhi => absurd hhi (by omega)⟩
      rw [if_neg hend] at h
      -- what follows record `k`, with `k` before it
      have hcons : ∀ {rest : List ℕ} {n : ℕ}, CountsUpTo image start (k + 1) n rest →
          CountsUpTo image start k (n + 1)
            (if recordByte image start k ≠ 0xE5 then k :: rest else rest) := by
        intro rest n hrest
        refine ⟨?_, ?_, fun j hlo hhi => ?_⟩
        · rw [List.range'_succ, List.filter_cons, hrest.counted]
          simp only [decide_eq_true_eq]
        · have := hrest.ends
          rwa [show k + 1 + n = k + (n + 1) by omega] at this
        · rcases eq_or_lt_of_le hlo with rfl | hlt
          · exact hend
          · exact hrest.before j hlt (by omega)
      by_cases hdel : recordByte image start k = 0xE5
      · rw [if_pos hdel] at h
        obtain ⟨n, hrest⟩ := ih h
        have := hcons hrest
        rw [if_neg (not_not.2 hdel)] at this
        exact ⟨n + 1, this⟩
      · rw [if_neg hdel] at h
        cases hmet : fat16TotalItemsLoopMet image fuel
          ⟨int32 (start + sizeofFatDirectoryItem * (k + 1 : ℕ))⟩ (k + 1) with
        | error e =>
          rw [hmet] at h
          cases h
        | ok rest =>
          rw [hmet] at h
          cases h
          obtain ⟨n, hrest⟩ := ih hmet
          have := hcons hrest
          rw [if_pos hdel] at this
          exact ⟨n + 1, this⟩

/-- No more records are counted than there is fuel for. -/
theorem length_lt_of_loop {stream : DiskStream}
    (h : fat16TotalItemsLoopMet image fuel stream k = .ok counted) : counted.length < fuel := by
  induction fuel generalizing stream k counted with
  | zero => cases h
  | succ fuel ih =>
    unfold fat16TotalItemsLoopMet at h
    cases hread : diskStreamRead image stream sizeofFatDirectoryItem with
    | error e =>
      rw [hread] at h
      cases h
    | ok r =>
      rw [hread] at h
      simp only [bind, Except.bind] at h
      by_cases hend : r.1.headD 0 = 0x00
      · rw [if_pos hend] at h
        cases h
        exact Nat.succ_pos fuel
      rw [if_neg hend] at h
      by_cases hdel : r.1.headD 0 = 0xE5
      · rw [if_pos hdel] at h
        exact Nat.lt_succ_of_lt (ih h)
      · rw [if_neg hdel] at h
        cases hmet : fat16TotalItemsLoopMet image fuel r.2 (k + 1) with
        | error e =>
          rw [hmet] at h
          cases h
        | ok rest =>
          rw [hmet] at h
          cases h
          exact Nat.succ_lt_succ (ih hmet)

/-- **What `fat16_get_total_items_for_directory` counts.** -/
theorem fat16GetTotalItemsForDirectory_cases {sector total : ℤ}
    (h : fat16GetTotalItemsForDirectory image sector = .ok total) :
    ∃ counted n, fat16GetTotalItemsForDirectoryMet image sector = .ok counted ∧
      total = counted.length ∧ CountsUpTo image (sector * sectorSize) 0 n counted := by
  have hfuel : 0 + fat16TotalItemsFuel < 2 ^ 31 := by decide
  have hlength := fat16TotalItemsLoop_eq_length image
    (diskStreamSeek ⟨0⟩ (int32 (sector * sectorSize))) 0 0 hfuel
  rw [Nat.cast_zero] at hlength
  unfold fat16GetTotalItemsForDirectory at h
  unfold fat16GetTotalItemsForDirectoryMet
  rw [hlength] at h
  cases hmet : fat16TotalItemsLoopMet image fat16TotalItemsFuel
    (diskStreamSeek ⟨0⟩ (int32 (sector * sectorSize))) 0 with
  | error e =>
    rw [hmet] at h
    cases h
  | ok counted =>
    rw [hmet] at h
    cases h
    have hmet' : fat16TotalItemsLoopMet image fat16TotalItemsFuel
        ⟨int32 (sector * sectorSize + sizeofFatDirectoryItem * (0 : ℕ))⟩ 0 = .ok counted := by
      rw [Nat.cast_zero, Int.mul_zero, Int.add_zero]
      exact hmet
    obtain ⟨n, hcounts⟩ := countsUpTo_of_loop hmet'
    exact ⟨counted, n, rfl, congrArg Nat.cast (Nat.zero_add _), hcounts⟩

/-- How many records are counted. -/
theorem fat16GetTotalItemsForDirectory_bounds {sector total : ℤ}
    (h : fat16GetTotalItemsForDirectory image sector = .ok total) : 0 ≤ total ∧ total < 2 ^ 27 := by
  obtain ⟨counted, n, hmet, rfl, -⟩ := fat16GetTotalItemsForDirectory_cases h
  have hlt : counted.length < 2 ^ 27 := length_lt_of_loop hmet
  omega

/-- The loop comes to the first record that begins with 0x00, when every
record up to it can be read. -/
theorem fat16TotalItemsLoopMet_of_ends (hpos : 0 ≤ start)
    (hlow : start + sizeofFatDirectoryItem * (k + n : ℕ) < 2 ^ 31)
    (hend : recordByte image start (k + n) = 0x00)
    (hbefore : ∀ j, k ≤ j → j < k + n → recordByte image start j ≠ 0x00) (hn : n < fuel) :
    ∃ counted,
      fat16TotalItemsLoopMet image fuel ⟨int32 (start + sizeofFatDirectoryItem * k)⟩ k =
        .ok counted := by
  induction fuel generalizing k n with
  | zero => exact absurd hn (Nat.not_lt_zero n)
  | succ fuel ih =>
    have hlow' : start + 32 * ((k + n : ℕ) : ℤ) < 2 ^ 31 := hlow
    have hstart : int32 (start + 32 * k) = start + 32 * k :=
      int32_of_range (by omega) (by omega)
    have hstream : StreamPosition (int32 (start + sizeofFatDirectoryItem * k)) :=
      ⟨int32_lo _, int32_hi _, Or.inl (show 0 ≤ int32 (start + 32 * k) by omega)⟩
    obtain ⟨r, hread⟩ : ∃ r, diskStreamRead image
        ⟨int32 (start + sizeofFatDirectoryItem * k)⟩ sizeofFatDirectoryItem = .ok r :=
      ⟨_, diskStreamRead_eq hstream _⟩
    obtain ⟨hhead, hnext⟩ := diskStreamRead_record hread
    unfold fat16TotalItemsLoopMet
    rw [hread]
    simp only [bind, Except.bind]
    rw [hhead, hnext]
    by_cases hzero : recordByte image start k = 0x00
    · rw [if_pos hzero]
      exact ⟨[], rfl⟩
    obtain ⟨m, rfl⟩ : ∃ m, n = m + 1 := by
      rcases n with - | m
      · exact absurd hend hzero
      · exact ⟨m, rfl⟩
    have hsum : k + 1 + m = k + (m + 1) := by omega
    obtain ⟨rest, hrest⟩ := @ih (k + 1) m (by rwa [hsum]) (by rwa [hsum])
      (fun j hlo hhi => hbefore j (by omega) (by omega)) (by omega)
    rw [if_neg hzero, hrest]
    by_cases hdel : recordByte image start k = 0xE5
    · rw [if_pos hdel]
      exact ⟨rest, rfl⟩
    · rw [if_neg hdel]
      exact ⟨k :: rest, rfl⟩

/-- **A directory below 2 GiB that ends** is counted. -/
theorem fat16GetTotalItemsForDirectory_of_ends {sector : ℤ} (hpos : 0 ≤ sector)
    (hlow : sector * sectorSize + sizeofFatDirectoryItem * n < 2 ^ 31)
    (hend : recordByte image (sector * sectorSize) n = 0x00)
    (hbefore : ∀ j < n, recordByte image (sector * sectorSize) j ≠ 0x00) :
    ∃ total, fat16GetTotalItemsForDirectory image sector = .ok total := by
  have hfuel : 0 + fat16TotalItemsFuel < 2 ^ 31 := by decide
  have hsum : 0 + n = n := Nat.zero_add n
  have hlow' : sector * sectorSize + 32 * n < 2 ^ 31 := hlow
  have hstart : 0 ≤ sector * sectorSize := Int.mul_nonneg hpos (by decide)
  have hlength := fat16TotalItemsLoop_eq_length image
    (diskStreamSeek ⟨0⟩ (int32 (sector * sectorSize))) 0 0 hfuel
  obtain ⟨counted, hmet⟩ := @fat16TotalItemsLoopMet_of_ends image (sector * sectorSize)
    fat16TotalItemsFuel 0 n (by omega) (by rwa [hsum]) (by rwa [hsum])
    (fun j _ hhi => hbefore j (by omega)) (by unfold fat16TotalItemsFuel; omega)
  rw [Nat.cast_zero, Int.mul_zero, Int.add_zero] at hmet
  rw [Nat.cast_zero] at hlength
  unfold fat16GetTotalItemsForDirectory
  unfold diskStreamSeek at hlength ⊢
  rw [hlength, hmet]
  exact ⟨_, rfl⟩

end OwnKernel
