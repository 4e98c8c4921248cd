import OwnKernel.Fat16.Read

/-!
# Reads from inside a cluster

`fat16_read_internal` cuts a request into pieces of a cluster's size from
the request's start on, also where that start is inside a cluster. Such a
piece is read to its end from the one cluster it begins in, and so runs
into what is behind that cluster on the disk. `fat16ReadInternal_ok_iff`
says which bytes a read delivers, `splitRead_iff` when two reads deliver
what one does.
-/

namespace OwnKernel

variable {image : Sectors} {fat : FatPrivate} {header : FatHeader} {first i j k n : ℕ} {o : ℤ}
variable {bytes : List Byte}

/-! ## The pieces of a read -/

/-- Where a piece that begins at `o` is read from: as far inside the
cluster the links lead to as `o` is inside its own. -/
def piecePosition (image : Sectors) (header : FatHeader) (first : ℕ) (o : ℤ) : ℤ :=
  int32 (header.clusterPosition (productCluster image header first
    (o.tdiv (sizeOfClusterBytes header)).toNat) + o.tmod (sizeOfClusterBytes header))

/-- **A piece that begins at `o` can be read**: no link on the way to its
cluster stops the driver, and its position is one to read from. -/
structure PieceReadable (image : Sectors) (header : FatHeader) (first : ℕ) (o : ℤ) : Prop where
  links : NoMarker image header first (o.tdiv (sizeOfClusterBytes header)).toNat
  position : StreamPosition (piecePosition image header first o)

/-- Where byte `i` of a read from `o` on is taken from: as far behind the
position of its piece as it is inside the piece. -/
def readPosition (image : Sectors) (header : FatHeader) (first : ℕ) (o : ℤ) (i : ℕ) : ℤ :=
  int32 (piecePosition image header first
    (int32 (o + (i / sizeOfClusterBytes header * sizeOfClusterBytes header : ℕ))) +
      (i % sizeOfClusterBytes header : ℕ))

/-- Byte `i` of a read from `o` on. -/
def requestByte (image : Sectors) (header : FatHeader) (first : ℕ) (o : ℤ) (i : ℕ) : Byte :=
  byteAt image (readPosition image header first o i)

/-- Bytes of the first piece. -/
theorem readPosition_of_lt (ho : int32 o = o) (hi : i < sizeOfClusterBytes header) :
    readPosition image header first o i = int32 (piecePosition image header first o + i) := by
  unfold readPosition
  rw [Nat.div_eq_of_lt hi, Nat.mod_eq_of_lt hi, Nat.zero_mul, Nat.cast_zero, Int.add_zero, ho]

/-- **A read from some pieces on** takes the bytes the whole read takes
there. -/
theorem readPosition_add (hsize : 0 < sizeOfClusterBytes header) :
    readPosition image header first o (k * sizeOfClusterBytes header + i) =
      readPosition image header first (int32 (o + (k * sizeOfClusterBytes header : ℕ))) i := by
  unfold readPosition
  rw [Nat.mul_comm k, Nat.mul_add_div hsize, Nat.mul_add_mod, int32_int32_add, Int.add_assoc,
    ← Nat.cast_add, ← Nat.mul_comm k, Nat.add_mul]

/-- The bytes of the first piece. -/
theorem bytesAt_piecePosition (ho : int32 o = o) (hn : n ≤ sizeOfClusterBytes header) :
    bytesAt image (piecePosition image header first o) n =
      tabulate (requestByte image header first o) n := by
  refine tabulate_inj.2 fun i hi => ?_
  unfold requestByte
  rw [readPosition_of_lt ho (by omega)]

/-- The first piece, then what is read from the second on. -/
theorem tabulate_requestByte_succ (hsize : 0 < sizeOfClusterBytes header) :
    tabulate (requestByte image header first o) (sizeOfClusterBytes header + n) =
      tabulate (requestByte image header first o) (sizeOfClusterBytes header) ++
        tabulate (requestByte image header first (int32 (o + sizeOfClusterBytes header))) n := by
  rw [tabulate_add]
  congr 1
  refine tabulate_inj.2 fun i _ => ?_
  have hnext : readPosition image header first o (1 * sizeOfClusterBytes header + i) = _ :=
    readPosition_add hsize
  rw [Nat.one_mul] at hnext
  unfold requestByte
  rw [hnext]

/-- The first piece of a read, then the rest from the piece behind. -/
theorem PieceReadable.fat16ReadInternal_eq (hp : PieceReadable image fat.header first o)
    (hdata : fat.rootDirectory.endingSectorPos = fat.header.dataSector)
    (hsize : 0 < sizeOfClusterBytes fat.header) (h : first < 2 ^ 16) (ho : int32 o = o) (n : ℕ) :
    fat16ReadInternal image fat first o n =
      if sizeOfClusterBytes fat.header < n then do
        let rest ← fat16ReadInternal image fat first
          (int32 (o + sizeOfClusterBytes fat.header)) (n - sizeOfClusterBytes fat.header : ℕ)
        pure (rest.1, tabulate (requestByte image fat.header first o) (sizeOfClusterBytes fat.header) ++
          rest.2)
      else .ok (allOk, tabulate (requestByte image fat.header first o) n) := by
  rw [fat16ReadInternal_step hdata hsize (productCluster_lt h)
    (fat16GetClusterForOffset_of_noMarker hsize h hp.links) hp.position]
  by_cases hlt : sizeOfClusterBytes fat.header < n
  · rw [if_pos hlt, if_pos hlt, ← bytesAt_piecePosition ho le_rfl]
    rfl
  · rw [if_neg hlt, if_neg hlt, ← bytesAt_piecePosition ho (by omega)]
    rfl

/-- **A read whose pieces can be read** delivers their bytes. -/
theorem fat16ReadInternal_of_readable
    (hdata : fat.rootDirectory.endingSectorPos = fat.header.dataSector)
    (hsize : 0 < sizeOfClusterBytes fat.header) (h : first < 2 ^ 16) (n : ℕ) :
    ∀ o : ℤ, int32 o = o → 0 < n →
      (∀ j, j * sizeOfClusterBytes fat.header < n → PieceReadable image fat.header first
        (int32 (o + (j * sizeOfClusterBytes fat.header : ℕ)))) →
      fat16ReadInternal image fat first o n =
        .ok (allOk, tabulate (requestByte image fat.header first o) n) := by
  induction n using Nat.strong_induction_on with
  | _ n ih =>
    intro o ho hpos hall
    have hhead := hall 0 (by omega)
    rw [Nat.zero_mul, Nat.cast_zero, Int.add_zero, ho] at hhead
    rw [hhead.fat16ReadInternal_eq hdata hsize h ho]
    by_cases hlt : sizeOfClusterBytes fat.header < n
    · obtain ⟨m, rfl⟩ := Nat.exists_eq_add_of_le (Nat.le_of_lt hlt)
      have hrest : ∀ j, j * sizeOfClusterBytes fat.header < m → PieceReadable image fat.header first
          (int32 (int32 (o + sizeOfClusterBytes fat.header) +
            (j * sizeOfClusterBytes fat.header : ℕ))) := by
        intro j hj
        have hnext := hall (j + 1) (by rw [Nat.add_one_mul]; omega)
        rwa [Nat.add_one_mul, Nat.add_comm, Nat.cast_add, ← Int.add_assoc, ← int32_int32_add]
          at hnext
      rw [if_pos hlt, Nat.add_sub_cancel_left,
        ih m (by omega) _ (int32_int32 _) (by omega) hrest]
      simp only [bind, Except.bind, pure, Except.pure]
      rw [← tabulate_requestByte_succ hsize]
    · rw [if_neg hlt]

/-- A read that succeeds has read its first piece. -/
theorem pieceReadable_of_fat16ReadInternal
    (hdata : fat.rootDirectory.endingSectorPos = fat.header.dataSector)
    (hsize : 0 < sizeOfClusterBytes fat.header) (h : first < 2 ^ 16) (hn : 0 < n)
    (hread : fat16ReadInternal image fat first o n = .ok (allOk, bytes)) :
    PieceReadable image fat.header first o := by
  rw [fat16ReadInternal] at hread
  simp only [diskStreamSeek] at hread
  rw [if_neg (by omega)] at hread
  by_cases hlinks : NoMarker image fat.header first (o.tdiv (sizeOfClusterBytes fat.header)).toNat
  · refine ⟨hlinks, ?_⟩
    rw [fat16GetClusterForOffset_of_noMarker hsize h hlinks] at hread
    simp only [bind, Except.bind] at hread
    rw [if_neg (by omega), fat16ClusterToSector_mul hdata (productCluster_lt h)] at hread
    obtain ⟨m, hm, hm0⟩ : ∃ m : ℕ, (if (n : ℤ) > sizeOfClusterBytes fat.header then
        (sizeOfClusterBytes fat.header : ℤ) else n) = m ∧ 0 < m := by
      by_cases hlt : (n : ℤ) > sizeOfClusterBytes fat.header
      · exact ⟨_, if_pos hlt, hsize⟩
      · exact ⟨_, if_neg hlt, hn⟩
    rw [hm] at hread
    cases hstream : diskStreamRead image ⟨piecePosition image fat.header first o⟩ m with
    | error e =>
      unfold piecePosition at hstream
      rw [hstream] at hread
      cases hread
    | ok r => exact .of_diskStreamRead hm0 (int32_lo _) (int32_hi _) hstream
  · rw [fat16GetClusterForOffset_of_not_noMarker hsize h hlinks] at hread
    simp only [bind, Except.bind] at hread
    rw [if_pos (by decide)] at hread
    cases hread

/-- **A read that succeeds has read all its pieces.** -/
theorem pieceReadable_of_fat16ReadInternal_mul
    (hdata : fat.rootDirectory.endingSectorPos = fat.header.dataSector)
    (hsize : 0 < sizeOfClusterBytes fat.header) (h : first < 2 ^ 16) (j : ℕ) :
    ∀ (n : ℕ) (o : ℤ) (bytes : List Byte), int32 o = o →
      fat16ReadInternal image fat first o n = .ok (allOk, bytes) →
      j * sizeOfClusterBytes fat.header < n →
      PieceReadable image fat.header first (int32 (o + (j * sizeOfClusterBytes fat.header : ℕ))) := by
  induction j with
  | zero =>
    intro n o bytes ho hread hn
    rw [Nat.zero_mul, Nat.cast_zero, Int.add_zero, ho]
    exact pieceReadable_of_fat16ReadInternal hdata hsize h (by omega) hread
  | succ j ih =>
    intro n o bytes ho hread hn
    rw [Nat.add_one_mul] at hn
    have hhead := pieceReadable_of_fat16ReadInternal hdata hsize h (by omega) hread
    rw [hhead.fat16ReadInternal_eq hdata hsize h ho, if_pos (by omega)] at hread
    cases hrest : fat16ReadInternal image fat first
        (int32 (o + sizeOfClusterBytes fat.header)) (n - sizeOfClusterBytes fat.header : ℕ) with
    | error e =>
      rw [hrest] at hread
      cases hread
    | ok r =>
      rw [hrest] at hread
      obtain ⟨res, rest⟩ := r
      cases hread
      have hnext := ih _ _ _ (int32_int32 _) hrest (by omega)
      rwa [int32_int32_add, Int.add_assoc, ← Nat.cast_add, Nat.add_comm, ← Nat.add_one_mul] at hnext

/-- **When a read succeeds**, and what it delivers. -/
theorem fat16ReadInternal_ok_iff
    (hdata : fat.rootDirectory.endingSectorPos = fat.header.dataSector)
    (hsize : 0 < sizeOfClusterBytes fat.header) (h : first < 2 ^ 16) (hn : 0 < n)
    (ho : int32 o = o) :
    fat16ReadInternal image fat first o n = .ok (allOk, bytes) ↔
      (∀ j, j * sizeOfClusterBytes fat.header < n → PieceReadable image fat.header first
        (int32 (o + (j * sizeOfClusterBytes fat.header : ℕ)))) ∧
        bytes = tabulate (requestByte image fat.header first o) n := by
  constructor
  · intro hread
    have hall : ∀ j, j * sizeOfClusterBytes fat.header < n → _ := fun j hj =>
      pieceReadable_of_fat16ReadInternal_mul hdata hsize h j n o bytes ho hread hj
    refine ⟨hall, ?_⟩
    rw [fat16ReadInternal_of_readable hdata hsize h n o ho hn hall] at hread
    cases hread
    rfl
  · rintro ⟨hall, rfl⟩
    exact fat16ReadInternal_of_readable hdata hsize h n o ho hn hall

/-- **A request of `total` bytes from `o` on can be read**: the driver
finds the cluster it begins in, and can read its pieces. A request of no
bytes, or fewer, has none. -/
structure RequestReadable (image : Sectors) (header : FatHeader) (first : ℕ) (o total : ℤ) :
    Prop where
  links : NoMarker image header first (o.tdiv (sizeOfClusterBytes header)).toNat
  pieces : ∀ j : ℕ, (j * sizeOfClusterBytes header : ℕ) < total →
    PieceReadable image header first (int32 (o + (j * sizeOfClusterBytes header : ℕ)))

/-- **When a request succeeds.** -/
theorem exists_fat16ReadInternal_iff
    (hdata : fat.rootDirectory.endingSectorPos = fat.header.dataSector)
    (hsize : 0 < sizeOfClusterBytes fat.header) (h : first < 2 ^ 16) (ho : int32 o = o) (total : ℤ) :
    (∃ bytes, fat16ReadInternal image fat first o total = .ok (allOk, bytes)) ↔
      RequestReadable image fat.header first o total := by
  by_cases hpos : 0 < total
  · obtain ⟨n, rfl⟩ := Int.eq_ofNat_of_zero_le hpos.le
    constructor
    · rintro ⟨bytes, hread⟩
      obtain ⟨hall, -⟩ := (fat16ReadInternal_ok_iff hdata hsize h (by omega) ho).1 hread
      exact ⟨(pieceReadable_of_fat16ReadInternal hdata hsize h (by omega) hread).links,
        fun j hj => hall j (Int.ofNat_lt.1 hj)⟩
    · intro hall
      exact ⟨_, fat16ReadInternal_of_readable hdata hsize h n o ho (by omega)
        fun j hj => hall.pieces j (Int.ofNat_lt.2 hj)⟩
  · constructor
    · rintro ⟨bytes, hread⟩
      refine ⟨?_, fun j hj => absurd hj (by omega)⟩
      by_contra hlinks
      rw [fat16ReadInternal] at hread
      simp only at hread
      rw [if_neg (by omega), fat16GetClusterForOffset_of_not_noMarker hsize h hlinks] at hread
      cases hread
    · exact fun hall => ⟨[], fat16ReadInternal_of_nonpos hsize h hall.links (by omega)⟩

/-- What a read returns is an error or `ALL_OK`. -/
theorem fat16ReadInternal_result {c total : ℤ} {r : ℤ × List Byte}
    (hread : fat16ReadInternal image fat c o total = .ok r) : r.1 = allOk ∨ r.1 < 0 := by
  obtain ⟨n, hn⟩ : ∃ n, total.toNat = n := ⟨_, rfl⟩
  induction n using Nat.strong_induction_on generalizing o total r with
  | _ n ih =>
    rw [fat16ReadInternal] at hread
    simp only [bind, Except.bind] at hread
    split at hread
    · cases hread
    cases hcluster : fat16GetClusterForOffset image fat c o with
    | error e =>
      rw [hcluster] at hread
      cases hread
    | ok clusterToUse =>
      rw [hcluster] at hread
      simp only at hread
      by_cases hneg : clusterToUse < 0
      · rw [if_pos hneg] at hread
        cases hread
        exact Or.inr hneg
      rw [if_neg hneg] at hread
      -- the rest is shorter
      obtain ⟨m, hm⟩ : ∃ m, (if total > sizeOfClusterBytes fat.header then
        (sizeOfClusterBytes fat.header : ℤ) else total) = m := ⟨_, rfl⟩
      have hless : total - m > 0 → (total - m).toNat < n := by
        split at hm <;> omega
      rw [hm] at hread
      cases hstream : diskStreamRead image (diskStreamSeek ⟨0⟩ (int32
          (fat16ClusterToSector fat clusterToUse * sectorSize +
            o.tmod (sizeOfClusterBytes fat.header)))) m with
      | error e =>
        rw [hstream] at hread
        cases hread
      | ok piece =>
        rw [hstream] at hread
        simp only at hread
        by_cases hmore : total - m > 0
        · rw [if_pos hmore] at hread
          cases hrest : fat16ReadInternal image fat c (int32 (o + m)) (total - m) with
          | error e =>
            rw [hrest] at hread
            cases hread
          | ok rest =>
            rw [hrest] at hread
            cases hread
            exact ih _ (hless hmore) (r := rest) hrest rfl
        · rw [if_neg hmore] at hread
          cases hread
          exact Or.inl rfl

/-! ## Two reads for one -/

/-- **The two reads deliver what the one does**: both succeed, and their
bytes one after the other are those of the single read. -/
def SplitRead (image : Sectors) (fat : FatPrivate) (first offset a b : ℕ) : Prop :=
  ∃ x y, fat16ReadInternal image fat first offset a = .ok (allOk, x) ∧
    fat16ReadInternal image fat first (offset + a : ℕ) b = .ok (allOk, y) ∧
    fat16ReadInternal image fat first offset (a + b : ℕ) = .ok (allOk, x ++ y)

/-- A volume whose clusters are empty is not read. -/
theorem sizeOfClusterBytes_pos_of_read {total : ℤ} {r : ℤ × List Byte}
    (hread : fat16ReadInternal image fat first o total = .ok r) :
    0 < sizeOfClusterBytes fat.header := by
  by_contra hzero
  rw [fat16ReadInternal, if_pos (Nat.eq_zero_of_not_pos hzero)] at hread
  cases hread

/-- The first of two reads succeeds where the single one does. -/
theorem fat16ReadInternal_first (m : Mounted image fat) (h : first < 2 ^ 16) {offset a b : ℕ}
    (ha : 0 < a) (hoffset : offset < 2 ^ 31)
    (hread : fat16ReadInternal image fat first offset (a + b : ℕ) = .ok (allOk, bytes)) :
    fat16ReadInternal image fat first offset a =
        .ok (allOk, tabulate (requestByte image fat.header first offset) a) ∧
      bytes = tabulate (requestByte image fat.header first offset) (a + b) := by
  have hsize := sizeOfClusterBytes_pos_of_read hread
  have hint : int32 (offset : ℤ) = offset := int32_of_range (by omega) (by omega)
  obtain ⟨hall, hbytes⟩ := (fat16ReadInternal_ok_iff m.dataSector hsize h (by omega) hint).1 hread
  exact ⟨fat16ReadInternal_of_readable m.dataSector hsize h a offset hint ha
    fun j hj => hall j (by omega), hbytes⟩

/-- Two reads, where the pieces of the second can be read and hold its
bytes where the single read finds them. -/
theorem splitRead_of_pieces (m : Mounted image fat) (h : first < 2 ^ 16) {offset a b : ℕ}
    (ha : 0 < a) (hb : 0 < b) (hend : offset + a < 2 ^ 31)
    (hread : fat16ReadInternal image fat first offset (a + b : ℕ) = .ok (allOk, bytes))
    (hall : ∀ j, j * sizeOfClusterBytes fat.header < b → PieceReadable image fat.header first
      (int32 ((offset + a : ℕ) + (j * sizeOfClusterBytes fat.header : ℕ))))
    (hsame : ∀ i < b, byteAt image (readPosition image fat.header first offset (a + i)) =
      byteAt image (readPosition image fat.header first (offset + a : ℕ) i)) :
    SplitRead image fat first offset a b := by
  have hsize := sizeOfClusterBytes_pos_of_read hread
  have hint : int32 ((offset + a : ℕ) : ℤ) = (offset + a : ℕ) :=
    int32_of_range (by omega) (by omega)
  obtain ⟨hfirst, rfl⟩ := fat16ReadInternal_first m h ha (by omega) hread
  refine ⟨_, _, hfirst, fat16ReadInternal_of_readable m.dataSector hsize h b _ hint hb hall, ?_⟩
  have hbytes : tabulate (fun i => requestByte image fat.header first offset (a + i)) b =
      tabulate (requestByte image fat.header first (offset + a : ℕ)) b := tabulate_inj.2 hsame
  rw [hread, tabulate_add, hbytes]

/-- **When a read can be split.** Where a single read succeeds, reading
its first `a` bytes and then the other `b` delivers the same exactly when
the second read's pieces can be read, and hold its bytes where the single
read finds them. -/
theorem splitRead_iff (m : Mounted image fat) (h : first < 2 ^ 16) {offset a b : ℕ} (ha : 0 < a)
    (hb : 0 < b) (hend : offset + a < 2 ^ 31)
    (hread : fat16ReadInternal image fat first offset (a + b : ℕ) = .ok (allOk, bytes)) :
    SplitRead image fat first offset a b ↔
      (∀ j, j * sizeOfClusterBytes fat.header < b → PieceReadable image fat.header first
        (int32 ((offset + a : ℕ) + (j * sizeOfClusterBytes fat.header : ℕ)))) ∧
        ∀ i < b, byteAt image (readPosition image fat.header first offset (a + i)) =
          byteAt image (readPosition image fat.header first (offset + a : ℕ) i) := by
  constructor
  · rintro ⟨x, y, hx, hy, hxy⟩
    have hsize := sizeOfClusterBytes_pos_of_read hread
    have hint : int32 ((offset + a : ℕ) : ℤ) = (offset + a : ℕ) :=
      int32_of_range (by omega) (by omega)
    obtain ⟨hfirst, rfl⟩ := fat16ReadInternal_first m h ha (by omega) hread
    rw [hfirst] at hx
    cases hx
    obtain ⟨hall, rfl⟩ := (fat16ReadInternal_ok_iff m.dataSector hsize h hb hint).1 hy
    rw [hread] at hxy
    have hbytes := (Prod.mk.inj (Except.ok.inj hxy)).2
    rw [tabulate_add, List.append_cancel_left_eq, tabulate_inj] at hbytes
    exact ⟨hall, hbytes⟩
  · rintro ⟨hall, hsame⟩
    exact splitRead_of_pieces m h ha hb hend hread hall hsame

/-- **A read that is split behind whole clusters' bytes** delivers the
same. -/
theorem splitRead_of_mul (m : Mounted image fat) (h : first < 2 ^ 16) {offset b : ℕ}
    (ha : 0 < k * sizeOfClusterBytes fat.header) (hb : 0 < b)
    (hend : offset + k * sizeOfClusterBytes fat.header < 2 ^ 31)
    (hread : fat16ReadInternal image fat first offset (k * sizeOfClusterBytes fat.header + b : ℕ) =
      .ok (allOk, bytes)) :
    SplitRead image fat first offset (k * sizeOfClusterBytes fat.header) b := by
  have hsize := sizeOfClusterBytes_pos_of_read hread
  refine splitRead_of_pieces m h ha hb hend hread (fun j hj => ?_) fun i _ => ?_
  · have hpiece := pieceReadable_of_fat16ReadInternal_mul m.dataSector hsize h (k + j) _ _ _
      (int32_of_range (by omega) (by omega)) hread (by rw [Nat.add_mul]; omega)
    rwa [Nat.add_mul, Nat.cast_add, ← Int.add_assoc, ← Nat.cast_add] at hpiece
  · rw [readPosition_add hsize, ← Nat.cast_add, int32_of_range (by omega) (by omega)]

/-! ### A read over the end of a cluster -/

/-- A piece that begins inside the first cluster. -/
theorem PieceReadable.of_lt (hlt : i < sizeOfClusterBytes header)
    (hlo : 0 ≤ header.clusterPosition first)
    (hhi : header.clusterPosition first + i < 2 ^ 31) :
    PieceReadable image header first i := by
  have hdiv : ((i : ℤ).tdiv (sizeOfClusterBytes header)).toNat = 0 := by
    rw [toNat_tdiv, Nat.div_eq_of_lt hlt]
  have hmod : (i : ℤ).tmod (sizeOfClusterBytes header) = i :=
    Int.tmod_eq_of_lt (by omega) (by omega)
  constructor
  · rw [hdiv]
    exact noMarker_zero
  · have hposition : piecePosition image header first i =
        header.clusterPosition first + i := by
      unfold piecePosition
      rw [hdiv, hmod]
      exact int32_of_range (by change _ ≤ header.clusterPosition first + _; omega) hhi
    rw [hposition]
    exact ⟨by omega, hhi, Or.inl (by omega)⟩

/-- The pieces of a read of both clusters, where the product leads from
one to the other. -/
theorem pieceReadable_twoClusterVolume (hj : j * sizeOfClusterBytes twoClusterFat.header < 1024) :
    PieceReadable (twoClusterVolume 3) twoClusterFat.header 2
      (int32 ((0 : ℕ) + (j * sizeOfClusterBytes twoClusterFat.header : ℕ))) := by
  rw [show sizeOfClusterBytes twoClusterFat.header = 512 from rfl] at hj ⊢
  obtain rfl | rfl : j = 0 ∨ j = 1 := by omega
  · exact .of_lt (i := 0) (by decide) (by decide) (by decide)
  · exact ⟨noMarker_twoClusterVolume (k := 1) (by decide), by decide, by decide, by decide⟩

/-- A read of two clusters, split between them. -/
theorem splitRead_two_clusters : SplitRead (twoClusterVolume 3) twoClusterFat 2 0 512 512 := by
  have hread := fat16ReadInternal_of_readable (mounted_twoClusterVolume 3).dataSector (by decide)
    (by decide) 1024 0 rfl (by decide) fun j hj => pieceReadable_twoClusterVolume hj
  refine (splitRead_iff (mounted_twoClusterVolume 3) (by decide) (by decide) (by decide) (by decide)
    hread).2 ⟨fun j hj => ?_, fun i _ => ?_⟩
  · rw [show sizeOfClusterBytes twoClusterFat.header = 512 from rfl] at hj ⊢
    obtain rfl : j = 0 := by omega
    exact pieceReadable_twoClusterVolume (j := 1) (by decide)
  · have hnext : readPosition (twoClusterVolume 3) twoClusterFat.header 2 (0 : ℕ) (1 * 512 + i) =
        readPosition (twoClusterVolume 3) twoClusterFat.header 2 (int32 ((0 : ℕ) + (1 * 512 : ℕ))) i :=
      @readPosition_add _ twoClusterFat.header _ _ 1 _ (by decide)
    rw [hnext]
    rfl

/-- **A read that cannot be split.** A read of a cluster's size from the
middle of one runs into what is behind it on the disk. The second of two
reads looks for the next cluster of the file instead, and there is none. -/
theorem not_splitRead :
    ¬ ∀ (image : Sectors) (fat : FatPrivate) (first offset a b : ℕ) (bytes : List Byte),
      Mounted image fat → first < 2 ^ 16 → 0 < a → 0 < b → a + b < 2 ^ 31 → offset + a < 2 ^ 31 →
        fat16ReadInternal image fat first offset (a + b : ℕ) = .ok (allOk, bytes) →
        SplitRead image fat first offset a b := by
  intro h
  have hsize : 0 < sizeOfClusterBytes twoClusterFat.header := by decide
  have hread : fat16ReadInternal (twoClusterVolume 0) twoClusterFat (2 : ℕ) (256 : ℕ)
      (256 + 256 : ℕ) = .ok (allOk, _) :=
    fat16ReadInternal_of_readable (mounted_twoClusterVolume 0).dataSector hsize (by decide) 512 256
      rfl (by decide) fun j hj => by
        rw [show sizeOfClusterBytes twoClusterFat.header = 512 from rfl] at hj ⊢
        obtain rfl : j = 0 := by omega
        exact .of_lt (i := 256) (by decide) (by decide) (by decide)
  obtain ⟨x, y, -, hy, -⟩ := h _ _ _ _ _ _ _ (mounted_twoClusterVolume 0) (by decide) (by decide)
    (by decide) (by decide) (by decide) hread
  exact not_noMarker_twoClusterVolume (pieceReadable_of_fat16ReadInternal
    (mounted_twoClusterVolume 0).dataSector hsize (by decide) (by decide) hy).links

end OwnKernel
