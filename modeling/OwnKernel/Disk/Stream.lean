import OwnKernel.Model.Disk
import OwnKernel.Lib.Pieces

/-!
# What a stream reads

A stream at byte `p` reads the disk's bytes from `p` on, across sectors:
`diskStreamRead_eq`. Positions are `int`s and wrap; the reads are right
also past the wrap, as long as no read starts inside a sector at a
negative position.
-/

namespace OwnKernel

variable {image : Sectors} {p total : ℤ} {a b n : ℕ}

/-- The byte at position `p` of the disk. -/
def byteAt (image : Sectors) (p : ℤ) : Byte := image (p / 512) (p % 512).toNat

/-- The `n` bytes a stream finds from position `p` on. -/
def bytesAt (image : Sectors) (p : ℤ) (n : ℕ) : List Byte :=
  tabulate (fun i => byteAt image (int32 (p + i))) n

/-- A position a stream can be read from: an `int` that is not inside a
sector when it is negative. -/
structure StreamPosition (p : ℤ) : Prop where
  lo : -2 ^ 31 ≤ p
  hi : p < 2 ^ 31
  aligned : 0 ≤ p ∨ 512 ∣ p

/-! ## Wrapping -/

theorem int32_lo (x : ℤ) : -2 ^ 31 ≤ int32 x := by unfold int32; omega

theorem int32_hi (x : ℤ) : int32 x < 2 ^ 31 := by unfold int32; omega

/-- Wrapping twice is wrapping once. -/
theorem int32_int32 (x : ℤ) : int32 (int32 x) = int32 x := by
  unfold int32; omega

/-- Sums wrap as a whole. -/
theorem int32_int32_add (x y : ℤ) : int32 (int32 x + y) = int32 (x + y) := by
  unfold int32; omega

/-- Wrapping keeps sector boundaries. -/
theorem dvd_int32 {x : ℤ} (h : 512 ∣ x) : 512 ∣ int32 x := by
  unfold int32; omega

/-- A sector boundary is a position to read from. -/
theorem streamPosition_int32 {x : ℤ} (h : 512 ∣ x) : StreamPosition (int32 x) :=
  ⟨int32_lo x, int32_hi x, Or.inr (dvd_int32 h)⟩

/-! ## Bytes -/

@[simp] theorem length_bytesAt : (bytesAt image p n).length = n := length_tabulate

/-- Bytes are read one stretch after the other. -/
theorem bytesAt_add : bytesAt image p (a + b) =
    bytesAt image p a ++ bytesAt image (int32 (p + a)) b := by
  unfold bytesAt
  rw [tabulate_add]
  congr 1
  refine tabulate_inj.2 fun i _ => ?_
  rw [int32_int32_add]
  congr 2
  push_cast
  ring

/-- Positions below 2^31 do not wrap. -/
theorem bytesAt_of_range (h0 : 0 ≤ p) (hend : p + n < 2 ^ 31) :
    bytesAt image p n = tabulate (fun i => byteAt image (p + i)) n := by
  refine tabulate_inj.2 fun i hi => ?_
  rw [int32_of_range (by omega) (by omega)]

namespace StreamPosition

/-- The sector of a position, and the offset in it, as `/` and `%`
compute them. -/
theorem tdiv_tmod (h : StreamPosition p) : p.tdiv 512 = p / 512 ∧ p.tmod 512 = p % 512 := by
  have hdiv : p.tdiv 512 = p / 512 := by
    rcases h.aligned with h0 | hd
    · exact Int.tdiv_eq_ediv_of_nonneg h0
    · exact Int.tdiv_eq_ediv_of_dvd hd
  refine ⟨hdiv, ?_⟩
  rw [Int.tmod_def, hdiv]
  omega

/-- Bytes of the sector a position is in. -/
theorem readBuffer_eq (h : StreamPosition p) (hn : p % 512 + n ≤ 512) :
    readBuffer (image (p / 512)) (p % 512) n = .ok (bytesAt image p n) := by
  unfold readBuffer
  rcases Nat.eq_zero_or_pos n with rfl | hpos
  · rfl
  rw [if_neg (by omega), if_neg (by simp only [sectorSize]; omega)]
  congr 1
  unfold bytesAt tabulate
  rw [Int.toNat_natCast]
  refine List.map_congr_left fun i hi => ?_
  rw [List.mem_range] at hi
  have := h.lo
  have := h.hi
  rw [int32_of_range (by omega) (by omega)]
  unfold byteAt
  have hsector : (p + i) / 512 = p / 512 := by omega
  have hoffset : (p % 512).toNat + i = ((p + i) % 512).toNat := by omega
  rw [hsector, hoffset]

end StreamPosition

/-- **What `disk_stream_read` delivers**: the bytes from the stream's
position on, and the stream is moved behind them. -/
theorem diskStreamRead_eq (h : StreamPosition p) (n : ℕ) :
    diskStreamRead image ⟨p⟩ n = .ok (bytesAt image p n, ⟨int32 (p + n)⟩) := by
  induction n using Nat.strong_induction_on generalizing p with
  | _ n ih =>
    obtain ⟨hdiv, hmod⟩ := h.tdiv_tmod
    rw [diskStreamRead]
    simp only [sectorSize, Nat.cast_ofNat, hdiv, hmod]
    by_cases hover : 512 < p % 512 + (n : ℤ)
    · -- the rest of this sector, then on from the next one's start
      rw [if_pos hover]
      obtain ⟨k, hk⟩ : ∃ k : ℕ, p % 512 + k = 512 := ⟨(512 - p % 512).toNat, by omega⟩
      obtain ⟨m, rfl⟩ : ∃ m, n = k + m := ⟨n - k, by omega⟩
      have hread : ((k + m : ℕ) : ℤ) - (p % 512 + ((k + m : ℕ) : ℤ) - 512) = k := by omega
      have hrest : ((k + m : ℕ) : ℤ) - k = m := by omega
      have hnext : StreamPosition (int32 (p + k)) := streamPosition_int32 (by omega)
      rw [hread, hrest, h.readBuffer_eq (by omega)]
      simp only [bind, Except.bind]
      rw [ih m (by omega) hnext, bytesAt_add, int32_int32_add]
      simp only [pure, Except.pure]
      congr 4
      push_cast
      ring
    · rw [if_neg hover, h.readBuffer_eq (by omega)]
      rfl

/-- A read from inside a sector at a negative position is a memory
error. -/
theorem diskStreamRead_of_not_aligned (image : Sectors) (hneg : p < 0) (hp : ¬ 512 ∣ p)
    (hn : 0 < n) : diskStreamRead image ⟨p⟩ n = .error .outOfBounds := by
  have hmod : p.tmod 512 < 0 := by
    have hneg' : 0 ≤ (-p).tmod 512 := Int.tmod_nonneg 512 (by omega)
    have hzero : p.tmod 512 ≠ 0 := fun hzero => hp (Int.dvd_of_tmod_eq_zero hzero)
    rw [Int.neg_tmod] at hneg'
    omega
  rw [diskStreamRead]
  simp only [sectorSize, Nat.cast_ofNat]
  by_cases hover : 512 < p.tmod 512 + n
  · rw [if_pos hover, readBuffer, if_neg (by omega), if_pos (Or.inl hmod)]
    rfl
  · rw [if_neg hover, readBuffer, if_neg (by omega), if_pos (Or.inl hmod)]
    rfl

/-- **A read of some bytes succeeds** at the positions a stream can be
read from only. -/
theorem StreamPosition.of_diskStreamRead {r : List Byte × DiskStream} (hn : 0 < n)
    (hlo : -2 ^ 31 ≤ p) (hhi : p < 2 ^ 31) (h : diskStreamRead image ⟨p⟩ n = .ok r) :
    StreamPosition p := by
  refine ⟨hlo, hhi, ?_⟩
  by_contra hdvd
  rw [not_or] at hdvd
  rw [diskStreamRead_of_not_aligned image (not_le.1 hdvd.1) hdvd.2 hn] at h
  cases h

/-- A read of no bytes, at any position. -/
theorem diskStreamRead_of_nonpos (image : Sectors) (p : ℤ) (h : total ≤ 0) :
    ∃ stream, diskStreamRead image ⟨p⟩ total = .ok ([], stream) := by
  have hlt : p.tmod 512 < 512 := Int.tmod_lt_of_pos p (by decide)
  rw [diskStreamRead]
  simp only [sectorSize, Nat.cast_ofNat]
  rw [if_neg (by omega), readBuffer, if_pos h]
  exact ⟨_, rfl⟩

/-! ## The sectors read -/

/-- A read is the same read with its sectors left out. -/
theorem diskStreamReadBlocks_fst (image : Sectors) (stream : DiskStream) (total : ℤ) :
    (diskStreamReadBlocks image stream total).map Prod.fst = diskStreamRead image stream total := by
  induction stream, total using diskStreamRead.induct with
  | case1 stream total offset hover totalToRead ih =>
    rw [diskStreamReadBlocks, diskStreamRead]
    simp only
    rw [if_pos hover, if_pos hover, ← ih]
    simp only [bind, Except.bind]
    cases readBuffer (image (stream.position.tdiv sectorSize)) (stream.position.tmod sectorSize)
      (total - (stream.position.tmod sectorSize + total - sectorSize)) with
    | error e => rfl
    | ok bytes =>
      simp only
      cases diskStreamReadBlocks image
        { stream with position := int32 (stream.position + totalToRead) } (total - totalToRead) with
      | error e => rfl
      | ok r => rfl
  | case2 stream total offset hover =>
    rw [diskStreamReadBlocks, diskStreamRead]
    simp only
    rw [if_neg hover, if_neg hover]
    simp only [bind, Except.bind]
    cases readBuffer (image (stream.position.tdiv sectorSize)) (stream.position.tmod sectorSize)
      total with
    | error e => rfl
    | ok bytes => rfl

/-- **The sectors of a read** are those its bytes and its end are in. -/
theorem diskStreamReadBlocks_sectors (image : Sectors) (h : StreamPosition p) (h0 : 0 ≤ p) (n : ℕ)
    (hend : p + n < 2 ^ 31) : ∃ r sectors, diskStreamReadBlocks image ⟨p⟩ n = .ok (r, sectors) ∧
      ∀ s ∈ sectors, p / 512 ≤ s ∧ s ≤ (p + n) / 512 := by
  induction n using Nat.strong_induction_on generalizing p with
  | _ n ih =>
    obtain ⟨hdiv, hmod⟩ := h.tdiv_tmod
    rw [diskStreamReadBlocks]
    simp only [sectorSize, Nat.cast_ofNat, hdiv, hmod]
    by_cases hover : 512 < p % 512 + (n : ℤ)
    · rw [if_pos hover]
      obtain ⟨k, hk⟩ : ∃ k : ℕ, p % 512 + k = 512 := ⟨(512 - p % 512).toNat, by omega⟩
      obtain ⟨m, rfl⟩ : ∃ m, n = k + m := ⟨n - k, by omega⟩
      have hread : ((k + m : ℕ) : ℤ) - (p % 512 + ((k + m : ℕ) : ℤ) - 512) = k := by omega
      have hrest : ((k + m : ℕ) : ℤ) - k = m := by omega
      have hnext : int32 (p + k) = p + k := int32_of_range (by omega) (by omega)
      have hpos : StreamPosition (p + k) := ⟨by omega, by omega, Or.inl (by omega)⟩
      obtain ⟨r, sectors, hr, hs⟩ := ih m (by omega) hpos (by omega) (by omega)
      rw [hread, hrest, h.readBuffer_eq (by omega), hnext]
      simp only [bind, Except.bind, hr]
      refine ⟨_, _, rfl, fun s hmem => ?_⟩
      rcases List.mem_cons.1 hmem with rfl | hmem
      · omega
      · have := hs s hmem
        omega
    · rw [if_neg hover, h.readBuffer_eq (by omega)]
      refine ⟨_, _, rfl, fun s hmem => ?_⟩
      rw [List.mem_singleton.1 hmem]
      omega

/-- **What a read of `total` bytes from `p` on does**: it delivers the
disk's bytes in order, moves the stream behind them, reads no sector but
those, and is the same as any two reads it is cut into. -/
theorem diskStreamRead_reads (image : Sectors) (p total : ℤ) (h0 : 0 ≤ p) (htotal : 0 ≤ total)
    (hend : p + total < 2 ^ 31) :
    (∃ sectors, diskStreamReadBlocks image ⟨p⟩ total =
        .ok ((tabulate (fun i => byteAt image (p + i)) total.toNat, ⟨p + total⟩), sectors) ∧
      ∀ s ∈ sectors, p / 512 ≤ s ∧ s ≤ (p + total) / 512) ∧
    diskStreamRead image ⟨p⟩ total =
      .ok (tabulate (fun i => byteAt image (p + i)) total.toNat, ⟨p + total⟩) ∧
    ∀ a b, 0 ≤ a → 0 ≤ b → a + b = total →
      (do
        let first ← diskStreamRead image ⟨p⟩ a
        let second ← diskStreamRead image first.2 b
        pure (first.1 ++ second.1, second.2)) = diskStreamRead image ⟨p⟩ total := by
  obtain ⟨n, rfl⟩ := Int.eq_ofNat_of_zero_le htotal
  have hpos : StreamPosition p := ⟨by omega, by omega, Or.inl h0⟩
  have hread : diskStreamRead image ⟨p⟩ n =
      .ok (tabulate (fun i => byteAt image (p + i)) n, ⟨p + n⟩) := by
    rw [diskStreamRead_eq hpos, int32_of_range (by omega) (by omega), bytesAt_of_range h0 hend]
  obtain ⟨r, sectors, hblocks, hsectors⟩ := diskStreamReadBlocks_sectors image hpos h0 n hend
  have hr := diskStreamReadBlocks_fst image ⟨p⟩ n
  rw [hblocks, hread] at hr
  cases hr
  refine ⟨⟨sectors, hblocks, hsectors⟩, hread, fun a b ha hb hab => ?_⟩
  obtain ⟨a, rfl⟩ := Int.eq_ofNat_of_zero_le ha
  obtain ⟨b, rfl⟩ := Int.eq_ofNat_of_zero_le hb
  have hmid : StreamPosition (int32 (p + a)) := by
    rw [int32_of_range (by omega) (by omega)]
    exact ⟨by omega, by omega, Or.inl (by omega)⟩
  obtain rfl : n = a + b := by omega
  rw [diskStreamRead_eq hpos, diskStreamRead_eq hpos]
  simp only [bind, Except.bind]
  rw [diskStreamRead_eq hmid, bytesAt_add, int32_int32_add]
  simp only [pure, Except.pure]
  rw [Nat.cast_add, Int.add_assoc]

/-- A byte of sector 0 and one of sector 1. -/
theorem diskStreamRead_reads_boundary :
    (∃ sectors, diskStreamReadBlocks (fun s _ => BitVec.ofInt 8 s) ⟨511⟩ 2 =
        .ok (([0, 1], ⟨513⟩), sectors) ∧ ∀ s ∈ sectors, 0 ≤ s ∧ s ≤ 1) :=
  (diskStreamRead_reads (fun s _ => BitVec.ofInt 8 s) 511 2 (by decide) (by decide)
    (by decide)).1

end OwnKernel
