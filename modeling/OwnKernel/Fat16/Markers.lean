import OwnKernel.Fat16.Read

/-!
# The entries that end a walk

FAT16 ends a file with 0xFFF8 to 0xFFFF; 0xFFF7 is a bad cluster, 0xFFF0
to 0xFFF6 are reserved and 0 is free (`Fat16NoLink`). The driver stops at
0 and at five 12-bit values (`Fat16Marker`). `HeedsMarkers` says what
`fat16_get_cluster_for_offset` is for, and
`fat16GetClusterForOffset_heeds_iff` on which walks it does it: those
that meet none of the values the two disagree on.
-/

namespace OwnKernel

variable {image : Sectors} {fat : FatPrivate} {item : FatDirectoryItem} {offset entry r : ℤ}
variable {first n : ℕ} {met : List ℤ}

/-- The entries that lead to no cluster. -/
def Fat16NoLink (entry : ℤ) : Prop := entry = 0 ∨ 0xFFF0 ≤ entry ∧ entry ≤ 0xFFFF

/-- What a walk of `n` links from `first` is to come to, given the entries
it met: an error if one of them leads nowhere, and otherwise the last of
`n` entries. None that leads nowhere is gone on with. -/
structure WalkHeeds (first : ℤ) (n : ℕ) (r : ℤ) (met : List ℤ) : Prop where
  error : r < 0 ↔ ∃ e ∈ met, Fat16NoLink e
  last : (∀ e ∈ met, ¬ Fat16NoLink e) → met.length = n ∧ r = met.getLastD first
  stops : ∀ e ∈ met.dropLast, ¬ Fat16NoLink e

/-- **`fat16_get_cluster_for_offset` heeds the markers** on its walk to
the cluster of `offset`. -/
def HeedsMarkers (image : Sectors) (fat : FatPrivate) (first offset : ℤ) : Prop :=
  ∃ r met, fat16GetClusterForOffsetMet image fat first offset = .ok (r, met) ∧
    fat16GetClusterForOffset image fat first offset = .ok r ∧
    WalkHeeds first (offset.tdiv (sizeOfClusterBytes fat.header)).toNat r met

/-- The entries the driver takes for something else than they are: its own
markers other than 0, and those of FAT16. -/
def Fat16Misread (entry : ℤ) : Prop := Fat16Marker entry ∧ entry ≠ 0 ∨ 0xFFF0 ≤ entry

/-- The driver's markers have 12 bits. -/
theorem Fat16Marker.le (h : Fat16Marker entry) : entry ≤ 0xFFF := by
  rcases h with rfl | rfl | rfl | rfl | rfl | rfl <;> decide

/-- Where the driver's markers and FAT16's agree. -/
theorem fat16Marker_iff_noLink (h : entry ≤ 0xFFFF) :
    (Fat16Marker entry ↔ Fat16NoLink entry) ↔ ¬ Fat16Misread entry := by
  have hlt : (0xFFF : ℤ) < 0xFFF0 := by decide
  constructor
  · rintro hagree (⟨hm, hne⟩ | hlo)
    · rcases hagree.1 hm with hzero | ⟨hlo, -⟩
      · exact hne hzero
      · exact absurd (hm.le.trans_lt hlt) hlo.not_gt
    · exact absurd ((hagree.2 (Or.inr ⟨hlo, h⟩)).le.trans_lt hlt) hlo.not_gt
  · intro hmis
    constructor
    · intro hm
      by_cases hzero : entry = 0
      · exact Or.inl hzero
      · exact absurd (Or.inl ⟨hm, hzero⟩) hmis
    · rintro (hzero | ⟨hlo, -⟩)
      · exact Or.inr (Or.inr (Or.inr (Or.inr (Or.inr hzero))))
      · exact absurd (Or.inr hlo) hmis

/-! ## The walk -/

/-- The walk without its entries. -/
theorem fat16FollowClustersMet_fst (image : Sectors) (fat : FatPrivate) (n : ℕ) (cluster : ℤ) :
    (fat16FollowClustersMet image fat n cluster).map Prod.fst =
      fat16FollowClusters image fat n cluster := by
  induction n generalizing cluster with
  | zero => rfl
  | succ n ih =>
    unfold fat16FollowClustersMet fat16FollowClusters
    generalize fat16GetFatEntry image fat cluster = found
    rcases found with e | entry
    · rfl
    simp only [bind, Except.bind]
    by_cases hm : Fat16Marker entry
    · rw [if_pos hm, if_pos hm]
      rfl
    · rw [if_neg hm, if_neg hm, ← ih]
      generalize fat16FollowClustersMet image fat n entry = rest
      rcases rest with e | r
      · rfl
      · rfl

/-- How a walk ends: at a marker of the driver's, or with all its links
followed. -/
inductive WalkEnds (first : ℤ) (n : ℕ) : ℤ → List ℤ → Prop where
  | followed (met : List ℤ) (hlen : met.length = n) (hmet : ∀ e ∈ met, ¬ Fat16Marker e) :
      WalkEnds first n (met.getLastD first) met
  | stopped (met : List ℤ) (e : ℤ) (hmet : ∀ e ∈ met, ¬ Fat16Marker e) (he : Fat16Marker e) :
      WalkEnds first n (-ioError) (met ++ [e])

/-- One link followed, before a walk. -/
theorem WalkEnds.cons (h : WalkEnds entry n r met) (he : ¬ Fat16Marker entry) (first : ℤ) :
    WalkEnds first (n + 1) r (entry :: met) := by
  cases h with
  | followed met hlen hmet =>
    have hlast : met.getLastD entry = (entry :: met).getLastD first := List.getLastD_cons.symm
    rw [hlast]
    refine .followed (entry :: met) (congrArg (· + 1) hlen) fun e hmem => ?_
    rcases List.mem_cons.1 hmem with rfl | hmem
    · exact he
    · exact hmet e hmem
  | stopped met e hmet hm =>
    refine .stopped (entry :: met) e (fun e hmem => ?_) hm
    rcases List.mem_cons.1 hmem with rfl | hmem
    · exact he
    · exact hmet e hmem

/-- **The walk of `n` links from `first`**: it ends, and has met the
entries up to the first the driver stops at. -/
theorem fat16FollowClustersMet_ends (image : Sectors) (fat : FatPrivate) (n : ℕ)
    (h : first < 2 ^ 16) :
    ∃ r met, fat16FollowClustersMet image fat n first = .ok (r, met) ∧ WalkEnds first n r met ∧
      ∀ e, e ∈ met ↔ ∃ j < n, NoMarker image fat.header first j ∧
        e = productCluster image fat.header first (j + 1) := by
  induction n generalizing first with
  | zero =>
    refine ⟨first, [], rfl, .followed [] rfl fun e he => ?_, fun e => ?_⟩
    · cases he
    · simp
  | succ n ih =>
    have hentry : ∀ c, productEntry image fat.header c < 2 ^ 16 := fun c => productEntry_lt
    unfold fat16FollowClustersMet
    rw [fat16GetFatEntry_eq h]
    simp only [bind, Except.bind]
    by_cases hm : Fat16Marker (productEntry image fat.header first)
    · rw [if_pos hm]
      refine ⟨_, _, rfl, .stopped [] _ (fun e he => ?_) hm, fun e => ?_⟩
      · cases he
      rw [List.mem_singleton]
      constructor
      · rintro rfl
        exact ⟨0, Nat.succ_pos _, fun j hj => absurd hj (Nat.not_lt_zero j), rfl⟩
      · rintro ⟨j, hj, hno, rfl⟩
        cases j with
        | zero => rfl
        | succ j => exact absurd hm (hno 0 (Nat.succ_pos _))
    · rw [if_neg hm]
      obtain ⟨r, met, hr, hends, hmet⟩ := ih (hentry first)
      rw [hr]
      refine ⟨r, productEntry image fat.header first :: met, rfl, hends.cons hm _, fun e => ?_⟩
      rw [List.mem_cons, hmet e]
      constructor
      · rintro (rfl | ⟨j, hj, hno, rfl⟩)
        · exact ⟨0, Nat.succ_pos _, fun j hj => absurd hj (Nat.not_lt_zero j), rfl⟩
        · refine ⟨j + 1, by omega, fun i hi => ?_, rfl⟩
          cases i with
          | zero => exact hm
          | succ i => exact hno i (by omega)
      · rintro ⟨j, hj, hno, rfl⟩
        cases j with
        | zero => exact Or.inl rfl
        | succ j => exact Or.inr ⟨j, by omega, fun i hi => hno (i + 1) (by omega), rfl⟩

/-- **A walk heeds the markers** when the driver takes each entry it meets
for what it is. -/
theorem WalkEnds.heeds_iff (h : WalkEnds first n r met) (hmet : ∀ e ∈ met, 0 ≤ e) :
    WalkHeeds first n r met ↔ ∀ e ∈ met, (Fat16Marker e ↔ Fat16NoLink e) := by
  cases h with
  | followed met hlen hno =>
    have hr : 0 ≤ met.getLastD first := by
      cases met with
      | nil => exact Int.natCast_nonneg first
      | cons e met =>
        rw [List.getLastD_cons]
        exact hmet _ List.getLastD_mem_cons
    constructor
    · intro hw e he
      refine ⟨fun hm => absurd hm (hno e he), fun hl => ?_⟩
      have := hw.error.2 ⟨e, he, hl⟩
      omega
    · intro hall
      have hlink : ∀ e ∈ met, ¬ Fat16NoLink e := fun e he hl => hno e he ((hall e he).2 hl)
      refine ⟨⟨fun hneg => absurd hneg (by omega), fun ⟨e, he, hl⟩ => absurd hl (hlink e he)⟩,
        fun _ => ⟨hlen, rfl⟩, fun e he => hlink e (List.dropLast_subset met he)⟩
  | stopped met e hno hm =>
    have hlast : e ∈ met ++ [e] := List.mem_append_right _ (List.mem_singleton_self e)
    constructor
    · intro hw x hx
      have hbefore : ∀ y ∈ met, ¬ Fat16NoLink y := by
        intro y hy
        exact hw.stops y (by rwa [List.dropLast_concat])
      rcases List.mem_append.1 hx with hx | hx
      · exact ⟨fun h => absurd h (hno x hx), fun h => absurd h (hbefore x hx)⟩
      · obtain rfl := List.mem_singleton.1 hx
        obtain ⟨y, hy, hl⟩ := hw.error.1 (by decide)
        rcases List.mem_append.1 hy with hy | hy
        · exact absurd hl (hbefore y hy)
        · obtain rfl := List.mem_singleton.1 hy
          exact ⟨fun _ => hl, fun _ => hm⟩
    · intro hall
      have hl : Fat16NoLink e := (hall e hlast).1 hm
      refine ⟨⟨fun _ => ⟨e, hlast, hl⟩, fun _ => by decide⟩, fun h => absurd hl (h e hlast), ?_⟩
      intro x hx
      rw [List.dropLast_concat] at hx
      exact fun h => hno x hx ((hall x (List.mem_append_left _ hx)).2 h)

/-! ## `fat16_get_cluster_for_offset` -/

theorem fat16GetFirstCluster_lt : fat16GetFirstCluster item < 2 ^ 16 := BitVec.isLt _

/-- **When the driver heeds the markers**: clusters are not empty, and the
walk meets none of the entries it misreads, up to the first it stops
at. -/
theorem fat16GetClusterForOffset_heeds_iff (image : Sectors) (fat : FatPrivate)
    (item : FatDirectoryItem) (offset : ℤ) :
    HeedsMarkers image fat (fat16GetFirstCluster item) offset ↔
      sizeOfClusterBytes fat.header ≠ 0 ∧
      ∀ j < (offset.tdiv (sizeOfClusterBytes fat.header)).toNat,
        NoMarker image fat.header (fat16GetFirstCluster item) j →
        ¬ Fat16Misread (productCluster image fat.header (fat16GetFirstCluster item) (j + 1)) := by
  unfold HeedsMarkers fat16GetClusterForOffsetMet fat16GetClusterForOffset
  by_cases hsize : sizeOfClusterBytes fat.header = 0
  · rw [if_pos hsize]
    constructor
    · rintro ⟨r, met, h, -⟩
      cases h
    · exact fun h => absurd hsize h.1
  rw [if_neg hsize, if_neg hsize]
  simp only
  have hfirst : fat16GetFirstCluster item < 2 ^ 16 := fat16GetFirstCluster_lt
  obtain ⟨r, met, hmet, hends, hmem⟩ := fat16FollowClustersMet_ends image fat
    (offset.tdiv (sizeOfClusterBytes fat.header)).toNat hfirst
  have hr := fat16FollowClustersMet_fst image fat
    (offset.tdiv (sizeOfClusterBytes fat.header)).toNat (fat16GetFirstCluster item)
  rw [hmet] at hr
  have hpos : ∀ e ∈ met, 0 ≤ e ∧ e ≤ 0xFFFF := by
    intro e he
    obtain ⟨j, -, -, rfl⟩ := (hmem e).1 he
    have : productCluster image fat.header (fat16GetFirstCluster item) (j + 1) < 2 ^ 16 :=
      productCluster_lt hfirst
    omega
  have hiff := hends.heeds_iff fun e he => (hpos e he).1
  rw [hmet, ← hr]
  constructor
  · rintro ⟨r', met', h, -, hw⟩
    cases h
    refine ⟨hsize, fun j hj hno => ?_⟩
    have he := (hmem _).2 ⟨j, hj, hno, rfl⟩
    exact (fat16Marker_iff_noLink (hpos _ he).2).1 (hiff.1 hw _ he)
  · rintro ⟨-, hall⟩
    refine ⟨r, met, rfl, rfl, hiff.2 fun e he => ?_⟩
    obtain ⟨j, hj, hno, rfl⟩ := (hmem e).1 he
    exact (fat16Marker_iff_noLink (hpos _ he).2).2 (hall j hj hno)

/-! ## An end mark that is gone on with -/

/-- A volume as above with one file, of cluster 2 alone. Its table says so
with 0xFFFF, which is also what the cluster is filled with. -/
def endMarkVolume : Sectors := fun lba i =>
  if lba = 0 then [0, 0, 0, 0, 0, 0, 0, 0, 0, 0, 0, 0, 0, 1, 1, 0, 2, 16, 0, 0, 0, 0, 1].getD i 0
  else if lba = 1 then [0, 0, 0, 0, 0xFF, 0xFF].getD i 0
  else 0xFF

/-- The table's entry of cluster 2, and what the driver takes for it. -/
theorem productEntry_endMarkVolume :
    fatEntry endMarkVolume twoClusterFat.header 2 = 0xFFFF ∧
      productEntry endMarkVolume twoClusterFat.header 2 = 0xFFFF := by
  constructor
  · simp [fatEntry, twoClusterFat, byteAt, endMarkVolume, halfWord]
  · simp [productEntry, productPosition, twoClusterFat, byteAt, int32, endMarkVolume, halfWord]

/-- **The driver returns the end mark 0xFFFF** as the cluster behind
cluster 2. -/
theorem fat16GetClusterForOffset_not_heeded :
    ¬ ∀ (image : Sectors) (fat : FatPrivate) (item : FatDirectoryItem) (offset : ℤ),
      sizeOfClusterBytes fat.header ≠ 0 →
        HeedsMarkers image fat (fat16GetFirstCluster item) offset := by
  intro h
  obtain ⟨r, met, hmet, -, hw⟩ := h endMarkVolume twoClusterFat twoClusterItem 512 (by decide)
  have hentry : fat16GetFatEntry endMarkVolume twoClusterFat (2 : ℕ) = .ok 0xFFFF := by
    rw [fat16GetFatEntry_eq (by decide), productEntry_endMarkVolume.2]
    rfl
  have hwalk : fat16FollowClustersMet endMarkVolume twoClusterFat 1 (2 : ℕ) =
      .ok (0xFFFF, [0xFFFF]) := by
    unfold fat16FollowClustersMet
    rw [hentry]
    rfl
  have hmet' : fat16GetClusterForOffsetMet endMarkVolume twoClusterFat
      (fat16GetFirstCluster twoClusterItem) 512 = .ok (0xFFFF, [0xFFFF]) := by
    have hahead : ((512 : ℤ).tdiv (sizeOfClusterBytes twoClusterFat.header)).toNat = 1 := by decide
    unfold fat16GetClusterForOffsetMet
    rw [if_neg (by decide), show fat16GetFirstCluster twoClusterItem = 2 by decide]
    simp only
    rw [hahead, hwalk]
  rw [hmet'] at hmet
  cases hmet
  have hneg : (0xFFFF : ℤ) < 0 :=
    hw.error.2 ⟨_, List.mem_singleton_self _, Or.inr ⟨by decide, by decide⟩⟩
  exact absurd hneg (by decide)

end OwnKernel
