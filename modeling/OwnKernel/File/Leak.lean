import OwnKernel.File.Table

/-!
# What `fopen` leaves behind

The blocks of a parsed path are never freed: `pathparser_free` is called
nowhere. A path that is refused takes none, and any other leaves at least
one behind, its root or a part's string, whether the file is opened or not
and whether it is closed again or not (`fopen_tables_kept_iff`).
-/

namespace OwnKernel

variable {image : Sectors} {s s' t u : FsState} {path filename modeStr : Cstring} {p b : Word}
variable {fd : ℤ} {k : ℕ}

/-- **The tables are as they were**: each entry of the heap's, and each
descriptor. -/
def SameTables (s s' : FsState) : Prop :=
  (∀ i < s.store.heap.total, s'.store.heap.entries i = s.store.heap.entries i) ∧
    ∀ i < osMaxFileDescriptors, s'.fileDescriptors i = s.fileDescriptors i

/-- **The tables are kept**, by a call of `fopen` that answers `fd`: when no
file is opened, they are as they were; when one is, they are after
`fclose`. -/
def TablesKept (s s' : FsState) (fd : ℤ) : Prop :=
  if fd ≤ 0 then SameTables s s'
  else ∃ r s'', fclose fd s' = .ok (r, s'') ∧ SameTables s s''

/-! ## Blocks left behind -/

/-- **A block left behind**: taken since `s`, and no object's. -/
structure LeftBehind (s t : FsState) (b : Word) : Prop where
  fresh : s.store.heap.Fresh b
  owns : t.store.heap.Owns b 1
  objects : t.objects b = none

/-- No step of the layer frees it. -/
theorem LeftBehind.keeps (h : LeftBehind s t b) (a : FsKeeps t u) : LeftBehind s u b :=
  ⟨h.fresh, a.owns b 1 h.owns h.objects, a.objects b 1 h.owns h.objects⟩

/-- It was taken before, too. -/
theorem LeftBehind.extends_ (h : LeftBehind t u b) (e : s.store.Extends t.store) :
    LeftBehind s u b :=
  ⟨e.fresh h.fresh, h.owns, h.objects⟩

/-- An allocation is seen in the table. -/
theorem not_sameTables (hplace : s.store.heap.SamePlace t.store.heap) (hfresh : s.store.heap.Fresh b)
    (hown : t.store.heap.Owns b k) : ¬ SameTables s t := by
  rintro ⟨hentries, -⟩
  obtain ⟨i, rfl, hle, chain⟩ := hown
  rw [hplace.total] at hle
  refine hfresh k ⟨i, hplace.heapBlockToAddress i, hle, ?_⟩
  exact chain.congr fun j _ hj => (hentries j (by omega)).symm

/-! ## Paths -/

/-- A part's string is a block of its own. -/
theorem pathparserExtractPathPart_leftBehind {r : Word × Cstring × Cstring} (o : FsOwned s)
    (h : pathparserExtractPathPart path s = .ok (r, t)) :
    t.objects = s.objects ∧ (r.1 ≠ 0 → LeftBehind s t r.1) := by
  obtain ⟨part, t₁, hz, h⟩ := Fallible.run_bind.1 h
  obtain ⟨st, hz', rfl⟩ := run_inStore.1 hz
  split at h
  · obtain ⟨t₂, hfree, h⟩ := Fallible.run_seq.1 h
    obtain ⟨rfl, rfl⟩ := Fallible.run_pure.1 h
    rw [run_kernelFree.1 hfree]
    exact ⟨rfl, fun h0 => absurd rfl h0⟩
  split at h
  · exact absurd h Fallible.run_throw
  rename_i h0
  split at h
  · exact absurd h Fallible.run_throw
  obtain ⟨rfl, rfl⟩ := Fallible.run_pure.1 h
  obtain ⟨-, hown, hfresh, -⟩ := kernelZalloc_spec o.ready (by decide) (by decide) hz' h0
  exact ⟨rfl, fun _ => ⟨hfresh, hown, o.objects_of_fresh hfresh⟩⟩

/-- An accepted path has a root. -/
theorem pathparserParse_ne_zero (o : FsOwned s) (h0 : 0 ∉ path) (hpath : AcceptedPath path)
    (h : pathparserParse path s = .ok (p, t)) : p ≠ 0 := by
  have hvalid := (pathparserPathValidFormat_iff h0 hpath.1).2 hpath.2
  obtain ⟨hlen, hform⟩ := hpath
  have hnonneg : 0 ≤ toNumericDigit (path.headD 0) := by
    obtain ⟨d, rest, rfl, hdigit⟩ := hform
    exact toNumericDigit_nonneg hdigit
  unfold pathparserParse pathparserExtractDriveByPath at h
  rw [strlen_eq h0, if_neg (by omega), if_pos hvalid] at h
  simp only at h
  rw [if_neg (by omega)] at h
  obtain ⟨root, t₁, hroot, h⟩ := Fallible.run_bind.1 h
  obtain ⟨-, hne, -⟩ := pathparserCreateRoot_cases o hroot
  obtain ⟨r, t₂, -, h⟩ := Fallible.run_bind.1 h
  split at h
  · obtain ⟨rfl, -⟩ := Fallible.run_pure.1 h
    exact hne
  · obtain ⟨x, t₃, -, h⟩ := Fallible.run_bind.1 h
    obtain ⟨t₄, -, h⟩ := Fallible.run_seq.1 h
    obtain ⟨t₅, -, h⟩ := Fallible.run_seq.1 h
    obtain ⟨rfl, -⟩ := Fallible.run_pure.1 h
    exact hne

/-- **An accepted path leaves a block behind**, or is a root by itself. -/
theorem pathparserParse_leftBehind (o : FsOwned s) (h : pathparserParse path s = .ok (p, t))
    (hp : p ≠ 0) : (∃ b, LeftBehind s t b) ∨
      s.store.heap.Fresh p ∧ ∃ driveNumber, t.objects p = some (.pathRoot ⟨driveNumber, 0⟩) := by
  obtain ⟨h0, -⟩ | ⟨driveNumber, rest, t₁, t₂, r, hroot, hpart, hrest⟩ := pathparserParse_cases o h
  · exact absurd h0 hp
  obtain ⟨a₁, -, hfresh, hext, hobject⟩ := pathparserCreateRoot_cases o hroot
  obtain ⟨x, t₃, hx, hpart⟩ := pathparserParsePathPart_cases a₁.owned hpart
  obtain ⟨hobjects, hleft⟩ := pathparserExtractPathPart_leftBehind a₁.owned hx
  rcases hpart with ⟨-, hr, rfl⟩ | ⟨hx0, hr, a₂⟩
  · obtain ⟨-, rfl⟩ | ⟨hr0, -⟩ := hrest
    · exact Or.inr ⟨hfresh, driveNumber, by rw [hobjects, hobject]⟩
    · exact absurd hr hr0
  · obtain ⟨hr0, -⟩ | ⟨-, a₃⟩ := hrest
    · exact absurd hr0 hr
    · exact Or.inl ⟨_, ((hleft hx0).extends_ hext).keeps (a₂.trans a₃).keeps⟩

/-! ## The calls -/

/-- **An accepted path leaves a block behind**, whatever else is done. -/
theorem fopen_leftBehind (o : FsOwned s) (h0 : 0 ∉ filename) (hpath : AcceptedPath filename)
    (h : fopen image filename modeStr s = .ok (fd, s')) :
    (∃ b, LeftBehind s s' b) ∨ fd = 0 ∧ ∃ p, s.store.heap.Fresh p ∧ s'.store.heap.Owns p 1 := by
  obtain ⟨rootPath, t, hparse, hrest⟩ := fopen_parsed o h
  have o₁ := (pathparserParse_step o hparse).owned
  have hne := pathparserParse_ne_zero o h0 hpath hparse
  have hkeeps : (∃ root, t.objects rootPath = some (.pathRoot root) ∧ root.first ≠ 0) →
      ∃ b, LeftBehind s t b := by
    rintro ⟨root, hobj, hfirst⟩
    obtain hleft | ⟨-, driveNumber, hobj'⟩ := pathparserParse_leftBehind o hparse hne
    · exact hleft
    · rw [hobj] at hobj'
      cases hobj'
      exact absurd rfl hfirst
  obtain ⟨hfd, rfl, -⟩ | ⟨root, hobj, hfirst, hrest⟩ := hrest
  · obtain hleft | ⟨hfresh, driveNumber, hobj⟩ := pathparserParse_leftBehind o hparse hne
    · exact Or.inl hleft
    · exact Or.inr ⟨hfd, rootPath, hfresh, o₁.owns rootPath (by rw [hobj]; nofun)⟩
  · obtain ⟨b, hleft⟩ := hkeeps ⟨root, hobj, hfirst⟩
    obtain ⟨-, a⟩ | ⟨-, -, a⟩ | ⟨i, d, -, a⟩ := hrest
    · exact Or.inl ⟨b, hleft.keeps a.keeps⟩
    · exact Or.inl ⟨b, hleft.keeps a.keeps⟩
    · exact Or.inl ⟨b, hleft.keeps a.keeps⟩

/-- What `fopen` and `fclose` keep. -/
theorem FsKeeps.of_fopen (o : FsOwned s) (h : fopen image filename modeStr s = .ok (fd, s')) :
    FsOwned s' ∧ FsKeeps s s' := by
  obtain ⟨-, a⟩ | ⟨-, -, a⟩ | ⟨i, d, -, a⟩ := fopen_cases o h
  · exact ⟨a.owned, a.keeps⟩
  · exact ⟨a.owned, a.keeps⟩
  · exact ⟨a.owned, a.keeps⟩

theorem FsKeeps.of_fclose {r : ℤ} (o : FsOwned s) (h : fclose fd s = .ok (r, s')) :
    FsKeeps s s' := by
  obtain ⟨-, -, rfl⟩ | ⟨-, -, x, a⟩ := fclose_cases o h
  · exact .refl _
  · exact a.keeps

/-- **With an accepted path the tables are not kept.** -/
theorem not_tablesKept (o : FsOwned s) (h0 : 0 ∉ filename) (hpath : AcceptedPath filename)
    (h : fopen image filename modeStr s = .ok (fd, s')) : ¬ TablesKept s s' fd := by
  obtain ⟨o', a⟩ := FsKeeps.of_fopen o h
  unfold TablesKept
  rcases fopen_leftBehind o h0 hpath h with ⟨b, hleft⟩ | ⟨rfl, p, hfresh, hown⟩
  · split
    · exact not_sameTables a.place hleft.fresh hleft.owns
    · rintro ⟨r, s'', hclose, hsame⟩
      have a' := FsKeeps.of_fclose o' hclose
      exact not_sameTables (a.place.trans a'.place) hleft.fresh (hleft.keeps a').owns hsame
  · rw [if_pos le_rfl]
    exact not_sameTables a.place hfresh hown

/-- **When `fopen` keeps the tables**: exactly when it refuses the path. -/
theorem fopen_tables_kept_iff (image : Sectors) (s s' : FsState) (filename modeStr : Cstring) (fd : ℤ)
    (o : FsOwned s) (h0 : 0 ∉ filename) (h : fopen image filename modeStr s = .ok (fd, s')) :
    TablesKept s s' fd ↔ ¬ AcceptedPath filename := by
  constructor
  · exact fun hkept hpath => not_tablesKept o h0 hpath h hkept
  · intro hpath
    have hrun : fopen image filename modeStr s = .ok (0, s) :=
      (Fallible.bind_ok (pathparserParse_of_not_accepted h0 hpath)).trans (by rw [if_pos rfl]; rfl)
    obtain ⟨rfl, rfl⟩ := Prod.mk.inj (Except.ok.inj (hrun.symm.trans h))
    unfold TablesKept
    rw [if_pos le_rfl]
    exact ⟨fun _ _ => rfl, fun _ _ => rfl⟩

/-- `"0:/A"`, opened: the tables stay changed. -/
theorem fopen_tables_kept_iff_one_file : ∃ s s' fd,
    fopen oneFileVolume [0x30, colon, slash, 0x41] [0x72] s = .ok (fd, s') ∧ 0 < fd ∧
      ¬ TablesKept s s' fd := by
  obtain ⟨s, fat, item, m, -, hm, hs, hdisk, hfind, hfile⟩ := exists_oneFileVolume
  have hslot : s.freeSlot = some 0 :=
    FsState.freeSlot_eq_some.2 ⟨by decide, hs.2.2 0, fun j hj => absurd hj (Nat.not_lt_zero j)⟩
  obtain ⟨s', d, n, hopen, -⟩ :=
    exists_fopen_next hs.fsOwned hs.1 (by omega) hdisk hfind hfile hslot
  refine ⟨s, s', _, hopen, by decide, fun hkept => ?_⟩
  exact (fopen_tables_kept_iff oneFileVolume s s' [0x30, colon, slash, 0x41] [0x72] _ hs.fsOwned
    (by decide) hopen).1 hkept ⟨by decide, 0x30, [0x41], rfl, by decide⟩

/-- **A path that is a root by itself**: nothing is opened, and the root
stays. -/
theorem not_fopen_tables_kept : ¬ ∀ (image : Sectors) (s s' : FsState) (filename modeStr : Cstring)
    (fd : ℤ), FsOwned s → 0 ∉ filename → fopen image filename modeStr s = .ok (fd, s') →
      TablesKept s s' fd := by
  intro h
  have hpath : AcceptedPath [0x30, colon, slash] := ⟨by decide, 0x30, [], rfl, by decide⟩
  have h0 : (0 : Byte) ∉ [0x30, colon, slash] := by decide
  obtain ⟨root, first, t, hparse, hroot, hobj, hparts⟩ := pathparserParse_of_accepted
    (s := bootFs) [0x30, colon, slash] ready_kernelHeapInit
    (by change 0 < kernelHeapInit.freeBlocks; rw [freeBlocks_kernelHeapInit]; decide) h0 hpath
  obtain rfl : first = 0 := hparts.eq_zero
  have hrun : fopen oneFileVolume [0x30, colon, slash] [0x72] bootFs = .ok (0, t) := by
    refine Fallible.run_bind.2 ⟨root, t, hparse, ?_⟩
    rw [if_neg hroot]
    refine Fallible.run_bind.2 ⟨_, t, run_readObject.2 ⟨hroot, by rw [hobj]; rfl, rfl⟩, ?_⟩
    rfl
  have o := untouched_bootFs.fsOwned
  exact not_tablesKept o h0 hpath hrun (h _ _ _ _ _ _ o h0 hrun)

end OwnKernel
