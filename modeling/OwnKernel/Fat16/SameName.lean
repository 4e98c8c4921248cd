import OwnKernel.Fat16.Find
import OwnKernel.File.Open

/-!
# Names taken for each other

`fat16_find_item_in_directory` compares the name of each record with the
one that is sought by `istrncmp`. So it takes a name with an `@` for the
one with a grave accent there, and `names_toldApart_iff` says that it
confuses no others which differ in a byte that is not a letter.
-/

namespace OwnKernel

variable {image : Sectors} {d : FatDirectory} {a b name t u : Cstring} {n : ℕ}
variable {s s' : FsState} {p : Word}

/-- Among the first `n` bytes the strings differ in one that is not a
letter in both. -/
def DifferInNonLetter (t u : Cstring) (n : ℕ) : Prop :=
  ∃ i < n, t.getD i 0 ≠ u.getD i 0 ∧ ¬ (IsLetter (t.getD i 0) ∧ IsLetter (u.getD i 0))

/-- **The search tells names apart**: no item is made of a record whose
name differs from the one that is sought in a byte that is not a
letter. -/
def TellsApart (d : FatDirectory) (name : Cstring) : Prop :=
  ∀ i < d.total.toNat, ∀ t, d.nameOf i = .ok t → DifferInNonLetter t name osMaxPath →
    ∀ l, fat16FindItemMet d name d.total.toNat 0 = .ok l → i ∉ l

/-- Names that differ so and compare as equal can be confused. -/
theorem confusable_iff (ht : 0x00 ∉ t) (hu : 0x00 ∉ u) :
    Confusable t u n ↔ istrncmp t u n = 0 ∧ DifferInNonLetter t u n := by
  rw [istrncmp_eq_zero_iff_of_notMem ht hu]
  simp only [tolower_eq_iff]
  constructor
  · rintro ⟨⟨i, hi, hat⟩, hall⟩
    refine ⟨hall, i, hi, ?_⟩
    rcases hat with ⟨hx, hy⟩ | ⟨hx, hy⟩
    · rw [hx, hy]
      decide
    · rw [hx, hy]
      decide
  · rintro ⟨hall, i, hi, hne, hletters⟩
    refine ⟨⟨i, hi, (hall i hi).resolve_left fun hcase => hletters ?_⟩, hall⟩
    exact isLetter_of_lowerLetter_eq hcase hne

/-- A name with neither of the two can be confused with none. -/
theorem not_confusable_of_notMem (hat : 0x40 ∉ u) (hgrave : 0x60 ∉ u) : ¬ Confusable t u n := by
  rintro ⟨⟨i, -, hi⟩, -⟩
  have hget : ∀ c : Byte, c ≠ 0 → u.getD i 0 = c → c ∈ u := fun c h0 hc => by
    rcases Nat.lt_or_ge i u.length with hlt | hge
    · rw [List.getD_eq_getElem _ _ hlt] at hc
      exact hc ▸ List.getElem_mem hlt
    · exact absurd (hc.symm.trans (getD_of_length_le hge)) h0
  rcases hi with ⟨-, h⟩ | ⟨-, h⟩
  · exact hgrave (hget _ (by decide) h)
  · exact hat (hget _ (by decide) h)

/-- A search that finishes has read all names, and made items of those that
compare as equal. -/
theorem exists_met_of_run (h : fat16FindItemInDirectory image d name s = .ok (p, s')) :
    ∃ l, fat16FindItemMet d name d.total.toNat 0 = .ok l ∧
      ∀ i, i ∈ l ↔ i < d.total.toNat ∧ ∃ t, d.nameOf i = .ok t ∧ istrncmp t name osMaxPath = 0 := by
  rcases fat16FindItemMet_cases d name d.total.toNat 0 with ⟨e, herror, -⟩ | ⟨l, hl, -, -, hmem⟩
  · exact absurd h (fat16FindItemLoop_of_error herror)
  · refine ⟨l, hl, fun i => ?_⟩
    rw [hmem i, Nat.zero_add, and_iff_right (Nat.zero_le i)]

/-- **Which searches tell names apart**: those for a name that can be
confused with none of the directory's. -/
theorem tellsApart_iff (h : fat16FindItemInDirectory image d name s = .ok (p, s'))
    (hname : 0x00 ∉ name) : TellsApart d name ↔
      ∀ i < d.total.toNat, ∀ t, d.nameOf i = .ok t → ¬ Confusable t name osMaxPath := by
  obtain ⟨l, hl, hmem⟩ := exists_met_of_run h
  have hzero : ∀ {i t}, d.nameOf i = .ok t → 0x00 ∉ t := fun ht =>
    ShortName.zero_notMem_of_fat16GetFullRelativeFilename ht
  constructor
  · intro hapart i hi t ht hconf
    obtain ⟨hmatch, hdiffer⟩ := (confusable_iff (hzero ht) hname).1 hconf
    exact hapart i hi t ht hdiffer l hl ((hmem i).2 ⟨hi, t, ht, hmatch⟩)
  · intro hnone i hi t ht hdiffer l' hl' hin
    obtain rfl : l = l' := Except.ok.inj (hl.symm.trans hl')
    obtain ⟨-, t', ht', hmatch⟩ := (hmem i).1 hin
    obtain rfl : t = t' := Except.ok.inj (ht.symm.trans ht')
    exact hnone i hi t ht ((confusable_iff (hzero ht) hname).2 ⟨hmatch, hdiffer⟩)

/-- **What comparing names gets right.** Two strings are compared as they
should be when they cannot be confused; and a search that finishes tells
names apart when the one that is sought can be confused with none it looks
at. -/
theorem names_toldApart_iff (a b : Cstring) (n : ℕ) (ha : 0x00 ∉ a) (hb : 0x00 ∉ b) :
    (IgnoresCase a b n ↔ ¬ Confusable a b n) ∧
      ∀ image d s p s', fat16FindItemInDirectory image d a s = .ok (p, s') →
        (TellsApart d a ↔
          ∀ i < d.total.toNat, ∀ t, d.nameOf i = .ok t → ¬ Confusable t a osMaxPath) :=
  ⟨istrncmp_ignoresCase_iff ha hb n, fun _ _ _ _ _ h => tellsApart_iff h ha⟩

/-- A directory of one record, with the name `@`. -/
def atDirectory : FatDirectory where
  item := 0
  bytes := 0x40 :: List.replicate 10 0x20 ++ List.replicate 21 0
  total := 1
  sectorPos := 0
  endingSectorPos := 0

/-- A directory of two records, with the names `@` and `READ`. -/
def readDirectory : FatDirectory where
  item := 0
  bytes := atDirectory.bytes ++ [0x52, 0x45, 0x41, 0x44] ++ List.replicate 7 0x20 ++
    List.replicate 21 0
  total := 2
  sectorPos := 0
  endingSectorPos := 0

/-- The search for `read` makes an item of the second. -/
theorem exists_search_readDirectory (image : Sectors) : ∃ p s',
    fat16FindItemInDirectory image readDirectory [0x72, 0x65, 0x61, 0x64] bootFs = .ok (p, s') ∧
      p ≠ 0 := by
  have hmet : fat16FindItemMet readDirectory [0x72, 0x65, 0x61, 0x64] 2 0 = .ok [1] := rfl
  obtain ⟨item, hitem, hfile⟩ : ∃ item, readDirectory.record 1 = .ok item ∧
      item.attributes &&& fatFileSubdirectory = 0 := ⟨_, rfl, by decide⟩
  obtain ⟨p, -, s', hnew, hp, -⟩ := @exists_fat16NewFatItem image bootFs 0 item untouched_bootFs.1
    (by decide) hfile
  refine ⟨p, s', ?_, hp⟩
  unfold fat16FindItemInDirectory
  rw [show readDirectory.total.toNat = 2 from rfl, fat16FindItemLoop_eq_makeItems hmet, makeItems,
    List.foldlM_cons, readDisk_bind_ok hitem, Fallible.bind_ok hnew]
  rfl

/-- Names of the same letters; and a search for one of them, which tells it
from the `@` before it. -/
theorem names_toldApart_read :
    IgnoresCase [0x72, 0x65, 0x61, 0x64] [0x52, 0x45, 0x41, 0x44] 5 ∧
      ∃ p s', fat16FindItemInDirectory (smallVolume 1 16 fun _ => 0) readDirectory
        [0x72, 0x65, 0x61, 0x64] bootFs = .ok (p, s') ∧ p ≠ 0 ∧
          TellsApart readDirectory [0x72, 0x65, 0x61, 0x64] := by
  obtain ⟨hcase, hsearch⟩ := names_toldApart_iff [0x72, 0x65, 0x61, 0x64] [0x52, 0x45, 0x41, 0x44] 5
    (by decide) (by decide)
  obtain ⟨p, s', hrun, hp⟩ := exists_search_readDirectory (smallVolume 1 16 fun _ => 0)
  exact ⟨hcase.2 (by decide), p, s', hrun, hp, (hsearch _ _ _ _ _ hrun).2 fun _ _ _ _ =>
    not_confusable_of_notMem (by decide) (by decide)⟩

/-- **`@` is taken for the grave accent**, as a string and as a name that is
sought. -/
theorem not_names_toldApart :
    (¬ ∀ (a b : Cstring) (n : ℕ), 0x00 ∉ a → 0x00 ∉ b → IgnoresCase a b n) ∧
      ¬ ∀ (d : FatDirectory) (name : Cstring), 0x00 ∉ name → TellsApart d name := by
  constructor
  · intro h
    have hcase := (h [0x40] [0x60] 1 (by decide) (by decide)).1 (by decide)
    exact absurd hcase (by decide)
  · intro h
    have hmet : fat16FindItemMet atDirectory [0x60] 1 0 = .ok [0] := by
      have hname : fat16GetFullRelativeFilename
          (atDirectory.bytes.drop (sizeofFatDirectoryItem * 0)) osMaxPath = .ok [0x40] := by
        rfl
      unfold fat16FindItemMet
      rw [hname]
      rfl
    refine h atDirectory [0x60] (by decide) 0 (by decide) [0x40] rfl ?_ [0] hmet
      List.mem_cons_self
    exact ⟨0, by decide, by decide, by decide⟩

end OwnKernel
