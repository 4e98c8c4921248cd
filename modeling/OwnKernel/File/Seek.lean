import OwnKernel.File.Cursor

/-!
# Seeks of one descriptor

`fat16_seek` checks the offset it is given, and not the position that is
made of it: two seeks from the current position, each of them by less
than the file's size, can end behind the file. `seekRun_below` says which
seeks keep the position in the file, over runs of any length.
-/

namespace OwnKernel

variable {fat : FatPrivate} {item : FatDirectoryItem} {s s' t : FsState} {fd offset : ℤ}
variable {pos : Word} {whence : FileSeekMode} {filesize : ℕ}

/-- **A seek that keeps the position inside the file.** One from the
current position, by an offset that is accepted, ends before the file's
end or goes round 2^32. -/
def Stays (filesize : ℕ) (pos offset : Word) (whence : FileSeekMode) : Prop :=
  whence = .cur → offset.toNat < filesize →
    pos.toNat + offset.toNat < filesize ∨ 2 ^ 32 ≤ pos.toNat + offset.toNat

/-- **A run of `fseek` calls on one descriptor**, each with a position,
an offset and a mode that `P` holds of. -/
inductive SeekRun (fd : ℤ) (fat : FatPrivate) (item : FatDirectoryItem)
    (P : Word → Word → FileSeekMode → Prop) (s : FsState) : FsState → Prop
  | opened : SeekRun fd fat item P s s
  | fseek {t t' : FsState} {offset res : ℤ} {whence : FileSeekMode} :
      SeekRun fd fat item P s t →
      (∀ pos, OpenFile t fd fat item pos → P pos (BitVec.ofInt 32 offset) whence) →
      fseek fd offset whence t = .ok (res, t') → SeekRun fd fat item P s t'

/-- A seek that is an error leaves the position. -/
theorem seekPosition_of_error {offset : Word}
    (h : OpenFile.seekResult filesize offset whence < 0) :
    OpenFile.seekPosition filesize pos offset whence = pos := by
  unfold OpenFile.seekResult at h
  unfold OpenFile.seekPosition
  by_cases hin : filesize ≤ offset.toNat
  · rw [if_pos hin]
  · rw [if_neg hin] at h ⊢
    cases whence with
    | set => exact absurd h (by decide)
    | cur => exact absurd h (by decide)
    | endOfFile => rfl
    | other => rfl

/-- **One seek**, from a position inside the file. -/
theorem seekPosition_lt_iff {offset : Word} (h : pos.toNat < filesize) :
    (OpenFile.seekPosition filesize pos offset whence).toNat < filesize ↔
      Stays filesize pos offset whence := by
  unfold OpenFile.seekPosition Stays
  by_cases hin : filesize ≤ offset.toNat
  · rw [if_pos hin]
    exact iff_of_true h fun _ hlt => absurd hin (by omega)
  rw [if_neg hin]
  have hlt := pos.isLt
  have hlt' := offset.isLt
  cases whence with
  | set => exact iff_of_true (not_le.1 hin) fun hcur => by cases hcur
  | cur =>
    change (pos + offset).toNat < filesize ↔ _
    rw [BitVec.toNat_add]
    constructor
    · intro hsum _ _
      omega
    · intro hstays
      have hsum := hstays rfl (by omega)
      omega
  | endOfFile => exact iff_of_true h fun hcur => by cases hcur
  | other => exact iff_of_true h fun hcur => by cases hcur

/-- **Seeks of one descriptor.** In a run of seeks that keep the position
inside the file, the position of every state is inside it. From there the
next seek does not move the position if it is an error, and leaves it
inside the file exactly when it is such a seek too. -/
theorem seekRun_below (hopen : OpenFile s fd fat item 0) (hfile : 0 < item.filesize.toNat)
    (run : SeekRun fd fat item (Stays item.filesize.toNat) s t) :
    ∃ pos, OpenFile t fd fat item pos ∧ pos.toNat < item.filesize.toNat ∧
      ∀ offset whence, ∃ res t' pos', fseek fd offset whence t = .ok (res, t') ∧
        OpenFile t' fd fat item pos' ∧ (res < 0 → pos' = pos) ∧
        (pos'.toNat < item.filesize.toNat ↔
          Stays item.filesize.toNat pos (BitVec.ofInt 32 offset) whence) := by
  have hinside : ∃ pos, OpenFile t fd fat item pos ∧ pos.toNat < item.filesize.toNat := by
    induction run with
    | opened => exact ⟨0, hopen, hfile⟩
    | @fseek t t' offset res whence run hstays hseek ih =>
      obtain ⟨pos, f, hpos⟩ := ih
      obtain ⟨t₁, hseek', f'⟩ := f.fseek_eq offset whence
      rw [hseek] at hseek'
      obtain ⟨-, rfl⟩ := Prod.mk.inj (Except.ok.inj hseek')
      exact ⟨_, f', (seekPosition_lt_iff hpos).2 (hstays pos f)⟩
  obtain ⟨pos, f, hpos⟩ := hinside
  refine ⟨pos, f, hpos, fun offset whence => ?_⟩
  obtain ⟨t', hseek, f'⟩ := f.fseek_eq offset whence
  exact ⟨_, t', _, hseek, f', seekPosition_of_error, seekPosition_lt_iff hpos⟩

/-- The file of two bytes, after a seek by a byte. -/
theorem seekRun_below_byte : ∃ t,
    SeekRun 1 twoClusterFat twoByteItem (Stays twoByteItem.filesize.toNat) openTwoByte t ∧
      ∃ pos, OpenFile t 1 twoClusterFat twoByteItem pos ∧
        pos.toNat < twoByteItem.filesize.toNat ∧ pos = 1 ∧
        ∀ offset whence, ∃ res t' pos', fseek 1 offset whence t = .ok (res, t') ∧
          OpenFile t' 1 twoClusterFat twoByteItem pos' ∧ (res < 0 → pos' = pos) ∧
          (pos'.toNat < twoByteItem.filesize.toNat ↔
            Stays twoByteItem.filesize.toNat pos (BitVec.ofInt 32 offset) whence) := by
  obtain ⟨t, hseek, hopen⟩ := openFile_openTwoByte.fseek_eq 1 .cur
  have run : SeekRun 1 twoClusterFat twoByteItem (Stays twoByteItem.filesize.toNat) openTwoByte t := by
    refine .fseek .opened (fun pos hpos _ _ => Or.inl ?_) hseek
    rw [hpos.pos_unique openFile_openTwoByte]
    decide
  obtain ⟨pos, hpos, hlt, hnext⟩ := seekRun_below openFile_openTwoByte (by decide) run
  exact ⟨t, run, pos, hpos, hlt, hpos.pos_unique hopen, hnext⟩

/-- **Two seeks by a byte** leave a file of two bytes. -/
theorem not_seekRun_below :
    ¬ ∀ (s t : FsState) (fd : ℤ) (fat : FatPrivate) (item : FatDirectoryItem),
      OpenFile s fd fat item 0 → 0 < item.filesize.toNat →
        SeekRun fd fat item (fun _ _ _ => True) s t →
        ∃ pos, OpenFile t fd fat item pos ∧ pos.toNat < item.filesize.toNat := by
  intro h
  obtain ⟨t₁, hfirst, f₁⟩ := openFile_openTwoByte.fseek_eq 1 .cur
  obtain ⟨t₂, hsecond, f₂⟩ := f₁.fseek_eq 1 .cur
  have run : SeekRun 1 twoClusterFat twoByteItem (fun _ _ _ => True) openTwoByte t₂ :=
    .fseek (.fseek .opened (fun _ _ => trivial) hfirst) (fun _ _ => trivial) hsecond
  obtain ⟨pos, f, hlt⟩ := h _ _ _ _ _ openFile_openTwoByte (by decide) run
  rw [f.pos_unique f₂] at hlt
  exact absurd hlt (by decide)

end OwnKernel
