import OwnKernel.Model.Terminal

/-!
# Where the terminal writes

Every cell written lies on the screen exactly when each character arrives
with the cursor on it (`CursorFits`, `terminalWrites_onScreen_iff`).
Nothing brings the cursor back there: rows are counted up without an end,
and a backspace over the start of a row leaves the column at -1
(`terminalBackspace_at_start`).
-/

namespace OwnKernel

variable {t : Terminal} {c color : Byte} {cs : List (Byte × Byte)}

/-- A write to a cell of the screen. -/
def VideoWrite.OnScreen (w : VideoWrite) : Prop := w.index < vgaWidth * vgaHeight

instance : DecidablePred VideoWrite.OnScreen := fun _ => inferInstanceAs (Decidable (_ < _))

/-- **The cursor is where `c` can be written.** A newline writes nothing.
Any other character needs a cursor on the screen, but for a backspace at
the start of a row, which goes to the row above. -/
def CursorFits (t : Terminal) (c : Byte) : Prop :=
  c = 0x0A ∨ (c = 0x08 ∧ t.col.toNat = 0 ∧ t.row.toNat ≤ vgaHeight) ∨
    (t.col.toNat < vgaWidth ∧ t.row.toNat < vgaHeight)

/-- Every character of a sequence finds the cursor fit. -/
def AllCursorFits (t : Terminal) : List (Byte × Byte) → Prop
  | [] => True
  | (c, color) :: cs => CursorFits t c ∧ AllCursorFits (terminalWritechar t c color).1 cs

/-- The columns a cursor is at after writes to the screen: those of the
screen, and -1. -/
def Terminal.Reached (t : Terminal) : Prop := t.col.toNat < vgaWidth ∨ t.col.toNat = 2 ^ 16 - 1

/-! ## One character -/

/-- A shown character goes to the cursor. -/
theorem terminalShow_writes : (terminalShow t c color).2 =
    [⟨t.row.toNat * vgaWidth + t.col.toNat, terminalMakeChar c color⟩] := by
  unfold terminalShow terminalPutchar
  simp only
  split <;> rfl

/-- The column after a shown character. -/
theorem terminalShow_col : (terminalShow t c color).1.col.toNat =
    if t.col.toNat + 1 = 80 then 0 else (t.col.toNat + 1) % 2 ^ 16 := by
  have hadd : (t.col + 1).toNat = (t.col.toNat + 1) % 2 ^ 16 := BitVec.toNat_add ..
  have hlt := t.col.isLt
  unfold terminalShow vgaWidth
  simp only [hadd]
  by_cases h : t.col.toNat + 1 = 80
  · rw [if_pos (by omega), if_pos h]
    rfl
  · rw [if_neg (by omega), if_neg h]
    exact hadd

/-- **A backspace at the start of a row.** The blank it shows fills the
row above and moves the cursor back down, and the column goes to -1. -/
theorem terminalBackspace_at_start (hcol : t.col.toNat = 0) (hrow : t.row.toNat ≠ 0) :
    (terminalBackspace t).2 = [⟨(t.row.toNat - 1) * vgaWidth + 79, terminalMakeChar 0x20 15⟩] ∧
      (terminalBackspace t).1.col.toNat = 2 ^ 16 - 1 := by
  have hcol0 : t.col = 0 := BitVec.eq_of_toNat_eq hcol
  have hrow0 : t.row ≠ 0 := fun h => hrow (by rw [h]; rfl)
  have hsub : (t.row - 1).toNat = t.row.toNat - 1 := by bv_omega
  have hshow : (terminalShow ⟨t.row - 1, 79⟩ 0x20 15).1.col.toNat = 0 :=
    terminalShow_col.trans (if_pos rfl)
  unfold terminalBackspace
  rw [if_neg (fun h => hrow0 h.1), if_pos hcol0]
  have hwrap : ({ row := t.row - 1, col := BitVec.ofNat 16 vgaWidth - 1 } : Terminal) =
      ⟨t.row - 1, 79⟩ := by rfl
  simp only [hwrap]
  refine ⟨?_, ?_⟩
  · rw [terminalShow_writes, hsub]
    rfl
  · bv_omega

/-- A backspace inside a row goes one column back and stays there. -/
theorem terminalBackspace_inside (hcol : t.col.toNat ≠ 0) :
    (terminalBackspace t).2 =
        [⟨t.row.toNat * vgaWidth + (t.col.toNat - 1), terminalMakeChar 0x20 15⟩] ∧
      (t.col.toNat ≤ vgaWidth - 1 → (terminalBackspace t).1.col.toNat = t.col.toNat - 1) := by
  have hcol0 : t.col ≠ 0 := fun h => hcol (by rw [h]; rfl)
  have hsub : (t.col - 1).toNat = t.col.toNat - 1 := by bv_omega
  unfold terminalBackspace
  rw [if_neg (fun h => hcol0 h.2), if_neg hcol0]
  refine ⟨?_, fun hle => ?_⟩
  · rw [terminalShow_writes, hsub]
  · unfold vgaWidth at hle
    have hshow : (terminalShow ⟨t.row, t.col - 1⟩ 0x20 15).1.col.toNat = t.col.toNat := by
      rw [terminalShow_col, hsub, if_neg (by omega), Nat.mod_eq_of_lt (by omega)]
      omega
    bv_omega

/-- **One character stays on the screen exactly when the cursor fits.** -/
theorem terminalWritechar_onScreen_iff (hr : t.Reached) :
    (∀ w ∈ (terminalWritechar t c color).2, w.OnScreen) ↔ CursorFits t c := by
  unfold terminalWritechar CursorFits Terminal.Reached VideoWrite.OnScreen vgaHeight at *
  by_cases hnl : c = 0x0A
  · rw [if_pos hnl]
    exact ⟨fun _ => Or.inl hnl, fun _ _ hw => absurd hw List.not_mem_nil⟩
  rw [if_neg hnl, or_iff_right hnl]
  by_cases hbs : c = 0x08
  · rw [if_pos hbs, and_iff_right hbs]
    by_cases hcol : t.col.toNat = 0
    · by_cases hrow : t.row.toNat = 0
      · have hstay : terminalBackspace t = (t, []) :=
          if_pos ⟨BitVec.eq_of_toNat_eq hrow, BitVec.eq_of_toNat_eq hcol⟩
        rw [hstay]
        exact ⟨fun _ => Or.inl ⟨hcol, by omega⟩, fun _ _ hw => absurd hw List.not_mem_nil⟩
      · rw [(terminalBackspace_at_start hcol hrow).1, List.forall_mem_singleton]
        simp only [vgaWidth]
        omega
    · rw [(terminalBackspace_inside hcol).1, List.forall_mem_singleton]
      simp only [vgaWidth] at hr ⊢
      omega
  · rw [if_neg hbs, terminalShow_writes, List.forall_mem_singleton]
    simp only [vgaWidth, hbs, false_and, false_or] at hr ⊢
    omega

/-- **A character that fits leaves the cursor at a column of the screen
or at -1.** -/
theorem terminalWritechar_reached (hr : t.Reached) (hfit : CursorFits t c) :
    (terminalWritechar t c color).1.Reached := by
  unfold terminalWritechar CursorFits Terminal.Reached vgaHeight at *
  by_cases hnl : c = 0x0A
  · rw [if_pos hnl]
    exact Or.inl (show 0 < 80 by decide)
  rw [or_iff_right hnl] at hfit
  rw [if_neg hnl]
  by_cases hbs : c = 0x08
  · rw [if_pos hbs]
    by_cases hcol : t.col.toNat = 0
    · by_cases hrow : t.row.toNat = 0
      · have hstay : terminalBackspace t = (t, []) :=
          if_pos ⟨BitVec.eq_of_toNat_eq hrow, BitVec.eq_of_toNat_eq hcol⟩
        rw [hstay]
        exact hr
      · exact Or.inr (terminalBackspace_at_start hcol hrow).2
    · simp only [vgaWidth] at hfit
      have hback := (terminalBackspace_inside hcol).2 (by simp only [vgaWidth]; omega)
      rw [hback]
      simp only [vgaWidth]
      omega
  · rw [if_neg hbs, terminalShow_col]
    simp only [vgaWidth, hbs, false_and, false_or] at hfit ⊢
    by_cases hwrap : t.col.toNat + 1 = 80
    · rw [if_pos hwrap]
      omega
    · rw [if_neg hwrap]
      omega

/-! ## Sequences -/

/-- A sequence stays on the screen exactly when the cursor fits for each
of its characters. -/
theorem terminalWriteAll_onScreen_iff (hr : t.Reached) :
    (∀ w ∈ (terminalWriteAll t cs).2, w.OnScreen) ↔ AllCursorFits t cs := by
  induction cs generalizing t with
  | nil => exact ⟨fun _ => trivial, fun _ _ hw => absurd hw List.not_mem_nil⟩
  | cons p cs ih =>
    obtain ⟨c, color⟩ := p
    unfold terminalWriteAll AllCursorFits
    simp only [List.forall_mem_append, terminalWritechar_onScreen_iff hr]
    exact and_congr_right fun hfit => ih (terminalWritechar_reached hr hfit)

/-- Clearing the screen writes every cell of it and no other. -/
theorem terminalInitalize_onScreen : ∀ w ∈ terminalInitalize.2, w.OnScreen := by
  intro w hw
  obtain ⟨row, hrow, hw⟩ := List.mem_flatMap.1 hw
  obtain ⟨col, hcol, rfl⟩ := List.mem_map.1 hw
  rw [List.mem_range] at hrow hcol
  unfold vgaWidth vgaHeight at *
  unfold VideoWrite.OnScreen terminalPutchar vgaWidth vgaHeight
  simp only
  omega

/-- **When the terminal writes to the screen only.** From
`terminal_initalize` on, every write of a sequence of characters has an
index below `VGA_WIDTH * VGA_HEIGHT` exactly when each character finds the
cursor fit. -/
theorem terminalWrites_onScreen_iff (cs : List (Byte × Byte)) :
    (∀ w ∈ terminalInitalize.2 ++ (terminalWriteAll terminalInitalize.1 cs).2, w.OnScreen) ↔
      AllCursorFits terminalInitalize.1 cs := by
  rw [List.forall_mem_append, terminalWriteAll_onScreen_iff (Or.inl (by decide))]
  exact and_iff_right terminalInitalize_onScreen

/-- **A write past the screen.** A newline, a backspace and a letter: the
letter goes to column 65535. -/
theorem terminalWrites_not_onScreen : ¬ ∀ cs : List (Byte × Byte),
    ∀ w ∈ terminalInitalize.2 ++ (terminalWriteAll terminalInitalize.1 cs).2, w.OnScreen := by
  intro h
  have hlast := h [(0x0A, 15), (0x08, 15), (0x61, 15)] ⟨65615, terminalMakeChar 0x61 15⟩
    (List.mem_append_right _ (by decide))
  exact absurd hlast (by decide)

end OwnKernel
