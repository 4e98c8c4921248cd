import OwnKernel.Terminal.Bounds

/-!
# What a backspace takes back

The blank that `terminal_backspace` shows wraps the cursor to the next row
when it fills this one. Inside a row a backspace undoes a character; of a
character in the last column it does not (`backspaceUndoes_iff`), and at
the start of a row it takes the column to -1, off the screen
(`terminalWriteAll_col_lt_iff`).
-/

namespace OwnKernel

variable {t : Terminal} {c color color' : Byte} {cs : List (Byte × Byte)}

/-- A printable character. -/
def Printable (c : Byte) : Prop := 0x20 ≤ c.toNat ∧ c.toNat ≤ 0x7E

instance : DecidablePred Printable := fun _ => inferInstanceAs (Decidable (_ ∧ _))

/-- The index of the cell the cursor is at. -/
def Terminal.index (t : Terminal) : ℕ := t.row.toNat * vgaWidth + t.col.toNat

/-- **A backspace undoes `c`**: after both the cursor is where it was, and
the cell there, the only one written, is blank. -/
structure BackspaceUndoes (t : Terminal) (c color color' : Byte) : Prop where
  cursor : (terminalWriteAll t [(c, color), (0x08, color')]).1 = t
  cells : ∀ w ∈ (terminalWriteAll t [(c, color), (0x08, color')]).2, w.index = t.index
  blank : (terminalWriteAll t [(c, color), (0x08, color')]).2.getLast? =
    some ⟨t.index, terminalMakeChar 0x20 15⟩

/-! ## One character -/

/-- A character shown before the last column. -/
theorem terminalShow_inside (h : t.col.toNat + 1 < vgaWidth) :
    terminalShow t c color = (⟨t.row, t.col + 1⟩, [⟨t.index, terminalMakeChar c color⟩]) := by
  unfold vgaWidth at h
  have hadd : (t.col + 1).toNat = t.col.toNat + 1 := by bv_omega
  unfold terminalShow
  simp only
  rw [if_neg (by unfold vgaWidth; omega)]
  rfl

/-- A character shown in the last column. -/
theorem terminalShow_last (h : t.col.toNat + 1 = vgaWidth) :
    terminalShow t c color = (⟨t.row + 1, 0⟩, [⟨t.index, terminalMakeChar c color⟩]) := by
  unfold vgaWidth at h
  have hadd : (t.col + 1).toNat = 80 := by bv_omega
  unfold terminalShow
  simp only
  rw [if_pos (by unfold vgaWidth; exact hadd)]
  rfl

/-- A backspace inside a row. -/
theorem terminalBackspace_of_pos (h0 : 0 < t.col.toNat) (h : t.col.toNat < vgaWidth) :
    terminalBackspace t = (⟨t.row, t.col - 1⟩,
      [⟨(⟨t.row, t.col - 1⟩ : Terminal).index, terminalMakeChar 0x20 15⟩]) := by
  have hcol : t.col ≠ 0 := fun heq => by
    rw [heq] at h0
    exact Nat.lt_irrefl 0 h0
  have hback : (t.col - 1).toNat + 1 = t.col.toNat := by bv_omega
  have hshow : terminalShow ⟨t.row, t.col - 1⟩ 0x20 15 = (⟨t.row, t.col - 1 + 1⟩,
      [⟨(⟨t.row, t.col - 1⟩ : Terminal).index, terminalMakeChar 0x20 15⟩]) :=
    terminalShow_inside (hback.trans_lt h)
  unfold terminalBackspace
  rw [if_neg (fun hz => hcol hz.2), if_neg hcol]
  simp only [hshow, BitVec.add_sub_cancel]

/-- A printable character is shown. -/
theorem terminalWritechar_printable (h : Printable c) :
    terminalWritechar t c color = terminalShow t c color := by
  unfold Printable at h
  unfold terminalWritechar
  rw [if_neg (by rintro rfl; exact absurd h (by decide)),
    if_neg (by rintro rfl; exact absurd h (by decide))]

theorem terminalWriteAll_two (h : Printable c) :
    terminalWriteAll t [(c, color), (0x08, color')] =
      ((terminalBackspace (terminalShow t c color).1).1,
        (terminalShow t c color).2 ++ ((terminalBackspace (terminalShow t c color).1).2 ++ [])) := by
  unfold terminalWriteAll
  rw [terminalWritechar_printable h]
  rfl

/-- **A backspace undoes a character, but for one in the last column.** -/
theorem backspaceUndoes_iff (hcol : t.col.toNat < vgaWidth) (hc : Printable c) :
    BackspaceUndoes t c color color' ↔ t.col.toNat + 1 ≠ vgaWidth := by
  constructor
  · rintro ⟨hcursor, -, -⟩ hlast
    rw [terminalWriteAll_two hc, terminalShow_last hlast] at hcursor
    have hcol' := congrArg (fun t : Terminal => t.col.toNat) hcursor
    unfold vgaWidth at hlast hcol
    by_cases hrow : (t.row + 1).toNat = 0
    · -- the row has wrapped too, and the backspace does nothing
      have hstay : terminalBackspace ⟨t.row + 1, 0⟩ = (⟨t.row + 1, 0⟩, []) :=
        if_pos ⟨BitVec.eq_of_toNat_eq hrow, rfl⟩
      rw [hstay] at hcol'
      have hzero : 0 = t.col.toNat := hcol'
      omega
    · have hoff := (@terminalBackspace_at_start ⟨t.row + 1, 0⟩ rfl hrow).2
      have heq : t.col.toNat = 2 ^ 16 - 1 := hcol'.symm.trans hoff
      omega
  · intro hne
    have hlt : t.col.toNat + 1 < vgaWidth := by
      unfold vgaWidth at *
      omega
    have hadd : (t.col + 1).toNat = t.col.toNat + 1 := by
      unfold vgaWidth at hlt
      bv_omega
    have hback := @terminalBackspace_of_pos ⟨t.row, t.col + 1⟩
      (by simp only [hadd]; omega) (by simp only [hadd]; exact hlt)
    simp only [BitVec.add_sub_cancel] at hback
    have htwo : terminalWriteAll t [(c, color), (0x08, color')] =
        (t, [⟨t.index, terminalMakeChar c color⟩, ⟨t.index, terminalMakeChar 0x20 15⟩]) := by
      rw [terminalWriteAll_two hc, terminalShow_inside hlt]
      simp only [hback]
      rfl
    refine ⟨by rw [htwo], fun w hw => ?_, by rw [htwo]; rfl⟩
    rw [htwo] at hw
    rcases List.mem_cons.1 hw with rfl | hw
    · rfl
    · rw [List.mem_singleton.1 hw]

/-! ## Sequences -/

/-- No backspace of a sequence is at the start of a row below the
first. -/
def NoBackspaceAtStart (t : Terminal) : List (Byte × Byte) → Prop
  | [] => True
  | (c, color) :: cs => ¬ (c = 0x08 ∧ t.col = 0 ∧ t.row ≠ 0) ∧
      NoBackspaceAtStart (terminalWritechar t c color).1 cs

/-- **One character keeps the column on the screen** exactly when it is no
backspace at the start of a row below the first. -/
theorem terminalWritechar_col_lt_iff (hcol : t.col.toNat < vgaWidth) :
    (terminalWritechar t c color).1.col.toNat < vgaWidth ↔
      ¬ (c = 0x08 ∧ t.col = 0 ∧ t.row ≠ 0) := by
  unfold terminalWritechar
  by_cases hnl : c = 0x0A
  · rw [if_pos hnl, hnl]
    exact iff_of_true (show 0 < 80 by decide) (fun h => absurd h.1 (by decide))
  rw [if_neg hnl]
  by_cases hbs : c = 0x08
  · rw [if_pos hbs]
    by_cases h0 : t.col = 0
    · by_cases hrow : t.row = 0
      · have hstay : terminalBackspace t = (t, []) := if_pos ⟨hrow, h0⟩
        rw [hstay]
        exact iff_of_true hcol (fun h => h.2.2 hrow)
      · have hrow' : t.row.toNat ≠ 0 := fun h => hrow (BitVec.eq_of_toNat_eq h)
        have hcol' : t.col.toNat = 0 := by
          rw [h0]
          rfl
        rw [(terminalBackspace_at_start hcol' hrow').2]
        exact iff_of_false (by unfold vgaWidth; omega) (fun h => h ⟨hbs, h0, hrow⟩)
    · have hpos : 0 < t.col.toNat :=
        Nat.pos_of_ne_zero fun h => h0 (BitVec.eq_of_toNat_eq h)
      have hback : (terminalBackspace t).1.col.toNat = t.col.toNat - 1 :=
        (terminalBackspace_inside hpos.ne').2 (by omega)
      rw [hback]
      exact iff_of_true (by omega) (fun h => h0 h.2.1)
  · rw [if_neg hbs, terminalShow_col]
    refine iff_of_true ?_ (fun h => hbs h.1)
    unfold vgaWidth at hcol ⊢
    split <;> omega

theorem terminalWriteAll_cons :
    (terminalWriteAll t ((c, color) :: cs)).1 =
      (terminalWriteAll (terminalWritechar t c color).1 cs).1 := rfl

/-- **A sequence keeps the column on the screen throughout** exactly when
no backspace in it is at the start of a row below the first. -/
theorem terminalWriteAll_col_lt_iff (hcol : t.col.toNat < vgaWidth) :
    (∀ pre, pre <+: cs → (terminalWriteAll t pre).1.col.toNat < vgaWidth) ↔
      NoBackspaceAtStart t cs := by
  induction cs generalizing t with
  | nil =>
    refine iff_of_true (fun pre hpre => ?_) trivial
    rw [List.prefix_nil.1 hpre]
    exact hcol
  | cons p cs ih =>
    obtain ⟨c, color⟩ := p
    unfold NoBackspaceAtStart
    have hone : (terminalWritechar t c color).1.col.toNat < vgaWidth ↔
        ¬ (c = 0x08 ∧ t.col = 0 ∧ t.row ≠ 0) := terminalWritechar_col_lt_iff hcol
    rw [← hone]
    constructor
    · intro h
      have hfirst := h [(c, color)] ⟨cs, rfl⟩
      refine ⟨hfirst, (ih hfirst).1 fun pre hpre => ?_⟩
      exact h ((c, color) :: pre) (List.cons_prefix_cons.2 ⟨rfl, hpre⟩)
    · rintro ⟨hfirst, hrest⟩ pre hpre
      cases pre with
      | nil => exact hcol
      | cons p pre =>
        obtain ⟨rfl, hrest'⟩ := List.cons_prefix_cons.1 hpre
        exact (ih hfirst).2 hrest pre hrest'

/-- **When a backspace takes a character back.** From `terminal_initalize`
on, in a state with the column on the screen: exactly when the character
is not in the last column. And the column stays on the screen exactly as
long as no backspace is at the start of a row below the first. -/
theorem terminalBackspace_undoes (cs : List (Byte × Byte)) :
    (∀ t c color color', t = (terminalWriteAll terminalInitalize.1 cs).1 →
      t.col.toNat < vgaWidth → Printable c →
      (BackspaceUndoes t c color color' ↔ t.col.toNat + 1 ≠ vgaWidth)) ∧
    ((∀ pre, pre <+: cs → (terminalWriteAll terminalInitalize.1 pre).1.col.toNat < vgaWidth) ↔
      NoBackspaceAtStart terminalInitalize.1 cs) :=
  ⟨fun _ _ _ _ _ hcol hc => backspaceUndoes_iff hcol hc,
    terminalWriteAll_col_lt_iff (show 0 < 80 by decide)⟩

/-- After one letter, with the cursor in column 1. -/
theorem terminalBackspace_undoes_one_letter :
    BackspaceUndoes (terminalWriteAll terminalInitalize.1 [(0x61, 15)]).1 0x62 15 0 ∧
    (terminalWriteAll terminalInitalize.1 [(0x61, 15)]).1.col.toNat < vgaWidth := by
  obtain ⟨hundo, hcol⟩ := terminalBackspace_undoes [(0x61, 15)]
  have hlt := hcol.2 ⟨by decide, trivial⟩ [(0x61, 15)] List.prefix_rfl
  exact ⟨(hundo _ 0x62 15 0 rfl hlt (by decide)).2 (by decide), hlt⟩

/-- A letter typed `n` times in a row of the screen. -/
theorem terminalWriteAll_replicate : ∀ (n : ℕ) (t : Terminal), t.col.toNat + n < vgaWidth →
    (terminalWriteAll t (List.replicate n (0x61, 15))).1 = ⟨t.row, t.col + BitVec.ofNat 16 n⟩
  | 0, t, _ => by
    have hcol : t.col + BitVec.ofNat 16 0 = t.col := BitVec.add_zero t.col
    rw [hcol]
    rfl
  | n + 1, t, h => by
    have hshow : terminalWritechar t 0x61 15 =
        (⟨t.row, t.col + 1⟩, [⟨t.index, terminalMakeChar 0x61 15⟩]) :=
      (terminalWritechar_printable (by decide)).trans (terminalShow_inside (by omega))
    have hadd : (t.col + 1).toNat = t.col.toNat + 1 := by
      unfold vgaWidth at h
      bv_omega
    rw [List.replicate_succ, terminalWriteAll_cons, hshow,
      terminalWriteAll_replicate n _ (by simp only [hadd]; omega)]
    simp only [BitVec.add_assoc, Nat.add_comm n 1, BitVec.ofNat_add]
    rfl

/-- **Neither half holds of every state**: eighty letters and a backspace
leave the cursor in the next row, and a newline and a backspace leave the
column at -1. -/
theorem not_terminalBackspace_undoes :
    ¬ (∀ (cs : List (Byte × Byte)) (c color color' : Byte),
      (terminalWriteAll terminalInitalize.1 cs).1.col.toNat < vgaWidth → Printable c →
      BackspaceUndoes (terminalWriteAll terminalInitalize.1 cs).1 c color color') ∧
    ¬ ∀ cs : List (Byte × Byte), (terminalWriteAll terminalInitalize.1 cs).1.col.toNat < vgaWidth := by
  refine ⟨fun h => ?_, fun h => absurd (h [(0x0A, 15), (0x08, 15)]) (by decide)⟩
  have hlast := terminalWriteAll_replicate 79 terminalInitalize.1 (show 0 + 79 < 80 by decide)
  have hcol : (terminalWriteAll terminalInitalize.1 (List.replicate 79 (0x61, 15))).1.col.toNat = 79 := by
    rw [hlast]
    rfl
  have hlt : (terminalWriteAll terminalInitalize.1 (List.replicate 79 (0x61, 15))).1.col.toNat <
      vgaWidth := by
    rw [hcol]
    decide
  refine (backspaceUndoes_iff hlt (show Printable 0x61 by decide)).1 (h _ 0x61 15 15 hlt (by decide)) ?_
  rw [hcol]
  rfl

end OwnKernel
