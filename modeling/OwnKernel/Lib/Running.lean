import Mathlib.Data.List.Basic
import Mathlib.Order.BoundedOrder.Basic
import Mathlib.Order.Lattice

/-!
# Running extremes with a marker

The least and the greatest element of a list, kept while going through
it, where the key `⊥` of what is kept stands for "none yet". For the
greatest the marker does no harm (`foldl_keepGreatest`). For the least it
does: an element with that key is forgotten as soon as another follows
(`foldl_keepLeast_iff`).
-/

namespace OwnKernel

variable {α β : Type} [LinearOrder β] [OrderBot β] {key : α → β} {kept a b : α} {l : List α}

/-- What is kept of `kept` and `a`: the one with the lower key, `a` on a
tie, and `a` when nothing was kept. -/
def keepLeast (key : α → β) (kept a : α) : α :=
  if key a ≤ key kept ∨ key kept = ⊥ then a else kept

/-- The same with the higher key. -/
def keepGreatest (key : α → β) (kept a : α) : α :=
  if key kept ≤ key a ∨ key kept = ⊥ then a else kept

/-! ## The greatest -/

theorem keepGreatest_mem (key : α → β) (kept a : α) :
    keepGreatest key kept a = a ∨ keepGreatest key kept a = kept := by
  unfold keepGreatest
  split
  · exact Or.inl rfl
  · exact Or.inr rfl

/-- The first element is kept. -/
theorem keepGreatest_of_bot (h : key kept = ⊥) : keepGreatest key kept a = a :=
  if_pos (Or.inr h)

theorem key_le_keepGreatest :
    key kept ≤ key (keepGreatest key kept a) ∧ key a ≤ key (keepGreatest key kept a) := by
  unfold keepGreatest
  by_cases h : key kept ≤ key a ∨ key kept = ⊥
  · rw [if_pos h]
    refine ⟨?_, le_rfl⟩
    rcases h with h | h
    · exact h
    · rw [h]
      exact bot_le
  · rw [if_neg h]
    rw [not_or, not_le] at h
    exact ⟨le_rfl, h.1.le⟩

/-- **The greatest is kept**: one of the elements, and none is above. -/
theorem foldl_keepGreatest (key : α → β) (l : List α) : ∀ kept,
    l.foldl (keepGreatest key) kept ∈ kept :: l ∧
      ∀ b ∈ kept :: l, key b ≤ key (l.foldl (keepGreatest key) kept) := by
  induction l with
  | nil =>
    intro kept
    refine ⟨List.mem_singleton_self kept, fun b hb => ?_⟩
    rw [List.mem_singleton.1 hb]
    exact le_rfl
  | cons a l ih =>
    intro kept
    rw [List.foldl_cons]
    obtain ⟨hmem, hle⟩ := ih (keepGreatest key kept a)
    have hnew := hle _ List.mem_cons_self
    constructor
    · rcases List.mem_cons.1 hmem with heq | hl
      · rw [heq]
        rcases keepGreatest_mem key kept a with h | h
        · rw [h]
          exact List.mem_cons_of_mem _ List.mem_cons_self
        · rw [h]
          exact List.mem_cons_self
      · exact List.mem_cons_of_mem _ (List.mem_cons_of_mem _ hl)
    · intro b hb
      rcases List.mem_cons.1 hb with rfl | hb
      · exact key_le_keepGreatest.1.trans hnew
      rcases List.mem_cons.1 hb with rfl | hb
      · exact key_le_keepGreatest.2.trans hnew
      · exact hle b (List.mem_cons_of_mem _ hb)

/-! ## The least -/

theorem keepLeast_mem (key : α → β) (kept a : α) :
    keepLeast key kept a = a ∨ keepLeast key kept a = kept := by
  unfold keepLeast
  split
  · exact Or.inl rfl
  · exact Or.inr rfl

/-- The first element is kept. -/
theorem keepLeast_of_bot (h : key kept = ⊥) : keepLeast key kept a = a := if_pos (Or.inr h)

/-- What is kept has the marker for its key exactly when the last element
has. -/
theorem key_keepLeast_eq_bot : key (keepLeast key kept a) = ⊥ ↔ key a = ⊥ := by
  unfold keepLeast
  by_cases h : key a ≤ key kept ∨ key kept = ⊥
  · rw [if_pos h]
  · rw [if_neg h]
    rw [not_or, not_le] at h
    exact iff_of_false h.2 fun ha => absurd h.1 (by rw [ha]; exact not_lt_bot)

theorem key_keepLeast_le (h : key kept ≠ ⊥) :
    key (keepLeast key kept a) ≤ key kept ∧ key (keepLeast key kept a) ≤ key a := by
  unfold keepLeast
  by_cases hle : key a ≤ key kept
  · rw [if_pos (Or.inl hle)]
    exact ⟨hle, le_rfl⟩
  · rw [if_neg (not_or.2 ⟨hle, h⟩)]
    exact ⟨le_rfl, (not_le.1 hle).le⟩

theorem foldl_keepLeast_mem (key : α → β) (l : List α) : ∀ kept,
    l.foldl (keepLeast key) kept ∈ kept :: l := by
  induction l with
  | nil => exact fun kept => List.mem_singleton_self kept
  | cons a l ih =>
    intro kept
    rw [List.foldl_cons]
    rcases List.mem_cons.1 (ih (keepLeast key kept a)) with heq | hl
    · rw [heq]
      rcases keepLeast_mem key kept a with h | h
      · rw [h]
        exact List.mem_cons_of_mem _ List.mem_cons_self
      · rw [h]
        exact List.mem_cons_self
    · exact List.mem_cons_of_mem _ (List.mem_cons_of_mem _ hl)

/-- Where no element has the marker for its key, the least is kept. -/
theorem foldl_keepLeast_le (l : List α) : ∀ kept, (∀ b ∈ kept :: l, key b ≠ ⊥) →
    ∀ b ∈ kept :: l, key (l.foldl (keepLeast key) kept) ≤ key b := by
  induction l with
  | nil =>
    intro kept _ b hb
    rw [List.mem_singleton.1 hb]
    exact le_rfl
  | cons a l ih =>
    intro kept hne b hb
    rw [List.foldl_cons]
    obtain ⟨hkept, ha⟩ := key_keepLeast_le (a := a) (hne kept List.mem_cons_self)
    have hnew : ∀ b ∈ keepLeast key kept a :: l, key b ≠ ⊥ := by
      intro b hb
      rcases List.mem_cons.1 hb with rfl | hb
      · exact fun h => hne a (List.mem_cons_of_mem _ List.mem_cons_self) (key_keepLeast_eq_bot.1 h)
      · exact hne b (List.mem_cons_of_mem _ (List.mem_cons_of_mem _ hb))
    have hall := ih (keepLeast key kept a) hnew
    rcases List.mem_cons.1 hb with rfl | hb
    · exact (hall _ List.mem_cons_self).trans hkept
    rcases List.mem_cons.1 hb with rfl | hb
    · exact (hall _ List.mem_cons_self).trans ha
    · exact hall b (List.mem_cons_of_mem _ hb)

/-- The marker survives to the end exactly when the last element has it
for its key. -/
theorem key_foldl_keepLeast_eq_bot (l : List α) (kept : α) :
    key (l.foldl (keepLeast key) kept) = ⊥ ↔ key (l.getLastD kept) = ⊥ := by
  rcases List.eq_nil_or_concat l with rfl | ⟨l, a, rfl⟩
  · rfl
  · rw [List.concat_eq_append, List.foldl_append, List.getLastD_concat]
    exact key_keepLeast_eq_bot

/-- **When the least is kept**: no element has the marker for its key, or
the last one has. -/
theorem foldl_keepLeast_iff (key : α → β) (l : List α) (kept : α) :
    (∀ b ∈ kept :: l, key (l.foldl (keepLeast key) kept) ≤ key b) ↔
      ((∃ b ∈ kept :: l, key b = ⊥) → key (l.getLastD kept) = ⊥) := by
  constructor
  · rintro hle ⟨b, hb, hbot⟩
    refine (key_foldl_keepLeast_eq_bot l kept).1 (le_bot_iff.1 ?_)
    rw [← hbot]
    exact hle b hb
  · intro h b hb
    by_cases hbot : ∃ b ∈ kept :: l, key b = ⊥
    · rw [(key_foldl_keepLeast_eq_bot l kept).2 (h hbot)]
      exact bot_le
    · exact foldl_keepLeast_le l kept (fun b hb h0 => hbot ⟨b, hb, h0⟩) b hb

end OwnKernel
