import Mathlib.Data.Nat.Basic
import Mathlib.Tactic.Common

/-!
# Scanning for a run

A left-to-right scan of the cells `0, 1, 2, …` for `k` consecutive cells
that satisfy `P` carries one number: how many cells directly below the
current index satisfy it. `Scan P k i c` is what such a scan knows at
index `i` with count `c`, and the three lemmas after `start` are its
moves: the cell fails, the cell extends the stretch, the cell completes
it. The scan passes no run, so the one it stops at is the lowest.
-/

namespace OwnKernel

variable {P : ℕ → Prop} {k i c b total : ℕ}

/-- The `k` cells from `b` on lie below `total` and satisfy `P`. -/
def Fits (P : ℕ → Prop) (total k b : ℕ) : Prop :=
  b + k ≤ total ∧ ∀ i, b ≤ i → i < b + k → P i

/-- Enlarging the range keeps a fit. -/
theorem Fits.mono {total' : ℕ} (h : Fits P total k b) (hle : total ≤ total') :
    Fits P total' k b :=
  ⟨le_trans h.1 hle, h.2⟩

/-- The lowest fit: no run starts below it. -/
def FirstFit (P : ℕ → Prop) (total k b : ℕ) : Prop :=
  Fits P total k b ∧ ∀ b', b' < b → ¬ Fits P total k b'

/-- There is one lowest fit. -/
theorem FirstFit.unique {b' : ℕ} (h : FirstFit P total k b) (h' : FirstFit P total k b') :
    b = b' := by
  rcases Nat.lt_trichotomy b b' with hlt | heq | hlt
  · exact absurd h.1 (h'.2 b hlt)
  · exact heq
  · exact absurd h'.1 (h.2 b' hlt)

/-- **What a scan knows at index `i`.** It has passed no run, the `c`
cells below `i` satisfy `P`, no longer stretch below `i` does, and the
count is short of `k`. -/
structure Scan (P : ℕ → Prop) (k i c : ℕ) : Prop where
  passed : ∀ b, ¬ Fits P i k b
  le : c ≤ i
  run : ∀ j, i ≤ j + c → j < i → P j
  maximal : c < i → ¬ P (i - c - 1)
  lt : c < k

namespace Scan

/-- A scan starts with nothing seen. -/
theorem start (hk : 0 < k) : Scan P k 0 0 where
  passed b h := by have := h.1; omega
  le := le_rfl
  run _ _ h := absurd h (Nat.not_lt_zero _)
  maximal h := absurd h (Nat.not_lt_zero _)
  lt := hk

/-- A failing cell resets the count. -/
theorem reset (h : Scan P k i c) (hi : ¬ P i) : Scan P k (i + 1) 0 where
  passed b hb := by
    have hk := h.lt
    by_cases hle : b + k ≤ i
    · exact h.passed b ⟨hle, hb.2⟩
    · exact hi (hb.2 i (by have := hb.1; omega) (by omega))
  le := Nat.zero_le _
  run j h1 h2 := by omega
  maximal _ := by simpa using hi
  lt := by have := h.lt; omega

/-- A cell that satisfies `P` extends the stretch. -/
theorem extend (h : Scan P k i c) (hi : P i) (hlt : c + 1 < k) : Scan P k (i + 1) (c + 1) where
  passed b hb := by
    by_cases hle : b + k ≤ i
    · exact h.passed b ⟨hle, hb.2⟩
    · -- a run ending at `i` is longer than the stretch, so it holds the failing cell
      have hb1 := hb.1
      have hci : c < i := by omega
      exact h.maximal hci (hb.2 _ (by omega) (by omega))
  le := by have := h.le; omega
  run j h1 h2 := by
    by_cases hj : j = i
    · exact hj ▸ hi
    · exact h.run j (by omega) (by omega)
  maximal hci := by
    have hm := h.maximal (by omega)
    rwa [show i + 1 - (c + 1) - 1 = i - c - 1 by omega]
  lt := hlt

/-- **The cell that completes the stretch completes the lowest run.** -/
theorem firstFit (h : Scan P k i c) (hi : P i) (hk : c + 1 = k) (htot : i < total) :
    FirstFit P total k (i - c) := by
  have hci := h.le
  refine ⟨⟨by omega, fun j h1 h2 => ?_⟩, fun b' hlt hb' => ?_⟩
  · by_cases hj : j = i
    · exact hj ▸ hi
    · exact h.run j (by omega) (by omega)
  · exact h.passed b' ⟨by omega, hb'.2⟩

end Scan

end OwnKernel
