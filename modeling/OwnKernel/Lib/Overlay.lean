import Mathlib.Data.Nat.Notation
import Mathlib.Data.Option.Basic

/-!
# Overlays

A function overlaid with partial ones, one after the other: where several
say something, the last one counts. `overlays_iff` reads a property of
the result off the last layer at a point.
-/

namespace OwnKernel

variable {α β : Type} {f : α → β} {us : ℕ → α → Option β} {P : β → Prop} {n i : ℕ} {x : α} {v : β}

/-- `f`, and over it what the first `n` layers say. -/
def overlays (f : α → β) (us : ℕ → α → Option β) : ℕ → α → β
  | 0 => f
  | n + 1 => fun x => (us n x).getD (overlays f us n x)

theorem overlays_succ :
    overlays f us (n + 1) x = (us n x).getD (overlays f us n x) := rfl

/-- Layers that say the same give the same. -/
theorem overlays_congr {us' : ℕ → α → Option β} (h : ∀ i < n, us i x = us' i x) :
    overlays f us n x = overlays f us' n x := by
  induction n with
  | zero => rfl
  | succ n ih =>
    rw [overlays_succ, overlays_succ, h n (Nat.lt_succ_self n),
      ih fun i hi => h i (Nat.lt_succ_of_lt hi)]

/-- Layer `i` is the last of the first `n` to say something at `x`. -/
def LastAt (us : ℕ → α → Option β) (n i : ℕ) (x : α) (v : β) : Prop :=
  i < n ∧ us i x = some v ∧ ∀ j, i < j → j < n → us j x = none

/-- Layers that say nothing do not count. -/
theorem overlays_of_none {m : ℕ} (h : ∀ j, n ≤ j → us j x = none) :
    overlays f us (n + m) x = overlays f us n x := by
  induction m with
  | zero => rfl
  | succ m ih =>
    rw [← Nat.add_assoc, overlays_succ, h (n + m) (Nat.le_add_right n m)]
    exact ih

/-- A layer that says something is the last one. -/
theorem lastAt_succ_of_some {w : β} (h : us n x = some w) :
    LastAt us (n + 1) i x v ↔ i = n ∧ v = w := by
  constructor
  · rintro ⟨hi, hv, hlast⟩
    rcases Nat.lt_succ_iff_lt_or_eq.1 hi with hlt | rfl
    · rw [hlast n hlt (Nat.lt_succ_self n)] at h
      cases h
    · exact ⟨rfl, Option.some.inj (hv.symm.trans h)⟩
  · rintro ⟨rfl, rfl⟩
    exact ⟨Nat.lt_succ_self i, h, fun j h1 h2 => absurd (Nat.le_of_lt_succ h2) (Nat.not_le.2 h1)⟩

/-- A layer that says nothing leaves the last one as it is. -/
theorem lastAt_succ_of_none (h : us n x = none) : LastAt us (n + 1) i x v ↔ LastAt us n i x v := by
  constructor
  · rintro ⟨hi, hv, hlast⟩
    rcases Nat.lt_succ_iff_lt_or_eq.1 hi with hlt | rfl
    · exact ⟨hlt, hv, fun j h1 h2 => hlast j h1 (Nat.lt_succ_of_lt h2)⟩
    · rw [h] at hv
      cases hv
  · rintro ⟨hi, hv, hlast⟩
    refine ⟨Nat.lt_succ_of_lt hi, hv, fun j h1 h2 => ?_⟩
    rcases Nat.lt_succ_iff_lt_or_eq.1 h2 with hlt | rfl
    · exact hlast j h1 hlt
    · exact h

/-- **The last layer counts**, and where no layer says anything it is
`f`. -/
theorem overlays_iff_cases : P (overlays f us n x) ↔
    (∀ i v, LastAt us n i x v → P v) ∧ ((∀ i < n, us i x = none) → P (f x)) := by
  induction n with
  | zero =>
    refine ⟨fun h => ⟨fun i v hlast => absurd hlast.1 (Nat.not_lt_zero i), fun _ => h⟩, fun h => ?_⟩
    exact h.2 fun i hi => absurd hi (Nat.not_lt_zero i)
  | succ n ih =>
    cases h : us n x with
    | none =>
      have hnone : (∀ i < n + 1, us i x = none) ↔ ∀ i < n, us i x = none := by
        refine ⟨fun hall i hi => hall i (Nat.lt_succ_of_lt hi), fun hall i hi => ?_⟩
        rcases Nat.lt_succ_iff_lt_or_eq.1 hi with hlt | rfl
        · exact hall i hlt
        · exact h
      rw [show overlays f us (n + 1) x = overlays f us n x by rw [overlays_succ, h]; rfl, ih, hnone]
      refine and_congr_left fun _ => forall₂_congr fun i v => ?_
      rw [lastAt_succ_of_none h]
    | some w =>
      rw [show overlays f us (n + 1) x = w by rw [overlays_succ, h]; rfl]
      constructor
      · intro hw
        refine ⟨fun i v hlast => ?_, fun hall => ?_⟩
        · obtain ⟨-, rfl⟩ := (lastAt_succ_of_some h).1 hlast
          exact hw
        · rw [hall n (Nat.lt_succ_self n)] at h
          cases h
      · exact fun hall => hall.1 n w ((lastAt_succ_of_some h).2 ⟨rfl, rfl⟩)

/-- Where `f` has a property, the result has it exactly when the last
layer's value does. -/
theorem overlays_iff (hf : P (f x)) :
    P (overlays f us n x) ↔ ∀ i v, LastAt us n i x v → P v :=
  overlays_iff_cases.trans (and_iff_left fun _ => hf)

end OwnKernel
