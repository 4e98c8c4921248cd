import Mathlib.Data.List.Range
import Mathlib.Data.List.GetD
import Mathlib.Data.List.Chain
import Mathlib.Tactic.Ring

/-!
# Sequences in pieces

A sequence of `n` values given by index, `tabulate f n`, and what is made
of pieces of one length laid end to end: value `i` of the whole is value
`i % size` of piece `i / size` (`flatMap_tabulate`).
-/

namespace OwnKernel

variable {α β : Type*} {f g : ℕ → β} {a b m n size : ℕ}

/-- The values of `f` below `n`. -/
def tabulate (f : ℕ → β) (n : ℕ) : List β := (List.range n).map f

@[simp] theorem length_tabulate : (tabulate f n).length = n := by
  simp [tabulate]

@[simp] theorem tabulate_zero : tabulate f 0 = [] := rfl

/-- One stretch after the other. -/
theorem tabulate_add : tabulate f (a + b) = tabulate f a ++ tabulate (fun i => f (a + i)) b := by
  unfold tabulate
  rw [List.range_add, List.map_append, List.map_map]
  rfl

/-- Sequences of one length are equal when their values are. -/
theorem tabulate_inj : tabulate f n = tabulate g n ↔ ∀ i < n, f i = g i := by
  unfold tabulate
  rw [List.map_inj_left]
  simp only [List.mem_range]

/-- A shorter sequence is the start of a longer one. -/
theorem take_tabulate (h : m ≤ n) : (tabulate f n).take m = tabulate f m := by
  unfold tabulate
  rw [← List.map_take, List.take_range, Nat.min_eq_left h]

/-- One value of a sequence. -/
theorem getD_tabulate {d : β} (h : m < n) : (tabulate f n).getD m d = f m := by
  rw [List.getD_eq_getElem _ _ (by simpa using h)]
  simp [tabulate]

/-- **Pieces of one length laid end to end.** -/
theorem flatMap_tabulate (h : 0 < size) (d : α) (f : α → ℕ → β) : ∀ pieces : List α,
    (pieces.flatMap fun c => tabulate (f c) size) =
      tabulate (fun i => f (pieces.getD (i / size) d) (i % size)) (pieces.length * size)
  | [] => by simp
  | c :: pieces => by
    rw [List.flatMap_cons, flatMap_tabulate h d f pieces, List.length_cons, Nat.add_one_mul,
      Nat.add_comm, tabulate_add]
    congr 1
    · refine tabulate_inj.2 fun i hi => ?_
      rw [Nat.div_eq_of_lt hi, Nat.mod_eq_of_lt hi]
      rfl
    · refine tabulate_inj.2 fun i _ => ?_
      rw [Nat.add_div_left _ h, Nat.add_mod_left]
      rfl

end OwnKernel
