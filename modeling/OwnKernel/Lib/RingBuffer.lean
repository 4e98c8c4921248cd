import Mathlib.Data.Nat.ModEq
import Mathlib.Data.List.GetD
import Mathlib.Logic.Function.Basic
import Mathlib.Tactic.Common

/-!
# Ring buffers without a count

A ring of `size` cells that holds a queue from a running position `head`
on, where a cell outside the queue holds a blank: there is no count, and
the queue is empty exactly when the cell at `head` is blank
(`RingHolds.blank_iff`). Pushing behind the queue and popping at `head`
are those of the queue (`RingHolds.push`, `RingHolds.pop`). Only `head`
modulo `size` matters, so it may be any counter that wraps at a multiple
of `size`.
-/

namespace OwnKernel

variable {α : Type*} {cells : ℕ → α} {blank c : α} {size head i j : ℕ} {q : List α}

/-- **The ring holds the queue `q` from `head` on**, and blanks
elsewhere. -/
structure RingHolds (cells : ℕ → α) (blank : α) (size head : ℕ) (q : List α) : Prop where
  fits : q.length ≤ size
  cell : ∀ i (hi : i < q.length), cells ((head + i) % size) = q[i]
  ne_blank : ∀ c ∈ q, c ≠ blank
  blank : ∀ i, q.length ≤ i → i < size → cells ((head + i) % size) = blank

/-- Cells at different distances from `head` are different cells. -/
theorem ring_index_inj (hi : i < size) (hj : j < size)
    (h : (head + i) % size = (head + j) % size) : i = j := by
  have hmod : i ≡ j [MOD size] := Nat.ModEq.add_left_cancel' head h
  unfold Nat.ModEq at hmod
  rwa [Nat.mod_eq_of_lt hi, Nat.mod_eq_of_lt hj] at hmod

namespace RingHolds

/-- A ring of blanks holds the empty queue. -/
theorem nil (h : ∀ i, cells i = blank) : RingHolds cells blank size head [] :=
  ⟨Nat.zero_le _, fun _ hi => absurd hi (Nat.not_lt_zero _), fun _ hc => absurd hc List.not_mem_nil,
    fun _ _ _ => h _⟩

/-- Only the position of `head` on the ring matters. -/
theorem congr_head {head' : ℕ} (h : RingHolds cells blank size head q)
    (hh : head' % size = head % size) : RingHolds cells blank size head' q := by
  have hadd : ∀ i, (head' + i) % size = (head + i) % size := fun i => by
    rw [Nat.add_mod, hh, ← Nat.add_mod]
  exact ⟨h.fits, fun i hi => by rw [hadd]; exact h.cell i hi, h.ne_blank,
    fun i h1 h2 => by rw [hadd]; exact h.blank i h1 h2⟩

/-- **The queue is empty exactly when the cell at `head` is blank.** -/
theorem blank_iff (h : RingHolds cells blank size head q) (hsize : 0 < size) :
    cells (head % size) = blank ↔ q = [] := by
  cases q with
  | nil => exact ⟨fun _ => rfl, fun _ => h.blank 0 le_rfl hsize⟩
  | cons c q =>
    have hcell : cells (head % size) = c := h.cell 0 (Nat.succ_pos _)
    refine ⟨fun hb => absurd (hcell.symm.trans hb) (h.ne_blank c (List.mem_cons_self ..)),
      fun hq => absurd hq (List.cons_ne_nil _ _)⟩

/-- **Pushing** fills the cell behind the queue. -/
theorem push (h : RingHolds cells blank size head q) (hroom : q.length < size) (hc : c ≠ blank) :
    RingHolds (Function.update cells ((head + q.length) % size) c) blank size head (q ++ [c]) where
  fits := by
    rw [List.length_append, List.length_singleton]
    exact hroom
  cell i hi := by
    rw [List.length_append, List.length_singleton] at hi
    rcases Nat.lt_succ_iff_lt_or_eq.1 hi with hlt | rfl
    · have hne : (head + i) % size ≠ (head + q.length) % size := fun he =>
        Nat.ne_of_lt hlt (ring_index_inj (by omega) hroom he)
      rw [Function.update_of_ne hne, h.cell i hlt, List.getElem_append_left hlt]
    · rw [Function.update_self]
      simp
  ne_blank d hd := by
    rcases List.mem_append.1 hd with hd | hd
    · exact h.ne_blank d hd
    · exact List.mem_singleton.1 hd ▸ hc
  blank i h1 h2 := by
    rw [List.length_append, List.length_singleton] at h1
    have hne : (head + i) % size ≠ (head + q.length) % size := fun he =>
      absurd (ring_index_inj h2 hroom he) (by omega)
    rw [Function.update_of_ne hne]
    exact h.blank i (by omega) h2

/-- **Popping** takes the value at `head`, blanks its cell and moves on. -/
theorem pop (h : RingHolds cells blank size head (c :: q)) :
    cells (head % size) = c ∧
      RingHolds (Function.update cells (head % size) blank) blank size (head + 1) q := by
  have hfits : q.length + 1 ≤ size := h.fits
  have hhead : head % size = (head + 0) % size := rfl
  have hnext : ∀ i, head + 1 + i = head + (i + 1) := fun i => by omega
  refine ⟨h.cell 0 (Nat.succ_pos _), by omega, fun i hi => ?_,
    fun d hd => h.ne_blank d (List.mem_cons_of_mem _ hd), fun i h1 h2 => ?_⟩
  · have hne : (head + (i + 1)) % size ≠ head % size := fun he =>
      absurd (ring_index_inj (by omega) (by omega) (hhead ▸ he)) (Nat.succ_ne_zero i)
    rw [hnext, Function.update_of_ne hne, h.cell (i + 1) (Nat.succ_lt_succ hi)]
    rfl
  · rw [hnext]
    rcases Nat.lt_or_ge (i + 1) size with hlt | hge
    · have hne : (head + (i + 1)) % size ≠ head % size := fun he =>
        absurd (ring_index_inj hlt (by omega) (hhead ▸ he)) (Nat.succ_ne_zero i)
      rw [Function.update_of_ne hne]
      exact h.blank (i + 1) (Nat.succ_le_succ h1) hlt
    · have hwrap : (head + (i + 1)) % size = head % size := by
        rw [show i + 1 = size by omega, Nat.add_mod_right]
      rw [hwrap, Function.update_self]

/-- A full ring written at `head`: the first value is lost, and the new
one stands in its place. -/
theorem overwrite (h : RingHolds cells blank size head (c :: q)) {d : α} (hd : d ≠ blank) :
    RingHolds (Function.update cells (head % size) d) blank size head (d :: q) where
  fits := h.fits
  cell i hi := by
    have hfits : q.length + 1 ≤ size := h.fits
    rw [List.length_cons] at hi
    cases i with
    | zero => exact Function.update_self ..
    | succ i =>
      have hne : (head + (i + 1)) % size ≠ head % size := fun he =>
        absurd (ring_index_inj (by omega) (by omega) he) (Nat.succ_ne_zero i)
      rw [Function.update_of_ne hne]
      exact h.cell (i + 1) hi
  ne_blank e he := by
    rcases List.mem_cons.1 he with rfl | he
    · exact hd
    · exact h.ne_blank e (List.mem_cons_of_mem _ he)
  blank i h1 h2 := by
    rw [List.length_cons] at h1
    have hne : (head + i) % size ≠ head % size := fun he =>
      absurd (ring_index_inj (j := 0) h2 (by omega) he) (by omega)
    rw [Function.update_of_ne hne]
    exact h.blank i (by omega) h2

/-- A ring that holds the empty queue is blank all over. -/
theorem blank_of_nil (h : RingHolds cells blank size head []) (hi : i < size) :
    cells i = blank := by
  -- the distance of the cell from `head`
  have hmod : (head + (i + (size - head % size))) % size = i := by
    have hlt := Nat.mod_lt head (show 0 < size by omega)
    have hsplit := Nat.div_add_mod head size
    have hturns : head + (i + (size - head % size)) = i + size * (head / size + 1) := by
      rw [Nat.mul_add]
      omega
    rw [hturns, Nat.add_mul_mod_self_left, Nat.mod_eq_of_lt hi]
  have hcell := h.blank ((i + (size - head % size)) % size) (Nat.zero_le _)
    (Nat.mod_lt _ (by omega))
  rwa [Nat.add_mod_mod, hmod] at hcell

end RingHolds

end OwnKernel
