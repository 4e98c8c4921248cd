import Mathlib.Data.List.GetD
import Mathlib.Tactic.Common
import Mathlib.Tactic.IntervalCases

/-!
# Byte-addressed memory

A flat memory of bytes under 32-bit addresses that wrap, as a function.
`store` writes a list of bytes from an address on and `load32`,
`store32` read and write little-endian words. A store changes the bytes
of its range and no others (`store_of_not_mem`), which the word lemmas
restate: a word read where it was written is the word, one read away
from the writes is what it was.
-/

namespace OwnKernel

/-- A memory. -/
abbrev Mem := BitVec 32 → BitVec 8

/-- The `n` bytes from `a` on, counting upward with wrap. -/
def InRange (a : BitVec 32) (n : ℕ) (x : BitVec 32) : Prop := (x - a).toNat < n

instance {a : BitVec 32} {n : ℕ} : DecidablePred (InRange a n) :=
  fun _ => inferInstanceAs (Decidable (_ < _))

/-- Byte `i` after an address is `i` bytes from it. -/
theorem toNat_add_sub_self {a : BitVec 32} {i : ℕ} (hi : i < 2 ^ 32) :
    (a + BitVec.ofNat 32 i - a).toNat = i := by
  rw [show a + BitVec.ofNat 32 i - a = BitVec.ofNat 32 i by bv_omega, BitVec.toNat_ofNat,
    Nat.mod_eq_of_lt hi]

/-- Byte `i` after the first of a range is in it exactly when the range
is longer. -/
theorem inRange_add {a : BitVec 32} {n i : ℕ} (hi : i < 2 ^ 32) :
    InRange a n (a + BitVec.ofNat 32 i) ↔ i < n := by
  unfold InRange
  rw [toNat_add_sub_self hi]

namespace Mem

variable {m m' : Mem} {a b v x : BitVec 32} {bytes : List (BitVec 8)}

/-- Write `bytes` from `a` on. -/
def store (m : Mem) (a : BitVec 32) (bytes : List (BitVec 8)) : Mem :=
  fun x => if InRange a bytes.length x then bytes.getD (x - a).toNat 0 else m x

/-- Set `n` bytes from `a` on to `c`. -/
def fill (m : Mem) (a : BitVec 32) (n : ℕ) (c : BitVec 8) : Mem :=
  fun x => if InRange a n x then c else m x

/-- Read `n` bytes from `a` on. -/
def load (m : Mem) (a : BitVec 32) (n : ℕ) : List (BitVec 8) :=
  (List.range n).map fun i => m (a + BitVec.ofNat 32 i)

/-- The bytes of a word, low byte first. -/
def bytes32 (v : BitVec 32) : List (BitVec 8) :=
  [BitVec.ofNat 8 v.toNat, BitVec.ofNat 8 (v.toNat / 2 ^ 8),
    BitVec.ofNat 8 (v.toNat / 2 ^ 16), BitVec.ofNat 8 (v.toNat / 2 ^ 24)]

/-- Read a little-endian word. -/
def load32 (m : Mem) (a : BitVec 32) : BitVec 32 :=
  BitVec.ofNat 32 ((m a).toNat + (m (a + 1)).toNat * 2 ^ 8 + (m (a + 2)).toNat * 2 ^ 16 +
    (m (a + 3)).toNat * 2 ^ 24)

/-- Read a little-endian half word. -/
def load16 (m : Mem) (a : BitVec 32) : BitVec 16 :=
  BitVec.ofNat 16 ((m a).toNat + (m (a + 1)).toNat * 2 ^ 8)

/-- Write a little-endian word. -/
def store32 (m : Mem) (a v : BitVec 32) : Mem := m.store a (bytes32 v)

/-! ## Frames -/

/-- A store leaves the bytes outside its range alone. -/
theorem store_of_not_mem (h : ¬ InRange a bytes.length x) : m.store a bytes x = m x := if_neg h

theorem fill_of_not_mem {n : ℕ} {c : BitVec 8} (h : ¬ InRange a n x) : m.fill a n c x = m x :=
  if_neg h

/-- A byte of the range is the list's. -/
theorem store_of_mem (h : InRange a bytes.length x) :
    m.store a bytes x = bytes.getD (x - a).toNat 0 := if_pos h

theorem store_add {i : ℕ} (hi : i < bytes.length) (hlen : bytes.length ≤ 2 ^ 32) :
    m.store a bytes (a + BitVec.ofNat 32 i) = bytes.getD i 0 := by
  rw [store_of_mem ((inRange_add (by omega)).2 hi), toNat_add_sub_self (by omega)]

@[simp] theorem length_bytes32 (v : BitVec 32) : (bytes32 v).length = 4 := rfl

/-- A word is read from four bytes. -/
theorem load32_congr (h : ∀ x, InRange a 4 x → m x = m' x) : m.load32 a = m'.load32 a := by
  have h0 := h a (by unfold InRange; bv_omega)
  have h1 := h (a + 1) (by unfold InRange; bv_omega)
  have h2 := h (a + 2) (by unfold InRange; bv_omega)
  have h3 := h (a + 3) (by unfold InRange; bv_omega)
  unfold load32
  rw [h0, h1, h2, h3]

/-- A half word is read from two bytes. -/
theorem load16_congr (h : ∀ x, InRange a 2 x → m x = m' x) : m.load16 a = m'.load16 a := by
  have h0 := h a (by unfold InRange; bv_omega)
  have h1 := h (a + 1) (by unfold InRange; bv_omega)
  unfold load16
  rw [h0, h1]

/-- Outside its four bytes, a word's store changes nothing. -/
theorem store32_of_not_mem (h : ¬ InRange a 4 x) : m.store32 a v x = m x :=
  store_of_not_mem h

/-- **A word read where it was written.** -/
@[simp] theorem load32_store32_self : (m.store32 a v).load32 a = v := by
  have hb : ∀ x, InRange a 4 x → m.store32 a v x = (bytes32 v).getD (x - a).toNat 0 :=
    fun x hx => store_of_mem hx
  have h0 := hb a (by unfold InRange; bv_omega)
  have h1 := hb (a + 1) (by unfold InRange; bv_omega)
  have h2 := hb (a + 2) (by unfold InRange; bv_omega)
  have h3 := hb (a + 3) (by unfold InRange; bv_omega)
  rw [show (a - a).toNat = 0 by bv_omega] at h0
  rw [show (a + 1 - a).toNat = 1 by bv_omega] at h1
  rw [show (a + 2 - a).toNat = 2 by bv_omega] at h2
  rw [show (a + 3 - a).toNat = 3 by bv_omega] at h3
  unfold load32
  rw [h0, h1, h2, h3]
  simp only [bytes32, List.getD_cons_zero, List.getD_cons_succ, BitVec.toNat_ofNat]
  apply BitVec.eq_of_toNat_eq
  have := v.isLt
  rw [BitVec.toNat_ofNat]
  omega

/-- A word's low byte is the first. -/
theorem setWidth_load32 : (m.load32 a).setWidth 8 = m a := by
  have h0 := (m a).isLt
  apply BitVec.eq_of_toNat_eq
  unfold load32
  rw [BitVec.toNat_setWidth, BitVec.toNat_ofNat]
  omega

/-- **A word written back** is the four bytes it was read from. -/
theorem store32_load32 (hx : InRange a 4 x) : m.store32 a (m'.load32 a) x = m' x := by
  have hb : m.store32 a (m'.load32 a) x = (bytes32 (m'.load32 a)).getD (x - a).toNat 0 :=
    store_of_mem hx
  have h0 := (m' a).isLt
  have h1 := (m' (a + 1)).isLt
  have h2 := (m' (a + 2)).isLt
  have h3 := (m' (a + 3)).isLt
  -- the word, and so its bytes
  have hword : (m'.load32 a).toNat = (m' a).toNat + (m' (a + 1)).toNat * 2 ^ 8 +
      (m' (a + 2)).toNat * 2 ^ 16 + (m' (a + 3)).toNat * 2 ^ 24 := by
    unfold load32
    rw [BitVec.toNat_ofNat]
    omega
  rw [hb]
  apply BitVec.eq_of_toNat_eq
  unfold InRange at hx
  obtain h | h | h | h : x = a ∨ x = a + 1 ∨ x = a + 2 ∨ x = a + 3 := by bv_omega
  · rw [h, show (a - a).toNat = 0 by bv_omega]
    simp only [bytes32, List.getD_cons_zero, BitVec.toNat_ofNat, hword]
    omega
  · rw [h, show (a + 1 - a).toNat = 1 by bv_omega]
    simp only [bytes32, List.getD_cons_zero, List.getD_cons_succ, BitVec.toNat_ofNat, hword]
    omega
  · rw [h, show (a + 2 - a).toNat = 2 by bv_omega]
    simp only [bytes32, List.getD_cons_zero, List.getD_cons_succ, BitVec.toNat_ofNat, hword]
    omega
  · rw [h, show (a + 3 - a).toNat = 3 by bv_omega]
    simp only [bytes32, List.getD_cons_zero, List.getD_cons_succ, BitVec.toNat_ofNat, hword]
    omega

/-- A word's bytes are those it was read from. -/
theorem bytes32_load32 (hx : InRange a 4 x) :
    (bytes32 (m.load32 a)).getD (x - a).toNat 0 = m x :=
  (store_of_mem hx).symm.trans (store32_load32 (m := m) hx)

/-- **A word read four bytes or more away from the one written.** -/
theorem load32_store32_of_ne (h₁ : 4 ≤ (b - a).toNat) (h₂ : 4 ≤ (a - b).toNat) :
    (m.store32 a v).load32 b = m.load32 b := by
  refine load32_congr fun x hx => store32_of_not_mem fun ha => ?_
  unfold InRange at hx ha
  bv_omega

/-- Two words at offsets of one address. -/
theorem load32_store32_add {i j : ℕ} (hi : i + 4 ≤ 2 ^ 32) (hj : j + 4 ≤ 2 ^ 32)
    (hne : i + 4 ≤ j ∨ j + 4 ≤ i) :
    (m.store32 (a + BitVec.ofNat 32 i) v).load32 (a + BitVec.ofNat 32 j) =
      m.load32 (a + BitVec.ofNat 32 j) := by
  have hsub : ∀ i j : ℕ, i + 4 ≤ 2 ^ 32 → j + 4 ≤ 2 ^ 32 → (i + 4 ≤ j ∨ j + 4 ≤ i) →
      4 ≤ (a + BitVec.ofNat 32 j - (a + BitVec.ofNat 32 i)).toNat := by
    intro i j hi hj hne
    have heq : a + BitVec.ofNat 32 j - (a + BitVec.ofNat 32 i) =
        BitVec.ofNat 32 j - BitVec.ofNat 32 i := by
      bv_omega
    rw [heq, BitVec.toNat_sub, BitVec.toNat_ofNat, BitVec.toNat_ofNat]
    omega
  exact load32_store32_of_ne (hsub i j hi hj hne) (hsub j i hj hi hne.symm)

/-! ## Consecutive words -/

/-- Write words from `a` on. -/
def storeWords (m : Mem) (a : BitVec 32) : List (BitVec 32) → Mem
  | [] => m
  | w :: ws => (storeWords m (a + 4) ws).store32 a w

/-- **A word of consecutive words.** -/
theorem load32_storeWords : ∀ {ws : List (BitVec 32)} {a w : BitVec 32} {i : ℕ},
    4 * ws.length < 2 ^ 32 → ws[i]? = some w →
      (m.storeWords a ws).load32 (a + BitVec.ofNat 32 (4 * i)) = w
  | v :: ws, a, w, 0, _, hw => by
    obtain rfl : v = w := by simpa using hw
    simp [storeWords]
  | v :: ws, a, w, i + 1, hlen, hw => by
    rw [List.length_cons] at hlen
    rw [List.getElem?_cons_succ] at hw
    have hi : i < ws.length := (List.getElem?_eq_some_iff.1 hw).1
    have ha : a + BitVec.ofNat 32 (4 * (i + 1)) = a + 4 + BitVec.ofNat 32 (4 * i) := by bv_omega
    rw [storeWords, ha, load32_store32_of_ne (by bv_omega) (by bv_omega)]
    exact load32_storeWords (by omega) hw

end Mem

end OwnKernel
