import Mathlib.Data.List.GetD
import OwnKernel.Model.Cstring

/-!
# Comparing without case

`istrncmp` answers 0 where `tolower` makes the bytes equal, as far as
they are compared (`istrncmp_eq_zero_iff`). `tolower` maps the letters,
and `@` too, which is the byte before them: `istrncmp_ignoresCase_iff`
says which strings are compared as they should be.
-/

namespace OwnKernel

variable {a b t u v : Cstring} {n i : ℕ} {x y : Byte} {f : Byte → Byte}

/-! ## What is compared -/

/-- Only the terminator has the terminator's lower case. -/
theorem tolower_ne_zero : ∀ c : Byte, c ≠ 0 → tolower c ≠ tolower 0 := by
  decide +kernel

/-- Equal characters, whatever their case. -/
theorem istrncmp_succ_eq_zero : istrncmp t u (n + 1) = 0 ↔
    tolower (t.headD 0) = tolower (u.headD 0) ∧
      (t.headD 0 = 0 ∨ istrncmp t.tail u.tail n = 0) := by
  have heq : istrncmp t u (n + 1) =
      if t.headD 0 ≠ u.headD 0 ∧ tolower (t.headD 0) ≠ tolower (u.headD 0) then
        ((t.headD 0).toNat : ℤ) - (u.headD 0).toNat
      else if t.headD 0 = 0 then 0 else istrncmp t.tail u.tail n := rfl
  rw [heq]
  by_cases hdiff : t.headD 0 ≠ u.headD 0 ∧ tolower (t.headD 0) ≠ tolower (u.headD 0)
  · have hnat : (t.headD 0).toNat ≠ (u.headD 0).toNat := fun h => hdiff.1 (BitVec.toNat_inj.1 h)
    rw [if_pos hdiff]
    exact iff_of_false (by omega) fun h => hdiff.2 h.1
  · have hlower : tolower (t.headD 0) = tolower (u.headD 0) := by
      by_contra hne
      exact hdiff ⟨fun he => hne (congrArg tolower he), hne⟩
    rw [if_neg hdiff]
    by_cases h0 : t.headD 0 = 0
    · rw [if_pos h0]
      exact iff_of_true rfl ⟨hlower, Or.inl h0⟩
    · rw [if_neg h0]
      exact ⟨fun h => ⟨hlower, Or.inr h⟩, fun h => h.2.resolve_left h0⟩

/-- A byte of a string's tail. -/
theorem getD_tail (t : Cstring) (i : ℕ) : t.tail.getD i 0 = t.getD (i + 1) 0 := by
  cases t with
  | nil => rfl
  | cons c t => rfl

/-- The first byte of a string. -/
theorem headD_eq_getD (t : Cstring) : t.headD 0 = t.getD 0 0 := by
  cases t with
  | nil => rfl
  | cons c t => rfl

/-- **When `istrncmp` answers 0**: the bytes are equal but for case, as far
as the terminator. -/
theorem istrncmp_eq_zero_iff : istrncmp t u n = 0 ↔
    ∀ i < n, (∀ j < i, t.getD j 0 ≠ 0) → tolower (t.getD i 0) = tolower (u.getD i 0) := by
  induction n generalizing t u with
  | zero => exact iff_of_true rfl fun i hi => absurd hi (Nat.not_lt_zero i)
  | succ n ih =>
    rw [istrncmp_succ_eq_zero, ih, headD_eq_getD, headD_eq_getD]
    constructor
    · rintro ⟨hfirst, hrest⟩ i hi hreached
      cases i with
      | zero => exact hfirst
      | succ i =>
        have hnext := hrest.resolve_left (hreached 0 (Nat.succ_pos i)) i (Nat.lt_of_succ_lt_succ hi)
          fun j hj => by
            rw [getD_tail]
            exact hreached (j + 1) (Nat.succ_lt_succ hj)
        rwa [getD_tail, getD_tail] at hnext
    · intro hall
      refine ⟨hall 0 (Nat.succ_pos n) fun j hj => absurd hj (Nat.not_lt_zero j),
        or_iff_not_imp_left.2 fun h0 i hi hreached => ?_⟩
      rw [getD_tail, getD_tail]
      refine hall (i + 1) (Nat.succ_lt_succ hi) fun j hj => ?_
      cases j with
      | zero => exact h0
      | succ j =>
        rw [← getD_tail]
        exact hreached j (Nat.lt_of_succ_lt_succ hj)

/-- A string is equal to itself. -/
theorem istrncmp_self (t : Cstring) (n : ℕ) : istrncmp t t n = 0 :=
  istrncmp_eq_zero_iff.2 fun _ _ _ => rfl

/-- Two names that match one component match each other. -/
theorem istrncmp_of_match (ht : istrncmp t u n = 0) (hv : istrncmp v u n = 0) :
    istrncmp t v n = 0 := by
  induction n generalizing t u v with
  | zero => rfl
  | succ n ih =>
    rw [istrncmp_succ_eq_zero] at ht hv ⊢
    have hlower := ht.1.trans hv.1.symm
    refine ⟨hlower, or_iff_not_imp_left.2 fun h0 => ?_⟩
    have hv0 : v.headD 0 ≠ 0 := by
      intro hv0
      rw [hv0] at hlower
      exact tolower_ne_zero _ h0 hlower
    exact ih (ht.2.resolve_left h0) (hv.2.resolve_left hv0)

/-! ## Strings without a terminator inside -/

/-- A byte of a string is not the terminator. -/
theorem getD_ne_zero (ht : 0x00 ∉ t) (hi : i < t.length) : t.getD i 0 ≠ 0 := by
  rw [List.getD_eq_getElem _ _ hi]
  exact fun h0 => ht (h0 ▸ List.getElem_mem hi)

/-- What follows a string is the terminator. -/
theorem getD_of_length_le (h : t.length ≤ i) : t.getD i 0 = 0 := List.getD_eq_default _ _ h

/-- The bytes of two strings decide about their length, where only the
terminator is mapped to the terminator. -/
theorem length_eq_of_getD (hf : ∀ c, c ≠ 0 → f c ≠ f 0) (ht : 0x00 ∉ t) (hu : 0x00 ∉ u)
    (hn : t.length < n ∨ u.length < n) (h : ∀ i < n, f (t.getD i 0) = f (u.getD i 0)) :
    t.length = u.length := by
  rcases lt_trichotomy t.length u.length with hlt | heq | hgt
  · have hend := h t.length (by omega)
    rw [getD_of_length_le le_rfl] at hend
    exact absurd hend.symm (hf _ (getD_ne_zero hu hlt))
  · exact heq
  · have hend := h u.length (by omega)
    rw [getD_of_length_le (t := u) le_rfl] at hend
    exact absurd hend (hf _ (getD_ne_zero ht hgt))

/-- Of such strings all bytes are compared. -/
theorem istrncmp_eq_zero_iff_of_notMem (ht : 0x00 ∉ t) (hu : 0x00 ∉ u) : istrncmp t u n = 0 ↔
    ∀ i < n, tolower (t.getD i 0) = tolower (u.getD i 0) := by
  rw [istrncmp_eq_zero_iff]
  refine ⟨fun h => ?_, fun h i hi _ => h i hi⟩
  intro i
  induction i using Nat.strong_induction_on with
  | _ i ih =>
    intro hi
    rcases Nat.lt_or_ge t.length i with hlt | hge
    · -- both strings have ended before
      have hlen : t.length = u.length := length_eq_of_getD (n := i) tolower_ne_zero ht hu
        (Or.inl hlt) fun j hj => ih j hj (hj.trans hi)
      rw [getD_of_length_le hlt.le, getD_of_length_le (hlen ▸ hlt.le)]
    · exact h i hi fun j hj => getD_ne_zero ht (hj.trans_le hge)

/-- Strings that compare as equal have the same length. -/
theorem length_eq_of_istrncmp (ht : 0x00 ∉ t) (hu : 0x00 ∉ u) (hn : u.length < n)
    (h : istrncmp t u n = 0) : t.length = u.length :=
  length_eq_of_getD tolower_ne_zero ht hu (Or.inr hn) ((istrncmp_eq_zero_iff_of_notMem ht hu).1 h)

/-! ## The case of letters -/

/-- `c`, with the letters A to Z mapped to a to z. -/
def lowerLetter (c : Byte) : Byte := if 0x41 ≤ c.toNat ∧ c.toNat ≤ 0x5A then c + 0x20 else c

/-- A letter, of either case. -/
def IsLetter (c : Byte) : Prop :=
  (0x41 ≤ c.toNat ∧ c.toNat ≤ 0x5A) ∨ (0x61 ≤ c.toNat ∧ c.toNat ≤ 0x7A)

/-- One of the bytes is `@`, and the other the grave accent. -/
def AtAndGrave (x y : Byte) : Prop := (x = 0x40 ∧ y = 0x60) ∨ (x = 0x60 ∧ y = 0x40)

instance : Decidable (IsLetter x) := inferInstanceAs (Decidable (_ ∨ _))

instance : Decidable (AtAndGrave x y) := inferInstanceAs (Decidable (_ ∨ _))

/-- Only the terminator is mapped to the terminator. -/
theorem lowerLetter_ne_zero : ∀ c : Byte, c ≠ 0 → lowerLetter c ≠ lowerLetter 0 := by
  decide +kernel

/-- **`tolower` maps one byte more** than the letters. -/
theorem tolower_eq : ∀ c : Byte, tolower c = if c = 0x40 then 0x60 else lowerLetter c := by
  decide +kernel

/-- The grave accent is no letter's lower case. -/
theorem lowerLetter_eq_grave : ∀ c : Byte, lowerLetter c = 0x60 ↔ c = 0x60 := by
  decide +kernel

theorem lowerLetter_eq_at : ∀ c : Byte, lowerLetter c = 0x40 ↔ c = 0x40 := by
  decide +kernel

/-- **What `tolower` makes equal**: letters of different case, and `@` and
the grave accent. -/
theorem tolower_eq_iff : tolower x = tolower y ↔ lowerLetter x = lowerLetter y ∨ AtAndGrave x y := by
  unfold AtAndGrave
  rw [tolower_eq, tolower_eq]
  by_cases hx : x = 0x40
  · rw [if_pos hx, hx]
    by_cases hy : y = 0x40
    · rw [if_pos hy, hy]
      exact iff_of_true rfl (Or.inl rfl)
    · rw [if_neg hy, eq_comm, lowerLetter_eq_grave]
      have hat : ¬ lowerLetter 0x40 = lowerLetter y := fun h =>
        hy ((lowerLetter_eq_at y).1 (h.symm.trans ((lowerLetter_eq_at 0x40).2 rfl)))
      rw [or_iff_right hat]
      exact ⟨fun h => Or.inl ⟨rfl, h⟩, fun h => h.elim And.right fun h => absurd h.1 (by decide)⟩
  · rw [if_neg hx]
    by_cases hy : y = 0x40
    · rw [if_pos hy, hy, lowerLetter_eq_grave]
      have hat : ¬ lowerLetter x = lowerLetter 0x40 := fun h =>
        hx ((lowerLetter_eq_at x).1 (h.trans ((lowerLetter_eq_at 0x40).2 rfl)))
      rw [or_iff_right hat]
      exact ⟨fun h => Or.inr ⟨h, rfl⟩, fun h => h.elim (fun h => absurd h.1 hx) And.left⟩
    · rw [if_neg hy]
      exact ⟨Or.inl, fun h => h.elim id fun h => h.elim (fun h => absurd h.1 hx) fun h => absurd h.2 hy⟩

/-- Different bytes of the same lower case are letters. -/
theorem isLetter_of_lowerLetter_eq (h : lowerLetter x = lowerLetter y) (hne : x ≠ y) :
    IsLetter x ∧ IsLetter y := by
  unfold lowerLetter at h
  unfold IsLetter
  split at h
  · split at h
    · exact absurd (by bv_omega) hne
    · constructor <;> bv_omega
  · split at h
    · constructor <;> bv_omega
    · exact absurd h hne

/-! ## What it is for -/

/-- The first `n` bytes of a string, as far as its terminator. -/
def firstBytes (s : Cstring) (n : ℕ) : List Byte := (s ++ [0]).take n

/-- The first `n` bytes are equal but for the case of letters. -/
def SameButCase (a b : Cstring) (n : ℕ) : Prop :=
  (firstBytes a n).map lowerLetter = (firstBytes b n).map lowerLetter

/-- **`istrncmp` ignores the case of letters**, and nothing else. -/
def IgnoresCase (a b : Cstring) (n : ℕ) : Prop := istrncmp a b n = 0 ↔ SameButCase a b n

/-- **The strings can be confused**: among the first `n` bytes one has `@`
where the other has the grave accent, and there is no other difference
than such ones and the case of letters. -/
def Confusable (a b : Cstring) (n : ℕ) : Prop :=
  (∃ i < n, AtAndGrave (a.getD i 0) (b.getD i 0)) ∧
    ∀ i < n, lowerLetter (a.getD i 0) = lowerLetter (b.getD i 0) ∨
      AtAndGrave (a.getD i 0) (b.getD i 0)

instance : Decidable (SameButCase a b n) := inferInstanceAs (Decidable (_ = _))

instance : Decidable (Confusable a b n) := inferInstanceAs (Decidable (_ ∧ _))

/-- The first bytes of a string, one by one. -/
theorem getElem_firstBytes (hi : i < (firstBytes t n).length) :
    (firstBytes t n)[i] = t.getD i 0 := by
  unfold firstBytes at hi ⊢
  rw [List.length_take, List.length_append, List.length_singleton] at hi
  rw [List.getElem_take]
  rcases Nat.lt_or_ge i t.length with hlt | hge
  · rw [List.getElem_append_left hlt, List.getD_eq_getElem _ _ hlt]
  · rw [List.getElem_append_right hge, getD_of_length_le hge, List.getElem_singleton]

theorem length_firstBytes (t : Cstring) (n : ℕ) : (firstBytes t n).length = min n (t.length + 1) := by
  unfold firstBytes
  rw [List.length_take, List.length_append, List.length_singleton]

/-- Equality but for case, byte by byte. -/
theorem sameButCase_iff (ha : 0x00 ∉ a) (hb : 0x00 ∉ b) : SameButCase a b n ↔
    ∀ i < n, lowerLetter (a.getD i 0) = lowerLetter (b.getD i 0) := by
  unfold SameButCase
  constructor
  · intro h i hi
    have hlen := congrArg List.length h
    rw [List.length_map, List.length_map, length_firstBytes, length_firstBytes] at hlen
    rcases Nat.lt_or_ge a.length i with hlt | hge
    · rw [getD_of_length_le hlt.le, getD_of_length_le (by omega)]
    · have hia : i < ((firstBytes a n).map lowerLetter).length := by
        rw [List.length_map, length_firstBytes]
        omega
      have hget := List.getElem_of_eq h hia
      rwa [List.getElem_map, List.getElem_map, getElem_firstBytes, getElem_firstBytes] at hget
  · intro h
    refine List.ext_getElem ?_ fun i hia hib => ?_
    · rw [List.length_map, List.length_map, length_firstBytes, length_firstBytes]
      by_cases hn : a.length < n ∨ b.length < n
      · rw [length_eq_of_getD lowerLetter_ne_zero ha hb hn h]
      · omega
    · rw [List.length_map, length_firstBytes] at hia
      rw [List.getElem_map, List.getElem_map, getElem_firstBytes, getElem_firstBytes]
      exact h i (by omega)

/-- **Which strings are compared as they should be**: those that cannot be
confused. -/
theorem istrncmp_ignoresCase_iff (ha : 0x00 ∉ a) (hb : 0x00 ∉ b) (n : ℕ) :
    IgnoresCase a b n ↔ ¬ Confusable a b n := by
  unfold IgnoresCase Confusable
  rw [istrncmp_eq_zero_iff_of_notMem ha hb, sameButCase_iff ha hb]
  simp only [tolower_eq_iff]
  constructor
  · rintro h ⟨⟨i, hi, hat⟩, hall⟩
    have hcase := h.1 hall i hi
    rcases hat with ⟨hx, hy⟩ | ⟨hx, hy⟩
    · rw [hx, hy] at hcase
      exact absurd hcase (by decide)
    · rw [hx, hy] at hcase
      exact absurd hcase (by decide)
  · intro h
    refine ⟨fun hall i hi => ?_, fun hall i hi => Or.inl (hall i hi)⟩
    exact (hall i hi).resolve_right fun hat => h ⟨⟨i, hi, hat⟩, hall⟩

end OwnKernel
