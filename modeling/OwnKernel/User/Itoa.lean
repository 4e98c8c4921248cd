import Mathlib.Data.Nat.Digits.Lemmas
import OwnKernel.Lib.Fallible
import OwnKernel.Model.Stdlib

/-!
# Numbers as text

`IsDecimal` says what the decimal text of a number is. The loop of `itoa`
stores the digits of the number's absolute value, the last one first
(`itoaLoop_eq`), and of those an `int` has at most ten, so that the sign
has room in front of them (`itoa_decimal`).
-/

namespace OwnKernel

variable {text : ItoaText} {n : ℕ} {i : ℤ} {str tail : Cstring}

/-! ## Decimal text -/

/-- A decimal digit. -/
def IsDigit (c : Byte) : Prop := 0x30 ≤ c.toNat ∧ c.toNat ≤ 0x39

/-- The value of a text of digits, from the value `v` of the digits before
it on. -/
def digitsValue (v : ℕ) : Cstring → ℕ
  | [] => v
  | c :: cs => digitsValue (10 * v + (c.toNat - 0x30)) cs

/-- **The canonical decimal text of `n`**: digits, at least one, and no
zero in front of others. -/
structure IsDecimalNat (str : Cstring) (n : ℕ) : Prop where
  digits : ∀ c ∈ str, IsDigit c
  ne_nil : str ≠ []
  canonical : str.head? = some 0x30 → str = [0x30]
  value : digitsValue 0 str = n

/-- **The canonical decimal text of `i`**: that of its absolute value, with
a minus in front when `i` is negative. -/
def IsDecimal (str : Cstring) (i : ℤ) : Prop :=
  (0 ≤ i ∧ IsDecimalNat str i.natAbs) ∨
    (i < 0 ∧ ∃ digits, str = 0x2D :: digits ∧ IsDecimalNat digits i.natAbs)

/-- The character of a digit. -/
def digitChar (d : ℕ) : Byte := BitVec.ofNat 8 (48 + d)

/-- The digits of `n`, with none for zero. -/
def digitChars (n : ℕ) : Cstring := (Nat.digits 10 n).reverse.map digitChar

theorem toNat_digitChar {d : ℕ} (h : d < 10) : (digitChar d).toNat = 48 + d := by
  unfold digitChar
  rw [BitVec.toNat_ofNat]
  omega

theorem digitChars_zero : digitChars 0 = [] := by
  unfold digitChars
  rw [Nat.digits_zero]
  rfl

/-- The digits of a number are those of its tenth part and its last one. -/
theorem digitChars_of_pos (h : 0 < n) :
    digitChars n = digitChars (n / 10) ++ [digitChar (n % 10)] := by
  unfold digitChars
  rw [Nat.digits_def' (by decide) h, List.reverse_cons, List.map_append]
  rfl

theorem length_digitChars_le (h : n < 10 ^ 10) : (digitChars n).length ≤ 10 := by
  unfold digitChars
  rw [List.length_map, List.length_reverse]
  exact (Nat.digits_length_le_iff (by decide) n).2 h

theorem isDigit_digitChar {d : ℕ} (h : d < 10) : IsDigit (digitChar d) := by
  unfold IsDigit
  rw [toNat_digitChar h]
  omega

theorem digitsValue_append (v : ℕ) (str tail : Cstring) :
    digitsValue v (str ++ tail) = digitsValue (digitsValue v str) tail := by
  induction str generalizing v with
  | nil => rfl
  | cons c str ih => exact ih _

/-- The text of a positive number is canonical. -/
theorem isDecimalNat_digitChars (h : 0 < n) : IsDecimalNat (digitChars n) n := by
  induction n using Nat.strong_induction_on with
  | _ n ih =>
    have hlast : n % 10 < 10 := Nat.mod_lt n (by decide)
    have hchar := toNat_digitChar hlast
    rw [digitChars_of_pos h]
    by_cases hsmall : n < 10
    · rw [Nat.div_eq_of_lt hsmall, digitChars_zero, List.nil_append]
      refine ⟨fun c hc => ?_, List.cons_ne_nil _ _, fun hhead => ?_, ?_⟩
      · rw [List.mem_singleton.1 hc]
        exact isDigit_digitChar hlast
      · rw [Option.some.inj hhead]
      · have hvalue : digitsValue 0 [digitChar (n % 10)] =
            10 * 0 + ((digitChar (n % 10)).toNat - 0x30) := rfl
        rw [hvalue, hchar]
        omega
    · have hrest := ih (n / 10) (by omega) (by omega)
      refine ⟨fun c hc => ?_, fun hnil => hrest.ne_nil (List.append_eq_nil_iff.1 hnil).1,
        fun hhead => ?_, ?_⟩
      · rcases List.mem_append.1 hc with hc | hc
        · exact hrest.digits c hc
        · rw [List.mem_singleton.1 hc]
          exact isDigit_digitChar hlast
      · -- a zero in front would be the whole of the tenth part
        rw [List.head?_append_of_ne_nil _ hrest.ne_nil] at hhead
        have hvalue := hrest.value
        rw [hrest.canonical hhead] at hvalue
        have hzero : 0 = n / 10 := hvalue
        omega
      · rw [digitsValue_append, hrest.value]
        have hvalue : digitsValue (n / 10) [digitChar (n % 10)] =
            10 * (n / 10) + ((digitChar (n % 10)).toNat - 0x30) := rfl
        rw [hvalue, hchar]
        omega

theorem isDecimalNat_zero : IsDecimalNat [0x30] 0 where
  digits c hc := by
    rw [List.mem_singleton.1 hc]
    unfold IsDigit
    decide
  ne_nil := List.cons_ne_nil _ _
  canonical _ := rfl
  value := rfl

/-! ## The buffer -/

theorem checkInt_ok {v : ℤ} (h : -2 ^ 31 ≤ v) (h' : v < 2 ^ 31) : checkInt v = .ok v :=
  if_pos ⟨h, h'⟩

/-- A store in front of what the buffer holds. -/
theorem storeText_drop {loc : ℕ} (c : Byte) (hloc : loc < 12) (hdrop : text.toList.drop (loc + 1) = tail) :
    ∃ text', storeText text loc c = .ok text' ∧ text'.toList.drop loc = c :: tail := by
  have hlength : text.toList.length = 12 := text.length_toList
  refine ⟨text.set loc c, dif_pos ⟨Int.natCast_nonneg loc, hloc⟩, ?_⟩
  rw [Vector.toList_set, List.drop_eq_getElem_cons (by rw [List.length_set]; omega),
    List.getElem_set_self, List.drop_set_of_lt (Nat.lt_succ_self loc), hdrop]

/-- **The loop stores the digits**, in front of what the buffer holds. -/
theorem itoaLoop_eq (fuel : ℕ) (text : ItoaText) {loc : ℕ} (hfuel : n < fuel) (hn : n ≤ 2 ^ 31)
    (hloc : loc ≤ 11) (hroom : (digitChars n).length ≤ loc) (hdrop : text.toList.drop loc = tail) :
    ∃ text', itoaLoop fuel text loc (-n) = .ok (text', ((loc - (digitChars n).length : ℕ) : ℤ)) ∧
      text'.toList.drop (loc - (digitChars n).length) = digitChars n ++ tail := by
  induction fuel generalizing n text loc tail with
  | zero => exact absurd hfuel (Nat.not_lt_zero n)
  | succ fuel ih =>
    unfold itoaLoop
    by_cases hzero : n = 0
    · subst hzero
      rw [if_pos (by omega), digitChars_zero]
      exact ⟨text, rfl, hdrop⟩
    · rw [if_neg (by omega)]
      have hchars := digitChars_of_pos (Nat.pos_of_ne_zero hzero)
      have hlength : (digitChars n).length = (digitChars (n / 10)).length + 1 := by
        rw [hchars, List.length_append, List.length_singleton]
      obtain ⟨loc, rfl⟩ : ∃ l, loc = l + 1 := ⟨loc - 1, by omega⟩
      -- the remainder is that of `n`, below zero
      have hmod : 48 - (-(n : ℤ)).tmod 10 = ((48 + n % 10 : ℕ) : ℤ) := by
        rw [Int.neg_tmod, Int.tmod_eq_emod_of_nonneg (Int.natCast_nonneg n)]
        omega
      have hdiv : (-(n : ℤ)).tdiv 10 = -((n / 10 : ℕ) : ℤ) := by
        rw [Int.neg_tdiv, Int.tdiv_eq_ediv_of_nonneg (Int.natCast_nonneg n)]
        rfl
      obtain ⟨text₁, hstore, hdrop₁⟩ := storeText_drop (digitChar (n % 10)) (by omega : loc < 12) hdrop
      have hroom₁ : (digitChars (n / 10)).length ≤ loc := by omega
      have hloc₁ : loc ≤ 11 := by omega
      obtain ⟨text', hloop, hdrop'⟩ := ih text₁ (by omega) (by omega) hloc₁ hroom₁ hdrop₁
      have hchar : BitVec.ofInt 8 ((48 + n % 10 : ℕ) : ℤ) = digitChar (n % 10) :=
        BitVec.ofInt_natCast ..
      rw [show ((loc + 1 : ℕ) : ℤ) - 1 = loc by omega, checkInt_ok (by omega) (by omega),
        Fallible.ok_bind, hmod, checkInt_ok (by omega) (by omega), Fallible.ok_bind, hchar, hstore,
        Fallible.ok_bind, hdiv, checkInt_ok (by omega) (by omega), Fallible.ok_bind, hloop]
      have hsub : loc + 1 - (digitChars n).length = loc - (digitChars (n / 10)).length := by omega
      rw [hsub]
      refine ⟨text', rfl, ?_⟩
      rw [hdrop', hchars, List.append_assoc, List.singleton_append]

/-- The digits: one for zero, too. -/
theorem itoaDigits_eq (hn : n ≤ 2 ^ 31) (hdrop : text.toList.drop 11 = tail) :
    ∃ text' str, ∃ loc : ℕ, itoaDigits text (-n) = .ok (text', (loc : ℤ)) ∧
      1 ≤ loc ∧ loc < 12 ∧ text'.toList.drop loc = str ++ tail ∧ IsDecimalNat str n := by
  have hlength : (digitChars n).length ≤ 10 := length_digitChars_le (by omega)
  obtain ⟨text₁, hloop, hdrop₁⟩ := itoaLoop_eq (n + 1) text (Nat.lt_succ_self n) hn
    (le_refl 11) (by omega) hdrop
  rw [Nat.cast_ofNat] at hloop
  unfold itoaDigits
  rw [Int.natAbs_neg, Int.natAbs_natCast, hloop, Fallible.ok_bind]
  by_cases hzero : n = 0
  · subst hzero
    rw [digitChars_zero] at hdrop₁ ⊢
    obtain ⟨text₂, hstore, hdrop₂⟩ := storeText_drop 0x30 (show 10 < 12 by decide) hdrop₁
    refine ⟨text₂, [0x30], 10, ?_, by decide, by decide, hdrop₂, isDecimalNat_zero⟩
    simp only [List.length_nil, Nat.sub_zero, Nat.cast_ofNat, if_true]
    rw [checkInt_ok (by decide) (by decide), Fallible.ok_bind]
    exact congrArg (· >>= fun text => Except.ok (text, (10 : ℤ))) hstore
  · have hpos : 0 < (digitChars n).length := by
      rw [digitChars_of_pos (Nat.pos_of_ne_zero hzero), List.length_append]
      exact Nat.succ_pos _
    refine ⟨text₁, digitChars n, 11 - (digitChars n).length, ?_, by omega, by omega, hdrop₁,
      isDecimalNat_digitChars (Nat.pos_of_ne_zero hzero)⟩
    simp only
    rw [if_neg (by omega)]

/-- Decimal text has no terminator in it. -/
theorem IsDecimal.zero_not_mem (h : IsDecimal str i) : 0 ∉ str := by
  have hdigits : ∀ {digits : Cstring} {n : ℕ}, IsDecimalNat digits n → 0 ∉ digits := fun h hmem =>
    absurd (h.digits 0 hmem).1 (by decide)
  rcases h with ⟨-, h⟩ | ⟨-, digits, rfl, h⟩
  · exact hdigits h
  · rintro hmem
    rcases List.mem_cons.1 hmem with hzero | hmem
    · exact absurd hzero (by decide)
    · exact hdigits h hmem

/-- The text that `itoa` returns, and where it begins. -/
theorem itoa_eq (text : ItoaText) (i : Word) :
    ∃ text' str, ∃ loc : ℕ, itoa text i.toInt = .ok (text', (loc : ℤ)) ∧ loc < 12 ∧
      text'.toList.drop loc = str ++ [0] ∧ IsDecimal str i.toInt := by
  have hlo : -2 ^ 31 ≤ i.toInt := BitVec.le_toInt i
  have hhi : i.toInt < 2 ^ 31 := BitVec.toInt_lt
  have hlength : text.toList.drop 12 = [] := List.drop_of_length_le (by rw [Vector.length_toList])
  obtain ⟨text₀, hstore, hdrop₀⟩ := storeText_drop 0 (show 11 < 12 by decide) hlength
  have hstore' : storeText text 11 0 = .ok text₀ := hstore
  obtain ⟨text₁, digits, loc, hdigits, hlow, hhigh, hdrop₁, hdecimal⟩ :=
    itoaDigits_eq (n := i.toInt.natAbs) (by omega) hdrop₀
  unfold itoa
  rw [hstore', Fallible.ok_bind]
  by_cases hneg : i.toInt < 0
  · obtain ⟨loc, rfl⟩ : ∃ l, loc = l + 1 := ⟨loc - 1, by omega⟩
    obtain ⟨text₂, hminus, hdrop₂⟩ := storeText_drop 0x2D (by omega : loc < 12) hdrop₁
    refine ⟨text₂, 0x2D :: digits, loc, ?_, by omega, hdrop₂, Or.inr ⟨hneg, digits, rfl, hdecimal⟩⟩
    have habs : -(i.toInt.natAbs : ℤ) = i.toInt := by omega
    rw [habs] at hdigits
    rw [if_neg (by omega)]
    simp only [Fallible.ok_bind, hdigits, decide_eq_true_eq]
    rw [if_pos hneg, show ((loc + 1 : ℕ) : ℤ) - 1 = loc by omega,
      checkInt_ok (by omega) (by omega), Fallible.ok_bind, hminus, Fallible.ok_bind]
  · refine ⟨text₁, digits, loc, ?_, by omega, hdrop₁, Or.inl ⟨by omega, hdecimal⟩⟩
    have habs : -(i.toInt.natAbs : ℤ) = -i.toInt := by omega
    rw [habs] at hdigits
    rw [if_pos (by omega), checkInt_ok (by omega) (by omega)]
    simp only [Fallible.ok_bind, hdigits, decide_eq_true_eq]
    rw [if_neg hneg]

/-- **`itoa` writes the decimal text of its argument.** For every `int`, and
whatever the buffer held: no write is outside the buffer, no result
overflows, and the text that is returned is the canonical one, with its
terminator. -/
theorem itoa_decimal (text : ItoaText) (i : Word) :
    ∃ text' loc str, itoa text i.toInt = .ok (text', loc) ∧ 0 ≤ loc ∧ loc < 12 ∧
      text'.toList.drop loc.toNat = str ++ [0] ∧ 0 ∉ str ∧ IsDecimal str i.toInt := by
  obtain ⟨text', str, loc, hrun, hloc, hdrop, hdecimal⟩ := itoa_eq text i
  exact ⟨text', loc, str, hrun, Int.natCast_nonneg loc, by omega, hdrop, hdecimal.zero_not_mem,
    hdecimal⟩

end OwnKernel
