import OwnKernel.Lib.ByteMemory
import OwnKernel.Lib.Fallible
import OwnKernel.Lib.Words
import OwnKernel.Model.UserString

/-!
# The tokenizer

A call that finds a token ends it with a zero and keeps the place behind
it (`strtok_token`); the calls that follow find the words that are left
(`strtokCalls_resume`). A call that finds none keeps the place that was
kept before, so the calls behind a first one that found none go on in
another string (`strtok_splits_iff`).
-/

namespace OwnKernel

variable {mem mem' : UserMem} {p : Word} {s w delim : Cstring} {c : Byte} {i j n fuel : ℕ}

/-! ## Strings in memory -/

/-- The string `s` is at `p`, with its terminator. -/
def StringAt (mem : UserMem) (p : Word) : Cstring → Prop
  | [] => mem p = some 0
  | c :: s => mem p = some c ∧ StringAt mem (p + 1) s

/-- Memory that has the string `s` at `p` and nothing else. -/
def stringMem (p : Word) (s : Cstring) : UserMem := fun x => (s ++ [0])[(x - p).toNat]?

/-- **Only delimiters are overwritten**, and by zeros. -/
def OnlyDelims (delim : Cstring) (mem mem' : UserMem) : Prop :=
  ∀ x, mem' x = mem x ∨ ∃ c, mem x = some c ∧ isDelim c delim = true ∧ mem' x = some 0

theorem add_ofNat_succ (p : Word) (i : ℕ) : p + BitVec.ofNat 32 i + 1 = p + BitVec.ofNat 32 (i + 1) := by
  rw [BitVec.ofNat_add, BitVec.add_assoc]
  rfl

/-- Different offsets are different addresses. -/
theorem add_ofNat_inj (hi : i < 2 ^ 32) (hj : j < 2 ^ 32)
    (h : p + BitVec.ofNat 32 i = p + BitVec.ofNat 32 j) : i = j := by
  rw [← toNat_add_sub_self (a := p) hi, h, toNat_add_sub_self hj]

/-- The terminator is no delimiter. -/
theorem isDelim_zero : ∀ delim : Cstring, isDelim 0 delim = false
  | [] => rfl
  | d :: delim => by
    unfold isDelim
    by_cases hd : d = 0
    · rw [if_pos hd]
    · rw [if_neg hd, if_neg (Ne.symm hd), isDelim_zero delim]

namespace OnlyDelims

theorem refl (mem : UserMem) : OnlyDelims delim mem mem := fun _ => Or.inl rfl

theorem trans {mem'' : UserMem} (h : OnlyDelims delim mem mem') (h' : OnlyDelims delim mem' mem'') :
    OnlyDelims delim mem mem'' := by
  intro x
  rcases h' x with heq | ⟨c, hc, hdelim, hzero⟩
  · rw [heq]
    exact h x
  · rcases h x with heq | ⟨d, hd, hdelim', hzero'⟩
    · exact Or.inr ⟨c, heq ▸ hc, hdelim, hzero⟩
    · -- a zero is not overwritten again
      obtain rfl := Option.some.inj (hzero'.symm.trans hc)
      rw [isDelim_zero] at hdelim
      cases hdelim

/-- What is no delimiter stays. -/
theorem eq_of_not_delim {x : Word} (h : OnlyDelims delim mem mem') (hx : mem x = some c)
    (hc : isDelim c delim = false) : mem' x = some c := by
  rcases h x with heq | ⟨d, hd, hdelim, -⟩
  · rw [heq, hx]
  · obtain rfl := Option.some.inj (hx.symm.trans hd)
    rw [hc] at hdelim
    cases hdelim

end OnlyDelims

namespace StringAt

/-- A token stays where it is. -/
theorem of_onlyDelims (h : StringAt mem p w) (hmem : OnlyDelims delim mem mem')
    (hw : ∀ c ∈ w, isDelim c delim = false) : StringAt mem' p w := by
  induction w generalizing p with
  | nil => exact hmem.eq_of_not_delim h (isDelim_zero delim)
  | cons c w ih =>
    rw [List.forall_mem_cons] at hw
    exact ⟨hmem.eq_of_not_delim h.1 hw.1, ih h.2 hw.2⟩

/-- The end of a string. -/
theorem append (h : StringAt mem (p + BitVec.ofNat 32 i) (w ++ s)) :
    StringAt mem (p + BitVec.ofNat 32 (i + w.length)) s := by
  induction w generalizing i with
  | nil => exact h
  | cons c w ih =>
    have hrest := h.2
    rw [add_ofNat_succ] at hrest
    have htail := ih hrest
    rwa [Nat.add_assoc, Nat.add_comm 1] at htail

/-- A byte in front of a string is none of its bytes. -/
theorem update_of_lt {v : Option Byte} (h : StringAt mem (p + BitVec.ofNat 32 i) s) (hj : j < i)
    (hfit : i + s.length < 2 ^ 32) :
    StringAt (Function.update mem (p + BitVec.ofNat 32 j) v) (p + BitVec.ofNat 32 i) s := by
  have hne : ∀ {k : ℕ}, i ≤ k → k ≤ i + s.length → p + BitVec.ofNat 32 k ≠ p + BitVec.ofNat 32 j :=
    fun hlo hhi heq => absurd (add_ofNat_inj (by omega) (by omega) heq) (by omega)
  induction s generalizing i with
  | nil => exact (Function.update_of_ne (hne le_rfl le_rfl) ..).trans h
  | cons c s ih =>
    rw [List.length_cons] at hfit hne
    refine ⟨(Function.update_of_ne (hne le_rfl (Nat.le_add_right ..)) ..).trans h.1, ?_⟩
    have hrest := h.2
    rw [add_ofNat_succ] at hrest ⊢
    exact ih hrest (by omega) (by omega) fun hlo hhi => hne (by omega) (by omega)

/-- A string that is cut. -/
theorem cut (h : StringAt mem (p + BitVec.ofNat 32 i) (w ++ s)) (hfit : i + w.length < 2 ^ 32) :
    StringAt (Function.update mem (p + BitVec.ofNat 32 (i + w.length)) (some 0))
      (p + BitVec.ofNat 32 i) w := by
  induction w generalizing i with
  | nil => exact Function.update_self ..
  | cons c w ih =>
    rw [List.length_cons] at hfit ⊢
    have hne : p + BitVec.ofNat 32 i ≠ p + BitVec.ofNat 32 (i + (w.length + 1)) := fun heq =>
      absurd (add_ofNat_inj (by omega) (by omega) heq) (by omega)
    refine ⟨(Function.update_of_ne hne ..).trans h.1, ?_⟩
    have hrest := h.2
    rw [add_ofNat_succ] at hrest ⊢
    have htail := ih hrest (by omega)
    rwa [Nat.add_assoc, Nat.add_comm 1] at htail

end StringAt

/-- A string whose bytes are known. -/
theorem stringAt_of_getElem? (h : ∀ k ≤ s.length, mem (p + BitVec.ofNat 32 k) = (s ++ [0])[k]?) :
    StringAt mem p s := by
  induction s generalizing p with
  | nil =>
    have hend := h 0 le_rfl
    rwa [show p + BitVec.ofNat 32 0 = p from BitVec.add_zero p] at hend
  | cons c s ih =>
    have hfirst := h 0 (Nat.zero_le _)
    rw [show p + BitVec.ofNat 32 0 = p from BitVec.add_zero p] at hfirst
    refine ⟨hfirst, ih fun k hk => ?_⟩
    have hnext := h (k + 1) (Nat.succ_le_succ hk)
    rw [BitVec.ofNat_add, BitVec.add_comm (BitVec.ofNat 32 k), ← BitVec.add_assoc] at hnext
    exact hnext

theorem stringAt_stringMem (hfit : s.length < 2 ^ 32) : StringAt (stringMem p s) p s := by
  refine stringAt_of_getElem? fun k hk => ?_
  unfold stringMem
  rw [toNat_add_sub_self (by omega)]

/-! ## One call -/

theorem loadUserByte_of (h : mem p = some c) : loadUserByte mem p = .ok c := by
  unfold loadUserByte
  rw [h]

theorem storeUserByte_of (v : Byte) (h : mem p = some c) :
    storeUserByte mem p v = .ok (Function.update mem p (some v)) := by
  unfold storeUserByte
  rw [h]

/-- Delimiters up to the terminator. -/
theorem strtokSkip_none (h : StringAt mem p s) (hs : ∀ c ∈ s, isDelim c delim = true)
    (hfuel : s.length < fuel) : strtokSkip mem delim fuel p = .ok none := by
  induction fuel generalizing p s with
  | zero => exact absurd hfuel (Nat.not_lt_zero _)
  | succ fuel ih =>
    unfold strtokSkip
    cases s with
    | nil =>
      rw [loadUserByte_of h, Fallible.ok_bind, isDelim_zero, if_neg Bool.false_ne_true, if_pos rfl]
    | cons c s =>
      rw [List.forall_mem_cons] at hs
      rw [loadUserByte_of h.1, Fallible.ok_bind, if_pos hs.1]
      exact ih h.2 hs.2 (Nat.lt_of_succ_lt_succ hfuel)

/-- Delimiters in front of a token. -/
theorem strtokSkip_some {g : Cstring} (h : StringAt mem (p + BitVec.ofNat 32 i) (g ++ c :: s))
    (hg : ∀ c ∈ g, isDelim c delim = true) (hc : isDelim c delim = false) (h0 : c ≠ 0)
    (hfuel : g.length < fuel) :
    strtokSkip mem delim fuel (p + BitVec.ofNat 32 i) =
      .ok (some (p + BitVec.ofNat 32 (i + g.length))) := by
  induction fuel generalizing i g with
  | zero => exact absurd hfuel (Nat.not_lt_zero _)
  | succ fuel ih =>
    unfold strtokSkip
    cases g with
    | nil =>
      rw [loadUserByte_of h.1, Fallible.ok_bind, hc, if_neg Bool.false_ne_true, if_neg h0]
      rfl
    | cons d g =>
      have hrest := h.2
      rw [List.forall_mem_cons] at hg
      rw [add_ofNat_succ] at hrest
      rw [loadUserByte_of h.1, Fallible.ok_bind, if_pos hg.1, add_ofNat_succ,
        ih hrest hg.2 (Nat.lt_of_succ_lt_succ hfuel), List.length_cons, Nat.add_right_comm,
        Nat.add_assoc]

/-- A token that ends with the string. -/
theorem strtokToken_end (h : StringAt mem (p + BitVec.ofNat 32 i) w)
    (hw : ∀ c ∈ w, isDelim c delim = false) (h0 : 0 ∉ w) (hfuel : w.length < fuel) :
    strtokToken mem delim fuel (p + BitVec.ofNat 32 i) =
      .ok ⟨mem, p + BitVec.ofNat 32 (i + w.length)⟩ := by
  induction fuel generalizing i w with
  | zero => exact absurd hfuel (Nat.not_lt_zero _)
  | succ fuel ih =>
    unfold strtokToken
    cases w with
    | nil =>
      rw [loadUserByte_of h, Fallible.ok_bind, if_pos rfl]
      rfl
    | cons c w =>
      have hrest := h.2
      rw [List.forall_mem_cons] at hw
      rw [List.mem_cons, not_or] at h0
      rw [add_ofNat_succ] at hrest
      rw [loadUserByte_of h.1, Fallible.ok_bind, if_neg (Ne.symm h0.1), hw.1,
        if_neg Bool.false_ne_true, add_ofNat_succ, ih hrest hw.2 h0.2 (Nat.lt_of_succ_lt_succ hfuel),
        List.length_cons, Nat.add_right_comm, Nat.add_assoc]

/-- A token that ends at a delimiter, which is overwritten. -/
theorem strtokToken_delim {d : Byte} (h : StringAt mem (p + BitVec.ofNat 32 i) (w ++ d :: s))
    (hw : ∀ c ∈ w, isDelim c delim = false) (h0 : 0 ∉ w) (hd : isDelim d delim = true)
    (hfuel : w.length < fuel) :
    strtokToken mem delim fuel (p + BitVec.ofNat 32 i) =
      .ok ⟨Function.update mem (p + BitVec.ofNat 32 (i + w.length)) (some 0),
        p + BitVec.ofNat 32 (i + w.length + 1)⟩ := by
  induction fuel generalizing i w with
  | zero => exact absurd hfuel (Nat.not_lt_zero _)
  | succ fuel ih =>
    unfold strtokToken
    cases w with
    | nil =>
      have hd0 : d ≠ 0 := by
        rintro rfl
        rw [isDelim_zero] at hd
        cases hd
      rw [loadUserByte_of h.1, Fallible.ok_bind, if_neg hd0, if_pos hd, storeUserByte_of 0 h.1,
        Fallible.ok_bind, add_ofNat_succ]
      rfl
    | cons c w =>
      have hrest := h.2
      rw [List.forall_mem_cons] at hw
      rw [List.mem_cons, not_or] at h0
      rw [add_ofNat_succ] at hrest
      rw [loadUserByte_of h.1, Fallible.ok_bind, if_neg (Ne.symm h0.1), hw.1,
        if_neg Bool.false_ne_true, add_ofNat_succ, ih hrest hw.2 h0.2 (Nat.lt_of_succ_lt_succ hfuel),
        List.length_cons, Nat.add_right_comm i 1, Nat.add_assoc i]

/-- A place in a string is not null. -/
theorem add_ofNat_ne_zero (hp : p ≠ 0) (hfit : p.toNat + i < 2 ^ 32) : p + BitVec.ofNat 32 i ≠ 0 := by
  intro heq
  have hpos : p.toNat ≠ 0 := fun h => hp (BitVec.eq_of_toNat_eq h)
  have hzero := congrArg BitVec.toNat heq
  rw [BitVec.toNat_add, BitVec.toNat_ofNat, Nat.mod_eq_of_lt (by omega : i < 2 ^ 32),
    Nat.mod_eq_of_lt hfit, show (0 : Word).toNat = 0 from rfl] at hzero
  omega

/-- Where a call of `strtok` starts: at the string it is given, or at the
place that was kept. -/
def strtokStart (srcString : Word) (st : Strtok) : Word :=
  if srcString = 0 then st.backupString else srcString

section

variable {st : Strtok} {srcString : Word} {x : ℕ × Cstring} {ws : List (ℕ × Cstring)}

/-- **A call that finds no token** changes nothing. -/
theorem strtok_none (hstart : strtokStart srcString st = p + BitVec.ofNat 32 i)
    (h : StringAt st.mem (p + BitVec.ofNat 32 i) s) (hfit : s.length < 2 ^ 32)
    (hwords : words (isDelim · delim) i s = []) : strtok srcString delim st = .ok (0, st) := by
  have hskip := strtokSkip_none h ((words_eq_nil_iff s i).1 hwords) hfit
  unfold strtok
  rw [show (if srcString = 0 then st.backupString else srcString) = _ from hstart]
  by_cases hnull : p + BitVec.ofNat 32 i = 0
  · simp only [if_pos hnull]
  · simp only [if_neg hnull, hskip, Fallible.ok_bind]

/-- **A call that finds a token** ends it in place, and keeps the place
behind it. -/
theorem strtok_token (hp : p ≠ 0) (hfit : p.toNat + (i + s.length) < 2 ^ 32)
    (hstart : strtokStart srcString st = p + BitVec.ofNat 32 i)
    (h : StringAt st.mem (p + BitVec.ofNat 32 i) s) (h0 : 0 ∉ s)
    (hwords : words (isDelim · delim) i s = x :: ws) :
    ∃ mem' i' s', strtok srcString delim st =
        .ok (p + BitVec.ofNat 32 x.1, ⟨mem', p + BitVec.ofNat 32 i'⟩) ∧
      OnlyDelims delim st.mem mem' ∧ StringAt mem' (p + BitVec.ofNat 32 x.1) x.2 ∧
      StringAt mem' (p + BitVec.ofNat 32 i') s' ∧ words (isDelim · delim) i' s' = ws ∧
      i' + s'.length = i + s.length ∧ 0 ∉ s' ∧
      ∀ y, ¬ InRange p (i + s.length) y → mem' y = st.mem y := by
  obtain ⟨g, w, rest, rfl, hg, hne, hw, hrest, rfl, rfl⟩ := exists_of_words_cons hwords
  rw [List.length_append, List.length_append] at hfit
  have h0' : 0 ∉ w ∧ 0 ∉ rest := by
    rw [List.mem_append, List.mem_append, not_or, not_or] at h0
    exact h0.2
  have htoken := h.append
  obtain ⟨c, w, rfl⟩ := List.exists_cons_of_ne_nil hne
  have hfuel : g.length < 2 ^ 32 := by omega
  have hskip := strtokSkip_some h hg (hw c (List.mem_cons_self ..))
    (fun hc => h0'.1 (hc ▸ List.mem_cons_self ..)) hfuel
  have hstart0 := add_ofNat_ne_zero (i := i) hp (by omega)
  have hrun : ∀ {st' : Strtok}, strtokToken st.mem delim (2 ^ 32) (p + BitVec.ofNat 32 (i + g.length)) =
      .ok st' → strtok srcString delim st = .ok (p + BitVec.ofNat 32 (i + g.length), st') := by
    intro st' hloop
    unfold strtok
    rw [show (if srcString = 0 then st.backupString else srcString) = _ from hstart]
    simp only [if_neg hstart0]
    rw [show g ++ (c :: w ++ rest) = g ++ c :: (w ++ rest) from rfl] at h
    rw [hskip, Fallible.ok_bind]
    simp only
    rw [hloop]
    rfl
  have hshort : (c :: w).length < 2 ^ 32 := by omega
  cases rest with
  | nil =>
    have hend := htoken.append
    rw [List.append_nil] at htoken
    refine ⟨st.mem, i + g.length + (c :: w).length, [],
      hrun (strtokToken_end htoken hw h0'.1 hshort), OnlyDelims.refl _, htoken, hend, rfl, ?_,
      List.not_mem_nil, fun _ _ => rfl⟩
    rw [List.append_nil, List.length_append, List.length_nil]
    omega
  | cons d rest =>
    have hlength : (d :: rest).length = rest.length + 1 := rfl
    rw [hlength] at hfit
    have hd := hrest d rfl
    have hcut := htoken.append.1
    have hnext := htoken.append.2
    rw [add_ofNat_succ] at hnext
    have hbehind := hnext.update_of_lt (v := some 0) (Nat.lt_succ_self _) (by omega)
    refine ⟨_, i + g.length + (c :: w).length + 1, rest,
      hrun (strtokToken_delim htoken hw h0'.1 hd hshort), fun y => ?_, htoken.cut (by omega), hbehind,
      (@words_sep Byte (isDelim · delim) rest d _ hd).symm, ?_,
      fun hmem => h0'.2 (List.mem_cons_of_mem _ hmem), fun y hy => ?_⟩
    · by_cases hy : y = p + BitVec.ofNat 32 (i + g.length + (c :: w).length)
      · subst hy
        exact Or.inr ⟨d, hcut, hd, Function.update_self ..⟩
      · exact Or.inl (Function.update_of_ne hy ..)
    · rw [List.length_append, List.length_append, hlength]
      omega
    · refine Function.update_of_ne ?_ ..
      rintro rfl
      rw [List.length_append, List.length_append, hlength] at hy
      exact hy ((inRange_add (by omega)).2 (by omega))

end

/-! ## The calls that follow -/

/-- What the calls return that find these words, the null pointers behind
them too. -/
def strtokReturns (p : Word) : List (ℕ × Cstring) → ℕ → List Word
  | _, 0 => []
  | [], n + 1 => 0 :: strtokReturns p [] n
  | x :: ws, n + 1 => (p + BitVec.ofNat 32 x.1) :: strtokReturns p ws n

/-- **The calls find the words**, and end those they have found in place. -/
def StrtokFinds (p : Word) (ws : List (ℕ × Cstring)) (delim : Cstring) (n : ℕ) (srcString : Word)
    (st : Strtok) : Prop :=
  ∃ st', strtokCalls delim n srcString st = .ok (strtokReturns p ws (n + 1), st') ∧
    OnlyDelims delim st.mem st'.mem ∧
    ∀ x ∈ ws.take (n + 1), StringAt st'.mem (p + BitVec.ofNat 32 x.1) x.2

/-- No word is found, again and again. -/
theorem strtokCalls_none {st : Strtok} {srcString : Word} (n : ℕ)
    (hfirst : strtok srcString delim st = .ok (0, st)) (hnull : strtok 0 delim st = .ok (0, st)) :
    StrtokFinds p [] delim n srcString st := by
  have hcalls : strtokCalls delim n srcString st = .ok (strtokReturns p [] (n + 1), st) := by
    induction n generalizing srcString with
    | zero =>
      unfold strtokCalls
      rw [hfirst]
      rfl
    | succ n ih =>
      unfold strtokCalls
      rw [hfirst, Fallible.ok_bind]
      simp only [ih hnull, Fallible.ok_bind]
      rfl
  exact ⟨st, hcalls, OnlyDelims.refl _, fun _ hx => absurd hx List.not_mem_nil⟩

/-- The words that are left, behind a token that was found. -/
theorem StrtokFinds.token {st st₁ : Strtok} {srcString : Word} {x : ℕ × Cstring}
    {ws : List (ℕ × Cstring)}
    (hrun : strtok srcString delim st = .ok (p + BitVec.ofNat 32 x.1, st₁))
    (honly : OnlyDelims delim st.mem st₁.mem)
    (hx : StringAt st₁.mem (p + BitVec.ofNat 32 x.1) x.2) (hdelim : ∀ c ∈ x.2, isDelim c delim = false) :
    StrtokFinds p (x :: ws) delim 0 srcString st ∧
      ∀ n, StrtokFinds p ws delim n 0 st₁ → StrtokFinds p (x :: ws) delim (n + 1) srcString st := by
  constructor
  · refine ⟨st₁, ?_, honly, fun y hy => ?_⟩
    · unfold strtokCalls
      rw [hrun]
      rfl
    · obtain rfl := List.mem_singleton.1 hy
      exact hx
  · rintro n ⟨st', hcalls, honly', hfound⟩
    refine ⟨st', ?_, honly.trans honly', fun y hy => ?_⟩
    · unfold strtokCalls
      rw [hrun, Fallible.ok_bind]
      simp only [hcalls, Fallible.ok_bind]
      rfl
    · rw [List.take_succ_cons] at hy
      rcases List.mem_cons.1 hy with rfl | hy
      · exact hx.of_onlyDelims honly' hdelim
      · exact hfound y hy

/-- A word has no separator in it. -/
theorem not_delim_of_words {x : ℕ × Cstring} {ws : List (ℕ × Cstring)}
    (hwords : words (isDelim · delim) i s = x :: ws) : ∀ c ∈ x.2, isDelim c delim = false := by
  obtain ⟨g, w, rest, -, -, -, hw, -, rfl, -⟩ := exists_of_words_cons hwords
  exact hw

/-- **From a kept place on the calls find the words that are left.** -/
theorem strtokCalls_resume {st : Strtok} (hp : p ≠ 0) (n : ℕ)
    (hfit : p.toNat + (i + s.length) < 2 ^ 32) (hstart : st.backupString = p + BitVec.ofNat 32 i)
    (h : StringAt st.mem (p + BitVec.ofNat 32 i) s) (h0 : 0 ∉ s) :
    StrtokFinds p (words (isDelim · delim) i s) delim n 0 st := by
  have hstart' : strtokStart 0 st = p + BitVec.ofNat 32 i := hstart
  induction n generalizing i s st with
  | zero =>
    cases hwords : words (isDelim · delim) i s with
    | nil =>
      have hnone := strtok_none hstart' h (by omega) hwords
      exact strtokCalls_none 0 hnone hnone
    | cons x ws =>
      obtain ⟨mem', i', s', hrun, honly, hx, -⟩ := strtok_token hp hfit hstart' h h0 hwords
      exact (StrtokFinds.token hrun honly hx (not_delim_of_words hwords)).1
  | succ n ih =>
    cases hwords : words (isDelim · delim) i s with
    | nil =>
      have hnone := strtok_none hstart' h (by omega) hwords
      exact strtokCalls_none (n + 1) hnone hnone
    | cons x ws =>
      obtain ⟨mem', i', s', hrun, honly, hx, hrest, rfl, hlength, h0', -⟩ :=
        strtok_token hp hfit hstart' h h0 hwords
      exact (StrtokFinds.token hrun honly hx (not_delim_of_words hwords)).2 n
        (ih (by omega) rfl hrest h0' rfl)

/-- **A first call that finds a token**, and the calls behind it. -/
theorem strtokCalls_first {st : Strtok} {x : ℕ × Cstring} {ws : List (ℕ × Cstring)} (hp : p ≠ 0)
    (n : ℕ) (hfit : p.toNat + s.length < 2 ^ 32) (h : StringAt st.mem p s) (h0 : 0 ∉ s)
    (hwords : words (isDelim · delim) 0 s = x :: ws) : StrtokFinds p (x :: ws) delim n p st := by
  have hzero : p + BitVec.ofNat 32 0 = p := BitVec.add_zero p
  have hstart : strtokStart p st = p + BitVec.ofNat 32 0 := (if_neg hp).trans hzero.symm
  obtain ⟨mem', i', s', hrun, honly, hx, hrest, rfl, hlength, h0', -⟩ :=
    strtok_token hp (by omega) hstart (by rwa [hzero]) h0 hwords
  have hdelim := not_delim_of_words hwords
  have htoken : StrtokFinds p (x :: words (isDelim · delim) i' s') delim 0 p st ∧ _ :=
    StrtokFinds.token hrun honly hx hdelim
  cases n with
  | zero => exact htoken.1
  | succ n => exact htoken.2 n (strtokCalls_resume hp n (by omega) rfl hrest h0')

/-! ## When the calls split the string -/

/-- **The calls split the string**: in memory that has the string alone,
`strtok(s, d)` and any number of calls `strtok(NULL, d)` behind it return
its words, and null pointers then; they end those words in place, and
overwrite only delimiters. -/
def StrtokSplits (p : Word) (s delim : Cstring) (backupString : Word) : Prop :=
  ∃ ws, WordsOf (isDelim · delim) s ws ∧
    ∀ n, StrtokFinds p ws delim n p ⟨stringMem p s, backupString⟩

/-- A place in memory that has the string alone. -/
theorem stringAt_drop (hfit : s.length < 2 ^ 32) {x : Word} (hx : (x - p).toNat ≤ s.length) :
    StringAt (stringMem p s) x (s.drop (x - p).toNat) := by
  refine stringAt_of_getElem? fun k hk => ?_
  rw [List.length_drop] at hk
  have hoffset : (x + BitVec.ofNat 32 k - p).toNat = (x - p).toNat + k := by
    rw [show x + BitVec.ofNat 32 k - p = (x - p) + BitVec.ofNat 32 k by bv_omega, BitVec.toNat_add,
      BitVec.toNat_ofNat, Nat.mod_eq_of_lt (by omega : k < 2 ^ 32), Nat.mod_eq_of_lt (by omega)]
  unfold stringMem
  rw [hoffset, ← List.getElem?_drop, List.drop_append_of_le_length hx]

/-- A byte that may not be read. -/
theorem strtokSkip_error (hx : mem p = none) (hfuel : 0 < fuel) :
    strtokSkip mem delim fuel p = .error .outOfBounds := by
  obtain ⟨fuel, rfl⟩ := Nat.exists_eq_succ_of_ne_zero hfuel.ne'
  unfold strtokSkip loadUserByte
  rw [hx]
  rfl

/-- A string of delimiters: the first call finds no token, and the others
start at the place that was kept. -/
theorem strtokSplits_of_delims (hp : p ≠ 0) (hfit : p.toNat + s.length < 2 ^ 32)
    (hs : ∀ c ∈ s, isDelim c delim = true) (backupString : Word) :
    StrtokSplits p s delim backupString ↔
      (backupString = 0 ∨ (backupString - p).toNat ≤ s.length) := by
  have hzero : p + BitVec.ofNat 32 0 = p := BitVec.add_zero p
  have hnil : words (isDelim · delim) 0 s = [] := (words_eq_nil_iff s 0).2 hs
  have hstart : strtokStart p ⟨stringMem p s, backupString⟩ = p + BitVec.ofNat 32 0 :=
    (if_neg hp).trans hzero.symm
  have hfirst : strtok p delim ⟨stringMem p s, backupString⟩ = .ok (0, ⟨stringMem p s, backupString⟩) :=
    strtok_none hstart (by rw [hzero]; exact stringAt_stringMem (by omega)) (by omega) hnil
  constructor
  · rintro ⟨ws, hws, h⟩
    obtain rfl := hws.eq_nil hs
    obtain ⟨st', hcalls, -⟩ := h 1
    by_contra hout
    rw [not_or, not_le] at hout
    have hnone : stringMem p s backupString = none :=
      List.getElem?_eq_none (by rw [List.length_append]; exact hout.2)
    have herror : strtok 0 delim ⟨stringMem p s, backupString⟩ = .error .outOfBounds := by
      unfold strtok
      simp only [if_true, if_neg hout.1]
      rw [strtokSkip_error hnone (by decide)]
      rfl
    unfold strtokCalls at hcalls
    rw [hfirst, Fallible.ok_bind] at hcalls
    unfold strtokCalls at hcalls
    simp only [herror] at hcalls
    cases hcalls
  · intro h
    refine ⟨[], hnil ▸ wordsOf_words (isDelim · delim) s, fun n => ?_⟩
    have hnull : strtok 0 delim ⟨stringMem p s, backupString⟩ =
        .ok (0, ⟨stringMem p s, backupString⟩) := by
      rcases h with rfl | hin
      · rfl
      · obtain ⟨k, hk, rfl⟩ : ∃ k, k ≤ s.length ∧ p + BitVec.ofNat 32 k = backupString :=
          ⟨_, hin, by bv_omega⟩
        have hat := stringAt_drop (p := p) (s := s) (by omega) hin
        rw [toNat_add_sub_self (by omega)] at hat
        have hlength : (s.drop k).length < 2 ^ 32 := by
          rw [List.length_drop]
          omega
        exact strtok_none rfl hat hlength
          ((words_eq_nil_iff _ k).2 fun c hc => hs c (List.mem_of_mem_drop hc))
    exact strtokCalls_none n hfirst hnull

/-- **When the calls split the string**: exactly when it has a byte that is
no delimiter, or no place was kept before, or the place that was kept is
in this string. -/
theorem strtok_splits_iff (p : Word) (s delim : Cstring) (backupString : Word) (hp : p ≠ 0)
    (h0 : 0 ∉ s) (hfit : p.toNat + s.length < 2 ^ 32) :
    StrtokSplits p s delim backupString ↔ (∃ c ∈ s, isDelim c delim = false) ∨
      backupString = 0 ∨ (backupString - p).toNat ≤ s.length := by
  by_cases hs : ∀ c ∈ s, isDelim c delim = true
  · refine (strtokSplits_of_delims hp hfit hs backupString).trans (or_iff_right ?_).symm
    rintro ⟨c, hc, hdelim⟩
    rw [hs c hc] at hdelim
    cases hdelim
  · refine iff_of_true ⟨_, wordsOf_words (isDelim · delim) s, fun n => ?_⟩ (Or.inl (by simpa using hs))
    obtain ⟨x, ws, hwords⟩ := List.exists_cons_of_ne_nil (mt (words_eq_nil_iff s 0).1 hs)
    rw [hwords]
    exact strtokCalls_first hp n hfit (stringAt_stringMem (by omega)) h0 hwords

/-- Two words between spaces. -/
theorem strtok_splits_two_words :
    StrtokSplits 0x1000 [0x20, 0x61, 0x20, 0x20, 0x62, 0x20] [0x20] 0x2000 :=
  (strtok_splits_iff 0x1000 [0x20, 0x61, 0x20, 0x20, 0x62, 0x20] [0x20] 0x2000 (by decide) (by decide)
    (by decide)).2 (Or.inl ⟨0x61, by decide, by decide⟩)

/-- **A string of one space**, after a call with another string. -/
theorem not_strtok_splits : ¬ ∀ (p : Word) (s delim : Cstring) (backupString : Word), p ≠ 0 →
    0 ∉ s → p.toNat + s.length < 2 ^ 32 → StrtokSplits p s delim backupString := by
  intro h
  have hsplits := (strtokSplits_of_delims (p := 0x1000) (s := [0x20]) (by decide)
    (by decide) (by decide) 0x2000).1 (h 0x1000 [0x20] [0x20] 0x2000 (by decide) (by decide) (by decide))
  exact absurd hsplits (by decide)

end OwnKernel
