import OwnKernel.Model.Cstring
import OwnKernel.Model.Terminal

/-!
# String lengths

Both loops count the byte that stops them: `strlen` the terminator
(`strlen_eq`), `strnlen` the terminator or the byte at `max`, which it
reads (`strnlen_eq_min`). So neither length is right for any string, and
what relies on them is not either (`length_miscounts`).
-/

namespace OwnKernel

variable {s cs : Cstring} {max len : ℕ}

/-! ## What the loops count -/

theorem strlen_eq : ∀ {cs : Cstring}, 0 ∉ cs → strlen cs = cs.length + 1
  | [], _ => rfl
  | c :: cs, h => by
    rw [List.mem_cons, not_or] at h
    rw [strlen, if_neg (Ne.symm h.1), strlen_eq h.2, List.length_cons]

/-- `strnlen` counts one byte too many, too. -/
theorem strnlen_eq_min : ∀ {cs : Cstring} {max : ℕ}, 0 ∉ cs →
    strnlen cs max = min cs.length max + 1
  | [], max, _ => by
    rw [List.length_nil, Nat.zero_min]
    rfl
  | c :: cs, 0, h => by
    rw [List.mem_cons, not_or] at h
    rw [strnlen, if_neg (Ne.symm h.1), Nat.min_zero]
  | c :: cs, max + 1, h => by
    rw [List.mem_cons, not_or] at h
    rw [strnlen, if_neg (Ne.symm h.1), strnlen_eq_min h.2, List.length_cons]
    omega

/-- `strnlen` of a string within the bound is its `strlen`. -/
theorem strnlen_eq (h : 0 ∉ cs) (hle : cs.length ≤ max) : strnlen cs max = cs.length + 1 := by
  rw [strnlen_eq_min h, Nat.min_eq_left hle]

/-- The loop of `strlen` on a string reads its terminator last. -/
theorem strlenLoop_eq (h : 0 ∉ cs) (len : ℕ) (rest : List Byte) :
    strlenLoop (cs ++ 0 :: rest) len = some (len + strlen cs) := by
  induction cs generalizing len with
  | nil => rfl
  | cons c cs ih =>
    rw [List.mem_cons, not_or] at h
    rw [List.cons_append, strlenLoop, strlen, if_neg (Ne.symm h.1), if_neg (Ne.symm h.1), ih h.2]
    congr 1
    omega

/-- The loop of `strnlen` on a string. -/
theorem strnlenLoop_eq (h : 0 ∉ cs) (max len : ℕ) (rest : List Byte) :
    strnlenLoop (cs ++ 0 :: rest) max len = some (len + strnlen cs max) := by
  induction cs generalizing max len with
  | nil => rfl
  | cons c cs ih =>
    rw [List.mem_cons, not_or] at h
    rw [List.cons_append]
    cases max with
    | zero =>
      rw [strnlenLoop, strnlen, if_neg (Ne.symm h.1), if_neg (Ne.symm h.1)]
    | succ max =>
      rw [strnlenLoop, strnlen, if_neg (Ne.symm h.1), if_neg (Ne.symm h.1), ih h.2]
      congr 1
      omega

/-- **The byte at `max` is read** where the string is that long. -/
theorem strnlenLoop_take (h : 0 ∉ cs) (hle : max ≤ cs.length) (len : ℕ) :
    strnlenLoop (cs.take max) max len = none := by
  induction cs generalizing max len with
  | nil => rw [List.take_nil]; rfl
  | cons c cs ih =>
    rw [List.mem_cons, not_or] at h
    cases max with
    | zero => rfl
    | succ max =>
      rw [List.take_succ_cons, strnlenLoop, if_neg (Ne.symm h.1)]
      exact ih h.2 (Nat.le_of_succ_le_succ hle) _

/-! ## What is wrong of them -/

/-- `strlen` is the number of bytes before the terminator, and none behind
the terminator is read. -/
def StrlenCounts (s : Cstring) : Prop := strlenLoop (s ++ [0]) 0 = some s.length

/-- `strnlen` is the smaller of that number and `max`, and neither a byte
behind the terminator nor one at `max` or behind is read. -/
def StrnlenCounts (s : Cstring) (max : ℕ) : Prop :=
  strnlenLoop ((s ++ [0]).take max) max 0 = some (min s.length max)

/-- `print` writes the bytes of the string and nothing else. -/
def PrintWrites (s : Cstring) (t : Terminal) : Prop :=
  print t s = terminalWriteAll t (s.map fun c => (c, 15))

/-- The empty string is told by its length. -/
def EmptyByLength (s : Cstring) : Prop := strlen s = 0 ↔ s = []

/-- Characters written one after the other. -/
theorem terminalWriteAll_append (t : Terminal) (xs ys : List (Byte × Byte)) :
    (terminalWriteAll t (xs ++ ys)).2 = (terminalWriteAll t xs).2 ++
      (terminalWriteAll (terminalWriteAll t xs).1 ys).2 := by
  induction xs generalizing t with
  | nil => rfl
  | cons x xs ih =>
    obtain ⟨c, color⟩ := x
    rw [List.cons_append, terminalWriteAll, terminalWriteAll, ih, List.append_assoc]

/-- `print` writes one cell more than the string has. -/
theorem length_print (s : Cstring) (t : Terminal) :
    (print t s).2.length = (terminalWriteAll t (s.map fun c => (c, 15))).2.length + 1 := by
  have hzero : ∀ t : Terminal, (terminalWriteAll t [(0, 15)]).2.length = 1 := by
    intro t
    have hshow : terminalWriteAll t [(0, 15)] =
        ((terminalShow t 0 15).1, (terminalShow t 0 15).2 ++ []) := rfl
    rw [hshow, List.append_nil]
    unfold terminalShow
    simp only
    split <;> rfl
  unfold print
  rw [List.map_append, terminalWriteAll_append, List.length_append]
  exact congrArg _ (hzero _)

/-- **No length is right.** `strlen` and `strnlen` count one byte too many
of every string, `strnlen` reads the byte at `max` of one that is as long,
and `print` writes the terminator. The test for the empty string goes wrong
on it and on no other. -/
theorem length_miscounts (s : Cstring) (max : ℕ) (t : Terminal) (h0 : 0 ∉ s) :
    ¬ StrlenCounts s ∧ ¬ StrnlenCounts s max ∧ ¬ PrintWrites s t ∧ (EmptyByLength s ↔ s ≠ []) := by
  refine ⟨fun h => ?_, fun h => ?_, fun h => ?_, ?_⟩
  · unfold StrlenCounts at h
    rw [strlenLoop_eq h0, strlen_eq h0] at h
    have hlength := Option.some.inj h
    omega
  · unfold StrnlenCounts at h
    rcases Nat.lt_or_ge s.length max with hlt | hge
    · rw [List.take_of_length_le (by rw [List.length_append]; exact hlt), strnlenLoop_eq h0,
        strnlen_eq h0 hlt.le] at h
      have hlength := Option.some.inj h
      omega
    · rw [List.take_append_of_le_length hge, strnlenLoop_take h0 hge] at h
      cases h
  · have hlength := length_print s t
    rw [show print t s = _ from h] at hlength
    omega
  · unfold EmptyByLength
    rw [strlen_eq h0]
    exact ⟨fun h hnil => absurd (h.2 hnil) (Nat.succ_ne_zero _),
      fun hne => iff_of_false (Nat.succ_ne_zero _) hne⟩

/-- A string of two letters. -/
theorem length_miscounts_two_letters : ¬ StrlenCounts [0x61, 0x62] ∧ ¬ StrnlenCounts [0x61, 0x62] 2 :=
  have h := length_miscounts [0x61, 0x62] 2 ⟨0, 0⟩ (by decide)
  ⟨h.1, h.2.1⟩

/-- **Not every length is right**: that of the empty string is wrong already. -/
theorem not_length_counts : ¬ ∀ (s : Cstring) (max : ℕ) (t : Terminal), 0 ∉ s →
    StrlenCounts s ∧ StrnlenCounts s max ∧ PrintWrites s t ∧ EmptyByLength s := by
  intro h
  have hempty := (h [] 0 ⟨0, 0⟩ List.not_mem_nil).1
  unfold StrlenCounts at hempty
  exact absurd hempty (by decide)

end OwnKernel
