import Mathlib.Algebra.Group.Even
import OwnKernel.User.Itoa

/-!
# What `printf` writes

A `%` takes the character behind it, whichever it is. When that is the
terminator, the loop goes on behind the format: a format that ends in an
odd number of `%` is read past its end, and no other is
(`printf_writes_iff`).
-/

namespace OwnKernel

/-! ## Formats -/

/-- What a directive asks for. -/
inductive VaKind
  | int
  | str
  deriving DecidableEq

/-- The kind of an argument. -/
def VaArg.kind : VaArg → VaKind
  | .int _ => .int
  | .str _ => .str

/-- The arguments a format asks for. -/
def directives : Cstring → List VaKind
  | [] => []
  | c :: s =>
    if c ≠ 0x25 then directives s
    else match s with
      | [] => []
      | d :: s =>
        if d = 0x69 then .int :: directives s
        else if d = 0x73 then .str :: directives s
        else directives s

/-- The arguments are enough for the format. -/
def Suffices (s : Cstring) (ap : List VaArg) : Prop := directives s <+: ap.map VaArg.kind

/-- **What a format stands for**: its literal characters and, for `%i` and
`%s`, the next argument. Behind a `%` any other character is literal. -/
inductive Expands : Cstring → List VaArg → Cstring → Prop
  | nil {ap} : Expands [] ap []
  | literal {c s ap out} : c ≠ 0x25 → Expands s ap out → Expands (c :: s) ap (c :: out)
  | int {s ap out} (i : Word) {str} : IsDecimal str i.toInt → Expands s ap out →
      Expands (0x25 :: 0x69 :: s) (.int i :: ap) (str ++ out)
  | str {s ap out} (sval : Cstring) : Expands s ap out →
      Expands (0x25 :: 0x73 :: s) (.str sval :: ap) (sval ++ out)
  | other {d s ap out} : d ≠ 0x69 → d ≠ 0x73 → Expands s ap out →
      Expands (0x25 :: d :: s) ap (d :: out)

/-- The characters of a call. -/
def Output.chars : Output → Cstring
  | .putchar c => [c]
  | .print massage => massage

/-- **`printf` writes the format**: with enough arguments it returns, no
byte behind the format's terminator is read, and the characters written
are those the format stands for. -/
def PrintfWrites (fmt : Cstring) : Prop :=
  ∀ text ap, Suffices fmt ap → ∃ text' out, printf text fmt ap = .ok (text', out) ∧
    Expands fmt ap (out.flatMap Output.chars)

/-- How many `%` a format ends in. -/
def trailingPercents (s : Cstring) : ℕ := (s.reverse.takeWhile (· = 0x25)).length

/-- Every `%` of the format has a character behind it that it takes. -/
def Complete : Cstring → Prop
  | [] => True
  | c :: s =>
    if c ≠ 0x25 then Complete s
    else match s with
      | [] => False
      | _ :: s => Complete s

/-! ## The format's end -/

variable {text : ItoaText} {s out : Cstring} {ap : List VaArg} {c d : Byte}

theorem trailingPercents_le (s : Cstring) : trailingPercents s ≤ s.length :=
  (List.takeWhile_prefix _).length_le.trans_eq List.length_reverse

theorem trailingPercents_cons : trailingPercents (c :: s) =
    if trailingPercents s = s.length ∧ c = 0x25 then s.length + 1 else trailingPercents s := by
  unfold trailingPercents
  rw [List.reverse_cons, List.takeWhile_append, List.length_reverse]
  by_cases hall : (s.reverse.takeWhile (· = 0x25)).length = s.length
  · rw [if_pos hall]
    by_cases hc : c = 0x25
    · rw [if_pos ⟨hall, hc⟩, List.takeWhile_cons_of_pos (by exact decide_eq_true hc),
        List.takeWhile_nil, List.length_append, List.length_reverse, List.length_singleton]
    · rw [if_neg (fun h => hc h.2), List.takeWhile_cons_of_neg (by simpa using hc),
        List.append_nil, List.length_reverse, hall]
  · rw [if_neg hall, if_neg (fun h => hall h.1)]

/-- Two characters, the first of them a `%`, keep the parity. -/
theorem trailingPercents_directive :
    Even (trailingPercents (0x25 :: d :: s)) ↔ Even (trailingPercents s) := by
  have hle := trailingPercents_le s
  rw [trailingPercents_cons, trailingPercents_cons]
  by_cases hd : trailingPercents s = s.length ∧ d = 0x25
  · rw [if_pos hd, if_pos ⟨rfl, rfl⟩, hd.1, List.length_cons, Nat.even_add_one, Nat.even_add_one,
      not_not]
  · rw [if_neg hd, if_neg]
    rintro ⟨hall, -⟩
    rw [List.length_cons] at hall
    omega

/-- **Every `%` takes a character exactly when the format ends in an even
number of them.** -/
theorem complete_iff (s : Cstring) : Complete s ↔ Even (trailingPercents s) := by
  match s with
  | [] => exact iff_of_true trivial ⟨0, rfl⟩
  | c :: s =>
    unfold Complete
    by_cases hc : c = 0x25
    · rw [if_neg (not_not.2 hc)]
      subst hc
      match s with
      | [] => exact iff_of_false id (by decide)
      | d :: s => exact (complete_iff s).trans trailingPercents_directive.symm
    · rw [if_pos hc, trailingPercents_cons, if_neg (fun h => hc h.2)]
      exact complete_iff s
termination_by s.length

/-! ## The loop -/

/-- A string is read up to its terminator. -/
theorem readString_append (h : 0 ∉ s) (tail : List Byte) : readString (s ++ 0 :: tail) = .ok s := by
  induction s with
  | nil => rfl
  | cons c s ih =>
    have hc : c ≠ 0 := fun hc => h (hc ▸ List.mem_cons_self ..)
    rw [List.cons_append, readString, if_neg hc, ih fun hmem => h (List.mem_cons_of_mem c hmem)]
    rfl

/-- The text of a number, printed. -/
theorem itoa_print (text : ItoaText) (i : Word) : ∃ text' loc str,
    itoa text i.toInt = .ok (text', loc) ∧ readString (text'.toList.drop loc.toNat) = .ok str ∧
      IsDecimal str i.toInt := by
  obtain ⟨text', str, loc, hitoa, -, hdrop, hdecimal⟩ := itoa_eq text i
  refine ⟨text', loc, str, hitoa, ?_, hdecimal⟩
  rw [Int.toNat_natCast, hdrop]
  exact readString_append hdecimal.zero_not_mem []

/-- The first argument is of the kind that is asked for. -/
theorem exists_of_prefix_kind {k : VaKind} {ks : List VaKind} (h : k :: ks <+: ap.map VaArg.kind) :
    ∃ a ap', ap = a :: ap' ∧ a.kind = k ∧ ks <+: ap'.map VaArg.kind := by
  cases ap with
  | nil => exact absurd h.length_le (Nat.not_succ_le_zero _)
  | cons a ap =>
    obtain ⟨hk, hrest⟩ := List.cons_prefix_cons.1 h
    exact ⟨a, ap, rfl, hk.symm, hrest⟩

/-- What follows a call. -/
def afterCall (call : Output) (rest : Except UserFault (ItoaText × List Output)) :
    Except UserFault (ItoaText × List Output) := do
  let (text, out) ← rest
  .ok (text, call :: out)

/-- **One round on a directive** makes one call, with the argument it asks
for, and goes on behind both characters. -/
theorem printfLoop_directive (text : ItoaText) (hap : Suffices (0x25 :: d :: s) ap) :
    ∃ call text' ap', Suffices s ap' ∧
      (∀ p, printfLoop text (0x25 :: d :: p) ap = afterCall call (printfLoop text' p ap')) ∧
      ∀ out, Expands s ap' out → Expands (0x25 :: d :: s) ap (call.chars ++ out) := by
  unfold Suffices directives at hap
  rw [if_neg (by decide)] at hap
  simp only at hap
  by_cases hi : d = 0x69
  · subst hi
    rw [if_pos rfl] at hap
    obtain ⟨a, ap', rfl, hkind, hap'⟩ := exists_of_prefix_kind hap
    cases a with
    | str sval => cases hkind
    | int ival =>
      obtain ⟨text', loc, str, hitoa, hread, hdecimal⟩ := itoa_print text ival
      refine ⟨.print str, text', ap', hap', fun p => ?_, fun out h => .int ival hdecimal h⟩
      rw [printfLoop, if_neg (by decide), if_neg (by decide)]
      simp only [vaInt, Fallible.ok_bind, hitoa, hread, if_pos]
      rfl
  · rw [if_neg hi] at hap
    by_cases hs : d = 0x73
    · subst hs
      rw [if_pos rfl] at hap
      obtain ⟨a, ap', rfl, hkind, hap'⟩ := exists_of_prefix_kind hap
      cases a with
      | int ival => cases hkind
      | str sval =>
        refine ⟨.print sval, text, ap', hap', fun p => ?_, fun out h => .str sval h⟩
        rw [printfLoop, if_neg (by decide), if_neg (by decide)]
        simp only [vaStr, Fallible.ok_bind, if_neg hi, if_pos]
        rfl
    · rw [if_neg hs] at hap
      refine ⟨.putchar d, text, ap, hap, fun p => ?_, fun out h => .other hi hs h⟩
      rw [printfLoop, if_neg (by decide), if_neg (by decide)]
      simp only [if_neg hi, if_neg hs]
      rfl

/-- A round on a literal character. -/
theorem printfLoop_literal {p : List Byte} (h0 : c ≠ 0) (hc : c ≠ 0x25) :
    printfLoop text (c :: p) ap = afterCall (.putchar c) (printfLoop text p ap) := by
  rw [printfLoop.eq_def]
  simp only [if_neg h0, if_pos hc]
  rfl

/-- **A complete format is written.** -/
theorem printfLoop_complete (h0 : 0 ∉ s) (hs : Complete s) (text : ItoaText) (hap : Suffices s ap) :
    ∃ text' out, printfLoop text (s ++ [0]) ap = .ok (text', out) ∧
      Expands s ap (out.flatMap Output.chars) := by
  induction s using Complete.induct generalizing text ap with
  | case1 => exact ⟨text, [], rfl, .nil⟩
  | case2 c s hc ih =>
    obtain ⟨hc0, hs0⟩ := not_or.1 (mt List.mem_cons.2 h0)
    unfold Complete at hs
    unfold Suffices directives at hap
    rw [if_pos hc] at hs hap
    obtain ⟨text', out, hrest, hout⟩ := ih hs0 hs text hap
    refine ⟨text', .putchar c :: out, ?_, .literal hc hout⟩
    rw [List.cons_append, printfLoop_literal (Ne.symm hc0) hc, hrest]
    rfl
  | case3 c hc =>
    unfold Complete at hs
    rw [if_neg hc] at hs
    exact hs.elim
  | case4 c hc d s ih =>
    obtain rfl := not_not.1 hc
    have hs0 := not_or.1 (mt List.mem_cons.2 (not_or.1 (mt List.mem_cons.2 h0)).2)
    unfold Complete at hs
    rw [if_neg hc] at hs
    obtain ⟨call, text₁, ap', hap', hloop, hexpands⟩ := printfLoop_directive text hap
    obtain ⟨text', out, hrest, hout⟩ := ih hs0.2 hs text₁ hap'
    refine ⟨text', call :: out, ?_, hexpands _ hout⟩
    rw [List.cons_append, List.cons_append, hloop, hrest]
    rfl

/-- **A format that is not complete is read past its end.** -/
theorem printfLoop_of_not_complete (h0 : 0 ∉ s) (hs : ¬ Complete s) (text : ItoaText)
    (hap : Suffices s ap) : printfLoop text (s ++ [0]) ap = .error .outOfBounds := by
  induction s using Complete.induct generalizing text ap with
  | case1 => exact absurd trivial hs
  | case2 c s hc ih =>
    obtain ⟨hc0, hs0⟩ := not_or.1 (mt List.mem_cons.2 h0)
    unfold Complete at hs
    unfold Suffices directives at hap
    rw [if_pos hc] at hs hap
    rw [List.cons_append, printfLoop_literal (Ne.symm hc0) hc, ih hs0 hs text hap]
    rfl
  | case3 c hc =>
    -- the terminator is taken, and nothing is left
    obtain rfl := not_not.1 hc
    rfl
  | case4 c hc d s ih =>
    obtain rfl := not_not.1 hc
    have hs0 := not_or.1 (mt List.mem_cons.2 (not_or.1 (mt List.mem_cons.2 h0)).2)
    unfold Complete at hs
    rw [if_neg hc] at hs
    obtain ⟨call, text₁, ap', hap', hloop, -⟩ := printfLoop_directive text hap
    rw [List.cons_append, List.cons_append, hloop, ih hs0.2 hs text₁ hap']
    rfl

/-- Any format has arguments that are enough. -/
theorem exists_suffices (s : Cstring) : ∃ ap, Suffices s ap := by
  refine ⟨(directives s).map fun k => match k with
    | .int => .int 0
    | .str => .str [], ?_⟩
  have hkinds : ∀ ks : List VaKind, (ks.map fun k => match k with
      | .int => VaArg.int 0
      | .str => VaArg.str []).map VaArg.kind = ks := by
    intro ks
    induction ks with
    | nil => rfl
    | cons k ks ih =>
      rw [List.map_cons, List.map_cons, ih]
      cases k <;> rfl
  unfold Suffices
  rw [hkinds]

/-- **When `printf` writes its format**: exactly when it ends in an even
number of `%`. -/
theorem printf_writes_iff (fmt : Cstring) (h0 : 0 ∉ fmt) :
    PrintfWrites fmt ↔ Even (trailingPercents fmt) := by
  rw [← complete_iff]
  constructor
  · intro h
    by_contra hs
    obtain ⟨ap, hap⟩ := exists_suffices fmt
    obtain ⟨text', out, hrun, -⟩ := h (Vector.replicate 12 0) ap hap
    have herror := printfLoop_of_not_complete h0 hs (Vector.replicate 12 0) hap
    unfold printf at hrun
    rw [herror] at hrun
    cases hrun
  · intro hs text ap hap
    exact printfLoop_complete h0 hs text hap

/-- `a%%b`, which asks for nothing. -/
theorem printf_writes_percent : PrintfWrites [0x61, 0x25, 0x25, 0x62] :=
  (printf_writes_iff [0x61, 0x25, 0x25, 0x62] (by decide)).2 (by decide)

/-- **A format that ends in a `%`** is read past its end. -/
theorem not_printf_writes : ¬ ∀ fmt : Cstring, 0 ∉ fmt → PrintfWrites fmt := by
  intro h
  obtain ⟨text', out, hrun, -⟩ := h [0x61, 0x25] (by decide) (Vector.replicate 12 0) []
    List.nil_prefix
  cases hrun

end OwnKernel
