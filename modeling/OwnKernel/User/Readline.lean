import OwnKernel.Lib.Fallible
import OwnKernel.Model.Os

/-!
# The line editor of `os_terminal_readline`

The loop is the editor that appends a backspace on the empty line like any
other character (`readlineLoop_eq`). The next backspace on the line that
then looks empty takes it away again, so the line that is stored is the
reference editor's as long as such backspaces come in pairs
(`storedLine_eq_iff`).
-/

namespace OwnKernel

variable {max : ℕ} {line keys polls : List Byte} {key : Byte} {r : Readline} {stray : Bool}

/-! ## Line editors -/

/-- A key of the reference editor. -/
def editKey (line : List Byte) (key : Byte) : List Byte :=
  if key = 0x08 then line.dropLast else line ++ [key]

/-- A key as the loop takes it. -/
def storeKey (line : List Byte) (key : Byte) : List Byte :=
  if key = 0x08 ∧ line ≠ [] then line.dropLast else line ++ [key]

/-- The line of an editor, which stops at carriage return or when the line
is full, or `none` when it waits for more keys. -/
def editLine (edit : List Byte → Byte → List Byte) (max : ℕ) (line : List Byte) :
    List Byte → Option (List Byte)
  | [] => if line.length < max - 1 then none else some line
  | key :: keys =>
    if line.length < max - 1 then
      if key = 13 then some line else editLine edit max (edit line key) keys
    else some line

/-- **The call reads the line**: whatever is polled between the keys and
whatever the buffer holds, it waits when the reference editor does, and
otherwise it stores the editor's line and a terminator and writes nothing
behind the first `max` bytes. -/
def ReadsLine (max : ℕ) (keys : List Byte) : Prop :=
  ∀ out echo polls, max ≤ out.length → polls.filter (· ≠ 0) = keys →
    match editLine editKey max [] keys with
    | none => osTerminalReadline out max echo polls = .error .waiting
    | some line => ∃ r, osTerminalReadline out max echo polls = .ok r ∧
        line ++ [0] <+: r.out ∧ r.out.drop max = out.drop max

/-- **Backspaces on the empty line come in pairs** before the line ends:
at carriage return there is none without its pair, and while there is one
the line has room for two characters more. -/
def StraysPaired (max : ℕ) : Bool → List Byte → List Byte → Prop
  | stray, line, [] => stray = true → line.length < max - 2
  | stray, line, key :: keys =>
    (stray = true → line.length < max - 2) ∧
      (line.length < max - 1 →
        if key = 13 then stray = false
        else StraysPaired max (if key = 0x08 ∧ line = [] then !stray else stray)
          (editKey line key) keys)

/-! ## The two editors -/

/-- What is stored in front of the line. -/
def strayText (stray : Bool) : List Byte := if stray then [0x08] else []

/-- A key is taken behind a stray backspace as it is without. -/
theorem storeKey_strayText (key : Byte) : storeKey (strayText stray ++ line) key =
    strayText (if key = 0x08 ∧ line = [] then !stray else stray) ++ editKey line key := by
  unfold storeKey editKey
  by_cases hkey : key = 0x08
  · subst hkey
    cases line with
    | nil => cases stray <;> decide
    | cons c line =>
      rw [if_pos ⟨rfl, List.append_ne_nil_of_right_ne_nil _ (List.cons_ne_nil c line)⟩,
        if_neg (fun h => List.cons_ne_nil c line h.2), if_pos rfl,
        List.dropLast_append_of_ne_nil (List.cons_ne_nil c line)]
  · rw [if_neg (fun h => hkey h.1), if_neg (fun h => hkey h.1), if_neg hkey, List.append_assoc]

/-- The reference editor stores no backspace. -/
theorem not_mem_editKey (h : 0x08 ∉ line) : 0x08 ∉ editKey line key := by
  unfold editKey
  by_cases hkey : key = 0x08
  · rw [if_pos hkey]
    exact fun hmem => h (List.dropLast_subset line hmem)
  · rw [if_neg hkey]
    intro hmem
    rcases List.mem_append.1 hmem with hmem | hmem
    · exact h hmem
    · exact hkey (List.mem_singleton.1 hmem).symm

/-- What no key brings into the line is not in it. -/
theorem not_mem_editLine {edit : List Byte → Byte → List Byte} {c : Byte} {line' : List Byte}
    (hedit : ∀ line, ∀ key ∈ keys, c ∉ line → c ∉ edit line key) (h : c ∉ line)
    (hline : editLine edit max line keys = some line') : c ∉ line' := by
  induction keys generalizing line with
  | nil =>
    unfold editLine at hline
    split at hline
    · cases hline
    · exact Option.some.inj hline ▸ h
  | cons key keys ih =>
    unfold editLine at hline
    split at hline
    · split at hline
      · exact Option.some.inj hline ▸ h
      · exact ih (fun line k hk => hedit line k (List.mem_cons_of_mem _ hk))
          (hedit line key (List.mem_cons_self ..) h) hline
    · exact Option.some.inj hline ▸ h

/-- A full line ends the editor. -/
theorem editLine_full {edit : List Byte → Byte → List Byte} (h : ¬ line.length < max - 1) :
    editLine edit max line keys = some line := by
  cases keys with
  | nil => exact if_neg h
  | cons key keys => exact if_neg h

/-- A line with a stray backspace in front is none of the reference
editor's. -/
theorem editLine_ne_stray (h : 0x08 ∉ line) (line' : List Byte) :
    some (strayText true ++ line') ≠ editLine editKey max line keys := fun heq =>
  not_mem_editLine (fun _ _ _ => not_mem_editKey) h heq.symm (List.mem_cons_self ..)

theorem length_strayText_append :
    (strayText stray ++ line).length = line.length + if stray then 1 else 0 := by
  rw [List.length_append, Nat.add_comm]
  cases stray <;> rfl

theorem length_storeKey_le (line : List Byte) (key : Byte) :
    (storeKey line key).length ≤ line.length + 1 := by
  unfold storeKey
  split
  · rw [List.length_dropLast]
    omega
  · rw [List.length_append, List.length_singleton]

/-- With a stray backspace and no room the loop stops, and the line stored
is wrong. -/
theorem storedLine_ne (hline : 0x08 ∉ line) (h : ¬ line.length < max - 2) :
    editLine storeKey max (strayText true ++ line) keys ≠ editLine editKey max line keys := by
  rw [editLine_full (by rw [length_strayText_append, if_pos rfl]; omega)]
  exact editLine_ne_stray hline line

/-- **The line stored is the reference editor's** exactly when the strays
are paired. -/
theorem storedLine_eq_iff (hline : 0x08 ∉ line) (hmax : 2 ≤ max)
    (hfits : (strayText stray ++ line).length ≤ max - 1) :
    editLine storeKey max (strayText stray ++ line) keys = editLine editKey max line keys ↔
      StraysPaired max stray line keys := by
  induction keys generalizing line stray with
  | nil =>
    unfold StraysPaired
    by_cases hstray : stray = true → line.length < max - 2
    · refine iff_of_true ?_ hstray
      unfold editLine
      rw [length_strayText_append] at hfits ⊢
      cases stray with
      | false => rfl
      | true =>
        have hroom := hstray rfl
        rw [if_pos (by rw [if_pos rfl]; omega), if_pos (by omega)]
    · obtain ⟨rfl, hroom⟩ := Classical.not_imp.1 hstray
      exact iff_of_false (storedLine_ne hline hroom) hstray
  | cons key keys ih =>
    unfold StraysPaired
    by_cases hstray : stray = true → line.length < max - 2
    · rw [and_iff_right hstray]
      have hfull : (strayText stray ++ line).length < max - 1 ↔ line.length < max - 1 := by
        rw [length_strayText_append] at hfits ⊢
        cases stray with
        | false => rfl
        | true =>
          have hroom := hstray rfl
          rw [if_pos rfl]
          omega
      by_cases hlt : line.length < max - 1
      · rw [forall_prop_of_true hlt]
        unfold editLine
        rw [if_pos (hfull.2 hlt), if_pos hlt]
        by_cases hkey : key = 13
        · rw [if_pos hkey, if_pos hkey, if_pos hkey]
          cases stray with
          | false => exact iff_of_true rfl rfl
          | true =>
            refine iff_of_false (fun heq => ?_) Bool.noConfusion
            have hlength := congrArg List.length (Option.some.inj heq)
            rw [length_strayText_append, if_pos rfl] at hlength
            omega
        · rw [if_neg hkey, if_neg hkey, if_neg hkey, storeKey_strayText]
          refine ih (not_mem_editKey hline) ?_
          rw [← storeKey_strayText]
          have hle := length_storeKey_le (strayText stray ++ line) key
          have hroom := hfull.2 hlt
          omega
      · rw [editLine_full (mt hfull.1 hlt), editLine_full hlt]
        refine iff_of_true ?_ fun h => absurd h hlt
        cases stray with
        | false => rfl
        | true => exact absurd (hstray rfl) (by omega)
    · obtain ⟨rfl, hroom⟩ := Classical.not_imp.1 hstray
      exact iff_of_false (storedLine_ne hline hroom) fun h => hstray h.1

/-! ## The loop -/

/-- A key is waited for while only zeros are polled. -/
theorem osGetkeyBlock_nil (h : polls.filter (· ≠ 0) = []) : osGetkeyBlock polls = .error .waiting := by
  induction polls with
  | nil => rfl
  | cons val polls ih =>
    unfold osGetkeyBlock
    by_cases hval : val = 0
    · rw [if_pos hval]
      exact ih (by rwa [List.filter_cons_of_neg (by simpa using hval)] at h)
    · rw [List.filter_cons_of_pos (by simpa using hval)] at h
      exact absurd h (List.cons_ne_nil _ _)

/-- The first key that is polled is taken. -/
theorem osGetkeyBlock_cons (h : polls.filter (· ≠ 0) = key :: keys) :
    ∃ polls', osGetkeyBlock polls = .ok (key, polls') ∧ polls'.filter (· ≠ 0) = keys ∧
      polls'.length < polls.length := by
  induction polls with
  | nil => cases h
  | cons val polls ih =>
    unfold osGetkeyBlock
    by_cases hval : val = 0
    · rw [if_pos hval]
      obtain ⟨polls', hget, hkeys, hlt⟩ :=
        ih (by rwa [List.filter_cons_of_neg (by simpa using hval)] at h)
      exact ⟨polls', hget, hkeys, Nat.lt_succ_of_lt hlt⟩
    · rw [if_neg hval]
      rw [List.filter_cons_of_pos (by simpa using hval)] at h
      obtain ⟨rfl, rfl⟩ := List.cons.inj h
      exact ⟨polls, rfl, rfl, Nat.lt_succ_self _⟩

/-- **The buffer holds the line**, whose length is the index, and behind
its first `max` bytes what it held at first. -/
structure LineHolds (max : ℕ) (out : List Byte) (line : List Byte) (r : Readline) : Prop where
  index : r.index = line.length
  text : line <+: r.out
  fits : line.length ≤ max - 1
  length : r.out.length = out.length
  behind : r.out.drop max = out.drop max

/-- A store behind the text `line`. -/
theorem prefix_set {out : List Byte} (c : Byte) (h : line <+: out) (hlt : line.length < out.length) :
    line ++ [c] <+: out.set line.length c := by
  obtain ⟨rest, rfl⟩ := h
  cases rest with
  | nil =>
    rw [List.append_nil] at hlt
    exact absurd hlt (Nat.lt_irrefl _)
  | cons d rest =>
    rw [List.set_append_right _ _ le_rfl, Nat.sub_self, List.set_cons_zero]
    exact ⟨rest, by rw [List.append_assoc, List.singleton_append]⟩

/-- **A store among the first `max` bytes**, behind the text `line`. -/
theorem storeOut_prefix {out out₀ : List Byte} (c : Byte) (hline : line <+: out)
    (hlt : line.length < max) (hmax : max ≤ out₀.length) (hlength : out.length = out₀.length)
    (hbehind : out.drop max = out₀.drop max) :
    ∃ out', storeOut out line.length c = .ok out' ∧ line ++ [c] <+: out' ∧
      out'.length = out₀.length ∧ out'.drop max = out₀.drop max := by
  have hroom : line.length < out.length := by omega
  have hstore : storeOut out line.length c = .ok (out.set line.length c) :=
    if_pos ⟨Int.natCast_nonneg _, hroom⟩
  refine ⟨out.set line.length c, hstore, prefix_set c hline hroom, ?_, ?_⟩
  · rw [List.length_set, hlength]
  · rw [List.drop_set_of_lt hlt, hbehind]

namespace LineHolds

variable {out : List Byte}

/-- A key is stored behind the line. -/
theorem append (h : LineHolds max out line r) (hmax : max ≤ out.length)
    (hlt : line.length < max - 1) (key : Byte) (polls shown : List Byte) :
    ∃ out', storeOut r.out r.index key = .ok out' ∧
      LineHolds max out (line ++ [key]) ⟨out', r.index + 1, polls, shown⟩ := by
  obtain ⟨out', hstore, htext, hlength, hbehind⟩ :=
    storeOut_prefix key h.text (by omega : line.length < max) hmax h.length h.behind
  rw [h.index]
  refine ⟨out', hstore, ?_, htext, ?_, hlength, hbehind⟩
  · rw [List.length_append, List.length_singleton]
    rfl
  · rw [List.length_append, List.length_singleton]
    omega

/-- A backspace takes the line's last character away. -/
theorem back (h : LineHolds max out line r) (hmax : max ≤ out.length) (hne : line ≠ [])
    (polls shown : List Byte) : ∃ out', storeOut r.out (r.index - 1) 0 = .ok out' ∧
      LineHolds max out line.dropLast ⟨out', r.index - 2 + 1, polls, shown⟩ := by
  have hpos := List.length_pos_iff.2 hne
  have hfits := h.fits
  have hdrop : line.dropLast.length = line.length - 1 := List.length_dropLast
  obtain ⟨out', hstore, htext, hlength, hbehind⟩ := storeOut_prefix 0
    ((List.dropLast_prefix line).trans h.text) (by omega : line.dropLast.length < max) hmax h.length
    h.behind
  have hindex : r.index - 1 = (line.dropLast.length : ℤ) := by
    rw [h.index, hdrop]
    omega
  rw [hindex]
  refine ⟨out', hstore, ?_, (List.prefix_append _ _).trans htext, by omega, hlength, hbehind⟩
  change r.index - 2 + 1 = _
  omega

/-- The terminator is stored behind the line. -/
theorem terminate (h : LineHolds max out line r) (hmax : max ≤ out.length) (h0 : 0 < max) :
    ∃ out', storeOut r.out r.index 0 = .ok out' ∧ line ++ [0] <+: out' ∧
      out'.drop max = out.drop max := by
  have hfits := h.fits
  obtain ⟨out', hstore, htext, -, hbehind⟩ :=
    storeOut_prefix 0 h.text (by omega : line.length < max) hmax h.length h.behind
  rw [h.index]
  exact ⟨out', hstore, htext, hbehind⟩

end LineHolds

/-- **The loop is the editor that stores a backspace on the empty line.** -/
theorem readlineLoop_eq {out : List Byte} (echo : Bool) (fuel : ℕ) (h : LineHolds max out line r)
    (hmax : max ≤ out.length) (hkeys : r.polls.filter (· ≠ 0) = keys) (hfuel : r.polls.length < fuel) :
    match editLine storeKey max line keys with
    | none => readlineLoop max echo fuel r = .error .waiting
    | some line' => ∃ r', readlineLoop max echo fuel r = .ok r' ∧ LineHolds max out line' r' := by
  induction fuel generalizing line keys r with
  | zero => exact absurd hfuel (Nat.not_lt_zero _)
  | succ fuel ih =>
    unfold readlineLoop
    have hindex := h.index
    by_cases hlt : line.length < max - 1
    · rw [if_pos (by omega)]
      cases keys with
      | nil =>
        rw [osGetkeyBlock_nil hkeys]
        unfold editLine
        rw [if_pos hlt]
        rfl
      | cons key keys =>
        obtain ⟨polls', hget, hkeys', hlen⟩ := osGetkeyBlock_cons hkeys
        rw [hget, Fallible.ok_bind]
        unfold editLine
        rw [if_pos hlt]
        by_cases hcr : key = 13
        · simp only [if_pos hcr]
          exact ⟨{ r with polls := polls' }, rfl, h.index, h.text, h.fits, h.length, h.behind⟩
        · simp only [if_neg hcr]
          by_cases hback : key = 0x08 ∧ line ≠ []
          · have hpos := List.length_pos_iff.2 hback.2
            obtain ⟨out', hstore, h'⟩ := h.back hmax hback.2 polls'
              (if echo = true then r.shown ++ [key] else r.shown)
            rw [if_pos ⟨hback.1, by omega⟩, hstore, Fallible.ok_bind,
              show storeKey line key = line.dropLast from if_pos hback]
            exact ih h' hkeys' (by simp only; omega)
          · have hcheck : ¬ (key = 0x08 ∧ 1 ≤ r.index) := fun hc =>
              hback ⟨hc.1, List.length_pos_iff.1 (by omega)⟩
            obtain ⟨out', hstore, h'⟩ := h.append hmax hlt key polls'
              (if echo = true then r.shown ++ [key] else r.shown)
            rw [if_neg hcheck, hstore, Fallible.ok_bind,
              show storeKey line key = line ++ [key] from if_neg hback]
            exact ih h' hkeys' (by simp only; omega)
    · rw [if_neg (by omega), editLine_full hlt]
      exact ⟨r, rfl, h⟩

/-- What the call stores. -/
theorem osTerminalReadline_eq {out : List Byte} (echo : Bool) (h2 : 2 ≤ max)
    (hmax : max ≤ out.length) (hkeys : polls.filter (· ≠ 0) = keys) :
    match editLine storeKey max [] keys with
    | none => osTerminalReadline out max echo polls = .error .waiting
    | some line => ∃ r, osTerminalReadline out max echo polls = .ok r ∧
        line ++ [0] <+: r.out ∧ r.out.drop max = out.drop max := by
  have hstart : LineHolds max out [] ⟨out, 0, polls, []⟩ :=
    ⟨rfl, List.nil_prefix, Nat.zero_le _, rfl, rfl⟩
  have hloop := readlineLoop_eq echo (polls.length + 1) hstart hmax hkeys
    (Nat.lt_succ_self _)
  unfold osTerminalReadline
  cases hline : editLine storeKey max [] keys with
  | none =>
    rw [hline] at hloop
    simp only at hloop
    rw [hloop]
    rfl
  | some line =>
    rw [hline] at hloop
    obtain ⟨r, hrun, hr⟩ := hloop
    obtain ⟨out', hstore, htext, hbehind⟩ := hr.terminate hmax (by omega)
    refine ⟨{ r with out := out' }, ?_, htext, hbehind⟩
    rw [hrun, Fallible.ok_bind, hstore]
    rfl

/-! ## The line read -/

/-- Two texts without a terminator, each with one behind it, in one
buffer. -/
theorem eq_of_prefix_terminated {line line' out : List Byte} (h : line ++ [0] <+: out)
    (h' : line' ++ [0] <+: out) (h0 : 0 ∉ line) (h0' : 0 ∉ line') : line = line' := by
  have hshorter : ∀ {a b : List Byte}, a ++ [0] <+: b ++ [0] → 0 ∉ b → a = b := by
    intro a b hab hb
    rcases List.prefix_concat_iff.1 hab with heq | hpre
    · exact (List.append_inj' heq rfl).1
    · exact absurd (hpre.subset (List.mem_append_right _ (List.mem_singleton.2 rfl))) hb
  rcases le_total (line ++ [0]).length (line' ++ [0]).length with hle | hle
  · exact hshorter (List.prefix_of_prefix_length_le h h' hle) h0'
  · exact (hshorter (List.prefix_of_prefix_length_le h' h hle) h0).symm

/-- A key that is none is in no line. -/
theorem zero_not_mem_editLine {edit : List Byte → Byte → List Byte} {line' : List Byte}
    (hedit : ∀ line key, edit line key = line.dropLast ∨ edit line key = line ++ [key])
    (h0 : 0 ∉ keys) (hline : editLine edit max [] keys = some line') : 0 ∉ line' := by
  refine not_mem_editLine (fun line key hkey hmem => ?_) List.not_mem_nil hline
  rcases hedit line key with heq | heq
  · rw [heq]
    exact fun h => hmem (List.dropLast_subset line h)
  · rw [heq]
    intro h
    rcases List.mem_append.1 h with h | h
    · exact hmem h
    · exact h0 (List.mem_singleton.1 h ▸ hkey)

theorem editKey_cases (line : List Byte) (key : Byte) :
    editKey line key = line.dropLast ∨ editKey line key = line ++ [key] := by
  unfold editKey
  split
  · exact Or.inl rfl
  · exact Or.inr rfl

theorem storeKey_cases (line : List Byte) (key : Byte) :
    storeKey line key = line.dropLast ∨ storeKey line key = line ++ [key] := by
  unfold storeKey
  split
  · exact Or.inl rfl
  · exact Or.inr rfl

/-- **The call reads the line exactly when the two editors agree.** -/
theorem readsLine_iff (h2 : 2 ≤ max) (h0 : 0 ∉ keys) :
    ReadsLine max keys ↔ editLine storeKey max [] keys = editLine editKey max [] keys := by
  constructor
  · intro h
    have hkeys : keys.filter (· ≠ 0) = keys :=
      List.filter_eq_self.2 fun key hkey => decide_eq_true fun hzero => h0 (hzero ▸ hkey)
    have hlength : max ≤ (List.replicate max (0 : Byte)).length := List.length_replicate.ge
    have hread := h (List.replicate max 0) false keys hlength hkeys
    have hstored := osTerminalReadline_eq false h2 hlength hkeys
    cases hline : editLine editKey max [] keys with
    | none =>
      rw [hline] at hread
      simp only at hread
      cases hline' : editLine storeKey max [] keys with
      | none => rfl
      | some line' =>
        rw [hline'] at hstored
        obtain ⟨r, hrun, -, -⟩ := hstored
        rw [hread] at hrun
        cases hrun
    | some line =>
      rw [hline] at hread
      obtain ⟨r, hrun, htext, -⟩ := hread
      cases hline' : editLine storeKey max [] keys with
      | none =>
        rw [hline'] at hstored
        simp only at hstored
        rw [hstored] at hrun
        cases hrun
      | some line' =>
        rw [hline'] at hstored
        obtain ⟨r', hrun', htext', -⟩ := hstored
        obtain rfl := Except.ok.inj (hrun.symm.trans hrun')
        exact congrArg some (eq_of_prefix_terminated htext' htext
          (zero_not_mem_editLine storeKey_cases h0 hline')
          (zero_not_mem_editLine editKey_cases h0 hline))
  · intro heq out echo polls hmax hkeys
    rw [← heq]
    exact osTerminalReadline_eq _ h2 hmax hkeys

/-- **When `os_terminal_readline` reads the line**: exactly when backspaces
on the empty line come in pairs. -/
theorem osTerminalReadline_reads_iff (max : ℕ) (keys : List Byte) (h2 : 2 ≤ max) (h0 : 0 ∉ keys) :
    ReadsLine max keys ↔ StraysPaired max false [] keys :=
  (readsLine_iff h2 h0).trans
    (@storedLine_eq_iff max [] keys false List.not_mem_nil h2 (Nat.zero_le _))

/-- A letter, taken back, and another one. -/
theorem osTerminalReadline_reads_letter : ReadsLine 8 [0x61, 0x08, 0x62, 13] :=
  (osTerminalReadline_reads_iff 8 [0x61, 0x08, 0x62, 13] (by decide) (by decide)).2 (by
    simp [StraysPaired, editKey])

/-- **A backspace on the empty line** is stored in front of what is typed
behind it. -/
theorem not_readsLine : ¬ ∀ (max : ℕ) (keys : List Byte), 2 ≤ max → 0 ∉ keys →
    ReadsLine max keys := by
  intro h
  have hline := (readsLine_iff (by decide) (by decide)).1
    (h 8 [0x08, 0x61, 13] (by decide) (by decide))
  exact absurd hline (by decide)

end OwnKernel
