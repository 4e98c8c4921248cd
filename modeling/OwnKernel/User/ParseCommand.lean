import OwnKernel.User.Readline
import OwnKernel.User.Strtok

/-!
# The arguments of a command

`strncpy` copies by one rule (`strncpyLoop_rule`), into the array the
tokenizer works on and into each argument. The list of arguments is built
behind a trailing pointer: what is behind the last node is what the words
that are left become (`osParseCommandLoop_spec`).
-/

namespace OwnKernel

variable {mem : UserMem} {p q token command scommand : Word} {s : Cstring} {w cmd : Cstring}
  {n i N : ℕ}

/-! ## Copies -/

/-- The bytes of a string. -/
theorem StringAt.getElem (h : StringAt mem p w) {k : ℕ} (hk : k < w.length) :
    mem (p + BitVec.ofNat 32 k) = some w[k] := by
  induction w generalizing p k with
  | nil => exact absurd hk (Nat.not_lt_zero _)
  | cons c w ih =>
    cases k with
    | zero => exact (congrArg mem (BitVec.add_zero p)).trans h.1
    | succ k =>
      have hrest := ih h.2 (Nat.lt_of_succ_lt_succ hk)
      rwa [BitVec.add_assoc, BitVec.add_comm 1, ← BitVec.add_assoc, add_ofNat_succ] at hrest

/-- The terminator of a string. -/
theorem StringAt.terminator (h : StringAt mem p w) : mem (p + BitVec.ofNat 32 w.length) = some 0 := by
  have hat : StringAt mem (p + BitVec.ofNat 32 0) (w ++ []) := by
    rw [List.append_nil]
    exact (congrArg (StringAt mem · w) (BitVec.add_zero p)).mpr h
  have hend := hat.append
  rwa [Nat.zero_add] at hend

theorem StringAt.getElem? (h : StringAt mem p w) {k : ℕ} (hk : k ≤ w.length) :
    mem (p + BitVec.ofNat 32 k) = (w ++ [0])[k]? := by
  rcases Nat.lt_or_eq_of_le hk with hlt | rfl
  · rw [h.getElem hlt, List.getElem?_append_left hlt, List.getElem?_eq_getElem hlt]
  · rw [h.terminator, List.getElem?_append_right le_rfl, Nat.sub_self]
    rfl

/-- **What a copy does**: with `I k` for a state in which `k` bytes of `w`
are copied, as many of them are copied as there are, `m` at most, and the
terminator behind them. -/
theorem strncpyLoop_rule {σ : Type} {f : σ → ℕ → Except UserFault Byte}
    {g : σ → ℕ → Byte → Except UserFault σ} {I : ℕ → σ → Prop} {Q : σ → Prop} {m : ℕ}
    (h0 : 0 ∉ w)
    (hsrc : ∀ k st, I k st → (∀ hk : k < w.length, f st k = .ok w[k]) ∧
      (k = w.length → f st k = .ok 0))
    (hdest : ∀ k st, I k st → ∀ hk : k < w.length, k < m →
      ∃ st', g st k w[k] = .ok st' ∧ I (k + 1) st')
    (hend : ∀ st, I (min m w.length) st → ∃ st', g st (min m w.length) 0 = .ok st' ∧ Q st') :
    ∀ n i st, I i st → i ≤ w.length → i + n = m →
      ∃ st', Stdlib.strncpyLoop f g n i st = .ok st' ∧ Q st' := by
  intro n
  induction n with
  | zero =>
    intro i st hI hi hm
    have hmin : min m w.length = i := by omega
    rw [hmin] at hend
    exact hend st hI
  | succ n ih =>
    intro i st hI hi hm
    unfold Stdlib.strncpyLoop
    rcases Nat.lt_or_eq_of_le hi with hlt | heq
    · have hc : w[i] ≠ 0 := fun hc => h0 (hc ▸ List.getElem_mem hlt)
      obtain ⟨st₁, hstore, hI₁⟩ := hdest i st hI hlt (by omega)
      rw [(hsrc i st hI).1 hlt, Fallible.ok_bind, if_neg hc, hstore, Fallible.ok_bind]
      exact ih (i + 1) st₁ hI₁ hlt (by omega)
    · have hmin : min m w.length = i := by omega
      rw [hmin] at hend
      rw [(hsrc i st hI).2 heq, Fallible.ok_bind, if_pos rfl]
      exact hend st hI

/-- A token is copied into an argument, its first 511 bytes. -/
theorem fillNode_spec {s : ParseState} {node : CommandArgument} (hnode : s.nodes q = some node)
    (hlength : node.argument.length = 512) (htoken : StringAt s.strtok.mem token w) (h0 : 0 ∉ w) :
    ∃ argument, fillNode s q token =
        .ok { s with nodes := Function.update s.nodes q (some ⟨argument, 0⟩) } ∧
      w.take 511 ++ [0] <+: argument := by
  have hcopy := strncpyLoop_rule (σ := List Byte) (m := 511)
    (f := fun _ i => loadUserByte s.strtok.mem (token + BitVec.ofNat 32 i))
    (g := fun argument i c => storeOut argument i c)
    (I := fun k argument => w.take k <+: argument ∧ argument.length = 512)
    (Q := fun argument => w.take 511 ++ [0] <+: argument) h0 ?_ ?_ ?_ 511 0 node.argument
    ⟨List.nil_prefix, hlength⟩ (Nat.zero_le _) rfl
  · obtain ⟨argument, hrun, htext⟩ := hcopy
    refine ⟨argument, ?_, htext⟩
    have hrun' : Stdlib.strncpy (fun _ i => loadUserByte s.strtok.mem (token + BitVec.ofNat 32 i))
        (fun argument i c => storeOut argument i c) 512 node.argument = .ok argument := hrun
    unfold fillNode readNode
    rw [hnode]
    simp only [Fallible.ok_bind, hrun']
  · intro k argument hI
    refine ⟨fun hk => loadUserByte_of (htoken.getElem hk), ?_⟩
    rintro rfl
    exact loadUserByte_of htoken.terminator
  · intro k argument hI hk hm
    have htake : (w.take k).length = k := List.length_take_of_le hk.le
    obtain ⟨argument', hstore, htext, hlength', -⟩ := storeOut_prefix w[k] hI.1
      (by omega : (w.take k).length < 512) hI.2.ge rfl rfl
    rw [htake] at hstore
    refine ⟨argument', hstore, ?_, hlength'.trans hI.2⟩
    rwa [List.take_succ_eq_append_getElem hk]
  · intro argument hI
    have htake : (w.take (min 511 w.length)).length = min 511 w.length :=
      List.length_take_of_le (Nat.min_le_right ..)
    obtain ⟨argument', hstore, htext, -⟩ := storeOut_prefix 0 hI.1
      (by omega : (w.take (min 511 w.length)).length < 512) hI.2.ge rfl rfl
    rw [htake] at hstore
    refine ⟨argument', hstore, ?_⟩
    rwa [← List.take_eq_take_min] at htext

/-- A command is copied into the array at `scommand`, and nowhere else. -/
theorem strncpy_scommand (hcommand : StringAt mem command cmd) (h0 : 0 ∉ cmd)
    (hshort : cmd.length < sizeofScommand)
    (hapart : ∀ k ≤ cmd.length, ¬ InRange scommand sizeofScommand (command + BitVec.ofNat 32 k))
    (hmapped : ∀ k < sizeofScommand, mem (scommand + BitVec.ofNat 32 k) ≠ none) :
    ∃ mem', Stdlib.strncpy (fun mem i => loadUserByte mem (command + BitVec.ofNat 32 i))
        (fun mem i c => storeUserByte mem (scommand + BitVec.ofNat 32 i) c) sizeofScommand mem =
          .ok mem' ∧ StringAt mem' scommand cmd ∧
      ∀ x, ¬ InRange scommand sizeofScommand x → mem' x = mem x := by
  unfold sizeofScommand at *
  have hmin : min 1024 cmd.length = cmd.length := by omega
  have hcopy := strncpyLoop_rule (σ := UserMem) (m := 1024)
    (f := fun mem i => loadUserByte mem (command + BitVec.ofNat 32 i))
    (g := fun mem i c => storeUserByte mem (scommand + BitVec.ofNat 32 i) c)
    (I := fun k mem' => (∀ j < k, ∀ hj : j < cmd.length,
        mem' (scommand + BitVec.ofNat 32 j) = some cmd[j]) ∧
      (∀ j < 1025, mem' (scommand + BitVec.ofNat 32 j) ≠ none) ∧
      ∀ x, ¬ InRange scommand 1025 x → mem' x = mem x)
    (Q := fun mem' => StringAt mem' scommand cmd ∧
      ∀ x, ¬ InRange scommand 1025 x → mem' x = mem x) h0 ?_ ?_ ?_ 1024 0 mem
    ⟨fun _ hj => absurd hj (Nat.not_lt_zero _), hmapped, fun _ _ => rfl⟩ (Nat.zero_le _) rfl
  · exact hcopy
  · rintro k mem' ⟨-, -, hframe⟩
    refine ⟨fun hk => loadUserByte_of ?_, ?_⟩
    · rw [hframe _ (hapart k hk.le), hcommand.getElem hk]
    · rintro rfl
      refine loadUserByte_of ?_
      rw [hframe _ (hapart _ le_rfl), hcommand.terminator]
  · rintro k mem' ⟨hbytes, hmap, hframe⟩ hk hm
    obtain ⟨b, hb⟩ := Option.ne_none_iff_exists'.1 (hmap k (by omega))
    refine ⟨_, storeUserByte_of cmd[k] hb, fun j hj hj' => ?_, fun j hj => ?_, fun x hx => ?_⟩
    · rcases Nat.lt_or_eq_of_le (Nat.le_of_lt_succ hj) with hlt | rfl
      · have hne : scommand + BitVec.ofNat 32 j ≠ scommand + BitVec.ofNat 32 k := fun heq =>
          absurd (add_ofNat_inj (by omega) (by omega) heq) (by omega)
        rw [Function.update_of_ne hne, hbytes j hlt hj']
      · exact Function.update_self ..
    · by_cases hjk : scommand + BitVec.ofNat 32 j = scommand + BitVec.ofNat 32 k
      · rw [hjk, Function.update_self]
        exact Option.some_ne_none _
      · rw [Function.update_of_ne hjk]
        exact hmap j hj
    · have hne : x ≠ scommand + BitVec.ofNat 32 k := by
        rintro rfl
        exact hx ((inRange_add (by omega)).2 (by omega))
      rw [Function.update_of_ne hne, hframe x hx]
  · rintro mem' ⟨hbytes, hmap, hframe⟩
    rw [hmin] at hbytes ⊢
    obtain ⟨b, hb⟩ := Option.ne_none_iff_exists'.1 (hmap cmd.length hshort)
    refine ⟨_, storeUserByte_of 0 hb, stringAt_of_getElem? fun k hk => ?_, fun x hx => ?_⟩
    · rcases Nat.lt_or_eq_of_le hk with hlt | rfl
      · have hne : scommand + BitVec.ofNat 32 k ≠ scommand + BitVec.ofNat 32 cmd.length := fun heq =>
          absurd (add_ofNat_inj (by omega) (by omega) heq) (by omega)
        rw [Function.update_of_ne hne, hbytes k hlt hlt, List.getElem?_append_left hlt,
          List.getElem?_eq_getElem hlt]
      · rw [Function.update_self, List.getElem?_append_right le_rfl, Nat.sub_self]
        rfl
    · have hne : x ≠ scommand + BitVec.ofNat 32 cmd.length := by
        rintro rfl
        exact hx ((inRange_add (by omega)).2 hshort)
      rw [Function.update_of_ne hne, hframe x hx]

/-! ## The list of arguments -/

/-- **The arguments from `p` on**, following `next`. -/
def ArgumentsFrom (nodes : Word → Option CommandArgument) : Word → List Cstring → Prop
  | p, [] => p = 0
  | p, a :: as => p ≠ 0 ∧ ∃ node, nodes p = some node ∧ a ++ [0] <+: node.argument ∧
      ArgumentsFrom nodes node.next as

/-- The words that become arguments: their first 511 bytes. -/
def argumentTexts (ws : List (ℕ × Cstring)) : List Cstring := ws.map fun x => x.2.take 511

/-- **The next `n` calls of `os_malloc` succeed**, each with a block of its
own. -/
structure MallocsSucceed (n : ℕ) (blocks : List (Word × CommandArgument)) : Prop where
  enough : n ≤ blocks.length
  ne_zero : ∀ b ∈ blocks, b.1 ≠ 0
  nodup : (blocks.map Prod.fst).Nodup
  size : ∀ b ∈ blocks, b.2.argument.length = 512

/-- The tokenizer is at a place with these words left, all of them within
`N` bytes of `p`. -/
def TokensLeft (p : Word) (N : ℕ) (st : Strtok) (ws : List (ℕ × Cstring)) : Prop :=
  ∃ i s, st.backupString = p + BitVec.ofNat 32 i ∧ StringAt st.mem (p + BitVec.ofNat 32 i) s ∧
    0 ∉ s ∧ words (isDelim · [0x20]) i s = ws ∧ i + s.length ≤ N

theorem TokensLeft.nil {st : Strtok} (h : TokensLeft p N st []) (hN : N < 2 ^ 32) :
    strtok 0 [0x20] st = .ok (0, st) := by
  obtain ⟨i, s, hstart, hat, h0, hwords, hle⟩ := h
  exact strtok_none hstart hat (by omega) hwords

/-- A call that finds a word, wherever it starts. -/
theorem strtok_word {st : Strtok} {srcString : Word} {x : ℕ × Cstring} {ws : List (ℕ × Cstring)}
    (hp : p ≠ 0) (hN : p.toNat + N < 2 ^ 32)
    (hstart : strtokStart srcString st = p + BitVec.ofNat 32 i)
    (hat : StringAt st.mem (p + BitVec.ofNat 32 i) s) (h0 : 0 ∉ s)
    (hwords : words (isDelim · [0x20]) i s = x :: ws) (hle : i + s.length ≤ N) :
    ∃ token st', strtok srcString [0x20] st = .ok (token, st') ∧ token ≠ 0 ∧
      StringAt st'.mem token x.2 ∧ 0 ∉ x.2 ∧ TokensLeft p N st' ws ∧
      ∀ y, ¬ InRange p N y → st'.mem y = st.mem y := by
  obtain ⟨mem', i', s', hrun, -, hx, hrest, rfl, hlength, h0', hframe⟩ :=
    strtok_token hp (by omega) hstart hat h0 hwords
  obtain ⟨g, w, rest, rfl, -, -, -, -, rfl, -⟩ := exists_of_words_cons hwords
  have hmem : 0 ∉ w := fun h =>
    h0 (List.mem_append_right _ (List.mem_append_left _ h))
  rw [List.length_append] at hle
  refine ⟨_, _, hrun, add_ofNat_ne_zero hp (by simp only; omega), hx, hmem,
    ⟨i', s', rfl, hrest, h0', rfl, ?_⟩, fun y hy => hframe y fun hin => hy ?_⟩
  · rw [hlength, List.length_append]
    exact hle
  · unfold InRange at hin ⊢
    rw [List.length_append] at hin
    omega

theorem TokensLeft.cons {st : Strtok} {x : ℕ × Cstring} {ws : List (ℕ × Cstring)}
    (h : TokensLeft p N st (x :: ws)) (hp : p ≠ 0) (hN : p.toNat + N < 2 ^ 32) :
    ∃ token st', strtok 0 [0x20] st = .ok (token, st') ∧ token ≠ 0 ∧ StringAt st'.mem token x.2 ∧
      0 ∉ x.2 ∧ TokensLeft p N st' ws ∧ ∀ y, ¬ InRange p N y → st'.mem y = st.mem y := by
  obtain ⟨i, s, hstart, hat, h0, hwords, hle⟩ := h
  exact strtok_word hp hN hstart hat h0 hwords hle

/-- The next block is taken. -/
theorem osMalloc_cons {st : Strtok} {nodes : Word → Option CommandArgument} {node : CommandArgument}
    {blocks : List (Word × CommandArgument)} : osMalloc ⟨st, nodes, (p, node) :: blocks⟩ =
      (p, ⟨st, Function.update nodes p (some node), blocks⟩) := rfl

theorem linkNode_spec {s : ParseState} {node : CommandArgument} (hnode : s.nodes p = some node)
    (new : Word) : linkNode s p new =
      .ok { s with nodes := Function.update s.nodes p (some { node with next := new }) } := by
  unfold linkNode readNode
  rw [hnode]
  rfl

/-- The block that is returned next. -/
theorem MallocsSucceed.cons {b : Word × CommandArgument} {blocks : List (Word × CommandArgument)}
    (h : MallocsSucceed (n + 1) (b :: blocks)) : b.1 ≠ 0 ∧ b.2.argument.length = 512 ∧
      b.1 ∉ blocks.map Prod.fst ∧ MallocsSucceed n blocks := by
  have hnodup := List.nodup_cons.1 (List.map_cons ▸ h.nodup)
  exact ⟨h.ne_zero b (List.mem_cons_self ..), h.size b (List.mem_cons_self ..), hnodup.1,
    Nat.le_of_succ_le_succ h.enough, fun b' hb => h.ne_zero b' (List.mem_cons_of_mem _ hb),
    hnodup.2, fun b' hb => h.size b' (List.mem_cons_of_mem _ hb)⟩

theorem MallocsSucceed.exists_cons {blocks : List (Word × CommandArgument)}
    (h : MallocsSucceed (n + 1) blocks) : ∃ b blocks', blocks = b :: blocks' :=
  List.exists_cons_of_length_pos
    (Nat.lt_of_succ_le (Nat.le_trans (Nat.succ_le_succ (Nat.zero_le n)) h.enough))

/-- **The loop behind the last node** `current`: it gets the words that are
left, in order. No other node that was there is touched, and no memory
outside the string. -/
theorem osParseCommandLoop_spec (hp : p ≠ 0) (hN : p.toNat + N < 2 ^ 32) :
    ∀ (ws : List (ℕ × Cstring)) (fuel : ℕ) (s : ParseState) (current : Word)
      (node : CommandArgument), TokensLeft p N s.strtok ws → MallocsSucceed ws.length s.blocks →
      current ∉ s.blocks.map Prod.fst → s.nodes current = some node → node.next = 0 →
      ws.length < fuel →
      ∃ s', (do
          let (token, st) ← strtok 0 [0x20] s.strtok
          osParseCommandLoop fuel token current { s with strtok := st }) = Except.ok s' ∧
        (∃ next, s'.nodes current = some { node with next := next } ∧
          ArgumentsFrom s'.nodes next (argumentTexts ws)) ∧
        (∀ q, q ≠ current → q ∉ s.blocks.map Prod.fst → s'.nodes q = s.nodes q) ∧
        ∀ y, ¬ InRange p N y → s'.strtok.mem y = s.strtok.mem y := by
  intro ws
  induction ws with
  | nil =>
    intro fuel s current node htokens hblocks hcurrent hnode hnext hfuel
    obtain ⟨fuel, rfl⟩ := Nat.exists_eq_succ_of_ne_zero hfuel.ne'
    refine ⟨s, ?_, ⟨0, ?_, rfl⟩, fun _ _ _ => rfl, fun _ _ => rfl⟩
    · rw [htokens.nil (by omega), Fallible.ok_bind]
      rfl
    · rw [hnode, ← hnext]
  | cons x ws ih =>
    intro fuel s current node htokens hblocks hcurrent hnode hnext hfuel
    obtain ⟨fuel, rfl⟩ := Nat.exists_eq_succ_of_ne_zero (Nat.ne_zero_of_lt hfuel)
    obtain ⟨token, st, hrun, htoken, hat, h0, htokens', hframe⟩ := htokens.cons hp hN
    obtain ⟨⟨new, b⟩, blocks, hlist⟩ := hblocks.exists_cons
    obtain ⟨st₀, nodes, blocks₀⟩ := s
    simp only at hlist hnode hcurrent hrun hframe
    subst hlist
    obtain ⟨hnew, hsize, hfresh, hblocks'⟩ : new ≠ 0 ∧ b.argument.length = 512 ∧
      new ∉ blocks.map Prod.fst ∧ MallocsSucceed ws.length blocks := hblocks.cons
    have hcurrent' : current ≠ new ∧ current ∉ blocks.map Prod.fst := by
      rwa [List.map_cons, List.mem_cons, not_or] at hcurrent
    -- the new node is filled, and linked behind the last one
    obtain ⟨argument, hfill, htext⟩ := fillNode_spec
      (s := ⟨st, Function.update nodes new (some b), blocks⟩) (Function.update_self ..) hsize hat h0
    have hlast : (Function.update (Function.update nodes new (some b)) new (some ⟨argument, 0⟩))
        current = some node := by
      rw [Function.update_of_ne hcurrent'.1, Function.update_of_ne hcurrent'.1, hnode]
    have hlink := linkNode_spec (s := ⟨st, Function.update (Function.update nodes new (some b)) new
      (some ⟨argument, 0⟩), blocks⟩) hlast new
    obtain ⟨s', hloop, ⟨next, hnode', harguments⟩, hothers, hmem⟩ := ih fuel
      ⟨st, Function.update (Function.update (Function.update nodes new (some b)) new
        (some ⟨argument, 0⟩)) current (some { node with next := new }), blocks⟩ new ⟨argument, 0⟩
      htokens' hblocks' hfresh
      ((Function.update_of_ne (Ne.symm hcurrent'.1) ..).trans (Function.update_self ..)) rfl
      (Nat.lt_of_succ_lt_succ hfuel)
    refine ⟨s', ?_, ⟨new, ?_, hnew, _, hnode', htext, harguments⟩, fun q hq hq' => ?_,
      fun y hy => (hmem y hy).trans (hframe y hy)⟩
    · rw [hrun, Fallible.ok_bind]
      simp only
      unfold osParseCommandLoop
      rw [if_neg htoken, osMalloc_cons]
      simp only
      rw [if_neg hnew, hfill, Fallible.ok_bind, hlink, Fallible.ok_bind]
      exact hloop
    · rw [hothers current hcurrent'.1 hcurrent'.2]
      exact Function.update_self ..
    · simp only [List.map_cons, List.mem_cons, not_or] at hq'
      rw [hothers q hq'.1 hq'.2]
      simp only
      rw [Function.update_of_ne hq, Function.update_of_ne hq'.1, Function.update_of_ne hq'.1]

/-- The space is the only delimiter. -/
theorem isDelim_space {c : Byte} : isDelim c [0x20] = true ↔ c = 0x20 := by
  unfold isDelim isDelim
  rw [if_neg (by decide)]
  by_cases hc : c = 0x20
  · rw [if_pos hc]
    exact iff_of_true rfl hc
  · rw [if_neg hc]
    exact iff_of_false Bool.false_ne_true hc

/-- **`os_parse_command` lists the words of the command.** For a command of
fewer than 1025 bytes, apart from the array of the call, and a `max` below
its size: when all calls of `os_malloc` succeed, the result is null exactly
for a command of spaces, the arguments from it on are the command's words,
in order, the first 511 bytes of each, and memory outside the array, the
command in it, is what it was. -/
theorem osParseCommand_lists (scommand command : Word) (max : ℤ) (cmd : Cstring) (s : ParseState)
    (hmax : max < sizeofScommand) (h0 : 0 ∉ cmd) (hshort : cmd.length < sizeofScommand)
    (hcommand : StringAt s.strtok.mem command cmd)
    (hp : scommand ≠ 0) (hfit : scommand.toNat + sizeofScommand ≤ 2 ^ 32)
    (hmapped : ∀ k < sizeofScommand, s.strtok.mem (scommand + BitVec.ofNat 32 k) ≠ none)
    (hapart : ∀ k ≤ cmd.length, ¬ InRange scommand sizeofScommand (command + BitVec.ofNat 32 k))
    (hmalloc : MallocsSucceed (words (isDelim · [0x20]) 0 cmd).length s.blocks) :
    ∃ root s', osParseCommand scommand command max s = .ok (root, s') ∧
      (root = 0 ↔ ∀ c ∈ cmd, c = 0x20) ∧
      (∃ ws, WordsOf (isDelim · [0x20]) cmd ws ∧ ArgumentsFrom s'.nodes root (argumentTexts ws)) ∧
      StringAt s'.strtok.mem command cmd ∧
      ∀ y, ¬ InRange scommand sizeofScommand y → s'.strtok.mem y = s.strtok.mem y := by
  obtain ⟨st₀, nodes, blocks₀⟩ := s
  simp only at hcommand hmapped hmalloc
  obtain ⟨mem₁, hcopy, hat, hframe₁⟩ := strncpy_scommand hcommand h0 hshort hapart hmapped
  have hmax' : ¬ (sizeofScommand : ℤ) ≤ max := by omega
  have hzero : scommand + BitVec.ofNat 32 0 = scommand := BitVec.add_zero scommand
  have hwordsOf := wordsOf_words (isDelim · [0x20]) cmd
  have hspaces : words (isDelim · [0x20]) 0 cmd = [] ↔ ∀ c ∈ cmd, c = 0x20 :=
    (words_eq_nil_iff cmd 0).trans (forall₂_congr fun c _ => isDelim_space)
  have hstart : strtokStart scommand { st₀ with mem := mem₁ } = scommand + BitVec.ofNat 32 0 :=
    (if_neg hp).trans hzero.symm
  have hat₀ : StringAt mem₁ (scommand + BitVec.ofNat 32 0) cmd := by rwa [hzero]
  -- what is written is written to the array only
  have hkeeps : ∀ mem', (∀ y, ¬ InRange scommand sizeofScommand y → mem' y = st₀.mem y) →
      StringAt mem' command cmd := by
    intro mem' hframe
    refine stringAt_of_getElem? fun k hk => ?_
    rw [hframe _ (hapart k hk), hcommand.getElem? hk]
  unfold sizeofScommand at hshort hfit
  unfold osParseCommand
  rw [if_neg hmax', hcopy, Fallible.ok_bind]
  cases hwords : words (isDelim · [0x20]) 0 cmd with
  | nil =>
    rw [strtok_none hstart hat₀ (by omega) hwords, Fallible.ok_bind]
    refine ⟨0, _, rfl, iff_of_true rfl (hspaces.1 hwords), ⟨[], hwords ▸ hwordsOf, rfl⟩,
      hkeeps _ hframe₁, hframe₁⟩
  | cons x ws =>
    obtain ⟨token, st, hrun, htoken, htokenat, h0', htokens, hframe⟩ :=
      strtok_word (N := cmd.length) hp (by omega) hstart hat₀ h0 hwords (by omega)
    rw [hwords] at hmalloc hwordsOf
    obtain ⟨⟨root, b⟩, blocks, rfl⟩ := hmalloc.exists_cons
    obtain ⟨hroot, hsize, hfresh, hblocks'⟩ : root ≠ 0 ∧ b.argument.length = 512 ∧
      root ∉ blocks.map Prod.fst ∧ MallocsSucceed ws.length blocks := hmalloc.cons
    obtain ⟨argument, hfill, htext⟩ := fillNode_spec
      (s := ⟨st, Function.update nodes root (some b), blocks⟩) (Function.update_self ..) hsize
      htokenat h0'
    have hlength : (words (isDelim · [0x20]) 0 cmd).length ≤ cmd.length := length_words_le cmd 0
    rw [hwords, List.length_cons] at hlength
    obtain ⟨s', hloop, ⟨next, hnode', harguments⟩, -, hmem⟩ := osParseCommandLoop_spec hp
      (by omega : scommand.toNat + cmd.length < 2 ^ 32) ws sizeofScommand
      ⟨st, Function.update (Function.update nodes root (some b)) root (some ⟨argument, 0⟩), blocks⟩
      root ⟨argument, 0⟩ htokens hblocks' hfresh (Function.update_self ..) rfl
      (by unfold sizeofScommand; omega)
    have hframe' : ∀ y, ¬ InRange scommand sizeofScommand y → s'.strtok.mem y = st₀.mem y := by
      intro y hy
      have hin : ¬ InRange scommand cmd.length y := fun h => hy (by
        unfold InRange sizeofScommand at *
        omega)
      rw [hmem y hin]
      exact (hframe y hin).trans (hframe₁ y hy)
    refine ⟨root, s', ?_, iff_of_false hroot fun h => ?_, ⟨x :: ws, hwordsOf, hroot, _, hnode', htext,
      harguments⟩, hkeeps _ hframe', hframe'⟩
    · rw [hrun, Fallible.ok_bind]
      simp only
      rw [if_neg htoken, osMalloc_cons]
      simp only
      rw [if_neg hroot, hfill, Fallible.ok_bind]
      have hwhole := congrArg (· >>= fun s => Except.ok (root, s)) hloop
      simp only [bind_assoc] at hwhole
      exact hwhole
    · rw [hspaces.2 h] at hwords
      cases hwords

/-- Memory with the command `a b` at 0x1000 and an array of zeros at
0x2000. -/
def twoWordsMem : UserMem := fun x =>
  if InRange 0x2000 sizeofScommand x then some 0 else stringMem 0x1000 [0x61, 0x20, 0x62] x

/-- A block that holds zeros. -/
def blankArgument : CommandArgument := ⟨List.replicate 512 0, 0⟩

/-- The two words of `a b`. -/
theorem osParseCommand_lists_two_words :
    ∃ root s', osParseCommand 0x2000 0x1000 1024 ⟨⟨twoWordsMem, 0⟩, fun _ => none,
        [(0x5000, blankArgument), (0x6000, blankArgument), (0x7000, blankArgument)]⟩ = .ok (root, s') ∧
      root ≠ 0 ∧ StringAt s'.strtok.mem 0x1000 [0x61, 0x20, 0x62] := by
  have hapart : ∀ k ≤ 3, ¬ InRange (0x2000 : Word) sizeofScommand (0x1000 + BitVec.ofNat 32 k) := by
    unfold InRange sizeofScommand
    intro k hk
    interval_cases k <;> decide
  have hcommand : StringAt twoWordsMem 0x1000 [0x61, 0x20, 0x62] := by
    refine stringAt_of_getElem? fun k hk => ?_
    unfold twoWordsMem
    rw [if_neg (hapart k hk)]
    unfold stringMem
    have hlt : k < 2 ^ 32 := Nat.lt_of_le_of_lt hk (by decide)
    rw [toNat_add_sub_self hlt]
  have hmapped : ∀ k < sizeofScommand, twoWordsMem (0x2000 + BitVec.ofNat 32 k) ≠ none := by
    intro k hk
    have hlt : k < 2 ^ 32 := Nat.lt_of_lt_of_le hk (by decide)
    unfold twoWordsMem
    rw [if_pos ((inRange_add hlt).2 hk)]
    exact Option.some_ne_none _
  have hmalloc : MallocsSucceed (words (isDelim · [0x20]) 0 [0x61, 0x20, 0x62]).length
      [(0x5000, blankArgument), (0x6000, blankArgument), (0x7000, blankArgument)] := by
    refine ⟨length_words_le _ _, fun b hb => ?_, by decide, fun b hb => ?_⟩
    · simp only [List.mem_cons, List.not_mem_nil, or_false] at hb
      rcases hb with rfl | rfl | rfl <;> decide
    · simp only [List.mem_cons, List.not_mem_nil, or_false] at hb
      rcases hb with rfl | rfl | rfl <;> exact List.length_replicate
  obtain ⟨root, s', hrun, hroot, -, hkept, -⟩ := osParseCommand_lists 0x2000 0x1000 1024
    [0x61, 0x20, 0x62] ⟨⟨twoWordsMem, 0⟩, fun _ => none,
      [(0x5000, blankArgument), (0x6000, blankArgument), (0x7000, blankArgument)]⟩
    (by decide) (by decide) (by decide) hcommand (by decide) (by decide) hmapped hapart hmalloc
  exact ⟨root, s', hrun, fun h => absurd (hroot.1 h) (by decide), hkept⟩

end OwnKernel
