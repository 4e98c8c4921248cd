import Mathlib.Data.List.TakeWhile
import Mathlib.Tactic.Common

/-!
# The words of a list

What is left of a list when it is cut at its separators: the maximal runs
of other elements (`MaximalRun`), each with its position. `words` finds
them from left to right, and finds all of them (`mem_words_iff`), in
order and apart from each other (`words_pairwise`).
-/

namespace OwnKernel

variable {α : Type*} {sep : α → Bool} {s w rest : List α} {c : α} {i j k : ℕ}

/-- The words of a list whose first element is at position `i`. -/
def words (sep : α → Bool) (i : ℕ) : List α → List (ℕ × List α)
  | [] => []
  | c :: s =>
    if sep c then words sep (i + 1) s
    else (i, c :: s.takeWhile (! sep ·)) ::
      words sep (i + 1 + (s.takeWhile (! sep ·)).length) (s.dropWhile (! sep ·))
termination_by s => s.length
decreasing_by
  · exact Nat.lt_succ_self _
  · exact Nat.lt_succ_of_le (List.dropWhile_suffix _).length_le

/-- **A maximal run of non-separators**, at position `k`. -/
structure MaximalRun (sep : α → Bool) (s : List α) (k : ℕ) (w : List α) : Prop where
  ne_nil : w ≠ []
  run : ∀ c ∈ w, sep c = false
  maximal : ∃ pre post, s = pre ++ (w ++ post) ∧ pre.length = k ∧
    (∀ c ∈ pre.getLast?, sep c = true) ∧ ∀ c ∈ post.head?, sep c = true

/-! ## Cutting off the first word -/

theorem words_nil : words sep i [] = [] := by
  rw [words]

/-- A separator in front. -/
theorem words_sep (hc : sep c = true) : words sep i (c :: s) = words sep (i + 1) s := by
  rw [words, if_pos hc]

/-- A word in front. -/
theorem words_run (hne : w ≠ []) (hw : ∀ c ∈ w, sep c = false)
    (hrest : ∀ c ∈ rest.head?, sep c = true) :
    words sep i (w ++ rest) = (i, w) :: words sep (i + w.length) rest := by
  obtain ⟨c, w, rfl⟩ := List.exists_cons_of_ne_nil hne
  have hc : ¬ sep c = true := by
    rw [hw c (List.mem_cons_self ..)]
    exact Bool.false_ne_true
  have htake : (w ++ rest).takeWhile (! sep ·) = w ∧ (w ++ rest).dropWhile (! sep ·) = rest := by
    have hall : ∀ d ∈ w, (! sep d) = true := fun d hd => by
      rw [hw d (List.mem_cons_of_mem _ hd)]
      rfl
    rw [List.takeWhile_append_of_pos hall, List.dropWhile_append_of_pos hall]
    cases rest with
    | nil => exact ⟨List.append_nil w, rfl⟩
    | cons d rest =>
      have hd : ¬ (! sep d) = true := by
        rw [hrest d rfl]
        exact Bool.false_ne_true
      rw [List.takeWhile_cons_of_neg (p := (! sep ·)) hd, List.dropWhile_cons_of_neg (p := (! sep ·)) hd]
      exact ⟨List.append_nil w, rfl⟩
  rw [List.cons_append, words, if_neg hc, htake.1, htake.2, List.length_cons, Nat.add_right_comm,
    Nat.add_assoc]

/-- A list is empty, or it starts with a separator, or with a word. -/
theorem cases_words (sep : α → Bool) (s : List α) : s = [] ∨ (∃ c s', s = c :: s' ∧ sep c = true) ∨
    ∃ w rest, s = w ++ rest ∧ w ≠ [] ∧ (∀ c ∈ w, sep c = false) ∧
      ∀ c ∈ rest.head?, sep c = true := by
  cases s with
  | nil => exact Or.inl rfl
  | cons c s =>
    by_cases hc : sep c = true
    · exact Or.inr (Or.inl ⟨c, s, rfl, hc⟩)
    · refine Or.inr (Or.inr ⟨(c :: s).takeWhile (! sep ·), (c :: s).dropWhile (! sep ·),
        List.takeWhile_append_dropWhile.symm, ?_, fun d hd => ?_, fun d hd => ?_⟩)
      · rw [List.takeWhile_cons_of_pos (by simpa using hc)]
        exact List.cons_ne_nil _ _
      · simpa using List.mem_takeWhile_imp hd
      · have hhead := List.head?_dropWhile_not (! sep ·) (c :: s)
        rw [Option.mem_def.1 hd] at hhead
        simpa using hhead

/-- **The first word**, behind separators. -/
theorem exists_of_words_cons {x : ℕ × List α} {ws : List (ℕ × List α)}
    (h : words sep i s = x :: ws) : ∃ g w rest, s = g ++ (w ++ rest) ∧ (∀ c ∈ g, sep c = true) ∧
      w ≠ [] ∧ (∀ c ∈ w, sep c = false) ∧ (∀ c ∈ rest.head?, sep c = true) ∧
      x = (i + g.length, w) ∧ ws = words sep (i + g.length + w.length) rest := by
  induction s generalizing i with
  | nil =>
    rw [words_nil] at h
    cases h
  | cons c s ih =>
    rcases cases_words sep (c :: s) with hnil | ⟨d, s', heq, hd⟩ | ⟨w, rest, heq, hne, hw, hrest⟩
    · cases hnil
    · obtain ⟨rfl, rfl⟩ := List.cons.inj heq
      rw [words_sep hd] at h
      obtain ⟨g, w, rest, rfl, hg, hne, hw, hrest, rfl, rfl⟩ := ih h
      refine ⟨c :: g, w, rest, rfl, List.forall_mem_cons.2 ⟨hd, hg⟩, hne, hw, hrest, ?_, ?_⟩
      · rw [List.length_cons, Nat.add_right_comm, Nat.add_assoc]
      · rw [List.length_cons, Nat.add_right_comm i 1, Nat.add_assoc i]
    · rw [heq, words_run hne hw hrest] at h
      obtain ⟨rfl, rfl⟩ := List.cons.inj h
      exact ⟨[], w, rest, heq, fun _ hc => absurd hc List.not_mem_nil, hne, hw, hrest, rfl, rfl⟩

/-! ## Which words there are -/

/-- **Where the words are**: behind `i`, in order and apart. -/
theorem words_pairwise (s : List α) (i : ℕ) : (∀ x ∈ words sep i s, i ≤ x.1) ∧
    (words sep i s).Pairwise fun x y => x.1 + x.2.length < y.1 := by
  induction hn : s.length using Nat.strong_induction_on generalizing s i with
  | _ n ih =>
    rcases cases_words sep s with rfl | ⟨c, s, rfl, hc⟩ | ⟨w, rest, rfl, hne, hw, hrest⟩
    · rw [words_nil]
      exact ⟨fun _ hx => absurd hx List.not_mem_nil, List.Pairwise.nil⟩
    · rw [words_sep hc]
      obtain ⟨hle, hpair⟩ := ih s.length (hn ▸ Nat.lt_succ_self _) s (i + 1) rfl
      exact ⟨fun x hx => Nat.le_of_succ_le (hle x hx), hpair⟩
    · rw [words_run hne hw hrest]
      have hpos := List.length_pos_iff.2 hne
      rw [List.length_append] at hn
      cases rest with
      | nil =>
        rw [words_nil]
        exact ⟨fun x hx => (List.mem_singleton.1 hx).symm ▸ le_rfl, List.pairwise_singleton _ _⟩
      | cons d rest =>
        -- a separator lies between this word and the next one
        rw [words_sep (hrest d rfl)]
        obtain ⟨hle, hpair⟩ := ih rest.length (by rw [List.length_cons] at hn; omega) rest
          (i + w.length + 1) rfl
        refine ⟨fun x hx => ?_, List.pairwise_cons.2 ⟨fun x hx => hle x hx, hpair⟩⟩
        rcases List.mem_cons.1 hx with rfl | hx
        · exact le_rfl
        · exact (Nat.le_add_right ..).trans ((Nat.le_succ _).trans (hle x hx))

/-- There are no more words than elements. -/
theorem length_words_le (s : List α) (i : ℕ) : (words sep i s).length ≤ s.length := by
  induction hn : s.length using Nat.strong_induction_on generalizing s i with
  | _ n ih =>
    rcases cases_words sep s with rfl | ⟨c, s, rfl, hc⟩ | ⟨w, rest, rfl, hne, hw, hrest⟩
    · rw [words_nil]
      exact Nat.zero_le _
    · rw [words_sep hc]
      exact (ih s.length (hn ▸ Nat.lt_succ_self _) s (i + 1) rfl).trans (hn ▸ Nat.le_succ _)
    · have hpos := List.length_pos_iff.2 hne
      rw [List.length_append] at hn
      have hle := ih rest.length (by omega) rest (i + w.length) rfl
      rw [words_run hne hw hrest, List.length_cons]
      omega

namespace MaximalRun

/-- The first element of a word is no separator. -/
theorem head_ne_sep (h : MaximalRun sep s k w) {post : List α} {d : α} (hd : d ∈ (w ++ post).head?) :
    sep d = false := by
  obtain ⟨e, w, rfl⟩ := List.exists_cons_of_ne_nil h.ne_nil
  obtain rfl := Option.some.inj hd
  exact h.run e (List.mem_cons_self ..)

theorem not_nil : ¬ MaximalRun sep [] k w := by
  rintro ⟨hne, -, pre, post, heq, -⟩
  exact hne (List.append_eq_nil_iff.1 (List.append_eq_nil_iff.1 heq.symm).2).1

/-- Behind a separator the words are those without it. -/
theorem cons_sep_iff (hc : sep c = true) :
    MaximalRun sep (c :: s) k w ↔ ∃ k', k = k' + 1 ∧ MaximalRun sep s k' w := by
  constructor
  · intro h
    obtain ⟨pre, post, heq, rfl, hlast, hhead⟩ := h.maximal
    cases pre with
    | nil =>
      have hfirst : c ∈ (w ++ post).head? := by
        rw [← List.nil_append (w ++ post), ← heq]
        rfl
      rw [h.head_ne_sep hfirst] at hc
      cases hc
    | cons d pre =>
      obtain ⟨rfl, rfl⟩ := List.cons.inj heq
      refine ⟨pre.length, rfl, h.ne_nil, h.run, pre, post, rfl, rfl, fun e he => hlast e ?_, hhead⟩
      rw [List.getLast?_cons]
      rw [Option.mem_def.1 he]
      rfl
  · rintro ⟨k', rfl, hne, hrun, pre, post, rfl, rfl, hlast, hhead⟩
    refine ⟨hne, hrun, c :: pre, post, rfl, rfl, fun e he => ?_, hhead⟩
    cases pre with
    | nil => exact Option.some.inj he ▸ hc
    | cons d pre =>
      rw [List.getLast?_cons_cons] at he
      exact hlast e he

/-- The words of a list with a word in front. -/
theorem run_append_iff {w₀ : List α} (hne : w₀ ≠ []) (hw : ∀ c ∈ w₀, sep c = false)
    (hrest : ∀ c ∈ rest.head?, sep c = true) : MaximalRun sep (w₀ ++ rest) k w ↔
      (k = 0 ∧ w = w₀) ∨ ∃ k', k = w₀.length + k' ∧ MaximalRun sep rest k' w := by
  -- where one run goes on, no separator is behind the other
  have hstop : ∀ {b t : List α}, (∀ c ∈ b, sep c = false) → (∀ c ∈ (b ++ t).head?, sep c = true) →
      b = [] := by
    intro b t hb ht
    cases b with
    | nil => rfl
    | cons d b =>
      have hd := hb d (List.mem_cons_self ..)
      rw [ht d rfl] at hd
      cases hd
  -- and no separator is in the first word
  have hinside : ∀ {pre bs : List α}, w₀ = pre ++ bs → (∀ c ∈ pre.getLast?, sep c = true) →
      pre = [] := by
    intro pre bs heq hlast
    by_contra hpre
    have hmem : pre.getLast hpre ∈ w₀ := by
      rw [heq]
      exact List.mem_append_left _ (List.getLast_mem hpre)
    have hd := hlast _ (List.getLast?_eq_some_getLast hpre)
    rw [hw _ hmem] at hd
    cases hd
  constructor
  · intro h
    obtain ⟨pre, post, heq, rfl, hlast, hhead⟩ := h.maximal
    rcases List.append_eq_append_iff.1 heq with ⟨as, rfl, hrest'⟩ | ⟨bs, hpre, hpost⟩
    · cases as with
      | nil =>
        rw [List.append_nil] at hlast
        exact absurd (hinside (List.append_nil w₀).symm hlast) hne
      | cons d as =>
        refine Or.inr ⟨(d :: as).length, List.length_append, h.ne_nil, h.run, d :: as, post, hrest',
          rfl, fun e he => hlast e ?_, hhead⟩
        rw [List.getLast?_append, Option.mem_def.1 he]
        rfl
    · obtain rfl := hinside hpre hlast
      rw [List.nil_append] at hpre
      subst hpre
      refine Or.inl ⟨rfl, ?_⟩
      rcases List.append_eq_append_iff.1 hpost with ⟨as, rfl, rfl⟩ | ⟨as, rfl, rfl⟩
      · rw [hstop (fun c hc => hw c (List.mem_append_right _ hc)) hhead, List.append_nil]
      · rw [hstop (fun c hc => h.run c (List.mem_append_right _ hc)) hrest, List.append_nil]
  · rintro (⟨rfl, rfl⟩ | ⟨k', rfl, h⟩)
    · exact ⟨hne, hw, [], rest, rfl, rfl, fun _ h => (Option.not_mem_none _ h).elim, hrest⟩
    · obtain ⟨pre, post, rfl, rfl, hlast, hhead⟩ := h.maximal
      refine ⟨h.ne_nil, h.run, w₀ ++ pre, post, (List.append_assoc ..).symm,
        List.length_append, fun e he => ?_, hhead⟩
      cases pre with
      | nil =>
        obtain ⟨d, w', rfl⟩ := List.exists_cons_of_ne_nil h.ne_nil
        have hd := hrest d rfl
        rw [h.run d (List.mem_cons_self ..)] at hd
        cases hd
      | cons d pre =>
        rw [List.getLast?_append, List.getLast?_cons, Option.some_or] at he
        exact hlast e (by rwa [List.getLast?_cons])

end MaximalRun

/-- **`words` are all the maximal runs.** -/
theorem mem_words_iff (s : List α) (i : ℕ) :
    (j, w) ∈ words sep i s ↔ ∃ k, j = i + k ∧ MaximalRun sep s k w := by
  induction hn : s.length using Nat.strong_induction_on generalizing s i with
  | _ n ih =>
    rcases cases_words sep s with rfl | ⟨c, s, rfl, hc⟩ | ⟨w₀, rest, rfl, hne, hw, hrest⟩
    · rw [words_nil]
      exact iff_of_false List.not_mem_nil fun ⟨_, _, h⟩ => h.not_nil
    · rw [words_sep hc, ih s.length (hn ▸ Nat.lt_succ_self _) s (i + 1) rfl]
      constructor
      · rintro ⟨k, rfl, h⟩
        exact ⟨k + 1, by omega, (MaximalRun.cons_sep_iff hc).2 ⟨k, rfl, h⟩⟩
      · rintro ⟨k, rfl, h⟩
        obtain ⟨k', rfl, h'⟩ := (MaximalRun.cons_sep_iff hc).1 h
        exact ⟨k', by omega, h'⟩
    · have hpos := List.length_pos_iff.2 hne
      rw [List.length_append] at hn
      rw [words_run hne hw hrest, List.mem_cons, Prod.mk.injEq,
        ih rest.length (by omega) rest (i + w₀.length) rfl]
      constructor
      · rintro (⟨rfl, rfl⟩ | ⟨k, rfl, h⟩)
        · exact ⟨0, rfl, (MaximalRun.run_append_iff hne hw hrest).2 (Or.inl ⟨rfl, rfl⟩)⟩
        · exact ⟨w₀.length + k, by omega,
            (MaximalRun.run_append_iff hne hw hrest).2 (Or.inr ⟨k, rfl, h⟩)⟩
      · rintro ⟨k, rfl, h⟩
        rcases (MaximalRun.run_append_iff hne hw hrest).1 h with ⟨rfl, rfl⟩ | ⟨k', rfl, h'⟩
        · exact Or.inl ⟨rfl, rfl⟩
        · exact Or.inr ⟨k', by omega, h'⟩

/-- There is a word exactly when there is a non-separator. -/
theorem words_eq_nil_iff (s : List α) (i : ℕ) :
    words sep i s = [] ↔ ∀ c ∈ s, sep c = true := by
  induction s generalizing i with
  | nil => exact iff_of_true words_nil fun _ hc => absurd hc List.not_mem_nil
  | cons c s ih =>
    by_cases hc : sep c = true
    · rw [words_sep hc, ih, List.forall_mem_cons, and_iff_right hc]
    · rw [words, if_neg hc]
      exact iff_of_false (List.cons_ne_nil _ _) fun h => hc (h c (List.mem_cons_self ..))

/-- **The words of a list**: all its maximal runs, each once, in order. -/
structure WordsOf (sep : α → Bool) (s : List α) (ws : List (ℕ × List α)) : Prop where
  mem_iff : ∀ k w, (k, w) ∈ ws ↔ MaximalRun sep s k w
  pairwise : ws.Pairwise fun x y => x.1 + x.2.length < y.1

theorem wordsOf_words (sep : α → Bool) (s : List α) : WordsOf sep s (words sep 0 s) where
  mem_iff k w := by
    rw [mem_words_iff]
    constructor
    · rintro ⟨k', rfl, h⟩
      rwa [Nat.zero_add]
    · exact fun h => ⟨k, (Nat.zero_add k).symm, h⟩
  pairwise := (words_pairwise s 0).2

/-- A list of separators has no words. -/
theorem WordsOf.eq_nil {ws : List (ℕ × List α)} (h : WordsOf sep s ws)
    (hs : ∀ c ∈ s, sep c = true) : ws = [] := by
  refine List.eq_nil_iff_forall_not_mem.2 fun x hx => ?_
  have hrun := (h.mem_iff x.1 x.2).1 hx
  have hmem := ((wordsOf_words sep s).mem_iff x.1 x.2).2 hrun
  rw [(words_eq_nil_iff s 0).2 hs] at hmem
  exact List.not_mem_nil hmem

end OwnKernel
