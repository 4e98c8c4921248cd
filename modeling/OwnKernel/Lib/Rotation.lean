import OwnKernel.Lib.LinkedList
import OwnKernel.Lib.Pieces
import Mathlib.Data.List.Rotate
import Mathlib.Logic.Function.Iterate

/-!
# Going round a linked list

A list linked one way (`Chained`): each node's `next` is the node after
it, and the last one's is null. Going on from a node means taking `next`,
or the first node where that is null (`goRound`). From any node, as many
steps as there are nodes visit each node once and end where they started
(`Chained.goRound_perm`). Putting a node at the end and bypassing one keep
a list chained.
-/

namespace OwnKernel

variable {α : Type*} {next next' : α → α} {null x a b p : α} {l l₁ l₂ : List α}

/-- **The nodes of `l` follow each other through `next`.** -/
structure Chained (next : α → α) (null : α) (l : List α) : Prop where
  nodup : l.Nodup
  not_null : ∀ a ∈ l, a ≠ null
  chain : l.IsChain fun a b => next a = b
  last : ∀ a ∈ l.getLast?, next a = null

/-- A doubly linked list is chained. -/
theorem Linked.chained {prev : α → α} (h : Linked next prev null l) : Chained next null l :=
  ⟨h.nodup, h.not_null, h.chain.imp fun _ _ hab => hab.1, h.last⟩

namespace Chained

/-- The empty list. -/
theorem nil : Chained next null ([] : List α) :=
  ⟨List.nodup_nil, by simp, List.isChain_nil, by simp⟩

/-- `next` at an index. -/
theorem next_getElem (h : Chained next null l) {i : ℕ} (hi : i < l.length) :
    next l[i] = if hlt : i + 1 < l.length then l[i + 1] else null := by
  by_cases hlt : i + 1 < l.length
  · rw [dif_pos hlt]
    exact List.isChain_iff_getElem.1 h.chain i hlt
  · rw [dif_neg hlt]
    refine h.last _ ?_
    rw [List.getLast?_eq_getElem?, Option.mem_def, List.getElem?_eq_some_iff]
    refine ⟨by omega, ?_⟩
    congr 1
    omega

/-- A node's `next` is null or a node. -/
theorem next_mem (h : Chained next null l) (ha : a ∈ l) : next a = null ∨ next a ∈ l := by
  obtain ⟨i, hi, rfl⟩ := List.mem_iff_getElem.1 ha
  rw [h.next_getElem hi]
  split
  · exact Or.inr (List.getElem_mem _)
  · exact Or.inl rfl

/-- Two nodes before the same node are one. -/
theorem next_inj (h : Chained next null l) (ha : a ∈ l) (hb : b ∈ l) (hp : p ∈ l)
    (hap : next a = p) (hbp : next b = p) : a = b := by
  have h0 := h.not_null p hp
  obtain ⟨i, hi, rfl⟩ := List.mem_iff_getElem.1 ha
  obtain ⟨j, hj, rfl⟩ := List.mem_iff_getElem.1 hb
  rw [h.next_getElem hi] at hap
  rw [h.next_getElem hj] at hbp
  split at hap
  · split at hbp
    · have := (List.Nodup.getElem_inj_iff h.nodup).1 (hap.trans hbp.symm)
      congr 1
      omega
    · exact absurd hbp.symm h0
  · exact absurd hap.symm h0

/-- No node is before the first. -/
theorem next_ne_first (h : Chained next null l) (ha : a ∈ l) : next a ≠ firstNode null l := by
  intro hfirst
  have hnil : l ≠ [] := List.ne_nil_of_mem ha
  have hpos := List.length_pos_iff.2 hnil
  have h0 : firstNode null l = l[0] := by
    obtain ⟨b, m, rfl⟩ := List.exists_cons_of_ne_nil hnil
    rfl
  obtain ⟨i, hi, rfl⟩ := List.mem_iff_getElem.1 ha
  rw [h.next_getElem hi] at hfirst
  split at hfirst
  · have := (List.Nodup.getElem_inj_iff h.nodup).1 (hfirst.trans h0)
    omega
  · exact h.not_null _ (firstNode_mem hnil) hfirst.symm

/-- **A node put at the end.** -/
theorem concat (h : Chained next null l) (hx : x ∉ l) (hx0 : x ≠ null)
    (hn : ∀ a ∈ l, a ∉ l.getLast? → next' a = next a) (hl : ∀ a ∈ l.getLast?, next' a = x)
    (hxn : next' x = null) : Chained next' null (l ++ [x]) where
  nodup := by
    rw [List.nodup_append]
    exact ⟨h.nodup, List.nodup_singleton x, fun a ha b hb hab =>
      hx (List.mem_singleton.1 hb ▸ hab ▸ ha)⟩
  not_null a ha := by
    rcases List.mem_append.1 ha with ha | ha
    · exact h.not_null a ha
    · exact List.mem_singleton.1 ha ▸ hx0
  chain := by
    rw [List.isChain_append]
    refine ⟨?_, List.isChain_singleton x, fun a ha b hb => ?_⟩
    · rw [List.isChain_iff_getElem]
      intro i hi
      have hne : l[i] ∉ l.getLast? := by
        rw [List.getLast?_eq_getElem?, Option.mem_def, List.getElem?_eq_some_iff]
        rintro ⟨hlt, heq⟩
        have := (List.Nodup.getElem_inj_iff h.nodup).1 heq
        omega
      exact (hn _ (List.getElem_mem _) hne).trans (List.isChain_iff_getElem.1 h.chain i hi)
    · obtain rfl : x = b := by simpa using hb
      exact hl a ha
  last a ha := by
    obtain rfl : x = a := by simpa using ha
    exact hxn

/-- **A node bypassed**: the node before it goes on to the one behind. -/
theorem erase [DecidableEq α] (h : Chained next null l) (hp : p ∈ l)
    (hn : ∀ a ∈ l, a ≠ p → next' a = if next a = p then next p else next a) :
    Chained next' null (l.erase p) := by
  obtain ⟨l₁, l₂, rfl⟩ := List.append_of_mem hp
  have hd := h.nodup
  rw [List.nodup_append] at hd
  have hp₁ : p ∉ l₁ := fun hin => hd.2.2 p hin p (List.mem_cons_self ..) rfl
  have hp₂ : p ∉ l₂ := (List.nodup_cons.1 hd.2.1).1
  have herase : (l₁ ++ p :: l₂).erase p = l₁ ++ l₂ := by
    rw [List.erase_append_right _ hp₁, List.erase_cons_head]
  obtain ⟨hc₁, hc₂, hjoin⟩ := List.isChain_append.1 h.chain
  have hc₂' : l₂.IsChain fun a b => next a = b := hc₂.tail
  have hmem₁ : ∀ a ∈ l₁, a ∈ l₁ ++ p :: l₂ := fun a ha => List.mem_append_left _ ha
  have hmem₂ : ∀ a ∈ l₂, a ∈ l₁ ++ p :: l₂ := fun a ha =>
    List.mem_append_right _ (List.mem_cons_of_mem _ ha)
  -- away from the bypassed node nothing changes
  have hkeep : ∀ a ∈ l₁ ++ p :: l₂, a ≠ p → ∀ b, b ≠ p → next a = b → next' a = b := by
    intro a ha hap b hbp hab
    rw [hn a ha hap, if_neg (hab ▸ hbp), hab]
  have hnext_p : ∀ b ∈ l₂.head?, next p = b := fun b hb => by
    obtain ⟨m, rfl⟩ := List.head?_eq_some_iff.1 hb
    exact (List.isChain_cons_cons.1 hc₂).1
  have hchain : ∀ m : List α, (∀ a ∈ m, a ∈ l₁ ++ p :: l₂) → p ∉ m →
      (m.IsChain fun a b => next a = b) → m.IsChain fun a b => next' a = b := by
    intro m hm hpm hc
    rw [List.isChain_iff_getElem] at hc ⊢
    intro i hi
    exact hkeep _ (hm _ (List.getElem_mem _)) (fun he => hpm (he ▸ List.getElem_mem _)) _
      (fun he => hpm (he ▸ List.getElem_mem _)) (hc i hi)
  rw [herase]
  refine ⟨h.nodup.sublist ?_, fun a ha => ?_, ?_, fun a ha => ?_⟩
  · exact List.Sublist.append_left (List.sublist_cons_self ..) _
  · rcases List.mem_append.1 ha with ha | ha
    · exact h.not_null a (hmem₁ a ha)
    · exact h.not_null a (hmem₂ a ha)
  · rw [List.isChain_append]
    refine ⟨hchain l₁ hmem₁ hp₁ hc₁, hchain l₂ hmem₂ hp₂ hc₂', fun a ha b hb => ?_⟩
    have ha₁ := List.mem_of_mem_getLast? ha
    have hap : next a = p := hjoin a ha p rfl
    rw [hn a (hmem₁ a ha₁) (fun he => hp₁ (he ▸ ha₁)), if_pos hap]
    exact hnext_p b hb
  · rcases List.eq_nil_or_concat' l₂ with rfl | ⟨m, b, rfl⟩
    · rw [List.append_nil] at ha
      have ha₁ := List.mem_of_mem_getLast? ha
      have hap : next a = p := hjoin a ha p rfl
      rw [hn a (hmem₁ a ha₁) (fun he => hp₁ (he ▸ ha₁)), if_pos hap]
      exact h.last p (by simp)
    · obtain rfl : b = a := by simpa using ha
      have hb₂ : b ∈ m ++ [b] := by simp
      have hnull : next b = null := h.last b <| by
        rw [show l₁ ++ p :: (m ++ [b]) = (l₁ ++ p :: m) ++ [b] by simp]
        exact List.getLast?_concat ..
      exact hkeep b (hmem₂ b hb₂) (fun he => hp₂ (he ▸ hb₂)) null (h.not_null p hp).symm hnull

/-- No node points at itself. -/
theorem next_ne_self (h : Chained next null l) (ha : a ∈ l) : next a ≠ a := by
  obtain ⟨i, hi, rfl⟩ := List.mem_iff_getElem.1 ha
  rw [h.next_getElem hi]
  split
  · intro he
    have := (List.Nodup.getElem_inj_iff h.nodup).1 he
    omega
  · exact (h.not_null _ (List.getElem_mem hi)).symm

/-- The first node once one is bypassed. -/
theorem firstNode_erase [DecidableEq α] (h : Chained next null l) (hp : p ∈ l) :
    (if p = firstNode null l then next p else firstNode null l) = firstNode null (l.erase p) := by
  obtain ⟨b, m, rfl⟩ := List.exists_cons_of_ne_nil (List.ne_nil_of_mem hp)
  have hb : firstNode null (b :: m) = b := rfl
  rw [hb]
  by_cases hpb : p = b
  · subst hpb
    rw [if_pos rfl, List.erase_cons_head]
    cases m with
    | nil => exact h.last p rfl
    | cons a m => exact (List.isChain_cons_cons.1 h.chain).1
  · rw [if_neg hpb, List.erase_cons_tail (by simpa using Ne.symm hpb)]
    rfl

/-- The last node once one is bypassed: the one before it, or null. -/
theorem lastNode_erase [DecidableEq α] (prev : α) (h : Chained next null l) (hp : p ∈ l)
    (hfirst : prev = null → p = firstNode null l)
    (hprev : prev ≠ null → prev ∈ l ∧ next prev = p) :
    lastNode null (l.erase p) = if p = lastNode null l then prev else lastNode null l := by
  obtain ⟨m, b, rfl⟩ := (List.eq_nil_or_concat' l).resolve_left (List.ne_nil_of_mem hp)
  have hd := h.nodup
  rw [List.nodup_append] at hd
  rw [lastNode_concat]
  by_cases hpb : p = b
  · subst hpb
    have hpm : p ∉ m := fun hin => hd.2.2 p hin p (List.mem_singleton_self p) rfl
    rw [if_pos rfl, List.erase_append_right _ hpm, List.erase_cons_head, List.append_nil]
    rcases List.eq_nil_or_concat' m with rfl | ⟨m, a, rfl⟩
    · by_contra hne
      obtain ⟨hin, hnext⟩ := hprev fun h0 => hne h0.symm
      rw [List.nil_append, List.mem_singleton] at hin
      exact h.next_ne_self hp (hin ▸ hnext)
    · rw [lastNode_concat]
      have hap : next a = p := by
        have hc := (List.isChain_append.1 h.chain).2.2
        exact hc a (List.getLast?_concat ..) p rfl
      have h0 : prev ≠ null := by
        intro h0
        exact h.next_ne_first (a := a) (by simp) (hap.trans (hfirst h0))
      exact h.next_inj (by simp) (hprev h0).1 hp hap (hprev h0).2
  · have hpm : p ∈ m := (List.mem_append.1 hp).resolve_right fun hin =>
      hpb (List.mem_singleton.1 hin)
    rw [if_neg hpb, List.erase_append_left _ hpm, lastNode_concat]

end Chained

/-! ## Going round -/

/-- The node after `a`, or the first one. -/
def goRound [DecidableEq α] (next : α → α) (null first a : α) : α :=
  if next a = null then first else next a

namespace Chained

variable [DecidableEq α]

/-- Going on is moving to the next index, round the list. -/
theorem goRound_getElem (h : Chained next null l) {i : ℕ} (hi : i < l.length) :
    goRound next null (firstNode null l) l[i] =
      l.get ⟨(i + 1) % l.length, Nat.mod_lt _ (by omega)⟩ := by
  have hpos : 0 < l.length := by omega
  have h0 : firstNode null l = l[0] := by
    obtain ⟨b, m, rfl⟩ := List.exists_cons_of_ne_nil (List.length_pos_iff.1 hpos)
    rfl
  unfold goRound
  rw [h.next_getElem hi, List.get_eq_getElem]
  by_cases hlt : i + 1 < l.length
  · rw [dif_pos hlt, if_neg (h.not_null _ (List.getElem_mem _))]
    congr 1
    exact (Nat.mod_eq_of_lt hlt).symm
  · rw [dif_neg hlt, if_pos rfl, h0]
    congr 1
    change 0 = (i + 1) % l.length
    rw [show i + 1 = l.length by omega, Nat.mod_self]

/-- A node's successor is a node. -/
theorem goRound_mem (h : Chained next null l) (ha : a ∈ l) :
    goRound next null (firstNode null l) a ∈ l := by
  obtain ⟨i, hi, rfl⟩ := List.mem_iff_getElem.1 ha
  rw [h.goRound_getElem hi]
  exact List.get_mem ..

/-- Going on `n` times is moving `n` indexes, round the list. -/
theorem goRound_iterate (h : Chained next null l) {i : ℕ} (hi : i < l.length) (n : ℕ) :
    (goRound next null (firstNode null l))^[n] l[i] =
      l.get ⟨(i + n) % l.length, Nat.mod_lt _ (by omega)⟩ := by
  induction n with
  | zero =>
    rw [Function.iterate_zero, id_eq, List.get_eq_getElem]
    congr 1
    exact (Nat.mod_eq_of_lt hi).symm
  | succ n ih =>
    rw [Function.iterate_succ_apply', ih, List.get_eq_getElem, h.goRound_getElem,
      List.get_eq_getElem, List.get_eq_getElem]
    congr 1
    change ((i + n) % l.length + 1) % l.length = (i + (n + 1)) % l.length
    rw [Nat.mod_add_mod, Nat.add_assoc]

/-- **Going round the list**: as many steps as there are nodes visit each
node once and come back. -/
theorem goRound_perm (h : Chained next null l) (ha : a ∈ l) :
    (tabulate (fun i => (goRound next null (firstNode null l))^[i + 1] a) l.length).Perm l ∧
      (goRound next null (firstNode null l))^[l.length] a = a := by
  obtain ⟨i, hi, rfl⟩ := List.mem_iff_getElem.1 ha
  constructor
  · have hrotate : tabulate (fun j => (goRound next null (firstNode null l))^[j + 1] l[i]) l.length =
        l.rotate (i + 1) := by
      refine List.ext_getElem (by simp) fun j hj hj' => ?_
      rw [List.getElem_rotate]
      simp only [tabulate, List.getElem_map, List.getElem_range]
      rw [h.goRound_iterate hi, List.get_eq_getElem]
      congr 1
      change (i + (j + 1)) % l.length = (j + (i + 1)) % l.length
      congr 1
      omega
    rw [hrotate]
    exact List.rotate_perm ..
  · rw [h.goRound_iterate hi, List.get_eq_getElem]
    congr 1
    change (i + l.length) % l.length = i
    rw [Nat.add_mod_right, Nat.mod_eq_of_lt hi]

end Chained

end OwnKernel
