import Mathlib.Data.List.Chain
import Mathlib.Data.List.Nodup
import Mathlib.Tactic.Common

/-!
# Doubly linked lists

Nodes point at each other through `next` and `prev`, with a null. The
list `l` is linked when neighbours point at each other and the ends at
null (`Linked`). Then following `next` from the first node visits `l`
and stops (`Linked.visits`), and no pointer of a node leaves the list
(`Linked.next_cases`, `Linked.prev_cases`). Putting a node at the end
and taking the last one off keep a list linked, whatever happens to the
pointers of other nodes.
-/

namespace OwnKernel

variable {α : Type*}

/-- Following `next` from a pointer visits exactly the list's nodes, in
order, and ends at null. -/
def Visits (next : α → α) (null : α) : α → List α → Prop
  | p, [] => p = null
  | p, a :: l => p = a ∧ a ≠ null ∧ Visits next null (next a) l

/-- **The nodes of `l` form a doubly linked list, in this order.** -/
structure Linked (next prev : α → α) (null : α) (l : List α) : Prop where
  nodup : l.Nodup
  not_null : ∀ a ∈ l, a ≠ null
  chain : l.IsChain fun a b => next a = b ∧ prev b = a
  first : ∀ a ∈ l.head?, prev a = null
  last : ∀ a ∈ l.getLast?, next a = null

/-- The first node, or null. -/
def firstNode (null : α) (l : List α) : α := l.head?.getD null

/-- The last node, or null. -/
def lastNode (null : α) (l : List α) : α := l.getLast?.getD null

@[simp] theorem lastNode_concat (null x : α) (l : List α) : lastNode null (l ++ [x]) = x := by
  simp [lastNode]

@[simp] theorem firstNode_nil (null : α) : firstNode null [] = null := rfl

@[simp] theorem lastNode_nil (null : α) : lastNode null [] = null := rfl

/-- A list with a node has its first one in front. -/
theorem firstNode_append {null : α} {l m : List α} (h : l ≠ []) :
    firstNode null (l ++ m) = firstNode null l := by
  obtain ⟨a, l, rfl⟩ := List.exists_cons_of_ne_nil h
  rfl

theorem firstNode_mem {null : α} {l : List α} (h : l ≠ []) : firstNode null l ∈ l := by
  obtain ⟨a, l, rfl⟩ := List.exists_cons_of_ne_nil h
  exact List.mem_cons_self ..

theorem lastNode_mem {null : α} {l : List α} (h : l ≠ []) : lastNode null l ∈ l := by
  obtain ⟨l', a, rfl⟩ := (List.eq_nil_or_concat' l).resolve_left h
  simp

/-- Pointers that agree on a list visit it alike. -/
theorem Visits.congr {next next' : α → α} {null : α} :
    ∀ {l : List α} {p : α}, Visits next null p l → (∀ a ∈ l, next' a = next a) →
      Visits next' null p l
  | [], _, h, _ => h
  | a :: l, _, ⟨h1, h2, h3⟩, hn =>
    ⟨h1, h2, by
      rw [hn a (List.mem_cons_self ..)]
      exact h3.congr fun b hb => hn b (List.mem_cons_of_mem _ hb)⟩

namespace Linked

variable {next prev next' prev' : α → α} {null x a : α} {l : List α}

/-- The empty list. -/
theorem nil : Linked next prev null [] :=
  ⟨List.nodup_nil, by simp, List.isChain_nil, by simp, by simp⟩

/-- A suffix of a linked list is visited from its first node. -/
theorem visits_of_chain : ∀ {l : List α}, (∀ a ∈ l, a ≠ null) →
    (l.IsChain fun a b => next a = b ∧ prev b = a) → (∀ a ∈ l.getLast?, next a = null) →
    Visits next null (firstNode null l) l
  | [], _, _, _ => rfl
  | [a], h0, _, hl => ⟨rfl, h0 a (by simp), hl a (by simp)⟩
  | a :: b :: l, h0, hc, hl => by
    rw [List.isChain_cons_cons] at hc
    refine ⟨rfl, h0 a (by simp), ?_⟩
    rw [hc.1.1]
    exact visits_of_chain (fun c hm => h0 c (List.mem_cons_of_mem _ hm)) hc.2
      (by simpa using hl)

/-- **Following `next` from the first node visits the list and stops.** -/
theorem visits (h : Linked next prev null l) : Visits next null (firstNode null l) l :=
  visits_of_chain h.not_null h.chain h.last

/-- A node's `next` is null, or a node that points back. -/
theorem next_cases (h : Linked next prev null l) (ha : a ∈ l) :
    next a = null ∨ (next a ∈ l ∧ prev (next a) = a) := by
  obtain ⟨i, hi, rfl⟩ := List.mem_iff_getElem.1 ha
  by_cases hlast : i + 1 < l.length
  · obtain ⟨h1, h2⟩ := List.isChain_iff_getElem.1 h.chain i hlast
    rw [h1]
    exact Or.inr ⟨List.getElem_mem _, h2⟩
  · refine Or.inl (h.last _ ?_)
    rw [List.getLast?_eq_getElem?, Option.mem_def, List.getElem?_eq_some_iff]
    refine ⟨by omega, ?_⟩
    congr 1
    omega

/-- A node's `prev` is null, or a node that points forward to it. -/
theorem prev_cases (h : Linked next prev null l) (ha : a ∈ l) :
    prev a = null ∨ (prev a ∈ l ∧ next (prev a) = a) := by
  obtain ⟨i, hi, rfl⟩ := List.mem_iff_getElem.1 ha
  rcases Nat.eq_zero_or_pos i with rfl | hpos
  · refine Or.inl (h.first _ ?_)
    rw [List.head?_eq_getElem?, Option.mem_def, List.getElem?_eq_some_iff]
    exact ⟨hi, rfl⟩
  · obtain ⟨j, rfl⟩ : ∃ j, i = j + 1 := ⟨i - 1, by omega⟩
    obtain ⟨h1, h2⟩ := List.isChain_iff_getElem.1 h.chain j hi
    rw [h2]
    exact Or.inr ⟨List.getElem_mem _, h1⟩

/-- Only the last node points at null. -/
theorem mem_getLast (h : Linked next prev null l) (ha : a ∈ l) (h0 : next a = null) :
    a ∈ l.getLast? := by
  obtain ⟨i, hi, rfl⟩ := List.mem_iff_getElem.1 ha
  by_cases hlast : i + 1 < l.length
  · have hstep := (List.isChain_iff_getElem.1 h.chain i hlast).1
    exact absurd (hstep.symm.trans h0) (h.not_null _ (List.getElem_mem _))
  · rw [List.getLast?_eq_getElem?, Option.mem_def, List.getElem?_eq_some_iff]
    refine ⟨by omega, ?_⟩
    congr 1
    omega

/-- No node points at itself. -/
theorem next_ne_self (h : Linked next prev null l) (ha : a ∈ l) : next a ≠ a := by
  intro hself
  obtain ⟨i, hi, rfl⟩ := List.mem_iff_getElem.1 ha
  by_cases hlast : i + 1 < l.length
  · have hstep := (List.isChain_iff_getElem.1 h.chain i hlast).1
    have := (List.Nodup.getElem_inj_iff h.nodup).1 (hstep.symm.trans hself)
    omega
  · refine h.not_null _ ha (hself.symm.trans (h.last _ ?_))
    rw [List.getLast?_eq_getElem?, Option.mem_def, List.getElem?_eq_some_iff]
    refine ⟨by omega, ?_⟩
    congr 1
    omega

/-- Neighbours stay neighbours when only the last node's `next` changes. -/
theorem chain_congr (hd : l.Nodup) (hc : l.IsChain fun a b => next a = b ∧ prev b = a)
    (hn : ∀ a ∈ l, a ∉ l.getLast? → next' a = next a) (hp : ∀ a ∈ l, prev' a = prev a) :
    l.IsChain fun a b => next' a = b ∧ prev' b = a := by
  rw [List.isChain_iff_getElem] at hc ⊢
  intro i hi
  obtain ⟨h1, h2⟩ := hc i hi
  have hne : l[i] ∉ l.getLast? := by
    rw [List.getLast?_eq_getElem?, Option.mem_def, List.getElem?_eq_some_iff]
    rintro ⟨hlt, heq⟩
    have := (List.Nodup.getElem_inj_iff hd).1 heq
    omega
  exact ⟨(hn _ (List.getElem_mem _) hne).trans h1, (hp _ (List.getElem_mem _)).trans h2⟩

/-- **A node put at the end.** -/
theorem concat (h : Linked next prev null l) (hx : x ∉ l) (hx0 : x ≠ null)
    (hn : ∀ a ∈ l, a ∉ l.getLast? → next' a = next a) (hp : ∀ a ∈ l, prev' a = prev a)
    (hl : ∀ a ∈ l.getLast?, next' a = x) (hxn : next' x = null)
    (hxp : prev' x = lastNode null l) : Linked next' prev' null (l ++ [x]) where
  nodup := by
    rw [List.nodup_append]
    exact ⟨h.nodup, List.nodup_singleton x, fun a ha b hb hab =>
      hx (List.mem_singleton.1 hb ▸ hab ▸ ha)⟩
  not_null a ha := by
    rcases List.mem_append.1 ha with ha | ha
    · exact h.not_null a ha
    · exact List.mem_singleton.1 ha ▸ hx0
  chain := by
    rw [List.isChain_append]
    refine ⟨chain_congr h.nodup h.chain hn hp, List.isChain_singleton x, fun a ha b hb => ?_⟩
    obtain rfl : x = b := by simpa using hb
    refine ⟨hl a ha, ?_⟩
    rw [hxp, lastNode, Option.mem_def.1 ha]
    rfl
  first a ha := by
    by_cases hnil : l = []
    · subst hnil
      obtain rfl : x = a := by simpa using ha
      exact hxp
    · rw [List.head?_append_of_ne_nil _ hnil] at ha
      rw [hp a (List.mem_of_mem_head? ha)]
      exact h.first a ha
  last a ha := by
    obtain rfl : x = a := by simpa using ha
    exact hxn

/-- **The last node taken off.** -/
theorem dropLast (h : Linked next prev null (l ++ [x]))
    (hn : ∀ a ∈ l, a ∉ l.getLast? → next' a = next a) (hp : ∀ a ∈ l, prev' a = prev a)
    (hl : ∀ a ∈ l.getLast?, next' a = null) : Linked next' prev' null l where
  nodup := (List.nodup_append.1 h.nodup).1
  not_null a ha := h.not_null a (List.mem_append_left _ ha)
  chain := chain_congr (List.nodup_append.1 h.nodup).1 (List.isChain_append.1 h.chain).1 hn hp
  first a ha := by
    have hnil : l ≠ [] := by rintro rfl; simp at ha
    rw [hp a (List.mem_of_mem_head? ha)]
    refine h.first a ?_
    rwa [List.head?_append_of_ne_nil _ hnil]
  last := hl

/-- The node before the last one. -/
theorem prev_last (h : Linked next prev null (l ++ [x])) : prev x = lastNode null l := by
  rcases List.eq_nil_or_concat' l with rfl | ⟨l', a, rfl⟩
  · exact h.first x (by simp)
  · rw [lastNode_concat]
    exact ((List.isChain_append.1 h.chain).2.2 a (by simp) x (by simp)).2

end Linked

end OwnKernel
