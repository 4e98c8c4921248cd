import OwnKernel.Paging.Chunk
import Mathlib.Data.List.Nodup

/-!
# Freeing a chunk

`paging_free_4gb` reads the tables' addresses back from the directory and
frees them, then the directory, then the chunk object. Freeing touches
the heap's table only, so what it reads stays put while it works: it
frees exactly the chunk's pointers, in the order of `ChunkView.pointers`.
-/

namespace OwnKernel

namespace ChunkView

variable {c : ChunkView} {s : Store} {p q : Word} {j : ℕ}

/-- The chunk's pointers, in the order `paging_free_4gb` frees them. -/
@[irreducible] def pointers (c : ChunkView) : List Word :=
  (List.range' 0 pagingTotalEntriesPerTable).map c.table ++ [c.directory, c.chunk]

theorem mem_pointers : p ∈ c.pointers ↔ c.Has p := by
  unfold pointers Has
  rw [List.mem_append, List.mem_map, List.mem_cons, List.mem_singleton]
  constructor
  · rintro (⟨i, hi, rfl⟩ | h | h)
    · exact Or.inr (Or.inr ⟨i, by rw [List.mem_range'_1] at hi; exact hi.2, rfl⟩)
    · exact Or.inr (Or.inl h)
    · exact Or.inl h
  · rintro (h | h | ⟨i, hi, rfl⟩)
    · exact Or.inr (Or.inr h)
    · exact Or.inr (Or.inl h)
    · exact Or.inl ⟨i, by rw [List.mem_range'_1]; exact ⟨Nat.zero_le _, hi⟩, rfl⟩

/-- A chunk's pointers are distinct. -/
theorem At.nodup_pointers (h : c.At s) : c.pointers.Nodup := by
  unfold pointers
  rw [List.nodup_append]
  refine ⟨List.Nodup.map_on ?_ List.nodup_range', ?_, ?_⟩
  · intro i hi i' hi' he
    rw [List.mem_range'_1] at hi hi'
    exact h.table_inj i i' hi.2 hi'.2 he
  · simp only [List.nodup_cons, List.mem_singleton, List.not_mem_nil, not_false_iff,
      List.nodup_nil, and_true]
    exact h.chunk_ne.symm
  · intro a ha b hb hab
    obtain ⟨i, hi, rfl⟩ := List.mem_map.1 ha
    rw [List.mem_range'_1] at hi
    obtain ⟨h1, h2⟩ := h.table_ne i hi.2
    rw [List.mem_cons, List.mem_singleton] at hb
    rcases hb with rfl | rfl
    · exact h2 hab
    · exact h1 hab

/-- The tables are freed one by one. -/
theorem At.pagingFree4gbLoop_eq {m : Mem} {h : Heap} (hat : c.At ⟨h, m⟩) :
    ∀ (n i : ℕ) (h' : Heap), i + n ≤ 1024 →
      pagingFree4gbLoop c.chunk n i ⟨h', m⟩ =
        .ok (⟨⟩, ⟨h'.freeAll ((List.range' i n).map c.table), m⟩) := by
  intro n
  induction n with
  | zero => exact fun _ _ _ => rfl
  | succ n ih =>
    intro i h' hle
    have hentry : m.load32 (entryAddress (m.load32 c.chunk) i) &&& pagingAddressMask =
        c.table i := by
      have hdir : m.load32 c.chunk = c.directory := hat.directory_eq
      rw [hdir]
      exact hat.entry_eq i (by omega)
    rw [pagingFree4gbLoop, List.range'_succ, List.map_cons, Heap.freeAll_cons]
    change pagingFree4gbLoop c.chunk n (i + 1)
      ⟨h'.write (heapFree h' (m.load32 (entryAddress (m.load32 c.chunk) i) &&& pagingAddressMask)),
        m⟩ = _
    rw [hentry]
    exact ih (i + 1) _ (by omega)

/-- **`paging_free_4gb` frees the chunk's pointers** and nothing else. What
it reads is in memory, so the heap's table may have changed. -/
theorem At.pagingFree4gb_of_mem {m : Mem} {h h' : Heap} (hat : c.At ⟨h, m⟩) (r : h.Ready) :
    pagingFree4gb c.chunk ⟨h', m⟩ = .ok (⟨⟩, ⟨h'.freeAll c.pointers, m⟩) := by
  have hloop := hat.pagingFree4gbLoop_eq pagingTotalEntriesPerTable 0 h'
    (Nat.le_of_eq (Nat.zero_add _))
  unfold pagingFree4gb
  rw [if_neg ((hat.owns _ c.has_chunk).ne_zero r)]
  refine Fallible.run_seq.2 ⟨_, hloop, ?_⟩
  have hdir : m.load32 c.chunk = c.directory := hat.directory_eq
  rw [pointers, Heap.freeAll_append]
  generalize h'.freeAll ((List.range' 0 pagingTotalEntriesPerTable).map c.table) = h₁
  refine Fallible.run_bind.2 ⟨⟨h₁, m⟩, ⟨h₁, m⟩, rfl, ?_⟩
  rw [hdir]
  rfl

/-- On the heap the chunk is in. -/
theorem At.pagingFree4gb_eq (h : c.At s) (r : s.heap.Ready) :
    pagingFree4gb c.chunk s = .ok (⟨⟩, { s with heap := s.heap.freeAll c.pointers }) :=
  h.pagingFree4gb_of_mem r

/-- Freeing a chunk keeps what is not its own. -/
theorem At.owns_freeAll (h : c.At s) (r : s.heap.Ready) (oq : s.heap.Owns q j) (hq : ¬ c.Has q) :
    (s.heap.freeAll c.pointers).Owns q j :=
  Heap.owns_freeAll r h.nodup_pointers (fun p hp => ⟨1, h.owns p (mem_pointers.1 hp)⟩) oq
    fun hin => hq (mem_pointers.1 hin)

end ChunkView

end OwnKernel
