import Mathlib.Data.Fintype.Card
import OwnKernel.Model.Arguments
import OwnKernel.Process.Requests
import OwnKernel.Store.Granted
import OwnKernel.Store.Strncpy

/-!
# A program's arguments, injected

`process_inject_arguments` walks a list of nodes twice, once to count and
once to copy. A list ends, so its nodes are distinct and fewer than
addresses (`ArgumentList.length_lt`). Each node takes one of the
process's records, so the second walk ends whatever becomes of memory;
and where the list is apart from what is taken and mapped, it finds there
what the first one found.
-/

namespace OwnKernel

variable {m m' : Mem} {a node : Word} {nodes nodes' : List Word} {k k' k₁ : Kernel} {i n : ℕ}

/-! ## Lists of arguments -/

/-- **The list at `a`** has the nodes `nodes`. -/
def ArgumentList (m : Mem) : Word → List Word → Prop
  | a, [] => a = 0
  | a, node :: nodes =>
    a ≠ 0 ∧ node = a ∧ ArgumentList m (m.load32 (a + BitVec.ofNat 32 commandArgumentNextOffset)) nodes

/-- A byte of one of the nodes. -/
def InNodes (nodes : List Word) (x : Word) : Prop :=
  ∃ node ∈ nodes, InRange node sizeofCommandArgument x

namespace ArgumentList

/-- A list is in the words that link it. -/
theorem congr_next : ∀ {nodes : List Word} {a : Word}, ArgumentList m a nodes →
    (∀ node ∈ nodes, m'.load32 (node + BitVec.ofNat 32 commandArgumentNextOffset) =
      m.load32 (node + BitVec.ofNat 32 commandArgumentNextOffset)) → ArgumentList m' a nodes := by
  intro nodes
  induction nodes with
  | nil => exact fun h _ => h
  | cons node nodes ih =>
    intro a h hm
    obtain ⟨h0, rfl, hrest⟩ := h
    refine ⟨h0, rfl, ?_⟩
    rw [hm node List.mem_cons_self]
    exact ih hrest fun y hy => hm y (List.mem_cons_of_mem _ hy)

/-- The list at an address is one. -/
theorem unique : ∀ {nodes nodes' : List Word} {a : Word}, ArgumentList m a nodes →
    ArgumentList m a nodes' → nodes = nodes' := by
  intro nodes
  induction nodes with
  | nil =>
    intro nodes' a h h'
    cases nodes' with
    | nil => rfl
    | cons node' nodes' => exact absurd h h'.1
  | cons node nodes ih =>
    intro nodes' a h h'
    cases nodes' with
    | nil => exact absurd h' h.1
    | cons node' nodes' =>
      obtain ⟨-, rfl, h⟩ := h
      obtain ⟨-, rfl, h'⟩ := h'
      rw [ih h h']

/-- Past a node there is the rest of the list, from a node on. -/
theorem exists_suffix : ∀ {nodes : List Word} {a node : Word}, ArgumentList m a nodes →
    node ∈ nodes → ∃ rest, ArgumentList m node (node :: rest) ∧ rest.length < nodes.length := by
  intro nodes
  induction nodes with
  | nil => exact fun _ hin => absurd hin List.not_mem_nil
  | cons first nodes ih =>
    intro a node h hin
    rcases List.mem_cons.1 hin with rfl | hin
    · obtain ⟨h0, rfl, hrest⟩ := h
      exact ⟨nodes, ⟨h0, rfl, hrest⟩, Nat.lt_succ_self _⟩
    · obtain ⟨rest, hlist, hlen⟩ := ih h.2.2 hin
      exact ⟨rest, hlist, Nat.lt_succ_of_lt hlen⟩

/-- **A list that ends visits no node twice.** -/
theorem nodup : ∀ {nodes : List Word} {a : Word}, ArgumentList m a nodes → nodes.Nodup := by
  intro nodes
  induction nodes with
  | nil => exact fun _ => List.nodup_nil
  | cons node nodes ih =>
    intro a h
    refine List.nodup_cons.2 ⟨fun hin => ?_, ih h.2.2⟩
    obtain ⟨rest, hlist, hlen⟩ := exists_suffix h.2.2 hin
    obtain rfl := h.2.1
    have heq := congrArg List.length (unique hlist h)
    rw [List.length_cons, List.length_cons] at heq
    omega

theorem ne_zero : ∀ {nodes : List Word} {a : Word}, ArgumentList m a nodes → ∀ node ∈ nodes,
    node ≠ 0 := by
  intro nodes a h node hin
  obtain ⟨rest, hlist, -⟩ := exists_suffix h hin
  exact hlist.1

/-- There are fewer nodes than addresses. -/
theorem length_lt (h : ArgumentList m a nodes) : nodes.length < 2 ^ 32 := by
  have hnodup : (0 :: nodes).Nodup :=
    List.nodup_cons.2 ⟨fun hin => h.ne_zero 0 hin rfl, h.nodup⟩
  have hinj : Function.Injective (BitVec.toFin : Word → Fin (2 ^ 32)) := fun x y hxy =>
    BitVec.eq_of_toFin_eq hxy
  have hcard := (hnodup.map hinj).length_le_card
  rw [List.length_map, List.length_cons, Fintype.card_fin] at hcard
  exact hcard

/-- A list is in its nodes. -/
theorem congr : ∀ {nodes : List Word} {a : Word}, ArgumentList m a nodes →
    (∀ x, InNodes nodes x → m' x = m x) → ArgumentList m' a nodes := by
  intro nodes
  induction nodes with
  | nil => exact fun h _ => h
  | cons node nodes ih =>
    intro a h hm
    obtain ⟨h0, rfl, hrest⟩ := h
    refine ⟨h0, rfl, ?_⟩
    have hnext : m'.load32 (node + BitVec.ofNat 32 commandArgumentNextOffset) =
        m.load32 (node + BitVec.ofNat 32 commandArgumentNextOffset) := by
      refine Mem.load32_congr fun x hx => hm x ⟨node, List.mem_cons_self, ?_⟩
      unfold InRange commandArgumentNextOffset at hx
      unfold InRange sizeofCommandArgument
      bv_omega
    rw [hnext]
    exact ih hrest fun x ⟨y, hy, hx⟩ => hm x ⟨y, List.mem_cons_of_mem _ hy, hx⟩

end ArgumentList

/-- **The count** is of the nodes, as an `int`; nothing is written. -/
theorem processCountCommandArgumentsLoop_eq : ∀ {nodes : List Word} {fuel : ℕ} {a : Word} (i : ℕ),
    ArgumentList k.store.mem a nodes → nodes.length < fuel →
      processCountCommandArgumentsLoop fuel a (int32 i) k =
        .ok (int32 ((i + nodes.length : ℕ) : ℤ), k) := by
  intro nodes
  induction nodes with
  | nil =>
    intro fuel a i h hfuel
    obtain ⟨fuel, rfl⟩ := Nat.exists_eq_add_of_lt hfuel
    obtain rfl : a = 0 := h
    rw [processCountCommandArgumentsLoop, if_pos rfl]
    rfl
  | cons node nodes ih =>
    intro fuel a i h hfuel
    obtain ⟨fuel, rfl⟩ := Nat.exists_eq_add_of_lt hfuel
    obtain ⟨h0, -, hrest⟩ := h
    rw [processCountCommandArgumentsLoop, if_neg h0]
    refine Fallible.run_bind.2 ⟨_, k, run_onStore.2 ⟨k.store, run_loadWord.2 ⟨h0, rfl, rfl⟩, rfl⟩, ?_⟩
    rw [int32_int32_add_one, ih (i + 1) hrest (by rw [List.length_cons]; omega), List.length_cons,
      Nat.add_assoc, Nat.add_comm 1]

/-! ## One allocation -/

variable {p p' : Process} {c : ChunkView} {process size q argv current x : Word} {s s' : Store}
  {fuel : ℕ} {res : ℤ}

/-- The slots in use. -/
def Process.usedSlots (p : Process) : ℕ :=
  ((Finset.range osMaxProgramAllocations).filter fun i => (p.allocations i).ptr ≠ 0).card

/-- There are 1024 slots. -/
theorem Process.usedSlots_le (p : Process) : p.usedSlots ≤ 1024 := by
  have hcard := Finset.card_filter_le (Finset.range osMaxProgramAllocations)
    fun i => (p.allocations i).ptr ≠ 0
  rw [Finset.card_range] at hcard
  exact hcard

/-- A process without a record uses none. -/
theorem Process.usedSlots_eq_zero (hnone : ∀ i, (p.allocations i).ptr = 0) : p.usedSlots = 0 := by
  unfold Process.usedSlots
  rw [Finset.filter_false_of_mem fun i _ h0 => h0 (hnone i), Finset.card_empty]

/-- The process with an allocation recorded. -/
def Process.record (p : Process) (index : ℕ) (ptr size : Word) : Process :=
  { p with allocations := Function.update p.allocations index ⟨ptr, size⟩ }

theorem Process.record_self : (p.record i q size).allocations i = ⟨q, size⟩ :=
  Function.update_self _ _ _

theorem Process.record_of_ne {j : ℕ} (hj : j ≠ i) :
    (p.record i q size).allocations j = p.allocations j := Function.update_of_ne hj _ _

/-- Recording uses a slot. -/
theorem Process.usedSlots_record (size : Word) (hfind : p.findFreeAllocationIndex = some i)
    (hq : q ≠ 0) : (p.record i q size).usedSlots = p.usedSlots + 1 := by
  obtain ⟨hi, h0⟩ := AllocInv.of_findAllocation hfind
  have hset : (Finset.range osMaxProgramAllocations).filter
      (fun j => ((p.record i q size).allocations j).ptr ≠ 0) =
      insert i ((Finset.range osMaxProgramAllocations).filter
        fun j => (p.allocations j).ptr ≠ 0) := by
    ext j
    rw [Finset.mem_insert, Finset.mem_filter, Finset.mem_filter, Finset.mem_range]
    by_cases hj : j = i
    · rw [hj, Process.record_self]
      exact ⟨fun _ => Or.inl rfl, fun _ => ⟨hi, hq⟩⟩
    · rw [Process.record_of_ne hj]
      exact ⟨Or.inr, fun hor => hor.resolve_left hj⟩
  unfold Process.usedSlots
  rw [hset, Finset.card_insert_of_notMem]
  exact fun hin => (Finset.mem_filter.1 hin).2 h0

/-- What a process's memory has become: a block more, recorded in a slot
that was free. -/
structure Recorded (k k' : Kernel) (process : Word) (p : Process) (c : ChunkView) (s : Store)
    (q size : Word) (index : ℕ) : Prop where
  slot : p.findFreeAllocationIndex = some index
  object : k'.processes process = some (p.record index q size)
  heap : k'.store.heap = s.heap
  directory : HasDirectory k' p.task c
  mem : ∀ x, ¬ c.InTables x → k'.store.mem x = s.mem x
  entries : ∀ page, page < 2 ^ 20 → c.entry k'.store.mem page =
    PageMap.mapTo (c.entry s.mem) q q (pagingAlignAddress (q + size)) userWriteableFlags page

/-- **`process_malloc` once `kernel_zalloc` has answered**: null, with the
process as it was, or that pointer, recorded. Null is for want of a
block, a record, or pages that can be mapped. -/
theorem processMalloc_cases {zalloc : Word → StoreM Word} (h0 : process ≠ 0)
    (hp : k.processes process = some p) (hd : HasDirectory k p.task c)
    (hz : zalloc size k.store = .ok (q, s)) (hext : k.store.Extends s) :
    ((∃ k', processMallocOn zalloc process size k = .ok (0, k') ∧ k'.processes process = some p) ∧
        (q = 0 ∨ p.findFreeAllocationIndex = none ∨
          ¬ ValidRange q q (pagingAlignAddress (q + size)))) ∨
      (q ≠ 0 ∧ ∃ index k', processMallocOn zalloc process size k = .ok (q, k') ∧
        Recorded k k' process p c s q size index) := by
  have hz' : onStore (zalloc size) k = .ok (q, { k with store := s }) :=
    run_onStore.2 ⟨s, hz, rfl⟩
  have hread : readProcess process { k with store := s } = .ok (p, { k with store := s }) :=
    run_readProcess.2 ⟨h0, hp, rfl⟩
  by_cases hq : q = 0
  · refine Or.inl ⟨⟨{ k with store := s }, Fallible.run_bind.2 ⟨q, _, hz', ?_⟩, hp⟩, Or.inl hq⟩
    rw [if_pos hq]
    rfl
  have hd₁ : HasDirectory { k with store := s } p.task c :=
    ⟨hext.ready hd.ready, hd.ne_zero, hd.object, (hd.mapped.of_extends hd.ready hext).1⟩
  -- an error gives the block back
  let k₂ : Kernel := { k with store := { s with heap := s.heap.write (heapFree s.heap q) } }
  cases hfind : p.findFreeAllocationIndex with
  | none =>
    refine Or.inl ⟨⟨k₂, Fallible.run_bind.2 ⟨q, _, hz', ?_⟩, hp⟩, Or.inr (Or.inl rfl)⟩
    rw [if_neg hq]
    refine Fallible.run_bind.2 ⟨p, _, hread, ?_⟩
    simp only [hfind]
    exact processMallocErr_eq q _
  | some index =>
    by_cases hvalid : ValidRange q q (pagingAlignAddress (q + size))
    · obtain ⟨k₃, hrun, hout, hd₃, hentry⟩ := processMalloc_eq h0 hp hz hq hd₁ hvalid hfind
      exact Or.inr ⟨hq, index, _, hrun, hfind, setProcess_processes_self, hout.heap,
        ⟨hd₃.ready, hd₃.ne_zero, hd₃.object, hd₃.mapped⟩, hout.out, hentry⟩
    · refine Or.inl ⟨⟨k₂, Fallible.run_bind.2 ⟨q, _, hz', ?_⟩, hp⟩, Or.inr (Or.inr hvalid)⟩
      rw [if_neg hq]
      refine Fallible.run_bind.2 ⟨p, _, hread, ?_⟩
      simp only [hfind]
      refine Fallible.run_bind.2 ⟨_, _, hd₁.taskMapTo_of_not_valid _ hvalid, ?_⟩
      rw [if_pos (by decide)]
      exact processMallocErr_eq q _

/-! ## One round -/

/-- The size asked for a string. -/
abbrev argumentSize : Word := BitVec.ofNat 32 sizeofArgument

/-- The string of a node. -/
def nodeString (m : Mem) (node : Word) : ℕ → Byte := fun j => m (node + BitVec.ofNat 32 j)

/-- A block of the kernel's heap is left for the process, from block `n`
on, and a record for it. -/
structure Kernel.CanGive (k : Kernel) (p : Process) (n : ℕ) : Prop where
  place : kernelHeapInit.SamePlace k.store.heap
  room : k.store.heap.Room n
  lt : n < 25600
  slot : p.usedSlots < 1024

/-- Where fewer than 1024 are in use, a slot is free. -/
theorem Process.exists_free_of_usedSlots (h : p.usedSlots < 1024) :
    ∃ index, p.findFreeAllocationIndex = some index := by
  by_contra hnone
  refine absurd h (Nat.not_lt.2 ?_)
  unfold Process.usedSlots
  rw [Finset.filter_true_of_mem, Finset.card_range]
  · exact le_rfl
  · exact fun j hj h0 => hnone (exists_findFree (Finset.mem_range.1 hj) h0)

/-- **What is left is given**, a page of it at a time. -/
theorem Kernel.CanGive.answers (h : k.CanGive p n) (hd : HasDirectory k p.task c)
    (hpos : 0 < size.toNat) (hsize : size.toNat ≤ 4096)
    (hz : kernelZalloc size k.store = .ok (q, s)) :
    q ≠ 0 ∧ s.heap.Room (n + 1) ∧ (∃ index, p.findFreeAllocationIndex = some index) ∧
      ValidRange q q (pagingAlignAddress (q + size)) := by
  have htotal : k.store.heap.total = 25600 := h.place.total
  have hlt := h.lt
  have hone : blocksFor size.toNat = 1 := by
    unfold blocksFor
    omega
  obtain ⟨q', s', hz', hq, -, hroom⟩ := kernelZalloc_of_room size hd.ready h.room hpos (by omega)
    (by omega)
  rw [hz] at hz'
  cases hz'
  obtain ⟨hext, hown, -, -⟩ := kernelZalloc_spec hd.ready hpos (by omega) hz hq
  have hr := hext.ready hd.ready
  rw [hone] at hroom
  refine ⟨hq, hroom, Process.exists_free_of_usedSlots h.slot,
    validRange_allocation (hown.aligned hr) ?_⟩
  obtain ⟨b, -, haddr, hle, -⟩ := hown.exists_block hr
  have hplace := h.place.trans hext.place
  have htotal' : s.heap.total = 25600 := hplace.total
  have hstart : s.heap.startAddress.toNat = 0x1000000 := by
    rw [hplace.start]
    rfl
  omega

/-- **A process that can be given memory** is given a page: `process_malloc`
answers, and has the block on record. -/
theorem Kernel.CanGive.exists_malloc (h : k.CanGive p n) (size : Word) (h0 : process ≠ 0)
    (hp : k.processes process = some p) (hd : HasDirectory k p.task c) (hpos : 0 < size.toNat)
    (hsize : size.toNat ≤ 4096) :
    ∃ q s index k', kernelZalloc size k.store = .ok (q, s) ∧ q ≠ 0 ∧
      processMalloc process size k = .ok (q, k') ∧ Recorded k k' process p c s q size index ∧
        s.heap.Room (n + 1) := by
  have htotal : k.store.heap.total = 25600 := h.place.total
  have hlt := h.lt
  obtain ⟨q, s, hz, -⟩ := kernelZalloc_of_room size hd.ready h.room hpos (by omega)
    (by unfold blocksFor; omega)
  obtain ⟨hq, hroom, ⟨index, hindex⟩, hvalid⟩ := h.answers hd hpos hsize hz
  rcases processMalloc_cases h0 hp hd hz (kernelZalloc_extends hd.ready hz) with
    ⟨-, hnull | hnone | hnot⟩ | ⟨-, index', k', hrun, hrec⟩
  · exact absurd hnull hq
  · rw [hindex] at hnone
    cases hnone
  · exact absurd hvalid hnot
  · exact ⟨q, s, index', k', hz, hq, hrun, hrec, hroom⟩

/-- **The second walk**: the process has its directory, and the vector's
page is none of it. -/
structure Injecting (k : Kernel) (process : Word) (p : Process) (c : ChunkView) (argv : Word) :
    Prop where
  ne_zero : process ≠ 0
  object : k.processes process = some p
  directory : HasDirectory k p.task c
  argv_ne : argv ≠ 0
  vector : ∀ r, c.Has r → ∀ x, InRange r 4096 x → ¬ InRange argv 4096 x

/-- **What one round does**: a block is taken and mapped, the node's
string is in it, and the vector's entry points to it. -/
structure StringTaken (k k' : Kernel) (c : ChunkView) (argv q current : Word) (i : ℕ) : Prop where
  place : k.store.heap.SamePlace k'.store.heap
  owns : ∀ r n, k.store.heap.Owns r n → k'.store.heap.Owns r n
  free : ∀ b, k'.store.heap.Free b → k.store.heap.Free b
  room : ∀ n, k.store.heap.Room n → n < k.store.heap.total → k'.store.heap.Room (n + 1)
  block : ∃ b : ℕ, b < k.store.heap.total ∧ q = heapBlockToAddress k.store.heap b ∧
    k.store.heap.Free b
  fresh : k.store.heap.Fresh q
  owned : k'.store.heap.Owns q 1
  mem : ∀ x, ¬ c.InTables x → ¬ InRange q 4096 x →
    ¬ InRange (argv + BitVec.ofNat 32 (4 * i)) 4 x → k'.store.mem x = k.store.mem x
  entries : ∀ page, page < 2 ^ 20 → c.entry k'.store.mem page =
    PageMap.mapTo (c.entry k.store.mem) q q (pagingAlignAddress (q + argumentSize))
      userWriteableFlags page
  vector : k'.store.mem.load32 (argv + BitVec.ofNat 32 (4 * i)) = q
  string : (∀ x, InRange current sizeofCommandArgument x → ¬ c.InTables x ∧ ¬ InRange q 4096 x) →
    (∀ x, InRange q 4096 x → ¬ InRange argv 4096 x) →
      HoldsString k'.store.mem q (nodeString k.store.mem current) 511
  copied : (∀ x, InRange current sizeofCommandArgument x →
      ¬ InRange q 4096 x ∧ ¬ InRange argv 4096 x) →
    (∀ x, InRange q 4096 x → ¬ InRange argv 4096 x) →
      HoldsString k'.store.mem q (nodeString k'.store.mem current) 511

/-- The vector's entries are in its page. -/
theorem inRange_vector (hi : i < 1024) (hx : InRange (argv + BitVec.ofNat 32 (4 * i)) 4 x) :
    InRange argv 4096 x := by
  unfold InRange at hx ⊢
  bv_omega

/-- The copy of a node's string. -/
theorem exists_strncpy (k : Kernel) (q current : Word) :
    ∃ m, onStore (strncpy kernelSpace q current sizeofArgument) k =
        .ok (⟨⟩, { k with store := { k.store with mem := m } }) ∧
      SameOutside q 512 k.store.mem m ∧
      ∀ g, ReadsString kernelSpace k.store.mem q current g 511 → HoldsString m q g 511 := by
  have hcount : ((sizeofArgument : ℤ) - 1).toNat = 511 := rfl
  obtain ⟨s, hrun⟩ := strncpyLoop_total current (i := 0) (n := 511)
    (writesItself_kernelSpace k.store.mem q 511) (fun _ _ x => ⟨x, rfl⟩) (by decide)
    (by decide) (s := k.store) (.refl _ _ _)
  obtain ⟨hheap, hmem⟩ := strncpyLoop_frame (writesItself_kernelSpace _ _ 511) (by decide)
    (by decide) (.refl _ _ _) hrun
  refine ⟨s.mem, run_onStore.2 ⟨s, ?_, ?_⟩, hmem, fun g hg => ?_⟩
  · unfold strncpy
    rw [hcount]
    exact hrun
  · obtain ⟨heap, mem⟩ := s
    obtain rfl : heap = k.store.heap := hheap
    rfl
  · exact strncpyLoop_holds (writesItself_kernelSpace _ _ _) hg (by decide) (by decide) (.refl _ _ _)
      (fun j hj => absurd hj (Nat.not_lt_zero j)) (fun j hj => absurd hj (Nat.not_lt_zero j)) hrun

/-- **One round of the second walk**: it ends for want of memory, or takes
a string and goes on. -/
theorem Injecting.round (h : Injecting k process p c argv) (h0 : current ≠ 0)
    (hi : i + 1 ≤ p.usedSlots) (fuel : ℕ) :
    ((∃ k', processInjectArgumentsLoop process argv (fuel + 1) current i k =
        .ok (-noMemoryError, k') ∧ k'.processes process = some p) ∧ ∀ n, ¬ k.CanGive p n) ∨
      ∃ q index k', processInjectArgumentsLoop process argv (fuel + 1) current i k =
          processInjectArgumentsLoop process argv fuel
            (k'.store.mem.load32 (current + BitVec.ofNat 32 commandArgumentNextOffset)) (i + 1) k' ∧
        p.findFreeAllocationIndex = some index ∧ q ≠ 0 ∧
        Injecting k' process (p.record index q argumentSize) c argv ∧
        StringTaken k k' c argv q current i := by
  have hd := h.directory
  obtain ⟨q, s, hz⟩ : ∃ q s, kernelZalloc argumentSize k.store = .ok (q, s) := by
    rcases kernelZalloc_single argumentSize hd.ready (by decide) (by decide) with
      ⟨-, hz⟩ | ⟨q, s, hz, -⟩
    · exact ⟨_, _, hz⟩
    · exact ⟨_, _, hz⟩
  rw [processInjectArgumentsLoop, processInjectArgumentsLoopOn, if_neg h0]
  rcases processMalloc_cases h.ne_zero h.object hd hz (kernelZalloc_extends hd.ready hz) with
    ⟨⟨k', hrun, hp'⟩, hshort⟩ | ⟨hq, index, k₁, hrun, hrec⟩
  · refine Or.inl ⟨⟨k', Fallible.run_bind.2 ⟨0, k', hrun, by rw [if_pos rfl]; rfl⟩, hp'⟩, ?_⟩
    intro n hgive
    obtain ⟨hq, -, ⟨index, hindex⟩, hvalid⟩ := hgive.answers hd (by decide) (by decide) hz
    rcases hshort with hnull | hnone | hnot
    · exact hq hnull
    · rw [hindex] at hnone
      cases hnone
    · exact hnot hvalid
  right
  -- the slot just used bounds the index
  have hlt : i < 1024 := by
    have hused := (p.record index q argumentSize).usedSlots_le
    rw [Process.usedSlots_record _ hrec.slot hq] at hused
    omega
  obtain ⟨hext, hown, hfresh, -⟩ := kernelZalloc_spec hd.ready (by decide) (by decide) hz hq
  have hone : blocksFor argumentSize.toNat = 1 := by decide
  rw [hone] at hown
  have hr := hext.ready hd.ready
  obtain ⟨m, hcopy, hmem, hstring⟩ := exists_strncpy k₁ q current
  have hq' : ∀ x, ¬ InRange q 4096 x → m x = k₁.store.mem x := fun x hx =>
    hmem x fun hin => hx (by unfold InRange at hin ⊢; omega)
  let m' : Mem := m.store32 (argv + BitVec.ofNat 32 (4 * i)) q
  have hword : ∀ x, ¬ InRange (argv + BitVec.ofNat 32 (4 * i)) 4 x → m' x = m x := fun x hx =>
    Mem.store32_of_not_mem hx
  have hhas : ∀ r, c.Has r → ∀ x, InRange r 4096 x → ¬ InRange q 4096 x := fun r hr' x hx =>
    (hext.owns _ _ (hd.mapped.owns r hr')).disjoint hown hr
      (fun he => hfresh 1 (he ▸ hd.mapped.owns r hr')) hx
  have hpage : ∀ x, ¬ InRange q 4096 x → s.mem x = k.store.mem x :=
    kernelZalloc_sameOutside hz (by decide)
  -- the process's directory and its tables are apart from the block and the vector
  have htables : ∀ r, c.Has r → ∀ x, InRange r 4096 x → m' x = k₁.store.mem x := fun r hr' x hx => by
    rw [hword x fun hin => h.vector r hr' x hx (inRange_vector hlt hin), hq' x (hhas r hr' x hx)]
  refine ⟨q, index, { k₁ with store := { k₁.store with mem := m' } }, ?_, hrec.slot, hq,
    ⟨h.ne_zero, hrec.object, hrec.directory.of_mem htables, h.argv_ne, h.vector⟩, ?_⟩
  · have hstore : onStore (storeWord argv (4 * i) q) { k₁ with store := { k₁.store with mem := m } } =
        .ok (⟨⟩, { k₁ with store := { k₁.store with mem := m' } }) :=
      run_onStore.2 ⟨_, by rw [storeWord, if_neg h.argv_ne, Fallible.run_modify], rfl⟩
    have hload : onStore (loadWord current commandArgumentNextOffset)
        { k₁ with store := { k₁.store with mem := m' } } = .ok (_, _) :=
      run_onStore.2 ⟨_, run_loadWord.2 ⟨h0, rfl, rfl⟩, rfl⟩
    rw [Fallible.bind_ok hrun, if_neg hq, Fallible.bind_ok hcopy, Fallible.bind_ok hstore,
      Fallible.bind_ok hload]
  · have hheap := hrec.heap
    have hnodes : ∀ j < 512, InRange current sizeofCommandArgument (current + BitVec.ofNat 32 j) :=
      fun j hj => (inRange_add (by omega)).2 (by unfold sizeofCommandArgument; omega)
    -- the copy is of the bytes there are once the block is mapped
    have hheld : ∀ g : ℕ → Byte, (∀ j < 512, ¬ InRange q 4096 (current + BitVec.ofNat 32 j) ∧
        k₁.store.mem (current + BitVec.ofNat 32 j) = g j) →
          (∀ x, InRange q 4096 x → ¬ InRange argv 4096 x) → HoldsString m' q g 511 := by
      intro g hg hvec
      have hcopied := hstring g fun m₂ hm₂ j hj _ x hx => by
        obtain rfl := Option.some.inj hx
        obtain ⟨hout, hgj⟩ := hg j (by omega)
        have hout₂ : ¬ InRange q (511 + 1) (current + BitVec.ofNat 32 j) := fun hin₂ =>
          hout (by unfold InRange at hin₂ ⊢; omega)
        rw [hm₂ _ hout₂, hgj]
      refine hcopied.congr fun j hj => hword _ fun hin => ?_
      exact hvec _ ((inRange_add (by omega)).2 (by omega)) (inRange_vector hlt hin)
    refine ⟨?_, ?_, ?_, ?_, kernelZalloc_block hd.ready hz hq, hfresh, ?_, ?_, ?_,
      Mem.load32_store32_self, ?_, ?_⟩
    · change k.store.heap.SamePlace k₁.store.heap
      rw [hheap]
      exact hext.place
    · change ∀ r n, _ → k₁.store.heap.Owns r n
      rw [hheap]
      exact hext.owns
    · change ∀ b, k₁.store.heap.Free b → _
      rw [hheap]
      exact fun b hfree => free_of_kernelZalloc hz hfree
    · change ∀ n, _ → _ → k₁.store.heap.Room (n + 1)
      rw [hheap]
      intro n hroom hn
      obtain ⟨q', s', hz', -, -, hroom'⟩ := kernelZalloc_of_room argumentSize hd.ready hroom
        (by decide) (by decide) (by rw [hone]; omega)
      rw [hz] at hz'
      cases hz'
      rwa [hone] at hroom'
    · change k₁.store.heap.Owns q 1
      rw [hheap]
      exact hown
    · intro x ht hx hv
      change m' x = _
      rw [hword x hv, hq' x hx, hrec.mem x ht, hpage x hx]
    · intro page hpg
      change c.entry m' page = _
      rw [hrec.directory.mapped.entry_congr hrec.directory.ready hpg fun x hx =>
        htables _ (c.has_table (by omega)) x hx, hrec.entries page hpg]
      rw [mapTo_eq_getD _ _ _ _ _ hpg, mapTo_eq_getD _ _ _ _ _ hpg,
        (hd.mapped.of_extends hd.ready hext).2 page hpg]
    · intro hnode hvec
      refine hheld _ (fun j hj => ?_) hvec
      obtain ⟨ht, hout⟩ := hnode _ (hnodes j hj)
      refine ⟨hout, ?_⟩
      rw [hrec.mem _ ht, hpage _ hout]
      rfl
    · intro hnode hvec
      refine hheld _ (fun j hj => ?_) hvec
      obtain ⟨hout, hargv⟩ := hnode _ (hnodes j hj)
      have hout' : ¬ InRange (argv + BitVec.ofNat 32 (4 * i)) 4 (current + BitVec.ofNat 32 j) :=
        fun hin => hargv (inRange_vector hlt hin)
      exact ⟨hout, ((hword _ hout').trans (hq' _ hout)).symm⟩

/-! ## The whole walk -/

/-- **The list is apart from what is taken and mapped** between `k` and
`k'`: the new blocks, the vector, and the process's tables. -/
def ListApart (k k' : Kernel) (c : ChunkView) (argv : Word) (nodes : List Word) : Prop :=
  ∀ x, InNodes nodes x →
    ¬ c.InTables x ∧ ¬ NewByte k.store.heap k'.store.heap x ∧ ¬ InRange argv 4096 x

/-- **The strings of the nodes**, from entry `i` of the vector on: each a
new allocation of its own, recorded, with the node's string. -/
structure Strings (k k' : Kernel) (p' : Process) (argv : Word) (i : ℕ) (nodes : List Word)
    (str : ℕ → Word) : Prop where
  vector : ∀ j < nodes.length,
    k'.store.mem.load32 (argv + BitVec.ofNat 32 (4 * (i + j))) = str j
  recorded : ∀ j < nodes.length, ∃ slot < osMaxProgramAllocations,
    p'.allocations slot = ⟨str j, argumentSize⟩
  distinct : ∀ j j', j < j' → j' < nodes.length → str j ≠ str j'
  fresh : ∀ j < nodes.length, k.store.heap.Fresh (str j)
  holds : ∀ j node, nodes[j]? = some node →
    HoldsString k'.store.mem (str j) (nodeString k.store.mem node) 511

/-- **What the walk from `current` on leaves**, when it comes to the
list's end. -/
structure Filled (k k' : Kernel) (p p' : Process) (c : ChunkView) (argv current : Word) (i : ℕ) :
    Prop where
  place : k.store.heap.SamePlace k'.store.heap
  owns : ∀ r n, k.store.heap.Owns r n → k'.store.heap.Owns r n
  records : ∀ j, (p.allocations j).ptr ≠ 0 → p'.allocations j = p.allocations j
  mem : ∀ x, ¬ c.InTables x → ¬ NewByte k.store.heap k'.store.heap x →
    (InRange argv 4096 x → (x - argv).toNat < 4 * i) → k'.store.mem x = k.store.mem x
  count : ∀ nodes, ArgumentList k.store.mem current nodes → ListApart k k' c argv nodes →
    nodes.length + p.usedSlots ≤ 1024
  strings : ∀ nodes, ArgumentList k.store.mem current nodes → ListApart k k' c argv nodes →
    (∃ n, k.store.heap.Owns argv n) → ∃ str, Strings k k' p' argv i nodes str

/-- At the list's end there is nothing left. -/
theorem Filled.refl (k : Kernel) (p : Process) (c : ChunkView) (argv : Word) (i : ℕ) :
    Filled k k p p c argv 0 i where
  place := .refl _
  owns _ _ o := o
  records _ _ := rfl
  mem _ _ _ _ := rfl
  count nodes hlist _ := by
    cases nodes with
    | nil =>
      have hused := p.usedSlots_le
      rw [List.length_nil]
      omega
    | cons node nodes => exact absurd rfl hlist.1
  strings nodes hlist _ _ := by
    cases nodes with
    | nil =>
      exact ⟨fun _ => 0, fun j hj => absurd hj (Nat.not_lt_zero j),
        fun j hj => absurd hj (Nat.not_lt_zero j), fun _ j' _ hj => absurd hj (Nat.not_lt_zero j'),
        fun j hj => absurd hj (Nat.not_lt_zero j), fun j node hj => by simp at hj⟩
    | cons node nodes => exact absurd rfl hlist.1

section

variable {index : ℕ}

/-- The new string's bytes are new. -/
theorem StringTaken.newByte (ht : StringTaken k k₁ c argv q current i) (r : k.store.heap.Ready)
    (hplace : k₁.store.heap.SamePlace k'.store.heap)
    (howns : ∀ r n, k₁.store.heap.Owns r n → k'.store.heap.Owns r n) (hx : InRange q 4096 x) :
    NewByte k.store.heap k'.store.heap x := by
  obtain ⟨b, hb, hqb, hfree⟩ := ht.block
  have hown := howns _ _ ht.owned
  rw [hqb] at hx hown
  refine newByte_of_owns r (ht.place.trans hplace) ⟨by omega, fun j h1 h2 => ?_⟩ hown hx
  obtain rfl : j = b := by omega
  exact hfree

/-- A byte of a list that is apart is what it was after the round. -/
theorem StringTaken.mem_of_outside (ht : StringTaken k k₁ c argv q current i)
    (r : k.store.heap.Ready) (hplace : k₁.store.heap.SamePlace k'.store.heap)
    (howns : ∀ r n, k₁.store.heap.Owns r n → k'.store.heap.Owns r n) (hi : i < 1024)
    (hout : ListApart k k' c argv nodes) (hx : InNodes nodes x) :
    k₁.store.mem x = k.store.mem x := by
  obtain ⟨htables, hnew, hargv⟩ := hout x hx
  exact ht.mem x htables (fun hin => hnew (ht.newByte r hplace howns hin))
    fun hin => hargv (inRange_vector hi hin)

/-- **The rest of a list that is apart** is the same list after the
round. -/
theorem StringTaken.rest (ht : StringTaken k k₁ c argv q current i) (r : k.store.heap.Ready)
    (hf : Filled k₁ k' p p' c argv a n) (hi : i < 1024)
    (hlist : ArgumentList k.store.mem current (node :: nodes))
    (hout : ListApart k k' c argv (node :: nodes)) :
    node = current ∧
      ArgumentList k₁.store.mem
        (k₁.store.mem.load32 (current + BitVec.ofNat 32 commandArgumentNextOffset)) nodes ∧
      ListApart k₁ k' c argv nodes := by
  obtain ⟨h0, rfl, hrest⟩ := hlist
  have hsame : ∀ x, InNodes (node :: nodes) x → k₁.store.mem x = k.store.mem x := fun x hx =>
    ht.mem_of_outside r hf.place hf.owns hi hout hx
  have hlist₁ : ArgumentList k₁.store.mem node (node :: nodes) :=
    ArgumentList.congr ⟨h0, rfl, hrest⟩ hsame
  refine ⟨rfl, hlist₁.2.2, fun x ⟨y, hy, hx⟩ => ?_⟩
  obtain ⟨htables, hnew, hargv⟩ := hout x ⟨y, List.mem_cons_of_mem _ hy, hx⟩
  exact ⟨htables, fun hin => hnew (hin.mono ht.place ht.free), hargv⟩

/-- The vector's entry stays, once it is written. -/
theorem Filled.vector_eq (hf : Filled k₁ k' p p' c argv a (i + 1))
    (h₁ : Injecting k₁ process p c argv) (hown : k₁.store.heap.Owns argv n) (hi : i < 1024) :
    k'.store.mem.load32 (argv + BitVec.ofNat 32 (4 * i)) =
      k₁.store.mem.load32 (argv + BitVec.ofNat 32 (4 * i)) := by
  have hpos := hown.pos
  refine Mem.load32_congr fun x hx => hf.mem x ?_ ?_ ?_
  · rintro ⟨j, hj, hin⟩
    exact h₁.vector _ (c.has_table hj) x hin (inRange_vector hi hx)
  · refine hown.not_newByte h₁.directory.ready ?_
    have hin := inRange_vector hi hx
    unfold InRange at hin ⊢
    omega
  · intro _
    unfold InRange at hx
    bv_omega

/-- A string stays, once it is copied. -/
theorem Filled.string_eq (hf : Filled k₁ k' p p' c argv a n) (h₁ : Injecting k₁ process p c argv)
    (hq : k₁.store.heap.Owns q 1) (hhas : ¬ c.Has q)
    (hvec : ∀ x, InRange q 4096 x → ¬ InRange argv 4096 x) (hx : InRange q 4096 x) :
    k'.store.mem x = k₁.store.mem x := by
  have r := h₁.directory.ready
  refine hf.mem x ?_ (hq.not_newByte r hx) fun hin => absurd hin (hvec x hx)
  rintro ⟨j, hj, hin⟩
  exact (h₁.directory.mapped.owns _ (c.has_table hj)).disjoint hq r
    (fun he => hhas (he ▸ c.has_table hj)) hin hx

/-- **One string more.** -/
theorem Strings.cons {str : ℕ → Word} (h : Injecting k process p c argv)
    (h₁ : Injecting k₁ process (p.record index q argumentSize) c argv)
    (ht : StringTaken k k₁ c argv q current i)
    (hfind : p.findFreeAllocationIndex = some index) (hq : q ≠ 0) (hi : i < 1024)
    (hf : Filled k₁ k' (p.record index q argumentSize) p' c argv a (i + 1))
    (hout : ListApart k k' c argv (current :: nodes)) (hown : k.store.heap.Owns argv n)
    (hs : Strings k₁ k' p' argv (i + 1) nodes str) :
    Strings k k' p' argv i (current :: nodes) fun j => Nat.casesOn j q str := by
  have r := h.directory.ready
  have r₁ := h₁.directory.ready
  have hown₁ := ht.owns _ _ hown
  have hne : q ≠ argv := fun he => ht.fresh n (he ▸ hown)
  have hvec : ∀ x, InRange q 4096 x → ¬ InRange argv 4096 x := by
    intro x hx hin
    have hpos := hown.pos
    exact ht.owned.disjoint hown₁ r₁ hne hx (by unfold InRange at hin ⊢; omega)
  have hhas : ¬ c.Has q := fun hhas => ht.fresh 1 (h.directory.mapped.owns q hhas)
  have hsame : ∀ x, InNodes (current :: nodes) x → k₁.store.mem x = k.store.mem x := fun x hx =>
    ht.mem_of_outside r hf.place hf.owns hi hout hx
  constructor
  · intro j hj
    cases j with
    | zero => exact (hf.vector_eq h₁ hown₁ hi).trans ht.vector
    | succ j =>
      rw [show i + (j + 1) = i + 1 + j by omega]
      exact hs.vector j (Nat.lt_of_succ_lt_succ hj)
  · intro j hj
    cases j with
    | zero =>
      have hrecord : ((p.record index q argumentSize).allocations index).ptr ≠ 0 := by
        rw [Process.record_self]
        exact hq
      refine ⟨index, (AllocInv.of_findAllocation hfind).1, ?_⟩
      rw [hf.records index hrecord]
      exact Process.record_self
    | succ j => exact hs.recorded j (Nat.lt_of_succ_lt_succ hj)
  · intro j j' hlt hj'
    cases j' with
    | zero => exact absurd hlt (Nat.not_lt_zero j)
    | succ j' =>
      cases j with
      | zero =>
        exact fun (he : q = str j') => hs.fresh j' (Nat.lt_of_succ_lt_succ hj') 1 (he ▸ ht.owned)
      | succ j => exact hs.distinct j j' (Nat.lt_of_succ_lt_succ hlt) (Nat.lt_of_succ_lt_succ hj')
  · intro j hj
    cases j with
    | zero => exact ht.fresh
    | succ j => exact fun m o => hs.fresh j (Nat.lt_of_succ_lt_succ hj) m (ht.owns _ _ o)
  · intro j node hnode
    cases j with
    | zero =>
      obtain rfl : current = node := by simpa using hnode
      refine (ht.string (fun x hx => ?_) hvec).congr fun j hj => ?_
      · obtain ⟨htables, hnew, -⟩ := hout x ⟨current, List.mem_cons_self, hx⟩
        exact ⟨htables, fun hin => hnew (ht.newByte r hf.place hf.owns hin)⟩
      · exact hf.string_eq h₁ ht.owned hhas hvec ((inRange_add (by omega)).2 (by omega))
    | succ j =>
      rw [List.getElem?_cons_succ] at hnode
      have hmem := List.mem_of_getElem? hnode
      refine (hs.holds j node hnode).congr_string fun x hx => (hsame _ ⟨node, ?_, ?_⟩).symm
      · exact List.mem_cons_of_mem _ hmem
      · exact (inRange_add (by omega)).2 (by unfold sizeofCommandArgument; omega)

/-- **One round more.** -/
theorem Filled.cons (h : Injecting k process p c argv)
    (h₁ : Injecting k₁ process (p.record index q argumentSize) c argv)
    (ht : StringTaken k k₁ c argv q current i)
    (hfind : p.findFreeAllocationIndex = some index) (hq : q ≠ 0) (hi : i < 1024)
    (h0 : current ≠ 0)
    (hf : Filled k₁ k' (p.record index q argumentSize) p' c argv
      (k₁.store.mem.load32 (current + BitVec.ofNat 32 commandArgumentNextOffset)) (i + 1)) :
    Filled k k' p p' c argv current i where
  place := ht.place.trans hf.place
  owns r n o := hf.owns r n (ht.owns r n o)
  records j hj := by
    have hne : j ≠ index := fun he => hj (he ▸ (AllocInv.of_findAllocation hfind).2)
    have hkeep : (p.record index q argumentSize).allocations j = p.allocations j :=
      Process.record_of_ne hne
    rw [hf.records j (hkeep ▸ hj), hkeep]
  mem x htables hnew hvec := by
    have r := h.directory.ready
    rw [hf.mem x htables (fun hin => hnew (hin.mono ht.place ht.free)) fun hin =>
      (hvec hin).trans (by omega)]
    refine ht.mem x htables (fun hin => hnew (ht.newByte r hf.place hf.owns hin)) fun hin => ?_
    have hlow := hvec (inRange_vector hi hin)
    unfold InRange at hin
    bv_omega
  count nodes hlist hout := by
    cases nodes with
    | nil => exact absurd hlist h0
    | cons node nodes =>
      obtain ⟨-, hrest, hout₁⟩ := ht.rest h.directory.ready hf hi hlist hout
      have hcount := hf.count nodes hrest hout₁
      rw [Process.usedSlots_record _ hfind hq] at hcount
      rw [List.length_cons]
      omega
  strings nodes hlist hout hown := by
    cases nodes with
    | nil => exact absurd hlist h0
    | cons node nodes =>
      obtain ⟨rfl, hrest, hout₁⟩ := ht.rest h.directory.ready hf hi hlist hout
      obtain ⟨n, o⟩ := hown
      obtain ⟨str, hs⟩ := hf.strings nodes hrest hout₁ ⟨n, ht.owns _ _ o⟩
      exact ⟨_, hs.cons h h₁ ht hfind hq hi hf hout o⟩

/-- **The second walk ends**: short of memory, or at the list's end. -/
theorem Injecting.loop : ∀ {fuel i : ℕ} {k : Kernel} {p : Process} (current : Word),
    Injecting k process p c argv → i + 1 ≤ p.usedSlots → 1025 ≤ fuel + p.usedSlots →
      ∃ res k' p', processInjectArgumentsLoop process argv fuel current i k = .ok (res, k') ∧
        k'.processes process = some p' ∧ p'.arguments = p.arguments ∧
        (res < 0 ∨ (res = 0 ∧ Filled k k' p p' c argv current i)) := by
  intro fuel
  induction fuel with
  | zero =>
    intro i k p _ h hi hfuel
    have hused := p.usedSlots_le
    omega
  | succ fuel ih =>
    intro i k p current h hi hfuel
    by_cases h0 : current = 0
    · refine ⟨0, k, p, ?_, h.object, rfl, Or.inr ⟨rfl, h0 ▸ Filled.refl k p c argv i⟩⟩
      rw [processInjectArgumentsLoop, processInjectArgumentsLoopOn, if_pos h0]
      rfl
    rcases h.round h0 hi fuel with ⟨⟨k', hrun, hp'⟩, -⟩ | ⟨q, index, k₁, hrun, hfind, hq, h₁, ht⟩
    · exact ⟨_, k', p, hrun, hp', rfl, Or.inl (by decide)⟩
    · have hused := Process.usedSlots_record argumentSize hfind hq
      have hle := (p.record index q argumentSize).usedSlots_le
      obtain ⟨res, k', p', hloop, hp', hargs, hres⟩ := ih
        (k₁.store.mem.load32 (current + BitVec.ofNat 32 commandArgumentNextOffset)) h₁
        (i := i + 1) (by omega) (by omega)
      refine ⟨res, k', p', hrun.trans hloop, hp', hargs, hres.imp_right fun hfilled => ?_⟩
      exact ⟨hfilled.1, hfilled.2.cons h h₁ ht hfind hq (by omega) h0⟩

end

end OwnKernel
