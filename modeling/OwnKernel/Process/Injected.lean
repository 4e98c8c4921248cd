import OwnKernel.Process.Arguments
import OwnKernel.Store.Past

/-!
# The arguments of a list

`process_inject_arguments` asks for the vector first. Up to 1024
arguments it is one block; beyond, the request may be one the heap's
table cannot answer, and is then carried out past the table's end, but
such a list runs out of records before its end. So whatever is left of
memory the call does what its callers expect
(`processInjectArguments_injects`), as long as the list is clear of what
is written for the vector. A list over the process's own page tables is
not: its strings change as the blocks for them are mapped
(`processInjectArguments_not_injects`).
-/

namespace OwnKernel

variable {m m' : Mem} {a node : Word} {nodes nodes' : List Word} {k k' k₁ : Kernel} {i n : ℕ}
variable {p p' : Process} {c : ChunkView} {process size q argv current x : Word} {s s' : Store}
  {fuel : ℕ} {res : ℤ}

/-! ## The whole call -/

/-- The list is outside the blocks taken between `k` and `k'`, the
vector's page among them. -/
def ListOutside (k k' : Kernel) (argv : Word) (nodes : List Word) : Prop :=
  ∀ x, InNodes nodes x → ¬ NewByte k.store.heap k'.store.heap x ∧ ¬ InRange argv 4096 x

/-- The size asked for the vector. -/
def vectorSize (n : ℕ) : Word := BitVec.ofNat 32 (4 * n)

/-- It is what the source's expression comes to. -/
theorem ofInt_argc (n : ℕ) : BitVec.ofInt 32 (4 * int32 n) = vectorSize n := by
  apply BitVec.eq_of_toNat_eq
  unfold vectorSize int32
  rw [BitVec.toNat_ofInt, BitVec.toNat_ofNat]
  omega

/-- The vector's block is apart from the process's directory. -/
theorem injecting_of_recorded {index : ℕ} (h0 : process ≠ 0) (hd : HasDirectory k p.task c)
    (hblock : ∃ b : ℕ, b < k.store.heap.total ∧ q = heapBlockToAddress k.store.heap b ∧
      k.store.heap.Free b) (hq : q ≠ 0)
    (hrec : Recorded k k₁ process p c s q size index) :
    Injecting k₁ process (p.record index q size) c q := by
  obtain ⟨b, hb, rfl, hfree⟩ := hblock
  exact ⟨h0, hrec.object, hrec.directory, hq, fun r hr x hx =>
    (hd.mapped.owns r hr).not_inRange_free hd.ready hb hfree hx⟩

/-- **The list, apart from what the call takes**, is the list the second
walk finds, and so its strings are the call's. -/
theorem injected_of_filled {index : ℕ} (hd : HasDirectory k p.task c)
    (hz : kernelZalloc (vectorSize nodes.length) k.store = .ok (argv, s)) (hargv : argv ≠ 0)
    (hrec : Recorded k k₁ process p c s argv (vectorSize nodes.length) index)
    (hlist : ArgumentList k.store.mem a nodes) (hn : nodes ≠ [])
    (htables : ∀ x, InNodes nodes x → ¬ c.InTables x)
    (hf : Filled k₁ k' (p.record index argv (vectorSize nodes.length)) p' c argv a 0)
    (hout : ListOutside k k' argv nodes) :
    nodes.length < 1024 ∧ ∃ str, Strings k k' p' argv 0 nodes str := by
  have hext := kernelZalloc_extends hd.ready hz
  have hplace : k.store.heap.SamePlace k₁.store.heap := hrec.heap ▸ hext.place
  have howns : ∀ r n, k.store.heap.Owns r n → k₁.store.heap.Owns r n := hrec.heap ▸ hext.owns
  have hfree : ∀ b, k₁.store.heap.Free b → k.store.heap.Free b := by
    rw [hrec.heap]
    exact fun b hfree => free_of_kernelZalloc hz hfree
  have hsame : ∀ x, InNodes nodes x → k₁.store.mem x = k.store.mem x := by
    intro x hx
    rw [hrec.mem x (htables x hx)]
    refine kernelZalloc_mem hz fun hin => (hout x hx).1 ?_
    exact newByte_of_kernelZalloc hd.ready hz hargv (hplace.trans hf.place)
      (fun r n o => hf.owns r n (hrec.heap ▸ o)) hin
  have hlist₁ := hlist.congr hsame
  have hapart : ListApart k₁ k' c argv nodes := fun x hx =>
    ⟨htables x hx, fun hnew => (hout x hx).1 (hnew.mono hplace hfree), (hout x hx).2⟩
  -- so there is a slot for each string, and the vector is a block
  have hcount := hf.count nodes hlist₁ hapart
  rw [Process.usedSlots_record _ hrec.slot hargv] at hcount
  have hpos := List.length_pos_of_ne_nil hn
  have hsize : (vectorSize nodes.length).toNat = 4 * nodes.length := by
    unfold vectorSize
    rw [BitVec.toNat_ofNat]
    omega
  have hown := (kernelZalloc_spec hd.ready (by omega) (by omega) hz hargv).2.1
  rw [← hrec.heap] at hown
  obtain ⟨str, hs⟩ := hf.strings nodes hlist₁ hapart ⟨_, hown⟩
  refine ⟨by omega, str, hs.vector, hs.recorded, hs.distinct,
    fun j hj m o => hs.fresh j hj m (howns _ _ o), fun j node hnode => ?_⟩
  refine (hs.holds j node hnode).congr_string fun i hi => (hsame _ ⟨node, ?_, ?_⟩).symm
  · exact List.mem_of_getElem? hnode
  · exact (inRange_add (by omega)).2 (by unfold sizeofCommandArgument; omega)

/-- The count, and what is left of the call after it. -/
theorem processInjectArguments_eq (zalloc : Word → StoreM Word) (process : Word)
    (hlist : ArgumentList k.store.mem a nodes) (hn : nodes ≠ []) (hfuel : nodes.length < fuel) :
    processInjectArgumentsOn zalloc fuel process a k = (do
      let argv ← processMallocOn zalloc process (vectorSize nodes.length)
      if argv = 0 then pure (-noMemoryError)
      else do
        let res ← processInjectArgumentsLoopOn zalloc process argv fuel a 0
        if res < 0 then pure res
        else do
          modifyProcess process fun p => { p with arguments := ⟨int32 nodes.length, argv⟩ }
          pure res : KernelM ℤ) k := by
  have hpos := List.length_pos_of_ne_nil hn
  have hlen := hlist.length_lt
  have hcount := processCountCommandArgumentsLoop_eq 0 hlist hfuel
  rw [Nat.zero_add] at hcount
  have hargc : (int32 nodes.length : ℤ) ≠ 0 := by
    unfold int32
    omega
  unfold processInjectArgumentsOn processCountCommandArguments
  change ((processCountCommandArgumentsLoop fuel a (int32 (0 : ℕ))) >>= _) k = _
  rw [Fallible.bind_ok hcount, if_neg hargc, ofInt_argc]

/-! ## Past the table's end -/

section

variable {zalloc : Word → StoreM Word}
  (hbelow : ∀ size, Fallible.Below (kernelZalloc size) (zalloc size))

include hbelow

theorem processInjectArgumentsLoop_below (process argv : Word) (fuel : ℕ) : ∀ (current : Word)
    (i : ℕ), Fallible.Below (processInjectArgumentsLoop process argv fuel current i)
      (processInjectArgumentsLoopOn zalloc process argv fuel current i) := by
  induction fuel with
  | zero => exact fun _ _ => .throw _
  | succ fuel ih =>
    intro current i
    refine .ite (.refl _) (.bind (processMalloc_below hbelow _ _) fun _ => .ite (.refl _) ?_)
    exact .bind (.refl _) fun _ => .bind (.refl _) fun _ => .bind (.refl _) fun next => ih next (i + 1)

/-- **What becomes of the call** once the vector's request is answered, in
the table or past its end: it ends for want of memory, or the walk comes
to the list's end. -/
theorem processInjectArguments_cases (h0 : process ≠ 0) (hp : k.processes process = some p)
    (hd : HasDirectory k p.task c) (hlist : ArgumentList k.store.mem a nodes) (hn : nodes ≠ [])
    (hfuel : nodes.length + 1024 ≤ fuel) (hz : zalloc (vectorSize nodes.length) k.store = .ok (argv, s))
    (hext : k.store.Extends s) (hblock : argv ≠ 0 → ∃ b : ℕ, b < k.store.heap.total ∧
      argv = heapBlockToAddress k.store.heap b ∧ k.store.heap.Free b) :
    (∃ res k' p', processInjectArgumentsOn zalloc fuel process a k = .ok (res, k') ∧ res < 0 ∧
        k'.processes process = some p' ∧ p'.arguments = p.arguments) ∨
      (argv ≠ 0 ∧ ∃ index k₁ k' p',
        Recorded k k₁ process p c s argv (vectorSize nodes.length) index ∧
        Filled k₁ k' (p.record index argv (vectorSize nodes.length)) p' c argv a 0 ∧
        processInjectArgumentsOn zalloc fuel process a k = .ok (0, k'.setProcess process
          (some { p' with arguments := ⟨int32 nodes.length, argv⟩ }))) := by
  have hpos := List.length_pos_of_ne_nil hn
  have hinject := processInjectArguments_eq zalloc process hlist hn
    (show nodes.length < fuel by omega)
  rcases processMalloc_cases h0 hp hd hz hext with
    ⟨⟨k', hrun, hp'⟩, -⟩ | ⟨hargv, index, k₁, hrun, hrec⟩
  · refine Or.inl ⟨-noMemoryError, k', p, ?_, by decide, hp', rfl⟩
    refine hinject.trans ?_
    rw [Fallible.bind_ok hrun, if_pos rfl]
    rfl
  have hused := Process.usedSlots_record (vectorSize nodes.length) hrec.slot hargv
  obtain ⟨res, k', p', hloop, hp', hargs, hres⟩ :=
    (injecting_of_recorded h0 hd (hblock hargv) hargv hrec).loop a (i := 0)
      (by omega) (show 1025 ≤ fuel + _ by omega)
  have hloop := processInjectArgumentsLoop_below hbelow _ _ _ _ _ _ _ hloop
  rcases hres with hneg | ⟨rfl, hf⟩
  · refine Or.inl ⟨res, k', p', ?_, hneg, hp', hargs⟩
    refine hinject.trans ?_
    rw [Fallible.bind_ok hrun, if_neg hargv, Fallible.bind_ok hloop, if_pos hneg]
    rfl
  · refine Or.inr ⟨hargv, index, k₁, k', p', hrec, hf, ?_⟩
    refine hinject.trans ?_
    rw [Fallible.bind_ok hrun, if_neg hargv, Fallible.bind_ok hloop, if_neg (by decide)]
    exact Fallible.run_seq.2 ⟨_, run_modifyProcess.2 ⟨h0, p', hp', rfl⟩, rfl⟩

end

/-- **The list is clear of its vector**: of the vector's blocks from its
pointer on, and of what is marked for them behind the heap's table. -/
structure VectorClear (k : Kernel) (nodes : List Word) : Prop where
  blocks : (heapMalloc k.store.heap (vectorSize nodes.length)).1 ≠ 0 → ∀ x, InNodes nodes x →
    ¬ InRange (heapMalloc k.store.heap (vectorSize nodes.length)).1
      (4096 * blocksFor (vectorSize nodes.length).toNat) x
  behind : ∀ x, InNodes nodes x → ¬ k.store.heap.MarksBehind (vectorSize nodes.length) x

/-- A vector that is answered from the table marks nothing behind it. -/
theorem VectorClear.of_zalloc (hz : kernelZalloc (vectorSize nodes.length) k.store = .ok (q, s))
    (hblocks : q ≠ 0 → ∀ x, InNodes nodes x →
      ¬ InRange q (4096 * blocksFor (vectorSize nodes.length).toNat) x) : VectorClear k nodes := by
  obtain ⟨rfl, hin, -, -⟩ := kernelZalloc_run hz
  exact ⟨hblocks, fun x _ ⟨w, hw, hge, _⟩ => absurd (hin w hw) (Nat.not_lt.2 hge)⟩

/-- There are as many addresses as nodes, outside a range they avoid. -/
theorem ArgumentList.length_add_le {len : ℕ} (h : ArgumentList m a nodes) (hlen : len ≤ 2 ^ 32)
    (hout : ∀ node ∈ nodes, ¬ InRange q len node) : nodes.length + len ≤ 2 ^ 32 := by
  have hinj : Function.Injective fun x : Word => (x - q).toNat := fun x y hxy => by
    simp only at hxy
    bv_omega
  have hsub : (nodes.map fun x => (x - q).toNat).toFinset ⊆ Finset.Ico len (2 ^ 32) := by
    intro j hj
    obtain ⟨node, hnode, rfl⟩ := List.mem_map.1 (List.mem_toFinset.1 hj)
    exact Finset.mem_Ico.2 ⟨not_lt.1 (hout node hnode), (node - q).isLt⟩
  have hcard := Finset.card_le_card hsub
  rw [List.toFinset_card_of_nodup (h.nodup.map hinj), List.length_map, Nat.card_Ico] at hcard
  omega

/-- So a vector that its list is clear of is not longer than the list
leaves room for. -/
theorem VectorClear.blocksFor_le (h : VectorClear k nodes) (r : k.store.heap.Ready)
    (hlist : ArgumentList k.store.mem a nodes)
    (hno : ¬ k.store.heap.Answers (blocksFor (vectorSize nodes.length).toNat)) :
    blocksFor (vectorSize nodes.length).toNat ≤ 838861 := by
  have hsize : (vectorSize nodes.length).toNat = 4 * nodes.length % 2 ^ 32 := by
    unfold vectorSize
    rw [BitVec.toNat_ofNat]
  have hblocks : blocksFor (vectorSize nodes.length).toNat =
      (4 * nodes.length % 2 ^ 32 + 4095) / 4096 := by rw [hsize, blocksFor]
  have hcount := hlist.length_add_le (show 4096 * blocksFor (vectorSize nodes.length).toNat ≤ 2 ^ 32
    by omega) fun node hnode => h.blocks (heapMalloc_ne_zero r.placed hno) node
      ⟨node, hnode, by unfold InRange sizeofCommandArgument; bv_omega⟩
  omega

/-- The vector's request is answered, in the table or past its end. -/
theorem VectorClear.exists_zalloc (h : VectorClear k nodes) (r : k.store.heap.Ready)
    (hplace : kernelHeapInit.SamePlace k.store.heap) (hlist : ArgumentList k.store.mem a nodes) :
    ∃ q s, kernelZallocPast (vectorSize nodes.length) k.store = .ok (q, s) ∧
      (kernelZalloc (vectorSize nodes.length) k.store = .ok (q, s) ∨
        GivenPast k.store s (vectorSize nodes.length) q) := by
  by_cases hans : k.store.heap.Answers (blocksFor (vectorSize nodes.length).toNat)
  · obtain ⟨q, s, hz⟩ := (kernelZalloc_granted_iff r).2 hans
    exact ⟨q, s, kernelZalloc_below _ _ _ hz, Or.inl hz⟩
  · obtain ⟨q, s, hz, hgiven⟩ :=
      kernelZallocPast_of_not_answers r hplace hans (h.blocksFor_le r hlist hans)
    exact ⟨q, s, hz, Or.inr hgiven⟩

/-- **A list of 1024 arguments is never injected**, if it is in a block of
the heap: with the vector, each argument takes one of the 1024 records. -/
theorem processInjectArguments_fails {b : Word} {j : ℕ} (h0 : process ≠ 0)
    (hp : k.processes process = some p) (hd : HasDirectory k p.task c)
    (hlist : ArgumentList k.store.mem a nodes) (hlen : 1024 ≤ nodes.length)
    (hown : k.store.heap.Owns b j) (hin : ∀ x, InNodes nodes x → InRange b (4096 * j) x)
    (htables : ∀ x, InNodes nodes x → ¬ c.InTables x) (hfuel : nodes.length + 1024 ≤ fuel)
    (hz : kernelZalloc (vectorSize nodes.length) k.store = .ok (argv, s)) :
    ∃ res k', processInjectArguments fuel process a k = .ok (res, k') ∧ res < 0 := by
  have hn : nodes ≠ [] := List.ne_nil_of_length_pos (by omega)
  rcases processInjectArguments_cases (fun _ => .refl _) h0 hp hd hlist hn hfuel hz
      (kernelZalloc_extends hd.ready hz) (kernelZalloc_block hd.ready hz) with
    ⟨res, k', p', hrun, hneg, -⟩ | ⟨hargv, index, k₁, k', p', hrec, hf, -⟩
  · exact ⟨res, k', hrun, hneg⟩
  · obtain ⟨b', hb', rfl, hfree⟩ := kernelZalloc_block hd.ready hz hargv
    obtain ⟨hlt, -⟩ := injected_of_filled hd hz hargv hrec hlist hn htables hf fun x hx =>
      ⟨hown.not_newByte hd.ready (hin x hx), hown.not_inRange_free hd.ready hb' hfree (hin x hx)⟩
    omega

/-! ## Where memory is left -/

/-- **A round that has memory** takes one of the blocks up to `n`. -/
theorem Injecting.round_of_room (h : Injecting k process p c argv) (hgive : k.CanGive p n)
    (h0 : current ≠ 0) (hi : i + 1 ≤ p.usedSlots) (fuel : ℕ) :
    ∃ (b : ℕ) (q : Word) (index : ℕ) (k' : Kernel),
      processInjectArgumentsLoop process argv (fuel + 1) current i k =
        processInjectArgumentsLoop process argv fuel
          (k'.store.mem.load32 (current + BitVec.ofNat 32 commandArgumentNextOffset)) (i + 1) k' ∧
      Injecting k' process (p.record index q argumentSize) c argv ∧
      StringTaken k k' c argv q current i ∧
      (p.record index q argumentSize).usedSlots = p.usedSlots + 1 ∧
      k'.store.heap.Room (n + 1) ∧ b ≤ n ∧ q.toNat = 0x1000000 + 4096 * b ∧ k.store.heap.Free b := by
  have htotal : k.store.heap.total = 25600 := hgive.place.total
  have hstart : k.store.heap.startAddress.toNat = 0x1000000 := by
    rw [hgive.place.start]
    rfl
  have hlt := hgive.lt
  rcases h.round h0 hi fuel with ⟨-, hnone⟩ | ⟨q, index, k', hrun, hfind, hq, hinj, ht⟩
  · exact absurd hgive (hnone n)
  obtain ⟨b, hb, hqb, hfree⟩ := ht.block
  have hroom := ht.room n hgive.room (by omega)
  have haddr := toNat_heapBlockToAddress h.directory.ready.placed hb
  rw [← hqb, hstart] at haddr
  refine ⟨b, q, index, k', hrun, hinj, ht, Process.usedSlots_record _ hfind hq, hroom, ?_, haddr, hfree⟩
  -- a block further on is still free
  by_contra hge
  have hb' : b < k'.store.heap.total := by
    rw [ht.place.total]
    exact hb
  exact ht.owned.not_free hinj.directory.ready hb' (hqb.trans (ht.place.heapBlockToAddress _).symm)
    (hroom b (by omega) hb')

/-- **The second walk comes to the list's end** where a block and a record
are left for each node, and the list is none of the heap's bytes. -/
theorem Injecting.loop_of_room (hspans : ∀ x, InRange argv 4096 x → k.store.heap.Spans x) :
    ∀ {nodes : List Word} {fuel i n : ℕ} {k₁ : Kernel} {p : Process} {current : Word},
      Injecting k₁ process p c argv → k.store.heap.SamePlace k₁.store.heap → k₁.CanGive p n →
      n + nodes.length < 25600 → p.usedSlots + nodes.length < 1024 → i + 1 ≤ p.usedSlots →
      nodes.length < fuel → ArgumentList k₁.store.mem current nodes →
      (∀ x, InNodes nodes x → ¬ k.store.heap.Spans x) →
        ∃ k' p', processInjectArgumentsLoop process argv fuel current i k₁ = .ok (0, k') ∧
          k'.processes process = some p' ∧ p'.task = p.task ∧ k'.CanGive p' (n + nodes.length) ∧
            p.usedSlots ≤ p'.usedSlots := by
  intro nodes
  induction nodes with
  | nil =>
    intro fuel i n k₁ p current h _ hgive _ _ _ hfuel hlist _
    obtain ⟨fuel, rfl⟩ := Nat.exists_eq_succ_of_ne_zero (Nat.ne_of_gt hfuel)
    obtain rfl : current = 0 := hlist
    exact ⟨k₁, p, rfl, h.object, rfl, hgive, le_rfl⟩
  | cons node nodes ih =>
    intro fuel i n k₁ p current h hplace hgive hn hused hi hfuel hlist hout
    rw [List.length_cons] at hn hused hfuel ⊢
    obtain ⟨fuel, rfl⟩ := Nat.exists_eq_succ_of_ne_zero (Nat.ne_of_gt (Nat.zero_lt_of_lt hfuel))
    obtain ⟨h0, rfl, hrest⟩ := hlist
    obtain ⟨-, q, index, k₂, hrun, h₂, ht, hused₂, hroom, -⟩ := h.round_of_room hgive h0 hi fuel
    have hplace₂ := hplace.trans ht.place
    have hgive₂ : k₂.CanGive (p.record index q argumentSize) (n + 1) :=
      ⟨hgive.place.trans ht.place, hroom, by omega, by omega⟩
    -- nothing of the list is written
    have hsame : ∀ x, InNodes (node :: nodes) x → k₂.store.mem x = k₁.store.mem x := by
      intro x hx
      have hx := hout x hx
      refine ht.mem x ?_ ?_ fun hin => hx (hspans x (inRange_vector (by omega) hin))
      · rintro ⟨j, hj, hin⟩
        have hown := h.directory.mapped.owns _ (c.has_table hj)
        exact hx (hplace.spans_iff.1 (hown.spans h.directory.ready hin))
      · exact fun hin => hx (hplace₂.spans_iff.1 (ht.owned.spans h₂.directory.ready hin))
    have hlist₂ : ArgumentList k₂.store.mem node (node :: nodes) :=
      ArgumentList.congr ⟨h0, rfl, hrest⟩ hsame
    obtain ⟨k', p', hloop, hp', htask, hgive', hle⟩ := ih (i := i + 1) h₂ hplace₂ hgive₂
      (by omega) (by omega) (by omega) (Nat.lt_of_succ_lt_succ hfuel) hlist₂.2.2
      fun x ⟨y, hy, hx⟩ => hout x ⟨y, List.mem_cons_of_mem _ hy, hx⟩
    refine ⟨k', p', hrun.trans hloop, hp', htask, ?_, by omega⟩
    rwa [show n + (nodes.length + 1) = n + 1 + nodes.length by omega]

/-- **The whole call succeeds** where memory and records are left for it,
and the list is none of the heap's bytes. -/
theorem processInjectArguments_of_room (fuel : ℕ) (h0 : process ≠ 0) (hp : k.processes process = some p)
    (hd : HasDirectory k p.task c) (hgive : k.CanGive p n)
    (hlist : ArgumentList k.store.mem a nodes) (hne : nodes ≠ [])
    (hn : n + 1 + nodes.length < 25600) (hused : p.usedSlots + 1 + nodes.length < 1024)
    (hout : ∀ x, InNodes nodes x → ¬ k.store.heap.Spans x) (hfuel : nodes.length < fuel) :
    ∃ k' p', processInjectArguments fuel process a k = .ok (0, k') ∧
      k'.processes process = some p' ∧ p'.task = p.task ∧ k'.CanGive p' (n + 1 + nodes.length) ∧
        0 < p'.usedSlots ∧ ∀ x, InRange p'.arguments.argv 4096 x → k.store.heap.Spans x := by
  have hpos := List.length_pos_of_ne_nil hne
  have hinject := processInjectArguments_eq kernelZalloc process hlist hne hfuel
  have hsize : (vectorSize nodes.length).toNat = 4 * nodes.length := by
    unfold vectorSize
    rw [BitVec.toNat_ofNat]
    omega
  have hone : blocksFor (vectorSize nodes.length).toNat = 1 := by
    unfold blocksFor
    omega
  obtain ⟨argv, s, index, k₁, hz, hargv, hmalloc, hrec, hroom⟩ :=
    hgive.exists_malloc (vectorSize nodes.length) h0 hp hd (by omega) (by omega)
  obtain ⟨hext, hown, -, -⟩ := kernelZalloc_spec hd.ready (by omega) (by omega) hz hargv
  rw [hone] at hown
  have hspans : ∀ x, InRange argv 4096 x → k.store.heap.Spans x := fun x hin =>
    hext.place.spans_iff.1 (hown.spans (hext.ready hd.ready) hin)
  have hused₁ := Process.usedSlots_record (vectorSize nodes.length) hrec.slot hargv
  have hplace₁ : k.store.heap.SamePlace k₁.store.heap := hrec.heap ▸ hext.place
  have hgive₁ : k₁.CanGive (p.record index argv (vectorSize nodes.length)) (n + 1) :=
    ⟨hgive.place.trans hplace₁, hrec.heap ▸ hroom, by omega, by omega⟩
  have hsame : ∀ x, InNodes nodes x → k₁.store.mem x = k.store.mem x := by
    intro x hx
    rw [hrec.mem x fun ⟨j, hj, hin⟩ =>
      hout x hx ((hd.mapped.owns _ (c.has_table hj)).spans hd.ready hin)]
    refine kernelZalloc_mem hz fun hin => hout x hx (hspans x ?_)
    unfold InRange at hin ⊢
    omega
  obtain ⟨k₂, p₂, hloop, hp₂, htask, hgive₂, hle⟩ :=
    (injecting_of_recorded h0 hd (kernelZalloc_block hd.ready hz hargv) hargv hrec).loop_of_room
      hspans (i := 0) hplace₁ hgive₁ hn (by omega) (by omega) hfuel (hlist.congr hsame) hout
  -- with the arguments set
  obtain ⟨p₃, hp₃⟩ : ∃ p₃ : Process, p₃ = { p₂ with arguments := ⟨int32 nodes.length, argv⟩ } :=
    ⟨_, rfl⟩
  have hset : modifyProcess process (fun p => { p with arguments := ⟨int32 nodes.length, argv⟩ }) k₂ =
      .ok (⟨⟩, k₂.setProcess process (some p₃)) :=
    run_modifyProcess.2 ⟨h0, p₂, hp₂, by rw [hp₃]⟩
  have hallocations : p₃.allocations = p₂.allocations := by rw [hp₃]
  have hused₃ : p₃.usedSlots = p₂.usedSlots := by
    unfold Process.usedSlots
    rw [hallocations]
  have htask₃ : p₃.task = p₂.task := by rw [hp₃]
  refine ⟨k₂.setProcess process (some p₃), p₃, ?_, setProcess_processes_self, htask₃.trans htask,
    ⟨hgive₂.place, hgive₂.room, hgive₂.lt, by rw [hused₃]; exact hgive₂.slot⟩, by omega, ?_⟩
  · refine hinject.trans ?_
    rw [Fallible.bind_ok hmalloc, if_neg hargv, Fallible.bind_ok hloop, if_neg (lt_irrefl 0)]
    exact Fallible.run_seq.2 ⟨_, hset, rfl⟩
  · rw [hp₃]
    exact hspans

/-! ## Lists in memory -/

section

/-- The words of `n` nodes one after another: the characters of each, and
the pointer to the next. -/
def listWords (base : Word) (n : ℕ) : List Word :=
  (List.range (129 * n)).map fun j =>
    if j % 129 = 128 then if j + 1 < 129 * n then base + BitVec.ofNat 32 (4 * (j + 1)) else 0
    else 0x61616161

/-- The addresses of `d` of them, from node `i` on. -/
def listNodes (base : Word) (i d : ℕ) : List Word :=
  (List.range' i d).map fun i => base + BitVec.ofNat 32 (516 * i)

/-- The words are a list of the nodes. -/
theorem argumentList_listWords (base : Word) (h0 : 0 < base.toNat)
    (hfit : base.toNat + 516 * n < 2 ^ 32) (m : Mem) : ∀ {d i : ℕ}, i + d = n →
      ArgumentList (m.storeWords base (listWords base n))
        (if d = 0 then 0 else base + BitVec.ofNat 32 (516 * i)) (listNodes base i d) := by
  have hlen : (listWords base n).length = 129 * n := by
    unfold listWords
    rw [List.length_map, List.length_range]
  intro d
  induction d with
  | zero => exact fun _ => if_pos rfl
  | succ d ih =>
    intro i hi
    rw [if_neg (Nat.succ_ne_zero d)]
    refine ⟨?_, rfl, ?_⟩
    · intro hz
      bv_omega
    -- the pointer is word 128 of the node
    have hword : (listWords base n)[129 * i + 128]? =
        some (if d = 0 then 0 else base + BitVec.ofNat 32 (516 * (i + 1))) := by
      unfold listWords
      rw [List.getElem?_map, List.getElem?_range (by omega), Option.map_some, if_pos (by omega)]
      by_cases hd : d = 0
      · rw [if_neg (by omega), if_pos hd]
      · rw [if_pos (by omega), if_neg hd, show 4 * (129 * i + 128 + 1) = 516 * (i + 1) by omega]
    have haddr : base + BitVec.ofNat 32 (516 * i) + BitVec.ofNat 32 commandArgumentNextOffset =
        base + BitVec.ofNat 32 (4 * (129 * i + 128)) := by
      unfold commandArgumentNextOffset
      bv_omega
    rw [haddr, Mem.load32_storeWords (by rw [hlen]; omega) hword]
    exact ih (by omega)

end

/-- **A process whose directory is the heap's first 1026 blocks**, with no
record. The word at 0x1482205 is null. -/
structure DirectoryFirst (k : Kernel) (p : Process) (c : ChunkView) : Prop where
  heap : KernelHeap k.store.heap
  object : k.processes 1 = some p
  directory : HasDirectory k p.task c
  none : p.usedSlots = 0
  room : k.store.heap.Room 1026
  taken : ∀ i < 1026, ¬ k.store.heap.Free i
  entries : ∀ page, page < 2 ^ 20 → c.entry k.store.mem page = identityEntry 5 page
  last : k.store.mem.load32 (0x1482005 + BitVec.ofNat 32 commandArgumentNextOffset) = 0

/-- A list over its tables: the first node is at the entry of page 5122,
the first free block's, and the entry of page 5250 links it to the
second. -/
def tableNodes (c : ChunkView) : List Word := [c.slot 5122, 0x1482005]

/-- The entry that links its nodes. -/
theorem slot_next (c : ChunkView) :
    c.slot 5122 + BitVec.ofNat 32 commandArgumentNextOffset = c.slot 5250 := by
  have h1 : c.slot 5122 = c.table 5 + 8 := rfl
  have h2 : c.slot 5250 = c.table 5 + 520 := rfl
  rw [h1, h2]
  unfold commandArgumentNextOffset
  bv_omega

namespace DirectoryFirst

/-- The list is in the first table, and in a block that stays free. -/
theorem list (h : DirectoryFirst k p c) :
    ArgumentList k.store.mem (c.slot 5122) (tableNodes c) := by
  have hr := h.directory.ready
  have hal := h.directory.mapped.table_aligned hr (show 5 < 1024 by decide)
  have hslot : c.slot 5122 = c.table 5 + 8 := rfl
  refine ⟨?_, rfl, ?_⟩
  · rw [hslot]
    intro h0
    bv_omega
  have hnext : k.store.mem.load32 (c.slot 5122 + BitVec.ofNat 32 commandArgumentNextOffset) =
      0x1482005 := by
    rw [slot_next]
    exact h.entries 5250 (by decide)
  rw [hnext]
  exact ⟨by decide, rfl, h.last⟩

/-- Of the blocks that are free at the start, the list is in block 1154
only. -/
theorem not_inRange (h : DirectoryFirst k p c) {b : ℕ} (hb : 1026 ≤ b) (hlt : b < 25600)
    (hne : b ≠ 1154) (hq : q.toNat = 0x1000000 + 4096 * b) (hx : InNodes (tableNodes c) x) :
    ¬ InRange q 4096 x := by
  have htotal : k.store.heap.total = 25600 := h.heap.samePlace.total
  have haddr := toNat_heapBlockToAddress h.directory.ready.placed (b := b) (by omega)
  rw [h.heap.samePlace.start, show kernelHeapInit.startAddress.toNat = 0x1000000 from rfl,
    ← hq] at haddr
  obtain ⟨node, hnode, hx⟩ := hx
  unfold sizeofCommandArgument at hx
  rcases List.mem_cons.1 hnode with rfl | hnode
  · have hslot : c.slot 5122 = c.table 5 + 8 := rfl
    have hin : InRange (c.table 5) (4096 * 1) x := by
      rw [hslot] at hx
      unfold InRange at hx ⊢
      bv_omega
    rw [← BitVec.eq_of_toNat_eq haddr]
    exact (h.directory.mapped.owns _ (c.has_table (by decide))).not_inRange_free
      h.directory.ready (by omega) (h.room b hb (by omega)) hin
  · obtain rfl := List.mem_singleton.1 hnode
    unfold InRange at hx ⊢
    bv_omega

end DirectoryFirst

/-- **The vector is the first free block**, and its page's entry is that
of a page the program may write. -/
structure VectorFirst (k k₁ : Kernel) (p₁ : Process) (c : ChunkView) : Prop where
  call : processMalloc 1 (vectorSize 2) k = .ok (0x1402000, k₁)
  injecting : Injecting k₁ 1 p₁ c 0x1402000
  give : k₁.CanGive p₁ 1027
  used : p₁.usedSlots = 1
  owned : k₁.store.heap.Owns 0x1402000 1
  free : ∀ b, k₁.store.heap.Free b → k.store.heap.Free b
  mem : ∀ x, ¬ c.InTables x → ¬ InRange 0x1402000 4096 x → k₁.store.mem x = k.store.mem x
  page : c.entry k₁.store.mem 5122 = 0x1402007
  link : c.entry k₁.store.mem 5250 = 0x1482005

theorem VectorFirst.taken {p₁ : Process} (hv : VectorFirst k k₁ p₁ c) :
    ¬ k₁.store.heap.Free 1026 := by
  refine hv.owned.not_free hv.injecting.directory.ready (by rw [hv.give.place.total]; decide) ?_
  rw [hv.give.place.heapBlockToAddress]
  decide

/-- An entry that is not the new block's stays. -/
theorem StringTaken.entry_eq {b page : ℕ} (ht : StringTaken k k' c argv q current i)
    (hlt : b < 25600) (hq : q.toNat = 0x1000000 + 4096 * b) (hp : page < 2 ^ 20)
    (hne : page ≠ 4096 + b) : c.entry k'.store.mem page = c.entry k.store.mem page := by
  have hone : blocksFor argumentSize.toNat = 1 := by decide
  rw [ht.entries page hp, mapTo_allocation _ _ (by omega) (by rw [hone]; omega) hp, if_neg]
  rw [hone]
  omega

end OwnKernel
