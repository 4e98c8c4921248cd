import OwnKernel.Kernel.Objects
import OwnKernel.Model.Arguments
import OwnKernel.Process.Allocations
import Mathlib.Logic.Function.Iterate

/-!
# The walks over an argument list

`process_count_command_arguments` and `process_inject_arguments` follow
the `next` pointers of nodes that lie in a program's memory, up to a null
one. `processInjectArguments_terminates_iff` says for which memories the
two loops come to an end. The first one alone decides: the second takes
an entry of `allocations[]` in each round, and there are 1024.
-/

namespace OwnKernel

open Fallible (Never)

variable {k k' : Kernel} {process root p argv current : Word} {size : Word} {i : ℤ} {j n fuel : ℕ}

/-! ## The first walk -/

/-- The `next` pointer of the node at `p`. -/
def nextArgument (mem : Mem) (p : Word) : Word :=
  mem.load32 (p + BitVec.ofNat 32 commandArgumentNextOffset)

/-- **The list from `root` ends**: following its `next` pointers comes to a
null one. -/
def ListEnds (mem : Mem) (root : Word) : Prop := ∃ n, (nextArgument mem)^[n] root = 0

/-- One node is counted. -/
theorem processCountCommandArgumentsLoop_succ (h0 : root ≠ 0) (fuel : ℕ) (i : ℤ) :
    processCountCommandArgumentsLoop (fuel + 1) root i k =
      processCountCommandArgumentsLoop fuel (nextArgument k.store.mem root) (int32 (i + 1)) k := by
  have hread : onStore (loadWord root commandArgumentNextOffset) k =
      .ok (nextArgument k.store.mem root, k) := by
    unfold onStore loadWord
    rw [if_neg h0]
    rfl
  rw [processCountCommandArgumentsLoop, if_neg h0]
  exact Fallible.bind_ok hread

/-- **A list that ends is counted.** -/
theorem processCountCommandArgumentsLoop_of_ends (n : ℕ) : ∀ (root : Word) (i : ℤ) (fuel : ℕ),
    (nextArgument k.store.mem)^[n] root = 0 → n < fuel →
      ∃ argc, processCountCommandArgumentsLoop fuel root i k = .ok (argc, k) := by
  induction n with
  | zero =>
    intro root i fuel hroot hfuel
    obtain ⟨fuel, rfl⟩ := Nat.exists_eq_succ_of_ne_zero (Nat.ne_of_gt hfuel)
    rw [Function.iterate_zero_apply] at hroot
    rw [processCountCommandArgumentsLoop, if_pos hroot]
    exact ⟨i, rfl⟩
  | succ n ih =>
    intro root i fuel hroot hfuel
    obtain ⟨fuel, rfl⟩ := Nat.exists_eq_succ_of_ne_zero (Nat.ne_of_gt (Nat.zero_lt_of_lt hfuel))
    by_cases h0 : root = 0
    · rw [processCountCommandArgumentsLoop, if_pos h0]
      exact ⟨i, rfl⟩
    · rw [processCountCommandArgumentsLoop_succ h0]
      rw [Function.iterate_succ_apply] at hroot
      exact ih _ _ _ hroot (Nat.lt_of_succ_lt_succ hfuel)

/-- **A list that does not end is counted for ever.** -/
theorem processCountCommandArgumentsLoop_diverges (fuel : ℕ) : ∀ (root : Word) (i : ℤ),
    ¬ ListEnds k.store.mem root →
      processCountCommandArgumentsLoop fuel root i k = .error .diverges := by
  induction fuel with
  | zero => exact fun _ _ _ => rfl
  | succ fuel ih =>
    intro root i hends
    have h0 : root ≠ 0 := fun h0 => hends ⟨0, by rw [Function.iterate_zero_apply, h0]⟩
    rw [processCountCommandArgumentsLoop_succ h0]
    refine ih _ _ fun ⟨n, hn⟩ => hends ⟨n + 1, ?_⟩
    rw [Function.iterate_succ_apply, hn]

/-! ## What does not diverge -/

theorem never_onStore {α : Type} {x : StoreM α} (h : Never Fault.diverges x) :
    Never Fault.diverges (onStore x) := by
  intro k hk
  unfold onStore at hk
  cases hx : x k.store with
  | error e =>
    rw [hx] at hk
    exact h _ (hx.trans (congrArg _ (Except.error.inj hk)))
  | ok r =>
    rw [hx] at hk
    cases hk

theorem never_deref {β : Type} {objects : Kernel → Word → Option β} :
    Never Fault.diverges (deref objects p) := by
  unfold deref
  refine .ite (.throw (by decide)) (.bind .get fun k => ?_)
  cases objects k p with
  | none => exact .throw (by decide)
  | some x => exact .pure x

theorem never_loadWord {offset : ℕ} : Never Fault.diverges (loadWord p offset) :=
  .ite (.throw (by decide)) (.bind .get fun _ => .pure _)

theorem never_storeWord {offset : ℕ} {val : Word} :
    Never Fault.diverges (storeWord p offset val) :=
  .ite (.throw (by decide)) (.modify _)

theorem never_kernelZalloc : Never Fault.diverges (kernelZalloc size) :=
  .bind (.bind .get fun _ => .ite (.throw (by decide)) (.bind (.set _) fun _ => .pure _))
    fun _ => .ite (.pure _) (.ite (.throw (by decide)) (.bind (.modify _) fun _ => .pure _))

theorem never_modifyProcess {f : Process → Process} :
    Never Fault.diverges (modifyProcess process f) := .bind never_deref fun _ => .modify _

theorem never_taskMapTo {task v a e flags : Word} :
    Never Fault.diverges (taskMapTo task v a e flags) :=
  .bind never_deref fun _ => .ite (.throw (by decide))
    (.bind .get fun _ => .bind (.set _) fun _ => .pure _)

/-- **`process_malloc` comes to an end.** -/
theorem never_processMalloc : Never Fault.diverges (processMalloc process size) := by
  have herr : ∀ ptr, Never Fault.diverges (processMallocOn.processMallocErr ptr) := fun ptr =>
    .bind (never_onStore (.modify _)) fun _ => .pure _
  refine .bind (never_onStore never_kernelZalloc) fun ptr => .ite (.pure _)
    (.bind never_deref fun p => ?_)
  cases p.findFreeAllocationIndex with
  | none => exact herr ptr
  | some index =>
    refine .bind never_taskMapTo fun _ => .ite (herr ptr) ?_
    exact .bind never_modifyProcess fun _ => .pure _

theorem never_loadByte {space : AddressSpace} {ptr : Word} :
    Never Fault.diverges (loadByte space ptr) := by
  refine .bind .get fun s => ?_
  cases space s.mem ptr with
  | none => exact .throw (by decide)
  | some address => exact .pure _

theorem never_storeByte {space : AddressSpace} {ptr : Word} {c : Byte} :
    Never Fault.diverges (storeByte space ptr c) := by
  refine .bind .get fun s => ?_
  cases space s.mem ptr with
  | none => exact .throw (by decide)
  | some address => exact .set _

theorem never_strncpyLoop {space : AddressSpace} {dest src : Word} (n : ℕ) : ∀ i,
    Never Fault.diverges (strncpyLoop space dest src n i) := by
  induction n with
  | zero => exact fun i => never_storeByte
  | succ n ih =>
    intro i
    refine .bind never_loadByte fun c => .ite never_storeByte ?_
    exact .bind never_storeByte fun _ => ih (i + 1)

/-! ## The second walk -/

/-- How many entries of `allocations[]` are free. -/
def freeAllocations (k : Kernel) (process : Word) : ℕ :=
  match k.processes process with
  | none => 0
  | some p => ((List.range osMaxProgramAllocations).filter fun i => (p.allocations i).ptr = 0).length

theorem freeAllocations_le (k : Kernel) (process : Word) :
    freeAllocations k process ≤ osMaxProgramAllocations := by
  unfold freeAllocations
  cases k.processes process with
  | none => exact Nat.zero_le _
  | some p => exact (List.length_filter_le ..).trans_eq List.length_range

/-- Taking a free entry leaves one less. -/
theorem length_filter_update {f : ℕ → ProcessAllocation} {a : ProcessAllocation} (hj : j < n)
    (hfree : (f j).ptr = 0) (ha : a.ptr ≠ 0) :
    ((List.range n).filter fun i => (Function.update f j a i).ptr = 0).length <
      ((List.range n).filter fun i => (f i).ptr = 0).length := by
  have hsub : ((List.range n).filter fun i => (Function.update f j a i).ptr = 0).Sublist
      ((List.range n).filter fun i => (f i).ptr = 0) := by
    refine List.monotone_filter_right _ fun i hi => ?_
    rw [decide_eq_true_eq] at hi ⊢
    by_cases hij : i = j
    · rw [hij]
      exact hfree
    · rwa [Function.update_of_ne hij] at hi
  refine lt_of_le_of_ne hsub.length_le fun heq => ?_
  -- the entry taken is free before and not after
  have hmem : j ∈ (List.range n).filter fun i => (f i).ptr = 0 :=
    List.mem_filter.2 ⟨List.mem_range.2 hj, decide_eq_true hfree⟩
  rw [← hsub.eq_of_length heq] at hmem
  have h0 := of_decide_eq_true (List.mem_filter.1 hmem).2
  rw [Function.update_self] at h0
  exact ha h0

/-- **`process_malloc` takes an entry.** -/
theorem freeAllocations_of_processMalloc (h : processMalloc process size k = .ok (p, k'))
    (h0 : p ≠ 0) : freeAllocations k' process < freeAllocations k process := by
  unfold processMalloc processMallocOn at h
  obtain ⟨ptr, k₁, hz, h₁⟩ := Fallible.run_bind.1 h
  obtain ⟨s, -, rfl⟩ := run_onStore.1 hz
  by_cases hptr : ptr = 0
  · rw [if_pos hptr] at h₁
    exact absurd (Fallible.run_pure.1 h₁).1 h0
  rw [if_neg hptr] at h₁
  obtain ⟨q, k₂, hread, h₂⟩ := Fallible.run_bind.1 h₁
  obtain ⟨-, hq, rfl⟩ := run_readProcess.1 hread
  have herr : ∀ k₁, ¬ processMallocOn.processMallocErr ptr k₁ = .ok (p, k') := by
    intro k₁ he
    obtain ⟨k₂, -, hret⟩ := Fallible.run_seq.1 he
    exact h0 (Fallible.run_pure.1 hret).1
  cases hfind : q.findFreeAllocationIndex with
  | none =>
    rw [hfind] at h₂
    exact absurd h₂ (herr _)
  | some index =>
    rw [hfind] at h₂
    obtain ⟨res, k₃, hmap, h₃⟩ := Fallible.run_bind.1 h₂
    by_cases hres : res < 0
    · rw [if_pos hres] at h₃
      exact absurd h₃ (herr _)
    rw [if_neg hres] at h₃
    obtain ⟨k₄, hset, h₄⟩ := Fallible.run_seq.1 h₃
    obtain ⟨-, q', hq', rfl⟩ := run_modifyProcess.1 hset
    obtain ⟨-, rfl⟩ := Fallible.run_pure.1 h₄
    -- mapping the block does not touch the process
    have hq'' : k₃.processes process = some q := by
      obtain ⟨t, k₅, hread', hmap'⟩ := Fallible.run_bind.1 hmap
      obtain ⟨-, -, rfl⟩ := run_readTask.1 hread'
      by_cases hdir : t.pageDirectory = 0
      · rw [if_pos hdir] at hmap'
        exact absurd hmap' Fallible.run_throw
      · rw [if_neg hdir, Fallible.run_get_bind] at hmap'
        obtain ⟨k₆, hset', hret⟩ := Fallible.run_seq.1 hmap'
        rw [Fallible.run_set] at hset'
        obtain ⟨-, rfl⟩ := Fallible.run_pure.1 hret
        rw [hset']
        exact hq
    rw [hq''] at hq'
    cases hq'
    have hindex := List.find?_some hfind
    have hlt := List.mem_range.1 (List.mem_of_find?_eq_some hfind)
    have hk : k.processes process = some q := hq
    unfold freeAllocations
    rw [setProcess_processes_self, hk]
    exact length_filter_update hlt (of_decide_eq_true hindex) hptr

/-- What is run on the store leaves the entries. -/
theorem freeAllocations_onStore {α : Type} {x : StoreM α} {a : α}
    (h : onStore x k = .ok (a, k')) : freeAllocations k' process = freeAllocations k process := by
  obtain ⟨s, -, rfl⟩ := run_onStore.1 h
  rfl

/-- **The second walk comes to an end**, at the latest when all entries
are taken. -/
theorem processInjectArgumentsLoop_ends (fuel : ℕ) : ∀ (k : Kernel) (current : Word) (i : ℕ),
    freeAllocations k process < fuel →
      processInjectArgumentsLoop process argv fuel current i k ≠ .error .diverges := by
  induction fuel with
  | zero => exact fun k _ _ h => absurd h (Nat.not_lt_zero _)
  | succ fuel ih =>
    intro k current i hfuel
    by_cases h0 : current = 0
    · rw [processInjectArgumentsLoop, processInjectArgumentsLoopOn, if_pos h0]
      exact Fallible.Never.pure _ _
    rw [processInjectArgumentsLoop, processInjectArgumentsLoopOn, if_neg h0]
    refine Fallible.Never.of_run never_processMalloc rfl fun argumentStr k₁ hmalloc => ?_
    by_cases hstr : argumentStr = 0
    · rw [if_pos hstr]
      exact Fallible.Never.pure _ _
    rw [if_neg hstr]
    have htaken := freeAllocations_of_processMalloc hmalloc hstr
    refine Fallible.Never.of_run (never_onStore (never_strncpyLoop _ _)) rfl fun _ k₂ h₂ => ?_
    refine Fallible.Never.of_run (never_onStore never_storeWord) rfl fun _ k₃ h₃ => ?_
    refine Fallible.Never.of_run (never_onStore never_loadWord) rfl fun next k₄ h₄ => ?_
    refine ih k₄ next (i + 1) ?_
    rw [freeAllocations_onStore h₄, freeAllocations_onStore h₃, freeAllocations_onStore h₂]
    omega

/-! ## Both walks -/

/-- A list that does not end keeps the kernel in the first walk. -/
theorem processInjectArguments_diverges (process : Word) (h : ¬ ListEnds k.store.mem root)
    (fuel : ℕ) : processInjectArguments fuel process root k = .error .diverges := by
  have hcount := processCountCommandArgumentsLoop_diverges fuel root 0 h
  unfold processInjectArguments processInjectArgumentsOn processCountCommandArguments
  change Except.bind (processCountCommandArgumentsLoop fuel root 0 k) _ = _
  rw [hcount]
  rfl

/-- **For which memories the walks end**: those whose list ends. -/
theorem processInjectArguments_terminates_iff (k : Kernel) (process root : Word) :
    (∃ fuel, processInjectArguments fuel process root k ≠ .error .diverges) ↔
      ListEnds k.store.mem root := by
  constructor
  · rintro ⟨fuel, h⟩
    by_contra hends
    exact h (processInjectArguments_diverges process hends fuel)
  · rintro ⟨n, hn⟩
    refine ⟨max (n + 1) (osMaxProgramAllocations + 1), ?_⟩
    obtain ⟨argc, hcount⟩ := processCountCommandArgumentsLoop_of_ends n root 0
      (max (n + 1) (osMaxProgramAllocations + 1)) hn (by omega)
    unfold processInjectArguments processInjectArgumentsOn processCountCommandArguments
    rw [Fallible.bind_ok hcount]
    by_cases hargc : argc = 0
    · rw [if_pos hargc]
      exact Fallible.Never.pure _ _
    rw [if_neg hargc]
    have hloop : ∀ argv, Never Fault.diverges (processInjectArgumentsLoop process argv
        (max (n + 1) (osMaxProgramAllocations + 1)) root 0) := by
      intro argv k₁
      have := freeAllocations_le k₁ process
      exact processInjectArgumentsLoop_ends _ k₁ root 0 (by omega)
    exact Never.bind never_processMalloc (fun argv => .ite (.pure _) (.bind (hloop argv) fun _ =>
      .ite (.pure _) (.bind never_modifyProcess fun _ => .pure _))) k

/-! ## A list that is its own tail -/

/-- A node whose `next` is the node itself. -/
theorem not_listEnds_self {mem : Mem} (hself : nextArgument mem root = root) (h0 : root ≠ 0) :
    ¬ ListEnds mem root := by
  rintro ⟨n, hn⟩
  exact h0 ((Function.iterate_fixed hself n).symm.trans hn)

/-- **The walk over a cyclic list does not end**: a program asks for the
block of a node, and makes the node its own tail. -/
theorem processInjectArguments_not_terminates :
    ¬ ∀ (k : Kernel) (process root : Word) (p : Process) (c : ChunkView) (i : ℕ),
      AllocInv k process p c → i < osMaxProgramAllocations →
      p.allocations i = ⟨root, BitVec.ofNat 32 sizeofCommandArgument⟩ →
        ∃ fuel, processInjectArguments fuel process root k ≠ .error .diverges := by
  intro h
  have hpos : 0 < (BitVec.ofNat 32 sizeofCommandArgument : Word).toNat := by decide
  obtain ⟨k₀, k, p₀, c, q, i, hp₀, hd, hnone, hpages, hrun, hq, hi, hp, ho⟩ :=
    exists_boot_malloc hpos (by decide)
  obtain ⟨p, hinv⟩ := AllocInv.of_run (.malloc .start hpos hrun)
    (.start (by decide) hp₀ hd hnone hpages)
  have hrecord : p.allocations i = ⟨q, BitVec.ofNat 32 sizeofCommandArgument⟩ := by
    obtain rfl := Option.some.inj (hp.symm.trans hinv.object)
    exact Function.update_self ..
  -- the program writes its node's address into the node
  obtain ⟨m, hm⟩ : ∃ m, m = k.store.mem.store32
    (q + BitVec.ofNat 32 commandArgumentNextOffset) q := ⟨_, rfl⟩
  have hout : ∀ r, c.Has r → ∀ x, InRange r 4096 x → m x = k.store.mem x := by
    intro r hr x hx
    have hne : r ≠ q := fun he => by
      have hapart := hinv.apart i hi
      rw [hrecord] at hapart
      exact hapart hq (he ▸ hr)
    have hblock : ¬ InRange q 4096 x := (hinv.directory.mapped.owns r hr).disjoint ho
      hinv.directory.ready hne hx
    rw [hm]
    refine Mem.store32_of_not_mem fun hin => hblock ?_
    unfold InRange commandArgumentNextOffset at hin
    unfold InRange
    bv_omega
  have hself : nextArgument m q = q := by
    unfold nextArgument
    rw [hm, Mem.load32_store32_self]
  have hends : ¬ ListEnds m q := not_listEnds_self hself hq
  obtain ⟨fuel, hfuel⟩ := h _ 1 q p c i (hinv.of_mem hout) hi hrecord
  exact hfuel (processInjectArguments_diverges 1 hends fuel)

end OwnKernel
