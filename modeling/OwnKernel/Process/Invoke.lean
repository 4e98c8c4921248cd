import OwnKernel.Process.Injected
import OwnKernel.Process.CommandPath
import OwnKernel.Process.Program
import OwnKernel.Task.CopyString

/-!
# A command that returns

Command 7 loads a program, makes its process the current one, and then
injects the arguments. A load that fails leaves the lists of tasks and
processes as they were; an injection that fails is not undone, and the
process stays (`isr80hCommand7_failsCleanly_iff`). No list of 1024
arguments or more is injected.
-/

namespace OwnKernel

open Fallible (Keeps)

variable {k k' : Kernel} {process : Word} {image : Sectors} {arguments item res : Word}
variable {path path' : CharArray} {fuel len : ℕ}

/-! ## What the command reads -/

/-- `task_get_stack_item` changes nothing. -/
theorem taskGetStackItem_frame {task : Word} {index : ℕ}
    (h : taskGetStackItem task index k = .ok (item, k')) : k' = k := by
  obtain ⟨t, k₁, hread, h₁⟩ := Fallible.run_bind.1 h
  obtain ⟨-, -, rfl⟩ := run_readTask.1 hread
  obtain ⟨directory, k₂, hload', h₂⟩ := Fallible.run_bind.1 h₁
  obtain ⟨s, hload, rfl⟩ := run_onStore.1 hload'
  obtain ⟨-, -, rfl⟩ := run_loadWord.1 hload
  obtain ⟨s, hword, rfl⟩ := run_onStore.1 h₂
  obtain ⟨b₀, s₀, h₀, hword⟩ := Fallible.run_bind.1 hword
  obtain ⟨b₁, s₁, h₁, hword⟩ := Fallible.run_bind.1 hword
  obtain ⟨b₂, s₂, h₂, hword⟩ := Fallible.run_bind.1 hword
  obtain ⟨b₃, s₃, h₃, hword⟩ := Fallible.run_bind.1 hword
  obtain ⟨-, -, -, rfl⟩ := run_loadByte.1 h₀
  obtain ⟨-, -, -, rfl⟩ := run_loadByte.1 h₁
  obtain ⟨-, -, -, rfl⟩ := run_loadByte.1 h₂
  obtain ⟨-, -, -, rfl⟩ := run_loadByte.1 h₃
  rw [(Fallible.run_pure.1 hword).2]

/-- Nor does `task_virtual_address_to_physical`. -/
theorem taskVirtualAddressToPhysical_frame {task virtualAddress : Word}
    (h : taskVirtualAddressToPhysical task virtualAddress k = .ok (arguments, k')) : k' = k := by
  obtain ⟨t, k₁, hread, h₁⟩ := Fallible.run_bind.1 h
  obtain ⟨-, -, rfl⟩ := run_readTask.1 hread
  rw [Fallible.run_get_bind] at h₁
  exact (Fallible.run_pure.1 h₁).2

theorem run_onArray {α : Type} {x : Except Fault α} {a : α} :
    onArray x k = .ok (a, k') ↔ x = .ok a ∧ k' = k := by
  unfold onArray
  cases x with
  | error e => simp
  | ok b =>
    constructor
    · intro h
      cases h
      exact ⟨rfl, rfl⟩
    · rintro ⟨h, rfl⟩
      cases h
      rfl

/-- The length is never 0: the terminator is counted. -/
theorem lt_of_strlenAt {mem : Mem} {str : Word} {n : ℕ} : ∀ {len : ℕ},
    strlenAt mem str fuel len = .ok n → len < n := by
  induction fuel with
  | zero => exact fun h => nomatch h
  | succ fuel ih =>
    intro len h
    rw [strlenAt] at h
    split at h
    · cases h
      exact Nat.lt_succ_self len
    · exact Nat.lt_of_succ_lt (ih h)

/-! ## What the injection keeps -/

/-- The lists of tasks and processes are kept by what is run on the store. -/
theorem keeps_sameLists_onStore {α : Type} {x : StoreM α} :
    Keeps (SameLists k) (fun _ => True) (onStore x) := by
  refine fun k₁ hk => ⟨fun _ _ => trivial, fun a k' hrun => ?_⟩
  obtain ⟨s, -, rfl⟩ := run_onStore.1 hrun
  exact hk.trans ⟨rfl, rfl, rfl, rfl, rfl, rfl⟩

theorem keeps_sameLists_modifyProcess {f : Process → Process} :
    Keeps (SameLists k) (fun _ => True) (modifyProcess process f) := by
  refine fun k₁ hk => ⟨fun _ _ => trivial, fun u k' hrun => ?_⟩
  obtain ⟨-, p, -, rfl⟩ := run_modifyProcess.1 hrun
  exact hk.trans ⟨rfl, rfl, rfl, rfl, rfl, rfl⟩

/-- `process_malloc` keeps them. -/
theorem keeps_sameLists_processMalloc {size : Word} :
    Keeps (SameLists k) (fun _ => True) (processMalloc process size) := by
  have herr : ∀ ptr, Keeps (SameLists k) (fun _ => True)
      (processMallocOn.processMallocErr ptr) := fun ptr =>
    .bind keeps_sameLists_onStore fun _ _ _ _ _ => .pure _
  refine keeps_sameLists_onStore.bind fun _ ptr _ _ _ => .ite (fun _ => .pure _) fun _ => ?_
  refine .bind (fun k₁ hk => ⟨fun _ _ => trivial, fun p k' hrun => ?_⟩) fun _ p _ _ _ => ?_
  · rw [(run_readProcess.1 hrun).2.2]
    exact hk
  cases p.findFreeAllocationIndex with
  | none => exact herr ptr
  | some index =>
    refine .bind (fun k₁ hk => ⟨fun _ _ => trivial, fun r k' hrun => ?_⟩) fun _ r _ _ _ => ?_
    · obtain ⟨t, k₂, hread, hmap⟩ := Fallible.run_bind.1 hrun
      obtain ⟨-, -, rfl⟩ := run_readTask.1 hread
      split at hmap
      · exact absurd hmap Fallible.run_throw
      rw [Fallible.run_get_bind] at hmap
      obtain ⟨k₃, hset, hmap⟩ := Fallible.run_seq.1 hmap
      rw [Fallible.run_set] at hset
      rw [(Fallible.run_pure.1 hmap).2, hset]
      exact hk.trans ⟨rfl, rfl, rfl, rfl, rfl, rfl⟩
    · refine .ite (fun _ => herr ptr) fun _ => ?_
      exact keeps_sameLists_modifyProcess.bind fun _ _ _ _ _ => .pure _

/-- **`process_inject_arguments` leaves the lists.** -/
theorem keeps_sameLists_processInjectArguments {root : Word} :
    Keeps (SameLists k) (fun _ => True)
      (processInjectArguments fuel process root) := by
  have hcount : ∀ (fuel : ℕ) (current : Word) (i : ℤ),
      Keeps (SameLists k) (fun _ => True)
        (processCountCommandArgumentsLoop fuel current i) := by
    intro fuel
    induction fuel with
    | zero => exact fun _ _ => .throw trivial
    | succ fuel ih =>
      exact fun current i => .ite (fun _ => .pure _) fun _ =>
        keeps_sameLists_onStore.bind fun _ next _ _ _ => ih next _
  have hloop : ∀ (argv : Word) (fuel : ℕ) (current : Word) (i : ℕ),
      Keeps (SameLists k) (fun _ => True)
        (processInjectArgumentsLoop process argv fuel current i) := by
    intro argv fuel
    induction fuel with
    | zero => exact fun _ _ => .throw trivial
    | succ fuel ih =>
      refine fun current i => .ite (fun _ => .pure _) fun _ =>
        keeps_sameLists_processMalloc.bind fun _ argumentStr _ _ _ =>
          .ite (fun _ => .pure _) fun _ => ?_
      refine keeps_sameLists_onStore.bind fun _ _ _ _ _ => ?_
      refine keeps_sameLists_onStore.bind fun _ _ _ _ _ => ?_
      exact keeps_sameLists_onStore.bind fun _ next _ _ _ => ih next _
  refine .bind (hcount fuel root 0) fun _ argc _ _ _ => .ite (fun _ => .pure _) fun _ => ?_
  refine keeps_sameLists_processMalloc.bind fun _ argv _ _ _ => .ite (fun _ => .pure _) fun _ => ?_
  refine .bind (hloop argv fuel root 0) fun _ r _ _ _ => .ite (fun _ => .pure _) fun _ => ?_
  exact keeps_sameLists_modifyProcess.bind fun _ _ _ _ _ => .pure _

/-! ## The command -/

/-- **The command's load succeeds**: the caller's arguments are there, the
path is built, and `process_load_switch` answers with a process. -/
def CommandLoads (image : Sectors) (path : CharArray) (k : Kernel) : Prop :=
  ∃ item arguments path' r k', taskGetStackItem k.currentTask 0 k = .ok (item, k) ∧
    taskVirtualAddressToPhysical k.currentTask item k = .ok (arguments, k) ∧ arguments ≠ 0 ∧
    invokeSystemCommandPath path (fun i => k.store.mem (arguments + BitVec.ofNat 32 i)) =
      .ok path' ∧
    processLoadSwitch image (pathString path') k = .ok (r, k') ∧ 0 ≤ r.1

/-- **What a command that returns has done**: it has changed no list, or
its load has registered a process which is there still. -/
theorem isr80hCommand7_cases (h : CommandReady k)
    (hrun : isr80hCommand7InvokeSystemCommand image fuel path k = .ok (.returned res, k')) :
    (¬ CommandLoads image path k ∧ SameLists k k') ∨
      (CommandLoads image path k ∧ ∃ slot, k.processTable slot = 0 ∧ k'.processTable slot ≠ 0) := by
  unfold isr80hCommand7InvokeSystemCommand at hrun
  rw [Fallible.run_get_bind] at hrun
  obtain ⟨item, k₁, hitem, hrun⟩ := Fallible.run_bind.1 hrun
  obtain rfl := (taskGetStackItem_frame hitem).symm
  obtain ⟨arguments, k₂, harguments, hrun⟩ := Fallible.run_bind.1 hrun
  obtain rfl := (taskVirtualAddressToPhysical_frame harguments).symm
  by_cases h0 : arguments = 0
  · -- there are no arguments
    rw [if_pos h0] at hrun
    obtain ⟨-, rfl⟩ := Fallible.run_pure.1 hrun
    refine Or.inl ⟨?_, rfl, rfl, rfl, rfl, rfl, rfl⟩
    rintro ⟨_, _, -, -, -, hitem', harguments', hne, -⟩
    obtain ⟨rfl, -⟩ := Prod.mk.inj (Except.ok.inj (hitem.symm.trans hitem'))
    obtain ⟨rfl, -⟩ := Prod.mk.inj (Except.ok.inj (harguments.symm.trans harguments'))
    exact hne h0
  rw [if_neg h0, Fallible.run_get_bind] at hrun
  obtain ⟨len, k₃, hlen', hrun⟩ := Fallible.run_bind.1 hrun
  obtain ⟨hlen, hk₃⟩ := run_onArray.1 hlen'
  rw [if_neg (Nat.ne_of_gt (lt_of_strlenAt hlen))] at hrun
  obtain ⟨path', k₄, hpath', hrun⟩ := Fallible.run_bind.1 hrun
  obtain ⟨hpath, hk₄⟩ := run_onArray.1 hpath'
  rw [hk₄, hk₃] at hrun
  obtain ⟨r, k₅, hload, hrun⟩ := Fallible.run_bind.1 hrun
  have hreturns := processLoadSwitch_returns h hload
  by_cases hneg : r.1 < 0
  · -- the load fails
    rw [if_pos hneg] at hrun
    obtain ⟨-, rfl⟩ := Fallible.run_pure.1 hrun
    obtain ⟨hpos, -⟩ | ⟨-, hsame⟩ := hreturns
    · omega
    refine Or.inl ⟨?_, hsame⟩
    rintro ⟨_, _, _, _, _, hitem', harguments', -, hpath'', hload', hpos⟩
    obtain ⟨rfl, -⟩ := Prod.mk.inj (Except.ok.inj (hitem.symm.trans hitem'))
    obtain ⟨rfl, -⟩ := Prod.mk.inj (Except.ok.inj (harguments.symm.trans harguments'))
    obtain rfl := Except.ok.inj (hpath.symm.trans hpath'')
    obtain ⟨rfl, -⟩ := Prod.mk.inj (Except.ok.inj (hload.symm.trans hload'))
    omega
  · -- the injection fails, and the process stays in the table
    rw [if_neg hneg] at hrun
    obtain ⟨hpos, slot, process, hfree, hproc, htable⟩ | ⟨hneg', -⟩ := hreturns
    · obtain ⟨injected, k₆, hinject, hrun⟩ := Fallible.run_bind.1 hrun
      have hkept := (keeps_sameLists_processInjectArguments k₅ (.refl _)).2 _ _ hinject
      by_cases hfails : injected < 0
      · rw [if_pos hfails] at hrun
        obtain ⟨-, rfl⟩ := Fallible.run_pure.1 hrun
        refine Or.inr ⟨⟨item, arguments, path', r, k₅, hitem, harguments, h0, hpath, hload, hpos⟩,
          slot, hfree, ?_⟩
        rw [hkept.processTable, htable, Function.update_self]
        exact hproc
      · rw [if_neg hfails] at hrun
        obtain ⟨p, k₇, -, hrun⟩ := Fallible.run_bind.1 hrun
        obtain ⟨_, k₈, -, hrun⟩ := Fallible.run_bind.1 hrun
        exact absurd (Fallible.run_pure.1 hrun).1 nofun
    · omega

/-- **When a command that returns has changed no list**: exactly when its
load did not succeed. What comes after a load that did is not undone. -/
theorem isr80hCommand7_failsCleanly_iff (h : CommandReady k)
    (hrun : isr80hCommand7InvokeSystemCommand image fuel path k = .ok (.returned res, k')) :
    SameLists k k' ↔ ¬ CommandLoads image path k := by
  rcases isr80hCommand7_cases h hrun with ⟨hloads, hsame⟩ | ⟨hloads, slot, hfree, htaken⟩
  · exact iff_of_true hsame hloads
  · refine iff_of_false (fun hsame => htaken ?_) (not_not.2 hloads)
    rw [hsame.processTable]
    exact hfree

/-! ## A list that is not injected -/

section
variable {fat : FatPrivate} {record : FatDirectoryItem} {n j : ℕ} {root : Word} {nodes : List Word}

/-- The program `A` has the path `0:/A`. -/
theorem invokeSystemCommandPath_program {g : CharArray} (path : CharArray) (h0 : g 0 = 0x41)
    (h1 : g 1 = 0) : ∃ path', invokeSystemCommandPath path g = .ok path' ∧
      pathString path' = programPath := by
  obtain ⟨path₁, hroot, h₁⟩ := copyCharsLoop_eq osMaxPath 0 driveRoot 3 osMaxPath 0 path
    (by decide) rfl (by decide) (by decide)
  obtain ⟨path₂, hname, h₂⟩ := copyCharsLoop_eq osMaxPath 3 g 1 (osMaxPath - 1) 0 path₁
    (fun j hj => by
      obtain rfl : j = 0 := Nat.lt_one_iff.1 hj
      rw [h0]
      decide) h1 (by decide) (by decide)
  refine ⟨path₂, ?_, ?_⟩
  · unfold invokeSystemCommandPath strcpyArray strncpyArray
    rw [hroot]
    exact hname
  · have hrange : List.range osMaxPath = [0, 1, 2, 3, 4] ++ List.range' 5 103 := by decide
    have hchars : path₂ 0 = 0x30 ∧ path₂ 1 = colon ∧ path₂ 2 = slash ∧ path₂ 3 = 0x41 ∧
        path₂ 4 = 0 := by
      refine ⟨?_, ?_, ?_, ?_, ?_⟩
      · rw [h₂, if_neg (by decide), h₁, if_pos (by decide)]
        rfl
      · rw [h₂, if_neg (by decide), h₁, if_pos (by decide)]
        rfl
      · rw [h₂, if_neg (by decide), h₁, if_pos (by decide)]
        rfl
      · rw [h₂, if_pos (by decide)]
        exact h0
      · rw [h₂, if_pos (by decide)]
        exact h1
    obtain ⟨c0, c1, c2, c3, c4⟩ := hchars
    unfold pathString
    rw [hrange, List.map_append, List.map_cons, List.map_cons, List.map_cons, List.map_cons,
      List.map_cons, List.map_nil, c0, c1, c2, c3, c4]
    rfl

/-- **A caller of the program `A`** with a list of arguments, which is in a
block of the heap. -/
structure CallerReady (k : Kernel) (root : Word) (nodes : List Word) (j : ℕ) : Prop where
  command : CommandReady k
  item : taskGetStackItem k.currentTask 0 k = .ok (root, k)
  physical : taskVirtualAddressToPhysical k.currentTask root k = .ok (root, k)
  owns : k.store.heap.Owns root j
  objects : k.objects root = none
  list : ArgumentList k.store.mem root nodes
  inside : ∀ x, InNodes nodes x → InRange root (4096 * j) x
  name : k.store.mem root = 0x41 ∧ k.store.mem (root + 1) = 0

/-- The length of the caller's program name. -/
theorem CallerReady.strlenAt_eq (h : CallerReady k root nodes j) (hfuel : 2 ≤ fuel) :
    strlenAt k.store.mem root fuel 0 = .ok 2 := by
  obtain ⟨fuel, rfl⟩ : ∃ f, fuel = f + 2 := ⟨fuel - 2, by omega⟩
  have h0 : ¬ k.store.mem (root + BitVec.ofNat 32 0) = 0 := by
    rw [BitVec.add_zero, h.name.1]
    decide
  have h1 : k.store.mem (root + BitVec.ofNat 32 1) = 0 := h.name.2
  rw [strlenAt, if_neg h0, strlenAt, if_pos h1]

/-- **The command with 1024 arguments**: the program is loaded, and the
arguments are not injected. -/
theorem CallerReady.exists_returned (h : CallerReady k root nodes j)
    (hprogram : ProgramReady image k fat record n) (h0 : k.processTable 0 = 0)
    (hn : n + 2077 ≤ 25600) (hlen : 1024 ≤ nodes.length) (hmax : nodes.length ≤ 2 ^ 20)
    (hfuel : nodes.length + 1024 ≤ fuel) (path : CharArray) : ∃ res k',
      isr80hCommand7InvokeSystemCommand image fuel path k = .ok (.returned res, k') ∧
        CommandLoads image path k := by
  have hroot := h.owns.ne_zero h.command.list.ready
  obtain ⟨path', hpath, hstring⟩ := invokeSystemCommandPath_program path
    (g := fun i => k.store.mem (root + BitVec.ofNat 32 i))
    (by rw [BitVec.add_zero]; exact h.name.1) h.name.2
  obtain ⟨process, k₀, p, c, -, hload, hs⟩ := hprogram.exists_processLoadSwitch (N := 1024) h.command
    (show 0 < osMaxProcesses by decide) h0 (fun _ hj => absurd hj (Nat.not_lt_zero _)) (by omega)
  rw [← hstring] at hload
  obtain ⟨k₁, hk₁⟩ : ∃ k₁, k₁ = { k₀ with currentProcess := process } := ⟨_, rfl⟩
  have hstore : k₁.store = k₀.store := by rw [hk₁]
  have hobject : k₁.processes process = some p := by
    rw [hk₁]
    exact hs.object
  have hd : HasDirectory k₁ p.task c := by
    rw [hk₁]
    exact ⟨hs.directory.ready, hs.directory.ne_zero, hs.directory.object, hs.directory.mapped⟩
  rw [← hk₁] at hload
  obtain ⟨hown, hmem, hhas⟩ := hs.blocks root j h.owns h.objects
  rw [← hstore] at hown hmem
  -- the list is what it was, and in none of the new tables
  have hlist : ArgumentList k₁.store.mem root nodes := by
    refine h.list.congr_next fun node hnode => Mem.load32_congr fun x hx => hmem x (h.inside x
      ⟨node, hnode, ?_⟩)
    unfold InRange commandArgumentNextOffset at hx
    unfold InRange sizeofCommandArgument
    bv_omega
  have htables : ∀ x, InNodes nodes x → ¬ c.InTables x := by
    rintro x hx ⟨i, hi, hin⟩
    refine hown.disjoint (hd.mapped.owns _ (c.has_table hi)) hd.ready ?_ (h.inside x hx) hin
    rintro rfl
    exact hhas (c.has_table hi)
  have hsize : (vectorSize nodes.length).toNat = 4 * nodes.length := by
    unfold vectorSize
    rw [BitVec.toNat_ofNat]
    omega
  have hblocks : blocksFor (vectorSize nodes.length).toNat ≤ 1024 := by
    rw [hsize]
    unfold blocksFor
    omega
  obtain ⟨m, hagain, hle⟩ := hs.again
  have hroom : k₁.store.heap.Room m ∧ k₁.store.heap.total = 25600 := by
    rw [hstore]
    exact ⟨hagain.room.2, hagain.room.total⟩
  obtain ⟨argv, s, hz, -⟩ := kernelZalloc_of_room (vectorSize nodes.length) hd.ready hroom.1
    (by omega) (by omega) (by rw [hroom.2]; omega)
  obtain ⟨res, k₂, hinject, hneg⟩ := processInjectArguments_fails hs.ne_zero hobject hd
    hlist hlen hown h.inside htables hfuel hz
  refine ⟨errorPointer res, k₂, ?_, root, root, path', (0, process), k₁, h.item, h.physical, hroot,
    hpath, hload, le_refl 0⟩
  unfold isr80hCommand7InvokeSystemCommand
  rw [Fallible.run_get_bind]
  refine Fallible.run_bind.2 ⟨root, k, h.item, Fallible.run_bind.2 ⟨root, k, h.physical, ?_⟩⟩
  rw [if_neg hroot, Fallible.run_get_bind]
  refine Fallible.run_bind.2 ⟨2, k, run_onArray.2 ⟨h.strlenAt_eq (by omega), rfl⟩, ?_⟩
  rw [if_neg (by decide)]
  refine Fallible.run_bind.2 ⟨path', k, run_onArray.2 ⟨hpath, rfl⟩, ?_⟩
  refine Fallible.run_bind.2 ⟨(0, process), k₁, hload, ?_⟩
  rw [if_neg (lt_irrefl 0)]
  refine Fallible.run_bind.2 ⟨res, k₂, hinject, ?_⟩
  rw [if_pos hneg]
  rfl

end

/-! ## A volume with a program -/

/-- **An ELF header by itself**, in memory, is accepted. -/
theorem headerValid_elfImage (m : Mem) (base : Word) :
    HeaderValid (m.store base (elfImage [])) base ∧ elfPhnum (m.store base (elfImage [])) base = 0 := by
  have hlen : (elfImage []).length = 52 := by decide
  have hbyte : ∀ i < 52, m.store base (elfImage []) (base + BitVec.ofNat 32 i) =
      (elfImage []).getD i 0 := fun i hi => Mem.store_add (by omega) (by omega)
  -- the bytes a word is read from
  have hnext : ∀ (i : ℕ) (d : Word), i + d.toNat < 52 →
      m.store base (elfImage []) (base + BitVec.ofNat 32 i + d) = (elfImage []).getD (i + d.toNat) 0 := by
    intro i d hi
    rw [← hbyte (i + d.toNat) hi, BitVec.ofNat_add, BitVec.ofNat_toNat, BitVec.setWidth_eq,
      BitVec.add_assoc]
  refine ⟨⟨?_, Or.inr (hbyte 4 (by decide)), Or.inr (hbyte 5 (by decide)), ?_⟩, ?_⟩
  · unfold SignatureValid Mem.load
    rw [List.map_congr_left fun i hi => hbyte i (by have := List.mem_range.1 hi; omega)]
    rfl
  · unfold elfPhoff Mem.load32
    rw [show base + elfPhoffOffset = base + BitVec.ofNat 32 28 from rfl, hbyte 28 (by decide),
      hnext 28 1 (by decide), hnext 28 2 (by decide), hnext 28 3 (by decide)]
    decide
  · unfold elfPhnum Mem.load16
    rw [show base + elfPhnumOffset = base + BitVec.ofNat 32 44 from rfl, hbyte 44 (by decide),
      hnext 44 1 (by decide)]
    decide

/-- The record of the program `A`, of 52 bytes at cluster 2. -/
def programItem : FatDirectoryItem :=
  ⟨#[0x41, 0x20, 0x20, 0x20, 0x20, 0x20, 0x20, 0x20, 0x20, 0x20, 0x20, 0, 0, 0, 0, 0, 0, 0, 0, 0, 0,
    0, 0, 0, 0, 0, 2, 0, 52, 0, 0, 0], rfl⟩

/-- A volume with the program, which is an ELF header: its table says that
cluster 2, in sector 3, is the last of its file. -/
def programVolume : Sectors := fun lba i =>
  if lba = 1 then [0, 0, 0, 0, 0xFF, 0xFF].getD i 0
  else if lba = 3 then (elfImage []).getD i 0
  else smallVolume 1 16 (fun i => programItem.toList.getD i 0) lba i

theorem oneFile_programVolume : OneFile programVolume 1 programItem where
  header := by
    have hheader : volumeHeader (smallVolume 1 16 fun i => programItem.toList.getD i 0) =
        ⟨1, 1, 1, 16, 1, 0x29⟩ := volumeHeader_smallVolume
    have hsector : programVolume 0 = smallVolume 1 16 (fun i => programItem.toList.getD i 0) 0 := rfl
    exact (volumeHeader_congr hsector).trans hheader
  record j _ := rfl
  name := by decide
  ends := by decide

/-- Its bytes are read. -/
theorem read_programItem {fat : FatPrivate} (m : Mounted programVolume fat) :
    fat16ReadRecord programVolume fat programItem 0 programItem.filesize 1 =
      .ok (1, elfImage []) := by
  have hheader : fat.header = ⟨1, 1, 1, 16, 1, 0x29⟩ := m.header.trans oneFile_programVolume.header
  have hpos : fat.header.clusterPosition 2 = 1536 := by
    rw [hheader]
    decide
  have hsize : sizeOfClusterBytes fat.header = 512 := by
    rw [hheader]
    decide
  rw [fat16ReadRecord_within (c := 2) m.dataSector (by decide) (by decide) (by rw [hpos]; decide)
    (by decide) (by rw [hpos]; decide) (by rw [hsize]; decide), hpos]
  have hbytes : tabulate (fun i => byteAt programVolume
      (1536 + ((0 : Word).toNat + i : ℕ))) (programItem.filesize.toNat * (1 : Word).toNat) =
        elfImage [] := by
    rw [show programItem.filesize.toNat * (1 : Word).toNat = 52 by decide]
    decide
  rw [hbytes]
  rfl

/-- **It can be loaded** in any kernel the volume is mounted in. -/
theorem programReady_programVolume {fat : FatPrivate} {n : ℕ} (o : FsOwned k.fsState)
    (hroom : k.fsState.KernelRoom n) (hdisk : k.disk = ⟨some .fat16, some fat⟩)
    (m : Mounted programVolume fat)
    (hfind : fat16FindItemInDirectory programVolume fat.rootDirectory [0x41] =
      fat16NewFatItemForDirectoryItem programVolume programItem)
    (htable : ∀ i, k.fileDescriptors i = 0) : ProgramReady programVolume k fat programItem n :=
  ⟨o, hroom, hdisk, hfind, by decide, htable, by decide, 1, elfImage [], read_programItem m,
    by decide, by decide, by decide, headerValid_elfImage⟩

/-! ## A caller with 1024 arguments -/

section
variable {m m' : Mem} {root task x : Word} {c : ChunkView} {s : Store} {d : Disk}

/-- Four bytes of an address space that is the memory there. -/
theorem loadWordThrough_eq {space : AddressSpace} {ptr : Word}
    (h : ∀ x, InRange ptr 4 x → space s.mem x = some x) :
    loadWordThrough space ptr s = .ok (s.mem.load32 ptr, s) := by
  have hbyte : ∀ x, InRange ptr 4 x → loadByte space x s = .ok (s.mem x, s) := fun x hx =>
    run_loadByte.2 ⟨x, h x hx, rfl, rfl⟩
  unfold loadWordThrough
  rw [Fallible.bind_ok (hbyte ptr (by unfold InRange; bv_omega)),
    Fallible.bind_ok (hbyte (ptr + 1) (by unfold InRange; bv_omega)),
    Fallible.bind_ok (hbyte (ptr + 2) (by unfold InRange; bv_omega)),
    Fallible.bind_ok (hbyte (ptr + 3) (by unfold InRange; bv_omega))]
  refine Fallible.run_pure.2 ⟨?_, rfl⟩
  have h0 := (s.mem ptr).isLt
  have h1 := (s.mem (ptr + 1)).isLt
  have h2 := (s.mem (ptr + 2)).isLt
  apply BitVec.eq_of_toNat_eq
  rw [BitVec.toNat_append, BitVec.toNat_append, BitVec.toNat_append,
    ← Nat.shiftLeft_add_eq_or_of_lt h0, ← Nat.shiftLeft_add_eq_or_of_lt h1,
    ← Nat.shiftLeft_add_eq_or_of_lt h2]
  unfold Mem.load32
  have h3 := (s.mem (ptr + 3)).isLt
  simp only [BitVec.toNat_ofNat, Nat.shiftLeft_eq]
  omega

/-- The address behind a list of 1024 arguments. -/
abbrev callerStack (root : Word) : Word := root + BitVec.ofNat 32 (516 * 1024)

/-- A list of 1024 arguments at `root`, the first one the program `A`, and
behind it the stack of the caller, on top of which is `root`. -/
def callerMem (m : Mem) (root : Word) : Mem :=
  ((m.storeWords root (listWords root 1024)).store32 root 0x41).store32 (callerStack root) root

/-- The list is in its 130 blocks. -/
theorem inRange_of_callerNodes (hx : InNodes (listNodes root 0 1024) x) :
    InRange root (4096 * 130) x := by
  obtain ⟨node, hnode, hin⟩ := hx
  obtain ⟨i, hi, rfl⟩ := List.mem_map.1 hnode
  rw [List.mem_range'_1] at hi
  have hd : (x - (root + BitVec.ofNat 32 (516 * i))).toNat < 516 := hin
  have hx : x = root + BitVec.ofNat 32 (516 * i + (x - (root + BitVec.ofNat 32 (516 * i))).toNat) := by
    rw [BitVec.ofNat_add, BitVec.ofNat_toNat, BitVec.setWidth_eq, ← BitVec.add_assoc,
      BitVec.add_comm, BitVec.sub_add_cancel]
  rw [hx]
  exact (inRange_add (by omega)).2 (by omega)

/-- A word of the blocks is the one written. -/
theorem load32_of_callerMem {i : ℕ} (hm : ∀ x, InRange root (4096 * 130) x → m' x = callerMem m root x)
    (hi : i + 4 ≤ 4096 * 130) :
    m'.load32 (root + BitVec.ofNat 32 i) = (callerMem m root).load32 (root + BitVec.ofNat 32 i) := by
  refine Mem.load32_congr fun x hx => hm x ?_
  unfold InRange at hx ⊢
  bv_omega

/-- **The list, the name and the stack** are read back. -/
theorem argumentList_callerMem (h0 : 0 < root.toNat) (hfit : root.toNat + 4096 * 130 ≤ 2 ^ 32)
    (hm : ∀ x, InRange root (4096 * 130) x → m' x = callerMem m root x) :
    ArgumentList m' root (listNodes root 0 1024) ∧ m' root = 0x41 ∧ m' (root + 1) = 0 ∧
      m'.load32 (callerStack root) = root := by
  have hlist := argumentList_listWords root h0 (n := 1024) (by omega) m (d := 1024) (i := 0)
    (Nat.zero_add _)
  rw [if_neg (by decide), Nat.mul_zero, BitVec.add_zero] at hlist
  -- the first word of the list is the name
  have hout : ∀ j, j + 4 ≤ 516 * 1024 → (callerMem m root).load32 (root + BitVec.ofNat 32 j) =
      ((m.storeWords root (listWords root 1024)).store32 (root + BitVec.ofNat 32 0) 0x41).load32
        (root + BitVec.ofNat 32 j) := by
    intro j hj
    rw [BitVec.add_zero]
    exact Mem.load32_store32_add (by omega) (by omega) (Or.inr hj)
  have hname : m'.load32 (root + BitVec.ofNat 32 0) = 0x41 := by
    rw [load32_of_callerMem hm (by decide), hout 0 (by decide), Mem.load32_store32_self]
  rw [BitVec.add_zero] at hname
  refine ⟨hlist.congr_next fun node hnode => ?_, ?_, ?_, ?_⟩
  · obtain ⟨i, hi, rfl⟩ := List.mem_map.1 hnode
    rw [List.mem_range'_1] at hi
    have haddr : root + BitVec.ofNat 32 (516 * i) + BitVec.ofNat 32 commandArgumentNextOffset =
        root + BitVec.ofNat 32 (516 * i + 512) := by
      rw [BitVec.add_assoc, ← BitVec.ofNat_add]
      rfl
    rw [haddr, load32_of_callerMem hm (by omega), hout _ (by omega)]
    exact Mem.load32_store32_add (by omega) (by omega) (Or.inl (by omega))
  · have hbyte := Mem.setWidth_load32 (m := m') (a := root)
    rw [hname] at hbyte
    exact hbyte.symm
  · have hbyte := Mem.bytes32_load32 (m := m') (a := root) (x := root + 1) (by
      unfold InRange
      bv_omega)
    rw [hname, show (root + 1 - root).toNat = 1 by bv_omega] at hbyte
    exact hbyte.symm
  · rw [load32_of_callerMem hm (by decide), callerMem, Mem.load32_store32_self]

/-- A kernel with one task and a disk. -/
def callerKernel (d : Disk) (s : Store) (task chunk esp : Word) : Kernel := { bootKernel with
  store := s
  tasks := fun q => if q = task then
    some { Task.zero with pageDirectory := chunk, registers := { Registers.zero with esp := esp } }
    else none
  taskHead := task
  taskTail := task
  currentTask := task
  disk := d }

/-- Its lists are in order. -/
theorem commandReady_callerKernel {chunk esp : Word} (r : s.heap.Ready)
    (ht : ∃ j, s.heap.Owns task j) : CommandReady (callerKernel d s task chunk esp) := by
  have htask : task ≠ 0 := ht.elim fun _ hj => hj.ne_zero r
  have hself : (callerKernel d s task chunk esp).tasks task = some { Task.zero with
      pageDirectory := chunk
      registers := { Registers.zero with esp := esp } } := if_pos rfl
  refine ⟨⟨r, fun q t hq => ?_, fun h0 => absurd h0 htask, fun _ => ⟨_, hself⟩,
    fun _ => ⟨_, hself, rfl⟩, fun _ => ⟨_, hself⟩⟩, ?_, fun _ _ _ => rfl⟩
  · by_cases he : q = task
    · exact he ▸ ht
    · have hnone : (callerKernel d s task chunk esp).tasks q = none := if_neg he
      rw [hnone] at hq
      cases hq
  · refine ⟨r, fun q hq => absurd rfl hq, fun q x hx => ?_, fun q q' x x' hx => ?_⟩
    · cases hx
    · cases hx

/-- **Its task has the list as its argument**, through the identity map. -/
theorem callerReady_callerKernel (r : s.heap.Ready) (ht : ∃ j, s.heap.Owns task j)
    (hroot : s.heap.Owns root 130) (hat : c.At s) (hpresent : c.Present s.mem)
    (hentry : ∀ page, page < 2 ^ 20 → c.entry s.mem page = identityEntry 5 page)
    (hm : ∀ x, InRange root (4096 * 130) x → s.mem x = callerMem m root x) :
    CallerReady (callerKernel d s task c.chunk (callerStack root)) root (listNodes root 0 1024)
      130 := by
  have hfit := hroot.toNat_add_le r
  have h0 : 0 < root.toNat := by
    have hne := hroot.ne_zero r
    bv_omega
  obtain ⟨hlist, hname, hnul, hstack⟩ := argumentList_callerMem h0 hfit hm
  have hread := run_readTask.2 ⟨ht.elim fun _ hj => hj.ne_zero r,
    show (callerKernel d s task c.chunk (callerStack root)).tasks task = some _ from if_pos rfl, rfl⟩
  have hidentity : ∀ x, taskSpace (s.mem.load32 c.chunk) s.mem x = some x := by
    intro x
    rw [hat.directory_eq]
    obtain ⟨y, hy⟩ := hat.exists_taskSpace hpresent x
    rw [hy, hat.eq_physical hy, ChunkView.physical_identity (hentry _ (ChunkView.At.page_lt x))]
  refine ⟨commandReady_callerKernel r ht, ?_, ?_, hroot, rfl, hlist, fun x => inRange_of_callerNodes,
    hname, hnul⟩
  · refine Fallible.run_bind.2 ⟨_, _, hread, Fallible.run_bind.2 ⟨s.mem.load32 c.chunk, _,
      run_onStore.2 ⟨s, run_loadWord.2 ⟨(hat.owns _ c.has_chunk).ne_zero r, ?_, rfl⟩, rfl⟩,
      run_onStore.2 ⟨s, (loadWordThrough_eq fun x _ => hidentity x).trans ?_, rfl⟩⟩⟩
    · exact congrArg s.mem.load32 (BitVec.add_zero c.chunk).symm
    · have hesp : callerStack root + BitVec.ofNat 32 (4 * 0) = callerStack root := BitVec.add_zero _
      change Except.ok (s.mem.load32 (callerStack root + BitVec.ofNat 32 (4 * 0)), s) = _
      rw [hesp, hstack]
  · refine Fallible.run_bind.2 ⟨_, _, hread, ?_⟩
    rw [Fallible.run_get_bind]
    refine Fallible.run_pure.2 ⟨?_, rfl⟩
    exact ((hat.agrees hentry).physical_identity root).symm

/-- **A caller with 1024 arguments**, after a volume is accepted. -/
theorem exists_callerReady {s₀ : FsState} {n : ℕ} (h : s₀.Untouched n) (hn : n ≤ 6) :
    ∃ s task chunk root, CallerReady (callerKernel s₀.disk s task chunk (callerStack root)) root
      (listNodes root 0 1024) 130 ∧ kernelHeapInit.SamePlace s.heap ∧ s.heap.Room 1163 := by
  have r₀ := h.1.ready
  have htotal₀ := h.1.total
  have h130 : blocksFor (0x81004 : Word).toNat = 130 := by decide
  have h1 : blocksFor sizeofTask.toNat = 1 := by decide
  obtain ⟨root, s₁, hz₁, h0₁, hp₁, hroom₁⟩ := kernelZalloc_of_room 0x81004 r₀ h.1.2 (by decide)
    (by decide) (by rw [h130]; omega)
  obtain ⟨-, hown₁, -⟩ := kernelZalloc_spec r₀ (by decide) (by decide) hz₁ h0₁
  rw [h130] at hown₁ hroom₁
  -- the list and the stack are written
  obtain ⟨s₂, hs₂⟩ : ∃ s₂ : Store, s₂ = ⟨s₁.heap, callerMem s₁.mem root⟩ := ⟨_, rfl⟩
  have hheap₂ : s₂.heap = s₁.heap := by rw [hs₂]
  have hmem₂ : s₂.mem = callerMem s₁.mem root := by rw [hs₂]
  rw [← hheap₂] at hown₁ hroom₁ hp₁
  have r₂ := hp₁.ready r₀
  have htotal₂ : s₂.heap.total = 25600 := hp₁.total.trans htotal₀
  obtain ⟨task, s₃, hz₃, h0₃, hp₃, hroom₃⟩ := kernelZalloc_of_room sizeofTask r₂ hroom₁ (by decide)
    (by decide) (by rw [h1, htotal₂]; omega)
  obtain ⟨hext₃, hown₃, -⟩ := kernelZalloc_spec r₂ (by decide) (by decide) hz₃ h0₃
  rw [h1] at hroom₃
  have htotal₃ : s₃.heap.total = 25600 := hp₃.total.trans htotal₂
  obtain ⟨chunk, s₄, hnew, j, hroom₄, hj⟩ := pagingNew4gb_of_budget budget_room 5 (n := 24437)
    (hp₃.ready r₂) ⟨_, hroom₃, by rw [htotal₃]; omega⟩
  obtain ⟨-, -, -, hext₄, -⟩ := pagingNew4gb_spec (hp₃.ready r₂) hnew
  obtain ⟨c, rfl, hat, hpresent, hentry⟩ := pagingNew4gb_present (hp₃.ready r₂) rfl hnew
  have hext := hext₃.trans hext₄
  have htotal₄ : s₄.heap.total = 25600 := hext.place.total.trans htotal₂
  refine ⟨s₄, task, c.chunk, root, ?_, (h.1.1.trans hp₁).trans hext.place, fun i hi hlt => ?_⟩
  · exact callerReady_callerKernel (hext.ready r₂) ⟨_, hext₄.owns _ _ hown₃⟩
      (hext.owns _ _ hown₁) hat hpresent hentry fun x hx => (hext.mem _ _ hown₁ x hx).trans
        (congrFun hmem₂ x)
  · exact hroom₄ i (by omega) hlt

/-- **A command whose arguments are not injected**: 1024 of them, on a
volume with their program. -/
theorem exists_not_injected : ∃ (k k' : Kernel) (res : Word), CommandReady k ∧
    isr80hCommand7InvokeSystemCommand programVolume 2048 (fun _ => 0) k = .ok (.returned res, k') ∧
      CommandLoads programVolume (fun _ => 0) k := by
  obtain ⟨s₀, fat, n, -, hn, huntouched, hdisk, hmounted, hfind⟩ :=
    oneFile_programVolume.exists_resolved
  obtain ⟨s, task, chunk, root, h, hplace, hroom⟩ := exists_callerReady huntouched hn
  have hlen : (listNodes root 0 1024).length = 1024 := by
    unfold listNodes
    rw [List.length_map, List.length_range']
  have hprogram : ProgramReady programVolume
      (callerKernel s₀.disk s task chunk (callerStack root)) fat programItem 1163 :=
    programReady_programVolume h.command.files ⟨hplace, hroom⟩ hdisk hmounted hfind fun _ => rfl
  obtain ⟨res, k', hrun, hloads⟩ := h.exists_returned hprogram rfl (by decide)
    (Nat.le_of_eq hlen.symm) (by rw [hlen]; decide) (Nat.le_of_eq (congrArg (· + 1024) hlen))
    fun _ => 0
  exact ⟨_, k', res, h.command, hrun, hloads⟩

end

/-- The command with these arguments. -/
theorem isr80hCommand7_failsCleanly_program : ∃ (k k' : Kernel) (res : Word),
    isr80hCommand7InvokeSystemCommand programVolume 2048 (fun _ => 0) k = .ok (.returned res, k') ∧
      (SameLists k k' ↔ ¬ CommandLoads programVolume (fun _ => 0) k) := by
  obtain ⟨k, k', res, hready, hrun, -⟩ := exists_not_injected
  exact ⟨k, k', res, hrun, isr80hCommand7_failsCleanly_iff hready hrun⟩

/-- **The process of a command that has failed** is registered. -/
theorem isr80hCommand7_not_failsCleanly :
    ¬ ∀ (image : Sectors) (fuel : ℕ) (path : CharArray) (k k' : Kernel) (res : Word),
      CommandReady k →
        isr80hCommand7InvokeSystemCommand image fuel path k = .ok (.returned res, k') →
          SameLists k k' := by
  intro hall
  obtain ⟨k, k', res, hready, hrun, hloads⟩ := exists_not_injected
  have hsame := hall _ _ _ _ _ _ hready hrun
  rcases isr80hCommand7_cases hready hrun with ⟨hnot, -⟩ | ⟨-, slot, hfree, htaken⟩
  · exact hnot hloads
  · rw [hsame.processTable] at htaken
    exact htaken hfree

end OwnKernel
