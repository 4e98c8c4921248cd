import OwnKernel.Process.Injected
import OwnKernel.System.Holdings

/-!
# Memory asked for and given back

`process_malloc` and `process_free` of one process, in a system of
processes: the blocks of the others are spared, and the process keeps its
blocks in order (`SystemInv.malloc`, `SystemInv.free`). A size of 0 is
left out, for which the heap answers a block that stays free.
-/

namespace OwnKernel

variable {K R : Set Word} {k k' : Kernel} {c : ChunkView} {process ptr size q : Word} {p : Process}
variable {procs procs' : ℕ → Process} {view view' : ℕ → ChunkView} {page i j n : ℕ}

/-- **What a call for slot `i` has done**: the system is in order, the
blocks of the other slots are spared, with the registers of the tasks in
`R`, and these slots have the processes and the directories they had. -/
structure CallFor (R K : Set Word) (i : ℕ) (k k' : Kernel) (procs procs' : ℕ → Process)
    (view view' : ℕ → ChunkView) : Prop where
  inv : SystemInv K k' procs' view'
  spares : Spares R (BlocksOf K k procs view {j | j ≠ i}) k k'
  table : ∀ j, j ≠ i → k'.processTable j = k.processTable j
  procs : ∀ j, j ≠ i → procs' j = procs j
  view : ∀ j, j ≠ i → view' j = view j

/-- Where all blocks are spared and the table is the same. -/
theorem SystemInv.callFor_of_spared (s : SystemInv K k procs view) (i : ℕ)
    (a : Spares R (BlocksOf K k procs view Set.univ) k k') (htable : k'.processTable = k.processTable)
    (hcurrent : k'.currentProcess = k.currentProcess) :
    CallFor R K i k k' procs procs view view :=
  ⟨s.spared a htable hcurrent, a.mono (BlocksOf.mono (Set.subset_univ _)), fun _ _ => by rw [htable],
    fun _ _ => rfl, fun _ _ => rfl⟩

/-- Where the slot has a process still. -/
theorem SystemInv.callFor (s : SystemInv K k procs view)
    (a : Spares R (BlocksOf K k procs view {j | j ≠ i}) k k')
    (htable : ∀ j, j ≠ i → k'.processTable j = k.processTable j)
    (hcurrent : k'.currentProcess = 0 ∨
      ∃ j < osMaxProcesses, k'.processTable j ≠ 0 ∧ k'.processTable j = k'.currentProcess)
    (hslot : k'.processTable i ≠ 0 → SlotInv k' i p c ∧
      ∀ x h, Held k' (k'.processTable i) p c x h → x ∉ BlocksOf K k procs view {j | j ≠ i}) :
    CallFor R K i k k' procs (Function.update procs i p) view (Function.update view i c) :=
  ⟨s.step a htable hcurrent hslot, a, htable, fun _ hne => Function.update_of_ne hne ..,
    fun _ hne => Function.update_of_ne hne ..⟩

namespace CallFor

variable {k₁ : Kernel} {procs₁ : ℕ → Process} {view₁ : ℕ → ChunkView}

/-- The blocks of the other slots are still theirs. -/
theorem blocksOf_subset (a : CallFor R K i k k' procs procs' view view') :
    BlocksOf K k procs view {j | j ≠ i} ⊆ BlocksOf K k' procs' view' {j | j ≠ i} := by
  rintro x (hx | ⟨j, hj, hne, h0, h, hx⟩)
  · exact Or.inl hx
  have hmemory : k'.programMemory (procs j) = k.programMemory (procs j) :=
    programMemory_congr fun helf => a.spares.elfFiles _ (Or.inr ⟨j, hj, hne, h0, _, .elfFile helf⟩)
  refine Or.inr ⟨j, hj, hne, by rwa [a.table j hne], h, ?_⟩
  rw [a.table j hne, a.procs j hne, a.view j hne]
  exact hx.congr hmemory

/-- One call after another. -/
theorem trans (a : CallFor R K i k k₁ procs procs₁ view view₁)
    (b : CallFor R K i k₁ k' procs₁ procs' view₁ view') : CallFor R K i k k' procs procs' view view' where
  inv := b.inv
  spares := a.spares.trans (b.spares.mono a.blocksOf_subset)
  table j hne := (b.table j hne).trans (a.table j hne)
  procs j hne := (b.procs j hne).trans (a.procs j hne)
  view j hne := (b.view j hne).trans (a.view j hne)

end CallFor

/-! ## Pages -/

/-- A page of an allocation that is mapped to itself. -/
theorem add_pageOffset (hq : q.toNat % 4096 = 0) (hle : q.toNat / 4096 ≤ page)
    (hp : page < 2 ^ 20) :
    q + BitVec.ofNat 32 (4096 * pageOffset q page) = BitVec.ofNat 32 (4096 * page) := by
  have hoff : pageOffset q page = page - q.toNat / 4096 := by
    unfold pageOffset
    have hlt := q.isLt
    omega
  apply BitVec.eq_of_toNat_eq
  rw [BitVec.toNat_add, BitVec.toNat_ofNat, BitVec.toNat_ofNat, hoff]
  have hlt := q.isLt
  omega

/-- The address of a page, with flags that do not reach it. -/
theorem pageAddress_or_and_addressMask :
    (BitVec.ofNat 32 (4096 * page) ||| userWriteableFlags) &&& pagingAddressMask =
      BitVec.ofNat 32 (4096 * page) := by
  refine or_flags_and_addressMask ?_ (by decide)
  rw [BitVec.toNat_ofNat]
  omega

/-- A page's address is in the block that has the page. -/
theorem inRange_pageAddress_iff (hq : q.toNat % 4096 = 0) (hfits : q.toNat + 4096 * n ≤ 2 ^ 32)
    (hp : page < 2 ^ 20) : InRange q (4096 * n) (BitVec.ofNat 32 (4096 * page)) ↔
      q.toNat / 4096 ≤ page ∧ page < q.toNat / 4096 + n := by
  have hlt := q.isLt
  have haddr : (BitVec.ofNat 32 (4096 * page) : Word).toNat = 4096 * page := by
    rw [BitVec.toNat_ofNat]
    omega
  unfold InRange
  rw [BitVec.toNat_sub, haddr]
  omega

/-! ## `process_malloc` -/

/-- The records of a process with a new one. -/
theorem Process.record_cases {motive : ProcessAllocation → Prop} (m : ℕ) (hself : motive ⟨q, size⟩)
    (hother : m ≠ j → motive (p.allocations m)) : motive ((p.record j q size).allocations m) := by
  by_cases hmj : m = j
  · rw [hmj, Process.record_self]
    exact hself
  · rw [Process.record_of_ne hmj]
    exact hother hmj

/-- What is held with a new record. -/
theorem held_of_record (hmemory : k'.programMemory p = k.programMemory p) {x : Word} {h : Holding}
    (hx : Held k' process (p.record j q size) c x h) :
    Held k process p c x h ∨ (x = q ∧ h = .record) := by
  cases hx with
  | process => exact Or.inl .process
  | elfFile helf => exact Or.inl (.elfFile helf)
  | image =>
    have himage : Held k process p c (k.programMemory p) .image := .image
    rw [← hmemory] at himage
    exact Or.inl himage
  | stack => exact Or.inl .stack
  | task => exact Or.inl .task
  | table hin => exact Or.inl (.table hin)
  | @record m hm h0 =>
    by_cases hmj : m = j
    · rw [hmj, Process.record_self]
      exact Or.inr ⟨rfl, rfl⟩
    · rw [Process.record_of_ne hmj] at h0 ⊢
      exact Or.inl (.record hm h0)

/-- What was held is held with a new record. -/
theorem Held.record_new (hj0 : (p.allocations j).ptr = 0) (hmemory : k'.programMemory p =
    k.programMemory p) {x : Word} {h : Holding} (hx : Held k process p c x h) :
    Held k' process (p.record j q size) c x h := by
  cases hx with
  | process => exact .process
  | elfFile helf => exact .elfFile helf
  | image =>
    have himage : Held k' process (p.record j q size) c (k'.programMemory p) .image := .image
    rwa [hmemory] at himage
  | stack => exact .stack
  | task => exact .task
  | table hin => exact .table hin
  | @record m hm h0 =>
    have hmj : m ≠ j := by
      rintro rfl
      exact h0 hj0
    have hsame : (p.record j q size).allocations m = p.allocations m := Process.record_of_ne hmj
    rw [← hsame] at h0 ⊢
    exact .record hm h0

/-- The new record is held. -/
theorem Held.record_self (hj : j < osMaxProgramAllocations) (hq : q ≠ 0) :
    Held k process (p.record j q size) c q .record := by
  have hself : ((p.record j q size).allocations j).ptr = q := by
    rw [Process.record_self]
  have hrec : Held k process (p.record j q size) c ((p.record j q size).allocations j).ptr .record :=
    .record hj (by rwa [hself])
  rwa [hself] at hrec

/-- Records with a new allocation. -/
theorem Process.RecordsOwned.record {h : Heap} (r : p.RecordsOwned h) (hq : q ≠ 0)
    (ho : h.Owns q (blocksFor size.toNat)) (hfits : q.toNat + 4096 * blocksFor size.toNat < 2 ^ 32)
    (hnew : ∀ m < osMaxProgramAllocations, (p.allocations m).ptr ≠ q) :
    (p.record j q size).RecordsOwned h := by
  refine ⟨fun m hm => ?_, fun m hm => ?_, fun m hm => ?_, fun m hm m' hm' => ?_⟩
  · exact p.record_cases (motive := fun a => a.ptr = 0 → a = ⟨0, 0⟩) m (fun hz => absurd hz hq)
      fun _ => r.empty m hm
  · exact p.record_cases (motive := fun a => a.ptr ≠ 0 → h.Owns a.ptr (blocksFor a.size.toNat)) m
      (fun _ => ho) fun _ => r.owns m hm
  · exact p.record_cases
      (motive := fun a => a.ptr ≠ 0 → a.ptr.toNat + 4096 * blocksFor a.size.toNat < 2 ^ 32) m
      (fun _ => hfits) fun _ => r.fits m hm
  · by_cases hmj : m = j <;> by_cases hmj' : m' = j
    · exact fun _ _ => hmj.trans hmj'.symm
    · rw [hmj, Process.record_self, Process.record_of_ne hmj']
      exact fun _ he => absurd he.symm (hnew m' hm')
    · rw [hmj', Process.record_self, Process.record_of_ne hmj]
      exact fun _ he => absurd he (hnew m hm)
    · rw [Process.record_of_ne hmj, Process.record_of_ne hmj']
      exact r.distinct m hm m' hm'

/-- **A block is mapped and recorded**: `k₁` is the kernel after the
mapping. -/
theorem SlotInv.record {k₁ : Kernel} (s : SlotInv k i p c) (hj : j < osMaxProgramAllocations)
    (hj0 : (p.allocations j).ptr = 0) (ho : k.store.heap.Owns q (blocksFor size.toNat))
    (hfits : q.toNat + 4096 * blocksFor size.toNat < 2 ^ 32)
    (hnew : ∀ x h, Held k (k.processTable i) p c x h → x ≠ q) (hobject : k.objects q = none)
    (hout : TablesOnly c k k₁) (hd : HasDirectory k₁ p.task c)
    (hentry : ∀ page, page < 2 ^ 20 → c.entry k₁.store.mem page =
      PageMap.mapTo (c.entry k.store.mem) q q (pagingAlignAddress (q + size)) userWriteableFlags
        page) :
    SlotInv (k₁.setProcess (k.processTable i)
        (some (p.record j q size))) i (p.record j q size) c := by
  have hr := s.directory.ready
  have hq0 := ho.ne_zero hr
  have hal := ho.aligned hr
  obtain ⟨k₂, hk₂⟩ : ∃ k₂, k₂ = k₁.setProcess (k.processTable i) (some (p.record j q size)) :=
    ⟨_, rfl⟩
  have htable : k₂.processTable i = k.processTable i := by
    rw [hk₂]
    change k₁.processTable i = _
    rw [hout.state]
  have hheap : k₂.store.heap = k.store.heap := by
    rw [hk₂]
    exact hout.heap
  have hmemory : k₂.programMemory p = k.programMemory p := by
    refine programMemory_congr fun _ => ?_
    rw [hk₂]
    change k₁.elfFiles p.ptr = _
    rw [hout.elfFiles]
  have hobjects : k₂.objects = k.objects := by
    rw [hk₂]
    change k₁.objects = _
    rw [hout.state]
  have hheld : ∀ x h, Held k₂ (k₂.processTable i) (p.record j q size) c x h →
      Held k (k.processTable i) p c x h ∨ (x = q ∧ h = .record) := by
    intro x h hx
    rw [htable] at hx
    exact held_of_record hmemory hx
  -- pages of the block, and the others
  have hmapped : ∀ page < 2 ^ 20, c.entry k₂.store.mem page =
      if q.toNat / 4096 ≤ page ∧ page < q.toNat / 4096 + blocksFor size.toNat then
        BitVec.ofNat 32 (4096 * page) ||| userWriteableFlags
      else c.entry k.store.mem page := by
    intro page hpage
    have heq : c.entry k₂.store.mem page = c.entry k₁.store.mem page := by rw [hk₂]; rfl
    rw [heq, hentry page hpage, mapTo_allocation _ _ hal hfits hpage]
    by_cases hin : q.toNat / 4096 ≤ page ∧ page < q.toNat / 4096 + blocksFor size.toNat
    · rw [if_pos hin, if_pos hin, add_pageOffset hal hin.1 hpage]
    · rw [if_neg hin, if_neg hin]
  rw [← hk₂]
  refine ⟨by rw [htable]; exact s.ne_zero, ?_, s.id, ?_, fun x h hx => ?_, fun x h h' hx hx' => ?_,
    ?_, fun page hpage hw => ?_, fun m hm page hcov => ?_, ?_, ?_⟩
  · rw [htable, hk₂]
    exact setProcess_processes_self
  · rw [hk₂]
    exact ⟨hd.ready, hd.ne_zero, hd.object, hd.mapped⟩
  · rw [hheap, hobjects]
    obtain hold | ⟨rfl, -⟩ := hheld x h hx
    · exact s.owned x h hold
    · exact ⟨⟨_, ho⟩, hobject⟩
  · obtain hold | ⟨rfl, hrec⟩ := hheld x h hx
    · obtain hold' | ⟨rfl, -⟩ := hheld x h' hx'
      · exact s.distinct x h h' hold hold'
      · exact absurd rfl (hnew _ _ hold)
    · obtain hold' | ⟨-, hrec'⟩ := hheld x h' hx'
      · exact absurd rfl (hnew _ _ hold')
      · exact hrec.trans hrec'.symm
  · rw [hheap]
    exact s.records.record hq0 ho hfits fun m hm he => by
      have h0 : (p.allocations m).ptr ≠ 0 := he ▸ hq0
      exact hnew _ _ (.record hm h0) he
  · rw [hmapped page hpage] at hw ⊢
    by_cases hin : q.toNat / 4096 ≤ page ∧ page < q.toNat / 4096 + blocksFor size.toNat
    · rw [if_pos hin, pageAddress_or_and_addressMask]
      refine ⟨q, .record, blocksFor size.toNat, ?_, Or.inr (Or.inr rfl), ?_, ?_, fun _ => rfl⟩
      · rw [htable]
        exact .record_self hj hq0
      · rw [hheap]
        exact ho
      · exact (inRange_pageAddress_iff hal hfits.le hpage).2 hin
    · rw [if_neg hin] at hw ⊢
      obtain ⟨x, h, n, hx, hgiven, hn, hframe, hrec⟩ := s.writeable page hpage hw
      refine ⟨x, h, n, ?_, hgiven, by rw [hheap]; exact hn, hframe, hrec⟩
      rw [htable]
      exact hx.record_new hj0 hmemory
  · by_cases hmj : m = j
    · rw [hmj, Process.record_self] at hcov
      have hpage : page < 2 ^ 20 := by
        have hlt := hcov.2.2
        simp only at hlt
        omega
      rw [hmapped page hpage, if_pos ⟨hcov.2.1, hcov.2.2⟩]
    · rw [Process.record_of_ne hmj] at hcov
      have hpage := s.lt_of_covers hm hcov
      rw [hmapped page hpage, if_neg]
      · exact s.granted m hm page hcov
      · rintro ⟨hle, hlt⟩
        refine (s.records.owns m hm hcov.1).pages_disjoint ho hr ?_ hcov.2.1 hcov.2.2 hle hlt
        exact hnew _ _ (.record hm hcov.1)
  · have hopened := s.opened.tables s.directory.mapped hr hout
    rw [hk₂]
    exact hopened
  · have htasks : k₂.tasks = k.tasks := by
      rw [hk₂]
      change k₁.tasks = _
      rw [hout.state]
    rw [htable, htasks]
    exact s.task

/-- **`process_malloc`**, when a byte is asked for. -/
theorem SystemInv.malloc (s : SystemInv K k procs view) (hi : i < osMaxProcesses)
    (h0 : k.processTable i ≠ 0) (hpos : 0 < size.toNat)
    (hrun : processMalloc (k.processTable i) size k = .ok (ptr, k')) :
    ∃ procs' view', CallFor R K i k k' procs procs' view view' ∧ k'.processTable = k.processTable := by
  have hs := s.slot i hi h0
  have hr := s.files.ready
  obtain ⟨q, st, hz, hcases⟩ := processMalloc_outcome hs.directory.exists_task hs.object hrun
  rcases kernelZalloc_of_pos hr hpos hz with ⟨rfl, rfl⟩ | ⟨hq0, hsize⟩
  · obtain ⟨-, -, rfl⟩ | ⟨-, hne, -⟩ | ⟨-, hne, -⟩ := hcases
    · exact ⟨procs, view, s.callFor_of_spared i (s.spares_refl R _) rfl rfl, rfl⟩
    · exact absurd rfl hne
    · exact absurd rfl hne
  obtain ⟨hext, ho, hfresh, -⟩ := kernelZalloc_spec hr hpos hsize hz hq0
  have hobject : k.objects q = none := s.files.objects_of_fresh hfresh
  have a := (s.spares_refl R Set.univ).extends_ hext
  rcases hcases with ⟨-, hnull, -⟩ | ⟨-, -, rfl⟩ | ⟨-, -, hvalid, index, k₁, hfind, hmap, rfl⟩
  · exact absurd hnull hq0
  · -- on an error the blocks are given back
    refine ⟨procs, view, s.callFor_of_spared i ?_ rfl rfl, rfl⟩
    exact (s.spares_refl R _).extends_ (hext.free hr hfresh ho)
  · have s₁ : SystemInv K { k with store := st } procs view := s.spared a rfl rfl
    have hs₁ : SlotInv { k with store := st } i (procs i) (view i) := s₁.slot i hi h0
    obtain ⟨k₂, hmap', hout, hd, hentry⟩ := hs₁.directory.taskMapTo_eq q q
      (pagingAlignAddress (q + size)) userWriteableFlags (f := (view i).entry st.mem) fun _ _ => rfl
    rw [hmap] at hmap'
    obtain ⟨-, rfl⟩ := Prod.mk.inj (Except.ok.inj hmap')
    obtain ⟨hj, hj0⟩ := AllocInv.of_findAllocation hfind
    have hr₁ := hext.ready hr
    have hfits : q.toNat + 4096 * blocksFor size.toNat < 2 ^ 32 := by
      refine lt_of_le_of_ne (ho.toNat_add_le hr₁) fun htop => ?_
      have hne : q.toNat ≠ 0 := fun hz => hq0 (BitVec.eq_of_toNat_eq hz)
      exact not_validRange_top (ho.aligned hr₁) (Nat.pos_of_ne_zero hne) htop hvalid
    have hnew : ∀ x h, Held { k with store := st } (k.processTable i) (procs i) (view i) x h →
        x ≠ q := by
      rintro x h hx rfl
      obtain ⟨⟨n, hn⟩, -⟩ := hs.owned x h (hx.congr rfl)
      exact hfresh n hn
    have hslot := hs₁.record hj hj0 ho hfits hnew hobject hout hd hentry
    have htable : k₁.processTable = k.processTable := by rw [hout.state]
    have hown : ∀ x h, Held k (k.processTable i) (procs i) (view i) x h →
        x ∉ BlocksOf K k procs view {j | j ≠ i} := fun x h hx => s.not_mem_others hi h0 hx
    have hmemory : ∀ x p, (k₁.setProcess x p).programMemory (procs i) =
        k.programMemory (procs i) := by
      intro x p
      exact programMemory_congr fun _ => congrFun hout.elfFiles _
    refine ⟨_, _, s.callFor ?_ (fun j hne => ?_) ?_ fun _ => ⟨hslot, fun x h hx => ?_⟩, ?_⟩
    · refine Spares.setProcess ?_ (hown _ _ .process)
      refine (((s.spares_refl R _).extends_ hext).tables (c := view i) hs₁.directory.mapped
        (fun x hx => hown x _ (.table hx)) hout)
    · change k₁.processTable j = _
      rw [htable]
    · have hcurrent : k₁.currentProcess = k.currentProcess := by rw [hout.state]
      change k₁.currentProcess = 0 ∨ ∃ j < osMaxProcesses, k₁.processTable j ≠ 0 ∧
        k₁.processTable j = k₁.currentProcess
      rw [htable, hcurrent]
      exact s.current
    · change Held _ (k₁.processTable i) _ _ x h at hx
      rw [htable] at hx
      obtain hold | ⟨rfl, -⟩ := held_of_record (hmemory _ _) hx
      · exact hown x h hold
      · exact (s.spares_refl R _).not_mem_of_fresh hfresh
    · exact htable

/-! ## `process_free` -/

/-- What is held with a record dropped was held, and is another block. -/
theorem held_of_unmark (hmemory : k'.programMemory p = k.programMemory p) {x : Word} {h : Holding}
    (hx : Held k' process (p.allocationUnmark q) c x h) :
    Held k process p c x h ∧ (h = .record → x ≠ q) := by
  cases hx with
  | process => exact ⟨.process, fun hne => Holding.noConfusion hne⟩
  | elfFile helf => exact ⟨.elfFile helf, fun hne => Holding.noConfusion hne⟩
  | image =>
    have himage : Held k process p c (k.programMemory p) .image := .image
    rw [← hmemory] at himage
    exact ⟨himage, fun hne => Holding.noConfusion hne⟩
  | stack => exact ⟨.stack, fun hne => Holding.noConfusion hne⟩
  | task => exact ⟨.task, fun hne => Holding.noConfusion hne⟩
  | table hin => exact ⟨.table hin, fun hne => Holding.noConfusion hne⟩
  | @record m hm h0 =>
    have hne := AllocInv.unmark_ptr_ne hm h0
    have heq := AllocInv.unmark_of_ne_zero h0
    rw [heq] at h0 ⊢
    exact ⟨.record hm h0, fun _ => hne⟩

/-- Another block is still held. -/
theorem Held.unmark (hmemory : k'.programMemory p = k.programMemory p) {x : Word} {h : Holding}
    (hx : Held k process p c x h) (hne : x ≠ q) :
    Held k' process (p.allocationUnmark q) c x h := by
  cases hx with
  | process => exact .process
  | elfFile helf => exact .elfFile helf
  | image =>
    have himage : Held k' process (p.allocationUnmark q) c (k'.programMemory p) .image := .image
    rwa [hmemory] at himage
  | stack => exact .stack
  | task => exact .task
  | table hin => exact .table hin
  | @record m hm h0 =>
    have hsame : (p.allocationUnmark q).allocations m = p.allocations m :=
      if_neg fun hq => hne hq.2
    rw [← hsame] at h0 ⊢
    exact .record hm h0

/-- Records without one. -/
theorem Process.RecordsOwned.unmark {h h' : Heap} (r : p.RecordsOwned h)
    (hkeep : ∀ x n, h.Owns x n → x ≠ q → h'.Owns x n) :
    (p.allocationUnmark q).RecordsOwned h' := by
  refine ⟨fun m hm hz => ?_, fun m hm hz => ?_, fun m hm hz => ?_, fun m hm m' hm' hz he => ?_⟩
  · unfold Process.allocationUnmark at hz ⊢
    simp only at hz ⊢
    by_cases hq : m < osMaxProgramAllocations ∧ (p.allocations m).ptr = q
    · rw [if_pos hq]
    · rw [if_neg hq] at hz ⊢
      exact r.empty m hm hz
  · have hne := AllocInv.unmark_ptr_ne hm hz
    have heq := AllocInv.unmark_of_ne_zero hz
    rw [heq] at hz ⊢
    exact hkeep _ _ (r.owns m hm hz) hne
  · have heq := AllocInv.unmark_of_ne_zero hz
    rw [heq] at hz ⊢
    exact r.fits m hm hz
  · have hz' := hz
    rw [he] at hz'
    have heq := AllocInv.unmark_of_ne_zero hz
    have heq' := AllocInv.unmark_of_ne_zero hz'
    rw [heq] at hz he
    rw [heq'] at he
    exact r.distinct m hm m' hm' hz he

/-- **A block is freed and its record dropped**: `m` is what the mapping
left of memory. -/
theorem SlotInv.release {m : Mem} (s : SlotInv k i p c) (hj : j < osMaxProgramAllocations)
    (hq0 : (p.allocations j).ptr ≠ 0) (hat : c.At { k.store with mem := m })
    (hentry : ∀ page, page < 2 ^ 20 → c.entry m page =
      PageMap.mapTo (c.entry k.store.mem) (p.allocations j).ptr (p.allocations j).ptr
        (pagingAlignAddress ((p.allocations j).ptr + (p.allocations j).size)) 0 page)
    (hout : TablesOnly c k { k with store := { k.store with mem := m } }) :
    SlotInv (k.release (k.processTable i) p (p.allocations j).ptr m) i
      (p.allocationUnmark (p.allocations j).ptr) c := by
  obtain ⟨q, hq⟩ : ∃ q, (p.allocations j).ptr = q := ⟨_, rfl⟩
  obtain ⟨size, hsize⟩ : ∃ size, (p.allocations j).size = size := ⟨_, rfl⟩
  have hr := s.directory.ready
  have ho := s.records.owns j hj hq0
  have hfits := s.records.fits j hj hq0
  have hself : Held k (k.processTable i) p c q .record := hq ▸ .record hj hq0
  rw [hq, hsize] at ho hfits hentry
  rw [hq] at hq0 ⊢
  have hal := ho.aligned hr
  obtain ⟨k₁, hk₁⟩ : ∃ k₁, k₁ = k.release (k.processTable i) p q m := ⟨_, rfl⟩
  have htable : k₁.processTable i = k.processTable i := by rw [hk₁]; rfl
  have hmemory : k₁.programMemory p = k.programMemory p :=
    programMemory_congr fun _ => by rw [hk₁]; rfl
  have hkeep : ∀ x n, k.store.heap.Owns x n → x ≠ q → k₁.store.heap.Owns x n := by
    intro x n hx hne
    rw [hk₁]
    exact Heap.owns_heapFree hr ho hx hne
  have hheld : ∀ x h, Held k₁ (k₁.processTable i) (p.allocationUnmark q) c x h →
      Held k (k.processTable i) p c x h ∧ x ≠ q := by
    intro x h hx
    rw [htable] at hx
    obtain ⟨hold, hne⟩ := held_of_unmark hmemory hx
    refine ⟨hold, fun he => hne ?_ he⟩
    exact s.distinct x h .record hold (he ▸ hself)
  -- pages of the block, and the others
  have hmapped : ∀ page < 2 ^ 20, c.entry k₁.store.mem page =
      if q.toNat / 4096 ≤ page ∧ page < q.toNat / 4096 + blocksFor size.toNat then
        BitVec.ofNat 32 (4096 * page) ||| 0
      else c.entry k.store.mem page := by
    intro page hpage
    have heq : c.entry k₁.store.mem page = c.entry m page := by rw [hk₁]; rfl
    rw [heq, hentry page hpage, mapTo_allocation _ _ hal hfits hpage]
    by_cases hin : q.toNat / 4096 ≤ page ∧ page < q.toNat / 4096 + blocksFor size.toNat
    · rw [if_pos hin, if_pos hin, add_pageOffset hal hin.1 hpage]
    · rw [if_neg hin, if_neg hin]
  have hr₁ : k₁.store.heap.Ready := by
    rw [hk₁]
    exact (k.store.heap.samePlace_write _).ready hr
  rw [← hk₁]
  refine ⟨by rw [htable]; exact s.ne_zero, ?_, s.id, ⟨hr₁, s.directory.ne_zero, ?_, ?_⟩,
    fun x h hx => ?_, fun x h h' hx hx' => ?_, s.records.unmark hkeep, fun page hpage hw => ?_,
    fun m' hm page hcov => ?_, ?_, ?_⟩
  · rw [htable, hk₁]
    exact setProcess_processes_self
  · rw [hk₁]
    exact s.directory.object
  · -- the directory's blocks are others
    rw [hk₁]
    refine hat.congr hr (fun x hx => ?_) (fun _ _ => rfl) fun _ _ => rfl
    have hne : x ≠ q := fun he =>
      Holding.noConfusion (s.distinct q .table .record (he ▸ .table hx) hself)
    exact Heap.owns_heapFree hr ho (s.directory.mapped.owns x hx) hne
  · obtain ⟨hold, hne⟩ := hheld x h hx
    obtain ⟨⟨n, hn⟩, hobject⟩ := s.owned x h hold
    refine ⟨⟨n, hkeep x n hn hne⟩, ?_⟩
    rw [hk₁]
    exact hobject
  · exact s.distinct x h h' (hheld x h hx).1 (hheld x h' hx').1
  · rw [hmapped page hpage] at hw ⊢
    by_cases hin : q.toNat / 4096 ≤ page ∧ page < q.toNat / 4096 + blocksFor size.toNat
    · rw [if_pos hin, userWriteable_or (by rw [BitVec.toNat_ofNat]; omega)] at hw
      exact absurd hw (by unfold UserWriteable; decide)
    · rw [if_neg hin] at hw ⊢
      obtain ⟨x, h, n, hx, hgiven, hn, hframe, hrec⟩ := s.writeable page hpage hw
      have hne : x ≠ q := by
        -- a page of the block is at its own address
        rintro rfl
        have hown := s.distinct x h .record hx hself
        rw [hrec hown, Heap.Owns.length_unique hn ho hr] at hframe
        exact hin ((inRange_pageAddress_iff hal hfits.le hpage).1 hframe)
      refine ⟨x, h, n, ?_, hgiven, hkeep x n hn hne, hframe, hrec⟩
      rw [htable]
      exact hx.unmark hmemory hne
  · have hne := AllocInv.unmark_ptr_ne hm hcov.1
    rw [AllocInv.unmark_of_ne_zero hcov.1] at hcov
    rw [hmapped page (s.lt_of_covers hm hcov), if_neg]
    · exact s.granted m' hm page hcov
    · rintro ⟨hle, hlt⟩
      exact (s.records.owns m' hm hcov.1).pages_disjoint ho hr hne hcov.2.1 hcov.2.2 hle hlt
  · have hopened := s.opened.tables s.directory.mapped hr hout
    rw [hk₁]
    exact hopened
  · rw [htable, hk₁]
    exact s.task

/-- **`process_free`**, whatever it is asked to free. -/
theorem SystemInv.free (s : SystemInv K k procs view) (hi : i < osMaxProcesses)
    (h0 : k.processTable i ≠ 0) (hrun : processFree (k.processTable i) ptr k = .ok (⟨⟩, k')) :
    ∃ procs' view', CallFor R K i k k' procs procs' view view' ∧ k'.processTable = k.processTable := by
  have hs := s.slot i hi h0
  have hr := s.files.ready
  by_cases hptr : (procs i).Recorded ptr
  · obtain ⟨j, hfind⟩ := hptr.exists_find
    obtain ⟨m, t, ht, hm, hrun'⟩ := hs.recordsReady.free_of_find hfind
    rw [hrun'] at hrun
    obtain ⟨-, rfl⟩ := Prod.mk.inj (Except.ok.inj hrun)
    obtain ⟨hj, rfl⟩ := AllocInv.of_findAllocation hfind
    obtain ⟨t', ht', hc⟩ := hs.directory.object
    obtain rfl : t = t' := Option.some.inj (ht.symm.trans ht')
    obtain ⟨m', hmap, hat, hentry, hout⟩ := hs.directory.mapped.pagingMapTo_spec hr
      ((procs i).allocations j).ptr ((procs i).allocations j).ptr (pagingAlignAddress
        (((procs i).allocations j).ptr + ((procs i).allocations j).size)) 0
      (f := (view i).entry k.store.mem) fun _ _ => rfl
    rw [hc, hmap] at hm
    obtain rfl : m = m' := hm
    have htables : TablesOnly (view i) k { k with store := { k.store with mem := m } } :=
      ⟨rfl, hout⟩
    have hslot := hs.release hj hptr.1 hat hentry htables
    have hself : Held k (k.processTable i) (procs i) (view i) ((procs i).allocations j).ptr .record :=
      .record hj hptr.1
    have hown : ∀ x h, Held k (k.processTable i) (procs i) (view i) x h →
        x ∉ BlocksOf K k procs view {j | j ≠ i} := fun x h hx => s.not_mem_others hi h0 hx
    refine ⟨_, _, s.callFor ?_ (fun _ _ => rfl) s.current fun _ => ⟨hslot, fun x h hx => ?_⟩, rfl⟩
    · have a := ((s.spares_refl R {j | j ≠ i}).tables (c := view i) hs.directory.mapped
        (fun x hx => hown x _ (.table hx)) htables).setProcess
          (p := some ((procs i).allocationUnmark ((procs i).allocations j).ptr))
          (hown _ _ .process)
      exact a.free (hown _ _ hself) (hs.records.owns j hj hptr.1) (hs.owned _ _ hself).2
    · have hmemory : (k.release (k.processTable i) (procs i) ((procs i).allocations j).ptr
          m).programMemory (procs i) = k.programMemory (procs i) := rfl
      exact hown x h (held_of_unmark hmemory hx).1
  · rw [hs.recordsReady.free_of_not_recorded hptr] at hrun
    obtain ⟨-, rfl⟩ := Prod.mk.inj (Except.ok.inj hrun)
    exact ⟨procs, view, s.callFor_of_spared i (s.spares_refl R _) rfl rfl, rfl⟩

end OwnKernel
