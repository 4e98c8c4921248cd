import OwnKernel.Model.Keyboard
import OwnKernel.System.Calls
import OwnKernel.System.Pages
import OwnKernel.Task.CopyString

/-!
# What programs do themselves

A program in user mode stores where both entries of its directory let it
(`UserWrites`). In a system of processes these are bytes of its own
program, its stack and what it has asked for (`SlotInv.lands`), so a store
is a call of the program's own slot like the others (`SystemInv.store`).
So are the keyboard's, which change the process's buffer.
-/

namespace OwnKernel

variable {K P R : Set Word} {k k₀ k' : Kernel} {c : ChunkView} {v x y : Word} {p p' : Process}
variable {procs procs' : ℕ → Process} {view view' : ℕ → ChunkView} {page i j n : ℕ} {m : Mem}

/-! ## User mode -/

/-- **The user may write `x` at `v`**, the processor being on `directory`:
the page is present, and the directory's entry and the table's let the user
write. -/
def UserWrites (m : Mem) (directory v x : Word) : Prop :=
  taskSpace directory m v = some x ∧
    UserWriteable (m.load32 (entryAddress directory (v.toNat / 4096 / 1024))) ∧
      UserWriteable (pagingGet m directory (pagingAlignToLowerPage v))

/-- **The program of slot `i` may write `x` at `v`.** -/
def Kernel.SlotWrites (k : Kernel) (i : ℕ) (v x : Word) : Prop :=
  k.processTable i ≠ 0 ∧ ∃ p t, k.processes (k.processTable i) = some p ∧ k.tasks p.task = some t ∧
    UserWrites k.store.mem (k.store.mem.load32 t.pageDirectory) v x

/-- The addresses the program of slot `i` sees. -/
def Kernel.slotSpace (k : Kernel) (i : ℕ) (v : Word) : Option Word :=
  if k.processTable i = 0 then none
  else do
    let p ← k.processes (k.processTable i)
    let t ← k.tasks p.task
    taskSpace (k.store.mem.load32 t.pageDirectory) k.store.mem v

/-- The store of a byte. -/
def Kernel.storeUser (k : Kernel) (x : Word) (b : Byte) : Kernel :=
  { k with store := { k.store with mem := Function.update k.store.mem x b } }

/-- **Where the processor goes on a chunk**: by the directory's entry and
the page's. -/
theorem ChunkView.At.taskSpace_eq {s : Store} (h : c.At s) (v : Word) :
    taskSpace c.directory s.mem v =
      if s.mem.load32 (entryAddress c.directory (v.toNat / 4096 / 1024)) &&& pagingIsPresent = 0 ∨
          c.entry s.mem (v.toNat / 4096) &&& pagingIsPresent = 0 then none
      else some (c.physical s.mem v) := by
  have hlow := toNat_pagingAlignToLowerPage v
  have hpage : (pagingAlignToLowerPage v).toNat / 4096 = v.toNat / 4096 := by omega
  have hget := h.pagingGet_eq (v := pagingAlignToLowerPage v) (by omega)
  rw [h.directory_eq, hpage] at hget
  simp only [taskSpace]
  rw [At.pagingGetIndexes_eq (by omega), hpage, hget, h.pagingGetPhysicalAddress_eq]

/-- **What the user may write on a chunk.** -/
theorem ChunkView.At.userWrites_iff {s : Store} (h : c.At s) :
    UserWrites s.mem c.directory v x ↔ taskSpace c.directory s.mem v = some x ∧
      UserWriteable (s.mem.load32 (entryAddress c.directory (v.toNat / 4096 / 1024))) ∧
        UserWriteable (c.entry s.mem (v.toNat / 4096)) := by
  have hlow := toNat_pagingAlignToLowerPage v
  have hget := h.pagingGet_eq (v := pagingAlignToLowerPage v) (by omega)
  rw [h.directory_eq, hlow, Nat.mul_div_cancel _ (by decide)] at hget
  unfold UserWrites
  rw [hget]

/-- Both depend on the directory and the entries. -/
theorem ChunkView.At.congr_space {s s' : Store} (h : c.At s) (h' : c.At s')
    (r : s.heap.Ready) (hdirectory : ∀ x, InRange c.directory 4096 x → s'.mem x = s.mem x)
    (hentry : ∀ page < 2 ^ 20, c.entry s'.mem page = c.entry s.mem page) :
    taskSpace c.directory s'.mem v = taskSpace c.directory s.mem v ∧
      (UserWrites s'.mem c.directory v x ↔ UserWrites s.mem c.directory v x) := by
  have hlt := At.page_lt v
  have hslot : s'.mem.load32 (entryAddress c.directory (v.toNat / 4096 / 1024)) =
      s.mem.load32 (entryAddress c.directory (v.toNat / 4096 / 1024)) :=
    load32_entry_congr (h.directory_aligned r) (by omega) hdirectory
  have hspace : taskSpace c.directory s'.mem v = taskSpace c.directory s.mem v := by
    rw [h.taskSpace_eq, h'.taskSpace_eq, hslot, hentry _ hlt]
    unfold ChunkView.physical
    rw [hentry _ hlt]
  refine ⟨hspace, ?_⟩
  rw [h.userWrites_iff, h'.userWrites_iff, hslot, hentry _ hlt, hspace]

/-- A page's bytes are in the block that has its first. -/
theorem inRange_add_page {a : Word} (hy : y.toNat % 4096 = 0) (ha : a.toNat % 4096 = 0)
    (h : InRange y (4096 * n) a) (v : Word) : InRange y (4096 * n) (a + v % 4096) := by
  have hmod : (v % 4096).toNat = v.toNat % 4096 := BitVec.toNat_umod
  have hy' := y.isLt
  have ha' := a.isLt
  unfold InRange at h ⊢
  rw [BitVec.toNat_sub] at h ⊢
  rw [BitVec.toNat_add, hmod]
  omega

namespace SlotInv

/-- The slot's program writes by the slot's directory. -/
theorem slotWrites_iff (s : SlotInv k i p c) :
    k.SlotWrites i v x ↔ UserWrites k.store.mem c.directory v x := by
  obtain ⟨t, ht, hc⟩ := s.directory.object
  constructor
  · rintro ⟨-, q, u, hq, hu, hw⟩
    obtain rfl := Option.some.inj (s.object.symm.trans hq)
    obtain rfl := Option.some.inj (ht.symm.trans hu)
    rwa [hc, s.directory.mapped.directory_eq] at hw
  · intro hw
    refine ⟨s.ne_zero, p, t, s.object, ht, ?_⟩
    rwa [hc, s.directory.mapped.directory_eq]

/-- So does it see. -/
theorem slotSpace_eq (s : SlotInv k i p c) (v : Word) :
    k.slotSpace i v = taskSpace c.directory k.store.mem v := by
  obtain ⟨t, ht, hc⟩ := s.directory.object
  unfold Kernel.slotSpace
  rw [if_neg s.ne_zero, s.object, Option.bind_eq_bind, Option.bind_some, ht, Option.bind_eq_bind,
    Option.bind_some, hc, s.directory.mapped.directory_eq]

theorem entry_of_slotWrites (s : SlotInv k i p c) (hw : k.SlotWrites i v x) :
    UserWriteable (c.entry k.store.mem (v.toNat / 4096)) ∧ x = c.physical k.store.mem v := by
  obtain ⟨hspace, -, hentry⟩ := s.directory.mapped.userWrites_iff.1 (s.slotWrites_iff.1 hw)
  exact ⟨hentry, s.directory.mapped.eq_physical hspace⟩

/-- **A store lands in the program's own blocks.** -/
theorem lands (s : SlotInv k i p c) (hw : k.SlotWrites i v x) :
    ∃ y h n, Held k (k.processTable i) p c y h ∧ h.Given ∧ k.store.heap.Owns y n ∧
      InRange y (4096 * n) x := by
  obtain ⟨hentry, rfl⟩ := s.entry_of_slotWrites hw
  obtain ⟨y, h, n, hy, hgiven, hn, hin, -⟩ :=
    s.writeable _ (ChunkView.At.page_lt v) hentry
  refine ⟨y, h, n, hy, hgiven, hn, inRange_add_page (hn.aligned s.directory.ready) ?_ hin v⟩
  rw [toNat_and_addressMask]
  omega

/-- Another block than the program's own is not written. -/
theorem not_slotWrites (s : SlotInv k i p c) (hn : k.store.heap.Owns y n)
    (hin : InRange y (4096 * n) x) (hy : ∀ h, Held k (k.processTable i) p c y h → ¬ h.Given) :
    ¬ k.SlotWrites i v x := by
  intro hw
  obtain ⟨a, h, n', ha, hgiven, hn', hin'⟩ := s.lands hw
  refine hn.disjoint hn' s.directory.ready ?_ hin hin'
  rintro rfl
  exact hy h ha hgiven

/-- **A process whose tables are not written** is what it was. -/
theorem of_mem (s : SlotInv k i p c)
    (hm : ∀ r, c.Has r → ∀ x, InRange r 4096 x → m x = k.store.mem x) :
    SlotInv { k with store := { k.store with mem := m } } i p c := by
  have hr := s.directory.ready
  have hentry : ∀ page < 2 ^ 20, c.entry m page = c.entry k.store.mem page := fun page hpage =>
    s.directory.mapped.entry_congr hr hpage (hm _ (c.has_table (by omega)))
  have hheld : ∀ {x h}, Held { k with store := { k.store with mem := m } } (k.processTable i) p c x h →
      Held k (k.processTable i) p c x h := fun hx => hx.congr rfl
  refine ⟨s.ne_zero, s.object, s.id, s.directory.of_mem hm, fun x h hx => s.owned x h (hheld hx),
    fun x h h' hx hx' => s.distinct x h h' (hheld hx) (hheld hx'), s.records, fun page hpage hw => ?_,
    fun j hj page hcov => ?_, s.opened.congr s.directory.mapped hr (hm _ c.has_directory),
    s.task⟩
  · change UserWriteable (c.entry m page) at hw
    change GivenPage _ _ p c page (c.entry m page &&& pagingAddressMask)
    rw [hentry page hpage] at hw ⊢
    obtain ⟨x, h, n, hx, hgiven, hn, hin, hrec⟩ := s.writeable page hpage hw
    exact ⟨x, h, n, hx.congr rfl, hgiven, hn, hin, hrec⟩
  · change c.entry m page = _
    rw [hentry page (s.lt_of_covers hj hcov)]
    exact s.granted j hj page hcov

/-- **A process the buffer or the arguments of which are changed.** -/
theorem setProcess (s : SlotInv k i p c) (hp' : p' = { p with
    keyboard := p'.keyboard
    arguments := p'.arguments }) :
    SlotInv (k.setProcess (k.processTable i) (some p')) i p' c ∧
      ∀ x h, Held (k.setProcess (k.processTable i) (some p')) (k.processTable i) p' c x h →
        Held k (k.processTable i) p c x h := by
  have hheld : ∀ {x h}, Held (k.setProcess (k.processTable i) (some p')) (k.processTable i) p' c x h →
      Held k (k.processTable i) p c x h := by
    intro x h hx
    rw [hp'] at hx
    cases hx with
    | process => exact .process
    | elfFile helf => exact .elfFile helf
    | image => exact .image
    | stack => exact .stack
    | task => exact .task
    | table hin => exact .table hin
    | record hj h0 => exact .record hj h0
  have hback : ∀ {x h}, Held k (k.processTable i) p c x h →
      Held (k.setProcess (k.processTable i) (some p')) (k.processTable i) p' c x h := by
    intro x h hx
    rw [hp']
    cases hx with
    | process => exact .process
    | elfFile helf => exact .elfFile helf
    | image => exact .image
    | stack => exact .stack
    | task => exact .task
    | table hin => exact .table hin
    | record hj h0 => exact .record hj h0
  have htask : p'.task = p.task := by rw [hp']
  have hallocations : p'.allocations = p.allocations := by rw [hp']
  refine ⟨⟨s.ne_zero, setProcess_processes_self, ?_, ?_, fun x h hx => s.owned x h (hheld hx),
    fun x h h' hx hx' => s.distinct x h h' (hheld hx) (hheld hx'), ?_, fun page hpage hw => ?_,
    ?_, s.opened, ?_⟩, fun x h hx => hheld hx⟩
  · rw [hp']
    exact s.id
  · rw [htask]
    exact ⟨s.directory.ready, s.directory.ne_zero, s.directory.object, s.directory.mapped⟩
  · have hr := s.records
    refine ⟨?_, ?_, ?_, ?_⟩
    · rw [hallocations]
      exact hr.empty
    · rw [hallocations]
      exact hr.owns
    · rw [hallocations]
      exact hr.fits
    · unfold Process.DistinctAllocations
      rw [hallocations]
      exact hr.distinct
  · obtain ⟨x, h, n, hx, hgiven, hn, hin, hrec⟩ := s.writeable page hpage hw
    exact ⟨x, h, n, hback hx, hgiven, hn, hin, hrec⟩
  · rw [hallocations]
    exact s.granted
  · rw [htask]
    exact s.task

end SlotInv

namespace SystemInv

/-- **Of two programs only one can write a byte.** -/
theorem slotWrites_disjoint (s : SystemInv K k procs view) (hi : i < osMaxProcesses)
    (hj : j < osMaxProcesses) (hij : i ≠ j) (hw : k.SlotWrites i v x) : ¬ k.SlotWrites j y x := by
  intro hw'
  obtain ⟨a, h, n, ha, -, hn, hin⟩ := (s.slot i hi hw.1).lands hw
  obtain ⟨a', h', n', ha', -, hn', hin'⟩ := (s.slot j hj hw'.1).lands hw'
  exact s.disjoint hi hj hw.1 hw'.1 hij ha ha' hn hn' hin hin'

/-- **No program can write what a process has for the kernel**: its
structures and its tables. -/
theorem not_slotWrites_of_held (s : SystemInv K k procs view) (hi : i < osMaxProcesses)
    (hj : j < osMaxProcesses) (hj0 : k.processTable j ≠ 0) {h : Holding}
    (hx : Held k (k.processTable j) (procs j) (view j) y h) (hgiven : ¬ h.Given)
    (hn : k.store.heap.Owns y n) (hin : InRange y (4096 * n) x) : ¬ k.SlotWrites i v x := by
  intro hw
  refine (s.slot i hi hw.1).not_slotWrites hn hin (fun h' hy hgiven' => ?_) hw
  obtain rfl := s.apart j hj i hi hj0 hw.1 _ _ _ hx hy
  obtain rfl := (s.slot _ hj hj0).distinct _ _ _ hx hy
  exact hgiven hgiven'

/-- **Nor what the kernel has for itself.** -/
theorem not_slotWrites_of_kernel (s : SystemInv K k procs view) (hi : i < osMaxProcesses)
    (hy : y ∈ K) (hn : k.store.heap.Owns y n) (hin : InRange y (4096 * n) x) :
    ¬ k.SlotWrites i v x := by
  intro hw
  refine (s.slot i hi hw.1).not_slotWrites hn hin (fun h' ha _ => ?_) hw
  exact s.kernel_apart i hi hw.1 _ _ ha hy

/-- **Nor what the file layer has.** -/
theorem not_slotWrites_of_object (s : SystemInv K k procs view) (hi : i < osMaxProcesses)
    (hy : k.objects y ≠ none) (hin : InRange y 4096 x) : ¬ k.SlotWrites i v x := by
  intro hw
  refine (s.slot i hi hw.1).not_slotWrites (s.files.owns y hy) (by rwa [Nat.mul_one])
    (fun h' ha _ => ?_) hw
  exact hy ((s.slot i hi hw.1).owned _ _ ha).2

/-- **Writes to the blocks given to the program** of slot `i`. -/
theorem writes (s : SystemInv K k procs view) (hi : i < osMaxProcesses) (h0 : k.processTable i ≠ 0)
    (hm : ∀ x, m x ≠ k.store.mem x → ∃ y h n,
      Held k (k.processTable i) (procs i) (view i) y h ∧ h.Given ∧ k.store.heap.Owns y n ∧
        InRange y (4096 * n) x) :
    ∃ procs' view', CallFor R K i k { k with store := { k.store with mem := m } } procs procs' view
      view' := by
  have hs := s.slot i hi h0
  have hother : ∀ z l, k.store.heap.Owns z l →
      (∀ h, Held k (k.processTable i) (procs i) (view i) z h → ¬ h.Given) →
        ∀ a, InRange z (4096 * l) a → m a = k.store.mem a := by
    intro z l hz hnone a ha
    by_contra hne
    obtain ⟨y, h, n, hy, hgiven, hn, hin⟩ := hm a hne
    refine hz.disjoint hn s.files.ready ?_ ha hin
    rintro rfl
    exact hnone h hy hgiven
  have htables : ∀ r, (view i).Has r → ∀ a, InRange r 4096 a → m a = k.store.mem a := by
    intro r hr a ha
    refine hother r 1 (hs.directory.mapped.owns r hr) (fun h hh hgiven => ?_) a (by rwa [Nat.mul_one])
    obtain rfl := hs.distinct _ _ _ hh (.table hr)
    rcases hgiven with hg | hg | hg <;> cases hg
  have hslot := hs.of_mem htables
  have a := s.spares_refl R {j | j ≠ i}
  have hown : ∀ z h', Held k (k.processTable i) (procs i) (view i) z h' →
      z ∉ BlocksOf K k procs view {j | j ≠ i} := fun z h' hz => s.not_mem_others hi h0 hz
  refine ⟨_, _, s.callFor ⟨⟨a.files.ready, a.files.owns, a.files.items, a.files.single⟩, a.place,
    a.owned, a.owns, fun z hz l hl c hc => ?_, a.objects, a.processes, a.elfFiles, a.directories,
    a.registers, a.disk⟩
    (fun _ _ => rfl) s.current fun _ => ⟨hslot, fun z h' hz => ?_⟩⟩
  · exact hother z l hl (fun h hh _ => hown z h hh hz) c hc
  · exact hown z h' (hz.congr rfl)

/-- **A store of a program.** -/
theorem store (s : SystemInv K k procs view) (hi : i < osMaxProcesses) (hw : k.SlotWrites i v x)
    (b : Byte) : ∃ procs' view', CallFor R K i k (k.storeUser x b) procs procs' view view' := by
  obtain ⟨y, h, n, hy, hgiven, hn, hin⟩ := (s.slot i hi hw.1).lands hw
  refine s.writes hi hw.1 fun a ha => ?_
  have hax : a = x := by
    by_contra hne
    exact ha (Function.update_of_ne hne ..)
  exact ⟨y, h, n, hy, hgiven, hn, hax ▸ hin⟩

/-- **The buffer or the arguments of a process are changed.** -/
theorem setProcess (s : SystemInv K k procs view) (hi : i < osMaxProcesses)
    (h0 : k.processTable i ≠ 0) (hp' : p' = { procs i with
      keyboard := p'.keyboard
      arguments := p'.arguments }) :
    ∃ procs' view',
      CallFor R K i k (k.setProcess (k.processTable i) (some p')) procs procs' view view' := by
  have hown : ∀ z h', Held k (k.processTable i) (procs i) (view i) z h' →
      z ∉ BlocksOf K k procs view {j | j ≠ i} := fun z h' hz => s.not_mem_others hi h0 hz
  obtain ⟨hslot, hheld⟩ := (s.slot i hi h0).setProcess hp'
  exact ⟨_, _, s.callFor ((s.spares_refl R _).setProcess (hown _ _ .process)) (fun _ _ => rfl) s.current
    fun _ => ⟨hslot, fun z h' hz => hown z h' (hheld z h' hz)⟩⟩

/-- **`process_switch`** to a process of the table. -/
theorem switch (s : SystemInv K k procs view) (hi : i < osMaxProcesses) (h0 : k.processTable i ≠ 0) :
    ∃ procs' view', CallFor R K i k { k with currentProcess := k.processTable i } procs procs' view
      view' := by
  have a := s.spares_refl R {j | j ≠ i}
  have hs := s.slot i hi h0
  have hheld : ∀ {z h}, Held { k with currentProcess := k.processTable i } (k.processTable i)
      (procs i) (view i) z h → Held k (k.processTable i) (procs i) (view i) z h := fun hz =>
    hz.congr rfl
  refine ⟨_, _, s.callFor ⟨a.files, a.place, a.owned, a.owns, a.mem, a.objects, a.processes,
    a.elfFiles, a.directories,
    a.registers, a.disk⟩ (fun _ _ => rfl) (Or.inr ⟨i, hi, h0, rfl⟩) fun _ => ⟨⟨hs.ne_zero,
      hs.object, hs.id, ⟨hs.directory.ready, hs.directory.ne_zero, hs.directory.object,
        hs.directory.mapped⟩, fun z h hz => hs.owned z h (hheld hz),
      fun z h h' hz hz' => hs.distinct z h h' (hheld hz) (hheld hz'), hs.records,
      fun page hpage hw => ?_, hs.granted, hs.opened, hs.task⟩,
    fun z h hz => s.not_mem_others hi h0 (hheld hz)⟩⟩
  obtain ⟨z, h, n, hz, hgiven, hn, hin, hrec⟩ := hs.writeable page hpage hw
  exact ⟨z, h, n, hz.congr rfl, hgiven, hn, hin, hrec⟩

end SystemInv

end OwnKernel
