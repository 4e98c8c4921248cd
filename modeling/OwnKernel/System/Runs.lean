import OwnKernel.System.Steps

/-!
# Runs of the system

The steps of `SystemStep` come in any order. In every state a run from a
system in order reaches, the system is in order (`SystemRun.inv`), and
what a slot has is what it had if no step was for it (`SystemRun.still`):
its entry in the table, its structure, what its program may write and what
is there, and the registers that are saved for it. An event begins with
the state of the current task saved, or goes straight to its steps
(`Entered`).
-/

namespace OwnKernel

variable {K P R : Set Word} {k k₀ k' : Kernel} {v x : Word} {p : Process}
variable {procs procs' : ℕ → Process} {view view' : ℕ → ChunkView} {i j n : ℕ}
variable {image : Sectors} {a : Option ℕ} {l : List (Option ℕ)}

/-- A run of the system, by the slots its steps are for. -/
abbrev SystemRun (image : Sectors) := Run (SystemStep image)

/-- **A system in order**, where the kernel has the blocks `K` for itself. -/
def InOrder (K : Set Word) (k : Kernel) : Prop := ∃ procs view, SystemInv K k procs view

/-! ## What a slot keeps -/

/-- **Slot `j` has what it had**: its entry in the table, its structure,
the addresses its program sees, the bytes it may write and what they are. -/
structure SlotKept (j : ℕ) (k k' : Kernel) : Prop where
  table : k'.processTable j = k.processTable j
  process : k.processTable j ≠ 0 →
    k'.processes (k.processTable j) = k.processes (k.processTable j)
  space : ∀ v, k'.slotSpace j v = k.slotSpace j v
  slotWrites : ∀ v x, k'.SlotWrites j v x ↔ k.SlotWrites j v x
  mem : ∀ v x, k.SlotWrites j v x → k'.store.mem x = k.store.mem x

instance (j : ℕ) : Std.Refl (SlotKept j) where
  refl _ := ⟨rfl, fun _ => rfl, fun _ => rfl, fun _ _ => Iff.rfl, fun _ _ _ => rfl⟩

instance (j : ℕ) : IsTrans Kernel (SlotKept j) where
  trans k₁ k₂ k₃ h₁ h₂ :=
    { table := h₂.table.trans h₁.table
      process := fun h0 => by
        rw [← h₁.process h0, ← h₁.table]
        exact h₂.process (h₁.table ▸ h0)
      space := fun v => (h₂.space v).trans (h₁.space v)
      slotWrites := fun v x => (h₂.slotWrites v x).trans (h₁.slotWrites v x)
      mem := fun v x hw => (h₂.mem v x ((h₁.slotWrites v x).2 hw)).trans (h₁.mem v x hw) }

/-- **The program of slot `j` is the one that runs.** -/
def Kernel.Runs (k : Kernel) (j : ℕ) : Prop :=
  ∃ p, k.processes (k.processTable j) = some p ∧ p.task = k.currentTask

/-- The registers that are saved for slot `j`. -/
def Kernel.slotRegisters (k : Kernel) (j : ℕ) : Option Registers :=
  (k.processes (k.processTable j)).bind fun p => (k.tasks p.task).map Task.registers

/-- **Slot `j` has what it had**, with the registers its program goes on
with. -/
structure SlotStill (j : ℕ) (k k' : Kernel) : Prop extends SlotKept j k k' where
  registers : k'.slotRegisters j = k.slotRegisters j

instance (j : ℕ) : Std.Refl (SlotStill j) where
  refl k := ⟨Std.Refl.refl k, rfl⟩

instance (j : ℕ) : IsTrans Kernel (SlotStill j) where
  trans _ _ _ h₁ h₂ := ⟨Trans.trans h₁.toSlotKept h₂.toSlotKept, h₂.registers.trans h₁.registers⟩

/-- **A call for another slot keeps what slot `j` has.** -/
theorem CallFor.slotKept (h : CallFor R K i k k' procs procs' view view') (s : SystemInv K k procs view)
    (hj : j < osMaxProcesses) (hij : j ≠ i) : SlotKept j k k' := by
  have htable := h.table j hij
  by_cases h0 : k.processTable j = 0
  · have h0' : k'.processTable j = 0 := htable.trans h0
    refine ⟨htable, fun hne => absurd h0 hne, fun v => ?_, fun v x => ?_, fun v x hw => absurd h0 hw.1⟩
    · unfold Kernel.slotSpace
      rw [if_pos h0, if_pos h0']
    · exact ⟨fun hw => absurd h0' hw.1, fun hw => absurd h0 hw.1⟩
  have hP : ∀ x h, Held k (k.processTable j) (procs j) (view j) x h →
      x ∈ BlocksOf K k procs view {l | l ≠ i} := fun x h hx => Or.inr ⟨j, hj, hij, h0, h, hx⟩
  have hs := s.slot j hj h0
  obtain ⟨hs', -, hentry⟩ := hs.spared h.spares hP htable
  have hdirectory : ∀ x, InRange (view j).directory 4096 x → k'.store.mem x = k.store.mem x :=
    fun x hx => h.spares.mem _ (hP _ _ (.table (view j).has_directory)) 1
      (hs.directory.mapped.owns _ (view j).has_directory) x (by rwa [Nat.mul_one])
  have hspace := fun v x => hs.directory.mapped.congr_space (v := v) (x := x) hs'.directory.mapped
    hs.directory.ready hdirectory hentry
  refine ⟨htable, fun _ => h.spares.processes _ (hP _ _ .process), fun v => ?_, fun v x => ?_,
    fun v x hw => ?_⟩
  · rw [hs.slotSpace_eq, hs'.slotSpace_eq]
    exact (hspace v v).1
  · rw [hs.slotWrites_iff, hs'.slotWrites_iff]
    exact (hspace v x).2
  · obtain ⟨y, hy, n, hheld, -, hn, hin⟩ := hs.lands hw
    exact h.spares.mem y (hP y hy hheld) n hn x hin

/-- It keeps the registers of a task in `R`. -/
theorem CallFor.slotRegisters (h : CallFor R K i k k' procs procs' view view')
    (s : SystemInv K k procs view) (hj : j < osMaxProcesses) (hij : j ≠ i)
    (h0 : k.processTable j ≠ 0) (hR : (procs j).task ∈ R) :
    k'.slotRegisters j = k.slotRegisters j := by
  have hP : ∀ x h, Held k (k.processTable j) (procs j) (view j) x h →
      x ∈ BlocksOf K k procs view {l | l ≠ i} := fun x h hx => Or.inr ⟨j, hj, hij, h0, h, hx⟩
  have hobject := (s.slot j hj h0).object
  unfold Kernel.slotRegisters
  rw [h.table j hij, h.spares.processes _ (hP _ _ .process), hobject]
  exact h.spares.registers _ (hP _ _ .task) hR

/-! ## Steps and runs -/

/-- **A step keeps the system in order.** -/
theorem SystemStep.inOrder (h : SystemStep image a k k') (s : InOrder K k) :
    InOrder K k' ∧ Spares ∅ K k k' := by
  obtain ⟨procs, view, s⟩ := s
  obtain ⟨procs', view', hcall⟩ := h.callFor s (i := a.getD 0) fun b hb => by
    rw [Option.mem_def.1 hb, Option.getD_some]
  exact ⟨⟨procs', view', hcall.inv⟩, hcall.spares.mono Set.subset_union_left⟩

/-- **A step for another slot keeps what slot `j` has.** -/
theorem SystemStep.slotStill (h : SystemStep image a k k') (s : InOrder K k)
    (hj : j < osMaxProcesses) (h0 : k.processTable j ≠ 0) (hja : a ≠ some j) :
    SlotStill j k k' := by
  obtain ⟨procs, view, s⟩ := s
  obtain ⟨i, hi, hij⟩ : ∃ i, (∀ b ∈ a, b = i) ∧ j ≠ i := by
    cases a with
    | none => exact ⟨j + 1, fun b hb => absurd hb (Option.not_mem_none b), by omega⟩
    | some i => exact ⟨i, fun b hb => (Option.mem_some_iff.1 hb).symm, fun he => hja (he ▸ rfl)⟩
  obtain ⟨procs', view', hcall⟩ := h.callFor (R := Set.univ) s hi
  exact ⟨hcall.slotKept s hj hij, hcall.slotRegisters s hj hij h0 trivial⟩

/-- **The system is in order after every run**, and the kernel's own blocks
are what they were. -/
theorem SystemRun.inv (h : SystemRun image l k₀ k) (s : InOrder K k₀) :
    InOrder K k ∧ Spares ∅ K k₀ k := by
  refine h.invariant (I := fun k => InOrder K k ∧ Spares ∅ K k₀ k) (fun a s t hs hstep => ?_) ⟨s, ?_⟩
  · obtain ⟨hin, hspares⟩ := hstep.inOrder hs.1
    exact ⟨hin, hs.2.trans hspares⟩
  · obtain ⟨procs, view, s⟩ := s
    exact .refl s.files s.kernel

/-- **What a slot has is kept by runs of the others.** -/
theorem SystemRun.still (h : SystemRun image l k₀ k) (s : InOrder K k₀) (hj : j < osMaxProcesses)
    (h0 : k₀.processTable j ≠ 0) (hl : some j ∉ l) : SlotStill j k₀ k := by
  refine h.frame (I := fun k => InOrder K k ∧ k.processTable j ≠ 0) (fun a => a ≠ some j)
    (fun a s t hother hs hstep => ?_) (fun a ha he => hl (he ▸ ha)) ⟨s, h0⟩
  have hstill := hstep.slotStill hs.1 hj hs.2 hother
  exact ⟨⟨(hstep.inOrder hs.1).1, hstill.table ▸ hs.2⟩, hstill⟩

/-! ## Events -/

/-- **What an event begins with**: the state of the current task is saved,
or nothing is done. -/
inductive Entered : Kernel → Kernel → Prop
  | stays {k : Kernel} : Entered k k
  | saves {k k' : Kernel} {frame : InterruptFrame} :
      taskCurrentSaveState frame k = .ok (⟨⟩, k') → Entered k k'

namespace Entered

/-- The system is still in order, and the kernel's own blocks are what they
were. -/
theorem inOrder (h : Entered k k') (s : InOrder K k) : InOrder K k' ∧ Spares ∅ K k k' := by
  cases h with
  | stays =>
    obtain ⟨procs, view, s⟩ := s
    exact ⟨⟨procs, view, s⟩, .refl s.files s.kernel⟩
  | saves hrun =>
    obtain ⟨procs, view, s⟩ := s
    have hcall := taskCurrentSaveState_callFor s 0 hrun
    exact ⟨⟨procs, view, hcall.inv⟩,
      (hcall.spares.mono Set.subset_union_left).mono_registers (Set.empty_subset _)⟩

/-- **Each slot has what it had**, and one the program of which does not run
has its registers, too. -/
theorem kept (h : Entered k k') (s : InOrder K k) (hj : j < osMaxProcesses)
    (h0 : k.processTable j ≠ 0) :
    SlotKept j k k' ∧ (¬ k.Runs j → k'.slotRegisters j = k.slotRegisters j) := by
  cases h with
  | stays => exact ⟨Std.Refl.refl _, fun _ => rfl⟩
  | saves hrun =>
    obtain ⟨procs, view, s⟩ := s
    have hcall := taskCurrentSaveState_callFor s (j + 1) hrun
    refine ⟨hcall.slotKept s hj (by omega), fun hruns => ?_⟩
    refine hcall.slotRegisters s hj (by omega) h0 fun htask => hruns ?_
    exact ⟨_, (s.slot j hj h0).object, htask⟩

end Entered

end OwnKernel
