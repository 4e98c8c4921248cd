import OwnKernel.Kernel.Objects
import OwnKernel.Lib.RingBuffer
import OwnKernel.Model.Keyboard

/-!
# The keyboard buffer is a queue

The abstract queue of unread characters (`fifoRun`) against the buffer:
`KeyboardHolds` is the relation between the two, kept by both calls
(`keyboardPush_holds`, `keyboardPop_holds`), so a run returns what the
queue returns (`keyboardRun_eq`) and `keyboardRun_fifo` reads the order
of the characters off the queue.
-/

namespace OwnKernel

variable {k k' : Kernel} {c : Byte} {q : List Byte} {ops : List KeyboardOp} {process : Word}

/-! ## The queue -/

/-- The characters pushed, in order. -/
def pushed : List KeyboardOp → List Byte
  | [] => []
  | .push c :: ops => c :: pushed ops
  | .pop :: ops => pushed ops

/-- The pops' results, and the queue of unread characters left, from the
queue `q` on. -/
def fifoRun : List Byte → List KeyboardOp → List Byte × List Byte
  | q, [] => ([], q)
  | q, .push c :: ops => fifoRun (q ++ [c]) ops
  | [], .pop :: ops => (0 :: (fifoRun [] ops).1, (fifoRun [] ops).2)
  | c :: q, .pop :: ops => (c :: (fifoRun q ops).1, (fifoRun q ops).2)

/-- At no point are more characters unread than the buffer has cells. -/
def FifoBounded (q : List Byte) (ops : List KeyboardOp) : Prop :=
  ∀ ops₁, ops₁ <+: ops → (fifoRun q ops₁).2.length ≤ osKeyboardBufferSize

/-- No character pushed is zero. -/
def NonzeroPushes (ops : List KeyboardOp) : Prop := ∀ c ∈ pushed ops, c ≠ 0

instance : DecidablePred NonzeroPushes := fun ops =>
  inferInstanceAs (Decidable (∀ c ∈ pushed ops, c ≠ 0))

/-- A character that is read. -/
def isRead (c : Byte) : Bool := c ≠ 0

theorem fifoRun_append : ∀ (q : List Byte) (ops₁ ops₂ : List KeyboardOp),
    fifoRun q (ops₁ ++ ops₂) = ((fifoRun q ops₁).1 ++ (fifoRun (fifoRun q ops₁).2 ops₂).1,
      (fifoRun (fifoRun q ops₁).2 ops₂).2)
  | _, [], _ => rfl
  | q, .push c :: ops, ops₂ => fifoRun_append (q ++ [c]) ops ops₂
  | [], .pop :: ops, ops₂ => by
    simp only [List.cons_append, fifoRun, fifoRun_append [] ops ops₂]
  | c :: q, .pop :: ops, ops₂ => by
    simp only [List.cons_append, fifoRun, fifoRun_append q ops ops₂]

theorem pushed_append : ∀ ops₁ ops₂ : List KeyboardOp,
    pushed (ops₁ ++ ops₂) = pushed ops₁ ++ pushed ops₂
  | [], _ => rfl
  | .push c :: ops, ops₂ => congrArg (c :: ·) (pushed_append ops ops₂)
  | .pop :: ops, ops₂ => pushed_append ops ops₂

/-- A pop of the queue. -/
theorem fifoRun_pop : fifoRun q (.pop :: ops) =
    (q.headD 0 :: (fifoRun q.tail ops).1, (fifoRun q.tail ops).2) := by
  cases q <;> rfl

/-- **First in, first out.** The characters read and then those unread
are the characters pushed, in order. -/
theorem fifoRun_order : ∀ (q : List Byte) (ops : List KeyboardOp), (∀ c ∈ q, c ≠ 0) →
    NonzeroPushes ops → (fifoRun q ops).1.filter isRead ++ (fifoRun q ops).2 = q ++ pushed ops
  | q, [], _, _ => (List.append_nil q).symm
  | q, .push c :: ops, hq, hops => by
    have hq' : ∀ d ∈ q ++ [c], d ≠ 0 := fun d hd => by
      rcases List.mem_append.1 hd with hd | hd
      · exact hq d hd
      · exact hops d (List.mem_singleton.1 hd ▸ List.mem_cons_self ..)
    have h := fifoRun_order (q ++ [c]) ops hq' fun d hd => hops d (List.mem_cons_of_mem _ hd)
    rwa [List.append_assoc, List.singleton_append] at h
  | [], .pop :: ops, hq, hops => by
    have h := fifoRun_order [] ops hq hops
    rwa [fifoRun, List.filter_cons_of_neg (by decide)]
  | c :: q, .pop :: ops, hq, hops => by
    have h := fifoRun_order q ops
      (fun d hd => hq d (List.mem_cons_of_mem _ hd)) hops
    have hc : isRead c = true := decide_eq_true (hq c (List.mem_cons_self ..))
    rw [fifoRun, List.filter_cons_of_pos hc, List.cons_append, h]
    rfl

/-! ## The buffer -/

/-- **The buffer of the process that is current both ways holds `q`.** -/
structure KeyboardHolds (k : Kernel) (process : Word) (q : List Byte) : Prop where
  process_ne : process ≠ 0
  current : k.currentProcess = process
  task : k.currentTask ≠ 0 ∧ ∃ t, k.tasks k.currentTask = some t ∧ t.process = process
  ring : ∃ p, k.processes process = some p ∧
    RingHolds p.keyboard.buffer 0 osKeyboardBufferSize p.keyboard.head.toNat q ∧
    p.keyboard.tail = p.keyboard.head + BitVec.ofNat 32 q.length

/-- A counter and the counter `n` on, on the ring. The 32-bit wrap is at a
multiple of the ring's size. -/
theorem toNat_add_mod (head : Word) (n : ℕ) :
    (head + BitVec.ofNat 32 n).toNat % osKeyboardBufferSize =
      (head.toNat + n) % osKeyboardBufferSize := by
  unfold osKeyboardBufferSize
  rw [BitVec.toNat_add, BitVec.toNat_ofNat]
  omega

/-- The process that is current both ways has this buffer. -/
structure KeyboardOf (k : Kernel) (process : Word) (keyboard : KeyboardBuffer) : Prop where
  process_ne : process ≠ 0
  current : k.currentProcess = process
  task : k.currentTask ≠ 0 ∧ ∃ t, k.tasks k.currentTask = some t ∧ t.process = process
  process : ∃ p, k.processes process = some p ∧ p.keyboard = keyboard

/-- The buffer holds `q`, and its tail is `n` characters on from its
head. -/
def BufferHolds (keyboard : KeyboardBuffer) (q : List Byte) (n : ℕ) : Prop :=
  RingHolds keyboard.buffer 0 osKeyboardBufferSize keyboard.head.toNat q ∧
    keyboard.tail = keyboard.head + BitVec.ofNat 32 n

theorem keyboardHolds_iff : KeyboardHolds k process q ↔
    ∃ keyboard, KeyboardOf k process keyboard ∧ BufferHolds keyboard q q.length := by
  constructor
  · intro h
    obtain ⟨p, hp, hring, htail⟩ := h.ring
    exact ⟨p.keyboard, ⟨h.process_ne, h.current, h.task, p, hp, rfl⟩, hring, htail⟩
  · rintro ⟨keyboard, h, hring, htail⟩
    obtain ⟨p, hp, rfl⟩ := h.process
    exact ⟨h.process_ne, h.current, h.task, p, hp, hring, htail⟩

namespace KeyboardOf

variable {keyboard : KeyboardBuffer}

/-- A push stores the character. -/
theorem push (h : KeyboardOf k process keyboard) (hc : c ≠ 0) :
    ∃ k', keyboardPush c k = .ok (⟨⟩, k') ∧ KeyboardOf k' process (keyboardStore keyboard c) := by
  obtain ⟨p, hp, rfl⟩ := h.process
  refine ⟨k.setProcess process (some { p with keyboard := keyboardStore p.keyboard c }), ?_,
    h.process_ne, h.current, h.task, _, setProcess_processes_self, rfl⟩
  unfold keyboardPush
  rw [Fallible.run_get_bind, h.current, if_neg h.process_ne, if_neg hc]
  exact run_modifyProcess.2 ⟨h.process_ne, p, hp, rfl⟩

/-- What a pop does with the buffer. -/
theorem pop_eq (h : KeyboardOf k process keyboard) : keyboardPop k =
    (let c := keyboard.buffer (keyboardGetHeadIndex keyboard)
    if c = 0 then pure 0
    else do
      modifyProcess process fun p => { p with keyboard := keyboardTake p.keyboard }
      pure c : KernelM Byte) k := by
  obtain ⟨p, hp, rfl⟩ := h.process
  obtain ⟨htask, t, ht, hprocess⟩ := h.task
  have hread : readTask k.currentTask k = .ok (t, k) := run_readTask.2 ⟨htask, ht, rfl⟩
  have hread' : readProcess t.process k = .ok (p, k) :=
    run_readProcess.2 ⟨hprocess ▸ h.process_ne, hprocess ▸ hp, rfl⟩
  have hget : (get : KernelM Kernel) k = .ok (k, k) := rfl
  unfold keyboardPop
  rw [Fallible.bind_ok hget, if_neg htask, Fallible.bind_ok hread, Fallible.bind_ok hread', hprocess]

/-- A pop at a blank cell changes nothing. -/
theorem pop_blank (h : KeyboardOf k process keyboard)
    (hblank : keyboard.buffer (keyboardGetHeadIndex keyboard) = 0) :
    keyboardPop k = .ok (0, k) := by
  rw [h.pop_eq]
  simp only [if_pos hblank]
  rfl

/-- A pop takes the character at the head. -/
theorem pop (h : KeyboardOf k process keyboard)
    (hne : keyboard.buffer (keyboardGetHeadIndex keyboard) ≠ 0) :
    ∃ k', keyboardPop k = .ok (keyboard.buffer (keyboardGetHeadIndex keyboard), k') ∧
      KeyboardOf k' process (keyboardTake keyboard) := by
  rw [h.pop_eq]
  simp only [if_neg hne]
  obtain ⟨p, hp, rfl⟩ := h.process
  refine ⟨k.setProcess process (some { p with keyboard := keyboardTake p.keyboard }),
    Fallible.run_seq.2 ⟨_, run_modifyProcess.2 ⟨h.process_ne, p, hp, rfl⟩, rfl⟩,
    h.process_ne, h.current, h.task, _, setProcess_processes_self, rfl⟩

end KeyboardOf

namespace BufferHolds

variable {keyboard : KeyboardBuffer} {n : ℕ}

/-- A character stored at the tail. -/
theorem store {q' : List Byte} (h : BufferHolds keyboard q n)
    (hring : RingHolds (Function.update keyboard.buffer
      ((keyboard.head.toNat + n) % osKeyboardBufferSize) c) 0 osKeyboardBufferSize
      keyboard.head.toNat q') :
    BufferHolds (keyboardStore keyboard c) q' (n + 1) := by
  have hindex : keyboardGetTailIndex keyboard =
      (keyboard.head.toNat + n) % osKeyboardBufferSize := by
    unfold keyboardGetTailIndex
    rw [h.2, toNat_add_mod]
  unfold keyboardStore
  rw [hindex]
  refine ⟨hring, ?_⟩
  simp only
  rw [h.2, BitVec.ofNat_add]
  exact BitVec.add_assoc ..

/-- The cell a pop reads. -/
theorem head (h : BufferHolds keyboard q n) :
    keyboard.buffer (keyboardGetHeadIndex keyboard) = q.headD 0 := by
  cases q with
  | nil => exact (h.1.blank_iff (by decide)).2 rfl
  | cons c q => exact h.1.pop.1

/-- A character taken at the head. -/
theorem take (h : BufferHolds keyboard (c :: q) (n + 1)) :
    BufferHolds (keyboardTake keyboard) q n := by
  refine ⟨h.1.pop.2.congr_head (toNat_add_mod keyboard.head 1), ?_⟩
  unfold keyboardTake
  simp only
  rw [h.2, Nat.add_comm, BitVec.ofNat_add]
  exact (BitVec.add_assoc ..).symm

/-- The first character is popped. -/
theorem pop (h : BufferHolds keyboard (c :: q) (n + 1)) (hk : KeyboardOf k process keyboard) :
    ∃ k', keyboardPop k = .ok (c, k') ∧ KeyboardOf k' process (keyboardTake keyboard) := by
  have hcell : keyboard.buffer (keyboardGetHeadIndex keyboard) = c := h.head
  have hpop := hk.pop (hcell.symm ▸ h.1.ne_blank c (List.mem_cons_self ..))
  rwa [hcell] at hpop

end BufferHolds

/-- **A push puts the character behind the queue.** -/
theorem keyboardPush_holds (h : KeyboardHolds k process q) (hc : c ≠ 0)
    (hroom : q.length < osKeyboardBufferSize) :
    ∃ k', keyboardPush c k = .ok (⟨⟩, k') ∧ KeyboardHolds k' process (q ++ [c]) := by
  obtain ⟨keyboard, hk, hbuffer⟩ := keyboardHolds_iff.1 h
  obtain ⟨k', hpush, hk'⟩ := hk.push hc
  refine ⟨k', hpush, keyboardHolds_iff.2 ⟨_, hk', ?_⟩⟩
  rw [List.length_append, List.length_singleton]
  exact hbuffer.store (hbuffer.1.push hroom hc)

/-- **A pop takes the first character of the queue**, or returns zero when
there is none. -/
theorem keyboardPop_holds (h : KeyboardHolds k process q) :
    ∃ k', keyboardPop k = .ok (q.headD 0, k') ∧ KeyboardHolds k' process q.tail := by
  obtain ⟨keyboard, hk, hbuffer⟩ := keyboardHolds_iff.1 h
  cases q with
  | nil => exact ⟨k, hk.pop_blank hbuffer.head, h⟩
  | cons c q =>
    obtain ⟨k', hpop, hk'⟩ := hbuffer.pop hk
    exact ⟨k', hpop, keyboardHolds_iff.2 ⟨_, hk', hbuffer.take⟩⟩

/-- **A run returns what the queue returns.** -/
theorem keyboardRun_eq : ∀ (ops : List KeyboardOp) {k : Kernel} {q : List Byte},
    KeyboardHolds k process q → NonzeroPushes ops → FifoBounded q ops →
    ∃ k', keyboardRun ops k = .ok ((fifoRun q ops).1, k') ∧
      KeyboardHolds k' process (fifoRun q ops).2
  | [], k, q, h, _, _ => ⟨k, rfl, h⟩
  | .push c :: ops, k, q, h, hne, hb => by
    have hroom := hb [.push c] (List.prefix_append [KeyboardOp.push c] ops)
    simp only [fifoRun, List.length_append, List.length_singleton] at hroom
    obtain ⟨k₁, hpush, h₁⟩ := keyboardPush_holds h (hne c (List.mem_cons_self ..)) hroom
    obtain ⟨k', hrun, h'⟩ := keyboardRun_eq ops h₁
      (fun d hd => hne d (List.mem_cons_of_mem _ hd))
      fun ops₁ hpre => hb (.push c :: ops₁) (List.cons_prefix_cons.2 ⟨rfl, hpre⟩)
    exact ⟨k', Fallible.run_seq.2 ⟨k₁, hpush, hrun⟩, h'⟩
  | .pop :: ops, k, q, h, hne, hb => by
    obtain ⟨k₁, hpop, h₁⟩ := keyboardPop_holds h
    have hb' : FifoBounded q.tail ops := fun ops₁ hpre => by
      have hpop' := hb (.pop :: ops₁) (List.cons_prefix_cons.2 ⟨rfl, hpre⟩)
      rwa [fifoRun_pop] at hpop'
    obtain ⟨k', hrun, h'⟩ := keyboardRun_eq ops h₁ hne hb'
    rw [fifoRun_pop]
    refine ⟨k', Fallible.run_bind.2 ⟨_, k₁, hpop, ?_⟩, h'⟩
    exact Fallible.run_bind.2 ⟨_, k', hrun, rfl⟩

/-- **The keyboard buffer is first in, first out.** For a process that is
current both ways, with a cleared buffer, and a sequence of calls that
pushes no zero and never leaves more than 1024 characters unread: the
characters that the pops return, zeros apart, are the first of those
pushed, in order, and a pop returns zero exactly when every character
pushed before it has been returned. -/
theorem keyboardRun_fifo (h : KeyboardHolds k process []) (hne : NonzeroPushes ops)
    (hb : FifoBounded [] ops) :
    ∃ results k', keyboardRun ops k = .ok (results, k') ∧ results.filter isRead <+: pushed ops ∧
      ∀ ops₁ ops₂, ops = ops₁ ++ .pop :: ops₂ → ∃ results₁ c results₂ k₁,
        keyboardRun ops₁ k = .ok (results₁, k₁) ∧ results = results₁ ++ c :: results₂ ∧
          (c = 0 ↔ results₁.filter isRead = pushed ops₁) := by
  obtain ⟨k', hrun, -⟩ := keyboardRun_eq ops h hne hb
  refine ⟨_, k', hrun, ⟨_, fifoRun_order [] ops (fun _ hd => absurd hd List.not_mem_nil) hne⟩, ?_⟩
  rintro ops₁ ops₂ rfl
  have hne₁ : NonzeroPushes ops₁ := fun c hc =>
    hne c (by rw [pushed_append]; exact List.mem_append_left _ hc)
  obtain ⟨k₁, hrun₁, h₁⟩ := keyboardRun_eq ops₁ h hne₁
    fun pre hpre => hb pre (hpre.trans (List.prefix_append ..))
  have horder := fifoRun_order [] ops₁ (fun _ hd => absurd hd List.not_mem_nil) hne₁
  rw [List.nil_append] at horder
  rw [fifoRun_append, fifoRun_pop]
  refine ⟨_, _, _, k₁, hrun₁, rfl, ?_⟩
  obtain ⟨p, -, hring, -⟩ := h₁.ring
  rw [← horder]
  cases hq : (fifoRun [] ops₁).2 with
  | nil => simp
  | cons c q =>
    have hc : ¬ c = 0#8 := hring.ne_blank c (hq ▸ List.mem_cons_self ..)
    simp [hc]

/-- A kernel with one process, the one at 1, whose buffer's counters are
about to wrap past the largest `int`. -/
def keyboardKernel : Kernel where
  store := ⟨kernelHeapInit, fun _ => 0⟩
  tasks t := if t = 2 then some { Task.zero with process := 1 } else none
  processes p := if p = 1 then
    some { Process.zero with keyboard := ⟨fun _ => 0, 0x7FFFFFFF, 0x7FFFFFFF⟩ } else none
  elfFiles _ := none
  taskHead := 2
  taskTail := 2
  currentTask := 2
  processTable i := if i = 0 then 1 else 0
  currentProcess := 1
  objects _ := none
  disk := ⟨none, none⟩
  fileDescriptors _ := 0

theorem keyboardHolds_keyboardKernel : KeyboardHolds keyboardKernel 1 [] where
  process_ne := by decide
  current := rfl
  task := ⟨by decide, _, rfl, rfl⟩
  ring := ⟨_, rfl, .nil fun _ => rfl, rfl⟩

/-- A short run leaves few characters unread. -/
theorem length_fifoRun_le : ∀ (q : List Byte) (ops : List KeyboardOp),
    (fifoRun q ops).2.length ≤ q.length + ops.length
  | _, [] => le_rfl
  | q, .push c :: ops => by
    have h := length_fifoRun_le (q ++ [c]) ops
    rw [fifoRun]
    simp only [List.length_append, List.length_cons, List.length_nil] at h ⊢
    omega
  | q, .pop :: ops => by
    have h := length_fifoRun_le q.tail ops
    rw [fifoRun_pop]
    simp only [List.length_tail, List.length_cons] at h ⊢
    omega

/-- Two characters come out in order, past the wrap of both counters. -/
theorem keyboardRun_fifo_two_characters :
    let ops : List KeyboardOp := [.push 0x61, .push 0x62, .pop, .pop, .pop]
    ∃ results k', keyboardRun ops keyboardKernel = .ok (results, k') ∧
      results.filter isRead <+: pushed ops ∧
      ∀ ops₁ ops₂, ops = ops₁ ++ .pop :: ops₂ → ∃ results₁ c results₂ k₁,
        keyboardRun ops₁ keyboardKernel = .ok (results₁, k₁) ∧ results = results₁ ++ c :: results₂ ∧
          (c = 0 ↔ results₁.filter isRead = pushed ops₁) :=
  keyboardRun_fifo keyboardHolds_keyboardKernel (by decide) fun ops₁ hpre =>
    (length_fifoRun_le [] ops₁).trans (by
      have := hpre.length_le
      simp only [List.length_cons, List.length_nil] at this
      unfold osKeyboardBufferSize
      simp only [List.length_nil]
      omega)

end OwnKernel
