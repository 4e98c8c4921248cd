import Mathlib.Data.List.Induction
import OwnKernel.Keyboard.Queue

/-!
# A keyboard buffer that overflows

`keyboard_push` does not ask whether the buffer is full. While it never
is, characters come out in order and none stays behind
(`KeyboardRunSound`). The first push onto a full buffer overwrites the
oldest character with the newest, and takes the tail a whole turn past
the head; from there on a pop looks at another cell than the one that was
pushed to (`not_keyboardRunSound`).
-/

namespace OwnKernel

variable {k k' : Kernel} {process : Word} {keyboard : KeyboardBuffer} {q : List Byte} {n : ℕ}
  {ops : List KeyboardOp} {c : Byte}

/-- The process's keyboard buffer holds no character. -/
def BufferBlank (k : Kernel) (process : Word) : Prop :=
  ∃ p, k.processes process = some p ∧ ∀ i < osKeyboardBufferSize, p.keyboard.buffer i = 0

/-- **A run keeps the characters' order**: those read are some of those
pushed, in order, and when a pop returns zero no character is left in the
buffer. -/
def KeyboardRunSound (k : Kernel) (process : Word) (ops : List KeyboardOp) : Prop :=
  ∃ results k', keyboardRun ops k = .ok (results, k') ∧
    (results.filter isRead).Sublist (pushed ops) ∧
    ∀ ops₁ results₁ k₁, ops₁ ++ [.pop] <+: ops →
      keyboardRun (ops₁ ++ [.pop]) k = .ok (results₁ ++ [0], k₁) → BufferBlank k₁ process

/-! ## Below the buffer's size -/

/-- A buffer that holds no queue is blank. -/
theorem KeyboardHolds.bufferBlank (h : KeyboardHolds k process []) : BufferBlank k process := by
  obtain ⟨p, hp, hring, -⟩ := h.ring
  exact ⟨p, hp, fun i hi => hring.blank_of_nil hi⟩

/-- Two runs, one after the other. -/
theorem keyboardRun_append {results' : List Byte} {k₁ : Kernel} {ops' : List KeyboardOp} :
    ∀ (ops : List KeyboardOp) {results : List Byte} {k : Kernel},
      keyboardRun ops k = .ok (results, k₁) → keyboardRun ops' k₁ = .ok (results', k') →
      keyboardRun (ops ++ ops') k = .ok (results ++ results', k')
  | [], results, k, hrun, hrun' => by
    obtain ⟨rfl, rfl⟩ := Fallible.run_pure.1 hrun
    exact hrun'
  | .push d :: ops, results, k, hrun, hrun' => by
    obtain ⟨k₂, hpush, hrest⟩ := Fallible.run_seq.1 hrun
    exact Fallible.run_seq.2 ⟨k₂, hpush, keyboardRun_append ops hrest hrun'⟩
  | .pop :: ops, results, k, hrun, hrun' => by
    obtain ⟨d, k₂, hfirst, hrun⟩ := Fallible.run_bind.1 hrun
    obtain ⟨ds, k₃, hrest, hrun⟩ := Fallible.run_bind.1 hrun
    obtain ⟨rfl, rfl⟩ := Fallible.run_pure.1 hrun
    exact Fallible.run_bind.2 ⟨d, k₂, hfirst,
      Fallible.run_bind.2 ⟨_, k', keyboardRun_append ops hrest hrun', rfl⟩⟩

/-- A run of a single pop. -/
theorem keyboardRun_pop (h : keyboardPop k = .ok (c, k')) : keyboardRun [.pop] k = .ok ([c], k') :=
  Fallible.run_bind.2 ⟨c, k', h, rfl⟩

/-- **Below the buffer's size the order is kept.** -/
theorem KeyboardHolds.keyboardRunSound (h : KeyboardHolds k process []) (hne : NonzeroPushes ops)
    (hb : FifoBounded [] ops) : KeyboardRunSound k process ops := by
  obtain ⟨k', hrun, -⟩ := keyboardRun_eq ops h hne hb
  refine ⟨_, k', hrun, ?_, fun ops₁ results₁ k₁ hpre hrun₁ => ?_⟩
  · have horder := fifoRun_order [] ops (fun _ hd => absurd hd List.not_mem_nil) hne
    rw [List.nil_append] at horder
    exact horder ▸ List.sublist_append_left _ _
  · have hpre' : ops₁ <+: ops := (List.prefix_append ..).trans hpre
    obtain ⟨ops₂, rfl⟩ := hpre'
    have hne₁ : NonzeroPushes ops₁ := fun d hd =>
      hne d (by rw [pushed_append]; exact List.mem_append_left _ hd)
    obtain ⟨k₂, hrun₂, h₂⟩ := keyboardRun_eq ops₁ h hne₁
      fun pre hpre => hb pre (hpre.trans (List.prefix_append ..))
    obtain ⟨k₃, hpop, h₃⟩ := keyboardPop_holds h₂
    have heq := (keyboardRun_append ops₁ hrun₂ (keyboardRun_pop hpop)).symm.trans hrun₁
    obtain ⟨hresults, rfl⟩ := Prod.mk.inj (Except.ok.inj heq)
    have hzero : (fifoRun [] ops₁).2.headD 0 = 0 :=
      List.head_eq_of_cons_eq (List.append_inj' hresults rfl).2
    -- a pop returns zero when the queue is empty only
    obtain ⟨p, -, hring, -⟩ := h₂.ring
    cases hq : (fifoRun [] ops₁).2 with
    | nil =>
      rw [hq] at h₃
      exact h₃.bufferBlank
    | cons d q =>
      rw [hq] at hzero hring
      exact absurd hzero (hring.ne_blank d (List.mem_cons_self ..))

/-! ## A push onto a full buffer -/

/-- The newest character takes the oldest one's place. -/
theorem BufferHolds.overflow {d : Byte}
    (h : BufferHolds keyboard (c :: q) osKeyboardBufferSize) (hd : d ≠ 0) :
    BufferHolds (keyboardStore keyboard d) (d :: q) (osKeyboardBufferSize + 1) := by
  refine h.store ?_
  rw [Nat.add_mod_right]
  exact h.1.overwrite hd

/-- As many pops as there are characters. -/
theorem keyboardRun_drain : ∀ (q : List Byte) {n : ℕ} {k : Kernel} {keyboard : KeyboardBuffer},
    KeyboardOf k process keyboard → BufferHolds keyboard q (q.length + n) →
    ∃ k' keyboard', keyboardRun (List.replicate q.length .pop) k = .ok (q, k') ∧
      KeyboardOf k' process keyboard' ∧ BufferHolds keyboard' [] n
  | [], n, k, keyboard, hk, h => ⟨k, keyboard, rfl, hk, by rwa [List.length_nil, Nat.zero_add] at h⟩
  | c :: q, n, k, keyboard, hk, h => by
    rw [List.length_cons, Nat.add_right_comm] at h
    obtain ⟨k₁, hpop, hk₁⟩ := h.pop hk
    obtain ⟨k', keyboard', hrun, hk', h'⟩ := keyboardRun_drain q hk₁ h.take
    exact ⟨k', keyboard', Fallible.run_bind.2 ⟨c, k₁, hpop,
      Fallible.run_bind.2 ⟨q, k', hrun, rfl⟩⟩, hk', h'⟩

/-- Pops push nothing. -/
theorem pushed_replicate_pop : ∀ n : ℕ, pushed (List.replicate n .pop) = []
  | 0 => rfl
  | n + 1 => pushed_replicate_pop n

/-- **Past a full buffer a pop misses a character.** When the buffer is
drained after the push that overflows it, the next character `e` is stored
where no pop looks. -/
theorem keyboardRun_overflow {d e : Byte} (h : KeyboardHolds k process q)
    (hfull : q.length = osKeyboardBufferSize) (hd : d ≠ 0) (he : e ≠ 0) :
    ∃ ops results k', pushed ops = [e] ∧
      keyboardRun (.push d :: ops ++ [.pop]) k = .ok (results ++ [0], k') ∧
      ¬ BufferBlank k' process := by
  obtain ⟨keyboard, hk, hbuffer⟩ := keyboardHolds_iff.1 h
  obtain ⟨c, q, rfl⟩ : ∃ c q', q = c :: q' := List.exists_cons_of_length_pos (by
    rw [hfull]
    decide)
  rw [hfull] at hbuffer
  obtain ⟨k₁, hpush, hk₁⟩ := hk.push hd
  have hbuffer₁ := hbuffer.overflow hd
  rw [← hfull] at hbuffer₁
  obtain ⟨k₂, keyboard₂, hdrain, hk₂, hbuffer₂⟩ := keyboardRun_drain (d :: q) hk₁ hbuffer₁
  obtain ⟨k₃, hpush₃, hk₃⟩ := hk₂.push he
  -- the tail is one character on from the head, where the pop looks
  have hindex : keyboardGetTailIndex keyboard₂ ≠ keyboardGetHeadIndex keyboard₂ := by
    unfold keyboardGetTailIndex keyboardGetHeadIndex
    rw [hbuffer₂.2, toNat_add_mod]
    unfold osKeyboardBufferSize
    omega
  have hblank : (keyboardStore keyboard₂ e).buffer (keyboardGetHeadIndex (keyboardStore keyboard₂ e))
      = 0 := (Function.update_of_ne hindex.symm ..).trans hbuffer₂.head
  have hpop := keyboardRun_pop (hk₃.pop_blank hblank)
  refine ⟨List.replicate (d :: q).length .pop ++ [.push e], d :: q, k₃, ?_, ?_, ?_⟩
  · rw [pushed_append, pushed_replicate_pop]
    rfl
  · rw [List.cons_append, List.append_assoc]
    exact Fallible.run_seq.2 ⟨k₁, hpush, keyboardRun_append _ hdrain
      (Fallible.run_seq.2 ⟨k₃, hpush₃, hpop⟩)⟩
  · rintro ⟨p, hp, hall⟩
    obtain ⟨p', hp', hkeyboard⟩ := hk₃.process
    obtain rfl := Option.some.inj (hp.symm.trans hp')
    have hcell : p.keyboard.buffer (keyboardGetTailIndex keyboard₂) = e := by
      rw [hkeyboard]
      exact Function.update_self ..
    exact he (hcell.symm.trans (hall _ (Nat.mod_lt _ (by decide))))

/-- **A full buffer, and a push**: the run can be continued so that a
character stays behind. -/
theorem KeyboardHolds.not_keyboardRunSound {d : Byte} (h : KeyboardHolds k process [])
    (hne : NonzeroPushes ops) (hb : FifoBounded [] ops)
    (hfull : (fifoRun [] ops).2.length = osKeyboardBufferSize) (hd : d ≠ 0) :
    ∃ ops₂, NonzeroPushes (ops ++ .push d :: ops₂) ∧
      ¬ KeyboardRunSound k process (ops ++ .push d :: ops₂) := by
  obtain ⟨k₁, hrun, h₁⟩ := keyboardRun_eq ops h hne hb
  obtain ⟨ops₂, results, k', hpushed, hrun', hleft⟩ :=
    keyboardRun_overflow h₁ hfull hd (e := 0x61) (by decide)
  have hwhole := keyboardRun_append ops hrun hrun'
  rw [← List.append_assoc, ← List.append_assoc] at hwhole
  refine ⟨ops₂ ++ [.pop], fun c hc => ?_, ?_⟩
  · have hmem : c ∈ pushed ops ++ d :: ([0x61] ++ []) := by
      rw [pushed_append, pushed, pushed_append, hpushed] at hc
      exact hc
    rcases List.mem_append.1 hmem with hc | hc
    · exact hne c hc
    · rcases List.mem_cons.1 hc with rfl | hc
      · exact hd
      · rw [List.mem_singleton.1 hc]
        decide
  · rintro ⟨-, -, -, -, hall⟩
    have hsame : ops ++ .push d :: ops₂ ++ [.pop] = ops ++ .push d :: (ops₂ ++ [.pop]) := by
      rw [List.append_assoc, List.cons_append]
    exact hleft (hall (ops ++ .push d :: ops₂) _ k' (hsame ▸ List.prefix_rfl) hwhole)

/-- A run that exceeds the buffer's size does so at a push onto a full
buffer. -/
theorem exists_overflow (h : ¬ FifoBounded [] ops) : ∃ ops₁ d, ops₁ ++ [.push d] <+: ops ∧
    FifoBounded [] ops₁ ∧ (fifoRun [] ops₁).2.length = osKeyboardBufferSize := by
  induction ops using List.reverseRecOn with
  | nil =>
    refine absurd (fun ops₁ hpre => ?_) h
    rw [List.prefix_nil.1 hpre]
    exact Nat.zero_le _
  | append_singleton ops op ih =>
    by_cases hb : FifoBounded [] ops
    · have hlen : osKeyboardBufferSize < (fifoRun [] (ops ++ [op])).2.length := by
        by_contra hle
        refine h fun ops₁ hpre => ?_
        rcases List.prefix_concat_iff.1 hpre with rfl | hpre
        · exact Nat.le_of_not_lt hle
        · exact hb ops₁ hpre
      have hold := hb ops List.prefix_rfl
      rw [fifoRun_append] at hlen
      cases op with
      | push d =>
        rw [fifoRun, fifoRun, List.length_append, List.length_singleton] at hlen
        exact ⟨ops, d, List.prefix_rfl, hb, by omega⟩
      | pop =>
        rw [fifoRun_pop, fifoRun, List.length_tail] at hlen
        omega
    · obtain ⟨ops₁, d, hpre, hfull⟩ := ih hb
      exact ⟨ops₁, d, hpre.trans (List.prefix_append ..), hfull⟩

/-- **When the characters keep their order.** From an empty buffer, a run
in which no character is pushed while 1024 are unread is sound. A run in
which one is has, up to that push, a continuation which is not. -/
theorem keyboardRun_sound (h : KeyboardHolds k process []) (hne : NonzeroPushes ops) :
    (FifoBounded [] ops → KeyboardRunSound k process ops) ∧
      (¬ FifoBounded [] ops → ∃ ops₁ ops₂, ops₁ <+: ops ∧ NonzeroPushes (ops₁ ++ ops₂) ∧
        ¬ KeyboardRunSound k process (ops₁ ++ ops₂)) := by
  refine ⟨h.keyboardRunSound hne, fun hb => ?_⟩
  obtain ⟨ops₁, d, hpre, hb₁, hfull⟩ := exists_overflow hb
  obtain ⟨rest, rfl⟩ := hpre
  have hpushed : ∀ c ∈ pushed ops₁ ++ [d], c ≠ 0 := fun c hc =>
    hne c (by rw [pushed_append, pushed_append]; exact List.mem_append_left _ hc)
  have hne₁ : NonzeroPushes ops₁ := fun c hc => hpushed c (List.mem_append_left _ hc)
  have hd : d ≠ 0 := hpushed d (List.mem_append_right _ (List.mem_singleton.2 rfl))
  obtain ⟨ops₂, hne₂, hnot⟩ := h.not_keyboardRunSound hne₁ hb₁ hfull hd
  refine ⟨ops₁ ++ [.push d], ops₂, List.prefix_append .., ?_, ?_⟩
  · rwa [List.append_assoc]
  · rwa [List.append_assoc]

/-- Two characters typed and read. -/
theorem keyboardRun_sound_two_characters :
    let ops : List KeyboardOp := [.push 0x61, .push 0x62, .pop, .pop, .pop]
    (FifoBounded [] ops → KeyboardRunSound keyboardKernel 1 ops) ∧
      (¬ FifoBounded [] ops → ∃ ops₁ ops₂, ops₁ <+: ops ∧ NonzeroPushes (ops₁ ++ ops₂) ∧
        ¬ KeyboardRunSound keyboardKernel 1 (ops₁ ++ ops₂)) :=
  keyboardRun_sound keyboardHolds_keyboardKernel (by decide)

/-- The queue of a character typed `n` times. -/
theorem fifoRun_replicate_push (c : Byte) : ∀ (n : ℕ) (q : List Byte),
    fifoRun q (List.replicate n (.push c)) = ([], q ++ List.replicate n c)
  | 0, q => congrArg (([] : List Byte), ·) (List.append_nil q).symm
  | n + 1, q => by
    rw [List.replicate_succ, fifoRun, fifoRun_replicate_push c n, List.append_assoc]
    rfl

theorem pushed_replicate_push (c : Byte) : ∀ n : ℕ,
    pushed (List.replicate n (.push c)) = List.replicate n c
  | 0 => rfl
  | n + 1 => congrArg (c :: ·) (pushed_replicate_push c n)

/-- **Not every run is sound**: a letter typed 1024 times, and once
more. -/
theorem not_keyboardSound : ¬ ∀ (k : Kernel) (process : Word) (ops : List KeyboardOp),
    KeyboardHolds k process [] → NonzeroPushes ops → KeyboardRunSound k process ops := by
  intro h
  have hne : NonzeroPushes (List.replicate osKeyboardBufferSize (.push 0x61)) := fun c hc => by
    rw [pushed_replicate_push] at hc
    rw [List.eq_of_mem_replicate hc]
    decide
  have hlength : ∀ n, (fifoRun [] (List.replicate n (.push 0x61))).2.length = n := fun n => by
    rw [fifoRun_replicate_push, List.nil_append, List.length_replicate]
  have hb : FifoBounded [] (List.replicate osKeyboardBufferSize (.push 0x61)) := fun ops₁ hpre => by
    obtain ⟨hle, heq⟩ := List.prefix_replicate_iff.1 hpre
    rw [heq, hlength]
    exact hle
  obtain ⟨ops₂, hne₂, hnot⟩ := keyboardHolds_keyboardKernel.not_keyboardRunSound hne hb
    (hlength _) (d := 0x62) (by decide)
  exact hnot (h keyboardKernel 1 _ keyboardHolds_keyboardKernel hne₂)

end OwnKernel
