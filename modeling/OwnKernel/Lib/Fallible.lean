import Mathlib.Logic.Basic
import Mathlib.Tactic.Common

/-!
# Fallible state transformers

Programs that carry a state and may stop with an error. What is wanted
of a run is read off backwards: a sequence that finished has finished
its first part and then the rest (`run_bind`), and one lemma for each
primitive says what finishing it means. `simp only [run_bind, …]`
followed by `obtain` takes a do-block apart without unfolding the monad.
-/

namespace OwnKernel

variable {σ ε α β : Type}

/-- A program over the state `σ` that may stop with an `ε`. -/
abbrev Fallible (σ ε : Type) := StateT σ (Except ε)

namespace Fallible

variable {x : Fallible σ ε α} {f : α → Fallible σ ε β} {s s' : σ} {a : α} {b : β}

/-- A sequence finishes when its first part does and the rest does from
there. -/
theorem run_bind : (x >>= f) s = .ok (b, s') ↔ ∃ a t, x s = .ok (a, t) ∧ f a t = .ok (b, s') := by
  change Except.bind (x s) _ = _ ↔ _
  rcases x s with e | ⟨a, t⟩
  · simp [Except.bind]
  · simp [Except.bind]

/-- A first step that is known. -/
theorem bind_ok {a : α} {t : σ} (h : x s = .ok (a, t)) : (x >>= f) s = f a t := by
  change Except.bind (x s) _ = _
  rw [h]
  rfl

/-- A first step that is known, of a program without a state. -/
theorem ok_bind {f : α → Except ε β} : (Except.ok a >>= f) = f a := rfl

/-- The same for a first part whose value is dropped. -/
theorem run_seq {y : Fallible σ ε β} {x : Fallible σ ε PUnit} :
    (do x; y) s = .ok (b, s') ↔ ∃ t, x s = .ok (⟨⟩, t) ∧ y t = .ok (b, s') := by
  rw [run_bind]
  exact ⟨fun ⟨_, t, h⟩ => ⟨t, h⟩, fun ⟨t, h⟩ => ⟨⟨⟩, t, h⟩⟩

/-- Sequences that go on alike. -/
theorem run_bind_congr {g : α → Fallible σ ε β} (h : ∀ a t, x s = .ok (a, t) → f a t = g a t) :
    (x >>= f) s = (x >>= g) s := by
  change Except.bind (x s) _ = Except.bind (x s) _
  rcases hx : x s with e | ⟨a, t⟩
  · rfl
  · exact h a t hx

/-- Sequences that start alike. -/
theorem run_bind_congr_left {y : Fallible σ ε α} (h : x s = y s) : (x >>= f) s = (y >>= f) s := by
  change Except.bind (x s) _ = Except.bind (y s) _
  rw [h]

/-- A returned value leaves the state alone. -/
theorem run_pure {a' : α} : (pure a : Fallible σ ε α) s = .ok (a', s') ↔ a' = a ∧ s' = s := by
  change Except.ok (a, s) = _ ↔ _
  constructor
  · rintro h; cases h; exact ⟨rfl, rfl⟩
  · rintro ⟨rfl, rfl⟩; rfl

/-- A program that stops does not finish. -/
theorem run_throw {e : ε} : ¬ (throw e : Fallible σ ε α) s = .ok (a, s') := by
  intro h; cases h

/-- Reading the state. -/
theorem run_get {t : σ} : (get : Fallible σ ε σ) s = .ok (t, s') ↔ t = s ∧ s' = s := by
  change Except.ok (s, s) = _ ↔ _
  constructor
  · rintro h; cases h; exact ⟨rfl, rfl⟩
  · rintro ⟨rfl, rfl⟩; rfl

/-- What follows a read gets the state. -/
theorem run_get_bind {g : σ → Fallible σ ε β} :
    (do let t ← get; g t) s = .ok (b, s') ↔ g s s = .ok (b, s') := Iff.rfl

/-- Writing the state. -/
theorem run_set {t : σ} {u : PUnit} :
    (set t : Fallible σ ε PUnit) s = .ok (u, s') ↔ s' = t := by
  change Except.ok (_, t) = _ ↔ _
  constructor
  · rintro h; cases h; rfl
  · rintro rfl; rfl

/-- Changing the state. -/
theorem run_modify {g : σ → σ} {u : PUnit} :
    (modify g : Fallible σ ε PUnit) s = .ok (u, s') ↔ s' = g s := by
  change Except.ok (_, g s) = _ ↔ _
  constructor
  · rintro h; cases h; rfl
  · rintro rfl; rfl

/-! ## Errors that do not occur -/

/-- **The program does not stop with `e`**, from any state. -/
def Never (e : ε) (x : Fallible σ ε α) : Prop := ∀ s, x s ≠ .error e

namespace Never

variable {e e' : ε}

/-- A sequence does not when its parts do not. -/
theorem bind (hx : Never e x) (hf : ∀ a, Never e (f a)) : Never e (x >>= f) := by
  intro s h
  change Except.bind (x s) _ = _ at h
  cases hs : x s with
  | error e' =>
    rw [hs] at h
    have he : e' = e := Except.error.inj h
    exact hx s (he ▸ hs)
  | ok r =>
    rw [hs] at h
    exact hf r.1 r.2 h

theorem pure (a : α) : Never e (pure a : Fallible σ ε α) := by
  intro s h
  cases h

/-- A program that stops otherwise does not. -/
theorem throw (h : e' ≠ e) : Never e (throw e' : Fallible σ ε α) := by
  intro s h'
  exact h (Except.error.inj h')

theorem get : Never e (get : Fallible σ ε σ) := by
  intro s h
  cases h

theorem set (t : σ) : Never e (set t : Fallible σ ε PUnit) := by
  intro s h
  cases h

theorem modify (g : σ → σ) : Never e (modify g : Fallible σ ε PUnit) := by
  intro s h
  cases h

/-- A check does not when neither branch does. -/
theorem ite {P : Prop} [Decidable P] {y : Fallible σ ε α} (hx : Never e x) (hy : Never e y) :
    Never e (if P then x else y) := by
  split
  · exact hx
  · exact hy

/-- What follows a run that finished. -/
theorem of_run {y : Fallible σ ε β} (hx : Never e x) (hy : y = x >>= f)
    (hf : ∀ a t, x s = .ok (a, t) → f a t ≠ .error e) : y s ≠ .error e := by
  rw [hy]
  intro h
  change Except.bind (x s) _ = _ at h
  cases hs : x s with
  | error e' =>
    rw [hs] at h
    have he : e' = e := Except.error.inj h
    exact hx s (he ▸ hs)
  | ok r =>
    rw [hs] at h
    exact hf r.1 r.2 hs h

end Never

/-! ## What every state keeps -/

/-- **The program keeps `I`**, and stops only with errors that `E` holds
of. -/
def Keeps (I : σ → Prop) (E : ε → Prop) (x : Fallible σ ε α) : Prop :=
  ∀ s, I s → (∀ e, x s = .error e → E e) ∧ ∀ a t, x s = .ok (a, t) → I t

namespace Keeps

variable {I : σ → Prop} {E : ε → Prop}

/-- A sequence does when its parts do. What its first part may return is
known of the second. -/
theorem bind (hx : Keeps I E x) (hf : ∀ s a t, I s → x s = .ok (a, t) → Keeps I E (f a)) :
    Keeps I E (x >>= f) := by
  intro s hs
  cases hrun : x s with
  | error e' =>
    have hbind : (x >>= f) s = .error e' := by
      change Except.bind (x s) _ = _
      rw [hrun]
      rfl
    rw [hbind]
    refine ⟨fun e he => ?_, fun a t h => (nomatch h)⟩
    exact Except.error.inj he ▸ (hx s hs).1 e' hrun
  | ok r =>
    obtain ⟨a, t⟩ := r
    rw [bind_ok hrun]
    exact hf s a t hs hrun t ((hx s hs).2 a t hrun)

theorem pure (a : α) : Keeps I E (pure a : Fallible σ ε α) := by
  intro s hs
  refine ⟨fun e h => (nomatch h), fun a' t h => ?_⟩
  rw [(run_pure.1 h).2]
  exact hs

/-- A program that stops does when its error is one that is allowed. -/
theorem throw {e : ε} (h : E e) : Keeps I E (throw e : Fallible σ ε α) := by
  intro s _
  refine ⟨fun e' he => ?_, fun a t hrun => absurd hrun run_throw⟩
  cases he
  exact h

/-- What follows a read gets a state that `I` holds of. -/
theorem get_bind {g : σ → Fallible σ ε β} (h : ∀ t, I t → Keeps I E (g t)) :
    Keeps I E (do let t ← get; g t) := fun s hs => h s hs s hs

/-- A change of the state that `I` is kept by. -/
theorem modify {g : σ → σ} (h : ∀ s, I s → I (g s)) :
    Keeps I E (modify g : Fallible σ ε PUnit) := by
  intro s hs
  refine ⟨fun e he => (nomatch he), fun a t hrun => ?_⟩
  rw [run_modify.1 hrun]
  exact h s hs

/-- A check does when both branches do. -/
theorem ite {P : Prop} [Decidable P] {y : Fallible σ ε α} (hx : P → Keeps I E x)
    (hy : ¬ P → Keeps I E y) : Keeps I E (if P then x else y) := by
  split
  · exact hx ‹_›
  · exact hy ‹_›

end Keeps

/-! ## Programs that stop less often -/

/-- **Whatever `x` comes to, `y` comes to**: `y` stops less often, and is
otherwise the same program. -/
def Below (x y : Fallible σ ε α) : Prop := ∀ s r, x s = .ok r → y s = .ok r

namespace Below

theorem refl (x : Fallible σ ε α) : Below x x := fun _ _ hrun => hrun

/-- A sequence is below another when its parts are. -/
theorem bind {y : Fallible σ ε α} {g : α → Fallible σ ε β} (hx : Below x y)
    (hf : ∀ a, Below (f a) (g a)) : Below (x >>= f) (y >>= g) := by
  rintro s ⟨b, s'⟩ hrun
  obtain ⟨a, t, hfirst, hrest⟩ := run_bind.1 hrun
  rw [bind_ok (hx s _ hfirst)]
  exact hf a t _ hrest

/-- A check is when both branches are. -/
theorem ite {P : Prop} [Decidable P] {x' y y' : Fallible σ ε α} (hx : Below x y)
    (hx' : Below x' y') : Below (if P then x else x') (if P then y else y') := by
  split
  · exact hx
  · exact hx'

/-- One that stops is below any. -/
theorem throw {e : ε} (y : Fallible σ ε α) : Below (throw e) y :=
  fun _ _ hrun => absurd hrun run_throw

end Below

/-! ## What a run spends -/

/-- **The program spends at most `k`**: where `n` was spent before it, no
more than `n + k` is after it. -/
def Spends (B : ℕ → σ → Prop) (k : ℕ) (x : Fallible σ ε α) : Prop :=
  ∀ n s a t, B n s → x s = .ok (a, t) → ∃ m ≤ n + k, B m t

namespace Spends

variable {B : ℕ → σ → Prop} {j k : ℕ}

/-- A sequence spends what its parts do. -/
theorem bind (hx : Spends B j x) (hf : ∀ a, Spends B k (f a)) : Spends B (j + k) (x >>= f) := by
  intro n s b s' hs hrun
  obtain ⟨a, t, hfirst, hrest⟩ := run_bind.1 hrun
  obtain ⟨m, hm, ht⟩ := hx n s a t hs hfirst
  obtain ⟨m', hm', hs'⟩ := hf a m t b s' ht hrest
  exact ⟨m', by omega, hs'⟩

theorem pure (a : α) : Spends B k (pure a : Fallible σ ε α) := by
  intro n s a' t hs hrun
  rw [(run_pure.1 hrun).2]
  exact ⟨n, Nat.le_add_right n k, hs⟩

/-- After a part that spends nothing. -/
theorem bind_zero (hx : Spends B 0 x) (hf : ∀ a, Spends B k (f a)) : Spends B k (x >>= f) := by
  have h := hx.bind hf
  rwa [Nat.zero_add] at h

/-- A program that stops spends anything. -/
theorem throw {e : ε} : Spends B k (throw e : Fallible σ ε α) :=
  fun _ _ _ _ _ hrun => absurd hrun run_throw

/-- A change of the state that the budget does not depend on. -/
theorem modify {g : σ → σ} (h : ∀ n s, B n s → B n (g s)) :
    Spends B k (modify g : Fallible σ ε PUnit) := by
  intro n s u t hs hrun
  rw [run_modify.1 hrun]
  exact ⟨n, Nat.le_add_right n k, h n s hs⟩

/-- A check spends what either branch does. -/
theorem ite {P : Prop} [Decidable P] {y : Fallible σ ε α} (hx : Spends B k x) (hy : Spends B k y) :
    Spends B k (if P then x else y) := by
  split
  · exact hx
  · exact hy

/-- What is not spent may be counted as spent. -/
theorem mono (hx : Spends B j x) (hle : j ≤ k) : Spends B k x := by
  intro n s a t hs hrun
  obtain ⟨m, hm, ht⟩ := hx n s a t hs hrun
  exact ⟨m, by omega, ht⟩

end Spends

end Fallible

end OwnKernel
