import Mathlib.Data.List.Basic

/-!
# Programs with a log

A program over a log that it only adds to. `Logs x v l` says what one
run of `x` comes to, whatever the log held before: the value `v`, and the
entries `l` added. A sequence adds what its parts add, in order
(`Logs.bind`).
-/

namespace OwnKernel

variable {α β γ : Type} {x : StateM (List α) β} {f : β → StateM (List α) γ} {v : β} {w : γ}
  {l m : List α}

/-- **What a program returns, and what it adds to the log.** -/
def Logs (x : StateM (List α) β) (v : β) (l : List α) : Prop :=
  ∀ log, x.run log = (v, log ++ l)

namespace Logs

/-- A returned value adds nothing. -/
theorem pure (v : β) : Logs (Pure.pure v : StateM (List α) β) v [] := fun log => by
  rw [List.append_nil]
  rfl

/-- One addition. -/
theorem tell (l : List α) : Logs (do modify fun log => log ++ l; Pure.pure v) v l := fun _ => rfl

/-- **A sequence.** -/
theorem bind (hx : Logs x v l) (hf : Logs (f v) w m) : Logs (x >>= f) w (l ++ m) := fun log => by
  rw [← List.append_assoc, ← hf (log ++ l), StateT.run_bind, hx log]
  rfl

/-- A sequence whose second part adds nothing. -/
theorem bind_pure {g : β → γ} (hx : Logs x v l) :
    Logs (do let a ← x; Pure.pure (g a) : StateM (List α) γ) (g v) l :=
  fun log => by
    rw [StateT.run_bind, hx log]
    rfl

/-- **A check** before the rest of a program: the rest adds its entries
when the check holds. -/
theorem check {b : Bool} {x : StateM (List α) Bool} {y : StateM (List α) β} {e : β}
    (hx : Logs x b l) (hy : Logs y v m) :
    Logs (do if !(← x) then Pure.pure e else y) (if b then v else e)
      (l ++ if b then m else []) := by
  refine hx.bind ?_
  cases b with
  | false => exact .pure e
  | true => exact hy

/-- What holds of the entries, when some were added under a check. -/
theorem forall_mem_check {b : Bool} {P : α → Prop} :
    (∀ a ∈ l ++ (if b then m else []), P a) ↔ (∀ a ∈ l, P a) ∧ (b = true → ∀ a ∈ m, P a) := by
  rw [List.forall_mem_append]
  cases b <;> simp

/-- A run from the empty log. -/
theorem run_nil (h : Logs x v l) : x.run [] = (v, l) := h []

end Logs

end OwnKernel
