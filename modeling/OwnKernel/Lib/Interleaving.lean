import Mathlib.Data.List.Basic
import Mathlib.Data.Set.Basic
import Mathlib.Order.Defs.Unbundled

/-!
# Interleaved runs

Agents take steps on one state, in any order. `Run Step l s t` is a run in
which the agents of `l` step one after the other. What every step keeps
holds after a run (`Run.invariant`), and what the steps of some agents
keep, a run of these agents keeps (`Run.frame`). `Reaches` says that steps
of some agents lead from one state to another.
-/

namespace OwnKernel

variable {ι σ : Type*} {Step : ι → σ → σ → Prop} {l l' : List ι} {i : ι} {s t u : σ}

/-- **A run**, by the agents that step. -/
inductive Run (Step : ι → σ → σ → Prop) : List ι → σ → σ → Prop
  | nil {s : σ} : Run Step [] s s
  | cons {i : ι} {l : List ι} {s t u : σ} : Step i s t → Run Step l t u → Run Step (i :: l) s u

namespace Run

/-- A run of one step. -/
theorem single (h : Step i s t) : Run Step [i] s t := .cons h .nil

/-- One run after another. -/
theorem append (h : Run Step l s t) (h' : Run Step l' t u) : Run Step (l ++ l') s u := by
  induction h with
  | nil => exact h'
  | cons hstep _ ih => exact .cons hstep (ih h')

/-- **What every step keeps holds after a run.** -/
theorem invariant {I : σ → Prop} (hstep : ∀ i s t, I s → Step i s t → I t) (h : Run Step l s t)
    (hs : I s) : I t := by
  induction h with
  | nil => exact hs
  | cons hfirst _ ih => exact ih (hstep _ _ _ hs hfirst)

/-- **What the steps of the other agents keep**, a run of theirs keeps. -/
theorem frame {I : σ → Prop} {R : σ → σ → Prop} [Std.Refl R] [IsTrans σ R] (Other : ι → Prop)
    (hstep : ∀ i s t, Other i → I s → Step i s t → I t ∧ R s t) (h : Run Step l s t)
    (hl : ∀ i ∈ l, Other i) (hs : I s) : R s t := by
  induction h with
  | nil => exact Std.Refl.refl _
  | cons hfirst _ ih =>
    obtain ⟨hkept, hfirst'⟩ := hstep _ _ _ (hl _ List.mem_cons_self) hs hfirst
    have hrest := ih (fun i hi => hl i (List.mem_cons_of_mem _ hi)) hkept
    exact Trans.trans hfirst' hrest

end Run

/-- **Steps of agents of `S` lead** from `s` to `t`. -/
def Reaches (Step : ι → σ → σ → Prop) (S : Set ι) (s t : σ) : Prop :=
  ∃ l, (∀ i ∈ l, i ∈ S) ∧ Run Step l s t

namespace Reaches

variable {S T : Set ι}

theorem refl (S : Set ι) (s : σ) : Reaches Step S s s :=
  ⟨[], fun _ hi => absurd hi List.not_mem_nil, .nil⟩

/-- One step. -/
theorem single (h : Step i s t) (hi : i ∈ S) : Reaches Step S s t := by
  refine ⟨[i], fun j hj => ?_, .single h⟩
  rwa [List.mem_singleton.1 hj]

theorem trans (h : Reaches Step S s t) (h' : Reaches Step S t u) : Reaches Step S s u := by
  obtain ⟨l, hl, hrun⟩ := h
  obtain ⟨l', hl', hrun'⟩ := h'
  refine ⟨l ++ l', fun i hi => ?_, hrun.append hrun'⟩
  rcases List.mem_append.1 hi with hi | hi
  · exact hl i hi
  · exact hl' i hi

/-- One step more. -/
theorem step (h : Reaches Step S s t) (h' : Step i t u) (hi : i ∈ S) : Reaches Step S s u :=
  h.trans (.single h' hi)

/-- More agents. -/
theorem mono (h : Reaches Step S s t) (hST : S ⊆ T) : Reaches Step T s t := by
  obtain ⟨l, hl, hrun⟩ := h
  exact ⟨l, fun i hi => hST (hl i hi), hrun⟩

end Reaches

end OwnKernel
