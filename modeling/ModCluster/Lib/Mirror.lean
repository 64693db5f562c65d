import Mathlib.Data.List.Basic

/-!
# Mirrors

A system takes steps, and of some of them something is seen from outside: a question and
its answer, say. An onlooker who starts with a view of the state and learns from what it
sees mirrors the system, if that is the view of the state whatever the run.
-/

namespace Mirror

variable {σ ο α : Type}

/-- A run and what is seen of it. -/
inductive Run (step : σ → Option ο → σ → Prop) : σ → List ο → σ → Prop
  | nil (s : σ) : Run step s [] s
  | snoc {s t u : σ} {seen : List ο} {o : Option ο} (h : Run step s seen t) (hstep : step t o u) :
      Run step s (seen ++ o.toList) u

/-- One step at a time, in the states the invariant allows. -/
structure Mirrors (step : σ → Option ο → σ → Prop) (inv : σ → Prop) (view : σ → α) (learn : α → ο → α) : Prop where
  keeps : ∀ {s o t}, inv s → step s o t → inv t
  learns : ∀ {s o t}, inv s → step s (some o) t → view t = learn (view s) o
  silent : ∀ {s t}, inv s → step s none t → view t = view s

variable {step : σ → Option ο → σ → Prop} {inv : σ → Prop} {view : σ → α} {learn : α → ο → α} {s t : σ}
  {seen : List ο}

theorem Mirrors.step_view (h : Mirrors step inv view learn) (hs : inv s) {o : Option ο} (hstep : step s o t) :
    view t = o.toList.foldl learn (view s) := by
  cases o with
  | none => exact h.silent hs hstep
  | some o => exact h.learns hs hstep

theorem Mirrors.run (h : Mirrors step inv view learn) (hs : inv s) (hrun : Run step s seen t) :
    inv t ∧ view t = seen.foldl learn (view s) := by
  induction hrun with
  | nil => exact ⟨hs, rfl⟩
  | snoc _ hstep ih =>
    obtain ⟨ht, hview⟩ := ih
    refine ⟨h.keeps ht hstep, ?_⟩
    rw [h.step_view ht hstep, hview, List.foldl_append]

end Mirror
