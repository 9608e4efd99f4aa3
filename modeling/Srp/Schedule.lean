import Mathlib.Order.WellFounded
import Mathlib.Tactic.Common

/-!
# Machines whose steps may be disabled

A step function `σ → α → Option σ` read as a concurrent program: an action is taken by one of its
threads, and is disabled where the thread waits. A schedule is a list of actions, and `run` the state
that it leads to if each is enabled where it is taken. What one step preserves holds after every
schedule (`run_invariant`, `run_related`), and where every step goes down in a well-founded relation no
run goes on forever (`not_infinite`) and every one can be carried on until it is stuck
(`exists_stuck`).
-/

namespace Schedule

variable {σ α : Type*} {step : σ → α → Option σ}

/-- The state that a schedule leads to. -/
def run (step : σ → α → Option σ) (s : σ) (as : List α) : Option σ := as.foldlM step s

/-- No action is enabled. -/
def Stuck (step : σ → α → Option σ) (s : σ) : Prop := ∀ a, step s a = none

/-- A state is reached from another by some schedule. -/
def Reaches (step : σ → α → Option σ) (s t : σ) : Prop := ∃ as, run step s as = some t

/-- Nothing can be done where no action is enabled. -/
theorem Stuck.not_enabled {s t : σ} {a : α} (h : Stuck step s) : step s a ≠ some t := by
  rw [h a]
  exact nofun

/-- A schedule takes its first action, and goes on from there. -/
theorem run_cons (s : σ) (a : α) (as : List α) :
    run step s (a :: as) = (step s a).bind fun t => run step t as := by
  unfold run
  rw [List.foldlM_cons]
  rfl

/-- A relation that every step respects, and that is reflexive and transitive, relates the ends of a
run. -/
theorem run_related {R : σ → σ → Prop} (hrefl : ∀ s, R s s)
    (htrans : ∀ s t u, R s t → R t u → R s u) (hstep : ∀ s a t, step s a = some t → R s t)
    {s t : σ} {as : List α} (h : run step s as = some t) : R s t := by
  induction as generalizing s with
  | nil =>
    obtain rfl := Option.some.inj h
    exact hrefl _
  | cons a as ih =>
    rw [run_cons, Option.bind_eq_some_iff] at h
    obtain ⟨u, hu, hrest⟩ := h
    exact htrans _ _ _ (hstep _ _ _ hu) (ih hrest)

/-- A property that every step preserves holds after every run. -/
theorem run_invariant {P : σ → Prop} (hstep : ∀ s a t, P s → step s a = some t → P t) {s t : σ}
    {as : List α} (h : run step s as = some t) (hs : P s) : P t :=
  run_related (R := fun s t => P s → P t) (fun _ hp => hp) (fun _ _ _ hst htu hp => htu (hst hp))
    (fun s a t hst hp => hstep s a t hp hst) h hs

section WellFounded

variable {r : σ → σ → Prop} (hwf : WellFounded r) (hstep : ∀ s a t, step s a = some t → r t s)

include hwf hstep

/-- No run goes on forever. -/
theorem not_infinite : ¬∃ f : ℕ → σ, ∀ n, ∃ a, step (f n) a = some (f (n + 1)) := by
  rintro ⟨f, hf⟩
  have hempty := wellFounded_iff_isEmpty_descending_chain.mp hwf
  refine hempty.elim ⟨f, fun n => ?_⟩
  obtain ⟨a, ha⟩ := hf n
  exact hstep _ a _ ha

/-- Every state reaches one that is stuck. -/
theorem exists_stuck (s : σ) : ∃ t, Reaches step s t ∧ Stuck step t := by
  induction s using hwf.induction with
  | _ s ih =>
    by_cases hs : Stuck step s
    · exact ⟨s, ⟨[], rfl⟩, hs⟩
    · -- Some action is enabled, and what it leads to reaches a stuck state.
      obtain ⟨a, ha⟩ := not_forall.mp hs
      obtain ⟨t, ht⟩ := Option.ne_none_iff_exists'.mp ha
      obtain ⟨u, ⟨as, has⟩, hu⟩ := ih t (hstep s a t ht)
      refine ⟨u, ⟨a :: as, ?_⟩, hu⟩
      rw [run_cons, ht]
      exact has

end WellFounded

end Schedule
