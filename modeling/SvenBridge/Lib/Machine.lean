import Mathlib.Logic.Relation

/-!
# Machine — executable labelled transition systems

A `Machine` is a start state together with a partial, executable step.  This file defines:

* `Leads Ok s t` — `t` is reached from `s` by steps that all meet the condition `Ok`
  (`Ok` reads the state before the step and the action taken);
* `Reachable Ok s` — the same from the start state;
* `run` / `runWhile` — finite runs computed from a list of actions;
* the invariant rule, and the rule that carries reachability along a simulation;
* `observed` — the machine with an observer that sees the actions of a run.
-/

namespace SvenBridge
namespace Lib

universe u v w z

/-- A start state and a partial step: `step s a = none` when `a` is not enabled in `s`. -/
structure Machine (σ : Type u) (α : Type v) where
  init : σ
  step : σ → α → Option σ

namespace Machine

variable {σ : Type u} {α : Type v} (M : Machine σ α)

/-- The step condition met by every step. -/
def always : σ → α → Prop := fun _ _ => True

/-- `t` is reached from `s` by steps that all meet `Ok`. -/
inductive Leads (Ok : σ → α → Prop) (s : σ) : σ → Prop where
  | refl : Leads Ok s s
  | tail {t u : σ} {a : α} : Leads Ok s t → Ok t a → M.step t a = some u → Leads Ok s u

/-- States reached from the start by steps that all meet `Ok`. -/
def Reachable (Ok : σ → α → Prop) (s : σ) : Prop :=
  M.Leads Ok M.init s

variable {M}

theorem Leads.trans {Ok : σ → α → Prop} {s t u : σ}
    (hst : M.Leads Ok s t) (htu : M.Leads Ok t u) : M.Leads Ok s u := by
  induction htu with
  | refl =>
      exact hst
  | tail _ hok hstep ih =>
      exact .tail ih hok hstep

theorem Leads.mono {Ok Ok' : σ → α → Prop} {s t : σ} (hle : ∀ s a, Ok s a → Ok' s a)
    (h : M.Leads Ok s t) : M.Leads Ok' s t := by
  induction h with
  | refl =>
      exact .refl
  | tail _ hok hstep ih =>
      exact .tail ih (hle _ _ hok) hstep

theorem Reachable.mono {Ok Ok' : σ → α → Prop} {s : σ} (hle : ∀ s a, Ok s a → Ok' s a)
    (h : M.Reachable Ok s) : M.Reachable Ok' s :=
  Leads.mono hle h

/-! ## Invariants -/

/-- What one step preserves, a whole run preserves. -/
theorem Leads.invariant {Ok : σ → α → Prop} {I : σ → Prop}
    (hstep : ∀ s a t, I s → Ok s a → M.step s a = some t → I t)
    {s t : σ} (hs : I s) (h : M.Leads Ok s t) : I t := by
  induction h with
  | refl =>
      exact hs
  | tail _ hok hst ih =>
      exact hstep _ _ _ ih hok hst

theorem Reachable.invariant {Ok : σ → α → Prop} {I : σ → Prop} (hinit : I M.init)
    (hstep : ∀ s a t, I s → Ok s a → M.step s a = some t → I t)
    {s : σ} (h : M.Reachable Ok s) : I s :=
  Leads.invariant hstep hinit h

/-- The invariant rule where the step may use that its start state is reachable. -/
theorem Reachable.invariant_of_reachable {Ok : σ → α → Prop} {I : σ → Prop}
    (hinit : I M.init)
    (hstep : ∀ s a t, M.Reachable Ok s → I s → Ok s a → M.step s a = some t → I t)
    {s : σ} (h : M.Reachable Ok s) : I s := by
  have hboth : M.Reachable Ok s ∧ I s := by
    refine Reachable.invariant (I := fun s => M.Reachable Ok s ∧ I s) ⟨.refl, hinit⟩ ?_ h
    rintro s a t ⟨hs, hI⟩ hok hst
    exact ⟨.tail hs hok hst, hstep s a t hs hI hok hst⟩
  exact hboth.2

/-! ## Runs as lists of actions -/

variable (M)

/-- The state after a list of actions, when each of them is enabled in turn. -/
def run : σ → List α → Option σ
  | s, [] => some s
  | s, a :: as =>
      match M.step s a with
      | none => none
      | some t => run t as

/-- `run`, stopping at the first action that does not meet `Ok`. -/
def runWhile (Ok : σ → α → Prop) [∀ s a, Decidable (Ok s a)] : σ → List α → Option σ
  | s, [] => some s
  | s, a :: as =>
      if Ok s a then
        match M.step s a with
        | none => none
        | some t => runWhile Ok t as
      else
        none

variable {M}

theorem run_leads {s t : σ} {as : List α} (h : M.run s as = some t) :
    M.Leads always s t := by
  induction as generalizing s with
  | nil =>
      cases h
      exact .refl
  | cons a as ih =>
      cases hstep : M.step s a with
      | none =>
          simp [run, hstep] at h
      | some u =>
          have hrest : M.run u as = some t := by
            simpa [run, hstep] using h
          exact Leads.trans (.tail .refl trivial hstep) (ih hrest)

theorem runWhile_leads {Ok : σ → α → Prop} [∀ s a, Decidable (Ok s a)] {s t : σ}
    {as : List α} (h : M.runWhile Ok s as = some t) : M.Leads Ok s t := by
  induction as generalizing s with
  | nil =>
      cases h
      exact .refl
  | cons a as ih =>
      by_cases hok : Ok s a
      · cases hstep : M.step s a with
        | none =>
            simp [runWhile, hok, hstep] at h
        | some u =>
            have hrest : M.runWhile Ok u as = some t := by
              simpa [runWhile, hok, hstep] using h
            exact Leads.trans (.tail .refl hok hstep) (ih hrest)
      · simp [runWhile, hok] at h

/-- A computed run exhibits a reachable state. -/
theorem exists_reachable_of_run {as : List α} {P : σ → Bool}
    (h : (M.run M.init as).any P = true) : ∃ s, M.Reachable always s ∧ P s = true := by
  obtain ⟨s, hs, hP⟩ := (Option.any_eq_true _ _).1 h
  exact ⟨s, run_leads hs, hP⟩

theorem exists_reachable_of_runWhile {Ok : σ → α → Prop} [∀ s a, Decidable (Ok s a)]
    {as : List α} {P : σ → Bool} (h : (M.runWhile Ok M.init as).any P = true) :
    ∃ s, M.Reachable Ok s ∧ P s = true := by
  obtain ⟨s, hs, hP⟩ := (Option.any_eq_true _ _).1 h
  exact ⟨s, runWhile_leads hs, hP⟩

/-! ## Simulations -/

/-- When every step of `M` is matched by steps of `N` between the images, runs of `M` are
mapped to runs of `N`. -/
theorem Leads.map {τ : Type w} {β : Type z} {N : Machine τ β} {Ok : σ → α → Prop}
    {Ok' : τ → β → Prop} {f : σ → τ}
    (hstep : ∀ s a t, Ok s a → M.step s a = some t → N.Leads Ok' (f s) (f t))
    {s t : σ} (h : M.Leads Ok s t) : N.Leads Ok' (f s) (f t) := by
  induction h with
  | refl =>
      exact .refl
  | tail _ hok hst ih =>
      exact ih.trans (hstep _ _ _ hok hst)

theorem Reachable.map {τ : Type w} {β : Type z} {N : Machine τ β} {Ok : σ → α → Prop}
    {Ok' : τ → β → Prop} {f : σ → τ} (hinit : f M.init = N.init)
    (hstep : ∀ s a t, Ok s a → M.step s a = some t → N.Leads Ok' (f s) (f t))
    {s : σ} (h : M.Reachable Ok s) : N.Reachable Ok' (f s) := by
  have hmap : N.Leads Ok' (f M.init) (f s) := Leads.map hstep h
  rwa [hinit] at hmap

/-! ## Observers -/

variable {ο : Type w} {start : ο} {see : ο → α → ο}

/-- The machine with an observer that sees every action taken and never interferes. -/
def observed (M : Machine σ α) (start : ο) (see : ο → α → ο) : Machine (σ × ο) α where
  init := (M.init, start)
  step s a := (M.step s.1 a).map fun t => (t, see s.2 a)

theorem observed_step {s t : σ × ο} {a : α} :
    (M.observed start see).step s a = some t ↔ M.step s.1 a = some t.1 ∧ t.2 = see s.2 a := by
  obtain ⟨t, o⟩ := t
  simp only [observed, Option.map_eq_some_iff, Prod.mk.injEq]
  constructor
  · rintro ⟨u, hstep, rfl, rfl⟩
    exact ⟨hstep, rfl⟩
  · rintro ⟨hstep, rfl⟩
    exact ⟨t, hstep, rfl, rfl⟩

/-- What is observed is a run of the machine. -/
theorem Reachable.of_observed {Ok : σ × ο → α → Prop} {s : σ × ο}
    (h : (M.observed start see).Reachable Ok s) : M.Reachable always s.1 := by
  refine Reachable.map (f := Prod.fst) rfl ?_ h
  intro s a t _ hstep
  exact .tail .refl trivial (observed_step.1 hstep).1

/-- Every run of the machine can be observed. -/
theorem Reachable.exists_observed {s : σ} (h : M.Reachable always s) :
    ∃ o, (M.observed start see).Reachable always (s, o) := by
  refine Reachable.invariant (I := fun s => ∃ o, (M.observed start see).Reachable always (s, o))
    ⟨start, .refl⟩ ?_ h
  rintro s a t ⟨o, ho⟩ _ hstep
  exact ⟨see o a, .tail ho trivial (observed_step.2 ⟨hstep, rfl⟩)⟩

end Machine

end Lib
end SvenBridge
