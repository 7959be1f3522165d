/-
  Lib/Transition.lean --- runs of a labelled transition system.

  WHAT THIS FILE IS FOR.  Every component of the player that is verified over
  "any interleaving" or "any sequence of calls" is given as a step relation
  `step : State -> Action -> State -> Prop`.  This file says, once, what a run
  of such a system is and how a fact about one step becomes a fact about a
  whole run:

      Run.invariant     a predicate kept by every step is kept by every run
      Run.guarded       a run whose steps all meet a guard, as a run
      Run.simulate      a step-by-step simulation lifts to runs

  Executable components are partial functions `next : State -> Action ->
  Option State`; `Run.of_exec` turns a computed execution into a run.
-/
import Mathlib.Data.List.Basic

namespace FreeAmp.Lib

/-! ## Runs -/

/-- `Run step s as t`: taking the actions `as` in order leads from `s` to `t`. -/
inductive Run {σ α : Type} (step : σ → α → σ → Prop) : σ → List α → σ → Prop
  /-- the empty run -/
  | refl (s : σ) : Run step s [] s
  /-- one step, then a run -/
  | cons {s t u : σ} {a : α} {as : List α} (first : step s a t) (rest : Run step t as u) :
      Run step s (a :: as) u

section Rules

variable {σ α : Type} {step : σ → α → σ → Prop}

theorem Run.append {s t u : σ} {as bs : List α} (h₁ : Run step s as t)
    (h₂ : Run step t bs u) : Run step s (as ++ bs) u := by
  induction h₁ with
  | refl _ => exact h₂
  | cons first _ ih => exact .cons first (ih h₂)

theorem Run.single {s t : σ} {a : α} (h : step s a t) : Run step s [a] t :=
  .cons h (.refl t)

/-- The invariant rule: what every step keeps, every run keeps. -/
theorem Run.invariant {P : σ → Prop} (hstep : ∀ s a t, P s → step s a t → P t)
    {s t : σ} {as : List α} (h : Run step s as t) (hs : P s) : P t := by
  induction h with
  | refl _ => exact hs
  | cons first _ ih => exact ih (hstep _ _ _ hs first)

/-- The invariant rule relative to the actions the run takes. -/
theorem Run.invariant_mem {P : σ → Prop} {s t : σ} {as : List α} (h : Run step s as t)
    (hstep : ∀ s a t, a ∈ as → P s → step s a t → P t) (hs : P s) : P t := by
  induction h with
  | refl _ => exact hs
  | cons first _ ih =>
    refine ih (fun s a t ha => hstep s a t (List.mem_cons_of_mem _ ha)) ?_
    exact hstep _ _ _ List.mem_cons_self hs first

/-- A run of a step relation is a run of every larger one. -/
theorem Run.mono {step' : σ → α → σ → Prop} (hle : ∀ s a t, step s a t → step' s a t)
    {s t : σ} {as : List α} (h : Run step s as t) : Run step' s as t := by
  induction h with
  | refl s => exact .refl s
  | cons first _ ih => exact .cons (hle _ _ _ first) ih

end Rules

/-! ## Guarded steps -/

/-- The steps of `step` that are taken in a state, and with an action, meeting
`guard`.  A run of `Guarded guard step` is a run whose steps all meet the guard. -/
def Guarded {σ α : Type} (guard : σ → α → Prop) (step : σ → α → σ → Prop) :
    σ → α → σ → Prop :=
  fun s a t => guard s a ∧ step s a t

theorem Run.unguard {σ α : Type} {guard : σ → α → Prop} {step : σ → α → σ → Prop}
    {s t : σ} {as : List α} (h : Run (Guarded guard step) s as t) : Run step s as t :=
  h.mono fun _ _ _ hst => hst.2

/-! ## Executions of a partial function -/

/-- The step relation of a partial transition function. -/
def Steps {σ α : Type} (next : σ → α → Option σ) : σ → α → σ → Prop :=
  fun s a t => next s a = some t

/-- Execute a list of actions; `none` when one of them cannot be taken. -/
def exec {σ α : Type} (next : σ → α → Option σ) : σ → List α → Option σ
  | s, [] => some s
  | s, a :: as =>
    match next s a with
    | none => none
    | some t => exec next t as

theorem Run.of_exec {σ α : Type} {next : σ → α → Option σ} :
    ∀ {as : List α} {s t : σ}, exec next s as = some t → Run (Steps next) s as t := by
  intro as
  induction as with
  | nil =>
    intro s t h
    have hst : s = t := by simpa [exec] using h
    exact hst ▸ .refl s
  | cons a as ih =>
    intro s t h
    rw [exec] at h
    split at h
    · simp at h
    · rename_i u hu
      exact .cons hu (ih h)

/-- The transitions of `next` that meet a guard that can be evaluated. -/
def guardedNext {σ α : Type} (guard : σ → α → Prop) [∀ s a, Decidable (guard s a)]
    (next : σ → α → Option σ) (s : σ) (a : α) : Option σ :=
  if guard s a then next s a else none

theorem Run.of_guarded_exec {σ α : Type} {guard : σ → α → Prop}
    [∀ s a, Decidable (guard s a)] {next : σ → α → Option σ} {s t : σ} {as : List α}
    (h : exec (guardedNext guard next) s as = some t) :
    Run (Guarded guard (Steps next)) s as t := by
  refine (Run.of_exec h).mono fun u a v hst => ?_
  unfold Steps guardedNext at hst
  split at hst
  · rename_i hguard
    exact ⟨hguard, hst⟩
  · simp at hst

/-! ## Simulation -/

/-- Forward simulation: when every concrete step is matched by a run of the
abstract system, every concrete run is. -/
theorem Run.simulate {σ α τ β : Type} {step : σ → α → σ → Prop} {astep : τ → β → τ → Prop}
    {R : σ → τ → Prop}
    (hstep : ∀ s a t x, R s x → step s a t → ∃ bs y, Run astep x bs y ∧ R t y)
    {s t : σ} {as : List α} (h : Run step s as t) {x : τ} (hx : R s x) :
    ∃ bs y, Run astep x bs y ∧ R t y := by
  induction h generalizing x with
  | refl _ => exact ⟨[], x, .refl x, hx⟩
  | cons first _ ih =>
    obtain ⟨bs₁, y, hrun₁, hy⟩ := hstep _ _ _ _ hx first
    obtain ⟨bs₂, z, hrun₂, hz⟩ := ih hy
    exact ⟨bs₁ ++ bs₂, z, hrun₁.append hrun₂, hz⟩

end FreeAmp.Lib
