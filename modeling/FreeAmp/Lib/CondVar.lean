/-
  Lib/CondVar.lean --- threads at a condition variable.

  WHAT THIS FILE IS FOR.  What a thread does between locking a mutex and unlocking it, or
  waiting on the condition variable that goes with it, is one step for the other threads.
  What is left to interleave is where the threads are with the condition variable:
  `pthread_cond_wait` gives up the mutex and blocks in one step, may return at any time,
  and `pthread_cond_signal` makes it return for one thread at least, if any is blocked.

  `Alert` is what there must be when the condition holds: a blocked thread is not alone,
  some thread is about to look at the condition or about to wake one up.
-/
import Mathlib.Logic.Function.Basic

namespace FreeAmp.Lib

/-- Where a thread is with a condition variable. -/
inductive CondPlace where
  /-- in none of its functions -/
  | outside
  /-- blocked in `pthread_cond_wait` -/
  | waiting
  /-- woken up; it is about to look at the condition -/
  | woken
  /-- before `pthread_cond_signal` -/
  | notifying
  deriving DecidableEq, Repr

/-- The thread has gone into `pthread_cond_wait`, and is not through with it. -/
def CondPlace.blocked : CondPlace → Bool
  | .waiting => true
  | .woken => true
  | _ => false

/-- What happens at the condition variable. -/
inductive CondAction (τ : Type) where
  /-- `pthread_cond_wait` returns -/
  | wake (t : τ)
  /-- `pthread_cond_signal` of `t`, on which `u` is woken up -/
  | notify (t u : τ)
  /-- `pthread_cond_signal` when no thread is blocked -/
  | idle (t : τ)
  deriving DecidableEq

section Moves

variable {τ : Type} [DecidableEq τ]

/-- A step at the condition variable. -/
inductive CondStep (p : τ → CondPlace) : CondAction τ → (τ → CondPlace) → Prop
  | wake (t : τ) (h : p t = .waiting) : CondStep p (.wake t) (Function.update p t .woken)
  | notify (t u : τ) (ht : p t = .notifying) (hu : p u = .waiting) :
      CondStep p (.notify t u) (Function.update (Function.update p t .outside) u .woken)
  | idle (t : τ) (ht : p t = .notifying) (hnone : ∀ u, p u ≠ .waiting) :
      CondStep p (.idle t) (Function.update p t .outside)

/-- Where a thread is blocked, one is awake or about to wake one up. -/
def Alert (p : τ → CondPlace) : Prop :=
  ∀ t, p t = .waiting → ∃ u, p u = .woken ∨ p u = .notifying

theorem alert_of_woken {p : τ → CondPlace} {t : τ} (h : p t = .woken) : Alert p :=
  fun _ _ => ⟨t, .inl h⟩

theorem alert_of_notifying {p : τ → CondPlace} {t : τ} (h : p t = .notifying) : Alert p :=
  fun _ _ => ⟨t, .inr h⟩

/-- What happens at the condition variable leaves the threads alert. -/
theorem CondStep.alert {p p' : τ → CondPlace} {a : CondAction τ} (h : CondStep p a p') :
    Alert p' := by
  cases h with
  | wake t _ => exact alert_of_woken (Function.update_self t CondPlace.woken p)
  | notify t u _ _ =>
    have hu : Function.update (Function.update p t .outside) u .woken u = CondPlace.woken :=
      Function.update_self u _ _
    exact alert_of_woken hu
  | idle t ht hnone =>
    intro u hu
    by_cases hut : u = t
    · subst hut
      rw [Function.update_self] at hu
      exact absurd hu nofun
    · rw [Function.update_of_ne hut] at hu
      exact absurd hu (hnone u)

/-- It leaves a thread that is blocked blocked, and one that is not, not. -/
theorem CondStep.blocked {p p' : τ → CondPlace} {a : CondAction τ} (h : CondStep p a p') (t : τ) :
    (p' t).blocked = (p t).blocked := by
  cases h with
  | wake u hu =>
    by_cases htu : t = u
    · subst htu
      rw [Function.update_self, hu]
      rfl
    · rw [Function.update_of_ne htu]
  | notify u v hu hv =>
    by_cases htv : t = v
    · subst htv
      rw [Function.update_self, hv]
      rfl
    · rw [Function.update_of_ne htv]
      by_cases htu : t = u
      · subst htu
        rw [Function.update_self, hu]
        rfl
      · rw [Function.update_of_ne htu]
  | idle u hu _ =>
    by_cases htu : t = u
    · subst htu
      rw [Function.update_self, hu]
      rfl
    · rw [Function.update_of_ne htu]

/-- It does nothing to a thread that is in none of the functions. -/
theorem CondStep.outside {p p' : τ → CondPlace} {a : CondAction τ} (h : CondStep p a p') {t : τ}
    (ht : p t = .outside) : p' t = .outside := by
  have hne : ∀ u, p u ≠ .outside → t ≠ u := fun u hu htu => hu (htu ▸ ht)
  cases h with
  | wake u hu =>
    rw [Function.update_of_ne (hne u (by rw [hu]; nofun))]
    exact ht
  | notify u v hu hv =>
    rw [Function.update_of_ne (hne v (by rw [hv]; nofun)),
      Function.update_of_ne (hne u (by rw [hu]; nofun))]
    exact ht
  | idle u hu _ =>
    rw [Function.update_of_ne (hne u (by rw [hu]; nofun))]
    exact ht

end Moves

end FreeAmp.Lib
