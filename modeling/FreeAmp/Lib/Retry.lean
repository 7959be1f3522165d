/-
  Lib/Retry.lean --- a call that takes what it meets, and returns or calls itself with
  another state.

  What it meets is a list, an element for every call.  `retry` returns when one of the
  calls does; the calls before it are a run:

      retry_eq_some_iff   when it returns, and what
      retry_eq_none_iff   when it wants more than it is given
      tries_eq            how many of its calls count
-/
import FreeAmp.Lib.Transition

namespace FreeAmp.Lib

variable {α σ ρ : Type} (once : α → σ → Except σ ρ)

/-- The calls one after the other. -/
def retry : List α → σ → Option ρ
  | [], _ => none
  | a :: as, s =>
    match once a s with
    | .ok r => some r
    | .error t => retry as t

/-- A call that calls itself. -/
def Again (s : σ) (a : α) (t : σ) : Prop := once a s = .error t

/-- The number of the calls that count. -/
def tries (counts : α → σ → Bool) : List α → σ → Nat
  | [], _ => 0
  | a :: as, s =>
    (counts a s).toNat +
      match once a s with
      | .ok _ => 0
      | .error t => tries counts as t

variable {once} {counts : α → σ → Bool} {as before after : List α} {a : α} {s t : σ} {r : ρ}

theorem retry_append (h : Run (Again once) s before t) :
    retry once (before ++ after) s = retry once after t := by
  induction h with
  | refl _ => rfl
  | cons first _ ih =>
    rw [List.cons_append, retry, show once _ _ = .error _ from first]
    exact ih

/-- It returns what the first call returns that does not call itself. -/
theorem retry_eq_some_iff :
    retry once as s = some r ↔
      ∃ before a after t, as = before ++ a :: after ∧ Run (Again once) s before t ∧
        once a t = .ok r := by
  constructor
  · intro h
    induction as generalizing s with
    | nil => cases h
    | cons a as ih =>
      rw [retry] at h
      cases honce : once a s with
      | ok r' =>
        rw [honce] at h
        obtain rfl := Option.some.inj h
        exact ⟨[], a, as, s, rfl, .refl s, honce⟩
      | error t =>
        rw [honce] at h
        obtain ⟨before, b, after, u, rfl, hrun, hlast⟩ := ih h
        exact ⟨a :: before, b, after, u, rfl, .cons honce hrun, hlast⟩
  · rintro ⟨before, a, after, t, rfl, hrun, hlast⟩
    rw [retry_append hrun, retry, hlast]

theorem retry_eq_none_iff : retry once as s = none ↔ ∃ t, Run (Again once) s as t := by
  constructor
  · intro h
    induction as generalizing s with
    | nil => exact ⟨s, .refl s⟩
    | cons a as ih =>
      rw [retry] at h
      cases honce : once a s with
      | ok r =>
        rw [honce] at h
        cases h
      | error t =>
        rw [honce] at h
        obtain ⟨u, hrun⟩ := ih h
        exact ⟨u, .cons honce hrun⟩
  · rintro ⟨t, hrun⟩
    have hall : retry once (as ++ []) s = retry once [] t := retry_append hrun
    rw [List.append_nil] at hall
    exact hall

theorem tries_append (hcounts : ∀ s a t, Again once s a t → counts a s = true)
    (h : Run (Again once) s before t) :
    tries once counts (before ++ after) s = before.length + tries once counts after t := by
  induction h with
  | refl _ => exact (Nat.zero_add _).symm
  | cons first _ ih =>
    rw [List.cons_append, tries, hcounts _ _ _ first, show once _ _ = .error _ from first,
      List.length_cons]
    show 1 + tries once counts _ _ = _
    rw [ih]
    omega

/-- A call that calls itself counts: so do all but the last, and the last perhaps. -/
theorem tries_eq (hcounts : ∀ s a t, Again once s a t → counts a s = true)
    (hrun : Run (Again once) s before t) (hlast : once a t = .ok r) :
    tries once counts (before ++ a :: after) s = before.length + (counts a t).toNat := by
  rw [tries_append hcounts hrun, tries, hlast]
  rfl

theorem tries_of_run (hcounts : ∀ s a t, Again once s a t → counts a s = true)
    (h : Run (Again once) s before t) : tries once counts before s = before.length := by
  have hall : tries once counts (before ++ []) s = before.length + tries once counts [] t :=
    tries_append hcounts h
  rw [List.append_nil] at hall
  exact hall

/-- What is met again and again, and leads back to the same state. -/
theorem run_replicate (h : Again once s a s) :
    ∀ n : Nat, Run (Again once) s (List.replicate n a) s := by
  intro n
  induction n with
  | zero => exact .refl s
  | succ n ih => exact .cons h ih

end FreeAmp.Lib
