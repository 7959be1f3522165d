/-
  Lib/Search.lean --- the first place of a pattern in a string.

  `firstPlace p s` is the number of characters before the first occurrence of `p` in
  `s`, as `strstr` counts them.  Its rules compare a place in a string with a place in
  a prefix of the string that is cut off somewhere.
-/
import Mathlib.Data.List.Infix

namespace FreeAmp.Lib

section Search

variable {α : Type} [DecidableEq α]

/-- How many characters stand before the first occurrence of `p`. -/
def firstPlace (p : List α) : List α → Option Nat
  | [] => if p = [] then some 0 else none
  | c :: s => if p <+: c :: s then some 0 else (firstPlace p s).map (· + 1)

theorem firstPlace_cons_here {p s : List α} {c : α} (h : p <+: c :: s) :
    firstPlace p (c :: s) = some 0 := by
  rw [firstPlace, if_pos h]

theorem firstPlace_cons_later {p s : List α} {c : α} (h : ¬ p <+: c :: s) :
    firstPlace p (c :: s) = (firstPlace p s).map (· + 1) := by
  rw [firstPlace, if_neg h]

theorem firstPlace_spec {p : List α} : ∀ {s : List α} {k : Nat},
    firstPlace p s = some k → p <+: s.drop k := by
  intro s
  induction s with
  | nil =>
    intro k h
    rw [firstPlace] at h
    split at h
    · rename_i hp
      rw [hp]
      exact List.nil_prefix
    · exact absurd h nofun
  | cons c s ih =>
    intro k h
    by_cases hp : p <+: c :: s
    · rw [firstPlace_cons_here hp] at h
      obtain rfl := Option.some.inj h
      exact hp
    · rw [firstPlace_cons_later hp, Option.map_eq_some_iff] at h
      obtain ⟨k', hk', rfl⟩ := h
      exact ih hk'

theorem firstPlace_length {p s : List α} {k : Nat} (h : firstPlace p s = some k)
    (hp : p ≠ []) : k + p.length ≤ s.length := by
  have hlen := (firstPlace_spec h).length_le
  have hpos : 0 < p.length := List.length_pos_iff.mpr hp
  rw [List.length_drop] at hlen
  omega

theorem firstPlace_append {p : List α} : ∀ {s : List α} {k : Nat},
    firstPlace p s = some k → ∀ t, firstPlace p (s ++ t) = some k := by
  intro s
  induction s with
  | nil =>
    intro k h t
    rw [firstPlace] at h
    split at h
    · rename_i hp
      rw [hp, ← Option.some.inj h]
      cases t with
      | nil => rfl
      | cons c t => exact firstPlace_cons_here List.nil_prefix
    · exact absurd h nofun
  | cons c s ih =>
    intro k h t
    by_cases hp : p <+: c :: s
    · rw [firstPlace_cons_here hp] at h
      have hmore : p <+: c :: (s ++ t) := hp.trans (List.prefix_append (c :: s) t)
      rw [List.cons_append, firstPlace_cons_here hmore, h]
    · rw [firstPlace_cons_later hp, Option.map_eq_some_iff] at h
      obtain ⟨k', hk', rfl⟩ := h
      have hrest := ih hk' t
      have hnot : ¬ p <+: c :: (s ++ t) := by
        intro hprefix
        have hlen := (firstPlace_spec hk').length_le
        apply hp
        rw [List.length_drop] at hlen
        exact List.prefix_of_prefix_length_le hprefix (List.prefix_append (c :: s) t)
          (by rw [List.length_cons]; omega)
      rw [List.cons_append, firstPlace_cons_later hnot, hrest]
      rfl

theorem firstPlace_eq_none_iff {p : List α} : ∀ {s : List α},
    firstPlace p s = none ↔ ¬ p <:+: s := by
  intro s
  induction s with
  | nil =>
    rw [firstPlace, List.infix_nil]
    split <;> simp_all
  | cons c s ih =>
    rw [List.infix_cons_iff]
    by_cases hp : p <+: c :: s
    · rw [firstPlace_cons_here hp]
      simp [hp]
    · rw [firstPlace_cons_later hp, Option.map_eq_none_iff, ih]
      simp [hp]

end Search

/-- A prefix that every character of which is kept is a prefix of what is kept. -/
theorem prefix_takeWhile_iff {α : Type} {keep : α → Bool} {p : List α}
    (hp : ∀ c ∈ p, keep c = true) (s : List α) : p <+: s.takeWhile keep ↔ p <+: s := by
  constructor
  · intro h
    exact h.trans (List.takeWhile_prefix keep)
  · rintro ⟨t, rfl⟩
    rw [List.takeWhile_append_of_pos hp]
    exact List.prefix_append p _

end FreeAmp.Lib
