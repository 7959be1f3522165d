/-
  Lib/Sweep.lean --- going through the keys of a store with a cursor, and beginning again
  behind every key that is removed on the way.

  The order of the keys is the store's own, and may be another after each removal.  The
  measure is the number of the keys, and of those that are still to come:

      sweep_ends     the sweep ends, and has removed every key that was to go
      sweep_unique   it ends in one way
-/
import FreeAmp.Lib.Transition

namespace FreeAmp.Lib

variable {σ κ ε : Type} [DecidableEq κ]

/-- The first key, or the one behind a key. -/
def nextKey (keys : List κ) : Option κ → Option κ
  | none => keys.head?
  | some key => (keys.dropWhile (· != key)).tail.head?

variable (keys : σ → List κ) (doomed : κ → Bool) (remove : σ → κ → Except ε σ)

/-- The loop with the key it is at, for a number of rounds. -/
def sweep : Nat → Option κ → σ → Option (Except ε σ)
  | _, none, s => some (.ok s)
  | 0, some _, _ => none
  | rounds + 1, some key, s =>
    if doomed key then
      match remove s key with
      | .ok t => sweep rounds (nextKey (keys t) none) t
      | .error e => some (.error e)
    else sweep rounds (nextKey (keys s) (some key)) s

/-- A removal of the sweep. -/
def Removal (s : σ) (key : κ) (t : σ) : Prop :=
  doomed key = true ∧ key ∈ keys s ∧ remove s key = .ok t

variable {keys doomed remove}

theorem nextKey_append {before after : List κ} {key : κ} (h : (before ++ key :: after).Nodup) :
    nextKey (before ++ key :: after) (some key) = after.head? := by
  have hbefore : ∀ other ∈ before, (other != key) = true := by
    intro other hother
    have hne : other ≠ key := by
      rintro rfl
      exact (List.nodup_append.mp h).2.2 other hother other List.mem_cons_self rfl
    exact bne_iff_ne.mpr hne
  show ((before ++ key :: after).dropWhile (· != key)).tail.head? = after.head?
  rw [List.dropWhile_append_of_pos hbefore, List.dropWhile_cons_of_neg (by simp), List.tail_cons]

theorem sweep_add {rounds : Nat} (more : Nat) {key : Option κ} {s : σ} {r : Except ε σ}
    (h : sweep keys doomed remove rounds key s = some r) :
    sweep keys doomed remove (rounds + more) key s = some r := by
  induction rounds generalizing key s with
  | zero =>
    cases key with
    | none =>
      rw [sweep] at h ⊢
      exact h
    | some key => cases h
  | succ rounds ih =>
    cases key with
    | none =>
      rw [sweep] at h ⊢
      exact h
    | some key =>
      rw [Nat.add_right_comm, sweep]
      rw [sweep] at h
      split
      · rename_i hdoomed
        rw [if_pos hdoomed] at h
        split at h
        · exact ih h
        · exact h
      · rename_i hdoomed
        rw [if_neg hdoomed] at h
        exact ih h

theorem sweep_unique {rounds rounds' : Nat} {key : Option κ} {s : σ} {r r' : Except ε σ}
    (h : sweep keys doomed remove rounds key s = some r)
    (h' : sweep keys doomed remove rounds' key s = some r') : r = r' := by
  have hmore := sweep_add rounds' h
  rw [Nat.add_comm] at hmore
  exact Option.some.inj (hmore.symm.trans (sweep_add rounds h'))

/-- When every removal that the sweep may come to succeeds and leaves fewer keys, the sweep
ends, and no key that was to go is left. -/
theorem sweep_ends {I : σ → Prop} (hnodup : ∀ s, (keys s).Nodup)
    (hremove : ∀ s key, I s → key ∈ keys s → doomed key = true →
      ∃ t, remove s key = .ok t ∧ I t ∧ (keys t).length < (keys s).length) :
    ∀ s, I s → ∃ rounds removed t,
      sweep keys doomed remove rounds (nextKey (keys s) none) s = some (.ok t) ∧
        Run (Removal keys doomed remove) s removed t ∧ ∀ key ∈ keys t, doomed key = false := by
  intro s
  induction hlength : (keys s).length using Nat.strongRecOn generalizing s with
  | ind length ih =>
    intro hs
    -- from a key on, behind keys that stay
    have hfrom : ∀ after before, keys s = before ++ after →
        (∀ key ∈ before, doomed key = false) → ∃ rounds removed t,
          sweep keys doomed remove rounds after.head? s = some (.ok t) ∧
            Run (Removal keys doomed remove) s removed t ∧
              ∀ key ∈ keys t, doomed key = false := by
      intro after
      induction after with
      | nil =>
        intro before heq hbefore
        rw [List.append_nil] at heq
        exact ⟨0, [], s, rfl, .refl s, heq ▸ hbefore⟩
      | cons key after ihAfter =>
        intro before heq hbefore
        have hmem : key ∈ keys s := by
          rw [heq]
          exact List.mem_append_right _ List.mem_cons_self
        cases hdoomed : doomed key with
        | true =>
          obtain ⟨t, ht, hI, hless⟩ := hremove s key hs hmem hdoomed
          obtain ⟨rounds, removed, u, hsweep, hrun, hgone⟩ :=
            ih (keys t).length (hlength ▸ hless) t rfl hI
          refine ⟨rounds + 1, key :: removed, u, ?_, .cons ⟨hdoomed, hmem, ht⟩ hrun, hgone⟩
          rw [List.head?_cons, sweep, if_pos hdoomed, ht]
          exact hsweep
        | false =>
          obtain ⟨rounds, removed, t, hsweep, hrun, hgone⟩ :=
            ihAfter (before ++ [key]) (by rw [heq, List.append_cons]) (by
              intro other hother
              rcases List.mem_append.mp hother with hother | hother
              · exact hbefore other hother
              · rw [List.mem_singleton.mp hother]
                exact hdoomed)
          refine ⟨rounds + 1, removed, t, ?_, hrun, hgone⟩
          have hnext : nextKey (keys s) (some key) = after.head? := by
            rw [heq]
            exact nextKey_append (heq ▸ hnodup s)
          rw [List.head?_cons, sweep, if_neg (Bool.eq_false_iff.mp hdoomed), hnext]
          exact hsweep
    exact hfrom (keys s) [] rfl nofun

end FreeAmp.Lib
