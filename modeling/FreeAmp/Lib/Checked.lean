/-
  Lib/Checked.lean --- what a computation that may fault is known to do.

  `Meets r E Q` says of a computation `r : Except φ α` that it returns a value
  satisfying `Q`, or faults with a fault in `E`.  `E` is the set of faults one is
  prepared for: `Meets r (fun _ => False) Q` is total correctness, and
  `Meets r (fun f => f ≠ bad) Q` says in particular that `r` does not fault with
  `bad`.

  The rules follow the structure of the program, and are stated as equivalences
  so that `simp only` takes a `do` block apart.
-/
import Mathlib.Data.List.Basic

namespace FreeAmp.Lib

/-- `r` returns a value satisfying `Q`, or faults with a fault in `E`. -/
def Meets {φ α : Type} (r : Except φ α) (E : φ → Prop) (Q : α → Prop) : Prop :=
  match r with
  | .ok a => Q a
  | .error f => E f

theorem ok_bind {φ α β : Type} (a : α) (f : α → Except φ β) :
    ((.ok a : Except φ α) >>= f) = f a := rfl

theorem pair_of_ok {φ α β : Type} {a a' : α} {b b' : β}
    (h : (.ok (a, b) : Except φ (α × β)) = .ok (a', b')) : a = a' ∧ b = b' :=
  Prod.mk.inj (Except.ok.inj h)

/-- A sequence returns what its second part returns, after its first part has returned. -/
theorem bind_eq_ok {φ α β : Type} {r : Except φ α} {f : α → Except φ β} {b : β} :
    (r >>= f) = .ok b ↔ ∃ a, r = .ok a ∧ f a = .ok b := by
  constructor
  · intro h
    cases r with
    | error e => exact absurd h nofun
    | ok a => exact ⟨a, rfl, h⟩
  · rintro ⟨a, rfl, h⟩
    exact h

/-! ## Loops -/

section Loops

variable {φ α β σ : Type} {g : α → Except φ (List β)}

theorem mapM_ok_iff {as : List α} :
    (∃ parts, as.mapM g = .ok parts) ↔ ∀ a ∈ as, ∃ part, g a = .ok part := by
  induction as with
  | nil => exact ⟨fun _ _ ha => absurd ha List.not_mem_nil, fun _ => ⟨[], rfl⟩⟩
  | cons a as ih =>
    rw [List.forall_mem_cons, ← ih]
    simp only [List.mapM_cons, bind_eq_ok]
    constructor
    · intro h
      obtain ⟨-, part, hpart, parts, hparts, -⟩ := h
      exact ⟨⟨part, hpart⟩, ⟨parts, hparts⟩⟩
    · intro h
      obtain ⟨⟨part, hpart⟩, ⟨parts, hparts⟩⟩ := h
      exact ⟨part :: parts, part, hpart, parts, hparts, rfl⟩

theorem mem_flatten_mapM {as : List α} {parts : List (List β)} (h : as.mapM g = .ok parts)
    {b : β} : b ∈ parts.flatten ↔ ∃ a ∈ as, ∃ part, g a = .ok part ∧ b ∈ part := by
  induction as generalizing parts with
  | nil =>
    rw [List.mapM_nil] at h
    rw [← Except.ok.inj h]
    simp
  | cons a as ih =>
    simp only [List.mapM_cons, bind_eq_ok] at h
    obtain ⟨part, hpart, rest, hrest, h⟩ := h
    rw [← Except.ok.inj h, List.flatten_cons, List.mem_append, ih hrest, List.exists_mem_cons_iff]
    apply or_congr_left
    constructor
    · exact fun hb => ⟨part, hpart, hb⟩
    · intro hb
      obtain ⟨part', hpart', hb⟩ := hb
      rw [hpart] at hpart'
      exact Except.ok.inj hpart' ▸ hb

/-- A loop whose rounds are loops themselves is one loop over what these go over. -/
theorem foldlM_flatten_ok_iff {h : σ → α → Except φ σ} {k : σ → β → Except φ σ} {as : List α}
    {c c' : σ}
    (hround : ∀ a ∈ as, ∀ c c', h c a = .ok c' ↔
      ∃ part, g a = .ok part ∧ part.foldlM k c = .ok c') :
    as.foldlM h c = .ok c' ↔
      ∃ parts, as.mapM g = .ok parts ∧ parts.flatten.foldlM k c = .ok c' := by
  induction as generalizing c with
  | nil =>
    constructor
    · exact fun hc => ⟨[], rfl, hc⟩
    · intro hc
      obtain ⟨parts, hparts, hc⟩ := hc
      rw [List.mapM_nil] at hparts
      rw [← Except.ok.inj hparts] at hc
      exact hc
  | cons a as ih =>
    rw [List.forall_mem_cons] at hround
    simp only [List.foldlM_cons, List.mapM_cons, bind_eq_ok]
    constructor
    · intro hc
      obtain ⟨d, hd, hc⟩ := hc
      obtain ⟨part, hpart, hd⟩ := (hround.1 c d).mp hd
      obtain ⟨parts, hparts, hc⟩ := (ih hround.2).mp hc
      refine ⟨part :: parts, ⟨part, hpart, parts, hparts, rfl⟩, ?_⟩
      rw [List.flatten_cons, List.foldlM_append, hd]
      exact hc
    · intro hc
      obtain ⟨all, ⟨part, hpart, parts, hparts, hall⟩, hc⟩ := hc
      rw [← Except.ok.inj hall, List.flatten_cons, List.foldlM_append, bind_eq_ok] at hc
      obtain ⟨d, hd, hc⟩ := hc
      exact ⟨d, (hround.1 c d).mpr ⟨part, hpart, hd⟩, (ih hround.2).mpr ⟨parts, hparts, hc⟩⟩

end Loops

namespace Meets

variable {φ α β : Type} {E : φ → Prop}

@[simp] theorem ok_iff {a : α} {Q : α → Prop} :
    Meets (.ok a : Except φ α) E Q ↔ Q a := Iff.rfl

@[simp] theorem pure_iff {a : α} {Q : α → Prop} :
    Meets (pure a : Except φ α) E Q ↔ Q a := Iff.rfl

@[simp] theorem error_iff {f : φ} {Q : α → Prop} :
    Meets (.error f : Except φ α) E Q ↔ E f := Iff.rfl

@[simp] theorem bind_iff {r : Except φ α} {f : α → Except φ β} {Q : β → Prop} :
    Meets (r >>= f) E Q ↔ Meets r E fun a => Meets (f a) E Q := by
  cases r <;> exact Iff.rfl

theorem mono {r : Except φ α} {Q Q' : α → Prop} (h : Meets r E Q)
    (hQ : ∀ a, Q a → Q' a) : Meets r E Q' := by
  cases r with
  | ok a => exact hQ a h
  | error f => exact h

/-- What a computation that returned is known to have returned. -/
theorem of_ok {r : Except φ α} {Q : α → Prop} (h : Meets r E Q) {a : α} (ha : r = .ok a) :
    Q a := by
  subst ha
  exact h

theorem of_error {r : Except φ α} {Q : α → Prop} (h : Meets r E Q) {f : φ}
    (hf : r = .error f) : E f := by
  subst hf
  exact h

/-- Any computation that returns only values satisfying `Q` meets `Q`, if all its faults
are expected. -/
theorem intro {r : Except φ α} {Q : α → Prop} (hok : ∀ a, r = .ok a → Q a)
    (herror : ∀ f, r = .error f → E f) : Meets r E Q := by
  cases r with
  | ok a => exact hok a rfl
  | error f => exact herror f rfl

theorem foldlM {σ : Type} {P : σ → Prop} {f : σ → α → Except φ σ} :
    ∀ (as : List α) {s : σ}, (∀ s a, a ∈ as → P s → Meets (f s a) E P) → P s →
      Meets (as.foldlM f s) E P := by
  intro as
  induction as with
  | nil =>
    intro s _ hs
    exact hs
  | cons a as ih =>
    intro s hstep hs
    rw [List.foldlM_cons, bind_iff]
    refine (hstep s a List.mem_cons_self hs).mono fun s' hs' => ?_
    exact ih (fun t b hb => hstep t b (List.mem_cons_of_mem _ hb)) hs'

end Meets

end FreeAmp.Lib
