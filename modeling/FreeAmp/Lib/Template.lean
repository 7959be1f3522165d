/-
  Lib/Template.lean --- templates with placeholders, and their replacement one kind after
  another.

  A template is a list of characters and of places of some kind.  `render` gives every place
  its value at the same time; a run replaces the first occurrence of one pattern after the
  other.  `found_iff` and `run_of_found` compare the two.
-/
import Mathlib.Logic.Function.Basic
import FreeAmp.Lib.Search

namespace FreeAmp.Lib

/-- A character, or the place of a value. -/
inductive Piece (α κ : Type) where
  | char (c : α)
  | place (k : κ)
  deriving DecidableEq, Repr

section Template

variable {α κ : Type}

/-! ## All places at the same time -/

/-- The template with every place filled. -/
def render (value : κ → List α) (ps : List (Piece α κ)) : List α :=
  ps.flatMap fun
    | .char c => [c]
    | .place k => value k

theorem render_char (value : κ → List α) (c : α) (ps : List (Piece α κ)) :
    render value (.char c :: ps) = c :: render value ps := rfl

theorem render_place (value : κ → List α) (k : κ) (ps : List (Piece α κ)) :
    render value (.place k :: ps) = value k ++ render value ps := rfl

variable [DecidableEq κ]

/-- Where the first place of the kind stands, with every place filled. -/
def placeOf (value : κ → List α) (k : κ) : List (Piece α κ) → Option Nat
  | [] => none
  | .char _ :: ps => (placeOf value k ps).map (· + 1)
  | .place j :: ps =>
    if j = k then some 0 else (placeOf value k ps).map (· + (value j).length)

/-- The value of a kind that has no place does not matter. -/
theorem render_update_of_not_mem {value : κ → List α} {k : κ} {ps : List (Piece α κ)}
    (h : .place k ∉ ps) (v : List α) : render (Function.update value k v) ps = render value ps := by
  induction ps with
  | nil => rfl
  | cons p ps ih =>
    have hrest := ih (List.not_mem_of_not_mem_cons h)
    cases p with
    | char c => rw [render_char, render_char, hrest]
    | place j =>
      have hne : j ≠ k := fun heq => h (heq ▸ List.mem_cons_self)
      rw [render_place, render_place, hrest, Function.update_of_ne hne]

theorem placeOf_eq_none_iff {value : κ → List α} {k : κ} {ps : List (Piece α κ)} :
    placeOf value k ps = none ↔ .place k ∉ ps := by
  induction ps with
  | nil => exact ⟨fun _ => List.not_mem_nil, fun _ => rfl⟩
  | cons p ps ih =>
    cases p with
    | char c => simp [placeOf, ih]
    | place j =>
      by_cases hj : j = k
      · simp [placeOf, hj]
      · simp [placeOf, hj, ih, Ne.symm hj]

/-- The patterns of the kinds that are left are still there. -/
theorem pattern_update {pattern value : κ → List α} {k : κ} {ks : List κ} (hnodup : (k :: ks).Nodup)
    (hvalue : ∀ j ∈ k :: ks, value j = pattern j) (v : List α) :
    ∀ j ∈ ks, Function.update value k v j = pattern j := fun j hj => by
  have hne : j ≠ k := fun heq => (List.nodup_cons.mp hnodup).1 (heq ▸ hj)
  rw [Function.update_of_ne hne]
  exact hvalue j (List.mem_cons_of_mem k hj)

variable [DecidableEq α]

/-- The value of a kind with one place stands at the place. -/
theorem render_update {value : κ → List α} {k : κ} {ps : List (Piece α κ)} {i : Nat}
    (hone : ps.count (.place k) ≤ 1) (hi : placeOf value k ps = some i) (v : List α) :
    render (Function.update value k v) ps =
      (render value ps).take i ++ v ++ (render value ps).drop (i + (value k).length) := by
  induction ps generalizing i with
  | nil => exact nomatch hi
  | cons p ps ih =>
    cases p with
    | char c =>
      rw [placeOf, Option.map_eq_some_iff] at hi
      obtain ⟨j, hj, rfl⟩ := hi
      have hcount : ps.count (.place k) ≤ 1 := by
        rwa [List.count_cons_of_ne (by simp)] at hone
      have hshift : j + 1 + (value k).length = (j + (value k).length) + 1 := by omega
      rw [render_char, render_char, ih hcount hj, hshift, List.take_succ_cons,
        List.drop_succ_cons]
      rfl
    | place j =>
      by_cases hj : j = k
      · subst hj
        rw [placeOf, if_pos rfl] at hi
        obtain rfl := Option.some.inj hi
        have hnone : Piece.place j ∉ ps := by
          rw [List.count_cons_self] at hone
          exact List.count_eq_zero.mp (by omega)
        rw [render_place, render_place, render_update_of_not_mem hnone, Function.update_self,
          List.take_zero, List.nil_append, Nat.zero_add, List.drop_left]
      · rw [placeOf, if_neg hj, Option.map_eq_some_iff] at hi
        obtain ⟨m, hm, rfl⟩ := hi
        have hcount : ps.count (.place k) ≤ 1 := by
          rwa [List.count_cons_of_ne (by simpa using hj)] at hone
        have hshift : m + (value j).length + (value k).length =
            (value j).length + (m + (value k).length) := by omega
        rw [render_place, render_place, ih hcount hm, Function.update_of_ne hj, hshift,
          Nat.add_comm m (value j).length, List.take_length_add_append,
          List.drop_length_add_append]
        simp only [List.append_assoc]

/-! ## One kind after another -/

/-- The first occurrence of the pattern is replaced. -/
def replacePlace (p v s : List α) : List α :=
  match firstPlace p s with
  | none => s
  | some i => s.take i ++ v ++ s.drop (i + p.length)

/-- Where the pattern is found at the place of its kind, the place gets its value. -/
theorem replacePlace_render {value : κ → List α} {k : κ} {ps : List (Piece α κ)} {p : List α}
    (hone : ps.count (.place k) ≤ 1) (hp : value k = p)
    (hfound : firstPlace p (render value ps) = placeOf value k ps) (v : List α) :
    replacePlace p v (render value ps) = render (Function.update value k v) ps := by
  unfold replacePlace
  rw [hfound]
  cases hplace : placeOf value k ps with
  | none => exact (render_update_of_not_mem (placeOf_eq_none_iff.mp hplace) v).symm
  | some i => rw [render_update hone hplace, hp]

variable (pattern values : κ → List α) (ps : List (Piece α κ))

/-- The kinds are replaced one after another. -/
def run (ks : List κ) (s : List α) : List α :=
  ks.foldl (fun s k => replacePlace (pattern k) (values k) s) s

/-- The values in front of a kind of the run, and the patterns from it on. -/
def filled (value : κ → List α) (ks : List κ) : κ → List α :=
  ks.foldl (fun value k => Function.update value k (values k)) value

/-- In a run from `s`, every pattern is found at the place of its kind, or nowhere. -/
def Found : List κ → (κ → List α) → List α → Prop
  | [], _, _ => True
  | k :: ks, value, s => firstPlace (pattern k) s = placeOf value k ps ∧
      Found ks (Function.update value k (values k)) (replacePlace (pattern k) (values k) s)

/-- With the kinds in front of it filled, every pattern stands first at the place of its kind,
or nowhere. -/
def Clear : List κ → (κ → List α) → Prop
  | [], _ => True
  | k :: ks, value => firstPlace (pattern k) (render value ps) = placeOf value k ps ∧
      Clear ks (Function.update value k (values k))

variable {pattern values ps}

theorem found_iff (hone : ∀ k, ps.count (.place k) ≤ 1) {ks : List κ} {value : κ → List α}
    (hnodup : ks.Nodup) (hvalue : ∀ k ∈ ks, value k = pattern k) :
    Found pattern values ps ks value (render value ps) ↔ Clear pattern values ps ks value := by
  induction ks generalizing value with
  | nil => exact Iff.rfl
  | cons k ks ih =>
    have hrest := @ih (Function.update value k (values k)) (List.nodup_cons.mp hnodup).2
      (pattern_update hnodup hvalue _)
    refine and_congr_right fun hfirst => ?_
    rw [replacePlace_render (hone k) (hvalue k List.mem_cons_self) hfirst]
    exact hrest

theorem run_of_found (hone : ∀ k, ps.count (.place k) ≤ 1) {ks : List κ} {value : κ → List α}
    (hnodup : ks.Nodup) (hvalue : ∀ k ∈ ks, value k = pattern k)
    (hfound : Found pattern values ps ks value (render value ps)) :
    run pattern values ks (render value ps) = render (filled values value ks) ps := by
  induction ks generalizing value with
  | nil => rfl
  | cons k ks ih =>
    obtain ⟨hfirst, hrest⟩ := hfound
    have hstep := replacePlace_render (hone k) (hvalue k List.mem_cons_self) hfirst (values k)
    rw [hstep] at hrest
    rw [run, List.foldl_cons, hstep, filled, List.foldl_cons]
    exact ih (List.nodup_cons.mp hnodup).2 (pattern_update hnodup hvalue _) hrest

end Template

end FreeAmp.Lib
