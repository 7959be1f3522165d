/-
  Lib/PathString.lean --- paths that are kept as strings.

  A path is put together of names, each with a separator in front of it.  `pop` cuts off what
  stands behind the last separator, and so takes back a `push` of a name that has none.
-/
import Mathlib.Data.List.Basic

namespace FreeAmp.Lib

section PathString

variable {α : Type} [DecidableEq α] (sep : α)

/-- A name at the end of a path. -/
def push (path name : List α) : List α := path ++ sep :: name

/-- What stands in front of the last separator; without one the path stays. -/
def pop (path : List α) : List α :=
  if sep ∈ path then ((path.reverse.dropWhile (· ≠ sep)).drop 1).reverse else path

/-- The path of names, the innermost first. -/
def pathOf : List (List α) → List α
  | [] => []
  | name :: names => push sep (pathOf names) name

theorem pop_nil : pop sep [] = [] := rfl

theorem pop_push {path name : List α} (h : sep ∉ name) : pop sep (push sep path name) = path := by
  have hmem : sep ∈ path ++ sep :: name :=
    List.mem_append_right _ List.mem_cons_self
  have hname : ∀ a ∈ name.reverse, decide (a ≠ sep) = true := by
    intro a ha
    rw [decide_eq_true_iff]
    exact fun heq => h (heq ▸ List.mem_reverse.mp ha)
  unfold pop push
  rw [if_pos hmem, List.reverse_append, List.reverse_cons, List.append_assoc,
    List.dropWhile_append_of_pos hname, List.singleton_append, List.dropWhile_cons_of_neg (by simp),
    List.drop_one, List.tail_cons, List.reverse_reverse]

theorem pop_pathOf {names : List (List α)} (h : ∀ name ∈ names, sep ∉ name) :
    pop sep (pathOf sep names) = pathOf sep names.tail := by
  cases names with
  | nil => rfl
  | cons name names => exact pop_push sep (h name List.mem_cons_self)

/-- A path of names without the separator is that of no other names. -/
theorem pathOf_inj {names names' : List (List α)} (h : ∀ name ∈ names, sep ∉ name)
    (h' : ∀ name ∈ names', sep ∉ name) (heq : pathOf sep names = pathOf sep names') :
    names = names' := by
  induction names generalizing names' with
  | nil =>
    cases names' with
    | nil => rfl
    | cons name' names' => exact absurd heq.symm (List.append_ne_nil_of_right_ne_nil _ (by simp))
  | cons name names ih =>
    cases names' with
    | nil => exact absurd heq (List.append_ne_nil_of_right_ne_nil _ (by simp))
    | cons name' names' =>
      rw [List.forall_mem_cons] at h h'
      have hpaths : pathOf sep names = pathOf sep names' := by
        have hpop := congrArg (pop sep) heq
        rw [pathOf, pathOf, pop_push sep h.1, pop_push sep h'.1] at hpop
        exact hpop
      rw [pathOf, pathOf, hpaths] at heq
      have hnames := (List.cons.inj (List.append_cancel_left heq)).2
      rw [hnames, ih h.2 h'.2 hpaths]

end PathString

end FreeAmp.Lib
