/-
  Lib/Links.lean --- singly linked lists in a heap.

  WHAT THIS FILE IS FOR.  A heap has a link, or nothing, at each address.  `Segment mem p
  cells q` says that following the links from the pointer `p` one passes the addresses
  and the values of `cells`, and comes to the pointer `q`.  A segment depends on its own
  addresses only, `Segment.congr`, and is taken apart at its end by `segment_concat`.
-/
import Mathlib.Data.List.Basic
import Mathlib.Logic.Function.Basic

namespace FreeAmp.Lib

/-- A value, and the pointer to the next link. -/
structure Link (α : Type) where
  value : α
  next : Option Nat
  deriving DecidableEq, Repr

/-- Links by address. -/
abbrev Links (α : Type) : Type := Nat → Option (Link α)

section Segments

variable {α : Type} {mem mem' : Links α}

/-- From `p` over `cells` to `q`. -/
def Segment (mem : Links α) : Option Nat → List (Nat × α) → Option Nat → Prop
  | p, [], q => p = q
  | p, (a, x) :: cells, q =>
    p = some a ∧ ∃ next, mem a = some ⟨x, next⟩ ∧ Segment mem next cells q

theorem Segment.congr {cells : List (Nat × α)} {p q : Option Nat} (h : Segment mem p cells q)
    (hmem : ∀ a ∈ cells.map Prod.fst, mem' a = mem a) : Segment mem' p cells q := by
  induction cells generalizing p with
  | nil => exact h
  | cons cell cells ih =>
    obtain ⟨hp, next, hcell, hrest⟩ := h
    refine ⟨hp, next, ?_, ih hrest fun a ha => hmem a (List.mem_cons_of_mem _ ha)⟩
    rw [hmem cell.1 List.mem_cons_self]
    exact hcell

theorem segment_concat {cells : List (Nat × α)} {p q : Option Nat} {a : Nat} {x : α} :
    Segment mem p (cells ++ [(a, x)]) q ↔
      Segment mem p cells (some a) ∧ mem a = some ⟨x, q⟩ := by
  induction cells generalizing p with
  | nil =>
    constructor
    · rintro ⟨hp, next, hcell, hq⟩
      obtain rfl : next = q := hq
      exact ⟨hp, hcell⟩
    · rintro ⟨hp, hcell⟩
      exact ⟨hp, q, hcell, rfl⟩
  | cons cell cells ih =>
    constructor
    · rintro ⟨hp, next, hcell, hrest⟩
      obtain ⟨hrest, hlast⟩ := ih.mp hrest
      exact ⟨⟨hp, next, hcell, hrest⟩, hlast⟩
    · rintro ⟨⟨hp, next, hcell, hrest⟩, hlast⟩
      exact ⟨hp, next, hcell, ih.mpr ⟨hrest, hlast⟩⟩

theorem Segment.mem_isSome {cells : List (Nat × α)} {p q : Option Nat}
    (h : Segment mem p cells q) {a : Nat} (ha : a ∈ cells.map Prod.fst) :
    (mem a).isSome = true := by
  induction cells generalizing p with
  | nil => exact absurd ha List.not_mem_nil
  | cons cell cells ih =>
    obtain ⟨_, next, hcell, hrest⟩ := h
    rcases List.mem_cons.mp ha with rfl | ha
    · rw [hcell]
      rfl
    · exact ih hrest ha

end Segments

end FreeAmp.Lib
