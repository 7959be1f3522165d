/-
  Lib/TwoStacks.lean --- two stacks, and the line with a cursor that represents them.

  What has been done is on one stack and what has been undone on the other, the heads
  of the lists being the tops.  Written in a line, with what was done first in front, the
  items do not move when something is undone or redone: only the boundary does.
-/
import Mathlib.Data.List.Basic

namespace FreeAmp.Lib

/-- The items that are done and those that are undone. -/
structure TwoStacks (α : Type) where
  done : List α
  undone : List α

namespace TwoStacks

variable {α : Type}

def empty : TwoStacks α := ⟨[], []⟩

/-- A new item is done; what was undone is discarded. -/
def add (s : TwoStacks α) (a : α) : TwoStacks α := ⟨a :: s.done, []⟩

def undo (s : TwoStacks α) : TwoStacks α :=
  match s.done with
  | [] => s
  | a :: done => ⟨done, a :: s.undone⟩

def redo (s : TwoStacks α) : TwoStacks α :=
  match s.undone with
  | [] => s
  | a :: undone => ⟨a :: s.done, undone⟩

/-- The items in a line. -/
def line (s : TwoStacks α) : List α := s.done.reverse ++ s.undone

variable {s : TwoStacks α}

theorem redo_undo (h : s.done ≠ []) : s.undo.redo = s := by
  obtain ⟨done, undone⟩ := s
  cases done with
  | nil => exact absurd rfl h
  | cons a done => rfl

theorem undo_redo (h : s.undone ≠ []) : s.redo.undo = s := by
  obtain ⟨done, undone⟩ := s
  cases undone with
  | nil => exact absurd rfl h
  | cons a undone => rfl

/-! ## The line -/

theorem line_length : s.line.length = s.done.length + s.undone.length := by
  rw [line, List.length_append, List.length_reverse]

theorem line_add (a : α) : (s.add a).line = s.done.reverse ++ [a] := by
  rw [line, add, List.reverse_cons, List.append_nil]

theorem line_undo : s.undo.line = s.line := by
  obtain ⟨done, undone⟩ := s
  cases done with
  | nil => rfl
  | cons a done => simp only [undo, line, List.reverse_cons, List.append_assoc,
      List.cons_append, List.nil_append]

theorem line_redo : s.redo.line = s.line := by
  obtain ⟨done, undone⟩ := s
  cases undone with
  | nil => rfl
  | cons a undone => simp only [redo, line, List.reverse_cons, List.append_assoc,
      List.cons_append, List.nil_append]

theorem line_take : s.line.take s.done.length = s.done.reverse := by
  rw [line, ← List.length_reverse, List.take_left]

theorem line_drop : s.line.drop s.done.length = s.undone := by
  rw [line, ← List.length_reverse, List.drop_left]

/-- The top of what is done stands before the boundary. -/
theorem line_done {a : α} {rest : List α} (h : s.done = a :: rest) :
    s.line[rest.length]? = some a := by
  rw [line, h, List.reverse_cons, List.append_assoc, List.getElem?_append_right (by simp),
    List.length_reverse, Nat.sub_self]
  rfl

theorem line_undone {a : α} {rest : List α} (h : s.undone = a :: rest) :
    s.line[s.done.length]? = some a := by
  rw [line, h, List.getElem?_append_right (by simp), List.length_reverse, Nat.sub_self]
  rfl

end TwoStacks

end FreeAmp.Lib
