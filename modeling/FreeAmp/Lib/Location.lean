/-
  Lib/Location.lean --- where a path leads.

  A path is a text with separators in it, and a location the names of the directories from
  the root down to a file.  A path leads from one location to another, one component after
  the other: an empty one and a single dot stay, two dots go up.  No component is a link.

      resolve_append    a path behind a directory
      resolve_name      a single name behind a directory
-/
import Mathlib.Data.List.Basic

namespace FreeAmp.Lib

section Location

variable {α : Type} [DecidableEq α] (sep dot : α)

/-- The components of a path. -/
def components : List α → List (List α)
  | [] => [[]]
  | a :: s =>
    if a = sep then [] :: components s
    else match components s with
      | [] => [[a]]
      | c :: cs => (a :: c) :: cs

theorem components_ne_nil (s : List α) : components sep s ≠ [] := by
  cases s with
  | nil => exact List.cons_ne_nil _ _
  | cons a s =>
    rw [components]
    split
    · exact List.cons_ne_nil _ _
    · split <;> exact List.cons_ne_nil _ _

theorem components_append (s t : List α) :
    components sep (s ++ sep :: t) = components sep s ++ components sep t := by
  induction s with
  | nil => simp [components]
  | cons a s ih =>
    rw [List.cons_append, components, components, ih]
    split
    · rfl
    · cases hs : components sep s with
      | nil => exact absurd hs (components_ne_nil sep s)
      | cons c cs => simp

theorem components_name {s : List α} (h : sep ∉ s) : components sep s = [s] := by
  induction s with
  | nil => rfl
  | cons a s ih =>
    rw [List.mem_cons, not_or] at h
    rw [components, if_neg fun heq => h.1 heq.symm, ih h.2]

/-- Where a component leads. -/
def descend (location : List (List α)) (c : List α) : List (List α) :=
  if c = [] ∨ c = [dot] then location
  else if c = [dot, dot] then location.dropLast
  else location ++ [c]

/-- Where a path leads from a location; one that starts with a separator, from the root. -/
def resolve (cwd : List (List α)) (path : List α) : List (List α) :=
  (components sep path).foldl (descend dot) (if path.head? = some sep then [] else cwd)

theorem resolve_append (cwd : List (List α)) {dir : List α} (hdir : dir ≠ []) (path : List α) :
    resolve sep dot cwd (dir ++ sep :: path) =
      (components sep path).foldl (descend dot) (resolve sep dot cwd dir) := by
  have hhead : (dir ++ sep :: path).head? = dir.head? := by
    cases dir with
    | nil => exact absurd rfl hdir
    | cons a dir => rfl
  unfold resolve
  rw [components_append, List.foldl_append, hhead]

theorem resolve_name (cwd : List (List α)) {dir name : List α} (hdir : dir ≠ [])
    (hname : sep ∉ name) :
    resolve sep dot cwd (dir ++ sep :: name) = descend dot (resolve sep dot cwd dir) name := by
  rw [resolve_append sep dot cwd hdir, components_name sep hname]
  rfl

/-- A location below a directory. -/
def Below (dir location : List (List α)) : Prop := ∃ c cs, location = dir ++ c :: cs

/-- A name leads below a directory, or to it, or to the one above. -/
theorem descend_cases (dir : List (List α)) (name : List α) :
    Below dir (descend dot dir name) ∨ descend dot dir name = dir ∨
      descend dot dir name = dir.dropLast := by
  unfold descend
  split
  · exact .inr (.inl rfl)
  · split
    · exact .inr (.inr rfl)
    · exact .inl ⟨name, [], rfl⟩

/-- What stands in front of the separators of a path. -/
def ancestors : List α → List (List α)
  | [] => []
  | a :: s =>
    if a = sep then [] :: (ancestors s).map (a :: ·) else (ancestors s).map (a :: ·)

end Location

end FreeAmp.Lib
