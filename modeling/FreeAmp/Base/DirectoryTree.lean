/-
  Base/DirectoryTree.lean --- directories, and the paths that lead to them.

  What a process is told by `opendir`, `readdir` and `lstat` about a tree of directories
  that does not change.  A path is followed component by component from the root or from
  the working directory; a symbolic link on the way is followed from the directory it is
  in, and only so many links may stand inside one another.
-/
import FreeAmp.Base.FileUrl

namespace FreeAmp.Base.Search

open FreeAmp.Lib

/-- What a name in a directory is of. -/
inductive Entry where
  | file
  /-- a device, a socket or a FIFO -/
  | special
  | directory
  | link (target : Text)
  deriving DecidableEq, Repr

/-- A directory, by the names that lead to it from the root. -/
abbrev Place := List Text

/-- `"."` -/
def dot : Text := [46]

/-- `".."` -/
def dotDot : Text := [46, 46]

/-- What a file can be called. -/
def LegalName (name : Text) : Prop :=
  name ≠ [] ∧ name ≠ dot ∧ name ≠ dotDot ∧ dirMarker ∉ name ∧ NulFree name ∧
    name.length ≤ 255

instance (name : Text) : Decidable (LegalName name) :=
  inferInstanceAs (Decidable (_ ∧ _ ∧ _ ∧ _ ∧ (0 : UInt8) ∉ name ∧ _))

/-- A tree of directories, and where in it a process stands. -/
structure DirectoryTree where
  /-- what a directory holds, in the order in which `readdir` goes through it -/
  entries : Place → List (Text × Entry)
  legal : ∀ place, ∀ e ∈ entries place, LegalName e.1
  distinct : ∀ place, ((entries place).map Prod.fst).Nodup
  /-- how long the way to a directory that holds something can be -/
  height : Nat
  low : ∀ place, height ≤ place.length → entries place = []
  /-- the working directory -/
  cwd : Place
  /-- how many links may stand inside one another, before `ELOOP` -/
  maxLinks : Nat

/-- Where a path leads. -/
inductive Spot where
  | directory (place : Place)
  /-- a file that is not a directory, in a directory and under a name in it -/
  | file (place : Place) (name : Text)
  deriving DecidableEq, Repr

namespace DirectoryTree

variable (t : DirectoryTree)

/-- One component of a path. -/
def step (follow : Place → Text → Option Spot) : Spot → Text → Option Spot
  | .file _ _, _ => none
  | .directory place, name =>
    if name = [] ∨ name = dot then some (.directory place)
    else if name = dotDot then some (.directory place.dropLast)
    else
      match (t.entries place).lookup name with
      | none => none
      | some .directory => some (.directory (place ++ [name]))
      | some (.link target) => follow place target
      | some _ => some (.file place name)

/-- Where a path begins. -/
def start (place : Place) (path : Text) : Spot :=
  .directory (if path.head? = some dirMarker then [] else place)

/-- A path, followed from a directory through at most so many links inside one another. -/
def follow : Nat → Place → Text → Option Spot
  | 0, _, _ => none
  | n + 1, place, path =>
    (path.splitOn dirMarker).foldlM (t.step (follow n)) (start place path)

/-- The components of a path, followed one after the other. -/
def walk (spot : Spot) (components : List Text) : Option Spot :=
  components.foldlM (t.step (t.follow t.maxLinks)) spot

/-- Where a path leads, a link at its end followed. -/
def resolve (path : Text) : Option Spot :=
  if path = [] then none else t.walk (start t.cwd path) (path.splitOn dirMarker)

/-- `lstat`: what a path leads to, a link at its end not followed. -/
def lstat (path : Text) : Option Entry :=
  let components := path.splitOn dirMarker
  match t.walk (start t.cwd path) components.dropLast with
  | some (.directory place) =>
    let name := components.getLastD []
    if name = [] ∨ name = dot ∨ name = dotDot then some .directory
    else (t.entries place).lookup name
  | _ => none

/-- `opendir`, and the names that `readdir` then goes through. -/
def readdir (path : Text) : Option (List Text) :=
  match t.resolve path with
  | some (.directory place) => some (dot :: dotDot :: (t.entries place).map Prod.fst)
  | _ => none

/-! ## Paths made longer -/

variable {t}

theorem walk_append {spot : Spot} {components : List Text} {name : Text} :
    t.walk spot (components ++ [name]) =
      (t.walk spot components).bind fun s => t.step (t.follow t.maxLinks) s name := by
  unfold walk
  rw [List.foldlM_append]
  cases components.foldlM (t.step (t.follow t.maxLinks)) spot with
  | none => rfl
  | some s => exact bind_pure (t.step (t.follow t.maxLinks) s name)

theorem start_append {place : Place} {path : Text} (hpath : path ≠ []) (more : Text) :
    start place (path ++ more) = start place path := by
  obtain ⟨c, rest, rfl⟩ := List.exists_cons_of_ne_nil hpath
  rfl

theorem splitOn_name {name : Text} (hname : dirMarker ∉ name) :
    name.splitOn dirMarker = [name] :=
  List.splitOn_eq_singleton hname

theorem resolve_append {path name : Text} (hpath : path ≠ []) (hname : dirMarker ∉ name) :
    t.resolve (path ++ dirMarker :: name) =
      (t.resolve path).bind fun s => t.step (t.follow t.maxLinks) s name := by
  unfold DirectoryTree.resolve
  rw [if_neg hpath, if_neg (by simp), List.splitOn_append_cons_self, splitOn_name hname,
    walk_append, start_append hpath]

/-- A separator at the end of a path asks for a directory. -/
theorem resolve_marker {path : Text} (hpath : path ≠ []) :
    t.resolve (path ++ [dirMarker]) =
      (t.resolve path).bind fun s => t.step (t.follow t.maxLinks) s [] :=
  resolve_append hpath List.not_mem_nil

theorem resolve_root : t.resolve [dirMarker] = some (.directory []) := rfl

theorem lstat_append {path name : Text} {place : Place} (hpath : path ≠ [])
    (hplace : t.resolve path = some (.directory place)) (hname : dirMarker ∉ name) :
    t.lstat (path ++ dirMarker :: name) =
      if name = [] ∨ name = dot ∨ name = dotDot then some .directory
      else (t.entries place).lookup name := by
  unfold resolve at hplace
  rw [if_neg hpath] at hplace
  unfold lstat
  simp only [List.splitOn_append_cons_self, splitOn_name hname, List.dropLast_concat,
    start_append hpath, hplace, List.getLastD_concat]

theorem lookup_entry {place : Place} {e : Text × Entry} (he : e ∈ t.entries place) :
    (t.entries place).lookup e.1 = some e.2 :=
  lookup_of_mem (t.distinct place) he

theorem length_lt_height {place : Place} {e : Text × Entry} (he : e ∈ t.entries place) :
    place.length < t.height := by
  by_contra hnot
  rw [t.low place (Nat.le_of_not_lt hnot)] at he
  exact List.not_mem_nil he

theorem step_entry {f : Place → Text → Option Spot} {place : Place} {e : Text × Entry}
    (he : e ∈ t.entries place) :
    t.step f (.directory place) e.1 =
      match e.2 with
      | .directory => some (.directory (place ++ [e.1]))
      | .link target => f place target
      | _ => some (.file place e.1) := by
  obtain ⟨hne, hdot, hdotDot, -⟩ := t.legal place e he
  rw [step, if_neg (not_or.mpr ⟨hne, hdot⟩), if_neg hdotDot, lookup_entry he]
  cases e.2 <;> rfl

end DirectoryTree

end FreeAmp.Base.Search
