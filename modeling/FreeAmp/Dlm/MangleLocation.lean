/-
  Dlm/MangleLocation.lean --- the placeholders of a location, as `RMP::MangleLocation` of
  `dlm/rmp/rmp.cpp` replaces them.

      render_pattern     a location, taken apart
      mangled_iff        when the placeholders, and nothing else, are replaced

  A value that is put in is searched for the kinds that come after it.
-/
import FreeAmp.Lib.Template
import FreeAmp.Dlm.Rmp

namespace FreeAmp.Dlm.Rmp

open FreeAmp.Base FreeAmp.Lib

/-! ## Placeholders -/

/-- The kinds of placeholders. -/
inductive Placeholder where
  | fid
  | f
  | lid
  | pid
  | d
  deriving DecidableEq, Repr

namespace Placeholder

def oPattern : Placeholder → Text
  | fid => bytes "%fid"
  | f => bytes "%f"
  | lid => bytes "%lid"
  | pid => bytes "%pid"
  | d => bytes "%d"

/-- The order in which they are replaced. -/
def all : List Placeholder := [fid, f, lid, pid, d]

/-- A location taken apart: a `%fid` is no `%f`. -/
def pieces : Text → List (Piece UInt8 Placeholder)
  | [] => []
  | 37 :: 102 :: 105 :: 100 :: s => .place fid :: pieces s
  | 37 :: 102 :: s => .place f :: pieces s
  | 37 :: 108 :: 105 :: 100 :: s => .place lid :: pieces s
  | 37 :: 112 :: 105 :: 100 :: s => .place pid :: pieces s
  | 37 :: 100 :: s => .place d :: pieces s
  | c :: s => .char c :: pieces s

theorem render_pattern (s : Text) : render oPattern (pieces s) = s := by
  induction s using pieces.induct with
  | case1 => rfl
  | case2 s ih => rw [pieces, render_place, ih]; rfl
  | case3 s hnot ih => rw [pieces, render_place, ih]; rfl; exact hnot
  | case4 s ih => rw [pieces, render_place, ih]; rfl
  | case5 s ih => rw [pieces, render_place, ih]; rfl
  | case6 s ih => rw [pieces, render_place, ih]; rfl
  | case7 c s h1 h2 h3 h4 h5 ih => rw [pieces, render_char, ih] <;> assumption

end Placeholder

/-! ## Locations -/

/-- A location in which every placeholder occurs at most once. -/
structure Location where
  text : Text
  once : ∀ k, (Placeholder.pieces text).count (.place k) ≤ 1

/-- What the placeholders stand for. -/
structure Values where
  oTrackId : Text
  oFileName : Text
  oListId : Text
  oPackageId : Text
  oTrackDir : Text

def Values.get (v : Values) : Placeholder → Text
  | .fid => v.oTrackId
  | .f => v.oFileName
  | .lid => v.oListId
  | .pid => v.oPackageId
  | .d => v.oTrackDir

namespace Location

variable (l : Location) (v : Values)

/-- `MangleLocation` -/
def mangled : Text :=
  RMP.mangleLocation v.oTrackId v.oFileName v.oListId v.oPackageId v.oTrackDir l.text

/-- All placeholders are replaced at the same time, and in the run every pattern is found at
its placeholder, or nowhere. -/
def Mangled : Prop :=
  l.mangled v = render v.get (Placeholder.pieces l.text) ∧
    Found Placeholder.oPattern v.get (Placeholder.pieces l.text) Placeholder.all
      Placeholder.oPattern l.text

/-- With the kinds in front of it replaced at the same time, no pattern stands in front of its
placeholder, nor where there is none. -/
def NoStray : Prop :=
  Clear Placeholder.oPattern v.get (Placeholder.pieces l.text) Placeholder.all
    Placeholder.oPattern

variable {l v}

theorem filled_all : filled v.get Placeholder.oPattern Placeholder.all = v.get := by
  funext k
  cases k <;> rfl

/-- The placeholders, and nothing else, are replaced just when there are no strays. -/
theorem mangled_iff (l : Location) (v : Values) : l.Mangled v ↔ l.NoStray v := by
  have hnodup : Placeholder.all.Nodup := by decide
  have htext := Placeholder.render_pattern l.text
  have hfound := @found_iff _ _ _ _ Placeholder.oPattern v.get _ l.once _ Placeholder.oPattern
    hnodup fun _ _ => rfl
  constructor
  · rintro ⟨-, h⟩
    rw [htext] at hfound
    exact hfound.mp h
  · intro h
    have hrun := run_of_found l.once hnodup (fun _ _ => rfl) (hfound.mpr h)
    rw [htext] at hfound
    rw [htext, filled_all] at hrun
    exact ⟨hrun, hfound.mpr h⟩

/-- A track id that is a placeholder. -/
theorem mangled_fails : ¬ ∀ (l : Location) (v : Values), l.Mangled v := by
  intro hall
  have hwrong := (hall ⟨bytes "%fid", fun k => by cases k <;> decide⟩
    ⟨bytes "%f", bytes "x", [], [], []⟩).1
  exact absurd hwrong (by decide)

end Location

end FreeAmp.Dlm.Rmp
