/-
  Lib/Ring.lean --- an unbounded stream kept in a ring of cells.

  Position `p` of the stream lives in cell `p % size`.  Positions less than one
  lap apart live in different cells (`mod_ne_of_lap`), and a cell index plus a
  small offset wraps at most once (`add_mod_of_lt`, `add_mod_of_ge`).

  `Stored size mem stream lo` says that every position of `stream` from `lo` on
  is where it should be.  It is kept by writes to cells no live position uses
  and extended by writes to the cells that come next.
-/
import Mathlib.Data.Nat.ModEq
import FreeAmp.Lib.Memory

namespace FreeAmp.Lib

/-! ## Cell arithmetic -/

/-- Two positions less than a lap apart are in different cells. -/
theorem mod_ne_of_lap {size p q : Nat} (hpq : p < q) (hlap : q < p + size) :
    p % size ≠ q % size := by
  intro heq
  have hdvd : size ∣ q - p := (Nat.modEq_iff_dvd' (Nat.le_of_lt hpq)).mp heq
  have hle : size ≤ q - p := Nat.le_of_dvd (by omega) hdvd
  omega

theorem add_mod_of_lt {size p k : Nat} (h : p % size + k < size) :
    (p + k) % size = p % size + k := by
  rw [Nat.add_mod, Nat.mod_eq_of_lt (a := k) (by omega), Nat.mod_eq_of_lt h]

theorem add_mod_of_ge {size p k : Nat} (hge : size ≤ p % size + k)
    (hlt : p % size + k < 2 * size) : (p + k) % size = p % size + k - size := by
  have hsplit : (p + k) % size = (p % size + k) % size := by simp
  rw [hsplit, Nat.mod_eq_sub_mod hge, Nat.mod_eq_of_lt (by omega)]

/-! ## Streams in a ring -/

/-- Every position of `stream` from `lo` on stands in its cell of the ring. -/
def Stored {β : Type} (size : Nat) (mem : Memory β) (stream : List β) (lo : Nat) : Prop :=
  ∀ p, lo ≤ p → p < stream.length → stream[p]? = some (mem (p % size))

namespace Stored

variable {β : Type} {size lo : Nat} {mem mem' : Memory β} {stream : List β}

theorem drop (h : Stored size mem stream lo) {lo' : Nat} (hle : lo ≤ lo') :
    Stored size mem stream lo' :=
  fun p hp hlt => h p (Nat.le_trans hle hp) hlt

/-- A change of memory outside the live cells is not noticed. -/
theorem frame (h : Stored size mem stream lo)
    (hsame : ∀ p, lo ≤ p → p < stream.length → mem' (p % size) = mem (p % size)) :
    Stored size mem' stream lo := by
  intro p hp hlt
  rw [h p hp hlt, hsame p hp hlt]

/-- Bytes found in the cells that come next extend the stream. -/
theorem append (h : Stored size mem stream lo) {bytes : List β}
    (hnew : ∀ i, i < bytes.length → bytes[i]? = some (mem ((stream.length + i) % size))) :
    Stored size mem (stream ++ bytes) lo := by
  intro p hp hlt
  rw [List.length_append] at hlt
  by_cases hold : p < stream.length
  · rw [List.getElem?_append_left hold]
    exact h p hp hold
  · rw [List.getElem?_append_right (by omega)]
    have hpos : stream.length + (p - stream.length) = p := by omega
    rw [hnew (p - stream.length) (by omega), hpos]

end Stored

end FreeAmp.Lib
