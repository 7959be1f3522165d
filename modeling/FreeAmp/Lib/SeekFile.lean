/-
  Lib/SeekFile.lean --- a file that is read, and the position in it.

  A read takes what there is, up to as much as is asked for, and moves the position behind
  it.  The position can be moved behind the end of the file, but not before its beginning:
  such a move fails, and the position stays.
-/
import Mathlib.Data.List.Basic

namespace FreeAmp.Lib

/-- An open file. -/
structure SeekFile (β : Type) where
  bytes : List β
  pos : Nat
  deriving DecidableEq, Repr

namespace SeekFile

variable {β : Type}

/-- A file that has been opened. -/
def opened (bytes : List β) : SeekFile β := ⟨bytes, 0⟩

/-- What a read of `n` gets. -/
def ahead (f : SeekFile β) (n : Nat) : List β := (f.bytes.drop f.pos).take n

/-- `fread`: what is read, and the file then. -/
def read (f : SeekFile β) (n : Nat) : List β × SeekFile β :=
  (f.ahead n, { f with pos := f.pos + (f.ahead n).length })

/-- `fseek(f, offset, SEEK_SET)` -/
def seekSet (f : SeekFile β) (offset : Nat) : SeekFile β := { f with pos := offset }

/-- `fseek(f, offset, SEEK_CUR)` -/
def seekCur (f : SeekFile β) (offset : Int) : SeekFile β :=
  if (f.pos : Int) + offset < 0 then f else { f with pos := ((f.pos : Int) + offset).toNat }

/-- `fseek(f, -offset, SEEK_END)`; none when it fails. -/
def seekBack (f : SeekFile β) (offset : Nat) : Option (SeekFile β) :=
  if offset ≤ f.bytes.length then some { f with pos := f.bytes.length - offset } else none

theorem length_ahead (f : SeekFile β) (n : Nat) :
    (f.ahead n).length = min n (f.bytes.length - f.pos) := by
  unfold ahead
  rw [List.length_take, List.length_drop]

theorem length_ahead_eq {f : SeekFile β} {n : Nat} (h : f.pos + n ≤ f.bytes.length) :
    (f.ahead n).length = n := by
  rw [length_ahead]
  omega

theorem seekCur_pos {f : SeekFile β} (offset : Int) (h : 0 ≤ (f.pos : Int) + offset) :
    ((f.seekCur offset).pos : Int) = f.pos + offset := by
  unfold seekCur
  rw [if_neg (Int.not_lt.mpr h)]
  exact Int.toNat_of_nonneg h

theorem seekCur_fails {f : SeekFile β} {offset : Int} (h : (f.pos : Int) + offset < 0) :
    f.seekCur offset = f := if_pos h

end SeekFile

end FreeAmp.Lib
