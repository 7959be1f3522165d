/-
  Base/FileUrl.lean --- paths and `file://` URLs, from `base/src/utility.cpp`.

  `URLToFilePath` and `FilePathToURL` write into a buffer of the caller's, whose size they
  are told.  The separator is that of Unix, where a path stands in a URL as it is.
-/
import FreeAmp.Base.Database
import FreeAmp.Base.Errors

namespace FreeAmp.Base

open FreeAmp.Lib

def maxPath : Nat := 4096

def protocol : Text := bytes "file://"

def dirMarker : UInt8 := 47

/-- The separator is what `tolower` makes of itself alone. -/
theorem toLower_eq_marker {c : UInt8} : toLower c = dirMarker ↔ c = dirMarker := by
  unfold toLower
  split
  · rename_i h
    have hlow : 65 ≤ c.toNat := UInt8.le_iff_toNat_le.mp h.1
    have hhigh : c.toNat ≤ 90 := UInt8.le_iff_toNat_le.mp h.2
    have hadd : (c + 32).toNat = c.toNat + 32 := by
      rw [UInt8.toNat_add]
      show (c.toNat + 32) % 256 = _
      omega
    have hmarker : dirMarker.toNat = 47 := by decide
    constructor
    · intro heq
      rw [heq, hmarker] at hadd
      omega
    · intro heq
      rw [heq, hmarker] at hlow
      omega
  · rfl

/-- What a search from behind finds up to a character that is not passed over. -/
theorem reverse_takeWhile_append {p : UInt8 → Bool} {c : UInt8} {path name : Text}
    (hc : p c = false) (hname : ∀ b ∈ name, p b = true) :
    (path ++ c :: name).reverse.takeWhile p = name.reverse := by
  rw [List.reverse_append, List.reverse_cons, List.append_assoc,
    List.takeWhile_append_of_pos fun b hb => hname b (List.mem_reverse.mp hb),
    List.singleton_append, List.takeWhile_cons, hc, if_neg Bool.false_ne_true, List.append_nil]

theorem reverse_takeWhile_marker {path name : Text} (h : dirMarker ∉ name) :
    (path ++ dirMarker :: name).reverse.takeWhile (· != dirMarker) = name.reverse := by
  apply reverse_takeWhile_append (by decide)
  intro b hb
  have hne : b ≠ dirMarker := fun heq => h (heq ▸ hb)
  simpa using hne

/-- What a function that works on buffers can do wrong. -/
inductive BufferFault where
  /-- more is written than the buffer holds -/
  | overflow
  /-- a buffer is read that has not been written -/
  | uninitialised
  deriving DecidableEq, Repr

/-- What is written into a buffer, and the length that would have been needed. -/
structure Converted where
  result : Except Error Text
  length : Nat

def filePathToURL (path : Text) (length : Nat) : Converted where
  result :=
    if path.length + protocol.length + 1 ≤ length then .ok (protocol ++ path)
    else .error .bufferTooSmall
  length := path.length + protocol.length + 1

/-- `strncasecmp(url, protocol, strlen(protocol)) == 0` -/
def isFileURL (url : Text) : Bool := (url.take protocol.length).map toLower == protocol

def urlToFilePath (url : Text) (length : Nat) : Converted :=
  if isFileURL url then
    { result :=
        if url.length - protocol.length + 1 ≤ length then .ok (url.drop protocol.length)
        else .error .bufferTooSmall
      length := url.length - protocol.length + 1 }
  else { result := .error .invalidParam, length := length }

theorem protocol_length : protocol.length = 7 := rfl

theorem isFileURL_append (path : Text) : isFileURL (protocol ++ path) = true := by
  unfold isFileURL
  rw [List.take_left]
  decide

theorem urlToFilePath_append {path : Text} {length : Nat} (h : path.length < length) :
    (urlToFilePath (protocol ++ path) length).result = .ok path := by
  unfold urlToFilePath
  rw [if_pos (isFileURL_append path), List.length_append, Nat.add_sub_cancel_left,
    List.drop_left]
  exact if_pos h

theorem filePathToURL_ok {path : Text} {length : Nat}
    (h : path.length + protocol.length + 1 ≤ length) :
    (filePathToURL path length).result = .ok (protocol ++ path) :=
  if_pos h

end FreeAmp.Base
