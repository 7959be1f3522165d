/-
  Base/UnixPrefs.lean --- the preferences, from `base/unix/src/unixprefs.cpp`.

  A file is a list of bytes, and nothing goes wrong with reading, writing or renaming it.
  Each entry keeps the text of its line: the comments in front of it, the key, what
  stands between key and value, the value, and what follows it.  `m_ht` leads from a key
  to the first entry that has it; an entry that is not complete has no separator and is
  not in it.

  The defaults depend on how the program was built and on the home directory, and are a
  parameter.  Strings that are passed to a function end with their first NUL.
-/
import FreeAmp.Base.QuotableString
import FreeAmp.Lib.Lines

namespace FreeAmp.Base

open FreeAmp.Lib

structure UnixPrefEntry where
  /-- `prefix` -/
  comments : Option Text
  key : Option Text
  separator : Option Text
  value : Option Text
  suffix : Option Text
  deriving DecidableEq

def UnixPrefEntry.new : UnixPrefEntry := ⟨none, none, none, none, none⟩

/-- `m_ht` leads from `pref` to an entry like this. -/
def UnixPrefEntry.isOf (pref : Text) (e : UnixPrefEntry) : Bool :=
  e.key == some pref && e.separator.isSome

structure UnixPrefs where
  entries : List UnixPrefEntry
  errorLineNumber : Nat
  saveEnable : Bool
  changed : Bool
  deriving DecidableEq

def appendToString (dest : Option Text) (src : Text) : Option Text := some (dest.getD [] ++ src)

/-! ## Loading -/

/-- The variables of the constructor. -/
structure Loading where
  entries : List UnixPrefEntry
  errorLineNumber : Nat
  entry : UnixPrefEntry
  lineNumber : Nat
  deriving DecidableEq

/-- `*p == ' ' || *p == '\t'` -/
def isBlank (c : UInt8) : Bool := c == 32 || c == 9

namespace Loading

/-- `else if (!m_errorLineNumber) m_errorLineNumber = lineNumber;` -/
def check (l : Loading) (good : Bool) : Loading :=
  if good || l.errorLineNumber != 0 then l else { l with errorLineNumber := l.lineNumber }

/-- A line that is not a comment.  The blanks in front of the key are not skipped: the loop over
them asks for a character that is a space and a tab. -/
def readEntry (l : Loading) (p : Text) : Loading :=
  let (key, endPtr) := readQuotableString (bytes ":#") p
  let l := { l with entry := { l.entry with key := key } }
  -- `continue`: the entry is filled again from the next line
  if (key.bind List.head?) == some 47 then l
  else
    let l := l.check (key.any fun key => !l.entries.any (UnixPrefEntry.isOf key))
    let p := endPtr.dropWhile isBlank
    let l := l.check (p.head? == some 58)
    let p := (if p.head? == some 58 then p.drop 1 else p).dropWhile isBlank
    let (value, end') := readQuotableString (bytes "#") p
    let l := l.check value.isSome
    -- when nothing is left, the character before it does not end a line either
    let suffix := if end'.getLast? == some 10 then end' else end' ++ [10]
    { l with
      entries := l.entries ++ [{ l.entry with
        separator := appendToString l.entry.separator
          (endPtr.take (endPtr.length - p.length))
        value := value
        suffix := appendToString l.entry.suffix suffix }]
      entry := UnixPrefEntry.new }

/-- A round of the loop that reads the file. -/
def readLine (l : Loading) (buffer : Text) : Loading :=
  let l := { l with lineNumber := l.lineNumber + 1 }
  if buffer.head? == some 35 then
    { l with entry := { l.entry with comments := appendToString l.entry.comments buffer } }
  else if buffer = [] then l
  else l.readEntry buffer

/-- Before the first line. -/
def start : Loading := ⟨[], 0, UnixPrefEntry.new, 0⟩

/-- `fgets(buffer, sizeof(buffer) - 1, prefsFile)`, to the end of the file. -/
def readLines (l : Loading) (file : Text) : Loading :=
  (pieces (· == 10) 1022 1022 file).foldl (fun l buffer => l.readLine (cStr buffer)) l

end Loading

namespace UnixPrefs

/-- What the constructor makes of the file, if there is one. -/
def load : Option Text → UnixPrefs
  | none => ⟨[], 0, true, false⟩
  | some file =>
    let l := Loading.start.readLines file
    ⟨l.entries ++ if l.entry.comments.isSome then [l.entry] else [], l.errorLineNumber,
      l.errorLineNumber == 0, false⟩

/-! ## Setting and saving -/

/-- What `GetPrefString` finds. -/
def value (p : UnixPrefs) (pref : Text) : Option Text :=
  (p.entries.find? (UnixPrefEntry.isOf pref)).bind UnixPrefEntry.value

/-- The entry of the key gets the value, or a new entry does. -/
def setValue (pref buf : Text) : List UnixPrefEntry → List UnixPrefEntry
  | [] => [⟨none, some pref, some (bytes ": "), some buf, some (bytes "\n")⟩]
  | e :: entries =>
    if e.isOf pref then { e with value := some buf } :: entries
    else e :: setValue pref buf entries

def setPrefString (p : UnixPrefs) (pref buf : Text) : UnixPrefs :=
  { p with entries := setValue (cStr pref) (cStr buf) p.entries, changed := true }

/-- A number of calls. -/
def setPrefStrings (p : UnixPrefs) (calls : List (Text × Text)) : UnixPrefs :=
  calls.foldl (fun p call => p.setPrefString call.1 call.2) p

def setDefaults (p : UnixPrefs) (defaults : List (Text × Text)) : UnixPrefs :=
  defaults.foldl (fun p d => if (p.value (cStr d.1)).isNone then p.setPrefString d.1 d.2 else p) p

/-- The key, the separator and the value, as `Save` writes them. -/
def keyText (e : UnixPrefEntry) : Text :=
  match e.key, e.separator, e.value with
  | some key, some separator, some value =>
    writeQuotableString (bytes ":#") key ++ separator ++ writeQuotableString (bytes "#") value
  | _, _, _ => []

/-- What `Save` writes of an entry. -/
def text (e : UnixPrefEntry) : Text := e.comments.getD [] ++ keyText e ++ e.suffix.getD []

/-- `Save`, and the file after it. -/
def save (p : UnixPrefs) (file : Option Text) : UnixPrefs × Option Text :=
  if !p.saveEnable || !p.changed then (p, file)
  else ({ p with changed := false }, some (p.entries.flatMap text))

/-- `UnixPrefs::UnixPrefs`, and the file after it. -/
def construct (defaults : List (Text × Text)) (file : Option Text) : UnixPrefs × Option Text :=
  ((load file).setDefaults defaults).save file

end UnixPrefs

end FreeAmp.Base
