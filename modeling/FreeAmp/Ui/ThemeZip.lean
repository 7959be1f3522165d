/-
  Ui/ThemeZip.lean --- packing and unpacking a theme, from `ui/freeamp/src/ThemeZip.cpp`.

  The gzip layer is taken to give back the bytes that were written to it, so an archive is
  the list of them; one that is damaged ends where it cannot be read any further.  The
  writes of `DecompressGZ` may fail: `short n` says how many bytes of the `n`-th one reach
  the file, if not all of them do.  So may the writing of what is still buffered when the
  `n`-th file is closed: `flush n` says how much of the file there is then.
-/
import FreeAmp.Base.FileUrl
import FreeAmp.Ui.TarRecord

namespace FreeAmp.Ui

open FreeAmp.Base FreeAmp.Lib

/-! ## `CompressThemeZip` -/

/-- A `char` array after `memset` and `strcpy`. -/
def strField (size : Nat) (s : Text) : Text := s ++ List.replicate (size - s.length) 0

/-- The header of a file up to its checksum. -/
def headerFront (name : Text) (size time : Nat) : Text :=
  strField 100 name ++ strField 8 (bytes "100644 ") ++ strField 8 (bytes "   764 ") ++
    strField 8 (bytes "   144 ") ++ (printOct 11 size ++ [32]) ++ (printOct 11 time ++ [32])

/-- The header behind its checksum: `typeflag`, `linkname`, `magic`, and nothing more. -/
def headerBack : Text :=
  [regType] ++ List.replicate 100 0 ++ strField 8 tmagic ++ List.replicate 247 0

/-- The header with `CHKBLANKS` for its checksum. -/
def blankHeader (name : Text) (size time : Nat) : Text :=
  headerFront name size time ++ List.replicate 8 32 ++ headerBack

/-- `sprintf` at an offset of a record: the string with its NUL. -/
def sprintfAt (r : Text) (offset : Nat) (s : Text) : Text :=
  r.take offset ++ (s ++ [0]) ++ r.drop (offset + s.length + 1)

/-- `sprintf(TarRecord.header.chksum, "%6o", sum)`: `%o` prints an `int` as unsigned. -/
def header (name : Text) (size time : Nat) : Text :=
  let r := blankHeader name size time
  sprintfAt r 148 (printOct 6 (UInt32.ofInt (recordSum r)).toNat)

/-- What is written for a file: header, contents and padding. -/
def packedFile (name contents : Text) (time : Nat) : Text :=
  header name contents.length time ++ contents ++
    List.replicate (padding contents.length).toNat 0

/-- The loop over the files: the error, and what has been written.  `time` is what `time`
gives when the header of a file is made. -/
def packFiles (files : Text → Option Text) (time : Text → Nat) :
    List Text → Except BufferFault (Error × Text)
  | [] => pure (.noErr, [])
  | path :: paths => do
      let name := fileNameOf path
      match files path with
      | none => pure (.fileNotFound, [])
      | some contents =>
        if 100 ≤ name.length then .error .overflow
        else
          let rest ← packFiles files time paths
          pure (rest.1, packedFile name contents (time path) ++ rest.2)

/-- `CompressThemeZip`.  Behind the end marker stands what is in a buffer that has been
deleted. -/
def compressThemeZip (files : Text → Option Text) (time : Text → Nat) (deleted : Text)
    (paths : List Text) : Except BufferFault (Error × Text) := do
  let packed ← packFiles files time paths
  if packed.1 = .noErr then
    pure (.noErr, packed.2 ++ List.replicate recordSize 0 ++ deleted)
  else pure packed

/-! ## `DecompressGZ` -/

/-- What `DecompressGZ` cannot know of the file system. -/
structure System where
  /-- the paths that `fopen(path, "wb")` can open -/
  opens : Text → Bool
  /-- how many bytes of the `n`-th write reach the file, if it is not in full -/
  short : Nat → Option Nat
  /-- how much there is of the `n`-th file when it is closed, if it is not all of it -/
  flush : Nat → Option Nat

/-- The state of `DecompressGZ`. -/
structure Unpacking where
  /-- the position in the archive -/
  pos : Nat
  /-- `fOneDirectory` -/
  oneDirectory : Bool
  created : List Text
  /-- the files, by their paths -/
  files : Text → Option Text
  /-- how many writes there have been -/
  writes : Nat
  /-- where a record was read as a header -/
  headers : List Nat
  /-- the files that were closed with all their data, as they were then -/
  written : List (Text × Text)

namespace Unpacking

def setFile (u : Unpacking) (path : Text) (contents : Option Text) : Unpacking :=
  { u with files := fun p => if p = path then contents else u.files p }

/-- `fopen(oFile.c_str(), "wb")` and `m_oCreatedFiles.push_back(oFile)` -/
def create (u : Unpacking) (path : Text) : Unpacking :=
  { u.setFile path (some []) with created := u.created ++ [path] }

def fwrite (sys : System) (u : Unpacking) (path block : Text) : Unpacking × Nat :=
  let put := match sys.short u.writes with
    | none => block
    | some n => block.take n
  ({ u.setFile path (some ((u.files path).getD [] ++ put)) with writes := u.writes + 1 },
    put.length)

/-- `fclose(pOut)` of the file created last. -/
def fclose (sys : System) (u : Unpacking) (path : Text) : Unpacking :=
  match sys.flush (u.created.length - 1) with
  | none => u
  | some n => u.setFile path ((u.files path).map (·.take n))

end Unpacking

/-- `CleanupThemeZip`: it returns at the first file that cannot be unlinked. -/
def unlinkAll : List Text → (Text → Option Text) → Text → Option Text
  | [], files => files
  | path :: paths, files =>
    match files path with
    | none => files
    | some _ => unlinkAll paths fun p => if p = path then none else files p

/-- `CleanupThemeZip()` -/
def Unpacking.cleanup (u : Unpacking) : Unpacking :=
  { u with files := unlinkAll u.created u.files }

def bufferSize : Nat := 8192

/-- `for(; iSize > 0;) { .. }`: the data of a file, a block at a time. -/
def copyData (sys : System) (archive path : Text) (size : Nat) (u : Unpacking) :
    Error × Unpacking :=
  if hsize : size = 0 then (.noErr, u)
  else
    let block := gzread archive u.pos (min size bufferSize)
    let u := { u with pos := u.pos + block.length }
    if block.length ≠ min size bufferSize then (.readFile, u)
    else
      let w := u.fwrite sys path block
      if w.2 ≠ min size bufferSize then (.writeFile, w.1)
      else copyData sys archive path (size - min size bufferSize) w.1
  termination_by size
  decreasing_by
    have hbuffer : 0 < bufferSize := by decide
    omega

/-- `oDestPath + string(DIR_MARKER_STR) + oUnpackFile` -/
def unpackPath (dest r : Text) : Text := dest ++ [dirMarker] ++ fileNameOf (nameOf r)

/-- The unpacking of a file: the state to go on with, or what is returned. -/
def unpackFile (sys : System) (archive dest r : Text) (u : Unpacking) :
    Except (Error × Unpacking) Unpacking :=
  let path := unpackPath dest r
  if !sys.opens path then .error (.fileNotFound, u.cleanup)
  else
    let c := copyData sys archive path (sizeOf r).toNat (u.create path)
    let u := c.2.fclose sys path
    if c.1 ≠ .noErr then .error (c.1, u.cleanup)
    else .ok { u with
      pos := u.pos + (padding (sizeOf r)).toNat
      written := u.written ++ [(path, (u.files path).getD [])] }

/-- A round of the loop: the state to go on with, or what is returned. -/
def decompressRound (sys : System) (archive dest : Text) (u : Unpacking) :
    Except (Error × Unpacking) Unpacking :=
  let h := checkHeader archive u.pos
  let u := { u with pos := u.pos + recordSize, headers := u.headers ++ [u.pos] }
  match h with
  | .short => .error (.readFile, u.cleanup)
  | .last => .error (.noErr, u)
  | .bad => .error (.noDataAvail, u.cleanup)
  | .record r =>
    if typeflagOf r = regType ∨ typeflagOf r = aregType then unpackFile sys archive dest r u
    else if typeflagOf r = dirType ∧ u.oneDirectory = false then
      .ok { u with oneDirectory := true }
    else .error (.noDataAvail, u.cleanup)

/-- `while(!fDone) { .. }`, for as many rounds as there is fuel. -/
def decompressLoop (sys : System) (archive dest : Text) :
    Nat → Unpacking → Option (Error × Unpacking)
  | 0, _ => none
  | fuel + 1, u =>
    match decompressRound sys archive dest u with
    | .error r => some r
    | .ok u => decompressLoop sys archive dest fuel u

/-- The state in which the loop is entered. -/
def unpacking (files : Text → Option Text) : Unpacking where
  pos := 0
  oneDirectory := false
  created := []
  files := files
  writes := 0
  headers := []
  written := []

/-- `DecompressGZ` of an archive that could be opened. -/
def decompressGZ (sys : System) (archive dest : Text) (files : Text → Option Text)
    (fuel : Nat) : Option (Error × Unpacking) :=
  decompressLoop sys archive dest fuel (unpacking files)

/-! ## `GetDescriptiveName` -/

def rfind (part s : Text) : Option Nat :=
  (List.range (s.length + 1)).reverse.find? fun i => part.isPrefixOf (s.drop i)

/-- `uPos = s.rfind(part); if (uPos != s.npos) s.erase(uPos, uPos + 1)` -/
def eraseLast (part s : Text) : Text :=
  match rfind part s with
  | none => s
  | some pos => s.take pos ++ s.drop (pos + (pos + 1))

/-- The name of a directory record. -/
def directoryName (r : Text) : Text :=
  eraseLast (bytes ".fat") (eraseLast [dirMarker] (nameOf r))

/-- `strcasecmp(TarRecord.header.name, "title.txt") == 0` -/
def isTitle (r : Text) : Bool := (nameOf r).map toLower == bytes "title.txt"

/-- The state of `GetDescriptiveName`. -/
structure Naming where
  pos : Nat
  /-- `oDescriptiveName` -/
  name : Text
  /-- where a record was read as a header -/
  headers : List Nat

/-- How a round of its loop can end, if not with another. -/
inductive NamingEnd where
  | returned (err : Error) (s : Naming)
  /-- there is no such array to allocate -/
  | badAlloc
  /-- `strchr` runs over the end of `pText` -/
  | overread

/-- A string up to the end of its first line, as the two calls of `strchr` leave it. -/
def firstLine (text : Text) : Text := ((cStr text).takeWhile (· != 10)).takeWhile (· != 13)

/-- `gzseek(pIn, offset, SEEK_CUR)`: there is no position before the first. -/
def gzseek (pos : Nat) (offset : Int) : Nat :=
  if (pos : Int) + offset < 0 then pos else ((pos : Int) + offset).toNat

/-- `iSize + iPadding`: the sum can be more than an `int` holds, as the padding never is. -/
def skipOf (r : Text) : Int := toLong (UInt32.ofInt (sizeOf r + padding (sizeOf r)))

/-- The title in a `title.txt` that is not empty. -/
def readTitle (archive r : Text) (s : Naming) : NamingEnd :=
  let length := skipOf r
  if length < 0 then .badAlloc
  else
    let text := gzread archive s.pos length.toNat
    let s := { s with pos := s.pos + text.length }
    if text.length ≠ length.toNat then .returned .readFile s
    else if 10 ∉ text ∧ 0 ∉ text then .overread
    else .returned .noErr { s with name := firstLine text }

/-- A round of the loop: the state to go on with, or how it ends. -/
def namingRound (archive : Text) (s : Naming) : Except NamingEnd Naming :=
  let h := checkHeader archive s.pos
  let s := { s with pos := s.pos + recordSize, headers := s.headers ++ [s.pos] }
  match h with
  | .short => .error (.returned .readFile s)
  | .last => .error (.returned .noErr s)
  | .bad => .error (.returned .noDataAvail s)
  | .record r =>
    if typeflagOf r = dirType then .error (.returned .noErr { s with name := directoryName r })
    else if isTitle r then
      if sizeOf r ≠ 0 then .error (readTitle archive r s) else .ok s
    else if sizeOf r ≠ 0 then
      .ok { s with pos := gzseek s.pos (skipOf r) }
    else .ok s

/-- `while(!fDone) { .. }`, for as many rounds as there is fuel. -/
def namingLoop (archive : Text) : Nat → Naming → Option NamingEnd
  | 0, _ => none
  | fuel + 1, s =>
    match namingRound archive s with
    | .error e => some e
    | .ok s => namingLoop archive fuel s

/-- `GetDescriptiveName` of an archive that could be opened. -/
def getDescriptiveName (archive : Text) (fuel : Nat) : Option NamingEnd :=
  namingLoop archive fuel ⟨0, [], []⟩

end FreeAmp.Ui
