/-
  Ui/Unzip.lean --- unpacking a theme that is a zip archive: `DecompressZip` in
  `ui/freeamp/src/ThemeZip.cpp`, with `zip_wrapper.cpp`, `zip_inflate.cpp` and the functions
  of `zip_header.cpp` and `zip_utils.cpp` that they call in `lib/unzip/src`.

  An archive is its bytes and the records of its central directory, as `zip_file_open` has
  read them.  `inflate` is a parameter.  A file that could be opened takes all that is
  written to it.
-/
import FreeAmp.Base.FileUrl
import FreeAmp.Lib.Location
import FreeAmp.Ui.TarRecord

namespace FreeAmp.Ui

open FreeAmp.Base FreeAmp.Lib

/-! ## `zlib` -/

/-- `Z_OK`, `Z_STREAM_END` and `Z_ERRNO` -/
def zOk : Int := 0

def zStreamEnd : Int := 1

def zErrno : Int := -1

/-- What a call of `inflate` does: its status, how much of the input it has used, what it puts
out, and the stream behind it. -/
structure Inflated (σ : Type) where
  status : Int
  used : Nat
  out : Text
  state : σ

/-- `zlib`: a stream as `inflateInit2` leaves it for raw data, and `inflate` with
`Z_SYNC_FLUSH` on the input there is, with room for so much output. -/
structure Zlib where
  Stream : Type
  start : Stream
  inflate : Stream → Text → Nat → Inflated Stream

/-! ## The archive -/

/-- What is used of a record of the central directory; there is no name if its length is 0. -/
structure ZipCDR where
  filename : Option Text
  method : Nat
  csize : Nat
  place : Nat

def readInt (b : Text) (counter : Nat) : Nat :=
  ((b.getD (counter + 1) 0).toNat <<< 8) + (b.getD counter 0).toNat

def readLong (b : Text) (counter : Nat) : Nat :=
  ((b.getD (counter + 3) 0).toNat <<< 24) + ((b.getD (counter + 2) 0).toNat <<< 16) +
    ((b.getD (counter + 1) 0).toNat <<< 8) + (b.getD counter 0).toNat

/-- What `DecompressZip` cannot know of the system it runs on. -/
structure ZipSystem where
  /-- the working directory -/
  cwd : List Text
  /-- the directories there are -/
  there : List Text → Bool
  /-- where a directory can be made -/
  allows : List Text → Bool
  /-- the paths that `fopen(path, "wb")` can open -/
  opens : Text → Bool
  /-- the archive can be opened once more when it has been read -/
  reopens : Bool
  /-- what is in a buffer that has not been written -/
  stale : Nat → UInt8
  /-- a size of which fewer than 12 bytes with it could be read -/
  cutSize : Nat → Nat

/-- `fseek(file, offset, SEEK_CUR)`: there is no position before the first. -/
def seekCur (pos : Nat) (offset : Int) : Nat :=
  if (pos : Int) + offset < 0 then pos else ((pos : Int) + offset).toNat

/-- `zip_read_local_header(infile, &lh, 1)` at a position: where the data are, if it succeeds.
If bit 2 of the flags is set it looks for 12 bytes behind the data, fails if they are there,
and otherwise goes back by a size that it has not read.  A `long` has 32 bits. -/
def readLocalHeader (sys : ZipSystem) (archive : Text) (pos : Nat) : Option Nat :=
  if readLong (gzread archive pos 4) 0 ≠ 0x04034b50 then none
  else
    let tmp := gzread archive (pos + 4) 26
    if tmp.length ≠ 26 then none
    else
      let flag := readInt tmp 2
      let csize := readLong tmp 14
      let name := gzread archive (pos + 30) (readInt tmp 22)
      let place := pos + 30 + name.length + readInt tmp 24
      if flag &&& 4 ≠ 0 ∧ 0 < csize then
        let behind := seekCur place (toLong (UInt32.ofNat csize))
        if behind + 12 ≤ archive.length then none
        else
          let back := -((sys.cutSize pos : Int) + 12)
          some (seekCur (max behind archive.length) (toLong (UInt32.ofInt back)))
      else some place

/-! ## `uncompress_inflated` and `uncompress_stored` -/

/-- The size of `unCompr` that is used. -/
def inflateSize : Nat := 0x8000

/-- The loops of `uncompress_inflated`, for as many calls of `inflate` as there is fuel: the
status, and what is in the file.  When the input is used up it starts again. -/
def inflateLoop (z : Zlib) (compr : Text) :
    Nat → z.Stream → Text → Text → Text → Option (Int × Text)
  | 0, _, _, _, _ => none
  | fuel + 1, stream, nextIn, unCompr, file =>
    let r := z.inflate stream nextIn (inflateSize - unCompr.length)
    let unCompr := unCompr ++ r.out
    if r.status = zStreamEnd then some (zOk, file ++ unCompr)
    else if r.status ≠ zOk then some (r.status, file)
    else
      let rest := nextIn.drop r.used
      let nextIn := if rest = [] then compr else rest
      if unCompr.length < inflateSize then
        inflateLoop z compr fuel r.state nextIn unCompr file
      else inflateLoop z compr fuel r.state nextIn [] (file ++ unCompr)

def uncompressInflated (z : Zlib) (compr : Text) (fuel : Nat) : Option (Int × Text) :=
  inflateLoop z compr fuel z.start compr [] []

/-- `uncompress_stored`: `fwrite(compr, comprLen, 1, file)` gives how many items it has
written, which is 1. -/
def uncompressStored (compr : Text) : Int × Text :=
  if compr.length = 1 then (zOk, compr) else (zErrno, compr)

/-! ## `uncompress_file` -/

/-- `fread(buffer, csize, 1, infile)` -/
def readData (sys : ZipSystem) (archive : Text) (pos csize : Nat) : Text :=
  let data := gzread archive pos csize
  data ++ (List.range (csize - data.length)).map sys.stale

/-- `uncompress_file`: 0 or 1, and what is in the file.  A `long` has 32 bits. -/
def uncompressFile (z : Zlib) (sys : ZipSystem) (archive : Text) (h : ZipCDR) (fuel : Nat) :
    Option (Nat × Text) :=
  if 2147483648 ≤ h.place then some (0, [])
  else
    match readLocalHeader sys archive h.place with
    | none => some (0, [])
    | some pos =>
      if h.csize = 0 then some (0, [])
      else
        let buffer := readData sys archive pos h.csize
        let r :=
          if h.method = 8 then uncompressInflated z buffer fuel
          else if h.method = 0 then some (uncompressStored buffer)
          else some (zErrno, [])
        r.map fun r => (if r.1 = zOk then 1 else 0, r.2)

/-! ## `uncompress_file_with_dir` -/

/-- The state of the unpacking. -/
structure Unzipping where
  /-- the directories that were made -/
  made : List Text
  /-- the files that were opened -/
  opened : List Text
  /-- the files that were closed, with what was in them -/
  closed : List (Text × Text)
  errorCount : Nat

def fnameMax : Nat := 1024

/-- Where a path leads. -/
def ZipSystem.locate (sys : ZipSystem) (path : Text) : List Text :=
  resolve dirMarker 46 sys.cwd path

def mkdir (sys : ZipSystem) (made : List Text) (dirname : Text) : List Text :=
  if dirname ≠ [] ∧ sys.there (sys.locate dirname) = false ∧
      (∀ d ∈ made, sys.locate d ≠ sys.locate dirname) ∧ sys.allows (sys.locate dirname) = true then
    made ++ [dirname]
  else made

def makeDirs (sys : ZipSystem) (made : List Text) (path : Text) : Except BufferFault (List Text) :=
  if fnameMax ≤ path.length then .error .overflow
  else .ok ((ancestors dirMarker path).foldl (mkdir sys) made)

/-- The path of an entry: the base name in the directory, or all of a name that ends in a
separator; with `extra_flags & 0x02` in lower case. -/
def unzipPath (dir filename : Text) (extraFlags : Nat) : Text :=
  let name := cStr filename
  let nodir := fileNameOf name
  let filename2 := if nodir = [] then name else nodir
  let filename2 := if extraFlags &&& 2 ≠ 0 then filename2.map toLower else filename2
  dir ++ [dirMarker] ++ filename2

/-- `uncompress_file_with_dir`: its status, if it returns. -/
def uncompressFileWithDir (z : Zlib) (sys : ZipSystem) (archive dir : Text) (extraFlags fuel : Nat)
    (h : ZipCDR) (s : Unzipping) : Except BufferFault (Unzipping × Option Nat) :=
  match h.filename with
  | none => pure (s, some 0)
  | some filename => do
      let path := unzipPath dir filename extraFlags
      let made ← makeDirs sys s.made path
      let s := { s with made := made }
      if !sys.opens path then pure (s, some 0)
      else
        let s := { s with opened := s.opened ++ [path] }
        match uncompressFile z sys archive h fuel with
        | none => pure (s, none)
        | some r => pure ({ s with closed := s.closed ++ [(path, r.2)] }, some r.1)

/-! ## `DecompressZip` -/

/-- The loop of `zip_file_uncompress_all`, with `zip_file_uncompress_current`; it is told
whether the loop has come to its end. -/
def uncompressRecords (z : Zlib) (sys : ZipSystem) (archive dir : Text) (extraFlags fuel : Nat) :
    List ZipCDR → Unzipping → Except BufferFault (Unzipping × Bool)
  | [], s => pure (s, true)
  | h :: records, s => do
      let r ← uncompressFileWithDir z sys archive dir extraFlags fuel h s
      match r.2 with
      | none => pure (r.1, false)
      | some status =>
        uncompressRecords z sys archive dir extraFlags fuel records
          (if status = 0 then { r.1 with errorCount := r.1.errorCount + 1 } else r.1)

/-- `zip_file_uncompress_all`: its status, if it returns. -/
def uncompressAll (z : Zlib) (sys : ZipSystem) (archive dir : Text) (records : List ZipCDR)
    (extraFlags fuel : Nat) : Except BufferFault (Unzipping × Option Int) := do
  let s : Unzipping := ⟨[], [], [], 0⟩
  if !sys.reopens then pure (s, some 0)
  else
    let r ← uncompressRecords z sys archive dir extraFlags fuel records s
    if !r.2 then pure (r.1, none)
    else if 0 < r.1.errorCount then pure (r.1, some (-(r.1.errorCount : Int)))
    else pure (r.1, some 1)

/-- `DecompressZip` of an archive that `zip_file_open` has accepted. -/
def decompressZip (z : Zlib) (sys : ZipSystem) (archive dest : Text) (records : List ZipCDR)
    (fuel : Nat) : Except BufferFault (Unzipping × Option Error) := do
  let r ← uncompressAll z sys archive dest records 3 fuel
  pure (r.1, r.2.map fun status => if status = 0 then .noDataAvail else .noErr)

end FreeAmp.Ui
