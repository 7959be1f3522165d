/-
  Io/WaveFile.lean --- RIFF/WAVE files: the `WaveWriter` of `io/wavout/src/wav.cpp` writes
  them, and `WavLMC::GetHeadInfo` of `lmc/wav/src/wavlmc.cpp` reads their header.

  The writer puts the 44 bytes of the header before the data when the file is created, and
  once more when it is closed.  A file that cannot be opened or written is left out.
-/
import FreeAmp.Base.Database
import FreeAmp.Lib.Wire

namespace FreeAmp.Io

open FreeAmp.Base FreeAmp.Lib

/-! ## The header -/

/-- `StuffFourChars`, and `MAKEFOURCC` of the reader: the first character is lowest. -/
def fourChars (s : String) : UInt32 := UInt32.ofNat (ofLittle (bytes s))

structure WaveHeader where
  mainChunkID : UInt32
  length : UInt32
  chunkTypeID : UInt32
  subChunkID : UInt32
  subChunkLength : UInt32
  format : UInt16
  modus : UInt16
  sampleFreq : UInt32
  bytesPerSec : UInt32
  bytesPerSample : UInt16
  bitsPerSample : UInt16
  dataChunkID : UInt32
  dataLength : UInt32
  deriving DecidableEq, Repr

def sizeofWaveHeader : Nat := 44

/-- The bytes of the header in memory, which has no gaps. -/
def WaveHeader.image (h : WaveHeader) : Text :=
  toLittle 4 h.mainChunkID.toNat ++ (toLittle 4 h.length.toNat ++
    (toLittle 4 h.chunkTypeID.toNat ++ (toLittle 4 h.subChunkID.toNat ++
    (toLittle 4 h.subChunkLength.toNat ++ (toLittle 2 h.format.toNat ++
    (toLittle 2 h.modus.toNat ++ (toLittle 4 h.sampleFreq.toNat ++
    (toLittle 4 h.bytesPerSec.toNat ++ (toLittle 2 h.bytesPerSample.toNat ++
    (toLittle 2 h.bitsPerSample.toNat ++ (toLittle 4 h.dataChunkID.toNat ++
    toLittle 4 h.dataLength.toNat)))))))))))

theorem length_image (h : WaveHeader) : h.image.length = sizeofWaveHeader := by
  simp [WaveHeader.image, sizeofWaveHeader]

/-- `WAVEFORMATEX`; nothing reads its `cbSize`. -/
structure WaveFormatEx where
  wFormatTag : UInt16
  nChannels : UInt16
  nSamplesPerSec : UInt32
  nAvgBytesPerSec : UInt32
  nBlockAlign : UInt16
  wBitsPerSample : UInt16
  deriving DecidableEq, Repr

def waveFormatPCM : UInt16 := 1

/-! ## The writer -/

/-- A file that is open: its bytes, and where the next ones go. -/
structure OpenFile where
  bytes : Text
  pos : Nat
  deriving DecidableEq, Repr

namespace OpenFile

def fwrite (fp : OpenFile) (data : Text) : OpenFile :=
  ⟨fp.bytes.take fp.pos ++ data ++ fp.bytes.drop (fp.pos + data.length), fp.pos + data.length⟩

theorem fwrite_end {bytes : Text} {n : Nat} (h : n = bytes.length) (data : Text) :
    fwrite ⟨bytes, n⟩ data = ⟨bytes ++ data, n + data.length⟩ := by
  subst h
  rw [fwrite, List.take_length, List.drop_eq_nil_of_le (Nat.le_add_right _ _), List.append_nil]

theorem fwrite_start {old new : Text} (h : new.length = old.length) (rest : Text) :
    (fwrite ⟨old ++ rest, 0⟩ new).bytes = new ++ rest := by
  rw [fwrite, List.take_zero, List.nil_append, Nat.zero_add, h, List.drop_left]

/-- `fseek(fp, 0, SEEK_SET)` -/
def rewind (fp : OpenFile) : OpenFile := { fp with pos := 0 }

end OpenFile

structure WaveWriter where
  fp : Option OpenFile
  wh : WaveHeader
  deriving DecidableEq, Repr

namespace WaveWriter

def create (waveformat : WaveFormatEx) : WaveWriter :=
  let wh : WaveHeader :=
    { mainChunkID := fourChars "RIFF", length := 0, chunkTypeID := fourChars "WAVE",
      subChunkID := fourChars "fmt ", subChunkLength := 16, format := waveformat.wFormatTag,
      modus := waveformat.nChannels, sampleFreq := waveformat.nSamplesPerSec,
      bytesPerSec := waveformat.nAvgBytesPerSec, bytesPerSample := waveformat.nBlockAlign,
      bitsPerSample := waveformat.wBitsPerSample, dataChunkID := fourChars "data",
      dataLength := 0 }
  ⟨some (OpenFile.fwrite ⟨[], 0⟩ wh.image), wh⟩

/-- `Close`: the writer behind it, and the file that was closed. -/
def close (w : WaveWriter) : WaveWriter × Option Text :=
  match w.fp with
  | none => (w, none)
  | some fp =>
    let wh := { w.wh with length := w.wh.dataLength + UInt32.ofNat sizeofWaveHeader - 4 }
    (⟨none, wh⟩, some (fp.rewind.fwrite wh.image).bytes)

/-- `Write`: what it returns, and nothing where it writes through a null pointer. -/
def write (w : WaveWriter) (data : Text) : Option (WaveWriter × Nat) :=
  match w.fp with
  | none => none
  | some fp =>
    some (⟨some (fp.fwrite data),
      { w.wh with dataLength := w.wh.dataLength + UInt32.ofNat data.length }⟩,
      -- one element, or none when its size is 0
      if data.length = 0 then 0 else 1)

end WaveWriter

/-! ## The reader -/

structure WaveFormat where
  wFormatTag : UInt16
  nChannels : UInt16
  nSamplesPerSec : UInt32
  nAvgBytesPerSec : UInt32
  nBlockAlign : UInt16
  deriving DecidableEq, Repr

/-- `sizeof(WAVEFORMAT)`: two bytes at its end belong to no field. -/
def sizeofWaveFormat : UInt32 := 16

/-- What `GetHeadInfo` finds. -/
structure HeadInfo where
  waveFormat : WaveFormat
  waveSize : UInt32
  waveHeaderSize : UInt32
  /-- of a hundredth of a second -/
  frameBytes : UInt32
  deriving DecidableEq, Repr

inductive HeadError where
  | endOfStream
  | inputUnsuccessful
  | decodeFailed
  deriving DecidableEq, Repr

def beginRead (file : Text) (pos n : Nat) : Except HeadError Text :=
  if pos + n ≤ file.length then .ok ((file.drop pos).take n) else .error .endOfStream

/-- The four bytes at an offset. -/
def dwordAt (buffer : Text) (offset : Nat) : UInt32 :=
  UInt32.ofNat (ofLittle ((buffer.drop offset).take 4))

/-- The two bytes at an offset. -/
def wordAt (buffer : Text) (offset : Nat) : UInt16 :=
  UInt16.ofNat (ofLittle ((buffer.drop offset).take 2))

/-- `memcpy(&m_WaveFormat, pBuffer, sizeof(WAVEFORMAT))` -/
def waveFormatOf (buffer : Text) : WaveFormat :=
  ⟨wordAt buffer 0, wordAt buffer 2, dwordAt buffer 4, dwordAt buffer 8, wordAt buffer 12⟩

/-- `while (ulCount < ulLimit)`, of so many rounds: every round reads eight bytes or more. -/
def walkChunks (file : Text) (ulLimit : UInt32) :
    Nat → Nat → UInt32 → Option WaveFormat → Except HeadError HeadInfo
  | 0, _, _, _ => .error .endOfStream
  | rounds + 1, pos, ulCount, format =>
    if ulCount < ulLimit then do
      let buffer ← beginRead file pos 8
      let ulCount := ulCount + 8
      let ulLength := dwordAt buffer 4
      if dwordAt buffer 0 = fourChars "fmt " then
        if ulLength < sizeofWaveFormat then .error .inputUnsuccessful
        else do
          let buffer ← beginRead file (pos + 8) ulLength.toNat
          walkChunks file ulLimit rounds (pos + 8 + ulLength.toNat) (ulCount + ulLength)
            (some (waveFormatOf buffer))
      else if dwordAt buffer 0 = fourChars "data" then
        match format with
        | some format =>
          if format.wFormatTag = waveFormatPCM then
            .ok ⟨format, ulLength, ulCount + 12, format.nAvgBytesPerSec / 100⟩
          else .error .inputUnsuccessful
        | none => walkChunks file ulLimit rounds (pos + 8) ulCount none
      else do
        let _ ← beginRead file (pos + 8) ulLength.toNat
        walkChunks file ulLimit rounds (pos + 8 + ulLength.toNat) (ulCount + ulLength) format
    else .error .decodeFailed

/-- `GetHeadInfo` of a `WavLMC` that has not read a header before -/
def getHeadInfo (file : Text) : Except HeadError HeadInfo := do
  let buffer ← beginRead file 0 12
  if dwordAt buffer 0 ≠ fourChars "RIFF" ∨ dwordAt buffer 8 ≠ fourChars "WAVE" then
    .error .inputUnsuccessful
  else walkChunks file (dwordAt buffer 4 - 4) (file.length + 1) 12 0 none

/-! ## Reading what was written -/

theorem ofNat_toLittle_four (x : UInt32) : UInt32.ofNat (ofLittle (toLittle 4 x.toNat)) = x := by
  rw [ofLittle_toLittle x.toNat_lt, UInt32.ofNat_toNat]

theorem ofNat_toLittle_two (x : UInt16) : UInt16.ofNat (ofLittle (toLittle 2 x.toNat)) = x := by
  rw [ofLittle_toLittle x.toNat_lt, UInt16.ofNat_toNat]

section Image

variable (h : WaveHeader) (data : Text)

theorem image_length_field : dwordAt (h.image ++ data) 4 = h.length :=
  ofNat_toLittle_four h.length

theorem image_blockSize_field : wordAt (h.image ++ data) 32 = h.bytesPerSample :=
  ofNat_toLittle_two h.bytesPerSample

theorem image_dataLength_field : dwordAt (h.image ++ data) 40 = h.dataLength :=
  ofNat_toLittle_four h.dataLength

variable {h}

theorem dwordAt_zero (x : UInt32) (rest : Text) : dwordAt (toLittle 4 x.toNat ++ rest) 0 = x :=
  ofNat_toLittle_four x

theorem dwordAt_four (w : Nat) (x : UInt32) (rest : Text) :
    dwordAt (toLittle 4 w ++ (toLittle 4 x.toNat ++ rest)) 4 = x :=
  ofNat_toLittle_four x

theorem dwordAt_eight (w v : Nat) (x : UInt32) :
    dwordAt (toLittle 4 w ++ (toLittle 4 v ++ toLittle 4 x.toNat)) 8 = x :=
  ofNat_toLittle_four x

theorem dwordAt_last (w : Nat) (x : UInt32) :
    dwordAt (toLittle 4 w ++ toLittle 4 x.toNat) 4 = x :=
  ofNat_toLittle_four x

/-- The reader's format is read from the fields of the header between the two lengths. -/
theorem waveFormatOf_image (rest : Text) :
    waveFormatOf (toLittle 2 h.format.toNat ++ (toLittle 2 h.modus.toNat ++
      (toLittle 4 h.sampleFreq.toNat ++ (toLittle 4 h.bytesPerSec.toNat ++
      (toLittle 2 h.bytesPerSample.toNat ++ rest))))) =
        ⟨h.format, h.modus, h.sampleFreq, h.bytesPerSec, h.bytesPerSample⟩ :=
  congr (congr (congr (congr (congrArg WaveFormat.mk (ofNat_toLittle_two h.format))
    (ofNat_toLittle_two h.modus)) (ofNat_toLittle_four h.sampleFreq))
    (ofNat_toLittle_four h.bytesPerSec)) (ofNat_toLittle_two h.bytesPerSample)

/-- The reader finds the format and the data behind a header that the writer puts there. -/
theorem getHeadInfo_image (hriff : h.mainChunkID = fourChars "RIFF")
    (hwave : h.chunkTypeID = fourChars "WAVE") (hfmt : h.subChunkID = fourChars "fmt ")
    (hsize : h.subChunkLength = 16) (hdata : h.dataChunkID = fourChars "data")
    (hpcm : h.format = waveFormatPCM) (hlimit : 24 < h.length - 4) :
    getHeadInfo (h.image ++ data) =
      .ok ⟨⟨h.format, h.modus, h.sampleFreq, h.bytesPerSec, h.bytesPerSample⟩, h.dataLength,
        44, h.bytesPerSec / 100⟩ := by
  have hlen : (h.image ++ data).length = 44 + data.length := by
    rw [List.length_append, length_image, sizeofWaveHeader]
  have hfirst : beginRead (h.image ++ data) 0 12 = .ok (toLittle 4 h.mainChunkID.toNat ++
      (toLittle 4 h.length.toNat ++ toLittle 4 h.chunkTypeID.toNat)) := by
    rw [beginRead, if_pos (by omega)]
    rfl
  have hsecond : beginRead (h.image ++ data) 12 8 = .ok (toLittle 4 h.subChunkID.toNat ++
      toLittle 4 h.subChunkLength.toNat) := by
    rw [beginRead, if_pos (by omega)]
    rfl
  have hthird : beginRead (h.image ++ data) 20 16 = .ok (toLittle 2 h.format.toNat ++
      (toLittle 2 h.modus.toNat ++ (toLittle 4 h.sampleFreq.toNat ++
      (toLittle 4 h.bytesPerSec.toNat ++ (toLittle 2 h.bytesPerSample.toNat ++
      toLittle 2 h.bitsPerSample.toNat))))) := by
    rw [beginRead, if_pos (by omega)]
    rfl
  have hfourth : beginRead (h.image ++ data) 36 8 = .ok (toLittle 4 h.dataChunkID.toNat ++
      toLittle 4 h.dataLength.toNat) := by
    rw [beginRead, if_pos (by omega)]
    rfl
  have hsixteen : (16 : UInt32).toNat = 16 := rfl
  obtain ⟨rounds, hrounds⟩ : ∃ rounds, (h.image ++ data).length + 1 = rounds + 2 :=
    ⟨43 + data.length, by omega⟩
  have hne : fourChars "data" ≠ fourChars "fmt " := by decide
  have hzero : (0 : UInt32) < h.length - 4 := UInt32.lt_trans (by decide) hlimit
  have hfits : ¬ (16 : UInt32) < sizeofWaveFormat := by decide
  simp only [getHeadInfo, hfirst, ok_bind, dwordAt_zero, dwordAt_four, dwordAt_eight]
  rw [if_neg (by simp [hriff, hwave]), hrounds, walkChunks, if_pos hzero]
  -- the format, and the data in the next round
  simp only [hsecond, ok_bind, dwordAt_zero, dwordAt_last]
  simp only [hfmt, hsize, if_true, hsixteen, hfits, if_false, Nat.reduceAdd, hthird, ok_bind,
    waveFormatOf_image]
  rw [walkChunks, if_pos (by simpa using hlimit)]
  simp only [hfourth, ok_bind, dwordAt_zero, dwordAt_last]
  simp only [hdata, hne, if_false, if_true, hpcm]
  rfl

end Image

end FreeAmp.Io
