/-
  Io/Id3v2.lean --- skipping an ID3v2 tag, from `io/local/localfileinput.cpp` and
  `lmc/xingmp3/src/xinglmc.cpp`.

      skipID3v2Tag_pos        where the position is left
      skipID3v2Tag_right_iff  when both copies leave it at the end of the tag, or at the start

  What is done with the extended header takes its length for one of fourteen bytes and its
  padding for something behind the tag.
-/
import FreeAmp.Base.Database
import FreeAmp.Lib.SeekFile

namespace FreeAmp.Io

open FreeAmp.Base FreeAmp.Lib

/-! ## The header -/

/-- `sizeof(ID3Header)` -/
def headerSize : Nat := 10

/-- `sHead.tag` -/
def isID3 (head : Text) : Bool := head.take 3 == bytes "ID3"

def versionMajor (head : Text) : UInt8 := head.getD 3 0

/-- `sHead.flags & (1 << 6)` -/
def hasExtendedHeader (head : Text) : Bool := (head.getD 5 0).toNat / 64 % 2 == 1

/-- `sHead.size`, of seven bits each. -/
def synchsafeSize (head : Text) : Nat :=
  (head.getD 9 0).toNat % 128 + (head.getD 8 0).toNat % 128 * 128 +
    (head.getD 7 0).toNat % 128 * 16384 + (head.getD 6 0).toNat % 128 * 2097152

/-- `ntohl(lNet)`, as an `int`. -/
def networkInt (b : Text) : Int :=
  Int.bmod ((b.getD 0 0).toNat * 16777216 + (b.getD 1 0).toNat * 65536 + (b.getD 2 0).toNat * 256 +
    (b.getD 3 0).toNat) 4294967296

/-! ## The two copies -/

/-- The position behind the size of the extended header and behind its flags; the padding, if
it can be read. -/
def readPadding (fpFile : SeekFile UInt8) : Option Int × SeekFile UInt8 :=
  let (extHeaderSize, fpFile) := fpFile.read 4
  if extHeaderSize.length ≠ 4 then (none, fpFile)
  else
    let fpFile := fpFile.seekCur (4 + 2)
    let (lNet, fpFile) := fpFile.read 4
    if lNet.length ≠ 4 then (none, fpFile) else (some (networkInt lNet), fpFile)

/-- What is common to both. -/
def skipTag (supportedVersion : UInt8) (fpFile : SeekFile UInt8) : SeekFile UInt8 :=
  let (sHead, fpFile) := fpFile.read headerSize
  if sHead.length ≠ headerSize then fpFile
  else if !isID3 sHead then fpFile.seekSet 0
  else if versionMajor sHead ≠ supportedVersion then fpFile
  else if hasExtendedHeader sHead then
    match readPadding fpFile with
    | (none, fpFile) => fpFile
    -- the sum is an `int`
    | (some padding, fpFile) => fpFile.seekCur (Int.bmod (padding + synchsafeSize sHead) 4294967296)
  else fpFile.seekCur (synchsafeSize sHead)

def LocalFileInput.skipID3v2Tag (m_fpFile : SeekFile UInt8) : SeekFile UInt8 := skipTag 3 m_fpFile

/-- `SkipID3v2Tag` of the decoder. -/
def XingLMC.skipID3v2Tag (fpFile : SeekFile UInt8) : SeekFile UInt8 := skipTag 3 fpFile

/-! ## Where it is to be -/

/-- A file that begins with a complete header. -/
def BeginsWithTag (file : Text) : Prop := headerSize ≤ file.length ∧ isID3 file = true

instance (file : Text) : Decidable (BeginsWithTag file) := inferInstanceAs (Decidable (_ ∧ _))

/-- The end of the tag, or the start of the file. -/
def audioStart (file : Text) : Nat :=
  if BeginsWithTag file then headerSize + synchsafeSize file else 0

/-! ## Where it is -/

/-- The padding, where the extended header has it. -/
def paddingOf (file : Text) : Int := networkInt ((file.drop 20).take 4)

/-- The position comes out right in spite of what is done with the extended header: the file
ends in it just there, or the padding makes up for the fourteen bytes. -/
def ExtendedRight (file : Text) : Prop :=
  if file.length < 14 then file.length = headerSize + synchsafeSize file
  else if file.length < 24 then max 20 file.length = headerSize + synchsafeSize file
  else if 24 + Int.bmod (paddingOf file + synchsafeSize file) 4294967296 < 0 then
    synchsafeSize file = 14
  else Int.bmod (paddingOf file + synchsafeSize file) 4294967296 = (synchsafeSize file : Int) - 14

/-- What a file has to be like. -/
def SkipsRight (file : Text) : Prop :=
  if file.length < headerSize then file = []
  else if !isID3 file then True
  else if versionMajor file ≠ 3 then synchsafeSize file = 0
  else if hasExtendedHeader file then ExtendedRight file
  else True

section Position

variable {file : Text}

theorem getD_take_of_lt {n m : Nat} (h : m < n) : (file.take n).getD m 0 = file.getD m 0 := by
  rw [List.getD_eq_getElem?_getD, List.getD_eq_getElem?_getD, List.getElem?_take_of_lt h]

theorem head_fields (file : Text) :
    isID3 (file.take headerSize) = isID3 file ∧
      versionMajor (file.take headerSize) = versionMajor file ∧
      hasExtendedHeader (file.take headerSize) = hasExtendedHeader file ∧
      synchsafeSize (file.take headerSize) = synchsafeSize file := by
  unfold isID3 versionMajor hasExtendedHeader synchsafeSize headerSize
  refine ⟨by rw [List.take_take]; rfl, ?_, ?_, ?_⟩
  · rw [getD_take_of_lt (by decide)]
  · rw [getD_take_of_lt (by decide)]
  · rw [getD_take_of_lt (by decide), getD_take_of_lt (by decide), getD_take_of_lt (by decide),
      getD_take_of_lt (by decide)]

theorem skipTag_short (version : UInt8) (h : file.length < headerSize) :
    (skipTag version (.opened file)).pos = file.length := by
  have hlength : ((SeekFile.opened file).ahead headerSize).length = file.length := by
    rw [SeekFile.length_ahead]
    show min headerSize (file.length - 0) = file.length
    omega
  unfold skipTag SeekFile.read
  simp only [hlength, if_pos (Nat.ne_of_lt h)]
  exact Nat.zero_add _

def behindHeader (file : Text) : SeekFile UInt8 := ⟨file, headerSize⟩

theorem skipTag_long (version : UInt8) (h : headerSize ≤ file.length) :
    skipTag version (.opened file) =
      if !isID3 file then .opened file
      else if versionMajor file ≠ version then behindHeader file
      else if hasExtendedHeader file then
        match readPadding (behindHeader file) with
        | (none, fpFile) => fpFile
        | (some padding, fpFile) =>
          fpFile.seekCur (Int.bmod (padding + synchsafeSize file) 4294967296)
      else (behindHeader file).seekCur (synchsafeSize file) := by
  have hlength : ((SeekFile.opened file).ahead headerSize).length = headerSize :=
    SeekFile.length_ahead_eq (by show 0 + headerSize ≤ file.length; omega)
  have hhead : (SeekFile.opened file).ahead headerSize = file.take headerSize := rfl
  obtain ⟨htag, hversion, hflags, hsize⟩ := head_fields file
  unfold skipTag SeekFile.read
  simp only [hlength, ne_eq, not_true_eq_false, if_false]
  rw [hhead, htag, hversion, hflags, hsize]
  rfl

theorem readPadding_eq (file : Text) :
    readPadding (behindHeader file) =
      if file.length < 14 then (none, ⟨file, max headerSize file.length⟩)
      else if file.length < 24 then (none, ⟨file, max 20 file.length⟩)
      else (some (paddingOf file), ⟨file, 24⟩) := by
  have hfirst : ((behindHeader file).ahead 4).length = min 4 (file.length - 10) :=
    SeekFile.length_ahead _ _
  have hsecond : ((⟨file, 20⟩ : SeekFile UInt8).ahead 4).length = min 4 (file.length - 20) :=
    SeekFile.length_ahead _ _
  have hpos : (behindHeader file).pos = 10 := rfl
  have hfile : (behindHeader file).bytes = file := rfl
  unfold readPadding SeekFile.read
  simp only [hfirst, hpos, hfile]
  by_cases hshort : file.length < 14
  · rw [if_pos (by omega), if_pos hshort]
    congr 2
    show 10 + _ = max 10 _
    omega
  · have hseek : (⟨file, 10 + min 4 (file.length - 10)⟩ : SeekFile UInt8).seekCur (4 + 2) =
        ⟨file, 20⟩ := by
      have hfour : min 4 (file.length - 10) = 4 := by omega
      rw [hfour]
      rfl
    rw [if_neg (by omega), if_neg hshort]
    simp only [hseek, hsecond]
    by_cases hcut : file.length < 24
    · rw [if_pos (by omega), if_pos hcut]
      congr 2
      omega
    · rw [if_neg (by omega), if_neg hcut]
      congr 2
      omega

theorem skipTag_right_iff : (skipTag 3 (.opened file)).pos = audioStart file ↔ SkipsRight file := by
  unfold SkipsRight audioStart
  by_cases hshort : file.length < headerSize
  · have hnone : ¬ BeginsWithTag file := fun h => absurd h.1 (Nat.not_le.mpr hshort)
    rw [skipTag_short 3 hshort, if_neg hnone, if_pos hshort]
    exact List.length_eq_zero_iff
  have hlong : headerSize ≤ file.length := Nat.not_lt.mp hshort
  rw [skipTag_long 3 hlong, if_neg hshort]
  cases htag : isID3 file with
  | false =>
    have hnone : ¬ BeginsWithTag file := fun h => absurd (htag.symm.trans h.2) nofun
    rw [if_neg hnone]
    exact iff_of_true rfl trivial
  | true =>
    have hbegins : BeginsWithTag file := ⟨hlong, htag⟩
    rw [if_pos hbegins]
    simp only [Bool.not_true, Bool.false_eq_true, if_false]
    by_cases hversion : versionMajor file ≠ 3
    · rw [if_pos hversion, if_pos hversion]
      show headerSize = _ ↔ _
      omega
    · rw [if_neg hversion, if_neg hversion]
      cases hflag : hasExtendedHeader file with
      | false =>
        refine iff_of_true ?_ trivial
        have hpos : ((behindHeader file).seekCur (synchsafeSize file)).pos =
            ((behindHeader file).pos : Int) + synchsafeSize file :=
          SeekFile.seekCur_pos _ (by omega)
        have hstart : (behindHeader file).pos = headerSize := rfl
        rw [hstart] at hpos
        simp only [Bool.false_eq_true, if_false]
        omega
      | true =>
        rw [if_pos rfl, if_pos rfl, readPadding_eq]
        unfold ExtendedRight
        by_cases hcut : file.length < 14
        · rw [if_pos hcut, if_pos hcut]
          show max headerSize file.length = _ ↔ _
          rw [Nat.max_eq_right hlong]
        rw [if_neg hcut, if_neg hcut]
        by_cases hcut' : file.length < 24
        · rw [if_pos hcut', if_pos hcut']
        rw [if_neg hcut', if_neg hcut']
        show ((⟨file, 24⟩ : SeekFile UInt8).seekCur _).pos = _ ↔ _
        generalize Int.bmod (paddingOf file + synchsafeSize file) 4294967296 = offset
        by_cases hbefore : 24 + offset < 0
        · rw [if_pos hbefore, SeekFile.seekCur_fails (by exact hbefore)]
          show 24 = 10 + _ ↔ _
          omega
        · rw [if_neg hbefore]
          have hpos := SeekFile.seekCur_pos offset
            (show 0 ≤ ((⟨file, 24⟩ : SeekFile UInt8).pos : Int) + offset from
              Int.not_lt.mp hbefore)
          have hten : headerSize = 10 := rfl
          have hplace : ((⟨file, 24⟩ : SeekFile UInt8).pos : Int) = 24 := rfl
          rw [hplace] at hpos
          omega

end Position

/-- Both copies leave a file at the end of its tag, or at its start where it has none, just when
it is like this. -/
theorem skipID3v2Tag_right_iff (file : Text) :
    ((LocalFileInput.skipID3v2Tag (.opened file)).pos = audioStart file ∧
      (XingLMC.skipID3v2Tag (.opened file)).pos = audioStart file) ↔ SkipsRight file :=
  (and_self_iff).trans skipTag_right_iff

/-- A tag of version 2.4 with something in it. -/
theorem skipID3v2Tag_right_fails : ¬ ∀ file : Text,
    (LocalFileInput.skipID3v2Tag (.opened file)).pos = audioStart file ∧
      (XingLMC.skipID3v2Tag (.opened file)).pos = audioStart file := by
  intro hall
  have hpos := (hall (bytes "ID3" ++ [4, 0, 0, 0, 0, 0, 1, 0])).1
  exact absurd hpos (by decide)

end FreeAmp.Io
