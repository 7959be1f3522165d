/-
  Lmc/WavNumbers.lean --- what the decoder of `lmc/wav/src/wavlmc.cpp` computes from the
  header of a WAV file.

      every_position_iff   positions up to a number, by the last of them
      numbers_right_iff    when it divides by nothing that is zero, and seeks to whole blocks

  A header is what `GetHeadInfo` accepts: nothing in it is checked but the format.
-/
import FreeAmp.Io.WaveFile

namespace FreeAmp.Lmc.Wav

open FreeAmp.Base FreeAmp.Lib FreeAmp.Io

/-! ## What is computed -/

/-- A quotient of `unsigned long`s; none by zero. -/
def quotient (a b : UInt32) : Option UInt32 := if b = 0 then none else some (a / b)

/-- `GetStats`, behind `GetHeadInfo`: `iTotalFrames`, and the seconds before they become a
`float`. -/
def getStats (m : HeadInfo) : Option (Int × UInt32) := do
  let iTotalFrames ← quotient (m.waveSize + m.frameBytes - 1) m.frameBytes
  let seconds ← quotient m.waveSize m.waveFormat.nAvgBytesPerSec
  pure (toLong iTotalFrames, seconds)

def iMinimumOutputBufferSize : Int := 64

structure OutputInfo where
  bitsPerSample : Nat
  numberOfChannels : UInt16
  samplesPerSecond : UInt32
  samplesPerFrame : Int
  maxBufferSize : Int
  deriving DecidableEq, Repr

/-- `InitDecoder`: what it says to the output, and the size of the output buffer; `iNewSize`:
`kOutputBufferSizePref`.  None when something is divided by zero. -/
def initDecoder (m : HeadInfo) (iNewSize : Int) : Option (OutputInfo × Int) := do
  let bitsPerSample ← if m.waveFormat.nChannels = 0 then none
    else some (m.waveFormat.nBlockAlign.toNat * 8 / m.waveFormat.nChannels.toNat)
  let iMaxWriteSize := toLong m.frameBytes
  let iNewSize := Int.bmod (max iNewSize iMinimumOutputBufferSize * 1024) 4294967296
  let odd ← if iMaxWriteSize = 0 then none else some (Int.tmod iNewSize iMaxWriteSize)
  pure (⟨bitsPerSample, m.waveFormat.nChannels, m.waveFormat.nSamplesPerSec, iMaxWriteSize,
    iMaxWriteSize⟩, iNewSize - odd)

/-- `lSeekTo` of `ChangePosition`; none when the product is no `int32`. -/
def changePosition (m : HeadInfo) (position : Int) : Option UInt32 :=
  let product := position * toLong m.frameBytes
  if -2147483648 ≤ product ∧ product < 2147483648 then
    some (m.waveHeaderSize + UInt32.ofInt product)
  else none

/-! ## What is asked of it -/

/-- Nothing is divided by zero, frames have a size, and for every position in range the place
that is sought is the header's size and a whole number of blocks. -/
structure NumbersRight (m : HeadInfo) : Prop where
  decoder : ∀ iNewSize, ∃ r, initDecoder m iNewSize = some r
  frame : 0 < toLong m.frameBytes
  seeks : ∃ stats, getStats m = some stats ∧ ∀ position, 0 ≤ position → position < stats.1 →
    ∃ lSeekTo, changePosition m position = some lSeekTo ∧
      (lSeekTo.toNat : Int) = m.waveHeaderSize.toNat + position * toLong m.frameBytes ∧
      (m.waveFormat.nBlockAlign.toNat : Int) ∣ position * toLong m.frameBytes

/-- The bytes of a hundredth of a second. -/
def frameOf (m : HeadInfo) : Nat := m.waveFormat.nAvgBytesPerSec.toNat / 100

/-- What lies in front of the last frame. -/
def lastFrame (m : HeadInfo) : Nat := (m.waveSize.toNat - 1) / frameOf m * frameOf m

/-- The condition on the numbers of a header: there is a byte rate and a channel, and where
there is a position besides the first one, a frame is a whole number of blocks, and the last
one can be reached. -/
structure Sound (m : HeadInfo) : Prop where
  rate : 100 ≤ m.waveFormat.nAvgBytesPerSec.toNat
  channels : m.waveFormat.nChannels ≠ 0
  -- one frame; a count of frames that is zero or negative; many frames
  frames : m.waveSize.toNat ≤ frameOf m ∨ 4294967296 < m.waveSize.toNat + frameOf m ∨
    frameOf m = 1 ∧ 2147483648 ≤ m.waveSize.toNat ∨
    m.waveFormat.nBlockAlign.toNat ∣ frameOf m ∧ lastFrame m < 2147483648 ∧
      m.waveHeaderSize.toNat + lastFrame m < 4294967296

/-! ## Arithmetic -/

/-- What holds of every place up to a number of them holds when it does of the second and of the
last one. -/
theorem every_position_iff {frames frame header align : Nat} (hheader : header < 4294967296) :
    (∀ p < frames, p * frame < 2147483648 ∧ header + p * frame < 4294967296 ∧ align ∣ p * frame) ↔
      frames ≤ 1 ∨ align ∣ frame ∧ (frames - 1) * frame < 2147483648 ∧
        header + (frames - 1) * frame < 4294967296 := by
  constructor
  · intro hall
    rcases Nat.lt_or_ge 1 frames with hmany | hone
    · have hsecond := (hall 1 hmany).2.2
      rw [Nat.one_mul] at hsecond
      obtain ⟨hproduct, hsum, -⟩ := hall (frames - 1) (by omega)
      exact .inr ⟨hsecond, hproduct, hsum⟩
    · exact .inl hone
  · rintro (hone | ⟨halign, hproduct, hsum⟩) p hp
    · obtain rfl : p = 0 := by omega
      rw [Nat.zero_mul]
      exact ⟨by omega, by omega, Nat.dvd_zero align⟩
    · have hle : p * frame ≤ (frames - 1) * frame := Nat.mul_le_mul_right frame (by omega)
      exact ⟨by omega, by omega, Nat.dvd_mul_left_of_dvd halign p⟩

theorem roundUp_pos {size frame : Nat} (hsize : 0 < size) (hframe : 0 < frame) :
    (size + frame - 1) / frame = (size - 1) / frame + 1 := by
  have hsum : size + frame - 1 = size - 1 + frame := by omega
  rw [hsum, Nat.add_div_right _ hframe]

theorem roundUp_le_one_iff {size frame : Nat} (hframe : 0 < frame) :
    (size + frame - 1) / frame ≤ 1 ↔ size ≤ frame := by
  rw [← Nat.lt_succ_iff, Nat.div_lt_iff_lt_mul hframe]
  omega

/-! ## One header -/

section Header

variable {m : HeadInfo}

theorem initDecoder_iff (iNewSize : Int) : (∃ r, initDecoder m iNewSize = some r) ↔
    m.waveFormat.nChannels ≠ 0 ∧ toLong m.frameBytes ≠ 0 := by
  unfold initDecoder
  by_cases hchannels : m.waveFormat.nChannels = 0
  · rw [if_pos hchannels]
    exact iff_of_false nofun fun h => h.1 hchannels
  · rw [if_neg hchannels]
    by_cases hframe : toLong m.frameBytes = 0
    · simp [hframe]
    · simp [hframe, hchannels]

variable (hframe : m.frameBytes = m.waveFormat.nAvgBytesPerSec / 100)
include hframe

theorem toNat_frameBytes : m.frameBytes.toNat = frameOf m := by
  rw [hframe, UInt32.toNat_div]
  rfl

theorem toLong_frameBytes : toLong m.frameBytes = frameOf m := by
  have hlt := m.waveFormat.nAvgBytesPerSec.toNat_lt
  have hnat := toNat_frameBytes hframe
  unfold toLong
  rw [hnat, if_pos]
  unfold frameOf
  omega

theorem changePosition_iff {position : Int} (hposition : 0 ≤ position) :
    (∃ lSeekTo, changePosition m position = some lSeekTo ∧
      (lSeekTo.toNat : Int) = m.waveHeaderSize.toNat + position * toLong m.frameBytes ∧
      (m.waveFormat.nBlockAlign.toNat : Int) ∣ position * toLong m.frameBytes) ↔
    position.toNat * frameOf m < 2147483648 ∧
      m.waveHeaderSize.toNat + position.toNat * frameOf m < 4294967296 ∧
      m.waveFormat.nBlockAlign.toNat ∣ position.toNat * frameOf m := by
  obtain ⟨p, rfl⟩ := Int.eq_ofNat_of_zero_le hposition
  have hheader := m.waveHeaderSize.toNat_lt
  have hproduct : (p : Int) * toLong m.frameBytes = ((p * frameOf m : Nat) : Int) := by
    rw [toLong_frameBytes hframe]
    push_cast
    rfl
  unfold changePosition
  rw [hproduct, Int.toNat_natCast]
  dsimp only
  by_cases hsmall : p * frameOf m < 2147483648
  · rw [if_pos ⟨by omega, by omega⟩, Int.natCast_dvd_natCast]
    have hsum : (m.waveHeaderSize + UInt32.ofInt ((p * frameOf m : Nat) : Int)).toNat =
        (m.waveHeaderSize.toNat + p * frameOf m) % 4294967296 := by
      rw [UInt32.toNat_add, toNat_ofInt]
      omega
    constructor
    · rintro ⟨lSeekTo, hseek, heq, halign⟩
      rw [← Option.some.inj hseek, hsum] at heq
      exact ⟨hsmall, by omega, halign⟩
    · rintro ⟨-, hfits, halign⟩
      exact ⟨_, rfl, by rw [hsum]; omega, halign⟩
  · rw [if_neg fun h => hsmall (by omega)]
    exact iff_of_false nofun fun h => hsmall h.1

theorem getStats_eq (hrate : 100 ≤ m.waveFormat.nAvgBytesPerSec.toNat) :
    ∃ seconds, getStats m =
      some (toLong ((m.waveSize + m.frameBytes - 1) / m.frameBytes), seconds) := by
  have hzero : m.frameBytes ≠ 0 := by
    intro h
    have hnat := toNat_frameBytes hframe
    rw [h] at hnat
    unfold frameOf at hnat
    have : (0 : UInt32).toNat = 0 := rfl
    omega
  have hrate' : m.waveFormat.nAvgBytesPerSec ≠ 0 := by
    intro h
    rw [h] at hrate
    exact absurd hrate (by decide)
  unfold getStats quotient
  rw [if_neg hzero, if_neg hrate']
  exact ⟨_, rfl⟩

theorem totalFrames_eq (hrate : 100 ≤ m.waveFormat.nAvgBytesPerSec.toNat) :
    ((m.waveSize + m.frameBytes - 1) / m.frameBytes).toNat =
      if 4294967296 < m.waveSize.toNat + frameOf m then 0
      else (m.waveSize.toNat + frameOf m - 1) / frameOf m := by
  have hsize := m.waveSize.toNat_lt
  have hpos : 1 ≤ frameOf m := by
    unfold frameOf
    omega
  have hlarge : frameOf m < 4294967296 := by
    rw [← toNat_frameBytes hframe]
    exact m.frameBytes.toNat_lt
  have hone : (1 : UInt32).toNat = 1 := rfl
  rw [UInt32.toNat_div, UInt32.toNat_sub, UInt32.toNat_add, toNat_frameBytes hframe, hone]
  split
  · rename_i hwraps
    refine Nat.div_eq_of_lt ?_
    omega
  · rename_i hfits
    congr 1
    omega

theorem positions_eq (hrate : 100 ≤ m.waveFormat.nAvgBytesPerSec.toNat) :
    (toLong ((m.waveSize + m.frameBytes - 1) / m.frameBytes)).toNat =
      if 4294967296 < m.waveSize.toNat + frameOf m ∨
        2147483648 ≤ (m.waveSize.toNat + frameOf m - 1) / frameOf m then 0
      else (m.waveSize.toNat + frameOf m - 1) / frameOf m := by
  have htotal := totalFrames_eq hframe hrate
  have hlt := ((m.waveSize + m.frameBytes - 1) / m.frameBytes).toNat_lt
  unfold toLong
  rw [htotal] at hlt ⊢
  by_cases hwraps : 4294967296 < m.waveSize.toNat + frameOf m
  · rw [if_pos hwraps, if_pos (by decide), if_pos (.inl hwraps)]
    rfl
  rw [if_neg hwraps] at hlt ⊢
  by_cases hlarge : 2147483648 ≤ (m.waveSize.toNat + frameOf m - 1) / frameOf m
  · rw [if_neg (by omega), if_pos (.inr hlarge)]
    omega
  · rw [if_pos (by omega), if_neg (by omega), Int.toNat_natCast]

theorem seeks_iff (hrate : 100 ≤ m.waveFormat.nAvgBytesPerSec.toNat) :
    (∃ stats, getStats m = some stats ∧ ∀ position, 0 ≤ position → position < stats.1 →
      ∃ lSeekTo, changePosition m position = some lSeekTo ∧
        (lSeekTo.toNat : Int) = m.waveHeaderSize.toNat + position * toLong m.frameBytes ∧
        (m.waveFormat.nBlockAlign.toNat : Int) ∣ position * toLong m.frameBytes) ↔
    ∀ p < (toLong ((m.waveSize + m.frameBytes - 1) / m.frameBytes)).toNat,
      p * frameOf m < 2147483648 ∧ m.waveHeaderSize.toNat + p * frameOf m < 4294967296 ∧
        m.waveFormat.nBlockAlign.toNat ∣ p * frameOf m := by
  obtain ⟨seconds, hstats⟩ := getStats_eq hframe hrate
  rw [hstats]
  constructor
  · rintro ⟨stats, hsome, hall⟩ p hp
    rw [← Option.some.inj hsome] at hall
    exact (changePosition_iff hframe (Int.natCast_nonneg p)).mp
      (hall p (Int.natCast_nonneg p) (Int.lt_toNat.mp hp))
  · intro hall
    refine ⟨_, rfl, fun position hposition hlt => ?_⟩
    exact (changePosition_iff hframe hposition).mpr (hall position.toNat (by omega))

theorem numbersRight_iff : NumbersRight m ↔ Sound m := by
  have hframes : toLong m.frameBytes = frameOf m := toLong_frameBytes hframe
  by_cases hrate : 100 ≤ m.waveFormat.nAvgBytesPerSec.toNat
  swap
  · refine iff_of_false (fun h => ?_) fun h => hrate h.rate
    have hpos := h.frame
    rw [hframes] at hpos
    unfold frameOf at hpos
    omega
  by_cases hchannels : m.waveFormat.nChannels = 0
  · exact iff_of_false (fun h => ((initDecoder_iff 0).mp (h.decoder 0)).1 hchannels)
      fun h => h.channels hchannels
  have hpos : 0 < frameOf m := by
    unfold frameOf
    omega
  have hlast : (∀ p < (toLong ((m.waveSize + m.frameBytes - 1) / m.frameBytes)).toNat,
      p * frameOf m < 2147483648 ∧ m.waveHeaderSize.toNat + p * frameOf m < 4294967296 ∧
        m.waveFormat.nBlockAlign.toNat ∣ p * frameOf m) ↔
      (m.waveSize.toNat ≤ frameOf m ∨ 4294967296 < m.waveSize.toNat + frameOf m ∨
        frameOf m = 1 ∧ 2147483648 ≤ m.waveSize.toNat ∨
        m.waveFormat.nBlockAlign.toNat ∣ frameOf m ∧ lastFrame m < 2147483648 ∧
          m.waveHeaderSize.toNat + lastFrame m < 4294967296) := by
    rw [every_position_iff m.waveHeaderSize.toNat_lt, positions_eq hframe hrate]
    have hone : (m.waveSize.toNat + frameOf m - 1) / frameOf m ≤ 1 ↔
        m.waveSize.toNat ≤ frameOf m := roundUp_le_one_iff hpos
    have hsize := m.waveSize.toNat_lt
    by_cases hwraps : 4294967296 < m.waveSize.toNat + frameOf m
    · rw [if_pos (.inl hwraps)]
      exact iff_of_true (.inl (Nat.zero_le 1)) (.inr (.inl hwraps))
    by_cases hlarge : 2147483648 ≤ (m.waveSize.toNat + frameOf m - 1) / frameOf m
    · rw [if_pos (.inr hlarge)]
      refine iff_of_true (.inl (Nat.zero_le 1)) (.inr (.inr (.inl ?_)))
      -- A frame of two bytes or more leaves fewer than half as many.
      have hmul : 2147483648 * frameOf m ≤ m.waveSize.toNat + frameOf m - 1 :=
        (Nat.le_div_iff_mul_le hpos).mp hlarge
      exact ⟨by omega, by omega⟩
    rw [if_neg (not_or.mpr ⟨hwraps, hlarge⟩), hone]
    by_cases hfew : m.waveSize.toNat ≤ frameOf m
    · exact iff_of_true (.inl hfew) (.inl hfew)
    · have hmany : ¬ (frameOf m = 1 ∧ 2147483648 ≤ m.waveSize.toNat) := by
        rintro ⟨hsmall, hhalf⟩
        rw [hsmall, Nat.div_one] at hlarge
        omega
      have hround : (m.waveSize.toNat + frameOf m - 1) / frameOf m - 1 =
          (m.waveSize.toNat - 1) / frameOf m := by
        rw [roundUp_pos (by omega) hpos, Nat.add_sub_cancel]
      rw [hround, or_iff_right hfew, or_iff_right hfew, or_iff_right hwraps, or_iff_right hmany]
      rfl
  constructor
  · intro h
    exact ⟨hrate, hchannels, hlast.mp ((seeks_iff hframe hrate).mp h.seeks)⟩
  · intro h
    refine ⟨fun iNewSize => ?_, by omega, (seeks_iff hframe hrate).mpr (hlast.mpr h.frames)⟩
    exact (initDecoder_iff iNewSize).mpr ⟨hchannels, by omega⟩

end Header

/-! ## Every header -/

theorem frameBytes_walkChunks {file : Text} {limit : UInt32} {m : HeadInfo} :
    ∀ {rounds pos : Nat} {count : UInt32} {format : Option WaveFormat},
      walkChunks file limit rounds pos count format = .ok m →
        m.frameBytes = m.waveFormat.nAvgBytesPerSec / 100 := by
  intro rounds
  induction rounds with
  | zero => exact nofun
  | succ rounds ih =>
    intro pos count format h
    unfold walkChunks at h
    split at h
    swap
    · cases h
    obtain ⟨buffer, -, h⟩ := bind_eq_ok.mp h
    dsimp only at h
    split at h
    · split at h
      · cases h
      · obtain ⟨_, -, h⟩ := bind_eq_ok.mp h
        exact ih h
    split at h
    · split at h
      · split at h
        · rw [← Except.ok.inj h]
        · cases h
      · exact ih h
    · obtain ⟨_, -, h⟩ := bind_eq_ok.mp h
      exact ih h

theorem frameBytes_getHeadInfo {file : Text} {m : HeadInfo} (h : getHeadInfo file = .ok m) :
    m.frameBytes = m.waveFormat.nAvgBytesPerSec / 100 := by
  obtain ⟨buffer, -, h⟩ := bind_eq_ok.mp h
  split at h
  · cases h
  · exact frameBytes_walkChunks h

/-- The numbers of a header that is accepted are right, just when they are sound. -/
theorem numbers_right_iff {file : Text} {m : HeadInfo} (h : getHeadInfo file = .ok m) :
    NumbersRight m ↔ Sound m := numbersRight_iff (frameBytes_getHeadInfo h)

/-- A header for so many bytes a second, in blocks of so many. -/
def headerOf (channels bytesPerSecond blockAlign size : Nat) : WaveHeader :=
  { mainChunkID := fourChars "RIFF"
    length := UInt32.ofNat (size + 36)
    chunkTypeID := fourChars "WAVE"
    subChunkID := fourChars "fmt "
    subChunkLength := 16
    format := waveFormatPCM
    modus := UInt16.ofNat channels
    sampleFreq := UInt32.ofNat (bytesPerSecond / blockAlign)
    bytesPerSec := UInt32.ofNat bytesPerSecond
    bytesPerSample := UInt16.ofNat blockAlign
    bitsPerSample := 16
    dataChunkID := fourChars "data"
    dataLength := UInt32.ofNat size }

/-- Two channels at 44100 Hz. -/
theorem numbers_right_cd : NumbersRight ⟨⟨1, 2, 44100, 176400, 4⟩, 176400, 44, 1764⟩ :=
  (numbers_right_iff (getHeadInfo_image (h := headerOf 2 176400 4 176400) [] rfl rfl rfl rfl rfl rfl
    (by decide))).mpr
    { rate := by decide
      channels := by decide
      frames := by decide }

/-- One channel at 22050 Hz: a hundredth of a second is half a sample too long. -/
theorem numbers_right_fails : ¬ ∀ (file : Text) (m : HeadInfo), getHeadInfo file = .ok m →
    NumbersRight m := by
  intro hall
  have hhead := getHeadInfo_image (h := headerOf 1 44100 2 882) [] rfl rfl rfl rfl rfl rfl
    (by decide)
  have hsound := (numbersRight_iff (frameBytes_getHeadInfo hhead)).mp (hall _ _ hhead)
  exact absurd hsound.frames (by decide)

end FreeAmp.Lmc.Wav
