/-
  Io/TimeInfo.lean --- the time that the outputs show, `HandleTimeInfoEvent` of
  `io/wavout/src/wavoutpmo.cpp` and `io/soundcard/unix/linux/src/soundcardpmo.cpp`.

  Both divide the bytes that have been put out by the bytes of a second, and split the
  seconds in hours, minutes and seconds.  `WavOutPMO` takes the hours for seconds when it
  counts the minutes, so that nothing is shown from the first hour on; the sound card counts
  its bytes in 32 bits when it is told of another frame than the next one.
-/
import FreeAmp.Lib.Decimal

namespace FreeAmp.Io

open FreeAmp.Lib

/-! ## Formats and events -/

/-- `OutputInfo`, as far as times depend on it -/
structure SampleFormat where
  bitsPerSample : UInt32
  numberOfChannels : UInt32
  samplesPerSecond : UInt32
  samplesPerFrame : UInt32
  deriving DecidableEq, Repr

namespace SampleFormat

def bytesPerSample (f : SampleFormat) : UInt32 := f.numberOfChannels * (f.bitsPerSample / 8)

/-- `m_iBytesPerSample * samples_per_second` -/
def bytesPerSecond (f : SampleFormat) : UInt32 := f.bytesPerSample * f.samplesPerSecond

/-- The bytes of a sample, of all channels. -/
def sampleBytes (f : SampleFormat) : Nat := f.numberOfChannels.toNat * (f.bitsPerSample.toNat / 8)

def byteRate (f : SampleFormat) : Nat := f.sampleBytes * f.samplesPerSecond.toNat

theorem toNat_bytesPerSample (f : SampleFormat) :
    f.bytesPerSample.toNat = f.sampleBytes % 4294967296 := by
  unfold bytesPerSample sampleBytes
  rw [UInt32.toNat_mul, UInt32.toNat_div]
  rfl

theorem toNat_bytesPerSecond (f : SampleFormat) :
    f.bytesPerSecond.toNat = f.byteRate % 4294967296 := by
  unfold bytesPerSecond byteRate
  rw [UInt32.toNat_mul, toNat_bytesPerSample]
  exact Nat.mod_mul_mod _ _ _

theorem bytesPerSecond_exact_iff (f : SampleFormat) :
    f.bytesPerSecond.toNat = f.byteRate ↔ f.byteRate < 4294967296 := by
  rw [toNat_bytesPerSecond]
  omega

theorem bytesPerSecond_ne_zero {f : SampleFormat} (hexact : f.byteRate < 4294967296)
    (hpos : 0 < f.byteRate) : f.bytesPerSecond ≠ 0 := by
  intro hzero
  have hrate := (bytesPerSecond_exact_iff f).mpr hexact
  rw [hzero] at hrate
  exact absurd hrate.symm (Nat.ne_of_gt hpos)

end SampleFormat

/-- `MediaTimeInfoEvent`, the fields that are not 0. -/
structure TimeEvent where
  hours : Int
  minutes : Int
  seconds : Int
  totalSeconds : Int
  deriving DecidableEq, Repr

/-- The event carries that many seconds. -/
structure TimeEvent.Shows (e : TimeEvent) (t : Int) : Prop where
  sum : e.hours * 3600 + e.minutes * 60 + e.seconds = t
  hours : 0 ≤ e.hours
  minutes : 0 ≤ e.minutes ∧ e.minutes < 60
  seconds : 0 ≤ e.seconds ∧ e.seconds < 60

inductive TimeFault where
  | divisionByZero
  deriving DecidableEq, Repr

/-! ## `WavOutPMO` -/

/-- What `WavOutPMO` counts. -/
structure WavClock where
  /-- an `int`, as its bits -/
  totalBytesWritten : UInt32
  lastTime : Int
  deriving DecidableEq, Repr

namespace WavClock

/-- `m_iTotalBytesWritten += m_data_size`, block after block. -/
def bytesWritten (blocks : List UInt32) : UInt32 := blocks.foldl (· + ·) 0

/-- `iTotalTime`: the `int` is made unsigned for the division. -/
def totalTime (f : SampleFormat) (s : WavClock) : Int :=
  toLong (s.totalBytesWritten / f.bytesPerSecond)

def handleTimeInfoEvent (f : SampleFormat) (s : WavClock) :
    Except TimeFault (Option TimeEvent × WavClock) :=
  if f.samplesPerSecond = 0 then .ok (none, s)
  else if f.bytesPerSecond = 0 then .error .divisionByZero
  else
    let iTotalTime := s.totalTime f
    let hours := iTotalTime.tdiv 3600
    let minutes := (iTotalTime - hours).tdiv 60
    let seconds := iTotalTime - hours * 3600 - minutes * 60
    if minutes < 0 ∨ 59 < minutes ∨ seconds < 0 ∨ 59 < seconds then .ok (none, s)
    else if iTotalTime < s.lastTime + 10 then .ok (none, s)
    else .ok (some ⟨hours, minutes, seconds, iTotalTime⟩, { s with lastTime := iTotalTime })

/-- The bytes of some blocks. -/
def output (blocks : List UInt32) : Nat := (blocks.map UInt32.toNat).sum

theorem toNat_bytesWritten (blocks : List UInt32) :
    (bytesWritten blocks).toNat = output blocks % 4294967296 := by
  have hloop : ∀ (blocks : List UInt32) (before : UInt32),
      (blocks.foldl (· + ·) before).toNat = (before.toNat + output blocks) % 4294967296 := by
    intro blocks
    induction blocks with
    | nil =>
      intro before
      have hlt := before.toNat_lt
      rw [List.foldl_nil, output, List.map_nil, List.sum_nil]
      omega
    | cons block blocks ih =>
      intro before
      rw [List.foldl_cons, ih, UInt32.toNat_add, output, output, List.map_cons, List.sum_cons]
      omega
  have h := hloop blocks 0
  rwa [UInt32.toNat_zero, Nat.zero_add] at h

/-- The position of some blocks in whole seconds. -/
def position (f : SampleFormat) (blocks : List UInt32) : Nat := output blocks / f.byteRate

/-- No number overflows, and an event that is due is sent with the position. -/
structure Right (f : SampleFormat) (blocks : List UInt32) (lastTime : Int) : Prop where
  rate : f.bytesPerSecond.toNat = f.byteRate
  count : (bytesWritten blocks).toNat = output blocks
  early : (position f blocks : Int) < lastTime + 10 →
    handleTimeInfoEvent f ⟨bytesWritten blocks, lastTime⟩ =
      .ok (none, ⟨bytesWritten blocks, lastTime⟩)
  due : lastTime + 10 ≤ position f blocks → ∃ e,
    handleTimeInfoEvent f ⟨bytesWritten blocks, lastTime⟩ =
      .ok (some e, ⟨bytesWritten blocks, position f blocks⟩) ∧ e.Shows (position f blocks)

/-! ### The split -/

/-- In the first hour the seconds are split as they should be. -/
theorem handle_first_hour {f : SampleFormat} {s : WavClock} (hrate : f.samplesPerSecond ≠ 0)
    (hbytes : f.bytesPerSecond ≠ 0) (hlow : 0 ≤ s.totalTime f) (hhigh : s.totalTime f < 3600) :
    handleTimeInfoEvent f s =
      if s.totalTime f < s.lastTime + 10 then .ok (none, s)
      else .ok (some ⟨0, s.totalTime f / 60, s.totalTime f % 60, s.totalTime f⟩,
        { s with lastTime := s.totalTime f }) := by
  unfold handleTimeInfoEvent
  rw [if_neg hrate, if_neg hbytes]
  generalize s.totalTime f = t at hlow hhigh ⊢
  have hhours : t.tdiv 3600 = 0 := Int.tdiv_eq_zero_of_lt hlow hhigh
  have hminutes : (t - 0).tdiv 60 = t / 60 := by
    rw [Int.sub_zero, Int.tdiv_eq_ediv_of_nonneg hlow]
  have hseconds : t - 0 * 3600 - t / 60 * 60 = t % 60 := by omega
  dsimp only
  rw [hhours, hminutes, hseconds, if_neg (by omega)]

/-- Behind it the minutes or the seconds are out of range. -/
theorem handle_late {f : SampleFormat} {s : WavClock} (hrate : f.samplesPerSecond ≠ 0)
    (hbytes : f.bytesPerSecond ≠ 0) (hout : s.totalTime f < 0 ∨ 3600 ≤ s.totalTime f) :
    handleTimeInfoEvent f s = .ok (none, s) := by
  unfold handleTimeInfoEvent
  rw [if_neg hrate, if_neg hbytes]
  generalize s.totalTime f = t at hout ⊢
  dsimp only
  rw [if_pos]
  rcases hout with hneg | hlate
  · obtain ⟨k, rfl⟩ : ∃ k, t = -k := ⟨-t, by omega⟩
    have hhours : (-k).tdiv 3600 = -(k / 3600) := by
      rw [Int.neg_tdiv, Int.tdiv_eq_ediv_of_nonneg (by omega)]
    have hminutes : (-k - -(k / 3600)).tdiv 60 = -((k - k / 3600) / 60) := by
      rw [show -k - -(k / 3600) = -(k - k / 3600) by omega, Int.neg_tdiv,
        Int.tdiv_eq_ediv_of_nonneg (by omega)]
    rw [hhours, hminutes]
    omega
  · have hhours : t.tdiv 3600 = t / 3600 := Int.tdiv_eq_ediv_of_nonneg (by omega)
    have hminutes : (t - t / 3600).tdiv 60 = (t - t / 3600) / 60 :=
      Int.tdiv_eq_ediv_of_nonneg (by omega)
    rw [hhours, hminutes]
    omega

theorem totalTime_eq {f : SampleFormat} {blocks : List UInt32} {lastTime : Int}
    (hrate : f.bytesPerSecond.toNat = f.byteRate)
    (hcount : (bytesWritten blocks).toNat = output blocks) :
    totalTime f ⟨bytesWritten blocks, lastTime⟩ =
      if position f blocks < 2147483648 then (position f blocks : Int)
      else (position f blocks : Int) - 4294967296 := by
  unfold totalTime toLong position
  rw [UInt32.toNat_div, hrate, hcount]

/-- Nothing overflows, and the event is sent in the first hour, or too early to be sent. -/
def Keeps (f : SampleFormat) (blocks : List UInt32) (lastTime : Int) : Prop :=
  (0 < f.byteRate ∧ f.byteRate < 4294967296) ∧ output blocks < 4294967296 ∧
    (position f blocks < 3600 ∨ (position f blocks : Int) < lastTime + 10)

theorem right_iff (f : SampleFormat) (blocks : List UInt32) (lastTime : Int)
    (hpos : 0 < f.samplesPerSecond) :
    Right f blocks lastTime ↔ Keeps f blocks lastTime := by
  have hne : f.samplesPerSecond ≠ 0 := by
    intro hzero
    rw [hzero] at hpos
    exact absurd hpos (by decide)
  constructor
  · intro h
    have hcount := h.count
    have hbytes : f.bytesPerSecond ≠ 0 := by
      intro hzero
      have hfault : handleTimeInfoEvent f ⟨bytesWritten blocks, lastTime⟩ =
          .error .divisionByZero := by
        unfold handleTimeInfoEvent
        rw [if_neg hne, if_pos hzero]
      by_cases hearly : (position f blocks : Int) < lastTime + 10
      · have hnone := h.early hearly
        rw [hfault] at hnone
        cases hnone
      · obtain ⟨e, hsent, -⟩ := h.due (by omega)
        rw [hfault] at hsent
        cases hsent
    have hrate : 0 < f.byteRate := by
      rw [← h.rate, Nat.pos_iff_ne_zero]
      exact fun hzero => hbytes (UInt32.toNat_inj.mp hzero)
    refine ⟨⟨hrate, (f.bytesPerSecond_exact_iff).mp h.rate⟩, ?_, ?_⟩
    · rw [toNat_bytesWritten] at hcount
      omega
    · by_contra hlate
      obtain ⟨e, hsent, -⟩ := h.due (by omega)
      have htime := @totalTime_eq f blocks lastTime h.rate h.count
      have hlt := (bytesWritten blocks).toNat_lt
      have hquot : position f blocks ≤ output blocks := Nat.div_le_self _ _
      rw [handle_late hne hbytes (by split at htime <;> omega)] at hsent
      cases hsent
  · rintro ⟨⟨hrate, hexact⟩, hsmall, hshown⟩
    have hrate' := (f.bytesPerSecond_exact_iff).mpr hexact
    have hbytes := SampleFormat.bytesPerSecond_ne_zero hexact hrate
    have hcount : (bytesWritten blocks).toNat = output blocks := by
      rw [toNat_bytesWritten]
      omega
    have htime := @totalTime_eq f blocks lastTime hrate' hcount
    have hquot : position f blocks ≤ output blocks := Nat.div_le_self _ _
    by_cases hhour : position f blocks < 3600
    · rw [if_pos (by omega)] at htime
      have hhandle := @handle_first_hour f ⟨bytesWritten blocks, lastTime⟩ hne hbytes
        (by omega) (by omega)
      rw [htime] at hhandle
      refine ⟨hrate', hcount, fun hearly => ?_, fun hdue => ?_⟩
      · rw [hhandle, if_pos hearly]
      · rw [hhandle, if_neg (Int.not_lt.mpr hdue)]
        refine ⟨_, rfl, ⟨?_, Int.le_refl 0, ?_, ?_⟩⟩ <;> dsimp only <;> omega
    · refine ⟨hrate', hcount, fun _ => ?_, fun hdue => by omega⟩
      exact handle_late hne hbytes (by split at htime <;> omega)

end WavClock

/-! ## `SoundCardPMO` -/

/-- What `SoundCardPMO` counts. -/
structure CardClock where
  /-- a `long long` -/
  totalBytesWritten : Int
  lastFrame : Int
  deriving DecidableEq, Repr

/-- What an event is about, and what the device answers to it. -/
structure CardPosition where
  frameNumber : Int32
  /-- `m_iOutputBufferSize - info.fragments * info.fragsize` -/
  dataInBuffer : Int
  deriving DecidableEq, Repr

namespace CardClock

/-- `m_iTotalBytesWritten` behind the comparison of the frame numbers. -/
def totalBytes (f : SampleFormat) (s : CardClock) (p : CardPosition) : Int :=
  if p.frameNumber.toInt ≠ s.lastFrame + 1 then
    (f.samplesPerFrame * UInt32.ofInt p.frameNumber.toInt * f.bytesPerSample).toNat
  else s.totalBytesWritten

/-- `iTotalTime` before it is taken modulo a day: a `long long` made an `int`. -/
def totalTime (f : SampleFormat) (s : CardClock) (p : CardPosition) : Int :=
  toLong (UInt32.ofInt ((s.totalBytes f p - p.dataInBuffer).tdiv f.bytesPerSecond.toNat))

def handleTimeInfoEvent (f : SampleFormat) (s : CardClock) (p : CardPosition) :
    Except TimeFault (Option TimeEvent × CardClock) :=
  let next : CardClock := ⟨s.totalBytes f p, p.frameNumber.toInt⟩
  if f.samplesPerSecond = 0 ∨ p.frameNumber.toInt < 2 then .ok (none, next)
  else if f.bytesPerSecond = 0 then .error .divisionByZero
  else
    let iTotalTime := (s.totalTime f p).tmod 86400
    let hours := iTotalTime.tdiv 3600
    let minutes := (iTotalTime.tdiv 60).tmod 60
    let seconds := iTotalTime.tmod 60
    if hours < 0 ∨ minutes < 0 ∨ 59 < minutes ∨ seconds < 0 ∨ 59 < seconds then .ok (none, next)
    else .ok (some ⟨hours, minutes, seconds, iTotalTime⟩, next)

/-- The bytes that have been output: those in front of a frame that is not the next one. -/
def output (f : SampleFormat) (s : CardClock) (p : CardPosition) : Int :=
  if p.frameNumber.toInt ≠ s.lastFrame + 1 then
    f.samplesPerFrame.toNat * p.frameNumber.toInt * f.sampleBytes
  else s.totalBytesWritten

/-- The position in whole seconds. -/
def position (f : SampleFormat) (s : CardClock) (p : CardPosition) : Int :=
  (s.output f p - p.dataInBuffer) / f.byteRate

/-- No number overflows, and an event is sent with the position modulo a day. -/
structure Right (f : SampleFormat) (s : CardClock) (p : CardPosition) : Prop where
  rate : f.bytesPerSecond.toNat = f.byteRate
  count : s.totalBytes f p = s.output f p
  time : s.totalTime f p = s.position f p
  sent : ∃ e next, handleTimeInfoEvent f s p = .ok (some e, next) ∧
    e.Shows (s.position f p % 86400)

/-- Nothing overflows. -/
def Keeps (f : SampleFormat) (s : CardClock) (p : CardPosition) : Prop :=
  (0 < f.byteRate ∧ f.byteRate < 4294967296) ∧
    (p.frameNumber.toInt ≠ s.lastFrame + 1 →
      f.samplesPerFrame.toNat * p.frameNumber.toInt * f.sampleBytes < 4294967296) ∧
    s.position f p < 2147483648

/-- The position from a frame number is taken modulo 2^32. -/
theorem totalBytes_eq (f : SampleFormat) (s : CardClock) {p : CardPosition}
    (hframe : 0 ≤ p.frameNumber.toInt) :
    s.totalBytes f p = if p.frameNumber.toInt ≠ s.lastFrame + 1 then
      (f.samplesPerFrame.toNat * p.frameNumber.toInt * f.sampleBytes) % 4294967296
    else s.totalBytesWritten := by
  unfold totalBytes
  split
  · have hhigh := p.frameNumber.toInt_lt
    obtain ⟨n, hn⟩ := Int.eq_ofNat_of_zero_le hframe
    have hwrap : (UInt32.ofInt p.frameNumber.toInt).toNat = n := by
      rw [toNat_ofInt, hn]
      omega
    rw [UInt32.toNat_mul, UInt32.toNat_mul, hwrap, SampleFormat.toNat_bytesPerSample, hn]
    have hmod : f.samplesPerFrame.toNat * n % 4294967296 * (f.sampleBytes % 4294967296) %
        4294967296 = f.samplesPerFrame.toNat * n * f.sampleBytes % 4294967296 :=
      (Nat.mul_mod _ _ _).symm
    rw [show (2 : Nat) ^ 32 = 4294967296 from rfl, hmod]
    push_cast
    rfl
  · rfl

theorem count_iff (f : SampleFormat) (s : CardClock) {p : CardPosition}
    (hframe : 0 ≤ p.frameNumber.toInt) :
    s.totalBytes f p = s.output f p ↔ (p.frameNumber.toInt ≠ s.lastFrame + 1 →
      f.samplesPerFrame.toNat * p.frameNumber.toInt * f.sampleBytes < 4294967296) := by
  rw [totalBytes_eq f s hframe, output]
  split
  · rename_i hother
    have hpos : 0 ≤ f.samplesPerFrame.toNat * p.frameNumber.toInt * f.sampleBytes :=
      Int.mul_nonneg (Int.mul_nonneg (Int.natCast_nonneg _) hframe) (Int.natCast_nonneg _)
    constructor
    · intro h _
      omega
    · intro h
      exact Int.emod_eq_of_lt hpos (h hother)
  · rename_i hnext
    exact iff_of_true rfl fun h => absurd h hnext

theorem handle_time {f : SampleFormat} {s : CardClock} {p : CardPosition}
    (hrate : f.samplesPerSecond ≠ 0) (hframe : 2 ≤ p.frameNumber.toInt)
    (hbytes : f.bytesPerSecond ≠ 0) (hlow : 0 ≤ s.totalTime f p) :
    ∃ e next, handleTimeInfoEvent f s p = .ok (some e, next) ∧
      e.Shows (s.totalTime f p % 86400) := by
  unfold handleTimeInfoEvent
  dsimp only
  rw [if_neg (by rintro (hzero | hearly); exacts [hrate hzero, by omega]), if_neg hbytes]
  generalize s.totalTime f p = t at hlow ⊢
  have hday : t.tmod 86400 = t % 86400 := Int.tmod_eq_emod_of_nonneg hlow
  have hhours : (t % 86400).tdiv 3600 = t % 86400 / 3600 :=
    Int.tdiv_eq_ediv_of_nonneg (by omega)
  have hminutes : ((t % 86400).tdiv 60).tmod 60 = t % 86400 / 60 % 60 := by
    rw [Int.tdiv_eq_ediv_of_nonneg (by omega), Int.tmod_eq_emod_of_nonneg (by omega)]
  have hseconds : (t % 86400).tmod 60 = t % 86400 % 60 := Int.tmod_eq_emod_of_nonneg (by omega)
  rw [hday, hhours, hminutes, hseconds, if_neg (by omega)]
  refine ⟨_, _, rfl, ⟨?_, ?_, ?_, ?_⟩⟩ <;> dsimp only <;> omega

theorem right_iff (f : SampleFormat) (s : CardClock) (p : CardPosition)
    (hpos : 0 < f.samplesPerSecond) (hframe : 2 ≤ p.frameNumber.toInt)
    (hplayed : p.dataInBuffer ≤ s.output f p) : Right f s p ↔ Keeps f s p := by
  have hne : f.samplesPerSecond ≠ 0 := by
    intro hzero
    rw [hzero] at hpos
    exact absurd hpos (by decide)
  have hframe' : 0 ≤ p.frameNumber.toInt := by omega
  constructor
  · rintro ⟨hrate, hcount, htime, e, next, hsent, -⟩
    refine ⟨⟨?_, (f.bytesPerSecond_exact_iff).mp hrate⟩, (count_iff f s hframe').mp hcount, ?_⟩
    · rw [← hrate, Nat.pos_iff_ne_zero]
      intro hzero
      unfold handleTimeInfoEvent at hsent
      dsimp only at hsent
      rw [if_neg (by rintro (hz | hearly); exacts [hne hz, by omega]),
        if_pos (UInt32.toNat_inj.mp hzero)] at hsent
      cases hsent
    · rw [← htime]
      have hhigh := toLong_high
        (UInt32.ofInt ((s.totalBytes f p - p.dataInBuffer).tdiv f.bytesPerSecond.toNat))
      unfold totalTime
      omega
  · rintro ⟨⟨hrate, hexact⟩, hfits, hsmall⟩
    have hrate' := (f.bytesPerSecond_exact_iff).mpr hexact
    have hcount := (count_iff f s hframe').mpr hfits
    have hlow : 0 ≤ s.position f p := Int.ediv_nonneg (by omega) (Int.natCast_nonneg _)
    have htime : s.totalTime f p = s.position f p := by
      unfold totalTime
      rw [hcount, hrate', Int.tdiv_eq_ediv_of_nonneg (by omega)]
      change toLong (UInt32.ofInt (s.position f p)) = _
      unfold toLong
      rw [toNat_ofInt]
      split <;> omega
    have hsent := @handle_time f s p hne hframe
      (SampleFormat.bytesPerSecond_ne_zero hexact hrate) (by omega)
    rw [htime] at hsent
    exact ⟨hrate', hcount, htime, hsent⟩

end CardClock

/-! ## Both outputs -/

/-- When the two outputs show the position. -/
theorem timeInfo_iff (f : SampleFormat) (hrate : 0 < f.samplesPerSecond) :
    (∀ (blocks : List UInt32) (lastTime : Int),
      WavClock.Right f blocks lastTime ↔ WavClock.Keeps f blocks lastTime) ∧
    ∀ (s : CardClock) (p : CardPosition), 2 ≤ p.frameNumber.toInt → p.dataInBuffer ≤ s.output f p →
      (CardClock.Right f s p ↔ CardClock.Keeps f s p) :=
  ⟨fun blocks lastTime => WavClock.right_iff f blocks lastTime hrate,
    fun s p => CardClock.right_iff f s p hrate⟩

/-- A compact disc. -/
def cdFormat : SampleFormat := ⟨16, 2, 44100, 1152⟩

theorem timeInfo_iff_second : WavClock.Right cdFormat [176400] (-1000) ∧
    CardClock.Right cdFormat ⟨9216, 1⟩ ⟨2, 4096⟩ := by
  refine ⟨((timeInfo_iff _ (by decide)).1 _ _).mpr ?_,
    ((timeInfo_iff _ (by decide)).2 _ _ (by decide) (by decide)).mpr ?_⟩
  · exact ⟨by decide, by decide, .inl (by decide)⟩
  · exact ⟨by decide, by decide, by decide⟩

/-- Behind an hour nothing is shown. -/
theorem timeInfo_fails : ¬ WavClock.Right cdFormat (List.replicate 3600 176400) (-1000) := by
  intro h
  have houtput : WavClock.output (List.replicate 3600 176400) = 635040000 := by
    unfold WavClock.output
    rw [List.map_replicate, List.sum_replicate]
    rfl
  have hposition : WavClock.position cdFormat (List.replicate 3600 176400) = 3600 := by
    unfold WavClock.position
    rw [houtput]
    decide
  have hkeeps := (WavClock.right_iff cdFormat _ (-1000) (by decide)).mp h
  have hshown := hkeeps.2.2
  rw [hposition] at hshown
  omega

end FreeAmp.Io
