/-
  Io/WavOut.lean --- the output plug-in that writes WAV files, `WavOutPMO` of
  `io/wavout/src/wavoutpmo.cpp`.

  Its worker thread takes events and blocks from a buffer in their order.  `PMO_Init` opens
  a file, a block is appended to it, and `PMO_Reset` and `PMO_Quit` close it.

  The RIFF length that `WaveWriter::Close` puts into the header is four too large, so that
  no file that a stream leaves is well formed; the data and the format are read back.

  Left out are `PMO_Info`, `Pause`, and what only the display reads.
-/
import FreeAmp.Io.WaveFile

namespace FreeAmp.Io

open FreeAmp.Base FreeAmp.Lib

/-! ## The plug-in -/

/-- `OutputInfo`, without what this plug-in does not read -/
structure OutputInfo where
  numberOfChannels : UInt32
  samplesPerSecond : UInt32
  maxBufferSize : UInt32
  deriving DecidableEq, Repr

/-- What the worker thread takes from its buffer. -/
inductive WavEvent where
  | init (info : OutputInfo)
  /-- a block, of which as much is read as the stream has in a buffer -/
  | block (pBuffer : Nat → UInt8)
  | reset
  | quit

/-- A stream that is over: what it was to be, the blocks that were written, and the file. -/
structure WavStream where
  info : OutputInfo
  written : Text
  file : Text
  deriving DecidableEq, Repr

/-- `WavOutPMO`, with a record of its streams. -/
structure WavOutPMO where
  writer : WaveWriter
  initialized : Bool
  dataSize : UInt32
  /-- `WorkerThread` has not returned -/
  running : Bool
  /-- the stream whose file is open -/
  current : Option (OutputInfo × Text)
  /-- the streams that are over -/
  left : List WavStream
  deriving DecidableEq, Repr

namespace WavOutPMO

/-- The format that `Init` asks for. -/
def formatOf (info : OutputInfo) : WaveFormatEx where
  wFormatTag := waveFormatPCM
  nChannels := info.numberOfChannels.toUInt16
  nSamplesPerSec := info.samplesPerSecond
  nAvgBytesPerSec := info.numberOfChannels * info.samplesPerSecond * 2
  nBlockAlign := 4
  wBitsPerSample := 16

/-- Before the first event. -/
def start : WavOutPMO where
  writer := ⟨none, (WaveWriter.create (formatOf ⟨0, 0, 0⟩)).wh⟩
  initialized := false
  dataSize := 0
  running := true
  current := none
  left := []

def leave (s : WavOutPMO) (file : Option Text) : List WavStream :=
  match s.current, file with
  | some (info, written), some file => s.left ++ [⟨info, written, file⟩]
  | _, _ => s.left

/-- `Init`, which forgets a file that is still open. -/
def init (s : WavOutPMO) (info : OutputInfo) : WavOutPMO :=
  { s with
    writer := .create (formatOf info), initialized := true, dataSize := info.maxBufferSize,
    current := some (info, []), left := s.leave (s.writer.fp.map OpenFile.bytes) }

/-- `Reset`, and `Quit` but for the end of the thread. -/
def close (s : WavOutPMO) : WavOutPMO :=
  { s with writer := s.writer.close.1, current := none, left := s.leave s.writer.close.2 }

/-- The block that is read from the buffer. -/
def blockOf (s : WavOutPMO) (pBuffer : Nat → UInt8) : Text :=
  (List.range s.dataSize.toNat).map pBuffer

/-- A block is written; `none` when it goes to a file that is closed. -/
def write (s : WavOutPMO) (data : Text) : Option WavOutPMO :=
  (s.writer.write data).map fun w =>
    { s with
      writer := w.1, running := decide (w.2 ≠ 0),
      current := s.current.map fun c => (c.1, c.2 ++ data) }

/-- A round of `WorkerThread`.  Until the first `PMO_Init` other events are dropped, and no
block is read. -/
def step (s : WavOutPMO) : WavEvent → Option WavOutPMO
  | .init info => some (if s.running then s.init info else s)
  | .block pBuffer =>
    if s.running && s.initialized then s.write (s.blockOf pBuffer) else some s
  | .reset => some (if s.running && s.initialized then s.close else s)
  | .quit =>
    some (if s.running && s.initialized then { s.close with running := false } else s)

/-- The events in their order. -/
def run (s : WavOutPMO) : List WavEvent → Option WavOutPMO
  | [] => some s
  | event :: events => (s.step event).bind fun s => s.run events

end WavOutPMO

/-! ## What a stream leaves -/

/-- The file is a WAV file of the stream: the lengths and the block size are right, and
`GetHeadInfo` finds the format, and the bytes that were written as the rest of the file. -/
structure WavStream.WellFormed (stream : WavStream) : Prop where
  riffLength : (dwordAt stream.file 4).toNat = stream.file.length - 8
  dataLength : (dwordAt stream.file 40).toNat = stream.written.length
  blockSize : (wordAt stream.file 32).toNat = stream.info.numberOfChannels.toNat * 2
  readsBack : ∃ head, getHeadInfo stream.file = .ok head ∧
    head.waveFormat.nChannels.toNat = stream.info.numberOfChannels.toNat ∧
    head.waveFormat.nSamplesPerSec = stream.info.samplesPerSecond ∧
    stream.file.length = head.waveHeaderSize.toNat + head.waveSize.toNat ∧
    stream.file.drop head.waveHeaderSize.toNat = stream.written

/-- No block is written to a closed file, and every stream that is over leaves a WAV file. -/
def WellBehaved (events : List WavEvent) : Prop :=
  ∃ s, WavOutPMO.start.run events = some s ∧ ∀ stream ∈ s.left, stream.WellFormed

/-- A stream is over when its file is closed, or another one is opened; a block of size 0
ends the thread.  The first argument is the size of a block when there is a stream. -/
def StreamEnds : Option UInt32 → List WavEvent → Prop
  | _, [] => False
  | none, .init info :: events => StreamEnds (some info.maxBufferSize) events
  | none, _ :: events => StreamEnds none events
  | some size, .block _ :: events => size ≠ 0 ∧ StreamEnds (some size) events
  | some _, _ :: _ => True

namespace WavOutPMO

/-- The header when the file is created. -/
def createdHeader (info : OutputInfo) : WaveHeader := (WaveWriter.create (formatOf info)).wh

/-- The header that `Close` writes behind so many bytes of data. -/
def closedHeader (info : OutputInfo) (dataLength : UInt32) : WaveHeader :=
  { createdHeader info with length := dataLength + 44 - 4, dataLength := dataLength }

/-- A file as it is left: closed, or forgotten by another `Init`. -/
def Leaves (stream : WavStream) : Prop :=
  stream.file = (closedHeader stream.info (UInt32.ofNat stream.written.length)).image ++
      stream.written ∨
    stream.file = (createdHeader stream.info).image ++ stream.written

/-- What holds of the plug-in after every event. -/
structure Keeps (s : WavOutPMO) : Prop where
  /-- the file that is open has the header and the blocks that were written -/
  opened : ∀ fp, s.writer.fp = some fp → ∃ info written, s.current = some (info, written) ∧
    fp = ⟨(createdHeader info).image ++ written, sizeofWaveHeader + written.length⟩ ∧
    s.writer.wh = { createdHeader info with dataLength := UInt32.ofNat written.length }
  left : ∀ stream ∈ s.left, Leaves stream

theorem keeps_start : Keeps start := ⟨nofun, nofun⟩

theorem leave_opened {s : WavOutPMO} {info : OutputInfo} {written file : Text}
    (h : s.current = some (info, written)) :
    s.leave (some file) = s.left ++ [⟨info, written, file⟩] := by
  simp only [leave, h]

theorem leave_closed (s : WavOutPMO) : s.leave none = s.left := by
  unfold leave
  split
  · rename_i hnone
    exact absurd hnone nofun
  · rfl

/-- The streams that are over stay, with one more when a file was open. -/
theorem leave_prefix (s : WavOutPMO) (file : Option Text) : s.left <+: s.leave file := by
  unfold leave
  split
  · exact List.prefix_append _ _
  · exact List.prefix_rfl

theorem keeps_init {s : WavOutPMO} (h : Keeps s) (info : OutputInfo) : Keeps (s.init info) := by
  constructor
  · intro fp hfp
    obtain rfl := Option.some.inj hfp
    refine ⟨info, [], rfl, ?_, rfl⟩
    have hfirst := @OpenFile.fwrite_end [] 0 rfl (createdHeader info).image
    rw [length_image, Nat.zero_add, List.nil_append] at hfirst
    rw [List.append_nil]
    exact hfirst
  · intro stream hstream
    unfold init at hstream
    cases hfp : s.writer.fp with
    | none =>
      simp only [hfp, Option.map_none, leave_closed] at hstream
      exact h.left stream hstream
    | some fp =>
      obtain ⟨info', written, hcurrent, rfl, -⟩ := h.opened fp hfp
      simp only [hfp, Option.map_some, leave_opened hcurrent, List.mem_append,
        List.mem_singleton] at hstream
      rcases hstream with hstream | rfl
      · exact h.left stream hstream
      · exact .inr rfl

theorem keeps_close {s : WavOutPMO} (h : Keeps s) : Keeps s.close := by
  unfold close WaveWriter.close
  cases hfp : s.writer.fp with
  | none =>
    refine ⟨?_, ?_⟩
    · intro fp hopen
      exact absurd hopen (by simp [hfp])
    · simpa [leave_closed] using h.left
  | some fp =>
    obtain ⟨info, written, hcurrent, rfl, hwh⟩ := h.opened fp hfp
    refine ⟨nofun, ?_⟩
    simp only [leave_opened hcurrent, List.mem_append, List.mem_singleton]
    rintro stream (hstream | rfl)
    · exact h.left stream hstream
    · left
      simp only [hwh, OpenFile.rewind]
      exact OpenFile.fwrite_start (by rw [length_image, length_image]) written

theorem keeps_write {s s' : WavOutPMO} (h : Keeps s) {data : Text}
    (hwrite : s.write data = some s') : Keeps s' := by
  unfold write WaveWriter.write at hwrite
  cases hfp : s.writer.fp with
  | none =>
    rw [hfp] at hwrite
    exact absurd hwrite nofun
  | some fp =>
    obtain ⟨info, written, hcurrent, rfl, hwh⟩ := h.opened fp hfp
    simp only [hfp, hwh, Option.map_some, hcurrent] at hwrite
    obtain rfl := Option.some.inj hwrite
    refine ⟨?_, h.left⟩
    intro fp hopen
    obtain rfl := Option.some.inj hopen
    refine ⟨info, written ++ data, rfl, ?_, ?_⟩
    · rw [OpenFile.fwrite_end (by rw [List.length_append, length_image]), List.append_assoc,
        List.length_append, Nat.add_assoc]
    · simp only [List.length_append, UInt32.ofNat_add]

theorem keeps_step {s s' : WavOutPMO} (h : Keeps s) {event : WavEvent}
    (hstep : s.step event = some s') : Keeps s' := by
  cases event with
  | init info =>
    obtain rfl := Option.some.inj hstep
    split
    · exact keeps_init h info
    · exact h
  | block pBuffer =>
    rw [step] at hstep
    split at hstep
    · exact keeps_write h hstep
    · obtain rfl := Option.some.inj hstep
      exact h
  | reset =>
    obtain rfl := Option.some.inj hstep
    split
    · exact keeps_close h
    · exact h
  | quit =>
    obtain rfl := Option.some.inj hstep
    split
    · exact ⟨(keeps_close h).opened, (keeps_close h).left⟩
    · exact h

theorem keeps_run : ∀ {events : List WavEvent} {s s' : WavOutPMO}, Keeps s →
    s.run events = some s' → Keeps s' := by
  intro events
  induction events with
  | nil =>
    intro s s' h hrun
    obtain rfl := Option.some.inj hrun
    exact h
  | cons event events ih =>
    intro s s' h hrun
    obtain ⟨s'', hstep, hrest⟩ := Option.bind_eq_some_iff.mp hrun
    exact ih (keeps_step h hstep) hrest

/-! ## The files -/

theorem length_left {h : WaveHeader} {written : Text} :
    (h.image ++ written).length = sizeofWaveHeader + written.length := by
  rw [List.length_append, length_image]

theorem closedHeader_length (info : OutputInfo) (n : Nat) :
    (closedHeader info (UInt32.ofNat n)).length.toNat = (n + 40) % 4294967296 := by
  show (UInt32.ofNat n + 44 - 4).toNat = _
  have hbig : (44 : UInt32).toNat = 44 := rfl
  have hsmall : (4 : UInt32).toNat = 4 := rfl
  rw [UInt32.toNat_sub, UInt32.toNat_add, UInt32.toNat_ofNat', hbig, hsmall]
  omega

theorem not_wellFormed_of_leaves {stream : WavStream} (h : Leaves stream) :
    ¬ stream.WellFormed := by
  intro hwell
  have hriff := hwell.riffLength
  rcases h with hfile | hfile
  · rw [hfile, image_length_field, closedHeader_length, length_left, sizeofWaveHeader] at hriff
    omega
  · have hzero : (createdHeader stream.info).length.toNat = 0 := rfl
    rw [hfile, image_length_field, hzero, length_left, sizeofWaveHeader] at hriff
    omega

/-- What a closed file does have: the length of the data, and a header from which the format
and exactly the bytes that were written are read back.  The RIFF length is that of the file
without its first four bytes, and the block size is always 4. -/
theorem closed_file_readsBack {info : OutputInfo} {written file : Text}
    (hfile : file = (closedHeader info (UInt32.ofNat written.length)).image ++ written)
    (hsize : written.length < 4294967296 - sizeofWaveHeader) :
    (dwordAt file 4).toNat = file.length - 4 ∧
    (dwordAt file 40).toNat = written.length ∧
    wordAt file 32 = 4 ∧
    getHeadInfo file = .ok ⟨⟨waveFormatPCM, info.numberOfChannels.toUInt16,
      info.samplesPerSecond, info.numberOfChannels * info.samplesPerSecond * 2, 4⟩,
      UInt32.ofNat written.length, 44, info.numberOfChannels * info.samplesPerSecond * 2 / 100⟩ ∧
    file.drop sizeofWaveHeader = written := by
  subst hfile
  rw [sizeofWaveHeader] at hsize
  have hlength := closedHeader_length info written.length
  have hfour : (4 : UInt32).toNat = 4 := rfl
  refine ⟨?_, ?_, ?_, ?_, ?_⟩
  · rw [image_length_field, hlength, length_left, sizeofWaveHeader]
    omega
  · rw [image_dataLength_field]
    show (UInt32.ofNat written.length).toNat = _
    rw [UInt32.toNat_ofNat']
    omega
  · exact image_blockSize_field _ written
  · refine getHeadInfo_image written rfl rfl rfl rfl rfl rfl ?_
    rw [UInt32.lt_iff_toNat_lt, UInt32.toNat_sub, hlength, hfour]
    show 24 < _
    omega
  · rw [List.drop_left' (length_image _)]

theorem left_prefix_step {s s' : WavOutPMO} {event : WavEvent} (h : s.step event = some s') :
    s.left <+: s'.left := by
  have hclose : s.left <+: s.close.left := leave_prefix s _
  cases event with
  | init info =>
    obtain rfl := Option.some.inj h
    split
    · exact leave_prefix s _
    · exact List.prefix_rfl
  | block pBuffer =>
    rw [step] at h
    split at h
    · obtain ⟨w, -, rfl⟩ := Option.map_eq_some_iff.mp h
      exact List.prefix_rfl
    · obtain rfl := Option.some.inj h
      exact List.prefix_rfl
  | reset =>
    obtain rfl := Option.some.inj h
    split
    · exact hclose
    · exact List.prefix_rfl
  | quit =>
    obtain rfl := Option.some.inj h
    split
    · exact hclose
    · exact List.prefix_rfl

theorem left_prefix_run : ∀ {events : List WavEvent} {s s' : WavOutPMO},
    s.run events = some s' → s.left <+: s'.left := by
  intro events
  induction events with
  | nil =>
    intro s s' h
    obtain rfl := Option.some.inj h
    exact List.prefix_rfl
  | cons event events ih =>
    intro s s' h
    obtain ⟨s'', hstep, hrest⟩ := Option.bind_eq_some_iff.mp h
    exact (left_prefix_step hstep).trans (ih hrest)

/-- The size of a block when there is a stream. -/
def blockSize (s : WavOutPMO) : Option UInt32 := if s.initialized then some s.dataSize else none

/-- Before the first stream is over: there is none, or its file is open. -/
structure Going (s : WavOutPMO) : Prop where
  running : s.running = true
  left : s.left = []
  opened : s.initialized = true → ∃ fp c, s.writer.fp = some fp ∧ s.current = some c
  unopened : s.initialized = false → s.writer.fp = none

theorem going_start : Going start := ⟨rfl, rfl, nofun, fun _ => rfl⟩

theorem going_init {s : WavOutPMO} (h : Going s) (hinit : s.initialized = false)
    (info : OutputInfo) : Going (s.init info) := by
  refine ⟨h.running, ?_, fun _ => ⟨_, _, rfl, rfl⟩, nofun⟩
  show s.leave (s.writer.fp.map OpenFile.bytes) = []
  rw [h.unopened hinit, Option.map_none, leave_closed, h.left]

/-- A block of the stream is written; with one of size 0 the thread returns. -/
theorem write_going {s : WavOutPMO} (h : Going s) (hinit : s.initialized = true)
    (pBuffer : Nat → UInt8) :
    ∃ s', s.write (s.blockOf pBuffer) = some s' ∧ s'.left = [] ∧ blockSize s' = blockSize s ∧
      (s.dataSize = 0 → s'.running = false) ∧ (s.dataSize ≠ 0 → Going s') := by
  obtain ⟨fp, c, hfp, hcurrent⟩ := h.opened hinit
  have hlen : (s.blockOf pBuffer).length = s.dataSize.toNat := by
    rw [blockOf, List.length_map, List.length_range]
  have hzero : s.dataSize.toNat = 0 ↔ s.dataSize = 0 := by
    rw [← UInt32.toNat_inj]
    rfl
  simp only [write, WaveWriter.write, hfp, hcurrent, Option.map_some, hlen]
  refine ⟨_, rfl, h.left, rfl, ?_, ?_⟩
  · intro hsize
    simp [hsize]
  · intro hsize
    refine ⟨?_, h.left, fun _ => ⟨_, _, rfl, rfl⟩, ?_⟩
    · have hsome : ¬ s.dataSize.toNat = 0 := fun hbad => hsize (hzero.mp hbad)
      simp [hsome]
    · intro hbad
      exact absurd hbad (by simp [hinit])

/-- When the thread has returned nothing happens any more. -/
theorem run_stopped {s : WavOutPMO} (h : s.running = false) :
    ∀ events : List WavEvent, s.run events = some s := by
  intro events
  induction events with
  | nil => rfl
  | cons event events ih =>
    have hstep : s.step event = some s := by
      cases event <;> simp [step, h]
    rw [run, hstep, Option.bind_some, ih]

/-- As long as no stream is over, every block is written, and there is no file to look at. -/
theorem run_of_not_streamEnds : ∀ {events : List WavEvent} {s : WavOutPMO}, Going s →
    ¬ StreamEnds (blockSize s) events → ∃ s', s.run events = some s' ∧ s'.left = [] := by
  intro events
  induction events with
  | nil => intro s h _; exact ⟨s, rfl, h.left⟩
  | cons event events ih =>
    intro s h hends
    cases hinit : s.initialized with
    | false =>
      have hnone : blockSize s = none := by simp [blockSize, hinit]
      rw [hnone] at hends
      cases event with
      | init info =>
        have hstep : s.step (.init info) = some (s.init info) := by
          simp [step, h.running]
        rw [run, hstep, Option.bind_some]
        exact ih (going_init h hinit info) hends
      | block pBuffer =>
        have hstep : s.step (.block pBuffer) = some s := by simp [step, hinit]
        rw [run, hstep, Option.bind_some]
        exact ih h (by rw [hnone]; exact hends)
      | reset =>
        have hstep : s.step .reset = some s := by simp [step, hinit]
        rw [run, hstep, Option.bind_some]
        exact ih h (by rw [hnone]; exact hends)
      | quit =>
        have hstep : s.step .quit = some s := by simp [step, hinit]
        rw [run, hstep, Option.bind_some]
        exact ih h (by rw [hnone]; exact hends)
    | true =>
      have hsome : blockSize s = some s.dataSize := by simp [blockSize, hinit]
      rw [hsome] at hends
      cases event with
      | block pBuffer =>
        obtain ⟨s', hwrite, hleft, hsame, hzero, hgoing⟩ := write_going h hinit pBuffer
        have hstep : s.step (.block pBuffer) = some s' := by
          simp [step, h.running, hinit, hwrite]
        rw [run, hstep, Option.bind_some]
        by_cases hsize : s.dataSize = 0
        · exact ⟨s', run_stopped (hzero hsize) events, hleft⟩
        · refine ih (hgoing hsize) ?_
          rw [hsame, hsome]
          exact fun hrest => hends ⟨hsize, hrest⟩
      | init info => exact absurd trivial hends
      | reset => exact absurd trivial hends
      | quit => exact absurd trivial hends

theorem leave_ne_nil {s : WavOutPMO} {c : OutputInfo × Text} (hcurrent : s.current = some c)
    (file : Text) : s.leave (some file) ≠ [] := by
  obtain ⟨info, written⟩ := c
  rw [leave_opened hcurrent]
  simp

theorem left_of_streamEnds : ∀ {events : List WavEvent} {s s' : WavOutPMO}, Going s →
    StreamEnds (blockSize s) events → s.run events = some s' → s'.left ≠ [] := by
  intro events
  induction events with
  | nil =>
    intro s s' _ hends
    simp [StreamEnds] at hends
  | cons event events ih =>
    intro s s' h hends hrun
    obtain ⟨s'', hstep, hrest⟩ := Option.bind_eq_some_iff.mp hrun
    have hstays := left_prefix_run hrest
    have hover : s''.left ≠ [] → s'.left ≠ [] := by
      intro hne hnil
      rw [hnil] at hstays
      exact hne (List.prefix_nil.mp hstays)
    cases hinit : s.initialized with
    | false =>
      have hnone : blockSize s = none := by simp [blockSize, hinit]
      rw [hnone] at hends
      cases event with
      | init info =>
        have hnext : s.step (.init info) = some (s.init info) := by
          simp [step, h.running]
        obtain rfl := Option.some.inj (hnext.symm.trans hstep)
        exact ih (going_init h hinit info) hends hrest
      | block pBuffer =>
        have hnext : s.step (.block pBuffer) = some s := by simp [step, hinit]
        obtain rfl := Option.some.inj (hnext.symm.trans hstep)
        exact ih h (by rw [hnone]; exact hends) hrest
      | reset =>
        have hnext : s.step .reset = some s := by simp [step, hinit]
        obtain rfl := Option.some.inj (hnext.symm.trans hstep)
        exact ih h (by rw [hnone]; exact hends) hrest
      | quit =>
        have hnext : s.step .quit = some s := by simp [step, hinit]
        obtain rfl := Option.some.inj (hnext.symm.trans hstep)
        exact ih h (by rw [hnone]; exact hends) hrest
    | true =>
      have hsome : blockSize s = some s.dataSize := by simp [blockSize, hinit]
      obtain ⟨fp, c, hfp, hcurrent⟩ := h.opened hinit
      have hclosed : s.close.left ≠ [] := by
        simp only [close, WaveWriter.close, hfp]
        exact leave_ne_nil hcurrent _
      rw [hsome] at hends
      cases event with
      | block pBuffer =>
        obtain ⟨s₁, hwrite, -, hsame, -, hgoing⟩ := write_going h hinit pBuffer
        have hnext : s.step (.block pBuffer) = some s₁ := by
          simp [step, h.running, hinit, hwrite]
        obtain rfl := Option.some.inj (hnext.symm.trans hstep)
        refine ih (hgoing hends.1) ?_ hrest
        rw [hsame, hsome]
        exact hends.2
      | init info =>
        have hnext : s.step (.init info) = some (s.init info) := by
          simp [step, h.running]
        obtain rfl := Option.some.inj (hnext.symm.trans hstep)
        apply hover
        simp only [init, hfp, Option.map_some]
        exact leave_ne_nil hcurrent _
      | reset =>
        have hnext : s.step .reset = some s.close := by simp [step, h.running, hinit]
        obtain rfl := Option.some.inj (hnext.symm.trans hstep)
        exact hover hclosed
      | quit =>
        have hnext : s.step .quit = some { s.close with running := false } := by
          simp [step, h.running, hinit]
        obtain rfl := Option.some.inj (hnext.symm.trans hstep)
        exact hover hclosed

theorem not_wellBehaved_of_streamEnds {events : List WavEvent} (hends : StreamEnds none events) :
    ¬ WellBehaved events := by
  rintro ⟨s, hrun, hall⟩
  have hleft := @left_of_streamEnds events start s going_start hends hrun
  obtain ⟨stream, hstream⟩ := List.exists_mem_of_ne_nil _ hleft
  have hleaves := (keeps_run keeps_start hrun).left stream hstream
  exact not_wellFormed_of_leaves hleaves (hall stream hstream)

/-- No stream that is over leaves a WAV file as it should be: a run is well behaved exactly
when no stream of it is over. -/
theorem wellBehaved_iff (events : List WavEvent) :
    WellBehaved events ↔ ¬ StreamEnds none events := by
  constructor
  · intro hwell hends
    exact not_wellBehaved_of_streamEnds hends hwell
  · intro hends
    obtain ⟨s, hrun, hleft⟩ := @run_of_not_streamEnds events start going_start hends
    refine ⟨s, hrun, ?_⟩
    rw [hleft]
    exact nofun

/-- Two samples of two channels, and the end of the stream. -/
theorem one_block_not_wellBehaved :
    ¬ WellBehaved [.init ⟨2, 44100, 4⟩, .block fun _ => 7, .quit] :=
  not_wellBehaved_of_streamEnds ⟨by decide, trivial⟩

end WavOutPMO

end FreeAmp.Io
