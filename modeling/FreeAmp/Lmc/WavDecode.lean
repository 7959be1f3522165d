/-
  Lmc/WavDecode.lean --- the loop of `WavLMC::DecodeWork`, from `lmc/wav/src/wavlmc.cpp`,
  between the input buffer and the output buffer.

      Whole.step     no byte of the data is lost, and none is taken twice
      decode_right   what is committed is the data, as far as the loop has come, and all of it
                     when the output is told to quit

  The loop goes by a count of frames that it passes by one, and by the end of the stream,
  which it looks for before it waits for a frame.
-/
import FreeAmp.Lib.Transition
import FreeAmp.Lmc.WavChunks
import FreeAmp.Lmc.WavNumbers

namespace FreeAmp.Lmc.Wav

open FreeAmp.Base FreeAmp.Lib FreeAmp.Io

/-! ## The loop -/

/-- Where the decoder stands. -/
inductive Place where
  /-- at `m_frameCounter > m_iTotalFrames` -/
  | frameCounter
  /-- at `m_frameBytes > GetNumBytesInBuffer()` -/
  | frameBytes
  /-- at `GetNumBytesInBuffer() > 0` -/
  | numBytes
  | isEndOfStream
  /-- at `iReadSize = GetNumBytesInBuffer()` -/
  | readSize
  | beginRead (iReadSize : Nat)
  | beginWrite (iReadSize : Nat)
  | endRead (iReadSize : Nat) (pOutBuffer : Text)
  | endWrite (pOutBuffer : Text)
  /-- `PMOQuitEvent` has been accepted -/
  | quit
  /-- the loop has been left without it -/
  | left
  deriving DecidableEq

/-- The decoder between its buffers. -/
structure Decoder where
  /-- what the input has not delivered yet -/
  ahead : Text
  inBuffer : Text
  /-- `m_bEOS` of the input buffer -/
  eos : Bool
  place : Place
  counter : Nat
  /-- what has been committed to the output buffer -/
  committed : Text
  deriving DecidableEq

inductive DecodeAction where
  /-- so many bytes come into the input buffer -/
  | arrive (n : Nat)
  /-- `SetEndOfStream(true)` -/
  | endOfStream
  /-- the decoder goes on -/
  | decode
  /-- `BeginWrite` returns `kError_BufferTooSmall` -/
  | noSpace
  /-- the decoder is told to leave, or fails -/
  | leave

namespace Decoder

/-- One step of the decoder; none while `BeginRead` waits. -/
def decode (m_frameBytes : Nat) (m_iTotalFrames : Int) (s : Decoder) : Option Decoder :=
  match s.place with
  | .frameCounter =>
    some { s with place := if m_iTotalFrames < s.counter then .quit else .frameBytes }
  | .frameBytes =>
    some { s with
      place := if s.inBuffer.length < m_frameBytes then .numBytes else .beginRead m_frameBytes }
  | .numBytes =>
    some { s with
      place := if 0 < s.inBuffer.length then .isEndOfStream else .beginRead m_frameBytes }
  | .isEndOfStream =>
    some { s with place := if s.eos then .readSize else .beginRead m_frameBytes }
  | .readSize => some { s with place := .beginRead s.inBuffer.length }
  | .beginRead iReadSize =>
    if iReadSize ≤ s.inBuffer.length then some { s with place := .beginWrite iReadSize }
    else if s.eos then some { s with place := .quit }
    else none
  | .beginWrite iReadSize =>
    some { s with place := .endRead iReadSize (s.inBuffer.take iReadSize) }
  | .endRead iReadSize pOutBuffer =>
    some { s with inBuffer := s.inBuffer.drop iReadSize, place := .endWrite pOutBuffer }
  | .endWrite pOutBuffer =>
    some { s with
      committed := s.committed ++ pOutBuffer
      counter := s.counter + 1
      place := .frameCounter }
  | .quit => none
  | .left => none

/-- A step of the decoder, or of what is around it. -/
def next (m_frameBytes : Nat) (m_iTotalFrames : Int) (s : Decoder) :
    DecodeAction → Option Decoder
  | .arrive n =>
    if n ≤ s.ahead.length then
      some { s with ahead := s.ahead.drop n, inBuffer := s.inBuffer ++ s.ahead.take n }
    else none
  | .endOfStream => if s.ahead = [] then some { s with eos := true } else none
  | .decode => s.decode m_frameBytes m_iTotalFrames
  | .noSpace =>
    match s.place with
    -- `EndRead(0)`, and the inner loop again
    | .beginWrite _ => some { s with place := .frameCounter }
    | _ => none
  | .leave =>
    match s.place with
    | .quit => none
    | _ => some { s with place := .left }

/-- The decoder when the loop begins, with this stream behind the header. -/
structure Starts (stream : Text) (s : Decoder) : Prop where
  stream : s.inBuffer ++ s.ahead = stream
  eos : s.eos = true → s.ahead = []
  place : s.place = .frameCounter
  counter : s.counter = 0
  committed : s.committed = []

/-- The end of the stream does not come while `BeginRead` waits for a frame of which a part is
there. -/
def InTime (s : Decoder) (a : DecodeAction) : Prop :=
  match a, s.place with
  | .endOfStream, .beginRead iReadSize => s.inBuffer = [] ∨ iReadSize ≤ s.inBuffer.length
  | _, _ => True

instance (s : Decoder) (a : DecodeAction) : Decidable (s.InTime a) := by
  unfold InTime
  split <;> infer_instance

/-! ## What the loop keeps -/

/-- What has left the input buffer and is not committed yet. -/
def held (s : Decoder) : Text :=
  match s.place with
  | .endWrite pOutBuffer => pOutBuffer
  | _ => []

/-- A number of bytes is a frame, or all that is left. -/
def Takes (m_frameBytes n : Nat) (s : Decoder) : Prop :=
  n ≤ s.inBuffer.length ∧ (n = m_frameBytes ∨ s.eos = true ∧ n = s.inBuffer.length)

/-- What is known where the decoder stands. -/
def AtPlace (m_frameBytes : Nat) (s : Decoder) : Prop :=
  match s.place with
  | .readSize => s.eos = true
  | .beginRead n =>
    n = m_frameBytes ∧ (s.eos = true → s.inBuffer = [] ∨ n ≤ s.inBuffer.length) ∨
      s.eos = true ∧ n = s.inBuffer.length
  | .beginWrite n => s.Takes m_frameBytes n
  | .endRead n pOutBuffer => s.Takes m_frameBytes n ∧ pOutBuffer = s.inBuffer.take n
  | .endWrite pOutBuffer => pOutBuffer.length = m_frameBytes ∨ s.eos = true ∧ s.inBuffer = []
  | .quit => s.inBuffer = [] ∧ s.ahead = []
  | _ => True

/-- No byte of the data is lost, and frames are whole until the data is at its end. -/
structure Whole (m_frameBytes : Nat) (data : Text) (s : Decoder) : Prop where
  bytes : s.committed ++ (s.held ++ (s.inBuffer ++ s.ahead)) = data
  eos : s.eos = true → s.ahead = []
  frames : s.committed.length = s.counter * m_frameBytes ∨
    s.held = [] ∧ s.inBuffer = [] ∧ s.ahead = []
  place : s.AtPlace m_frameBytes

/-- As long as the decoder has not left the loop. -/
def Kept (m_frameBytes : Nat) (data : Text) (s : Decoder) : Prop :=
  Whole m_frameBytes data s ∨ s.place = .left ∧ s.committed <+: data

section Steps

variable {m_frameBytes : Nat} {m_iTotalFrames : Int} {data : Text} {s t : Decoder}

theorem Starts.whole (h : Starts data s) : Whole m_frameBytes data s := by
  obtain ⟨ahead, inBuffer, eos, place, counter, committed⟩ := s
  obtain ⟨hstream, heos, hplace, hcounter, hcommitted⟩ := h
  dsimp only at hplace hcounter hcommitted
  subst hplace hcounter hcommitted
  exact ⟨hstream, heos, .inl (Nat.zero_mul _).symm, trivial⟩

theorem Whole.committed_prefix (h : Whole m_frameBytes data s) : s.committed <+: data :=
  ⟨_, h.bytes⟩

theorem Whole.arrive (h : Whole m_frameBytes data s) {n : Nat} :
    Whole m_frameBytes data
      { s with ahead := s.ahead.drop n, inBuffer := s.inBuffer ++ s.ahead.take n } := by
  obtain ⟨ahead, inBuffer, eos, place, counter, committed⟩ := s
  obtain ⟨hbytes, heos, hframes, hplace⟩ := h
  dsimp only at heos
  by_cases hahead : ahead = []
  · subst hahead
    rw [List.drop_nil, List.take_nil, List.append_nil]
    exact ⟨hbytes, heos, hframes, hplace⟩
  · have hmore : eos = false := by
      cases eos with
      | false => rfl
      | true => exact absurd (heos rfl) hahead
    subst hmore
    refine ⟨?_, nofun, .inl (hframes.resolve_right fun hend => hahead hend.2.2), ?_⟩
    · rw [← hbytes]
      show _ ++ (_ ++ (inBuffer ++ ahead.take n ++ ahead.drop n)) = _
      rw [List.append_assoc, List.take_append_drop]
      rfl
    · have hlonger : inBuffer.length ≤ (inBuffer ++ ahead.take n).length := by
        rw [List.length_append]
        exact Nat.le_add_right _ _
      cases place with
      | readSize => exact hplace
      | beginRead k => exact .inl ⟨(hplace.resolve_right fun hlast => Bool.false_ne_true hlast.1).1, nofun⟩
      | beginWrite k =>
        exact ⟨hplace.1.trans hlonger, .inl (hplace.2.resolve_right fun hlast => Bool.false_ne_true hlast.1)⟩
      | endRead k pOutBuffer =>
        obtain ⟨⟨hle, hsize⟩, hout⟩ := hplace
        refine ⟨⟨hle.trans hlonger, .inl (hsize.resolve_right fun hlast => Bool.false_ne_true hlast.1)⟩, ?_⟩
        rw [hout]
        exact (List.take_append_of_le_length hle).symm
      | endWrite pOutBuffer => exact .inl (hplace.resolve_right fun hlast => Bool.false_ne_true hlast.1)
      | quit => exact absurd hplace.2 hahead
      | _ => trivial

theorem Whole.endOfStream (h : Whole m_frameBytes data s) (hahead : s.ahead = [])
    (htime : s.InTime .endOfStream) : Whole m_frameBytes data { s with eos := true } := by
  obtain ⟨ahead, inBuffer, eos, place, counter, committed⟩ := s
  obtain ⟨hbytes, -, hframes, hplace⟩ := h
  refine ⟨hbytes, fun _ => hahead, hframes, ?_⟩
  cases place with
  | readSize => rfl
  | beginRead k =>
    rcases hplace with ⟨hk, -⟩ | ⟨-, hk⟩
    · exact .inl ⟨hk, fun _ => htime⟩
    · exact .inr ⟨rfl, hk⟩
  | beginWrite k => exact ⟨hplace.1, hplace.2.imp_right fun hlast => ⟨rfl, hlast.2⟩⟩
  | endRead k pOutBuffer =>
    exact ⟨⟨hplace.1.1, hplace.1.2.imp_right fun hlast => ⟨rfl, hlast.2⟩⟩, hplace.2⟩
  | endWrite pOutBuffer => exact hplace.imp_right fun hlast => ⟨rfl, hlast.2⟩
  | quit => exact hplace
  | _ => trivial

/-- When more frames have been read than there are, the last one was not whole. -/
theorem Whole.at_end (h : Whole m_frameBytes data s) (hpos : 0 < m_frameBytes)
    (htotal : (data.length : Int) ≤ m_iTotalFrames * m_frameBytes)
    (hlast : m_iTotalFrames < s.counter) : s.inBuffer = [] ∧ s.ahead = [] := by
  refine (h.frames.resolve_left fun hlength => ?_).2
  have hle := h.committed_prefix.length_le
  have hmul : (m_iTotalFrames + 1) * m_frameBytes ≤ (s.counter : Int) * m_frameBytes :=
    Int.mul_le_mul_of_nonneg_right (by omega) (Int.natCast_nonneg _)
  rw [Int.add_mul, Int.one_mul] at hmul
  omega

section Frame

variable {ahead inBuffer pOutBuffer committed : Text} {eos : Bool} {counter k : Nat}

theorem Whole.endRead
    (h : Whole m_frameBytes data ⟨ahead, inBuffer, eos, .endRead k pOutBuffer, counter, committed⟩) :
    Whole m_frameBytes data
      ⟨ahead, inBuffer.drop k, eos, .endWrite pOutBuffer, counter, committed⟩ := by
  obtain ⟨hbytes, heos, hframes, ⟨hle, hsize⟩, hout⟩ := h
  dsimp only at hle hsize hout
  subst hout
  refine ⟨?_, heos, hframes.imp_right fun hend => ?_, ?_⟩
  · rw [← hbytes]
    show committed ++ (inBuffer.take k ++ (inBuffer.drop k ++ ahead)) = _
    rw [← List.append_assoc (inBuffer.take k), List.take_append_drop]
    rfl
  · obtain ⟨-, hnone, hahead⟩ := hend
    dsimp only at hnone
    subst hnone
    exact ⟨List.take_nil, List.drop_nil, hahead⟩
  · rcases hsize with rfl | ⟨hend, rfl⟩
    · exact .inl (List.length_take_of_le hle)
    · exact .inr ⟨hend, List.drop_length⟩

theorem Whole.endWrite (hpos : 0 < m_frameBytes)
    (h : Whole m_frameBytes data ⟨ahead, inBuffer, eos, .endWrite pOutBuffer, counter, committed⟩) :
    Whole m_frameBytes data
      ⟨ahead, inBuffer, eos, .frameCounter, counter + 1, committed ++ pOutBuffer⟩ := by
  obtain ⟨hbytes, heos, hframes, hplace⟩ := h
  have hassoc : committed ++ pOutBuffer ++ (inBuffer ++ ahead) = data := by
    rw [List.append_assoc]
    exact hbytes
  refine ⟨hassoc, heos, ?_, trivial⟩
  rcases hplace with hwhole | ⟨hend, hnone⟩
  · refine .inl ?_
    rcases hframes with hlength | ⟨hheld, -⟩
    · show (committed ++ pOutBuffer).length = (counter + 1) * m_frameBytes
      rw [List.length_append, hwhole, Nat.succ_mul]
      exact congrArg (· + m_frameBytes) hlength
    · have hzero : pOutBuffer.length = 0 := congrArg List.length hheld
      omega
  · exact .inr ⟨rfl, hnone, heos hend⟩

end Frame

theorem Whole.decode (h : Whole m_frameBytes data s) (hpos : 0 < m_frameBytes)
    (htotal : (data.length : Int) ≤ m_iTotalFrames * m_frameBytes)
    (hstep : s.decode m_frameBytes m_iTotalFrames = some t) : Whole m_frameBytes data t := by
  obtain ⟨ahead, inBuffer, eos, place, counter, committed⟩ := s
  obtain ⟨hbytes, heos, hframes, hplace⟩ := id h
  cases place with
  | frameCounter =>
    obtain rfl := Option.some.inj hstep
    by_cases hlast : m_iTotalFrames < counter
    · simp only [if_pos hlast]
      exact ⟨hbytes, heos, hframes, h.at_end hpos htotal hlast⟩
    · simp only [if_neg hlast]
      exact ⟨hbytes, heos, hframes, trivial⟩
  | frameBytes =>
    obtain rfl := Option.some.inj hstep
    by_cases hfew : inBuffer.length < m_frameBytes
    · simp only [if_pos hfew]
      exact ⟨hbytes, heos, hframes, trivial⟩
    · simp only [if_neg hfew]
      exact ⟨hbytes, heos, hframes, .inl ⟨rfl, fun _ => .inr (Nat.not_lt.mp hfew)⟩⟩
  | numBytes =>
    obtain rfl := Option.some.inj hstep
    by_cases hsome : 0 < inBuffer.length
    · simp only [if_pos hsome]
      exact ⟨hbytes, heos, hframes, trivial⟩
    · simp only [if_neg hsome]
      have hnone : inBuffer = [] := List.length_eq_zero_iff.mp (by omega)
      exact ⟨hbytes, heos, hframes, .inl ⟨rfl, fun _ => .inl hnone⟩⟩
  | isEndOfStream =>
    obtain rfl := Option.some.inj hstep
    cases eos with
    | true => exact ⟨hbytes, heos, hframes, rfl⟩
    | false => exact ⟨hbytes, heos, hframes, .inl ⟨rfl, nofun⟩⟩
  | readSize =>
    obtain rfl := Option.some.inj hstep
    exact ⟨hbytes, heos, hframes, .inr ⟨hplace, rfl⟩⟩
  | beginRead k =>
    unfold Decoder.decode at hstep
    dsimp only at hstep
    by_cases hthere : k ≤ inBuffer.length
    · rw [if_pos hthere] at hstep
      obtain rfl := Option.some.inj hstep
      exact ⟨hbytes, heos, hframes, hthere, hplace.imp And.left id⟩
    · rw [if_neg hthere] at hstep
      cases eos with
      | false => cases hstep
      | true =>
        obtain rfl := Option.some.inj hstep
        refine ⟨hbytes, heos, hframes, ?_, heos rfl⟩
        rcases hplace with ⟨-, hfew⟩ | ⟨-, hk⟩
        · exact (hfew rfl).resolve_right hthere
        · exact absurd (Nat.le_of_eq hk) hthere
  | beginWrite k =>
    obtain rfl := Option.some.inj hstep
    exact ⟨hbytes, heos, hframes, hplace, rfl⟩
  | endRead k pOutBuffer =>
    obtain rfl := Option.some.inj hstep
    exact h.endRead
  | endWrite pOutBuffer =>
    obtain rfl := Option.some.inj hstep
    exact h.endWrite hpos
  | quit => cases hstep
  | left => cases hstep

theorem Kept.step (h : Kept m_frameBytes data s) (hpos : 0 < m_frameBytes)
    (htotal : (data.length : Int) ≤ m_iTotalFrames * m_frameBytes) {a : DecodeAction}
    (htime : s.InTime a) (hstep : s.next m_frameBytes m_iTotalFrames a = some t) :
    Kept m_frameBytes data t := by
  cases a with
  | arrive n =>
    unfold Decoder.next at hstep
    dsimp only at hstep
    split at hstep
    · obtain rfl := Option.some.inj hstep
      exact h.imp (fun hwhole => hwhole.arrive) id
    · cases hstep
  | endOfStream =>
    unfold Decoder.next at hstep
    dsimp only at hstep
    split at hstep
    · rename_i hahead
      obtain rfl := Option.some.inj hstep
      exact h.imp (fun hwhole => hwhole.endOfStream hahead htime) id
    · cases hstep
  | decode =>
    have hdecode : s.decode m_frameBytes m_iTotalFrames = some t := hstep
    rcases h with hwhole | ⟨hleft, -⟩
    · exact .inl (hwhole.decode hpos htotal hdecode)
    · unfold Decoder.decode at hdecode
      rw [hleft] at hdecode
      cases hdecode
  | noSpace =>
    unfold Decoder.next at hstep
    dsimp only at hstep
    split at hstep
    · rename_i k hplace
      obtain rfl := Option.some.inj hstep
      rcases h with hwhole | ⟨hleft, -⟩
      · obtain ⟨hbytes, heos, hframes, -⟩ := hwhole
        unfold held at hbytes hframes
        rw [hplace] at hbytes hframes
        exact .inl ⟨hbytes, heos, hframes, trivial⟩
      · cases hplace.symm.trans hleft
    · cases hstep
  | leave =>
    have hbegin : s.committed <+: data := h.elim Whole.committed_prefix And.right
    unfold Decoder.next at hstep
    dsimp only at hstep
    split at hstep
    · cases hstep
    · obtain rfl := Option.some.inj hstep
      exact .inr ⟨rfl, hbegin⟩

theorem Kept.run (hpos : 0 < m_frameBytes)
    (htotal : (data.length : Int) ≤ m_iTotalFrames * m_frameBytes) {as : List DecodeAction}
    (hrun : Run (Guarded InTime (Steps (next m_frameBytes m_iTotalFrames))) s as t)
    (h : Kept m_frameBytes data s) : Kept m_frameBytes data t :=
  hrun.invariant (fun _ _ _ hs hst => hs.step hpos htotal hst.1 hst.2) h

theorem Kept.committed (h : Kept m_frameBytes data s) :
    s.committed <+: data ∧ (s.place = .quit → s.committed = data) := by
  rcases h with hwhole | ⟨hleft, hbegin⟩
  · refine ⟨hwhole.committed_prefix, fun hquit => ?_⟩
    have hend := hwhole.place
    have hbytes := hwhole.bytes
    unfold AtPlace at hend
    unfold held at hbytes
    rw [hquit] at hend hbytes
    rw [hend.1, hend.2] at hbytes
    exact (List.append_nil _).symm.trans hbytes
  · exact ⟨hbegin, fun hquit => by cases hleft.symm.trans hquit⟩

end Steps

end Decoder

/-! ## WAV files -/

/-- The decoder begins the loop with what `GetHeadInfo` and `GetStats` have found. -/
structure Begins (capacity : Nat) (file : Text) (m : HeadInfo) (m_iTotalFrames : Int)
    (s : Decoder) : Prop where
  head : ∃ rest, headInfo capacity file = .found m rest ∧ s.Starts rest
  stats : ∃ seconds, getStats m = some (m_iTotalFrames, seconds)

/-- Nothing stands behind the data, and its frames are counted. -/
structure Ends (w : WaveFile) : Prop where
  after : w.after = []
  even : w.data.body.length % 2 = 0
  rate : 100 ≤ w.info.waveFormat.nAvgBytesPerSec.toNat
  fits : w.data.body.length + frameOf w.info ≤ 4294967296
  counted : frameOf w.info = 1 → w.data.body.length < 2147483648

section File

variable {w : WaveFile}

theorem Ends.behind (h : Ends w) : w.behind = w.data.body := by
  unfold WaveFile.behind
  rw [h.after, h.even]
  show w.data.body ++ [] ++ [] = w.data.body
  rw [List.append_nil, List.append_nil]

theorem frameBytes_info (w : WaveFile) :
    w.info.frameBytes = w.info.waveFormat.nAvgBytesPerSec / 100 := rfl

theorem waveSize_info (w : WaveFile) : w.info.waveSize.toNat = w.data.body.length :=
  UInt32.toNat_ofNat_of_lt' w.data.body_lt

theorem Ends.enough (h : Ends w) {m_iTotalFrames : Int} {seconds : UInt32}
    (hstats : getStats w.info = some (m_iTotalFrames, seconds)) :
    (w.data.body.length : Int) ≤ m_iTotalFrames * w.info.frameBytes.toNat := by
  have hframe := toNat_frameBytes (frameBytes_info w)
  have htotal := totalFrames_eq (frameBytes_info w) h.rate
  have hrate := h.rate
  have hfits := h.fits
  have hpos : 0 < frameOf w.info := by
    unfold frameOf
    omega
  obtain ⟨seconds', hstats'⟩ := getStats_eq (frameBytes_info w) h.rate
  have hfirst := congrArg Prod.fst (Option.some.inj (hstats.symm.trans hstats'))
  dsimp only at hfirst
  rw [waveSize_info, if_neg (by omega)] at htotal
  generalize hq : (w.data.body.length + frameOf w.info - 1) / frameOf w.info = q at htotal
  have hdiv := Nat.div_add_mod (w.data.body.length + frameOf w.info - 1) (frameOf w.info)
  have hmod := Nat.mod_lt (w.data.body.length + frameOf w.info - 1) hpos
  rw [hq] at hdiv
  have hsmall : q < 2147483648 := by
    by_contra hlarge
    have hmul : frameOf w.info * 2147483648 ≤ frameOf w.info * q :=
      Nat.mul_le_mul_left _ (by omega)
    have hone := h.counted
    omega
  unfold toLong at hfirst
  rw [htotal, if_pos hsmall] at hfirst
  rw [hfirst, hframe]
  have hle : w.data.body.length ≤ frameOf w.info * q := by omega
  rw [Nat.mul_comm] at hle
  exact_mod_cast hle

end File

/-- What is committed is the beginning of the data, and all of it when the output has been told
to quit, if nothing follows the data and the end of the stream comes in time. -/
theorem decode_right {capacity : Nat} {w : WaveFile} (hends : Ends w)
    (hread : headInfo capacity w.bytes = .found w.info w.behind) {m : HeadInfo}
    {m_iTotalFrames : Int} {s t : Decoder} (hbegins : Begins capacity w.bytes m m_iTotalFrames s)
    {as : List DecodeAction}
    (hrun : Run (Guarded Decoder.InTime (Steps (Decoder.next m.frameBytes.toNat m_iTotalFrames)))
      s as t) :
    t.committed <+: w.data.body ∧ (t.place = .quit → t.committed = w.data.body) := by
  obtain ⟨rest, hhead, hstarts⟩ := hbegins.head
  obtain ⟨seconds, hstats⟩ := hbegins.stats
  obtain ⟨rfl, rfl⟩ := Found.found.inj (hhead.symm.trans hread)
  have hrate := hends.rate
  have hpos : 0 < w.info.frameBytes.toNat := by
    rw [toNat_frameBytes (frameBytes_info w)]
    unfold frameOf
    omega
  rw [hends.behind] at hstarts
  exact (Decoder.Kept.run hpos (hends.enough hstats) hrun (.inl hstarts.whole)).committed

/-- Two frames of two bytes. -/
def fourBytes : WaveFile where
  pre := []
  fmt := ⟨bytes "fmt ", [1, 0, 1, 0, 100, 0, 0, 0, 200, 0, 0, 0, 2, 0, 16, 0], by decide, by decide⟩
  post := []
  data := ⟨bytes "data", [1, 2, 3, 4], by decide, by decide⟩
  after := []
  fmt_id := rfl
  fmt_size := by decide
  data_id := rfl
  others := by decide
  size := by decide

/-- The decoder with all of a stream ahead of it. -/
def atStart (stream : Text) : Decoder := ⟨stream, [], false, .frameCounter, 0, []⟩

theorem starts_atStart (stream : Text) : (atStart stream).Starts stream :=
  ⟨rfl, nofun, rfl, rfl, rfl⟩

/-- A number of frames that are there, one after the other. -/
def decodeFrames (n : Nat) : List DecodeAction := List.replicate (6 * n) .decode

theorem headInfo_fourBytes :
    headInfo 64 fourBytes.bytes = .found fourBytes.info fourBytes.behind :=
  headInfo_reads (by decide) (plain_of_even (by decide) (by decide)) rfl (by decide) rfl

theorem begins_fourBytes :
    Begins 64 fourBytes.bytes fourBytes.info 2 (atStart fourBytes.behind) where
  head := ⟨_, headInfo_fourBytes, starts_atStart _⟩
  stats := ⟨0, by decide⟩

/-- Nothing stands behind the data. -/
theorem decode_right_fourBytes :
    [1, 2, 3, 4] <+: fourBytes.data.body ∧
      (Place.quit = .quit → [1, 2, 3, 4] = fourBytes.data.body) :=
  decode_right (w := fourBytes) (t := ⟨[], [], true, .quit, 2, [1, 2, 3, 4]⟩)
    { after := rfl
      even := by decide
      rate := by decide
      fits := by decide
      counted := by decide }
    headInfo_fourBytes begins_fourBytes
    -- the third time around there is nothing to be read
    (Run.of_guarded_exec (by decide : exec _ _ ([.arrive 4, .endOfStream] ++ decodeFrames 2 ++
      [.decode, .decode, .decode, .decode]) = _))

/-- The same with a chunk behind the data. -/
def trailingFile : WaveFile :=
  { fourBytes with
    after := [⟨bytes "LIST", [5, 6], by decide, by decide⟩]
    size := by decide }

theorem headInfo_trailingFile :
    headInfo 64 trailingFile.bytes = .found trailingFile.info trailingFile.behind :=
  headInfo_reads (by decide) (plain_of_even (by decide) (by decide)) rfl (by decide) rfl

theorem begins_trailingFile :
    Begins 64 trailingFile.bytes trailingFile.info 2 (atStart trailingFile.behind) where
  head := ⟨_, headInfo_trailingFile, starts_atStart _⟩
  stats := ⟨0, by decide⟩

theorem run_trailingFile :
    Run (Steps (Decoder.next trailingFile.info.frameBytes.toNat 2)) (atStart trailingFile.behind)
      ([.arrive 14, .endOfStream] ++ decodeFrames 3 ++ [.decode])
      ⟨[], [83, 84, 2, 0, 0, 0, 5, 6], true, .quit, 3, [1, 2, 3, 4, 76, 73]⟩ :=
  Run.of_exec (by decide)

/-- The first bytes of the chunk behind the data are committed. -/
theorem decode_right_fails : ¬ ∀ (capacity : Nat) (w : WaveFile) (m : HeadInfo)
    (m_iTotalFrames : Int) (s t : Decoder) (as : List DecodeAction),
    headInfo capacity w.bytes = .found w.info w.behind →
      Begins capacity w.bytes m m_iTotalFrames s →
        Run (Steps (Decoder.next m.frameBytes.toNat m_iTotalFrames)) s as t →
          t.place = .quit → t.committed = w.data.body := by
  intro hall
  have hdata := hall 64 trailingFile _ _ _ _ _ headInfo_trailingFile begins_trailingFile
    run_trailingFile rfl
  exact absurd hdata (by decide)

end FreeAmp.Lmc.Wav
