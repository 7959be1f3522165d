/-
  Io/HttpInputRun.lean --- what `HttpInput` puts into the `PullBuffer` of a stream that
  has metadata in it, from `io/http/httpinput.cpp`.

  The thread counts the bytes up to the next metadata in `m_uBytesReceived`.  It takes the
  length and the block with one `recv` each and looks at no result, and it asks for 1024
  bytes after them, however short the interval is.  `demuxes` says what a `recv` may come
  to for the stream to be taken apart as `demux` does it:

      splitHeader_short, splitHeader_found   where the header ends
      streamTitle_block                      the title of one block
      receive_first ... receive_audio        one `recv`, by the place of the thread
      demultiplexes                          every run
-/
import FreeAmp.Io.HttpInput
import FreeAmp.Lib.Demux

namespace FreeAmp.Io

open FreeAmp.Lib FreeAmp.Base

/-! ## The stream -/

/-- The header of a stream: it ends with the first empty line and has the interval. -/
structure IcyHeader (h : Text) (m : Nat) : Prop where
  nulFree : NulFree h
  ends : (strstr h "\r\n\r\n" = some (h.length - 4) ∧ strstr h "\n\n" = none) ∨
    (strstr h "\r\n\r\n" = none ∧ strstr h "\n\n" = some (h.length - 2))
  interval : readMetaDataInterval h.dropLast = some (m : Int)
  positive : 0 < m

/-- The length of a metadata block, by the byte before it. -/
def metaDataSize (c : UInt8) : Nat := 16 * c.toNat

/-- The stream, of which so much has come, without the header. -/
def streamed (h : Text) (m : Nat) (received : Text) : Demux UInt8 :=
  demux m metaDataSize (received.drop h.length)

/-- The title of a metadata block. -/
def blockTitle (block : Text) : Option Text := streamTitle (block ++ [0])

/-! ## The condition -/

/-- The lines of the header end alike: no other empty line is found behind its own. -/
def firstEmptyLine (buffer : Text) : Bool :=
  match strstr buffer "\r\n\r\n", strstr buffer "\n\n" with
  | some pEnd, some pEnd' => decide (pEnd < pEnd')
  | _, _ => true

/-- No more has come behind the header than the data before the first metadata. -/
def leftoverFits (buffer : Text) : Bool :=
  match splitHeader buffer [] with
  | some (header, leftover) =>
    decide ((leftover.length : Int) ≤ (readMetaDataInterval header).getD 0)
  | none => true

/-- The end of the header is found where it is, whatever stands behind what has come, and no
metadata have come with the header. -/
def headerFound (buffer behind : Text) : Bool :=
  splitHeader buffer behind == splitHeader buffer [] && firstEmptyLine buffer &&
    leftoverFits buffer

/-- The block does not end with the first `StreamTitle=` in it. -/
def titleInside (block : Text) : Bool :=
  match strstr block "StreamTitle=" with
  | some pPtr => pPtr + 12 != block.length
  | none => true

/-- What `recv` comes to does not bring the thread out of step with the stream. -/
def HttpInput.demuxes (s : HttpInput) : InputEvent → Bool
  | .recv r behind header saved =>
    match s.place with
    -- the status is read from the first `recv` alone
    | .first =>
      r.isError ||
        statusCode (cStr (r.bytes ++ behind)) == some 200 && headerFound r.bytes header
    | .header buffer => r.isError || headerFound (buffer ++ r.bytes) header
    | .length =>
      match r with
      | .data bytes => bytes.all fun c => decide (c.toNat < 128)
      | .closed => decide (s.numBlocks ≤ 0)
      | _ => false
    | .block => r.bytes.length == s.blockSize && titleInside r.bytes
    -- after metadata up to 1024 bytes are asked for, whatever the interval is
    | .audio _ =>
      decide (s.bytesReceived + r.bytes.length ≤ s.metaDataInterval) &&
        (saved || r.bytes.isEmpty)
    | _ => true
  | _ => true

/-! ## The header -/

section Patterns

variable {p : String}

theorem strstr_append {s : Text} {k : Nat} (hs : NulFree s) (h : strstr s p = some k)
    (t : Text) : strstr (s ++ t) p = some k := by
  unfold strstr at h ⊢
  rw [hs.cStr_eq] at h
  rw [cStr_append hs]
  exact firstPlace_append h _

theorem strstr_length {s : Text} {k : Nat} (hp : bytes p ≠ []) (h : strstr s p = some k) :
    k + (bytes p).length ≤ s.length := by
  have hle := firstPlace_length h hp
  have hcut : (cStr s).length ≤ s.length := (List.takeWhile_prefix _ : cStr s <+: s).length_le
  omega

theorem strstr_spec {s : Text} {k : Nat} (h : strstr s p = some k) : bytes p <+: s.drop k := by
  have hfound := firstPlace_spec h
  have hcut : cStr s <+: s := List.takeWhile_prefix _
  exact hfound.trans (hcut.drop k)

/-- What ends no sooner than the header is not found in part of the header. -/
theorem strstr_short {h buffer : Text} (hp : bytes p ≠ []) (hnul : NulFree h)
    (hbuffer : buffer <+: h) (hlt : buffer.length < h.length)
    (hat : ∀ k, strstr h p = some k → h.length ≤ k + (bytes p).length) :
    strstr buffer p = none := by
  rw [Option.eq_none_iff_forall_ne_some]
  intro k hk
  have hlength := strstr_length hp hk
  obtain ⟨t, rfl⟩ := hbuffer
  have hnul' : NulFree buffer := hnul.of_subset (List.subset_append_left buffer t)
  have hle := hat k (strstr_append hnul' hk t)
  omega

end Patterns

namespace IcyHeader

variable {h : Text} {m : Nat}

theorem splitHeader_short (hh : IcyHeader h m) {buffer : Text} (hbuffer : buffer <+: h)
    (hlt : buffer.length < h.length) : splitHeader buffer [] = none := by
  have hcrlf : strstr buffer "\r\n\r\n" = none := by
    refine strstr_short (by decide) hh.nulFree hbuffer hlt fun k hk => ?_
    rcases hh.ends with ⟨hend, -⟩ | ⟨hnone, -⟩
    · rw [hend, Option.some.injEq] at hk
      have hlen : (bytes "\r\n\r\n").length = 4 := rfl
      omega
    · rw [hnone] at hk
      exact absurd hk nofun
  have hlf : strstr buffer "\n\n" = none := by
    refine strstr_short (by decide) hh.nulFree hbuffer hlt fun k hk => ?_
    rcases hh.ends with ⟨-, hnone⟩ | ⟨-, hend⟩
    · rw [hnone] at hk
      exact absurd hk nofun
    · rw [hend, Option.some.injEq] at hk
      have hlen : (bytes "\n\n").length = 2 := rfl
      omega
  unfold splitHeader
  rw [List.append_nil, hcrlf, hlf]

/-- An empty line that the header ends with is found before any other. -/
theorem strstr_crlf_none {rest : Text} (hnul : NulFree h)
    (hnone : strstr h "\r\n\r\n" = none) (hend : strstr h "\n\n" = some (h.length - 2))
    (hfirst : firstEmptyLine (h ++ rest) = true) : strstr (h ++ rest) "\r\n\r\n" = none := by
  have hend' := strstr_append hnul hend rest
  rw [Option.eq_none_iff_forall_ne_some]
  intro k hk
  unfold firstEmptyLine at hfirst
  rw [hk, hend'] at hfirst
  have hlt : k < h.length - 2 := of_decide_eq_true hfirst
  have hlen := strstr_length (by decide) hend
  have htwo : (bytes "\n\n").length = 2 := rfl
  have hcrlf := strstr_spec hk
  have hlf := strstr_spec hend
  by_cases hin : k + 4 ≤ h.length
  · rw [List.drop_append_of_le_length (by omega)] at hcrlf
    have hshort : bytes "\r\n\r\n" <+: h.drop k := by
      refine List.prefix_of_prefix_length_le hcrlf (List.prefix_append _ _) ?_
      have hfour : (bytes "\r\n\r\n").length = 4 := rfl
      rw [hfour, List.length_drop]
      omega
    unfold strstr at hnone
    rw [hnul.cStr_eq, firstPlace_eq_none_iff] at hnone
    exact hnone (hshort.isInfix.trans (List.drop_suffix k h).isInfix)
  · -- the third byte of the one would be the second of the other
    have hk' : k + 2 = h.length - 2 + 1 := by omega
    have hreturn := List.prefix_iff_getElem?.mp hcrlf 2 (by decide)
    have hnewline := List.prefix_iff_getElem?.mp hlf 1 (by decide)
    rw [List.getElem?_drop, hk', List.getElem?_append_left (by omega)] at hreturn
    rw [List.getElem?_drop, hreturn] at hnewline
    exact absurd hnewline (by decide)

theorem splitHeader_found (hh : IcyHeader h m) {rest : Text}
    (hfirst : firstEmptyLine (h ++ rest) = true) :
    splitHeader (h ++ rest) [] = some (h.dropLast, rest) := by
  unfold splitHeader
  rw [List.append_nil]
  rcases hh.ends with ⟨hend, -⟩ | ⟨hnone, hend⟩
  · have hlen := strstr_length (by decide) hend
    have hfour : (bytes "\r\n\r\n").length = 4 := rfl
    have htake : h.length - 4 + 3 = h.length - 1 := by omega
    have hdrop : h.length - 4 + 4 = h.length := by omega
    rw [strstr_append hh.nulFree hend rest]
    simp only [htake, hdrop, List.drop_left]
    rw [List.take_append_of_le_length (Nat.sub_le _ _), ← List.dropLast_eq_take]
  · have hlen := strstr_length (by decide) hend
    have htwo : (bytes "\n\n").length = 2 := rfl
    have htake : h.length - 2 + 1 = h.length - 1 := by omega
    have hdrop : h.length - 2 + 2 = h.length := by omega
    rw [strstr_crlf_none hh.nulFree hnone hend hfirst, strstr_append hh.nulFree hend rest]
    simp only [htake, hdrop, List.drop_left]
    rw [List.take_append_of_le_length (Nat.sub_le _ _), ← List.dropLast_eq_take]

end IcyHeader

/-! ## The title of a block -/

/-- The title is read from the block alone, whatever stands behind it. -/
theorem streamTitle_block {block : Text} (hinside : titleInside block = true) (behind : Text) :
    streamTitle (block ++ 0 :: behind) = blockTitle block := by
  have hnul : ∀ t, strstr (block ++ 0 :: t) "StreamTitle=" = strstr block "StreamTitle=" := by
    intro t
    unfold strstr
    rw [cStr_append_nul]
  unfold blockTitle streamTitle
  rw [hnul behind, hnul []]
  unfold titleInside at hinside
  cases hfound : strstr block "StreamTitle=" with
  | none => rfl
  | some pPtr =>
    have hlen := strstr_length (by decide) hfound
    have htwelve : (bytes "StreamTitle=").length = 12 := rfl
    rw [hfound] at hinside
    have hne : pPtr + 12 ≠ block.length := by simpa using hinside
    have hdrop : ∀ t, (block ++ t).drop (pPtr + 13) = block.drop (pPtr + 13) ++ t :=
      fun t => List.drop_append_of_le_length (by omega)
    simp only [hdrop, cStr_append_nul]

/-! ## What the thread has made of the stream -/

section Streamed

variable {h : Text} {m : Nat}

theorem streamed_short {received : Text} (hle : received.length ≤ h.length) :
    streamed h m received = ⟨.data m, [], []⟩ := by
  unfold streamed
  rw [List.drop_eq_nil_of_le hle]
  rfl

theorem streamed_append {received : Text} (hle : h.length ≤ received.length) (t : Text) :
    streamed h m (received ++ t) = (streamed h m received).feed m metaDataSize t := by
  unfold streamed
  rw [List.drop_append_of_le_length hle, demux_append]

theorem streamed_leftover {rest : Text} (hle : rest.length ≤ m) :
    streamed h m (h ++ rest) = ⟨.data (m - rest.length), rest, []⟩ := by
  rw [streamed_append (Nat.le_refl _), streamed_short (Nat.le_refl _)]
  rw [Demux.feed_data m metaDataSize ⟨.data m, [], []⟩ rfl hle]
  rfl

end Streamed

namespace HttpInput

/-- The header has come, and `m_uBytesReceived` says how far it is to the next metadata. -/
structure Counts (h : Text) (m : Nat) (s : HttpInput) : Prop where
  interval : s.metaDataInterval = m
  header : h.length ≤ s.received.length
  nonneg : 0 ≤ s.bytesReceived
  le : s.bytesReceived ≤ m
  slot : s.closed = false →
    (streamed h m s.received).slot = .data (m - s.bytesReceived.toNat)

/-- A block is to come, of `cNumBlocks * 16` bytes. -/
structure Expects (h : Text) (m : Nat) (s : HttpInput) : Prop where
  interval : s.metaDataInterval = m
  header : h.length ≤ s.received.length
  positive : 0 < s.numBlocks
  slot : s.closed = false → (streamed h m s.received).slot = .block (s.blockSize - 1) []

/-- The thread is where the stream is. -/
def Placed (h : Text) (m : Nat) (s : HttpInput) : Prop :=
  match s.place with
  | .first => s.received = [] ∧ s.bytesReceived = 0
  | .header buffer => s.received = buffer ∧ buffer.length < h.length ∧ s.bytesReceived = 0
  | .poll => s.Counts h m
  | .length => s.Counts h m ∧ s.bytesReceived = m
  | .block => s.Expects h m
  | .audio iMaxReadBytes => s.Counts h m ∧ 0 ≤ iMaxReadBytes ∧ iMaxReadBytes ≤ 1024
  | .ended => True
  | .overrun => False

/-- The thread has taken apart what has come. -/
structure Tracks (h : Text) (m : Nat) (s : HttpInput) : Prop where
  output : s.output = (streamed h m s.received).data
  titles : s.titles = (streamed h m s.received).blocks.filterMap blockTitle
  placed : s.Placed h m

section Steps

variable {h : Text} {m : Nat} {s : HttpInput}

theorem tracks_start (numBlocks : Int) : (start numBlocks).Tracks h m := by
  have hstart : streamed h m [] = ⟨.data m, [], []⟩ := streamed_short (Nat.zero_le _)
  refine ⟨?_, ?_, rfl, rfl⟩
  · rw [start, hstart]
  · rw [start, hstart]
    rfl

theorem Tracks.ended (hs : s.Tracks h m) : { s with place := .ended }.Tracks h m :=
  ⟨hs.output, hs.titles, trivial⟩

theorem Tracks.turn (hs : s.Tracks h m) (hm : 0 < m) (hplace : s.place = .poll) :
    s.turn.Tracks h m := by
  have hcounts : s.Counts h m := by
    have hplaced := hs.placed
    unfold Placed at hplaced
    rw [hplace] at hplaced
    exact hplaced
  have hinterval := hcounts.interval
  have hle := hcounts.le
  unfold HttpInput.turn
  rw [if_pos (by omega)]
  refine ⟨hs.output, hs.titles, ?_⟩
  unfold Placed
  by_cases hzero : min 1024 (s.metaDataInterval - s.bytesReceived) = 0
  · simp only [if_pos hzero]
    exact ⟨⟨hinterval, hcounts.header, hcounts.nonneg, hle, hcounts.slot⟩, by omega⟩
  · simp only [if_neg hzero]
    exact ⟨⟨hinterval, hcounts.header, hcounts.nonneg, hle, hcounts.slot⟩, by omega, by omega⟩

theorem comes_data {bytes : Text} (hcomes : s.comes (.data bytes) = true) :
    s.closed = false ∧ bytes ≠ [] := by
  unfold comes at hcomes
  cases hasked : s.asked with
  | none => simp [hasked] at hcomes
  | some n => simp_all

theorem comes_closed {r : Recv} (hcomes : s.comes r = true) (hclosed : s.closed = true) :
    r.bytes = [] := by
  cases r with
  | data bytes =>
    rw [(comes_data hcomes).1] at hclosed
    exact absurd hclosed nofun
  | _ => rfl

theorem comes_le {r : Recv} {n : Int} (hcomes : s.comes r = true) (hasked : s.asked = some n)
    (hnonneg : 0 ≤ n) (hle : n ≤ 1024) : (r.bytes.length : Int) ≤ n := by
  unfold comes at hcomes
  rw [hasked] at hcomes
  cases r with
  | data bytes =>
    have hsize : (UInt32.ofInt n).toNat = n.toNat := by
      unfold UInt32.ofInt
      rw [UInt32.toNat_ofNat']
      omega
    simp only [hsize, Bool.and_eq_true, decide_eq_true_eq] at hcomes
    change (bytes.length : Int) ≤ n
    omega
  | _ => simpa [Recv.bytes] using hnonneg

theorem parse_tracks (hh : IcyHeader h m) {buffer behind stream : Text} {saved : Bool}
    (hbuffer : buffer <+: h ++ stream) (hfound : headerFound buffer behind = true)
    (houtput : s.output = []) (htitles : s.titles = []) (hcount : s.bytesReceived = 0)
    (closed : Bool) :
    { s.parse buffer behind saved with received := buffer, closed := closed }.Tracks h m := by
  unfold headerFound at hfound
  simp only [Bool.and_eq_true, beq_iff_eq] at hfound
  obtain ⟨⟨hbehind, hfirst⟩, hfits⟩ := hfound
  unfold parse
  rw [hbehind]
  by_cases hlt : buffer.length < h.length
  · have hpart : buffer <+: h :=
      List.prefix_of_prefix_length_le hbuffer (List.prefix_append h stream) (Nat.le_of_lt hlt)
    have hshort := streamed_short (m := m) (Nat.le_of_lt hlt)
    rw [hh.splitHeader_short hpart hlt]
    refine ⟨?_, ?_, rfl, hlt, hcount⟩
    · simp only [hshort, houtput]
    · simp only [hshort, htitles, List.filterMap_nil]
  · have hwhole : h <+: buffer :=
      List.prefix_of_prefix_length_le (List.prefix_append h stream) hbuffer
        (Nat.le_of_not_lt hlt)
    obtain ⟨rest, rfl⟩ := hwhole
    have hsplit := hh.splitHeader_found hfirst
    unfold leftoverFits at hfits
    rw [hsplit] at hfits ⊢
    simp only [hh.interval, Option.getD_some, decide_eq_true_eq, Int.ofNat_le] at hfits
    have hstreamed := streamed_leftover (h := h) hfits
    have hbytes : (if rest = [] then s.bytesReceived else (rest.length : Int)) = rest.length := by
      split
      · rename_i hnil
        rw [hcount, hnil]
        rfl
      · rfl
    refine ⟨?_, ?_, ?_⟩
    · simp only [opened, hstreamed, houtput, List.nil_append]
    · simp only [opened, hstreamed, htitles, List.filterMap_nil]
    · unfold Placed
      by_cases hdisk : rest ≠ [] ∧ saved = false
      · simp only [opened, if_pos hdisk]
      · simp only [opened, if_neg hdisk, hh.interval, hbytes, Option.getD_some]
        refine ⟨rfl, ?_, Int.natCast_nonneg _, Int.ofNat_le.mpr hfits, fun _ => ?_⟩
        · rw [List.length_append]
          exact Nat.le_add_right _ _
        · simp only [hstreamed, Int.toNat_natCast]

theorem bytes_of_isError {r : Recv} (herror : r.isError = true) : r.bytes = [] := by
  cases r with
  | data bytes => exact absurd herror nofun
  | _ => rfl

theorem Tracks.failed (hs : s.Tracks h m) {r : Recv} (hnone : r.bytes = []) (closed : Bool) :
    { s with place := .ended, received := s.received ++ r.bytes, closed := closed }.Tracks h m := by
  rw [hnone, List.append_nil]
  exact ⟨hs.output, hs.titles, trivial⟩

/-- Before the header is complete nothing has been put anywhere. -/
theorem Tracks.nothing (hs : s.Tracks h m) (hle : s.received.length ≤ h.length) :
    s.output = [] ∧ s.titles = [] := by
  have hshort : streamed h m s.received = ⟨.data m, [], []⟩ := streamed_short hle
  have houtput := hs.output
  have htitles := hs.titles
  rw [hshort] at houtput htitles
  exact ⟨houtput, htitles⟩

section Received

variable {stream : Text} {r : Recv} {behind header : Text} {saved : Bool}

theorem receive_first (hh : IcyHeader h m) (hs : s.Tracks h m) (hplace : s.place = .first)
    (hstream : s.received ++ r.bytes <+: h ++ stream)
    (hdemuxes : s.demuxes (.recv r behind header saved) = true) (closed : Bool) :
    { s.receive r behind header saved with
      received := s.received ++ r.bytes, closed := closed }.Tracks h m := by
  have hplaced := hs.placed
  unfold Placed at hplaced
  rw [hplace] at hplaced
  obtain ⟨hreceived, hcount⟩ := hplaced
  obtain ⟨houtput, htitles⟩ := hs.nothing (by rw [hreceived]; exact Nat.zero_le _)
  unfold receive
  unfold demuxes at hdemuxes
  simp only [hplace] at hdemuxes ⊢
  by_cases herror : r.isError = true
  · rw [if_pos herror]
    exact hs.failed (bytes_of_isError herror) closed
  · simp only [herror, Bool.false_or, Bool.and_eq_true, beq_iff_eq] at hdemuxes
    rw [if_neg herror]
    unfold respond
    rw [hdemuxes.1]
    rw [hreceived, List.nil_append] at hstream ⊢
    exact parse_tracks hh hstream hdemuxes.2 houtput htitles hcount closed

theorem receive_header (hh : IcyHeader h m) (hs : s.Tracks h m) {buffer : Text}
    (hplace : s.place = .header buffer) (hstream : s.received ++ r.bytes <+: h ++ stream)
    (hdemuxes : s.demuxes (.recv r behind header saved) = true) (closed : Bool) :
    { s.receive r behind header saved with
      received := s.received ++ r.bytes, closed := closed }.Tracks h m := by
  have hplaced := hs.placed
  unfold Placed at hplaced
  rw [hplace] at hplaced
  obtain ⟨hreceived, hlt, hcount⟩ := hplaced
  obtain ⟨houtput, htitles⟩ := hs.nothing (by rw [hreceived]; exact Nat.le_of_lt hlt)
  unfold receive
  unfold demuxes at hdemuxes
  simp only [hplace] at hdemuxes ⊢
  by_cases herror : r.isError = true
  · rw [if_pos herror]
    exact hs.failed (bytes_of_isError herror) closed
  · simp only [herror, Bool.false_or] at hdemuxes
    rw [if_neg herror]
    rw [hreceived] at hstream ⊢
    exact parse_tracks hh hstream hdemuxes houtput htitles hcount closed

/-- The metadata are done with, and the data that follow are counted from 0. -/
theorem resume_tracks (hinterval : s.metaDataInterval = m) (hheader : h.length ≤ s.received.length)
    (houtput : s.output = (streamed h m s.received).data)
    (htitles : s.titles = (streamed h m s.received).blocks.filterMap blockTitle)
    (hslot : s.closed = false → (streamed h m s.received).slot = .data m) :
    s.resume.Tracks h m := by
  refine ⟨houtput, htitles, ⟨hinterval, hheader, Int.le_refl 0, Int.natCast_nonneg m, ?_⟩, ?_, ?_⟩
  · exact hslot
  · exact Int.natCast_nonneg 1024
  · exact Int.le_refl 1024

theorem receive_length (hs : s.Tracks h m) (hplace : s.place = .length)
    (hcomes : s.comes r = true)
    (hdemuxes : s.demuxes (.recv r behind header saved) = true) :
    { s.receive r behind header saved with
      received := s.received ++ r.bytes, closed := s.closed || r == Recv.closed }.Tracks h m := by
  have hplaced := hs.placed
  unfold Placed at hplaced
  rw [hplace] at hplaced
  obtain ⟨hcounts, hfull⟩ := hplaced
  have hasked : s.asked = some 1 := by
    unfold asked
    rw [hplace]
  have hone := comes_le hcomes hasked (by decide) (by decide)
  unfold receive
  unfold demuxes at hdemuxes
  simp only [hplace] at hdemuxes ⊢
  cases r with
  | data bytes =>
    obtain ⟨hopen, hne⟩ := comes_data hcomes
    obtain ⟨c, rfl⟩ : ∃ c, bytes = [c] := by
      have hpos := List.length_pos_iff.mpr hne
      exact List.length_eq_one_iff.mp (by simp only [Recv.bytes] at hone; omega)
    have hsmall : c.toNat < 128 := by simpa using hdemuxes
    have hchar : toChar c = c.toNat := if_pos hsmall
    have hslot := hcounts.slot hopen
    rw [hfull, Int.toNat_natCast, Nat.sub_self] at hslot
    have happend := streamed_append (m := m) hcounts.header [c]
    have hlonger : h.length ≤ (s.received ++ [c]).length := by
      rw [List.length_append]
      exact Nat.le_add_right_of_le hcounts.header
    by_cases hzero : c.toNat = 0
    · have hsize : metaDataSize c = 0 := by rw [metaDataSize, hzero]
      rw [Demux.feed_empty m metaDataSize hsize _ hslot] at happend
      have hnot : ¬ 0 < toChar c := by omega
      have hempty : s.receiveLength (.data [c]) = { s with numBlocks := toChar c }.resume :=
        if_neg hnot
      rw [hempty]
      refine resume_tracks (s := { s with
        numBlocks := toChar c, received := s.received ++ [c], closed := s.closed || false })
        hcounts.interval hlonger ?_ ?_ ?_
      · simp only [happend, hs.output]
      · simp only [happend, hs.titles, List.filterMap_append]
        exact (List.append_nil _).symm
      · intro _
        simp only [happend]
    · have hsize : metaDataSize c = (16 * c.toNat - 1) + 1 := by
        rw [metaDataSize]
        omega
      rw [Demux.feed_length m metaDataSize hsize _ hslot] at happend
      have hpos : 0 < toChar c := by omega
      have hblock : s.receiveLength (.data [c]) =
          { s with numBlocks := toChar c, place := .block } := if_pos hpos
      rw [hblock]
      refine ⟨?_, ?_, hcounts.interval, hlonger, hpos, fun _ => ?_⟩
      · simp only [Recv.bytes, happend, hs.output]
      · simp only [Recv.bytes, happend, hs.titles]
      · have hsixteen : (toChar c * 16).toNat = 16 * c.toNat := by omega
        simp only [Recv.bytes, happend, blockSize, hsixteen]
  | closed =>
    have hnone : ¬ 0 < s.numBlocks := by simpa using hdemuxes
    have hempty : s.receiveLength .closed = { s with numBlocks := s.numBlocks }.resume :=
      if_neg hnone
    simp only [hempty, Recv.bytes, List.append_nil]
    refine resume_tracks (s := { s with closed := s.closed || true }) hcounts.interval hcounts.header hs.output
      hs.titles ?_
    intro hopen
    exact absurd hopen (by simp)
  | wouldBlock => exact absurd hdemuxes nofun
  | failed => exact absurd hdemuxes nofun

theorem receive_block (hs : s.Tracks h m) (hplace : s.place = .block) (hcomes : s.comes r = true)
    (hdemuxes : s.demuxes (.recv r behind header saved) = true) (closed : Bool) :
    { s.receive r behind header saved with
      received := s.received ++ r.bytes, closed := closed }.Tracks h m := by
  have hplaced := hs.placed
  unfold Placed at hplaced
  rw [hplace] at hplaced
  have hpositive := hplaced.positive
  unfold receive
  unfold demuxes at hdemuxes
  simp only [hplace, Bool.and_eq_true, beq_iff_eq] at hdemuxes ⊢
  obtain ⟨hlen, hinside⟩ := hdemuxes
  have hsize : r.bytes.length = s.blockSize - 1 + 1 := by
    unfold blockSize at hlen ⊢
    omega
  have hopen : s.closed = false := by
    rw [← Bool.not_eq_true]
    intro hclosed
    rw [comes_closed hcomes hclosed] at hsize
    exact absurd hsize nofun
  have happend := streamed_append (m := m) hplaced.header r.bytes
  rw [Demux.feed_block m metaDataSize _ (hplaced.slot hopen) hsize, List.nil_append] at happend
  have hlonger : h.length ≤ (s.received ++ r.bytes).length := by
    rw [List.length_append]
    exact Nat.le_add_right_of_le hplaced.header
  have htitle : streamTitle ((r.bytes ++ behind).take s.blockSize ++
      0 :: (r.bytes ++ behind).drop (s.blockSize + 1)) = blockTitle r.bytes := by
    rw [← hlen, List.take_left, streamTitle_block hinside]
  unfold receiveBlock
  simp only [htitle]
  refine resume_tracks (s := { s with
    titles := s.titles ++ (blockTitle r.bytes).toList, received := s.received ++ r.bytes,
    closed := closed }) hplaced.interval hlonger ?_ ?_ ?_
  · simp only [happend, hs.output]
  · simp only [happend, hs.titles, List.filterMap_append]
    cases htitle' : blockTitle r.bytes <;> simp [htitle']
  · intro _
    simp only [happend]

theorem receive_audio (hs : s.Tracks h m) {iMaxReadBytes : Int}
    (hplace : s.place = .audio iMaxReadBytes) (hcomes : s.comes r = true)
    (hdemuxes : s.demuxes (.recv r behind header saved) = true) :
    { s.receive r behind header saved with
      received := s.received ++ r.bytes, closed := s.closed || r == Recv.closed }.Tracks h m := by
  have hplaced := hs.placed
  unfold Placed at hplaced
  rw [hplace] at hplaced
  obtain ⟨hcounts, hnonneg, hmax⟩ := hplaced
  have hinterval := hcounts.interval
  have hasked : s.asked = some iMaxReadBytes := by
    unfold asked
    rw [hplace]
  have hgranted := comes_le hcomes hasked hnonneg hmax
  unfold receive
  unfold demuxes at hdemuxes
  simp only [hplace, Bool.and_eq_true, Bool.or_eq_true, decide_eq_true_eq] at hdemuxes ⊢
  obtain ⟨hfits, hdisk⟩ := hdemuxes
  by_cases hfailed : r = .failed
  · have hended : s.receiveAudio r saved = { s with place := .ended } := if_pos hfailed
    rw [hended]
    exact hs.failed (by rw [hfailed]; rfl) _
  · have hroom : ¬ 1024 < r.bytes.length := by omega
    have hkept : ¬ (r.bytes ≠ [] ∧ saved = false) := by
      rintro ⟨hne, hfalse⟩
      rcases hdisk with h' | h'
      · rw [hfalse] at h'
        exact absurd h' nofun
      · exact hne (List.isEmpty_iff.mp h')
    have hdata : s.receiveAudio r saved = { s with
        bytesReceived := s.bytesReceived + r.bytes.length
        output := s.output ++ r.bytes
        place := .poll } := by
      unfold receiveAudio
      rw [if_neg hfailed, if_neg hroom, if_neg hkept]
    rw [hdata]
    have happend := streamed_append (m := m) hcounts.header r.bytes
    have hlonger : h.length ≤ (s.received ++ r.bytes).length := by
      rw [List.length_append]
      exact Nat.le_add_right_of_le hcounts.header
    have hcounted := hcounts.nonneg
    have hsum : 0 ≤ s.bytesReceived + r.bytes.length := by omega
    have hsum' : s.bytesReceived + r.bytes.length ≤ m := by omega
    cases hclosed : s.closed with
    | true =>
      have hnone := comes_closed hcomes hclosed
      refine ⟨?_, ?_, hinterval, hlonger, hsum, hsum', fun hopen => absurd hopen nofun⟩
      · simp only [hnone, List.append_nil, hs.output]
      · simp only [hnone, List.append_nil, hs.titles]
    | false =>
      rw [Demux.feed_data m metaDataSize _ (hcounts.slot hclosed) (by omega)] at happend
      refine ⟨?_, ?_, hinterval, hlonger, hsum, hsum', fun _ => ?_⟩
      · simp only [happend, hs.output]
      · simp only [happend, hs.titles]
      · simp only [happend]
        congr 1
        omega

end Received

theorem next_tracks {event : InputEvent} {t : HttpInput} {stream : Text} (hh : IcyHeader h m)
    (hs : s.Tracks h m) (hdemuxes : s.demuxes event = true) (hnext : s.next event = some t)
    (hstream : t.received <+: h ++ stream) : t.Tracks h m := by
  cases event with
  | exit =>
    simp only [next, Option.ite_none_right_eq_some, Option.some.injEq] at hnext
    rw [← hnext.2]
    exact hs.ended
  | idle =>
    simp only [next, Option.ite_none_right_eq_some, Option.some.injEq] at hnext
    rw [← hnext.2]
    exact hs
  | ready =>
    simp only [next, Option.ite_none_right_eq_some, Option.some.injEq] at hnext
    rw [← hnext.2]
    exact hs.turn hh.positive hnext.1
  | recv r behind header saved =>
    simp only [next, Option.ite_none_right_eq_some, Option.some.injEq] at hnext
    obtain ⟨hcomes, rfl⟩ := hnext
    cases hplace : s.place with
    | first => exact receive_first hh hs hplace hstream hdemuxes _
    | header buffer => exact receive_header hh hs hplace hstream hdemuxes _
    | length => exact receive_length hs hplace hcomes hdemuxes
    | block => exact receive_block hs hplace hcomes hdemuxes _
    | audio iMaxReadBytes => exact receive_audio hs hplace hcomes hdemuxes
    -- nothing is received there
    | poll => simp [comes, asked, hplace] at hcomes
    | ended => simp [comes, asked, hplace] at hcomes
    | overrun => simp [comes, asked, hplace] at hcomes

theorem received_of_next {event : InputEvent} {t : HttpInput} (hnext : s.next event = some t) :
    s.received <+: t.received := by
  cases event with
  | exit =>
    simp only [next, Option.ite_none_right_eq_some, Option.some.injEq] at hnext
    rw [← hnext.2]
  | idle =>
    simp only [next, Option.ite_none_right_eq_some, Option.some.injEq] at hnext
    rw [← hnext.2]
  | ready =>
    simp only [next, Option.ite_none_right_eq_some, Option.some.injEq] at hnext
    rw [← hnext.2]
    unfold HttpInput.turn
    split <;> exact List.prefix_refl _
  | recv r behind header saved =>
    simp only [next, Option.ite_none_right_eq_some, Option.some.injEq] at hnext
    rw [← hnext.2]
    exact List.prefix_append _ _

end Steps

/-! ## Every run -/

/-- In a run that does not bring the thread out of step with the stream, what has been put into the
buffer is the data, and the titles are those of the blocks. -/
theorem demultiplexes {h stream : Text} {m : Nat} (hh : IcyHeader h m) (numBlocks : Int)
    (events : List InputEvent) (s : HttpInput)
    (hrun : Run (Guarded (fun s event => s.demuxes event = true) (Steps next)) (start numBlocks)
      events s) (hstream : s.received <+: h ++ stream) :
    s.output = (streamed h m s.received).data ∧
      s.titles = (streamed h m s.received).blocks.filterMap blockTitle := by
  have htracks : s.received <+: h ++ stream → s.Tracks h m := by
    refine hrun.invariant (P := fun s => s.received <+: h ++ stream → s.Tracks h m) ?_
      fun _ => tracks_start numBlocks
    intro s event t hs hstep hprefix
    have hnext : s.next event = some t := hstep.2
    exact next_tracks hh (hs ((received_of_next hnext).trans hprefix)) hstep.1 hnext hprefix
  exact ⟨(htracks hstream).output, (htracks hstream).titles⟩

/-- A header, and a block with a title. -/
def icyHeader : Text := bytes "ICY 200 OK\r\nicy-metaint:4\r\n\r\n"
def titleBlock : Text := bytes "StreamTitle='a';"

theorem icyHeader_four : IcyHeader icyHeader 4 where
  nulFree := by decide
  ends := .inl ⟨by decide, by decide⟩
  interval := by decide
  positive := by decide

/-- The stream up to the length of the first block. -/
def upToBlock : List InputEvent :=
  [.recv (.data icyHeader) [] [] true, .ready, .recv (.data [1, 2, 3, 4]) [] [] true, .ready,
    .recv (.data [1]) [] [] true]

/-- The block comes at once. -/
def wholeBlock : List InputEvent :=
  upToBlock ++ [.recv (.data titleBlock) [] [] true, .recv (.data [5, 6]) [] [] true]

theorem demultiplexes_wholeBlock :
    ∃ s, Run (Guarded (fun s event => s.demuxes event = true) (Steps next)) (start 0) wholeBlock s ∧
      s.output = (streamed icyHeader 4 s.received).data ∧
        s.titles = (streamed icyHeader 4 s.received).blocks.filterMap blockTitle ∧
          s.output = [1, 2, 3, 4, 5, 6] ∧ s.titles = [bytes "a"] := by
  have hexec : (exec (guardedNext (fun s event => s.demuxes event = true) next) (start 0)
      wholeBlock).map (fun s => (s.received, s.output, s.titles)) =
        some (icyHeader ++ [1, 2, 3, 4, 1] ++ titleBlock ++ [5, 6], [1, 2, 3, 4, 5, 6],
          [bytes "a"]) := by
    decide
  obtain ⟨s, hs, heq⟩ := Option.map_eq_some_iff.mp hexec
  obtain ⟨hreceived, heq⟩ := Prod.mk.inj heq
  obtain ⟨houtput, htitles⟩ := Prod.mk.inj heq
  have hrun := Run.of_guarded_exec hs
  have hstream : s.received <+: icyHeader ++ ([1, 2, 3, 4, 1] ++ titleBlock ++ [5, 6]) := by
    rw [hreceived, List.append_assoc, List.append_assoc, List.append_assoc]
  obtain ⟨hdata, hblocks⟩ := demultiplexes icyHeader_four 0 wholeBlock s hrun hstream
  exact ⟨s, hrun, hdata, hblocks, houtput, htitles⟩

/-- Half of it comes, and then the rest. -/
def cutBlock : List InputEvent :=
  upToBlock ++ [.recv (.data (titleBlock.take 8)) [] [] true,
    .recv (.data (titleBlock.drop 8)) [] [] true]

/-- The second half of the block is put into the buffer. -/
theorem demultiplexes_fails :
    IcyHeader icyHeader 4 ∧ ∃ s, Run (Steps next) (start 0) cutBlock s ∧
      s.received = icyHeader ++ [1, 2, 3, 4, 1] ++ titleBlock ∧
        s.output ≠ (streamed icyHeader 4 s.received).data := by
  have hexec : (exec next (start 0) cutBlock).map (fun s => (s.received, s.output)) =
      some (icyHeader ++ [1, 2, 3, 4, 1] ++ titleBlock, [1, 2, 3, 4] ++ titleBlock.drop 8) := by
    decide
  obtain ⟨s, hs, heq⟩ := Option.map_eq_some_iff.mp hexec
  obtain ⟨hreceived, houtput⟩ := Prod.mk.inj heq
  refine ⟨icyHeader_four, s, Run.of_exec hs, hreceived, ?_⟩
  rw [hreceived, houtput]
  decide

end HttpInput

end FreeAmp.Io
