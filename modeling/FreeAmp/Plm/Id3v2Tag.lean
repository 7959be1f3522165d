/-
  Plm/Id3v2Tag.lean --- the tag around the frames, from `tag_render.cpp`, `tag_parse.cpp`,
  `header_tag.cpp`, `io_helpers.cpp` and `io_decorators.cpp` of `plm/metadata/id3v2`.

  What is written through an `UnsyncedWriter` has a 0 behind every `0xFF` that would begin a
  sync, and behind every one that a 0 follows.  The size of the tag has seven bits a byte.

      readChar_encoded  a byte that was written is read, with its 0
      isChain_encoded   no sync is written
      tag_roundTrip     the frames are read back, and the tag has no sync

  A rendered frame is a string of bytes.  The 1024 bytes at a time of `readBinary` are one
  loop.
-/
import FreeAmp.Io.Id3v2
import Mathlib.Data.List.Chain

namespace FreeAmp.Plm

open FreeAmp.Base FreeAmp.Io

/-! ## Without sync -/

/-- `io::UnsyncedWriter`, over a string. -/
structure UnsyncedWriter where
  written : Text
  last : UInt8
  numSyncs : Nat

namespace UnsyncedWriter

def writeChar (w : UnsyncedWriter) (ch : UInt8) : UnsyncedWriter :=
  if w.last = 0xFF ∧ (ch = 0 ∨ 0xE0 ≤ ch) then ⟨w.written ++ [0, ch], ch, w.numSyncs + 1⟩
  else ⟨w.written ++ [ch], ch, w.numSyncs⟩

def writeChars (w : UnsyncedWriter) (buf : Text) : UnsyncedWriter := buf.foldl writeChar w

def flush (w : UnsyncedWriter) : UnsyncedWriter :=
  if w.last = 0xFF then ⟨w.written ++ [0], 0, w.numSyncs + 1⟩ else w

end UnsyncedWriter

/-- `io::UnsyncedReader::readChar`, over what is left of a string. -/
def readChar : Text → Option (UInt8 × Text)
  | [] => none
  | ch :: s => some (ch, if ch = 0xFF ∧ s.head? = some 0 then s.tail else s)

/-- `io::readBinary` of an `UnsyncedReader`. -/
def readBinary : Nat → Text → Text
  | 0, _ => []
  | remaining + 1, s =>
    match readChar s with
    | none => []
    | some (ch, s) => ch :: readBinary remaining s

/-- `remainingBytes()` counts the bytes of the string. -/
def readAllBinary (s : Text) : Text := readBinary s.length s

/-! ## The tag -/

/-- The loop of `io::writeUInt28`, from the end. -/
def renderUInt28 : Nat → Nat → Text
  | 0, _ => []
  | n + 1, val => renderUInt28 n (val / 128) ++ [UInt8.ofNat (val % 128)]

def writeUInt28 (val : Nat) : Text := renderUInt28 4 (min val 268435455)

def readUInt28 (s : Text) : Nat :=
  min ((s.take 4).foldl (fun val c => val * 128 + c.toNat % 128) 0) 268435455

/-- The flags of an `ID3_TagHeader`; of an extended header, its size. -/
structure TagFlags where
  unsync : Bool
  extended : Option UInt8
  experimental : Bool

def TagFlags.get (f : TagFlags) : UInt8 :=
  (if f.unsync then 0x80 else 0) + (if f.extended.isSome then 0x40 else 0) +
    (if f.experimental then 0x20 else 0)

/-- `ID3_TagHeader::Render` -/
def renderHeader (f : TagFlags) (dataSize : Nat) : Text :=
  bytes "ID3" ++ [3, 0, f.get] ++ writeUInt28 dataSize ++
    (f.extended.map fun size => [0, 0, 0, size]).getD []

/-- `id3::v2::render`, where `frames` is what the frames write and `paddingSize` is
`PaddingSize`. -/
def renderTag (f : TagFlags) (frames : Text) (paddingSize : Nat → Nat) : Text :=
  let w := ((UnsyncedWriter.mk [] 0 0).writeChars frames).flush
  let frms := if f.unsync then w.written else frames
  if frms.length = 0 then []
  else
    let nPadding := paddingSize frms.length
    renderHeader { f with unsync := f.unsync && decide (0 < w.numSyncs) } (frms.length + nPadding) ++
      frms ++ List.replicate nPadding 0

/-- `IsV2Tag`, where a byte that is not there is taken for 0. -/
def isV2Tag (head : Text) : Bool :=
  isID3 head && head.getD 3 0 < 0xFF && head.getD 4 0 < 0xFF &&
    ((head.drop 6).take 4).all (· < 0x80)

/-- `id3::v2::parse`: what the frames are read from, and what is behind the tag. -/
def parseTag (file : Text) : Option (Text × Text) :=
  let head := file.take headerSize
  if isV2Tag head then
    let window := (file.drop headerSize).take (readUInt28 (head.drop 6))
    some (if 0x80 ≤ head.getD 5 0 then readAllBinary window else window,
      file.drop (headerSize + window.length))
  else none

/-! ## What is written -/

variable {last c : UInt8} {s t : Text}

/-- What is written of a string behind a byte, up to the flush. -/
def encoded : UInt8 → Text → Text
  | last, [] => if last = 0xFF then [0] else []
  | last, c :: s =>
    (if last = 0xFF ∧ (c = 0 ∨ 0xE0 ≤ c) then [0, c] else [c]) ++ encoded c s

theorem flush_writeChars (w : UnsyncedWriter) (s : Text) :
    (w.writeChars s).flush.written = w.written ++ encoded w.last s ∧
      (w.writeChars s).flush.numSyncs + s.length = w.numSyncs + (encoded w.last s).length := by
  induction s generalizing w with
  | nil =>
    show w.flush.written = _ ∧ w.flush.numSyncs + 0 = _
    unfold UnsyncedWriter.flush encoded
    split <;> simp
  | cons c s ih =>
    obtain ⟨hwritten, hsyncs⟩ := ih (w.writeChar c)
    show ((w.writeChar c).writeChars s).flush.written = _ ∧
      ((w.writeChar c).writeChars s).flush.numSyncs + (s.length + 1) = _
    rw [hwritten, ← Nat.add_assoc, hsyncs, encoded]
    by_cases hsync : w.last = 0xFF ∧ (c = 0 ∨ 0xE0 ≤ c)
    · rw [UnsyncedWriter.writeChar, if_pos hsync, if_pos hsync]
      exact ⟨List.append_assoc .., by
        simp only [List.length_append, List.length_cons, List.length_nil]
        omega⟩
    · rw [UnsyncedWriter.writeChar, if_neg hsync, if_neg hsync]
      exact ⟨List.append_assoc .., by
        simp only [List.length_append, List.length_cons, List.length_nil]
        omega⟩

theorem sublist_encoded : s.Sublist (encoded last s) := by
  induction s generalizing last with
  | nil => exact List.nil_sublist _
  | cons c s ih =>
    rw [encoded]
    split
    · exact (ih.cons_cons c).cons 0
    · exact ih.cons_cons c

theorem encoded_of_ne (h : last ≠ 0xFF) : encoded last s = encoded 0 s := by
  cases s with
  | nil => simp [encoded, h]
  | cons c s => simp [encoded, h]

/-- A byte that was written is read, with the 0 that was written behind it. -/
theorem readChar_encoded : readChar (encoded 0 (c :: s) ++ t) = some (c, encoded 0 s ++ t) := by
  have hfirst : encoded 0 (c :: s) = c :: encoded c s := by simp [encoded]
  rw [hfirst]
  by_cases hc : c = 0xFF
  · subst hc
    cases s with
    | nil => rfl
    | cons d s =>
      have hplain : encoded 0 (d :: s) = d :: encoded d s := by simp [encoded]
      rw [hplain]
      by_cases hd : d = 0 ∨ 0xE0 ≤ d
      · rw [encoded, if_pos ⟨rfl, hd⟩]
        rfl
      · have hne : d ≠ 0 := fun h => hd (.inl h)
        rw [encoded, if_neg fun h => hd h.2]
        simp [readChar, hne]
  · rw [encoded_of_ne hc]
    simp [readChar, hc]

theorem readBinary_encoded (n : Nat) :
    readBinary (s.length + n) (encoded 0 s ++ t) = s ++ readBinary n t := by
  induction s with
  | nil =>
    rw [List.length_nil, Nat.zero_add]
    rfl
  | cons c s ih =>
    rw [List.length_cons, Nat.add_right_comm, readBinary, readChar_encoded]
    show c :: readBinary (s.length + n) (encoded 0 s ++ t) = _
    rw [ih, List.cons_append]

theorem readBinary_zeros {n k : Nat} (h : k ≤ n) :
    readBinary n (List.replicate k 0) = List.replicate k 0 := by
  induction k generalizing n with
  | zero => cases n <;> rfl
  | succ k ih =>
    obtain ⟨n, rfl⟩ := Nat.exists_eq_add_of_lt h
    show 0 :: readBinary _ (List.replicate k 0) = _
    rw [ih (by omega), List.replicate_succ]

theorem readAllBinary_encoded (k : Nat) :
    readAllBinary (encoded 0 s ++ List.replicate k 0) = s ++ List.replicate k 0 := by
  have hlen : s.length ≤ (encoded 0 s).length := sublist_encoded.length_le
  obtain ⟨n, hn⟩ := Nat.exists_eq_add_of_le hlen
  unfold readAllBinary
  rw [List.length_append, List.length_replicate, hn, Nat.add_assoc, readBinary_encoded,
    readBinary_zeros (Nat.le_add_left k n)]

/-! ## No sync -/

/-- The second byte does not make a sync of a `0xFF` in front of it. -/
def NoSync (b c : UInt8) : Prop := b = 0xFF → c < 0xE0

theorem noSync_of_ne {b : UInt8} (h : b ≠ 0xFF) : NoSync b c := fun hb => absurd hb h

theorem isChain_cons_of_ne (h : c ≠ 0xFF) (ht : t.IsChain NoSync) : (c :: t).IsChain NoSync :=
  List.isChain_cons.mpr ⟨fun _ _ => noSync_of_ne h, ht⟩

theorem isChain_append_of_ne (hs : 0xFF ∉ s) (ht : t.IsChain NoSync) :
    (s ++ t).IsChain NoSync := by
  induction s with
  | nil => exact ht
  | cons c s ih =>
    obtain ⟨hc, hs⟩ := not_or.mp (mt List.mem_cons.mpr hs)
    exact isChain_cons_of_ne (Ne.symm hc) (ih hs)

theorem isChain_encoded (ht : t.IsChain NoSync) :
    (last :: (encoded last s ++ t)).IsChain NoSync := by
  induction s generalizing last with
  | nil =>
    unfold encoded
    split
    · exact List.isChain_cons_cons.mpr ⟨fun _ => by decide, isChain_cons_of_ne (by decide) ht⟩
    · rename_i hne
      exact isChain_cons_of_ne hne ht
  | cons c s ih =>
    unfold encoded
    split
    · exact List.isChain_cons_cons.mpr ⟨fun _ => by decide, isChain_cons_of_ne (by decide) ih⟩
    · rename_i hplain
      refine List.isChain_cons_cons.mpr ⟨fun hlast => ?_, ih⟩
      exact UInt8.not_le.mp fun hle => hplain ⟨hlast, .inr hle⟩

/-! ## The size -/

theorem length_renderUInt28 (n val : Nat) : (renderUInt28 n val).length = n := by
  induction n generalizing val with
  | zero => rfl
  | succ n ih => rw [renderUInt28, List.length_append, ih, List.length_singleton]

theorem lt_renderUInt28 {n val : Nat} (h : c ∈ renderUInt28 n val) : c < 0x80 := by
  induction n generalizing val with
  | zero => exact absurd h List.not_mem_nil
  | succ n ih =>
    rcases List.mem_append.mp h with h | h
    · exact ih h
    · obtain rfl := List.mem_singleton.mp h
      rw [UInt8.lt_iff_toNat_lt, UInt8.toNat_ofNat']
      show val % 128 % 256 < 128
      omega

theorem foldl_renderUInt28 (n val : Nat) :
    (renderUInt28 n val).foldl (fun val c => val * 128 + c.toNat % 128) 0 = val % 128 ^ n := by
  induction n generalizing val with
  | zero => rw [Nat.pow_zero, Nat.mod_one, renderUInt28, List.foldl_nil]
  | succ n ih =>
    have hdigit : (UInt8.ofNat (val % 128)).toNat % 128 = val % 128 := by
      rw [UInt8.toNat_ofNat']
      omega
    rw [renderUInt28, List.foldl_append, ih, List.foldl_cons, List.foldl_nil, hdigit,
      Nat.pow_succ', Nat.mod_mul]
    omega

theorem readUInt28_write {val : Nat} (h : val ≤ 268435455) :
    readUInt28 (writeUInt28 val) = val := by
  unfold readUInt28 writeUInt28
  rw [List.take_of_length_le (Nat.le_of_eq (length_renderUInt28 ..)), foldl_renderUInt28,
    Nat.min_eq_left h]
  omega

/-! ## Written and read back -/

theorem parseTag_header {flags : UInt8} {body rest : Text} (hsize : body.length ≤ 268435455) :
    parseTag (bytes "ID3" ++ [3, 0, flags] ++ writeUInt28 body.length ++ (body ++ rest)) =
      some (if 0x80 ≤ flags then readAllBinary body else body, rest) := by
  have hfour : (writeUInt28 body.length).length = 4 := length_renderUInt28 ..
  have hhead : (bytes "ID3" ++ [3, 0, flags] ++ writeUInt28 body.length).length = headerSize := by
    rw [List.length_append, hfour]
    rfl
  have hvalid : isV2Tag (bytes "ID3" ++ [3, 0, flags] ++ writeUInt28 body.length) = true := by
    have hall : ((writeUInt28 body.length).take 4).all (· < 0x80) = true :=
      List.all_eq_true.mpr fun c hc => decide_eq_true (lt_renderUInt28 (List.mem_of_mem_take hc))
    exact hall
  have hread : readUInt28 ((bytes "ID3" ++ [3, 0, flags] ++ writeUInt28 body.length).drop 6) =
      body.length := readUInt28_write hsize
  unfold parseTag
  rw [List.take_left' hhead, List.drop_left' hhead]
  dsimp only
  rw [if_pos hvalid, hread, List.take_left' rfl, ← List.drop_drop, List.drop_left' hhead,
    List.drop_left' rfl]
  rfl

theorem not_mem_head {flags : UInt8} (hflags : flags ≠ 0xFF) (dataSize : Nat) :
    0xFF ∉ bytes "ID3" ++ [3, 0, flags] ++ writeUInt28 dataSize := by
  intro hmem
  rcases List.mem_append.mp hmem with hmem | hmem
  · rcases List.mem_append.mp hmem with hmem | hmem
    · exact absurd hmem (by decide)
    · simp only [List.mem_cons, List.not_mem_nil, or_false] at hmem
      rcases hmem with h | h | h
      · exact absurd h (by decide)
      · exact absurd h (by decide)
      · exact hflags h.symm
  · exact absurd (lt_renderUInt28 hmem) (by decide)

theorem renderTag_eq {frames : Text} (hframes : frames ≠ []) (unsync experimental : Bool)
    (paddingSize : Nat → Nat) :
    ∃ flags frms k, renderTag ⟨unsync, none, experimental⟩ frames paddingSize =
        bytes "ID3" ++ [3, 0, flags] ++ writeUInt28 (frms ++ List.replicate k 0).length ++
          (frms ++ List.replicate k 0) ∧
      flags ≠ 0xFF ∧ (unsync = true → frms = encoded 0 frames) ∧
      frms = if 0x80 ≤ flags then encoded 0 frames else frames := by
  obtain ⟨hwritten, hsyncs⟩ := flush_writeChars ⟨[], 0, 0⟩ frames
  have hsub : frames.Sublist (encoded 0 frames) := sublist_encoded
  have hpos := List.length_pos_iff.mpr hframes
  have hle := hsub.length_le
  refine ⟨TagFlags.get ⟨unsync && decide (0 < ((UnsyncedWriter.mk [] 0 0).writeChars
    frames).flush.numSyncs), none, experimental⟩, if unsync then encoded 0 frames else frames,
    paddingSize (if unsync then encoded 0 frames else frames).length, ?_, ?_, ?_, ?_⟩
  · unfold renderTag renderHeader
    dsimp only at hwritten ⊢
    rw [hwritten, List.nil_append, if_neg (by split <;> omega)]
    simp
  · cases unsync <;> cases experimental <;> cases decide (0 < _) <;> decide
  · rintro rfl
    rfl
  · cases unsync with
    | false => cases experimental <;> rfl
    | true =>
      by_cases hn : 0 < ((UnsyncedWriter.mk [] 0 0).writeChars frames).flush.numSyncs
      · rw [decide_eq_true hn]
        cases experimental <;> rfl
      · -- nothing was put in, so that nothing has to be taken out
        have hsame : frames = encoded 0 frames := hsub.eq_of_length (by dsimp only at hsyncs; omega)
        rw [decide_eq_false hn]
        cases experimental <;> exact hsame.symm

/-- The frames are read back, with the padding behind them, and what is behind the tag is
found.  A tag that is written without sync has none, whatever follows it. -/
theorem tag_roundTrip (unsync experimental : Bool) (frames : Text) (paddingSize : Nat → Nat)
    (hframes : frames ≠ [])
    (hsize : (renderTag ⟨unsync, none, experimental⟩ frames paddingSize).length ≤
      headerSize + 268435455) (rest : Text) :
    (∃ k, parseTag (renderTag ⟨unsync, none, experimental⟩ frames paddingSize ++ rest) =
      some (frames ++ List.replicate k 0, rest)) ∧
    (unsync = true → ∀ c,
      (renderTag ⟨unsync, none, experimental⟩ frames paddingSize ++ [c]).IsChain NoSync) := by
  obtain ⟨flags, frms, k, htag, hflags, hunsync, hfrms⟩ :=
    renderTag_eq hframes unsync experimental paddingSize
  rw [htag] at hsize ⊢
  refine ⟨⟨k, ?_⟩, fun h c => ?_⟩
  · have hbody : (frms ++ List.replicate k 0).length ≤ 268435455 := by
      have hfour : (writeUInt28 (frms ++ List.replicate k 0).length).length = 4 :=
        length_renderUInt28 ..
      rw [List.length_append, List.length_append, hfour] at hsize
      exact Nat.add_le_add_iff_left.mp hsize
    rw [List.append_assoc, parseTag_header hbody, hfrms]
    split
    · rw [readAllBinary_encoded]
    · rfl
  · have hend : (List.replicate k 0 ++ [c]).IsChain NoSync :=
      isChain_append_of_ne (by simp) (List.isChain_singleton c)
    have hchain : (0 :: (encoded 0 frames ++ (List.replicate k 0 ++ [c]))).IsChain NoSync :=
      isChain_encoded hend
    have hbody := hchain.tail
    rw [hunsync h, List.append_assoc, List.append_assoc (encoded 0 frames)]
    exact isChain_append_of_ne (not_mem_head hflags _) hbody

/-- A 0 behind a `0xFF`, a sync, a `0xFF` at the end, and 3 bytes of padding. -/
theorem tag_roundTrip_unsync :
    (∃ k, parseTag (renderTag ⟨true, none, false⟩ [0xFF, 0, 0xFF, 0xE0, 0xFF] (fun _ => 3) ++
      [7]) = some ([0xFF, 0, 0xFF, 0xE0, 0xFF] ++ List.replicate k 0, [7])) ∧
    ∀ c, (renderTag ⟨true, none, false⟩ [0xFF, 0, 0xFF, 0xE0, 0xFF] (fun _ => 3) ++
      [c]).IsChain NoSync := by
  have h := tag_roundTrip true false [0xFF, 0, 0xFF, 0xE0, 0xFF] (fun _ => 3) (by decide)
    (by decide) [7]
  exact ⟨h.1, h.2 rfl⟩

end FreeAmp.Plm
