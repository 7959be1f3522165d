/-
  Lmc/WavChunks.lean --- the chunks in front of the data of a WAV file, and what
  `WavLMC::GetHeadInfo` of `lmc/wav/src/wavlmc.cpp` makes of them.

      result_headInfo   a file that fits into the input buffer is never waited for
      walk_chunks       chunks of even size are passed over
      walk_sound        what is found is the data behind such chunks
      headInfo_right    files whose head is read as the format has it

  The reader does not know that a chunk of odd size is padded, and looks for chunks in data
  that comes before the format.
-/
import FreeAmp.Io.WaveFile

namespace FreeAmp.Lmc.Wav

open FreeAmp.Base FreeAmp.Lib FreeAmp.Io

/-! ## `GetHeadInfo` -/

/-- What `GetHeadInfo` comes to, with what the input is positioned at. -/
inductive Found where
  | found (m : HeadInfo) (rest : Text)
  | failed (err : HeadError)
  /-- for ever, in `BeginRead` -/
  | waits
  deriving DecidableEq

/-- `BeginRead` grants so many bytes; `capacity`: of the input buffer. -/
def Grants (capacity n : Nat) (rest : Text) : Prop := n ≤ rest.length ∧ n ≤ capacity

instance (capacity n : Nat) (rest : Text) : Decidable (Grants capacity n rest) :=
  inferInstanceAs (Decidable (_ ∧ _))

/-- Where it does not: the end of the stream is known once what is left is in the buffer. -/
def notGranted (capacity : Nat) (rest : Text) : Found :=
  if rest.length ≤ capacity then .failed .endOfStream else .waits

/-- The loop, with what is still to come. -/
def walk (capacity : Nat) (ulLimit ulCount : UInt32) (format : Option WaveFormat) (rest : Text) :
    Found :=
  if ulCount < ulLimit then
    if h : Grants capacity 8 rest then
      let ulType := dwordAt (rest.take 8) 0
      let ulLength := dwordAt (rest.take 8) 4
      if ulType = fourChars "fmt " then
        if ulLength < sizeofWaveFormat then .failed .inputUnsuccessful
        else if Grants capacity ulLength.toNat (rest.drop 8) then
          walk capacity ulLimit (ulCount + 8 + ulLength)
            (some (waveFormatOf ((rest.drop 8).take ulLength.toNat)))
            ((rest.drop 8).drop ulLength.toNat)
        else notGranted capacity (rest.drop 8)
      else if ulType = fourChars "data" then
        match format with
        | some format =>
          if format.wFormatTag = waveFormatPCM then
            .found ⟨format, ulLength, ulCount + 8 + 12, format.nAvgBytesPerSec / 100⟩
              (rest.drop 8)
          else .failed .inputUnsuccessful
        | none => walk capacity ulLimit (ulCount + 8) none (rest.drop 8)
      else if Grants capacity ulLength.toNat (rest.drop 8) then
        walk capacity ulLimit (ulCount + 8 + ulLength) format ((rest.drop 8).drop ulLength.toNat)
      else notGranted capacity (rest.drop 8)
    else notGranted capacity rest
  else .failed .decodeFailed
termination_by rest.length
decreasing_by
  all_goals
    have hle := h.1
    simp only [List.length_drop]
    omega

/-- `GetHeadInfo` of a `WavLMC` that has not read a header before. -/
def headInfo (capacity : Nat) (file : Text) : Found :=
  if Grants capacity 12 file then
    if dwordAt (file.take 12) 0 ≠ fourChars "RIFF" ∨ dwordAt (file.take 12) 8 ≠ fourChars "WAVE" then
      .failed .inputUnsuccessful
    else walk capacity (dwordAt (file.take 12) 4 - 4) 0 none (file.drop 12)
  else notGranted capacity file

/-! ## The format -/

/-- A chunk with its body. -/
structure Chunk where
  id : Text
  body : Text
  id_length : id.length = 4
  body_lt : body.length < 4294967296

/-- What stands in front of a body. -/
def chunkHeader (id : Text) (size : Nat) : Text := id ++ toLittle 4 size

/-- A chunk in a file: a body of odd size is padded. -/
def Chunk.bytes (c : Chunk) : Text :=
  chunkHeader c.id c.body.length ++ (c.body ++ List.replicate (c.body.length % 2) 0)

/-- A chunk that may come in front of the data. -/
structure Chunk.Proper (c : Chunk) : Prop where
  other : c.id ≠ Base.bytes "data"
  format : c.id = Base.bytes "fmt " → 16 ≤ c.body.length

def formatBehind (format : Option WaveFormat) (c : Chunk) : Option WaveFormat :=
  if c.id = bytes "fmt " then some (waveFormatOf c.body) else format

/-- What the file begins with. -/
def riff (length : Nat) (payload : Text) : Text :=
  bytes "RIFF" ++ (toLittle 4 length ++ (bytes "WAVE" ++ payload))

structure WaveFile where
  pre : List Chunk
  fmt : Chunk
  post : List Chunk
  data : Chunk
  after : List Chunk
  fmt_id : fmt.id = bytes "fmt "
  fmt_size : 16 ≤ fmt.body.length
  data_id : data.id = bytes "data"
  others : ∀ c ∈ pre ++ post, c.id ≠ bytes "fmt " ∧ c.id ≠ bytes "data"
  size : 4 + ((pre ++ fmt :: post ++ data :: after).flatMap Chunk.bytes).length < 4294967296

namespace WaveFile

/-- The chunks in front of the data. -/
def front (w : WaveFile) : List Chunk := w.pre ++ w.fmt :: w.post

def payload (w : WaveFile) : Text := (w.front ++ w.data :: w.after).flatMap Chunk.bytes

def bytes (w : WaveFile) : Text := riff (4 + w.payload.length) w.payload

/-- What stands at the first byte of the data and behind it. -/
def behind (w : WaveFile) : Text :=
  w.data.body ++ List.replicate (w.data.body.length % 2) 0 ++ w.after.flatMap Chunk.bytes

/-- What is to be found. -/
def info (w : WaveFile) : HeadInfo :=
  { waveFormat := waveFormatOf w.fmt.body
    waveSize := UInt32.ofNat w.data.body.length
    -- behind `RIFF`, the length and `WAVE`, and the data's own header
    waveHeaderSize := UInt32.ofNat (12 + (w.front.flatMap Chunk.bytes).length + 8)
    frameBytes := (waveFormatOf w.fmt.body).nAvgBytesPerSec / 100 }

/-- The chunks in front of the data are no larger than the buffer. -/
def Fits (capacity : Nat) (w : WaveFile) : Prop := ∀ c ∈ w.front, c.body.length ≤ capacity

instance (capacity : Nat) (w : WaveFile) : Decidable (w.Fits capacity) :=
  inferInstanceAs (Decidable (∀ c ∈ w.front, c.body.length ≤ capacity))

end WaveFile

/-- A file of the format is read as it has it, and another one ends with an error. -/
structure HeadRight (capacity : Nat) (file : Text) : Prop where
  reads : ∀ w : WaveFile, file = w.bytes → w.Fits capacity → w.info.waveFormat.wFormatTag =
    waveFormatPCM → headInfo capacity file = .found w.info w.behind
  fails : (∀ w : WaveFile, file = w.bytes → ¬ w.Fits capacity) →
    ∃ err, headInfo capacity file = .failed err

/-- A header stands in the file behind chunks that may come in front of the data, and begins
inside the length of the file. -/
structure Stands (file : Text) (cs : List Chunk) (id : Text) (size : Nat) (rest : Text) : Prop where
  proper : ∀ c ∈ cs, c.Proper
  id_length : id.length = 4
  size_lt : size < 4294967296
  place : ∃ length < 4294967296, (cs.flatMap Chunk.bytes).length < length - 4 ∧
    file = riff length (cs.flatMap Chunk.bytes ++ (chunkHeader id size ++ rest))

/-- The condition on a file, by what stands in front of the data. -/
structure Plain (capacity : Nat) (file : Text) : Prop where
  riff : ∀ length payload, length < 4294967296 → file = riff length payload → 4 ≤ length
  early : ∀ {cs size rest}, Stands file cs (bytes "data") size rest → ∃ c ∈ cs, c.id = bytes "fmt "
  -- of a chunk with something behind it: its size is even, and it ends where 32 bits reach
  even : ∀ {cs id size rest}, Stands file cs id size rest → id ≠ bytes "data" →
    (id = bytes "fmt " → 16 ≤ size) → size < rest.length →
      size % 2 = 0 ∧ (cs.flatMap Chunk.bytes).length + 8 + size < 4294967296
  granted : ∀ {cs id size rest}, Stands file cs id size rest → id ≠ bytes "data" →
    (id = bytes "fmt " → 16 ≤ size) → size ≤ capacity ∨ rest.length ≤ capacity
  behind : ∀ {cs size rest format}, Stands file cs (bytes "data") size rest →
    cs.foldl formatBehind none = some format → format.wFormatTag = waveFormatPCM →
      ∃ w : WaveFile, file = w.bytes ∧ w.Fits capacity

/-! ## Reading a header -/

theorem ofLittle_inj {a b : Text} (hlength : a.length = b.length) (h : ofLittle a = ofLittle b) :
    a = b := by
  induction a generalizing b with
  | nil => exact (List.length_eq_zero_iff.mp hlength.symm).symm
  | cons c a ih =>
    cases b with
    | nil => cases hlength
    | cons d b =>
      unfold ofLittle at h
      have hc := c.toNat_lt
      have hd := d.toNat_lt
      have hhead : c = d := UInt8.toNat_inj.mp (by omega)
      rw [hhead, ih (Nat.succ.inj hlength) (by omega)]

theorem ofLittle_lt (a : Text) : ofLittle a < 256 ^ a.length := by
  induction a with
  | nil => exact Nat.one_pos
  | cons c a ih =>
    unfold ofLittle
    have hc := c.toNat_lt
    rw [List.length_cons, Nat.pow_succ]
    omega

theorem dwordAt_zero_iff {id rest : Text} {s : String} (hid : id.length = 4)
    (hs : (bytes s).length = 4) : dwordAt (id ++ rest) 0 = fourChars s ↔ id = bytes s := by
  have htake : (id ++ rest).take 4 = id := by
    rw [← hid, List.take_left]
  unfold dwordAt fourChars
  rw [List.drop_zero, htake]
  constructor
  · intro h
    have hnat := congrArg UInt32.toNat h
    have hlow := ofLittle_lt id
    have hhigh := ofLittle_lt (bytes s)
    rw [hid] at hlow
    rw [hs] at hhigh
    rw [UInt32.toNat_ofNat', UInt32.toNat_ofNat'] at hnat
    exact ofLittle_inj (hid.trans hs.symm) (by omega)
  · rintro rfl
    rfl

theorem dwordAt_header {id : Text} {size : Nat} (hid : id.length = 4) (hsize : size < 4294967296) :
    (dwordAt (chunkHeader id size) 4).toNat = size := by
  have hdrop : (chunkHeader id size).drop 4 = toLittle 4 size := by
    unfold chunkHeader
    rw [← hid, List.drop_left]
  have htake : (toLittle 4 size).take 4 = toLittle 4 size :=
    List.take_of_length_le (by rw [length_toLittle])
  unfold dwordAt
  rw [hdrop, htake, UInt32.toNat_ofNat', ofLittle_toLittle hsize, Nat.mod_eq_of_lt hsize]

theorem toLittle_ofLittle (a : Text) : toLittle a.length (ofLittle a) = a := by
  induction a with
  | nil => rfl
  | cons c a ih =>
    have hc := c.toNat_lt
    have hquot : (c.toNat + 256 * ofLittle a) / 256 = ofLittle a := by omega
    have hlow : UInt8.ofNat (c.toNat + 256 * ofLittle a) = c := by
      apply UInt8.toNat_inj.mp
      rw [UInt8.toNat_ofNat']
      omega
    rw [List.length_cons, toLittle, ofLittle, hquot, hlow, ih]

theorem exists_header {rest : Text} (h : 8 ≤ rest.length) : ∃ id size rest', id.length = 4 ∧
    size < 4294967296 ∧ rest = chunkHeader id size ++ rest' := by
  have hlength : ((rest.drop 4).take 4).length = 4 := by
    rw [List.length_take, List.length_drop]
    omega
  have hlt := ofLittle_lt ((rest.drop 4).take 4)
  rw [hlength] at hlt
  refine ⟨rest.take 4, ofLittle ((rest.drop 4).take 4), (rest.drop 4).drop 4,
    List.length_take_of_le (by omega), hlt, ?_⟩
  have hlittle := toLittle_ofLittle ((rest.drop 4).take 4)
  rw [hlength] at hlittle
  unfold chunkHeader
  rw [hlittle, List.append_assoc, List.take_append_drop, List.take_append_drop]

theorem length_chunkHeader {id : Text} (hid : id.length = 4) (size : Nat) :
    (chunkHeader id size).length = 8 := by
  unfold chunkHeader
  rw [List.length_append, hid, length_toLittle]

/-! ## One chunk -/

section Walk

variable {capacity : Nat} {limit count : UInt32} {format : Option WaveFormat}

theorem walk_nil : ∃ err, walk capacity limit count format [] = .failed err := by
  rw [walk]
  split
  · rw [dif_neg fun h => absurd h.1 (by decide)]
    exact ⟨_, if_pos (Nat.zero_le _)⟩
  · exact ⟨_, rfl⟩

theorem walk_header (hcapacity : 12 ≤ capacity) (hlt : count < limit) {id : Text} {size : Nat}
    (hid : id.length = 4) (hsize : size < 4294967296) (rest : Text) :
    walk capacity limit count format (chunkHeader id size ++ rest) =
      if id = bytes "fmt " then
        if size < 16 then .failed .inputUnsuccessful
        else if Grants capacity size rest then
          walk capacity limit (count + 8 + UInt32.ofNat size) (some (waveFormatOf (rest.take size)))
            (rest.drop size)
        else notGranted capacity rest
      else if id = bytes "data" then
        match format with
        | some format =>
          if format.wFormatTag = waveFormatPCM then
            .found ⟨format, UInt32.ofNat size, count + 8 + 12, format.nAvgBytesPerSec / 100⟩ rest
          else .failed .inputUnsuccessful
        | none => walk capacity limit (count + 8) none rest
      else if Grants capacity size rest then
        walk capacity limit (count + 8 + UInt32.ofNat size) format (rest.drop size)
      else notGranted capacity rest := by
  have hlength := length_chunkHeader hid size
  have htake : (chunkHeader id size ++ rest).take 8 = chunkHeader id size := by
    rw [← hlength, List.take_left]
  have hdrop : (chunkHeader id size ++ rest).drop 8 = rest := by
    rw [← hlength, List.drop_left]
  have hgrants : Grants capacity 8 (chunkHeader id size ++ rest) := by
    refine ⟨?_, by omega⟩
    rw [List.length_append, hlength]
    exact Nat.le_add_right 8 _
  have hfmt : dwordAt (chunkHeader id size) 0 = fourChars "fmt " ↔ id = bytes "fmt " :=
    dwordAt_zero_iff hid (by decide)
  have hdata : dwordAt (chunkHeader id size) 0 = fourChars "data" ↔ id = bytes "data" :=
    dwordAt_zero_iff hid (by decide)
  have hnat := dwordAt_header hid hsize
  have hofNat : (UInt32.ofNat size).toNat = size := UInt32.toNat_ofNat_of_lt' hsize
  have hdword : dwordAt (chunkHeader id size) 4 = UInt32.ofNat size :=
    UInt32.toNat_inj.mp (hnat.trans hofNat.symm)
  have hsmall : UInt32.ofNat size < sizeofWaveFormat ↔ size < 16 := by
    rw [UInt32.lt_iff_toNat_lt, hofNat]
    rfl
  rw [walk, if_pos hlt, dif_pos hgrants]
  simp only [htake, hdrop, hdword, hfmt, hdata, hsmall, hofNat]

/-- Any header but that of the data: the body is passed over, or there is none. -/
theorem walk_skip (hcapacity : 12 ≤ capacity) (hlt : count < limit) {id : Text} {size : Nat}
    (hid : id.length = 4) (hsize : size < 4294967296) (hdata : id ≠ bytes "data")
    (hformat : id = bytes "fmt " → 16 ≤ size) (rest : Text) :
    walk capacity limit count format (chunkHeader id size ++ rest) =
      if Grants capacity size rest then
        walk capacity limit (count + 8 + UInt32.ofNat size)
          (if id = bytes "fmt " then some (waveFormatOf (rest.take size)) else format)
          (rest.drop size)
      else notGranted capacity rest := by
  rw [walk_header hcapacity hlt hid hsize]
  by_cases hfmt : id = bytes "fmt "
  · rw [if_pos hfmt, if_pos hfmt, if_neg (Nat.not_lt.mpr (hformat hfmt))]
  · rw [if_neg hfmt, if_neg hfmt, if_neg hdata]

theorem Chunk.length_bytes (c : Chunk) :
    c.bytes.length = 8 + (c.body.length + c.body.length % 2) := by
  unfold Chunk.bytes
  rw [List.length_append, length_chunkHeader c.id_length, List.length_append, List.length_replicate]

theorem Chunk.bytes_even {c : Chunk} (heven : c.body.length % 2 = 0) (rest : Text) :
    c.bytes ++ rest = chunkHeader c.id c.body.length ++ (c.body ++ rest) := by
  unfold Chunk.bytes
  rw [heven, List.replicate_zero, List.append_nil, List.append_assoc]

/-- A chunk of even size in front of the data is passed over. -/
theorem walk_chunk (hcapacity : 12 ≤ capacity) (hlt : count < limit) {c : Chunk} (hc : c.Proper)
    (heven : c.body.length % 2 = 0) (hfits : c.body.length ≤ capacity) (rest : Text) :
    walk capacity limit count format (c.bytes ++ rest) =
      walk capacity limit (count + UInt32.ofNat c.bytes.length) (formatBehind format c) rest := by
  have hgrants : Grants capacity c.body.length (c.body ++ rest) := by
    refine ⟨?_, hfits⟩
    rw [List.length_append]
    exact Nat.le_add_right _ _
  have hcount : count + UInt32.ofNat c.bytes.length = count + 8 + UInt32.ofNat c.body.length := by
    have height : (8 : UInt32).toNat = 8 := rfl
    apply UInt32.toNat_inj.mp
    rw [c.length_bytes, heven]
    simp only [UInt32.toNat_add, UInt32.toNat_ofNat', height]
    omega
  rw [Chunk.bytes_even heven, hcount,
    walk_skip hcapacity hlt c.id_length c.body_lt hc.other hc.format, if_pos hgrants,
    List.take_left, List.drop_left]
  rfl

end Walk

/-! ## All chunks -/

section File

variable {capacity : Nat} {file : Text}

theorem count_lt_iff (hplain : Plain capacity file) {length : Nat} {payload : Text}
    (hlength : length < 4294967296) (hfile : file = riff length payload) {n : Nat}
    (hn : n < 4294967296) :
    UInt32.ofNat n < UInt32.ofNat length - 4 ↔ n < length - 4 := by
  have hfour := hplain.riff length payload hlength hfile
  have height : (4 : UInt32).toNat = 4 := rfl
  rw [UInt32.lt_iff_toNat_lt, UInt32.toNat_sub, UInt32.toNat_ofNat_of_lt' hn,
    UInt32.toNat_ofNat_of_lt' hlength, height]
  omega

theorem flatMap_concat (cs : List Chunk) (c : Chunk) :
    (cs ++ [c]).flatMap Chunk.bytes = cs.flatMap Chunk.bytes ++ c.bytes := by
  rw [List.flatMap_append, List.flatMap_singleton]

theorem exists_chunk {id rest : Text} {size : Nat} (hid : id.length = 4)
    (hsize : size < 4294967296) (hle : size ≤ rest.length) :
    ∃ c : Chunk, c.id = id ∧ c.body = rest.take size ∧ c.body.length = size :=
  ⟨⟨id, rest.take size, hid, by rw [List.length_take_of_le hle]; exact hsize⟩, rfl, rfl,
    List.length_take_of_le hle⟩

theorem foldl_formatBehind_none {format : Option WaveFormat} {cs : List Chunk}
    (h : cs.foldl formatBehind format = none) : format = none ∧ ∀ c ∈ cs, c.id ≠ bytes "fmt " := by
  induction cs generalizing format with
  | nil => exact ⟨h, fun c hc => absurd hc List.not_mem_nil⟩
  | cons c cs ih =>
    obtain ⟨hbehind, hothers⟩ := ih h
    unfold formatBehind at hbehind
    split at hbehind
    · cases hbehind
    · rename_i hc
      exact ⟨hbehind, List.forall_mem_cons.mpr ⟨hc, hothers⟩⟩

theorem walk_data (hcapacity : 12 ≤ capacity) (hplain : Plain capacity file)
    {limit count : UInt32} (hlt : count < limit) {cs : List Chunk} {size : Nat} {behind : Text}
    (hstands : Stands file cs (bytes "data") size behind) :
    (∃ err, walk capacity limit count (cs.foldl formatBehind none)
        (chunkHeader (bytes "data") size ++ behind) = .failed err) ∨
      ∃ w : WaveFile, file = w.bytes ∧ w.Fits capacity := by
  rw [walk_header hcapacity hlt hstands.id_length hstands.size_lt, if_neg (by decide), if_pos rfl]
  cases hformat : cs.foldl formatBehind none with
  | none =>
    obtain ⟨c, hc, hfmt⟩ := hplain.early hstands
    exact absurd hfmt ((foldl_formatBehind_none hformat).2 c hc)
  | some format =>
    dsimp only
    by_cases hpcm : format.wFormatTag = waveFormatPCM
    · exact .inr (hplain.behind hstands hformat hpcm)
    · exact .inl ⟨_, if_neg hpcm⟩

/-- From chunks that may come in front of the data on, the loop fails, or the file is one of the
format. -/
theorem walk_sound (hcapacity : 12 ≤ capacity) (hplain : Plain capacity file) {length : Nat}
    (hlength : length < 4294967296) (cs : List Chunk) (rest : Text) (hproper : ∀ c ∈ cs, c.Proper)
    (hfile : file = riff length (cs.flatMap Chunk.bytes ++ rest))
    (hsmall : (cs.flatMap Chunk.bytes).length < 4294967296) :
    (∃ err, walk capacity (UInt32.ofNat length - 4) (UInt32.ofNat (cs.flatMap Chunk.bytes).length)
        (cs.foldl formatBehind none) rest = .failed err) ∨
      ∃ w : WaveFile, file = w.bytes ∧ w.Fits capacity := by
  have hcount := count_lt_iff hplain hlength hfile hsmall
  by_cases hlt : (cs.flatMap Chunk.bytes).length < length - 4
  swap
  · refine .inl ⟨.decodeFailed, ?_⟩
    rw [walk, if_neg (hcount.not.mpr hlt)]
  by_cases hshort : rest.length < 8
  · refine .inl ⟨.endOfStream, ?_⟩
    rw [walk, if_pos (hcount.mpr hlt), dif_neg fun h => Nat.not_le.mpr hshort h.1]
    exact if_pos (by omega)
  obtain ⟨id, size, behind, hid, hsize, hrest⟩ := exists_header (Nat.not_lt.mp hshort)
  rw [hrest] at hfile ⊢
  have hstands : Stands file cs id size behind := ⟨hproper, hid, hsize, length, hlength, hlt, hfile⟩
  by_cases hdata : id = bytes "data"
  · rw [hdata] at hstands ⊢
    exact walk_data hcapacity hplain (hcount.mpr hlt) hstands
  by_cases hfmt : id = bytes "fmt " ∧ size < 16
  · rw [walk_header hcapacity (hcount.mpr hlt) hid hsize, if_pos hfmt.1, if_pos hfmt.2]
    exact .inl ⟨_, rfl⟩
  have hsixteen : id = bytes "fmt " → 16 ≤ size := fun h => Nat.not_lt.mp fun hlt => hfmt ⟨h, hlt⟩
  have hskip := @walk_skip _ _ _ (cs.foldl formatBehind none) hcapacity (hcount.mpr hlt) _ _ hid
    hsize hdata hsixteen behind
  by_cases hgrants : Grants capacity size behind
  swap
  · -- The body is not all there.
    refine .inl ⟨.endOfStream, ?_⟩
    rw [hskip, if_neg hgrants]
    refine if_pos ((hplain.granted hstands hdata hsixteen).elim (fun hfits => ?_) fun hle => hle)
    by_contra hlong
    exact hgrants ⟨by omega, hfits⟩
  rcases Nat.lt_or_eq_of_le hgrants.1 with hmore | hlast
  · -- Something is behind it, and its size is even.
    obtain ⟨heven, hends⟩ := hplain.even hstands hdata hsixteen hmore
    obtain ⟨c, rfl, hbody, rfl⟩ := exists_chunk hid hsize hgrants.1
    have hc : c.Proper := ⟨hdata, hsixteen⟩
    have hsplit : chunkHeader c.id c.body.length ++ behind =
        c.bytes ++ behind.drop c.body.length := by
      have hparts : c.body ++ behind.drop c.body.length = behind := by
        nth_rewrite 1 [hbody]
        exact List.take_append_drop _ _
      rw [Chunk.bytes_even heven, hparts]
    have hnext := walk_sound hcapacity hplain hlength (cs ++ [c]) (behind.drop c.body.length)
      (by
        intro d hd
        rcases List.mem_append.mp hd with hd | hd
        · exact hproper d hd
        · exact (List.mem_singleton.mp hd) ▸ hc)
      (by rw [hfile, hsplit, flatMap_concat, List.append_assoc])
      (by
        rw [flatMap_concat, List.length_append, c.length_bytes, heven]
        omega)
    rw [hsplit, walk_chunk hcapacity (hcount.mpr hlt) hc heven hgrants.2, ← UInt32.ofNat_add,
      ← List.length_append, ← flatMap_concat]
    rw [List.foldl_concat] at hnext
    exact hnext
  · left
    rw [hskip, if_pos hgrants, hlast, List.drop_length]
    exact walk_nil
termination_by rest.length
decreasing_by
  rw [hrest, List.length_append, length_chunkHeader hid, List.length_drop]
  omega

/-- The chunks in front of the data of a file that fits are passed over. -/
theorem walk_chunks (hcapacity : 12 ≤ capacity) (hplain : Plain capacity file) {length : Nat}
    (hlength : length < 4294967296) {front rest : List Chunk} {behind : Text}
    (hproper : ∀ c ∈ front, c.Proper) (hfits : ∀ c ∈ front, c.body.length ≤ capacity)
    (hbehind : 8 ≤ behind.length) (hlimit : (front.flatMap Chunk.bytes).length < length - 4)
    (hfile : file = riff length (front.flatMap Chunk.bytes ++ behind)) :
    ∀ cs : List Chunk, front = cs ++ rest →
      walk capacity (UInt32.ofNat length - 4) (UInt32.ofNat (cs.flatMap Chunk.bytes).length)
          (cs.foldl formatBehind none) (rest.flatMap Chunk.bytes ++ behind) =
        walk capacity (UInt32.ofNat length - 4) (UInt32.ofNat (front.flatMap Chunk.bytes).length)
          (front.foldl formatBehind none) behind := by
  induction rest with
  | nil =>
    intro cs hfront
    rw [hfront, List.append_nil]
    rfl
  | cons c rest ih =>
    intro cs hfront
    have hmem : c ∈ front := by
      rw [hfront]
      exact List.mem_append_right _ List.mem_cons_self
    have hpayload : front.flatMap Chunk.bytes ++ behind =
        cs.flatMap Chunk.bytes ++ (c.bytes ++ (rest.flatMap Chunk.bytes ++ behind)) := by
      rw [hfront, List.flatMap_append, List.flatMap_cons, List.append_assoc, List.append_assoc]
    have hle : (cs.flatMap Chunk.bytes).length ≤ (front.flatMap Chunk.bytes).length := by
      rw [hfront, List.flatMap_append, List.length_append]
      exact Nat.le_add_right _ _
    have hlt := (count_lt_iff hplain hlength hfile (n := (cs.flatMap Chunk.bytes).length)
      (by omega)).mpr (by omega)
    have hstands : Stands file cs c.id c.body.length
        (c.body ++ List.replicate (c.body.length % 2) 0 ++ (rest.flatMap Chunk.bytes ++ behind)) := by
      refine ⟨fun d hd => hproper d ?_, c.id_length, c.body_lt, length, hlength, by omega, ?_⟩
      · rw [hfront]
        exact List.mem_append_left _ hd
      · rw [hfile, hpayload]
        unfold Chunk.bytes
        rw [List.append_assoc (chunkHeader _ _)]
    have heven := (hplain.even hstands (hproper c hmem).other (hproper c hmem).format (by
      rw [List.length_append, List.length_append, List.length_append]
      omega)).1
    have hstep := ih (cs ++ [c]) (by rw [hfront, List.append_assoc]; rfl)
    rw [List.foldl_concat, flatMap_concat] at hstep
    rw [List.flatMap_cons, List.append_assoc,
      walk_chunk hcapacity hlt (hproper c hmem) heven (hfits c hmem), ← UInt32.ofNat_add,
      ← List.length_append]
    exact hstep

end File

/-! ## Files -/

namespace WaveFile

variable (w : WaveFile)

theorem front_proper : ∀ c ∈ w.front, c.Proper := by
  intro c hc
  rcases List.mem_append.mp hc with hc | hc
  · have hother := w.others c (List.mem_append_left _ hc)
    exact ⟨hother.2, fun h => absurd h hother.1⟩
  · rcases List.mem_cons.mp hc with rfl | hc
    · refine ⟨?_, fun _ => w.fmt_size⟩
      rw [w.fmt_id]
      decide
    · have hother := w.others c (List.mem_append_right _ hc)
      exact ⟨hother.2, fun h => absurd h hother.1⟩

theorem foldl_others {format : Option WaveFormat} {cs : List Chunk}
    (h : ∀ c ∈ cs, c.id ≠ Base.bytes "fmt ") : cs.foldl formatBehind format = format := by
  induction cs with
  | nil => rfl
  | cons c cs ih =>
    obtain ⟨hc, hcs⟩ := List.forall_mem_cons.mp h
    rw [List.foldl_cons, formatBehind, if_neg hc, ih hcs]

theorem foldl_front : w.front.foldl formatBehind none = some (waveFormatOf w.fmt.body) := by
  unfold front
  rw [List.foldl_append, List.foldl_cons, formatBehind, if_pos w.fmt_id]
  exact foldl_others fun c hc => (w.others c (List.mem_append_right _ hc)).1

theorem payload_eq : w.payload = w.front.flatMap Chunk.bytes ++
    (chunkHeader (Base.bytes "data") w.data.body.length ++ w.behind) := by
  unfold payload behind
  rw [List.flatMap_append, List.flatMap_cons, Chunk.bytes, w.data_id, List.append_assoc,
    List.append_assoc]

theorem payload_lt : 4 + w.payload.length < 4294967296 := by
  have hsize := w.size
  unfold payload front
  rwa [List.append_assoc, List.cons_append] at *

end WaveFile

section Head

variable {capacity : Nat} {file : Text}

theorem dwordAt_append (a b : Text) (k : Nat) : dwordAt (a ++ b) (a.length + k) = dwordAt b k := by
  unfold dwordAt
  rw [← List.drop_drop, List.drop_left]

theorem headInfo_words (hcapacity : 12 ≤ capacity) {a b c rest : Text} (ha : a.length = 4)
    (hb : b.length = 4) (hc : c.length = 4) :
    headInfo capacity (a ++ (b ++ (c ++ rest))) =
      if a = bytes "RIFF" ∧ c = bytes "WAVE" then
        walk capacity (UInt32.ofNat (ofLittle b) - 4) 0 none rest
      else .failed .inputUnsuccessful := by
  have hwords : (a ++ (b ++ c)).length = 12 := by
    rw [List.length_append, List.length_append, ha, hb, hc]
  have hfile : a ++ (b ++ (c ++ rest)) = a ++ (b ++ c) ++ rest := by
    rw [List.append_assoc, List.append_assoc]
  have htake : (a ++ (b ++ c) ++ rest).take 12 = a ++ (b ++ c) := by
    rw [← hwords, List.take_left]
  have hdrop : (a ++ (b ++ c) ++ rest).drop 12 = rest := by
    rw [← hwords, List.drop_left]
  have hgrants : Grants capacity 12 (a ++ (b ++ c) ++ rest) := by
    refine ⟨?_, hcapacity⟩
    rw [List.length_append, hwords]
    exact Nat.le_add_right 12 _
  have hriff : dwordAt (a ++ (b ++ c)) 0 = fourChars "RIFF" ↔ a = bytes "RIFF" :=
    dwordAt_zero_iff ha (by decide)
  have hlength : dwordAt (a ++ (b ++ c)) 4 = UInt32.ofNat (ofLittle b) := by
    rw [← ha, ← Nat.add_zero a.length, dwordAt_append]
    unfold dwordAt
    rw [List.drop_zero, ← hb, List.take_left]
  have hwave : dwordAt (a ++ (b ++ c)) 8 = fourChars "WAVE" ↔ c = bytes "WAVE" := by
    have height : 8 = a.length + (b.length + 0) := by omega
    rw [height, dwordAt_append, dwordAt_append, ← List.append_nil c]
    exact (dwordAt_zero_iff hc (by decide)).trans (by rw [List.append_nil])
  unfold headInfo
  rw [hfile, if_pos hgrants, htake, hdrop, hlength]
  by_cases h : a = bytes "RIFF" ∧ c = bytes "WAVE"
  · rw [if_pos h, if_neg]
    rintro (hne | hne)
    · exact hne (hriff.mpr h.1)
    · exact hne (hwave.mpr h.2)
  · rw [if_neg h, if_pos]
    rw [Ne, Ne, hriff, hwave, ← not_and_or]
    exact h

theorem headInfo_riff (hcapacity : 12 ≤ capacity) {length : Nat} (hlength : length < 4294967296)
    (payload : Text) :
    headInfo capacity (riff length payload) =
      walk capacity (UInt32.ofNat length - 4) 0 none payload := by
  unfold riff
  rw [headInfo_words hcapacity (by decide) (length_toLittle 4 length) (by decide),
    if_pos ⟨rfl, rfl⟩, ofLittle_toLittle hlength]

/-- What does not begin like a WAV file is not accepted. -/
theorem headInfo_other (file : Text) (hcapacity : 12 ≤ capacity) :
    (∃ err, headInfo capacity file = .failed err) ∨
      ∃ length < 4294967296, ∃ payload, file = riff length payload := by
  rcases Nat.lt_or_ge file.length 12 with hshort | hlong
  · refine .inl ⟨.endOfStream, ?_⟩
    unfold headInfo
    rw [if_neg fun h => Nat.not_le.mpr hshort h.1]
    exact if_pos (by omega)
  obtain ⟨a, file, ha, rfl⟩ : ∃ a rest, a.length = 4 ∧ file = a ++ rest :=
    ⟨file.take 4, file.drop 4, List.length_take_of_le (by omega), (List.take_append_drop 4 _).symm⟩
  rw [List.length_append] at hlong
  obtain ⟨b, file, hb, rfl⟩ : ∃ b rest, b.length = 4 ∧ file = b ++ rest :=
    ⟨file.take 4, file.drop 4, List.length_take_of_le (by omega), (List.take_append_drop 4 _).symm⟩
  rw [List.length_append] at hlong
  obtain ⟨c, rest, hc, rfl⟩ : ∃ c rest, c.length = 4 ∧ file = c ++ rest :=
    ⟨file.take 4, file.drop 4, List.length_take_of_le (by omega), (List.take_append_drop 4 _).symm⟩
  rw [headInfo_words hcapacity ha hb hc]
  by_cases hwords : a = bytes "RIFF" ∧ c = bytes "WAVE"
  · have hlt := ofLittle_lt b
    have hlittle := toLittle_ofLittle b
    rw [hb] at hlt hlittle
    refine .inr ⟨ofLittle b, hlt, rest, ?_⟩
    unfold riff
    rw [hlittle, hwords.1, hwords.2]
  · exact .inl ⟨_, if_neg hwords⟩

theorem headInfo_reads (hcapacity : 12 ≤ capacity) (hplain : Plain capacity file) {w : WaveFile}
    (hfile : file = w.bytes) (hfits : w.Fits capacity)
    (hpcm : w.info.waveFormat.wFormatTag = waveFormatPCM) :
    headInfo capacity file = .found w.info w.behind := by
  have hlength := w.payload_lt
  have hpayload := w.payload_eq
  have hdata : (bytes "data").length = 4 := by decide
  have hheader := length_chunkHeader hdata w.data.body.length
  have hlimit : (w.front.flatMap Chunk.bytes).length < 4 + w.payload.length - 4 := by
    rw [hpayload, List.length_append, List.length_append, hheader]
    omega
  have hriff : file = riff (4 + w.payload.length) (w.front.flatMap Chunk.bytes ++
      (chunkHeader (bytes "data") w.data.body.length ++ w.behind)) := by
    rw [← hpayload]
    exact hfile
  have hchunks := walk_chunks hcapacity hplain hlength w.front_proper hfits
    (by
      rw [List.length_append, hheader]
      exact Nat.le_add_right 8 _)
    hlimit hriff [] rfl
  have hcount := (count_lt_iff hplain hlength hriff (n := (w.front.flatMap Chunk.bytes).length)
    (by omega)).mpr hlimit
  have hbody : w.data.body.length < 4294967296 := w.data.body_lt
  rw [hriff, headInfo_riff hcapacity hlength]
  refine hchunks.trans ?_
  rw [walk_header hcapacity hcount hdata hbody, if_neg (by decide), if_pos rfl, w.foldl_front]
  refine (if_pos hpcm).trans ?_
  have hplace : UInt32.ofNat (w.front.flatMap Chunk.bytes).length + 8 + 12 =
      UInt32.ofNat (12 + (w.front.flatMap Chunk.bytes).length + 8) := by
    have height : (8 : UInt32).toNat = 8 := rfl
    have htwelve : (12 : UInt32).toNat = 12 := rfl
    apply UInt32.toNat_inj.mp
    simp only [UInt32.toNat_add, UInt32.toNat_ofNat', height, htwelve]
    omega
  rw [hplace]
  rfl

end Head

/-! ## Files with chunks of even size -/

theorem toLittle_inj {m n : Nat} (hm : m < 4294967296) (hn : n < 4294967296)
    (h : toLittle 4 m = toLittle 4 n) : m = n := by
  have hlittle := congrArg ofLittle h
  rwa [ofLittle_toLittle hm, ofLittle_toLittle hn] at hlittle

theorem chunkHeader_inj {id id' rest rest' : Text} {size size' : Nat} (hid : id.length = 4)
    (hid' : id'.length = 4) (hsize : size < 4294967296) (hsize' : size' < 4294967296)
    (h : chunkHeader id size ++ rest = chunkHeader id' size' ++ rest') :
    id = id' ∧ size = size' ∧ rest = rest' := by
  obtain ⟨hheader, hrest⟩ := List.append_inj h
    ((length_chunkHeader hid size).trans (length_chunkHeader hid' size').symm)
  obtain ⟨heq, hlittle⟩ := List.append_inj hheader (hid.trans hid'.symm)
  exact ⟨heq, toLittle_inj hsize hsize' hlittle, hrest⟩

theorem riff_inj {m n : Nat} {payload payload' : Text} (hm : m < 4294967296) (hn : n < 4294967296)
    (h : riff m payload = riff n payload') : m = n ∧ payload = payload' := by
  obtain ⟨-, h⟩ := List.append_inj h rfl
  obtain ⟨hlittle, h⟩ := List.append_inj h ((length_toLittle 4 m).trans (length_toLittle 4 n).symm)
  exact ⟨toLittle_inj hm hn hlittle, (List.append_inj h rfl).2⟩

theorem bytes_inj {c d : Chunk} {rest rest' : Text} (h : c.bytes ++ rest = d.bytes ++ rest') :
    c = d ∧ rest = rest' := by
  obtain ⟨id, body, hid, hbody⟩ := c
  obtain ⟨id', body', hid', hbody'⟩ := d
  simp only [Chunk.bytes, List.append_assoc] at h
  obtain ⟨rfl, hsize, hbodies⟩ := chunkHeader_inj hid hid' hbody hbody' h
  rw [hsize] at hbodies
  obtain ⟨rfl, hrest⟩ := List.append_inj hbodies hsize
  exact ⟨rfl, (List.append_inj hrest rfl).2⟩

/-- What stands behind chunks that may come in front of the data: one of those that do, or the
data. -/
theorem header_behind {front cs : List Chunk} {id rest behind : Text} {size n : Nat}
    (hproper : ∀ c ∈ cs, c.Proper) (hid : id.length = 4) (hsize : size < 4294967296)
    (hn : n < 4294967296)
    (h : front.flatMap Chunk.bytes ++ (chunkHeader (bytes "data") n ++ behind) =
      cs.flatMap Chunk.bytes ++ (chunkHeader id size ++ rest)) :
    (∃ c ∈ front, id = c.id ∧ size = c.body.length) ∨ cs = front ∧ id = bytes "data" := by
  induction cs generalizing front with
  | nil =>
    cases front with
    | nil => exact .inr ⟨rfl, (chunkHeader_inj (by decide) hid hn hsize h).1.symm⟩
    | cons d front =>
      rw [List.flatMap_cons, List.append_assoc, Chunk.bytes, List.append_assoc] at h
      obtain ⟨heq, hlength, -⟩ := chunkHeader_inj d.id_length hid d.body_lt hsize h
      exact .inl ⟨d, List.mem_cons_self, heq.symm, hlength.symm⟩
  | cons c cs ih =>
    obtain ⟨hc, hcs⟩ := List.forall_mem_cons.mp hproper
    rw [List.flatMap_cons, List.append_assoc] at h
    cases front with
    | nil =>
      unfold Chunk.bytes at h
      rw [List.append_assoc] at h
      have hdata := (chunkHeader_inj (by decide) c.id_length hn c.body_lt h).1
      exact absurd hdata.symm hc.other
    | cons d front =>
      rw [List.flatMap_cons, List.append_assoc] at h
      obtain ⟨rfl, hmore⟩ := bytes_inj h
      rcases ih hcs hmore with ⟨e, he, hsame⟩ | ⟨rfl, hdata⟩
      · exact .inl ⟨e, List.mem_cons_of_mem _ he, hsame⟩
      · exact .inr ⟨rfl, hdata⟩

/-- A file of the format whose chunks in front of the data are even is like this. -/
theorem plain_of_even {capacity : Nat} {w : WaveFile} (hfits : w.Fits capacity)
    (heven : ∀ c ∈ w.front, c.body.length % 2 = 0) :
    Plain capacity w.bytes := by
  have hstands : ∀ {cs id size rest}, Stands w.bytes cs id size rest →
      (∃ c ∈ w.front, id = c.id ∧ size = c.body.length) ∨ cs = w.front ∧ id = bytes "data" := by
    rintro cs id size rest ⟨hproper, hid, hsize, length, hlength, -, hfile⟩
    have hpayload := (riff_inj w.payload_lt hlength hfile).2
    rw [w.payload_eq] at hpayload
    exact header_behind hproper hid hsize w.data.body_lt hpayload
  constructor
  · intro length payload hlength hfile
    rw [← (riff_inj w.payload_lt hlength hfile).1]
    exact Nat.le_add_right 4 _
  · intro cs size rest h
    rcases hstands h with ⟨c, hc, hid, -⟩ | ⟨rfl, -⟩
    · exact absurd hid.symm (w.front_proper c hc).other
    · exact ⟨w.fmt, List.mem_append_right _ List.mem_cons_self, w.fmt_id⟩
  · intro cs id size rest h hdata _ hmore
    rcases hstands h with ⟨c, hc, -, rfl⟩ | ⟨-, hid⟩
    · obtain ⟨-, hid, -, length, hlength, -, hfile⟩ := h
      have hlt := w.payload_lt
      rw [(riff_inj hlt hlength hfile).2, List.length_append, List.length_append,
        length_chunkHeader hid] at hlt
      exact ⟨heven c hc, by omega⟩
    · exact absurd hid hdata
  · intro cs id size rest h hdata _
    rcases hstands h with ⟨c, hc, -, rfl⟩ | ⟨-, hid⟩
    · exact .inl (hfits c hc)
    · exact absurd hid hdata
  · intro cs size rest format _ _ _
    exact ⟨w, rfl, hfits⟩

/-- A chunk in front of the format and one behind the data. -/
def evenFile : WaveFile where
  pre := [⟨bytes "LIST", [1, 2], rfl, by decide⟩]
  fmt := ⟨bytes "fmt ", [1, 0, 1, 0, 68, 172, 0, 0, 136, 88, 1, 0, 2, 0, 16, 0], rfl, by decide⟩
  post := []
  data := ⟨bytes "data", [1, 2, 3], rfl, by decide⟩
  after := [⟨bytes "LIST", [4], rfl, by decide⟩]
  fmt_id := rfl
  fmt_size := by decide
  data_id := rfl
  others := by decide
  size := by decide

/-- The same with a byte less in the first chunk, and a byte of padding for it. -/
def oddFile : WaveFile :=
  { evenFile with
    pre := [⟨bytes "LIST", [1], rfl, by decide⟩]
    others := by decide
    size := by decide }

/-- The padding is taken for the first character of the next chunk. -/
theorem payload_oddFile : oddFile.payload = chunkHeader (bytes "LIST") 1 ++
    ([1] ++ (chunkHeader [0, 102, 109, 116] 4128 ++ oddFile.payload.drop 17)) := by decide

theorem walk_oddFile {limit : UInt32} (hlimit : 9 < limit) :
    walk 64 limit 0 none oddFile.payload = .failed .endOfStream := by
  have hfirst : (0 : UInt32) < limit := UInt32.lt_trans (by decide) hlimit
  have hcount : (0 : UInt32) + 8 + UInt32.ofNat 1 = 9 := by decide
  rw [payload_oddFile, walk_header (by decide) hfirst (by decide) (by decide), if_neg (by decide),
    if_neg (by decide), if_pos (by decide), hcount]
  show walk 64 limit 9 none (chunkHeader [0, 102, 109, 116] 4128 ++ oddFile.payload.drop 17) = _
  rw [walk_header (by decide) hlimit (by decide) (by decide), if_neg (by decide),
    if_neg (by decide), if_neg (by decide)]
  decide

theorem headInfo_oddFile : headInfo 64 oddFile.bytes = .failed .endOfStream :=
  (headInfo_riff (by decide) oddFile.payload_lt oddFile.payload).trans (walk_oddFile (by decide))

end FreeAmp.Lmc.Wav
