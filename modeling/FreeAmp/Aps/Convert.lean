/-
  Aps/Convert.lean --- the lists of `base/aps/apsconvert.cpp` and `base/aps/apsplaylist.h`
  as bytes of a message.
-/
import FreeAmp.Base.Database
import FreeAmp.Lib.Memory
import FreeAmp.Lib.Wire

namespace FreeAmp.Aps

open FreeAmp.Base FreeAmp.Lib

/-! ## The data -/

def sizeofInt : Nat := 4

abbrev StreamList : Type := List (Text × Text)

/-- `EventRecord`, where a `long` has `sizeofLong` bytes. -/
structure EventRecord (sizeofLong : Nat) where
  strGUID : Text
  nEventType : UInt32
  lTimeStamp : BitVec (8 * sizeofLong)
  deriving DecidableEq, Repr

abbrev EventLog (sizeofLong : Nat) : Type := List (EventRecord sizeofLong)

/-- `APSPlaylist`: its `m_pPlayList` -/
structure APSPlaylist where
  playList : List (Text × Text)
  deriving DecidableEq, Repr

/-! ## `BufSize` -/

def bufSizeStreams (theVec : StreamList) : Nat :=
  theVec.foldl (fun nBufSize i => nBufSize + (i.1.length + i.2.length))
    (theVec.length * 2 + sizeofInt)

def bufSizeLog {sizeofLong : Nat} (theLog : EventLog sizeofLong) : Nat :=
  theLog.foldl (fun nBufSize i =>
    nBufSize + (i.strGUID.length + 1) + (sizeofInt + sizeofLong)) sizeofInt

def APSPlaylist.getBufLen (list : APSPlaylist) : Nat :=
  list.playList.foldl (fun nBufLen i => nBufLen + i.1.length + i.2.length + 2) sizeofInt

/-! ## `ToBuffer` -/

/-- `pBuffer`, as the memory it points into, and `nOffset`. -/
structure Cursor where
  memory : Memory UInt8
  pBuffer : Nat
  nOffset : Nat

namespace Cursor

/-- `memcpy(&pBuffer[nOffset], ...)`, and `nOffset` moved behind it. -/
def put (c : Cursor) (bs : List UInt8) : Cursor :=
  { c with memory := c.memory.store (c.pBuffer + c.nOffset) bs, nOffset := c.nOffset + bs.length }

/-- The text of a `string`, then `pBuffer[nOffset] = '\0'`. -/
def putString (c : Cursor) (s : Text) : Cursor := (c.put s).put [0]

end Cursor

/-- `ToBuffer(StreamList&, char*, int&)`: the memory behind it and `nBuffUsed`. -/
def toBufferStreams (theVec : StreamList) (memory : Memory UInt8) (pBuffer : Nat) :
    Memory UInt8 × Nat :=
  let c := theVec.foldl (fun c i => (c.putString i.1).putString i.2)
    (Cursor.put ⟨memory, pBuffer, 0⟩ (toLittle sizeofInt theVec.length))
  (c.memory, c.nOffset)

/-- `ToBuffer(EventLog&, char*, int&)` -/
def toBufferLog {sizeofLong : Nat} (theLog : EventLog sizeofLong) (memory : Memory UInt8)
    (pBuffer : Nat) : Memory UInt8 × Nat :=
  let c := theLog.foldl (fun c i =>
      ((c.putString i.strGUID).put (toLittle sizeofInt i.nEventType.toNat)).put
        (toLittle sizeofLong i.lTimeStamp.toNat))
    (Cursor.put ⟨memory, pBuffer, 0⟩ (toLittle sizeofInt theLog.length))
  (c.memory, c.nOffset)

def APSPlaylist.toBuffer (list : APSPlaylist) (memory : Memory UInt8) (pBuffer : Nat) :
    Memory UInt8 × Nat :=
  let c := list.playList.foldl (fun c i => (c.putString i.1).putString i.2)
    (Cursor.put ⟨memory, pBuffer, 0⟩ (toLittle sizeofInt list.playList.length))
  (c.memory, c.nOffset)

/-! ## `FromBuffer` -/

/-- What a decoder can do wrong. -/
inductive ReadFault where
  /-- bytes are read behind the end of the buffer -/
  | overread
  deriving DecidableEq, Repr

/-- `memcpy(&x, &pBuffer[nOffset], w)` -/
def readNumber (w : Nat) : Reader ReadFault Nat := fun buf nOffset =>
  if nOffset + w ≤ buf.length then .ok (ofLittle ((buf.drop nOffset).take w), nOffset + w)
  else .error .overread

/-- `str = &pBuffer[nOffset]` -/
def readString : Reader ReadFault Text := fun buf nOffset =>
  if 0 ∈ buf.drop nOffset then
    .ok (cStr (buf.drop nOffset), nOffset + (cStr (buf.drop nOffset)).length + 1)
  else .error .overread

/-- `nNumEntries`, for a loop that counts up to it: none if it is negative. -/
def readCount : Reader ReadFault Nat := fun buf nOffset => do
  let (n, nOffset) ← readNumber sizeofInt buf nOffset
  .ok ((toLong (UInt32.ofNat n)).toNat, nOffset)

/-- One round of the loop over pairs of strings. -/
def readPair : Reader ReadFault (Text × Text) := fun buf nOffset => do
  let (strOne, nOffset) ← readString buf nOffset
  let (strTwo, nOffset) ← readString buf nOffset
  .ok ((strOne, strTwo), nOffset)

/-- One round of the loop over events. -/
def readEvent (sizeofLong : Nat) : Reader ReadFault (EventRecord sizeofLong) :=
  fun buf nOffset => do
    let (strGUID, nOffset) ← readString buf nOffset
    let (nEventType, nOffset) ← readNumber sizeofInt buf nOffset
    let (lTimeStamp, nOffset) ← readNumber sizeofLong buf nOffset
    .ok (⟨strGUID, UInt32.ofNat nEventType, BitVec.ofNat _ lTimeStamp⟩, nOffset)

/-- `FromBuffer(StreamList&, char*, int&)`, where `buf` is what can be read at `pBuffer`: the
list behind it and `nBuffUsed`. -/
def fromBufferStreams (theVec : StreamList) (buf : List UInt8) :
    Except ReadFault (StreamList × Nat) := do
  let (nNumEntries, nOffset) ← readCount buf 0
  let (entries, nOffset) ← readMany readPair nNumEntries buf nOffset
  .ok (theVec ++ entries, nOffset)

/-- `FromBuffer(EventLog&, char*, int&)` -/
def fromBufferLog {sizeofLong : Nat} (theLog : EventLog sizeofLong) (buf : List UInt8) :
    Except ReadFault (EventLog sizeofLong × Nat) := do
  let (nNumEntries, nOffset) ← readCount buf 0
  let (entries, nOffset) ← readMany (readEvent sizeofLong) nNumEntries buf nOffset
  .ok (theLog ++ entries, nOffset)

/-- `APSPlaylist::FromBuffer`, which clears the list first. -/
def APSPlaylist.fromBuffer (_list : APSPlaylist) (buf : List UInt8) :
    Except ReadFault (APSPlaylist × Nat) := do
  let (nNumEntries, nOffset) ← readCount buf 0
  let (entries, nOffset) ← readMany readPair nNumEntries buf nOffset
  .ok (⟨entries⟩, nOffset)

/-! ## The bytes of a list -/

/-- A string and the byte that ends it. -/
def encodeString (s : Text) : List UInt8 := s ++ [0]

def encodePair (i : Text × Text) : List UInt8 := encodeString i.1 ++ encodeString i.2

def encodeEvent {sizeofLong : Nat} (i : EventRecord sizeofLong) : List UInt8 :=
  encodeString i.strGUID ++
    (toLittle sizeofInt i.nEventType.toNat ++ toLittle sizeofLong i.lTimeStamp.toNat)

/-- The number of the entries, then the entries. -/
def encodeList {α : Type} (enc : α → List UInt8) (entries : List α) : List UInt8 :=
  toLittle sizeofInt entries.length ++ entries.flatMap enc

theorem length_encodePair (i : Text × Text) :
    (encodePair i).length = i.1.length + i.2.length + 2 := by
  simp only [encodePair, encodeString, List.length_append, List.length_singleton]
  omega

theorem length_encodeEvent {sizeofLong : Nat} (i : EventRecord sizeofLong) :
    (encodeEvent i).length = i.strGUID.length + 1 + (sizeofInt + sizeofLong) := by
  simp only [encodeEvent, encodeString, List.length_append, List.length_singleton,
    length_toLittle]

/-- A size added up over the entries is the length of their bytes. -/
theorem foldl_length {α : Type} {enc : α → List UInt8} {f : Nat → α → Nat}
    (h : ∀ n i, f n i = n + (enc i).length) : ∀ (entries : List α) (n : Nat),
      entries.foldl f n = n + (entries.flatMap enc).length := by
  intro entries
  induction entries with
  | nil => intro n; simp
  | cons i entries ih =>
    intro n
    rw [List.foldl_cons, ih, h, List.flatMap_cons, List.length_append, Nat.add_assoc]

theorem bufSizeStreams_eq (theVec : StreamList) :
    bufSizeStreams theVec = (encodeList encodePair theVec).length := by
  have hsum : ∀ (v : StreamList) (n : Nat),
      v.foldl (fun nBufSize i => nBufSize + (i.1.length + i.2.length)) n + v.length * 2 =
        n + (v.flatMap encodePair).length := by
    intro v
    induction v with
    | nil => intro n; simp
    | cons i v ih =>
      intro n
      have hrest := ih (n + (i.1.length + i.2.length))
      rw [List.foldl_cons, List.flatMap_cons, List.length_append, length_encodePair,
        List.length_cons]
      omega
  have hfold : ∀ (v : StreamList) (n k : Nat),
      v.foldl (fun nBufSize i => nBufSize + (i.1.length + i.2.length)) (n + k) =
        v.foldl (fun nBufSize i => nBufSize + (i.1.length + i.2.length)) n + k := by
    intro v n k
    have hleft := hsum v (n + k)
    have hright := hsum v n
    omega
  have hall := hsum theVec sizeofInt
  rw [bufSizeStreams, Nat.add_comm, hfold, hall, encodeList, List.length_append, length_toLittle]

theorem bufSizeLog_eq {sizeofLong : Nat} (theLog : EventLog sizeofLong) :
    bufSizeLog theLog = (encodeList encodeEvent theLog).length := by
  rw [encodeList, List.length_append, length_toLittle]
  refine foldl_length (fun n i => ?_) theLog sizeofInt
  rw [length_encodeEvent]
  omega

theorem getBufLen_eq (list : APSPlaylist) :
    list.getBufLen = (encodeList encodePair list.playList).length := by
  rw [encodeList, List.length_append, length_toLittle]
  refine foldl_length (fun n i => ?_) list.playList sizeofInt
  rw [length_encodePair]
  omega

/-! ## What is written -/

namespace Cursor

/-- The cursor after `bs` has been written from `pBuffer` on. -/
def written (memory : Memory UInt8) (pBuffer : Nat) (bs : List UInt8) : Cursor :=
  ⟨memory.store pBuffer bs, pBuffer, bs.length⟩

theorem put_written (memory : Memory UInt8) (pBuffer : Nat) (bs cs : List UInt8) :
    (written memory pBuffer bs).put cs = written memory pBuffer (bs ++ cs) := by
  simp only [written, put, Memory.store_store, List.length_append]

theorem putString_written (memory : Memory UInt8) (pBuffer : Nat) (bs : List UInt8) (s : Text) :
    (written memory pBuffer bs).putString s = written memory pBuffer (bs ++ encodeString s) := by
  rw [putString, put_written, put_written, encodeString, List.append_assoc]

theorem put_start (memory : Memory UInt8) (pBuffer : Nat) (bs : List UInt8) :
    Cursor.put ⟨memory, pBuffer, 0⟩ bs = written memory pBuffer bs := by
  simp [written, put]

theorem foldl_written {α : Type} {enc : α → List UInt8} {f : Cursor → α → Cursor}
    {memory : Memory UInt8} {pBuffer : Nat}
    (h : ∀ bs i, f (written memory pBuffer bs) i = written memory pBuffer (bs ++ enc i)) :
    ∀ (entries : List α) (bs : List UInt8),
      entries.foldl f (written memory pBuffer bs) =
        written memory pBuffer (bs ++ entries.flatMap enc) := by
  intro entries
  induction entries with
  | nil => intro bs; simp
  | cons i entries ih =>
    intro bs
    rw [List.foldl_cons, h, ih, List.flatMap_cons, List.append_assoc]

end Cursor

theorem putPair_written (memory : Memory UInt8) (pBuffer : Nat) (bs : List UInt8)
    (i : Text × Text) :
    ((Cursor.written memory pBuffer bs).putString i.1).putString i.2 =
      Cursor.written memory pBuffer (bs ++ encodePair i) := by
  rw [Cursor.putString_written, Cursor.putString_written, encodePair, List.append_assoc]

theorem putEvent_written {sizeofLong : Nat} (memory : Memory UInt8) (pBuffer : Nat)
    (bs : List UInt8) (i : EventRecord sizeofLong) :
    (((Cursor.written memory pBuffer bs).putString i.strGUID).put
        (toLittle sizeofInt i.nEventType.toNat)).put (toLittle sizeofLong i.lTimeStamp.toNat) =
      Cursor.written memory pBuffer (bs ++ encodeEvent i) := by
  rw [Cursor.putString_written, Cursor.put_written, Cursor.put_written, encodeEvent,
    List.append_assoc, List.append_assoc]

theorem toBufferStreams_eq (theVec : StreamList) (memory : Memory UInt8) (pBuffer : Nat) :
    toBufferStreams theVec memory pBuffer =
      (memory.store pBuffer (encodeList encodePair theVec), bufSizeStreams theVec) := by
  rw [toBufferStreams, Cursor.put_start, Cursor.foldl_written (putPair_written memory pBuffer),
    bufSizeStreams_eq]
  rfl

theorem toBufferLog_eq {sizeofLong : Nat} (theLog : EventLog sizeofLong)
    (memory : Memory UInt8) (pBuffer : Nat) :
    toBufferLog theLog memory pBuffer =
      (memory.store pBuffer (encodeList encodeEvent theLog), bufSizeLog theLog) := by
  rw [toBufferLog, Cursor.put_start, Cursor.foldl_written (putEvent_written memory pBuffer),
    bufSizeLog_eq]
  rfl

theorem toBuffer_eq (list : APSPlaylist) (memory : Memory UInt8) (pBuffer : Nat) :
    list.toBuffer memory pBuffer =
      (memory.store pBuffer (encodeList encodePair list.playList), list.getBufLen) := by
  rw [APSPlaylist.toBuffer, Cursor.put_start,
    Cursor.foldl_written (putPair_written memory pBuffer), getBufLen_eq]
  rfl

/-! ## What is read back -/

theorem reads_number {w n : Nat} (h : n < 256 ^ w) : Reads (readNumber w) (toLittle w n) n := by
  intro before after
  have hroom : before.length + w ≤ (before ++ toLittle w n ++ after).length := by
    simp only [List.length_append, length_toLittle]
    omega
  have htake : ((before ++ toLittle w n ++ after).drop before.length).take w = toLittle w n := by
    rw [List.append_assoc, List.drop_left, List.take_left' (length_toLittle w n)]
  rw [readNumber, if_pos hroom, htake, ofLittle_toLittle h, length_toLittle]

theorem reads_string {s : Text} (h : NulFree s) : Reads readString (encodeString s) s := by
  intro before after
  have hrest : (before ++ encodeString s ++ after).drop before.length = s ++ 0 :: after := by
    rw [List.append_assoc, List.drop_left, encodeString, List.append_assoc]
    rfl
  have hend : cStr (s ++ 0 :: after) = s := by
    rw [cStr_append h, cStr_cons_zero, List.append_nil]
  rw [readString, hrest, if_pos (by simp), hend, encodeString, List.length_append,
    List.length_singleton, Nat.add_assoc]

theorem reads_count {n : Nat} (h : n < 2 ^ 31) : Reads readCount (toLittle sizeofInt n) n := by
  intro before after
  have hsmall : n < 256 ^ sizeofInt := by
    simp only [sizeofInt]
    omega
  have hval : (toLong (UInt32.ofNat n)).toNat = n := by
    simp only [toLong, UInt32.toNat_ofNat']
    split <;> omega
  simp only [readCount, reads_number hsmall before after, ok_bind, hval]

theorem reads_pair {i : Text × Text} (h : NulFree i.1 ∧ NulFree i.2) :
    Reads readPair (encodePair i) i :=
  (reads_string h.1).bind (g := fun strOne buf nOffset => do
    let (strTwo, nOffset) ← readString buf nOffset
    .ok ((strOne, strTwo), nOffset)) ((reads_string h.2).map (i.1, ·))

theorem reads_event {sizeofLong : Nat} {i : EventRecord sizeofLong} (h : NulFree i.strGUID) :
    Reads (readEvent sizeofLong) (encodeEvent i) i := by
  have htype : i.nEventType.toNat < 256 ^ sizeofInt := i.nEventType.toNat_lt
  have hstamp : i.lTimeStamp.toNat < 256 ^ sizeofLong := by
    have hlt := i.lTimeStamp.isLt
    rwa [Nat.pow_mul] at hlt
  have hnumbers := (reads_number htype).bind
    (g := fun nEventType buf nOffset => do
      let (lTimeStamp, nOffset) ← readNumber sizeofLong buf nOffset
      .ok ((⟨i.strGUID, UInt32.ofNat nEventType, BitVec.ofNat _ lTimeStamp⟩ :
        EventRecord sizeofLong), nOffset))
    ((reads_number hstamp).map fun lTimeStamp =>
      EventRecord.mk i.strGUID (UInt32.ofNat i.nEventType.toNat) (BitVec.ofNat _ lTimeStamp))
  rw [UInt32.ofNat_toNat, BitVec.ofNat_toNat, BitVec.setWidth_eq] at hnumbers
  exact (reads_string h).bind (g := fun strGUID buf nOffset => do
    let (nEventType, nOffset) ← readNumber sizeofInt buf nOffset
    let (lTimeStamp, nOffset) ← readNumber sizeofLong buf nOffset
    .ok (EventRecord.mk strGUID (UInt32.ofNat nEventType) (BitVec.ofNat _ lTimeStamp), nOffset))
    hnumbers

/-- Count and entries are read from the front of a message. -/
theorem reads_list {α : Type} {read : Reader ReadFault α} {enc : α → List UInt8}
    {entries : List α} (hcount : entries.length < 2 ^ 31)
    (hread : ∀ i ∈ entries, Reads read (enc i) i) (after : List UInt8) :
    (do
      let (n, nOffset) ← readCount (encodeList enc entries ++ after) 0
      readMany read n (encodeList enc entries ++ after) nOffset) =
        .ok (entries, (encodeList enc entries).length) := by
  have hall := (reads_count hcount).bind (g := fun n => readMany read n) (Reads.many hread)
  simpa [encodeList] using hall [] after

/-! ## Round trips -/

/-- `ToBuffer` writes `x` as `BufSize` bytes, which `FromBuffer` turns back into `x` and the
same count, whatever stands behind them. -/
def RoundTrips {α : Type} (bufSize : α → Nat)
    (toBuffer : α → Memory UInt8 → Nat → Memory UInt8 × Nat)
    (fromBuffer : List UInt8 → Except ReadFault (α × Nat)) (x : α) : Prop :=
  ∃ written : List UInt8, written.length = bufSize x ∧
    (∀ memory pBuffer, toBuffer x memory pBuffer = (memory.store pBuffer written, bufSize x)) ∧
    ∀ after, fromBuffer (written ++ after) = .ok (x, bufSize x)

/-- A pair of strings without a NUL. -/
def NulFreePair (i : Text × Text) : Prop := NulFree i.1 ∧ NulFree i.2

instance (i : Text × Text) : Decidable (NulFreePair i) := inferInstanceAs (Decidable (_ ∧ _))

theorem length_lt_of_encodeList {α : Type} {enc : α → List UInt8} {entries : List α}
    (henc : ∀ i, 0 < (enc i).length) {n : Nat} (h : (encodeList enc entries).length < n) :
    entries.length < n := by
  have hle : ∀ l : List α, l.length ≤ (l.flatMap enc).length := by
    intro l
    induction l with
    | nil => simp
    | cons i l ih =>
      have hpos := henc i
      rw [List.flatMap_cons, List.length_append, List.length_cons]
      omega
  have hentries := hle entries
  rw [encodeList, List.length_append] at h
  omega

theorem encodePair_pos (i : Text × Text) : 0 < (encodePair i).length := by
  rw [length_encodePair]
  omega

theorem encodeEvent_pos {sizeofLong : Nat} (i : EventRecord sizeofLong) :
    0 < (encodeEvent i).length := by
  rw [length_encodeEvent]
  omega

theorem streams_roundTrips {theVec : StreamList} (hnul : ∀ i ∈ theVec, NulFreePair i)
    (hsize : bufSizeStreams theVec < 2 ^ 31) :
    RoundTrips bufSizeStreams toBufferStreams (fromBufferStreams []) theVec := by
  rw [bufSizeStreams_eq] at hsize
  refine ⟨encodeList encodePair theVec, (bufSizeStreams_eq theVec).symm,
    toBufferStreams_eq theVec, ?_⟩
  intro after
  have hread := reads_list (length_lt_of_encodeList encodePair_pos hsize)
    (fun i hi => reads_pair (hnul i hi)) after
  obtain ⟨⟨n, nOffset⟩, hcount, hentries⟩ := bind_eq_ok.mp hread
  simp only [fromBufferStreams, hcount, ok_bind, hentries, List.nil_append, bufSizeStreams_eq]

theorem log_roundTrips {sizeofLong : Nat} {theLog : EventLog sizeofLong}
    (hnul : ∀ i ∈ theLog, NulFree i.strGUID) (hsize : bufSizeLog theLog < 2 ^ 31) :
    RoundTrips bufSizeLog toBufferLog (fromBufferLog []) theLog := by
  rw [bufSizeLog_eq] at hsize
  refine ⟨encodeList encodeEvent theLog, (bufSizeLog_eq theLog).symm, toBufferLog_eq theLog, ?_⟩
  intro after
  have hread := reads_list (length_lt_of_encodeList encodeEvent_pos hsize)
    (fun i hi => reads_event (hnul i hi)) after
  obtain ⟨⟨n, nOffset⟩, hcount, hentries⟩ := bind_eq_ok.mp hread
  simp only [fromBufferLog, hcount, ok_bind, hentries, List.nil_append, bufSizeLog_eq]

theorem playlist_roundTrips (empty : APSPlaylist) {list : APSPlaylist}
    (hnul : ∀ i ∈ list.playList, NulFreePair i) (hsize : list.getBufLen < 2 ^ 31) :
    RoundTrips APSPlaylist.getBufLen APSPlaylist.toBuffer empty.fromBuffer list := by
  rw [getBufLen_eq] at hsize
  refine ⟨encodeList encodePair list.playList, (getBufLen_eq list).symm, toBuffer_eq list, ?_⟩
  intro after
  have hread := reads_list (length_lt_of_encodeList encodePair_pos hsize)
    (fun i hi => reads_pair (hnul i hi)) after
  obtain ⟨⟨n, nOffset⟩, hcount, hentries⟩ := bind_eq_ok.mp hread
  simp only [APSPlaylist.fromBuffer, hcount, ok_bind, hentries, getBufLen_eq]

/-! ## Messages of several lists -/

/-- One of the lists a message is made of. -/
inductive Part (sizeofLong : Nat) where
  | streams (theVec : StreamList)
  | log (theLog : EventLog sizeofLong)
  | playlist (theList : APSPlaylist)
  deriving DecidableEq, Repr

namespace Part

variable {sizeofLong : Nat}

def bufSize : Part sizeofLong → Nat
  | .streams theVec => bufSizeStreams theVec
  | .log theLog => bufSizeLog theLog
  | .playlist theList => theList.getBufLen

def toBuffer : Part sizeofLong → Memory UInt8 → Nat → Memory UInt8 × Nat
  | .streams theVec => toBufferStreams theVec
  | .log theLog => toBufferLog theLog
  | .playlist theList => theList.toBuffer

/-- `FromBuffer` into an empty container of the kind of `part` -/
def fromBuffer (part : Part sizeofLong) (buf : List UInt8) :
    Except ReadFault (Part sizeofLong × Nat) :=
  match part with
  | .streams _ => do
      let (theVec, nBuffUsed) ← fromBufferStreams [] buf
      .ok (.streams theVec, nBuffUsed)
  | .log _ => do
      let (theLog, nBuffUsed) ← fromBufferLog [] buf
      .ok (.log theLog, nBuffUsed)
  | .playlist _ => do
      let (theList, nBuffUsed) ← APSPlaylist.fromBuffer ⟨[]⟩ buf
      .ok (.playlist theList, nBuffUsed)

/-- No string of the list holds a NUL. -/
def NulFree : Part sizeofLong → Prop
  | .streams theVec => ∀ i ∈ theVec, NulFreePair i
  | .log theLog => ∀ i ∈ theLog, Base.NulFree i.strGUID
  | .playlist theList => ∀ i ∈ theList.playList, NulFreePair i

instance : (part : Part sizeofLong) → Decidable part.NulFree
  | .streams theVec => inferInstanceAs (Decidable (∀ i ∈ theVec, NulFreePair i))
  | .log theLog => inferInstanceAs (Decidable (∀ i ∈ theLog, Base.NulFree i.strGUID))
  | .playlist theList => inferInstanceAs (Decidable (∀ i ∈ theList.playList, NulFreePair i))

theorem roundTrips {part : Part sizeofLong} (hnul : part.NulFree)
    (hsize : part.bufSize < 2 ^ 31) : RoundTrips bufSize toBuffer part.fromBuffer part := by
  cases part with
  | streams theVec =>
    obtain ⟨written, hlength, hwritten, hread⟩ := streams_roundTrips hnul hsize
    refine ⟨written, hlength, hwritten, fun after => ?_⟩
    simp only [fromBuffer, hread, ok_bind, bufSize]
  | log theLog =>
    obtain ⟨written, hlength, hwritten, hread⟩ := log_roundTrips hnul hsize
    refine ⟨written, hlength, hwritten, fun after => ?_⟩
    simp only [fromBuffer, hread, ok_bind, bufSize]
  | playlist theList =>
    obtain ⟨written, hlength, hwritten, hread⟩ := playlist_roundTrips ⟨[]⟩ hnul hsize
    refine ⟨written, hlength, hwritten, fun after => ?_⟩
    simp only [fromBuffer, hread, ok_bind, bufSize]

/-- The parts written one behind the other, each with `ToBuffer` where the one before it
ended. -/
def toBufferAll : List (Part sizeofLong) → Memory UInt8 → Nat → Memory UInt8 × Nat
  | [], memory, pBuffer => (memory, pBuffer)
  | part :: parts, memory, pBuffer =>
    let (memory, nBuffUsed) := part.toBuffer memory pBuffer
    toBufferAll parts memory (pBuffer + nBuffUsed)

/-- As many lists read one behind the other, of the kinds of `parts`. -/
def fromBufferAll : List (Part sizeofLong) → List UInt8 →
    Except ReadFault (List (Part sizeofLong))
  | [], _ => .ok []
  | part :: parts, buf => do
      let (read, nBuffUsed) ← part.fromBuffer buf
      let reads ← fromBufferAll parts (buf.drop nBuffUsed)
      .ok (read :: reads)

end Part

/-- Each of the three kinds of list is written as `BufSize` bytes and read back from them, and
so is every message made of such lists. -/
theorem convert_roundTrips (sizeofLong : Nat) :
    (∀ theVec : StreamList, (∀ i ∈ theVec, NulFreePair i) → bufSizeStreams theVec < 2 ^ 31 →
      RoundTrips bufSizeStreams toBufferStreams (fromBufferStreams []) theVec) ∧
    (∀ theLog : EventLog sizeofLong, (∀ i ∈ theLog, NulFree i.strGUID) →
      bufSizeLog theLog < 2 ^ 31 →
      RoundTrips bufSizeLog toBufferLog (fromBufferLog []) theLog) ∧
    (∀ theList empty : APSPlaylist, (∀ i ∈ theList.playList, NulFreePair i) →
      theList.getBufLen < 2 ^ 31 →
      RoundTrips APSPlaylist.getBufLen APSPlaylist.toBuffer empty.fromBuffer theList) ∧
    (∀ parts : List (Part sizeofLong), (∀ part ∈ parts, part.NulFree) →
      (∀ part ∈ parts, part.bufSize < 2 ^ 31) →
      ∀ (memory : Memory UInt8) (pBuffer : Nat) (after : List UInt8),
        ∃ message : List UInt8, message.length = (parts.map Part.bufSize).sum ∧
          Part.toBufferAll parts memory pBuffer =
            (memory.store pBuffer message, pBuffer + message.length) ∧
          Part.fromBufferAll parts (message ++ after) = .ok parts) := by
  refine ⟨fun _ hnul hsize => streams_roundTrips hnul hsize,
    fun _ hnul hsize => log_roundTrips hnul hsize,
    fun _ empty hnul hsize => playlist_roundTrips empty hnul hsize, ?_⟩
  intro parts
  induction parts with
  | nil =>
    intro _ _ memory pBuffer after
    refine ⟨[], by simp, ?_, rfl⟩
    simp [Part.toBufferAll]
  | cons part parts ih =>
    intro hnul hsize memory pBuffer after
    obtain ⟨written, hlength, hwritten, hread⟩ :=
      Part.roundTrips (hnul part List.mem_cons_self) (hsize part List.mem_cons_self)
    obtain ⟨message, hsum, hmessage, hreads⟩ :=
      ih (fun p hp => hnul p (List.mem_cons_of_mem _ hp))
        (fun p hp => hsize p (List.mem_cons_of_mem _ hp))
        (memory.store pBuffer written) (pBuffer + part.bufSize) after
    refine ⟨written ++ message, ?_, ?_, ?_⟩
    · rw [List.length_append, hlength, hsum, List.map_cons, List.sum_cons]
    · simp only [Part.toBufferAll, hwritten, hmessage]
      rw [← hlength, Memory.store_store, List.length_append, Nat.add_assoc]
    · have hrest : (written ++ (message ++ after)).drop part.bufSize = message ++ after :=
        List.drop_left' hlength
      simp only [Part.fromBufferAll, List.append_assoc, hread, ok_bind, hrest, hreads]

/-- A list of two streams, one of them without a name, a log of one event, a playlist of one
entry, and the message of all three. -/
theorem convert_roundTrips_message :
    RoundTrips bufSizeStreams toBufferStreams (fromBufferStreams [])
      [(bytes "a", bytes "u"), ([], bytes "v")] ∧
    RoundTrips bufSizeLog toBufferLog (fromBufferLog []) ([⟨bytes "g", 4, 7⟩] : EventLog 4) ∧
    RoundTrips APSPlaylist.getBufLen APSPlaylist.toBuffer (APSPlaylist.fromBuffer ⟨[]⟩)
      ⟨[(bytes "a", [])]⟩ ∧
    ∃ message : List UInt8, message.length = 32 ∧
      Part.fromBufferAll
        ([.streams [(bytes "a", bytes "u"), ([], bytes "v")], .log [⟨bytes "g", 4, 7⟩],
          .playlist ⟨[(bytes "a", [])]⟩] : List (Part 4)) (message ++ [9]) =
        .ok [.streams [(bytes "a", bytes "u"), ([], bytes "v")], .log [⟨bytes "g", 4, 7⟩],
          .playlist ⟨[(bytes "a", [])]⟩] := by
  obtain ⟨hstreams, hlog, hplaylist, hmessage⟩ := convert_roundTrips 4
  refine ⟨hstreams _ (by decide) (by decide), hlog _ (by decide) (by decide),
    hplaylist _ _ (by decide) (by decide), ?_⟩
  obtain ⟨message, hlength, -, hread⟩ := hmessage
    [.streams [(bytes "a", bytes "u"), ([], bytes "v")], .log [⟨bytes "g", 4, 7⟩],
      .playlist ⟨[(bytes "a", [])]⟩]
    (by decide) (by decide) (fun _ => 0) 0 [9]
  exact ⟨message, hlength, hread⟩

end FreeAmp.Aps
