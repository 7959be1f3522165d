/-
  Io/PullBufferRun.lean --- one writer and one reader on a `PullBuffer`.

  The system of this file is a `PullBuffer` together with what its two users are
  doing with it: the region the writer has been granted and the bytes it has
  stored there so far, the region the reader has been granted, everything the
  writer has committed and everything the reader has consumed.  The writer's
  stores are separate steps, so the reader may run at any point between them.

  The invariant comes in two parts.  `Cursors` is arithmetic: the indices are the
  two totals modulo the ring size, the byte count is their difference, and the
  writer is granted the overflow area only while no committed byte is wrapped.
  `Contents` is about bytes: the ring holds the committed bytes not yet consumed,
  the writer finds its own bytes in its region, the reader finds the next
  committed bytes in its region.  What keeps the spill of a write and the copy of
  a read apart is the last clause of `WriterCursors`: a read copies the head of
  the ring out only when committed bytes are wrapped, and then no writer holds a
  region that reaches the overflow.
-/
import FreeAmp.Io.PullBuffer
import FreeAmp.Lib.Ring
import FreeAmp.Lib.Fifo
import Mathlib.Tactic.Cases

namespace FreeAmp.Io

open FreeAmp.Lib

/-! ## The system -/

/-- A region granted to the writer, and the bytes the writer has left in it. -/
structure WriteRegion where
  /-- the pointer `BeginWrite` returned -/
  pointer : Nat
  bytes : List UInt8

/-- A region granted to the reader. -/
structure ReadRegion where
  /-- the pointer `BeginRead` returned -/
  pointer : Nat
  size : Nat

/-- A `PullBuffer` with its writer and its reader. -/
structure Ends where
  buffer : PullBuffer
  writing : Option WriteRegion
  reading : Option ReadRegion
  committed : List UInt8
  consumed : List UInt8

/-- What the users of the buffer can do. -/
inductive Action where
  /-- the writer calls `BeginWrite(n)` -/
  | beginWrite (n : Nat)
  /-- the writer stores a byte into its region -/
  | store (offset : Nat) (byte : UInt8)
  /-- the writer calls `EndWrite(m)` -/
  | endWrite (m : Nat)
  /-- the reader calls `BeginRead(n)` -/
  | beginRead (n : Nat)
  /-- the reader calls `EndRead(m)` -/
  | endRead (m : Nat)
  /-- the writer calls `SetEndOfStream` -/
  | setEndOfStream (eos : Bool)
  /-- the destructor sets `m_bExit` -/
  | exit

namespace Ends

/-- A fresh buffer with idle users. -/
def init (bufferSize overflowSize : Nat) (garbage : Memory UInt8) : Ends where
  buffer := .init bufferSize overflowSize garbage
  writing := none
  reading := none
  committed := []
  consumed := []

/-- `BeginWrite(n)` by the writer, which holds no region. -/
def beginWrite (s : Ends) (n : Nat) : Option Ends :=
  match s.writing, s.buffer.beginWrite n with
  | none, some (.noErr, some p, b) =>
    some { s with buffer := b, writing := some ⟨p, b.pullBuffer.slice p n⟩ }
  | none, some (_, _, b) => some { s with buffer := b }
  | _, _ => none

/-- A store by the writer into its region. -/
def store (s : Ends) (offset : Nat) (byte : UInt8) : Option Ends :=
  match s.writing with
  | some r =>
    if offset < r.bytes.length then
      some { s with
        buffer := { s.buffer with
          pullBuffer := s.buffer.pullBuffer.poke (r.pointer + offset) byte }
        writing := some ⟨r.pointer, r.bytes.set offset byte⟩ }
    else none
  | none => none

/-- `EndWrite(m)` for at most what was granted. -/
def endWrite (s : Ends) (m : Nat) : Option Ends :=
  match s.writing, s.buffer.endWrite m with
  | some r, some b =>
    if m ≤ r.bytes.length then
      some { s with
        buffer := b
        writing := none
        committed := s.committed ++ r.bytes.take m }
    else none
  | _, _ => none

/-- `BeginRead(n)` by the reader, which holds no region. -/
def beginRead (s : Ends) (n : Nat) : Option Ends :=
  match s.reading, s.buffer.beginRead n with
  | none, some (.noErr, some p, b) => some { s with buffer := b, reading := some ⟨p, n⟩ }
  | none, some (_, _, b) => some { s with buffer := b }
  | _, _ => none

/-- `EndRead(m)`: the reader has used the first `m` bytes of its region. -/
def endRead (s : Ends) (m : Nat) : Option Ends :=
  match s.reading, s.buffer.endRead m with
  | some r, some b =>
    if m ≤ r.size then
      some { s with
        buffer := b
        reading := none
        consumed := s.consumed ++ s.buffer.pullBuffer.slice r.pointer m }
    else none
  | _, _ => none

/-- One step of the writer, the reader or the destructor. -/
def next (s : Ends) : Action → Option Ends
  | .beginWrite n => s.beginWrite n
  | .store offset byte => s.store offset byte
  | .endWrite m => s.endWrite m
  | .beginRead n => s.beginRead n
  | .endRead m => s.endRead m
  | .setEndOfStream eos => some { s with buffer := s.buffer.setEndOfStream eos }
  | .exit => some { s with buffer := { s.buffer with exit := true } }

/-! ## What each step can do -/

theorem beginWrite_cases {s t : Ends} {n : Nat} (h : s.beginWrite n = some t) :
    t = s ∨ (s.writing = none ∧ s.buffer.beginWriteAsserts ∧
      n ≤ s.buffer.availToWrite n ∧ s.buffer.grantAsserts n ∧
      t = { s with
        buffer := { s.buffer with bytesToWrite := n }
        writing := some ⟨s.buffer.writeIndex,
          s.buffer.pullBuffer.slice s.buffer.writeIndex n⟩ }) := by
  simp only [beginWrite] at h
  split at h
  · rename_i hw hb
    obtain ⟨he, -⟩ | ⟨he, -⟩ | ⟨-, hp, rfl, hasserts, havail, hgrant⟩ :=
      PullBuffer.beginWrite_cases hb
    · simp at he
    · simp at he
    · obtain rfl := Option.some.inj hp
      exact .inr ⟨hw, hasserts, havail, hgrant, by simpa using h.symm⟩
  · rename_i e p b hne hw hb
    obtain ⟨-, rfl, -⟩ | ⟨-, rfl, -⟩ | ⟨rfl, rfl, -⟩ := PullBuffer.beginWrite_cases hb
    · exact .inl (by simpa using h.symm)
    · exact .inl (by simpa using h.symm)
    · exact (hne _ rfl rfl).elim
  · simp at h

theorem store_cases {s t : Ends} {offset : Nat} {byte : UInt8}
    (h : s.store offset byte = some t) :
    ∃ r, s.writing = some r ∧ offset < r.bytes.length ∧
      t = { s with
        buffer := { s.buffer with
          pullBuffer := s.buffer.pullBuffer.poke (r.pointer + offset) byte }
        writing := some ⟨r.pointer, r.bytes.set offset byte⟩ } := by
  simp only [store] at h
  split at h
  · rename_i r hw
    split at h
    · rename_i hoff
      exact ⟨r, hw, hoff, by simpa using h.symm⟩
    · simp at h
  · simp at h

theorem endWrite_cases {s t : Ends} {m : Nat} (h : s.endWrite m = some t) :
    ∃ r, s.writing = some r ∧ m ≤ r.bytes.length ∧
      s.buffer.bytesInBuffer + m ≤ s.buffer.bufferSize ∧
      t = { s with
        buffer := { s.buffer with
          pullBuffer := s.buffer.endWriteMemory m
          writeIndex := (s.buffer.writeIndex + m) % s.buffer.bufferSize
          bytesInBuffer := s.buffer.bytesInBuffer + m
          bytesToWrite := 0 }
        writing := none
        committed := s.committed ++ r.bytes.take m } := by
  simp only [endWrite] at h
  split at h
  · rename_i r b hw hb
    obtain ⟨-, hroom, rfl⟩ := PullBuffer.endWrite_cases hb
    split at h
    · rename_i hm
      exact ⟨r, hw, hm, hroom, by simpa using h.symm⟩
    · simp at h
  · simp at h

theorem beginRead_cases {s t : Ends} {n : Nat} (h : s.beginRead n = some t) :
    t = s ∨ (s.reading = none ∧ n ≤ s.buffer.bytesInBuffer ∧
      (s.buffer.overflowSize ≠ 0 →
        s.buffer.readIndex + n ≤ s.buffer.bufferSize + s.buffer.overflowSize) ∧
      t = { s with
        buffer := { s.buffer with
          pullBuffer := s.buffer.beginReadMemory n
          bytesToRead := n }
        reading := some ⟨s.buffer.readIndex, n⟩ }) := by
  simp only [beginRead] at h
  split at h
  · rename_i hr hb
    obtain ⟨he, -⟩ | ⟨-, hp, hcount, -, hfit, rfl⟩ := PullBuffer.beginRead_cases hb
    · simp at he
    · obtain rfl := Option.some.inj hp
      exact .inr ⟨hr, hcount, hfit, by simpa using h.symm⟩
  · rename_i hne hr hb
    obtain ⟨-, rfl⟩ | ⟨rfl, rfl, -⟩ := PullBuffer.beginRead_cases hb
    · exact .inl (by simpa using h.symm)
    · exact (hne _ rfl rfl).elim
  · simp at h

theorem endRead_cases {s t : Ends} {m : Nat} (h : s.endRead m = some t) :
    ∃ r, s.reading = some r ∧ m ≤ r.size ∧ m ≤ s.buffer.bytesInBuffer ∧
      t = { s with
        buffer := { s.buffer with
          readIndex := (s.buffer.readIndex + m) % s.buffer.bufferSize
          bytesInBuffer := s.buffer.bytesInBuffer - m
          bytesToRead := 0 }
        reading := none
        consumed := s.consumed ++ s.buffer.pullBuffer.slice r.pointer m } := by
  simp only [endRead] at h
  split at h
  · rename_i r b hr hb
    obtain ⟨-, hcount, rfl⟩ := PullBuffer.endRead_cases hb
    split at h
    · rename_i hm
      exact ⟨r, hr, hm, hcount, by simpa using h.symm⟩
    · simp at h
  · simp at h

end Ends

/-! ## Where the cursors can be -/

/-- How the two indices and the byte count of a buffer hang together: the
committed bytes run from the read index up to the write index, or they are
wrapped. -/
structure Layout (b : PullBuffer) : Prop where
  readIndex_lt : b.readIndex < b.bufferSize
  count_le : b.bytesInBuffer ≤ b.bufferSize
  writeIndex_eq : b.readIndex + b.bytesInBuffer < b.bufferSize ∧
      b.writeIndex = b.readIndex + b.bytesInBuffer ∨
    b.bufferSize ≤ b.readIndex + b.bytesInBuffer ∧
      b.writeIndex + b.bufferSize = b.readIndex + b.bytesInBuffer

namespace Layout

variable {b : PullBuffer} {n : Nat}

theorem writeIndex_lt (h : Layout b) : b.writeIndex < b.bufferSize := by
  have := h.readIndex_lt
  have := h.count_le
  rcases h.writeIndex_eq with ⟨_, _⟩ | ⟨_, _⟩ <;> omega

/-- On a buffer that is not empty the space `BeginWrite` computes is really there. -/
theorem grantAsserts_of_avail (h : Layout b) (hne : b.bytesInBuffer ≠ 0)
    (hn : n ≤ b.availToWrite n) : b.grantAsserts n := by
  have hr := h.readIndex_lt
  have hc := h.count_le
  have hw := h.writeIndex_eq
  unfold PullBuffer.availToWrite at hn
  unfold PullBuffer.grantAsserts
  split at hn
  · omega
  · split at hn <;> omega

/-- A write that reaches the overflow is granted only while no committed byte is
wrapped: everything committed lies below the write index. -/
theorem unwrapped_of_spill (h : Layout b) (hn : n ≤ b.availToWrite n)
    (hspill : b.bufferSize < b.writeIndex + n) :
    b.readIndex + b.bytesInBuffer = b.writeIndex := by
  have hr := h.readIndex_lt
  have hc := h.count_le
  have hw := h.writeIndex_eq
  unfold PullBuffer.availToWrite at hn
  split at hn
  · omega
  · split at hn
    · split at hn <;> omega
    · omega

/-- Bytes that are in the buffer and reach no further than the overflow are
available to the reader. -/
theorem le_availToRead (h : Layout b) (hn : b.readable n) : n ≤ b.availToRead n := by
  have hr := h.readIndex_lt
  have hc := h.count_le
  have hw := h.writeIndex_eq
  obtain ⟨hcount, hfit⟩ := hn
  unfold PullBuffer.availToRead
  split
  · split <;> omega
  · split
    · split <;> omega
    · omega

end Layout

/-- What the arithmetic of a granted write region is. -/
structure WriterCursors (b : PullBuffer) (r : WriteRegion) : Prop where
  pointer_eq : r.pointer = b.writeIndex
  size_eq : b.bytesToWrite = r.bytes.length
  fits : b.writeIndex + r.bytes.length ≤ b.bufferSize + b.overflowSize
  room : b.bytesInBuffer + r.bytes.length ≤ b.bufferSize
  /-- the spill and the copy-out of a read exclude each other -/
  unwrapped : b.bufferSize < b.writeIndex + r.bytes.length →
    b.readIndex + b.bytesInBuffer = b.writeIndex

/-- What the arithmetic of a granted read region is. -/
structure ReaderCursors (b : PullBuffer) (r : ReadRegion) : Prop where
  pointer_eq : r.pointer = b.readIndex
  size_eq : b.bytesToRead = r.size
  available : r.size ≤ b.bytesInBuffer
  fits : b.overflowSize ≠ 0 → r.pointer + r.size ≤ b.bufferSize + b.overflowSize

/-- The arithmetic half of the invariant. -/
structure Cursors (s : Ends) : Prop where
  size_pos : 0 < s.buffer.bufferSize
  readIndex_eq : s.buffer.readIndex = s.consumed.length % s.buffer.bufferSize
  writeIndex_eq : s.buffer.writeIndex = s.committed.length % s.buffer.bufferSize
  count_eq : s.consumed.length + s.buffer.bytesInBuffer = s.committed.length
  count_le : s.buffer.bytesInBuffer ≤ s.buffer.bufferSize
  writer_idle : s.writing = none → s.buffer.bytesToWrite = 0
  reader_idle : s.reading = none → s.buffer.bytesToRead = 0
  writer : ∀ r, s.writing = some r → WriterCursors s.buffer r
  reader : ∀ r, s.reading = some r → ReaderCursors s.buffer r

namespace Cursors

variable {s t : Ends}

theorem init {S O : Nat} (hS : 0 < S) (garbage : Memory UInt8) :
    Cursors (.init S O garbage) where
  size_pos := hS
  readIndex_eq := by simp [Ends.init, PullBuffer.init]
  writeIndex_eq := by simp [Ends.init, PullBuffer.init]
  count_eq := by simp [Ends.init, PullBuffer.init]
  count_le := Nat.zero_le _
  writer_idle _ := rfl
  reader_idle _ := rfl
  writer r hr := by simp [Ends.init] at hr
  reader r hr := by simp [Ends.init] at hr

theorem layout (h : Cursors s) : Layout s.buffer where
  readIndex_lt := h.readIndex_eq ▸ Nat.mod_lt _ h.size_pos
  count_le := h.count_le
  writeIndex_eq := by
    have hr : s.buffer.readIndex < s.buffer.bufferSize :=
      h.readIndex_eq ▸ Nat.mod_lt _ h.size_pos
    have hc := h.count_le
    rw [h.writeIndex_eq, ← h.count_eq]
    by_cases hwrap : s.buffer.readIndex + s.buffer.bytesInBuffer < s.buffer.bufferSize
    · refine .inl ⟨hwrap, ?_⟩
      rw [h.readIndex_eq] at hwrap ⊢
      exact add_mod_of_lt hwrap
    · refine .inr ⟨Nat.not_lt.mp hwrap, ?_⟩
      rw [h.readIndex_eq] at hwrap hr ⊢
      rw [add_mod_of_ge (Nat.not_lt.mp hwrap) (by omega)]
      omega

/-- The cell of the `i`-th byte from the read index on, before the end of the ring. -/
theorem read_cell (h : Cursors s) {i : Nat}
    (hi : s.buffer.readIndex + i < s.buffer.bufferSize) :
    (s.consumed.length + i) % s.buffer.bufferSize = s.buffer.readIndex + i := by
  rw [h.readIndex_eq] at hi ⊢
  exact add_mod_of_lt hi

/-- The cell of the `i`-th byte from the read index on, past the end of the ring. -/
theorem read_cell_wrapped (h : Cursors s) {i : Nat}
    (hi : s.buffer.bufferSize ≤ s.buffer.readIndex + i) (hlap : i < s.buffer.bufferSize) :
    (s.consumed.length + i) % s.buffer.bufferSize =
      s.buffer.readIndex + i - s.buffer.bufferSize := by
  have hr := h.layout.readIndex_lt
  rw [h.readIndex_eq] at hi hr ⊢
  exact add_mod_of_ge hi (by omega)

/-- The cell of the `i`-th byte from the write index on, before the end of the ring. -/
theorem write_cell (h : Cursors s) {i : Nat}
    (hi : s.buffer.writeIndex + i < s.buffer.bufferSize) :
    (s.committed.length + i) % s.buffer.bufferSize = s.buffer.writeIndex + i := by
  rw [h.writeIndex_eq] at hi ⊢
  exact add_mod_of_lt hi

/-- The cell of the `i`-th byte from the write index on, past the end of the ring. -/
theorem write_cell_wrapped (h : Cursors s) {i : Nat}
    (hi : s.buffer.bufferSize ≤ s.buffer.writeIndex + i) (hlap : i < s.buffer.bufferSize) :
    (s.committed.length + i) % s.buffer.bufferSize =
      s.buffer.writeIndex + i - s.buffer.bufferSize := by
  have hw := h.layout.writeIndex_lt
  rw [h.writeIndex_eq] at hi hw ⊢
  exact add_mod_of_ge hi (by omega)

/-! ### Preservation -/

theorem beginWrite (h : Cursors s) {n : Nat} (hst : s.beginWrite n = some t) : Cursors t := by
  obtain rfl | ⟨_, _, havail, hgrant, rfl⟩ := Ends.beginWrite_cases hst
  · exact h
  · refine
      { h with
        writer_idle := fun hw => by simp at hw
        writer := ?_
        reader := fun r hr => { h.reader r hr with } }
    intro r hr
    obtain rfl := Option.some.inj hr
    exact
      { pointer_eq := rfl
        size_eq := by simp
        fits := by simpa using hgrant.1
        room := by simpa using hgrant.2
        unwrapped := fun hspill => h.layout.unwrapped_of_spill havail (by simpa using hspill) }

theorem store (h : Cursors s) {offset : Nat} {byte : UInt8}
    (hst : s.store offset byte = some t) : Cursors t := by
  obtain ⟨r, hw, _, rfl⟩ := Ends.store_cases hst
  have hr := h.writer r hw
  refine
    { h with
      writer_idle := fun hw => by simp at hw
      writer := ?_
      reader := fun q hq => { h.reader q hq with } }
  intro r' hr'
  obtain rfl := Option.some.inj hr'
  exact
    { pointer_eq := hr.pointer_eq
      size_eq := by simpa using hr.size_eq
      fits := by simpa using hr.fits
      room := by simpa using hr.room
      unwrapped := by simpa using hr.unwrapped }

theorem endWrite (h : Cursors s) {m : Nat} (hst : s.endWrite m = some t) : Cursors t := by
  obtain ⟨r, hw, hm, hroom, rfl⟩ := Ends.endWrite_cases hst
  have hlen : (s.committed ++ r.bytes.take m).length = s.committed.length + m := by
    simp [Nat.min_eq_left hm]
  refine
    { h with
      writeIndex_eq := ?_
      count_eq := ?_
      count_le := hroom
      writer_idle := fun _ => rfl
      writer := fun q hq => by simp at hq
      reader := ?_ }
  · rw [hlen]
    simp only
    rw [h.writeIndex_eq, Nat.mod_add_mod]
  · have hcount := h.count_eq
    simp only [hlen]
    omega
  · intro q hq
    have hqc := h.reader q hq
    exact { hqc with available := Nat.le_trans hqc.available (Nat.le_add_right _ _) }

theorem beginRead (h : Cursors s) {n : Nat} (hst : s.beginRead n = some t) : Cursors t := by
  obtain rfl | ⟨_, hcount, hfit, rfl⟩ := Ends.beginRead_cases hst
  · exact h
  · refine
      { h with
        reader_idle := fun hr => by simp at hr
        writer := fun r hr => { h.writer r hr with }
        reader := ?_ }
    intro r hr
    obtain rfl := Option.some.inj hr
    exact { pointer_eq := rfl, size_eq := rfl, available := hcount, fits := hfit }

theorem endRead (h : Cursors s) {m : Nat} (hst : s.endRead m = some t) : Cursors t := by
  obtain ⟨r, _, _, hcount, rfl⟩ := Ends.endRead_cases hst
  have hlay := h.layout
  refine
    { h with
      readIndex_eq := ?_
      count_eq := ?_
      count_le := Nat.le_trans (Nat.sub_le _ _) h.count_le
      reader_idle := fun _ => rfl
      writer := ?_
      reader := fun q hq => by simp at hq }
  · simp only [List.length_append, Memory.length_slice]
    rw [h.readIndex_eq, Nat.mod_add_mod]
  · have htotal := h.count_eq
    simp only [List.length_append, Memory.length_slice]
    omega
  · intro q hq
    have hqc := h.writer q hq
    have hroom := hqc.room
    refine
      { hqc with
        room := by simp only; omega
        unwrapped := ?_ }
    -- the bytes read lie below the write index, so the read index does not wrap
    intro hspill
    have hunwrapped := hqc.unwrapped hspill
    have hlt := hlay.writeIndex_lt
    simp only
    rw [Nat.mod_eq_of_lt (by omega)]
    omega

theorem step {a : Action} (h : Cursors s) (hst : s.next a = some t) : Cursors t := by
  cases a with
  | beginWrite n => exact h.beginWrite hst
  | store offset byte => exact h.store hst
  | endWrite m => exact h.endWrite hst
  | beginRead n => exact h.beginRead hst
  | endRead m => exact h.endRead hst
  | setEndOfStream eos =>
    obtain rfl := Option.some.inj hst
    exact
      { h with
        writer := fun r hr => { h.writer r hr with }
        reader := fun r hr => { h.reader r hr with } }
  | exit =>
    obtain rfl := Option.some.inj hst
    exact
      { h with
        writer := fun r hr => { h.writer r hr with }
        reader := fun r hr => { h.reader r hr with } }

theorem of_run {S O : Nat} (hS : 0 < S) {garbage : Memory UInt8} {acts : List Action}
    (hrun : Run (Steps Ends.next) (.init S O garbage) acts s) : Cursors s :=
  hrun.invariant (fun _ _ _ h hst => h.step hst) (init hS garbage)

end Cursors

/-! ## The sizes never change -/

theorem Ends.next_sizes {s t : Ends} {a : Action} (h : s.next a = some t) :
    t.buffer.bufferSize = s.buffer.bufferSize ∧
      t.buffer.overflowSize = s.buffer.overflowSize := by
  cases a with
  | beginWrite n =>
    obtain rfl | ⟨_, _, _, _, rfl⟩ := Ends.beginWrite_cases h <;> exact ⟨rfl, rfl⟩
  | store offset byte =>
    obtain ⟨_, _, _, rfl⟩ := Ends.store_cases h
    exact ⟨rfl, rfl⟩
  | endWrite m =>
    obtain ⟨_, _, _, _, rfl⟩ := Ends.endWrite_cases h
    exact ⟨rfl, rfl⟩
  | beginRead n =>
    obtain rfl | ⟨_, _, _, rfl⟩ := Ends.beginRead_cases h <;> exact ⟨rfl, rfl⟩
  | endRead m =>
    obtain ⟨_, _, _, _, rfl⟩ := Ends.endRead_cases h
    exact ⟨rfl, rfl⟩
  | setEndOfStream eos =>
    obtain rfl := Option.some.inj h
    exact ⟨rfl, rfl⟩
  | exit =>
    obtain rfl := Option.some.inj h
    exact ⟨rfl, rfl⟩

theorem Ends.run_sizes {S O : Nat} {garbage : Memory UInt8} {acts : List Action} {s : Ends}
    (hrun : Run (Steps Ends.next) (.init S O garbage) acts s) :
    s.buffer.bufferSize = S ∧ s.buffer.overflowSize = O := by
  refine hrun.invariant
    (P := fun s => s.buffer.bufferSize = S ∧ s.buffer.overflowSize = O) ?_ ⟨rfl, rfl⟩
  intro s a t hs hst
  obtain ⟨hb, ho⟩ := Ends.next_sizes hst
  exact ⟨hb.trans hs.1, ho.trans hs.2⟩

/-! ## Grants -/

/-- What a caller of `BeginWrite(n)` may expect: it is refused and nothing
changes, or it is granted a region inside the allocation that takes no more than
the free space.  No assertion fails on the way. -/
def GrantSafe (b : PullBuffer) (n : Nat) : Prop :=
  ∃ e p b', b.beginWrite n = some (e, p, b') ∧
    ((e = .bufferTooSmall ∨ e = .interrupt) ∧ b' = b ∨
      e = .noErr ∧ b.writeIndex + n ≤ b.bufferSize + b.overflowSize ∧
        b.bytesInBuffer + n ≤ b.bufferSize)

theorem grantSafe_of_asserts {b : PullBuffer} {n : Nat} (hhead : b.beginWriteAsserts)
    (hgrant : n ≤ b.availToWrite n → b.grantAsserts n) : GrantSafe b n := by
  unfold GrantSafe PullBuffer.beginWrite
  rw [if_pos hhead]
  by_cases hexit : b.exit = true
  · rw [if_pos hexit]
    exact ⟨_, _, _, rfl, .inl ⟨.inr rfl, rfl⟩⟩
  · rw [if_neg hexit]
    by_cases havail : b.availToWrite n < n
    · rw [if_pos havail]
      exact ⟨_, _, _, rfl, .inl ⟨.inl rfl, rfl⟩⟩
    · have hasserts := hgrant (Nat.not_lt.mp havail)
      rw [if_neg havail, if_pos hasserts]
      exact ⟨_, _, _, rfl, .inr ⟨rfl, hasserts⟩⟩

/-- The one case that goes wrong: an empty buffer grants any request, and one that
does not fit fails an assertion. -/
theorem not_grantSafe_of_empty {b : PullBuffer} {n : Nat} (hexit : b.exit = false)
    (hempty : b.bytesInBuffer = 0) (heq : b.writeIndex = b.readIndex)
    (hbig : ¬ b.grantAsserts n) : ¬ GrantSafe b n := by
  have havail : b.availToWrite n = n := by
    unfold PullBuffer.availToWrite
    rw [if_neg (by omega), if_pos heq, if_pos hempty]
  rintro ⟨e, p, b', hb, -⟩
  obtain ⟨-, -, hx⟩ | ⟨-, -, hx⟩ | ⟨-, -, -, -, -, hx⟩ := PullBuffer.beginWrite_cases hb
  · rw [hexit] at hx
    simp at hx
  · omega
  · exact hbig hx

/-- In every state the writer and the reader can bring the buffer into, a call of
`BeginWrite(n)` is safe exactly when the buffer holds committed bytes (or is being
destroyed) or the request fits, at the place the write index happens to stand,
into the allocation and the ring; and no call of `EndWrite` for at most what was
granted fails an assertion. -/
theorem beginWrite_safe_iff {S O : Nat} (hS : 0 < S) {garbage : Memory UInt8}
    {acts : List Action} {s : Ends}
    (hrun : Run (Steps Ends.next) (.init S O garbage) acts s) :
    (s.writing = none → ∀ n, GrantSafe s.buffer n ↔
      (s.buffer.exit = true ∨ s.buffer.bytesInBuffer ≠ 0 ∨
        s.buffer.writeIndex + n ≤ S + O ∧ n ≤ S)) ∧
    (∀ r, s.writing = some r → ∀ m, m ≤ r.bytes.length →
      ∃ b, s.buffer.endWrite m = some b) := by
  have hc : Cursors s := Cursors.of_run hS hrun
  obtain ⟨hsize, hover⟩ := Ends.run_sizes hrun
  constructor
  · intro hidle n
    have hhead : s.buffer.beginWriteAsserts :=
      ⟨hc.layout.readIndex_lt, hc.layout.writeIndex_lt, hc.writer_idle hidle⟩
    have hfits : s.buffer.bytesInBuffer = 0 →
        (s.buffer.grantAsserts n ↔ s.buffer.writeIndex + n ≤ S + O ∧ n ≤ S) := by
      intro hempty
      unfold PullBuffer.grantAsserts
      rw [hsize, hover, hempty, Nat.zero_add]
    constructor
    · intro hsafe
      by_contra hnot
      push Not at hnot
      obtain ⟨hexit, hempty, hbig⟩ := hnot
      have heq : s.buffer.writeIndex = s.buffer.readIndex := by
        have hlt := hc.layout.readIndex_lt
        rcases hc.layout.writeIndex_eq with ⟨_, _⟩ | ⟨_, _⟩ <;> omega
      refine not_grantSafe_of_empty (by simpa using hexit) hempty heq ?_ hsafe
      intro hasserts
      have hfit := (hfits hempty).mp hasserts
      have hlt := hbig hfit.1
      omega
    · intro hok
      by_cases hexit : s.buffer.exit = true
      · refine ⟨.interrupt, none, s.buffer, ?_, .inl ⟨.inr rfl, rfl⟩⟩
        rw [PullBuffer.beginWrite, if_pos hhead, if_pos hexit]
      · refine grantSafe_of_asserts hhead fun havail => ?_
        by_cases hempty : s.buffer.bytesInBuffer = 0
        · exact (hfits hempty).mpr (hok.resolve_left hexit |>.resolve_left (absurd hempty))
        · exact hc.layout.grantAsserts_of_avail hempty havail
  · intro r hr m hm
    have hw := hc.writer r hr
    have hfits := hw.fits
    have hroom := hw.room
    have hasserts : m ≤ s.buffer.bytesToWrite ∧
        s.buffer.bytesInBuffer + m ≤ s.buffer.bufferSize := by
      rw [hw.size_eq]
      exact ⟨hm, by omega⟩
    simp only [PullBuffer.endWrite]
    rw [if_pos hasserts]
    by_cases hwrap : s.buffer.bufferSize < s.buffer.writeIndex + m
    · rw [if_pos hwrap, if_pos (by omega)]
      exact ⟨_, rfl⟩
    · rw [if_neg hwrap]
      exact ⟨_, rfl⟩

theorem beginWrite_safe_iff_fresh :
    0 < 4 ∧ (GrantSafe (PullBuffer.init 4 2 fun _ => 0) 4 ↔
      (false = true ∨ 0 ≠ 0 ∨ 0 + 4 ≤ 4 + 2 ∧ 4 ≤ 4)) :=
  ⟨by decide, (beginWrite_safe_iff (S := 4) (O := 2) (by decide) (.refl _)).1 rfl 4⟩

/-- A fresh buffer of four bytes asked for five fails an assertion of `BeginWrite`. -/
theorem beginWrite_unsafe_fresh :
    ¬ ∀ (S O : Nat) (garbage : Memory UInt8) (acts : List Action) (s : Ends) (n : Nat),
      0 < S → Run (Steps Ends.next) (.init S O garbage) acts s → s.writing = none →
        GrantSafe s.buffer n := by
  intro h
  have hsafe := h 4 0 (fun _ => 0) [] (.init 4 0 fun _ => 0) 5 (by decide) (.refl _) rfl
  refine not_grantSafe_of_empty rfl rfl rfl ?_ hsafe
  decide

end FreeAmp.Io
