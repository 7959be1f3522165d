/-
  Io/PullBuffer.lean --- the ring buffer of `io/src/pullbuffer.cpp`.

  One writer and one reader share a `PullBuffer`.  The memory is a ring of
  `bufferSize` bytes followed by `overflowSize` bytes that are not part of the
  ring: a write that runs past the end of the ring spills into the overflow and
  is copied back to the head of the ring by `endWrite`; a read that runs past the
  end has the head of the ring copied out behind it by `beginRead`.  Both sides
  therefore always see one contiguous region.

  Every member function holds `m_pMutex` for all it does to the shared fields,
  so each is one atomic step and is modelled as one function from the state
  before to the state after.  A failed `assert` ends the program: the functions
  return `none` there.  Indices are natural numbers; `int32` and `size_t` differ
  from them only for rings that would not fit in the address space.
-/
import FreeAmp.Base.Errors
import FreeAmp.Lib.Memory

namespace FreeAmp.Io

open FreeAmp.Lib

/-- `class PullBuffer`: the fields the member functions read and write. -/
structure PullBuffer where
  bytesInBuffer : Nat
  overflowSize : Nat
  bufferSize : Nat
  readIndex : Nat
  writeIndex : Nat
  eos : Bool
  exit : Bool
  /-- `m_iBytesToWrite`: the size of the region granted to the writer -/
  bytesToWrite : Nat
  /-- `m_iBytesToRead`: the size of the region granted to the reader -/
  bytesToRead : Nat
  pullBuffer : Memory UInt8

namespace PullBuffer

/-- The constructor.  `garbage` is what `new unsigned char[..]` leaves in memory. -/
def init (bufferSize overflowSize : Nat) (garbage : Memory UInt8) : PullBuffer where
  bytesInBuffer := 0
  overflowSize := overflowSize
  bufferSize := bufferSize
  readIndex := 0
  writeIndex := 0
  eos := false
  exit := false
  bytesToWrite := 0
  bytesToRead := 0
  pullBuffer := garbage

/-! ## Writing -/

/-- `iAvail` of `BeginWrite`. -/
def availToWrite (b : PullBuffer) (bytesNeeded : Nat) : Nat :=
  if b.readIndex < b.writeIndex then
    b.bufferSize - b.writeIndex + min b.readIndex b.overflowSize
  else if b.writeIndex = b.readIndex then
    -- equal indices mean empty or full, and only the byte count tells which
    if b.bytesInBuffer = 0 then bytesNeeded else 0
  else
    b.readIndex - b.writeIndex

/-- The assertions at the head of `BeginWrite`. -/
def beginWriteAsserts (b : PullBuffer) : Prop :=
  b.readIndex < b.bufferSize ∧ b.writeIndex < b.bufferSize ∧ b.bytesToWrite = 0

/-- The two assertions at the end of `BeginWrite`. -/
def grantAsserts (b : PullBuffer) (bytesNeeded : Nat) : Prop :=
  b.writeIndex + bytesNeeded ≤ b.bufferSize + b.overflowSize ∧
    b.bytesInBuffer + bytesNeeded ≤ b.bufferSize

instance (b : PullBuffer) : Decidable b.beginWriteAsserts :=
  inferInstanceAs (Decidable (_ ∧ _ ∧ _))

instance (b : PullBuffer) (bytesNeeded : Nat) : Decidable (b.grantAsserts bytesNeeded) :=
  inferInstanceAs (Decidable (_ ∧ _))

/-- `PullBuffer::BeginWrite`: the error, the pointer stored through `pBuffer` (if
it is) and the buffer afterwards. -/
def beginWrite (b : PullBuffer) (bytesNeeded : Nat) :
    Option (Error × Option Nat × PullBuffer) :=
  if b.beginWriteAsserts then
    if b.exit then
      some (.interrupt, none, b)
    else if b.availToWrite bytesNeeded < bytesNeeded then
      some (.bufferTooSmall, some b.writeIndex, b)
    else if b.grantAsserts bytesNeeded then
      some (.noErr, some b.writeIndex, { b with bytesToWrite := bytesNeeded })
    else none
  else none

def endWrite (b : PullBuffer) (bytesWritten : Nat) : Option PullBuffer :=
  if bytesWritten ≤ b.bytesToWrite ∧ b.bytesInBuffer + bytesWritten ≤ b.bufferSize then
    let writeIndex := b.writeIndex + bytesWritten
    let done (mem : Memory UInt8) : PullBuffer :=
      { b with
        pullBuffer := mem
        writeIndex := writeIndex % b.bufferSize
        bytesInBuffer := b.bytesInBuffer + bytesWritten
        bytesToWrite := 0 }
    if b.bufferSize < writeIndex then
      -- bring the bytes that spilled into the overflow back to the head
      if 0 < b.overflowSize ∧ writeIndex - b.bufferSize ≤ b.overflowSize then
        some (done (b.pullBuffer.copy 0 b.bufferSize (writeIndex - b.bufferSize)))
      else none
    else some (done b.pullBuffer)
  else none

/-! ## Reading -/

/-- `iAvail` of `BeginRead`. -/
def availToRead (b : PullBuffer) (bytesNeeded : Nat) : Nat :=
  if b.writeIndex < b.readIndex then
    if b.overflowSize = 0 then
      (b.bufferSize - b.readIndex) + b.writeIndex
    else
      b.bufferSize - b.readIndex + min b.writeIndex b.overflowSize
  else if b.readIndex = b.writeIndex then
    if b.bytesInBuffer = 0 then 0 else bytesNeeded
  else
    b.writeIndex - b.readIndex

/-- `iOverflow` of `BeginRead`: how far the region runs past the end of the ring
(negative when it does not). -/
def readOverflow (b : PullBuffer) (bytesNeeded : Nat) : Int :=
  (b.readIndex + bytesNeeded : Int) - b.bufferSize

def beginRead (b : PullBuffer) (bytesNeeded : Nat) :
    Option (Error × Option Nat × PullBuffer) :=
  if b.bytesToRead = 0 then
    if b.exit then
      some (.interrupt, none, b)
    else if b.eos ∧ b.bytesInBuffer < bytesNeeded then
      some (.endOfStream, none, b)
    else if b.bytesInBuffer < bytesNeeded then
      some (.noDataAvail, none, b)
    else if b.availToRead bytesNeeded < bytesNeeded then
      some (.noDataAvail, none, b)
    else if b.overflowSize ≠ 0 ∧ b.readOverflow bytesNeeded > b.overflowSize then
      some (.invalidParam, none, b)
    else
      -- the guard above is the assertion `m_iOverflowSize >= iOverflow`
      let mem :=
        if b.overflowSize ≠ 0 ∧ b.readOverflow bytesNeeded > 0 then
          b.pullBuffer.copy b.bufferSize 0 (b.readOverflow bytesNeeded).toNat
        else b.pullBuffer
      some (.noErr, some b.readIndex, { b with pullBuffer := mem, bytesToRead := bytesNeeded })
  else none

def endRead (b : PullBuffer) (bytesUsed : Nat) : Option PullBuffer :=
  if bytesUsed ≤ b.bytesToRead ∧ bytesUsed ≤ b.bytesInBuffer then
    if b.bytesInBuffer - bytesUsed ≤ b.bufferSize then
      some { b with
        readIndex := (b.readIndex + bytesUsed) % b.bufferSize
        bytesInBuffer := b.bytesInBuffer - bytesUsed
        bytesToRead := 0 }
    else none
  else none

/-- What `BeginRead` asks of a request before it grants it. -/
def readable (b : PullBuffer) (bytesNeeded : Nat) : Prop :=
  bytesNeeded ≤ b.bytesInBuffer ∧
    (b.overflowSize ≠ 0 → b.readIndex + bytesNeeded ≤ b.bufferSize + b.overflowSize)

instance (b : PullBuffer) (bytesNeeded : Nat) : Decidable (b.readable bytesNeeded) :=
  inferInstanceAs (Decidable (_ ∧ _))

/-! ## Indices -/

/-- `PullBuffer::GetReadIndex`: it sleeps while the reader holds a region. -/
def getReadIndex (b : PullBuffer) : Option Nat :=
  if b.exit then some Error.interrupt.code
  else if b.bytesToRead ≠ 0 then none
  else some b.readIndex

/-- `PullBuffer::GetWriteIndex`: it sleeps while the writer holds a region. -/
def getWriteIndex (b : PullBuffer) : Option Nat :=
  if b.exit then some Error.interrupt.code
  else if b.bytesToWrite ≠ 0 then none
  else some b.writeIndex

def setEndOfStream (b : PullBuffer) (eos : Bool) : PullBuffer := { b with eos := eos }

/-! ## What each call can do

One lemma per call says all that its possible outcomes are; the invariants are
proved from these and never unfold the calls again. -/

theorem beginWrite_cases {b b' : PullBuffer} {n : Nat} {e : Error} {p : Option Nat}
    (h : b.beginWrite n = some (e, p, b')) :
    (e = .interrupt ∧ b' = b ∧ b.exit = true) ∨
    (e = .bufferTooSmall ∧ b' = b ∧ b.availToWrite n < n) ∨
    (e = .noErr ∧ p = some b.writeIndex ∧ b' = { b with bytesToWrite := n } ∧
      b.beginWriteAsserts ∧ n ≤ b.availToWrite n ∧ b.grantAsserts n) := by
  rw [beginWrite] at h
  split at h
  · rename_i hasserts
    split at h
    · rename_i hexit
      obtain ⟨rfl, -, rfl⟩ := by simpa using h
      exact .inl ⟨rfl, rfl, hexit⟩
    · split at h
      · rename_i havail
        obtain ⟨rfl, -, rfl⟩ := by simpa using h
        exact .inr (.inl ⟨rfl, rfl, havail⟩)
      · rename_i havail
        split at h
        · rename_i hgrant
          obtain ⟨rfl, rfl, rfl⟩ := by simpa using h
          exact .inr (.inr ⟨rfl, rfl, rfl, hasserts, Nat.not_lt.mp havail, hgrant⟩)
        · simp at h
  · simp at h

/-- The memory `EndWrite` leaves: the spilled bytes are at the head of the ring too. -/
def endWriteMemory (b : PullBuffer) (bytesWritten : Nat) : Memory UInt8 :=
  if b.bufferSize < b.writeIndex + bytesWritten then
    b.pullBuffer.copy 0 b.bufferSize (b.writeIndex + bytesWritten - b.bufferSize)
  else b.pullBuffer

theorem endWrite_cases {b b' : PullBuffer} {m : Nat} (h : b.endWrite m = some b') :
    m ≤ b.bytesToWrite ∧ b.bytesInBuffer + m ≤ b.bufferSize ∧
      b' = { b with
        pullBuffer := b.endWriteMemory m
        writeIndex := (b.writeIndex + m) % b.bufferSize
        bytesInBuffer := b.bytesInBuffer + m
        bytesToWrite := 0 } := by
  simp only [endWrite] at h
  split at h
  · rename_i hasserts
    refine ⟨hasserts.1, hasserts.2, ?_⟩
    split at h
    · rename_i hwrap
      split at h
      · simpa [endWriteMemory, hwrap] using h.symm
      · simp at h
    · rename_i hwrap
      simpa [endWriteMemory, hwrap] using h.symm
  · simp at h

/-- The memory a successful `BeginRead` leaves. -/
def beginReadMemory (b : PullBuffer) (bytesNeeded : Nat) : Memory UInt8 :=
  if b.overflowSize ≠ 0 ∧ b.bufferSize < b.readIndex + bytesNeeded then
    b.pullBuffer.copy b.bufferSize 0 (b.readIndex + bytesNeeded - b.bufferSize)
  else b.pullBuffer

theorem beginRead_cases {b b' : PullBuffer} {n : Nat} {e : Error} {p : Option Nat}
    (h : b.beginRead n = some (e, p, b')) :
    (e ≠ .noErr ∧ b' = b) ∨
    (e = .noErr ∧ p = some b.readIndex ∧ n ≤ b.bytesInBuffer ∧ n ≤ b.availToRead n ∧
      (b.overflowSize ≠ 0 → b.readIndex + n ≤ b.bufferSize + b.overflowSize) ∧
      b' = { b with pullBuffer := b.beginReadMemory n, bytesToRead := n }) := by
  simp only [beginRead] at h
  split at h
  · split at h
    · obtain ⟨rfl, -, rfl⟩ := by simpa using h
      exact .inl ⟨by decide, rfl⟩
    · split at h
      · obtain ⟨rfl, -, rfl⟩ := by simpa using h
        exact .inl ⟨by decide, rfl⟩
      · split at h
        · obtain ⟨rfl, -, rfl⟩ := by simpa using h
          exact .inl ⟨by decide, rfl⟩
        · rename_i hcount
          split at h
          · obtain ⟨rfl, -, rfl⟩ := by simpa using h
            exact .inl ⟨by decide, rfl⟩
          · rename_i havail
            split at h
            · obtain ⟨rfl, -, rfl⟩ := by simpa using h
              exact .inl ⟨by decide, rfl⟩
            · rename_i hover
              obtain ⟨rfl, rfl, rfl⟩ := by simpa using h
              refine .inr ⟨rfl, rfl, by omega, by omega, ?_, ?_⟩
              · intro ho
                simp only [readOverflow] at hover
                omega
              · have hmem : (0 < b.readOverflow n) ↔ b.bufferSize < b.readIndex + n := by
                  simp only [readOverflow]; omega
                have hlen : (b.readOverflow n).toNat = b.readIndex + n - b.bufferSize := by
                  simp only [readOverflow]; omega
                simp only [beginReadMemory, hmem, hlen, ne_eq]
  · simp at h

theorem endRead_cases {b b' : PullBuffer} {m : Nat} (h : b.endRead m = some b') :
    m ≤ b.bytesToRead ∧ m ≤ b.bytesInBuffer ∧
      b' = { b with
        readIndex := (b.readIndex + m) % b.bufferSize
        bytesInBuffer := b.bytesInBuffer - m
        bytesToRead := 0 } := by
  rw [endRead] at h
  split at h
  · rename_i hasserts
    split at h
    · exact ⟨hasserts.1, hasserts.2, by simpa using h.symm⟩
    · simp at h
  · simp at h

/-! ## What the copies do to a cell -/

theorem endWriteMemory_above {b : PullBuffer} {m a : Nat}
    (ha : b.writeIndex + m - b.bufferSize ≤ a) : b.endWriteMemory m a = b.pullBuffer a := by
  unfold endWriteMemory
  split
  · exact Memory.copy_outside (.inr (by omega))
  · rfl

theorem endWriteMemory_below {b : PullBuffer} {m a : Nat}
    (ha : a < b.writeIndex + m - b.bufferSize) :
    b.endWriteMemory m a = b.pullBuffer (b.bufferSize + a) := by
  unfold endWriteMemory
  rw [if_pos (by omega)]
  have hcopy : b.pullBuffer.copy 0 b.bufferSize (b.writeIndex + m - b.bufferSize) (0 + a) =
      b.pullBuffer (b.bufferSize + a) := Memory.copy_inside ha
  rwa [Nat.zero_add] at hcopy

theorem beginReadMemory_ring {b : PullBuffer} {n a : Nat} (ha : a < b.bufferSize) :
    b.beginReadMemory n a = b.pullBuffer a := by
  unfold beginReadMemory
  split
  · exact Memory.copy_outside (.inl ha)
  · rfl

theorem beginReadMemory_overflow {b : PullBuffer} {n i : Nat} (hover : b.overflowSize ≠ 0)
    (hi : b.bufferSize + i < b.readIndex + n) :
    b.beginReadMemory n (b.bufferSize + i) = b.pullBuffer i := by
  unfold beginReadMemory
  rw [if_pos ⟨hover, by omega⟩, Memory.copy_inside (by omega), Nat.zero_add]

end PullBuffer

end FreeAmp.Io
