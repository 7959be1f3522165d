/-
  Io/PullBufferResize.lean --- `PullBuffer::Resize` between the reads and writes.

  `Resize` copies the first bytes of the ring to a new one and puts the write index
  behind them.  It is refused when the ring has been read from, so that the unread
  bytes are the first bytes of the ring, full or not; and when they do not fit.  Where
  they fit exactly, the write index it sets is the size of the new ring, which is no
  index into it.

  `Clear` and `DiscardBytes` are here for the states they lead to.  The stream of a
  buffer that has been cleared or resized is counted from its unread bytes on.
-/
import FreeAmp.Io.PullBufferContents

namespace FreeAmp.Io

open FreeAmp.Lib

namespace PullBuffer

/-! ## The calls that wait for both users -/

/-- `PullBuffer::Clear`: it sleeps while a region is held. -/
def clear (b : PullBuffer) : Option (Error × PullBuffer) :=
  if b.exit then some (.interrupt, b)
  else if b.bytesToRead ≠ 0 ∨ b.bytesToWrite ≠ 0 then none
  else some (.noErr, { b with eos := false, readIndex := 0, writeIndex := 0, bytesInBuffer := 0 })

/-- `PullBuffer::DiscardBytes`: it spins while a region is held. -/
def discardBytes (b : PullBuffer) : Option (Error × PullBuffer) :=
  if b.exit then some (.interrupt, b)
  else if b.bytesToRead ≠ 0 ∨ b.bytesToWrite ≠ 0 then none
  else
    -- negative in the source when the buffer is not half full
    let bytesToDiscard := b.bytesInBuffer - b.bufferSize / 2
    if 0 < bytesToDiscard then
      if b.bytesInBuffer - bytesToDiscard ≤ b.bufferSize then
        some (.noErr, { b with
          readIndex := (b.readIndex + bytesToDiscard) % b.bufferSize
          bytesInBuffer := b.bytesInBuffer - bytesToDiscard })
      else none
    else some (.noErr, b)

/-- `PullBuffer::Resize`: it sleeps while a region is held.  `garbage` is what
`new unsigned char[..]` leaves in memory.  The two guards are tested before the lock is
taken; here nothing happens in between. -/
def resize (b : PullBuffer) (newSize newOverflowSize : Nat) (garbage : Memory UInt8) :
    Option (Error × PullBuffer) :=
  if newSize < b.bytesInBuffer then some (.bufferTooSmall, b)
  else if b.readIndex ≠ 0 then some (.invalidError, b)
  else if b.exit then some (.interrupt, b)
  else if b.bytesToRead ≠ 0 ∨ b.bytesToWrite ≠ 0 then none
  else some (.noErr, { b with
    pullBuffer := garbage.store 0 (b.pullBuffer.slice 0 b.bytesInBuffer)
    bufferSize := newSize
    overflowSize := newOverflowSize
    writeIndex := b.bytesInBuffer })

/-- `Resize` is granted a ring that the unread bytes fill. -/
def FillsExactly (b : PullBuffer) (newSize : Nat) : Prop :=
  newSize = b.bytesInBuffer ∧ b.readIndex = 0 ∧ b.exit = false

instance (b : PullBuffer) (newSize : Nat) : Decidable (b.FillsExactly newSize) :=
  inferInstanceAs (Decidable (_ ∧ _ ∧ _))

variable {b b' : PullBuffer} {newSize newOverflowSize : Nat} {garbage : Memory UInt8} {e : Error}

theorem clear_cases (h : b.clear = some (e, b')) :
    (e ≠ .noErr ∧ b' = b) ∨
    (e = .noErr ∧ b.bytesToRead = 0 ∧ b.bytesToWrite = 0 ∧
      b' = { b with eos := false, readIndex := 0, writeIndex := 0, bytesInBuffer := 0 }) := by
  unfold clear at h
  split at h
  · obtain ⟨rfl, rfl⟩ := by simpa using h
    exact .inl ⟨nofun, rfl⟩
  · split at h
    · simp at h
    · rename_i hidle
      push Not at hidle
      obtain ⟨rfl, rfl⟩ := by simpa using h
      exact .inr ⟨rfl, hidle.1, hidle.2, rfl⟩

theorem discardBytes_cases (h : b.discardBytes = some (e, b')) :
    (e ≠ .noErr ∧ b' = b) ∨
    (e = .noErr ∧ b.bytesToRead = 0 ∧ b.bytesToWrite = 0 ∧
      (b' = b ∧ b.bytesInBuffer - b.bufferSize / 2 = 0 ∨
        b' = { b with
          readIndex := (b.readIndex + (b.bytesInBuffer - b.bufferSize / 2)) % b.bufferSize
          bytesInBuffer := b.bytesInBuffer - (b.bytesInBuffer - b.bufferSize / 2) })) := by
  unfold discardBytes at h
  split at h
  · obtain ⟨rfl, rfl⟩ := by simpa using h
    exact .inl ⟨nofun, rfl⟩
  · split at h
    · simp at h
    · rename_i hidle
      push Not at hidle
      simp only at h
      split at h
      · split at h
        · obtain ⟨rfl, rfl⟩ := by simpa using h
          exact .inr ⟨rfl, hidle.1, hidle.2, .inr rfl⟩
        · simp at h
      · rename_i hfew
        obtain ⟨rfl, rfl⟩ := by simpa using h
        exact .inr ⟨rfl, hidle.1, hidle.2, .inl ⟨rfl, Nat.eq_zero_of_not_pos hfew⟩⟩

theorem resize_cases (h : b.resize newSize newOverflowSize garbage = some (e, b')) :
    (e ≠ .noErr ∧ b' = b) ∨
    (e = .noErr ∧ b.bytesInBuffer ≤ newSize ∧ b.readIndex = 0 ∧ b.exit = false ∧
      b.bytesToRead = 0 ∧ b.bytesToWrite = 0 ∧
      b' = { b with
        pullBuffer := garbage.store 0 (b.pullBuffer.slice 0 b.bytesInBuffer)
        bufferSize := newSize
        overflowSize := newOverflowSize
        writeIndex := b.bytesInBuffer }) := by
  unfold resize at h
  split at h
  · obtain ⟨rfl, rfl⟩ := by simpa using h
    exact .inl ⟨nofun, rfl⟩
  · rename_i hfit
    split at h
    · obtain ⟨rfl, rfl⟩ := by simpa using h
      exact .inl ⟨nofun, rfl⟩
    · rename_i hread
      split at h
      · obtain ⟨rfl, rfl⟩ := by simpa using h
        exact .inl ⟨nofun, rfl⟩
      · rename_i hexit
        split at h
        · simp at h
        · rename_i hidle
          push Not at hidle
          obtain ⟨rfl, rfl⟩ := by simpa using h
          exact .inr ⟨rfl, Nat.not_lt.mp hfit, not_not.mp hread, by simpa using hexit, hidle.1,
            hidle.2, rfl⟩

theorem resize_returns (hread : b.bytesToRead = 0) (hwrite : b.bytesToWrite = 0)
    (newSize newOverflowSize : Nat) (garbage : Memory UInt8) :
    ∃ e b', b.resize newSize newOverflowSize garbage = some (e, b') := by
  unfold resize
  split
  · exact ⟨_, _, rfl⟩
  · split
    · exact ⟨_, _, rfl⟩
    · split
      · exact ⟨_, _, rfl⟩
      · rw [if_neg (by omega)]
        exact ⟨_, _, rfl⟩

end PullBuffer

/-! ## The system with these calls -/

/-- A step of the users, or a call that waits for both of them. -/
inductive Call where
  | act (a : Action)
  | clear
  | discardBytes
  | resize (newSize newOverflowSize : Nat) (garbage : Memory UInt8)

namespace Ends

/-- The bytes that are committed and not consumed. -/
def unread (s : Ends) : List UInt8 := s.committed.drop s.consumed.length

/-- What such a call leaves.  Regions of no bytes may be held. -/
def after (s : Ends) (r : Option (Error × PullBuffer)) (committed consumed : List UInt8) :
    Option Ends :=
  match r with
  | some (.noErr, b) =>
    some {
      buffer := b
      writing := s.writing.map fun r => ⟨b.writeIndex, r.bytes⟩
      reading := s.reading.map fun r => ⟨b.readIndex, r.size⟩
      committed := committed
      consumed := consumed }
  | some (_, b) => some { s with buffer := b }
  | none => none

/-- One step of the system. -/
def call (s : Ends) : Call → Option Ends
  | .act a => s.next a
  | .clear => s.after s.buffer.clear [] []
  | .discardBytes =>
    s.after s.buffer.discardBytes s.committed
      (s.consumed ++ s.unread.take (s.buffer.bytesInBuffer - s.buffer.bufferSize / 2))
  | .resize newSize newOverflowSize garbage =>
    s.after (s.buffer.resize newSize newOverflowSize garbage) s.unread []

theorem after_cases {s t : Ends} {r : Option (Error × PullBuffer)}
    {committed consumed : List UInt8} (h : s.after r committed consumed = some t) :
    ∃ e b, r = some (e, b) ∧
      ((e ≠ .noErr ∧ t = { s with buffer := b }) ∨
        (e = .noErr ∧ t = {
          buffer := b
          writing := s.writing.map fun r => ⟨b.writeIndex, r.bytes⟩
          reading := s.reading.map fun r => ⟨b.readIndex, r.size⟩
          committed := committed
          consumed := consumed })) := by
  unfold after at h
  split at h
  · exact ⟨_, _, rfl, .inr ⟨rfl, (Option.some.inj h).symm⟩⟩
  · rename_i e b hne
    exact ⟨e, b, rfl, .inl ⟨hne, (Option.some.inj h).symm⟩⟩
  · simp at h

end Ends

/-! ## The invariant -/

namespace Inv

variable {s t : Ends}

theorem length_unread (h : Inv s) : s.unread.length = s.buffer.bytesInBuffer := by
  have hcount := h.cursors.count_eq
  unfold Ends.unread
  rw [List.length_drop]
  omega

/-- The invariant of a buffer of which no bytes are held, from what it says of the cursors and
the ring. -/
theorem of_idle {b : PullBuffer} {committed consumed : List UInt8} (h : Inv s)
    (hread : s.buffer.bytesToRead = 0) (hwrite : s.buffer.bytesToWrite = 0)
    (hread' : b.bytesToRead = 0) (hwrite' : b.bytesToWrite = 0) (hpos : 0 < b.bufferSize)
    (hreadIndex : b.readIndex = consumed.length % b.bufferSize)
    (hwriteIndex : b.writeIndex = committed.length % b.bufferSize)
    (hcount : consumed.length + b.bytesInBuffer = committed.length)
    (hle : b.bytesInBuffer ≤ b.bufferSize)
    (hstored : Stored b.bufferSize b.pullBuffer committed consumed.length) :
    Inv {
      buffer := b
      writing := s.writing.map fun r => ⟨b.writeIndex, r.bytes⟩
      reading := s.reading.map fun r => ⟨b.readIndex, r.size⟩
      committed := committed
      consumed := consumed } := by
  have hnothing : ∀ r, s.writing = some r → r.bytes.length = 0 := by
    intro r hr
    rw [← (h.cursors.writer r hr).size_eq, hwrite]
  have hnone : ∀ r, s.reading = some r → r.size = 0 := by
    intro r hr
    rw [← (h.cursors.reader r hr).size_eq, hread]
  have hwlt : b.writeIndex < b.bufferSize := by
    rw [hwriteIndex]
    exact Nat.mod_lt _ hpos
  have hrlt : b.readIndex < b.bufferSize := by
    rw [hreadIndex]
    exact Nat.mod_lt _ hpos
  constructor
  · refine ⟨hpos, hreadIndex, hwriteIndex, hcount, hle, fun _ => hwrite', fun _ => hread', ?_, ?_⟩
    · intro r hr
      obtain ⟨r', hr', rfl⟩ := Option.map_eq_some_iff.mp hr
      have hlen := hnothing r' hr'
      refine ⟨rfl, ?_, ?_, ?_, ?_⟩
      · rw [hlen, hwrite']
      · simp only [hlen]
        omega
      · simp only [hlen]
        exact hle
      · simp only [hlen]
        omega
    · intro r hr
      obtain ⟨r', hr', rfl⟩ := Option.map_eq_some_iff.mp hr
      have hlen := hnone r' hr'
      refine ⟨rfl, ?_, ?_, fun _ => ?_⟩
      · rw [hlen, hread']
      · simp only [hlen]
        exact Nat.zero_le _
      · simp only [hlen]
        omega
  · refine ⟨hstored, fun r hr => ?_, fun r hr i hi => ?_⟩
    · obtain ⟨r', hr', rfl⟩ := Option.map_eq_some_iff.mp hr
      have hlen := hnothing r' hr'
      simp only [hlen, Memory.slice_zero]
      exact (List.length_eq_zero_iff.mp hlen).symm
    · obtain ⟨r', hr', rfl⟩ := Option.map_eq_some_iff.mp hr
      have hlen := hnone r' hr'
      simp only [hlen] at hi
      omega

/-- A ring that has not been read from holds the unread bytes at its front. -/
theorem slice_unread (h : Inv s) (hread : s.buffer.readIndex = 0) :
    s.buffer.pullBuffer.slice 0 s.buffer.bytesInBuffer = s.unread := by
  have hcount := h.cursors.count_eq
  have hle := h.cursors.count_le
  refine List.ext_getElem? fun i => ?_
  by_cases hi : i < s.buffer.bytesInBuffer
  · have hcell := h.cursors.read_cell (i := i) (by omega)
    rw [Memory.getElem?_slice hi, Ends.unread, List.getElem?_drop,
      h.contents.stored _ (Nat.le_add_right _ _) (by omega), hcell, hread]
  · rw [List.getElem?_eq_none, List.getElem?_eq_none]
    · rw [h.length_unread]
      omega
    · rw [Memory.length_slice]
      omega

theorem clear (h : Inv s) (hst : s.call .clear = some t) : Inv t := by
  obtain ⟨e, b, hb, hcases⟩ := Ends.after_cases hst
  rcases PullBuffer.clear_cases hb with ⟨hne, rfl⟩ | ⟨he, hread, hwrite, rfl⟩
  · rcases hcases with ⟨-, rfl⟩ | ⟨he, -⟩
    · exact h
    · exact absurd he hne
  · rcases hcases with ⟨hne, -⟩ | ⟨-, rfl⟩
    · exact absurd he hne
    · refine of_idle h hread hwrite hread hwrite h.cursors.size_pos ?_ ?_ rfl (Nat.zero_le _)
        fun p _ hp => absurd hp (Nat.not_lt_zero p)
      · exact (Nat.zero_mod _).symm
      · exact (Nat.zero_mod _).symm

theorem discardBytes (h : Inv s) (hst : s.call .discardBytes = some t) : Inv t := by
  obtain ⟨e, b, hb, hcases⟩ := Ends.after_cases hst
  rcases PullBuffer.discardBytes_cases hb with ⟨hne, rfl⟩ | ⟨he, hread, hwrite, hdiscard⟩
  · rcases hcases with ⟨-, rfl⟩ | ⟨he, -⟩
    · exact h
    · exact absurd he hne
  · rcases hcases with ⟨hne, -⟩ | ⟨-, rfl⟩
    · exact absurd he hne
    · have hcount := h.cursors.count_eq
      have hle := h.cursors.count_le
      rcases hdiscard with ⟨rfl, hnone⟩ | rfl
      · rw [hnone, List.take_zero, List.append_nil]
        exact of_idle h hread hwrite hread hwrite h.cursors.size_pos h.cursors.readIndex_eq
          h.cursors.writeIndex_eq hcount hle h.contents.stored
      · have hlen : (s.consumed ++ s.unread.take
            (s.buffer.bytesInBuffer - s.buffer.bufferSize / 2)).length =
            s.consumed.length + (s.buffer.bytesInBuffer - s.buffer.bufferSize / 2) := by
          rw [List.length_append, List.length_take, h.length_unread, Nat.min_eq_left (by omega)]
        refine of_idle h hread hwrite hread hwrite h.cursors.size_pos ?_ h.cursors.writeIndex_eq ?_
          ?_ (h.contents.stored.drop ?_)
        · rw [hlen]
          simp only
          rw [h.cursors.readIndex_eq, Nat.mod_add_mod]
        · rw [hlen]
          simp only
          omega
        · simp only
          omega
        · rw [hlen]
          omega

/-- The new ring, when there is room behind the unread bytes. -/
theorem resized (h : Inv s) {newSize newOverflowSize : Nat} {garbage : Memory UInt8}
    (hread : s.buffer.bytesToRead = 0) (hwrite : s.buffer.bytesToWrite = 0)
    (hreadIndex : s.buffer.readIndex = 0) (hroom : s.buffer.bytesInBuffer < newSize) :
    Inv {
      buffer := { s.buffer with
        pullBuffer := garbage.store 0 (s.buffer.pullBuffer.slice 0 s.buffer.bytesInBuffer)
        bufferSize := newSize
        overflowSize := newOverflowSize
        writeIndex := s.buffer.bytesInBuffer }
      writing := s.writing.map fun r => ⟨s.buffer.bytesInBuffer, r.bytes⟩
      reading := s.reading.map fun r => ⟨s.buffer.readIndex, r.size⟩
      committed := s.unread
      consumed := [] } := by
  have hlen := h.length_unread
  have hpos : 0 < newSize := Nat.lt_of_le_of_lt (Nat.zero_le _) hroom
  refine of_idle (b := { s.buffer with
      pullBuffer := garbage.store 0 (s.buffer.pullBuffer.slice 0 s.buffer.bytesInBuffer)
      bufferSize := newSize
      overflowSize := newOverflowSize
      writeIndex := s.buffer.bytesInBuffer }) h hread hwrite hread hwrite hpos ?_ ?_ ?_
    (Nat.le_of_lt hroom) ?_
  · rw [hreadIndex]
    exact (Nat.zero_mod _).symm
  · rw [hlen, Nat.mod_eq_of_lt hroom]
  · rw [hlen]
    exact Nat.zero_add _
  · intro p _ hp
    simp only
    have hmod : p % newSize = p := Nat.mod_eq_of_lt (by omega)
    have hcell : garbage.store 0 s.unread (0 + p) = s.unread[p] := Memory.store_inside hp
    rw [Nat.zero_add] at hcell
    rw [hmod, h.slice_unread hreadIndex, hcell]
    exact List.getElem?_eq_getElem hp

theorem resize (h : Inv s) {newSize newOverflowSize : Nat} {garbage : Memory UInt8}
    (hexact : ¬ s.buffer.FillsExactly newSize)
    (hst : s.call (.resize newSize newOverflowSize garbage) = some t) : Inv t := by
  obtain ⟨e, b, hb, hcases⟩ := Ends.after_cases hst
  rcases PullBuffer.resize_cases hb with
    ⟨hne, rfl⟩ | ⟨he, hfit, hreadIndex, hexit, hread, hwrite, rfl⟩
  · rcases hcases with ⟨-, rfl⟩ | ⟨he, -⟩
    · exact h
    · exact absurd he hne
  · rcases hcases with ⟨hne, -⟩ | ⟨-, rfl⟩
    · exact absurd he hne
    · refine resized h hread hwrite hreadIndex (Nat.lt_of_le_of_ne hfit fun heq => ?_)
      exact hexact ⟨heq.symm, hreadIndex, hexit⟩

end Inv

/-- The resizings of a run leave room behind the unread bytes. -/
def Fits (s : Ends) : Call → Prop
  | .resize newSize _ _ => ¬ s.buffer.FillsExactly newSize
  | _ => True

instance (s : Ends) (c : Call) : Decidable (Fits s c) := by
  cases c <;> unfold Fits <;> infer_instance

namespace Inv

variable {s t : Ends}

theorem call {c : Call} (h : Inv s) (hfits : Fits s c) (hst : s.call c = some t) : Inv t := by
  cases c with
  | act a => exact h.step hst
  | clear => exact h.clear hst
  | discardBytes => exact h.discardBytes hst
  | resize newSize newOverflowSize garbage => exact h.resize hfits hst

theorem of_calls {S O : Nat} (hS : 0 < S) {garbage : Memory UInt8} {calls : List Call}
    (hrun : Run (Guarded Fits (Steps Ends.call)) (.init S O garbage) calls s) : Inv s :=
  hrun.invariant (fun _ _ _ h hst => h.call hst.1 hst.2) (.init hS garbage)

end Inv

/-! ## The stream after a resizing -/

/-- The region that the reader holds lies in the allocation.  With an overflow area every
region that is granted does. -/
def InAllocation (s : Ends) (_ : Action) : Prop :=
  ∀ r, s.reading = some r →
    r.pointer + r.size ≤ s.buffer.bufferSize + s.buffer.overflowSize

theorem Inv.continues {s t : Ends} {more : List Action} (h : Inv s)
    (hread : s.consumed <+: s.committed)
    (hrun : Run (Guarded InAllocation (Steps Ends.next)) s more t) :
    Inv t ∧ t.consumed <+: t.committed ∧ s.committed <+: t.committed ∧
      t.buffer.bufferSize = s.buffer.bufferSize := by
  refine hrun.invariant (P := fun t => Inv t ∧ t.consumed <+: t.committed ∧
    s.committed <+: t.committed ∧ t.buffer.bufferSize = s.buffer.bufferSize) ?_
    ⟨h, hread, List.prefix_rfl, rfl⟩
  rintro u a v ⟨hu, hcons, hcomm, hsize⟩ ⟨hin, hst⟩
  obtain ⟨ops, habs⟩ := step_refines hu hin hst
  have hpre : (channel v).taken <+: (channel v).put := habs.invariant Fifo.step_prefix hcons
  have hgrow : u.committed <+: v.committed := by
    cases a with
    | endWrite m =>
      obtain ⟨r, _, _, _, rfl⟩ := Ends.endWrite_cases hst
      exact List.prefix_append _ _
    | beginWrite n =>
      obtain rfl | ⟨_, _, _, _, rfl⟩ := Ends.beginWrite_cases hst <;> exact List.prefix_rfl
    | store offset byte =>
      obtain ⟨_, _, _, rfl⟩ := Ends.store_cases hst
      exact List.prefix_rfl
    | beginRead n =>
      obtain rfl | ⟨_, _, _, rfl⟩ := Ends.beginRead_cases hst <;> exact List.prefix_rfl
    | endRead m =>
      obtain ⟨_, _, _, _, rfl⟩ := Ends.endRead_cases hst
      exact List.prefix_rfl
    | setEndOfStream eos =>
      obtain rfl := Option.some.inj hst
      exact List.prefix_rfl
    | exit =>
      obtain rfl := Option.some.inj hst
      exact List.prefix_rfl
  exact ⟨hu.step hst, hpre, hcomm.trans hgrow, (Ends.next_sizes hst).1.trans hsize⟩

/-- The ring that a successful `Resize` leaves: it has the new sizes and the unread bytes, and
from then on both cursors stay indices into it, and what is read is, in order, what was unread
and what is written after it. -/
structure KeepsStream (s : Ends) (newSize newOverflowSize : Nat) (b : PullBuffer) : Prop where
  bufferSize : b.bufferSize = newSize
  overflowSize : b.overflowSize = newOverflowSize
  unread : b.pullBuffer.slice b.readIndex b.bytesInBuffer = s.unread
  later : ∀ more t,
    Run (Guarded InAllocation (Steps Ends.next)) ⟨b, none, none, s.unread, []⟩ more t →
      (t.buffer.readIndex < newSize ∧ t.buffer.writeIndex < newSize) ∧
        t.consumed <+: t.committed ∧ s.unread <+: t.committed

/-- `Resize` fails and changes nothing, or keeps the stream. -/
def ResizesSafely (s : Ends) (newSize newOverflowSize : Nat) (garbage : Memory UInt8) : Prop :=
  ∃ e b, s.buffer.resize newSize newOverflowSize garbage = some (e, b) ∧
    ((e ≠ .noErr ∧ b = s.buffer) ∨ (e = .noErr ∧ KeepsStream s newSize newOverflowSize b))

theorem not_resizesSafely {s : Ends} {newSize newOverflowSize : Nat} {garbage : Memory UInt8}
    (hexact : s.buffer.FillsExactly newSize) :
    ¬ ResizesSafely s newSize newOverflowSize garbage := by
  rintro ⟨e, b, hb, hcases⟩
  obtain ⟨hsize, hreadIndex, hexit⟩ := hexact
  have hnoErr : e = .noErr ∧ b.writeIndex = newSize := by
    unfold PullBuffer.resize at hb
    rw [if_neg (by omega), if_neg (not_not.mpr hreadIndex), if_neg (by simp [hexit])] at hb
    split at hb
    · simp at hb
    · obtain ⟨rfl, rfl⟩ := by simpa using hb
      exact ⟨rfl, hsize.symm⟩
  rcases hcases with ⟨hne, -⟩ | ⟨-, hkeeps⟩
  · exact hne hnoErr.1
  · have hlt := (hkeeps.later [] _ (.refl _)).1.2
    exact absurd hnoErr.2 (Nat.ne_of_lt hlt)

/-- In a run whose resizings leave room behind the unread bytes, in each state with no region
held, `Resize` fails and changes nothing or keeps the stream, except when the unread bytes fill
the new ring. -/
theorem resizesSafely_iff {S O : Nat} (hS : 0 < S) {garbage : Memory UInt8} {calls : List Call}
    {s : Ends} (hrun : Run (Guarded Fits (Steps Ends.call)) (.init S O garbage) calls s)
    (hwriting : s.writing = none) (hreading : s.reading = none)
    (newSize newOverflowSize : Nat) (garbage' : Memory UInt8) :
    ResizesSafely s newSize newOverflowSize garbage' ↔ ¬ s.buffer.FillsExactly newSize := by
  have h : Inv s := Inv.of_calls hS hrun
  constructor
  · exact fun hsafe hexact => not_resizesSafely hexact hsafe
  · intro hexact
    obtain ⟨e, b, hb⟩ := PullBuffer.resize_returns (h.cursors.reader_idle hreading)
      (h.cursors.writer_idle hwriting) newSize newOverflowSize garbage'
    refine ⟨e, b, hb, ?_⟩
    rcases PullBuffer.resize_cases hb with
      ⟨hne, rfl⟩ | ⟨rfl, hfit, hreadIndex, hexit, hread, hwrite, rfl⟩
    · exact .inl ⟨hne, rfl⟩
    · have hroom : s.buffer.bytesInBuffer < newSize :=
        Nat.lt_of_le_of_ne hfit fun heq => hexact ⟨heq.symm, hreadIndex, hexit⟩
      have hnew := @Inv.resized s h newSize newOverflowSize garbage' hread hwrite hreadIndex hroom
      rw [hwriting, hreading] at hnew
      refine .inr ⟨rfl, rfl, rfl, ?_, fun more t hmore => ?_⟩
      · have hslice := hnew.slice_unread hreadIndex
        simp only at hslice ⊢
        rw [hreadIndex, hslice]
        rfl
      · obtain ⟨ht, hcons, hcomm, hsize⟩ := hnew.continues List.nil_prefix hmore
        have hrlt := ht.cursors.layout.readIndex_lt
        have hwlt := ht.cursors.layout.writeIndex_lt
        rw [hsize] at hrlt hwlt
        exact ⟨⟨hrlt, hwlt⟩, hcons, hcomm⟩

/-- A ring of four bytes, of which two are unread. -/
def twoUnread : List Call :=
  [.act (.beginWrite 2), .act (.store 0 1), .act (.store 1 2), .act (.endWrite 2)]

theorem twoUnread_run : ∃ s,
    Run (Guarded Fits (Steps Ends.call)) (.init 4 2 fun _ => 0) twoUnread s ∧
      s.writing = none ∧ s.reading = none ∧ s.unread = [1, 2] ∧ s.buffer.bytesInBuffer = 2 ∧
      s.buffer.readIndex = 0 ∧ s.buffer.exit = false :=
  ⟨_, Run.of_guarded_exec rfl, rfl, rfl, rfl, rfl, rfl, rfl⟩

/-- The ring grows to eight bytes. -/
theorem resizesSafely_twoUnread : ∃ s,
    Run (Guarded Fits (Steps Ends.call)) (.init 4 2 fun _ => 0) twoUnread s ∧
      s.unread = [1, 2] ∧ ResizesSafely s 8 0 fun _ => 0 := by
  obtain ⟨s, hrun, hwriting, hreading, hunread, hbytes, -⟩ := twoUnread_run
  refine ⟨s, hrun, hunread,
    (resizesSafely_iff (by omega) hrun hwriting hreading 8 0 fun _ => 0).mpr ?_⟩
  rintro ⟨hsize, -⟩
  omega

/-- It shrinks to two: `Resize` succeeds, and sets a write index of two. -/
theorem resize_fills_exactly : ∃ s,
    Run (Guarded Fits (Steps Ends.call)) (.init 4 2 fun _ => 0) twoUnread s ∧
      s.writing = none ∧ s.reading = none ∧ ¬ ResizesSafely s 2 0 fun _ => 0 := by
  obtain ⟨s, hrun, hwriting, hreading, -, hbytes, hreadIndex, hexit⟩ := twoUnread_run
  exact ⟨s, hrun, hwriting, hreading, not_resizesSafely ⟨hbytes.symm, hreadIndex, hexit⟩⟩

end FreeAmp.Io
