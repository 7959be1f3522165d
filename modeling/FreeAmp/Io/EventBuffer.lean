/-
  Io/EventBuffer.lean --- events in the byte stream, `io/src/eventbuffer.cpp`.

  An `EventBuffer` is a `PullBuffer` with a queue of events beside it.  The
  producer marks a place in the byte stream by handing in an event there: what is
  stored is the write index of that moment.  The consumer is to meet the event
  when it gets to the mark: `BeginRead` refuses with `kError_EventPending`, and
  the consumer fetches the event with `GetEvent`.

  The queue has a lock of its own, so `AcceptEvent` and `BeginRead` are not one
  atomic step each.  `AcceptEvent` reads the write index and then puts the event
  into the queue; `BeginRead` looks at the head of the queue, reads the read index
  and compares, and then calls `PullBuffer::BeginRead`.  The producer may run
  between any two of these steps of the consumer, and the other way round.

  A mark is remembered by its ring index only.  To say what the mark is meant to
  be, each queued event carries its stamp here: the number of bytes that were
  committed when `AcceptEvent` read the index.
-/
import FreeAmp.Io.PullBufferContents

namespace FreeAmp.Io

open FreeAmp.Lib

/-! ## The queue entry and the comparison -/

/-- `struct BufferEvent`, with the stamp of the mark. -/
structure BufferEvent (ε : Type) where
  index : Nat
  event : ε
  /-- the bytes committed when the index was read; the code does not keep it -/
  stamp : Nat

/-- `iMaxBytes` of `BeginRead`: how far it takes the mark to be. -/
def maxBytes (index readIndex bufferSize : Nat) : Nat :=
  if readIndex < index then index - readIndex else (bufferSize - readIndex) + index

/-- Whether `EventBuffer::BeginRead` answers `kError_EventPending`; `head` is what
`Peek` returned, `none` for NULL. -/
def eventPending {ε : Type} (head : Option (BufferEvent ε))
    (readIndex bufferSize bytesWanted : Nat) : Bool :=
  match head with
  | none => false
  | some e =>
    e.index == readIndex || decide (maxBytes e.index readIndex bufferSize ≤ bytesWanted)

/-! ## The system -/

inductive Consumer (ε : Type) where
  /-- outside `BeginRead` -/
  | idle
  /-- in `BeginRead(n)`, after `Peek` -/
  | peeked (n : Nat) (head : Option (BufferEvent ε))
  /-- in `BeginRead(n)`, about to call `PullBuffer::BeginRead` -/
  | pulling (n : Nat) (head : Option (BufferEvent ε))
  /-- `BeginRead(n)` has returned `kError_EventPending` -/
  | told (n : Nat)

/-- An answer of `BeginRead`. -/
structure Report where
  /-- `iBytesWanted` -/
  wanted : Nat
  /-- the stamp of the head event, if `Peek` found one -/
  stamp : Option Nat
  /-- the bytes the consumer has consumed so far -/
  position : Nat
  /-- whether the answer was `kError_EventPending` -/
  pending : Bool

/-- An event obtained through `GetEvent`. -/
structure Delivery where
  stamp : Nat
  position : Nat
  /-- the request that was refused with `kError_EventPending`, if one was -/
  toldBy : Option Nat

/-- An `EventBuffer` with its producer and its consumer. -/
structure EventEnds (ε : Type) where
  /-- the underlying `PullBuffer` and its two users -/
  ends : Ends
  queue : List (BufferEvent ε)
  /-- the producer is in `AcceptEvent` and has read the write index -/
  accepting : Option (BufferEvent ε)
  consumer : Consumer ε
  accepted : List ε
  obtained : List ε
  reports : List Report
  deliveries : List Delivery

/-- What the producer and the consumer can do. -/
inductive EventAction (ε : Type) where
  /-- the producer uses the underlying `PullBuffer` -/
  | write (a : Action)
  /-- `AcceptEvent`: `GetWriteIndex()` -/
  | acceptEvent (event : ε)
  /-- `AcceptEvent`: `m_pQueue->Write(pEvent)` -/
  | queueWrite
  /-- `BeginRead(n)`: `m_pQueue->Peek()` -/
  | beginRead (n : Nat)
  /-- `BeginRead`: `GetReadIndex()` and the comparisons -/
  | compare
  /-- `BeginRead`: `PullBuffer::BeginRead` -/
  | pull
  /-- the consumer calls `EndRead(m)` -/
  | endRead (m : Nat)
  /-- the consumer calls `GetEvent` -/
  | getEvent

/-- The calls of the writer's side of a `PullBuffer`. -/
def Action.isWriters : Action → Bool
  | .beginWrite _ | .store _ _ | .endWrite _ | .setEndOfStream _ => true
  | .beginRead _ | .endRead _ | .exit => false

/-- The writer's calls leave the reader alone and only add to the committed bytes. -/
theorem Ends.write_frame {s t : Ends} {a : Action} (ha : a.isWriters = true)
    (h : s.next a = some t) :
    t.consumed = s.consumed ∧ t.reading = s.reading ∧
      s.committed.length ≤ t.committed.length ∧ t.buffer.exit = s.buffer.exit := by
  cases a with
  | beginWrite n =>
    obtain rfl | ⟨_, _, _, _, rfl⟩ := Ends.beginWrite_cases h <;>
      exact ⟨rfl, rfl, Nat.le_refl _, rfl⟩
  | store offset byte =>
    obtain ⟨_, _, _, rfl⟩ := Ends.store_cases h
    exact ⟨rfl, rfl, Nat.le_refl _, rfl⟩
  | endWrite m =>
    obtain ⟨_, _, _, _, rfl⟩ := Ends.endWrite_cases h
    exact ⟨rfl, rfl, by simp, rfl⟩
  | setEndOfStream eos =>
    obtain rfl := Option.some.inj h
    exact ⟨rfl, rfl, Nat.le_refl _, rfl⟩
  | beginRead n => simp [Action.isWriters] at ha
  | endRead m => simp [Action.isWriters] at ha
  | exit => simp [Action.isWriters] at ha

namespace EventEnds

variable {ε : Type}

/-- A fresh buffer with idle users. -/
def init (bufferSize overflowSize : Nat) (garbage : Memory UInt8) : EventEnds ε where
  ends := .init bufferSize overflowSize garbage
  queue := []
  accepting := none
  consumer := .idle
  accepted := []
  obtained := []
  reports := []
  deliveries := []

/-- How many bytes the consumer has consumed. -/
def position (s : EventEnds ε) : Nat := s.ends.consumed.length

/-- A step of the producer outside `AcceptEvent`. -/
def write (s : EventEnds ε) (a : Action) : Option (EventEnds ε) :=
  match a.isWriters, s.accepting, s.ends.next a with
  | true, none, some ends => some { s with ends := ends }
  | _, _, _ => none

/-- `AcceptEvent`, up to the write index. -/
def acceptEvent (s : EventEnds ε) (event : ε) : Option (EventEnds ε) :=
  match s.accepting, s.ends.buffer.getWriteIndex with
  | none, some index =>
    some { s with accepting := some ⟨index, event, s.ends.committed.length⟩ }
  | _, _ => none

/-- `AcceptEvent`, from the write index on. -/
def queueWrite (s : EventEnds ε) : Option (EventEnds ε) :=
  match s.accepting with
  | some e =>
    some { s with
      queue := s.queue ++ [e]
      accepting := none
      accepted := s.accepted ++ [e.event] }
  | none => none

/-- The consumer is outside `BeginRead`. -/
def outside (s : EventEnds ε) : Bool :=
  match s.consumer with
  | .idle | .told _ => true
  | .peeked _ _ | .pulling _ _ => false

/-- `EventBuffer::BeginRead(n)`, up to `Peek`, by a consumer that holds no region. -/
def beginRead (s : EventEnds ε) (n : Nat) : Option (EventEnds ε) :=
  if s.outside ∧ s.ends.reading = none then
    some { s with consumer := .peeked n s.queue.head? }
  else none

/-- `EventBuffer::BeginRead(n)`, the comparisons. -/
def compare (s : EventEnds ε) : Option (EventEnds ε) :=
  match s.consumer, s.ends.buffer.getReadIndex with
  | .peeked n head, some readIndex =>
    let pending := eventPending head readIndex s.ends.buffer.bufferSize n
    some { s with
      consumer := if pending then .told n else .pulling n head
      reports := s.reports ++ [⟨n, head.map BufferEvent.stamp, s.position, pending⟩] }
  | _, _ => none

/-- `EventBuffer::BeginRead(n)`, the call of `PullBuffer::BeginRead`. -/
def pull (s : EventEnds ε) : Option (EventEnds ε) :=
  match s.consumer with
  | .pulling n _ =>
    match s.ends.beginRead n with
    | some ends => some { s with ends := ends, consumer := .idle }
    | none => none
  | _ => none

def endRead (s : EventEnds ε) (m : Nat) : Option (EventEnds ε) :=
  match s.consumer, s.ends.endRead m with
  | .idle, some ends => some { s with ends := ends }
  | _, _ => none

/-- The request the consumer was refused with `kError_EventPending`, if it was. -/
def toldBy (s : EventEnds ε) : Option Nat :=
  match s.consumer with
  | .told n => some n
  | _ => none

/-- `GetEvent`; on an empty queue it returns NULL. -/
def getEvent (s : EventEnds ε) : Option (EventEnds ε) :=
  if s.outside then
    match s.queue with
    | [] => some { s with consumer := .idle }
    | e :: rest =>
      some { s with
        queue := rest
        consumer := .idle
        obtained := s.obtained ++ [e.event]
        deliveries := s.deliveries ++ [⟨e.stamp, s.position, s.toldBy⟩] }
  else none

/-- One step of the producer or the consumer. -/
def next (s : EventEnds ε) : EventAction ε → Option (EventEnds ε)
  | .write a => s.write a
  | .acceptEvent event => s.acceptEvent event
  | .queueWrite => s.queueWrite
  | .beginRead n => s.beginRead n
  | .compare => s.compare
  | .pull => s.pull
  | .endRead m => s.endRead m
  | .getEvent => s.getEvent

/-! ## What each step can do -/

variable {s t : EventEnds ε}

theorem write_cases {a : Action} (h : s.write a = some t) :
    ∃ ends, a.isWriters = true ∧ s.accepting = none ∧ s.ends.next a = some ends ∧
      t = { s with ends := ends } := by
  unfold write at h
  split at h
  · rename_i hw hacc hends
    exact ⟨_, hw, hacc, hends, by simpa using h.symm⟩
  · simp at h

theorem acceptEvent_cases {event : ε} (h : s.acceptEvent event = some t) :
    ∃ index, s.accepting = none ∧ s.ends.buffer.getWriteIndex = some index ∧
      t = { s with accepting := some ⟨index, event, s.ends.committed.length⟩ } := by
  unfold acceptEvent at h
  split at h
  · rename_i hacc hindex
    exact ⟨_, hacc, hindex, by simpa using h.symm⟩
  · simp at h

theorem queueWrite_cases (h : s.queueWrite = some t) :
    ∃ e, s.accepting = some e ∧
      t = { s with
        queue := s.queue ++ [e]
        accepting := none
        accepted := s.accepted ++ [e.event] } := by
  unfold queueWrite at h
  split at h
  · rename_i hacc
    exact ⟨_, hacc, by simpa using h.symm⟩
  · simp at h

theorem beginRead_cases {n : Nat} (h : s.beginRead n = some t) :
    s.ends.reading = none ∧ t = { s with consumer := .peeked n s.queue.head? } := by
  unfold beginRead at h
  split at h
  · rename_i hidle
    exact ⟨hidle.2, by simpa using h.symm⟩
  · simp at h

theorem compare_cases (h : s.compare = some t) :
    ∃ n head readIndex, s.consumer = .peeked n head ∧
      s.ends.buffer.getReadIndex = some readIndex ∧
      t = { s with
        consumer :=
          if eventPending head readIndex s.ends.buffer.bufferSize n then .told n
          else .pulling n head
        reports := s.reports ++ [⟨n, head.map BufferEvent.stamp, s.position,
          eventPending head readIndex s.ends.buffer.bufferSize n⟩] } := by
  unfold compare at h
  split at h
  · rename_i hcons hindex
    exact ⟨_, _, _, hcons, hindex, by simpa using h.symm⟩
  · simp at h

theorem pull_cases (h : s.pull = some t) :
    ∃ n head ends, s.consumer = .pulling n head ∧ s.ends.beginRead n = some ends ∧
      t = { s with ends := ends, consumer := .idle } := by
  unfold pull at h
  split at h
  · rename_i hcons
    split at h
    · rename_i hends
      exact ⟨_, _, _, hcons, hends, by simpa using h.symm⟩
    · simp at h
  · simp at h

theorem endRead_cases {m : Nat} (h : s.endRead m = some t) :
    ∃ ends, s.consumer = .idle ∧ s.ends.endRead m = some ends ∧ t = { s with ends := ends } := by
  unfold endRead at h
  split at h
  · rename_i hcons hends
    exact ⟨_, hcons, hends, by simpa using h.symm⟩
  · simp at h

theorem getEvent_cases (h : s.getEvent = some t) :
    s.queue = [] ∧ t = { s with consumer := .idle } ∨
    ∃ e rest, s.queue = e :: rest ∧
      t = { s with
        queue := rest
        consumer := .idle
        obtained := s.obtained ++ [e.event]
        deliveries := s.deliveries ++ [⟨e.stamp, s.position, s.toldBy⟩] } := by
  unfold getEvent at h
  split at h
  · split at h
    · rename_i hqueue
      exact .inl ⟨hqueue, by simpa using h.symm⟩
    · rename_i e rest hqueue
      exact .inr ⟨e, rest, hqueue, by simpa using h.symm⟩
  · simp at h

end EventEnds

end FreeAmp.Io
