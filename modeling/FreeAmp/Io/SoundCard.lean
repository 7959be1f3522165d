/-
  Io/SoundCard.lean --- the worker thread of
  `io/soundcard/unix/linux/src/soundcardpmo.cpp`.

  The decoder writes into an `EventBuffer`, hands in events as it goes, and ends
  with `PMO_Quit`.  `SoundCardPMO::WorkerThread` takes blocks of `m_iDataSize`
  bytes out of the buffer and writes them to the device, and acts on the events it
  is told about.  The system of this file is the two of them.

  The worker is modelled for a run in which nobody pauses, seeks or ends it:
  `m_bExit` and `m_bPause` stay false.  The device is asked for nothing but what
  `write` returns; how `Init` ends, which depends on the device too, is part of the
  action.  What only feeds the display (fragments, percentages, times) and the
  waiting in between is left out.
-/
import FreeAmp.Io.EventBufferRun

namespace FreeAmp.Io

open FreeAmp.Lib

/-! ## The thread -/

/-- The events of `io/include/pmoevent.h`. -/
inductive PmoEvent where
  /-- `PMO_Init`, with `GetInfo()->max_buffer_size` -/
  | init (maxBufferSize : Nat)
  /-- `PMO_Info` -/
  | info
  /-- `PMO_Reset` -/
  | reset
  /-- `PMO_Quit` -/
  | quit
  /-- `PMO_Error` -/
  | error
  deriving DecidableEq, Repr

/-- How `SoundCardPMO::Init` ends. -/
inductive InitOutcome where
  /-- `/dev/dsp` cannot be opened -/
  | openFailed
  /-- one of the later calls fails -/
  | configFailed
  | ok
  deriving DecidableEq, Repr

inductive WorkerAt where
  /-- at the head of the outer loop -/
  | outer
  /-- at the head of the loop that reads a block -/
  | reading
  /-- in `BeginRead`, after `Peek` -/
  | comparing
  /-- in `BeginRead`, before `PullBuffer::BeginRead` -/
  | pulling
  /-- `BeginRead` returned `kError_EventPending` -/
  | pending
  /-- past `PeekEvent`, before `GetEvent` -/
  | fetching
  /-- in `WaitForDrain` -/
  | draining
  /-- out of the loop, before `write` -/
  | writing
  /-- `INFO_DoneOutputting` is sent and the thread has returned -/
  | done
  /-- the thread has ended without it -/
  | stopped
  deriving DecidableEq, Repr

/-- The sound card output with the decoder that feeds it. -/
structure SoundCard where
  /-- `m_pInputBuffer`, and the decoder on its other side -/
  input : EventEnds PmoEvent
  /-- the decoder has handed in `PMO_Quit` -/
  quitting : Bool
  worker : WorkerAt
  properlyInitialized : Bool
  dataSize : Nat
  /-- what the device has taken from `write` -/
  device : List UInt8

/-- What the decoder, the worker and the device can do. -/
inductive CardAction where
  /-- the decoder writes or hands in an event -/
  | produce (a : EventAction PmoEvent)
  /-- the outer loop: wait for `PMO_Init`, or go on -/
  | outer (outcome : InitOutcome)
  /-- `BeginRead`: `Peek` -/
  | beginRead
  /-- `BeginRead`: the comparison -/
  | compare
  /-- `BeginRead`: `PullBuffer::BeginRead` -/
  | pull
  /-- `PeekEvent` and the test for `PMO_Quit` -/
  | peekEvent
  /-- `GetEvent` and what follows from the event -/
  | getEvent (outcome : InitOutcome)
  /-- `WaitForDrain` returns true -/
  | drained
  /-- `write` takes `ret` bytes -/
  | write (ret : Nat)
  | writeFailed

/-- The decoder's side of the buffer. -/
def EventAction.isDecoders : EventAction PmoEvent → Bool
  | .write (.beginWrite _) | .write (.store _ _) | .write (.endWrite _) => true
  | .acceptEvent _ | .queueWrite => true
  | _ => false

/-- What the decoder does after `PMO_Quit`: it is on its way out of `AcceptEvent`. -/
def EventAction.isLast : EventAction PmoEvent → Bool
  | .queueWrite => true
  | _ => false

def EventAction.isQuit : EventAction PmoEvent → Bool
  | .acceptEvent .quit => true
  | _ => false

namespace SoundCard

/-- The buffer after `Resize`, before the decoder has written to it. -/
def init (bufferSize overflowSize : Nat) (garbage : Memory UInt8) : SoundCard where
  input := .init bufferSize overflowSize garbage
  quitting := false
  worker := .outer
  properlyInitialized := false
  dataSize := 0
  device := []

/-- A step of the decoder; `PMO_Quit` is its last event and no byte follows it. -/
def produce (s : SoundCard) (a : EventAction PmoEvent) : Option SoundCard :=
  if a.isDecoders ∧ (s.quitting → a.isLast) then
    match s.input.next a with
    | some input => some { s with input := input, quitting := s.quitting || a.isQuit }
    | none => none
  else none

/-- `SoundCardPMO::Init(info)`. -/
def initDevice (s : SoundCard) (maxBufferSize : Nat) : InitOutcome → SoundCard
  | .openFailed => { s with properlyInitialized := false }
  | .configFailed => { s with properlyInitialized := false, dataSize := maxBufferSize }
  | .ok => { s with properlyInitialized := true, dataSize := maxBufferSize }

/-- The head of the outer loop.  Until `PMO_Init` has come and `Init` has succeeded,
events are fetched and dropped. -/
def outer (s : SoundCard) (outcome : InitOutcome) : Option SoundCard :=
  if s.worker = .outer then
    if s.properlyInitialized then some { s with worker := .reading }
    else
      match s.input.next .getEvent with
      | none => none
      | some input =>
        match s.input.queue.head?.map BufferEvent.event with
        | some (.init maxBufferSize) =>
          let t := { s with input := input }.initDevice maxBufferSize outcome
          some { t with worker := if outcome = .ok then .outer else .stopped }
        | _ => some { s with input := input }
  else none

/-- `BeginRead(pBuffer, m_iDataSize)`, up to `Peek`. -/
def beginRead (s : SoundCard) : Option SoundCard :=
  if s.worker = .reading then
    match s.input.next (.beginRead s.dataSize) with
    | some input => some { s with input := input, worker := .comparing }
    | none => none
  else none

/-- `BeginRead`, the comparison. -/
def compare (s : SoundCard) : Option SoundCard :=
  if s.worker = .comparing then
    match s.input.next .compare with
    | some input =>
      some { s with
        input := input
        worker := if input.toldBy.isSome then .pending else .pulling }
    | none => none
  else none

/-- `BeginRead`, the call of `PullBuffer::BeginRead`, and the branches on its error:
`kError_NoDataAvail` goes round again, every other error leaves the loop like success
does. -/
def pull (s : SoundCard) : Option SoundCard :=
  if s.worker = .pulling then
    match s.input.next .pull, s.input.ends.buffer.beginRead s.dataSize with
    | some input, some (eErr, _, _) =>
      some { s with
        input := input
        worker := if eErr = .noDataAvail then .reading else .writing }
    | _, _ => none
  else none

/-- `PeekEvent`: a `PMO_Quit` in front of bytes that are still in the buffer has the
worker wait for the card. -/
def peekEvent (s : SoundCard) : Option SoundCard :=
  if s.worker = .pending then
    match s.input.queue.head? with
    | none => none
    | some e =>
      some { s with
        worker :=
          if e.event = .quit ∧ 0 < s.input.ends.buffer.bytesInBuffer then .draining
          else .fetching }
  else none

/-- `GetEvent` and the branches on the type of the event. -/
def getEvent (s : SoundCard) (outcome : InitOutcome) : Option SoundCard :=
  if s.worker = .fetching then
    match s.input.next .getEvent, s.input.queue.head?.map BufferEvent.event with
    | some input, some event =>
      let t := { s with input := input, worker := .reading }
      match event with
      | .init maxBufferSize => some (t.initDevice maxBufferSize outcome)
      | .quit => some { t with worker := .done }
      | .info | .reset | .error => some t
    | _, _ => none
  else none

/-- `WaitForDrain` has returned true. -/
def drained (s : SoundCard) : Option SoundCard :=
  if s.worker = .draining then some { s with worker := .done } else none

/-- `write(audio_fd, pBuffer, m_iDataSize)` takes `ret` bytes, and `EndRead(ret)`.  When
no region was granted the assertion of `EndRead` lets only `ret = 0` pass. -/
def write (s : SoundCard) (ret : Nat) : Option SoundCard :=
  if s.worker = .writing ∧ ret ≤ s.dataSize then
    match s.input.ends.reading with
    | some r =>
      match s.input.next (.endRead ret) with
      | some input =>
        some { s with
          input := input
          worker := .outer
          device := s.device ++ s.input.ends.buffer.pullBuffer.slice r.pointer ret }
      | none => none
    | none => if ret = 0 then some { s with worker := .outer } else none
  else none

/-- `write` fails: `EndRead(0)`, and the thread ends. -/
def writeFailed (s : SoundCard) : Option SoundCard :=
  if s.worker = .writing then
    match s.input.ends.reading with
    | some _ =>
      match s.input.next (.endRead 0) with
      | some input => some { s with input := input, worker := .stopped }
      | none => none
    | none => some { s with worker := .stopped }
  else none

/-- One step of the decoder, the worker or the device. -/
def next (s : SoundCard) : CardAction → Option SoundCard
  | .produce a => s.produce a
  | .outer outcome => s.outer outcome
  | .beginRead => s.beginRead
  | .compare => s.compare
  | .pull => s.pull
  | .peekEvent => s.peekEvent
  | .getEvent outcome => s.getEvent outcome
  | .drained => s.drained
  | .write ret => s.write ret
  | .writeFailed => s.writeFailed

end SoundCard

end FreeAmp.Io
