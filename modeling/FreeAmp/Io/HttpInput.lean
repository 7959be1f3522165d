/-
  Io/HttpInput.lean --- the thread of `HttpInput`, and the stream that it receives, from
  `io/http/httpinput.cpp`.

  A step goes from one call of `recv`, or of `select`, to just before the next.  What
  has been received is kept beside what the thread does with it, so that the two can be
  compared.  Connecting, the request and what only feeds the display are left out, and a
  stream that is answered with another address is another stream.

  `new char[]` does not clear what it returns: what stands behind the bytes that have
  come is part of the step.  `char` is signed, as on the x86, and `size_t` has 32 bits.
  The `PullBuffer` is what has been put into it.
-/
import FreeAmp.Base.DownloadResponse
import FreeAmp.Lib.Transition

namespace FreeAmp.Io

open FreeAmp.Lib FreeAmp.Base

/-! ## Reading what has come -/

/-- `sscanf(pInitialBuffer, " %*s %d …", &iRet, …)`: nothing when what follows the first word is
not a number; at the end of the string `iRet` stays what `select` has returned. -/
def statusCode (s : Text) : Option Int :=
  match skipSpace ((skipSpace s).dropWhile (!isSpace ·)) with
  | [] => some 1
  | c :: s => if (spanDigits (readSign (c :: s)).2).1 = [] then none else some (atoi (c :: s))

/-- The end of the header, and what has come behind it: `strstr` does not know where what has come
ends. -/
def splitHeader (buffer behind : Text) : Option (Text × Text) :=
  match strstr (buffer ++ behind) "\r\n\r\n" with
  | some pEnd => some ((buffer ++ behind).take (pEnd + 3), buffer.drop (pEnd + 4))
  | none =>
    match strstr (buffer ++ behind) "\n\n" with
    | some pEnd => some ((buffer ++ behind).take (pEnd + 1), buffer.drop (pEnd + 2))
    | none => none

/-- `m_iMetaDataInterval = atoi(pPtr)`, when the header has it. -/
def readMetaDataInterval (header : Text) : Option Int :=
  (strstr header "icy-metaint").map fun pPtr => atoi (header.drop (pPtr + 12))

/-- The title in what stands from `pMeta` on. -/
def streamTitle (memory : Text) : Option Text :=
  match strstr memory "StreamTitle=" with
  | none => none
  | some pPtr =>
    let title := cStr (memory.drop (pPtr + 13))
    if 39 ∈ title then some (title.takeWhile (· != 39)) else none

def toChar (c : UInt8) : Int := if c.toNat < 128 then c.toNat else c.toNat - 256

/-! ## The thread -/

/-- What `recv` comes to. -/
inductive Recv where
  | data (bytes : Text)
  /-- 0 -/
  | closed
  /-- -1, and `errno` is `EAGAIN` -/
  | wouldBlock
  /-- -1 -/
  | failed
  deriving DecidableEq

/-- The bytes that have come. -/
def Recv.bytes : Recv → Text
  | .data bytes => bytes
  | _ => []

/-- `iRead < 0` -/
def Recv.isError : Recv → Bool
  | .wouldBlock => true
  | .failed => true
  | _ => false

/-- Where the thread is. -/
inductive InputPlace where
  /-- in `Open`, before the first `recv` -/
  | first
  /-- in `Open`, before another one; what has come -/
  | header (buffer : Text)
  /-- in `WorkerThread`, at the head of the loop -/
  | poll
  /-- before `recv(m_hHandle, &cNumBlocks, 1, 0)` -/
  | length
  /-- before `recv(m_hHandle, pMeta, cNumBlocks * 16, 0)` -/
  | block
  /-- before `recv(m_hHandle, (char *) pBuffer, iMaxReadBytes, 0)` -/
  | audio (iMaxReadBytes : Int)
  /-- the thread has returned -/
  | ended
  /-- it has written behind what `BeginWrite` has granted -/
  | overrun
  deriving DecidableEq

/-- `class HttpInput`, and its thread. -/
structure HttpInput where
  metaDataInterval : Int
  bytesReceived : Int
  numBlocks : Int
  place : InputPlace
  /-- all that `recv` has brought -/
  received : Text
  /-- `recv` has returned 0 -/
  closed : Bool
  /-- what has been put into `m_pOutputBuffer` -/
  output : Text
  /-- the titles that have been sent on -/
  titles : List Text

/-- What happens. -/
inductive InputEvent where
  /-- `m_bExit` is found set -/
  | exit
  /-- there is nothing to receive, or no room for it -/
  | idle
  /-- `select` says that there is something to receive, and `BeginWrite` grants the room -/
  | ready
  /-- `recv`; what stands behind it in `pInitialBuffer` or `pMeta`, what stands in `pHeaderData`
  behind what has come, and whether the file that the stream is saved to takes it -/
  | recv (r : Recv) (behind header : Text) (saved : Bool)

namespace HttpInput

/-- The thread before its first `recv`; `cNumBlocks` is not initialised. -/
def start (numBlocks : Int) : HttpInput := ⟨0, 0, numBlocks, .first, [], false, [], []⟩

/-- `Open`, when the header is complete. -/
def opened (s : HttpInput) (header leftover : Text) (saved : Bool) : HttpInput :=
  { s with
    metaDataInterval := (readMetaDataInterval header).getD s.metaDataInterval
    bytesReceived := if leftover = [] then s.bytesReceived else leftover.length
    output := s.output ++ leftover
    place := if leftover ≠ [] ∧ saved = false then .ended else .poll }

/-- A round of the loop that receives the header. -/
def parse (s : HttpInput) (buffer behind : Text) (saved : Bool) : HttpInput :=
  match splitHeader buffer behind with
  | some (header, leftover) => s.opened header leftover saved
  | none => { s with place := .header buffer }

/-- What `Open` makes of its first `recv`. -/
def respond (s : HttpInput) (bytes behind header : Text) (saved : Bool) : HttpInput :=
  match statusCode (cStr (bytes ++ behind)) with
  -- the header is not looked at
  | none => { s with place := .poll }
  | some code => if code = 200 then s.parse bytes header saved else { s with place := .ended }

/-- From `select` to the next `recv`. -/
def turn (s : HttpInput) : HttpInput :=
  if 0 < s.metaDataInterval then
    let iMaxReadBytes := min 1024 (s.metaDataInterval - s.bytesReceived)
    { s with place := if iMaxReadBytes = 0 then .length else .audio iMaxReadBytes }
  else { s with place := .audio 1024 }

/-- The metadata are done with. -/
def resume (s : HttpInput) : HttpInput := { s with bytesReceived := 0, place := .audio 1024 }

/-- `cNumBlocks`, which stays what it was when nothing comes. -/
def receiveLength (s : HttpInput) (r : Recv) : HttpInput :=
  let numBlocks := match r.bytes with
    | c :: _ => toChar c
    | [] => s.numBlocks
  if 0 < numBlocks then { s with numBlocks := numBlocks, place := .block }
  else { s with numBlocks := numBlocks }.resume

/-- `cNumBlocks * 16` -/
def blockSize (s : HttpInput) : Nat := (s.numBlocks * 16).toNat

/-- The title is read from `pMeta`, however much of it has come. -/
def receiveBlock (s : HttpInput) (r : Recv) (behind : Text) : HttpInput :=
  let memory := r.bytes ++ behind
  let pMeta := memory.take s.blockSize ++ 0 :: memory.drop (s.blockSize + 1)
  { s with titles := s.titles ++ (streamTitle pMeta).toList }.resume

/-- The stream is put into the buffer. -/
def receiveAudio (s : HttpInput) (r : Recv) (saved : Bool) : HttpInput :=
  if r = .failed then { s with place := .ended }
  else if 1024 < r.bytes.length then { s with place := .overrun }
  else if r.bytes ≠ [] ∧ saved = false then
    { s with bytesReceived := s.bytesReceived + r.bytes.length, place := .ended }
  else
    { s with
      bytesReceived := s.bytesReceived + r.bytes.length
      output := s.output ++ r.bytes
      place := .poll }

/-- What is done with what `recv` comes to. -/
def receive (s : HttpInput) (r : Recv) (behind header : Text) (saved : Bool) : HttpInput :=
  match s.place with
  | .first =>
    if r.isError then { s with place := .ended } else s.respond r.bytes behind header saved
  | .header buffer =>
    if r.isError then { s with place := .ended } else s.parse (buffer ++ r.bytes) header saved
  | .length => s.receiveLength r
  | .block => s.receiveBlock r behind
  | .audio _ => s.receiveAudio r saved
  | _ => s

/-- How many bytes are asked for. -/
def asked (s : HttpInput) : Option Int :=
  match s.place with
  | .first => some 1024
  | .header _ => some 1024
  | .length => some 1
  | .block => some (s.numBlocks * 16)
  | .audio iMaxReadBytes => some iMaxReadBytes
  | _ => none

/-- `recv` brings no more than it has been asked for, and nothing after it has returned 0. -/
def comes (s : HttpInput) (r : Recv) : Bool :=
  match s.asked, r with
  | none, _ => false
  | some n, .data bytes =>
    !s.closed && bytes ≠ [] && decide (bytes.length ≤ (UInt32.ofInt n).toNat)
  | some _, _ => true

/-- The thread looks at `m_bExit`, or waits. -/
def waits (s : HttpInput) : Bool :=
  match s.place with
  | .first => true
  | .header _ => true
  | .poll => true
  | _ => false

/-- What follows an event. -/
def next (s : HttpInput) : InputEvent → Option HttpInput
  | .exit => if s.waits then some { s with place := .ended } else none
  | .idle => if s.waits then some s else none
  | .ready => if s.place = .poll then some s.turn else none
  | .recv r behind header saved =>
    if s.comes r then
      some { s.receive r behind header saved with
        received := s.received ++ r.bytes
        closed := s.closed || r == .closed }
    else none

end HttpInput

end FreeAmp.Io
