/-
  Io/HttpDownload.lean --- `Http::Download`, from `lib/http/src/Http.cpp`.

  Up to the answer it does what `DownloadManager::Download` does, and reads the header in
  the same way; what it meets is given in the same way too (`Base/DownloadResponse.lean`).
  It differs in the answers: there is no range to ask for again, and the body goes to the
  buffer or to the file of the object, which here are the bytes in them.  Nobody
  interrupts it, and a `recv` brings no more than it is asked for.
-/
import FreeAmp.Base.DownloadResponse
import FreeAmp.Lib.Retry

namespace FreeAmp.Io.Http

open FreeAmp.Base FreeAmp.Lib

/-- What a call meets. -/
structure HttpAttempt extends Attempt where
  /-- `err` is an error before the first `Recv` of the body has set it -/
  stray : Bool

/-- What `Download` returns, and what is in the buffer or the file then. -/
structure HttpDownloaded where
  result : Error
  written : Text
  deriving DecidableEq

/-- What follows the terminator. -/
def leftover (header : Header) : Text :=
  match strstr header.buffer "\r\n\r\n" with
  | some cp => header.bytes.drop (cp + 4)
  | none => []

/-- The loop that receives the body.  `fails`: the file cannot be opened, and no write
succeeds; `refused`: so it was with the last one, `wcount < 0`. -/
def receiveBody (fileSize : UInt32) (fails stray failed : Bool) :
    Bool → UInt32 → Text → List Chunk → HttpDownloaded
  | refused, bytesReceived, written, [] =>
    if refused then ⟨.writeFile, written⟩
    else if bytesReceived = fileSize then ⟨if stray then .userCancel else .noErr, written⟩
    else ⟨if failed then .ioError else .noErr, written⟩
  | refused, bytesReceived, written, chunk :: chunks =>
    -- `min(bufferSize, fileSize - bytesReceived)` is 0: nothing is received
    if bytesReceived = fileSize then
      ⟨if refused then .writeFile else if stray then .userCancel else .noErr, written⟩
    else if fails then ⟨.writeFile, written⟩
    else
      let bytesReceived := bytesReceived + UInt32.ofNat chunk.bytes.length
      if bytesReceived = fileSize then ⟨.noErr, written ++ chunk.bytes⟩
      else receiveBody fileSize fails stray failed false bytesReceived (written ++ chunk.bytes) chunks

/-- `case '2'`, up to the loop and with it. -/
def store (fileDownload : Bool) (attempt : HttpAttempt) (header : Header) (written : Text)
    (chunks : List Chunk) : HttpDownloaded :=
  let fileSize := UInt32.ofInt (getContentLengthFromHeader header.buffer)
  let fails := fileDownload && attempt.opened.toBool == false
  let first := leftover header
  let refused := fails && first.length != 0
  receiveBody fileSize fails attempt.stray attempt.failed refused (UInt32.ofNat first.length)
    (if refused then written else written ++ first) chunks

/-- `case '4'` -/
def clientError (header : Header) : Error :=
  if header.returnCode = 400 then .badHTTPRequest
  else if header.returnCode = 401 then .accessNotAuthorized
  else if header.returnCode = 403 then .downloadDenied
  else if header.returnCode = 404 then .httpFileNotFound
  else .unknownErr

/-- A call of `Download`: what it returns, or the URL with which it calls `Download`
again. -/
def downloadOnce (prefs : DownloadPrefs) (fileDownload : Bool) (written : Text)
    (attempt : HttpAttempt) (url : Text) : Except Text HttpDownloaded :=
  match sourceError prefs url, attempt.unreachable with
  | some result, _ => .ok ⟨result, written⟩
  | none, some cause => .ok ⟨cause.result, written⟩
  | none, none =>
    if !attempt.sent then .ok ⟨.ioError, written⟩
    else if !attempt.memory then .ok ⟨.outOfMemory, written⟩
    else
      match receiveHeader .new attempt.chunks with
      | .error result => .ok ⟨result, written⟩
      | .ok (header, rest) =>
        match header.statusClass with
        -- `case '1'` falls through
        | some 49 => .ok (store fileDownload attempt header written rest)
        | some 50 => .ok (store fileDownload attempt header written rest)
        | some 51 =>
          match header.location with
          | some cp => .error (if header.returnCode = 305 then cp ++ cStr url else cp)
          | none => .ok ⟨.noErr, written⟩
        | some 52 => .ok ⟨clientError header, written⟩
        | some 53 => .ok ⟨.unknownServerError, written⟩
        | _ => .ok ⟨.noErr, written⟩

/-- `Download`; `written` is what the buffer or the file holds before. -/
def download (prefs : DownloadPrefs) (fileDownload : Bool) (written : Text)
    (attempts : List HttpAttempt) (url : Text) : Option HttpDownloaded :=
  retry (downloadOnce prefs fileDownload written) attempts url

end FreeAmp.Io.Http
