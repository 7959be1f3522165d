/-
  Base/DownloadResponse.lean --- what `DownloadManager::Download` makes of what a server
  sends, from `base/src/downloadmanager.cpp`.

  The header is received into a buffer that grows, and is complete when a terminator
  begins somewhere in what has come; that test reads up to three bytes behind what has
  come, and a `Chunk` carries them.  What follows the terminator is then looked for
  with `strstr`, and the rest of the body is received into the same buffer.

  A file is the list of its bytes, or `none` when it does not exist.  What is given to
  `write` is written.  The text of the request is left out: nothing here reads it; so is
  a source without a path, on which the request cannot be put together.
-/
import FreeAmp.Base.DownloadItem
import FreeAmp.Base.Errors
import FreeAmp.Lib.Search

namespace FreeAmp.Base

open FreeAmp.Lib

/-! ## What is received -/

/-- A call of `recv` that returns a count above 0: the bytes, and what the buffer holds
behind them. -/
structure Chunk where
  bytes : Text
  behind : Text
  some : bytes ≠ []
  deriving DecidableEq

/-- The bytes that come with the calls of `recv`. -/
def received (chunks : List Chunk) : Text := (chunks.map Chunk.bytes).flatten

@[simp] theorem received_nil : received [] = [] := rfl

@[simp] theorem received_cons (chunk : Chunk) (chunks : List Chunk) :
    received (chunk :: chunks) = chunk.bytes ++ received chunks := rfl

@[simp] theorem received_append (chunks chunks' : List Chunk) :
    received (chunks ++ chunks') = received chunks ++ received chunks' := by
  simp [received]

theorem received_ne_nil {chunks : List Chunk} (h : chunks ≠ []) : received chunks ≠ [] := by
  cases chunks with
  | nil => exact absurd rfl h
  | cons chunk chunks =>
    intro hnil
    rw [received_cons, List.append_eq_nil_iff] at hnil
    exact chunk.some hnil.1

/-! ## The end of the header -/

/-- The length of the terminator that the string begins with. -/
def terminator (s : Text) : Option Nat :=
  if bytes "\n\n" <+: s then some 2
  else if bytes "\r\n\r\n" <+: s then some 4
  else none

/-- `IsHTTPHeaderComplete`: `strncmp` at every byte that has come. -/
def isHTTPHeaderComplete : Text → Text → Bool
  | [], _ => false
  | c :: buffer, behind =>
    (terminator (c :: buffer ++ behind)).isSome || isHTTPHeaderComplete buffer behind

/-- The buffer of the header: its size and what has come. -/
structure HeaderBuffer where
  bufferSize : UInt32
  bytes : Text
  deriving DecidableEq

/-- The buffer before the first `Recv`. -/
def HeaderBuffer.new : HeaderBuffer := ⟨2048, []⟩

/-- `if(total >= bufferSize - 1)`: a buffer that is full is made twice as large; there is
none of the size 0. -/
def HeaderBuffer.grow (buffer : HeaderBuffer) : Option HeaderBuffer :=
  if buffer.bytes.length ≥ (buffer.bufferSize - 1).toNat then
    if buffer.bufferSize * 2 = 0 then none
    else some { buffer with bufferSize := buffer.bufferSize * 2 }
  else some buffer

/-- What has been received when the header is complete. -/
structure Header where
  bytes : Text
  behind : Text
  deriving DecidableEq

/-- The loop that receives the header: the header and the calls of `recv` that are left,
or the error. -/
def receiveHeader (buffer : HeaderBuffer) : List Chunk → Except Error (Header × List Chunk)
  | [] =>
    match buffer.grow with
    | none => .error .outOfMemory
    -- a count of 0 and one of -1 alike
    | some _ => .error .ioError
  | chunk :: chunks =>
    match buffer.grow with
    | none => .error .outOfMemory
    | some buffer =>
      if isHTTPHeaderComplete (buffer.bytes ++ chunk.bytes) chunk.behind then
        .ok (⟨buffer.bytes ++ chunk.bytes, chunk.behind⟩, chunks)
      else
        receiveHeader { buffer with bytes := buffer.bytes ++ chunk.bytes } chunks

/-! ## Reading the header -/

namespace Header

/-- `returnCode = atoi(buffer+9)`, which is read before the NUL is put. -/
def returnCode (header : Header) : UInt32 :=
  UInt32.ofInt (atoi ((header.bytes ++ header.behind).drop 9))

/-- The buffer after `buffer[total] = 0x00`. -/
def buffer (header : Header) : Text := header.bytes ++ 0 :: header.behind.drop 1

/-- `buffer[9]` -/
def statusClass (header : Header) : Option UInt8 := header.buffer[9]?

end Header

/-- `strstr(buffer, pattern)`, as an offset. -/
def strstr (buffer : Text) (pattern : String) : Option Nat :=
  firstPlace (bytes pattern) (cStr buffer)

def getContentLengthFromHeader (buffer : Text) : Int :=
  match strstr buffer "Content-Length:" with
  | some cp => atoi (buffer.drop (cp + 15 + 1))
  | none => -1

/-- `mTime.erase(pos, mTime.length() - 2)` from the first `c` on; the difference wraps. -/
def eraseFrom (c : UInt8) (mTime : Text) : Text :=
  match mTime.findIdx? (· == c) with
  | some pos =>
    mTime.take pos ++
      mTime.drop (pos + if mTime.length < 2 then mTime.length else mTime.length - 2)
  | none => mTime

def getContentTimeFromHeader (buffer : Text) : Text :=
  match strstr buffer "Last-Modified:" with
  | some cp => eraseFrom 10 (eraseFrom 13 (cStr (buffer.drop (cp + 14 + 1))))
  | none => []

/-- What follows the terminator: `"\n\n"` is looked for first. -/
def Header.leftover (header : Header) : Text :=
  match strstr header.buffer "\n\n" with
  | some cp => header.bytes.drop (cp + 2)
  | none =>
    match strstr header.buffer "\r\n\r\n" with
    | some cp => header.bytes.drop (cp + 4)
    | none => []

/-! ## Storing the body -/

/-- `errno` after an `open` that failed. -/
inductive Errno where
  | eexist
  | eacces
  | enoent
  | emfile
  | einval
  | other
  deriving DecidableEq, Repr

/-- `switch(errno)` -/
def Errno.result : Errno → Error
  | .eexist => .fileExists
  | .eacces => .fileNoAccess
  | .enoent => .fileNotFound
  | .emfile => .fileNoHandles
  | .einval => .fileInvalidArg
  | .other => .unknownErr

/-- `item->SetBytesReceived(count + item->GetBytesReceived())` -/
def DownloadItem.receive (item : DownloadItem) (data : Text) : DownloadItem :=
  { item with bytesReceived := UInt32.ofNat data.length + item.bytesReceived }

/-- `if(returnCode != 206)`: what a response that is not a partial one does to the item. -/
def DownloadItem.startOver (item : DownloadItem) (header : Header) : DownloadItem :=
  let fileSize := getContentLengthFromHeader header.buffer
  { item with
    bytesReceived := 0
    mTime := cStr (getContentTimeFromHeader header.buffer)
    bytesTotal := if fileSize > 0 then UInt32.ofInt fileSize else item.bytesTotal }

/-- The item when the file is opened. -/
def DownloadItem.accept (item : DownloadItem) (header : Header) : DownloadItem :=
  if header.returnCode ≠ 206 then item.startOver header else item

/-- The file after an `open` that did not fail. -/
def openedFile (header : Header) (file : Option Text) : Text :=
  if header.returnCode ≠ 206 then [] else file.getD []

/-- `item->GetTotalBytes() > item->GetBytesReceived()` -/
def DownloadItem.unfinished (item : DownloadItem) : Bool :=
  decide (item.bytesReceived < item.bytesTotal)

/-- What `Download` returns, and the item and the file afterwards. -/
structure Downloaded where
  result : Error
  item : DownloadItem
  file : Option Text
  deriving DecidableEq

/-- The loop that receives the body; `failed` when the connection ends with a count of
-1, and not with one of 0. -/
def receiveBody (failed : Bool) (item : DownloadItem) (file : Text) : List Chunk → Downloaded
  | [] => ⟨if failed then .ioError else .noErr, item, some file⟩
  | chunk :: chunks =>
    let item' := item.receive chunk.bytes
    if item'.unfinished then receiveBody failed item' (file ++ chunk.bytes) chunks
    else ⟨.noErr, item', some (file ++ chunk.bytes)⟩

/-! ## The answer -/

/-- What is done with a header that has been received. -/
inductive Answer where
  /-- the body is received into the file that is open -/
  | body (item : DownloadItem) (file : Text)
  /-- `Download` is called again -/
  | again (item : DownloadItem)
  /-- `Download` returns; the file is as it was -/
  | returned (result : Error) (item : DownloadItem)
  deriving DecidableEq

/-- `case '2'` up to the loop that receives the body. -/
def store (opened : Except Errno Unit) (item : DownloadItem) (file : Option Text)
    (header : Header) : Answer :=
  match opened with
  | .error errno => .returned errno.result (item.accept header)
  | .ok () =>
    .body ((item.accept header).receive header.leftover)
      (openedFile header file ++ header.leftover)

/-- Where a redirection leads: what stands between `Location:`, with the blank after it,
and the end of the line. -/
def Header.location (header : Header) : Option Text :=
  match strstr header.buffer "Location:" with
  | some cp =>
    let rest := header.bytes.drop (cp + 9)
    let rest := if rest.head? = some 32 then rest.drop 1 else rest
    some (cStr (rest.takeWhile fun c => c != 13 && c != 10))
  | none => none

/-- `case '3'` -/
def redirect (item : DownloadItem) (header : Header) : Answer :=
  match header.location with
  | some cp =>
    .again { item with src := if header.returnCode = 305 then cp ++ cStr item.src else cp }
  | none => .returned .noErr item

/-- `case '4'` -/
def clientError (item : DownloadItem) (header : Header) : Answer :=
  if header.returnCode = 400 then .returned .badHTTPRequest item
  else if header.returnCode = 401 then .returned .accessNotAuthorized item
  else if header.returnCode = 403 then .returned .downloadDenied item
  else if header.returnCode = 404 then .returned .httpFileNotFound item
  else if header.returnCode = 416 then .again { item with bytesReceived := 0 }
  else .returned .unknownErr item

/-- A client error is an error, but for the one after which the whole is asked for. -/
theorem clientError_cases (item : DownloadItem) (header : Header) :
    (∃ result, result ≠ .noErr ∧ result ≠ .userCancel ∧
        clientError item header = .returned result item) ∨
      clientError item header = .again { item with bytesReceived := 0 } := by
  unfold clientError
  split
  · exact .inl ⟨.badHTTPRequest, nofun, nofun, rfl⟩
  · split
    · exact .inl ⟨.accessNotAuthorized, nofun, nofun, rfl⟩
    · split
      · exact .inl ⟨.downloadDenied, nofun, nofun, rfl⟩
      · split
        · exact .inl ⟨.httpFileNotFound, nofun, nofun, rfl⟩
        · split
          · exact .inr rfl
          · exact .inl ⟨.unknownErr, nofun, nofun, rfl⟩

/-- `switch(buffer[9])` -/
def answer (opened : Except Errno Unit) (item : DownloadItem) (file : Option Text)
    (header : Header) : Answer :=
  match header.statusClass with
  -- `case '1'` falls through
  | some 49 => store opened item file header
  | some 50 => store opened item file header
  | some 51 => redirect item header
  | some 52 => clientError item header
  | some 53 => .returned .unknownServerError item
  | _ => .returned .noErr item

/-! ## Up to the answer -/

/-- The preferences that `Download` reads. -/
structure DownloadPrefs where
  /-- `kUseProxyPref` -/
  useProxy : Bool
  /-- `kProxyHostPref` -/
  proxy : Text

/-- `sscanf(s, "http://%[^:/]", ..)`: the text of the first field. -/
def scanHost (s : Text) : Option Text :=
  if bytes "http://" <+: cStr s then
    let host := ((cStr s).drop 7).takeWhile fun c => c != 58 && c != 47
    if host = [] then none else some host
  else none

/-- Where the source cannot be downloaded from. -/
def sourceError (prefs : DownloadPrefs) (src : Text) : Option Error :=
  -- `strncasecmp(item->SourceURL().c_str(), "http://", 7)`
  if ((cStr src).take 7).map toLower ≠ bytes "http://" then some .protocolNotSupported
  else
    match scanHost (if prefs.useProxy then prefs.proxy else src) with
    | none => some .invalidURL
    | some _ => none

/-- `(unsigned int)st.st_size >= item->GetTotalBytes()` -/
def alreadyThere (item : DownloadItem) (file : Option Text) : Bool :=
  match file with
  | some data => decide (item.bytesTotal ≤ UInt32.ofNat data.length)
  | none => false

/-- The item when the request is sent: without the file there is nothing to resume. -/
def DownloadItem.request (item : DownloadItem) (file : Option Text) : DownloadItem :=
  if item.bytesReceived ≠ 0 ∧ file = none then { item with bytesReceived := 0, mTime := [] }
  else item

/-- What keeps `Download` from a connection. -/
inductive Unreachable where
  /-- neither `gethostbyname` nor `inet_addr` knows the server -/
  | host
  | socket
  | connect
  deriving DecidableEq, Repr

def Unreachable.result : Unreachable → Error
  | .host => .cantFindHost
  | .socket => .cantCreateSocket
  | .connect => .connectFailed

/-- What a call of `Download` meets outside of the player. -/
structure Attempt where
  unreachable : Option Unreachable
  /-- `send` takes the whole request -/
  sent : Bool
  /-- `malloc(bufferSize)` -/
  memory : Bool
  /-- the calls of `recv` before the connection ends -/
  chunks : List Chunk
  /-- the last `recv` returns -1, and not 0 -/
  failed : Bool
  /-- `open(destPath, ..)` -/
  opened : Except Errno Unit

/-- A call of `Download` up to the header of the response. -/
def reachHeader (prefs : DownloadPrefs) (attempt : Attempt) (item : DownloadItem)
    (file : Option Text) : Except Downloaded (DownloadItem × Header × List Chunk) :=
  if alreadyThere item file then .error ⟨.noErr, item, file⟩
  else
    match sourceError prefs item.src, attempt.unreachable with
    | some result, _ => .error ⟨result, item, file⟩
    | none, some cause => .error ⟨cause.result, item, file⟩
    | none, none =>
      let item := item.request file
      if !attempt.sent then .error ⟨.ioError, item, file⟩
      else if !attempt.memory then .error ⟨.outOfMemory, item, file⟩
      else
        match receiveHeader .new attempt.chunks with
        | .error result => .error ⟨result, item, file⟩
        | .ok (header, rest) => .ok (item, header, rest)

/-- A call of `Download` of an item that nobody cancels: what it returns, or the item
with which it calls `Download` again. -/
def downloadOnce (prefs : DownloadPrefs) (attempt : Attempt) (item : DownloadItem)
    (file : Option Text) : Except DownloadItem Downloaded :=
  match reachHeader prefs attempt item file with
  | .error result => .ok result
  | .ok (item, header, rest) =>
    match answer attempt.opened item file header with
    | .body item data => .ok (receiveBody attempt.failed item data rest)
    | .again item => .error item
    | .returned result item => .ok ⟨result, item, file⟩

/-- `Download`.  Every call takes an attempt; there is no result when another one is
needed. -/
def download (prefs : DownloadPrefs) :
    List Attempt → DownloadItem → Option Text → Option Downloaded
  | [], _, _ => none
  | attempt :: attempts, item, file =>
    match downloadOnce prefs attempt item file with
    | .ok result => some result
    | .error item' => download prefs attempts item' file

end FreeAmp.Base
