/-
  Base/DownloadThread.lean --- the download manager as a system of the user, the download
  thread and the destructor, from `base/src/downloadmanager.cpp`.

  A step of the thread goes from one look at what is shared (the states of the items,
  `m_exit`, `m_runDownloadThread`, `m_downloadsPaused`, `m_downloadIndex`, the size of
  `m_itemList`, the semaphore) to just before the next.  `m_exit` and the state of the
  item are looked at together, as the code does in `Connect`, `Send` and `Recv`: once
  `m_exit` is set it stays so, and only the thread itself makes an item
  `kDownloadItemState_Downloading`, so that the two looks might as well be one.

  The user's calls come one after the other, and stop when the destructor begins.
  `QueueDownload` and `CancelDownload` look at the state of the item in one step and
  set it in another.
-/
import FreeAmp.Base.DownloadResponse
import FreeAmp.Base.ResumeDatabase
import FreeAmp.Lib.Transition

namespace FreeAmp.Base

open FreeAmp.Lib

/-! ## The thread -/

/-- The calls that wait for the network. -/
inductive NetworkCall where
  | connect
  | send
  /-- `Recv` of the header, with what has come -/
  | header (buffer : HeaderBuffer)
  /-- `Recv` of the body -/
  | body
  deriving DecidableEq

/-- What `Download` does when it has looked at the state of the item. -/
inductive Next where
  /-- `gethostbyname` -/
  | lookup
  | socket
  | connect
  /-- putting the request together, and `Send` -/
  | send
  /-- `malloc`, and the first `Recv` of the header -/
  | receive
  /-- another `Recv` of the header -/
  | header (buffer : HeaderBuffer)
  /-- `switch(buffer[9])` -/
  | parse (header : Header)
  /-- the condition of the loop that receives the body; `more` is `count > 0` -/
  | body (more : Bool)
  deriving DecidableEq

/-- Where the thread is: before its next look at what is shared. -/
inductive Place where
  /-- before `m_quitMutex.Acquire()` -/
  | start
  /-- before `while(m_runDownloadThread)` -/
  | loop
  /-- before `if (m_downloadsPaused)` -/
  | tested
  /-- before `m_queueSemaphore.Wait()` -/
  | wait
  /-- in `m_queueSemaphore.Wait()` -/
  | waiting
  /-- in `GetNextQueuedItem`, before the loop -/
  | next
  /-- in its loop -/
  | scan (i total : Nat)
  /-- in its loop, before `m_downloadIndex++` -/
  | found (i : Nat)
  /-- before `item->SetState(kDownloadItemState_Downloading)` -/
  | starting (i : Nat)
  /-- before `if(item->GetState() != kDownloadItemState_Downloading) result = kError_UserCancel` -/
  | check (i : Nat) (result : Error) (next : Next)
  /-- before `gethostbyname` -/
  | lookup (i : Nat)
  /-- before `socket` -/
  | socket (i : Nat)
  /-- before the condition of the loop of `Connect`, `Send` or `Recv` -/
  | network (i : Nat) (call : NetworkCall)
  /-- in that loop, before `select` -/
  | select (i : Nat) (call : NetworkCall)
  /-- before the condition of the loop that receives the body -/
  | bodyTest (i : Nat) (more : Bool)
  /-- `Download` has returned -/
  | returned (i : Nat) (result : Error)
  /-- before `CleanUpDownload` -/
  | cleanUp (i : Nat)
  /-- past `m_quitMutex.Release()` -/
  | ended
  deriving DecidableEq

/-- What `select` and the call after it come to. -/
inductive Ready where
  /-- `select` returns 0 -/
  | notYet
  /-- the connection is there; `send` takes the whole request -/
  | done
  /-- `select` or `recv` returns -1; `send` takes less than the request -/
  | failed
  /-- `recv` returns 0 -/
  | closed
  /-- `recv` brings bytes -/
  | data (chunk : Chunk)
  deriving DecidableEq

/-- What a step of the thread meets outside of the player. -/
inductive ThreadEvent where
  /-- nothing -/
  | step
  /-- `gethostbyname` and `inet_addr`, or `socket` -/
  | outcome (ok : Bool)
  /-- `malloc`, or `open` -/
  | resources (memory : Bool) (opened : Except Errno Unit)
  /-- `connect` returns at once, 0 or -1 -/
  | atOnce (ok : Bool)
  /-- `select` and what follows -/
  | ready (r : Ready)

/-- A call of the user that has looked at the state of the item and is about to set it. -/
inductive UserCall where
  /-- `QueueDownload(item, bDownloadNow)` -/
  | queue (i : Nat) (bDownloadNow : Bool)
  /-- `CancelDownload(item, allowResume)` -/
  | cancel (i : Nat) (allowResume : Bool)
  deriving DecidableEq

/-! ## The manager -/

/-- `class DownloadManager`, and what it works on. -/
structure Manager where
  items : List DownloadItem
  downloadsPaused : Bool
  downloadIndex : Int
  exit : Bool
  runDownloadThread : Bool
  /-- the count of `m_queueSemaphore` -/
  queueCount : Int
  place : Place
  call : Option UserCall
  /-- the directory of `kSaveMusicDirPref` -/
  files : Text → Option Text
  /-- `ResumeDownloadDB` -/
  database : Database
  /-- `SaveResumableDownloadItems` has returned -/
  saved : Bool

namespace Manager

/-- The manager when its constructor has loaded the items and created the thread. -/
def init (items : List DownloadItem) (files : Text → Option Text) (database : Database) :
    Manager where
  items := items
  downloadsPaused := true
  downloadIndex := -1
  exit := false
  runDownloadThread := true
  -- `SEM_LOCKED`
  queueCount := 1
  place := .start
  call := none
  files := files
  database := database
  saved := false

/-- The thread goes on at `place`. -/
def goto (s : Manager) (place : Place) : Manager := { s with place := place }

/-- The item at `i` is changed. -/
def setItem (s : Manager) (i : Nat) (item : DownloadItem) : Manager :=
  { s with items := s.items.set i item }

def file (s : Manager) (item : DownloadItem) : Option Text := s.files (cStr item.dest)

/-- The file of an item is written, or removed. -/
def setFile (s : Manager) (item : DownloadItem) (data : Option Text) : Manager :=
  { s with files := fun name => if name = cStr item.dest then data else s.files name }

/-! ## `Download` -/

/-- `Download` up to its first look at the state of the item. -/
def download (prefs : DownloadPrefs) (s : Manager) (i : Nat) (item : DownloadItem) : Place :=
  if alreadyThere item (s.file item) then .returned i .noErr
  else .check i ((sourceError prefs item.src).getD .noErr) .lookup

/-- The answer to the header. -/
def parse (prefs : DownloadPrefs) (s : Manager) (i : Nat) (item : DownloadItem)
    (opened : Except Errno Unit) (header : Header) : Manager :=
  match answer opened item (s.file item) header with
  | .body item' data => ((s.setItem i item').setFile item' (some data)).goto (.network i .body)
  | .again item' => (s.setItem i item').goto (download prefs s i item')
  | .returned result item' => (s.setItem i item').goto (.returned i result)

/-- `Recv` into a buffer that may have to grow. -/
def receive (i : Nat) (buffer : HeaderBuffer) : Place :=
  match buffer.grow with
  | some buffer => .network i (.header buffer)
  | none => .returned i .outOfMemory

/-- What follows a look at the state of an item that is still to be downloaded. -/
def goOn (prefs : DownloadPrefs) (s : Manager) (i : Nat) (item : DownloadItem) (memory : Bool)
    (opened : Except Errno Unit) : Next → Manager
  | .lookup => s.goto (.lookup i)
  | .socket => s.goto (.socket i)
  | .connect => s.goto (.network i .connect)
  | .send => (s.setItem i (item.request (s.file item))).goto (.network i .send)
  | .receive => s.goto (if memory then receive i .new else .returned i .outOfMemory)
  | .header buffer => s.goto (receive i buffer)
  | .parse header => s.parse prefs i item opened header
  | .body more => s.goto (.bodyTest i more)

/-- A look at the state of the item. -/
def look (prefs : DownloadPrefs) (s : Manager) (i : Nat) (item : DownloadItem) (result : Error)
    (next : Next) (memory : Bool) (opened : Except Errno Unit) : Manager :=
  if item.state ≠ .downloading then s.goto (.returned i .userCancel)
  else if isError result then s.goto (.returned i result)
  else s.goOn prefs i item memory opened next

/-- `m_exit || item->GetState() != kDownloadItemState_Downloading` -/
def interrupted (s : Manager) (item : DownloadItem) : Bool :=
  s.exit || item.state != .downloading

/-- What follows the call, if all goes well. -/
def after : NetworkCall → Next
  | .connect => .send
  | .send => .receive
  | .header buffer => .header buffer
  | .body => .body false

/-- The result when the loop of the call is not entered: what it counts is 0, or -1 for
`connect`, and that is an error of its own except in the body. -/
def idleResult : NetworkCall → Error
  | .connect => .connectFailed
  | .send => .ioError
  | .header _ => .ioError
  | .body => .userCancel

/-- The result when the call fails. -/
def failedResult : NetworkCall → Error
  | .connect => .connectFailed
  | .send => .ioError
  | .header _ => .ioError
  | .body => .ioError

/-- The result of a call that may have been interrupted. -/
def callResult (s : Manager) (item : DownloadItem) : Error :=
  if s.interrupted item then .userCancel else .noErr

/-- What `select` and the call after it lead to. -/
def afterSelect (s : Manager) (i : Nat) (item : DownloadItem) :
    NetworkCall → Ready → Option Manager
  -- `Connect` takes the 0 of `select` for that of `connect`
  | .connect, .notYet => some (s.goto (.check i (s.callResult item) .send))
  | .connect, .done => some (s.goto (.check i (s.callResult item) .send))
  | .send, .done => some (s.goto (.check i (s.callResult item) .receive))
  | .header buffer, .data chunk =>
    let bytes := buffer.bytes ++ chunk.bytes
    some (s.goto (.check i (s.callResult item)
      (if isHTTPHeaderComplete bytes chunk.behind then .parse ⟨bytes, chunk.behind⟩
        else .header { buffer with bytes := bytes })))
  | .header buffer, .closed => some (s.goto (.check i .ioError (.header buffer)))
  | .body, .data chunk =>
    if s.interrupted item then some (s.goto (.check i .userCancel (.body true)))
    else
      some (((s.setItem i (item.receive chunk.bytes)).setFile item
        (some ((s.file item).getD [] ++ chunk.bytes))).goto (.check i .noErr (.body true)))
  | .body, .closed => some (s.goto (.check i (s.callResult item) (.body false)))
  | .connect, .failed => some (s.goto (.check i .connectFailed .send))
  | call, .failed => some (s.goto (.check i (failedResult call) (after call)))
  | call, .notYet => some (s.goto (.network i call))
  | _, _ => none

/-! ## `DownloadThreadFunction` -/

/-- What is done with the result of `Download`. -/
def finish (s : Manager) (i : Nat) (item : DownloadItem) : Error → Manager
  | .noErr => (s.setItem i { item with state := .done }).goto .loop
  | .userCancel => if item.state = .cancelled then s.goto (.cleanUp i) else s.goto .loop
  | .ioError => (s.setItem i { item with state := .error }).goto .loop
  | _ => (s.setItem i { item with state := .error }).goto (.cleanUp i)

/-- `GetNextQueuedItem` up to its loop. -/
def firstRound (s : Manager) : Manager :=
  let index := if s.downloadIndex < 0 ∨ (s.items.length : Int) ≤ s.downloadIndex then 0
    else s.downloadIndex
  { s with
    downloadIndex := index
    place := if index < s.items.length then .scan index.toNat 0 else .wait }

/-- A round of its loop. -/
def scan (s : Manager) (i total : Nat) : Place :=
  if s.items.length ≤ total then .wait
  else
    match s.items[i]? with
    | some item =>
      if item.state = .queued then .found i else .scan ((i + 1) % s.items.length) (total + 1)
    | none => .wait

/-- A step of the thread at an item. -/
def workOn (prefs : DownloadPrefs) (s : Manager) (item : DownloadItem) :
    Place → ThreadEvent → Option Manager
  | .starting i, .step =>
    let item' := { item with state := .downloading }
    some ((s.setItem i item').goto (download prefs s i item'))
  | .check i result next, .resources memory opened =>
    some (s.look prefs i item result next memory opened)
  | .lookup i, .outcome ok =>
    some (s.goto (.check i (if ok then .noErr else .cantFindHost) .socket))
  | .socket i, .outcome ok =>
    some (s.goto (.check i (if ok then .noErr else .cantCreateSocket) .connect))
  | .network i call, .step =>
    if s.interrupted item then some (s.goto (.check i (idleResult call) (after call)))
    else some (s.goto (.select i call))
  | .network i .connect, .atOnce ok =>
    some (s.goto (.check i (if ok then s.callResult item else .connectFailed) .send))
  | .select i call, .ready r => s.afterSelect i item call r
  | .bodyTest i more, .step =>
    if more && s.runDownloadThread && item.unfinished then some (s.goto (.network i .body))
    else some (s.goto (.returned i .noErr))
  | .returned i result, .step => some (s.finish i item result)
  | .cleanUp i, .step =>
    some (((s.setItem i { item with bytesReceived := 0 }).setFile item none).goto .loop)
  | _, _ => none

end Manager

/-- The item that the thread works on. -/
def Place.item : Place → Option Nat
  | .found i => some i
  | .starting i => some i
  | .check i _ _ => some i
  | .lookup i => some i
  | .socket i => some i
  | .network i _ => some i
  | .select i _ => some i
  | .bodyTest i _ => some i
  | .returned i _ => some i
  | .cleanUp i => some i
  | _ => none

namespace Manager

def threadStep (prefs : DownloadPrefs) (s : Manager) (e : ThreadEvent) : Option Manager :=
  match s.place with
  -- the destructor does not release `m_quitMutex`
  | .start => if s.saved then none else some (s.goto .loop)
  | .loop => some (s.goto (if s.runDownloadThread then .tested else .ended))
  | .tested => some (s.goto (if s.downloadsPaused then .wait else .next))
  | .wait => some { s with queueCount := s.queueCount - 1, place := .waiting }
  | .waiting => if 0 < s.queueCount then some (s.goto .loop) else none
  | .next => some s.firstRound
  | .scan i total => some (s.goto (s.scan i total))
  | .found i => some { s with downloadIndex := s.downloadIndex + 1, place := .starting i }
  | .ended => none
  | place =>
    match place.item.bind (s.items[·]?) with
    | some item => s.workOn prefs item place e
    | none => none

end Manager

/-! ## The user and the destructor -/

/-- What can happen. -/
inductive ManagerAction where
  | thread (e : ThreadEvent)
  | addItem (item : DownloadItem)
  /-- a call looks at the state of the item -/
  | enter (call : UserCall)
  | set (call : UserCall)
  | pauseDownloads
  | resumeDownloads
  /-- `m_exit = true` -/
  | setExit
  /-- `m_runDownloadThread = false; m_queueSemaphore.Signal()` -/
  | stop
  /-- `m_quitMutex.Acquire(); SaveResumableDownloadItems()` -/
  | save

/-- The state lets a call set it. -/
def UserCall.allowed : UserCall → DownloadItemState → Bool
  | .queue _ _, state => state != .downloading && state != .done
  | .cancel _ _, state => state == .downloading || state == .queued || state == .paused

def UserCall.item : UserCall → Nat
  | .queue i _ => i
  | .cancel i _ => i

namespace Manager

/-- A call looks at the state of its item. -/
def enter (s : Manager) (call : UserCall) : Option Manager :=
  match s.items[call.item]? with
  | some item =>
    if s.call = none ∧ call.allowed item.state then some { s with call := some call } else none
  | none => none

/-- A call sets the state of its item. -/
def set (s : Manager) : UserCall → Option Manager
  | .queue i bDownloadNow =>
    (s.items[i]?).map fun item =>
      { s.setItem i { item with state := .queued } with
        downloadIndex := if s.downloadsPaused && bDownloadNow then (i : Int) else s.downloadIndex
        queueCount := s.queueCount + 1
        call := none }
  | .cancel i allowResume =>
    (s.items[i]?).map fun item =>
      { s.setItem i { item with state := if allowResume then .paused else .cancelled } with
        call := none }

/-- `AddItem` of an item that its constructor has made of strings without NUL, when the
vector can hold another. -/
def addItem (s : Manager) (item : DownloadItem) : Option Manager :=
  if item.state = .null ∧ item.bytesReceived = 0 ∧ item.NulFree ∧ s.call = none ∧
      s.items.length < 4294967295 then
    if s.items.any (·.src == item.src) then some s
    else
      some { s with
        items := s.items ++ [{ item with state := .queued }]
        queueCount := s.queueCount + 1 }
  else none

/-- What follows an action. -/
def next (prefs : DownloadPrefs) (s : Manager) : ManagerAction → Option Manager
  | .thread e => s.threadStep prefs e
  | .addItem item => if s.exit then none else s.addItem item
  | .enter call => if s.exit then none else s.enter call
  | .set call => if s.exit ∨ s.call ≠ some call then none else s.set call
  | .pauseDownloads =>
    if s.exit ∨ s.call ≠ none then none else some { s with downloadsPaused := true }
  | .resumeDownloads =>
    if s.exit ∨ s.call ≠ none then none
    else some { s with downloadsPaused := false, queueCount := s.queueCount + 1 }
  | .setExit => if s.exit ∨ s.call ≠ none then none else some { s with exit := true }
  | .stop =>
    if s.exit && s.runDownloadThread then
      some { s with runDownloadThread := false, queueCount := s.queueCount + 1 }
    else none
  | .save =>
    if s.exit && !s.runDownloadThread && !s.saved && (s.place == .start || s.place == .ended) then
      match saveResumableDownloadItems s.database s.items with
      | .ok (items, database) => some { s with items := items, database := database, saved := true }
      | .error _ => none
    else none

end Manager

end FreeAmp.Base
