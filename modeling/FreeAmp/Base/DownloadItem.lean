/-
  Base/DownloadItem.lean --- items of the download manager, from
  `base/include/downloadmanager.h`, and their records in the resume database, from
  `DownloadManager::SaveResumableDownloadItems` and
  `DownloadManager::LoadResumableDownloadItems` in `base/src/downloadmanager.cpp`.

  Of an item `m_allowResume`, which nothing reads, and `m_error` and
  `m_normalDownload`, which only the user interface and `SubmitToDatabase` read, are
  left out.  The directory of the database exists.
-/
import FreeAmp.Base.MetaDataRecord

namespace FreeAmp.Base

open FreeAmp.Lib

inductive DownloadItemState where
  | null
  | queued
  | downloading
  | cancelled
  | paused
  | error
  | done
  deriving DecidableEq, Repr, Inhabited

namespace DownloadItemState

/-- `(long int) state` -/
def code : DownloadItemState → Nat
  | null => 0
  | queued => 1
  | downloading => 2
  | cancelled => 3
  | paused => 4
  | error => 5
  | done => 6

/-- `(DownloadItemState) n`: what stands for no state is compared with the states as
`kDownloadItemState_Null` is, and equal to none of them. -/
def ofCode (n : Int) : DownloadItemState :=
  if n = 1 then queued
  else if n = 2 then downloading
  else if n = 3 then cancelled
  else if n = 4 then paused
  else if n = 5 then error
  else if n = 6 then done
  else null

theorem ofCode_code (state : DownloadItemState) :
    ofCode (atoi (cStr (showNat state.code))) = state := by
  cases state <;> decide

end DownloadItemState

structure DownloadItem where
  metadata : MetaData
  src : Text
  dest : Text
  cookie : Text
  playlist : Text
  mTime : Text
  state : DownloadItemState
  bytesReceived : UInt32
  bytesTotal : UInt32
  deriving DecidableEq, Repr, Inhabited

def DownloadItem.new : DownloadItem := ⟨.new, [], [], [], [], [], .null, 0, 0⟩

/-! ## Saving -/

/-- The states in which an item is saved. -/
def DownloadItemState.resumable (state : DownloadItemState) : Bool :=
  state == .paused || state == .queued || state == .error

/-- `if (item->GetState() == kDownloadItemState_Error) item->SetState(kDownloadItemState_Queued)` -/
def DownloadItem.requeue (item : DownloadItem) : DownloadItem :=
  if item.state = .error then { item with state := .queued } else item

/-- The lengths that are written: those of the numbers are the lengths of their `%ld`. -/
def DownloadItem.lengths (item : DownloadItem) : List Nat :=
  [item.src.length, item.cookie.length, item.dest.length, item.playlist.length,
    (printLong item.bytesTotal).length,
    -- `iTimeSize`
    if item.mTime.length ≠ 0 then (printLong item.bytesReceived).length + 1 + item.mTime.length
    else (printLong item.bytesReceived).length,
    item.metadata.artist.length, item.metadata.album.length, item.metadata.title.length,
    item.metadata.comment.length, item.metadata.genre.length,
    (printLong item.metadata.year).length, (printLong item.metadata.track).length,
    (printLong item.metadata.time).length, (printLong item.metadata.size).length,
    (showNat item.state.code).length]

/-- The data that is written: the numbers as `ost << uint32` prints them. -/
def DownloadItem.data (item : DownloadItem) : List Text :=
  [item.src, item.cookie, item.dest, item.playlist, showNat item.bytesTotal.toNat,
    showNat item.bytesReceived.toNat ++
      (if item.mTime.length ≠ 0 then 32 :: item.mTime else []),
    item.metadata.artist, item.metadata.album, item.metadata.title, item.metadata.comment,
    item.metadata.genre, showNat item.metadata.year.toNat, showNat item.metadata.track.toNat,
    showNat item.metadata.time.toNat, showNat item.metadata.size.toNat,
    showNat item.state.code]

/-- The stream that `SaveResumableDownloadItems` puts together for an item. -/
def resumeRecord (item : DownloadItem) : Except RecordFault Text :=
  appendAll ([showNat 16, kDatabaseDelimiter] ++
    item.lengths.map (fun n => showNat n ++ kDatabaseDelimiter) ++ item.data ++ [[0]])

/-- `sprintf(num, "%ld", (long int)index)` -/
def resumeKey (index : Nat) : Text := printLong (UInt32.ofNat index)

/-- The loop over `m_itemList`, from `index` on. -/
def saveItems : Nat → List DownloadItem → Database →
    Except RecordFault (List DownloadItem × Database)
  | _, [], db => .ok ([], db)
  | index, item :: items, db =>
    if item.state.resumable then do
      let ost ← resumeRecord item.requeue
      let r ← saveItems (index + 1) items (db.insert (resumeKey index) ost)
      .ok (item.requeue :: r.1, r.2)
    else do
      let r ← saveItems (index + 1) items db
      .ok (item :: r.1, r.2)

/-- `SaveResumableDownloadItems`: the items and the database afterwards. -/
def saveResumableDownloadItems (db : Database) (items : List DownloadItem) :
    Except RecordFault (List DownloadItem × Database) :=
  if db.working then saveItems 0 items db else .ok (items, db)

/-! ## Loading -/

/-- The `switch` over the fields that are read. -/
def setDownloadItem (j : Nat) (s : Text) (item : DownloadItem) : DownloadItem :=
  let metadata := item.metadata
  match j with
  | 0 => { item with src := s }
  | 1 => { item with cookie := s }
  | 2 => { item with dest := s }
  | 3 => { item with playlist := s }
  | 4 => { item with bytesTotal := UInt32.ofInt (atoi (cStr s)) }
  | 5 =>
    -- behind the first blank is the time
    let rest := (cStr s).dropWhile (· != 32)
    { item with
      bytesReceived := UInt32.ofInt (atoi (cStr s))
      mTime := if rest = [] then item.mTime else rest.tail }
  | 6 => { item with metadata := { metadata with artist := s } }
  | 7 => { item with metadata := { metadata with album := s } }
  | 8 => { item with metadata := { metadata with title := s } }
  | 9 => { item with metadata := { metadata with comment := s } }
  | 10 => { item with metadata := { metadata with genre := s } }
  | 11 => { item with metadata := { metadata with year := UInt32.ofInt (atoi (cStr s)) } }
  | 12 => { item with metadata := { metadata with track := UInt32.ofInt (atoi (cStr s)) } }
  | 13 => { item with metadata := { metadata with time := UInt32.ofInt (atoi (cStr s)) } }
  | 14 => { item with metadata := { metadata with size := UInt32.ofInt (atoi (cStr s)) } }
  | 15 => { item with state := .ofCode (atoi (cStr s)) }
  | _ => item

/-- Behind the fields of its `switch` the loop takes nothing. -/
def skipsOthers (j _ : Nat) : Bool := decide (16 ≤ j)

/-- The item that `LoadResumableDownloadItems` makes of a record. -/
def loadItem (value : Text) : Except RecordFault DownloadItem := do
  let count := readCount value
  let r ← readLengths count.1 count.2
  readFields skipsOthers setDownloadItem r.2 0 0 r.1 .new

def databaseVersionKey : Text := bytes "FREEAMP_DATABASE_VERSION"

/-- The order in which gdbm goes through the keys of a database. -/
structure KeyOrder where
  order : Database → List Text
  perm : ∀ db, (order db).Perm db.keys

/-- The keys that `NextKey` returns one after the other. -/
def KeyOrder.nextKeys (order : KeyOrder) (db : Database) : List Text :=
  (order.order db).filter (· != databaseVersionKey)

/-- The loop that loads what is under the keys. -/
def loadItems (db : Database) : List Text → Except RecordFault (List DownloadItem)
  | [] => .ok []
  | key :: keys =>
    match db.value key with
    | none => loadItems db keys
    | some value => do
        let item ← loadItem value
        let items ← loadItems db keys
        .ok (item :: items)

/-- `while ((key = database.NextKey(NULL))) database.Remove(key);`, a round for each key. -/
def removeKeys (order : KeyOrder) : Nat → Database → Database
  | 0, db => db
  | n + 1, db =>
    match order.nextKeys db with
    | [] => db
    | key :: _ => removeKeys order n (db.remove key)

/-- `LoadResumableDownloadItems`: the items that are appended to `m_itemList`, and the
database afterwards. -/
def loadResumableDownloadItems (order : KeyOrder) (db : Database) :
    Except RecordFault (List DownloadItem × Database) :=
  if db.working then do
    let items ← loadItems db (order.nextKeys db)
    .ok (items, removeKeys order (order.nextKeys db).length db)
  else .ok ([], db)

end FreeAmp.Base
