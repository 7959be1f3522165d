/-
  Plm/Pmp300.lean --- writing a playlist to a Rio PMP300, from
  `plm/portable/pmp300/pmp300.cpp` and `plm/portable/pmp300/sba/rio.cpp`.

  A `CRio` is the directory of one of the two memories: as it is on the card, and as it is
  in `m_cDirBlock` until it is sent.  How transfers go is an argument, and so are the file
  system and the name of the directory for temporary files.  The device has been found;
  events are left out, and paths fit into their buffers.
-/
import FreeAmp.Base.FileUrl

namespace FreeAmp.Plm.Pmp300

open FreeAmp.Base FreeAmp.Lib

/-! ## The device -/

/-- The two memories. -/
inductive Memory where
  | internal
  | external
  deriving DecidableEq, Repr

/-- `CDirEntry`, with what its blocks hold. -/
structure RioFile where
  name : Text
  contents : Text
  deriving DecidableEq, Repr

structure CRio where
  /-- the entries of `m_cDirBlock` -/
  block : List RioFile
  /-- the entries on the card -/
  card : List RioFile
  deriving DecidableEq

/-- How a transfer ends. -/
inductive Transfer where
  | done
  /-- `CRIO_ERROR_INTERRUPTED` -/
  | interrupted
  | failed
  deriving DecidableEq, Repr

/-- How the transfers go that are tried. -/
structure Wire where
  rxDirectory : Memory → Bool
  /-- by the name on the device -/
  rxFile : Memory → Text → Transfer
  /-- by the path -/
  txFile : Memory → Text → Transfer
  /-- before the uploads, and at the end -/
  txDirectory : Memory → Bool → Bool

/-- The local files, by their paths. -/
abbrev Files := Text → Option Text

/-- A file is written. -/
def Files.put (files : Files) (path contents : Text) : Files :=
  fun p => if p = path then some contents else files p

def Files.remove (files : Files) (path : Text) : Files :=
  fun p => if p = path then none else files p

/-- `GetFile` of `rio.cpp` -/
def getFile (pszPathFile : Text) : Text :=
  (pszPathFile.reverse.takeWhile fun c => c != 92 && c != dirMarker && c != 58).reverse

namespace CRio

def findFile (rio : CRio) (pszFile : Text) : Option RioFile :=
  rio.block.find? fun f => f.name == pszFile

def removeFile (rio : CRio) (pszFile : Text) : Option CRio :=
  match rio.findFile pszFile with
  | none => none
  | some _ => some { rio with block := rio.block.eraseP fun f => f.name == pszFile }

/-- `RxFile`; a file is there as soon as it is opened for writing. -/
def rxFile (w : Wire) (m : Memory) (rio : CRio) (files : Files) (pszPathFile : Text) :
    Transfer × Files :=
  match rio.findFile (getFile pszPathFile) with
  | none => (.failed, files)
  | some f =>
    match w.rxFile m f.name with
    | .done => (.done, files.put pszPathFile f.contents)
    | t => (t, files.put pszPathFile [])

/-- `TxFile`; the entry of a file that has not come through is not sent. -/
def txFile (w : Wire) (m : Memory) (rio : CRio) (files : Files) (pszPathFile : Text) :
    Transfer × CRio :=
  match files pszPathFile with
  | none => (.failed, rio)
  | some contents =>
    match w.txFile m pszPathFile with
    | .done => (.done, { rio with block := rio.block ++ [⟨getFile pszPathFile, contents⟩] })
    | t => (t, rio)

def txDirectory (w : Wire) (m : Memory) (last : Bool) (rio : CRio) : CRio :=
  if w.txDirectory m last then { rio with card := rio.block } else rio

/-- The entries in a new order, behind them those that the order does not reach; nothing where
a position is not one of an entry. -/
def reorder (block : List RioFile) (order : List Nat) : Option (List RioFile) := do
  let moved ← order.mapM fun k => block[k]?
  if order.length ≤ block.length then some (moved ++ block.drop order.length) else none

/-- `SetFileOrder`; where a position is not valid nothing is moved. -/
def setFileOrder (rio : CRio) (pauiPosOrder : List Nat) : CRio :=
  { rio with block := (reorder rio.block pauiPosOrder).getD rio.block }

end CRio

/-! ## Items -/

/-- A URL of a local file, or one that `privateReadPlaylist` makes up. -/
inductive Url where
  | file (path : Text)
  | portable (m : Memory) (index : Nat) (name : Text)
  deriving DecidableEq, Repr

/-- The URL as it is written. -/
def Url.text : Url → Text
  | .file path => protocol ++ path
  | .portable m index name =>
    bytes "portable://rio_pmp300/" ++
      (match m with | .internal => bytes "internal/" | .external => bytes "external/") ++
        showNat index ++ dirMarker :: name

/-- What is behind the last separator. -/
def Url.lastPart (url : Url) : Text := (url.text.reverse.takeWhile (· != dirMarker)).reverse

/-- `PlaylistItem`, with the size in its metadata. -/
structure Item where
  url : Url
  size : Nat
  deriving DecidableEq, Repr

/-- What `privateReadPlaylist` makes of the entries. -/
def itemsOf (m : Memory) (entries : List RioFile) : List Item :=
  entries.mapIdx fun index f => ⟨.portable m index f.name, f.contents.length⟩

/-- `privateReadPlaylist`: the directory, `totalMem`, and the items. -/
def privateReadPlaylist (w : Wire) (m : Memory) (rio : CRio) (total : Nat) :
    Error × CRio × Nat × List Item :=
  if w.rxDirectory m then (.noErr, { rio with block := rio.card }, total, itemsOf m rio.card)
  else (.unknownErr, rio, 0, [])

/-! ## Planning -/

/-- Where the items are to go. -/
structure Plan where
  /-- what is in the buffer for paths -/
  path : Option Text
  internalTotal : Nat
  externalTotal : Nat
  useExternal : Bool
  newInternal : List Item
  newExternal : List Item

/-- The size of an item: what its metadata says, or else what `stat` says of the path in the
buffer, which only the URL of a file replaces. -/
def itemSize (files : Files) (path : Option Text) (item : Item) : Option Text × Option Nat :=
  if item.size ≠ 0 then (path, some item.size)
  else
    let path := match item.url with
      | .file p => some p
      | .portable _ _ _ => path
    (path, path.bind fun p => (files p).map List.length)

/-- `figure out where to put it...` -/
def plan (files : Files) : List Item → Plan → Error × Plan
  | [], s => (.noErr, s)
  | item :: list, s =>
    let r := itemSize files s.path item
    match r.2 with
    | none => (.fileNoAccess, { s with path := r.1 })
    | some size =>
      if !s.useExternal && decide (size ≤ s.internalTotal) then
        plan files list
          { s with
            path := r.1
            internalTotal := s.internalTotal - size
            newInternal := s.newInternal ++ [item] }
      else if size ≤ s.externalTotal then
        plan files list
          { s with
            path := r.1
            useExternal := true
            externalTotal := s.externalTotal - size
            newExternal := s.newExternal ++ [item] }
      else (.noErr, { s with path := r.1, useExternal := true })

/-! ## Deleting -/

/-- The error code for a transfer; not always the memory is asked that the transfer was from. -/
def transferError (asked : Bool) : Transfer → Error
  | .done => .noErr
  | .interrupted => if asked then .userCancel else .unknownErr
  | .failed => .unknownErr

/-- `SetURL` of the first item with a URL. -/
def setURL (old new : Url) : List Item → List Item
  | [] => []
  | item :: items =>
    if item.url = old then { item with url := new } :: items
    else item :: setURL old new items

/-- `tempPath`, a separator, and a name. -/
def downloadPath (tempPath name : Text) : Text := tempPath ++ dirMarker :: name

/-- What the loop over the items of a memory changes. -/
structure Deleting where
  rio : CRio
  files : Files
  /-- the items that are to be in the other memory -/
  there : List Item
  /-- the items of the memory, up to the one that is looked at, with `NULL` for the deleted -/
  marks : List (Option Item)

/-- An item that is to be in the other memory is downloaded to a temporary file. -/
def fetch (w : Wire) (tempPath : Text) (m : Memory) (s : Deleting) (item : Item) :
    Error × Deleting :=
  if item.url ∈ s.there.map Item.url then
    let path := downloadPath tempPath item.url.lastPart
    let rx := s.rio.rxFile w m s.files path
    (transferError (m == .internal) rx.1,
      { s with
        files := rx.2
        there := if rx.1 = .done then setURL item.url (.file path) s.there else s.there })
  else (.noErr, s)

/-- One item of a memory. -/
def deleteItem (w : Wire) (tempPath : Text) (m : Memory) (here : List Item) (s : Deleting)
    (item : Item) : Error × Deleting :=
  if item.url ∈ here.map Item.url then (.noErr, { s with marks := s.marks ++ [some item] })
  else
    let r := fetch w tempPath m s item
    if r.1 ≠ .noErr then (r.1, { r.2 with marks := r.2.marks ++ [some item] })
    else
      match r.2.rio.removeFile item.url.lastPart with
      | none => (.unknownErr, { r.2 with marks := r.2.marks ++ [some item] })
      | some rio => (.noErr, { r.2 with rio, marks := r.2.marks ++ [none] })

/-- The loop over the items of a memory. -/
def deleteItems (w : Wire) (tempPath : Text) (m : Memory) (here : List Item) :
    List Item → Deleting → Error × Deleting
  | [], s => (.noErr, s)
  | item :: items, s =>
    let r := deleteItem w tempPath m here s item
    if r.1 ≠ .noErr then (r.1, { r.2 with marks := r.2.marks ++ items.map some })
    else deleteItems w tempPath m here items r.2

/-! ## Uploading -/

/-- The loop over the items that are to be in a memory: the items that are there now, behind
the directory. -/
def uploadItems (w : Wire) (m : Memory) (files : Files) :
    List Item → CRio → List Item → Error × CRio × List Item
  | [], rio, orig => (.noErr, rio, orig)
  | item :: items, rio, orig =>
    match item.url with
    | .portable _ _ _ => uploadItems w m files items rio orig
    | .file path =>
      let tx := rio.txFile w m files path
      if tx.1 = .done then uploadItems w m files items tx.2 (orig ++ [item])
      else (transferError true tx.1, tx.2, orig)

/-- `entryOrder`, an item that is not found leaving its position unset. -/
def entryOrder (orig new : List Item) : Option (List Nat) :=
  new.mapM fun item => orig.findIdx? fun a => a.url == item.url

/-! ## `WritePlaylist` -/

/-- What is left behind. -/
structure Outcome where
  /-- what is returned; nothing where a null pointer or an unset variable is used -/
  result : Option Error
  internal : CRio
  external : CRio
  files : Files

/-- Between the parts of the function. -/
structure Job where
  internal : CRio
  external : CRio
  files : Files
  newInternal : List Item
  newExternal : List Item
  origInternal : List Item
  origExternal : List Item

/-- `item->URL().find(tempPath) != string::npos`, for the URL of a file. -/
def inTemp (tempPath path : Text) : Bool := decide (protocol ++ tempPath <:+: protocol ++ path)

/-- The temporary files of the items are removed, up to a `NULL`. -/
def cleanUp (tempPath : Text) : List (Option Item) → Files → Bool × Files
  | [], files => (true, files)
  | none :: _, files => (false, files)
  | some item :: items, files =>
    match item.url with
    | .portable _ _ _ => cleanUp tempPath items files
    | .file path =>
      cleanUp tempPath items (if inTemp tempPath path then files.remove path else files)

/-- `clean up`, and `return result` -/
def finish (tempPath : Text) (result : Error) (internal external : CRio) (files : Files)
    (orig : List (Option Item)) : Outcome :=
  let r := cleanUp tempPath orig files
  { result := if r.1 then some result else none, internal, external, files := r.2 }

/-- Files that are not in the list are deleted, files that are to move are fetched. -/
def deletePart (w : Wire) (tempPath : Text) (j : Job) : Except Outcome Job :=
  let d := deleteItems w tempPath .internal j.newInternal j.origInternal
    ⟨j.internal, j.files, j.newExternal, []⟩
  if d.1 ≠ .noErr then
    .error (finish tempPath d.1 d.2.rio j.external d.2.files
      (d.2.marks ++ j.origExternal.map some))
  else
    let e := deleteItems w tempPath .external d.2.there j.origExternal
      ⟨j.external, d.2.files, j.newInternal, []⟩
    if e.1 ≠ .noErr then
      .error (finish tempPath e.1 d.2.rio e.2.rio e.2.files (d.2.marks ++ e.2.marks))
    else
      .ok
        { internal := d.2.rio
          external := e.2.rio
          files := e.2.files
          newInternal := e.2.there
          newExternal := d.2.there
          origInternal := d.2.marks.reduceOption
          origExternal := e.2.marks.reduceOption }

/-- The deletes are sent, and files are uploaded. -/
def uploadPart (w : Wire) (tempPath : Text) (j : Job) : Except Outcome Job :=
  let external := j.external.txDirectory w .external false
  let u := uploadItems w .internal j.files j.newInternal
    (j.internal.txDirectory w .internal false) j.origInternal
  if u.1 ≠ .noErr then
    .error (finish tempPath u.1 u.2.1 external j.files ((u.2.2 ++ j.origExternal).map some))
  else
    let v := uploadItems w .external j.files j.newExternal external j.origExternal
    if v.1 ≠ .noErr then
      .error (finish tempPath v.1 u.2.1 v.2.1 j.files ((u.2.2 ++ v.2.2).map some))
    else
      .ok
        { j with
          internal := u.2.1
          external := v.2.1
          origInternal := u.2.2
          origExternal := v.2.2 }

/-- The order of the list, and the last sync. -/
def orderPart (w : Wire) (tempPath : Text) (j : Job) : Outcome :=
  match entryOrder j.origInternal j.newInternal, entryOrder j.origExternal j.newExternal with
  | some orderInternal, some orderExternal =>
    finish tempPath .noErr
      ((j.internal.setFileOrder orderInternal).txDirectory w .internal true)
      ((j.external.setFileOrder orderExternal).txDirectory w .external true)
      j.files ((j.origInternal ++ j.origExternal).map some)
  | _, _ => { result := none, internal := j.internal, external := j.external, files := j.files }

/-- What a device is before it is written to. -/
structure Device where
  internal : CRio
  external : CRio
  /-- `m_usCount32KBlockAvailable * CRIO_SIZE_32KBLOCK`, for each memory -/
  internalTotal : Nat
  externalTotal : Nat

def writePlaylist (w : Wire) (d : Device) (tempPath : Text) (files : Files) (list : List Item) :
    Outcome :=
  let readInternal := privateReadPlaylist w .internal d.internal d.internalTotal
  let readExternal :=
    if readInternal.1 = .noErr then
      privateReadPlaylist w .external d.external d.externalTotal
    else (.unknownErr, d.external, 0, [])
  let p := plan files list
    { path := none
      internalTotal := readInternal.2.2.1
      externalTotal := readExternal.2.2.1
      useExternal := false
      newInternal := []
      newExternal := [] }
  let j : Job :=
    { internal := readInternal.2.1
      external := readExternal.2.1
      files
      newInternal := p.2.newInternal
      newExternal := p.2.newExternal
      origInternal := readInternal.2.2.2
      origExternal := readExternal.2.2.2 }
  let result := if p.1 ≠ .noErr then p.1 else readInternal.1
  if result ≠ .noErr then
    finish tempPath result j.internal j.external files ((j.origInternal ++ j.origExternal).map some)
  else
    match (do uploadPart w tempPath (← deletePart w tempPath j)) with
    | .error outcome => outcome
    | .ok j => orderPart w tempPath j

end FreeAmp.Plm.Pmp300
