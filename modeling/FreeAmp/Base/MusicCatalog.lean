/-
  Base/MusicCatalog.lean --- the catalog of tracks, from `base/src/musiccatalog.cpp`.

  The catalog keeps what the metadata database has of the tracks sorted by artist and
  album, and the tracks without an artist apart.  Of a track only its URL is kept here,
  which is all that `AddSong` and `RemoveSong` look at; playlists, streams, signatures,
  the GUID table and the events sent on the way are left out.  The metadata that
  `RetrieveMetaDataNow` finds in a file is an argument, and so are the keys that gdbm
  goes through while records are being replaced.
-/
import FreeAmp.Base.MetaDataRecord
import FreeAmp.Base.Errors

namespace FreeAmp.Base

open FreeAmp.Lib

/-! ## Names -/

/-- `toupper` in the C locale. -/
def toUpper (c : UInt8) : UInt8 := if 97 ≤ c ∧ c ≤ 122 then c - 32 else c

def caseCompare (s1 s2 : Text) : Bool :=
  s1.length == s2.length && (s1.zip s2).all fun p => toUpper p.1 == toUpper p.2

/-- `(meta->Artist().size() == 0) || (meta->Artist() == " ")`, and of an album the same. -/
def blank (name : Text) : Bool := name.length == 0 || name == [32]

/-! ## The catalog -/

structure AlbumList where
  name : Text
  trackList : List Text
  deriving DecidableEq, Repr, Inhabited

structure ArtistList where
  name : Text
  albumList : List AlbumList
  deriving DecidableEq, Repr, Inhabited

structure MusicCatalog where
  database : Database
  artistList : List ArtistList
  unsorted : List Text
  trackCount : Int
  killGUIDs : Bool

namespace MusicCatalog

/-- A catalog that has just been made, over a database. -/
def initial (db : Database) : MusicCatalog := ⟨db, [], [], 0, false⟩

/-! ## `AddSong` -/

/-- The metadata of a song: what its record says, or else what is found in its file and put
into a record. -/
def fetchSong (db : Database) (url : Text) (found : MetaData) :
    Except RecordFault (Database × Option MetaData) := do
  let metadata ← readMetaDataFromDatabase db url
  match metadata with
  | some m => .ok (db, some m)
  | none =>
    let db ← writeMetaDataToDatabase db url found .track
    let metadata ← readMetaDataFromDatabase db url
    .ok (db, metadata)

/-- `if (m_killGUIDs)`: the GUID is taken away, from the record too. -/
def dropGUID (killGUIDs : Bool) (db : Database) (url : Text) (metadata : MetaData) :
    Except RecordFault (Database × MetaData) :=
  if killGUIDs then do
    let metadata := { metadata with guid := [] }
    let db ← writeMetaDataToDatabase db url metadata .track
    .ok (db, metadata)
  else .ok (db, metadata)

def unknown : Text := bytes "Unknown"

/-- `changed`: the album or the title has no name. -/
def unnamed (metadata : MetaData) : Bool := blank metadata.album || blank metadata.title

/-- The metadata with an album and a title that have names. -/
def nameUnknown (metadata : MetaData) : MetaData :=
  { metadata with
    album := if blank metadata.album then unknown else metadata.album
    title := if blank metadata.title then unknown else metadata.title }

/-- How the loop over the albums of an artist ends. -/
inductive AlbumSearch where
  /-- the track is there already: `return kError_DuplicateItem` -/
  | duplicate
  /-- the track is put at the end of an album, and `m_trackCount++` -/
  | pushed
  /-- a new album is made for the track -/
  | newAlbum
  deriving DecidableEq, Repr, Inhabited

/-- The loop over the albums of an artist. -/
def addToAlbums (album url : Text) : List AlbumList → List AlbumList × AlbumSearch
  | [] => ([⟨album, [url]⟩], .newAlbum)
  | a :: albums =>
    if caseCompare album a.name then
      if url ∈ a.trackList then (a :: albums, .duplicate)
      else ({ a with trackList := a.trackList ++ [url] } :: albums, .pushed)
    else
      let r := addToAlbums album url albums
      (a :: r.1, r.2)

/-- The loop over the artists: the artists, by how much `m_trackCount` has grown, and
whether the track was there already.  The loop goes on behind an artist in one of whose
albums the track was put. -/
def addToArtists (artist album url : Text) :
    Bool → List ArtistList → List ArtistList × Int × Bool
  | foundArtist, [] =>
    if foundArtist then ([], 0, false) else ([⟨artist, [⟨album, [url]⟩]⟩], 0, false)
  | foundArtist, a :: artists =>
    if caseCompare artist a.name then
      match addToAlbums album url a.albumList with
      | (_, .duplicate) => (a :: artists, 0, true)
      | (albums, .newAlbum) => ({ a with albumList := albums } :: artists, 0, false)
      | (albums, .pushed) =>
        let r := addToArtists artist album url true artists
        ({ a with albumList := albums } :: r.1, r.2.1 + 1, r.2.2)
    else
      let r := addToArtists artist album url foundArtist artists
      (a :: r.1, r.2)

/-- The rest of `AddSong`, when the metadata is there. -/
def insertSong (c : MusicCatalog) (url : Text) (metadata : MetaData) :
    Except RecordFault (Error × MusicCatalog) :=
  if blank metadata.artist then
    if url ∈ c.unsorted then .ok (.duplicateItem, c)
    else .ok (.noErr, { c with unsorted := c.unsorted ++ [url], trackCount := c.trackCount + 1 })
  else do
    let named := nameUnknown metadata
    let db ← (if unnamed metadata then writeMetaDataToDatabase c.database url named .track
      else .ok c.database)
    let r := addToArtists named.artist named.album url false c.artistList
    .ok (if r.2.2 then .duplicateItem else .noErr,
      { c with database := db, artistList := r.1, trackCount := c.trackCount + r.2.1 })

/-- `AddSong`; `found` is the metadata that `RetrieveMetaDataNow` finds. -/
def addSong (c : MusicCatalog) (url : Text) (found : MetaData) :
    Except RecordFault (Error × MusicCatalog) :=
  if !c.database.working then .ok (.databaseNotWorking, c)
  else do
    let r ← fetchSong c.database url found
    match r.2 with
    | none => .ok (.databaseNotWorking, { c with database := r.1 })
    | some metadata =>
      let s ← dropGUID c.killGUIDs r.1 url metadata
      insertSong { c with database := s.1 } url s.2

/-! ## `RemoveSong` -/

/-- The loop over the albums of an artist: what is left of them, and whether the track was
found.  An album that is empty is erased, found or not, and `j++` then steps over the one
behind it: `skip` says that this is so. -/
def removeFromAlbums (album url : Text) :
    Bool → List AlbumList → Except RecordFault (List AlbumList × Bool)
  | skip, [] => if skip then .error .pastEnd else .ok ([], false)
  | skip, a :: albums =>
    if !skip && caseCompare album a.name then
      if url ∈ a.trackList then
        let trackList := a.trackList.erase url
        .ok (if trackList = [] then albums else { a with trackList } :: albums, true)
      else if a.trackList = [] then removeFromAlbums album url true albums
      else do
        let r ← removeFromAlbums album url false albums
        .ok (a :: r.1, r.2)
    else do
      let r ← removeFromAlbums album url false albums
      .ok (a :: r.1, r.2)

/-- The loop over the artists, in the same way. -/
def removeFromArtists (artist album url : Text) :
    Bool → List ArtistList → Except RecordFault (List ArtistList × Bool)
  | skip, [] => if skip then .error .pastEnd else .ok ([], false)
  | skip, a :: artists =>
    if !skip && caseCompare artist a.name then do
      let r ← removeFromAlbums album url false a.albumList
      if r.2 then
        .ok (if r.1 = [] then artists else { a with albumList := r.1 } :: artists, true)
      else if r.1 = [] then removeFromArtists artist album url true artists
      else do
        let s ← removeFromArtists artist album url false artists
        .ok ({ a with albumList := r.1 } :: s.1, s.2)
    else do
      let s ← removeFromArtists artist album url false artists
      .ok (a :: s.1, s.2)

def removeSong (c : MusicCatalog) (url : Text) : Except RecordFault (Error × MusicCatalog) :=
  if !c.database.working then .ok (.databaseNotWorking, c)
  else do
    let metadata ← readMetaDataFromDatabase c.database url
    match metadata with
    | none => .ok (.itemNotFound, c)
    | some m =>
      let c := { c with database := c.database.remove url }
      if blank m.artist then
        if url ∈ c.unsorted then
          .ok (.noErr,
            { c with unsorted := c.unsorted.erase url, trackCount := c.trackCount - 1 })
        else .ok (.noErr, c)
      else do
        let r ← removeFromArtists m.artist m.album url false c.artistList
        .ok (.noErr,
          { c with
            artistList := r.1
            trackCount := if r.2 then c.trackCount - 1 else c.trackCount })

/-! ## The other calls -/

def updateSong (c : MusicCatalog) (item : PlaylistItem) (found : MetaData) :
    Except RecordFault (Error × MusicCatalog) :=
  if !c.database.working then .ok (.databaseNotWorking, c)
  else do
    let url := cStr item.url
    let r ← removeSong c url
    if isError r.1 then .ok r
    else do
      let db ← writeMetaDataToDatabase r.2.database url item.metadata .track
      addSong { r.2 with database := db } url found

def clearCatalog (c : MusicCatalog) : MusicCatalog :=
  { c with artistList := [], unsorted := [], trackCount := 0 }

/-- `Add`: only a record that begins with `M` is of a track; `AddStream` does no more here
than read the record. -/
def add (c : MusicCatalog) (url : Text) (found : MetaData) :
    Except RecordFault (Error × MusicCatalog) :=
  if !c.database.working then .ok (.databaseNotWorking, c)
  else
    match c.database.value url with
    | none => .ok (.itemNotFound, c)
    | some data =>
      if data.head? = some 77 then addSong c url found
      else if data.head? = some 83 then do
        let _ ← readMetaDataFromDatabase c.database url
        .ok (.noErr, c)
      else if data.head? = some 80 then .ok (.noErr, c)
      else .ok (.youScrewedUp, c)

def subVersionKey : Text := bytes "FREEAMP_SUB_VERSION"

def getSubVersion (db : Database) : Int :=
  match db.value subVersionKey with
  | none => 0
  | some storedVer => atoi storedVer

def databaseSubVersion : Int := 3

/-- The loop over the keys, each with the metadata found in the file; what `Add` returns is
looked at by nobody. -/
def addKeys (c : MusicCatalog) : List (Text × MetaData) → Except RecordFault MusicCatalog
  | [] => .ok c
  | key :: keys => do
      let r ← add c key.1 key.2
      addKeys r.2 keys

/-- `RePopulateFromDatabase`; `keys` are the keys that `NextKey` returns. -/
def rePopulateFromDatabase (c : MusicCatalog) (keys : List (Text × MetaData)) :
    Except RecordFault (Error × MusicCatalog) :=
  if !c.database.working then .ok (.databaseNotWorking, c)
  else do
    let old := decide (getSubVersion c.database < databaseSubVersion)
    let cleared := clearCatalog c
    let c ← addKeys { cleared with killGUIDs := if old then true else c.killGUIDs } keys
    .ok (.noErr,
      { c with
        database := c.database.insert subVersionKey (showInt databaseSubVersion)
        killGUIDs := if old then false else c.killGUIDs })

/-! ## Runs -/

inductive Call where
  | addSong (url : Text) (found : MetaData)
  | removeSong (url : Text)
  | updateSong (item : PlaylistItem) (found : MetaData)
  | clearCatalog
  | rePopulateFromDatabase (keys : List (Text × MetaData))

/-- What a call does. -/
def call (c : MusicCatalog) : Call → Except RecordFault (Error × MusicCatalog)
  | .addSong url found => c.addSong url found
  | .removeSong url => c.removeSong url
  | .updateSong item found => c.updateSong item found
  | .clearCatalog => .ok (.noErr, c.clearCatalog)
  | .rePopulateFromDatabase keys => c.rePopulateFromDatabase keys

/-- A call that returns. -/
def Step (c : MusicCatalog) (k : Call) (c' : MusicCatalog) : Prop :=
  ∃ err, c.call k = .ok (err, c')

end MusicCatalog

end FreeAmp.Base
