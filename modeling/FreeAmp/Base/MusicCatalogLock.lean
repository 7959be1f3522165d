/-
  Base/MusicCatalogLock.lean --- `m_catMutex`, from `base/src/musiccatalog.cpp`.

  A thread calls into the catalog with the mutex held some number of times (it is a
  recursive one), and every `Acquire` and every `Release` on the way to each `return` is
  here.  Two flags say whether the thread has come to `m_artistList`, `m_unsorted`,
  `m_playlists` and `m_streams`, and to `m_guidTable`, without holding it.

      call_balanced_iff   which calls leave the mutex as it was, and come to nothing
                          without holding it

  What the target is sent, `m_sigs`, and the signatures that are generated are left out.
-/
import FreeAmp.Base.MusicCatalogUpdate

namespace FreeAmp.Base

open FreeAmp.Lib MusicCatalog

/-- `class MusicCatalog`, for the thread that is in it. -/
structure LockedCatalog where
  catalog : MusicCatalog
  playlists : List Text
  streams : List Text
  guidTable : List (Text × Text)
  /-- how many times the thread holds `m_catMutex` -/
  held : Nat
  /-- it has come to one of the lists and did not hold the mutex -/
  astray : Bool
  /-- it has come to `m_guidTable` and did not hold the mutex -/
  guidAstray : Bool

namespace LockedCatalog

/-! ## The mutex -/

/-- `m_catMutex->Acquire()` -/
def acquire (s : LockedCatalog) : LockedCatalog := { s with held := s.held + 1 }

/-- `m_catMutex->Release()` -/
def release (s : LockedCatalog) : LockedCatalog := { s with held := s.held - 1 }

/-- The lists are read or written. -/
def touch (s : LockedCatalog) : LockedCatalog := { s with astray := s.astray || s.held == 0 }

/-- `m_guidTable` is read or written. -/
def touchGUIDs (s : LockedCatalog) : LockedCatalog :=
  { s with guidAstray := s.guidAstray || s.held == 0 }

/-- Another catalog behind the mutex. -/
def withCatalog (s : LockedCatalog) (c : MusicCatalog) : LockedCatalog := { s with catalog := c }

/-- Another database behind it. -/
def withDatabase (s : LockedCatalog) (db : Database) : LockedCatalog :=
  s.withCatalog { s.catalog with database := db }

/-! ## The GUID table -/

def getFilename (s : LockedCatalog) (guid : Text) : Text × LockedCatalog :=
  ((s.guidTable.lookup guid).getD [], s.touchGUIDs)

/-- `m_guidTable->insert` -/
def insertGUID (s : LockedCatalog) (guid url : Text) : LockedCatalog :=
  { s.touchGUIDs with guidTable := s.guidTable ++ [(guid, url)] }

/-- The GUID of a record that is read or written is put into the table if it is not there. -/
def noteGUID (s : LockedCatalog) (guid url : Text) : LockedCatalog :=
  if 0 < guid.length then
    let r := s.getFilename guid
    if r.1.length = 0 then r.2.insertGUID (cStr guid) url else r.2
  else s

def readMetaData (s : LockedCatalog) (url : Text) :
    Except RecordFault (Option MetaData × LockedCatalog) := do
  let metadata ← readMetaDataFromDatabase s.catalog.database url
  match metadata with
  | none => .ok (none, s)
  | some m => .ok (some m, s.noteGUID m.guid url)

def writeMetaData (s : LockedCatalog) (url : Text) (metadata : MetaData) :
    Except RecordFault LockedCatalog :=
  if !s.catalog.database.working then .ok s
  else do
    let db ← writeMetaDataToDatabase s.catalog.database url metadata .track
    .ok ((s.noteGUID metadata.guid url).withDatabase db)

/-! ## Playlists and streams -/

/-- `tempstr.find("currentlist.m3u") < tempstr.length()` -/
def isCurrentList (url : Text) : Bool := decide (bytes "currentlist.m3u" <:+: url)

def removePlaylist (s : LockedCatalog) (url : Text) : Error × LockedCatalog :=
  let db := s.catalog.database
  if !db.working then (.databaseNotWorking, s)
  else
    match db.value url with
    | none => (.itemNotFound, s)
    | some _ =>
      let s := (s.withDatabase (db.remove url)).acquire.touch
      if url ∈ s.playlists then
        let s := if isCurrentList url then s else { s with playlists := s.playlists.erase url }
        (.noErr, s.release)
      else (.itemNotFound, s.release)

def addPlaylist (s : LockedCatalog) (url : Text) : Error × LockedCatalog :=
  let db := s.catalog.database
  if !db.working then (.databaseNotWorking, s)
  else
    let s := if (db.value url).isNone then s.withDatabase (db.insert url (bytes "P")) else s
    let s := s.acquire.touch
    if url ∉ s.playlists then
      let playlists := if isCurrentList url then url :: s.playlists else s.playlists ++ [url]
      (.noErr, { s with playlists }.release)
    else (.duplicateItem, s.release)

def removeStream (s : LockedCatalog) (url : Text) :
    Except RecordFault (Error × LockedCatalog) :=
  if !s.catalog.database.working then .ok (.databaseNotWorking, s)
  else do
    let r ← s.readMetaData url
    match r.1 with
    | none => .ok (.itemNotFound, r.2)
    | some m =>
      let s := (r.2.withDatabase (r.2.catalog.database.remove url)).acquire.touch
      let s := { s with streams := s.streams.erase url }
      if m.guid.length ≠ 0 then
        let s := { s.touchGUIDs with guidTable := s.guidTable.erase (m.guid, url) }
        .ok (.noErr, s.release)
      else .ok (.noErr, s.release)

/-- `AddStream`; the return from the loop is without a `Release`. -/
def addStream (s : LockedCatalog) (url : Text) : Except RecordFault (Error × LockedCatalog) :=
  if !s.catalog.database.working then .ok (.databaseNotWorking, s)
  else do
    let r ← s.readMetaData url
    match r.1 with
    | none => .ok (.databaseNotWorking, r.2)
    | some m =>
      let s := r.2.acquire
      let s := if 0 < m.guid.length then s.insertGUID m.guid url else s
      let s := s.touch
      if url ∈ s.streams then .ok (.duplicateItem, s)
      else .ok (.noErr, { s with streams := s.streams ++ [url] }.release)

/-! ## Songs -/

/-- `GetPlaylistItemFromURL`: whether it returns an item. -/
def getPlaylistItemFromURL (s : LockedCatalog) (url : Text) :
    Except RecordFault (Bool × LockedCatalog) :=
  if !s.catalog.database.working then .ok (false, s)
  else do
    let r ← s.readMetaData url
    match r.1 with
    | none => .ok (false, r.2)
    | some m =>
      let s := r.2.acquire.touch
      .ok (s.catalog.finds m url, s.release)

def removeSong (s : LockedCatalog) (url : Text) : Except RecordFault (Error × LockedCatalog) :=
  if !s.catalog.database.working then .ok (.databaseNotWorking, s)
  else do
    let r ← s.readMetaData url
    match r.1 with
    | none => .ok (.itemNotFound, r.2)
    | some m =>
      let s := (r.2.withDatabase (r.2.catalog.database.remove url)).acquire.touch
      let c := s.catalog
      let c ←
        (if blank m.artist then
          if url ∈ c.unsorted then
            .ok { c with unsorted := c.unsorted.erase url, trackCount := c.trackCount - 1 }
          else .ok c
        else do
          let t ← removeFromArtists m.artist m.album url false c.artistList
          .ok
            { c with
              artistList := t.1
              trackCount := if t.2 then c.trackCount - 1 else c.trackCount }
          : Except RecordFault MusicCatalog)
      let s := s.withCatalog c
      let s := if m.guid.length ≠ 0 then s.touchGUIDs else s
      .ok (.noErr, s.release)

/-- `AddSong` from its `Acquire` on. -/
def insertSong (s : LockedCatalog) (url : Text) (metadata : MetaData) :
    Except RecordFault (Error × LockedCatalog) :=
  let s := s.acquire
  let s := if 0 < metadata.guid.length then s.insertGUID metadata.guid url else s
  if blank metadata.artist then
    let s := s.touch
    let c := s.catalog
    if url ∈ c.unsorted then .ok (.duplicateItem, s.release)
    else
      let s := s.withCatalog
        { c with unsorted := c.unsorted ++ [url], trackCount := c.trackCount + 1 }
      .ok (.noErr, s.release)
  else do
    let named := nameUnknown metadata
    let s ← (if unnamed metadata then s.writeMetaData url named else .ok s)
    let s := s.touch
    let c := s.catalog
    let r := addToArtists named.artist named.album url false c.artistList
    let s := s.withCatalog { c with artistList := r.1, trackCount := c.trackCount + r.2.1 }
    if r.2.2 then .ok (.duplicateItem, s.release) else .ok (.noErr, s.release)

def addSong (s : LockedCatalog) (url : Text) (found : MetaData) :
    Except RecordFault (Error × LockedCatalog) :=
  if !s.catalog.database.working then .ok (.databaseNotWorking, s)
  else do
    let r ← s.readMetaData url
    let r ←
      (match r.1 with
      | some _ => .ok r
      | none => do
          let s ← r.2.writeMetaData url found
          s.readMetaData url : Except RecordFault (Option MetaData × LockedCatalog))
    match r.1 with
    | none => .ok (.databaseNotWorking, r.2)
    | some metadata =>
      if r.2.catalog.killGUIDs then do
        let metadata := { metadata with guid := [] }
        let s ← r.2.writeMetaData url metadata
        s.insertSong url metadata
      else r.2.insertSong url metadata

def updateSong (s : LockedCatalog) (item : PlaylistItem) (found : MetaData) :
    Except RecordFault (Error × LockedCatalog) :=
  if !s.catalog.database.working then .ok (.databaseNotWorking, s)
  else do
    let url := cStr item.url
    let r ← s.removeSong url
    if isError r.1 then .ok r
    else do
      let s ← r.2.writeMetaData url item.metadata
      s.addSong url found

inductive Call where
  | addPlaylist (url : Text)
  | removePlaylist (url : Text)
  | addStream (url : Text)
  | removeStream (url : Text)
  | addSong (url : Text) (found : MetaData)
  | removeSong (url : Text)
  | updateSong (item : PlaylistItem) (found : MetaData)
  | getPlaylistItemFromURL (url : Text)
  | getFilename (guid : Text)

/-- What a call does. -/
def call (s : LockedCatalog) : Call → Except RecordFault LockedCatalog
  | .addPlaylist url => .ok (s.addPlaylist url).2
  | .removePlaylist url => .ok (s.removePlaylist url).2
  | .addStream url => (·.2) <$> s.addStream url
  | .removeStream url => (·.2) <$> s.removeStream url
  | .addSong url found => (·.2) <$> s.addSong url found
  | .removeSong url => (·.2) <$> s.removeSong url
  | .updateSong item found => (·.2) <$> s.updateSong item found
  | .getPlaylistItemFromURL url => (·.2) <$> s.getPlaylistItemFromURL url
  | .getFilename guid => .ok (s.getFilename guid).2

/-! ## Which calls go wrong -/

/-- The call leaves without a `Release`: a stream that has a record is there already. -/
def Leaves (s : LockedCatalog) : Call → Prop
  | .addStream url => (∃ m, s.catalog.Reads url m) ∧ url ∈ s.streams
  | _ => False

def recordGUIDs (db : Database) (url : Text) : List Text :=
  match readMetaDataFromDatabase db url with
  | .ok (some m) => [m.guid]
  | _ => []

/-- The GUIDs that `AddSong` reads and writes before its `Acquire`: that of the record, or else that
of what is found in the file and that of the record which is made of it. -/
def songGUIDs (db : Database) (url : Text) (found : MetaData) : List Text :=
  if !db.working then []
  else
    match readMetaDataFromDatabase db url with
    | .ok (some m) => [m.guid]
    | _ =>
      match writeMetaDataToDatabase db url found .track with
      | .ok db => found.guid :: recordGUIDs db url
      | .error _ => []

/-- The GUIDs that `UpdateSong` does: that of the record, that of the new metadata and, of the
record that was made of it, what `AddSong` does. -/
def updateGUIDs (db : Database) (item : PlaylistItem) (found : MetaData) : List Text :=
  let url := cStr item.url
  match readMetaDataFromDatabase db url with
  | .ok (some m) =>
    match writeMetaDataToDatabase (db.remove url) url item.metadata .track with
    | .ok db => [m.guid, item.metadata.guid] ++ songGUIDs db url found
    | .error _ => []
  | _ => []

/-- The call comes to `m_guidTable` while it does not hold the mutex itself. -/
def MeetsGUIDs (s : LockedCatalog) (k : Call) : Prop :=
  let db := s.catalog.database
  match k with
  | .addPlaylist _ => False
  | .removePlaylist _ => False
  | .addStream url => ∃ guid ∈ recordGUIDs db url, guid ≠ []
  | .removeStream url => ∃ guid ∈ recordGUIDs db url, guid ≠ []
  | .addSong url found => ∃ guid ∈ songGUIDs db url found, guid ≠ []
  | .removeSong url => ∃ guid ∈ recordGUIDs db url, guid ≠ []
  | .updateSong item found => ∃ guid ∈ updateGUIDs db item found, guid ≠ []
  | .getPlaylistItemFromURL url => ∃ guid ∈ recordGUIDs db url, guid ≠ []
  | .getFilename _ => True

/-! ## Between `Acquire` and `Release` -/

/-- From `s` the thread has come to `t`, which is behind one more `Acquire`. -/
structure Inside (s t : LockedCatalog) : Prop where
  held : t.held = s.held + 1
  astray : t.astray = s.astray
  guidAstray : t.guidAstray = s.guidAstray

/-- From `s` the thread has come to `t`, with as many holds as before, and has come to
`m_guidTable` on the way if `P`. -/
structure Visits (s t : LockedCatalog) (P : Prop) : Prop where
  held : t.held = s.held
  astray : t.astray = s.astray
  guidAstray : t.guidAstray = true ↔ s.guidAstray = true ∨ (s.held = 0 ∧ P)

section Visits

variable {s t u : LockedCatalog} {P Q : Prop}

theorem Inside.acquire (s : LockedCatalog) : s.Inside s.acquire := ⟨rfl, rfl, rfl⟩

theorem Inside.touch (h : s.Inside t) : s.Inside t.touch := by
  have hheld : (t.held == 0) = false := by
    rw [h.held]
    rfl
  refine ⟨h.held, ?_, h.guidAstray⟩
  show (t.astray || t.held == 0) = s.astray
  rw [hheld, Bool.or_false, h.astray]

theorem Inside.touchGUIDs (h : s.Inside t) : s.Inside t.touchGUIDs := by
  have hheld : (t.held == 0) = false := by
    rw [h.held]
    rfl
  refine ⟨h.held, h.astray, ?_⟩
  show (t.guidAstray || t.held == 0) = s.guidAstray
  rw [hheld, Bool.or_false, h.guidAstray]

theorem Inside.insertGUID (h : s.Inside t) (guid url : Text) : s.Inside (t.insertGUID guid url) :=
  ⟨h.touchGUIDs.held, h.touchGUIDs.astray, h.touchGUIDs.guidAstray⟩

theorem Inside.withCatalog (h : s.Inside t) (c : MusicCatalog) : s.Inside (t.withCatalog c) :=
  ⟨h.held, h.astray, h.guidAstray⟩

theorem Inside.withPlaylists (h : s.Inside t) (playlists : List Text) :
    s.Inside { t with playlists } := ⟨h.held, h.astray, h.guidAstray⟩

theorem Inside.withStreams (h : s.Inside t) (streams : List Text) :
    s.Inside { t with streams } := ⟨h.held, h.astray, h.guidAstray⟩

theorem Inside.withGUIDs (h : s.Inside t) (guidTable : List (Text × Text)) :
    s.Inside { t with guidTable } := ⟨h.held, h.astray, h.guidAstray⟩

theorem Inside.noteGUID (h : s.Inside t) (guid url : Text) : s.Inside (t.noteGUID guid url) := by
  unfold LockedCatalog.noteGUID
  split
  · dsimp only
    split
    · exact h.touchGUIDs.insertGUID _ _
    · exact h.touchGUIDs
  · exact h

theorem Inside.writeMetaData {url : Text} {metadata : MetaData} (h : s.Inside t)
    (hok : t.writeMetaData url metadata = .ok u) : s.Inside u := by
  unfold LockedCatalog.writeMetaData at hok
  split at hok
  · rw [← Except.ok.inj hok]
    exact h
  · obtain ⟨db, -, hok⟩ := bind_eq_ok.mp hok
    rw [← Except.ok.inj hok]
    exact (h.noteGUID metadata.guid url).withCatalog _

theorem Inside.release (h : s.Inside t) : s.Visits t.release False where
  held := by
    show t.held - 1 = s.held
    rw [h.held]
    rfl
  astray := h.astray
  guidAstray := by
    show t.guidAstray = true ↔ _
    rw [h.guidAstray]
    simp

theorem Visits.refl (s : LockedCatalog) : s.Visits s False := ⟨rfl, rfl, by simp⟩

theorem Visits.trans (h : s.Visits t P) (h' : t.Visits u Q) : s.Visits u (P ∨ Q) where
  held := h'.held.trans h.held
  astray := h'.astray.trans h.astray
  guidAstray := by
    rw [h'.guidAstray, h.guidAstray, h.held, or_assoc, and_or_left]

theorem Visits.congr (h : s.Visits t P) (hiff : P ↔ Q) : s.Visits t Q :=
  ⟨h.held, h.astray, by rw [h.guidAstray, hiff]⟩

theorem Visits.inside (h : s.Visits t P) (h' : t.Inside u) : s.Visits u.release P :=
  (h.trans h'.release).congr (by rw [or_false])

end Visits

/-! ## The calls, one by one -/

section Calls

variable {s s' : LockedCatalog} {url : Text} {err : Error}

theorem noteGUID_visits (s : LockedCatalog) (guid url : Text) :
    s.Visits (s.noteGUID guid url) (guid ≠ []) := by
  have htouched : s.Visits s.touchGUIDs True := by
    refine ⟨rfl, rfl, ?_⟩
    show (s.guidAstray || s.held == 0) = true ↔ _
    simp
  unfold noteGUID
  split
  · rename_i hguid
    have hne : guid ≠ [] := List.ne_nil_of_length_pos hguid
    dsimp only
    split
    · refine ⟨rfl, rfl, ?_⟩
      show ((s.guidAstray || s.held == 0) || s.held == 0) = true ↔ _
      simp [hne]
    · exact htouched.congr (by simp [hne])
  · rename_i hguid
    have hnil : guid = [] := List.length_eq_zero_iff.mp (Nat.eq_zero_of_not_pos hguid)
    exact (Visits.refl s).congr (by simp [hnil])

theorem noteGUID_same (s : LockedCatalog) (guid url : Text) :
    (s.noteGUID guid url).catalog = s.catalog ∧
      (s.noteGUID guid url).streams = s.streams := by
  unfold noteGUID
  split
  · dsimp only
    split <;> exact ⟨rfl, rfl⟩
  · exact ⟨rfl, rfl⟩

/-- Reading a record comes to the table if the record has a GUID. -/
theorem readMetaData_spec {metadata : Option MetaData}
    (hok : s.readMetaData url = .ok (metadata, s')) :
    readMetaDataFromDatabase s.catalog.database url = .ok metadata ∧
      s'.catalog = s.catalog ∧ s'.streams = s.streams ∧
      s.Visits s' (∃ guid ∈ recordGUIDs s.catalog.database url, guid ≠ []) := by
  obtain ⟨m, hread, hok⟩ := bind_eq_ok.mp hok
  unfold recordGUIDs
  cases m with
  | none =>
    obtain ⟨rfl, rfl⟩ := pair_of_ok hok
    refine ⟨hread, rfl, rfl, (Visits.refl s).congr ?_⟩
    simp [hread]
  | some m =>
    obtain ⟨rfl, rfl⟩ := pair_of_ok hok
    obtain ⟨hcatalog, hstreams⟩ := noteGUID_same s m.guid url
    refine ⟨hread, hcatalog, hstreams, (noteGUID_visits s m.guid url).congr ?_⟩
    simp [hread]

theorem writeMetaData_spec {metadata : MetaData} (hworking : s.catalog.database.working = true)
    (hok : s.writeMetaData url metadata = .ok s') :
    ∃ db, writeMetaDataToDatabase s.catalog.database url metadata .track = .ok db ∧
      s'.catalog = { s.catalog with database := db } ∧ s.Visits s' (metadata.guid ≠ []) := by
  unfold writeMetaData at hok
  rw [hworking] at hok
  simp only [Bool.not_true, Bool.false_eq_true, if_false] at hok
  obtain ⟨db, hwrite, hok⟩ := bind_eq_ok.mp hok
  rw [← Except.ok.inj hok]
  have hnote := noteGUID_visits s metadata.guid url
  refine ⟨db, hwrite, ?_, hnote.held, hnote.astray, hnote.guidAstray⟩
  show { (s.noteGUID metadata.guid url).catalog with database := db } = _
  rw [(noteGUID_same s metadata.guid url).1]

theorem visits_of_not_working (hworking : s.catalog.database.working = false) (url : Text) :
    s.Visits s (∃ guid ∈ recordGUIDs s.catalog.database url, guid ≠ []) := by
  refine (Visits.refl s).congr ?_
  simp [recordGUIDs, read_of_not_working hworking]

theorem addPlaylist_visits (s : LockedCatalog) (url : Text) :
    s.Visits (s.addPlaylist url).2 False := by
  unfold addPlaylist
  dsimp only
  split
  · exact Visits.refl s
  · have hinside : ∀ db : Database, s.Inside (s.withDatabase db).acquire.touch := fun db =>
      Inside.touch ⟨rfl, rfl, rfl⟩
    have hstart : s.Inside (if (s.catalog.database.value url).isNone
        then s.withDatabase (s.catalog.database.insert url (bytes "P")) else s).acquire.touch := by
      split
      · exact hinside _
      · exact (Inside.acquire s).touch
    generalize (if (s.catalog.database.value url).isNone then
      s.withDatabase (s.catalog.database.insert url (bytes "P")) else s).acquire.touch = t at hstart ⊢
    split
    · exact (hstart.withPlaylists _).release
    · exact hstart.release

theorem removePlaylist_visits (s : LockedCatalog) (url : Text) :
    s.Visits (s.removePlaylist url).2 False := by
  unfold removePlaylist
  dsimp only
  split
  · exact Visits.refl s
  · split
    · exact Visits.refl s
    · have hstart : s.Inside
          (s.withDatabase (s.catalog.database.remove url)).acquire.touch :=
        Inside.touch ⟨rfl, rfl, rfl⟩
      split
      · split
        · exact hstart.release
        · exact (hstart.withPlaylists _).release
      · exact hstart.release

theorem removeStream_visits (hok : s.removeStream url = .ok (err, s')) :
    s.Visits s' (∃ guid ∈ recordGUIDs s.catalog.database url, guid ≠ []) := by
  unfold removeStream at hok
  cases hworking : s.catalog.database.working with
  | false =>
    rw [hworking] at hok
    obtain ⟨-, rfl⟩ := pair_of_ok hok
    exact visits_of_not_working hworking url
  | true =>
    rw [hworking] at hok
    simp only [Bool.not_true, Bool.false_eq_true, if_false] at hok
    obtain ⟨⟨metadata, t⟩, hread, hok⟩ := bind_eq_ok.mp hok
    obtain ⟨-, -, -, hvisits⟩ := readMetaData_spec hread
    cases metadata with
    | none =>
      obtain ⟨-, rfl⟩ := pair_of_ok hok
      exact hvisits
    | some m =>
      have hstart : t.Inside (t.withDatabase (t.catalog.database.remove url)).acquire.touch :=
        Inside.touch ⟨rfl, rfl, rfl⟩
      dsimp only at hok
      split at hok
      · obtain ⟨-, rfl⟩ := pair_of_ok hok
        have hstreams := hstart.withStreams ((t.withDatabase
          (t.catalog.database.remove url)).acquire.touch.streams.erase url)
        exact hvisits.inside (hstreams.touchGUIDs.withGUIDs _)
      · obtain ⟨-, rfl⟩ := pair_of_ok hok
        exact hvisits.inside (hstart.withStreams _)

/-- `AddStream` keeps one hold when the stream is there already. -/
theorem addStream_visits (hok : s.addStream url = .ok (err, s')) :
    (s.Leaves (.addStream url) ∧ s'.held = s.held + 1 ∧
        (s'.guidAstray = true ↔ s.guidAstray = true ∨
          (s.held = 0 ∧ ∃ guid ∈ recordGUIDs s.catalog.database url, guid ≠ []))) ∨
      (¬ s.Leaves (.addStream url) ∧
        s.Visits s' (∃ guid ∈ recordGUIDs s.catalog.database url, guid ≠ [])) := by
  unfold addStream at hok
  cases hworking : s.catalog.database.working with
  | false =>
    rw [hworking] at hok
    obtain ⟨-, rfl⟩ := pair_of_ok hok
    refine .inr ⟨?_, visits_of_not_working hworking url⟩
    rintro ⟨⟨m, hm⟩, _⟩
    exact absurd ((read_of_not_working hworking url).symm.trans hm) nofun
  | true =>
    rw [hworking] at hok
    simp only [Bool.not_true, Bool.false_eq_true, if_false] at hok
    obtain ⟨⟨metadata, t⟩, hread, hok⟩ := bind_eq_ok.mp hok
    obtain ⟨hrecord, -, hstreams, hvisits⟩ := readMetaData_spec hread
    cases metadata with
    | none =>
      obtain ⟨-, rfl⟩ := pair_of_ok hok
      refine .inr ⟨?_, hvisits⟩
      rintro ⟨⟨m, hm⟩, _⟩
      exact absurd (hrecord.symm.trans hm) nofun
    | some m =>
      have htable : t.Inside
          (if 0 < m.guid.length then t.acquire.insertGUID m.guid url else t.acquire) := by
        split
        · exact (Inside.acquire t).insertGUID _ _
        · exact Inside.acquire t
      have hsame : (if 0 < m.guid.length then t.acquire.insertGUID m.guid url
          else t.acquire).touch.streams = s.streams := by
        split <;> exact hstreams
      dsimp only at hok
      generalize (if 0 < m.guid.length then t.acquire.insertGUID m.guid url
        else t.acquire) = u at hok htable hsame
      rw [hsame] at hok
      split at hok
      · rename_i hmem
        obtain ⟨-, rfl⟩ := pair_of_ok hok
        refine .inl ⟨⟨⟨m, hrecord⟩, hmem⟩, ?_, ?_⟩
        · exact htable.held.trans (congrArg (· + 1) hvisits.held)
        · rw [htable.touch.guidAstray]
          exact hvisits.guidAstray
      · rename_i hmem
        obtain ⟨-, rfl⟩ := pair_of_ok hok
        exact .inr ⟨fun h => hmem h.2, hvisits.inside (htable.touch.withStreams _)⟩

theorem getPlaylistItemFromURL_visits {there : Bool}
    (hok : s.getPlaylistItemFromURL url = .ok (there, s')) :
    s.Visits s' (∃ guid ∈ recordGUIDs s.catalog.database url, guid ≠ []) := by
  unfold getPlaylistItemFromURL at hok
  cases hworking : s.catalog.database.working with
  | false =>
    rw [hworking] at hok
    obtain ⟨-, rfl⟩ := pair_of_ok hok
    exact visits_of_not_working hworking url
  | true =>
    rw [hworking] at hok
    simp only [Bool.not_true, Bool.false_eq_true, if_false] at hok
    obtain ⟨⟨metadata, t⟩, hread, hok⟩ := bind_eq_ok.mp hok
    obtain ⟨-, -, -, hvisits⟩ := readMetaData_spec hread
    cases metadata with
    | none =>
      obtain ⟨-, rfl⟩ := pair_of_ok hok
      exact hvisits
    | some m =>
      obtain ⟨-, rfl⟩ := pair_of_ok hok
      exact hvisits.inside (Inside.acquire t).touch

/-- `RemoveSong` does to the catalog what it does there. -/
theorem removeSong_catalog (hok : s.removeSong url = .ok (err, s')) :
    s.catalog.removeSong url = .ok (err, s'.catalog) := by
  unfold removeSong at hok
  unfold MusicCatalog.removeSong
  split at hok
  · rename_i hworking
    obtain ⟨rfl, rfl⟩ := pair_of_ok hok
    rw [if_pos hworking]
  · rename_i hworking
    rw [if_neg hworking]
    obtain ⟨⟨metadata, t⟩, hread, hok⟩ := bind_eq_ok.mp hok
    obtain ⟨hrecord, hcatalog, -, -⟩ := readMetaData_spec hread
    rw [hrecord, ok_bind]
    cases metadata with
    | none =>
      obtain ⟨rfl, rfl⟩ := pair_of_ok hok
      rw [hcatalog]
    | some m =>
      obtain ⟨c, hc, hok⟩ := bind_eq_ok.mp hok
      have hsame : err = .noErr ∧ s'.catalog = c := by
        obtain ⟨rfl, rfl⟩ := pair_of_ok hok
        refine ⟨rfl, ?_⟩
        split <;> rfl
      have hlists : (t.withDatabase (t.catalog.database.remove url)).acquire.touch.catalog =
          { s.catalog with database := s.catalog.database.remove url } := by
        rw [← hcatalog]
        rfl
      rw [hlists] at hc
      rw [hsame.1, hsame.2]
      dsimp only at hc ⊢
      split at hc
      · split at hc
        · rename_i hmem
          rw [if_pos ‹_›, if_pos hmem, Except.ok.inj hc]
        · rename_i hmem
          rw [if_pos ‹_›, if_neg hmem, Except.ok.inj hc]
      · obtain ⟨r, hremove, hc⟩ := bind_eq_ok.mp hc
        rw [if_neg ‹_›, hremove, ok_bind, ← Except.ok.inj hc]

theorem removeSong_record (hok : s.removeSong url = .ok (err, s')) :
    s.Visits s' (∃ guid ∈ recordGUIDs s.catalog.database url, guid ≠ []) ∧
      ((readMetaDataFromDatabase s.catalog.database url = .ok none ∧ isError err = true) ∨
        ∃ m, s.catalog.Reads url m ∧ err = .noErr ∧
          s'.catalog.database = s.catalog.database.remove url) := by
  unfold removeSong at hok
  cases hworking : s.catalog.database.working with
  | false =>
    rw [hworking] at hok
    obtain ⟨rfl, rfl⟩ := pair_of_ok hok
    exact ⟨visits_of_not_working hworking url,
      .inl ⟨read_of_not_working hworking url, rfl⟩⟩
  | true =>
    rw [hworking] at hok
    simp only [Bool.not_true, Bool.false_eq_true, if_false] at hok
    obtain ⟨⟨metadata, t⟩, hread, hok⟩ := bind_eq_ok.mp hok
    obtain ⟨hrecord, hcatalog, -, hvisits⟩ := readMetaData_spec hread
    cases metadata with
    | none =>
      obtain ⟨rfl, rfl⟩ := pair_of_ok hok
      exact ⟨hvisits, .inl ⟨hrecord, rfl⟩⟩
    | some m =>
      have hstart : t.Inside (t.withDatabase (t.catalog.database.remove url)).acquire.touch :=
        Inside.touch ⟨rfl, rfl, rfl⟩
      obtain ⟨c, hc, hok⟩ := bind_eq_ok.mp hok
      have hdatabase : c.database = s.catalog.database.remove url := by
        rw [← hcatalog]
        split at hc
        · split at hc <;> rw [← Except.ok.inj hc] <;> rfl
        · obtain ⟨r, -, hc⟩ := bind_eq_ok.mp hc
          rw [← Except.ok.inj hc]
          rfl
      have hinside := hstart.withCatalog c
      dsimp only at hok
      split at hok
      · obtain ⟨rfl, rfl⟩ := pair_of_ok hok
        exact ⟨hvisits.inside hinside.touchGUIDs, .inr ⟨m, hrecord, rfl, hdatabase⟩⟩
      · obtain ⟨rfl, rfl⟩ := pair_of_ok hok
        exact ⟨hvisits.inside hinside, .inr ⟨m, hrecord, rfl, hdatabase⟩⟩

theorem insertSong_spec {m : MetaData} (hworking : s.catalog.database.working = true)
    (hok : s.insertSong url m = .ok (err, s')) :
    s.catalog.insertSong url m = .ok (err, s'.catalog) ∧ s.Visits s' False := by
  have hstart : s.Inside
      (if 0 < m.guid.length then s.acquire.insertGUID m.guid url else s.acquire) := by
    split
    · exact (Inside.acquire s).insertGUID _ _
    · exact Inside.acquire s
  have hsame : (if 0 < m.guid.length then s.acquire.insertGUID m.guid url
      else s.acquire).catalog = s.catalog := by
    split <;> rfl
  unfold insertSong at hok
  unfold MusicCatalog.insertSong
  dsimp only at hok
  generalize (if 0 < m.guid.length then s.acquire.insertGUID m.guid url
    else s.acquire) = t at hok hstart hsame
  split at hok
  · rename_i hblank
    rw [if_pos hblank]
    have hlist : t.touch.catalog = s.catalog := hsame
    rw [hlist] at hok
    split at hok
    · rename_i hmem
      obtain ⟨rfl, rfl⟩ := pair_of_ok hok
      rw [if_pos hmem]
      exact ⟨by rw [← hlist]; rfl, hstart.touch.release⟩
    · rename_i hmem
      obtain ⟨rfl, rfl⟩ := pair_of_ok hok
      rw [if_neg hmem]
      exact ⟨rfl, (hstart.touch.withCatalog _).release⟩
  · rename_i hblank
    rw [if_neg hblank]
    obtain ⟨u, hnamed, hok⟩ := bind_eq_ok.mp hok
    have hinside : s.Inside u ∧ ∃ db, (if unnamed m then
        writeMetaDataToDatabase s.catalog.database url (nameUnknown m) .track
          else .ok s.catalog.database) = .ok db ∧ u.catalog = { s.catalog with database := db } := by
      split at hnamed
      · rename_i hunnamed
        obtain ⟨db, hwrite, hcatalog, -⟩ := writeMetaData_spec (hsame ▸ hworking) hnamed
        rw [hsame] at hwrite hcatalog
        exact ⟨hstart.writeMetaData hnamed, db, by rw [if_pos hunnamed]; exact hwrite, hcatalog⟩
      · rename_i hunnamed
        rw [← Except.ok.inj hnamed, if_neg hunnamed]
        exact ⟨hstart, _, rfl, hsame⟩
    obtain ⟨hinside, db, hdb, hcatalog⟩ := hinside
    have hlist : u.touch.catalog = { s.catalog with database := db } := hcatalog
    dsimp only at hok ⊢
    rw [hdb, ok_bind]
    rw [hlist] at hok
    split at hok
    · rename_i hdup
      obtain ⟨rfl, rfl⟩ := pair_of_ok hok
      rw [if_pos hdup]
      exact ⟨rfl, (hinside.touch.withCatalog _).release⟩
    · rename_i hdup
      obtain ⟨rfl, rfl⟩ := pair_of_ok hok
      rw [if_neg hdup]
      exact ⟨rfl, (hinside.touch.withCatalog _).release⟩

theorem addSong_spec {found : MetaData} (hok : s.addSong url found = .ok (err, s')) :
    s.catalog.addSong url found = .ok (err, s'.catalog) ∧
      s.Visits s' (∃ guid ∈ songGUIDs s.catalog.database url found, guid ≠ []) := by
  unfold addSong at hok
  unfold MusicCatalog.addSong songGUIDs
  cases hworking : s.catalog.database.working with
  | false =>
    rw [hworking] at hok
    obtain ⟨rfl, rfl⟩ := pair_of_ok hok
    exact ⟨rfl, (Visits.refl s).congr (by simp)⟩
  | true =>
    rw [hworking] at hok
    simp only [Bool.not_true, Bool.false_eq_true, if_false] at hok ⊢
    obtain ⟨⟨metadata, t⟩, hread, hok⟩ := bind_eq_ok.mp hok
    obtain ⟨hrecord, hcatalog, -, hvisits⟩ := readMetaData_spec hread
    obtain ⟨⟨metadata', u⟩, hfetch, hok⟩ := bind_eq_ok.mp hok
    rw [hrecord]
    have hfetched : ∃ db, fetchSong s.catalog.database url found = .ok (db, metadata') ∧
        u.catalog = { s.catalog with database := db } ∧ db.working = true ∧
          s.Visits u (∃ guid ∈ (match (Except.ok metadata : Except RecordFault _) with
            | .ok (some m) => [m.guid]
            | _ =>
              match writeMetaDataToDatabase s.catalog.database url found .track with
              | .ok db => found.guid :: recordGUIDs db url
              | .error _ => []), guid ≠ []) := by
      unfold fetchSong
      rw [hrecord, ok_bind]
      cases metadata with
      | some m =>
        obtain ⟨rfl, rfl⟩ := pair_of_ok hfetch
        refine ⟨_, rfl, hcatalog, hworking, hvisits.congr ?_⟩
        simp [recordGUIDs, hrecord]
      | none =>
        obtain ⟨w, hwrite, hread'⟩ := bind_eq_ok.mp hfetch
        obtain ⟨db, hdb, hw, hvisits'⟩ := writeMetaData_spec (hcatalog ▸ hworking) hwrite
        obtain ⟨hrecord', hcatalog', -, hvisits''⟩ := readMetaData_spec hread'
        rw [hcatalog] at hdb hw
        rw [hw] at hrecord' hcatalog' hvisits''
        obtain ⟨ost, -, hinsert⟩ := writeMetaDataToDatabase_ok hworking hdb
        refine ⟨db, ?_, hcatalog', ?_, ?_⟩
        · dsimp only
          rw [hdb, ok_bind, hrecord']
          rfl
        · rw [hinsert]
          exact hworking
        · dsimp only
          rw [hdb]
          refine ((hvisits.trans hvisits').trans hvisits'').congr ?_
          simp [recordGUIDs, hrecord]
    obtain ⟨db, hfetched, hu, hdb, hvisits'⟩ := hfetched
    rw [hfetched, ok_bind]
    cases metadata' with
    | none =>
      obtain ⟨rfl, rfl⟩ := pair_of_ok hok
      exact ⟨by rw [hu], hvisits'⟩
    | some m =>
      dsimp only at hok ⊢
      unfold dropGUID
      have hkill : u.catalog.killGUIDs = s.catalog.killGUIDs := by rw [hu]
      rw [hkill] at hok
      split at hok
      · rename_i hkill
        obtain ⟨w, hwrite, hinsert⟩ := bind_eq_ok.mp hok
        obtain ⟨db', hdb', hw, hvisits''⟩ := writeMetaData_spec (hu ▸ hdb) hwrite
        rw [hu] at hdb' hw
        obtain ⟨ost, -, hinserted⟩ := writeMetaDataToDatabase_ok hdb hdb'
        have hworking' : w.catalog.database.working = true := by
          rw [hw, hinserted]
          exact hdb
        obtain ⟨hcat, hvisits₃⟩ := insertSong_spec hworking' hinsert
        rw [hw] at hcat
        rw [if_pos hkill]
        dsimp only at hdb' ⊢
        rw [hdb', ok_bind, ok_bind]
        refine ⟨hcat, ((hvisits'.trans hvisits'').trans hvisits₃).congr ?_⟩
        simp
      · rename_i hkill
        obtain ⟨hcat, hvisits''⟩ := insertSong_spec (hu ▸ hdb) hok
        rw [hu] at hcat
        rw [if_neg hkill, ok_bind]
        exact ⟨hcat, (hvisits'.trans hvisits'').congr (by rw [or_false])⟩

/-- `UpdateSong` does to the catalog what it does there. -/
theorem updateSong_spec {item : PlaylistItem} {found : MetaData}
    (hok : s.updateSong item found = .ok (err, s')) :
    s.catalog.updateSong item found = .ok (err, s'.catalog) ∧
      s.Visits s' (∃ guid ∈ updateGUIDs s.catalog.database item found, guid ≠ []) := by
  unfold updateSong at hok
  unfold MusicCatalog.updateSong updateGUIDs
  cases hworking : s.catalog.database.working with
  | false =>
    rw [hworking] at hok
    obtain ⟨rfl, rfl⟩ := pair_of_ok hok
    refine ⟨rfl, (Visits.refl s).congr ?_⟩
    simp [read_of_not_working hworking]
  | true =>
    rw [hworking] at hok
    simp only [Bool.not_true, Bool.false_eq_true, if_false] at hok ⊢
    obtain ⟨⟨err', t⟩, hremove, hok⟩ := bind_eq_ok.mp hok
    obtain ⟨hvisits, hrecord⟩ := removeSong_record hremove
    rw [removeSong_catalog hremove, ok_bind]
    dsimp only at hok ⊢
    rcases hrecord with ⟨hnone, herror⟩ | ⟨m, hm, rfl, hdatabase⟩
    · rw [if_pos herror] at hok ⊢
      obtain ⟨rfl, rfl⟩ := pair_of_ok hok
      refine ⟨rfl, hvisits.congr ?_⟩
      simp [recordGUIDs, hnone]
    · have hnoErr : ¬ isError Error.noErr = true := by decide
      rw [if_neg hnoErr] at hok ⊢
      obtain ⟨u, hwrite, hadd⟩ := bind_eq_ok.mp hok
      have ht : t.catalog.database.working = true := by
        rw [hdatabase]
        exact hworking
      obtain ⟨db, hdb, hcatalog, hvisits'⟩ := writeMetaData_spec ht hwrite
      obtain ⟨hadded, hvisits''⟩ := addSong_spec hadd
      rw [hcatalog] at hadded hvisits''
      rw [hdb, ok_bind]
      rw [hdatabase] at hdb
      refine ⟨hadded, ((hvisits.trans hvisits').trans hvisits'').congr ?_⟩
      have hm' : readMetaDataFromDatabase s.catalog.database (cStr item.url) =
          .ok (some m) := hm
      simp [recordGUIDs, hm', hdb, or_assoc]

end Calls

/-! ## Every call -/

theorem Visits.balanced {s s' : LockedCatalog} {P : Prop} (h : s.Visits s' P) :
    (s'.held = s.held ∧ s'.astray = s.astray) ∧
      (s'.guidAstray = s.guidAstray ↔ s.guidAstray = true ∨ 0 < s.held ∨ ¬ P) := by
  refine ⟨⟨h.held, h.astray⟩, ?_⟩
  have hguid := h.guidAstray
  rw [Bool.eq_iff_iff, hguid, or_iff_left_iff_imp, Nat.pos_iff_ne_zero]
  tauto

/-- A call returns with as many holds as before, and has come to the lists with the mutex held,
exactly when it is not the addition of a stream that is there already.  It has come to `m_guidTable`
with the mutex held exactly when its caller held it or it met no GUID before its own `Acquire`. -/
theorem call_balanced_iff {s s' : LockedCatalog} {k : Call} (hok : s.call k = .ok s') :
    (s'.held = s.held ∧ s'.astray = s.astray ↔ ¬ s.Leaves k) ∧
      (s'.guidAstray = s.guidAstray ↔
        s.guidAstray = true ∨ 0 < s.held ∨ ¬ s.MeetsGUIDs k) := by
  have hsnd : ∀ {β : Type} {r : Except RecordFault (β × LockedCatalog)}, (·.2) <$> r = .ok s' →
      ∃ b, r = .ok (b, s') := by
    intro β r hr
    cases r with
    | error f => exact absurd hr nofun
    | ok p => exact ⟨p.1, by rw [← Except.ok.inj hr]⟩
  have hquiet : ∀ {P : Prop}, s.Visits s' P → (P ↔ s.MeetsGUIDs k) → ¬ s.Leaves k →
      (s'.held = s.held ∧ s'.astray = s.astray ↔ ¬ s.Leaves k) ∧
        (s'.guidAstray = s.guidAstray ↔
          s.guidAstray = true ∨ 0 < s.held ∨ ¬ s.MeetsGUIDs k) := by
    intro P hvisits hiff hleaves
    obtain ⟨hsame, hguid⟩ := (hvisits.congr hiff).balanced
    exact ⟨⟨fun _ => hleaves, fun _ => hsame⟩, hguid⟩
  cases k with
  | addPlaylist url =>
    rw [← Except.ok.inj hok] at hquiet ⊢
    exact hquiet (addPlaylist_visits s url) Iff.rfl id
  | removePlaylist url =>
    rw [← Except.ok.inj hok] at hquiet ⊢
    exact hquiet (removePlaylist_visits s url) Iff.rfl id
  | addStream url =>
    obtain ⟨err, hadd⟩ := hsnd hok
    rcases addStream_visits hadd with ⟨hleaves, hheld, hguid⟩ | ⟨hleaves, hvisits⟩
    · refine ⟨⟨fun h => ?_, fun h => absurd hleaves h⟩, ?_⟩
      · exact absurd (hheld.symm.trans h.1) (Nat.succ_ne_self s.held)
      · have hsame : LockedCatalog.Visits s { s with guidAstray := s'.guidAstray }
            (s.MeetsGUIDs (.addStream url)) := ⟨rfl, rfl, hguid⟩
        exact hsame.balanced.2
    · exact hquiet hvisits Iff.rfl hleaves
  | removeStream url =>
    obtain ⟨err, hremove⟩ := hsnd hok
    exact hquiet (removeStream_visits hremove) Iff.rfl id
  | addSong url found =>
    obtain ⟨err, hadd⟩ := hsnd hok
    exact hquiet (addSong_spec hadd).2 Iff.rfl id
  | removeSong url =>
    obtain ⟨err, hremove⟩ := hsnd hok
    exact hquiet (removeSong_record hremove).1 Iff.rfl id
  | updateSong item found =>
    obtain ⟨err, hupdate⟩ := hsnd hok
    exact hquiet (updateSong_spec hupdate).2 Iff.rfl id
  | getPlaylistItemFromURL url =>
    obtain ⟨there, hget⟩ := hsnd hok
    exact hquiet (getPlaylistItemFromURL_visits hget) Iff.rfl id
  | getFilename guid =>
    have hvisits : s.Visits s' True := by
      rw [← Except.ok.inj hok]
      refine ⟨rfl, rfl, ?_⟩
      show (s.guidAstray || s.held == 0) = true ↔ _
      simp
    exact hquiet hvisits Iff.rfl id

/-- A thread that holds nothing, and a stream with a record. -/
def oneStream : LockedCatalog where
  catalog := .initial (Database.empty.insert [117] (bytes "S 11 0 0 0 0 0 1 1 1 1 1 0 00000"))
  playlists := []
  streams := []
  guidTable := []
  held := 0
  astray := false
  guidAstray := false

/-- The stream is added. -/
theorem call_balanced_stream :
    ∃ s', oneStream.call (.addStream [117]) = .ok s' ∧ s'.held = 0 ∧ s'.astray = false ∧
      s'.guidAstray = false := by
  obtain ⟨s', hok⟩ : ∃ s', oneStream.call (.addStream [117]) = .ok s' := ⟨_, rfl⟩
  obtain ⟨hlists, hguids⟩ := call_balanced_iff hok
  obtain ⟨hheld, hastray⟩ := hlists.mpr fun h => absurd h.2 List.not_mem_nil
  refine ⟨s', hok, hheld, hastray, hguids.mpr (.inr (.inr ?_))⟩
  rintro ⟨guid, hmem, hguid⟩
  exact hguid (List.mem_singleton.mp hmem)

/-- The stream is added again, and the mutex is kept. -/
theorem call_balanced_fails :
    ¬ ∀ (s s' : LockedCatalog) (k : Call), s.call k = .ok s' → s'.held = s.held := by
  intro h
  obtain ⟨s, s', hadd, hagain, hheld, hkept⟩ : ∃ s s',
      oneStream.call (.addStream [117]) = .ok s ∧ s.call (.addStream [117]) = .ok s' ∧
        s.held = 0 ∧ s'.held = 1 := ⟨_, _, rfl, rfl, rfl, rfl⟩
  have hsame := h s s' (.addStream [117]) hagain
  rw [hheld, hkept] at hsame
  exact absurd hsame nofun

end LockedCatalog

end FreeAmp.Base
