/-
  Base/MusicCatalogRebuild.lean --- `RePopulateFromDatabase`, from
  `base/src/musiccatalog.cpp`.

  The catalog is made anew of the records in the database.  Beside what `MusicCatalog`
  has, the lists hold here what a `PlaylistItem` keeps in memory: the metadata of each
  track and each stream, and the playlists.

  `AddSong` makes the item of a track before it gives an album or a title without a name
  the name "Unknown", and the record is written after that.

      Filled.addKeys   what the loop over the keys makes of a database

  gdbm is relied on to go through every key once, in whatever order.
-/
import FreeAmp.Base.MusicCatalogUpdate

namespace FreeAmp.Base

open FreeAmp.Lib MusicCatalog

/-- `class MusicCatalog`, with the items in its lists. -/
structure Library where
  catalog : MusicCatalog
  /-- the items of the tracks, a URL and the metadata of each -/
  items : List (Text × MetaData)
  playlists : List Text
  streams : List (Text × MetaData)

namespace Library

/-- A catalog that has just been made, over a database. -/
def initial (db : Database) : Library := ⟨.initial db, [], [], []⟩

/-- The catalog with another database. -/
def withDatabase (s : Library) (db : Database) : Library :=
  { s with catalog := { s.catalog with database := db } }

/-! ## Tracks -/

/-- `AddSong`; `newtrack` is made before `insertSong` gives names. -/
def addSong (s : Library) (url : Text) (found : MetaData) :
    Except RecordFault (Error × Library) :=
  let c := s.catalog
  if !c.database.working then .ok (.databaseNotWorking, s)
  else do
    let r ← fetchSong c.database url found
    match r.2 with
    | none => .ok (.databaseNotWorking, s.withDatabase r.1)
    | some metadata =>
      let t ← dropGUID c.killGUIDs r.1 url metadata
      let newtrack := (url, t.2)
      let i ← insertSong { c with database := t.1 } url t.2
      let items := if isError i.1 then s.items else s.items ++ [newtrack]
      .ok (i.1, { s with catalog := i.2, items })

/-- `RemoveSong`: the item of the track goes with the track. -/
def removeSong (s : Library) (url : Text) : Except RecordFault (Error × Library) := do
  let r ← s.catalog.removeSong url
  let items := if r.2.urls.length < s.catalog.urls.length then s.items.eraseP (·.1 == url)
    else s.items
  .ok (r.1, { s with catalog := r.2, items })

def updateSong (s : Library) (item : PlaylistItem) (found : MetaData) :
    Except RecordFault (Error × Library) :=
  if !s.catalog.database.working then .ok (.databaseNotWorking, s)
  else do
    let url := cStr item.url
    let r ← s.removeSong url
    if isError r.1 then .ok r
    else do
      let db ← writeMetaDataToDatabase r.2.catalog.database url item.metadata .track
      (r.2.withDatabase db).addSong url found

/-! ## Playlists and streams -/

/-- `tempstr.find("currentlist.m3u") < tempstr.length()` -/
def isCurrentList (url : Text) : Bool := decide (bytes "currentlist.m3u" <:+: url)

def addPlaylist (s : Library) (url : Text) : Error × Library :=
  let db := s.catalog.database
  if !db.working then (.databaseNotWorking, s)
  else
    let s := if (db.value url).isNone then s.withDatabase (db.insert url (bytes "P")) else s
    if url ∉ s.playlists then
      let playlists := if isCurrentList url then url :: s.playlists else s.playlists ++ [url]
      (.noErr, { s with playlists })
    else (.duplicateItem, s)

def removePlaylist (s : Library) (url : Text) : Error × Library :=
  let db := s.catalog.database
  if !db.working then (.databaseNotWorking, s)
  else if (db.value url).isNone then (.itemNotFound, s)
  else
    let s := s.withDatabase (db.remove url)
    if url ∈ s.playlists then
      let playlists := if isCurrentList url then s.playlists else s.playlists.erase url
      (.noErr, { s with playlists })
    else (.itemNotFound, s)

def addStream (s : Library) (url : Text) : Except RecordFault (Error × Library) :=
  if !s.catalog.database.working then .ok (.databaseNotWorking, s)
  else do
    let metadata ← readMetaDataFromDatabase s.catalog.database url
    match metadata with
    | none => .ok (.databaseNotWorking, s)
    | some m =>
      if url ∈ s.streams.map Prod.fst then .ok (.duplicateItem, s)
      else .ok (.noErr, { s with streams := s.streams ++ [(url, m)] })

def removeStream (s : Library) (url : Text) : Except RecordFault (Error × Library) :=
  if !s.catalog.database.working then .ok (.databaseNotWorking, s)
  else do
    let metadata ← readMetaDataFromDatabase s.catalog.database url
    match metadata with
    | none => .ok (.itemNotFound, s)
    | some _ =>
      let s := s.withDatabase (s.catalog.database.remove url)
      .ok (.noErr, { s with streams := s.streams.eraseP (·.1 == url) })

/-! ## `RePopulateFromDatabase` -/

def add (s : Library) (url : Text) (found : MetaData) : Except RecordFault (Error × Library) :=
  let db := s.catalog.database
  if !db.working then .ok (.databaseNotWorking, s)
  else
    match db.value url with
    | none => .ok (.itemNotFound, s)
    | some data =>
      if data.head? = some 77 then s.addSong url found
      else if data.head? = some 80 then .ok (s.addPlaylist url)
      else if data.head? = some 83 then s.addStream url
      else .ok (.youScrewedUp, s)

def clearCatalog (s : Library) : Library := ⟨s.catalog.clearCatalog, [], [], []⟩

/-- The loop over the keys. -/
def addKeys (s : Library) : List (Text × MetaData) → Except RecordFault Library
  | [] => .ok s
  | key :: keys => do
      let r ← s.add key.1 key.2
      addKeys r.2 keys

/-- `m_killGUIDs`, as it is set before the loop. -/
def killsGUIDs (s : Library) : Bool :=
  if getSubVersion s.catalog.database < databaseSubVersion then true else s.catalog.killGUIDs

/-- The catalog before the loop. -/
def cleared (s : Library) : Library :=
  let s' := s.clearCatalog
  { s' with catalog := { s'.catalog with killGUIDs := s.killsGUIDs } }

def rePopulateFromDatabase (s : Library) (keys : List (Text × MetaData)) :
    Except RecordFault (Error × Library) :=
  let db := s.catalog.database
  if !db.working then .ok (.databaseNotWorking, s)
  else do
    let old := decide (getSubVersion db < databaseSubVersion)
    let s ← s.cleared.addKeys keys
    let c := s.catalog
    let stored :=
      { c with
        database := c.database.insert subVersionKey (showInt databaseSubVersion)
        killGUIDs := if old then false else c.killGUIDs }
    .ok (.noErr, { s with catalog := stored })

def databaseVersionKey : Text := bytes "FREEAMP_DATABASE_VERSION"

/-- `NextKey` goes through every key once, but for `DATABASE_VERSION_KEY`. -/
def GoesThrough (keys : List (Text × MetaData)) (db : Database) : Prop :=
  (keys.map Prod.fst).Perm (db.keys.filter (· ≠ databaseVersionKey))

/-! ## Runs -/

inductive Call where
  | addSong (url : Text) (found : MetaData)
  | removeSong (url : Text)
  | updateSong (item : PlaylistItem) (found : MetaData)
  | addPlaylist (url : Text)
  | removePlaylist (url : Text)
  | addStream (url : Text)
  | removeStream (url : Text)
  | clearCatalog
  | rePopulateFromDatabase (keys : List (Text × MetaData))

/-- What a call does. -/
def call (s : Library) : Call → Except RecordFault (Error × Library)
  | .addSong url found => s.addSong url found
  | .removeSong url => s.removeSong url
  | .updateSong item found => s.updateSong item found
  | .addPlaylist url => .ok (s.addPlaylist url)
  | .removePlaylist url => .ok (s.removePlaylist url)
  | .addStream url => s.addStream url
  | .removeStream url => s.removeStream url
  | .clearCatalog => .ok (.noErr, s.clearCatalog)
  | .rePopulateFromDatabase keys => s.rePopulateFromDatabase keys

/-- A call that returns. -/
def Step (s : Library) (k : Call) (s' : Library) : Prop := ∃ err, s.call k = .ok (err, s')

/-! ## What becomes of a record -/

/-- The album and the title of a track that is sorted have names. -/
def settled (m : MetaData) : Bool := blank m.artist || !unnamed m

/-- The metadata of the item of a track. -/
def dropped (killGUIDs : Bool) (m : MetaData) : MetaData :=
  if killGUIDs then { m with guid := [] } else m

/-- The letter a record begins with. -/
def letter (db : Database) (url : Text) : Option UInt8 := (db.value url).bind List.head?

/-- `'M'`, `'P'` and `'S'` -/
def letters : List UInt8 := [77, 80, 83]

/-- The record begins with a letter. -/
def begins (c : UInt8) (db : Database) (url : Text) : Bool := letter db url == some c

/-- The item of a record. -/
def itemOf (killGUIDs : Bool) (db : Database) (url : Text) : Text × MetaData :=
  match readMetaDataFromDatabase db url with
  | .ok (some m) => (url, dropped killGUIDs m)
  | _ => (url, .new)

/-- What is under a key when the loop has been there. -/
def rewritten (killGUIDs : Bool) (db : Database) (url : Text) : Option Text :=
  match readMetaDataFromDatabase db url with
  | .ok (some m) =>
    if begins 77 db url && (killGUIDs || !settled m) then
      (metaDataRecord (recorded (dropped killGUIDs m)) .track).toOption.map cStr
    else db.value url
  | _ => db.value url

section Records

variable {db : Database} {url : Text} {m : MetaData} {killGUIDs : Bool}

theorem settled_dropped (killGUIDs : Bool) (m : MetaData) :
    settled (dropped killGUIDs m) = settled m := by
  unfold dropped
  split <;> rfl

theorem recorded_of_settled (h : settled m = true) : recorded m = m := by
  rcases Bool.or_eq_true_iff.mp h with hblank | hnamed
  · exact recorded_of_blank hblank
  · unfold recorded
    rw [nameUnknown_of_named (by simpa using hnamed)]
    split <;> rfl

theorem settled_of_recorded (h : recorded m = m) : settled m = true := by
  unfold settled
  cases hblank : blank m.artist with
  | true => rfl
  | false =>
    rw [recorded_of_not_blank hblank] at h
    have halbum : blank m.album = false := by
      rw [← h]
      exact blank_named_album m
    have htitle : blank m.title = false := by
      rw [← h]
      show blank (if blank m.title then unknown else m.title) = false
      split
      · exact blank_unknown
      · exact Bool.eq_false_iff.mpr ‹_›
    simp [unnamed, halbum, htitle]

theorem nulFree_dropped (h : m.NulFree) : (dropped killGUIDs m).NulFree := by
  unfold dropped
  split
  · simp only [MetaData.NulFree, List.forall_mem_cons] at h ⊢
    exact ⟨h.1, h.2.1, h.2.2.1, h.2.2.2.1, h.2.2.2.2.1, nulFree_nil, h.2.2.2.2.2.2⟩
  · exact h

theorem nulFree_recorded (h : m.NulFree) : (recorded m).NulFree := by
  unfold recorded
  split
  · exact h
  · exact nulFree_nameUnknown h

theorem read_of_record {ost : Text} (hworking : db.working = true)
    (hvalue : db.value url = some (cStr ost)) (hnul : m.NulFree)
    (hrecord : metaDataRecord m .track = .ok ost) :
    readMetaDataFromDatabase db url =
      if m.guid.length < 10 ^ 9 then .ok (some m) else .error .bufferOverflow := by
  unfold readMetaDataFromDatabase
  rw [hworking, hvalue, (nulFree_record hnul hrecord).cStr_eq]
  show (readMetaData ost >>= _) = _
  rw [readMetaData_record hrecord]
  split <;> rfl

theorem head_of_record {ost : Text} (hrecord : metaDataRecord m .track = .ok ost) :
    (cStr ost).head? = some 77 := by
  obtain ⟨-, -, rfl⟩ := metaDataRecord_ok hrecord
  show (cStr (77 :: _)).head? = some 77
  rw [cStr_cons (by decide)]
  rfl

theorem rewritten_of_not_track (h : begins 77 db url = false) :
    rewritten killGUIDs db url = db.value url := by
  unfold rewritten
  rw [h]
  split <;> rfl

theorem rewritten_of_settled (h : readMetaDataFromDatabase db url = .ok (some m))
    (hsettled : settled m = true) : rewritten false db url = db.value url := by
  unfold rewritten
  simp [h, hsettled]

theorem itemOf_eq (h : readMetaDataFromDatabase db url = .ok (some m)) :
    itemOf killGUIDs db url = (url, dropped killGUIDs m) := by
  unfold itemOf
  rw [h]

theorem itemOf_fst (killGUIDs : Bool) (db : Database) (url : Text) :
    (itemOf killGUIDs db url).1 = url := by
  unfold itemOf
  split <;> rfl

theorem rewritten_head (h : begins 77 db url = true → (rewritten killGUIDs db url).isSome) :
    (rewritten killGUIDs db url).bind List.head? = letter db url := by
  cases htrack : begins 77 db url with
  | false => rw [rewritten_of_not_track htrack, letter]
  | true =>
    have hletter : letter db url = some 77 := by simpa [begins] using htrack
    have hsome := h htrack
    rw [hletter]
    unfold rewritten at hsome ⊢
    split at hsome
    · rename_i m hread
      split at hsome
      · rename_i hwrites
        rw [if_pos hwrites]
        cases hrecord : metaDataRecord (recorded (dropped killGUIDs m)) .track with
        | error f =>
          rw [hrecord] at hsome
          exact absurd hsome nofun
        | ok ost => exact head_of_record hrecord
      · rename_i hwrites
        rw [if_neg hwrites]
        exact hletter
    · exact hletter

end Records

/-! ## One key -/

section Adds

variable {s s' : Library} {url : Text} {found m : MetaData} {err : Error}

theorem insertSong_database {c c' : MusicCatalog} (hok : c.insertSong url m = .ok (err, c')) :
    c'.killGUIDs = c.killGUIDs ∧
      (if settled m then .ok c.database
        else writeMetaDataToDatabase c.database url (recorded m) .track) = .ok c'.database := by
  unfold insertSong at hok
  unfold settled
  split at hok
  · rename_i hblank
    rw [hblank]
    split at hok
    · obtain ⟨-, rfl⟩ := pair_of_ok hok
      exact ⟨rfl, rfl⟩
    · obtain ⟨-, rfl⟩ := pair_of_ok hok
      exact ⟨rfl, rfl⟩
  · rename_i hblank
    obtain ⟨db, hdb, hok⟩ := bind_eq_ok.mp hok
    obtain ⟨-, rfl⟩ := pair_of_ok hok
    have hartist : blank m.artist = false := Bool.eq_false_iff.mpr hblank
    rw [hartist, recorded_of_not_blank hartist]
    refine ⟨rfl, ?_⟩
    cases hunnamed : unnamed m with
    | true =>
      rw [hunnamed] at hdb
      exact hdb
    | false =>
      rw [hunnamed] at hdb
      exact hdb

theorem dropGUID_eq {killGUIDs : Bool} {db : Database} {t : Database × MetaData}
    (hok : dropGUID killGUIDs db url m = .ok t) :
    t.2 = dropped killGUIDs m ∧
      (if killGUIDs then writeMetaDataToDatabase db url (dropped killGUIDs m) .track
        else .ok db) = .ok t.1 := by
  unfold dropGUID at hok
  cases killGUIDs with
  | true =>
    obtain ⟨db', hwrite, hok⟩ := bind_eq_ok.mp hok
    rw [← Except.ok.inj hok]
    exact ⟨rfl, hwrite⟩
  | false =>
    rw [← Except.ok.inj hok]
    exact ⟨rfl, rfl⟩

theorem addSong_catalog (hok : s.addSong url found = .ok (err, s')) :
    s.catalog.addSong url found = .ok (err, s'.catalog) ∧ s'.playlists = s.playlists ∧
      s'.streams = s.streams := by
  unfold addSong at hok
  unfold MusicCatalog.addSong
  dsimp only at hok
  split at hok
  · rename_i hworking
    obtain ⟨rfl, rfl⟩ := pair_of_ok hok
    rw [if_pos hworking]
    exact ⟨rfl, rfl, rfl⟩
  · rename_i hworking
    rw [if_neg hworking]
    obtain ⟨r, hfetch, hok⟩ := bind_eq_ok.mp hok
    rw [hfetch, ok_bind]
    cases hr : r.2 with
    | none =>
      rw [hr] at hok
      obtain ⟨rfl, rfl⟩ := pair_of_ok hok
      exact ⟨rfl, rfl, rfl⟩
    | some metadata =>
      rw [hr] at hok
      obtain ⟨t, hdrop, hok⟩ := bind_eq_ok.mp hok
      obtain ⟨i, hinsert, hok⟩ := bind_eq_ok.mp hok
      obtain ⟨rfl, rfl⟩ := pair_of_ok hok
      dsimp only
      rw [hdrop, ok_bind]
      exact ⟨hinsert, rfl, rfl⟩

/-- `AddSong` of a track that has a record and is not in the catalog. -/
theorem addSong_fresh (hinv : s.catalog.Invariant) (hm : s.catalog.Reads url m)
    (hfresh : url ∉ s.catalog.urls) (hok : s.addSong url found = .ok (err, s')) :
    s'.items = s.items ++ [(url, dropped s.catalog.killGUIDs m)] ∧
      s'.catalog.urls.Perm (url :: s.catalog.urls) ∧
      s'.catalog.killGUIDs = s.catalog.killGUIDs ∧
      (∀ key, key ≠ url → s'.catalog.database.value key = s.catalog.database.value key) ∧
      (if s.catalog.killGUIDs || !settled m then
        ∃ ost, metaDataRecord (recorded (dropped s.catalog.killGUIDs m)) .track = .ok ost ∧
          s'.catalog.database.value url = some (cStr ost)
      else s'.catalog.database.value url = s.catalog.database.value url) := by
  have hworking := working_of_read hm
  unfold addSong at hok
  dsimp only at hok
  rw [hworking] at hok
  simp only [Bool.not_true, Bool.false_eq_true, if_false] at hok
  obtain ⟨r, hfetch, hok⟩ := bind_eq_ok.mp hok
  have hr : r = (s.catalog.database, some m) := by
    unfold fetchSong at hfetch
    have hread : readMetaDataFromDatabase s.catalog.database url = .ok (some m) := hm
    rw [hread, ok_bind] at hfetch
    exact (Except.ok.inj hfetch).symm
  rw [hr] at hok
  obtain ⟨t, hdrop, hok⟩ := bind_eq_ok.mp hok
  obtain ⟨i, hinsert, hok⟩ := bind_eq_ok.mp hok
  obtain ⟨hdropped, hfirst⟩ := dropGUID_eq hdrop
  obtain ⟨hkill, hsecond⟩ := insertSong_database hinsert
  obtain ⟨hstored, hreads, -, -⟩ := dropGUID_spec hm hdrop
  have hput : PutIn { s.catalog with database := t.1 } i.2 t.2 url i.1 :=
    insertSong_split hinv.shelves hreads hinsert
  have hadded : i.1 = .noErr ∧ i.2.urls.Perm (url :: s.catalog.urls) := by
    rcases hput.urls with ⟨_, hthere, _⟩ | ⟨hnoErr, _, _, hperm⟩
    · exact absurd hthere.mem_urls hfresh
    · exact ⟨hnoErr, hperm⟩
  rw [hadded.1] at hok
  obtain ⟨-, rfl⟩ := pair_of_ok hok
  refine ⟨by rw [hdropped]; rfl, hadded.2, hkill, fun key hkey => ?_, ?_⟩
  · exact (hput.stores.others key hkey).trans (hstored.others key hkey)
  · rw [hdropped, settled_dropped] at hsecond
    have htworking : t.1.working = true := hstored.working.trans hworking
    show if s.catalog.killGUIDs || !settled m then
        ∃ ost, metaDataRecord (recorded (dropped s.catalog.killGUIDs m)) .track = .ok ost ∧
          i.2.database.value url = some (cStr ost)
      else i.2.database.value url = s.catalog.database.value url
    cases hsettled : settled m with
    | false =>
      rw [hsettled] at hsecond
      obtain ⟨ost, hrecord, hdb⟩ := writeMetaDataToDatabase_ok htworking hsecond
      rw [hdb, Bool.not_false, Bool.or_true, if_pos rfl]
      exact ⟨ost, hrecord, Database.value_insert_self _ _ _⟩
    | true =>
      rw [hsettled] at hsecond
      have hsame : t.1 = i.2.database := Except.ok.inj hsecond
      rw [← hsame, recorded_of_settled (by rw [settled_dropped, hsettled])]
      cases hkillGUIDs : s.catalog.killGUIDs with
      | true =>
        rw [hkillGUIDs] at hfirst
        obtain ⟨ost, hrecord, hdb⟩ := writeMetaDataToDatabase_ok hworking hfirst
        rw [hdb]
        exact ⟨ost, hrecord, Database.value_insert_self _ _ _⟩
      | false =>
        rw [hkillGUIDs] at hfirst
        rw [← Except.ok.inj hfirst]
        rfl

end Adds

/-! ## The loop -/

/-- What the loop has made of the keys it has been at. -/
structure Filled (db : Database) (killGUIDs : Bool) (done : List Text) (s : Library) : Prop where
  working : s.catalog.database.working = db.working
  kills : s.catalog.killGUIDs = killGUIDs
  invariant : s.catalog.Invariant
  ahead : ∀ key, key ∉ done → s.catalog.database.value key = db.value key
  value : ∀ key ∈ done, s.catalog.database.value key = rewritten killGUIDs db key
  present : ∀ key ∈ done, begins 77 db key = true → (rewritten killGUIDs db key).isSome
  urls : s.catalog.urls.Perm (done.filter (begins 77 db))
  items : s.items = (done.filter (begins 77 db)).map (itemOf killGUIDs db)
  playlists : s.playlists.Perm (done.filter (begins 80 db))
  streams : s.streams = (done.filter (begins 83 db)).map (itemOf false db)
  readable : ∀ key ∈ done, begins 77 db key = true ∨ begins 83 db key = true →
    ∃ m, readMetaDataFromDatabase db key = .ok (some m)

section Filled

variable {db : Database} {killGUIDs : Bool} {done : List Text} {s s' : Library} {url : Text}
  {found : MetaData} {err : Error}

theorem filter_concat (p : Text → Bool) (done : List Text) (url : Text) :
    (done ++ [url]).filter p = done.filter p ++ if p url then [url] else [] := by
  rw [List.filter_append, List.filter_singleton]
  cases p url <;> rfl

theorem begins_of_value {data : Text} (h : db.value url = some data) (c : UInt8) :
    begins c db url = (data.head? == some c) := by
  unfold begins letter
  rw [h]
  rfl

/-- The record of a key that the loop has not been at is read as it was. -/
theorem Filled.read_ahead (h : Filled db killGUIDs done s) (hnew : url ∉ done) :
    readMetaDataFromDatabase s.catalog.database url = readMetaDataFromDatabase db url :=
  readMetaDataFromDatabase_congr h.working (h.ahead url hnew)

theorem mem_concat_of_ne {key : Text} (h : key ∈ done ++ [url]) : key ∈ done ∨ key = url := by
  rcases List.mem_append.mp h with hdone | hlast
  · exact .inl hdone
  · exact .inr (List.mem_singleton.mp hlast)

/-- A key that adds no track: the catalog stays as it is. -/
theorem Filled.other (h : Filled db killGUIDs done s) (hnew : url ∉ done)
    (htrack : begins 77 db url = false) (hcatalog : s'.catalog = s.catalog)
    (hitems : s'.items = s.items)
    (hplaylists : s'.playlists.Perm ((done ++ [url]).filter (begins 80 db)))
    (hstreams : s'.streams = ((done ++ [url]).filter (begins 83 db)).map (itemOf false db))
    (hreadable : begins 83 db url = true → ∃ m, readMetaDataFromDatabase db url = .ok (some m)) :
    Filled db killGUIDs (done ++ [url]) s' where
  working := by rw [hcatalog, h.working]
  kills := by rw [hcatalog, h.kills]
  invariant := hcatalog ▸ h.invariant
  ahead := fun key hkey => by
    rw [hcatalog]
    exact h.ahead key fun hdone => hkey (List.mem_append_left _ hdone)
  value := fun key hkey => by
    rw [hcatalog]
    rcases mem_concat_of_ne hkey with hdone | rfl
    · exact h.value key hdone
    · rw [h.ahead key hnew, rewritten_of_not_track htrack]
  present := fun key hkey hbegins => by
    rcases mem_concat_of_ne hkey with hdone | rfl
    · exact h.present key hdone hbegins
    · exact absurd (htrack.symm.trans hbegins) nofun
  urls := by
    rw [hcatalog, filter_concat, htrack]
    simpa using h.urls
  items := by
    rw [hitems, filter_concat, htrack]
    simpa using h.items
  playlists := hplaylists
  streams := hstreams
  readable := fun key hkey hbegins => by
    rcases mem_concat_of_ne hkey with hdone | rfl
    · exact h.readable key hdone hbegins
    · rcases hbegins with hbegins | hbegins
      · exact absurd (htrack.symm.trans hbegins) nofun
      · exact hreadable hbegins

theorem Filled.track (hdb : db.working = true) (h : Filled db killGUIDs done s)
    (hnew : url ∉ done) {data : Text} (hvalue : db.value url = some data)
    (hhead : data.head? = some 77) (hok : s.addSong url found = .ok (err, s')) :
    Filled db killGUIDs (done ++ [url]) s' := by
  have hworking : s.catalog.database.working = true := h.working.trans hdb
  have hletter : ∀ c, begins c db url = ((77 : UInt8) == c) := by
    intro c
    rw [begins_of_value hvalue, hhead]
    rfl
  have h77 : begins 77 db url = true := hletter 77
  have h80 : begins 80 db url = false := hletter 80
  have h83 : begins 83 db url = false := hletter 83
  obtain ⟨hcatalog, hplaylists, hstreams⟩ := addSong_catalog hok
  have hsong := addSong_spec h.invariant hworking hcatalog
  -- the record is there, and was read
  have hread : ∃ m, s.catalog.Reads url m := by
    unfold MusicCatalog.addSong at hcatalog
    rw [hworking] at hcatalog
    simp only [Bool.not_true, Bool.false_eq_true, if_false] at hcatalog
    obtain ⟨r, hfetch, -⟩ := bind_eq_ok.mp hcatalog
    have hthere : s.catalog.database.value url = some data := by rw [h.ahead url hnew, hvalue]
    obtain ⟨m, -, hread⟩ := fetchSong_of_value hworking hthere hfetch
    exact ⟨m, hread⟩
  obtain ⟨m, hm⟩ := hread
  have hm' : readMetaDataFromDatabase db url = .ok (some m) := (h.read_ahead hnew).symm.trans hm
  have hfresh : url ∉ s.catalog.urls := fun hmem =>
    hnew (List.mem_filter.mp (h.urls.mem_iff.mp hmem)).1
  obtain ⟨hitems, hurls, hkill, hothers, hown⟩ := addSong_fresh h.invariant hm hfresh hok
  rw [h.kills] at hitems hkill hown
  -- what was written is what becomes of the record
  have hwritten : s'.catalog.database.value url = rewritten killGUIDs db url ∧
      (rewritten killGUIDs db url).isSome := by
    unfold rewritten
    rw [hm', h77]
    dsimp only
    rw [Bool.true_and]
    split at hown
    · rename_i hwrites
      obtain ⟨ost, hrecord, hown⟩ := hown
      rw [if_pos hwrites, hrecord, hown]
      exact ⟨rfl, rfl⟩
    · rename_i hwrites
      rw [if_neg hwrites, hown, h.ahead url hnew, hvalue]
      exact ⟨rfl, rfl⟩
  have hne : ∀ {key}, key ∈ done → key ≠ url := fun hdone heq => hnew (heq ▸ hdone)
  exact
    { working := hsong.working.trans h.working
      kills := hkill
      invariant := hsong.invariant
      ahead := fun key hkey => by
        have hdone : key ∉ done := fun hdone => hkey (List.mem_append_left _ hdone)
        have hother : key ≠ url := fun heq =>
          hkey (List.mem_append_right _ (List.mem_singleton.mpr heq))
        rw [hothers key hother, h.ahead key hdone]
      value := fun key hkey => by
        rcases mem_concat_of_ne hkey with hdone | rfl
        · rw [hothers key (hne hdone), h.value key hdone]
        · exact hwritten.1
      present := fun key hkey hbegins => by
        rcases mem_concat_of_ne hkey with hdone | rfl
        · exact h.present key hdone hbegins
        · exact hwritten.2
      urls := by
        rw [filter_concat, h77, if_pos rfl]
        exact (hurls.trans (h.urls.cons url)).trans (List.perm_append_singleton _ _).symm
      items := by
        rw [filter_concat, h77, if_pos rfl, List.map_append, hitems, h.items]
        simp [itemOf_eq hm']
      playlists := by
        rw [filter_concat, h80, hplaylists]
        simpa using h.playlists
      streams := by
        rw [filter_concat, h83, hstreams]
        simpa using h.streams
      readable := fun key hkey hbegins => by
        rcases mem_concat_of_ne hkey with hdone | rfl
        · exact h.readable key hdone hbegins
        · exact ⟨m, hm'⟩ }

theorem Filled.same (h : Filled db killGUIDs done s) (hnew : url ∉ done)
    (h77 : begins 77 db url = false) (h80 : begins 80 db url = false)
    (h83 : begins 83 db url = false) : Filled db killGUIDs (done ++ [url]) s := by
  refine h.other hnew h77 rfl rfl ?_ ?_ fun h => absurd (h83.symm.trans h) nofun
  · rw [filter_concat, h80]
    simpa using h.playlists
  · rw [filter_concat, h83]
    simpa using h.streams

theorem Filled.playlist (hdb : db.working = true) (h : Filled db killGUIDs done s)
    (hnew : url ∉ done) {data : Text} (hvalue : db.value url = some data)
    (hhead : data.head? = some 80) (hok : s.addPlaylist url = (err, s')) :
    Filled db killGUIDs (done ++ [url]) s' := by
  have hworking : s.catalog.database.working = true := h.working.trans hdb
  have hletter : ∀ c, begins c db url = ((80 : UInt8) == c) := by
    intro c
    rw [begins_of_value hvalue, hhead]
    rfl
  have h80 : begins 80 db url = true := hletter 80
  have h83 : begins 83 db url = false := hletter 83
  have hfresh : url ∉ s.playlists := fun hmem =>
    hnew (List.mem_filter.mp (h.playlists.mem_iff.mp hmem)).1
  have hthere : (s.catalog.database.value url).isNone = false := by
    rw [h.ahead url hnew, hvalue]
    rfl
  unfold addPlaylist at hok
  dsimp only at hok
  rw [hworking, hthere] at hok
  simp only [Bool.not_true, Bool.false_eq_true, if_false, if_pos hfresh] at hok
  obtain ⟨-, rfl⟩ := Prod.mk.inj hok
  refine h.other hnew (hletter 77) rfl rfl ?_ ?_ fun h => absurd (h83.symm.trans h) nofun
  · rw [filter_concat, h80, if_pos rfl]
    have hlast := (h.playlists.cons url).trans (List.perm_append_singleton _ _).symm
    show (if isCurrentList url then url :: s.playlists else s.playlists ++ [url]).Perm _
    split
    · exact hlast
    · exact (List.perm_append_singleton _ _).trans hlast
  · rw [filter_concat, h83]
    simpa using h.streams

theorem Filled.stream (hdb : db.working = true) (h : Filled db killGUIDs done s)
    (hnew : url ∉ done) {data : Text} (hvalue : db.value url = some data)
    (hhead : data.head? = some 83) (hok : s.addStream url = .ok (err, s')) :
    Filled db killGUIDs (done ++ [url]) s' := by
  have hworking : s.catalog.database.working = true := h.working.trans hdb
  have hletter : ∀ c, begins c db url = ((83 : UInt8) == c) := by
    intro c
    rw [begins_of_value hvalue, hhead]
    rfl
  have h80 : begins 80 db url = false := hletter 80
  have h83 : begins 83 db url = true := hletter 83
  unfold addStream at hok
  rw [hworking] at hok
  simp only [Bool.not_true, Bool.false_eq_true, if_false] at hok
  obtain ⟨metadata, hread, hok⟩ := bind_eq_ok.mp hok
  rw [h.read_ahead hnew] at hread
  cases metadata with
  | none => exact absurd hread (readMetaDataFromDatabase_ne_none hdb hvalue)
  | some m =>
    have hfresh : url ∉ s.streams.map Prod.fst := by
      rw [h.streams, List.map_map]
      intro hmem
      obtain ⟨u, hu, heq⟩ := List.mem_map.mp hmem
      rw [Function.comp_apply, itemOf_fst] at heq
      exact hnew (heq ▸ (List.mem_filter.mp hu).1)
    dsimp only at hok
    rw [if_neg hfresh] at hok
    obtain ⟨-, rfl⟩ := pair_of_ok hok
    refine h.other hnew (hletter 77) rfl rfl ?_ ?_ fun _ => ⟨m, hread⟩
    · rw [filter_concat, h80]
      simpa using h.playlists
    · rw [filter_concat, h83, if_pos rfl, List.map_append, h.streams]
      simp [itemOf_eq hread, dropped]

theorem Filled.add (hdb : db.working = true) (h : Filled db killGUIDs done s)
    (hnew : url ∉ done) (hok : s.add url found = .ok (err, s')) :
    Filled db killGUIDs (done ++ [url]) s' := by
  have hworking : s.catalog.database.working = true := h.working.trans hdb
  unfold Library.add at hok
  dsimp only at hok
  rw [hworking] at hok
  simp only [Bool.not_true, Bool.false_eq_true, if_false] at hok
  rw [h.ahead url hnew] at hok
  cases hvalue : db.value url with
  | none =>
    rw [hvalue] at hok
    obtain ⟨-, rfl⟩ := pair_of_ok hok
    have hnone : ∀ c, begins c db url = false := by
      intro c
      unfold begins letter
      rw [hvalue]
      rfl
    exact h.same hnew (hnone 77) (hnone 80) (hnone 83)
  | some data =>
    rw [hvalue] at hok
    dsimp only at hok
    have hother : ∀ c : UInt8, data.head? ≠ some c → begins c db url = false := by
      intro c hne
      rw [begins_of_value hvalue]
      exact beq_false_of_ne hne
    split at hok
    · rename_i h77
      exact h.track hdb hnew hvalue h77 hok
    · rename_i h77
      split at hok
      · rename_i h80
        exact h.playlist hdb hnew hvalue h80 (Except.ok.inj hok)
      · rename_i h80
        split at hok
        · rename_i h83
          exact h.stream hdb hnew hvalue h83 hok
        · rename_i h83
          obtain ⟨-, rfl⟩ := pair_of_ok hok
          exact h.same hnew (hother 77 h77) (hother 80 h80) (hother 83 h83)

theorem Filled.addKeys (hdb : db.working = true) {keys : List (Text × MetaData)} :
    ∀ {done : List Text} {s : Library}, Filled db killGUIDs done s →
      (done ++ keys.map Prod.fst).Nodup → s.addKeys keys = .ok s' →
        Filled db killGUIDs (done ++ keys.map Prod.fst) s' := by
  induction keys with
  | nil =>
    intro done s h _ hok
    obtain rfl := Except.ok.inj hok
    rw [List.map_nil, List.append_nil]
    exact h
  | cons key keys ih =>
    intro done s h hnodup hok
    obtain ⟨⟨err, t⟩, hadd, hok⟩ := bind_eq_ok.mp hok
    have hsplit : done ++ (key :: keys).map Prod.fst =
        done ++ [key.1] ++ keys.map Prod.fst := by
      rw [List.map_cons, List.append_assoc, List.singleton_append]
    rw [hsplit] at hnodup ⊢
    have hnew : key.1 ∉ done := by
      have hfirst := (List.nodup_append.mp hnodup).1
      have hapart := (List.nodup_append.mp hfirst).2.2
      exact fun hmem => hapart key.1 hmem key.1 (List.mem_singleton_self _) rfl
    exact ih (h.add hdb hnew hadd) hnodup hok

end Filled

end Library

end FreeAmp.Base
