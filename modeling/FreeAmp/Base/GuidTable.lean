/-
  Base/GuidTable.lean --- the table of GUIDs, from `base/src/musiccatalog.cpp`.

  `GetFilename` looks a GUID up in a multimap that every record fills in that is read or
  written, and every song and stream that is added.  The catalog of
  `Base/MusicCatalog.lean` is kept as it is, with the streams and the table beside it.
  Of the removals `RemoveStream` alone takes a pair out of the table: in `RemoveSong` the
  line that would is commented out.

      updateSong_catalog  beside the table the catalog is the one it was
      Right.write         a record is written
      Right.remove        a record is removed
      getFilename_right   what is found after every run
      songs_wellPlaced    the songs of the catalog, after every run
-/
import FreeAmp.Base.MusicCatalogInvariant
import FreeAmp.Lib.Index

namespace FreeAmp.Base

open FreeAmp.Lib MusicCatalog

/-! ## The table -/

/-- `m_guidTable`: of the pairs of a key `find` comes to the first that was inserted. -/
abbrev GuidTable := List (Text × Text)

namespace GuidTable

def getFilename (t : GuidTable) (strGUID : Text) : Text := (t.lookup strGUID).getD []

/-- What a record that is read or written does with its GUID. -/
def note (t : GuidTable) (guid url : Text) : GuidTable :=
  if 0 < guid.length ∧ (t.getFilename guid).length = 0 then t ++ [(cStr guid, url)] else t

/-- What `AddSong` and `AddStream` do with it. -/
def file (t : GuidTable) (guid url : Text) : GuidTable :=
  if 0 < guid.length then t ++ [(guid, url)] else t

/-- What `RemoveStream` does with it: of the pairs of the GUID the first with the URL is
erased. -/
def prune (t : GuidTable) (guid url : Text) : GuidTable :=
  if guid.length ≠ 0 ∧ t.length ≠ 0 then t.erase (guid, url) else t

end GuidTable

/-- `class MusicCatalog`, with its table of GUIDs. -/
structure GuidCatalog where
  catalog : MusicCatalog
  streams : List Text
  guidTable : GuidTable

namespace GuidCatalog

/-- A catalog that has just been made, over a database. -/
def initial (db : Database) : GuidCatalog := ⟨.initial db, [], []⟩

def database (s : GuidCatalog) : Database := s.catalog.database

/-- The database is changed. -/
def setDatabase (s : GuidCatalog) (db : Database) : GuidCatalog :=
  { s with catalog := { s.catalog with database := db } }

def getFilename (s : GuidCatalog) (strGUID : Text) : Text := s.guidTable.getFilename strGUID

/-- `ReadMetaDataFromDatabase` -/
def read (s : GuidCatalog) (url : Text) :
    Except RecordFault (GuidCatalog × Option MetaData) := do
  let metadata ← readMetaDataFromDatabase s.database url
  match metadata with
  | none => .ok (s, none)
  | some m => .ok ({ s with guidTable := s.guidTable.note m.guid url }, some m)

def write (s : GuidCatalog) (url : Text) (metadata : MetaData) (type : MetadataStorageType) :
    Except RecordFault GuidCatalog :=
  if !s.database.working then .ok s
  else do
    let db ← writeMetaDataToDatabase s.database url metadata type
    .ok { s.setDatabase db with guidTable := s.guidTable.note metadata.guid url }

/-- The metadata of a song, in its record or else in its file. -/
def fetchSong (s : GuidCatalog) (url : Text) (found : MetaData) :
    Except RecordFault (GuidCatalog × Option MetaData) := do
  let r ← s.read url
  match r.2 with
  | some m => .ok (r.1, some m)
  | none => do
      let s ← r.1.write url found .track
      s.read url

/-- `if (m_killGUIDs)` -/
def dropGUID (s : GuidCatalog) (url : Text) (metadata : MetaData) :
    Except RecordFault (GuidCatalog × MetaData) :=
  if s.catalog.killGUIDs then do
    let metadata := { metadata with guid := [] }
    let s ← s.write url metadata .track
    .ok (s, metadata)
  else .ok (s, metadata)

/-- The rest of `AddSong`, which writes a record when it has named what has no name. -/
def insertSong (s : GuidCatalog) (url : Text) (metadata : MetaData) :
    Except RecordFault (Error × GuidCatalog) := do
  let r ← s.catalog.insertSong url metadata
  let guidTable :=
    if !blank metadata.artist && unnamed metadata && s.database.working then
      s.guidTable.note metadata.guid url
    else s.guidTable
  .ok (r.1, { s with catalog := r.2, guidTable := guidTable })

def addSong (s : GuidCatalog) (url : Text) (found : MetaData) :
    Except RecordFault (Error × GuidCatalog) :=
  if !s.database.working then .ok (.databaseNotWorking, s)
  else do
    let r ← s.fetchSong url found
    match r.2 with
    | none => .ok (.databaseNotWorking, r.1)
    | some metadata =>
      let d ← r.1.dropGUID url metadata
      insertSong { d.1 with guidTable := d.1.guidTable.file d.2.guid url } url d.2

/-- `RemoveSong`, which walks through the pairs of the GUID and leaves them there. -/
def removeSong (s : GuidCatalog) (url : Text) : Except RecordFault (Error × GuidCatalog) := do
  let r ← s.read url
  let c ← s.catalog.removeSong url
  .ok (c.1, { r.1 with catalog := c.2 })

def updateSong (s : GuidCatalog) (item : PlaylistItem) (found : MetaData) :
    Except RecordFault (Error × GuidCatalog) :=
  if !s.database.working then .ok (.databaseNotWorking, s)
  else do
    let url := cStr item.url
    let r ← s.removeSong url
    if isError r.1 then .ok r
    else do
      let s ← r.2.write url item.metadata .track
      s.addSong url found

def addStream (s : GuidCatalog) (url : Text) : Except RecordFault (Error × GuidCatalog) :=
  if !s.database.working then .ok (.databaseNotWorking, s)
  else do
    let r ← s.read url
    match r.2 with
    | none => .ok (.databaseNotWorking, r.1)
    | some m =>
      let s := { r.1 with guidTable := r.1.guidTable.file m.guid url }
      if url ∈ s.streams then .ok (.duplicateItem, s)
      else .ok (.noErr, { s with streams := s.streams ++ [url] })

def removeStream (s : GuidCatalog) (url : Text) : Except RecordFault (Error × GuidCatalog) :=
  if !s.database.working then .ok (.databaseNotWorking, s)
  else do
    let r ← s.read url
    match r.2 with
    | none => .ok (.itemNotFound, r.1)
    | some m =>
      .ok (.noErr,
        { r.1.setDatabase (r.1.database.remove url) with
          streams := r.1.streams.erase url
          guidTable := r.1.guidTable.prune m.guid url })

inductive Call where
  | addSong (url : Text) (found : MetaData)
  | removeSong (url : Text)
  | updateSong (item : PlaylistItem) (found : MetaData)
  | addStream (url : Text)
  | removeStream (url : Text)
  | read (url : Text)
  | write (url : Text) (metadata : MetaData) (type : MetadataStorageType)

/-- What a call does. -/
def call (s : GuidCatalog) : Call → Except RecordFault GuidCatalog
  | .addSong url found => do .ok (← s.addSong url found).2
  | .removeSong url => do .ok (← s.removeSong url).2
  | .updateSong item found => do .ok (← s.updateSong item found).2
  | .addStream url => do .ok (← s.addStream url).2
  | .removeStream url => do .ok (← s.removeStream url).2
  | .read url => do .ok (← s.read url).1
  | .write url metadata type => s.write url metadata type

/-- A call that returns. -/
def Step (s : GuidCatalog) (k : Call) (s' : GuidCatalog) : Prop := s.call k = .ok s'

/-! ## Reading and writing -/

variable {s s' : GuidCatalog} {url : Text}

theorem read_ok {r : GuidCatalog × Option MetaData} (h : s.read url = .ok r) :
    readMetaDataFromDatabase s.database url = .ok r.2 ∧ r.1.catalog = s.catalog ∧
      r.1.streams = s.streams ∧
      r.1.guidTable = (match r.2 with
        | some m => s.guidTable.note m.guid url
        | none => s.guidTable) := by
  unfold read at h
  obtain ⟨metadata, hread, h⟩ := bind_eq_ok.mp h
  cases metadata with
  | none =>
    rw [← Except.ok.inj h]
    exact ⟨hread, rfl, rfl, rfl⟩
  | some m =>
    rw [← Except.ok.inj h]
    exact ⟨hread, rfl, rfl, rfl⟩

theorem write_ok {metadata : MetaData} {type : MetadataStorageType}
    (hworking : s.database.working = true) (h : s.write url metadata type = .ok s') :
    ∃ db, writeMetaDataToDatabase s.database url metadata type = .ok db ∧
      s' = { s.setDatabase db with guidTable := s.guidTable.note metadata.guid url } := by
  unfold write at h
  rw [hworking] at h
  obtain ⟨db, hwrite, h⟩ := bind_eq_ok.mp h
  exact ⟨db, hwrite, (Except.ok.inj h).symm⟩

/-! ## What the calls do with the database -/

theorem value_of_reads {db : Database} {m : MetaData}
    (h : readMetaDataFromDatabase db url = .ok (some m)) : db.value url ≠ none := by
  intro hnone
  unfold readMetaDataFromDatabase at h
  rw [hnone] at h
  split at h <;> cases h

theorem insertSong_frame {c c' : MusicCatalog} {metadata : MetaData} {err : Error}
    (h : c.insertSong url metadata = .ok (err, c')) :
    c'.killGUIDs = c.killGUIDs ∧
      if !blank metadata.artist && unnamed metadata then
        writeMetaDataToDatabase c.database url (nameUnknown metadata) .track = .ok c'.database
      else c'.database = c.database := by
  unfold MusicCatalog.insertSong at h
  split at h
  · rename_i hblank
    rw [hblank]
    split at h
    · rw [← (pair_of_ok h).2]
      exact ⟨rfl, rfl⟩
    · rw [← (pair_of_ok h).2]
      exact ⟨rfl, rfl⟩
  · rename_i hblank
    rw [Bool.eq_false_iff.mpr hblank]
    obtain ⟨db, hdb, h⟩ := bind_eq_ok.mp h
    rw [← (pair_of_ok h).2]
    refine ⟨rfl, ?_⟩
    cases hunnamed : unnamed metadata with
    | true =>
      rw [hunnamed] at hdb
      exact hdb
    | false =>
      rw [hunnamed] at hdb
      exact (Except.ok.inj hdb).symm

theorem removeSong_frame {c c' : MusicCatalog} {err : Error}
    (h : c.removeSong url = .ok (err, c')) :
    c'.database.working = c.database.working ∧ c'.killGUIDs = c.killGUIDs ∧
      (isError err = true ∧ c'.database = c.database ∨
        isError err = false ∧ c.database.value url ≠ none ∧
          c'.database = c.database.remove url) := by
  unfold MusicCatalog.removeSong at h
  split at h
  · obtain ⟨rfl, rfl⟩ := pair_of_ok h
    exact ⟨rfl, rfl, .inl ⟨rfl, rfl⟩⟩
  · obtain ⟨metadata, hread, h⟩ := bind_eq_ok.mp h
    cases metadata with
    | none =>
      obtain ⟨rfl, rfl⟩ := pair_of_ok h
      exact ⟨rfl, rfl, .inl ⟨rfl, rfl⟩⟩
    | some m =>
      have hvalue : c.database.value url ≠ none := value_of_reads hread
      dsimp only at h
      split at h
      · split at h
        · obtain ⟨rfl, rfl⟩ := pair_of_ok h
          exact ⟨rfl, rfl, .inr ⟨rfl, hvalue, rfl⟩⟩
        · obtain ⟨rfl, rfl⟩ := pair_of_ok h
          exact ⟨rfl, rfl, .inr ⟨rfl, hvalue, rfl⟩⟩
      · obtain ⟨r, -, h⟩ := bind_eq_ok.mp h
        obtain ⟨rfl, rfl⟩ := pair_of_ok h
        exact ⟨rfl, rfl, .inr ⟨rfl, hvalue, rfl⟩⟩

/-! ## Beside the table -/

theorem fetchSong_catalog {found : MetaData} {r : GuidCatalog × Option MetaData}
    (hworking : s.database.working = true) (h : s.fetchSong url found = .ok r) :
    ∃ db, MusicCatalog.fetchSong s.database url found = .ok (db, r.2) ∧
      r.1.catalog = { s.catalog with database := db } := by
  unfold fetchSong at h
  obtain ⟨q, hread, h⟩ := bind_eq_ok.mp h
  obtain ⟨hdata, hcatalog, -, -⟩ := read_ok hread
  unfold MusicCatalog.fetchSong
  rw [hdata]
  cases hq : q.2 with
  | some m =>
    rw [hq] at h
    rw [← Except.ok.inj h]
    exact ⟨s.database, rfl, hcatalog⟩
  | none =>
    rw [hq] at h
    obtain ⟨s₁, hwrite, h⟩ := bind_eq_ok.mp h
    have hq : q.1.database = s.database := congrArg MusicCatalog.database hcatalog
    rw [← hq] at hworking
    obtain ⟨db, hdb, rfl⟩ := write_ok hworking hwrite
    rw [hq] at hdb
    obtain ⟨hagain, hsame, -, -⟩ := read_ok h
    refine ⟨db, ?_, hsame.trans ?_⟩
    · show (writeMetaDataToDatabase s.database url found .track >>= _) = _
      rw [hdb]
      show (readMetaDataFromDatabase db url >>= _) = _
      rw [show readMetaDataFromDatabase db url = .ok r.2 from hagain]
      rfl
    · show { q.1.catalog with database := db } = _
      rw [hcatalog]

theorem dropGUID_catalog {metadata : MetaData} {d : GuidCatalog × MetaData}
    (hworking : s.database.working = true) (h : s.dropGUID url metadata = .ok d) :
    ∃ db, MusicCatalog.dropGUID s.catalog.killGUIDs s.database url metadata = .ok (db, d.2) ∧
      d.1.catalog = { s.catalog with database := db } := by
  unfold dropGUID at h
  unfold MusicCatalog.dropGUID
  split at h
  · rename_i hkill
    obtain ⟨s₁, hwrite, h⟩ := bind_eq_ok.mp h
    obtain ⟨db, hdb, rfl⟩ := write_ok hworking hwrite
    rw [← Except.ok.inj h, if_pos hkill]
    refine ⟨db, ?_, rfl⟩
    show (writeMetaDataToDatabase _ _ _ _ >>= _) = _
    rw [hdb]
    rfl
  · rename_i hkill
    rw [← Except.ok.inj h, if_neg hkill]
    exact ⟨s.database, rfl, rfl⟩

theorem addSong_catalog {found : MetaData} {r : Error × GuidCatalog}
    (h : s.addSong url found = .ok r) : s.catalog.addSong url found = .ok (r.1, r.2.catalog) := by
  unfold addSong at h
  unfold MusicCatalog.addSong
  cases hworking : s.database.working with
  | false =>
    rw [hworking] at h
    rw [show s.catalog.database.working = false from hworking, ← Except.ok.inj h]
    rfl
  | true =>
    rw [hworking] at h
    rw [show s.catalog.database.working = true from hworking]
    obtain ⟨q, hfetch, h⟩ := bind_eq_ok.mp h
    obtain ⟨db, hdb, hcatalog⟩ := fetchSong_catalog hworking hfetch
    show (MusicCatalog.fetchSong s.database url found >>= _) = _
    rw [hdb]
    cases hq : q.2 with
    | none =>
      rw [hq] at h
      rw [← Except.ok.inj h, hcatalog]
      rfl
    | some metadata =>
      rw [hq] at h
      obtain ⟨d, hdrop, h⟩ := bind_eq_ok.mp h
      have hq : q.1.database = db := congrArg MusicCatalog.database hcatalog
      have hworking' : q.1.database.working = true := by
        rw [hq]
        exact (fetchSong_spec hworking hdb).1
      obtain ⟨db', hdb', hcatalog'⟩ := dropGUID_catalog hworking' hdrop
      obtain ⟨c, hinsert, h⟩ := bind_eq_ok.mp h
      rw [← Except.ok.inj h]
      have hkill : q.1.catalog.killGUIDs = s.catalog.killGUIDs := by rw [hcatalog]
      rw [hq, hkill] at hdb'
      show (MusicCatalog.dropGUID s.catalog.killGUIDs db url metadata >>= _) = _
      rw [hdb']
      show MusicCatalog.insertSong { s.catalog with database := db' } url d.2 = _
      rw [hcatalog', hcatalog] at hinsert
      exact hinsert

theorem removeSong_catalog {r : Error × GuidCatalog} (h : s.removeSong url = .ok r) :
    s.catalog.removeSong url = .ok (r.1, r.2.catalog) := by
  unfold removeSong at h
  obtain ⟨q, -, h⟩ := bind_eq_ok.mp h
  obtain ⟨c, hremove, h⟩ := bind_eq_ok.mp h
  rw [hremove, ← Except.ok.inj h]

theorem updateSong_catalog {item : PlaylistItem} {found : MetaData} {r : Error × GuidCatalog}
    (h : s.updateSong item found = .ok r) :
    s.catalog.updateSong item found = .ok (r.1, r.2.catalog) := by
  unfold updateSong at h
  unfold MusicCatalog.updateSong
  cases hworking : s.database.working with
  | false =>
    rw [hworking] at h
    rw [show s.catalog.database.working = false from hworking, ← Except.ok.inj h]
    rfl
  | true =>
    rw [hworking] at h
    rw [show s.catalog.database.working = true from hworking]
    obtain ⟨q, hremove, h⟩ := bind_eq_ok.mp h
    show (s.catalog.removeSong (cStr item.url) >>= _) = _
    rw [removeSong_catalog hremove]
    show (if isError q.1 then _ else _) = _
    split at h
    · rename_i herr
      rw [if_pos herr, ← Except.ok.inj h]
    · rename_i herr
      rw [if_neg herr]
      obtain ⟨s₁, hwrite, h⟩ := bind_eq_ok.mp h
      have hworking' : q.2.database.working = true :=
        (removeSong_frame (removeSong_catalog hremove)).1.trans hworking
      obtain ⟨db, hdb, rfl⟩ := write_ok hworking' hwrite
      show (writeMetaDataToDatabase q.2.database (cStr item.url) item.metadata .track >>= _) = _
      rw [hdb]
      exact addSong_catalog h

end GuidCatalog

/-! ## The table that is right -/

/-- The record under the URL carries the GUID. -/
def Carries (db : Database) (url guid : Text) : Prop :=
  guid ≠ [] ∧ ∃ m, readMetaDataFromDatabase db url = .ok (some m) ∧ m.guid = guid

/-- The table finds for every GUID a record that carries it, if there is one. -/
structure Right (db : Database) (t : GuidTable) : Prop where
  indexes : Indexes (Carries db) t
  names : ∀ e ∈ t, e.2 ≠ []
  sane : ∀ url guid, Carries db url guid → url ≠ [] ∧ guid.length < 10 ^ 9

/-- The metadata is read back from its record, and is found by its GUID. -/
def Writable (metadata : MetaData) (url : Text) : Prop :=
  metadata.NulFree ∧ (metadata.guid = [] ∨ metadata.guid.length < 10 ^ 9 ∧ url ≠ [])

theorem carries_congr {db db' : Database} {url guid : Text} (hworking : db'.working = db.working)
    (hvalue : db'.value url = db.value url) : Carries db' url guid ↔ Carries db url guid := by
  unfold Carries
  rw [readMetaDataFromDatabase_congr hworking hvalue]

namespace GuidTable

variable {t : GuidTable} {guid url : Text}

theorem mem_of_lookup {name : Text} (h : t.lookup guid = some name) : (guid, name) ∈ t := by
  obtain ⟨l₁, l₂, rfl, -⟩ := List.lookup_eq_some_iff.mp h
  exact List.mem_append_right l₁ List.mem_cons_self

theorem getFilename_eq_nil_iff (hnames : ∀ e ∈ t, e.2 ≠ []) :
    (t.getFilename guid).length = 0 ↔ t.lookup guid = none := by
  unfold getFilename
  cases hlookup : t.lookup guid with
  | none => simp
  | some name =>
    have hname := hnames _ (mem_of_lookup hlookup)
    simpa using hname

theorem note_of_known (hnames : ∀ e ∈ t, e.2 ≠ []) (hknown : t.lookup guid ≠ none) :
    t.note guid url = t := by
  unfold note
  rw [if_neg]
  exact fun h => hknown ((getFilename_eq_nil_iff hnames).mp h.2)

theorem note_nil : t.note [] url = t := if_neg fun h => absurd h.1 (Nat.lt_irrefl 0)

theorem note_of_unknown (hnames : ∀ e ∈ t, e.2 ≠ []) (hnul : NulFree guid) (hguid : guid ≠ [])
    (hunknown : t.lookup guid = none) : t.note guid url = t ++ [(guid, url)] := by
  unfold note
  rw [if_pos ⟨List.length_pos_iff.mpr hguid, (getFilename_eq_nil_iff hnames).mpr hunknown⟩,
    hnul.cStr_eq]

theorem lookup_note_of_ne (hnames : ∀ e ∈ t, e.2 ≠ []) (hnul : NulFree guid) {other : Text}
    (hother : other ≠ guid) : (t.note guid url).lookup other = t.lookup other := by
  by_cases hguid : guid = []
  · rw [hguid, note_nil]
  by_cases hknown : t.lookup guid = none
  · rw [note_of_unknown hnames hnul hguid hknown, lookup_append_of_ne hother]
  · rw [note_of_known hnames hknown]

theorem mem_note {e : Text × Text} (h : e ∈ t.note guid url) : e ∈ t ∨ guid ≠ [] ∧ e.2 = url := by
  unfold note at h
  split at h
  · rename_i hguid
    rcases List.mem_append.mp h with h | h
    · exact .inl h
    · rw [List.mem_singleton.mp h]
      exact .inr ⟨List.length_pos_iff.mp hguid.1, rfl⟩
  · exact .inl h

end GuidTable

namespace Right

open GuidTable

variable {db db₀ db' : Database} {t t' : GuidTable} {url : Text}

theorem note_eq (h : Right db t) {m : MetaData}
    (hread : readMetaDataFromDatabase db url = .ok (some m)) : t.note m.guid url = t := by
  by_cases hguid : m.guid = []
  · rw [hguid, note_nil]
  · exact note_of_known h.names (h.indexes.known url m.guid ⟨hguid, m, hread, rfl⟩)

/-- What `AddSong` and `AddStream` file is behind what has been noted. -/
theorem file (h : Right db t) {m : MetaData}
    (hread : readMetaDataFromDatabase db url = .ok (some m)) : Right db (t.file m.guid url) := by
  unfold GuidTable.file
  split
  · rename_i hguid
    have hcarries : Carries db url m.guid := ⟨List.length_pos_iff.mp hguid, m, hread, rfl⟩
    refine ⟨h.indexes.append hcarries, ?_, h.sane⟩
    intro e he
    rcases List.mem_append.mp he with he | he
    · exact h.names e he
    · rw [List.mem_singleton.mp he]
      exact (h.sane url m.guid hcarries).1
  · exact h

theorem remove (h : Right db t) (hnames : ∀ e ∈ t', e ∈ t)
    (hsame : ∀ guid, ¬ Carries db url guid → t'.lookup guid = t.lookup guid)
    (hspares : ∀ guid, Carries db url guid → Spares (Carries db) t' url guid) :
    Right (db.remove url) t' := by
  have hothers : ∀ other guid, other ≠ url →
      (Carries (db.remove url) other guid ↔ Carries db other guid) :=
    fun other guid hne => carries_congr rfl (Database.value_remove_of_ne db hne)
  have hgone : ∀ guid, ¬ Carries (db.remove url) url guid := by
    rintro guid ⟨-, m, hread, -⟩
    exact GuidCatalog.value_of_reads hread (Database.value_remove_self db url)
  refine ⟨(h.indexes.replace_iff hothers fun guid hnot _ => hsame guid hnot).mpr
    ⟨fun guid hcarries _ => hspares guid hcarries,
      fun guid hcarries => absurd hcarries (hgone guid)⟩, fun e he => h.names e (hnames e he), ?_⟩
  intro other guid hcarries
  have hne : other ≠ url := by
    rintro rfl
    exact hgone guid hcarries
  exact h.sane other guid ((hothers other guid hne).mp hcarries)

/-- A record is written under a URL; `db₀` differs from `db` there at most. -/
theorem write (h : Right db t) {metadata : MetaData} {type : MetadataStorageType}
    (hworking : db₀.working = true) (hsame : db₀.working = db.working)
    (hvalues : ∀ other, other ≠ url → db₀.value other = db.value other)
    (hwritable : Writable metadata url)
    (hspares : ∀ guid, Carries db url guid → guid = metadata.guid ∨ Spares (Carries db) t url guid)
    (hwrite : writeMetaDataToDatabase db₀ url metadata type = .ok db') :
    Right db' (t.note metadata.guid url) ∧
      readMetaDataFromDatabase db' url = .ok (some metadata) := by
  obtain ⟨hnul, hguid⟩ := hwritable
  have hguidNul : NulFree metadata.guid := hnul _ (by simp)
  have hshort : metadata.guid.length < 10 ^ 9 := by
    rcases hguid with hguid | hguid
    · rw [hguid]
      decide
    · exact hguid.1
  have hread : readMetaDataFromDatabase db' url = .ok (some metadata) := by
    rw [readMetaDataFromDatabase_write hworking hnul hwrite, if_pos hshort]
  have hself : ∀ guid, Carries db' url guid ↔ guid ≠ [] ∧ metadata.guid = guid := by
    intro guid
    unfold Carries
    rw [hread]
    constructor
    · rintro ⟨hne, m, hm, rfl⟩
      exact ⟨hne, by rw [Option.some.inj (Except.ok.inj hm)]⟩
    · rintro ⟨hne, heq⟩
      exact ⟨hne, metadata, rfl, heq⟩
  obtain ⟨ost, -, rfl⟩ := writeMetaDataToDatabase_ok hworking hwrite
  have hothers : ∀ other guid, other ≠ url →
      (Carries (db₀.insert url ost) other guid ↔ Carries db other guid) := by
    intro other guid hne
    refine carries_congr hsame ?_
    rw [Database.value_insert_of_ne db₀ ost hne, hvalues other hne]
  refine ⟨⟨(h.indexes.replace_iff hothers ?_).mpr ⟨?_, ?_⟩, ?_, ?_⟩, hread⟩
  · intro guid _ hnot
    by_cases hne : guid = metadata.guid
    · have hnil : metadata.guid = [] := by
        by_contra hguid
        exact hnot ((hself guid).mpr ⟨hne ▸ hguid, hne.symm⟩)
      rw [hnil, note_nil]
    · exact lookup_note_of_ne h.names hguidNul hne
  · intro guid hcarries hnot
    have hne : guid ≠ metadata.guid :=
      fun heq => hnot ((hself guid).mpr ⟨hcarries.1, heq.symm⟩)
    obtain ⟨hnamed, hknown⟩ := (hspares guid hcarries).resolve_left hne
    have hlookup : (t.note metadata.guid url).lookup guid = t.lookup guid :=
      lookup_note_of_ne h.names hguidNul hne
    exact ⟨fun other hother => hnamed other (hlookup ▸ hother),
      fun hnone => hknown (hlookup ▸ hnone)⟩
  · intro guid hcarries
    obtain ⟨hne, rfl⟩ := (hself guid).mp hcarries
    cases hlookup : t.lookup metadata.guid with
    | none =>
      refine ⟨url, ?_, hcarries⟩
      rw [note_of_unknown h.names hguidNul hne hlookup, lookup_append_of_unknown hlookup]
    | some name =>
      refine ⟨name, ?_, ?_⟩
      · rw [note_of_known h.names (by rw [hlookup]; nofun), hlookup]
      · by_cases hname : name = url
        · rw [hname]
          exact hcarries
        · exact (hothers name _ hname).mpr (h.indexes.named _ name hlookup)
  · intro e he
    rcases mem_note he with he | ⟨hne, he⟩
    · exact h.names e he
    · rw [he]
      exact (hguid.resolve_left hne).2
  · intro other guid hcarries
    by_cases hother : other = url
    · subst hother
      obtain ⟨hne, rfl⟩ := (hself guid).mp hcarries
      exact ⟨(hguid.resolve_left hne).2, hshort⟩
    · exact h.sane other guid ((hothers other guid hother).mp hcarries)

end Right

/-! ## The calls -/

namespace GuidCatalog

variable {s s' : GuidCatalog} {url : Text}

/-- The state that the calls keep. -/
structure Kept (s : GuidCatalog) : Prop where
  right : Right s.database s.guidTable
  kill : s.catalog.killGUIDs = false

theorem read_kept (h : Right s.database s.guidTable) {r : GuidCatalog × Option MetaData}
    (hread : s.read url = .ok r) :
    r.1 = s ∧ readMetaDataFromDatabase s.database url = .ok r.2 := by
  obtain ⟨hdata, hcatalog, hstreams, htable⟩ := read_ok hread
  have hsame : r.1.guidTable = s.guidTable := by
    cases hr : r.2 with
    | none =>
      rw [hr] at htable
      exact htable
    | some m =>
      rw [hr] at htable hdata
      exact htable.trans (h.note_eq hdata)
  refine ⟨?_, hdata⟩
  obtain ⟨⟨catalog, streams, guidTable⟩, metadata⟩ := r
  obtain rfl : catalog = s.catalog := hcatalog
  obtain rfl : streams = s.streams := hstreams
  obtain rfl : guidTable = s.guidTable := hsame
  rfl

theorem Kept.write (h : Kept s) (hworking : s.database.working = true) {metadata : MetaData}
    {type : MetadataStorageType} (hwritable : Writable metadata url)
    (hspares : ∀ guid, Carries s.database url guid →
      guid = metadata.guid ∨ Spares (Carries s.database) s.guidTable url guid)
    (hwrite : s.write url metadata type = .ok s') :
    Kept s' ∧ s'.database.working = true ∧
      readMetaDataFromDatabase s'.database url = .ok (some metadata) := by
  obtain ⟨db, hdb, rfl⟩ := write_ok hworking hwrite
  obtain ⟨hright, hread⟩ := h.right.write hworking rfl (fun _ _ => rfl) hwritable hspares hdb
  refine ⟨⟨hright, h.kill⟩, ?_, hread⟩
  obtain ⟨ost, -, rfl⟩ := writeMetaDataToDatabase_ok hworking hdb
  exact hworking

theorem Kept.fetchSong (h : Kept s) (hworking : s.database.working = true) {found : MetaData}
    (hfound : s.database.value url = none → Writable found url)
    {r : GuidCatalog × Option MetaData} (hfetch : s.fetchSong url found = .ok r) :
    Kept r.1 ∧ r.1.database.working = true ∧
      readMetaDataFromDatabase r.1.database url = .ok r.2 := by
  unfold GuidCatalog.fetchSong at hfetch
  obtain ⟨q, hread, hfetch⟩ := bind_eq_ok.mp hfetch
  obtain ⟨hsame, hdata⟩ := read_kept h.right hread
  cases hq : q.2 with
  | some m =>
    rw [hq] at hfetch hdata
    rw [← Except.ok.inj hfetch, hsame]
    exact ⟨h, hworking, hdata⟩
  | none =>
    rw [hq] at hfetch hdata
    obtain ⟨s₁, hwrite, hagain⟩ := bind_eq_ok.mp hfetch
    rw [hsame] at hwrite
    have hvalue : s.database.value url = none := by
      by_contra hne
      obtain ⟨data, hdata'⟩ := Option.ne_none_iff_exists'.mp hne
      exact readMetaDataFromDatabase_ne_none hworking hdata' hdata
    obtain ⟨h₁, hworking₁, -⟩ := h.write hworking (hfound hvalue)
      (fun guid hcarries => absurd hvalue (value_of_reads hcarries.2.choose_spec.1)) hwrite
    obtain ⟨hsame', hdata'⟩ := read_kept h₁.right hagain
    rw [hsame']
    exact ⟨h₁, hworking₁, hdata'⟩

theorem Kept.addSong (h : Kept s) {found : MetaData}
    (hfound : s.database.working = true → s.database.value url = none → Writable found url)
    {r : Error × GuidCatalog} (hadd : s.addSong url found = .ok r) : Kept r.2 := by
  unfold GuidCatalog.addSong at hadd
  cases hworking : s.database.working with
  | false =>
    rw [hworking] at hadd
    rw [← Except.ok.inj hadd]
    exact h
  | true =>
    rw [hworking] at hadd
    obtain ⟨q, hfetch, hadd⟩ := bind_eq_ok.mp hadd
    obtain ⟨hq, hworking', hdata⟩ := h.fetchSong hworking (hfound hworking) hfetch
    cases hmeta : q.2 with
    | none =>
      rw [hmeta] at hadd
      rw [← Except.ok.inj hadd]
      exact hq
    | some metadata =>
      rw [hmeta] at hadd hdata
      obtain ⟨d, hdrop, hadd⟩ := bind_eq_ok.mp hadd
      unfold GuidCatalog.dropGUID at hdrop
      rw [hq.kill] at hdrop
      rw [← Except.ok.inj hdrop] at hadd
      obtain ⟨c, hinsert, hadd⟩ := bind_eq_ok.mp hadd
      obtain ⟨hkill, hdatabase⟩ := insertSong_frame hinsert
      have hfiled := hq.right.file hdata
      rw [← Except.ok.inj hadd]
      refine ⟨?_, hkill.trans hq.kill⟩
      show Right c.2.database _
      cases hnamed : (!blank metadata.artist && unnamed metadata) with
      | false =>
        rw [hnamed] at hdatabase
        rw [hdatabase]
        exact hfiled
      | true =>
        rw [hnamed] at hdatabase
        have hwritable : Writable (nameUnknown metadata) url := by
          refine ⟨nulFree_nameUnknown (nulFree_readMetaDataFromDatabase hdata), ?_⟩
          by_cases hguid : metadata.guid = []
          · exact .inl hguid
          · obtain ⟨hurl, hshort⟩ := hq.right.sane url _ ⟨hguid, metadata, hdata, rfl⟩
            exact .inr ⟨hshort, hurl⟩
        have hwrite : writeMetaDataToDatabase q.1.database url (nameUnknown metadata) .track =
            .ok c.2.database := hdatabase
        have hright := (hfiled.write hworking' rfl (fun _ _ => rfl) hwritable
          (fun guid hcarries => .inl ?_) hwrite).1
        · rw [if_pos]
          · exact hright
          · show (true && q.1.database.working) = true
            rw [hworking', Bool.and_self]
        · obtain ⟨-, m, hread, rfl⟩ := hcarries
          obtain rfl := Option.some.inj (Except.ok.inj (hread.symm.trans hdata))
          rfl

theorem Kept.removeSong (h : Kept s)
    (hspares : ∀ guid, Carries s.database url guid →
      Spares (Carries s.database) s.guidTable url guid)
    {r : Error × GuidCatalog} (hremove : s.removeSong url = .ok r) : Kept r.2 := by
  have hcatalog := removeSong_catalog hremove
  unfold GuidCatalog.removeSong at hremove
  obtain ⟨q, hread, hremove⟩ := bind_eq_ok.mp hremove
  obtain ⟨c, -, hremove⟩ := bind_eq_ok.mp hremove
  obtain ⟨hsame, -⟩ := read_kept h.right hread
  obtain ⟨-, hkill, hdatabase⟩ := removeSong_frame hcatalog
  have htable : r.2.guidTable = s.guidTable := by
    rw [← Except.ok.inj hremove, hsame]
  refine ⟨?_, hkill.trans h.kill⟩
  show Right r.2.catalog.database r.2.guidTable
  rw [htable]
  rcases hdatabase with ⟨-, hdatabase⟩ | ⟨-, -, hdatabase⟩
  · rw [hdatabase]
    exact h.right
  · rw [hdatabase]
    exact h.right.remove (fun _ he => he) (fun _ _ => rfl) hspares

/-- The record is removed and written again at once: no other call sees it gone. -/
theorem Kept.updateSong (h : Kept s) {item : PlaylistItem} {found : MetaData}
    (hitem : s.database.working = true → s.database.value (cStr item.url) ≠ none →
      Writable item.metadata (cStr item.url) ∧
        ∀ guid, Carries s.database (cStr item.url) guid → guid = item.metadata.guid ∨
          Spares (Carries s.database) s.guidTable (cStr item.url) guid)
    {r : Error × GuidCatalog} (hupdate : s.updateSong item found = .ok r) : Kept r.2 := by
  unfold GuidCatalog.updateSong at hupdate
  cases hworking : s.database.working with
  | false =>
    rw [hworking] at hupdate
    rw [← Except.ok.inj hupdate]
    exact h
  | true =>
    rw [hworking] at hupdate
    obtain ⟨q, hremove, hupdate⟩ := bind_eq_ok.mp hupdate
    obtain ⟨hworking', hkill, hdatabase⟩ := removeSong_frame (removeSong_catalog hremove)
    unfold GuidCatalog.removeSong at hremove
    obtain ⟨p, hread, hremove⟩ := bind_eq_ok.mp hremove
    obtain ⟨c, -, hremove⟩ := bind_eq_ok.mp hremove
    obtain ⟨hsame, -⟩ := read_kept h.right hread
    have htable : q.2.guidTable = s.guidTable := by
      rw [← Except.ok.inj hremove, hsame]
    rcases hdatabase with ⟨herr, hdatabase⟩ | ⟨herr, hvalue, hdatabase⟩
    · rw [herr] at hupdate
      rw [← Except.ok.inj hupdate]
      refine ⟨?_, hkill.trans h.kill⟩
      show Right q.2.catalog.database q.2.guidTable
      rw [hdatabase, htable]
      exact h.right
    · rw [herr] at hupdate
      obtain ⟨s₁, hwrite, hadd⟩ := bind_eq_ok.mp hupdate
      have hq : q.2.database.working = true := hworking'.trans hworking
      obtain ⟨db, hdb, rfl⟩ := write_ok hq hwrite
      obtain ⟨hwritable, hspares⟩ := hitem hworking hvalue
      have hothers : ∀ other, other ≠ cStr item.url →
          q.2.database.value other = s.database.value other := by
        intro other hne
        show q.2.catalog.database.value other = _
        rw [hdatabase]
        exact Database.value_remove_of_ne _ hne
      obtain ⟨hright, hdata⟩ := h.right.write hq hworking' hothers hwritable hspares hdb
      have hkept : Kept { q.2.setDatabase db with
          guidTable := q.2.guidTable.note item.metadata.guid (cStr item.url) } :=
        ⟨by rw [htable]; exact hright, hkill.trans h.kill⟩
      exact hkept.addSong (fun _ hnone => absurd hnone (value_of_reads hdata)) hadd

theorem Kept.addStream (h : Kept s) {r : Error × GuidCatalog} (hadd : s.addStream url = .ok r) :
    Kept r.2 := by
  unfold GuidCatalog.addStream at hadd
  split at hadd
  · rw [← Except.ok.inj hadd]
    exact h
  · obtain ⟨q, hread, hadd⟩ := bind_eq_ok.mp hadd
    obtain ⟨hsame, hdata⟩ := read_kept h.right hread
    cases hq : q.2 with
    | none =>
      rw [hq, hsame] at hadd
      rw [← Except.ok.inj hadd]
      exact h
    | some m =>
      rw [hq] at hdata
      rw [hq, hsame] at hadd
      have hfiled : Kept { s with guidTable := s.guidTable.file m.guid url } :=
        ⟨h.right.file hdata, h.kill⟩
      dsimp only at hadd
      split at hadd
      · rw [← Except.ok.inj hadd]
        exact hfiled
      · rw [← Except.ok.inj hadd]
        exact ⟨hfiled.right, hfiled.kill⟩

theorem Kept.removeStream (h : Kept s)
    (hspares : ∀ guid, Carries s.database url guid →
      Spares (Carries s.database) (s.guidTable.prune guid url) url guid)
    {r : Error × GuidCatalog} (hremove : s.removeStream url = .ok r) : Kept r.2 := by
  unfold GuidCatalog.removeStream at hremove
  split at hremove
  · rw [← Except.ok.inj hremove]
    exact h
  · obtain ⟨q, hread, hremove⟩ := bind_eq_ok.mp hremove
    obtain ⟨hsame, hdata⟩ := read_kept h.right hread
    cases hq : q.2 with
    | none =>
      rw [hq, hsame] at hremove
      rw [← Except.ok.inj hremove]
      exact h
    | some m =>
      rw [hq] at hdata
      rw [hq, hsame] at hremove
      rw [← Except.ok.inj hremove]
      refine ⟨h.right.remove ?_ ?_ ?_, h.kill⟩
      · intro e he
        show e ∈ s.guidTable
        unfold GuidTable.prune at he
        split at he
        · exact List.mem_of_mem_erase he
        · exact he
      · intro guid hnot
        show (s.guidTable.prune m.guid url).lookup guid = s.guidTable.lookup guid
        unfold GuidTable.prune
        split
        · rename_i hguid
          have hcarries : Carries s.database url m.guid :=
            ⟨fun hnil => hguid.1 (by rw [hnil]; rfl), m, hdata, rfl⟩
          have hne : guid ≠ m.guid := by
            rintro rfl
            exact hnot hcarries
          exact lookup_erase_of_ne hne
        · rfl
      · intro guid hcarries
        obtain ⟨m', hread', hguid⟩ := hcarries.2
        obtain rfl := Option.some.inj (Except.ok.inj (hread'.symm.trans hdata))
        rw [hguid]
        exact hspares guid hcarries

/-! ## Every run -/

/-- The record under the URL can go: for its GUID another record is found that carries it, or
nothing is and no other record does. -/
def Free (s : GuidCatalog) (url : Text) (guid : Text) : Prop :=
  Spares (Carries s.database) s.guidTable url guid

/-- A call leaves a right table: the metadata it writes can be read back, and no GUID is
taken from the record that is found by it, except that `RemoveStream` may take the only pair
of the only record. -/
def Fair (s : GuidCatalog) (k : Call) : Prop :=
  s.database.working = true →
    match k with
    | .addSong url found => s.database.value url = none → Writable found url
    | .removeSong url => ∀ guid, Carries s.database url guid → s.Free url guid
    | .updateSong item _ =>
      s.database.value (cStr item.url) ≠ none →
        Writable item.metadata (cStr item.url) ∧
          ∀ guid, Carries s.database (cStr item.url) guid →
            guid = item.metadata.guid ∨ s.Free (cStr item.url) guid
    | .addStream _ => True
    | .removeStream url =>
      ∀ guid, Carries s.database url guid →
        Spares (Carries s.database) (s.guidTable.prune guid url) url guid
    | .read _ => True
    | .write url metadata _ =>
      Writable metadata url ∧
        ∀ guid, Carries s.database url guid → guid = metadata.guid ∨ s.Free url guid

theorem working_of_carries {db : Database} {guid : Text} (h : Carries db url guid) :
    db.working = true := by
  obtain ⟨-, m, hread, -⟩ := h
  by_contra hnot
  unfold readMetaDataFromDatabase at hread
  rw [Bool.eq_false_iff.mpr hnot] at hread
  cases hread

theorem Kept.step {k : Call} (h : Kept s) (hfair : Fair s k) (hstep : Step s k s') : Kept s' := by
  unfold Step at hstep
  cases k with
  | addSong url found =>
    obtain ⟨r, hadd, hr⟩ := bind_eq_ok.mp hstep
    rw [← Except.ok.inj hr]
    exact h.addSong hfair hadd
  | removeSong url =>
    obtain ⟨r, hremove, hr⟩ := bind_eq_ok.mp hstep
    rw [← Except.ok.inj hr]
    exact h.removeSong
      (fun guid hcarries => hfair (working_of_carries hcarries) guid hcarries) hremove
  | updateSong item found =>
    obtain ⟨r, hupdate, hr⟩ := bind_eq_ok.mp hstep
    rw [← Except.ok.inj hr]
    exact h.updateSong hfair hupdate
  | addStream url =>
    obtain ⟨r, hadd, hr⟩ := bind_eq_ok.mp hstep
    rw [← Except.ok.inj hr]
    exact h.addStream hadd
  | removeStream url =>
    obtain ⟨r, hremove, hr⟩ := bind_eq_ok.mp hstep
    rw [← Except.ok.inj hr]
    exact h.removeStream
      (fun guid hcarries => hfair (working_of_carries hcarries) guid hcarries) hremove
  | read url =>
    obtain ⟨r, hread, hr⟩ := bind_eq_ok.mp hstep
    rw [← Except.ok.inj hr, (read_kept h.right hread).1]
    exact h
  | write url metadata type =>
    cases hworking : s.database.working with
    | false =>
      have hsame : s.write url metadata type = .ok s := by
        unfold GuidCatalog.write
        rw [hworking]
        rfl
      obtain rfl := Except.ok.inj (hsame.symm.trans hstep)
      exact h
    | true =>
      obtain ⟨hwritable, hspares⟩ := hfair hworking
      exact (h.write hworking hwritable hspares hstep).1

theorem kept_initial {db : Database} (hdb : ∀ url guid, ¬ Carries db url guid) :
    Kept (initial db) :=
  ⟨⟨⟨nofun, fun url guid hcarries => absurd hcarries (hdb url guid)⟩, nofun,
    fun url guid hcarries => absurd hcarries (hdb url guid)⟩, rfl⟩

/-- `GetFilename` finds for a GUID a key whose record carries it, whenever there is one. -/
theorem getFilename_right (db : Database) (hdb : ∀ url guid, ¬ Carries db url guid)
    (calls : List Call) (s : GuidCatalog) (hrun : Run (Guarded Fair Step) (initial db) calls s)
    (guid : Text) :
    (∀ name, s.getFilename guid = name → name ≠ [] →
      s.database.value name ≠ none ∧ Carries s.database name guid) ∧
    ((∃ url, Carries s.database url guid) → s.getFilename guid ≠ []) := by
  have hkept : Kept s :=
    hrun.invariant (fun _ _ _ h hstep => h.step hstep.1 hstep.2) (kept_initial hdb)
  obtain ⟨⟨hnamed, hknown⟩, hnames, -⟩ := hkept.right
  unfold getFilename GuidTable.getFilename
  cases hlookup : s.guidTable.lookup guid with
  | none =>
    refine ⟨fun name hname hne => absurd hname.symm hne, ?_⟩
    rintro ⟨url, hcarries⟩
    exact absurd hlookup (hknown url guid hcarries)
  | some name =>
    refine ⟨?_, fun _ => hnames _ (GuidTable.mem_of_lookup hlookup)⟩
    rintro - rfl -
    have hcarries := hnamed guid name hlookup
    exact ⟨value_of_reads hcarries.2.choose_spec.1, hcarries⟩

/-! ## The catalog beneath -/

/-- A record that is written or removed without the catalog is not that of its songs. -/
def Beside (s : GuidCatalog) : Call → Prop
  | .write url _ _ | .removeStream url => url ∉ s.catalog.urls
  | _ => True

theorem addStream_catalog {r : Error × GuidCatalog} (h : s.addStream url = .ok r) :
    r.2.catalog = s.catalog := by
  unfold addStream at h
  split at h
  · rw [← Except.ok.inj h]
  · obtain ⟨q, hread, h⟩ := bind_eq_ok.mp h
    have hq : q.1.catalog = s.catalog := (read_ok hread).2.1
    cases hm : q.2 with
    | none =>
      rw [hm] at h
      rw [← Except.ok.inj h, hq]
    | some m =>
      rw [hm] at h
      dsimp only at h
      split at h <;> rw [← Except.ok.inj h, ← hq]

theorem write_invariant {metadata : MetaData} {type : MetadataStorageType}
    (hinv : s.catalog.Invariant) (hurl : url ∉ s.catalog.urls)
    (h : s.write url metadata type = .ok s') : s'.catalog.Invariant := by
  cases hworking : s.database.working with
  | false =>
    unfold write at h
    rw [hworking] at h
    rw [← Except.ok.inj h]
    exact hinv
  | true =>
    obtain ⟨db, hwrite, rfl⟩ := write_ok hworking h
    obtain ⟨ost, -, rfl⟩ := writeMetaDataToDatabase_ok hworking hwrite
    refine hinv.frame fun u hu => ?_
    have hne : u ≠ url := fun heq => hurl (heq ▸ hu)
    exact readMetaDataFromDatabase_congr rfl (Database.value_insert_of_ne _ _ hne)

theorem removeStream_invariant {r : Error × GuidCatalog} (hinv : s.catalog.Invariant)
    (hurl : url ∉ s.catalog.urls) (h : s.removeStream url = .ok r) : r.2.catalog.Invariant := by
  unfold removeStream at h
  split at h
  · rw [← Except.ok.inj h]
    exact hinv
  · obtain ⟨q, hread, h⟩ := bind_eq_ok.mp h
    have hq : q.1.catalog = s.catalog := (read_ok hread).2.1
    cases hm : q.2 with
    | none =>
      rw [hm] at h
      rw [← Except.ok.inj h, hq]
      exact hinv
    | some m =>
      rw [hm] at h
      rw [← Except.ok.inj h]
      rw [← hq] at hinv hurl
      exact hinv.remove_record hurl

/-- A step with a song is a step of the catalog, and the others leave its songs alone. -/
theorem Step.invariant {k : Call} (hinv : s.catalog.Invariant) (hbeside : Beside s k)
    (h : Step s k s') : s'.catalog.Invariant := by
  unfold Step at h
  cases k with
  | addSong url found =>
    obtain ⟨r, hadd, h⟩ := bind_eq_ok.mp h
    rw [← Except.ok.inj h]
    exact MusicCatalog.Step.invariant (k := .addSong url found) hinv ⟨r.1, addSong_catalog hadd⟩
  | removeSong url =>
    obtain ⟨r, hremove, h⟩ := bind_eq_ok.mp h
    rw [← Except.ok.inj h]
    exact MusicCatalog.Step.invariant (k := .removeSong url) hinv
      ⟨r.1, removeSong_catalog hremove⟩
  | updateSong item found =>
    obtain ⟨r, hupdate, h⟩ := bind_eq_ok.mp h
    rw [← Except.ok.inj h]
    exact MusicCatalog.Step.invariant (k := .updateSong item found) hinv
      ⟨r.1, updateSong_catalog hupdate⟩
  | addStream url =>
    obtain ⟨r, hadd, h⟩ := bind_eq_ok.mp h
    rw [← Except.ok.inj h, addStream_catalog hadd]
    exact hinv
  | removeStream url =>
    obtain ⟨r, hremove, h⟩ := bind_eq_ok.mp h
    rw [← Except.ok.inj h]
    exact removeStream_invariant hinv hbeside hremove
  | read url =>
    obtain ⟨r, hread, h⟩ := bind_eq_ok.mp h
    rw [← Except.ok.inj h, (read_ok hread).2.1]
    exact hinv
  | write url metadata type => exact write_invariant hinv hbeside h

/-- A call as a partial function. -/
def next (s : GuidCatalog) (k : Call) : Option GuidCatalog := (s.call k).toOption

theorem step_of_next {k : Call} (h : s.next k = some s') : Step s k s' := by
  unfold next at h
  unfold Step
  cases hcall : s.call k with
  | error fault =>
    rw [hcall] at h
    cases h
  | ok t =>
    rw [hcall] at h
    rw [Option.some.inj h]

/-- A song that has a GUID. -/
def songOfGuid : MetaData := { MetaData.new with guid := bytes "g" }

/-- A song is added, and found by its GUID. -/
theorem getFilename_right_added :
    ∃ s, Run (Guarded Fair Step) (initial .empty) [.addSong (bytes "u") songOfGuid] s ∧
      s.getFilename (bytes "g") = bytes "u" ∧
      (∀ name, s.getFilename (bytes "g") = name → name ≠ [] →
        s.database.value name ≠ none ∧ Carries s.database name (bytes "g")) ∧
      ((∃ url, Carries s.database url (bytes "g")) → s.getFilename (bytes "g") ≠ []) := by
  have hempty : ∀ url guid, ¬ Carries .empty url guid := by
    rintro url guid ⟨-, m, hread, -⟩
    exact value_of_reads hread rfl
  have hnext : ((initial .empty).next (.addSong (bytes "u") songOfGuid)).map
      (fun s => s.getFilename (bytes "g")) = some (bytes "u") := by
    decide
  obtain ⟨s, hs, hname⟩ := Option.map_eq_some_iff.mp hnext
  have hfair : Fair (initial .empty) (.addSong (bytes "u") songOfGuid) :=
    fun _ _ => ⟨by decide, .inr ⟨by decide, by decide⟩⟩
  have hrun : Run (Guarded Fair Step) (initial .empty) [.addSong (bytes "u") songOfGuid] s :=
    .single ⟨hfair, step_of_next hs⟩
  exact ⟨s, hrun, hname, getFilename_right .empty hempty _ s hrun (bytes "g")⟩

/-- A song that has been added and removed is still found by its GUID. -/
theorem getFilename_right_fails :
    ∃ s, Run Step (initial .empty) [.addSong (bytes "u") songOfGuid, .removeSong (bytes "u")] s ∧
      s.getFilename (bytes "g") = bytes "u" ∧ s.database.value (bytes "u") = none := by
  have hexec : (exec next (initial .empty)
      [.addSong (bytes "u") songOfGuid, .removeSong (bytes "u")]).map
        (fun s => (s.getFilename (bytes "g"), s.database.value (bytes "u"))) =
          some (bytes "u", none) := by
    decide
  obtain ⟨s, hs, hboth⟩ := Option.map_eq_some_iff.mp hexec
  obtain ⟨hname, hvalue⟩ := Prod.mk.inj hboth
  exact ⟨s, (Run.of_exec hs).mono fun _ _ _ => step_of_next, hname, hvalue⟩

end GuidCatalog

end FreeAmp.Base
