/-
  Base/MusicCatalogReport.lean --- what the catalog tells of its tracks, from
  `base/src/musiccatalog.cpp`.

  While `m_inUpdateSong` is set, the events of a removal and of an addition are kept for
  the one event that `UpdateSong` sends at its end, and nobody else hears of them.
  `UpdateSong` sets it, and two of its returns leave it so.

      updateSong_reports_iff   when it is cleared, and the song is where it goes

  An item is taken for the URL of its track.  `PruneThread` that sends messages is
  `RemoveSong` of one track after the other; the other one takes the records alone.
-/
import FreeAmp.Base.MusicCatalogUpdate

namespace FreeAmp.Base

open FreeAmp.Lib MusicCatalog

/-! ## Events -/

/-- What is told of a track. -/
inductive TrackEvent where
  /-- `INFO_MusicCatalogTrackAdded` -/
  | added (item : Text)
  /-- `INFO_MusicCatalogTrackRemoved` -/
  | removed (item : Text)
  /-- `INFO_MusicCatalogTrackChanged` -/
  | changed (oldItem newItem : Option Text)
  deriving DecidableEq, Repr

/-- `class MusicCatalog`, as far as its events are concerned. -/
structure Reporter where
  catalog : MusicCatalog
  inUpdateSong : Bool
  surpressAddMessages : Bool
  oldItem : Option Text
  newItem : Option Text
  /-- what `m_context->target` was sent -/
  sent : List TrackEvent

namespace Reporter

/-- A catalog that has just been made, over a database. -/
def initial (db : Database) : Reporter := ⟨.initial db, false, false, none, none, []⟩

/-- `AcceptEvent` of what the catalog sends to itself. -/
def acceptEvent (s : Reporter) : TrackEvent → Reporter
  | .removed item =>
    if s.inUpdateSong then { s with oldItem := some item }
    else { s with sent := s.sent ++ [.removed item] }
  | .added item =>
    if s.inUpdateSong then { s with newItem := some item }
    else if !s.surpressAddMessages then { s with sent := s.sent ++ [.added item] }
    else s
  | .changed _ _ => s

/-- What has become of the catalog, told: there is an event for each track that is put into a list,
and for each that is taken out of one. -/
def follow (s : Reporter) (url : Text) (c : MusicCatalog) : Reporter :=
  let removed := s.catalog.urls.length - c.urls.length
  let added := c.urls.length - s.catalog.urls.length
  let events := List.replicate removed (.removed url) ++ List.replicate added (.added url)
  events.foldl acceptEvent { s with catalog := c }

/-! ## The calls -/

def addSong (s : Reporter) (url : Text) (found : MetaData) :
    Except RecordFault (Error × Reporter) := do
  let r ← s.catalog.addSong url found
  .ok (r.1, s.follow url r.2)

def removeSong (s : Reporter) (url : Text) : Except RecordFault (Error × Reporter) := do
  let r ← s.catalog.removeSong url
  .ok (r.1, s.follow url r.2)

def updateSong (s : Reporter) (item : PlaylistItem) (found : MetaData) :
    Except RecordFault (Error × Reporter) :=
  if !s.catalog.database.working then .ok (.databaseNotWorking, s)
  else do
    let url := cStr item.url
    let r ← removeSong { s with inUpdateSong := true } url
    if isError r.1 then .ok r
    else do
      let s := r.2
      let db ← writeMetaDataToDatabase s.catalog.database url item.metadata .track
      let r ← addSong { s with catalog := { s.catalog with database := db } } url found
      if isError r.1 then .ok r
      else
        let s := { r.2 with inUpdateSong := false }
        .ok (.noErr, { s with sent := s.sent ++ [.changed s.oldItem s.newItem] })

/-- The loop of `RePopulateFromDatabase`. -/
def addKeys (s : Reporter) : List (Text × MetaData) → Except RecordFault Reporter
  | [] => .ok s
  | key :: keys => do
      let r ← s.catalog.add key.1 key.2
      addKeys (s.follow key.1 r.2) keys

def rePopulateFromDatabase (s : Reporter) (keys : List (Text × MetaData)) :
    Except RecordFault (Error × Reporter) :=
  let c := s.catalog
  if !c.database.working then .ok (.databaseNotWorking, s)
  else do
    let old := decide (getSubVersion c.database < databaseSubVersion)
    let cleared := { c.clearCatalog with killGUIDs := if old then true else c.killGUIDs }
    let s ← addKeys { s with catalog := cleared, surpressAddMessages := true } keys
    let c := s.catalog
    let stored :=
      { c with
        database := c.database.insert subVersionKey (showInt databaseSubVersion)
        killGUIDs := if old then false else c.killGUIDs }
    .ok (.noErr, { s with catalog := stored, surpressAddMessages := false })

/-- `PruneThread(false)`; `missing` are the files that `stat` does not find. -/
def prune (s : Reporter) (missing : Text → Bool) : Reporter :=
  let c := s.catalog
  let gone := c.database.keys.filter fun key => (bytes "file://").isPrefixOf key && missing key
  let pruned :=
    { c with
      database := gone.foldl Database.remove c.database
      trackCount := c.trackCount - gone.length }
  { s with catalog := pruned }

def endLookup (s : Reporter) (url : Text) (e : LookupEnd) (found : MetaData) :
    Except RecordFault Reporter :=
  if e.idle then .ok s
  else do
    let url := cStr url
    let c := s.catalog
    let metadata ← readMetaDataFromDatabase c.database url
    let data := e.data (metadata.getD .new)
    let db ← writeMetaDataToDatabase c.database url data .track
    let c := { c with database := db }
    let plitem ← c.getPlaylistItemFromURL url
    if plitem then do
      let r ← updateSong { s with catalog := c } (.create url data) found
      .ok r.2
    else .ok { s with catalog := c }

inductive Call where
  | addSong (url : Text) (found : MetaData)
  | removeSong (url : Text)
  | updateSong (item : PlaylistItem) (found : MetaData)
  | clearCatalog
  | rePopulateFromDatabase (keys : List (Text × MetaData))
  | prune (missing : Text → Bool)
  | endLookup (url : Text) (e : LookupEnd) (found : MetaData)

/-- What a call does. -/
def call (s : Reporter) : Call → Except RecordFault Reporter
  | .addSong url found => (·.2) <$> s.addSong url found
  | .removeSong url => (·.2) <$> s.removeSong url
  | .updateSong item found => (·.2) <$> s.updateSong item found
  | .clearCatalog => .ok { s with catalog := s.catalog.clearCatalog }
  | .rePopulateFromDatabase keys => (·.2) <$> s.rePopulateFromDatabase keys
  | .prune missing => .ok (s.prune missing)
  | .endLookup url e found => s.endLookup url e found

/-- A call that returns. -/
def Step (s : Reporter) (k : Call) (s' : Reporter) : Prop := s.call k = .ok s'

/-! ## What the calls keep -/

section Keeps

/-- What every call keeps of the catalog, but for `m_killGUIDs` within `RePopulateFromDatabase`. -/
structure Keeps (c c' : MusicCatalog) : Prop where
  shelves : Shelves c'.artistList
  killGUIDs : c'.killGUIDs = c.killGUIDs
  working : c'.database.working = c.database.working

variable {c c' : MusicCatalog} {url : Text} {found : MetaData} {err : Error}

theorem Keeps.trans {c'' : MusicCatalog} (h : Keeps c c') (h' : Keeps c' c'') : Keeps c c'' :=
  ⟨h'.shelves, h'.killGUIDs.trans h.killGUIDs, h'.working.trans h.working⟩

theorem keeps_addSong (hshelves : Shelves c.artistList) (hworking : c.database.working = true)
    (hok : c.addSong url found = .ok (err, c')) : Keeps c c' := by
  rcases addSong_split hshelves hworking hok with
    ⟨hartists, _, hkill, hdb, _⟩ | ⟨db, m, hput, hdb, _⟩
  · exact ⟨hartists ▸ hshelves, hkill, hdb.trans hworking.symm⟩
  · exact ⟨hput.shelves, hput.killGUIDs, (hput.stores.working.trans hdb).trans hworking.symm⟩

theorem keeps_removeSong (hshelves : Shelves c.artistList) (hworking : c.database.working = true)
    (hok : c.removeSong url = .ok (err, c')) : Keeps c c' := by
  rcases removeSong_split hshelves hworking hok with ⟨_, _, rfl⟩ | ⟨m, _, _, hout⟩
  · exact ⟨hshelves, rfl, rfl⟩
  · refine ⟨hout.shelves, hout.killGUIDs, ?_⟩
    rw [hout.database]
    rfl

theorem keeps_updateSong {item : PlaylistItem} (hshelves : Shelves c.artistList)
    (hworking : c.database.working = true) (hok : c.updateSong item found = .ok (err, c')) :
    Keeps c c' := by
  unfold MusicCatalog.updateSong at hok
  rw [hworking] at hok
  simp only [Bool.not_true, Bool.false_eq_true, if_false] at hok
  obtain ⟨⟨err', d⟩, hremove, hok⟩ := bind_eq_ok.mp hok
  have hd := keeps_removeSong hshelves hworking hremove
  split at hok
  · obtain ⟨-, rfl⟩ := pair_of_ok hok
    exact hd
  · obtain ⟨db, hwrite, hok⟩ := bind_eq_ok.mp hok
    have hdworking : d.database.working = true := hd.working.trans hworking
    obtain ⟨ost, -, rfl⟩ := writeMetaDataToDatabase_ok hdworking hwrite
    have hadd := keeps_addSong (c := { d with database := d.database.insert _ ost }) hd.shelves
      hdworking hok
    exact ⟨hadd.shelves, hadd.killGUIDs.trans hd.killGUIDs, hadd.working.trans hd.working⟩

theorem keeps_addKeys {keys : List (Text × MetaData)} (hshelves : Shelves c.artistList)
    (hok : c.addKeys keys = .ok c') : Keeps c c' := by
  refine addKeys_induct (P := fun d _ => Keeps c d) (fun _ _ _ h => h) ?_ hok ⟨hshelves, rfl, rfl⟩
  intro d d' key keys err hd hworking _ hadd
  exact hd.trans (keeps_addSong hd.shelves hworking hadd)

end Keeps

/-! ## The catalog of the one who tells -/

section Tells

variable {s s' : Reporter} {url : Text} {found : MetaData} {err : Error}

theorem acceptEvent_same (s : Reporter) (e : TrackEvent) :
    (s.acceptEvent e).catalog = s.catalog ∧
      (s.acceptEvent e).inUpdateSong = s.inUpdateSong ∧
      (s.acceptEvent e).surpressAddMessages = s.surpressAddMessages := by
  unfold acceptEvent
  split
  · split <;> exact ⟨rfl, rfl, rfl⟩
  · split
    · exact ⟨rfl, rfl, rfl⟩
    · split <;> exact ⟨rfl, rfl, rfl⟩
  · exact ⟨rfl, rfl, rfl⟩

theorem acceptEvents_same (events : List TrackEvent) (s : Reporter) :
    (events.foldl acceptEvent s).catalog = s.catalog ∧
      (events.foldl acceptEvent s).inUpdateSong = s.inUpdateSong ∧
      (events.foldl acceptEvent s).surpressAddMessages = s.surpressAddMessages := by
  induction events generalizing s with
  | nil => exact ⟨rfl, rfl, rfl⟩
  | cons e events ih =>
    obtain ⟨hcatalog, hflag, hsurpress⟩ := ih (s.acceptEvent e)
    obtain ⟨hcatalog', hflag', hsurpress'⟩ := acceptEvent_same s e
    exact ⟨hcatalog.trans hcatalog', hflag.trans hflag', hsurpress.trans hsurpress'⟩

@[simp] theorem follow_catalog (s : Reporter) (url : Text) (c : MusicCatalog) :
    (s.follow url c).catalog = c := (acceptEvents_same _ _).1

@[simp] theorem follow_inUpdateSong (s : Reporter) (url : Text) (c : MusicCatalog) :
    (s.follow url c).inUpdateSong = s.inUpdateSong := (acceptEvents_same _ _).2.1

@[simp] theorem follow_surpressAddMessages (s : Reporter) (url : Text) (c : MusicCatalog) :
    (s.follow url c).surpressAddMessages = s.surpressAddMessages := (acceptEvents_same _ _).2.2

theorem addSong_ok (hok : s.addSong url found = .ok (err, s')) :
    ∃ c, s.catalog.addSong url found = .ok (err, c) ∧ s' = s.follow url c := by
  obtain ⟨⟨err', c⟩, hadd, hok⟩ := bind_eq_ok.mp hok
  obtain ⟨rfl, rfl⟩ := pair_of_ok hok
  exact ⟨c, hadd, rfl⟩

theorem removeSong_ok (hok : s.removeSong url = .ok (err, s')) :
    ∃ c, s.catalog.removeSong url = .ok (err, c) ∧ s' = s.follow url c := by
  obtain ⟨⟨err', c⟩, hremove, hok⟩ := bind_eq_ok.mp hok
  obtain ⟨rfl, rfl⟩ := pair_of_ok hok
  exact ⟨c, hremove, rfl⟩

/-- `UpdateSong` does to the catalog what it does there, and `m_inUpdateSong` is then set exactly
when it returns an error. -/
theorem updateSong_ok {item : PlaylistItem} (hworking : s.catalog.database.working = true)
    (hok : s.updateSong item found = .ok (err, s')) :
    s.catalog.updateSong item found = .ok (err, s'.catalog) ∧ s'.inUpdateSong = isError err ∧
      s'.surpressAddMessages = s.surpressAddMessages := by
  unfold updateSong at hok
  unfold MusicCatalog.updateSong
  rw [hworking] at hok ⊢
  simp only [Bool.not_true, Bool.false_eq_true, if_false] at hok ⊢
  obtain ⟨⟨err₁, s₁⟩, hremove, hok⟩ := bind_eq_ok.mp hok
  obtain ⟨c₁, hremoved, rfl⟩ := removeSong_ok hremove
  dsimp only at hremoved hok
  rw [hremoved, ok_bind]
  split at hok
  · rename_i herr
    obtain ⟨rfl, rfl⟩ := pair_of_ok hok
    rw [if_pos herr]
    simp [herr]
  · rename_i herr
    rw [if_neg herr]
    obtain ⟨db, hwrite, hok⟩ := bind_eq_ok.mp hok
    rw [follow_catalog] at hwrite
    dsimp only
    rw [hwrite, ok_bind]
    obtain ⟨⟨err₂, s₂⟩, hadd, hok⟩ := bind_eq_ok.mp hok
    obtain ⟨c₂, hadded, rfl⟩ := addSong_ok hadd
    dsimp only at hadded hok
    rw [follow_catalog] at hadded
    split at hok
    · rename_i herr₂
      obtain ⟨rfl, rfl⟩ := pair_of_ok hok
      simp [hadded, herr₂]
    · rename_i herr₂
      obtain ⟨rfl, rfl⟩ := pair_of_ok hok
      obtain rfl : err₂ = .noErr := by
        cases err₂ <;> first | rfl | exact absurd rfl herr₂
      simp [hadded, isError]

end Tells

/-! ## Every run -/

/-- What holds between two calls. -/
structure Sound (s : Reporter) : Prop where
  shelves : Shelves s.catalog.artistList
  killGUIDs : s.catalog.killGUIDs = false
  surpress : s.surpressAddMessages = false
  idle : s.catalog.database.working = false → s.catalog.urls = []

section Sound

variable {s s' : Reporter}

theorem shelves_nil : Shelves [] := ⟨by simp [Named], nofun, nofun⟩

theorem sound_initial (db : Database) : (initial db).Sound :=
  ⟨shelves_nil, rfl, rfl, fun _ => rfl⟩

/-- A call that keeps the catalog, of a database that works. -/
theorem Sound.kept (h : s.Sound) (hworking : s.catalog.database.working = true)
    (hkeeps : Keeps s.catalog s'.catalog)
    (hsurpress : s'.surpressAddMessages = s.surpressAddMessages) : s'.Sound where
  shelves := hkeeps.shelves
  killGUIDs := hkeeps.killGUIDs.trans h.killGUIDs
  surpress := hsurpress.trans h.surpress
  idle := fun hidle => by
    rw [hkeeps.working, hworking] at hidle
    exact absurd hidle nofun

theorem Sound.idly (h : s.Sound)
    (hcatalog : s'.catalog = s.catalog ∨ s'.catalog = s.catalog.clearCatalog)
    (hsurpress : s'.surpressAddMessages = s.surpressAddMessages) : s'.Sound := by
  rcases hcatalog with hsame | hclear
  · exact ⟨hsame ▸ h.shelves, hsame ▸ h.killGUIDs, hsurpress.trans h.surpress, hsame ▸ h.idle⟩
  · refine ⟨?_, ?_, hsurpress.trans h.surpress, fun _ => ?_⟩
    · rw [hclear]
      exact shelves_nil
    · rw [hclear]
      exact h.killGUIDs
    · rw [hclear]
      rfl

theorem Sound.addSong {url : Text} {found : MetaData} {err : Error} (h : s.Sound)
    (hok : s.addSong url found = .ok (err, s')) : s'.Sound := by
  obtain ⟨c, hadd, rfl⟩ := addSong_ok hok
  cases hworking : s.catalog.database.working with
  | true =>
    refine h.kept hworking ?_ (follow_surpressAddMessages s url c)
    rw [follow_catalog]
    exact keeps_addSong h.shelves hworking hadd
  | false =>
    refine h.idly ?_ (follow_surpressAddMessages s url c)
    rw [follow_catalog]
    exact call_of_not_working (k := .addSong url found) hworking hadd

theorem Sound.removeSong {url : Text} {err : Error} (h : s.Sound)
    (hok : s.removeSong url = .ok (err, s')) : s'.Sound := by
  obtain ⟨c, hremove, rfl⟩ := removeSong_ok hok
  cases hworking : s.catalog.database.working with
  | true =>
    refine h.kept hworking ?_ (follow_surpressAddMessages s url c)
    rw [follow_catalog]
    exact keeps_removeSong h.shelves hworking hremove
  | false =>
    refine h.idly ?_ (follow_surpressAddMessages s url c)
    rw [follow_catalog]
    exact call_of_not_working (k := .removeSong url) hworking hremove

theorem updateSong_of_not_working {item : PlaylistItem} {found : MetaData} {err : Error}
    (hworking : s.catalog.database.working = false)
    (hok : s.updateSong item found = .ok (err, s')) : s' = s := by
  unfold Reporter.updateSong at hok
  rw [hworking] at hok
  exact (pair_of_ok hok).2.symm

theorem Sound.updateSong {item : PlaylistItem} {found : MetaData} {err : Error} (h : s.Sound)
    (hok : s.updateSong item found = .ok (err, s')) : s'.Sound := by
  cases hworking : s.catalog.database.working with
  | true =>
    obtain ⟨hupdate, -, hsurpress⟩ := updateSong_ok hworking hok
    exact h.kept hworking (keeps_updateSong h.shelves hworking hupdate) hsurpress
  | false =>
    rw [updateSong_of_not_working hworking hok]
    exact h

theorem addKeys_ok {keys : List (Text × MetaData)} :
    ∀ {s : Reporter}, s.addKeys keys = .ok s' → s.catalog.addKeys keys = .ok s'.catalog := by
  induction keys with
  | nil =>
    intro s hok
    rw [← Except.ok.inj hok]
    rfl
  | cons key keys ih =>
    intro s hok
    obtain ⟨⟨err, c⟩, hadd, hok⟩ := bind_eq_ok.mp hok
    rw [MusicCatalog.addKeys, hadd, ok_bind]
    exact (follow_catalog s key.1 c) ▸ ih hok

theorem Sound.rePopulateFromDatabase {keys : List (Text × MetaData)} {err : Error} (h : s.Sound)
    (hok : s.rePopulateFromDatabase keys = .ok (err, s')) : s'.Sound := by
  unfold Reporter.rePopulateFromDatabase at hok
  dsimp only at hok
  cases hworking : s.catalog.database.working with
  | false =>
    rw [hworking] at hok
    rw [← (pair_of_ok hok).2]
    exact h
  | true =>
    rw [hworking] at hok
    simp only [Bool.not_true, Bool.false_eq_true, if_false] at hok
    obtain ⟨d, hkeys, hok⟩ := bind_eq_ok.mp hok
    obtain ⟨-, rfl⟩ := pair_of_ok hok
    have hkeeps := keeps_addKeys shelves_nil (addKeys_ok hkeys)
    have hd : d.catalog.database.working = true := hkeeps.working.trans hworking
    refine ⟨hkeeps.shelves, ?_, rfl, fun hidle => absurd (hidle.symm.trans hd) nofun⟩
    show (if _ then false else d.catalog.killGUIDs) = false
    split
    · rfl
    · rename_i hold
      rw [hkeeps.killGUIDs]
      show (if _ then true else s.catalog.killGUIDs) = false
      rw [if_neg hold]
      exact h.killGUIDs

theorem Sound.prune (h : s.Sound) (missing : Text → Bool) : (s.prune missing).Sound := by
  have hworking : ∀ (gone : List Text) (db : Database),
      (gone.foldl Database.remove db).working = db.working := by
    intro gone
    induction gone with
    | nil => exact fun _ => rfl
    | cons key gone ih => exact fun db => ih (db.remove key)
  refine ⟨h.shelves, h.killGUIDs, h.surpress, fun hidle => h.idle ?_⟩
  exact (hworking _ _).symm.trans hidle

theorem Sound.endLookup {url : Text} {e : LookupEnd} {found : MetaData} (h : s.Sound)
    (hok : s.endLookup url e found = .ok s') : s'.Sound := by
  unfold Reporter.endLookup at hok
  split at hok
  · rw [← Except.ok.inj hok]
    exact h
  · obtain ⟨metadata, -, hok⟩ := bind_eq_ok.mp hok
    obtain ⟨db, hwrite, hok⟩ := bind_eq_ok.mp hok
    have hdb : db.working = s.catalog.database.working := by
      cases hworking : s.catalog.database.working with
      | true =>
        obtain ⟨ost, -, rfl⟩ := writeMetaDataToDatabase_ok hworking hwrite
        exact hworking
      | false =>
        unfold writeMetaDataToDatabase at hwrite
        rw [hworking] at hwrite
        rw [← Except.ok.inj hwrite]
        exact hworking
    have hwritten : Sound { s with catalog := { s.catalog with database := db } } :=
      ⟨h.shelves, h.killGUIDs, h.surpress, fun hidle => h.idle (hdb.symm.trans hidle)⟩
    obtain ⟨plitem, -, hok⟩ := bind_eq_ok.mp hok
    split at hok
    · obtain ⟨r, hupdate, hok⟩ := bind_eq_ok.mp hok
      rw [← Except.ok.inj hok]
      exact hwritten.updateSong hupdate
    · rw [← Except.ok.inj hok]
      exact hwritten

theorem Step.sound {k : Call} (h : s.Sound) (hstep : Step s k s') : s'.Sound := by
  have hsnd : ∀ {r : Except RecordFault (Error × Reporter)}, (·.2) <$> r = .ok s' →
      ∃ err, r = .ok (err, s') := by
    intro r hr
    cases r with
    | error f => exact absurd hr nofun
    | ok p => exact ⟨p.1, by rw [← Except.ok.inj hr]⟩
  cases k with
  | addSong url found =>
    obtain ⟨err, hok⟩ := hsnd hstep
    exact h.addSong hok
  | removeSong url =>
    obtain ⟨err, hok⟩ := hsnd hstep
    exact h.removeSong hok
  | updateSong item found =>
    obtain ⟨err, hok⟩ := hsnd hstep
    exact h.updateSong hok
  | clearCatalog =>
    rw [← Except.ok.inj hstep]
    exact h.idly (.inr rfl) rfl
  | rePopulateFromDatabase keys =>
    obtain ⟨err, hok⟩ := hsnd hstep
    exact h.rePopulateFromDatabase hok
  | prune missing =>
    rw [← Except.ok.inj hstep]
    exact h.prune missing
  | endLookup url e found => exact h.endLookup hstep

theorem sound_of_run {db : Database} {calls : List Call} (h : Run Step (initial db) calls s) :
    s.Sound :=
  h.invariant (fun _ _ _ hs hstep => hstep.sound hs) (sound_initial db)

end Sound

/-! ## `UpdateSong` -/

/-- What `UpdateSong` is to leave behind: events are sent on again, and when it returns no error the
song is in the catalog once, where its new metadata says, and so does its record. -/
structure Updates (s' : Reporter) (item : PlaylistItem) (err : Error) : Prop where
  reports : s'.inUpdateSong = false
  once : err = .noErr → s'.catalog.urls.count (cStr item.url) = 1
  placed : err = .noErr → s'.catalog.Placed (recorded item.metadata) (cStr item.url)
  record : err = .noErr → s'.catalog.Reads (cStr item.url) (recorded item.metadata)

section Updates

variable {s s' : Reporter}

/-- `"Unknown"` is given to a name that is empty or a space. -/
theorem nulFree_of_recorded {m : MetaData} (h : (recorded m).NulFree) : m.NulFree := by
  have hblank : ∀ {name : Text}, blank name = true → NulFree name := by
    intro name hname
    unfold blank at hname
    rcases Bool.or_eq_true_iff.mp hname with hempty | hspace
    · rw [List.length_eq_zero_iff.mp (beq_iff_eq.mp hempty)]
      exact nulFree_nil
    · rw [beq_iff_eq.mp hspace]
      decide
  have hname : ∀ {name : Text}, NulFree (if blank name then unknown else name) →
      NulFree name := by
    intro name hnul
    split at hnul
    · rename_i hname
      exact hblank hname
    · exact hnul
  unfold recorded at h
  split at h
  · exact h
  · simp only [MetaData.NulFree, List.forall_mem_cons] at h ⊢
    obtain ⟨hartist, halbum, htitle, hrest⟩ := h
    exact ⟨hartist, hname halbum, hname htitle, hrest⟩

/-- After any run `UpdateSong` of a song of the catalog does what it is to do exactly when the song
is in the catalog once, where its record says, and the new metadata can be stored. -/
theorem updateSong_reports_iff {db : Database} {calls : List Call} {item : PlaylistItem}
    {found : MetaData} {err : Error} (h : Run Step (initial db) calls s)
    (hurl : cStr item.url ∈ s.catalog.urls) (hok : s.updateSong item found = .ok (err, s')) :
    s'.Updates item err ↔
      (∃ m, s.catalog.Reads (cStr item.url) m ∧ s.catalog.Placed m (cStr item.url)) ∧
        s.catalog.urls.count (cStr item.url) = 1 ∧ item.metadata.NulFree := by
  have hsound := sound_of_run h
  have hworking : s.catalog.database.working = true := by
    by_contra hnot
    rw [hsound.idle (Bool.eq_false_iff.mpr hnot)] at hurl
    exact absurd hurl List.not_mem_nil
  obtain ⟨hupdate, hflag, -⟩ := updateSong_ok hworking hok
  rcases updateSong_split hsound.shelves hworking hupdate with
    ⟨hnone, rfl, -⟩ | ⟨m, d, db₁, db₂, m', m'', hupdated⟩
  · constructor
    · intro hdone
      exact absurd (hflag.symm.trans hdone.reports) nofun
    · rintro ⟨⟨m, hm, _⟩, _⟩
      exact absurd (hnone.symm.trans hm) nofun
  · obtain ⟨rfl, rfl⟩ := hupdated.guid hsound.killGUIDs
    constructor
    · intro hdone
      have herr : err = .noErr := by
        have hno := hflag.symm.trans hdone.reports
        cases err <;> first | rfl | exact absurd hno nofun
      have hcount := hdone.once herr
      have hnul := nulFree_of_recorded (nulFree_readMetaDataFromDatabase (hdone.record herr))
      rcases hupdated.put.urls with ⟨hdup, _⟩ | ⟨_, _, _, hput⟩
      · exact absurd (herr.symm.trans hdup) nofun
      · rw [hput.count_eq, List.count_cons_self] at hcount
        have hgone : d.urls.count (cStr item.url) = 0 := Nat.succ.inj hcount
        rcases hupdated.out.urls with ⟨_, hsame⟩ | ⟨hplaced, hout⟩
        · rw [hsame] at hgone
          exact absurd hurl (List.count_eq_zero.mp hgone)
        · refine ⟨⟨m, hupdated.old, hplaced⟩, ?_, hnul⟩
          rw [← hout.count_eq, List.count_cons_self, hgone]
    · rintro ⟨⟨m₁, hm₁, hplaced⟩, hcount, hnul⟩
      obtain rfl : m = m₁ := Option.some.inj (Except.ok.inj (hupdated.old.symm.trans hm₁))
      obtain ⟨rfl, hcount', hplaced'⟩ := hupdated.once hplaced hcount
      have hd : d.database.working = true := by
        rw [hupdated.out.database]
        exact hworking
      have hread := readMetaDataFromDatabase_write hd hnul hupdated.write
      have hsame : m'' = item.metadata ∧ item.metadata.guid.length < 10 ^ 9 := by
        rw [hupdated.read] at hread
        split at hread
        · rename_i hguid
          exact ⟨Option.some.inj (Except.ok.inj hread), hguid⟩
        · exact absurd hread nofun
      obtain ⟨rfl, hguid⟩ := hsame
      exact ⟨hflag, fun _ => hcount', fun _ => hplaced', fun _ => hupdated.put.reads hguid⟩

/-- The song that is updated. -/
def updatedItem : PlaylistItem := .create [117] { oldMetaData with artist := bytes "C" }

/-- A song is moved to another artist. -/
theorem updateSong_reports_moved :
    ∃ s s' : Reporter, Run Step (initial .empty) [.addSong [117] oldMetaData] s ∧
      s.updateSong updatedItem .new = .ok (.noErr, s') ∧ s'.Updates updatedItem .noErr := by
  obtain ⟨s, hadd, hupdate⟩ : ∃ s, (initial .empty).call (.addSong [117] oldMetaData) = .ok s ∧
      ∃ s', s.updateSong updatedItem .new = .ok (.noErr, s') := ⟨_, rfl, _, rfl⟩
  obtain ⟨s', hupdate⟩ := hupdate
  have hrun : Run Step (initial .empty) [.addSong [117] oldMetaData] s := .single hadd
  have hs : s.catalog.urls = [[117]] ∧ s.catalog.Reads [117] oldMetaData ∧
      s.catalog.finds oldMetaData [117] = true := by
    obtain rfl := Except.ok.inj hadd
    exact ⟨rfl, rfl, rfl⟩
  obtain ⟨hurls, hreads, hfinds⟩ := hs
  have hurl : cStr updatedItem.url ∈ s.catalog.urls := by
    rw [hurls]
    exact List.mem_singleton_self _
  have hcount : s.catalog.urls.count (cStr updatedItem.url) = 1 := by
    rw [hurls]
    rfl
  refine ⟨s, s', hrun, hupdate, (updateSong_reports_iff hrun hurl hupdate).mpr
    ⟨⟨oldMetaData, hreads, finds_iff.mp hfinds⟩, hcount, ?_⟩⟩
  decide

/-- A lookup gives a song another artist, and it is then put back: `AddSong` finds it there, and
nothing that is added or removed is told of any more. -/
theorem updateSong_reports_fails :
    ¬ ∀ (s s' : Reporter) (db : Database) (calls : List Call) (item : PlaylistItem)
        (found : MetaData) (err : Error), Run Step (initial db) calls s →
      cStr item.url ∈ s.catalog.urls → s.updateSong item found = .ok (err, s') →
        s'.Updates item err := by
  intro h
  let calls : List Call := [.addSong [117] oldMetaData,
    .endLookup [117] (.lookup (bytes "g") (some { oldMetaData with artist := bytes "C" })) .new]
  obtain ⟨s₁, s, s', hadd, hend, hurls, hupdate, hflag⟩ : ∃ s₁ s s' : Reporter,
      (initial .empty).call (.addSong [117] oldMetaData) = .ok s₁ ∧
      s₁.call (.endLookup [117]
        (.lookup (bytes "g") (some { oldMetaData with artist := bytes "C" })) .new) = .ok s ∧
      s.catalog.urls = [[117]] ∧
      s.updateSong (.create [117] oldMetaData) .new = .ok (.duplicateItem, s') ∧
      s'.inUpdateSong = true := ⟨_, _, _, rfl, rfl, rfl, rfl, rfl⟩
  have hrun : Run Step (initial .empty) calls s := .cons hadd (.single hend)
  have hurl : cStr [117] ∈ s.catalog.urls := by
    rw [hurls]
    exact List.mem_singleton_self _
  have hdone := h s s' .empty calls (.create [117] oldMetaData) .new .duplicateItem hrun hurl hupdate
  exact absurd (hflag.symm.trans hdone.reports) nofun

end Updates

end Reporter

end FreeAmp.Base
